import ManycoreRuntime.DmaCoherence
import ManycoreRuntime.VcacheRange

/-! # A write by DMA of one range

The transfer changes the memory behind a cache, and the invalidations after it drop lines. What the
cache shows afterwards depends on which lines it holds and which of them are dirty. -/
namespace DmaWriteFrame

open Actions
open CacheBanks
open Coordinate (Coord Errno)
open Configuration (Manycore)
open DmaTransfer
open EvaToNpa (Npa)
open Machines (Machine)
open Packets
open Vcache
open VcacheRange
open WriteBackCache

section Definitions

variable (mc : Manycore) (hw : Hardware)

def requestTx (pkt : RequestPacket) : Command Unit := fun s =>
  match hw.transmit s.time with
  | .error e => some (.error e, { s with time := s.time + 1 })
  | .ok _ => some (.ok (), s.send mc hw pkt)

def manycoreDmaWrite (npa : Npa) (data : ℕ) (sz : UInt64) : Command Unit :=
  if !supportsDmaWrite mc then throw .invalid
  else if !mc.dramEnabled then throw .fail
  else do
    dmaWriteNoCacheAinv mc hw npa data sz.toNat
    vcacheInvalidateNpaRange mc (requestTx mc hw) npa sz

end Definitions

section Law

variable (mc : Manycore) (hw : Hardware)

def AinvDrops : Prop :=
  ∀ rqst b, rqst.op = .cacheOp → rqst.regId = cacheOpAinv →
    hw.other rqst b = b.dropBlock (shape mc) (rqst.addr <<< 2).toNat

variable (npa : Npa) (data : ℕ) (sz : UInt64)

def InBytes (c : Coord) (a : ℕ) : Prop :=
  c = ⟨npa.x, npa.y⟩ ∧ npa.epa.toNat ≤ a ∧ a < npa.epa.toNat + sz.toNat

/-- Seen through the caches, the range holds the buffer and all else is as it was. -/
structure WriteFrame (s t : System) : Prop where
  inside : ∀ c a, InBytes npa sz c a →
    (t.settled mc hw c).view (shape mc) a = s.host (data + (a - npa.epa.toNat))
  outside : ∀ c a, ¬ InBytes npa sz c a →
    (t.settled mc hw c).view (shape mc) a = (s.settled mc hw c).view (shape mc) a

def lineBytes : ℤ := ssize sz + (npa.epa &&& (mc.config.vcacheBlockSize - 1)).toNat

def SomeTaken (time : ℕ) (bytes : ℤ) : Prop :=
  ∃ i : ℕ, i * mc.config.vcacheBlockSize.toNat < bytes ∧ hw.transmit (time + i) = .ok ()

/-- The call makes a cache forget an address: all its requests are for the first line of the range,
at the coordinate that is left of the cache's in eight bits. -/
structure Forgotten (s : System) (c : Coord) (a : ℕ) : Prop where
  feature : hasCache mc = true
  cache : c = destination (opPacket mc npa cacheOpAinv)
  line : lineOf mc a = lineOf mc npa.epa.toNat
  taken : SomeTaken mc hw (s.time + 1) (lineBytes mc npa sz)

/-- An address of the range that the cache does not forget is not cached, or cached with the byte of
the buffer; an address outside of it that the cache forgets is not cached, or cached clean. -/
structure FrameCondition (s : System) : Prop where
  stale : ∀ c a v, InBytes npa sz c a → ¬ Forgotten mc hw npa sz s c a →
    (s.settled mc hw c).cached (shape mc) a = some v → v = s.host (data + (a - npa.epa.toNat))
  lost : ∀ c a v, ¬ InBytes npa sz c a → Forgotten mc hw npa sz s c a →
    (s.settled mc hw c).cached (shape mc) a = some v → v = (s.settled mc hw c).memory a

end Law

section Proof

variable {mc : Manycore} {hw : Hardware} {npa : Npa} {data : ℕ} {sz : UInt64} {s t : System}
variable {u : Unit}

theorem respond_ainv (hainv : AinvDrops mc hw) (b : Bank UInt8) :
    respond mc hw b (opPacket mc npa cacheOpAinv) = b.dropBlock (shape mc) npa.epa.toNat := by
  have hblock : ((opPacket mc npa cacheOpAinv).addr <<< 2).toNat / (shape mc).block =
      npa.epa.toNat / (shape mc).block := opPacket_line (.ok ())
  have hother : respond mc hw b (opPacket mc npa cacheOpAinv) =
      hw.other (opPacket mc npa cacheOpAinv) b := by
    simp only [respond, opPacket]
    exact if_neg fun h => absurd h.2 (by decide)
  rw [hother, hainv _ b rfl rfl, Bank.dropBlock_congr hblock]

theorem apply_returns (hcache : hasCache mc = true)
    (h : Returns (vcacheApplyToNpa mc (requestTx mc hw) npa cacheOpAinv) s u t) :
    t = if hw.transmit s.time = .ok () then s.send mc hw (opPacket mc npa cacheOpAinv)
      else { s with time := s.time + 1 } := by
  rw [vcacheApplyToNpa, if_pos hcache] at h
  obtain ⟨pkt, _, hformat, h⟩ := returns_bind.mp h
  obtain ⟨hformat, rfl⟩ := returns_fromExcept.mp hformat
  have hpkt : pkt = opPacket mc npa cacheOpAinv := by
    cases hvalid : dstNpaIsValid mc npa with
    | true =>
      simp only [formatCacheOpRequestPacket, PacketFidelity.formatRequestPacket_eq hvalid]
        at hformat
      cases hformat
      rfl
    | false =>
      simp only [formatCacheOpRequestPacket, formatRequestPacket, hvalid] at hformat
      cases hformat
  subst hpkt
  simp only [Returns, ignoreError, requestTx] at h
  cases htx : hw.transmit s.time with
  | error e =>
    rw [htx] at h
    cases h
    exact (if_neg fun hok => by cases hok).symm
  | ok v =>
    rw [htx] at h
    cases h
    exact (if_pos rfl).symm

theorem turn_settled (hcache : hasCache mc = true) (hainv : AinvDrops mc hw)
    (h : Returns (vcacheApplyToNpa mc (requestTx mc hw) npa cacheOpAinv) s u t) (c : Coord) :
    t.time = s.time + 1 ∧ t.settled mc hw c =
      if hw.transmit s.time = .ok () ∧ c = destination (opPacket mc npa cacheOpAinv) then
        (s.settled mc hw c).dropBlock (shape mc) npa.epa.toNat
      else s.settled mc hw c := by
  rw [apply_returns hcache h]
  by_cases htx : hw.transmit s.time = .ok ()
  · rw [if_pos htx, settled_send, respond_ainv hainv]
    simp only [htx, true_and]
    exact ⟨rfl, trivial⟩
  · rw [if_neg htx, if_neg fun h => htx h.1]
    exact ⟨rfl, rfl⟩

theorem someTaken_iff {time : ℕ} {bytes : ℤ} :
    SomeTaken mc hw time bytes ↔ 0 < bytes ∧ (hw.transmit time = .ok () ∨
      SomeTaken mc hw (time + 1) (bytes - min bytes mc.config.vcacheBlockSize.toNat)) := by
  constructor
  · rintro ⟨i, hi, htx⟩
    cases i with
    | zero => exact ⟨by omega, Or.inl htx⟩
    | succ i =>
      rw [Nat.cast_succ, Int.add_mul, Int.one_mul] at hi
      have hpos : 0 ≤ (i : ℤ) * mc.config.vcacheBlockSize.toNat := by positivity
      refine ⟨by omega, Or.inr ⟨i, by omega, ?_⟩⟩
      rwa [Nat.add_right_comm]
  · rintro ⟨hpos, htx | ⟨i, hi, htx⟩⟩
    · exact ⟨0, by omega, htx⟩
    · have hnonneg : 0 ≤ (i : ℤ) * mc.config.vcacheBlockSize.toNat := by positivity
      refine ⟨i + 1, ?_, ?_⟩
      · rw [Nat.cast_succ, Int.add_mul, Int.one_mul]
        omega
      · rwa [Nat.add_right_comm] at htx

/-- The loop drops the line of the range's address at the cache that its requests go to, if one of
them is taken. -/
theorem applyLines_settled (hcache : hasCache mc = true) (hainv : AinvDrops mc hw) {fuel : ℕ}
    {bytes : ℤ} {epa : UInt32} (h : Returns (applyLines mc (requestTx mc hw) npa cacheOpAinv
      mc.config.vcacheBlockSize fuel bytes epa) s u t) (c : Coord) :
    (c = destination (opPacket mc npa cacheOpAinv) ∧ SomeTaken mc hw s.time bytes →
      t.settled mc hw c = (s.settled mc hw c).dropBlock (shape mc) npa.epa.toNat) ∧
    (¬ (c = destination (opPacket mc npa cacheOpAinv) ∧ SomeTaken mc hw s.time bytes) →
      t.settled mc hw c = s.settled mc hw c) := by
  induction fuel generalizing s bytes epa with
  | zero =>
    obtain ⟨hnone, -⟩ := returns_fromOption.mp h
    cases hnone
  | succ fuel ih =>
    rw [applyLines] at h
    rw [someTaken_iff]
    split at h
    case isFalse hdone =>
      obtain ⟨-, rfl⟩ := returns_pure.mp h
      exact ⟨fun htaken => absurd htaken.2.1 hdone, fun _ => rfl⟩
    case isTrue hpos =>
      obtain ⟨_, s₁, hturn, hrest⟩ := returns_bind.mp h
      obtain ⟨hdrop, hkeep⟩ := ih hrest
      obtain ⟨htime, hsettled⟩ := turn_settled hcache hainv hturn c
      rw [htime, hsettled] at hdrop hkeep
      by_cases hc : c = destination (opPacket mc npa cacheOpAinv)
      · by_cases hlater : SomeTaken mc hw (s.time + 1)
            (bytes - min bytes mc.config.vcacheBlockSize.toNat)
        · refine ⟨fun _ => (hdrop ⟨hc, hlater⟩).trans ?_,
            fun hnone => absurd ⟨hc, hpos, Or.inr hlater⟩ hnone⟩
          split
          · exact Bank.dropBlock_dropBlock _
          · rfl
        · have hsame := hkeep fun h => hlater h.2
          refine ⟨fun htaken => hsame.trans (if_pos ⟨htaken.2.2.resolve_right hlater, hc⟩),
            fun hnone => hsame.trans (if_neg fun h => hnone ⟨hc, hpos, Or.inl h.1⟩)⟩
      · refine ⟨fun htaken => absurd htaken.1 hc, fun _ => ?_⟩
        exact (hkeep fun h => hc h.1).trans (if_neg fun h => hc h.2)

theorem dma_settled (hidle : s.inFlight ⟨npa.x, npa.y⟩ = [])
    (h : Returns (dmaWriteNoCacheAinv mc hw npa data sz.toNat) s u t) (c : Coord) :
    (t.settled mc hw c).lines = (s.settled mc hw c).lines ∧ ∀ a,
      (InBytes npa sz c a →
        (t.settled mc hw c).memory a = s.host (data + (a - npa.epa.toNat))) ∧
      (¬ InBytes npa sz c a → (t.settled mc hw c).memory a = (s.settled mc hw c).memory a) := by
  obtain rfl := DmaCoherence.dmaWrite_returns h
  by_cases hc : c = ⟨npa.x, npa.y⟩
  · subst hc
    rw [settled_of_idle hidle, settled_of_idle (by exact hidle)]
    simp only [Function.update_self]
    refine ⟨rfl, fun a => ⟨?_, fun hout => ?_⟩⟩
    · rintro ⟨-, hlo, hhi⟩
      obtain ⟨j, rfl⟩ := Nat.exists_eq_add_of_le hlo
      rw [Bank.writeMemory_inside (by omega), Nat.add_sub_cancel_left]
    · exact Bank.writeMemory_outside fun j hj ha => hout ⟨rfl, by omega, by omega⟩
  · simp only [System.settled, Function.update_of_ne hc]
    exact ⟨trivial, fun a => ⟨fun hin => absurd hin.1 hc, fun _ => trivial⟩⟩

theorem applyLines_quiet (hcache : ¬ hasCache mc = true) {fuel : ℕ} {bytes : ℤ} {epa : UInt32}
    {bsize : UInt32} (h : Returns (applyLines mc (requestTx mc hw) npa cacheOpAinv bsize fuel bytes
      epa) s u t) : t = s := by
  induction fuel generalizing s bytes epa with
  | zero =>
    obtain ⟨hnone, -⟩ := returns_fromOption.mp h
    cases hnone
  | succ fuel ih =>
    rw [applyLines] at h
    split at h
    · obtain ⟨_, s₁, hturn, hrest⟩ := returns_bind.mp h
      rw [vcacheApplyToNpa, if_neg hcache] at hturn
      obtain ⟨-, rfl⟩ := returns_pure.mp hturn
      exact ih hrest
    · exact (returns_pure.mp h).2.symm

theorem invalidate_settled (hainv : AinvDrops mc hw)
    (h : Returns (vcacheInvalidateNpaRange mc (requestTx mc hw) npa sz) s u t) (c : Coord) :
    (hasCache mc = true ∧ c = destination (opPacket mc npa cacheOpAinv) ∧
        SomeTaken mc hw s.time (lineBytes mc npa sz) ∧
        t.settled mc hw c = (s.settled mc hw c).dropBlock (shape mc) npa.epa.toNat) ∨
      (¬ (hasCache mc = true ∧ c = destination (opPacket mc npa cacheOpAinv) ∧
        SomeTaken mc hw s.time (lineBytes mc npa sz)) ∧
        t.settled mc hw c = s.settled mc hw c) := by
  obtain ⟨bytes, _, hbytes, h⟩ := returns_bind.mp h
  obtain ⟨hbytes, rfl⟩ := returns_fromExcept.mp hbytes
  have hsum : bytes = lineBytes mc npa sz := by
    rw [addSsize] at hbytes
    split at hbytes
    · cases hbytes
      rfl
    · cases hbytes
  subst hsum
  by_cases hcache : hasCache mc = true
  · obtain ⟨hdrop, hkeep⟩ := applyLines_settled hcache hainv h c
    by_cases hreached : c = destination (opPacket mc npa cacheOpAinv) ∧
        SomeTaken mc hw s.time (lineBytes mc npa sz)
    · exact Or.inl ⟨hcache, hreached.1, hreached.2, hdrop hreached⟩
    · exact Or.inr ⟨fun hf => hreached hf.2, hkeep hreached⟩
  · rw [applyLines_quiet hcache h]
    exact Or.inr ⟨fun hf => hcache hf.1, rfl⟩

/-- What the caches show when the call has returned. -/
theorem view_of_returns (hainv : AinvDrops mc hw) (hidle : s.inFlight ⟨npa.x, npa.y⟩ = [])
    (h : Returns (manycoreDmaWrite mc hw npa data sz) s u t) (c : Coord) (a : ℕ) :
    ∃ m, (InBytes npa sz c a → m = s.host (data + (a - npa.epa.toNat))) ∧
      (¬ InBytes npa sz c a → m = (s.settled mc hw c).memory a) ∧
      (Forgotten mc hw npa sz s c a → (t.settled mc hw c).view (shape mc) a = m) ∧
      (¬ Forgotten mc hw npa sz s c a → (t.settled mc hw c).view (shape mc) a =
        ((s.settled mc hw c).cached (shape mc) a).getD m) := by
  rw [manycoreDmaWrite] at h
  split at h
  · exact absurd h not_returns_throw
  split at h
  · exact absurd h not_returns_throw
  obtain ⟨_, s₁, hdma, hinv⟩ := returns_bind.mp h
  obtain ⟨hlines, hmemory⟩ := dma_settled hidle hdma c
  have htime : s₁.time = s.time + 1 := by rw [DmaCoherence.dmaWrite_returns hdma]
  refine ⟨(s₁.settled mc hw c).memory a, (hmemory a).1, (hmemory a).2, ?_, ?_⟩
  · intro hf
    rcases invalidate_settled hainv hinv c with ⟨-, -, -, hdrop⟩ | ⟨hnot, -⟩
    · rw [hdrop, Bank.view_eq_cached, Bank.cached_dropBlock, if_pos (by exact hf.line)]
      rfl
    · exact absurd ⟨hf.feature, hf.cache, htime ▸ hf.taken⟩ hnot
  · intro hf
    rcases invalidate_settled hainv hinv c with ⟨hcache, hc, htaken, hdrop⟩ | ⟨-, hkeep⟩
    · have hline : ¬ a / (shape mc).block = npa.epa.toNat / (shape mc).block :=
        fun hline => hf ⟨hcache, hc, hline, htime ▸ htaken⟩
      rw [hdrop, Bank.view_eq_cached, Bank.cached_dropBlock, if_neg hline,
        Bank.cached_congr hlines]
      rfl
    · rw [hkeep, Bank.view_eq_cached, Bank.cached_congr hlines]

end Proof

/-- The exact law of a write: the range shows the buffer and the rest is as it was if and only if
no address of the range stays cached with another byte, and no address outside is forgotten with a
byte that the memory does not have. -/
theorem dma_write_iff {mc : Manycore} {hw : Hardware} {npa : Npa} {data : ℕ} {sz : UInt64}
    {s t : System} (hainv : AinvDrops mc hw) (hidle : s.inFlight ⟨npa.x, npa.y⟩ = [])
    (h : Returns (manycoreDmaWrite mc hw npa data sz) s () t) :
    WriteFrame mc hw npa data sz s t ↔ FrameCondition mc hw npa data sz s := by
  have hview := view_of_returns hainv hidle h
  constructor
  · intro hlaw
    constructor
    · intro c a v hin hf hcached
      obtain ⟨m, -, -, -, hshown⟩ := hview c a
      rw [← hlaw.inside c a hin, hshown hf, hcached]
      rfl
    · intro c a v hout hf hcached
      obtain ⟨m, -, hm, hshown, -⟩ := hview c a
      have hsame := hlaw.outside c a hout
      rw [hshown hf, hm hout, Bank.view_eq_cached, hcached] at hsame
      exact hsame.symm
  · intro hcond
    constructor
    · intro c a hin
      obtain ⟨m, hm, -, hdrop, hkeep⟩ := hview c a
      by_cases hf : Forgotten mc hw npa sz s c a
      · exact (hdrop hf).trans (hm hin)
      · rw [hkeep hf]
        cases hcached : (s.settled mc hw c).cached (shape mc) a with
        | none => exact hm hin
        | some v => exact hcond.stale c a v hin hf hcached
    · intro c a hout
      obtain ⟨m, -, hm, hdrop, hkeep⟩ := hview c a
      by_cases hf : Forgotten mc hw npa sz s c a
      · rw [hdrop hf, Bank.view_eq_cached, hm hout]
        cases hcached : (s.settled mc hw c).cached (shape mc) a with
        | none => rfl
        | some v => exact (hcond.lost c a v hout hf hcached).symm
      · rw [hkeep hf, Bank.view_eq_cached, hm hout]

def dropping (mc : Manycore) : Hardware :=
  { DmaCoherence.prompt with
    other := fun rqst b =>
      if rqst.op = .cacheOp ∧ rqst.regId = cacheOpAinv then
        b.dropBlock (shape mc) (rqst.addr <<< 2).toNat
      else b }

theorem dropping_ainvDrops (mc : Manycore) : AinvDrops mc (dropping mc) :=
  fun _ _ hop hreg => if_pos ⟨hop, hreg⟩

def machine : Manycore := ⟨({} : Machine).config, true⟩

def writeTwos (sz : UInt64) : Command Unit :=
  manycoreDmaWrite machine (dropping machine) ⟨16, 7, 0⟩ 0 sz

def onesAt (set : ℕ) : System := DmaCoherence.dirtySystem ⟨16, 7⟩ set 0

/-- A write of one byte, beside a line in the next set. -/
theorem dma_write_oneByte : ∃ t,
    Returns (manycoreDmaWrite machine (dropping machine) ⟨16, 7, 0⟩ 0 1) (onesAt 1) () t ∧
    (WriteFrame machine (dropping machine) ⟨16, 7, 0⟩ 0 1 (onesAt 1) t ↔
      FrameCondition machine (dropping machine) ⟨16, 7, 0⟩ 0 1 (onesAt 1)) := by
  obtain ⟨_, t, hrun, -⟩ := exists_returns (x := writeTwos 1) (s := onesAt 1) (fun _ => true)
    (by decide +kernel)
  exact ⟨t, hrun, dma_write_iff (dropping_ainvDrops _) rfl hrun⟩

theorem exists_write (set a : ℕ) (sz : UInt64) (v : UInt8)
    (h : (writeTwos sz (onesAt set)).any (fun r => r.1.isOk &&
      (r.2.settled machine (dropping machine) ⟨16, 7⟩).view (shape machine) a == v) = true) :
    ∃ t, Returns (writeTwos sz) (onesAt set) () t ∧
      (t.settled machine (dropping machine) ⟨16, 7⟩).view (shape machine) a = v := by
  obtain ⟨_, t, hrun, hq⟩ := exists_returns (fun t : System =>
    (t.settled machine (dropping machine) ⟨16, 7⟩).view (shape machine) a == v) h
  exact ⟨t, hrun, beq_iff_eq.mp hq⟩

/-- The byte beside a byte that is written loses what the cache had of it; and of a range of two
lines the second line keeps what the cache had. -/
theorem dma_write_frame_fails :
    (∃ t, Returns (manycoreDmaWrite machine (dropping machine) ⟨16, 7, 0⟩ 0 1) (onesAt 0) () t ∧
      ¬ WriteFrame machine (dropping machine) ⟨16, 7, 0⟩ 0 1 (onesAt 0) t) ∧
    (∃ t, Returns (manycoreDmaWrite machine (dropping machine) ⟨16, 7, 0⟩ 0 256) (onesAt 1) () t ∧
      ¬ WriteFrame machine (dropping machine) ⟨16, 7, 0⟩ 0 256 (onesAt 1) t) ∧
    ¬ ∀ mc hw npa data sz s t, AinvDrops mc hw → DmaCoherence.Ready mc hw s →
      (∀ c, s.inFlight c = []) → Returns (manycoreDmaWrite mc hw npa data sz) s () t →
      WriteFrame mc hw npa data sz s t := by
  obtain ⟨t, hrun, hview⟩ := exists_write 0 1 1 0 (by decide +kernel)
  obtain ⟨t', hrun', hview'⟩ := exists_write 1 128 256 1 (by decide +kernel)
  have hlost : ¬ WriteFrame machine (dropping machine) ⟨16, 7, 0⟩ 0 1 (onesAt 0) t := by
    intro hlaw
    have hsame := hlaw.outside ⟨16, 7⟩ 1 fun h => absurd h.2 (by decide)
    rw [hview] at hsame
    exact absurd hsame (by decide +kernel)
  have hstale : ¬ WriteFrame machine (dropping machine) ⟨16, 7, 0⟩ 0 256 (onesAt 1) t' := by
    intro hlaw
    have hbyte := hlaw.inside ⟨16, 7⟩ 128 ⟨rfl, by decide, by decide⟩
    rw [hview'] at hbyte
    exact absurd hbyte (by decide)
  refine ⟨⟨t, hrun, hlost⟩, ⟨t', hrun', hstale⟩, fun h => hlost ?_⟩
  exact h _ _ _ _ _ _ _ (dropping_ainvDrops _)
    (DmaCoherence.dirtySystem_ready (by decide) (by decide)) (fun _ => rfl) hrun

end DmaWriteFrame
