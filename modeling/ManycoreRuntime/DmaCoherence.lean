import ManycoreRuntime.DmaTransfer

/-! # DMA and the caches

What a transfer by DMA leaves, seen through the caches: no dirty line is lost and no line shows
what the banks held before. -/
namespace DmaCoherence

open Actions
open ByteStore
open CacheBanks
open Coordinate (Coord Errno)
open Configuration (Config Manycore Accepted)
open ConfigPod
open DmaTransfer
open DramTranslation (evaToNpaDram_eq_ok_of_fields fields_bits)
open EvaMemory (placeAt placeAt_of_ok)
open EvaRanges
open EvaToNpa (Npa defaultDramMinXCoord)
open Fallible (bind_eq_ok)
open NpaToEva (evaToNpa defaultMap)
open Packets
open Machines (Machine)
open PodGeometry (Regular cache cacheCount dramId podForeachDram)
open PodMalloc (Pod checkPodId deviceInit isPod_of_mem_deviceInit)
open Vcache
open WriteBackCache
open WriteMem

section Requests

variable {mc : Manycore} {hw : Hardware} {s t : System} {c : Coord} {set way : ℕ} {tag : Npa}

theorem transmit_returns {rqst : Except Errno Unit → Except Errno RequestPacket}
    {pkt : RequestPacket} :
    Returns (transmit mc hw rqst) s pkt t ↔
      rqst (hw.transmit s.time) = .ok pkt ∧ t = s.send mc hw pkt := by
  simp only [Returns, transmit]
  cases rqst (hw.transmit s.time) with
  | error e => simp
  | ok a =>
    simp only [Option.some.injEq, Prod.mk.injEq, Except.ok.injEq]
    constructor
    · rintro ⟨rfl, rfl⟩
      exact ⟨rfl, rfl⟩
    · rintro ⟨rfl, rfl⟩
      exact ⟨rfl, rfl⟩

theorem formatRequestPacket_ok (hfit : FitsPacket mc.config) {pkt pkt' : RequestPacket} {npa : Npa}
    (hword : npa.epa.toNat % 4 = 0) (h : formatRequestPacket mc pkt npa = .ok pkt') :
    destination pkt' = ⟨npa.x, npa.y⟩ ∧ pkt'.addr <<< 2 = npa.epa := by
  unfold formatRequestPacket at h
  split at h
  · next hvalid =>
    cases h
    simp only [dstNpaIsValid, Bool.and_eq_true, decide_eq_true_eq, UInt32.lt_iff_toNat_lt]
      at hvalid
    rw [destination, byte_of_coordinate (lt_of_lt_of_le hvalid.1 hfit.x),
      byte_of_coordinate (lt_of_lt_of_le hvalid.2 hfit.y)]
    exact ⟨rfl, epa_of_word hword⟩
  · cases h

theorem vcacheFlushTag_ok (hcache : hasCache mc = true) (hfit : FitsPacket mc.config)
    (hl : LineTag mc c set way tag) (h : Returns (vcacheFlushTag mc hw tag) s () t) :
    ∃ rqst, destination rqst = c ∧ t = s.send mc hw rqst ∧
      ∀ b, respond mc hw b rqst = b.flushLine (shape mc) set way := by
  rw [vcacheFlushTag, if_pos hcache] at h
  obtain ⟨rqst, s', hsend, h⟩ := returns_bind.mp h
  obtain ⟨-, rfl⟩ := returns_pure.mp h
  obtain ⟨hformat, rfl⟩ := transmit_returns.mp hsend
  simp only [formatCacheOpRequestPacket, bind_eq_ok, pure, Except.pure, Except.ok.injEq] at hformat
  obtain ⟨_, ⟨pkt, hpkt, rfl⟩, -, -, rfl⟩ := hformat
  obtain ⟨hdst, haddr⟩ := formatRequestPacket_ok hfit hl.word hpkt
  refine ⟨_, ?_, rfl, fun b => ?_⟩
  · exact hdst.trans hl.cache
  · simp only [respond, haddr, hl.isTag, hl.set, hl.way, and_self, if_true]

theorem write32_zero_ok (hfit : FitsPacket mc.config) (hl : LineTag mc c set way tag)
    (h : Returns (write32 mc hw tag 0) s () t) :
    ∃ rqst, destination rqst = c ∧ t = s.send mc hw rqst ∧
      ∀ b, respond mc hw b rqst = b.dropLine set way := by
  obtain ⟨rqst, s', hsend, h⟩ := returns_bind.mp h
  obtain ⟨-, rfl⟩ := returns_pure.mp h
  obtain ⟨hformat, rfl⟩ := transmit_returns.mp hsend
  simp only [write, bind_eq_ok, pure, Except.pure, Except.ok.injEq] at hformat
  obtain ⟨pkt, hpkt, -, -, _, rfl, -, -, rfl⟩ := hformat
  obtain ⟨hdst, haddr⟩ := formatRequestPacket_ok hfit hl.word hpkt
  refine ⟨_, ?_, rfl, fun b => ?_⟩
  · exact hdst.trans hl.cache
  · simp only [respond, haddr, hl.isTag, hl.set, hl.way, UInt32.zero_and, and_self, if_true]

variable (hw) in
theorem sendReadRqst_zero_ok (hfit : FitsPacket mc.config) {tx : Except Errno Unit}
    {rqst : RequestPacket} (h : sendReadRqst mc ⟨c.x, c.y, 0⟩ 4 0 tx = .ok rqst) :
    destination rqst = c ∧ ∀ b, respond mc hw b rqst = b.load (shape mc) (hw.victim b 0) 0 := by
  simp only [sendReadRqst, formatLoadRequestPacket, bind_eq_ok, pure, Except.pure,
    Except.ok.injEq] at h
  obtain ⟨_, ⟨pkt, hpkt, rfl⟩, -, -, -, -, rfl⟩ := h
  obtain ⟨hdst, haddr⟩ := formatRequestPacket_ok hfit (rfl : (0 : UInt32).toNat % 4 = 0) hpkt
  refine ⟨hdst, fun b => ?_⟩
  simp only [respond, haddr]
  exact if_pos (by decide)

theorem read32_ok (hfit : FitsPacket mc.config) {word : UInt32}
    (h : Returns (read32 mc hw ⟨c.x, c.y, 0⟩) s word t) :
    ∃ rqst, destination rqst = c ∧ t = (s.send mc hw rqst).drain mc hw c ∧
      ∀ b, respond mc hw b rqst = b.load (shape mc) (hw.victim b 0) 0 := by
  obtain ⟨rqst, s', hsend, h⟩ := returns_bind.mp h
  obtain ⟨hformat, rfl⟩ := transmit_returns.mp hsend
  obtain ⟨hdst, hrespond⟩ := sendReadRqst_zero_ok hw hfit hformat
  simp only [Returns, recvReadRsp] at h
  split at h
  · cases h
  · cases h
    exact ⟨rqst, hdst, congrArg _ hdst, hrespond⟩

end Requests

def IdsLeadBack (cfg : Config) (p : Coord) : Prop :=
  ∀ c, CacheOf cfg p c → ∀ id, dramId cfg c = .ok id → PodGeometry.dram cfg id = .ok c

/-- What the tag addresses of the caches rest on: they lead to the lines, requests reach the caches
that they are for, and the ids lead back to the caches. -/
structure CachesReached (mc : Manycore) (p : Coord) : Prop where
  tags : TagsFit mc
  packets : FitsPacket mc.config
  ids : IdsLeadBack mc.config p

structure SameView (mc : Manycore) (hw : Hardware) (s t : System) : Prop where
  coherent : ∀ c, (t.settled mc hw c).Coherent (shape mc)
  view : ∀ c, (t.settled mc hw c).view (shape mc) = (s.settled mc hw c).view (shape mc)
  host : t.host = s.host

/-- What a flush of a pod's caches keeps, and what it leaves in the banks. -/
structure Flushed (mc : Manycore) (hw : Hardware) (p : Coord) (s t : System) : Prop extends
    SameView mc hw s t where
  idle : ∀ c, CacheOf mc.config p c → t.inFlight c = []
  memory : ∀ c, CacheOf mc.config p c → (t.bank c).memory = (t.settled mc hw c).view (shape mc)
  quiet : hasCache mc = false → t.inFlight = s.inFlight

structure Invalidated (mc : Manycore) (hw : Hardware) (p : Coord) (s t : System) : Prop where
  empty : ∀ c, CacheOf mc.config p c → (t.settled mc hw c).Empty
  memory : ∀ c, (t.settled mc hw c).memory = (s.settled mc hw c).memory
  frame : ∀ c, ¬ CacheOf mc.config p c → t.settled mc hw c = s.settled mc hw c
  host : t.host = s.host
  quiet : hasCache mc = false → t.inFlight = s.inFlight

section Phases

variable {mc : Manycore} {hw : Hardware} {p : Coord} {s t : System} {u : Unit}

theorem CachesReached.lineTag (h : CachesReached mc p) {c : Coord} {cache : UInt32} {set way : ℕ}
    {tag : Npa} (hc : CacheOf mc.config p c) (hid : dramId mc.config c = .ok cache)
    (hset : set < (vcacheNumSets mc).toNat) (hway : way < (vcacheNumWays mc).toNat)
    (htag : vcacheWayNpa mc cache (UInt32.ofNat set) (UInt32.ofNat way) = .ok tag) :
    LineTag mc c set way tag :=
  lineTag_of_wayNpa h.tags (h.ids c hc cache hid) hset hway htag

theorem CachesReached.line_of_tag (h : CachesReached mc p) {tag : Npa} (htag : TagOf mc p tag) :
    ∃ c set way, CacheOf mc.config p c ∧ LineTag mc c set way tag := by
  obtain ⟨drams, hdrams, c, hc, cache, hid, set, hset, way, hway, hnpa⟩ := htag
  exact ⟨c, set, way, ⟨drams, hdrams, hc⟩, h.lineTag ⟨drams, hdrams, hc⟩ hid hset hway hnpa⟩

theorem CachesReached.block_pos (h : CachesReached mc p) : 0 < (shape mc).block := by
  obtain ⟨b, hb⟩ := h.tags.block
  show 0 < mc.config.vcacheBlockSize.toNat
  rw [hb]
  exact Nat.two_pow_pos b

def Bounded (mc : Manycore) (b : Bank UInt8) : Prop :=
  ∀ set way l, b.lines set way = some l → set < (shape mc).sets ∧ way < (shape mc).ways

theorem bounded_of_coherent {b : Bank UInt8} (h : b.Coherent (shape mc)) : Bounded mc b :=
  fun _ _ _ hl => h.shape hl

theorem Bounded.line (hcache : hasCache mc = true) {b : Bank UInt8} (hb : Bounded mc b)
    {set way : ℕ} {l : Line UInt8} (hl : b.lines set way = some l) :
    set < (vcacheNumSets mc).toNat ∧ way < (vcacheNumWays mc).toNat := by
  obtain ⟨hset, hway⟩ := hb set way l hl
  rw [shape, if_pos hcache] at hway
  exact ⟨hset, hway⟩

theorem Bounded.empty (hcache : ¬ hasCache mc = true) {b : Bank UInt8} (hb : Bounded mc b) :
    b.Empty := by
  intro set way
  cases hl : b.lines set way with
  | none => rfl
  | some l =>
    obtain ⟨-, hway⟩ := hb set way l hl
    rw [shape, if_neg hcache] at hway
    exact absurd hway (Nat.not_lt_zero way)

theorem SameView.send {rqst : RequestPacket} (h : SameView mc hw s t)
    (hrespond : ∀ b : Bank UInt8, b.Coherent (shape mc) →
      (respond mc hw b rqst).Coherent (shape mc) ∧
        (respond mc hw b rqst).view (shape mc) = b.view (shape mc)) :
    SameView mc hw s (t.send mc hw rqst) := by
  refine ⟨fun c => ?_, fun c => ?_, h.host⟩
  · rw [settled_send]
    split
    · exact (hrespond _ (h.coherent c)).1
    · exact h.coherent c
  · rw [settled_send, ← h.view c]
    split
    · exact (hrespond _ (h.coherent c)).2
    · rfl

theorem SameView.drain (h : SameView mc hw s t) (c : Coord) :
    SameView mc hw s (t.drain mc hw c) := by
  refine ⟨fun c' => ?_, fun c' => ?_, h.host⟩
  · rw [settled_drain]
    exact h.coherent c'
  · rw [settled_drain]
    exact h.view c'

/-- The flushes of the tags write all dirty lines of the pod's caches back. -/
theorem flushTags_ok (hcache : hasCache mc = true) (hreach : CachesReached mc p)
    (hcoh : ∀ c, (s.settled mc hw c).Coherent (shape mc))
    (h : Returns (podApplyToVcache mc p (vcacheFlushTag mc hw)) s u t) :
    SameView mc hw s t ∧ ∀ c, CacheOf mc.config p c → (t.settled mc hw c).Clean := by
  have hsame : SameView mc hw s t := by
    refine podApplyToVcache_keeps (P := fun t => SameView mc hw s t) h
      ⟨hcoh, fun _ => rfl, rfl⟩ ?_
    intro tag s' t htag hf hs
    obtain ⟨c, set, way, -, hl⟩ := hreach.line_of_tag htag
    obtain ⟨rqst, -, rfl, hrespond⟩ := vcacheFlushTag_ok hcache hreach.packets hl hf
    refine hs.send fun b hb => ?_
    rw [hrespond]
    exact ⟨Bank.flushLine_coherent hb, Bank.flushLine_view hb⟩
  refine ⟨hsame, fun c hc set way l hl => ?_⟩
  obtain ⟨hset, hway⟩ := (bounded_of_coherent (hsame.coherent c)).line hcache hl
  refine podApplyToVcache_all (Q := fun c set way s => (s.settled mc hw c).CleanAt set way)
    hcache h ?_ ?_ c hc set hset way hway l hl
  · intro c cache set way tag s t hc hid hset hway htag hf
    have hline := hreach.lineTag hc hid hset hway htag
    obtain ⟨rqst, hdst, rfl, hrespond⟩ := vcacheFlushTag_ok hcache hreach.packets hline hf
    rw [settled_send, if_pos hdst.symm, hrespond]
    exact Bank.flushLine_cleanAt
  · intro c set way tag s t htag hf hclean
    obtain ⟨c', set', way', -, hline⟩ := hreach.line_of_tag htag
    obtain ⟨rqst, -, rfl, hrespond⟩ := vcacheFlushTag_ok hcache hreach.packets hline hf
    rw [settled_send]
    split
    · rw [hrespond]
      exact hclean.flushLine
    · exact hclean

theorem wait_turn (hreach : CachesReached mc p) {c : Coord} (hc : CacheOf mc.config p c)
    (h : Returns (do
      let cache_id ← fromExcept (dramId mc.config c)
      let way_addr ← fromExcept (vcacheWayNpa mc cache_id 0 0)
      let _ ← read32 mc hw { way_addr with epa := 0 }) s u t) :
    ∃ rqst, destination rqst = c ∧ t = (s.send mc hw rqst).drain mc hw c ∧
      ∀ b, respond mc hw b rqst = b.load (shape mc) (hw.victim b 0) 0 := by
  obtain ⟨cache, s₁, hret, h⟩ := returns_bind.mp h
  obtain ⟨hid, rfl⟩ := returns_fromExcept.mp hret
  obtain ⟨way_addr, s₂, hret, h⟩ := returns_bind.mp h
  obtain ⟨hnpa, rfl⟩ := returns_fromExcept.mp hret
  obtain ⟨word, s₃, hread, h⟩ := returns_bind.mp h
  obtain ⟨-, rfl⟩ := returns_pure.mp h
  simp only [vcacheWayNpa, hreach.ids c hc cache hid, bind_eq_ok, Except.ok.injEq, pure,
    Except.pure] at hnpa
  obtain ⟨_, rfl, epa, -, rfl⟩ := hnpa
  exact read32_ok hreach.packets hread

theorem wait_turn_keeps (hreach : CachesReached mc p) {c : Coord} (hc : CacheOf mc.config p c)
    {s' : System} (h : Returns (do
      let cache_id ← fromExcept (dramId mc.config c)
      let way_addr ← fromExcept (vcacheWayNpa mc cache_id 0 0)
      let _ ← read32 mc hw { way_addr with epa := 0 }) s' u t)
    (hsame : SameView mc hw s s')
    (hclean : ∀ c, CacheOf mc.config p c → (s'.settled mc hw c).Clean) :
    SameView mc hw s t ∧ ∀ c, CacheOf mc.config p c → (t.settled mc hw c).Clean := by
  obtain ⟨rqst, -, rfl, hrespond⟩ := wait_turn hreach hc h
  refine ⟨(hsame.send fun b hb => ?_).drain c, fun c' hc' => ?_⟩
  · rw [hrespond]
    exact ⟨Bank.load_coherent hb, Bank.load_view hreach.block_pos hb⟩
  · rw [settled_drain, settled_send]
    split
    · rw [hrespond]
      exact Bank.load_clean (hclean c' hc')
    · exact hclean c' hc'

theorem podFlushVcache_ok (hreach : hasCache mc = true → CachesReached mc p)
    (hidle : hasCache mc = false → ∀ c, s.inFlight c = [])
    (hcoh : ∀ c, (s.settled mc hw c).Coherent (shape mc))
    (h : Returns (podFlushVcache mc hw p) s u t) : Flushed mc hw p s t := by
  rw [podFlushVcache] at h
  split at h
  · next hcache =>
    have hreach := hreach hcache
    obtain ⟨_, s₁, htags, h⟩ := returns_bind.mp h
    obtain ⟨hsame₁, hclean₁⟩ := flushTags_ok hcache hreach hcoh htags
    obtain ⟨drams, s₂, hret, hwait⟩ := returns_bind.mp h
    obtain ⟨hdrams, rfl⟩ := returns_fromOption.mp hret
    have hmem : ∀ c, CacheOf mc.config p c → c ∈ drams := by
      rintro c ⟨drams', hdrams', hc⟩
      rw [hdrams] at hdrams'
      cases hdrams'
      exact hc
    have hkept : SameView mc hw s t ∧ ∀ c, CacheOf mc.config p c → (t.settled mc hw c).Clean := by
      refine forM_returns (P := fun _ t => SameView mc hw s t ∧
        ∀ c, CacheOf mc.config p c → (t.settled mc hw c).Clean) hwait ⟨hsame₁, hclean₁⟩ ?_
      rintro _ c s' t hc hf ⟨hsame, hclean⟩
      exact wait_turn_keeps hreach ⟨drams, hdrams, hc⟩ hf hsame hclean
    have hidle : ∀ c ∈ drams, t.inFlight c = [] := by
      refine forM_all (Q := fun c s => s.inFlight c = []) hwait ?_ ?_
      · intro c s t hc hf
        obtain ⟨rqst, -, rfl, -⟩ := wait_turn hreach ⟨drams, hdrams, hc⟩ hf
        exact inFlight_drain_self
      · intro c c' s t hc' hf hs
        obtain ⟨rqst, hdst, rfl, -⟩ := wait_turn hreach ⟨drams, hdrams, hc'⟩ hf
        by_cases hne : c = c'
        · subst hne
          exact inFlight_drain_self
        · exact inFlight_drain (inFlight_send_ne hs fun he => hne (he.trans hdst))
    obtain ⟨hsame, hclean⟩ := hkept
    refine ⟨hsame, fun c hc => hidle c (hmem c hc), fun c hc => ?_,
      fun hno => absurd (hcache.symm.trans hno) (by decide)⟩
    have hbank : t.settled mc hw c = t.bank c := settled_of_idle (hidle c (hmem c hc))
    rw [← Bank.memory_eq_view hreach.block_pos (hsame.coherent c) (hclean c hc), hbank]
  · next hcache =>
    obtain ⟨-, rfl⟩ := returns_pure.mp h
    have hnone := hidle (eq_false_of_ne_true hcache)
    refine ⟨⟨hcoh, fun _ => rfl, rfl⟩, fun c _ => hnone c, fun c _ => ?_, fun _ => rfl⟩
    have hempty := (bounded_of_coherent (hcoh c)).empty hcache
    rw [Bank.view_of_empty hempty, settled_of_idle (hnone c)]

structure Dropped (mc : Manycore) (hw : Hardware) (p : Coord) (s t : System) : Prop where
  memory : ∀ c, (t.settled mc hw c).memory = (s.settled mc hw c).memory
  lines : ∀ c set way, (s.settled mc hw c).lines set way = none →
    (t.settled mc hw c).lines set way = none
  frame : ∀ c, ¬ CacheOf mc.config p c → t.settled mc hw c = s.settled mc hw c
  host : t.host = s.host

theorem dropTag_ok (hreach : CachesReached mc p) {tag : Npa} (htag : TagOf mc p tag)
    (h : Returns (write32 mc hw tag 0) s () t) : ∃ c set way, CacheOf mc.config p c ∧
      t.host = s.host ∧ ∀ c', t.settled mc hw c' =
        if c' = c then (s.settled mc hw c').dropLine set way else s.settled mc hw c' := by
  obtain ⟨c, set, way, hc, hline⟩ := hreach.line_of_tag htag
  obtain ⟨rqst, hdst, rfl, hrespond⟩ := write32_zero_ok hreach.packets hline h
  refine ⟨c, set, way, hc, rfl, fun c' => ?_⟩
  rw [settled_send, hrespond, hdst]

theorem Dropped.dropTag (hreach : CachesReached mc p) {tag : Npa} {s' : System}
    (htag : TagOf mc p tag) (h : Returns (write32 mc hw tag 0) s' () t)
    (hs : Dropped mc hw p s s') : Dropped mc hw p s t := by
  obtain ⟨c, set, way, hc, hhost, hstep⟩ := dropTag_ok hreach htag h
  refine ⟨fun c' => ?_, fun c' set' way' hn => ?_, fun c' hc' => ?_, hhost.trans hs.host⟩
  · rw [hstep, ← hs.memory c']
    split <;> rfl
  · rw [hstep]
    split
    · exact Bank.dropLine_none (hs.lines c' set' way' hn)
    · exact hs.lines c' set' way' hn
  · have hne : c' ≠ c := fun he => hc' (he ▸ hc)
    rw [hstep, if_neg hne]
    exact hs.frame c' hc'

/-- After the invalidation no line of the pod's caches is left, and the memory is as before. -/
theorem podInvalidateVcache_ok (hreach : hasCache mc = true → CachesReached mc p)
    (hbound : ∀ c, Bounded mc (s.settled mc hw c))
    (h : Returns (podInvalidateVcache mc hw p) s u t) : Invalidated mc hw p s t := by
  by_cases hcache : hasCache mc = true
  · have hreach := hreach hcache
    have hdropped : Dropped mc hw p s t := by
      refine podApplyToVcache_keeps (P := fun t => Dropped mc hw p s t) h
        ⟨fun _ => rfl, fun _ _ _ hn => hn, fun _ _ => rfl, rfl⟩ ?_
      intro tag s' t htag hf hs
      exact hs.dropTag hreach htag hf
    refine ⟨fun c hc set way => ?_, hdropped.memory, hdropped.frame, hdropped.host,
      fun hno => absurd (hcache.symm.trans hno) (by decide)⟩
    cases hl : (s.settled mc hw c).lines set way with
    | none => exact hdropped.lines c set way hl
    | some l =>
      obtain ⟨hset, hway⟩ := (hbound c).line hcache hl
      refine podApplyToVcache_all (Q := fun c set way s =>
        (s.settled mc hw c).lines set way = none) hcache h ?_ ?_ c hc set hset way hway
      · intro c cache set way tag s t hc hid hset hway htag hf
        have hline := hreach.lineTag hc hid hset hway htag
        obtain ⟨rqst, hdst, rfl, hrespond⟩ := write32_zero_ok hreach.packets hline hf
        rw [settled_send, if_pos hdst.symm, hrespond]
        exact Bank.dropLine_self
      · intro c set way tag s t htag hf hn
        obtain ⟨c', set', way', -, -, hstep⟩ := dropTag_ok hreach htag hf
        rw [hstep]
        split
        · exact Bank.dropLine_none hn
        · exact hn
  · rw [podInvalidateVcache, podApplyToVcache, if_neg hcache] at h
    obtain ⟨-, rfl⟩ := returns_pure.mp h
    exact ⟨fun c _ => (hbound c).empty hcache, fun _ => rfl, fun _ _ => rfl, rfl, fun _ => rfl⟩

end Phases

def memoryOf (s : System) (npa : Npa) : UInt8 := (s.bank ⟨npa.x, npa.y⟩).memory npa.epa.toNat

/-- The range of a job consists of DRAM addresses that name caches of the pod. -/
structure DramJob (mc : Manycore) (p : Coord) (job : DmaJob) : Prop where
  dram : ∀ k < job.size, 2 ^ 31 ≤ (advance job.dAddr k).toNat
  cache : ∀ k < job.size, ∃ npa n,
    evaToNpa mc defaultMap (podVcoreOrigin mc.config p) (advance job.dAddr k) = .ok (npa, n) ∧
    CacheOf mc.config p ⟨npa.x, npa.y⟩

def jobPlace (mc : Manycore) (p : Coord) (job : DmaJob) (k : ℕ) : Npa :=
  placeAt mc (podVcoreOrigin mc.config p) job.dAddr k

def jobLog (mc : Manycore) (p : Coord) (host : ℕ → UInt8) (job : DmaJob) : List (Npa × UInt8) :=
  (List.range job.size).map fun k => (jobPlace mc p job k, host (job.hAddr + k))

def hostLog (mc : Manycore) (p : Coord) (m : Npa → UInt8) (job : DmaJob) : List (ℕ × UInt8) :=
  (List.range job.size).map fun k => (job.hAddr + k, m (jobPlace mc p job k))

structure Overwritten (mc : Manycore) (p : Coord) (s : System) (log : List (Npa × UInt8))
    (t : System) : Prop where
  memory : memoryOf t = applyLog (memoryOf s) log
  lines : ∀ c, (t.bank c).lines = (s.bank c).lines
  frame : ∀ c, ¬ CacheOf mc.config p c → t.bank c = s.bank c
  inFlight : t.inFlight = s.inFlight
  host : t.host = s.host

structure Copied (s : System) (log : List (ℕ × UInt8)) (t : System) : Prop where
  host : t.host = applyLog s.host log
  bank : t.bank = s.bank
  inFlight : t.inFlight = s.inFlight

section Transfers

variable {mc : Manycore} {hw : Hardware} {p : Coord} {s t : System} {job : DmaJob}

theorem DramJob.bound (h : DramJob mc p job) : job.dAddr.toNat + job.size ≤ 2 ^ 32 := by
  by_contra hwrap
  have hlt := job.dAddr.toNat_lt
  have hzero := h.dram (2 ^ 32 - job.dAddr.toNat) (by omega)
  rw [advance, UInt32.toNat_add, UInt32.toNat_ofNat'] at hzero
  omega

theorem DramJob.advance_toNat (h : DramJob mc p job) {k : ℕ} (hk : k < job.size) :
    (advance job.dAddr k).toNat = job.dAddr.toNat + k := by
  have := h.bound
  exact EvaRanges.advance_toNat (by omega)

theorem DramJob.chunk (h : DramJob mc p job) {off n : ℕ} {npa : Npa} (hoff : off < job.size)
    (ht : evaToNpa mc defaultMap (podVcoreOrigin mc.config p) (advance job.dAddr off) =
      .ok (npa, n)) :
    CacheOf mc.config p ⟨npa.x, npa.y⟩ ∧ npa.epa.toNat + min (job.size - off) n ≤ 2 ^ 32 ∧
      ∀ j < min (job.size - off) n, jobPlace mc p job (off + j) = addEpa npa j := by
  obtain ⟨npa₀, n₀, ht₀, hcache⟩ := h.cache off hoff
  rw [ht₀] at ht
  cases ht
  have hchunk : ∀ j < min (job.size - off) n,
      jobPlace mc p job (off + j) = addEpa npa j ∧ npa.epa.toNat + j < 2 ^ 32 := by
    intro j hj
    obtain ⟨npa', n', ht', -⟩ := h.cache (off + j) (by omega)
    have hval := h.advance_toNat hoff
    have hval' := h.advance_toNat (by omega : off + j < job.size)
    obtain ⟨hplace, hlt⟩ := dram_place (fields_bits mc) (h.dram off hoff)
      (by rw [hval, hval', Nat.add_assoc]) (by omega : j < n) ht₀ ht'
    refine ⟨?_, hlt⟩
    rw [jobPlace, placeAt_of_ok ht', hplace]
  refine ⟨hcache, ?_, fun j hj => (hchunk j hj).1⟩
  have hlt := npa.epa.toNat_lt
  rcases Nat.eq_zero_or_pos (min (job.size - off) n) with hz | hpos
  · omega
  · have hlast := (hchunk (min (job.size - off) n - 1) (by omega)).2
    omega

theorem Overwritten.refl (s : System) : Overwritten mc p s [] s :=
  ⟨rfl, fun _ => rfl, fun _ _ => rfl, rfl, rfl⟩

theorem Overwritten.trans {log log' : List (Npa × UInt8)} {u : System}
    (h : Overwritten mc p s log t) (h' : Overwritten mc p t log' u) :
    Overwritten mc p s (log ++ log') u where
  memory := by rw [h'.memory, h.memory, applyLog_append]
  lines c := (h'.lines c).trans (h.lines c)
  frame c hc := (h'.frame c hc).trans (h.frame c hc)
  inFlight := h'.inFlight.trans h.inFlight
  host := h'.host.trans h.host

theorem Copied.trans {log log' : List (ℕ × UInt8)} {u : System} (h : Copied s log t)
    (h' : Copied t log' u) : Copied s (log ++ log') u where
  host := by rw [h'.host, h.host, applyLog_append]
  bank := h'.bank.trans h.bank
  inFlight := h'.inFlight.trans h.inFlight

theorem addEpa_inj_of_lt {npa : Npa} {sz i j : ℕ} (hroom : npa.epa.toNat + sz ≤ 2 ^ 32)
    (hi : i < sz) (hj : j < sz) (h : addEpa npa i = addEpa npa j) : i = j := by
  have hval := congrArg (fun npa => npa.epa.toNat) h
  simp only [addEpa, UInt32.toNat_add, UInt32.toNat_ofNat'] at hval
  omega

theorem memoryOf_writeMemory {npa : Npa} {sz : ℕ} {data : ℕ → UInt8}
    (hroom : npa.epa.toNat + sz ≤ 2 ^ 32)
    (hbank : t.bank = Function.update s.bank ⟨npa.x, npa.y⟩
      ((s.bank ⟨npa.x, npa.y⟩).writeMemory npa.epa.toNat sz data)) :
    memoryOf t = applyLog (memoryOf s) ((List.range sz).map fun j => (addEpa npa j, data j)) := by
  have hval : ∀ j < sz, (addEpa npa j).epa.toNat = npa.epa.toNat + j := by
    intro j hj
    simp only [addEpa, UInt32.toNat_add, UInt32.toNat_ofNat']
    omega
  refine eq_applyLog ?_ ?_ ?_
  · rw [List.map_map]
    refine List.Nodup.map_on ?_ List.nodup_range
    intro i hi j hj he
    exact addEpa_inj_of_lt hroom (List.mem_range.mp hi) (List.mem_range.mp hj) he
  · intro w hw
    obtain ⟨j, hj, rfl⟩ := List.mem_map.mp hw
    have hj := List.mem_range.mp hj
    show (t.bank ⟨npa.x, npa.y⟩).memory (addEpa npa j).epa.toNat = data j
    rw [hbank, Function.update_self, hval j hj, Bank.writeMemory_inside hj]
  · intro q hq
    by_cases hc : (⟨q.x, q.y⟩ : Coord) = ⟨npa.x, npa.y⟩
    · have hout : ∀ j < sz, q.epa.toNat ≠ npa.epa.toNat + j := by
        intro j hj he
        refine hq ?_
        have hepa : (addEpa npa j).epa = q.epa := UInt32.toNat_inj.mp ((hval j hj).trans he.symm)
        rw [Coord.mk.injEq] at hc
        have hplace : addEpa npa j = q := by
          obtain ⟨x, y, epa⟩ := q
          obtain ⟨rfl, rfl⟩ := hc
          exact congrArg (Npa.mk npa.x npa.y) hepa
        rw [List.map_map]
        exact List.mem_map.mpr ⟨j, List.mem_range.mpr hj, hplace⟩
      simp only [memoryOf, hbank, hc, Function.update_self, Bank.writeMemory_outside hout]
    · simp only [memoryOf, hbank, Function.update_of_ne hc]

theorem dmaWrite_returns {npa : Npa} {data sz : ℕ} {u : Unit}
    (h : Returns (dmaWriteNoCacheAinv mc hw npa data sz) s u t) :
    t = { s with
      time := s.time + 1
      bank := Function.update s.bank ⟨npa.x, npa.y⟩ ((s.bank ⟨npa.x, npa.y⟩).writeMemory
        npa.epa.toNat sz fun j => s.host (data + j)) } := by
  simp only [Returns, dmaWriteNoCacheAinv] at h
  split at h
  · cases h
  split at h
  · cases h
  split at h
  · cases h
  simp only [dmaWrite] at h
  split at h
  · cases h
  simp only [Option.some.injEq, Prod.mk.injEq, true_and] at h
  exact h.symm

theorem dmaWrite_ok {npa : Npa} {data sz : ℕ} (hcache : CacheOf mc.config p ⟨npa.x, npa.y⟩)
    (hroom : npa.epa.toNat + sz ≤ 2 ^ 32)
    (h : Returns (dmaWriteNoCacheAinv mc hw npa data sz) s () t) :
    Overwritten mc p s ((List.range sz).map fun j => (addEpa npa j, s.host (data + j))) t := by
  obtain rfl := dmaWrite_returns h
  refine ⟨memoryOf_writeMemory hroom rfl, fun c => ?_, fun c hc => ?_, rfl, rfl⟩
  · by_cases hc : c = ⟨npa.x, npa.y⟩
    · subst hc
      simp only [Function.update_self]
      rfl
    · simp only [Function.update_of_ne hc]
  · have hne : c ≠ ⟨npa.x, npa.y⟩ := fun he => hc (he ▸ hcache)
    simp only [Function.update_of_ne hne]

theorem dmaRead_ok {npa : Npa} {data sz : ℕ} (hroom : npa.epa.toNat + sz ≤ 2 ^ 32)
    (h : Returns (dmaReadNoCacheAfl mc hw npa data sz) s () t) :
    Copied s ((List.range sz).map fun j => (data + j, memoryOf s (addEpa npa j))) t := by
  simp only [Returns, dmaReadNoCacheAfl] at h
  split at h
  · cases h
  split at h
  · cases h
  split at h
  · cases h
  simp only [dmaRead] at h
  split at h
  · cases h
  cases h
  refine ⟨eq_applyLog ?_ ?_ ?_, rfl, rfl⟩
  · rw [List.map_map]
    exact List.nodup_range.map fun i j he => Nat.add_left_cancel he
  · intro w hw
    obtain ⟨j, hj, rfl⟩ := List.mem_map.mp hw
    have hj := List.mem_range.mp hj
    have hval : (addEpa npa j).epa.toNat = npa.epa.toNat + j := by
      simp only [addEpa, UInt32.toNat_add, UInt32.toNat_ofNat']
      omega
    simp only [memoryOf, hval]
    rw [if_pos (by omega), Nat.add_sub_cancel_left]
    rfl
  · intro a ha
    refine if_neg ?_
    rintro ⟨hle, hlt⟩
    refine ha ?_
    rw [List.map_map]
    refine List.mem_map.mpr ⟨a - data, List.mem_range.mpr (by omega), ?_⟩
    simp only [Function.comp_apply]
    omega

/-- The bytes of the next chunk of a job come behind those before it. -/
theorem log_chunk {κ ν : Type} {f : ℕ → κ × ν} {g : ℕ → κ × ν} {off xfer : ℕ}
    (h : ∀ j < xfer, g j = f (off + j)) :
    (List.range off).map f ++ (List.range xfer).map g = (List.range (off + xfer)).map f := by
  have hg : (List.range xfer).map g = ((List.range xfer).map (off + ·)).map f := by
    rw [List.map_map]
    exact List.map_congr_left fun j hj => h j (List.mem_range.mp hj)
  rw [hg, ← List.map_append, ← List.range_add]

theorem evaWriteDma_ok (hjob : DramJob mc p job)
    (h : Returns (evaWriteDma mc hw (podVcoreOrigin mc.config p) job.dAddr job.hAddr job.size)
      s () t) : Overwritten mc p s (jobLog mc p s.host job) t := by
  refine ChunkedTransfer.transferFrom_success (P := fun off t => Overwritten mc p s
    ((List.range off).map fun k => (jobPlace mc p job k, s.host (job.hAddr + k))) t) h
    (advance_zero _) (advance_advance _) ?_ (.refl s)
  intro off npa n s₁ s₂ hoff ht hx hs
  obtain ⟨hcache, hroom, hchunk⟩ := hjob.chunk hoff ht
  have hnext := hs.trans (dmaWrite_ok hcache hroom hx)
  rw [hs.host, log_chunk] at hnext
  · exact hnext
  · intro j hj
    rw [hchunk j hj, Nat.add_assoc]

theorem evaReadDma_ok (hjob : DramJob mc p job)
    (h : Returns (evaReadDma mc hw (podVcoreOrigin mc.config p) job.dAddr job.hAddr job.size)
      s () t) : Copied s (hostLog mc p (memoryOf s) job) t := by
  refine ChunkedTransfer.transferFrom_success (P := fun off t => Copied s
    ((List.range off).map fun k => (job.hAddr + k, memoryOf s (jobPlace mc p job k))) t) h
    (advance_zero _) (advance_advance _) ?_ ⟨rfl, rfl, rfl⟩
  intro off npa n s₁ s₂ hoff ht hx hs
  obtain ⟨-, hroom, hchunk⟩ := hjob.chunk hoff ht
  have hmemory : memoryOf s₁ = memoryOf s := by
    funext q
    simp only [memoryOf, hs.bank]
  have hnext := hs.trans (dmaRead_ok hroom hx)
  rw [log_chunk] at hnext
  · exact hnext
  · intro j hj
    rw [hchunk j hj, hmemory, Nat.add_assoc]

end Transfers

/-- A system that a transfer may begin in: every cache is coherent, once the requests on their way
to it have arrived, and where there are no caches no request is on its way. -/
structure Ready (mc : Manycore) (hw : Hardware) (s : System) : Prop where
  coherent : ∀ c, (s.settled mc hw c).Coherent (shape mc)
  idle : hasCache mc = false → ∀ c, s.inFlight c = []

/-- The device shows the bytes of the jobs, those of later jobs over those of earlier ones, and
otherwise what it showed before. -/
structure WrittenToDevice (mc : Manycore) (hw : Hardware) (p : Coord) (jobs : List DmaJob)
    (s t : System) : Prop where
  seen : t.seen mc hw = applyLog (s.seen mc hw) (jobs.flatMap (jobLog mc p s.host))
  host : t.host = s.host
  ready : Ready mc hw t

def InBuffer (job : DmaJob) (a : ℕ) : Prop := job.hAddr ≤ a ∧ a < job.hAddr + job.size

/-- Each buffer holds what the device shows in its range, unless a later job writes over it, and
the device shows what it showed before. -/
structure ReadToHost (mc : Manycore) (hw : Hardware) (p : Coord) (jobs : List DmaJob)
    (s t : System) : Prop where
  buffer : ∀ before job after, jobs = before ++ job :: after → ∀ k < job.size,
    (∀ later ∈ after, ¬ InBuffer later (job.hAddr + k)) →
    t.host (job.hAddr + k) = s.seen mc hw (jobPlace mc p job k)
  frame : ∀ a, (∀ job ∈ jobs, ¬ InBuffer job a) → t.host a = s.host a
  seen : t.seen mc hw = s.seen mc hw
  ready : Ready mc hw t

structure DmaLaw (mc : Manycore) (pods : List Pod) : Prop where
  toDevice : ∀ hw podId pod jobs s t, checkPodId pods podId = .ok pod →
    (∀ job ∈ jobs, DramJob mc pod.podCoord job) → Ready mc hw s →
    Returns (podDmaToDevice mc hw pods podId jobs) s () t →
    WrittenToDevice mc hw pod.podCoord jobs s t
  toHost : ∀ hw podId pod jobs s t, checkPodId pods podId = .ok pod →
    (∀ job ∈ jobs, DramJob mc pod.podCoord job) → Ready mc hw s →
    Returns (podDmaToHost mc hw pods podId jobs) s () t →
    ReadToHost mc hw pod.podCoord jobs s t

section Proof

variable {mc : Manycore} {hw : Hardware} {p : Coord} {s t u : System} {job : DmaJob}
  {jobs : List DmaJob}

theorem settled_congr {c : Coord} (hbank : t.bank c = s.bank c)
    (hflight : t.inFlight c = s.inFlight c) : t.settled mc hw c = s.settled mc hw c := by
  rw [System.settled, System.settled, hbank, hflight]

theorem DramJob.place_cache (h : DramJob mc p job) {k : ℕ} (hk : k < job.size) :
    CacheOf mc.config p ⟨(jobPlace mc p job k).x, (jobPlace mc p job k).y⟩ := by
  obtain ⟨npa, n, ht, hc⟩ := h.cache k hk
  rw [jobPlace, placeAt_of_ok ht]
  exact hc

theorem Flushed.memory_seen (h : Flushed mc hw p s t) {npa : Npa}
    (hc : CacheOf mc.config p ⟨npa.x, npa.y⟩) : memoryOf t npa = s.seen mc hw npa := by
  rw [memoryOf, h.memory _ hc, h.view]
  rfl

theorem writes_ok (hjobs : ∀ job ∈ jobs, DramJob mc p job) {v : Unit}
    (h : Returns (forM jobs fun dma => evaWriteDma mc hw (podVcoreOrigin mc.config p)
      dma.dAddr dma.hAddr dma.size) s v t) :
    Overwritten mc p s (jobs.flatMap (jobLog mc p s.host)) t := by
  refine forM_returns (P := fun before t =>
    Overwritten mc p s (before.flatMap (jobLog mc p s.host)) t) h (.refl s) ?_
  intro before job s₁ s₂ hjob hf hs
  have hnext := evaWriteDma_ok (hjobs job hjob) hf
  rw [hs.host] at hnext
  rw [List.flatMap_append, List.flatMap_singleton]
  exact hs.trans hnext

theorem reads_ok (hjobs : ∀ job ∈ jobs, DramJob mc p job) {v : Unit}
    (h : Returns (forM jobs fun dma => evaReadDma mc hw (podVcoreOrigin mc.config p)
      dma.dAddr dma.hAddr dma.size) s v t) :
    Copied s (jobs.flatMap (hostLog mc p (memoryOf s))) t := by
  refine forM_returns (P := fun before t =>
    Copied s (before.flatMap (hostLog mc p (memoryOf s))) t) h ⟨rfl, rfl, rfl⟩ ?_
  intro before job s₁ s₂ hjob hf hs
  have hnext := evaReadDma_ok (hjobs job hjob) hf
  have hmemory : memoryOf s₁ = memoryOf s := by
    funext q
    simp only [memoryOf, hs.bank]
  rw [hmemory] at hnext
  rw [List.flatMap_append, List.flatMap_singleton]
  exact hs.trans hnext

/-- Jobs write to the banks of the pod only. -/
theorem not_mem_jobLogs (hjobs : ∀ job ∈ jobs, DramJob mc p job) {host : ℕ → UInt8} {npa : Npa}
    (hc : ¬ CacheOf mc.config p ⟨npa.x, npa.y⟩) :
    npa ∉ (jobs.flatMap (jobLog mc p host)).map Prod.fst := by
  intro hin
  obtain ⟨w, hw, rfl⟩ := List.mem_map.mp hin
  obtain ⟨job, hjob, hw⟩ := List.mem_flatMap.mp hw
  obtain ⟨k, hk, rfl⟩ := List.mem_map.mp hw
  exact hc ((hjobs job hjob).place_cache (List.mem_range.mp hk))

theorem writtenToDevice_of_phases {t₁ t₂ : System} (hs : Ready mc hw s)
    (hjobs : ∀ job ∈ jobs, DramJob mc p job) (hflush : Flushed mc hw p s t₁)
    (hwrite : Overwritten mc p t₁ (jobs.flatMap (jobLog mc p t₁.host)) t₂)
    (hinval : Invalidated mc hw p t₂ t) : WrittenToDevice mc hw p jobs s t := by
  have hframe : ∀ c, ¬ CacheOf mc.config p c →
      t.settled mc hw c = t₁.settled mc hw c := by
    intro c hc
    rw [hinval.frame c hc, settled_congr (hwrite.frame c hc) (congrFun hwrite.inFlight c)]
  have hidle : ∀ c, CacheOf mc.config p c → t₂.inFlight c = [] := by
    intro c hc
    rw [hwrite.inFlight]
    exact hflush.idle c hc
  refine ⟨?_, ?_, ?_, ?_⟩
  · funext npa
    by_cases hc : CacheOf mc.config p ⟨npa.x, npa.y⟩
    · have hseen : t.seen mc hw npa = memoryOf t₂ npa := by
        rw [System.seen, Bank.view_of_empty (hinval.empty _ hc), hinval.memory,
          settled_of_idle (hidle _ hc)]
        rfl
      rw [hseen, hwrite.memory, hflush.host]
      exact applyLog_congr _ (hflush.memory_seen hc)
    · rw [applyLog_of_not_mem _ (not_mem_jobLogs hjobs hc), System.seen, hframe _ hc, hflush.view]
      rfl
  · rw [hinval.host, hwrite.host, hflush.host]
  · intro c
    by_cases hc : CacheOf mc.config p c
    · exact (hinval.empty c hc).coherent
    · rw [hframe c hc]
      exact hflush.coherent c
  · intro hno c
    rw [hinval.quiet hno, hwrite.inFlight, hflush.quiet hno]
    exact hs.idle hno c

theorem mem_hostLog {m : Npa → UInt8} {a : ℕ} (h : a ∈ (hostLog mc p m job).map Prod.fst) :
    InBuffer job a := by
  rw [hostLog, List.map_map] at h
  obtain ⟨k, hk, rfl⟩ := List.mem_map.mp h
  have := List.mem_range.mp hk
  constructor <;> simp only [Function.comp_apply] <;> omega

theorem not_mem_hostLogs {m : Npa → UInt8} {a : ℕ} (h : ∀ job ∈ jobs, ¬ InBuffer job a) :
    a ∉ (jobs.flatMap (hostLog mc p m)).map Prod.fst := by
  intro hin
  obtain ⟨w, hw, rfl⟩ := List.mem_map.mp hin
  obtain ⟨job, hjob, hw⟩ := List.mem_flatMap.mp hw
  exact h job hjob (mem_hostLog (List.mem_map_of_mem hw))

theorem readToHost_of_phases {t₁ : System} (hs : Ready mc hw s)
    (hjobs : ∀ job ∈ jobs, DramJob mc p job) (hflush : Flushed mc hw p s t₁)
    (hread : Copied t₁ (jobs.flatMap (hostLog mc p (memoryOf t₁))) t) :
    ReadToHost mc hw p jobs s t := by
  have hsettled : ∀ c, t.settled mc hw c = t₁.settled mc hw c :=
    fun c => settled_congr (congrFun hread.bank c) (congrFun hread.inFlight c)
  refine ⟨?_, ?_, ?_, ?_, ?_⟩
  · rintro before job after rfl k hk hlater
    have hjob := hjobs job (List.mem_append_right _ List.mem_cons_self)
    have hnd : ((hostLog mc p (memoryOf t₁) job).map Prod.fst).Nodup := by
      rw [hostLog, List.map_map]
      exact List.nodup_range.map fun i j he => Nat.add_left_cancel he
    have hmem : (job.hAddr + k, memoryOf t₁ (jobPlace mc p job k)) ∈
        hostLog mc p (memoryOf t₁) job :=
      List.mem_map.mpr ⟨k, List.mem_range.mpr hk, rfl⟩
    rw [hread.host, List.flatMap_append, List.flatMap_cons, applyLog_append, applyLog_append,
      applyLog_of_not_mem _ (not_mem_hostLogs hlater), applyLog_of_mem _ hnd hmem]
    exact hflush.memory_seen (hjob.place_cache hk)
  · intro a ha
    rw [hread.host, applyLog_of_not_mem _ (not_mem_hostLogs ha), hflush.host]
  · funext npa
    rw [System.seen, hsettled, hflush.view]
    rfl
  · intro c
    rw [hsettled]
    exact hflush.coherent c
  · intro hno c
    rw [hread.inFlight, hflush.quiet hno]
    exact hs.idle hno c

theorem idsLeadBack_of_regular {cfg : Config} (h : Regular cfg) (hb : 1 ≤ tileBitsY cfg)
    (hc : cacheCount cfg < 2 ^ 32) (hp : IsPod cfg p) : IdsLeadBack cfg p := by
  rintro c ⟨drams, hdrams, hmem⟩ id hid
  obtain ⟨id', hid', -, hd⟩ := (h.idLaw hb hc).into c ⟨p, hp, drams, hdrams, hmem⟩
  cases hid.symm.trans hid'
  exact hd

theorem dramJob_of_regular (h : Regular mc.config) (hb : 1 ≤ tileBitsY mc.config)
    (hw : 0 < mc.config.podShape.x.toNat) (hp : IsPod mc.config p)
    (hd : ∀ k < job.size, 2 ^ 31 ≤ (advance job.dAddr k).toNat)
    (ht : ∀ k < job.size, ∃ npa n,
      evaToNpa mc defaultMap (podVcoreOrigin mc.config p) (advance job.dAddr k) = .ok (npa, n)) :
    DramJob mc p job := by
  refine ⟨hd, fun k hk => ?_⟩
  obtain ⟨npa, n, hnpa⟩ := ht k hk
  refine ⟨npa, n, hnpa, ?_⟩
  have hu := h.placed.unwrapped hp
  have hheight := Nat.two_pow_pos (tileBitsY mc.config)
  rw [← h.height] at hheight
  have horigin : pod mc.config (podVcoreOrigin mc.config p) = p :=
    ((h.podLaw hb hp).tiles _ ⟨le_rfl, Nat.lt_add_of_pos_right hw, le_rfl,
      Nat.lt_add_of_pos_right hheight⟩).2
  rw [DramStriping.evaToNpa_of_isDram ((TileTranslation.isDram_iff _).mpr (hd k hk)),
    evaToNpaDram_eq_ok_of_fields (fields_bits mc) hw] at hnpa
  obtain ⟨-, -, -, hcol, -, hx, hy, -⟩ := hnpa
  rw [defaultDramMinXCoord, horigin] at hx
  rw [horigin] at hy
  -- the column of the address, in one of the two rows of caches
  obtain ⟨row, hrow, hedge⟩ : ∃ row < 2, npa.y = DramStriping.edgeY mc.config p row := by
    split at hy
    · exact ⟨1, by decide, hy⟩
    · exact ⟨0, by decide, hy⟩
  refine ⟨_, hu.foreachDram_eq, PodGeometry.mem_visited_iff.mpr ⟨row, hrow, _, hcol, ?_⟩⟩
  rw [Coord.mk.injEq]
  exact ⟨UInt32.toNat_inj.mp (hx.trans (hu.cache_x row hcol.le).symm), hedge⟩

end Proof

def dirtyBank (set way : ℕ) : Bank UInt8 where
  memory _ := 0
  lines s w := if s = set ∧ w = way then some ⟨0, true, fun _ => 1⟩ else none

def dirtySystem (c : Coord) (set way : ℕ) : System where
  time := 0
  bank c' := if c' = c then dirtyBank set way else ⟨fun _ => 0, fun _ _ => none⟩
  inFlight _ := []
  host _ := 2

def prompt : Hardware where
  transmit _ := .ok ()
  receive _ := .ok ()
  dma _ := .ok ()
  arrivals _ _ := 1
  victim _ _ := 0
  other _ b := b

def oneByte (eva : UInt32) : DmaJob := ⟨eva, 0, 1⟩

/-- A transfer to the host of bytes of the first pod succeeds and leaves in the buffer of the first
job what the device does not show. -/
def readsStale (mc : Manycore) (c : Coord) (set way : ℕ) (job : DmaJob) (later : List DmaJob) :
    Bool :=
  let s := dirtySystem c set way
  (podDmaToHost mc prompt (deviceInit mc.config) 0 (job :: later) s).any fun (result, t) =>
    result.toBool && t.host job.hAddr != s.seen mc prompt (jobPlace mc ⟨0, 0⟩ job 0)

theorem dirtyBank_coherent {S : Shape} {set way : ℕ} (hset : set < S.sets) (hway : way < S.ways) :
    (dirtyBank set way).Coherent S := by
  have hline : ∀ {s w : ℕ} {l : Line UInt8}, (dirtyBank set way).lines s w = some l →
      (s = set ∧ w = way) ∧ l.dirty = true := by
    intro s w l hl
    simp only [dirtyBank, Option.ite_none_right_eq_some, Option.some.injEq] at hl
    obtain ⟨hslot, rfl⟩ := hl
    exact ⟨hslot, rfl⟩
  refine ⟨?_, ?_, ?_⟩
  · intro s w l hl
    obtain ⟨⟨rfl, rfl⟩, -⟩ := hline hl
    exact ⟨hset, hway⟩
  · intro s w w' l l' hl hl' _
    obtain ⟨⟨-, rfl⟩, -⟩ := hline hl
    obtain ⟨⟨-, rfl⟩, -⟩ := hline hl'
    rfl
  · intro s w l hl hclean
    exact absurd ((hline hl).2.symm.trans hclean) (by decide)

theorem dirtySystem_ready {mc : Manycore} {hw : Hardware} {c : Coord} {set way : ℕ}
    (hset : set < (shape mc).sets) (hway : way < (shape mc).ways) :
    Ready mc hw (dirtySystem c set way) := by
  refine ⟨fun c' => ?_, fun _ _ => rfl⟩
  rw [settled_of_idle rfl]
  simp only [dirtySystem]
  split
  · exact dirtyBank_coherent hset hway
  · exact Bank.Empty.coherent fun _ _ => rfl

theorem returns_of_stale {mc : Manycore} {c : Coord} {set way : ℕ} {job : DmaJob}
    {later : List DmaJob} (h : readsStale mc c set way job later = true) :
    ∃ t, Returns (podDmaToHost mc prompt (deviceInit mc.config) 0 (job :: later))
        (dirtySystem c set way) () t ∧
      t.host job.hAddr ≠ (dirtySystem c set way).seen mc prompt (jobPlace mc ⟨0, 0⟩ job 0) := by
  rw [readsStale, Option.any_eq_true] at h
  obtain ⟨⟨result, t⟩, hrun, hne⟩ := h
  cases result with
  | error e => cases hne
  | ok v =>
    simp only [Except.toBool, Bool.true_and, bne_iff_ne] at hne
    exact ⟨t, hrun, hne⟩

theorem dramJob_oneByte {mc : Manycore} {p : Coord} {n : ℕ} {eva : UInt32} {npa : Npa}
    (heva : 2 ^ 31 ≤ eva.toNat)
    (ht : evaToNpa mc defaultMap (podVcoreOrigin mc.config p) eva = .ok (npa, n))
    (hcache : CacheOf mc.config p ⟨npa.x, npa.y⟩) : DramJob mc p (oneByte eva) := by
  have hzero : ∀ k < (oneByte eva).size, advance (oneByte eva).dAddr k = eva := by
    intro k hk
    rw [Nat.lt_one_iff.mp hk, advance_zero]
    rfl
  refine ⟨fun k hk => ?_, fun k hk => ?_⟩
  · rw [hzero k hk]
    exact heva
  · rw [hzero k hk]
    exact ⟨npa, n, ht, hcache⟩

theorem not_dmaLaw_of_stale {mc : Manycore} {c : Coord} {set way : ℕ} {eva : UInt32}
    (hpod : checkPodId (deviceInit mc.config) 0 = .ok ⟨⟨0, 0⟩, none⟩)
    (hset : set < (shape mc).sets) (hway : way < (shape mc).ways)
    (hjob : DramJob mc ⟨0, 0⟩ (oneByte eva))
    (hstale : readsStale mc c set way (oneByte eva) [] = true) :
    ¬ DmaLaw mc (deviceInit mc.config) := by
  intro hlaw
  obtain ⟨t, hrun, hne⟩ := returns_of_stale hstale
  have hlaw := hlaw.toHost _ _ _ _ _ _ hpod (fun job hmem => List.mem_singleton.mp hmem ▸ hjob)
    (dirtySystem_ready hset hway) hrun
  refine hne (hlaw.buffer [] (oneByte eva) [] rfl 0 Nat.one_pos fun later hlater => ?_)
  cases hlater

def BuffersHold (mc : Manycore) (pods : List Pod) : Prop :=
  ∀ hw podId pod jobs s t, checkPodId pods podId = .ok pod →
    (∀ job ∈ jobs, DramJob mc pod.podCoord job) → Ready mc hw s →
    Returns (podDmaToHost mc hw pods podId jobs) s () t →
    ∀ job ∈ jobs, ∀ k < job.size,
      t.host (job.hAddr + k) = s.seen mc hw (jobPlace mc pod.podCoord job k)

def oneLine : Machine := { podTilesX := 1, vcacheSet := 1, vcacheWay := 1 }

def threeSets : Machine := { podTilesX := 1, vcacheSet := 3, vcacheWay := 2 }

def wideCoords : Machine :=
  { nocCoordXWidth := 11, podTilesX := 1, vcacheSet := 1, vcacheWay := 1 }

def oneTileRow : Machine :=
  { nocCoordYWidth := 4, podTilesX := 1, podTilesY := 1, hostCoordY := 5, vcacheSet := 1,
    vcacheWay := 1 }

end DmaCoherence
