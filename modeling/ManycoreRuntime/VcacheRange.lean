import ManycoreRuntime.CacheBanks
import ManycoreRuntime.PacketFidelity
import ManycoreRuntime.VcacheTags

/-! # Cache operations on ranges of addresses

A range is gone through line by line. Each turn works out the address of its line and then sends
the operation to the address of the range. A transmission that fails is printed and forgotten. -/
namespace VcacheRange

open Actions
open BitField
open CacheBanks (destination)
open Coordinate (Coord Errno)
open Configuration (Manycore)
open EvaToNpa (Npa)
open Machines (Machine)
open Packets
open Vcache

section Definitions

variable (mc : Manycore) {σ : Type}

def cacheOpAfl : UInt8 := 0

def cacheOpAinv : UInt8 := 1

def ignoreError (x : Action Errno σ Unit) : Action Errno σ Unit := fun s =>
  (x s).map fun r => (.ok (), r.2)

def vcacheApplyToNpa (requestTx : RequestPacket → Action Errno σ Unit) (npa : Npa)
    (cache_op : UInt8) : Action Errno σ Unit :=
  if hasCache mc then do
    let pkt ← fromExcept (formatCacheOpRequestPacket mc {} npa cache_op)
    ignoreError (requestTx pkt)
  else pure ()

def ssize (n : UInt64) : ℤ := if n.toNat < 2 ^ 63 then n.toNat else n.toNat - 2 ^ 64

def addSsize (a b : ℤ) : Except Errno ℤ := if a + b < 2 ^ 63 then .ok (a + b) else .error .undefined

def applyLines (requestTx : RequestPacket → Action Errno σ Unit) (npa : Npa) (cache_op : UInt8)
    (bsize : UInt32) : ℕ → ℤ → UInt32 → Action Errno σ Unit
  | 0, _, _ => fromOption none
  | fuel + 1, sz, epa =>
    if 0 < sz then do
      let _line_npa : Npa := { npa with epa := epa }
      vcacheApplyToNpa mc requestTx npa cache_op
      applyLines requestTx npa cache_op bsize fuel (sz - min sz bsize.toNat) (epa + bsize)
    else pure ()

def vcacheApplyToNpaRange (requestTx : RequestPacket → Action Errno σ Unit) (npa : Npa)
    (range_sz : UInt64) (cache_op : UInt8) : Action Errno σ Unit := do
  let bsize := mc.config.vcacheBlockSize
  let sz ← fromExcept (addSsize (ssize range_sz) (npa.epa &&& (bsize - 1)).toNat)
  let epa := npa.epa &&& (0 - bsize)
  applyLines mc requestTx npa cache_op bsize (sz.toNat + 1) sz epa

def vcacheInvalidateNpaRange (requestTx : RequestPacket → Action Errno σ Unit) (npa : Npa)
    (sz : UInt64) : Action Errno σ Unit :=
  vcacheApplyToNpaRange mc requestTx npa sz cacheOpAinv

/-- When a read of a word has returned, the flush is taken to be done. -/
def vcacheFlushNpaRange (requestTx : RequestPacket → Action Errno σ Unit)
    (read32 : Npa → Action Errno σ UInt32) (npa : Npa) (sz : UInt64) : Action Errno σ Unit :=
  if hasCache mc then do
    vcacheApplyToNpaRange mc requestTx npa sz cacheOpAfl
    let _ ← read32 npa
  else pure ()

end Definitions

structure Sent where
  rqst : RequestPacket
  answer : Except Errno Unit

abbrev Log := List Sent

def attempt (platform : ℕ → Except Errno Unit) (rqst : RequestPacket) : Action Errno Log Unit :=
  fun log => some (platform log.length, log ++ [⟨rqst, platform log.length⟩])

def cacheOps (log : Log) : Log := log.filter fun a => a.rqst.op == .cacheOp

section Law

variable (mc : Manycore) (npa : Npa) (sz : UInt64)

def lineOf (a : ℕ) : ℕ := a / mc.config.vcacheBlockSize.toNat

def Overlaps (line : ℕ) : Prop :=
  ∃ a, npa.epa.toNat ≤ a ∧ a < npa.epa.toNat + sz.toNat ∧ lineOf mc a = line

def Sent.line (a : Sent) : ℕ := lineOf mc (a.rqst.addr <<< 2).toNat

structure InRange (cache_op : UInt8) (a : Sent) : Prop where
  opcode : a.rqst.regId = cache_op
  cache : destination a.rqst = ⟨npa.x, npa.y⟩
  line : Overlaps mc npa sz (a.line mc)

/-- The operation is sent once to each line that the range overlaps and to no other, and success
means that each request was transmitted. A call that fails may stop before the last line. -/
def RangeLaw (cache_op : UInt8) (run : Action Errno Log Unit) : Prop :=
  ∃ r log, run [] = some (r, log) ∧ r ≠ .error .undefined ∧
    (∀ a ∈ cacheOps log, InRange mc npa sz cache_op a) ∧
    ((cacheOps log).map (Sent.line mc)).Nodup ∧
    (r = .ok () → (∀ line, Overlaps mc npa sz line → ∃ a ∈ cacheOps log, a.line mc = line) ∧
      ∀ a ∈ cacheOps log, a.answer = .ok ())

def offset : ℕ := npa.epa.toNat % mc.config.vcacheBlockSize.toNat

/-- The range is empty and begins with a line; or else the loop is entered, and if the address is
a valid destination, the range lies in one line, the coordinates fit a packet and the platform
takes the first request. -/
def RangeCondition (platform : ℕ → Except Errno Unit) : Prop :=
  (sz = 0 ∧ offset mc npa = 0) ∨
    (0 < ssize sz + offset mc npa ∧ ssize sz + offset mc npa < 2 ^ 63 ∧
      (dstNpaIsValid mc npa = true →
        0 < sz.toNat ∧ offset mc npa + sz.toNat ≤ mc.config.vcacheBlockSize.toNat ∧
        npa.x.toNat < 2 ^ 8 ∧ npa.y.toNat < 2 ^ 8 ∧ platform 0 = .ok ()))

/-- A flush whose last read fails may not have been told of any of its requests: it sends nothing,
or it stops at the first request, or that request is the only one and is for the range's line. -/
def StoppedCondition : Prop :=
  ssize sz + offset mc npa < 2 ^ 63 ∧
    (0 < ssize sz + offset mc npa → dstNpaIsValid mc npa = true →
      0 < sz.toNat ∧ ssize sz + offset mc npa ≤ mc.config.vcacheBlockSize.toNat ∧
      npa.x.toNat < 2 ^ 8 ∧ npa.y.toNat < 2 ^ 8)

end Law

section Runs

variable {mc : Manycore} {npa : Npa} {cache_op : UInt8} {platform : ℕ → Except Errno Unit}

def opPacket (mc : Manycore) (npa : Npa) (cache_op : UInt8) : RequestPacket :=
  { PacketFidelity.head mc npa with op := .cacheOp, regId := cache_op }

theorem apply_valid (hcache : hasCache mc = true) (hvalid : dstNpaIsValid mc npa = true)
    (log : Log) : vcacheApplyToNpa mc (attempt platform) npa cache_op log =
      some (.ok (), log ++ [⟨opPacket mc npa cache_op, platform log.length⟩]) := by
  have hpkt : formatCacheOpRequestPacket mc {} npa cache_op = .ok (opPacket mc npa cache_op) := by
    simp only [formatCacheOpRequestPacket, PacketFidelity.formatRequestPacket_eq hvalid]
    rfl
  rw [vcacheApplyToNpa, if_pos hcache, hpkt]
  exact bind_of_ok rfl

theorem apply_invalid (hcache : hasCache mc = true) (hvalid : dstNpaIsValid mc npa = false)
    (log : Log) : vcacheApplyToNpa mc (attempt platform) npa cache_op log =
      some (.error .invalid, log) := by
  have hpkt : formatCacheOpRequestPacket mc {} npa cache_op = .error .invalid := by
    simp only [formatCacheOpRequestPacket, formatRequestPacket, hvalid]
    rfl
  rw [vcacheApplyToNpa, if_pos hcache, hpkt]
  exact bind_of_error rfl

theorem applyLines_valid (hcache : hasCache mc = true) (hvalid : dstNpaIsValid mc npa = true)
    {bsize : UInt32} (hb : 0 < bsize.toNat) {fuel : ℕ} {sz : ℤ} (epa : UInt32) (log : Log)
    (hfuel : sz.toNat < fuel) :
    ∃ n, applyLines mc (attempt platform) npa cache_op bsize fuel sz epa log =
        some (.ok (), log ++ (List.range n).map fun i =>
          ⟨opPacket mc npa cache_op, platform (log.length + i)⟩) ∧
      (sz ≤ 0 → n = 0) ∧ (0 < sz → 1 ≤ n) ∧ (sz ≤ bsize.toNat → n ≤ 1) ∧
      (bsize.toNat < sz → 2 ≤ n) := by
  induction fuel generalizing sz epa log with
  | zero => exact absurd hfuel (Nat.not_lt_zero _)
  | succ fuel ih =>
    by_cases hpos : 0 < sz
    · obtain ⟨n, hrun, hzero, hone, -, -⟩ := @ih (sz - min sz bsize.toNat) (epa + bsize)
        (log ++ [⟨opPacket mc npa cache_op, platform log.length⟩]) (by omega)
      refine ⟨n + 1, ?_, by omega, by omega, fun hle => ?_, fun hlt => ?_⟩
      · rw [applyLines, if_pos hpos]
        refine (bind_of_ok (apply_valid hcache hvalid log)).trans ?_
        rw [hrun, List.range_succ_eq_map, List.map_cons, List.map_map, List.append_assoc,
          List.length_append]
        simp only [List.singleton_append, List.length_singleton, Nat.add_zero, Function.comp_def,
          Nat.add_assoc, Nat.add_comm 1]
      · rw [hzero (by omega)]
      · have := hone (by omega)
        omega
    · refine ⟨0, ?_, fun _ => rfl, fun h => absurd h hpos, fun _ => Nat.zero_le _, by omega⟩
      rw [applyLines, if_neg hpos]
      simp only [List.range_zero, List.map_nil, List.append_nil]
      rfl

theorem applyLines_invalid (hcache : hasCache mc = true) (hvalid : dstNpaIsValid mc npa = false)
    {bsize : UInt32} {fuel : ℕ} {sz : ℤ} (epa : UInt32) (log : Log) (hpos : 0 < sz) :
    applyLines mc (attempt platform) npa cache_op bsize (fuel + 1) sz epa log =
      some (.error .invalid, log) := by
  rw [applyLines, if_pos hpos]
  exact bind_of_error (apply_invalid hcache hvalid log)

theorem overhang {b : ℕ} (hb : mc.config.vcacheBlockSize.toNat = 2 ^ b) :
    (npa.epa &&& (mc.config.vcacheBlockSize - 1)).toNat = offset mc npa := by
  rw [VcacheTags.mask_of_power hb, offset, hb]

theorem range_overflow {b : ℕ} (hb : mc.config.vcacheBlockSize.toNat = 2 ^ b) {sz : UInt64}
    (h : ¬ ssize sz + offset mc npa < 2 ^ 63) (log : Log) :
    vcacheApplyToNpaRange mc (attempt platform) npa sz cache_op log =
      some (.error .undefined, log) := by
  have hadd : addSsize (ssize sz) (npa.epa &&& (mc.config.vcacheBlockSize - 1)).toNat =
      .error .undefined := by
    rw [addSsize, overhang hb, if_neg h]
  simp only [vcacheApplyToNpaRange, hadd]
  exact bind_of_error rfl

theorem range_lines {b : ℕ} (hb : mc.config.vcacheBlockSize.toNat = 2 ^ b) {sz : UInt64}
    (h : ssize sz + offset mc npa < 2 ^ 63) (log : Log) :
    vcacheApplyToNpaRange mc (attempt platform) npa sz cache_op log =
      applyLines mc (attempt platform) npa cache_op mc.config.vcacheBlockSize
        ((ssize sz + offset mc npa).toNat + 1) (ssize sz + offset mc npa)
        (npa.epa &&& (0 - mc.config.vcacheBlockSize)) log := by
  have hadd : addSsize (ssize sz) (npa.epa &&& (mc.config.vcacheBlockSize - 1)).toNat =
      .ok (ssize sz + offset mc npa) := by
    rw [addSsize, overhang hb, if_pos h]
  simp only [vcacheApplyToNpaRange, hadd]
  exact bind_of_ok rfl

end Runs

section When

variable {mc : Manycore} {npa : Npa} {sz : UInt64} {cache_op : UInt8} {b : ℕ}
variable {run : Action Errno Log Unit} {r : Except Errno Unit} {log : Log}

theorem four_dvd_block (mc : Manycore) : 4 ∣ mc.config.vcacheBlockSize.toNat := by
  have hwords : mc.config.vcacheBlockSize.toNat =
      mc.config.vcacheBlockWords.toNat * 4 % 2 ^ 32 := by
    rw [Configuration.Config.vcacheBlockSize, UInt32.toNat_mul]
    rfl
  omega

theorem opPacket_line (answer : Except Errno Unit) :
    (Sent.mk (opPacket mc npa cache_op) answer).line mc = lineOf mc npa.epa.toNat := by
  obtain ⟨k, hk⟩ := four_dvd_block mc
  have hword : ((npa.epa >>> 2) <<< 2).toNat = 4 * (npa.epa.toNat / 4) := by
    rw [PacketFidelity.epa_of_any_word]
    omega
  show lineOf mc ((npa.epa >>> 2) <<< 2).toNat = _
  rw [hword, lineOf, lineOf, hk, ← Nat.div_div_eq_div_mul, ← Nat.div_div_eq_div_mul,
    Nat.mul_div_cancel_left _ (by decide : 0 < 4)]

theorem overlaps_first_iff :
    Overlaps mc npa sz (lineOf mc npa.epa.toNat) ↔ 0 < sz.toNat := by
  constructor
  · rintro ⟨a, hlo, hhi, -⟩
    omega
  · intro hpos
    exact ⟨npa.epa.toNat, le_refl _, by omega, rfl⟩

/-- The range lies in one line. -/
theorem overlaps_only_first_iff (hB : 0 < mc.config.vcacheBlockSize.toNat) (hsz : 0 < sz.toNat) :
    (∀ line, Overlaps mc npa sz line → lineOf mc npa.epa.toNat = line) ↔
      offset mc npa + sz.toNat ≤ mc.config.vcacheBlockSize.toNat := by
  have hsplit := Nat.div_add_mod npa.epa.toNat mc.config.vcacheBlockSize.toNat
  constructor
  · intro h
    have hlast := h _ ⟨npa.epa.toNat + sz.toNat - 1, by omega, by omega, rfl⟩
    have hlt := Nat.lt_mul_div_succ (npa.epa.toNat + sz.toNat - 1) hB
    rw [lineOf, lineOf] at hlast
    rw [← hlast, Nat.mul_add, Nat.mul_one] at hlt
    rw [offset]
    omega
  · rintro h line ⟨a, hlo, hhi, rfl⟩
    rw [offset] at h
    refine (Nat.div_eq_of_lt_le ?_ ?_).symm
    · rw [Nat.mul_comm]
      exact le_trans (Nat.mul_div_le _ _) hlo
    · rw [lineOf, Nat.succ_mul, Nat.mul_comm]
      omega

theorem toUInt8_toUInt32_iff (c : UInt32) : c.toUInt8.toUInt32 = c ↔ c.toNat < 2 ^ 8 := by
  rw [← UInt32.toNat_inj, UInt8.toNat_toUInt32, UInt32.toNat_toUInt8]
  omega

theorem inRange_opPacket_iff (answer : Except Errno Unit) :
    InRange mc npa sz cache_op ⟨opPacket mc npa cache_op, answer⟩ ↔
      0 < sz.toNat ∧ npa.x.toNat < 2 ^ 8 ∧ npa.y.toNat < 2 ^ 8 := by
  have hplace : destination (opPacket mc npa cache_op) = ⟨npa.x, npa.y⟩ ↔
      npa.x.toNat < 2 ^ 8 ∧ npa.y.toNat < 2 ^ 8 := by
    rw [← toUInt8_toUInt32_iff, ← toUInt8_toUInt32_iff]
    exact Coordinate.Coord.mk.injEq _ _ _ _ ▸ Iff.rfl
  constructor
  · rintro ⟨-, hcache, hline⟩
    rw [opPacket_line, overlaps_first_iff] at hline
    exact ⟨hline, hplace.mp hcache⟩
  · rintro ⟨hsz, hfit⟩
    refine ⟨rfl, hplace.mpr hfit, ?_⟩
    rw [opPacket_line]
    exact overlaps_first_iff.mpr hsz

theorem not_rangeLaw_undefined (hrun : run [] = some (.error .undefined, log)) :
    ¬ RangeLaw mc npa sz cache_op run := by
  rintro ⟨r, log', hlaw, hdef, -⟩
  rw [hrun] at hlaw
  cases hlaw
  exact hdef rfl

theorem rangeLaw_nothing_iff (hrun : run [] = some (r, log)) (hnone : cacheOps log = [])
    (hr : r ≠ .error .undefined) :
    RangeLaw mc npa sz cache_op run ↔ (r = .ok () → sz.toNat = 0) := by
  constructor
  · rintro ⟨r', log', hlaw, -, -, -, hdone⟩ hok
    rw [hrun] at hlaw
    cases hlaw
    by_contra hpos
    obtain ⟨a, ha, -⟩ := (hdone hok).1 _ (overlaps_first_iff.mpr (Nat.pos_of_ne_zero hpos))
    rw [hnone] at ha
    cases ha
  · intro hempty
    refine ⟨r, log, hrun, hr, ?_, ?_, fun hok => ⟨?_, ?_⟩⟩
    · simp [hnone]
    · simp [hnone]
    · rintro line ⟨a, hlo, hhi, -⟩
      have hzero := hempty hok
      omega
    · simp [hnone]

theorem rangeLaw_once_iff {answer : Except Errno Unit}
    (hb : mc.config.vcacheBlockSize.toNat = 2 ^ b) (hrun : run [] = some (r, log))
    (hone : cacheOps log = [⟨opPacket mc npa cache_op, answer⟩]) (hr : r ≠ .error .undefined) :
    RangeLaw mc npa sz cache_op run ↔
      0 < sz.toNat ∧ (npa.x.toNat < 2 ^ 8 ∧ npa.y.toNat < 2 ^ 8) ∧
        (r = .ok () → offset mc npa + sz.toNat ≤ mc.config.vcacheBlockSize.toNat ∧
          answer = .ok ()) := by
  have hB : 0 < mc.config.vcacheBlockSize.toNat := hb ▸ Nat.two_pow_pos b
  constructor
  · rintro ⟨r', log', hlaw, -, hall, -, hdone⟩
    rw [hrun] at hlaw
    cases hlaw
    rw [hone] at hall hdone
    obtain ⟨hsz, hfit⟩ := (inRange_opPacket_iff answer).mp (hall _ List.mem_cons_self)
    refine ⟨hsz, hfit, fun hok => ⟨?_, (hdone hok).2 _ List.mem_cons_self⟩⟩
    apply (overlaps_only_first_iff hB hsz).mp
    intro line hline
    obtain ⟨a, ha, rfl⟩ := (hdone hok).1 line hline
    rw [List.mem_singleton.mp ha, opPacket_line]
  · rintro ⟨hsz, hfit, hin⟩
    refine ⟨r, log, hrun, hr, ?_, ?_, fun hok => ⟨?_, ?_⟩⟩
    · intro a ha
      rw [hone, List.mem_singleton] at ha
      exact ha ▸ (inRange_opPacket_iff answer).mpr ⟨hsz, hfit⟩
    · simp [hone]
    · intro line hline
      refine ⟨_, hone ▸ List.mem_cons_self, ?_⟩
      rw [opPacket_line]
      exact (overlaps_only_first_iff hB hsz).mpr (hin hok).1 line hline
    · intro a ha
      rw [hone, List.mem_singleton] at ha
      exact ha ▸ (hin hok).2

theorem not_rangeLaw_twice {answer : ℕ → Except Errno Unit} {n : ℕ} (hn : 2 ≤ n)
    (hrun : run [] = some (r, log))
    (hmany : cacheOps log = (List.range n).map fun i => ⟨opPacket mc npa cache_op, answer i⟩) :
    ¬ RangeLaw mc npa sz cache_op run := by
  rintro ⟨r', log', hlaw, -, -, hdup, -⟩
  rw [hrun] at hlaw
  cases hlaw
  obtain ⟨k, rfl⟩ := Nat.exists_eq_add_of_le hn
  rw [hmany, Nat.add_comm, List.range_succ_eq_map, List.range_succ_eq_map] at hdup
  simp [Sent.line] at hdup

theorem ssize_le (sz : UInt64) : ssize sz ≤ sz.toNat := by
  rw [ssize]
  split <;> omega

theorem ssize_zero : ssize 0 = 0 := rfl

theorem cacheOps_ops (answer : ℕ → Except Errno Unit) (n : ℕ) :
    cacheOps ((List.range n).map fun i => ⟨opPacket mc npa cache_op, answer i⟩) =
      (List.range n).map fun i => ⟨opPacket mc npa cache_op, answer i⟩ := by
  apply List.filter_eq_self.mpr
  intro a ha
  obtain ⟨i, -, rfl⟩ := List.mem_map.mp ha
  rfl

def Quiet (last : Action Errno Log Unit) (r : Except Errno Unit) : Prop :=
  ∀ log, ∃ log', last log = some (r, log') ∧ cacheOps log' = cacheOps log

/-- The calls of the three functions end with a part that sends no cache operation. -/
def withLast (mc : Manycore) (platform : ℕ → Except Errno Unit) (npa : Npa) (sz : UInt64)
    (cache_op : UInt8) (last : Action Errno Log Unit) : Action Errno Log Unit :=
  vcacheApplyToNpaRange mc (attempt platform) npa sz cache_op >>= fun _ => last

section Cases

variable {platform : ℕ → Except Errno Unit} {last : Action Errno Log Unit}

theorem rangeLaw_overflow (hb : mc.config.vcacheBlockSize.toNat = 2 ^ b)
    (hover : ¬ ssize sz + offset mc npa < 2 ^ 63) :
    ¬ RangeLaw mc npa sz cache_op (withLast mc platform npa sz cache_op last) :=
  not_rangeLaw_undefined (bind_of_error (range_overflow hb hover []))

theorem rangeLaw_invalid (hcache : hasCache mc = true)
    (hb : mc.config.vcacheBlockSize.toNat = 2 ^ b) (hover : ssize sz + offset mc npa < 2 ^ 63)
    (hpos : 0 < ssize sz + offset mc npa) (hvalid : dstNpaIsValid mc npa = false) :
    RangeLaw mc npa sz cache_op (withLast mc platform npa sz cache_op last) := by
  have hrun : vcacheApplyToNpaRange mc (attempt platform) npa sz cache_op [] =
      some (.error .invalid, []) :=
    (range_lines hb hover []).trans (applyLines_invalid hcache hvalid _ [] hpos)
  apply (rangeLaw_nothing_iff (bind_of_error hrun) rfl (by decide)).mpr
  intro h
  cases h

/-- On a valid address the whole call sends one packet again and again. -/
theorem withLast_sends (hcache : hasCache mc = true)
    (hb : mc.config.vcacheBlockSize.toNat = 2 ^ b) (hlast : Quiet last r)
    (hover : ssize sz + offset mc npa < 2 ^ 63) (hvalid : dstNpaIsValid mc npa = true) :
    ∃ n log, withLast mc platform npa sz cache_op last [] = some (r, log) ∧
      cacheOps log = ((List.range n).map fun i => ⟨opPacket mc npa cache_op, platform i⟩) ∧
      (0 < ssize sz + offset mc npa → 1 ≤ n) ∧
      (ssize sz + offset mc npa ≤ mc.config.vcacheBlockSize.toNat → n ≤ 1) ∧
      (mc.config.vcacheBlockSize.toNat < ssize sz + offset mc npa → 2 ≤ n) := by
  have hB : 0 < mc.config.vcacheBlockSize.toNat := hb ▸ Nat.two_pow_pos b
  obtain ⟨n, hrun, -, hone, hshort, hlong⟩ := @applyLines_valid mc npa cache_op platform hcache
    hvalid _ hB _ _ (npa.epa &&& (0 - mc.config.vcacheBlockSize)) [] (Nat.lt_succ_self _)
  simp only [List.nil_append, List.length_nil, Nat.zero_add] at hrun
  obtain ⟨log, hend, hops⟩ := hlast
    ((List.range n).map fun i => ⟨opPacket mc npa cache_op, platform i⟩)
  refine ⟨n, log, ?_, hops.trans (cacheOps_ops platform n), hone, hshort, hlong⟩
  exact (bind_of_ok ((range_lines hb hover []).trans hrun)).trans hend

theorem rangeLaw_empty_iff (hb : mc.config.vcacheBlockSize.toNat = 2 ^ b)
    (hlast : Quiet last r) (hr : r ≠ .error .undefined) (hover : ssize sz + offset mc npa < 2 ^ 63)
    (hpos : ¬ 0 < ssize sz + offset mc npa) :
    RangeLaw mc npa sz cache_op (withLast mc platform npa sz cache_op last) ↔
      (r = .ok () → sz.toNat = 0) := by
  have hrun : applyLines mc (attempt platform) npa cache_op mc.config.vcacheBlockSize
      ((ssize sz + offset mc npa).toNat + 1) (ssize sz + offset mc npa)
      (npa.epa &&& (0 - mc.config.vcacheBlockSize)) [] = some (.ok (), []) := by
    rw [applyLines, if_neg hpos]
    rfl
  obtain ⟨log, hend, hops⟩ := hlast []
  exact rangeLaw_nothing_iff ((bind_of_ok ((range_lines hb hover []).trans hrun)).trans hend)
    hops hr

theorem rangeLaw_line_iff (hcache : hasCache mc = true)
    (hb : mc.config.vcacheBlockSize.toNat = 2 ^ b) (hlast : Quiet last r)
    (hr : r ≠ .error .undefined) (hover : ssize sz + offset mc npa < 2 ^ 63)
    (hpos : 0 < ssize sz + offset mc npa) (hvalid : dstNpaIsValid mc npa = true) :
    RangeLaw mc npa sz cache_op (withLast mc platform npa sz cache_op last) ↔
      ssize sz + offset mc npa ≤ mc.config.vcacheBlockSize.toNat ∧ 0 < sz.toNat ∧
        (npa.x.toNat < 2 ^ 8 ∧ npa.y.toNat < 2 ^ 8) ∧
        (r = .ok () → offset mc npa + sz.toNat ≤ mc.config.vcacheBlockSize.toNat ∧
          platform 0 = .ok ()) := by
  obtain ⟨n, log, hrun, hops, hone, hshort, hlong⟩ :=
    @withLast_sends mc npa sz cache_op b r platform last hcache hb hlast hover hvalid
  by_cases hfits : ssize sz + offset mc npa ≤ mc.config.vcacheBlockSize.toNat
  · have hn : n = 1 := le_antisymm (hshort hfits) (hone hpos)
    subst hn
    rw [rangeLaw_once_iff hb hrun hops hr]
    exact (and_iff_right hfits).symm
  · exact iff_of_false (not_rangeLaw_twice (hlong (not_le.mp hfits)) hrun hops)
      fun h => hfits h.1

end Cases

theorem rangeLaw_iff {platform : ℕ → Except Errno Unit} {last : Action Errno Log Unit}
    (hcache : hasCache mc = true) (hb : mc.config.vcacheBlockSize.toNat = 2 ^ b)
    (hlast : Quiet last r) (hr : r ≠ .error .undefined) :
    RangeLaw mc npa sz cache_op (withLast mc platform npa sz cache_op last) ↔
      if r = .ok () then RangeCondition mc npa sz platform else StoppedCondition mc npa sz := by
  have hoff : offset mc npa < mc.config.vcacheBlockSize.toNat :=
    Nat.mod_lt _ (hb ▸ Nat.two_pow_pos b)
  have hword := mc.config.vcacheBlockSize.toNat_lt
  have hle := ssize_le sz
  have hzero : sz = 0 ↔ sz.toNat = 0 := UInt64.toNat_inj.symm
  have hempty : sz = 0 → ssize sz = 0 := fun h => h ▸ ssize_zero
  by_cases hover : ssize sz + offset mc npa < 2 ^ 63
  · by_cases hpos : 0 < ssize sz + offset mc npa
    · by_cases hvalid : dstNpaIsValid mc npa = true
      · rw [rangeLaw_line_iff hcache hb hlast hr hover hpos hvalid]
        split
        case isTrue hok =>
          constructor
          · rintro ⟨-, hsz, ⟨hx, hy⟩, hin⟩
            obtain ⟨hline, htx⟩ := hin hok
            exact .inr ⟨hpos, hover, fun _ => ⟨hsz, hline, hx, hy, htx⟩⟩
          · rintro (⟨hsz, hoff⟩ | ⟨-, -, hline⟩)
            · have hsize := hempty hsz
              omega
            · obtain ⟨hsz, hline, hx, hy, htx⟩ := hline hvalid
              exact ⟨by omega, hsz, ⟨hx, hy⟩, fun _ => ⟨hline, htx⟩⟩
        case isFalse hfail =>
          constructor
          · rintro ⟨hline, hsz, ⟨hx, hy⟩, -⟩
            exact ⟨hover, fun _ _ => ⟨hsz, hline, hx, hy⟩⟩
          · rintro ⟨-, hline⟩
            obtain ⟨hsz, hline, hx, hy⟩ := hline hpos hvalid
            exact ⟨hline, hsz, ⟨hx, hy⟩, fun h => absurd h hfail⟩
      · have hinvalid : dstNpaIsValid mc npa = false := eq_false_of_ne_true hvalid
        apply iff_of_true (rangeLaw_invalid hcache hb hover hpos hinvalid)
        split
        · exact .inr ⟨hpos, hover, fun h => absurd h hvalid⟩
        · exact ⟨hover, fun _ h => absurd h hvalid⟩
    · rw [rangeLaw_empty_iff hb hlast hr hover hpos]
      split
      case isTrue hok =>
        constructor
        · intro hsz
          have hsize := hempty (hzero.mpr (hsz hok))
          exact .inl ⟨hzero.mpr (hsz hok), by omega⟩
        · rintro (⟨hsz, -⟩ | ⟨hline, -⟩) -
          · exact hzero.mp hsz
          · exact absurd hline hpos
      case isFalse hfail =>
        exact iff_of_true (fun h => absurd h hfail) ⟨hover, fun h => absurd h hpos⟩
  · apply iff_of_false (rangeLaw_overflow hb hover)
    split
    · rintro (⟨hsz, hline⟩ | ⟨-, hline, -⟩)
      · have hsize := hempty hsz
        omega
      · exact hover hline
    · exact fun h => hover h.1

theorem quiet_read {read : Action Errno Log UInt32} {result : Except Errno UInt32}
    (h : ∀ log, ∃ log', read log = some (result, log') ∧ cacheOps log' = cacheOps log) :
    Quiet (read >>= fun _ => pure ()) (result.map fun _ => ()) := by
  intro log
  obtain ⟨log', hread, hops⟩ := h log
  refine ⟨log', ?_, hops⟩
  cases result with
  | ok v => exact bind_of_ok hread
  | error e => exact bind_of_error hread

end When

/-- On a machine with a cache, the law holds of a range operation if and only if the range lies in
one line and that line's request is taken. The read at the end of a flush is an action that sends
no cache operation. -/
theorem range_iff {mc : Manycore} {b : ℕ} (hcache : hasCache mc = true)
    (hb : mc.config.vcacheBlockSize.toNat = 2 ^ b) (npa : Npa) (sz : UInt64)
    (platform : ℕ → Except Errno Unit) :
    (∀ cache_op, RangeLaw mc npa sz cache_op
        (vcacheApplyToNpaRange mc (attempt platform) npa sz cache_op) ↔
      RangeCondition mc npa sz platform) ∧
    (RangeLaw mc npa sz cacheOpAinv (vcacheInvalidateNpaRange mc (attempt platform) npa sz) ↔
      RangeCondition mc npa sz platform) ∧
    ∀ (read32 : Npa → Action Errno Log UInt32) (result : Except Errno UInt32),
      result ≠ .error .undefined →
      (∀ log, ∃ log', read32 npa log = some (result, log') ∧ cacheOps log' = cacheOps log) →
      (RangeLaw mc npa sz cacheOpAfl
          (vcacheFlushNpaRange mc (attempt platform) read32 npa sz) ↔
        if result.isOk then RangeCondition mc npa sz platform
          else StoppedCondition mc npa sz) := by
  have happly : ∀ cache_op, RangeLaw mc npa sz cache_op
      (vcacheApplyToNpaRange mc (attempt platform) npa sz cache_op) ↔
        RangeCondition mc npa sz platform := by
    intro cache_op
    have hquiet : Quiet (pure () : Action Errno Log Unit) (.ok ()) := fun log => ⟨log, rfl, rfl⟩
    have h := @rangeLaw_iff mc npa sz cache_op b _ platform _ hcache hb hquiet (by decide)
    rwa [withLast, bind_pure, if_pos rfl] at h
  refine ⟨happly, happly cacheOpAinv, fun read32 result hdef hread => ?_⟩
  have hflush : vcacheFlushNpaRange mc (attempt platform) read32 npa sz =
      withLast mc platform npa sz cacheOpAfl (read32 npa >>= fun _ => pure ()) := by
    rw [vcacheFlushNpaRange, if_pos hcache]
    rfl
  rw [hflush, rangeLaw_iff hcache hb (quiet_read hread)]
  · cases result with
    | ok v => rfl
    | error e => rfl
  · intro h
    apply hdef
    cases result with
    | ok v => cases h
    | error e =>
      cases h
      rfl

theorem range_iff_machine :
    (∀ cache_op, RangeLaw ⟨({} : Machine).config, true⟩ ⟨16, 7, 0x40⟩ 64 cache_op
        (vcacheApplyToNpaRange ⟨({} : Machine).config, true⟩ (attempt fun _ => .ok ())
          ⟨16, 7, 0x40⟩ 64 cache_op) ↔
      RangeCondition ⟨({} : Machine).config, true⟩ ⟨16, 7, 0x40⟩ 64 fun _ => .ok ()) ∧
    (RangeLaw ⟨({} : Machine).config, true⟩ ⟨16, 7, 0x40⟩ 64 cacheOpAinv
        (vcacheInvalidateNpaRange ⟨({} : Machine).config, true⟩ (attempt fun _ => .ok ())
          ⟨16, 7, 0x40⟩ 64) ↔
      RangeCondition ⟨({} : Machine).config, true⟩ ⟨16, 7, 0x40⟩ 64 fun _ => .ok ()) ∧
    (RangeLaw ⟨({} : Machine).config, true⟩ ⟨16, 7, 0x40⟩ 64 cacheOpAfl
        (vcacheFlushNpaRange ⟨({} : Machine).config, true⟩ (attempt fun _ => .ok ())
          (fun _ log => some (.ok 7, log)) ⟨16, 7, 0x40⟩ 64) ↔
      if (Except.ok 7 : Except Errno UInt32).isOk
        then RangeCondition ⟨({} : Machine).config, true⟩ ⟨16, 7, 0x40⟩ 64 fun _ => .ok ()
        else StoppedCondition ⟨({} : Machine).config, true⟩ ⟨16, 7, 0x40⟩ 64) := by
  obtain ⟨happly, hinvalidate, hflush⟩ :=
    @range_iff ⟨({} : Machine).config, true⟩ 7 rfl rfl ⟨16, 7, 0x40⟩ 64 fun _ => .ok ()
  exact ⟨happly, hinvalidate, hflush (fun _ log => some (.ok 7, log)) (.ok 7) nofun
    fun log => ⟨log, rfl, rfl⟩⟩

/-- Of the two lines of a range the first one is invalidated twice and the second one not at all,
and a request that the platform refused is reported as a success. -/
theorem range_law_fails :
    hasCache ⟨({} : Machine).config, true⟩ = true ∧
    (⟨({} : Machine).config, true⟩ : Manycore).config.vcacheBlockSize.toNat = 2 ^ 7 ∧
    ¬ RangeLaw ⟨({} : Machine).config, true⟩ ⟨16, 7, 0⟩ 256 cacheOpAinv
      (vcacheInvalidateNpaRange ⟨({} : Machine).config, true⟩ (attempt fun _ => .ok ())
        ⟨16, 7, 0⟩ 256) ∧
    ¬ RangeLaw ⟨({} : Machine).config, true⟩ ⟨16, 7, 0⟩ 128 cacheOpAinv
      (vcacheInvalidateNpaRange ⟨({} : Machine).config, true⟩ (attempt fun _ => .error .fail)
        ⟨16, 7, 0⟩ 128) := by
  refine ⟨rfl, rfl, ?_, ?_⟩
  · rintro ⟨r, log, hrun, -, -, hdup, -⟩
    have htwice : vcacheInvalidateNpaRange ⟨({} : Machine).config, true⟩ (attempt fun _ => .ok ())
        ⟨16, 7, 0⟩ 256 [] = some (.ok (),
          [⟨opPacket ⟨({} : Machine).config, true⟩ ⟨16, 7, 0⟩ cacheOpAinv, .ok ()⟩,
            ⟨opPacket ⟨({} : Machine).config, true⟩ ⟨16, 7, 0⟩ cacheOpAinv, .ok ()⟩]) := rfl
    rw [htwice] at hrun
    cases hrun
    exact absurd hdup (by decide)
  · rintro ⟨r, log, hrun, -, -, -, hdone⟩
    have hrefused : vcacheInvalidateNpaRange ⟨({} : Machine).config, true⟩
        (attempt fun _ => .error .fail) ⟨16, 7, 0⟩ 128 [] = some (.ok (),
          [⟨opPacket ⟨({} : Machine).config, true⟩ ⟨16, 7, 0⟩ cacheOpAinv, .error .fail⟩]) := rfl
    rw [hrefused] at hrun
    cases hrun
    cases (hdone rfl).2 _ (List.mem_singleton.mpr rfl)

end VcacheRange
