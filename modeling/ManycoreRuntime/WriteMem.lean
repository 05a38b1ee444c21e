import ManycoreRuntime.ByteStore
import ManycoreRuntime.ReadMem

/-! # Reading and writing memory at a network address

Word stores as packets, the loops that send one store for each word of a buffer, and the
pipelined read of a buffer. What a store does to the memory of its destination is stated for the
bytes that its packet names. -/
namespace WriteMem

open Fallible (bind_eq_ok)
open BitField
open ByteStore
open Coordinate (Coord Errno)
open Configuration (Config Manycore)
open EvaToNpa (Npa)
open Packets

/-- The answers of the platform to the packets and fences of the host, by the number of packets
that were sent before. -/
structure Platform where
  transmit : ℕ → Except Errno Unit
  fence : ℕ → Except Errno Unit

def maskByte : UInt32 := 0x1

def maskShort : UInt32 := 0x3

def write (mc : Manycore) (npa : Npa) (vp : UInt32) (sz : ℕ) (tx : Except Errno Unit) :
    Except Errno RequestPacket := do
  let rqst ← formatRequestPacket mc {} npa
  let _ ← epaCheckAlignment npa.epa sz
  let mask_shift := npa.epa &&& 3
  let data_shift := 8 * mask_shift
  let rqst ← match sz with
    | 4 => .ok { rqst with op := .remoteSw, payload := vp }
    | 2 => .ok { rqst with
      op := .remoteStore
      payload := vp.toUInt16.toUInt32 <<< data_shift
      regId := (maskShort <<< mask_shift).toUInt8 }
    | 1 => .ok { rqst with
      op := .remoteStore
      payload := vp.toUInt8.toUInt32 <<< data_shift
      regId := (maskByte <<< mask_shift).toUInt8 }
    | _ => .error .invalid
  let _ ← tx
  return rqst

def readWriteMemCheckArgs (data sz : ℕ) : Except Errno Unit :=
  if data % 4 ≠ 0 then .error .noimpl
  else if sz % 4 ≠ 0 then .error .noimpl
  else .ok ()

def addEpa (npa : Npa) (n : ℕ) : Npa := { npa with epa := npa.epa + UInt32.ofNat n }

def writeWords (mc : Manycore) (platform : Platform) (words : ℕ → UInt32) :
    ℕ → ℕ → Npa → List RequestPacket → Except Errno Unit × List RequestPacket
  | 0, _, _, sent => (.ok (), sent)
  | n + 1, i, addr, sent =>
    match write mc addr (words i) 4 (platform.transmit sent.length) with
    | .error e => (.error e, sent)
    | .ok rqst => writeWords mc platform words n (i + 1) (addEpa addr 4) (sent ++ [rqst])

def sendWords (mc : Manycore) (platform : Platform) (npa : Npa) (words : ℕ → UInt32) (sz : ℕ)
    (sent : List RequestPacket) : Except Errno Unit × List RequestPacket :=
  match writeWords mc platform words (sz / 4) 0 npa sent with
  | (.error e, sent) => (.error e, sent)
  | (.ok _, sent) => (platform.fence sent.length, sent)

def writeMem (mc : Manycore) (platform : Platform) (npa : Npa) (data : ℕ) (words : ℕ → UInt32)
    (sz : ℕ) (sent : List RequestPacket) : Except Errno Unit × List RequestPacket :=
  match readWriteMemCheckArgs data sz with
  | .error e => (.error e, sent)
  | .ok _ => sendWords mc platform npa words sz sent

def splat (val : UInt8) : UInt32 :=
  (val.toUInt32 <<< 24) ||| (val.toUInt32 <<< 16) ||| (val.toUInt32 <<< 8) ||| val.toUInt32

def memset (mc : Manycore) (platform : Platform) (npa : Npa) (val : UInt8) (sz : ℕ)
    (sent : List RequestPacket) : Except Errno Unit × List RequestPacket :=
  match readWriteMemCheckArgs 0 sz with
  | .error e => (.error e, sent)
  | .ok _ => sendWords mc platform npa (fun _ => splat val) sz sent

/-- A read with the answers that the hardware gives during the call; `mem` is what the memory
holds at the addresses of the loads. No result means that the answers are not those of one
honest call. -/
def readMem (mc : Manycore) (mem : Npa → UInt32) (answers : List ReadMem.Event) (npa : Npa)
    (data : ℕ) (words : ℕ → UInt32) (sz : ℕ) : Option (Except Errno Unit × (ℕ → UInt32)) :=
  match readWriteMemCheckArgs data sz with
  | .error e => some (.error e, words)
  | .ok _ =>
    match ReadMem.run mc (fun i => addEpa npa (4 * i)) (sz / 4) mem (ReadMem.initial mc words)
        answers with
    | none => none
    | some s =>
      match s.pc with
      | .done result => some (result, s.data)
      | _ => none

/-- The bytes that a packet writes: all bytes of the word, or those of the mask. -/
def packetBytes (rqst : RequestPacket) : List (Npa × UInt8) :=
  let lanes := match rqst.op with
    | .remoteSw => List.range 4
    | .remoteStore => (List.range 4).filter fun j => rqst.regId.toNat.testBit j
    | .remoteLoad | .cacheOp => []
  lanes.map fun j => (addEpa ⟨rqst.xDst.toUInt32, rqst.yDst.toUInt32, rqst.addr <<< 2⟩ j,
    byteOf rqst.payload j)

def logOf (sent : List RequestPacket) : List (Npa × UInt8) := sent.flatMap packetBytes

def deliver (m : Npa → UInt8) (sent : List RequestPacket) : Npa → UInt8 := applyLog m (logOf sent)

def loadWord (m : Npa → UInt8) (npa : Npa) : UInt32 :=
  packWord fun j =>
    m (addEpa ⟨npa.x.toUInt8.toUInt32, npa.y.toUInt8.toUInt32, (npa.epa >>> 2) <<< 2⟩ j)

structure FitsPacket (cfg : Config) : Prop where
  x : cfg.dimensionNetwork.x.toNat ≤ 2 ^ 8
  y : cfg.dimensionNetwork.y.toNat ≤ 2 ^ 8

section Proof

variable {mc : Manycore} {platform : Platform}

theorem addEpa_zero (npa : Npa) : addEpa npa 0 = npa := by
  simp [addEpa]

theorem addEpa_add (npa : Npa) (i j : ℕ) : addEpa (addEpa npa i) j = addEpa npa (i + j) := by
  simp only [addEpa, UInt32.ofNat_add, UInt32.add_assoc]

theorem byte_of_coordinate {c : UInt32} (h : c.toNat < 2 ^ 8) : c.toUInt8.toUInt32 = c := by
  rw [← UInt32.toNat_inj, UInt8.toNat_toUInt32, UInt32.toNat_toUInt8]
  exact Nat.mod_eq_of_lt h

theorem epa_of_word {epa : UInt32} (h : epa.toNat % 4 = 0) : (epa >>> 2) <<< 2 = epa := by
  have hlt := epa.toNat_lt
  rw [← UInt32.toNat_inj, shiftLeft_toNat (by decide), shiftRight_toNat (by decide)]
  simp only [UInt32.reduceToNat]
  omega

/-- A word that a store or a load reaches at its own address. -/
structure Reached (npa : Npa) : Prop where
  x : npa.x.toNat < 2 ^ 8
  y : npa.y.toNat < 2 ^ 8
  epa : npa.epa.toNat % 4 = 0

theorem loadWord_of_reached {npa : Npa} (h : Reached npa) (m : Npa → UInt8) :
    loadWord m npa = packWord fun j => m (addEpa npa j) := by
  simp only [loadWord, byte_of_coordinate h.x, byte_of_coordinate h.y, epa_of_word h.epa]

theorem splat_eq (val : UInt8) : splat val = packWord fun _ => val := by
  have hv := val.toNat_lt
  have hshift : ∀ n : UInt32, n.toNat ≤ 24 →
      (val.toUInt32 <<< n).toNat = val.toNat * 2 ^ n.toNat := by
    intro n hn
    have hp : 2 ^ n.toNat ≤ 2 ^ 24 := Nat.pow_le_pow_right (by decide) hn
    rw [shiftLeft_toNat (by omega), UInt8.toNat_toUInt32]
    refine Nat.mod_eq_of_lt ?_
    calc val.toNat * 2 ^ n.toNat < 2 ^ 8 * 2 ^ n.toNat :=
          Nat.mul_lt_mul_of_pos_right hv (Nat.two_pow_pos _)
      _ ≤ 2 ^ 8 * 2 ^ 24 := Nat.mul_le_mul_left _ hp
  -- the fields are joined from the top down, each below the ones before it
  have h16 : val.toNat * 2 ^ 24 ||| val.toNat * 2 ^ 16 =
      (val.toNat + val.toNat * 2 ^ 8) * 2 ^ 16 := by
    rw [Nat.or_comm, or_fields _ (by omega)]
    omega
  have h8 : (val.toNat + val.toNat * 2 ^ 8) * 2 ^ 16 ||| val.toNat * 2 ^ 8 =
      (val.toNat + (val.toNat + val.toNat * 2 ^ 8) * 2 ^ 8) * 2 ^ 8 := by
    rw [Nat.or_comm, or_fields _ (by omega)]
    omega
  rw [← UInt32.toNat_inj, splat, UInt32.toNat_or, UInt32.toNat_or, UInt32.toNat_or,
    hshift 24 (by decide), hshift 16 (by decide), hshift 8 (by decide), UInt8.toNat_toUInt32]
  simp only [UInt32.reduceToNat]
  rw [h16, h8, Nat.or_comm, or_fields _ hv, packWord,
    UInt32.toNat_ofNat_of_lt' (by simp only [UInt32.size]; omega)]
  omega

theorem readWriteMemCheckArgs_ok {data sz : ℕ} (h : readWriteMemCheckArgs data sz = .ok ()) :
    sz % 4 = 0 := by
  unfold readWriteMemCheckArgs at h
  split at h
  · cases h
  · split at h
    · cases h
    · next hsz => exact not_not.mp hsz

theorem write_word (hfit : FitsPacket mc.config) {npa : Npa} {vp : UInt32}
    {tx : Except Errno Unit} {rqst : RequestPacket} (h : write mc npa vp 4 tx = .ok rqst) :
    Reached npa ∧
      packetBytes rqst = (List.range 4).map fun j => (addEpa npa j, byteOf vp j) := by
  simp only [write, bind_eq_ok, Except.ok.injEq, pure, Except.pure] at h
  obtain ⟨pkt, hpkt, u, halign, pkt', rfl, v, -, rfl⟩ := h
  unfold formatRequestPacket at hpkt
  split at hpkt
  · next hvalid =>
    cases hpkt
    simp only [dstNpaIsValid, Bool.and_eq_true, decide_eq_true_eq, UInt32.lt_iff_toNat_lt]
      at hvalid
    have hepa : npa.epa.toNat % 4 = 0 := by
      simp only [epaCheckAlignment] at halign
      split at halign
      · cases halign
      · next hz =>
        rw [not_not, ← UInt32.toNat_inj, UInt32.toNat_and] at hz
        exact (Nat.and_two_pow_sub_one_eq_mod _ 2).symm.trans hz
    have hr : Reached npa :=
      ⟨lt_of_lt_of_le hvalid.1 hfit.x, lt_of_lt_of_le hvalid.2 hfit.y, hepa⟩
    refine ⟨hr, ?_⟩
    simp only [packetBytes, byte_of_coordinate hr.x, byte_of_coordinate hr.y, epa_of_word hr.epa]
  · cases hpkt

theorem writeWords_ok (hfit : FitsPacket mc.config) {words : ℕ → UInt32} {n i : ℕ} {addr : Npa}
    {sent sent' : List RequestPacket}
    (h : writeWords mc platform words n i addr sent = (.ok (), sent')) :
    (∀ j < n, Reached (addEpa addr (4 * j))) ∧
      logOf sent' = logOf sent ++ (List.range (4 * n)).map fun j =>
        (addEpa addr j, byteOf (words (i + j / 4)) (j % 4)) := by
  induction n generalizing i addr sent with
  | zero =>
    cases h
    refine ⟨fun j hj => absurd hj (Nat.not_lt_zero j), ?_⟩
    exact (List.append_nil _).symm
  | succ n ih =>
    rw [writeWords] at h
    split at h
    · cases h
    · next rqst hw =>
      obtain ⟨hr, hbytes⟩ := write_word hfit hw
      obtain ⟨hreach, hlog⟩ := ih h
      constructor
      · intro j hj
        cases j with
        | zero =>
          rw [Nat.mul_zero, addEpa_zero]
          exact hr
        | succ j =>
          have hnext := hreach j (Nat.lt_of_succ_lt_succ hj)
          rw [addEpa_add] at hnext
          rw [Nat.mul_succ, Nat.add_comm]
          exact hnext
      · have hone : logOf (sent ++ [rqst]) = logOf sent ++ packetBytes rqst := by
          rw [logOf, List.flatMap_append, List.flatMap_singleton]
          rfl
        have hfirst : (List.range 4).map (fun j => (addEpa addr j, byteOf (words i) j)) =
            (List.range 4).map fun j => (addEpa addr j, byteOf (words (i + j / 4)) (j % 4)) :=
          List.map_congr_left fun j hj => by
            have hj4 := List.mem_range.mp hj
            rw [Nat.div_eq_of_lt hj4, Nat.mod_eq_of_lt hj4, Nat.add_zero]
        have hrest : (List.range (4 * n)).map (fun j =>
            (addEpa (addEpa addr 4) j, byteOf (words (i + 1 + j / 4)) (j % 4))) =
            ((List.range (4 * n)).map (4 + ·)).map fun j =>
              (addEpa addr j, byteOf (words (i + j / 4)) (j % 4)) := by
          rw [List.map_map]
          refine List.map_congr_left fun j _ => ?_
          have hd : i + (4 + j) / 4 = i + 1 + j / 4 := by omega
          simp only [Function.comp_apply, addEpa_add, hd, Nat.add_mod_left]
        rw [hlog, hone, hbytes, hfirst, hrest, List.append_assoc, ← List.map_append,
          ← List.range_add, Nat.mul_succ, Nat.add_comm 4]

theorem sendWords_ok (hfit : FitsPacket mc.config) {words : ℕ → UInt32} {npa : Npa} {sz : ℕ}
    (hsz : sz % 4 = 0) {sent sent' : List RequestPacket}
    (h : sendWords mc platform npa words sz sent = (.ok (), sent')) :
    (∀ j < sz / 4, Reached (addEpa npa (4 * j))) ∧
      logOf sent' = logOf sent ++ (List.range sz).map fun j =>
        (addEpa npa j, byteOf (words (j / 4)) (j % 4)) := by
  unfold sendWords at h
  split at h
  · cases h
  · next u sent'' hw =>
    simp only [Prod.mk.injEq] at h
    obtain ⟨-, rfl⟩ := h
    obtain ⟨hreach, hlog⟩ := writeWords_ok hfit hw
    refine ⟨hreach, ?_⟩
    simp only [Nat.zero_add, Nat.mul_div_cancel' (Nat.dvd_of_mod_eq_zero hsz)] at hlog
    exact hlog

theorem writeMem_ok (hfit : FitsPacket mc.config) {words : ℕ → UInt32} {npa : Npa} {data sz : ℕ}
    {sent sent' : List RequestPacket}
    (h : writeMem mc platform npa data words sz sent = (.ok (), sent')) :
    sz % 4 = 0 ∧ (∀ j < sz / 4, Reached (addEpa npa (4 * j))) ∧
      logOf sent' = logOf sent ++ (List.range sz).map fun j =>
        (addEpa npa j, byteOf (words (j / 4)) (j % 4)) := by
  unfold writeMem at h
  split at h
  · cases h
  · next hargs =>
    have hsz := readWriteMemCheckArgs_ok hargs
    exact ⟨hsz, sendWords_ok hfit hsz h⟩

/-- Setting memory is writing a buffer that holds the value in every byte. -/
theorem memset_eq_writeMem {val : UInt8} {npa : Npa} {sz : ℕ} {sent : List RequestPacket}
    (data : ℕ) (hdata : data % 4 = 0) :
    memset mc platform npa val sz sent =
      writeMem mc platform npa data (fun _ => packWord fun _ => val) sz sent := by
  simp only [memset, writeMem, readWriteMemCheckArgs, hdata, splat_eq]

/-- A read that succeeds fills its words and no others. -/
theorem readMem_ok {mem : Npa → UInt32} {answers : List ReadMem.Event} {npa : Npa} {data sz : ℕ}
    {words words' : ℕ → UInt32} (hcap : ReadMem.nIds mc ≤ 256) (hsz : sz < 2 ^ 32)
    (h : readMem mc mem answers npa data words sz = some (.ok (), words')) :
    sz % 4 = 0 ∧ (∀ i < sz / 4, words' i = mem (addEpa npa (4 * i))) ∧
      ∀ i, sz / 4 ≤ i → words' i = words i := by
  unfold readMem at h
  split at h
  · cases h
  · next hargs =>
    split at h
    · cases h
    · next s hrun =>
      split at h
      · next result hpc =>
        simp only [Option.some.injEq, Prod.mk.injEq] at h
        obtain ⟨rfl, rfl⟩ := h
        have hcnt : sz / 4 < 2 ^ 32 := lt_of_le_of_lt (Nat.div_le_self _ _) hsz
        have hinv :=
          ReadMem.reachable_invariant hcap hcnt.le (ReadMem.run_reachable (.initial rfl) hrun)
        have hfull := hinv.writes_perm hpc
        refine ⟨readWriteMemCheckArgs_ok hargs, fun i hi => ?_, fun i hi => ?_⟩
        · exact hinv.read i (hfull.mem_iff.mpr (List.mem_range.mpr hi))
        · refine hinv.frame i fun hmem => ?_
          exact absurd (List.mem_range.mp (hfull.mem_iff.mp hmem)) (Nat.not_lt.mpr hi)
      · cases h

end Proof

end WriteMem
