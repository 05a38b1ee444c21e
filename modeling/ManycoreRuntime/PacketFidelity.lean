import ManycoreRuntime.WriteMem
import Mathlib.Tactic.IntervalCases

/-! # What the packets say

A store packet writes the bytes of its value at its address, and a load packet names the address,
the size and the id of its load. An address that is not aligned to the size is turned away before
a packet is sent. -/
namespace PacketFidelity

open BitField
open ByteStore
open Coordinate (Errno)
open Configuration (Manycore)
open EvaToNpa (Npa)
open Packets
open WriteMem

def getLoadInfo (packet : RequestPacket) : LoadInfo :=
  let info := packet.payload
  { partSel := info &&& 0x03
    isHexOp := (info &&& 0x4) >>> 2 != 0
    isByteOp := (info &&& 0x08) >>> 3 != 0
    isUnsignedOp := (info &&& 0x10) >>> 4 != 0 }

def loadSize (info : LoadInfo) : ℕ := if info.isByteOp then 1 else if info.isHexOp then 2 else 4

def IsSize (sz : ℕ) : Prop := sz = 1 ∨ sz = 2 ∨ sz = 4

/-- The packet stores the `sz` bytes of a value at an address, none of them past the end of the
address space. -/
structure StoreOf (npa : Npa) (vp : UInt32) (sz : ℕ) (rqst : RequestPacket) : Prop where
  bytes : packetBytes rqst = (List.range sz).map fun j => (addEpa npa j, byteOf vp j)
  inside : ∀ j < sz, (addEpa npa j).epa.toNat = npa.epa.toNat + j

/-- The packet loads `sz` bytes at an address under an id. -/
structure LoadOf (npa : Npa) (sz : ℕ) (id : UInt32) (rqst : RequestPacket) : Prop where
  op : rqst.op = .remoteLoad
  x : rqst.xDst.toUInt32 = npa.x
  y : rqst.yDst.toUInt32 = npa.y
  word : (rqst.addr <<< 2).toNat = npa.epa.toNat - npa.epa.toNat % 4
  offset : (getLoadInfo rqst).partSel.toNat = npa.epa.toNat % 4
  size : loadSize (getLoadInfo rqst) = sz
  unsigned : (getLoadInfo rqst).isUnsignedOp = true
  id : rqst.regId.toUInt32 = id

section Alignment

theorem and_low (epa : UInt32) {mask : UInt32} {k : ℕ} (h : mask.toNat = 2 ^ k - 1) :
    (epa &&& mask).toNat = epa.toNat % 2 ^ k := by
  rw [UInt32.toNat_and, h, Nat.and_two_pow_sub_one_eq_mod]

theorem and_low_eq_zero (epa : UInt32) {mask : UInt32} {k : ℕ} (h : mask.toNat = 2 ^ k - 1) :
    epa &&& mask = 0 ↔ epa.toNat % 2 ^ k = 0 := by
  rw [← UInt32.toNat_inj, and_low epa h]
  rfl

theorem epaCheckAlignment_eq {epa : UInt32} {sz : ℕ} (hsz : IsSize sz) :
    epaCheckAlignment epa sz = if epa.toNat % sz = 0 then .ok () else .error .unaligned := by
  rcases hsz with rfl | rfl | rfl
  · simp [epaCheckAlignment, Nat.mod_one]
  · have h := @and_low_eq_zero epa 1 1 rfl
    by_cases hz : epa.toNat % 2 = 0 <;> simp [epaCheckAlignment, h, hz]
  · have h := @and_low_eq_zero epa 3 2 rfl
    by_cases hz : epa.toNat % 4 = 0 <;> simp [epaCheckAlignment, h, hz]

end Alignment

section Store

variable {mc : Manycore} {npa : Npa} {sz : ℕ}

theorem epa_of_any_word (epa : UInt32) :
    ((epa >>> 2) <<< 2).toNat = epa.toNat - epa.toNat % 4 := by
  have hlt := epa.toNat_lt
  rw [shiftLeft_toNat (by decide), shiftRight_toNat (by decide)]
  simp only [UInt32.reduceToNat]
  omega

theorem addEpa_lane {off : ℕ} (h : npa.epa.toNat % 4 = off) (j : ℕ) :
    addEpa { npa with epa := (npa.epa >>> 2) <<< 2 } (off + j) = addEpa npa j := by
  have hword : (npa.epa >>> 2) <<< 2 + UInt32.ofNat off = npa.epa := by
    have hlt := npa.epa.toNat_lt
    have hoff : (UInt32.ofNat off).toNat = off :=
      UInt32.toNat_ofNat_of_lt' (by simp only [UInt32.size]; omega)
    rw [← UInt32.toNat_inj, UInt32.toNat_add, epa_of_any_word, hoff]
    omega
  simp only [addEpa, UInt32.ofNat_add, ← UInt32.add_assoc, hword]

theorem byteOf_shifted (v : UInt32) {off j : ℕ} (h : off + j < 4) :
    byteOf (v <<< (8 * UInt32.ofNat off)) (off + j) = byteOf v j := by
  have hoff : (8 * UInt32.ofNat off).toNat = 8 * off := by
    rw [UInt32.toNat_mul, UInt32.toNat_ofNat_of_lt' (by simp only [UInt32.size]; omega)]
    simp only [UInt32.reduceToNat]
    omega
  have hshift : v.toNat * 2 ^ (8 * off) / 2 ^ (8 * (off + j)) = v.toNat / 2 ^ (8 * j) := by
    rw [Nat.mul_add, pow_add, ← Nat.div_div_eq_div_mul,
      Nat.mul_div_cancel _ (Nat.two_pow_pos _)]
  have hfield := field_mod (e := v.toNat * 2 ^ (8 * off)) (s := 8 * (off + j)) (k := 8) (n := 32)
    (by omega)
  rw [byteOf, byteOf, ← UInt8.toNat_inj, UInt8.toNat_ofNat', UInt8.toNat_ofNat',
    shiftLeft_toNat (by omega), hoff, hfield, hshift]

theorem byteOf_narrow_two (vp : UInt32) {j : ℕ} (h : j < 2) :
    byteOf vp.toUInt16.toUInt32 j = byteOf vp j := by
  rw [byteOf, byteOf, ← UInt8.toNat_inj, UInt8.toNat_ofNat', UInt8.toNat_ofNat',
    UInt16.toNat_toUInt32, UInt32.toNat_toUInt16]
  exact field_mod (k := 8) (by omega)

theorem byteOf_narrow_one (vp : UInt32) {j : ℕ} (h : j < 1) :
    byteOf vp.toUInt8.toUInt32 j = byteOf vp j := by
  rw [byteOf, byteOf, ← UInt8.toNat_inj, UInt8.toNat_ofNat', UInt8.toNat_ofNat',
    UInt8.toNat_toUInt32, UInt32.toNat_toUInt8]
  exact field_mod (k := 8) (by omega)

theorem coordinates_fit (hfit : FitsPacket mc.config) (hvalid : dstNpaIsValid mc npa = true) :
    npa.x.toUInt8.toUInt32 = npa.x ∧ npa.y.toUInt8.toUInt32 = npa.y := by
  simp only [dstNpaIsValid, Bool.and_eq_true, decide_eq_true_eq, UInt32.lt_iff_toNat_lt] at hvalid
  exact ⟨byte_of_coordinate (lt_of_lt_of_le hvalid.1 hfit.x),
    byte_of_coordinate (lt_of_lt_of_le hvalid.2 hfit.y)⟩

def head (mc : Manycore) (npa : Npa) : RequestPacket where
  xDst := npa.x.toUInt8
  yDst := npa.y.toUInt8
  xSrc := (hostCoordinate mc).x.toUInt8
  ySrc := (hostCoordinate mc).y.toUInt8
  addr := npa.epa >>> 2

theorem formatRequestPacket_eq (hvalid : dstNpaIsValid mc npa = true) :
    formatRequestPacket mc {} npa = .ok (head mc npa) := by
  rw [formatRequestPacket, if_pos hvalid, head]

/-- A masked store whose mask names the lanes from the offset on. -/
theorem packetBytes_store (hfit : FitsPacket mc.config) (hvalid : dstNpaIsValid mc npa = true)
    {off : ℕ} {mask vp v : UInt32} (hoff : npa.epa.toNat % 4 = off) (hroom : off + sz ≤ 4)
    (hlanes : (List.range 4).filter (fun j =>
      (mask <<< UInt32.ofNat off).toUInt8.toNat.testBit j) = (List.range sz).map (off + ·))
    (hv : ∀ j < sz, byteOf v j = byteOf vp j) :
    packetBytes { head mc npa with
        op := .remoteStore
        payload := v <<< (8 * UInt32.ofNat off)
        regId := (mask <<< UInt32.ofNat off).toUInt8 } =
      (List.range sz).map fun j => (addEpa npa j, byteOf vp j) := by
  obtain ⟨hx, hy⟩ := coordinates_fit hfit hvalid
  simp only [packetBytes, head, hlanes, List.map_map, hx, hy]
  apply List.map_congr_left
  intro j hj
  have hj := List.mem_range.mp hj
  simp only [Function.comp_apply, addEpa_lane hoff, byteOf_shifted v (show off + j < 4 by omega),
    hv j hj]

theorem addEpa_inside (hsz : IsSize sz) (ha : npa.epa.toNat % sz = 0) {j : ℕ} (hj : j < sz) :
    (addEpa npa j).epa.toNat = npa.epa.toNat + j := by
  have hlt := npa.epa.toNat_lt
  have hword : (UInt32.ofNat j).toNat = j := by
    apply UInt32.toNat_ofNat_of_lt'
    rcases hsz with rfl | rfl | rfl <;> simp only [UInt32.size] <;> omega
  rw [addEpa, UInt32.toNat_add, hword]
  rcases hsz with rfl | rfl | rfl <;> omega

theorem and_three_eq {off : ℕ} (hoff : npa.epa.toNat % 4 = off) :
    npa.epa &&& 3 = UInt32.ofNat off := by
  rw [← UInt32.toNat_inj, @and_low npa.epa 3 2 rfl,
    UInt32.toNat_ofNat_of_lt' (by simp only [UInt32.size]; omega)]
  exact hoff

/-- A store to an aligned address presents one packet, whatever the platform answers. -/
theorem write_sends (hfit : FitsPacket mc.config) (hvalid : dstNpaIsValid mc npa = true)
    (hsz : IsSize sz) (ha : npa.epa.toNat % sz = 0) (vp : UInt32) :
    ∃ rqst, (∀ tx, write mc npa vp sz tx = tx.map fun _ => rqst) ∧ StoreOf npa vp sz rqst := by
  have hinside : ∀ j < sz, (addEpa npa j).epa.toNat = npa.epa.toNat + j :=
    fun j hj => addEpa_inside hsz ha hj
  have hcheck := @epaCheckAlignment_eq npa.epa sz hsz
  rw [if_pos ha] at hcheck
  rcases hsz with rfl | rfl | rfl
  · refine ⟨{ head mc npa with
      op := .remoteStore
      payload := vp.toUInt8.toUInt32 <<< (8 * (npa.epa &&& 3))
      regId := (maskByte <<< (npa.epa &&& 3)).toUInt8 }, ?_, ?_, hinside⟩
    · intro tx
      simp only [write, formatRequestPacket_eq hvalid, hcheck]
      cases tx <;> rfl
    · rw [and_three_eq rfl]
      apply packetBytes_store hfit hvalid rfl (by omega)
      · have hlt := Nat.mod_lt npa.epa.toNat (show 0 < 4 by decide)
        interval_cases npa.epa.toNat % 4 <;> decide
      · exact fun j hj => byteOf_narrow_one vp hj
  · refine ⟨{ head mc npa with
      op := .remoteStore
      payload := vp.toUInt16.toUInt32 <<< (8 * (npa.epa &&& 3))
      regId := (maskShort <<< (npa.epa &&& 3)).toUInt8 }, ?_, ?_, hinside⟩
    · intro tx
      simp only [write, formatRequestPacket_eq hvalid, hcheck]
      cases tx <;> rfl
    · rw [and_three_eq rfl]
      have hoff : npa.epa.toNat % 4 = 0 ∨ npa.epa.toNat % 4 = 2 := by omega
      apply packetBytes_store hfit hvalid rfl (by omega)
      · rcases hoff with hoff | hoff <;> rw [hoff] <;> decide
      · exact fun j hj => byteOf_narrow_two vp hj
  · refine ⟨{ head mc npa with op := .remoteSw, payload := vp }, ?_, ?_, hinside⟩
    · intro tx
      simp only [write, formatRequestPacket_eq hvalid, hcheck]
      cases tx <;> rfl
    · obtain ⟨hx, hy⟩ := coordinates_fit hfit hvalid
      simp only [packetBytes, head, hx, hy, epa_of_word ha]

end Store

section Load

variable {mc : Manycore} {npa : Npa} {sz : ℕ}

theorem getLoadInfo_loadInfoWord {packet : RequestPacket} {info : LoadInfo}
    (hsel : info.partSel.toNat < 4) (hword : packet.payload = loadInfoWord info) :
    getLoadInfo packet = info := by
  obtain ⟨sel, hex, byte, unsigned⟩ := info
  have hcases : sel = 0 ∨ sel = 1 ∨ sel = 2 ∨ sel = 3 := by
    simp only [← UInt32.toNat_inj, UInt32.reduceToNat]
    simp only at hsel
    omega
  simp only [getLoadInfo, hword]
  rcases hcases with rfl | rfl | rfl | rfl <;> cases hex <;> cases byte <;> cases unsigned <;>
    decide

/-- A load of an aligned address presents one packet, whatever the platform answers. -/
theorem sendReadRqst_sends (hfit : FitsPacket mc.config) (hvalid : dstNpaIsValid mc npa = true)
    (hsz : IsSize sz) (ha : npa.epa.toNat % sz = 0) {id : UInt32} (hid : id.toNat < 2 ^ 8) :
    ∃ rqst, (∀ tx, sendReadRqst mc npa sz id tx = tx.map fun _ => rqst) ∧
      LoadOf npa sz id rqst := by
  have hcheck := @epaCheckAlignment_eq npa.epa sz hsz
  rw [if_pos ha] at hcheck
  obtain ⟨hx, hy⟩ := coordinates_fit hfit hvalid
  have hsel : (npa.epa &&& 3).toNat = npa.epa.toNat % 4 := and_low npa.epa (k := 2) rfl
  have hlt : (npa.epa &&& 3).toNat < 4 := by
    rw [hsel]
    exact Nat.mod_lt _ (by decide)
  let info : LoadInfo := ⟨npa.epa &&& 3, sz == 2, sz == 1, true⟩
  let rqst : RequestPacket :=
    { head mc npa with op := .remoteLoad, regId := id.toUInt8, payload := loadInfoWord info }
  have hinfo : getLoadInfo rqst = info := getLoadInfo_loadInfoWord hlt rfl
  refine ⟨rqst, ?_, rfl, hx, hy, epa_of_any_word npa.epa, ?_, ?_, ?_, byte_of_coordinate hid⟩
  · intro tx
    simp only [sendReadRqst, formatLoadRequestPacket, formatRequestPacket_eq hvalid, hcheck]
    cases tx <;> rfl
  · rw [hinfo]
    exact hsel
  · rw [hinfo]
    rcases hsz with rfl | rfl | rfl <;> rfl
  · rw [hinfo]

end Load

theorem unaligned_rejected {mc : Manycore} {npa : Npa} {sz : ℕ}
    (hvalid : dstNpaIsValid mc npa = true) (hsz : IsSize sz) (ha : npa.epa.toNat % sz ≠ 0)
    (vp id : UInt32) (tx : Except Errno Unit) :
    write mc npa vp sz tx = .error .unaligned ∧
      sendReadRqst mc npa sz id tx = .error .unaligned := by
  have hcheck := @epaCheckAlignment_eq npa.epa sz hsz
  rw [if_neg ha] at hcheck
  constructor
  · simp only [write, formatRequestPacket_eq hvalid, hcheck]
    rfl
  · simp only [sendReadRqst, formatLoadRequestPacket, formatRequestPacket_eq hvalid, hcheck]
    rfl

/-- On a valid address, what is sent for an aligned access says what was asked for, and nothing is
sent for any other. -/
theorem packets_faithful {mc : Manycore} {npa : Npa} {sz : ℕ} (hfit : FitsPacket mc.config)
    (hvalid : dstNpaIsValid mc npa = true) (hsz : sz = 1 ∨ sz = 2 ∨ sz = 4) (vp id : UInt32)
    (hid : id.toNat < 2 ^ 8) :
    (npa.epa.toNat % sz = 0 →
      (∃ rqst, (∀ tx, write mc npa vp sz tx = tx.map fun _ => rqst) ∧ StoreOf npa vp sz rqst) ∧
      ∃ rqst, (∀ tx, sendReadRqst mc npa sz id tx = tx.map fun _ => rqst) ∧
        LoadOf npa sz id rqst) ∧
    (npa.epa.toNat % sz ≠ 0 → ∀ tx, write mc npa vp sz tx = .error .unaligned ∧
      sendReadRqst mc npa sz id tx = .error .unaligned) := by
  constructor
  · intro ha
    exact ⟨write_sends hfit hvalid hsz ha vp, sendReadRqst_sends hfit hvalid hsz ha hid⟩
  · intro ha tx
    exact unaligned_rejected hvalid hsz ha vp id tx

theorem packets_faithful_machine :
    ((0x1002 : UInt32).toNat % 2 = 0 →
      (∃ rqst, (∀ tx, write ⟨({} : Machines.Machine).config, true⟩ ⟨16, 8, 0x1002⟩ 0xABCD 2 tx =
          tx.map fun _ => rqst) ∧ StoreOf ⟨16, 8, 0x1002⟩ 0xABCD 2 rqst) ∧
      ∃ rqst, (∀ tx, sendReadRqst ⟨({} : Machines.Machine).config, true⟩ ⟨16, 8, 0x1002⟩ 2 7 tx =
          tx.map fun _ => rqst) ∧ LoadOf ⟨16, 8, 0x1002⟩ 2 7 rqst) ∧
    ((0x1002 : UInt32).toNat % 2 ≠ 0 → ∀ tx,
      write ⟨({} : Machines.Machine).config, true⟩ ⟨16, 8, 0x1002⟩ 0xABCD 2 tx =
        .error .unaligned ∧
      sendReadRqst ⟨({} : Machines.Machine).config, true⟩ ⟨16, 8, 0x1002⟩ 2 7 tx =
        .error .unaligned) :=
  @packets_faithful _ ⟨16, 8, 0x1002⟩ 2 ⟨by decide, by decide⟩ (by decide) (.inr (.inl rfl)) 0xABCD
    7 (by decide)

end PacketFidelity
