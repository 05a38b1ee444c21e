import ManycoreRuntime.BitField
import ManycoreRuntime.Packets

/-! # Comparison of request packets

Two packets are compared field by field, their payloads through the bytes that the mask
selects. The helper joins these bytes in the lowest byte of one word, so that a byte's position
is lost, and neither the opcode nor the register id is compared. -/
namespace PacketEquals

open Coordinate (Errno)
open Packets (PacketOp RequestPacket)

structure Packet where
  xDst : UInt8
  yDst : UInt8
  xSrc : UInt8
  ySrc : UInt8
  payload : UInt32
  regId : UInt8
  opV2 : UInt8
  addr : UInt32
  deriving DecidableEq, Repr

def opCode : PacketOp → UInt8
  | .remoteLoad => 0
  | .remoteStore => 1
  | .remoteSw => 2
  | .cacheOp => 3

def ofRequest (rqst : RequestPacket) : Packet :=
  ⟨rqst.xDst, rqst.yDst, rqst.xSrc, rqst.ySrc, rqst.payload, rqst.regId, opCode rqst.op,
    rqst.addr⟩

def getBits (val start size : UInt32) : UInt32 :=
  let mask := ((1 <<< size) - 1) <<< start
  (val &&& mask) >>> start

/-- The valid data. Each selected byte is added where `getBits` leaves it, at the lowest byte. -/
def getDataValid (packet : Packet) : UInt32 :=
  (List.range 4).foldl (fun valid i =>
    if getBits packet.regId.toUInt32 (UInt32.ofNat i) 1 = 1 then
      valid ||| getBits packet.payload (UInt32.ofNat (i * 8)) 8
    else valid) 0

/-- The comparison of two packets, each behind a pointer that may be null. -/
def equals : Option Packet → Option Packet → Except Errno Unit
  | some a, some b =>
    if a.xDst ≠ b.xDst then .error .fail
    else if a.yDst ≠ b.yDst then .error .fail
    else if a.xSrc ≠ b.xSrc then .error .fail
    else if a.ySrc ≠ b.ySrc then .error .fail
    else if getDataValid a ≠ getDataValid b then .error .fail
    else if a.addr ≠ b.addr then .error .fail
    else .ok ()
  | _, _ => .error .fail

def Selected (p : Packet) (i : ℕ) : Prop := p.regId.toNat.testBit i = true

instance (p : Packet) (i : ℕ) : Decidable (Selected p i) :=
  inferInstanceAs (Decidable (_ = true))

def byte (p : Packet) (i : ℕ) : ℕ := p.payload.toNat / 2 ^ (i * 8) % 2 ^ 8

structure SameSite (a b : Packet) : Prop where
  xDst : a.xDst = b.xDst
  yDst : a.yDst = b.yDst
  xSrc : a.xSrc = b.xSrc
  ySrc : a.ySrc = b.ySrc
  addr : a.addr = b.addr

structure Same (a b : Packet) : Prop where
  site : SameSite a b
  op : a.opV2 = b.opV2
  regId : a.regId = b.regId
  bytes : ∀ i < 4, Selected a i → byte a i = byte b i

def SomeByteHas (p : Packet) (k : ℕ) : Prop := ∃ i < 4, Selected p i ∧ (byte p i).testBit k = true

/-- Two different packets that the comparison cannot tell apart. -/
structure Conflated (a b : Packet) : Prop where
  site : SameSite a b
  bits : ∀ k < 8, SomeByteHas a k ↔ SomeByteHas b k
  differ : a.opV2 ≠ b.opV2 ∨ a.regId ≠ b.regId ∨ ∃ i < 4, Selected a i ∧ byte a i ≠ byte b i

theorem SameSite.refl (a : Packet) : SameSite a a := ⟨rfl, rfl, rfl, rfl, rfl⟩

theorem SameSite.symm {a b : Packet} (h : SameSite a b) : SameSite b a :=
  ⟨h.xDst.symm, h.yDst.symm, h.xSrc.symm, h.ySrc.symm, h.addr.symm⟩

theorem SameSite.trans {a b c : Packet} (h : SameSite a b) (h' : SameSite b c) : SameSite a c :=
  ⟨h.xDst.trans h'.xDst, h.yDst.trans h'.yDst, h.xSrc.trans h'.xSrc, h.ySrc.trans h'.ySrc,
    h.addr.trans h'.addr⟩

theorem selected_congr {a b : Packet} (h : a.regId = b.regId) (i : ℕ) :
    Selected a i ↔ Selected b i := by
  rw [Selected, Selected, h]

theorem same_equivalence : Equivalence Same := by
  refine ⟨?_, ?_, ?_⟩
  · intro a
    exact ⟨SameSite.refl a, rfl, rfl, fun _ _ _ => rfl⟩
  · intro a b h
    refine ⟨h.site.symm, h.op.symm, h.regId.symm, ?_⟩
    intro i hi hs
    exact (h.bytes i hi ((selected_congr h.regId i).mpr hs)).symm
  · intro a b c h h'
    refine ⟨h.site.trans h'.site, h.op.trans h'.op, h.regId.trans h'.regId, ?_⟩
    intro i hi hs
    exact (h.bytes i hi hs).trans (h'.bytes i hi ((selected_congr h.regId i).mp hs))

theorem Same.someByteHas {a b : Packet} (h : Same a b) {k : ℕ} (hk : SomeByteHas a k) :
    SomeByteHas b k := by
  obtain ⟨i, hi, hs, hb⟩ := hk
  rw [h.bytes i hi hs] at hb
  exact ⟨i, hi, (selected_congr h.regId i).mp hs, hb⟩

theorem mask_lt {l b : ℕ} (h : b + l ≤ 32) : (2 ^ l - 1) * 2 ^ b < 2 ^ 32 := by
  calc (2 ^ l - 1) * 2 ^ b
      < 2 ^ l * 2 ^ b :=
        Nat.mul_lt_mul_of_pos_right (Nat.sub_lt (Nat.two_pow_pos _) (by omega))
          (Nat.two_pow_pos _)
    _ = 2 ^ (l + b) := (pow_add 2 _ _).symm
    _ ≤ 2 ^ 32 := Nat.pow_le_pow_right (by omega) (by omega)

theorem getBits_toNat {val start size : UInt32} (hs : start.toNat < 32) (hz : size.toNat < 32)
    (h : start.toNat + size.toNat ≤ 32) :
    (getBits val start size).toNat = val.toNat / 2 ^ start.toNat % 2 ^ size.toNat := by
  have hone : 1 * 2 ^ size.toNat % 2 ^ 32 = 2 ^ size.toNat := by
    rw [Nat.one_mul]
    exact Nat.mod_eq_of_lt (BitField.pow_lt_word hz)
  have hle : (1 : UInt32) ≤ 1 <<< size := by
    rw [UInt32.le_iff_toNat_le, BitField.shiftLeft_toNat hz]
    simp only [UInt32.reduceToNat, hone]
    exact Nat.one_le_two_pow
  have hmask : ((1 : UInt32) <<< size - 1).toNat = 2 ^ size.toNat - 1 := by
    rw [UInt32.toNat_sub_of_le _ _ hle, BitField.shiftLeft_toNat hz]
    simp only [UInt32.reduceToNat, hone]
  rw [getBits, BitField.shiftRight_toNat hs, UInt32.toNat_and, BitField.shiftLeft_toNat hs, hmask,
    Nat.mod_eq_of_lt (mask_lt h), BitField.and_field, Nat.mul_div_cancel _ (Nat.two_pow_pos _)]

theorem getBits_regId (p : Packet) {i : ℕ} (hi : i < 4) :
    getBits p.regId.toUInt32 (UInt32.ofNat i) 1 = 1 ↔ Selected p i := by
  have hstart : (UInt32.ofNat i).toNat = i :=
    UInt32.toNat_ofNat_of_lt (by unfold UInt32.size; omega)
  have hbits := @getBits_toNat p.regId.toUInt32 (UInt32.ofNat i) 1 (by omega) (by decide)
    (by rw [hstart]; simp only [UInt32.reduceToNat]; omega)
  simp only [hstart, UInt32.reduceToNat, pow_one, UInt8.toNat_toUInt32] at hbits
  rw [← UInt32.toNat_inj, hbits, Selected, Nat.testBit_eq_decide_div_mod_eq, decide_eq_true_eq]
  rfl

theorem getBits_payload (p : Packet) {i : ℕ} (hi : i < 4) :
    (getBits p.payload (UInt32.ofNat (i * 8)) 8).toNat = byte p i := by
  have hstart : (UInt32.ofNat (i * 8)).toNat = i * 8 :=
    UInt32.toNat_ofNat_of_lt (by unfold UInt32.size; omega)
  have hbits := @getBits_toNat p.payload (UInt32.ofNat (i * 8)) 8 (by omega) (by decide)
    (by rw [hstart]; simp only [UInt32.reduceToNat]; omega)
  simp only [hstart, UInt32.reduceToNat] at hbits
  exact hbits

theorem testBit_foldl {p : ℕ → Prop} [DecidablePred p] {g : ℕ → UInt32} (l : List ℕ)
    (v : UInt32) (k : ℕ) :
    (l.foldl (fun v i => if p i then v ||| g i else v) v).toNat.testBit k = true ↔
      v.toNat.testBit k = true ∨ ∃ i ∈ l, p i ∧ (g i).toNat.testBit k = true := by
  induction l generalizing v with
  | nil => simp
  | cons i l ih =>
    rw [List.foldl_cons, ih]
    by_cases hp : p i
    · simp only [hp, if_true, UInt32.toNat_or, Nat.testBit_or, Bool.or_eq_true, List.mem_cons,
        exists_eq_or_imp, true_and, or_assoc]
    · simp only [hp, if_false, List.mem_cons, exists_eq_or_imp, false_and, false_or]

theorem testBit_getDataValid (p : Packet) (k : ℕ) :
    (getDataValid p).toNat.testBit k = true ↔ SomeByteHas p k := by
  unfold getDataValid SomeByteHas
  rw [testBit_foldl]
  simp only [UInt32.toNat_zero, Nat.zero_testBit, Bool.false_eq_true, false_or, List.mem_range]
  apply exists_congr
  intro i
  apply and_congr_right
  intro hi
  rw [getBits_regId p hi, getBits_payload p hi]

/-- Only the lowest byte of the valid data is ever used. -/
theorem not_someByteHas (p : Packet) {k : ℕ} (hk : 8 ≤ k) : ¬ SomeByteHas p k := by
  rintro ⟨i, -, -, hb⟩
  have hlt : byte p i < 2 ^ k :=
    lt_of_lt_of_le (Nat.mod_lt _ (Nat.two_pow_pos 8)) (Nat.pow_le_pow_right (by omega) hk)
  rw [Nat.testBit_lt_two_pow hlt] at hb
  cases hb

theorem getDataValid_eq_iff (a b : Packet) :
    getDataValid a = getDataValid b ↔ ∀ k < 8, SomeByteHas a k ↔ SomeByteHas b k := by
  constructor
  · intro h k _
    rw [← testBit_getDataValid, ← testBit_getDataValid, h]
  · intro h
    rw [← UInt32.toNat_inj]
    apply Nat.eq_of_testBit_eq
    intro k
    rw [Bool.eq_iff_iff, testBit_getDataValid, testBit_getDataValid]
    by_cases hk : k < 8
    · exact h k hk
    · have hle : 8 ≤ k := Nat.le_of_not_lt hk
      exact iff_of_false (not_someByteHas a hle) (not_someByteHas b hle)

/-- What the comparison looks at. -/
theorem equals_ok_iff (a b : Packet) :
    equals (some a) (some b) = .ok () ↔ SameSite a b ∧ getDataValid a = getDataValid b := by
  constructor
  · intro h
    simp only [equals] at h
    split_ifs at h with h1 h2 h3 h4 h5 h6
    exact ⟨⟨not_not.mp h1, not_not.mp h2, not_not.mp h3, not_not.mp h4, not_not.mp h6⟩,
      not_not.mp h5⟩
  · rintro ⟨⟨h1, h2, h3, h4, h6⟩, h5⟩
    simp only [equals, h1, h2, h3, h4, h5, h6, ne_eq, not_true_eq_false, if_false]

theorem equals_of_same {a b : Packet} (h : Same a b) : equals (some a) (some b) = .ok () := by
  refine (equals_ok_iff a b).mpr ⟨h.site, (getDataValid_eq_iff a b).mpr ?_⟩
  exact fun k _ => ⟨h.someByteHas, (same_equivalence.symm h).someByteHas⟩

theorem same_or_differ {a b : Packet} (h : SameSite a b) :
    Same a b ↔ ¬ (a.opV2 ≠ b.opV2 ∨ a.regId ≠ b.regId ∨
      ∃ i < 4, Selected a i ∧ byte a i ≠ byte b i) := by
  constructor
  · rintro hs (hop | hreg | ⟨i, hi, hsel, hne⟩)
    · exact hop hs.op
    · exact hreg hs.regId
    · exact hne (hs.bytes i hi hsel)
  · intro hd
    push Not at hd
    exact ⟨h, hd.1, hd.2.1, hd.2.2⟩

/-- The comparison succeeds exactly on packets that are the same, unless it conflates them. -/
theorem equals_correct_iff (a b : Packet) :
    (equals (some a) (some b) = .ok () ↔ Same a b) ↔ ¬ Conflated a b := by
  constructor
  · rintro hiff ⟨hsite, hbits, hdiffer⟩
    have hok := (equals_ok_iff a b).mpr ⟨hsite, (getDataValid_eq_iff a b).mpr hbits⟩
    exact (same_or_differ hsite).mp (hiff.mp hok) hdiffer
  · intro hn
    refine ⟨fun hok => ?_, equals_of_same⟩
    obtain ⟨hsite, hdata⟩ := (equals_ok_iff a b).mp hok
    apply (same_or_differ hsite).mpr
    exact fun hd => hn ⟨hsite, (getDataValid_eq_iff a b).mp hdata, hd⟩

/-- Two stores of a half word with the bytes exchanged, and a load and a store of word 0. -/
theorem equals_conflates :
    (equals (some (ofRequest { op := .remoteStore, regId := 3, payload := 0x0102 }))
        (some (ofRequest { op := .remoteStore, regId := 3, payload := 0x0201 })) = .ok () ∧
      ¬ Same (ofRequest { op := .remoteStore, regId := 3, payload := 0x0102 })
        (ofRequest { op := .remoteStore, regId := 3, payload := 0x0201 })) ∧
    equals (some (ofRequest { op := .remoteLoad })) (some (ofRequest { op := .remoteSw })) =
        .ok () ∧
      ¬ Same (ofRequest { op := .remoteLoad }) (ofRequest { op := .remoteSw }) := by
  refine ⟨⟨by decide, fun h => ?_⟩, by decide, fun h => ?_⟩
  · exact absurd (h.bytes 0 (by decide) (by decide)) (by decide)
  · exact absurd h.op (by decide)

def SingleByte (p : Packet) : Prop :=
  ∀ i < 4, ∀ j < 4, Selected p i → Selected p j → i = j

theorem SingleByte.someByteHas_iff {p : Packet} (h : SingleByte p) {i : ℕ} (hi : i < 4)
    (hs : Selected p i) (k : ℕ) : SomeByteHas p k ↔ (byte p i).testBit k = true := by
  constructor
  · rintro ⟨j, hj, hsj, hb⟩
    rw [h i hi j hj hs hsj]
    exact hb
  · exact fun hb => ⟨i, hi, hs, hb⟩

theorem not_conflated_of_singleByte {a b : Packet} (hop : a.opV2 = b.opV2)
    (hreg : a.regId = b.regId) (hone : SingleByte a) : ¬ Conflated a b := by
  have honeb : SingleByte b := by
    intro i hi j hj hsi hsj
    exact hone i hi j hj ((selected_congr hreg i).mpr hsi) ((selected_congr hreg j).mpr hsj)
  rintro ⟨-, hbits, hne | hne | ⟨i, hi, hs, hne⟩⟩
  · exact hne hop
  · exact hne hreg
  · have hsb := (selected_congr hreg i).mp hs
    apply hne
    apply Nat.eq_of_testBit_eq
    intro k
    rw [Bool.eq_iff_iff, ← hone.someByteHas_iff hi hs, ← honeb.someByteHas_iff hi hsb]
    by_cases hk : k < 8
    · exact hbits k hk
    · have hle : 8 ≤ k := Nat.le_of_not_lt hk
      exact iff_of_false (not_someByteHas a hle) (not_someByteHas b hle)

end PacketEquals
