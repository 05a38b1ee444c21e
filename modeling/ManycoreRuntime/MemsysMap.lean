import ManycoreRuntime.BitGather
import ManycoreRuntime.Machines

/-! # The physical addresses of a memory system

A memory system with several banks names the bytes of a channel by row, bank group, bank, column
and byte offset. The fields stand anywhere in a channel address and are packed in this order into
a physical address. -/
namespace MemsysMap

open BitGather
open BitField (or_fields pow_lt_word)
open Configuration (DramPaBitfield Memsys check_eq_ok dramsim3CheckBitidx
  memsysCheckDramAddressMapInfo memsysCheckDramAddressMapInfoDramsim3 memsysInit)
open Fallible (bind_eq_ok)

/-- `1 << bits` is an `int` here. -/
def dramPaBitfieldGet (bf : DramPaBitfield) (address : UInt64) : UInt64 :=
  let mask : UInt64 := ((1 <<< bf.bits) - 1).toUInt64
  (address >>> bf.bitidx.toUInt64) &&& mask

section Definitions

variable (m : Memsys)

def mapToPhysicalChannelAddressDramsim3 (address : UInt64) : UInt64 :=
  let ro := dramPaBitfieldGet m.dramRo address
  let bg := dramPaBitfieldGet m.dramBg address
  let ba := dramPaBitfieldGet m.dramBa address
  let co := dramPaBitfieldGet m.dramCo address
  let byte_offset := dramPaBitfieldGet m.dramByteOffset address
  let dram_address : UInt64 := 0
  let dram_address := dram_address ||| ro
  let dram_address := (dram_address <<< m.dramBg.bits.toUInt64) ||| bg
  let dram_address := (dram_address <<< m.dramBa.bits.toUInt64) ||| ba
  let dram_address := (dram_address <<< m.dramCo.bits.toUInt64) ||| co
  (dram_address <<< m.dramByteOffset.bits.toUInt64) ||| byte_offset

def mapToPhysicalChannelAddress (address : UInt64) : UInt64 :=
  match m.id with
  | .dramsim3 | .hbm2 => mapToPhysicalChannelAddressDramsim3 m address
  | _ => address

def Mapped : Prop := m.id = .dramsim3 ∨ m.id = .hbm2

instance : Decidable (Mapped m) := inferInstanceAs (Decidable (_ ∨ _))

def fields : List DramPaBitfield :=
  [m.dramByteOffset, m.dramCo, m.dramBa, m.dramBg, m.dramRo]

def bitsOf (bf : DramPaBitfield) : List ℕ := List.range' bf.bitidx.toNat bf.bits.toNat

/-- The bits of a channel address that make up a physical address, lowest first. -/
def positions : List ℕ := (fields m).flatMap bitsOf

/-- No two fields share a bit, and all together they take the `n` low bits. -/
structure Partition (n : ℕ) : Prop where
  disjoint : (fields m).Pairwise fun f g => (bitsOf f).Disjoint (bitsOf g)
  cover : ∀ i, (∃ f ∈ fields m, i ∈ bitsOf f) ↔ i < n

/-- The fields are narrow enough for an `int`, and the shift to each field that has bits for a
word of the address. -/
structure Narrow : Prop where
  bits : ∀ f ∈ fields m, f.bits.toNat < 31
  bitidx : ∀ f ∈ fields m, f.bitidx.toNat < 64 ∨ f.bits.toNat = 0
  total : (positions m).length ≤ 64

end Definitions

section Fields

variable {bf : DramPaBitfield}

@[simp] theorem length_bitsOf : (bitsOf bf).length = bf.bits.toNat := List.length_range'

theorem mem_bitsOf {i : ℕ} :
    i ∈ bitsOf bf ↔ bf.bitidx.toNat ≤ i ∧ i < bf.bitidx.toNat + bf.bits.toNat :=
  List.mem_range'_1

theorem disjoint_bitsOf {f g : DramPaBitfield}
    (h : f.bitidx.toNat + f.bits.toNat ≤ g.bitidx.toNat ∨
      g.bitidx.toNat + g.bits.toNat ≤ f.bitidx.toNat) : (bitsOf f).Disjoint (bitsOf g) := by
  intro i hf hg
  rw [mem_bitsOf] at hf hg
  omega

theorem mask_toNat (h : bf.bits.toNat < 31) :
    ((1 <<< bf.bits) - 1 : UInt32).toUInt64.toNat = 2 ^ bf.bits.toNat - 1 := by
  have hp : 2 ^ bf.bits.toNat < 2 ^ 32 := pow_lt_word (by omega)
  have h1 : 1 ≤ 2 ^ bf.bits.toNat := Nat.one_le_two_pow
  have hs : ((1 : UInt32) <<< bf.bits).toNat = 2 ^ bf.bits.toNat := by
    rw [BitField.shiftLeft_toNat (by omega)]
    simpa using hp
  rw [UInt32.toNat_toUInt64, UInt32.toNat_sub, hs]
  simp only [UInt32.reduceToNat]
  omega

theorem dramPaBitfieldGet_toNat (h : bf.bits.toNat < 31)
    (hi : bf.bitidx.toNat < 64 ∨ bf.bits.toNat = 0) (address : UInt64) :
    (dramPaBitfieldGet bf address).toNat = gather (bitsOf bf) address.toNat := by
  rw [dramPaBitfieldGet, UInt64.toNat_and, mask_toNat h, Nat.and_two_pow_sub_one_eq_mod, bitsOf,
    gather_range']
  rcases hi with hi | hi
  · rw [BitField.shiftRight64_toNat hi]
  · simp [hi, Nat.mod_one]

end Fields

theorem pack_toNat {acc field : UInt64} {bf : DramPaBitfield} {τ : List ℕ} {a : ℕ}
    (hfield : field.toNat = gather (bitsOf bf) a) (hacc : acc.toNat = gather τ a)
    (hb : bf.bits.toNat < 64) (hroom : (bitsOf bf ++ τ).length ≤ 64) :
    ((acc <<< bf.bits.toUInt64) ||| field).toNat = gather (bitsOf bf ++ τ) a := by
  rw [List.length_append, length_bitsOf] at hroom
  have hlow := gather_lt (bitsOf bf) a
  rw [length_bitsOf] at hlow
  have hlt : gather τ a * 2 ^ bf.bits.toNat < 2 ^ 64 := by
    calc gather τ a * 2 ^ bf.bits.toNat
        < 2 ^ τ.length * 2 ^ bf.bits.toNat :=
          Nat.mul_lt_mul_of_pos_right (gather_lt τ a) (Nat.two_pow_pos _)
      _ = 2 ^ (τ.length + bf.bits.toNat) := (pow_add 2 _ _).symm
      _ ≤ 2 ^ 64 := Nat.pow_le_pow_right (by omega) (by omega)
  rw [UInt64.toNat_or, BitField.shiftLeft64_toNat hb, hacc, hfield, Nat.mod_eq_of_lt hlt,
    Nat.or_comm, or_fields _ hlow, gather_append, length_bitsOf, Nat.mul_comm (2 ^ _)]

section Map

variable {m : Memsys}

theorem map_eq_of_mapped (h : Mapped m) (address : UInt64) :
    mapToPhysicalChannelAddress m address = mapToPhysicalChannelAddressDramsim3 m address := by
  rcases h with h | h <;> simp only [mapToPhysicalChannelAddress, h]

theorem map_eq_of_not_mapped (h : ¬ Mapped m) (address : UInt64) :
    mapToPhysicalChannelAddress m address = address := by
  unfold mapToPhysicalChannelAddress
  split
  · exact absurd (.inl ‹_›) h
  · exact absurd (.inr ‹_›) h
  · rfl

theorem length_positions : (positions m).length =
    m.dramByteOffset.bits.toNat + (m.dramCo.bits.toNat + (m.dramBa.bits.toNat +
      (m.dramBg.bits.toNat + m.dramRo.bits.toNat))) := by
  simp [positions, fields]

/-- The map gathers the bits of a channel address into a physical address. -/
theorem mapDramsim3_toNat (h : Narrow m) (address : UInt64) :
    (mapToPhysicalChannelAddressDramsim3 m address).toNat =
      gather (positions m) address.toNat := by
  obtain ⟨hbits, hidx, htotal⟩ := h
  simp only [positions, fields, List.flatMap_cons, List.flatMap_nil, List.append_nil,
    List.forall_mem_cons, List.length_append, length_bitsOf] at hbits hidx htotal ⊢
  obtain ⟨boff, bco, bba, bbg, bro, -⟩ := hbits
  obtain ⟨ioff, ico, iba, ibg, iro, -⟩ := hidx
  have hget := fun bf hb hi => @dramPaBitfieldGet_toNat bf hb hi address
  have hro : ((0 : UInt64) ||| dramPaBitfieldGet m.dramRo address).toNat =
      gather (bitsOf m.dramRo) address.toNat := by
    rw [UInt64.zero_or]
    exact hget _ bro iro
  have hbg := pack_toNat (hget _ bbg ibg) hro (by omega) (by simp; omega)
  have hba := pack_toNat (hget _ bba iba) hbg (by omega) (by simp; omega)
  have hco := pack_toNat (hget _ bco ico) hba (by omega) (by simp; omega)
  exact pack_toNat (hget _ boff ioff) hco (by omega) (by simp; omega)

theorem Partition.nodup {n : ℕ} (h : Partition m n) : (positions m).Nodup := by
  rw [positions, List.nodup_flatMap]
  exact ⟨fun bf _ => List.nodup_range', h.disjoint⟩

theorem Partition.perm {n : ℕ} (h : Partition m n) : (positions m).Perm (List.range n) := by
  apply (List.perm_ext_iff_of_nodup h.nodup List.nodup_range).mpr
  intro i
  rw [positions, List.mem_flatMap, h.cover, List.mem_range]

theorem Partition.length {n : ℕ} (h : Partition m n) : (positions m).length = n := by
  rw [h.perm.length_eq, List.length_range]

/-- A field of a partition that takes a bit begins at one of its bits. -/
theorem Partition.narrow {n : ℕ} (h : Partition m n) (hbits : ∀ f ∈ fields m, f.bits.toNat < 31)
    (hn : n < 64) : Narrow m := by
  refine ⟨hbits, ?_, by rw [h.length]; omega⟩
  intro f hf
  by_cases hzero : f.bits.toNat = 0
  · exact .inr hzero
  · have hfirst : f.bitidx.toNat < n :=
      (h.cover _).mp ⟨f, hf, mem_bitsOf.mpr ⟨le_rfl, by omega⟩⟩
    exact .inl (by omega)

/-- What the decoder demands of the fields of a memory system with a map of its own. -/
structure Dramsim3Layout (m : Memsys) : Prop where
  ro : m.dramRo.bits.toNat = 14 ∨ m.dramRo.bits.toNat = 15
  co : m.dramCo.bits.toNat = 6
  ba : m.dramBa.bits.toNat = 2
  bg : m.dramBg.bits.toNat = 2
  byteOffset : m.dramByteOffset.bits.toNat = 5
  bitidx : ∀ f ∈ fields m, f.bitidx.toNat ≤ 30

theorem layout_checked {rom : Configuration.MemsysRomIdx → UInt32} (hm : memsysInit rom = .ok m) :
    memsysCheckDramAddressMapInfo m = .ok () := by
  simp only [memsysInit, bind_eq_ok, pure, Except.pure, Except.ok.injEq] at hm
  obtain ⟨id, -, features, -, _, -, _, -, _, hcheck, rfl⟩ := hm
  exact hcheck

theorem dramsim3Layout_of_accepted (hm : ∃ rom, memsysInit rom = .ok m) (hid : Mapped m) :
    Dramsim3Layout m := by
  obtain ⟨rom, hm⟩ := hm
  have hcheck := layout_checked hm
  have hmap : memsysCheckDramAddressMapInfo m = memsysCheckDramAddressMapInfoDramsim3 m := by
    rcases hid with hid | hid <;> simp only [memsysCheckDramAddressMapInfo, hid]
  rw [hmap] at hcheck
  simp only [memsysCheckDramAddressMapInfoDramsim3, dramsim3CheckBitidx, bind_eq_ok, check_eq_ok,
    exists_const, Bool.or_eq_true, beq_iff_eq, Bool.and_eq_true, decide_eq_true_eq,
    ← UInt32.toNat_inj, UInt32.le_iff_toNat_le, UInt32.reduceToNat, ge_iff_le] at hcheck
  obtain ⟨hro, hco, hba, hbg, hoff, ⟨-, iro⟩, ⟨-, ico⟩, ⟨-, iba⟩, ⟨-, ibg⟩, -, ioff⟩ := hcheck
  refine ⟨hro, hco, hba, hbg, hoff, ?_⟩
  simp only [fields, List.forall_mem_cons, List.not_mem_nil, IsEmpty.forall_iff, implies_true,
    and_true]
  exact ⟨ioff, ico, iba, ibg, iro⟩

theorem narrow_of_accepted {m : Memsys} (hm : ∃ rom, memsysInit rom = .ok m) (hid : Mapped m) :
    Narrow m := by
  obtain ⟨hro, hco, hba, hbg, hoff, hidx⟩ := dramsim3Layout_of_accepted hm hid
  refine ⟨?_, fun f hf => .inl (lt_of_le_of_lt (hidx f hf) (by decide)), ?_⟩
  · simp only [fields, List.forall_mem_cons, List.not_mem_nil, IsEmpty.forall_iff, implies_true,
      and_true]
    omega
  · rw [length_positions]
    omega

end Map

theorem bijOn_words {n : ℕ} (hn : n ≤ 64) {f : UInt64 → UInt64} {g : ℕ → ℕ}
    (hfg : ∀ a, (f a).toNat = g a.toNat)
    (hg : Set.BijOn g (Set.Iio (2 ^ n)) (Set.Iio (2 ^ n))) :
    Set.BijOn f {a | a.toNat < 2 ^ n} {a | a.toNat < 2 ^ n} := by
  obtain ⟨hmaps, hinj, hsurj⟩ := hg
  refine ⟨?_, ?_, ?_⟩
  · intro a ha
    change (f a).toNat < 2 ^ n
    rw [hfg]
    exact hmaps ha
  · intro a ha b hb hab
    apply UInt64.toNat_inj.mp
    apply hinj ha hb
    rw [← hfg, ← hfg, hab]
  · intro b hb
    obtain ⟨a, ha, hab⟩ := hsurj hb
    have hword : a < 2 ^ 64 := lt_of_lt_of_le ha (Nat.pow_le_pow_right (by omega) hn)
    have hround : (UInt64.ofNat a).toNat = a := UInt64.toNat_ofNat_of_lt' hword
    refine ⟨UInt64.ofNat a, ?_, UInt64.toNat_inj.mp ?_⟩
    · change (UInt64.ofNat a).toNat < 2 ^ n
      rw [hround]
      exact ha
    · rw [hfg, hround]
      exact hab

/-- The map is a bijection of the addresses that the fields take bits of. -/
theorem physicalAddress_bijOn {m : Memsys} {n : ℕ} (hid : m.id = .dramsim3 ∨ m.id = .hbm2)
    (hbits : ∀ f ∈ fields m, f.bits.toNat < 31) (hn : n < 64) (h : Partition m n) :
    Set.BijOn (mapToPhysicalChannelAddress m) {a | a.toNat < 2 ^ n} {a | a.toNat < 2 ^ n} := by
  have hgather : ∀ a, (mapToPhysicalChannelAddress m a).toNat = gather (positions m) a.toNat := by
    intro a
    rw [map_eq_of_mapped hid, mapDramsim3_toNat (h.narrow hbits hn)]
  apply bijOn_words (by omega) hgather
  apply gather_bijOn h.length
  intro i hi
  exact h.perm.mem_iff.mpr (List.mem_range.mpr hi)

theorem partition_of_machine : Partition ({} : Machines.Machine).config.memsys 30 where
  disjoint := List.Pairwise.imp disjoint_bitsOf (by decide)
  cover i := by
    simp only [fields, Machines.Machine.config, List.mem_cons, List.not_mem_nil, or_false,
      exists_eq_or_imp, exists_eq_left, mem_bitsOf, UInt32.reduceToNat]
    omega

theorem physicalAddress_bijOn_machine :
    Set.BijOn (mapToPhysicalChannelAddress ({} : Machines.Machine).config.memsys)
      {a | a.toNat < 2 ^ 30} {a | a.toNat < 2 ^ 30} :=
  physicalAddress_bijOn (.inr rfl) (by decide) (by decide) partition_of_machine

end MemsysMap
