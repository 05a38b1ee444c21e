import ManycoreRuntime.DmaTables
import ManycoreRuntime.MemsysMap

/-! # The simulated DMA in bulk

The simulated DMA maps the first address of a transfer to a place in a memory and copies from
there on. The map moves bits about, so the bytes after the first one are in their places only as
long as the addresses carry within the part of the layout that is in order. -/
namespace BulkDma

open BitGather
open Coordinate (Errno)
open Configuration (Config Memsys memsysInit)
open DmaInit (Tables divLong numCaches)
open EvaToNpa (Npa)
open Machines (Machine)
open MemsysMap
open PodGeometry (dramId)

/-- A simulated memory and what a pointer into it reaches. -/
structure Memory where
  size : UInt64
  data : ℕ → UInt8

abbrev Memories := UInt64 → Option Memory

structure Buffer where
  id : UInt64
  memory : Memory
  addr : UInt64

section Definitions

variable (cfg : Config) (t : Tables) (memories : Memories) (npa : Npa)

/-- An entry that no builder wrote has no value. -/
def entry (table : ℕ → Option UInt64) (cache_id : UInt32) : Except Errno UInt64 :=
  match table cache_id.toNat with
  | some v => .ok v
  | none => .error .undefined

def dmaNpaToBuffer (sz : UInt64) : Except Errno Buffer := do
  let caches := (numCaches cfg).toUInt64
  let channels := cfg.memsys.dramChannels.toUInt64
  let caches_per_channel ← divLong caches channels
  let cache_id ← dramId cfg ⟨npa.x, npa.y⟩
  let id ← entry t.cacheIdToMemoryId cache_id
  let bank ← entry t.cacheIdToBankId cache_id
  match memories id with
  -- the size of a missing memory is read before the check for it
  | none => .error .undefined
  | some memory => do
    let bank_size ← divLong memory.size caches_per_channel
    let cache_addr := bank * bank_size + npa.epa.toUInt64
    let addr := mapToPhysicalChannelAddress cfg.memsys cache_addr
    -- no call returns from a failed assertion
    if addr + sz ≤ memory.size then .ok ⟨id, memory, addr⟩ else .error .undefined

def copyIn (addr sz : ℕ) (data m : ℕ → UInt8) : ℕ → UInt8 := fun a =>
  if addr ≤ a ∧ a < addr + sz then data (a - addr) else m a

def dmaWrite (data : ℕ → UInt8) (sz : UInt64) : Except Errno Memories := do
  let membuffer ← dmaNpaToBuffer cfg t memories npa sz
  let written := copyIn membuffer.addr.toNat sz.toNat data membuffer.memory.data
  return Function.update memories membuffer.id (some ⟨membuffer.memory.size, written⟩)

def dmaRead (sz : UInt64) : Except Errno (List UInt8) := do
  let membuffer ← dmaNpaToBuffer cfg t memories npa sz
  return (List.range sz.toNat).map fun k => membuffer.memory.data (membuffer.addr.toNat + k)

structure Place where
  id : UInt64
  bank : UInt64
  cachesPerChannel : UInt64
  memory : Memory

structure Located (pl : Place) : Prop where
  cachesPerChannel :
    divLong (numCaches cfg).toUInt64 cfg.memsys.dramChannels.toUInt64 = .ok pl.cachesPerChannel
  cache : ∃ cache, dramId cfg ⟨npa.x, npa.y⟩ = .ok cache ∧
    t.cacheIdToMemoryId cache.toNat = some pl.id ∧ t.cacheIdToBankId cache.toNat = some pl.bank
  bank : pl.bank.toNat < pl.cachesPerChannel.toNat
  memory : memories pl.id = some pl.memory

def Place.bankSize (pl : Place) : UInt64 := pl.memory.size / pl.cachesPerChannel

def channelAddress (pl : Place) : UInt64 := pl.bank * pl.bankSize + npa.epa.toUInt64

def physical (pl : Place) (k : ℕ) : ℕ :=
  (mapToPhysicalChannelAddress cfg.memsys (channelAddress npa pl + UInt64.ofNat k)).toNat

def Asserted (pl : Place) (sz : UInt64) : Prop :=
  mapToPhysicalChannelAddress cfg.memsys (channelAddress npa pl) + sz ≤ pl.memory.size

/-- A transfer of `sz` bytes touches the bytes that the map gives for each address on its own. -/
structure Bytewise (pl : Place) (sz : UInt64) : Prop where
  write : ∀ data, ∃ written, dmaWrite cfg t memories npa data sz =
      .ok (Function.update memories pl.id (some ⟨pl.memory.size, written⟩)) ∧
    (∀ k < sz.toNat, written (physical cfg npa pl k) = data k) ∧
    ∀ a, (∀ k < sz.toNat, a ≠ physical cfg npa pl k) → written a = pl.memory.data a
  read : dmaRead cfg t memories npa sz =
    .ok ((List.range sz.toNat).map fun k => pl.memory.data (physical cfg npa pl k))

end Definitions

section Proof

variable {cfg : Config} {t : Tables} {memories : Memories} {npa : Npa} {pl : Place} {sz : UInt64}

theorem dmaNpaToBuffer_eq (h : Located cfg t memories npa pl) :
    dmaNpaToBuffer cfg t memories npa sz =
      if mapToPhysicalChannelAddress cfg.memsys (channelAddress npa pl) + sz ≤ pl.memory.size then
        .ok ⟨pl.id, pl.memory, mapToPhysicalChannelAddress cfg.memsys (channelAddress npa pl)⟩
      else .error .undefined := by
  obtain ⟨hper, ⟨cache, hcache, hid, hbank⟩, hlt, hmem⟩ := h
  have hpos : pl.cachesPerChannel ≠ 0 := by
    intro hzero
    rw [hzero] at hlt
    exact absurd hlt (by simp)
  have hsize : divLong pl.memory.size pl.cachesPerChannel = .ok pl.bankSize := by
    simp only [divLong, hpos, if_false, Place.bankSize]
  simp only [dmaNpaToBuffer, hper, hcache, entry, hid, hbank, hmem, hsize, bind, Except.bind]
  rfl

theorem physical_zero :
    physical cfg npa pl 0 =
      (mapToPhysicalChannelAddress cfg.memsys (channelAddress npa pl)).toNat := by
  simp [physical]

theorem dmaWrite_eq_ok (h : Located cfg t memories npa pl) (ha : Asserted cfg npa pl sz)
    (data : ℕ → UInt8) : dmaWrite cfg t memories npa data sz =
      .ok (Function.update memories pl.id (some ⟨pl.memory.size,
        copyIn (physical cfg npa pl 0) sz.toNat data pl.memory.data⟩)) := by
  unfold Asserted at ha
  simp only [dmaWrite, dmaNpaToBuffer_eq h, if_pos ha, physical_zero, bind, Except.bind, pure,
    Except.pure]

theorem dmaRead_eq_ok (h : Located cfg t memories npa pl) (ha : Asserted cfg npa pl sz) :
    dmaRead cfg t memories npa sz = .ok ((List.range sz.toNat).map fun k =>
      pl.memory.data (physical cfg npa pl 0 + k)) := by
  unfold Asserted at ha
  simp only [dmaRead, dmaNpaToBuffer_eq h, if_pos ha, physical_zero, bind, Except.bind, pure,
    Except.pure]

theorem asserted_of_dmaRead {bytes : List UInt8} (h : Located cfg t memories npa pl)
    (hr : dmaRead cfg t memories npa sz = .ok bytes) : Asserted cfg npa pl sz := by
  by_contra ha
  unfold Asserted at ha
  simp [dmaRead, dmaNpaToBuffer_eq h, if_neg ha, bind, Except.bind] at hr

theorem copyIn_place {addr n : ℕ} {place : ℕ → ℕ} {m : ℕ → UInt8}
    (h : ∀ data, ∀ k < n, copyIn addr n data m (place k) = data k) :
    ∀ k < n, place k = addr + k := by
  intro k hk
  by_cases hin : addr ≤ place k ∧ place k < addr + n
  · -- only byte `k` of the buffer is one
    have hbyte := h (fun j => if j = k then 1 else 0) k hk
    simp only [copyIn, if_pos hin, if_true] at hbyte
    by_cases hat : place k - addr = k
    · omega
    · simp [hat] at hbyte
  · have hbyte := h (fun _ => m (place k) + 1) k hk
    simp only [copyIn, if_neg hin] at hbyte
    simp at hbyte

/-- A transfer touches the bytes of its addresses one by one exactly if the assertion holds and
the addresses are mapped to places in a row. -/
theorem bytewise_iff_row (h : Located cfg t memories npa pl) :
    Bytewise cfg t memories npa pl sz ↔ Asserted cfg npa pl sz ∧
      ∀ k < sz.toNat, physical cfg npa pl k = physical cfg npa pl 0 + k := by
  constructor
  · rintro ⟨hw, hr⟩
    have ha := asserted_of_dmaRead h hr
    refine ⟨ha, ?_⟩
    apply copyIn_place (m := pl.memory.data)
    intro data k hk
    obtain ⟨written, hok, hbytes, -⟩ := hw data
    rw [dmaWrite_eq_ok h ha, Except.ok.injEq] at hok
    have hmem := congrFun hok pl.id
    simp only [Function.update_self, Option.some.injEq, Memory.mk.injEq, true_and] at hmem
    rw [hmem]
    exact hbytes k hk
  · rintro ⟨ha, hrow⟩
    constructor
    · intro data
      refine ⟨_, dmaWrite_eq_ok h ha data, ?_, ?_⟩
      · intro k hk
        rw [hrow k hk, copyIn, if_pos (by omega), Nat.add_sub_cancel_left]
      · intro a hout
        rw [copyIn, if_neg]
        rintro ⟨hle, hlt⟩
        apply hout (a - physical cfg npa pl 0) (by omega)
        rw [hrow _ (by omega)]
        omega
    · rw [dmaRead_eq_ok h ha, Except.ok.injEq]
      apply List.map_congr_left
      intro k hk
      rw [hrow k (List.mem_range.mp hk)]

theorem channelAddress_room (h : Located cfg t memories npa pl)
    (hsz : npa.epa.toNat + sz.toNat ≤ pl.bankSize.toNat) :
    (channelAddress npa pl).toNat = pl.bank.toNat * pl.bankSize.toNat + npa.epa.toNat ∧
      (channelAddress npa pl).toNat + sz.toNat ≤ pl.memory.size.toNat := by
  have hbank := h.bank
  have hsize : pl.bankSize.toNat = pl.memory.size.toNat / pl.cachesPerChannel.toNat := by
    rw [Place.bankSize, UInt64.toNat_div]
  have hend : pl.bank.toNat * pl.bankSize.toNat + pl.bankSize.toNat ≤ pl.memory.size.toNat := by
    calc pl.bank.toNat * pl.bankSize.toNat + pl.bankSize.toNat
        = (pl.bank.toNat + 1) * pl.bankSize.toNat := (Nat.succ_mul _ _).symm
      _ ≤ pl.cachesPerChannel.toNat * pl.bankSize.toNat := Nat.mul_le_mul_right _ hbank
      _ ≤ pl.memory.size.toNat := by
        rw [hsize]
        exact Nat.mul_div_le _ _
  have hmax := pl.memory.size.toNat_lt
  have haddr : (channelAddress npa pl).toNat =
      pl.bank.toNat * pl.bankSize.toNat + npa.epa.toNat := by
    rw [channelAddress, UInt64.toNat_add, UInt64.toNat_mul, UInt32.toNat_toUInt64,
      Nat.mod_eq_of_lt (a := _ * _) (by omega), Nat.mod_eq_of_lt (by omega)]
  exact ⟨haddr, by omega⟩

theorem channelAddress_add (h : Located cfg t memories npa pl)
    (hsz : npa.epa.toNat + sz.toNat ≤ pl.bankSize.toNat) {k : ℕ} (hk : k < sz.toNat) :
    (channelAddress npa pl + UInt64.ofNat k).toNat = (channelAddress npa pl).toNat + k := by
  have hroom := (channelAddress_room h hsz).2
  have hmax := pl.memory.size.toNat_lt
  have hword : (UInt64.ofNat k).toNat = k := UInt64.toNat_ofNat_of_lt' (by
    have := sz.toNat_lt
    exact lt_trans hk this)
  rw [UInt64.toNat_add, hword, Nat.mod_eq_of_lt (by omega)]

/-- Where the addresses carry in order, a transfer within its bank is mapped to places in a row. -/
theorem row_iff (hm : ∃ rom, memsysInit rom = .ok cfg.memsys)
    (h : Located cfg t memories npa pl) (hsz : npa.epa.toNat + sz.toNat ≤ pl.bankSize.toNat) :
    (∀ k < sz.toNat, physical cfg npa pl k = physical cfg npa pl 0 + k) ↔
      (Mapped cfg.memsys →
        CarriesInOrder (positions cfg.memsys) (channelAddress npa pl).toNat sz.toNat) := by
  by_cases hid : Mapped cfg.memsys
  · have hnarrow := narrow_of_accepted hm hid
    have hphys : ∀ k < sz.toNat, physical cfg npa pl k =
        gather (positions cfg.memsys) ((channelAddress npa pl).toNat + k) := by
      intro k hk
      rw [physical, map_eq_of_mapped hid, mapDramsim3_toNat hnarrow, channelAddress_add h hsz hk]
    have hzero : physical cfg npa pl 0 =
        gather (positions cfg.memsys) (channelAddress npa pl).toNat := by
      rw [physical_zero, map_eq_of_mapped hid, mapDramsim3_toNat hnarrow]
    rw [imp_iff_right hid, ← gather_add_iff, hzero]
    constructor
    · intro hrow k hk
      rw [← hphys k hk]
      exact hrow k hk
    · intro hrow k hk
      rw [hphys k hk]
      exact hrow k hk
  · apply iff_of_true
    · intro k hk
      rw [physical_zero, physical, map_eq_of_not_mapped hid, map_eq_of_not_mapped hid,
        channelAddress_add h hsz hk]
    · exact fun hmapped => absurd hmapped hid

/-- A transfer in bulk touches the bytes of its addresses one by one exactly if the memory system
has no map of its own, or the memory reaches as far as the copy and the layout is in order around
every carry of the addresses. -/
theorem bytewise_iff (hm : ∃ rom, memsysInit rom = .ok cfg.memsys)
    (h : Located cfg t memories npa pl) (hsz : npa.epa.toNat + sz.toNat ≤ pl.bankSize.toNat) :
    Bytewise cfg t memories npa pl sz ↔
      (Mapped cfg.memsys → Asserted cfg npa pl sz ∧
        CarriesInOrder (positions cfg.memsys) (channelAddress npa pl).toNat sz.toNat) := by
  rw [bytewise_iff_row h, row_iff hm h hsz]
  by_cases hid : Mapped cfg.memsys
  · simp only [imp_iff_right hid]
  · have hroom := (channelAddress_room h hsz).2
    have hmax := pl.memory.size.toNat_lt
    have ha : Asserted cfg npa pl sz := by
      unfold Asserted
      rw [map_eq_of_not_mapped hid, UInt64.le_iff_toNat_le, UInt64.toNat_add,
        Nat.mod_eq_of_lt (by omega)]
      exact hroom
    simp only [hid, false_imp_iff, and_true, ha]

end Proof

def gigabyte : Memory := ⟨0x40000000, fun _ => 0⟩

def firstBank : Place := ⟨0, 0, 16, gigabyte⟩

def firstWord : Npa := ⟨16, 7, 0⟩

theorem located_first : ∃ t,
    DmaInit.dmaInit ({} : Machine).config = .ok (({} : Machine).config, t) ∧
    Located ({} : Machine).config t (fun _ => some gigabyte) firstWord firstBank := by
  have hinit : ((DmaInit.dmaInit ({} : Machine).config).toOption.map fun r =>
      (r.1, r.2.cacheIdToMemoryId 0, r.2.cacheIdToBankId 0)) =
        some (({} : Machine).config, some 0, some 0) := by decide +kernel
  cases hr : DmaInit.dmaInit ({} : Machine).config with
  | error e => simp [hr, Except.toOption] at hinit
  | ok r =>
    simp only [hr, Except.toOption, Option.map_some, Option.some.injEq, Prod.mk.injEq] at hinit
    obtain ⟨hcfg, hid, hbank⟩ := hinit
    refine ⟨r.2, by rw [← hcfg], ?_⟩
    exact ⟨by decide +kernel, ⟨0, by decide +kernel, hid, hbank⟩, by decide, rfl⟩

theorem bytewise_iff_first : ∃ t,
    Located ({} : Machine).config t (fun _ => some gigabyte) firstWord firstBank ∧
    (Bytewise ({} : Machine).config t (fun _ => some gigabyte) firstWord firstBank 128 ↔
      (Mapped ({} : Machine).config.memsys →
        Asserted ({} : Machine).config firstWord firstBank 128 ∧
        CarriesInOrder (positions ({} : Machine).config.memsys)
          (channelAddress firstWord firstBank).toNat 128)) := by
  obtain ⟨t, -, hl⟩ := located_first
  have hm : ∃ rom, memsysInit rom = .ok ({} : Machine).config.memsys :=
    ⟨({} : Machine).memsysRom, by decide +kernel⟩
  exact ⟨t, hl, bytewise_iff hm hl (by decide)⟩

/-- The row of the machine's layout begins at bit 11, so byte 2048 of a transfer goes astray. -/
theorem bulk_astray : ∃ t,
    DmaInit.dmaInit ({} : Machine).config = .ok (({} : Machine).config, t) ∧
    Located ({} : Machine).config t (fun _ => some gigabyte) firstWord firstBank ∧
    firstWord.epa.toNat + (2049 : UInt64).toNat ≤ firstBank.bankSize.toNat ∧
    ¬ Bytewise ({} : Machine).config t (fun _ => some gigabyte) firstWord firstBank 2049 := by
  obtain ⟨t, hinit, hl⟩ := located_first
  refine ⟨t, hinit, hl, by decide, ?_⟩
  intro h
  have hrow := ((bytewise_iff_row hl).mp h).2 2048 (by decide)
  exact absurd hrow (by decide)

end BulkDma
