import ManycoreRuntime.LoaderLog

/-! # Loading a program file

After a load that succeeds, every segment is where the tiles look for it, its tail is zero and the
instruction caches hold the start of the text. -/
namespace ElfLoad

open Actions
open ByteStore
open Coordinate (Coord Errno)
open Configuration (Config Manycore Accepted)
open ConfigPod
open DramTranslation
open ElfImage
open EvaMemory EvaRanges EvaToNpa
open Loader LoaderLog
open Machines (Machine)
open NpaToEva (evaToNpa defaultMap)
open Packets (RequestPacket)
open TileTranslation
open WriteMem

/-- Where a tile sees byte `k` behind an address: in the word that begins at a multiple of four. -/
def placeOf (mc : Manycore) (tile : Coord) (eva : UInt32) (k : ℕ) : Option Npa :=
  match evaToNpa mc defaultMap tile (advance eva (4 * (k / 4))) with
  | .ok (word, _) => some (addEpa word (k % 4))
  | .error _ => none

/-- What was loaded, and what else was written. -/
structure Loaded (mc : Manycore) (bin : Image) (tiles : List Coord) (sent : List RequestPacket) :
    Prop where
  segment : ∀ m i, IsLoad bin i → ∀ tile ∈ targets tiles (phdrAt bin i),
    ∀ k < (phdrAt bin i).memsz.toNat, ∃ npa,
      placeOf mc tile (phdrAt bin i).paddr k = some npa ∧
      deliver m sent npa = segmentByte bin (phdrAt bin i) k
  icache : ∃ i, LastText bin i ∧ ∀ m, ∀ tile ∈ tiles,
    ∀ k < min (phdrAt bin i).filesz.toNat icacheSize,
      deliver m sent (icachePlace tile k) = (phdrAt bin i).segdata bin k
  frame : ∀ npa ∈ placesOf sent, IsCsr tiles npa ∨ mc.dramEnabled = false ∧ IsTag mc npa ∨
    (∃ i, IsLoad bin i ∧ ∃ tile ∈ targets tiles (phdrAt bin i),
      ∃ k < (phdrAt bin i).memsz.toNat, placeOf mc tile (phdrAt bin i).paddr k = some npa) ∨
    ∃ i, LastText bin i ∧ ∃ tile ∈ tiles,
      ∃ k < min (phdrAt bin i).filesz.toNat icacheSize, npa = icachePlace tile k

def LoadLaw (mc : Manycore) (bin : Image) (tiles : List Coord) : Prop :=
  ∀ platform base sent, Returns (load mc platform base (some bin) tiles) [] () sent →
    Loaded mc bin tiles sent

structure Loadable (mc : Manycore) (bin : Image) (tiles : List Coord) : Prop where
  accepted : Accepted mc.config
  tile : ∀ tile ∈ tiles, ∃ p, IsPod mc.config p ∧ IsTile mc.config p tile
  filesz : ∀ i, IsLoad bin i → (phdrAt bin i).filesz.toNat ≤ (phdrAt bin i).memsz.toNat
  bound : ∀ i, IsLoad bin i →
    (phdrAt bin i).paddr.toNat + (phdrAt bin i).memsz.toNat ≤ 2 ^ 32

def StripesFit (mc : Manycore) (bin : Image) : Prop :=
  ∀ i, IsLoad bin i → 2 ^ 31 ≤ (phdrAt bin i).paddr.toNat →
    (defaultGetDramStripeSizeLog mc).toNat ≤ addrBits mc

def SegmentsApart (mc : Manycore) (bin : Image) (tiles : List Coord) : Prop :=
  ∀ i j, IsLoad bin i → IsLoad bin j → i ≠ j →
    ∀ tile ∈ targets tiles (phdrAt bin i), ∀ tile' ∈ targets tiles (phdrAt bin j),
      ∀ k < (phdrAt bin i).memsz.toNat, ∀ k' < (phdrAt bin j).memsz.toNat, ∀ npa,
        placeOf mc tile (phdrAt bin i).paddr k = some npa →
        placeOf mc tile' (phdrAt bin j).paddr k' ≠ some npa

/-- No segment in DRAM has a byte where a tile has its instruction cache. -/
def IcachesApart (mc : Manycore) (bin : Image) (tiles : List Coord) : Prop :=
  ∀ i, IsLoad bin i → 2 ^ 31 ≤ (phdrAt bin i).paddr.toNat →
    ∀ tile ∈ tiles.take 1, ∀ k < (phdrAt bin i).memsz.toNat, ∀ tile' ∈ tiles, ∀ k' < icacheSize,
      placeOf mc tile (phdrAt bin i).paddr k ≠ some (icachePlace tile' k')

section Proof

variable {mc : Manycore} {bin : Image} {tiles : List Coord} {tile tile' : Coord} {i k k' : ℕ}

theorem word_of_wordPlace (mc : Manycore) (tile : Coord) (eva : UInt32) (k : ℕ) :
    wordPlace mc tile eva k = addEpa (wordPlace mc tile eva (4 * (k / 4))) (k % 4) := by
  have hd : 4 * (4 * (k / 4) / 4) = 4 * (k / 4) := by omega
  have hm : 4 * (k / 4) % 4 = 0 := by omega
  rw [wordPlace, wordPlace, hd, hm, addEpa_zero]

theorem placeOf_done (hdone : SegmentDone mc bin i tile) (hk : k < (phdrAt bin i).memsz.toNat) :
    placeOf mc tile (phdrAt bin i).paddr k = some (wordPlace mc tile (phdrAt bin i).paddr k) := by
  obtain ⟨n, hn⟩ := hdone.translated (4 * (k / 4)) (by omega) (by omega)
  simp only [placeOf, hn]
  rw [word_of_wordPlace mc tile _ k]

theorem addEpa_inj {a b : Npa} (ha : a.epa.toNat % 4 = 0) (hb : b.epa.toNat % 4 = 0) {j j' : ℕ}
    (hj : j < 4) (hj' : j' < 4) (h : addEpa a j = addEpa b j') : a = b ∧ j = j' := by
  obtain ⟨x, y, epa⟩ := a
  obtain ⟨x', y', epa'⟩ := b
  have hlt := epa.toNat_lt
  have hlt' := epa'.toNat_lt
  simp only at ha hb
  simp only [addEpa, Npa.mk.injEq] at h
  obtain ⟨rfl, rfl, he⟩ := h
  have hval := congrArg UInt32.toNat he
  rw [UInt32.toNat_add, UInt32.toNat_add, UInt32.toNat_ofNat', UInt32.toNat_ofNat'] at hval
  have heq : epa = epa' := UInt32.toNat_inj.mp (by omega)
  exact ⟨by rw [heq], by omega⟩

theorem tileOffset_mod (eva : UInt32) : tileOffset eva % 2 ^ 16 = eva.toNat % 2 ^ 16 := by
  unfold tileOffset
  split <;> omega

theorem wordPlace_tile (hdone : SegmentDone mc bin i tile)
    (hd : (phdrAt bin i).paddr.toNat < 2 ^ 31) (hk : k < (phdrAt bin i).memsz.toNat) :
    (phdrAt bin i).memsz.toNat ≤ 4096 ∧
      (wordPlace mc tile (phdrAt bin i).paddr k).epa.toNat < 2 ^ 18 ∧
      (wordPlace mc tile (phdrAt bin i).paddr k).epa.toNat % 2 ^ 16 =
        ((phdrAt bin i).paddr.toNat + k) % 2 ^ 16 := by
  have honce : ¬ (phdrAt bin i).isLoadOnce = true := by
    rw [isLoadOnce_iff]
    omega
  have hsz := hdone.capacity
  rw [capacity_of_not_once honce] at hsz
  obtain ⟨n, hfirst⟩ := hdone.translated 0 (by omega) rfl
  rw [advance_zero] at hfirst
  have hend := end_of_tile_segment hd hsz hfirst
  have hval : (advance (phdrAt bin i).paddr (4 * (k / 4))).toNat =
      (phdrAt bin i).paddr.toNat + 4 * (k / 4) := advance_toNat (by omega)
  obtain ⟨n, hn⟩ := hdone.translated (4 * (k / 4)) (by omega) (by omega)
  obtain ⟨hoff, hepa, -⟩ := tile_segment (by omega) hn
  have hmod := tileOffset_mod (advance (phdrAt bin i).paddr (4 * (k / 4)))
  have hlt : tileOffset (advance (phdrAt bin i).paddr (4 * (k / 4))) ≤ 0x20008 := by
    unfold IsTileEpa at hoff
    omega
  have hbyte : (wordPlace mc tile (phdrAt bin i).paddr k).epa.toNat =
      tileOffset (advance (phdrAt bin i).paddr (4 * (k / 4))) + k % 4 := by
    rw [word_of_wordPlace, addEpa, UInt32.toNat_add, hepa, UInt32.toNat_ofNat']
    omega
  rw [hbyte]
  exact ⟨hsz, by omega, by omega⟩

/-- A segment puts its bytes at different places, whichever tiles it is loaded for. -/
theorem same_byte (hload : Loadable mc bin tiles) (hi : IsLoad bin i)
    (ht : tile ∈ targets tiles (phdrAt bin i)) (ht' : tile' ∈ targets tiles (phdrAt bin i))
    (hc : 0 < mc.config.podShape.x.toNat) (hdone : SegmentDone mc bin i tile)
    (hdone' : SegmentDone mc bin i tile') (hk : k < (phdrAt bin i).memsz.toNat)
    (hk' : k' < (phdrAt bin i).memsz.toNat)
    (h : wordPlace mc tile (phdrAt bin i).paddr k = wordPlace mc tile' (phdrAt bin i).paddr k') :
    k = k' := by
  have hbound := hload.bound i hi
  rcases Nat.lt_or_ge (phdrAt bin i).paddr.toNat (2 ^ 31) with hd | hd
  · obtain ⟨hsz, -, hmod⟩ := wordPlace_tile hdone hd hk
    obtain ⟨-, -, hmod'⟩ := wordPlace_tile hdone' hd hk'
    rw [h, hmod'] at hmod
    omega
  · have honce := (isLoadOnce_iff _).mpr hd
    rw [targets, if_pos honce] at ht ht'
    obtain rfl : tile = tile' := by
      cases tiles with
      | nil => cases ht
      | cons origin rest =>
        rw [List.take_succ_cons, List.take_zero, List.mem_singleton] at ht ht'
        rw [ht, ht']
    have hword : ∀ j < (phdrAt bin i).memsz.toNat, (advance (phdrAt bin i).paddr j).toNat =
        (phdrAt bin i).paddr.toNat + j := fun j hj => advance_toNat (by omega)
    rw [word_of_wordPlace, word_of_wordPlace mc tile _ k'] at h
    obtain ⟨hplace, hpos⟩ := addEpa_inj (hdone.reached (4 * (k / 4)) (by omega) (by omega)).epa
      (hdone.reached (4 * (k' / 4)) (by omega) (by omega)).epa (Nat.mod_lt _ (by decide))
      (Nat.mod_lt _ (by decide)) h
    obtain ⟨n, hn⟩ := hdone.translated (4 * (k / 4)) (by omega) (by omega)
    obtain ⟨n', hn'⟩ := hdone.translated (4 * (k' / 4)) (by omega) (by omega)
    rw [← hplace] at hn'
    have hy := hload.accepted.limits.podShapeY.trans (by decide : 32 ≤ 2 ^ 31)
    have heq := dram_injective (fields_bits mc) hc hy (by rw [hword _ (by omega)]; omega)
      (by rw [hword _ (by omega)]; omega) hn hn'
    rw [hword _ (by omega), hword _ (by omega)] at heq
    omega

theorem icachePlace_epa (tile : Coord) (hk : k < icacheSize) :
    (icachePlace tile k).epa.toNat = 2 ^ 24 + k := by
  have hsz : icacheSize = 2 ^ 12 := rfl
  rw [icachePlace, addEpa, UInt32.toNat_add, UInt32.toNat_ofNat']
  simp only [tileEpaIcache, UInt32.reduceToNat]
  omega

theorem segment_ne_icache (hapart : IcachesApart mc bin tiles) (hi : IsLoad bin i)
    (ht : tile ∈ targets tiles (phdrAt bin i)) (hdone : SegmentDone mc bin i tile)
    (hk : k < (phdrAt bin i).memsz.toNat) (ht' : tile' ∈ tiles) (hk' : k' < icacheSize) :
    wordPlace mc tile (phdrAt bin i).paddr k ≠ icachePlace tile' k' := by
  intro h
  rcases Nat.lt_or_ge (phdrAt bin i).paddr.toNat (2 ^ 31) with hd | hd
  · obtain ⟨-, hlt, -⟩ := wordPlace_tile hdone hd hk
    rw [h, icachePlace_epa tile' hk'] at hlt
    omega
  · rw [targets, if_pos ((isLoadOnce_iff _).mpr hd)] at ht
    refine hapart i hi hd tile ht k hk tile' ht' k' hk' ?_
    rw [placeOf_done hdone hk, h]

theorem tile_row_ne {cfg : Config} {p p' : Coord}
    (hshape : cfg.podShape.y.toNat ≤ 2 ^ tileBitsY cfg) (ht : IsTile cfg p tile)
    (ht' : IsTile cfg p' tile') :
    tile'.y ≠ podDramNorthY cfg (pod cfg tile) ∧ tile'.y ≠ podDramSouthY cfg (pod cfg tile) := by
  have hrow := isTile_vanilla cfg hshape ht'
  rw [isVanillaCore_iff] at hrow
  obtain ⟨q, hq, hodd⟩ := origin_y_aligned cfg p
  obtain ⟨q', hq', hodd'⟩ := origin_y_aligned cfg p'
  have hpos := Nat.two_pow_pos (tileBitsY cfg)
  have horigin := podVcoreOrigin_y_of_isTile cfg hshape ht
  have horigin' := podVcoreOrigin_y_of_isTile cfg hshape ht'
  have hlt := (podVcoreOrigin cfg p).y.toNat_lt
  constructor
  · intro he
    have hq1 : 2 ^ tileBitsY cfg * q = 2 ^ tileBitsY cfg * (q - 1) + 2 ^ tileBitsY cfg := by
      rw [← Nat.mul_succ]
      congr 1
      omega
    have hnorth : (podDramNorthY cfg (pod cfg tile)).toNat =
        2 ^ tileBitsY cfg * (q - 1) + (2 ^ tileBitsY cfg - 1) := by
      rw [PodGeometry.northY_toNat, horigin, hq]
      omega
    rw [he, hnorth, Nat.mul_add_div hpos, Nat.div_eq_of_lt (by omega)] at hrow
    omega
  · intro he
    obtain ⟨-, hq''⟩ := podVcoreOrigin_pod_of_vanilla cfg (isTile_vanilla cfg hshape ht')
    rw [horigin', hq'] at hq''
    have hdiv : tile'.y.toNat / 2 ^ tileBitsY cfg = q' := (Nat.eq_of_mul_eq_mul_left hpos hq'').symm
    have hsouth : tile'.y.toNat = (2 ^ tileBitsY cfg * q + cfg.podShape.y.toNat) % 2 ^ 32 := by
      rw [he, podDramSouthY, UInt32.toNat_add, horigin, hq]
    obtain ⟨-, -, h3, h4⟩ := ht'
    rw [hq'] at h3 h4
    rcases Nat.lt_or_ge (2 ^ tileBitsY cfg * q + cfg.podShape.y.toNat) (2 ^ 32) with hfits | hwrap
    · rw [Nat.mod_eq_of_lt hfits] at hsouth
      rcases Nat.lt_or_ge cfg.podShape.y.toNat (2 ^ tileBitsY cfg) with hlow | hfull
      · rw [hsouth, Nat.mul_add_div hpos, Nat.div_eq_of_lt hlow] at hdiv
        have : q' = q := by omega
        subst this
        omega
      · have hsucc : 2 ^ tileBitsY cfg * q + cfg.podShape.y.toNat =
            2 ^ tileBitsY cfg * (q + 1) := by
          rw [Nat.mul_succ]
          omega
        rw [hsouth, hsucc, Nat.mul_div_cancel_left _ hpos] at hdiv
        omega
    · -- the row wraps around to the first rows of the network
      have hlow : tile'.y.toNat < 2 ^ tileBitsY cfg := by omega
      rw [Nat.div_eq_of_lt hlow] at hrow
      omega

theorem icachesApart_of_shape (hload : Loadable mc bin tiles)
    (hshape : mc.config.podShape.y.toNat ≤ 2 ^ tileBitsY mc.config) :
    IcachesApart mc bin tiles := by
  intro i hi hd tile ht k hk tile' ht' k' hk' hplace
  have hbound := hload.bound i hi
  obtain ⟨p, -, hp⟩ := hload.tile tile (List.mem_of_mem_take ht)
  obtain ⟨p', -, hp'⟩ := hload.tile tile' ht'
  obtain ⟨hnorth, hsouth⟩ := tile_row_ne hshape hp hp'
  have hc : 0 < mc.config.podShape.x.toNat := by
    obtain ⟨hx, hx', -⟩ := hp
    omega
  have hval : (advance (phdrAt bin i).paddr (4 * (k / 4))).toNat =
      (phdrAt bin i).paddr.toNat + 4 * (k / 4) := advance_toNat (by omega)
  unfold placeOf at hplace
  split at hplace
  · next word n hn =>
    rw [DramStriping.evaToNpa_of_isDram ((isDram_iff _).mpr (by omega)),
      evaToNpaDram_eq_ok_of_fields (fields_bits mc) hc] at hn
    obtain ⟨-, -, -, -, -, -, hy, -⟩ := hn
    have hrow : word.y = tile'.y := congrArg Npa.y (Option.some.inj hplace)
    split at hy
    · exact hsouth (hrow.symm.trans hy)
    · exact hnorth (hrow.symm.trans hy)
  · cases hplace

theorem mem_segmentsLog {w : Npa × UInt8} :
    w ∈ (List.range (phnum bin)).flatMap (segmentsLog mc bin tiles) ↔
      ∃ i, IsLoad bin i ∧ ∃ tile ∈ targets tiles (phdrAt bin i),
        ∃ k < (phdrAt bin i).memsz.toNat,
          w = (wordPlace mc tile (phdrAt bin i).paddr k, segmentByte bin (phdrAt bin i) k) := by
  simp only [List.mem_flatMap, List.mem_range, segmentsLog]
  constructor
  · rintro ⟨i, hi, hw⟩
    split at hw
    · cases hw
    · next hnever =>
      obtain ⟨tile, ht, hw⟩ := List.mem_flatMap.mp hw
      obtain ⟨k, hk, rfl⟩ := List.mem_map.mp hw
      exact ⟨i, ⟨hi, (not_never_iff _).mp hnever⟩, tile, ht, k, List.mem_range.mp hk, rfl⟩
  · rintro ⟨i, ⟨hi, htype⟩, tile, ht, k, hk, rfl⟩
    refine ⟨i, hi, ?_⟩
    rw [if_neg ((not_never_iff _).mpr htype)]
    exact List.mem_flatMap.mpr ⟨tile, ht, List.mem_map.mpr ⟨k, List.mem_range.mpr hk, rfl⟩⟩

theorem mem_icacheLog {phdr : Phdr} {w : Npa × UInt8} :
    w ∈ tiles.flatMap (icacheLog bin phdr) ↔ ∃ tile ∈ tiles,
      ∃ k < min phdr.filesz.toNat icacheSize, w = (icachePlace tile k, phdr.segdata bin k) := by
  simp only [List.mem_flatMap, icacheLog, List.mem_map, List.mem_range]
  constructor
  · rintro ⟨tile, ht, k, hk, rfl⟩
    exact ⟨tile, ht, k, hk, rfl⟩
  · rintro ⟨tile, ht, k, hk, rfl⟩
    exact ⟨tile, ht, k, hk, rfl⟩

/-- What is written last at a place is what all writes of two logs put there. -/
theorem deliver_of_agree {before sent : List RequestPacket} {log log' : List (Npa × UInt8)}
    (hlog : logOf sent = logOf before ++ (log ++ log')) {q : Npa} {v : UInt8}
    (hmem : (q, v) ∈ log ++ log') (h : ∀ w ∈ log, w.1 = q → w.2 = v)
    (h' : ∀ w ∈ log', w.1 = q → w.2 = v) (m : Npa → UInt8) : deliver m sent q = v := by
  rw [deliver, hlog, applyLog_append]
  refine applyLog_of_agree _ hmem fun w hw => ?_
  rcases List.mem_append.mp hw with hw | hw
  · exact h w hw
  · exact h' w hw

end Proof

theorem loader_load {mc : Manycore} {bin : Image} {tiles : List Coord}
    (hload : Loadable mc bin tiles) (hfit : FitsPacket mc.config) (hstripe : StripesFit mc bin)
    (hsegs : SegmentsApart mc bin tiles) (hicache : IcachesApart mc bin tiles) :
    LoadLaw mc bin tiles := by
  intro platform base sent h
  have hc : 0 < mc.config.podShape.x.toNat := by
    cases tiles with
    | nil =>
      obtain ⟨_, s, -, h⟩ := returns_bind.mp h
      exact absurd h not_returns_throw
    | cons origin rest =>
      obtain ⟨p, -, hx, hx', -⟩ := hload.tile origin List.mem_cons_self
      omega
  obtain ⟨before, hbefore, hsent⟩ := load_ok hfit
    (fun i hi => ⟨hload.filesz i hi, hload.bound i hi, hstripe i hi⟩) h
  obtain ⟨text, htext, hlog⟩ := hsent.log
  have hdone := hsent.done
  have hcache : ∀ {k : ℕ}, k < min (phdrAt bin text).filesz.toNat icacheSize → k < icacheSize :=
    fun hk => lt_of_lt_of_le hk (min_le_right _ _)
  constructor
  · intro m i hi tile ht k hk
    have hd := hdone i hi tile ht
    refine ⟨_, placeOf_done hd hk, ?_⟩
    refine deliver_of_agree hlog (List.mem_append_left _ (mem_segmentsLog.mpr
      ⟨i, hi, tile, ht, k, hk, rfl⟩)) ?_ ?_ m
    · intro w hw hq
      obtain ⟨j, hj, tile', ht', k', hk', rfl⟩ := mem_segmentsLog.mp hw
      have hd' := hdone j hj tile' ht'
      by_cases hij : i = j
      · subst hij
        rw [same_byte hload hi ht ht' hc hd hd' hk hk' hq.symm]
      · refine absurd ?_ (hsegs i j hi hj hij tile ht tile' ht' k hk k' hk' _ (placeOf_done hd hk))
        rw [placeOf_done hd' hk']
        exact congrArg some hq
    · intro w hw hq
      obtain ⟨tile', ht', k', hk', rfl⟩ := mem_icacheLog.mp hw
      exact absurd hq.symm (segment_ne_icache hicache hi ht hd hk ht' (hcache hk'))
  · refine ⟨text, htext, fun m tile ht k hk => ?_⟩
    refine deliver_of_agree hlog (List.mem_append_right _ (mem_icacheLog.mpr
      ⟨tile, ht, k, hk, rfl⟩)) ?_ ?_ m
    · intro w hw hq
      obtain ⟨j, hj, tile', ht', k', hk', rfl⟩ := mem_segmentsLog.mp hw
      exact absurd hq (segment_ne_icache hicache hj ht' (hdone j hj tile' ht') hk' ht (hcache hk))
    · intro w hw hq
      obtain ⟨tile', ht', k', hk', rfl⟩ := mem_icacheLog.mp hw
      have hepa := congrArg (fun npa : Npa => npa.epa.toNat) hq
      simp only [icachePlace_epa _ (hcache hk), icachePlace_epa _ (hcache hk')] at hepa
      rw [Nat.add_left_cancel hepa]
  · intro npa hnpa
    rw [placesOf, hlog, List.map_append, List.map_append, List.mem_append, List.mem_append] at hnpa
    rcases hnpa with hnpa | hnpa | hnpa
    · rcases hbefore npa hnpa with hcsr | htag
      · exact Or.inl hcsr
      · exact Or.inr (Or.inl htag)
    · obtain ⟨w, hw, rfl⟩ := List.mem_map.mp hnpa
      obtain ⟨i, hi, tile, ht, k, hk, rfl⟩ := mem_segmentsLog.mp hw
      exact Or.inr (Or.inr (Or.inl ⟨i, hi, tile, ht, k, hk, placeOf_done (hdone i hi tile ht) hk⟩))
    · obtain ⟨w, hw, rfl⟩ := List.mem_map.mp hnpa
      obtain ⟨tile, ht, k, hk, rfl⟩ := mem_icacheLog.mp hw
      exact Or.inr (Or.inr (Or.inr ⟨text, htext, tile, ht, k, hk, rfl⟩))

def wordBytes (w : UInt32) : Image := (List.range 4).map (byteOf w)

def elfFile (phdrs : List Phdr) (data : Image) : Image :=
  elfmag ++ [elfclass32, elfdata2lsb] ++ List.replicate 10 0 ++ [2, 0, 243, 0] ++
    List.replicate 8 0 ++ [52] ++ List.replicate 15 0 ++ [UInt8.ofNat phdrs.length] ++
    List.replicate 7 0 ++
    phdrs.flatMap (fun p => [p.type, p.offset, 0, p.paddr, p.filesz, p.memsz, p.flags, 0].flatMap
      wordBytes) ++ data

theorem exists_load (mc : Manycore) (bin : Image) (tiles : List Coord)
    (q : List RequestPacket → Bool)
    (h : ((load mc takesAll 0 (some bin) tiles : Session Unit) []).any
      (fun r => r.1.isOk && q r.2) = true) :
    ∃ sent, Returns (load mc takesAll 0 (some bin) tiles) [] () sent ∧ q sent = true := by
  obtain ⟨_, sent, hrun, hq⟩ := exists_returns q h
  exact ⟨sent, hrun, hq⟩

theorem loadable_of_check {mc : Manycore} {bin : Image} {tiles : List Coord}
    (hcfg : Accepted mc.config)
    (htile : ∀ tile ∈ tiles, ∃ p, IsPod mc.config p ∧ IsTile mc.config p tile)
    (h : ∀ i < phnum bin, (phdrAt bin i).filesz.toNat ≤ (phdrAt bin i).memsz.toNat ∧
      (phdrAt bin i).paddr.toNat + (phdrAt bin i).memsz.toNat ≤ 2 ^ 32) : Loadable mc bin tiles :=
  ⟨hcfg, htile, fun i hi => (h i hi.1).1, fun i hi => (h i hi.1).2⟩

def placesApart (mc : Manycore) (phdr phdr' : Phdr) (tile tile' : Coord) : Bool :=
  (List.range phdr.memsz.toNat).all fun k => (List.range phdr'.memsz.toNat).all fun k' =>
    placeOf mc tile phdr.paddr k == none ||
      placeOf mc tile phdr.paddr k != placeOf mc tile' phdr'.paddr k'

def segmentsApart (mc : Manycore) (bin : Image) (tiles : List Coord) : Bool :=
  (List.range (phnum bin)).all fun i => (List.range (phnum bin)).all fun j => i == j ||
    (targets tiles (phdrAt bin i)).all fun tile => (targets tiles (phdrAt bin j)).all fun tile' =>
      placesApart mc (phdrAt bin i) (phdrAt bin j) tile tile'

theorem segmentsApart_of_check {mc : Manycore} {bin : Image} {tiles : List Coord}
    (h : segmentsApart mc bin tiles = true) : SegmentsApart mc bin tiles := by
  intro i j hi hj hij tile ht tile' ht' k hk k' hk' npa hplace hplace'
  simp only [segmentsApart, placesApart, List.all_eq_true, List.mem_range, Bool.or_eq_true,
    beq_iff_eq, bne_iff_ne] at h
  rcases h i hi.1 j hj.1 with he | hall
  · exact hij he
  · rcases hall tile ht tile' ht' k hk k' hk' with hnone | hne
    · rw [hplace] at hnone
      cases hnone
    · exact hne (hplace.trans hplace'.symm)

def program : Image :=
  elfFile [⟨ptLoad, 116, 0x80000000, 8, 8, 5⟩, ⟨ptLoad, 124, 0x100, 4, 8, 6⟩]
    [1, 2, 3, 4, 5, 6, 7, 8, 9, 10, 11, 12]

theorem loader_load_x16y8 :
    (∃ sent, Returns (load ⟨({} : Machine).config, true⟩ takesAll 0 (some program)
      [⟨16, 8⟩, ⟨17, 8⟩]) [] () sent) ∧
      LoadLaw ⟨({} : Machine).config, true⟩ program [⟨16, 8⟩, ⟨17, 8⟩] := by
  have hload : Loadable ⟨({} : Machine).config, true⟩ program [⟨16, 8⟩, ⟨17, 8⟩] := by
    refine loadable_of_check (Machine.config_accepted _ (by decide)) ?_ (by decide +kernel)
    intro tile ht
    refine ⟨⟨0, 0⟩, by decide, ?_⟩
    revert tile
    decide
  constructor
  · obtain ⟨sent, h, -⟩ := exists_load ⟨({} : Machine).config, true⟩ program
      [⟨16, 8⟩, ⟨17, 8⟩] (fun _ => true) (by decide +kernel)
    exact ⟨sent, h⟩
  · exact loader_load hload ⟨by decide, by decide⟩ (fun _ _ _ => by decide)
      (segmentsApart_of_check (by decide +kernel)) (icachesApart_of_shape hload (by decide))

example : targets [⟨16, 8⟩, ⟨17, 8⟩] (phdrAt program 0) = [⟨16, 8⟩] := by decide +kernel

def AddressesApart (bin : Image) : Prop :=
  ∀ i j, IsLoad bin i → IsLoad bin j → i ≠ j →
    (phdrAt bin i).paddr.toNat + (phdrAt bin i).memsz.toNat ≤ (phdrAt bin j).paddr.toNat ∨
    (phdrAt bin j).paddr.toNat + (phdrAt bin j).memsz.toNat ≤ (phdrAt bin i).paddr.toNat

def oneWord : Image := elfFile [⟨ptLoad, 84, 0, 4, 4, 5⟩] [1, 2, 3, 4]

def twoWords (paddr : UInt32) : Image :=
  elfFile [⟨ptLoad, 84, paddr, 8, 8, 5⟩] [1, 2, 3, 4, 5, 6, 7, 8]

/-- Tile `(16, 8)` has the address zero twice: as its own and as that of a global tile. -/
def twice : Image :=
  elfFile [⟨ptLoad, 116, 0, 4, 4, 5⟩, ⟨ptLoad, 120, 0x44100000, 4, 4, 6⟩] [1, 2, 3, 4, 5, 6, 7, 8]

/-- Two pods of eight rows in a tile field of one bit. -/
def overlappingPods : Machine where
  podsY := 2
  nocCoordYWidth := 5

def ontoIcache : UInt32 := 0xa0000804

theorem not_loadLaw {mc : Manycore} {bin : Image} {tiles : List Coord} (i k : ℕ) (tile : Coord)
    (npa : Npa) (v : UInt8) (hi : IsLoad bin i) (ht : tile ∈ targets tiles (phdrAt bin i))
    (hk : k < (phdrAt bin i).memsz.toNat)
    (hplace : placeOf mc tile (phdrAt bin i).paddr k = some npa)
    (hv : segmentByte bin (phdrAt bin i) k ≠ v)
    (hrun : ((load mc takesAll 0 (some bin) tiles : Session Unit) []).any
      (fun r => r.1.isOk && deliver (fun _ => 0) r.2 npa == v) = true) :
    ¬ LoadLaw mc bin tiles := by
  intro h
  obtain ⟨sent, hload, hq⟩ := exists_load mc bin tiles
    (fun sent => deliver (fun _ => 0) sent npa == v) hrun
  obtain ⟨npa', hplace', hdeliver⟩ :=
    (h takesAll 0 sent hload).segment (fun _ => 0) i hi tile ht k hk
  obtain rfl := Option.some.inj (hplace.symm.trans hplace')
  rw [beq_iff_eq.mp hq] at hdeliver
  exact hv hdeliver.symm

/-- Column 256 is sent to column 0. -/
private theorem wideNetwork_fails :
    ¬ LoadLaw ⟨wideNetwork.config, true⟩ oneWord [⟨256, 8⟩] :=
  not_loadLaw 0 0 ⟨256, 8⟩ ⟨256, 8, 0⟩ 0 (by decide +kernel) (by decide +kernel)
    (by decide +kernel) (by decide +kernel) (by decide +kernel) (by decide +kernel)

/-- The second word of a stripe has no address, and is loaded all the same. -/
private theorem smallCaches_fails :
    ¬ LoadLaw ⟨smallCaches.config, false⟩ (twoWords 0x80000000) [⟨16, 8⟩] := by
  intro h
  obtain ⟨sent, hload, -⟩ := exists_load ⟨smallCaches.config, false⟩ (twoWords 0x80000000)
    [⟨16, 8⟩] (fun _ => true) (by decide +kernel)
  obtain ⟨npa, hplace, -⟩ := (h takesAll 0 sent hload).segment (fun _ => 0) 0 (by decide +kernel)
    ⟨16, 8⟩ (by decide +kernel) 4 (by decide +kernel)
  have hnone : placeOf ⟨smallCaches.config, false⟩ ⟨16, 8⟩
      (phdrAt (twoWords 0x80000000) 0).paddr 4 = none := by decide +kernel
  rw [hnone] at hplace
  cases hplace

example : placeOf ⟨({} : Machine).config, true⟩ ⟨16, 8⟩ 0x44100000 0 = some ⟨16, 8, 0⟩ := by
  decide +kernel

private theorem twice_fails : ¬ LoadLaw ⟨({} : Machine).config, true⟩ twice [⟨16, 8⟩] :=
  not_loadLaw 0 0 ⟨16, 8⟩ ⟨16, 8, 0⟩ 5 (by decide +kernel) (by decide +kernel)
    (by decide +kernel) (by decide +kernel) (by decide +kernel) (by decide +kernel)

private theorem overlappingPods_fails :
    ¬ LoadLaw ⟨overlappingPods.config, true⟩ (twoWords ontoIcache) [⟨16, 2⟩, ⟨16, 10⟩] :=
  not_loadLaw 0 0 ⟨16, 2⟩ ⟨16, 10, 0x1000004⟩ 5 (by decide +kernel) (by decide +kernel)
    (by decide +kernel) (by decide +kernel) (by decide +kernel) (by decide +kernel)

theorem apart_of_one (mc : Manycore) {bin : Image} (tiles : List Coord) (h : phnum bin = 1) :
    AddressesApart bin ∧ SegmentsApart mc bin tiles := by
  have hone : ∀ {i j}, IsLoad bin i → IsLoad bin j → i = j := by
    intro i j hi hj
    have hi' := hi.1
    have hj' := hj.1
    omega
  exact ⟨fun i j hi hj hij => absurd (hone hi hj) hij,
    fun i j hi hj hij => absurd (hone hi hj) hij⟩

/-- Each of the four conditions is needed for programs whose segments have addresses of their
own. -/
theorem loader_load_fails :
    (∃ mc bin tiles, Loadable mc bin tiles ∧ AddressesApart bin ∧ StripesFit mc bin ∧
      SegmentsApart mc bin tiles ∧ IcachesApart mc bin tiles ∧ ¬ LoadLaw mc bin tiles) ∧
    (∃ mc bin tiles, Loadable mc bin tiles ∧ AddressesApart bin ∧ FitsPacket mc.config ∧
      SegmentsApart mc bin tiles ∧ IcachesApart mc bin tiles ∧ ¬ LoadLaw mc bin tiles) ∧
    (∃ mc bin tiles, Loadable mc bin tiles ∧ AddressesApart bin ∧ FitsPacket mc.config ∧
      StripesFit mc bin ∧ IcachesApart mc bin tiles ∧ ¬ LoadLaw mc bin tiles) ∧
    (∃ mc bin tiles, Loadable mc bin tiles ∧ AddressesApart bin ∧ FitsPacket mc.config ∧
      StripesFit mc bin ∧ SegmentsApart mc bin tiles ∧ ¬ LoadLaw mc bin tiles) := by
  have hwide : Loadable ⟨wideNetwork.config, true⟩ oneWord [⟨256, 8⟩] :=
    loadable_of_check (Machine.config_accepted _ (by decide))
      (List.forall_mem_singleton.mpr ⟨⟨3, 0⟩, by decide, by decide⟩) (by decide +kernel)
  have hsmall : Loadable ⟨smallCaches.config, false⟩ (twoWords 0x80000000) [⟨16, 8⟩] :=
    loadable_of_check (Machine.config_accepted _ (by decide))
      (List.forall_mem_singleton.mpr ⟨⟨0, 0⟩, by decide, by decide⟩) (by decide +kernel)
  have htwice : Loadable ⟨({} : Machine).config, true⟩ twice [⟨16, 8⟩] :=
    loadable_of_check (Machine.config_accepted _ (by decide))
      (List.forall_mem_singleton.mpr ⟨⟨0, 0⟩, by decide, by decide⟩) (by decide +kernel)
  have hover : Loadable ⟨overlappingPods.config, true⟩ (twoWords ontoIcache)
      [⟨16, 2⟩, ⟨16, 10⟩] :=
    loadable_of_check (Machine.config_accepted _ (by decide))
      (List.forall_mem_cons.mpr ⟨⟨⟨0, 0⟩, by decide, by decide⟩,
        List.forall_mem_singleton.mpr ⟨⟨0, 1⟩, by decide, by decide⟩⟩) (by decide +kernel)
  have hwords : ∀ paddr, phnum (twoWords paddr) = 1 := fun _ => rfl
  have haddresses : AddressesApart twice := by
    have hall : ∀ i < phnum twice, ∀ j < phnum twice, i ≠ j →
        (phdrAt twice i).paddr.toNat + (phdrAt twice i).memsz.toNat ≤
            (phdrAt twice j).paddr.toNat ∨
          (phdrAt twice j).paddr.toNat + (phdrAt twice j).memsz.toNat ≤
            (phdrAt twice i).paddr.toNat := by decide +kernel
    exact fun i j hi hj => hall i hi.1 j hj.1
  refine ⟨?_, ?_, ?_, ?_⟩
  · obtain ⟨ha, hs⟩ := apart_of_one ⟨wideNetwork.config, true⟩ [⟨256, 8⟩]
      (by decide +kernel : phnum oneWord = 1)
    exact ⟨_, _, _, hwide, ha, fun _ _ _ => by decide, hs,
      icachesApart_of_shape hwide (by decide), wideNetwork_fails⟩
  · obtain ⟨ha, hs⟩ := apart_of_one ⟨smallCaches.config, false⟩ [⟨16, 8⟩] (hwords 0x80000000)
    exact ⟨_, _, _, hsmall, ha, ⟨by decide, by decide⟩, hs,
      icachesApart_of_shape hsmall (by decide), smallCaches_fails⟩
  · exact ⟨_, _, _, htwice, haddresses, ⟨by decide, by decide⟩, fun _ _ _ => by decide,
      icachesApart_of_shape htwice (by decide), twice_fails⟩
  · obtain ⟨ha, hs⟩ := apart_of_one ⟨overlappingPods.config, true⟩ [⟨16, 2⟩, ⟨16, 10⟩]
      (hwords ontoIcache)
    exact ⟨_, _, _, hover, ha, ⟨by decide, by decide⟩, fun _ _ _ => by decide, hs,
      overlappingPods_fails⟩

end ElfLoad
