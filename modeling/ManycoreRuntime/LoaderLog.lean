import ManycoreRuntime.Loader

/-! # What a successful load sends

Each step of the loader adds its bytes to the log: the segments theirs, tile by tile, and then the
instruction caches. The steps before them only touch registers and tags. -/
namespace LoaderLog

open Actions
open ByteStore
open Coordinate (Coord Errno)
open Configuration (Config Manycore)
open ConfigPod (IsPod)
open DramTranslation
open ElfImage
open EvaMemory EvaRanges EvaToNpa
open Fallible (bind_eq_ok)
open Loader
open NpaToEva (evaToNpa defaultMap)
open Packets (RequestPacket)
open TileTranslation
open Vcache
open WriteMem

section Image

variable (bin : Image)

def phnum : ℕ := (half bin ePhnum).toNat

def phdrAt (i : ℕ) : Phdr :=
  let off := (word bin ePhoff).toNat + sizeofPhdr * i
  ⟨word bin off, word bin (off + 4), word bin (off + 12), word bin (off + 16),
    word bin (off + 20), word bin (off + 24)⟩

def IsLoad (i : ℕ) : Prop := i < phnum bin ∧ (phdrAt bin i).type = ptLoad

instance (i : ℕ) : Decidable (IsLoad bin i) := inferInstanceAs (Decidable (_ ∧ _))

def IsText (i : ℕ) : Prop := i < phnum bin ∧ (phdrAt bin i).isLoadIcache = true

instance (i : ℕ) : Decidable (IsText bin i) := inferInstanceAs (Decidable (_ ∧ _))

def LastText (i : ℕ) : Prop := IsText bin i ∧ ∀ j, IsText bin j → j ≤ i

def segmentByte (phdr : Phdr) (k : ℕ) : UInt8 :=
  if k < phdr.filesz.toNat then phdr.segdata bin k else 0

end Image

def targets (tiles : List Coord) (phdr : Phdr) : List Coord :=
  if phdr.isLoadOnce then tiles.take 1 else tiles

def icachePlace (tile : Coord) (k : ℕ) : Npa := addEpa ⟨tile.x, tile.y, tileEpaIcache⟩ k

def segmentLog (mc : Manycore) (bin : Image) (phdr : Phdr) (tile : Coord) : List (Npa × UInt8) :=
  (List.range phdr.memsz.toNat).map fun k =>
    (wordPlace mc tile phdr.paddr k, segmentByte bin phdr k)

def icacheLog (bin : Image) (phdr : Phdr) (tile : Coord) : List (Npa × UInt8) :=
  (List.range (min phdr.filesz.toNat icacheSize)).map fun k =>
    (icachePlace tile k, phdr.segdata bin k)

def IsCsr (tiles : List Coord) (npa : Npa) : Prop :=
  ∃ tile ∈ tiles, ∃ csr ∈ [tileEpaCsrFreeze, tileEpaCsrTileGroupOriginX,
    tileEpaCsrTileGroupOriginY, tileEpaCsrPcInitValue], ∃ j < 4,
    npa = addEpa ⟨tile.x, tile.y, csr⟩ j

def IsTag (mc : Manycore) (npa : Npa) : Prop :=
  ∃ p, IsPod mc.config p ∧ ∃ tag, TagOf mc p tag ∧ ∃ j < 4, npa = addEpa tag j

def placesOf (sent : List RequestPacket) : List Npa := (logOf sent).map Prod.fst

section Proof

variable {mc : Manycore} {platform : Platform} {base : ℕ} {bin : Image}
  {sent sent' : List RequestPacket}

theorem write32_ok (hfit : FitsPacket mc.config) {npa : Npa} {vp : UInt32} {u : Unit}
    (h : Returns (write32 mc platform npa vp) sent u sent') :
    logOf sent' = logOf sent ++ (List.range 4).map fun j => (addEpa npa j, byteOf vp j) := by
  simp only [Returns, write32] at h
  split at h
  · cases h
  · next rqst hw =>
    cases h
    rw [logOf, List.flatMap_append, List.flatMap_singleton, (write_word hfit hw).2]
    rfl

theorem write32_within (hfit : FitsPacket mc.config) {npa : Npa} {vp : UInt32} {u : Unit}
    {A : Npa → Prop} (hnpa : ∀ j < 4, A (addEpa npa j))
    (h : Returns (write32 mc platform npa vp) sent u sent')
    (hA : ∀ q ∈ placesOf sent, A q) : ∀ q ∈ placesOf sent', A q := by
  intro q hq
  rw [placesOf, write32_ok hfit h, List.map_append, List.mem_append] at hq
  rcases hq with hq | hq
  · exact hA q hq
  · rw [List.map_map] at hq
    obtain ⟨j, hj, rfl⟩ := List.mem_map.mp hq
    exact hnpa j (List.mem_range.mp hj)

theorem tileSetRegisters_within (hfit : FitsPacket mc.config) {pc_init : UInt32}
    {origin tile : Coord} {tiles : List Coord} {u : Unit} {A : Npa → Prop} (htile : tile ∈ tiles)
    (hcsr : ∀ q, IsCsr tiles q → A q)
    (h : Returns (tileSetRegisters mc platform pc_init origin tile) sent u sent')
    (hA : ∀ q ∈ placesOf sent, A q) : ∀ q ∈ placesOf sent', A q := by
  have hword : ∀ csr ∈ [tileEpaCsrFreeze, tileEpaCsrTileGroupOriginX, tileEpaCsrTileGroupOriginY,
      tileEpaCsrPcInitValue], ∀ j < 4, A (addEpa ⟨tile.x, tile.y, csr⟩ j) :=
    fun csr hc j hj => hcsr _ ⟨tile, htile, csr, hc, j, hj, rfl⟩
  obtain ⟨_, s₁, h₁, h⟩ := returns_bind.mp h
  obtain ⟨_, s₃, horigin, h₄⟩ := returns_bind.mp h
  obtain ⟨_, s₂, h₂, h₃⟩ := returns_bind.mp horigin
  have hA₁ := write32_within hfit (hword _ (by simp)) h₁ hA
  have hA₂ := write32_within hfit (hword _ (by simp)) h₂ hA₁
  have hA₃ := write32_within hfit (hword _ (by simp)) h₃ hA₂
  exact write32_within hfit (hword _ (by simp)) h₄ hA₃

theorem validateVcache_within (hfit : FitsPacket mc.config) {u : Unit} {A : Npa → Prop}
    (htag : ∀ q, IsTag mc q → A q) (h : Returns (validateVcache mc platform) sent u sent')
    (hA : ∀ q ∈ placesOf sent, A q) : ∀ q ∈ placesOf sent', A q := by
  refine forM_returns (P := fun _ s => ∀ q ∈ placesOf s, A q) h hA ?_
  intro _ p s t hp h hs
  obtain ⟨-, -, hx, -, hy⟩ := Coordinate.inRect_of_mem hp
  have hpod : IsPod mc.config p := by
    rw [IsPod, UInt32.lt_iff_toNat_lt, UInt32.lt_iff_toNat_lt]
    simp only [UInt32.reduceToNat, Nat.zero_add] at hx hy
    exact ⟨hx, hy⟩
  refine podApplyToVcache_keeps (P := fun s => ∀ q ∈ placesOf s, A q) h hs ?_
  intro tag s t ht h hs
  obtain ⟨way, s', hway, h⟩ := returns_bind.mp h
  obtain ⟨-, rfl⟩ := returns_fromExcept.mp hway
  exact write32_within hfit (fun j hj => htag _ ⟨p, hpod, tag, ht, j, hj, rfl⟩) h hs

theorem tilesInitialize_within (hfit : FitsPacket mc.config) {pc_init : UInt32}
    {tiles : List Coord} {u : Unit} {A : Npa → Prop} (hcsr : ∀ q, IsCsr tiles q → A q)
    (htag : mc.dramEnabled = false → ∀ q, IsTag mc q → A q)
    (h : Returns (tilesInitialize mc platform pc_init tiles) sent u sent')
    (hA : ∀ q ∈ placesOf sent, A q) : ∀ q ∈ placesOf sent', A q := by
  cases tiles with
  | nil => exact absurd h not_returns_throw
  | cons origin rest =>
    obtain ⟨_, s, hregs, h⟩ := returns_bind.mp h
    have hs : ∀ q ∈ placesOf s, A q := by
      refine forM_returns (P := fun _ s => ∀ q ∈ placesOf s, A q) hregs hA ?_
      intro _ tile s t htile h hs
      exact tileSetRegisters_within hfit htile hcsr h hs
    split at h
    · obtain ⟨-, rfl⟩ := returns_pure.mp h
      exact hs
    · next hd => exact validateVcache_within hfit (htag (eq_false_of_ne_true hd)) h hs

theorem forM_log {f : Coord → Session Unit} {L : Coord → List (Npa × UInt8)} {Q : Coord → Prop}
    {tiles : List Coord} {u : Unit} (h : Returns (forM tiles f) sent u sent')
    (hstep : ∀ tile s t, tile ∈ tiles → Returns (f tile) s () t →
      logOf t = logOf s ++ L tile ∧ Q tile) :
    logOf sent' = logOf sent ++ tiles.flatMap L ∧ ∀ tile ∈ tiles, Q tile := by
  refine forM_returns (P := fun before s => logOf s = logOf sent ++ before.flatMap L ∧
    ∀ tile ∈ before, Q tile) h ?_ ?_
  · exact ⟨(List.append_nil _).symm, fun tile ht => absurd ht List.not_mem_nil⟩
  · rintro before tile s t htile h ⟨hlog, hall⟩
    obtain ⟨hnext, hq⟩ := hstep tile s t htile h
    constructor
    · rw [hnext, hlog, List.flatMap_append, List.flatMap_singleton, List.append_assoc]
    · intro c hc
      rcases List.mem_append.mp hc with hc | hc
      · exact hall c hc
      · rw [List.mem_singleton.mp hc]
        exact hq

/-- What the writes of a segment establish: its words translate and its bytes are in the log. -/
structure SegmentSent (mc : Manycore) (bin : Image) (phdr : Phdr) (tile : Coord)
    (sent sent' : List RequestPacket) : Prop where
  translated : ∀ k < phdr.memsz.toNat, k % 4 = 0 → ∃ n,
    evaToNpa mc defaultMap tile (advance phdr.paddr k) = .ok (wordPlace mc tile phdr.paddr k, n)
  reached : ∀ k < phdr.memsz.toNat, k % 4 = 0 → Reached (wordPlace mc tile phdr.paddr k)
  capacity : phdr.memsz.toNat ≤ phdr.capacity mc.config
  log : logOf sent' = logOf sent ++ segmentLog mc bin phdr tile

theorem range_map_split {f z : ℕ} {place : ℕ → Npa} {byte : ℕ → UInt8} :
    ((List.range f).map fun k => (place k, byte k)) ++
        ((List.range z).map fun k => (place (f + k), (0 : UInt8))) =
      (List.range (f + z)).map fun k => (place k, if k < f then byte k else 0) := by
  rw [List.range_add, List.map_append, List.map_map]
  congr 1
  · refine List.map_congr_left fun k hk => ?_
    rw [if_pos (List.mem_range.mp hk)]
  · refine List.map_congr_left fun k _ => ?_
    rw [Function.comp_apply, if_neg (Nat.not_lt.mpr (Nat.le_add_right f k))]

theorem end_of_tile_segment {phdr : Phdr} {tile : Coord} {npa : Npa} {n : ℕ}
    (hd : phdr.paddr.toNat < 2 ^ 31) (hsz : phdr.memsz.toNat ≤ 4096)
    (ht : evaToNpa mc defaultMap tile phdr.paddr = .ok (npa, n)) :
    phdr.paddr.toNat + phdr.memsz.toNat ≤ 2 ^ 31 := by
  obtain ⟨hoff, -, -⟩ := tile_segment hd ht
  unfold tileOffset IsTileEpa at hoff
  split at hoff
  · omega
  · next hg =>
    rw [isGlobal_iff] at hg
    omega

theorem isLoadOnce_iff (phdr : Phdr) : phdr.isLoadOnce = true ↔ 2 ^ 31 ≤ phdr.paddr.toNat := by
  have hlt := phdr.paddr.toNat_lt
  have hand : (phdr.paddr &&& 0x80000000).toNat = phdr.paddr.toNat / 2 ^ 31 % 2 ^ 1 * 2 ^ 31 := by
    rw [UInt32.toNat_and]
    exact BitField.and_field phdr.paddr.toNat 1 31
  rw [Phdr.isLoadOnce, bne_iff_ne, ne_eq, ← UInt32.toNat_inj, hand]
  simp only [UInt32.reduceToNat]
  omega

theorem capacity_of_not_once {phdr : Phdr} (h : ¬ phdr.isLoadOnce = true) (cfg : Config) :
    phdr.capacity cfg = 4096 :=
  if_neg h

/-- What a loaded segment has to meet: the file gives no more bytes than the segment has, the
addresses do not wrap around, and in DRAM stripes are no larger than a cache. -/
structure Fits (mc : Manycore) (phdr : Phdr) : Prop where
  filesz : phdr.filesz.toNat ≤ phdr.memsz.toNat
  bound : phdr.paddr.toNat + phdr.memsz.toNat ≤ 2 ^ 32
  stripe : 2 ^ 31 ≤ phdr.paddr.toNat → (defaultGetDramStripeSizeLog mc).toNat ≤ addrBits mc

theorem Fits.stripe_of_end {phdr : Phdr} {tile : Coord} (h : Fits mc phdr)
    (hcap : phdr.memsz.toNat ≤ phdr.capacity mc.config)
    (hfirst : 0 < phdr.memsz.toNat → ∃ npa n, evaToNpa mc defaultMap tile phdr.paddr = .ok (npa, n))
    (hend : 2 ^ 31 < phdr.paddr.toNat + phdr.memsz.toNat) :
    (defaultGetDramStripeSizeLog mc).toNat ≤ addrBits mc := by
  rcases Nat.lt_or_ge phdr.paddr.toNat (2 ^ 31) with hd | hd
  · have honce : ¬ phdr.isLoadOnce = true := by
      rw [isLoadOnce_iff]
      omega
    obtain ⟨npa, n, ht⟩ := hfirst (by omega)
    rw [capacity_of_not_once honce] at hcap
    have hmem := end_of_tile_segment hd hcap ht
    omega
  · exact h.stripe hd

theorem loadTileSegment_ok (hfit : FitsPacket mc.config) {phdr : Phdr} (hphdr : Fits mc phdr)
    {tile : Coord} {u : Unit}
    (h : Returns (loadTileSegment mc platform base bin phdr tile) sent u sent') :
    SegmentSent mc bin phdr tile sent sent' := by
  have hfile := hphdr.filesz
  have hbound := hphdr.bound
  have hmem := phdr.memsz.toNat_lt
  have hzeros : (phdr.memsz.toNat + 2 ^ 64 - phdr.filesz.toNat) % 2 ^ 64 =
      phdr.memsz.toNat - phdr.filesz.toNat := by omega
  simp only [loadTileSegment, hzeros] at h
  split at h
  · exact absurd h not_returns_throw
  next hcap =>
  obtain ⟨_, s, hwrite, hset⟩ := returns_bind.mp h
  -- a segment that is not empty begins at an address that translates
  have hfirst : 0 < phdr.memsz.toNat → ∃ npa n,
      evaToNpa mc defaultMap tile phdr.paddr = .ok (npa, n) := by
    intro hpos
    rcases Nat.eq_zero_or_pos phdr.filesz.toNat with hz | hf
    · have hstart : phdr.paddr + UInt32.ofNat phdr.filesz.toNat = phdr.paddr := by
        rw [hz]
        exact advance_zero phdr.paddr
      rw [hstart] at hset
      exact ChunkedTransfer.translate_of_success (by omega) hset
    · exact ChunkedTransfer.translate_of_success (by omega) hwrite
  have hstripe := hphdr.stripe_of_end (Nat.not_lt.mp hcap) hfirst
  have hfields := fields_bits mc
  have hwritten := evaWrite_written hfit
    (places_of_words hfields (by omega) fun hd => hstripe (by omega)) hwrite
  have hal := hwritten.aligned
  have hplaces : Places mc tile (advance phdr.paddr phdr.filesz.toNat)
      (phdr.memsz.toNat - phdr.filesz.toNat)
      (wordPlace mc tile (advance phdr.paddr phdr.filesz.toNat)) fun k => k % 4 = 0 := by
    rcases Nat.lt_or_ge (phdr.paddr.toNat + phdr.filesz.toNat) (2 ^ 32) with hlt | hge
    · have hval := advance_toNat hlt
      exact places_of_words hfields (by omega) fun hd => hstripe (by omega)
    · have hz : phdr.memsz.toNat - phdr.filesz.toNat = 0 := by omega
      rw [hz]
      exact ⟨fun off npa n hoff => absurd hoff (Nat.not_lt_zero off)⟩
  have hfilled := evaMemset_written hfit hplaces hset
  have hadd : ∀ i, wordPlace mc tile (advance phdr.paddr phdr.filesz.toNat) i =
      wordPlace mc tile phdr.paddr (phdr.filesz.toNat + i) := wordPlace_advance hal
  refine ⟨?_, ?_, Nat.not_lt.mp hcap, ?_⟩
  · intro k hk hk4
    rcases Nat.lt_or_ge k phdr.filesz.toNat with hlt | hge
    · exact hwritten.translated k hlt hk4
    · obtain ⟨i, rfl⟩ := Nat.exists_eq_add_of_le hge
      obtain ⟨n, hn⟩ := hfilled.translated i (by omega) (by omega)
      rw [hadd, advance_advance] at hn
      exact ⟨n, hn⟩
  · intro k hk hk4
    rcases Nat.lt_or_ge k phdr.filesz.toNat with hlt | hge
    · exact hwritten.reached k hlt hk4
    · obtain ⟨i, rfl⟩ := Nat.exists_eq_add_of_le hge
      have hr := hfilled.reached i (by omega) (by omega)
      rwa [hadd] at hr
  · have hlog := hfilled.log
    simp only [hadd] at hlog
    rw [hlog, hwritten.log, List.append_assoc, range_map_split, Nat.add_sub_cancel' hfile]
    rfl

theorem loadTileIcache_ok (hfit : FitsPacket mc.config) {phdr : Phdr} {tile : Coord} {u : Unit}
    (h : Returns (loadTileIcache mc platform base bin phdr tile) sent u sent') :
    logOf sent' = logOf sent ++ icacheLog bin phdr tile := by
  simp only [loadTileIcache] at h
  split at h
  · exact absurd h not_returns_throw
  · obtain ⟨-, -, hlog⟩ := writeMem_ok hfit (Option.some.inj h)
    rw [hlog, icacheLog]
    congr 1
    refine List.map_congr_left fun k _ => ?_
    rw [byteOf_bufferWords, Nat.zero_add]
    rfl

theorem fromImage_returns {α : Type} {r : Except Failure α} {a : α}
    (h : Returns (fromImage r : Session α) sent a sent') : r = .ok a ∧ sent = sent' := by
  obtain ⟨hr, he⟩ := returns_fromExcept.mp h
  cases r with
  | error e => cases hr
  | ok b =>
    cases hr
    exact ⟨rfl, he⟩

theorem getSegment_ok {i : ℕ} {phdr : Phdr} (h : getSegment bin i = .ok phdr) :
    phdr = phdrAt bin i := by
  simp only [getSegment, readPhdr, bind_eq_ok, readWord_eq_ok, pure, Except.pure,
    Except.ok.injEq] at h
  obtain ⟨_, ⟨-, rfl⟩, _, -, _, -, phdr, ⟨_, ⟨-, rfl⟩, _, ⟨-, rfl⟩, _, ⟨-, rfl⟩, _, ⟨-, rfl⟩, _,
    ⟨-, rfl⟩, _, ⟨-, rfl⟩, rfl⟩, _, -, rfl⟩ := h
  rfl

def segmentsLog (mc : Manycore) (bin : Image) (tiles : List Coord) (i : ℕ) :
    List (Npa × UInt8) :=
  if (phdrAt bin i).isLoadNever then []
  else (targets tiles (phdrAt bin i)).flatMap (segmentLog mc bin (phdrAt bin i))

structure SegmentDone (mc : Manycore) (bin : Image) (i : ℕ) (tile : Coord) : Prop where
  translated : ∀ k < (phdrAt bin i).memsz.toNat, k % 4 = 0 → ∃ n,
    evaToNpa mc defaultMap tile (advance (phdrAt bin i).paddr k) =
      .ok (wordPlace mc tile (phdrAt bin i).paddr k, n)
  reached : ∀ k < (phdrAt bin i).memsz.toNat, k % 4 = 0 →
    Reached (wordPlace mc tile (phdrAt bin i).paddr k)
  capacity : (phdrAt bin i).memsz.toNat ≤ (phdrAt bin i).capacity mc.config

theorem not_icache_of_never {phdr : Phdr} (h : phdr.isLoadNever = true) :
    phdr.isLoadIcache = false := by
  simp only [Phdr.isLoadNever, bne_iff_ne, ne_eq] at h
  simp only [Phdr.isLoadIcache, beq_eq_false_iff_ne.mpr h, Bool.false_and]

theorem not_never_iff (phdr : Phdr) : ¬ phdr.isLoadNever = true ↔ phdr.type = ptLoad := by
  simp only [Phdr.isLoadNever, bne_iff_ne, not_not]

def lastText (bin : Image) (found : Option ℕ) (l : List ℕ) : Option ℕ :=
  l.foldl (fun r i => if (phdrAt bin i).isLoadIcache then some i else r) found

theorem lastText_range {n i : ℕ} (h : lastText bin none (List.range n) = some i) :
    i < n ∧ (phdrAt bin i).isLoadIcache = true ∧
      ∀ j < n, (phdrAt bin j).isLoadIcache = true → j ≤ i := by
  induction n with
  | zero => cases h
  | succ n ih =>
    rw [List.range_succ, lastText, List.foldl_append, List.foldl_cons, List.foldl_nil] at h
    split at h
    · next ht =>
      cases h
      exact ⟨Nat.lt_succ_self _, ht, fun j hj _ => Nat.le_of_lt_succ hj⟩
    · next ht =>
      obtain ⟨hi, htext, hall⟩ := ih h
      refine ⟨Nat.lt_succ_of_lt hi, htext, fun j hj hjt => ?_⟩
      rcases Nat.lt_succ_iff_lt_or_eq.mp hj with hlt | rfl
      · exact hall j hlt hjt
      · exact absurd hjt ht

/-- One segment, for the tiles that it is loaded for. -/
theorem loadSegment_ok (hfit : FitsPacket mc.config) {origin : Coord} {rest : List Coord} {i : ℕ}
    {u : Unit}
    (hload : ¬ (phdrAt bin i).isLoadNever = true) (hphdr : Fits mc (phdrAt bin i))
    (h : Returns (if (phdrAt bin i).isLoadOnce then
        loadTileSegment mc platform base bin (phdrAt bin i) origin
      else forM (origin :: rest) (loadTileSegment mc platform base bin (phdrAt bin i)))
      sent u sent') :
    logOf sent' = logOf sent ++ segmentsLog mc bin (origin :: rest) i ∧
      ∀ tile ∈ targets (origin :: rest) (phdrAt bin i), SegmentDone mc bin i tile := by
  have hdone : ∀ {tile : Coord} {s t : List RequestPacket},
      SegmentSent mc bin (phdrAt bin i) tile s t → SegmentDone mc bin i tile :=
    fun hs => ⟨hs.translated, hs.reached, hs.capacity⟩
  rw [segmentsLog, if_neg hload, targets]
  split at h
  · next honce =>
    have hsent := loadTileSegment_ok hfit hphdr h
    rw [if_pos honce]
    simp only [List.take_succ_cons, List.take_zero, List.flatMap_cons, List.flatMap_nil,
      List.append_nil, List.mem_singleton, forall_eq]
    exact ⟨hsent.log, hdone hsent⟩
  · next honce =>
    rw [if_neg honce]
    refine forM_log h fun tile s t _ hstep => ?_
    have hsent := loadTileSegment_ok hfit hphdr hstep
    exact ⟨hsent.log, hdone hsent⟩

theorem loadSegmentsFrom_ok (hfit : FitsPacket mc.config) {origin : Coord} {rest : List Coord}
    {n segidx : ℕ} {found result : Option ℕ}
    (hphdr : ∀ i, segidx ≤ i → i < segidx + n → (phdrAt bin i).type = ptLoad →
      Fits mc (phdrAt bin i))
    (h : Returns (loadSegmentsFrom mc platform base bin origin (origin :: rest) n segidx found)
      sent result sent') :
    result = lastText bin found (List.range' segidx n) ∧
      logOf sent' = logOf sent ++
        (List.range' segidx n).flatMap (segmentsLog mc bin (origin :: rest)) ∧
      ∀ i ∈ List.range' segidx n, (phdrAt bin i).type = ptLoad →
        ∀ tile ∈ targets (origin :: rest) (phdrAt bin i), SegmentDone mc bin i tile := by
  induction n generalizing segidx found sent with
  | zero =>
    obtain ⟨rfl, rfl⟩ := returns_pure.mp h
    exact ⟨rfl, (List.append_nil _).symm, fun i hi => absurd hi List.not_mem_nil⟩
  | succ n ih =>
    obtain ⟨phdr, s, hget, h⟩ := returns_bind.mp h
    obtain ⟨hphdr', rfl⟩ := fromImage_returns hget
    obtain rfl := getSegment_ok hphdr'
    have hrest : ∀ i, segidx + 1 ≤ i → i < segidx + 1 + n → (phdrAt bin i).type = ptLoad →
        Fits mc (phdrAt bin i) := fun i h₁ h₂ => hphdr i (by omega) (by omega)
    rw [List.range'_succ]
    split at h
    · next hnever =>
      obtain ⟨hlast, hlog, hdone⟩ := ih hrest h
      refine ⟨?_, ?_, ?_⟩
      · rw [hlast, lastText, lastText, List.foldl_cons, not_icache_of_never hnever]
        rfl
      · rw [hlog, List.flatMap_cons, segmentsLog, if_pos hnever, List.nil_append]
      · intro i hi htype
        rcases List.mem_cons.mp hi with rfl | hi
        · exact absurd hnever ((not_never_iff _).mpr htype)
        · exact hdone i hi htype
    · next hnever =>
      obtain ⟨_, s', hseg, h⟩ := returns_bind.mp h
      have htype := (not_never_iff _).mp hnever
      obtain ⟨hseglog, hsegdone⟩ :=
        loadSegment_ok hfit hnever (hphdr segidx le_rfl (by omega) htype) hseg
      obtain ⟨hlast, hlog, hdone⟩ := ih hrest h
      refine ⟨?_, ?_, ?_⟩
      · rw [hlast, lastText, lastText, List.foldl_cons]
      · rw [hlog, hseglog, List.flatMap_cons, List.append_assoc]
      · intro i hi htype
        rcases List.mem_cons.mp hi with rfl | hi
        · exact hsegdone
        · exact hdone i hi htype

/-- What a successful load of the segments and of the instruction caches sends. -/
structure LoadSent (mc : Manycore) (bin : Image) (tiles : List Coord)
    (sent sent' : List RequestPacket) : Prop where
  log : ∃ i, LastText bin i ∧ logOf sent' = logOf sent ++
    ((List.range (phnum bin)).flatMap (segmentsLog mc bin tiles) ++
      tiles.flatMap (icacheLog bin (phdrAt bin i)))
  done : ∀ i, IsLoad bin i → ∀ tile ∈ targets tiles (phdrAt bin i), SegmentDone mc bin i tile

theorem loadSegments_ok (hfit : FitsPacket mc.config) {origin : Coord} {rest : List Coord}
    {u : Unit}
    (hphdr : ∀ i, IsLoad bin i → Fits mc (phdrAt bin i))
    (h : Returns (loadSegments mc platform base bin origin (origin :: rest)) sent u sent') :
    LoadSent mc bin (origin :: rest) sent sent' := by
  obtain ⟨num, s, hnum, h⟩ := returns_bind.mp h
  obtain ⟨hread, rfl⟩ := fromImage_returns hnum
  obtain ⟨-, rfl⟩ := readHalf_eq_ok.mp hread
  obtain ⟨result, s, hsegs, h⟩ := returns_bind.mp h
  have hfits : ∀ i, 0 ≤ i → i < 0 + phnum bin → (phdrAt bin i).type = ptLoad →
      Fits mc (phdrAt bin i) := by
    intro i _ hi htype
    rw [Nat.zero_add] at hi
    exact hphdr i ⟨hi, htype⟩
  obtain ⟨hlast, hlog, hdone⟩ := loadSegmentsFrom_ok hfit hfits hsegs
  rw [← List.range_eq_range'] at hlast hlog hdone
  cases result with
  | none => exact absurd h not_returns_throw
  | some i =>
    obtain ⟨hi, htext, hmax⟩ := lastText_range hlast.symm
    obtain ⟨phdr, s', hget, h⟩ := returns_bind.mp h
    obtain ⟨hphdr', rfl⟩ := fromImage_returns hget
    obtain rfl := getSegment_ok hphdr'
    obtain ⟨hicache, -⟩ := forM_log (Q := fun _ => True) h fun tile s t _ hstep =>
      ⟨loadTileIcache_ok hfit hstep, trivial⟩
    refine ⟨⟨i, ⟨⟨hi, htext⟩, fun j hj => hmax j hj.1 hj.2⟩, ?_⟩, ?_⟩
    · rw [hicache, hlog, List.append_assoc]
    · intro j hj
      exact hdone j (List.mem_range.mpr hj.1) hj.2

/-- A load that succeeds sends registers and tags first. -/
theorem load_ok (hfit : FitsPacket mc.config) {tiles : List Coord} {u : Unit}
    (hphdr : ∀ i, IsLoad bin i → Fits mc (phdrAt bin i))
    (h : Returns (load mc platform base (some bin) tiles) [] u sent') :
    ∃ sent, (∀ q ∈ placesOf sent, IsCsr tiles q ∨ mc.dramEnabled = false ∧ IsTag mc q) ∧
      LoadSent mc bin tiles sent sent' := by
  obtain ⟨pc_init, s, hpc, h⟩ := returns_bind.mp h
  obtain ⟨-, rfl⟩ := returns_fromExcept.mp hpc
  cases tiles with
  | nil => exact absurd h not_returns_throw
  | cons origin rest =>
    obtain ⟨_, s, hvalid, h⟩ := returns_bind.mp h
    obtain ⟨-, rfl⟩ := fromImage_returns hvalid
    obtain ⟨_, s, hinit, h⟩ := returns_bind.mp h
    refine ⟨s, ?_, loadSegments_ok hfit hphdr h⟩
    refine tilesInitialize_within hfit (fun q hq => Or.inl hq) (fun hd q hq => Or.inr ⟨hd, hq⟩)
      hinit ?_
    intro q hq
    cases hq

end Proof

end LoaderLog
