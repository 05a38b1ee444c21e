import ManycoreRuntime.CacheBanks

/-! # The tags of the victim caches, one by one

The address of a tag gives back its way and its set, no two lines share a tag, and the loop over
the tags of a pod comes to each of them once. -/
namespace VcacheTags

open Actions
open BitField
open CacheBanks (popcount_of_mask vcacheWayAddr_ok)
open Coordinate (Coord Errno)
open Configuration (Config Manycore)
open ConfigPod
open DramTranslation (shl_eq_ok shr_eq_ok)
open EvaToNpa (Npa)
open Fallible (bind_eq_ok)
open Machines (Machine)
open PodGeometry
open Vcache

/-- Sets, ways and blocks are powers of two, and the lines of a cache fit below the offset of the
tags. -/
structure PowersFit (mc : Manycore) (b t w : ℕ) : Prop where
  block : mc.config.vcacheBlockSize.toNat = 2 ^ b
  sets : mc.config.vcacheSets.toNat = 2 ^ t
  ways : mc.config.vcacheWays.toNat = 2 ^ w
  room : 2 ^ b * (2 ^ t * 2 ^ w) ≤ 2 ^ 29

structure IsLine (mc : Manycore) (set way : UInt32) : Prop where
  set : set < mc.config.vcacheSets
  way : way < mc.config.vcacheWays

def PodTag (mc : Manycore) (p : Coord) (tag : Npa) : Prop :=
  ∃ c, CacheOf mc.config p c ∧ ∃ set way, IsLine mc set way ∧
    ∃ epa, vcacheWayAddr mc set way = .ok epa ∧ tag = ⟨c.x, c.y, epa⟩

/-- A function that always succeeds is applied once to each tag of the pod, and to nothing else. -/
structure AppliedOnce (mc : Manycore) (p : Coord) (tags : List Npa) : Prop where
  nodup : tags.Nodup
  mem : ∀ tag, tag ∈ tags ↔ PodTag mc p tag
  run : ∀ {σ : Type} (f : Npa → Action Errno σ Unit) (g : Npa → σ → σ),
    (∀ tag s, Returns (f tag) s () (g tag s)) →
    ∀ s, Returns (podApplyToVcache mc p f) s () (tags.foldl (fun s tag => g tag s) s)

structure VcacheLaw (mc : Manycore) : Prop where
  tag : ∀ cache < mc.config.numDramCoordinates, ∀ set way, IsLine mc set way →
    ∃ tag, vcacheWayNpa mc cache set way = .ok tag ∧
      tag.epa &&& vcacheEpaTag = vcacheEpaTag ∧
      vcacheWay mc tag.epa = .ok way ∧ vcacheSet mc tag.epa = .ok set
  injective : ∀ cache < mc.config.numDramCoordinates, ∀ cache' < mc.config.numDramCoordinates,
    ∀ set way set' way', IsLine mc set way → IsLine mc set' way' →
    vcacheWayNpa mc cache set way = vcacheWayNpa mc cache' set' way' →
    cache = cache' ∧ set = set' ∧ way = way'
  applied : ∀ p, IsPod mc.config p → ∃ tags, AppliedOnce mc p tags

section Address

variable {mc : Manycore} {b t w : ℕ} {set way epa : UInt32}

theorem PowersFit.bits (h : PowersFit mc b t w) : b + (t + w) ≤ 29 := by
  have hroom := h.room
  rw [← pow_add, ← pow_add] at hroom
  exact (Nat.pow_le_pow_iff_right (by decide : 1 < 2)).mp hroom

theorem PowersFit.setShift (h : PowersFit mc b t w) : (vcacheSetShift mc).toNat = b := by
  obtain ⟨hbits, hlt⟩ := popcount_of_mask h.block
  rw [vcacheSetShift, hbits]
  exact UInt32.toNat_ofNat_of_lt' (by simp only [UInt32.size]; omega)

theorem PowersFit.wayShift (h : PowersFit mc b t w) : (vcacheWayShift mc).toNat = t + b := by
  have hbits := h.bits
  obtain ⟨hsets, hlt⟩ := popcount_of_mask h.sets
  rw [vcacheWayShift, UInt32.toNat_add, h.setShift, hsets,
    UInt32.toNat_ofNat_of_lt' (by simp only [UInt32.size]; omega)]
  omega

theorem mask_of_power {n : UInt32} {k : ℕ} (h : n.toNat = 2 ^ k) (v : UInt32) :
    (v &&& (n - 1)).toNat = v.toNat % 2 ^ k := by
  have hpos := Nat.two_pow_pos k
  have hmask : (n - 1).toNat = 2 ^ k - 1 := by
    rw [UInt32.toNat_sub_of_le, h]
    · rfl
    · rw [UInt32.le_iff_toNat_le, h]
      exact hpos
  rw [UInt32.toNat_and, hmask, Nat.and_two_pow_sub_one_eq_mod]

theorem PowersFit.wayAddr (h : PowersFit mc b t w) (hl : IsLine mc set way) :
    ∃ epa, vcacheWayAddr mc set way = .ok epa ∧
      epa.toNat = 2 ^ 29 + 2 ^ b * (2 ^ t * way.toNat + set.toNat) := by
  have hbits := h.bits
  have hset := UInt32.lt_iff_toNat_lt.mp hl.set
  have hway := UInt32.lt_iff_toNat_lt.mp hl.way
  rw [h.sets] at hset
  rw [h.ways] at hway
  have hshift : (vcacheWayShift mc).toNat < 32 := by
    rw [h.wayShift]
    omega
  have hshift' : (vcacheSetShift mc).toNat < 32 := by
    rw [h.setShift]
    omega
  have hroom : 2 ^ b * (2 ^ t * (way.toNat + 1)) ≤ 2 ^ 29 :=
    (Nat.mul_le_mul_left _ (Nat.mul_le_mul_left _ hway)).trans h.room
  obtain ⟨epa, hepa⟩ : ∃ epa, vcacheWayAddr mc set way = .ok epa := by
    simp only [vcacheWayAddr, bind_eq_ok, shl_eq_ok, pure, Except.pure, Except.ok.injEq]
    exact ⟨_, _, ⟨hshift, rfl⟩, _, ⟨hshift', rfl⟩, rfl⟩
  refine ⟨epa, hepa, ?_⟩
  apply vcacheWayAddr_ok h.block h.sets hset hroom
  rw [UInt32.ofNat_toNat, UInt32.ofNat_toNat]
  exact hepa

theorem PowersFit.fields (h : PowersFit mc b t w) (hl : IsLine mc set way)
    (hepa : epa.toNat = 2 ^ 29 + 2 ^ b * (2 ^ t * way.toNat + set.toNat)) :
    epa.toNat / 2 ^ (t + b) % 2 ^ w = way.toNat ∧ epa.toNat / 2 ^ b % 2 ^ t = set.toNat ∧
      epa.toNat / 2 ^ 29 % 2 = 1 := by
  have hbits := h.bits
  have hset := UInt32.lt_iff_toNat_lt.mp hl.set
  have hway := UInt32.lt_iff_toNat_lt.mp hl.way
  rw [h.sets] at hset
  rw [h.ways] at hway
  obtain ⟨k, hk⟩ : ∃ k, 29 = b + (t + (w + k)) := ⟨29 - (b + (t + w)), by omega⟩
  have hsplit : epa.toNat = 2 ^ b * (set.toNat + 2 ^ t * (way.toNat + 2 ^ w * 2 ^ k)) := by
    rw [hepa, hk]
    ring
  have hlow : epa.toNat / 2 ^ b = set.toNat + 2 ^ t * (way.toNat + 2 ^ w * 2 ^ k) := by
    rw [hsplit, Nat.mul_div_cancel_left _ (Nat.two_pow_pos b)]
  have hmid : epa.toNat / 2 ^ (t + b) = way.toNat + 2 ^ w * 2 ^ k := by
    rw [Nat.add_comm, pow_add, ← Nat.div_div_eq_div_mul, hlow,
      Nat.add_mul_div_left _ _ (Nat.two_pow_pos t), Nat.div_eq_of_lt hset, Nat.zero_add]
  refine ⟨?_, ?_, ?_⟩
  · rw [hmid, Nat.add_mul_mod_self_left, Nat.mod_eq_of_lt hway]
  · rw [hlow, Nat.add_mul_mod_self_left, Nat.mod_eq_of_lt hset]
  · have hroom := h.room
    have hline : 2 ^ b * (2 ^ t * way.toNat + set.toNat) < 2 ^ b * (2 ^ t * 2 ^ w) := by
      apply Nat.mul_lt_mul_of_pos_left _ (Nat.two_pow_pos b)
      have := Nat.mul_le_mul_left (2 ^ t) hway
      rw [Nat.succ_eq_add_one, Nat.mul_add] at this
      omega
    omega

theorem PowersFit.recovered (h : PowersFit mc b t w) (hl : IsLine mc set way)
    (hepa : epa.toNat = 2 ^ 29 + 2 ^ b * (2 ^ t * way.toNat + set.toNat)) :
    epa &&& vcacheEpaTag = vcacheEpaTag ∧ vcacheWay mc epa = .ok way ∧
      vcacheSet mc epa = .ok set := by
  have hbits := h.bits
  obtain ⟨hway, hset, htag⟩ := h.fields hl hepa
  have hshift : (vcacheWayShift mc).toNat < 32 := by
    rw [h.wayShift]
    omega
  have hshift' : (vcacheSetShift mc).toNat < 32 := by
    rw [h.setShift]
    omega
  refine ⟨?_, ?_, ?_⟩
  · have hbit : vcacheEpaTag.toNat = 2 ^ 29 := rfl
    rw [← UInt32.toNat_inj, UInt32.toNat_and, hbit, Nat.and_two_pow,
      Nat.testBit_eq_decide_div_mod_eq, htag]
    rfl
  · simp only [vcacheWay, bind_eq_ok, shr_eq_ok, pure, Except.pure, Except.ok.injEq]
    refine ⟨_, ⟨hshift, rfl⟩, ?_⟩
    rw [← UInt32.toNat_inj, vcacheWayMask, mask_of_power h.ways, shiftRight_toNat hshift,
      h.wayShift, hway]
  · simp only [vcacheSet, bind_eq_ok, shr_eq_ok, pure, Except.pure, Except.ok.injEq]
    refine ⟨_, ⟨hshift', rfl⟩, ?_⟩
    rw [← UInt32.toNat_inj, vcacheSetMask, mask_of_power h.sets, shiftRight_toNat hshift',
      h.setShift, hset]

/-- Two lines with one tag address are one line. -/
theorem PowersFit.line_injective (h : PowersFit mc b t w) {set' way' : UInt32}
    (hl : IsLine mc set way) (hl' : IsLine mc set' way')
    (he : vcacheWayAddr mc set way = vcacheWayAddr mc set' way') : set = set' ∧ way = way' := by
  obtain ⟨epa, hok, hval⟩ := h.wayAddr hl
  obtain ⟨epa', hok', hval'⟩ := h.wayAddr hl'
  rw [hok, hok', Except.ok.injEq] at he
  obtain ⟨-, hway, hset⟩ := h.recovered hl hval
  obtain ⟨-, hway', hset'⟩ := h.recovered hl' hval'
  rw [he] at hway hset
  rw [hway, Except.ok.injEq] at hway'
  rw [hset, Except.ok.injEq] at hset'
  exact ⟨hset', hway'⟩

end Address

section Loop

variable {mc : Manycore} {b t w : ℕ} {p : Coord}

def tagAt (mc : Manycore) (set way : ℕ) (c : Coord) : Npa :=
  ⟨c.x, c.y, UInt32.ofNat (2 ^ 29 +
    mc.config.vcacheBlockSize.toNat * (mc.config.vcacheSets.toNat * way + set))⟩

def podTags (mc : Manycore) (drams : List Coord) : List Npa :=
  (List.range (vcacheNumWays mc).toNat).flatMap fun way =>
    (List.range (vcacheNumSets mc).toNat).flatMap fun set => drams.map (tagAt mc set way)

theorem isLine_of_lt {set way : ℕ} (hset : set < (vcacheNumSets mc).toNat)
    (hway : way < (vcacheNumWays mc).toNat) :
    IsLine mc (UInt32.ofNat set) (UInt32.ofNat way) ∧ (UInt32.ofNat set).toNat = set ∧
      (UInt32.ofNat way).toNat = way := by
  have hs := mc.config.vcacheSets.toNat_lt
  have hw := mc.config.vcacheWays.toNat_lt
  rw [vcacheNumSets] at hset
  rw [vcacheNumWays] at hway
  have hset32 : (UInt32.ofNat set).toNat = set :=
    UInt32.toNat_ofNat_of_lt' (by simp only [UInt32.size]; omega)
  have hway32 : (UInt32.ofNat way).toNat = way :=
    UInt32.toNat_ofNat_of_lt' (by simp only [UInt32.size]; omega)
  refine ⟨⟨?_, ?_⟩, hset32, hway32⟩
  · rw [UInt32.lt_iff_toNat_lt, hset32]
    exact hset
  · rw [UInt32.lt_iff_toNat_lt, hway32]
    exact hway

theorem PowersFit.wayAddr_ofNat (h : PowersFit mc b t w) {set way : ℕ}
    (hset : set < (vcacheNumSets mc).toNat) (hway : way < (vcacheNumWays mc).toNat) (c : Coord) :
    vcacheWayAddr mc (UInt32.ofNat set) (UInt32.ofNat way) = .ok (tagAt mc set way c).epa := by
  obtain ⟨hl, hset32, hway32⟩ := isLine_of_lt hset hway
  obtain ⟨epa, hok, hval⟩ := h.wayAddr hl
  have he : (tagAt mc set way c).epa = epa := by
    rw [tagAt, h.block, h.sets, ← UInt32.ofNat_toNat (x := epa), hval, hset32, hway32]
  rw [he]
  exact hok

theorem PowersFit.mem_podTags (h : PowersFit mc b t w) {drams : List Coord}
    (hd : podForeachDram mc.config p = some drams) (tag : Npa) :
    tag ∈ podTags mc drams ↔ PodTag mc p tag := by
  simp only [podTags, List.mem_flatMap, List.mem_map, List.mem_range]
  constructor
  · rintro ⟨way, hway, set, hset, c, hc, rfl⟩
    exact ⟨c, ⟨drams, hd, hc⟩, _, _, (isLine_of_lt hset hway).1, _,
      h.wayAddr_ofNat hset hway c, rfl⟩
  · rintro ⟨c, ⟨drams', hd', hc⟩, set, way, hl, epa, hepa, rfl⟩
    rw [hd, Option.some.injEq] at hd'
    subst hd'
    have hset : set.toNat < (vcacheNumSets mc).toNat := UInt32.lt_iff_toNat_lt.mp hl.set
    have hway : way.toNat < (vcacheNumWays mc).toNat := UInt32.lt_iff_toNat_lt.mp hl.way
    refine ⟨way.toNat, hway, set.toNat, hset, c, hc, ?_⟩
    have hok := h.wayAddr_ofNat hset hway c
    rw [UInt32.ofNat_toNat, UInt32.ofNat_toNat, hepa, Except.ok.injEq] at hok
    rw [hok]
    rfl

theorem PowersFit.tagAt_injective (h : PowersFit mc b t w) {set way set' way' : ℕ} {c c' : Coord}
    (hset : set < (vcacheNumSets mc).toNat) (hway : way < (vcacheNumWays mc).toNat)
    (hset' : set' < (vcacheNumSets mc).toNat) (hway' : way' < (vcacheNumWays mc).toNat)
    (he : tagAt mc set way c = tagAt mc set' way' c') : c = c' ∧ set = set' ∧ way = way' := by
  have hc : c = c' := by
    have hx := congrArg Npa.x he
    have hy := congrArg Npa.y he
    obtain ⟨x, y⟩ := c
    obtain ⟨x', y'⟩ := c'
    simp only [tagAt] at hx hy
    rw [hx, hy]
  obtain ⟨hl, hs, hw⟩ := isLine_of_lt hset hway
  obtain ⟨hl', hs', hw'⟩ := isLine_of_lt hset' hway'
  have haddr : vcacheWayAddr mc (UInt32.ofNat set) (UInt32.ofNat way) =
      vcacheWayAddr mc (UInt32.ofNat set') (UInt32.ofNat way') := by
    rw [h.wayAddr_ofNat hset hway c, h.wayAddr_ofNat hset' hway' c', he]
  obtain ⟨hsets, hways⟩ := h.line_injective hl hl' haddr
  exact ⟨hc, by rw [← hs, ← hs', hsets], by rw [← hw, ← hw', hways]⟩

theorem podTags_eq (drams : List Coord) : podTags mc drams =
    (podLines mc drams).map fun line => tagAt mc line.set line.way line.cache := by
  simp only [podTags, podLines, List.map_flatMap, List.map_map]
  rfl

theorem PowersFit.nodup_podTags (h : PowersFit mc b t w) {drams : List Coord}
    (hd : drams.Nodup) : (podTags mc drams).Nodup := by
  rw [podTags_eq]
  apply (nodup_podLines hd).map_on
  intro line hline line' hline' he
  obtain ⟨hway, hset, -⟩ := mem_podLines.mp hline
  obtain ⟨hway', hset', -⟩ := mem_podLines.mp hline'
  obtain ⟨hc, hsets, hways⟩ := h.tagAt_injective hset hway hset' hway' he
  rw [LineId.mk.injEq]
  exact ⟨hways, hsets, hc⟩

def LeadsBack (cfg : Config) (drams : List Coord) : Prop :=
  ∀ c ∈ drams, ∃ id, dramId cfg c = .ok id ∧ dram cfg id = .ok c

theorem PowersFit.run_podTags (h : PowersFit mc b t w) (hcache : hasCache mc = true)
    {drams : List Coord} (hd : podForeachDram mc.config p = some drams)
    (hback : LeadsBack mc.config drams) {σ : Type} (f : Npa → Action Errno σ Unit)
    (g : Npa → σ → σ) (hf : ∀ tag s, Returns (f tag) s () (g tag s)) (s : σ) :
    Returns (podApplyToVcache mc p f) s () ((podTags mc drams).foldl (fun s tag => g tag s) s) := by
  rw [podApplyToVcache_eq hcache hd, podTags_eq, List.foldl_map]
  refine returns_forM ?_ s
  intro line hline s
  obtain ⟨hway, hset, hc⟩ := mem_podLines.mp hline
  obtain ⟨id, hid, hlead⟩ := hback _ hc
  have hnpa : vcacheWayNpa mc id (UInt32.ofNat line.set) (UInt32.ofNat line.way) =
      .ok (tagAt mc line.set line.way line.cache) := by
    simp only [vcacheWayNpa, hlead, h.wayAddr_ofNat hset hway line.cache]
    rfl
  refine returns_bind.mpr ⟨id, s, returns_fromExcept.mpr ⟨hid, rfl⟩, ?_⟩
  refine returns_bind.mpr ⟨_, s, returns_fromExcept.mpr ⟨hnpa, rfl⟩, ?_⟩
  exact hf _ s

end Loop

section Law

variable {mc : Manycore} {b t w : ℕ}

theorem dram_of_id (hp : Placed mc.config) (hb : 1 ≤ tileBitsY mc.config)
    (hc : cacheCount mc.config < 2 ^ 32) {id : UInt32}
    (hid : id < mc.config.numDramCoordinates) :
    ∃ c, dram mc.config id = .ok c ∧ dramId mc.config c = .ok id := by
  rw [UInt32.lt_iff_toNat_lt, numDramCoordinates_toNat hc] at hid
  obtain ⟨p, row, i, hpod, hrow, hi, hval⟩ := exists_idOf hid hc
  obtain ⟨id', hid', hval'⟩ := hp.dramId_cache hb hc hpod hrow hi
  have he : id' = id := by rw [← UInt32.toNat_inj, hval', hval]
  rw [he] at hid'
  exact ⟨_, dram_idOf hc hpod hrow hi hval.symm, hid'⟩

theorem leadsBack_of_placed (hp : Placed mc.config) (hb : 1 ≤ tileBitsY mc.config)
    (hc : cacheCount mc.config < 2 ^ 32) {p : Coord} (hpod : IsPod mc.config p) :
    LeadsBack mc.config (cacheRow mc.config p 0 0 ++ cacheRow mc.config p 1 0) := by
  intro c hmem
  obtain ⟨row, hrow, i, hi, rfl⟩ := mem_visited_iff.mp hmem
  obtain ⟨id, hid, hval⟩ := hp.dramId_cache hb hc hpod hrow hi
  exact ⟨id, hid, dram_idOf hc hpod hrow hi hval⟩

/-- With pods and caches where the ids expect them, the tags of the caches are their own, and the
loop over them comes to each once. -/
theorem vcache_law (hcache : hasCache mc = true) (hp : Placed mc.config)
    (hb : 1 ≤ tileBitsY mc.config) (hc : cacheCount mc.config < 2 ^ 32)
    (h : PowersFit mc b t w) : VcacheLaw mc where
  tag cache hid set way hl := by
    obtain ⟨c, hdram, -⟩ := dram_of_id hp hb hc hid
    obtain ⟨epa, hok, hval⟩ := h.wayAddr hl
    refine ⟨⟨c.x, c.y, epa⟩, ?_, h.recovered hl hval⟩
    simp only [vcacheWayNpa, hdram, hok]
    rfl
  injective cache hid cache' hid' set way set' way' hl hl' he := by
    obtain ⟨c, hdram, hback⟩ := dram_of_id hp hb hc hid
    obtain ⟨c', hdram', hback'⟩ := dram_of_id hp hb hc hid'
    obtain ⟨epa, hok, -⟩ := h.wayAddr hl
    obtain ⟨epa', hok', -⟩ := h.wayAddr hl'
    simp only [vcacheWayNpa, hdram, hdram', hok, hok', bind, Except.bind, pure, Except.pure,
      Except.ok.injEq, Npa.mk.injEq] at he
    obtain ⟨hx, hy, hepa⟩ := he
    have hcc : c = c' := by
      obtain ⟨x, y⟩ := c
      obtain ⟨x', y'⟩ := c'
      rw [show x = x' from hx, show y = y' from hy]
    rw [hcc, hback', Except.ok.injEq] at hback
    exact ⟨hback.symm, h.line_injective hl hl' (by rw [hok, hok', hepa])⟩
  applied p hpod := by
    have hu := hp.unwrapped hpod
    exact ⟨_, h.nodup_podTags hu.visited_nodup, h.mem_podTags hu.foreachDram_eq,
      h.run_podTags hcache hu.foreachDram_eq (leadsBack_of_placed hp hb hc hpod)⟩

end Law

theorem powersFit_of_machine {cfg : Config} (hb : cfg.vcacheBlockSize = 128)
    (hs : cfg.vcacheSets = 64) (hw : cfg.vcacheWays = 8) : PowersFit ⟨cfg, true⟩ 7 6 3 :=
  ⟨congrArg UInt32.toNat hb, congrArg UInt32.toNat hs, congrArg UInt32.toNat hw, by decide⟩

theorem vcache_law_machine : VcacheLaw ⟨({} : Machine).config, true⟩ :=
  @vcache_law ⟨({} : Machine).config, true⟩ 7 6 3 rfl
    (Regular.placed ⟨by decide, by decide, forall_pod (by decide), forall_pod (by decide)⟩)
    (by decide) (by decide) (powersFit_of_machine rfl rfl rfl)

/-- An accepted configuration with lines that fit, on which the law fails. -/
structure Fails (cfg : Config) : Prop where
  accepted : Configuration.Accepted cfg
  fits : ∃ b t w, PowersFit ⟨cfg, true⟩ b t w
  fails : ¬ VcacheLaw ⟨cfg, true⟩

section Fails

variable {mc : Manycore} {p : Coord} {tags : List Npa}

/-- The tags that a run goes through are those of the law. -/
theorem AppliedOnce.log (h : AppliedOnce mc p tags) :
    Returns (podApplyToVcache mc p fun tag s => some (.ok (), s ++ [tag])) [] () tags := by
  have hrun := h.run (fun tag s => some (.ok (), s ++ [tag])) (fun tag s => s ++ [tag])
    (fun _ _ => rfl) []
  rw [List.foldl_append_eq_append, List.nil_append, ← List.flatMap_def,
    List.flatMap_singleton'] at hrun
  exact hrun

def infmem : Config := { ({} : Machine).config with
  memsys := {
    id := .infmem
    dramChannels := 32
    dramBankSize := 0x4000000
    featureDma := true
    featureCache := false
    dramRo := ⟨0, 0⟩
    dramBg := ⟨0, 0⟩
    dramBa := ⟨0, 0⟩
    dramCo := ⟨0, 0⟩
    dramByteOffset := ⟨28, 0⟩ } }

def infmemRom : Configuration.MemsysRomIdx → UInt32
  | .id => Configuration.romId 'I' 'N' 'F' 'M'
  | .dramChannels => 32
  | .dramBankSize => 0x4000000
  | .dramByteOffBits => 28
  | _ => 0

def wide : Machine := { podsX := 2, podTilesX := 17 }

def low : Machine := { podTilesY := 4 }

/-- One row of tiles: the row of caches south of one pod is the row north of the next. -/
def oneRowPods : Machine := { podsY := 2, nocCoordYWidth := 4, podTilesY := 1, hostCoordY := 15 }

def hostRow : Machine := { hostCoordY := 16 }

/-- The columns of pod `(16, 0)` wrap around to those of pod `(0, 0)`. -/
def wrapping : Machine := { podsX := 32, podTilesX := 1, nocCoordXWidth := 31 }

def manyCaches : Machine :=
  { podsX := 4, podsY := 4, podTilesX := 0x10000000, nocCoordXWidth := 31, hostCoordY := 1 }

theorem not_law_of_undefined (hp : IsPod mc.config p)
    (hrun : podApplyToVcache mc p (fun _ s => some (.ok (), s)) () = some (.error .undefined, ())) :
    ¬ VcacheLaw mc := by
  intro h
  obtain ⟨tags, ht⟩ := h.applied p hp
  have hok := ht.run (fun _ s => some (.ok (), s)) (fun _ s => s) (fun _ _ => rfl) ()
  rw [Returns, hrun] at hok
  cases hok

theorem not_law_of_shared {cache cache' : UInt32} (hc : cache < mc.config.numDramCoordinates)
    (hc' : cache' < mc.config.numDramCoordinates) (hl : IsLine mc 0 0) (hne : cache ≠ cache')
    (he : vcacheWayNpa mc cache 0 0 = vcacheWayNpa mc cache' 0 0) : ¬ VcacheLaw mc := by
  intro h
  exact hne (h.injective cache hc cache' hc' 0 0 0 0 hl hl he).1

/-- A machine without caches has tags by its configuration, and applies the function to none. -/
theorem infmem_fails : Fails infmem where
  accepted := ⟨⟨({} : Machine).configRom, infmemRom⟩, by decide +kernel⟩
  fits := ⟨7, 6, 3, powersFit_of_machine rfl rfl rfl⟩
  fails h := by
    obtain ⟨tags, ht⟩ := h.applied ⟨0, 0⟩ (by decide)
    have hlog := ht.log
    have hnone : tags = [] := by
      have hpure : podApplyToVcache ⟨infmem, true⟩ ⟨0, 0⟩
          (fun tag s => some (.ok (), s ++ [tag])) = pure () := rfl
      rw [hpure] at hlog
      exact (returns_pure.mp hlog).2.symm
    have hfit := @powersFit_of_machine infmem rfl rfl rfl
    have hl : IsLine ⟨infmem, true⟩ 0 0 := ⟨by decide, by decide⟩
    obtain ⟨epa, hok, -⟩ := hfit.wayAddr hl
    have hmem : (⟨16, 7, epa⟩ : Npa) ∈ tags := by
      apply (ht.mem _).mpr
      exact ⟨⟨16, 7⟩, ⟨_, rfl, by decide⟩, 0, 0, hl, epa, hok, rfl⟩
    rw [hnone] at hmem
    cases hmem

theorem manyCaches_column {id : UInt32} {c : Coord} (h : dram manyCaches.config id = .ok c) :
    c.x.toNat < 3 * 2 ^ 28 := by
  have hid := id.toNat_lt
  have hpod : (id / 0x20000000).toNat < 8 := by
    rw [UInt32.toNat_div]
    simp only [UInt32.reduceToNat]
    omega
  have hcol : (id % 0x20000000 % 0x10000000).toNat < 2 ^ 28 := by
    rw [UInt32.toNat_mod]
    simp only [UInt32.reduceToNat]
    exact Nat.mod_lt _ (by decide)
  have hx : c.x = (podVcoreOrigin manyCaches.config
      (PodMalloc.indexToCoordinate (id / 0x20000000).toNat manyCaches.config.pods)).x +
        id % 0x20000000 % 0x10000000 := by
    cases h
    rfl
  have horigin : (podVcoreOrigin manyCaches.config
      (PodMalloc.indexToCoordinate (id / 0x20000000).toNat manyCaches.config.pods)).x.toNat ≤
        2 ^ 29 := by
    rw [podVcoreOrigin_x_toNat]
    have hbits : tileBitsX manyCaches.config = 28 := by decide
    have hy : manyCaches.config.pods.y.toNat = 4 := by decide
    simp only [hbits, PodMalloc.indexToCoordinate, hy, UInt32.toNat_ofNat']
    omega
  rw [hx, UInt32.toNat_add]
  omega

theorem AppliedOnce.tagOf (h : AppliedOnce mc p tags) : ∀ tag ∈ tags, TagOf mc p tag := by
  refine podApplyToVcache_keeps (P := fun log => ∀ tag ∈ log, TagOf mc p tag) h.log ?_ ?_
  · intro tag htag
    cases htag
  · intro tag log log' htag hf hlog tag' hmem
    cases hf
    rcases List.mem_append.mp hmem with hmem | hmem
    · exact hlog tag' hmem
    · rw [List.mem_singleton.mp hmem]
      exact htag

theorem manyCaches_fails : Fails manyCaches.config where
  accepted := Machine.config_accepted _ (by decide)
  fits := ⟨7, 6, 3, powersFit_of_machine rfl rfl rfl⟩
  fails h := by
    have hplaced : Placed manyCaches.config :=
      Regular.placed ⟨by decide, by decide, forall_pod (by decide), forall_pod (by decide)⟩
    have hpod : IsPod manyCaches.config ⟨2, 0⟩ := by decide
    have hu := hplaced.unwrapped hpod
    obtain ⟨tags, ht⟩ := h.applied ⟨2, 0⟩ hpod
    have hfit := @powersFit_of_machine manyCaches.config rfl rfl rfl
    have hl : IsLine ⟨manyCaches.config, true⟩ 0 0 := ⟨by decide, by decide⟩
    obtain ⟨epa, hok, -⟩ := hfit.wayAddr hl
    -- the first cache of pod `(2, 0)` has a tag, but no id leads to the cache
    have hcache : CacheOf manyCaches.config ⟨2, 0⟩ (cache manyCaches.config ⟨2, 0⟩ 0 0) :=
      ⟨_, hu.foreachDram_eq, mem_visited_iff.mpr ⟨0, by decide, 0, by decide, rfl⟩⟩
    obtain ⟨drams, -, c, -, id, -, set, -, way, -, hnpa⟩ :=
      ht.tagOf _ ((ht.mem _).mpr ⟨_, hcache, 0, 0, hl, epa, hok, rfl⟩)
    simp only [vcacheWayNpa, bind_eq_ok, pure, Except.pure, Except.ok.injEq, Npa.mk.injEq] at hnpa
    obtain ⟨c', hdram, epa', -, hx, -⟩ := hnpa
    have hlt := manyCaches_column hdram
    rw [hx] at hlt
    exact absurd hlt (by decide)

/-- The law needs caches, pods no wider than the tile field and as high as it, a bit for the row of
a tile, a host outside the southern rows, columns that do not wrap and no more caches than ids. -/
theorem vcache_law_fails : Fails infmem ∧ Fails wide.config ∧ Fails low.config ∧
    Fails oneRowPods.config ∧ Fails hostRow.config ∧ Fails wrapping.config ∧
    Fails manyCaches.config := by
  refine ⟨infmem_fails, ?_, ?_, ?_, ?_, ?_, manyCaches_fails⟩
  · refine ⟨Machine.config_accepted _ (by decide), ⟨7, 6, 3, powersFit_of_machine rfl rfl rfl⟩, ?_⟩
    exact @not_law_of_shared ⟨wide.config, true⟩ 16 34 (by decide) (by decide)
      ⟨by decide, by decide⟩ (by decide) (by decide +kernel)
  · refine ⟨Machine.config_accepted _ (by decide), ⟨7, 6, 3, powersFit_of_machine rfl rfl rfl⟩, ?_⟩
    exact @not_law_of_undefined ⟨low.config, true⟩ ⟨0, 0⟩ (by decide) (by decide +kernel)
  · refine ⟨Machine.config_accepted _ (by decide), ⟨7, 6, 3, powersFit_of_machine rfl rfl rfl⟩, ?_⟩
    exact @not_law_of_shared ⟨oneRowPods.config, true⟩ 16 32 (by decide) (by decide)
      ⟨by decide, by decide⟩ (by decide) (by decide +kernel)
  · refine ⟨Machine.config_accepted _ (by decide), ⟨7, 6, 3, powersFit_of_machine rfl rfl rfl⟩, ?_⟩
    exact @not_law_of_undefined ⟨hostRow.config, true⟩ ⟨0, 0⟩ (by decide) (by decide +kernel)
  · refine ⟨Machine.config_accepted _ (by decide), ⟨7, 6, 3, powersFit_of_machine rfl rfl rfl⟩, ?_⟩
    exact @not_law_of_shared ⟨wrapping.config, true⟩ 0 32 (by decide) (by decide)
      ⟨by decide, by decide⟩ (by decide) (by decide +kernel)

end Fails

end VcacheTags
