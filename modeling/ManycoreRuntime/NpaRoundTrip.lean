import ManycoreRuntime.DramStriping

/-! # Round trips between the two directions of the default map

The backward direction rebuilds the striped address of a slot. Where its classification of a
physical address agrees with the slots of the target's pod, the directions are inverse. -/
namespace NpaRoundTrip

open Fallible (bind_eq_ok)
open BitField
open Coordinate (Coord Errno)
open Configuration (Config Manycore Accepted)
open ConfigPod EvaToNpa NpaToEva DramTranslation
open DramStriping
open TileTranslation (IsTileEpa tileSegment isDram_iff)
open Machines (Machine)
open Striping (Layout Slot)

theorem or_topBit {v : ℕ} (h : v < 2 ^ 32) : v ||| 2 ^ 31 = 2 ^ 31 + v % 2 ^ 31 := by
  have hlow : v % 2 ^ 31 < 2 ^ 31 := Nat.mod_lt _ (by decide)
  have hor : v % 2 ^ 31 ||| 1 * 2 ^ 31 = v % 2 ^ 31 + 1 * 2 ^ 31 := or_fields 1 hlow
  rw [Nat.one_mul] at hor
  rcases Nat.lt_or_ge v (2 ^ 31) with hv | hv
  · rw [Nat.mod_eq_of_lt hv] at hor ⊢
    rw [hor, Nat.add_comm]
  · have hsplit : v = v % 2 ^ 31 ||| 2 ^ 31 := by
      rw [hor]
      omega
    calc v ||| 2 ^ 31 = (v % 2 ^ 31 ||| 2 ^ 31) ||| 2 ^ 31 := by rw [← hsplit]
      _ = v % 2 ^ 31 ||| 2 ^ 31 := by rw [Nat.or_assoc, Nat.or_self]
      _ = 2 ^ 31 + v % 2 ^ 31 := by rw [hor, Nat.add_comm]

theorem or_dramFields {s k low col south top : ℕ} (hf : s + k ≤ 30) (hlow : low < 2 ^ s)
    (hcol : col < 2 ^ k) (hsouth : south ≤ 1) :
    (low ||| col * 2 ^ s ||| south * 2 ^ (s + k) ||| top * 2 ^ (s + k + 1) % 2 ^ 32 |||
      2 ^ 31) =
    2 ^ 31 + (low + col * 2 ^ s + south * 2 ^ (s + k) +
      top % 2 ^ (30 - s - k) * 2 ^ (s + k + 1)) := by
  have h1 : low + col * 2 ^ s < 2 ^ (s + k) := by
    have hm := field_room s hcol
    rw [Nat.add_comm k] at hm
    omega
  have h2 : low + col * 2 ^ s + south * 2 ^ (s + k) < 2 ^ (s + k + 1) := by
    have hm := field_room (s + k) (show south < 2 ^ 1 by omega)
    rw [Nat.add_comm 1] at hm
    omega
  have hsplit : ∀ n, s + k + 1 ≤ n → top * 2 ^ (s + k + 1) % 2 ^ n =
      top % 2 ^ (n - (s + k + 1)) * 2 ^ (s + k + 1) := by
    intro n hn
    rw [← Nat.mul_mod_mul_right, ← pow_add, Nat.sub_add_cancel hn]
  have hroom : ∀ n, s + k + 1 ≤ n → top % 2 ^ (n - (s + k + 1)) * 2 ^ (s + k + 1) +
      2 ^ (s + k + 1) ≤ 2 ^ n := by
    intro n hn
    have hm := field_room (s + k + 1) (Nat.mod_lt top (Nat.two_pow_pos (n - (s + k + 1))))
    rw [Nat.sub_add_cancel hn] at hm
    exact hm
  have hlt : low + col * 2 ^ s + south * 2 ^ (s + k) + top * 2 ^ (s + k + 1) % 2 ^ 32 <
      2 ^ 32 := by
    have hm := hroom 32 (by omega)
    rw [← hsplit 32 (by omega)] at hm
    omega
  have hmod : (low + col * 2 ^ s + south * 2 ^ (s + k) + top * 2 ^ (s + k + 1) % 2 ^ 32) %
      2 ^ 31 = low + col * 2 ^ s + south * 2 ^ (s + k) +
        top % 2 ^ (30 - s - k) * 2 ^ (s + k + 1) := by
    have hd : (2 : ℕ) ^ 31 ∣ 2 ^ 32 := pow_dvd_pow 2 (by omega)
    have hm := hroom 31 (by omega)
    rw [Nat.add_mod, Nat.mod_mod_of_dvd _ hd, hsplit 31 (by omega)]
    rw [show 31 - (s + k + 1) = 30 - s - k by omega] at hm ⊢
    have hle := Nat.two_pow_pos (s + k + 1)
    rw [Nat.mod_eq_of_lt (show _ < 2 ^ 31 by omega), Nat.mod_eq_of_lt (by omega)]
  rw [or_fields col hlow, or_fields south h1, hsplit 32 (by omega), or_fields _ h2,
    ← hsplit 32 (by omega), or_topBit hlt, hmod]

/-- The slot that the backward direction rebuilds for a physical address. -/
def npaSlot (mc : Manycore) (k : ℕ) (tgt : Coord) (npa : Npa) : Slot where
  column := npa.x.toNat - (podVcoreOrigin mc.config (pod mc.config tgt)).x.toNat
  row := if isDramSouth mc.config npa.xy then 1 else 0
  offset := npa.epa.toNat % 2 ^ (30 - k)

def InColumns (mc : Manycore) (k : ℕ) (tgt : Coord) (npa : Npa) : Prop :=
  (podVcoreOrigin mc.config (pod mc.config tgt)).x.toNat ≤ npa.x.toNat ∧
  npa.x.toNat < (podVcoreOrigin mc.config (pod mc.config tgt)).x.toNat + 2 ^ k

theorem minX_origin (mc : Manycore) (tgt : Coord) :
    defaultDramMinXCoord mc.config (podVcoreOrigin mc.config (pod mc.config tgt)) =
      (podVcoreOrigin mc.config (pod mc.config tgt)).x := by
  rw [defaultDramMinXCoord, podVcoreOrigin_pod_origin]

section Backward

variable {mc : Manycore} {s k : ℕ} {tgt : Coord} {npa : Npa}

theorem npaSlot_inArray (h : InColumns mc k tgt npa) :
    (layout s k).InArray (npaSlot mc k tgt npa) := by
  obtain ⟨h1, h2⟩ := h
  refine ⟨?_, ?_⟩
  · change npa.x.toNat - _ < 2 ^ k
    omega
  · change (if _ then 1 else 0) < 2
    split <;> omega

theorem address_npaSlot (hf : s + k ≤ 30) :
    (layout s k).address (npaSlot mc k tgt npa) =
      npa.epa.toNat % 2 ^ s + (npaSlot mc k tgt npa).column * 2 ^ s +
        (npaSlot mc k tgt npa).row * 2 ^ (s + k) +
        npa.epa.toNat / 2 ^ s % 2 ^ (30 - s - k) * 2 ^ (s + k + 1) := by
  have hmod : npa.epa.toNat % 2 ^ (30 - k) % 2 ^ s = npa.epa.toNat % 2 ^ s :=
    Nat.mod_mod_of_dvd _ (pow_dvd_pow 2 (by omega))
  have hdiv : npa.epa.toNat % 2 ^ (30 - k) / 2 ^ s =
      npa.epa.toNat / 2 ^ s % 2 ^ (30 - s - k) := by
    rw [show 30 - k = s + (30 - s - k) by omega, pow_add, Nat.mod_mul_right_div_self]
  have ho : (npaSlot mc k tgt npa).offset = npa.epa.toNat % 2 ^ (30 - k) := rfl
  rw [Layout.address, ho]
  simp only [layout, hmod, hdiv]
  ring

theorem address_npaSlot_lt (hf : s + k ≤ 30) (h : InColumns mc k tgt npa) :
    (layout s k).address (npaSlot mc k tgt npa) < 2 ^ 31 := by
  rw [address_lt_dramBit hf (npaSlot_inArray h)]
  exact Nat.mod_lt _ (Nat.two_pow_pos _)

theorem lowField_toNat (h : Striped mc s k) :
    (npa.epa.toUInt64 &&& lowMask (defaultGetDramStripeSizeLog mc)).toUInt32.toNat =
      npa.epa.toNat % 2 ^ s := by
  have hs := h.stripe_bits
  have hlt := h.stripe_lt
  have := npa.epa.toNat_lt
  have := Nat.mod_le npa.epa.toNat (2 ^ s)
  rw [UInt64.toNat_toUInt32, and_lowMask (by omega), hs, UInt32.toNat_toUInt64]
  exact Nat.mod_eq_of_lt (by omega)

theorem columnField_toNat (h : Striped mc s k) (hf : s + k ≤ 30) (hc : InColumns mc k tgt npa) :
    ((npa.x - (podVcoreOrigin mc.config (pod mc.config tgt)).x) <<<
      defaultGetDramStripeSizeLog mc).toNat = (npaSlot mc k tgt npa).column * 2 ^ s := by
  have hs := h.stripe_bits
  have hlt := h.stripe_lt
  have hcol : (npaSlot mc k tgt npa).column < 2 ^ k := (npaSlot_inArray (s := s) hc).1
  have hm := Nat.mul_lt_mul_of_pos_right hcol (Nat.two_pow_pos s)
  have hle : 2 ^ k * 2 ^ s ≤ 2 ^ 30 := by
    rw [← pow_add]
    exact Nat.pow_le_pow_right (by omega) (by omega)
  have hsub : (npa.x - (podVcoreOrigin mc.config (pod mc.config tgt)).x).toNat =
      (npaSlot mc k tgt npa).column :=
    UInt32.toNat_sub_of_le _ _ (UInt32.le_iff_toNat_le.mpr hc.1)
  rw [shiftLeft_toNat (by omega), hs, hsub]
  exact Nat.mod_eq_of_lt (by omega)

theorem southField_toNat (h : Striped mc s k) (hf : s + k ≤ 30) :
    ((if isDramSouth mc.config npa.xy then (1 : UInt32) else 0) <<<
      (defaultGetDramStripeSizeLog mc + defaultGetXDimlog mc.config)).toNat =
      (npaSlot mc k tgt npa).row * 2 ^ (s + k) := by
  have hsk := h.shift_toNat
  have hrow : (npaSlot mc k tgt npa).row ≤ 1 := by
    change (if _ then 1 else 0) ≤ 1
    split <;> omega
  have hv : (if isDramSouth mc.config npa.xy then (1 : UInt32) else 0).toNat =
      (npaSlot mc k tgt npa).row := by
    change _ = if _ then 1 else 0
    split <;> rfl
  have hm := Nat.mul_le_mul_right (2 ^ (s + k)) hrow
  have hle : 2 ^ (s + k) ≤ 2 ^ 30 := Nat.pow_le_pow_right (by omega) hf
  rw [shiftLeft_toNat (by omega), hsk, hv]
  exact Nat.mod_eq_of_lt (by omega)

theorem topField_toNat (h : Striped mc s k) (hf : s + k ≤ 30) :
    ((npa.epa >>> defaultGetDramStripeSizeLog mc) <<<
      (defaultGetDramStripeSizeLog mc + defaultGetXDimlog mc.config + 1)).toNat =
      npa.epa.toNat / 2 ^ s * 2 ^ (s + k + 1) % 2 ^ 32 := by
  have hs := h.stripe_bits
  have hsk1 := h.shift_succ_toNat
  rw [shiftLeft_toNat (by omega), shiftRight_toNat (by omega), hs, hsk1]

/-- The backward direction gives the striped address of the rebuilt slot. -/
theorem npaToEvaDram_eq (h : Striped mc s k) (hf : s + k ≤ 30) (hc : InColumns mc k tgt npa) :
    defaultNpaToEvaDram mc tgt npa =
      .ok (UInt32.ofNat (2 ^ 31 + (layout s k).address (npaSlot mc k tgt npa)),
        wordLeft npa.epa) := by
  have hs := h.stripe_bits
  have hsk := h.shift_toNat
  have hsk1 := h.shift_succ_toNat
  have hin := npaSlot_inArray (s := s) hc
  have hrow : (npaSlot mc k tgt npa).row ≤ 1 := Nat.le_of_lt_succ hin.2
  have hfit : 2 ^ 31 + (layout s k).address (npaSlot mc k tgt npa) < 2 ^ 32 := by
    have := address_npaSlot_lt hf hc
    omega
  have hbit : ((1 : UInt32) <<< defaultDramBitidx).toNat = 2 ^ 31 := by decide
  have hshl : ∀ v amount : UInt32, amount.toNat < 32 → shl v amount = .ok (v <<< amount) :=
    fun v amount hlt => shl_eq_ok.mpr ⟨hlt, rfl⟩
  have hshr : shr npa.epa (defaultGetDramStripeSizeLog mc) =
      .ok (npa.epa >>> defaultGetDramStripeSizeLog mc) := shr_eq_ok.mpr ⟨by omega, rfl⟩
  unfold defaultNpaToEvaDram
  simp only [minX_origin, hshl _ _ (by omega : (defaultGetDramStripeSizeLog mc).toNat < 32),
    hshl _ _ (by omega : (defaultGetDramStripeSizeLog mc +
      defaultGetXDimlog mc.config).toNat < 32), hshr,
    hshl _ _ (by omega : (defaultGetDramStripeSizeLog mc +
      defaultGetXDimlog mc.config + 1).toNat < 32), bind, Except.bind, pure, Except.pure,
    Except.ok.injEq, Prod.mk.injEq, and_true]
  rw [← UInt32.toNat_inj, UInt32.toNat_or, UInt32.toNat_or, UInt32.toNat_or, UInt32.toNat_or,
    lowField_toNat h, columnField_toNat h hf hc, southField_toNat h hf, topField_toNat h hf, hbit,
    or_dramFields hf (Nat.mod_lt _ (Nat.two_pow_pos s)) hin.1 hrow, UInt32.toNat_ofNat',
    Nat.mod_eq_of_lt hfit, address_npaSlot hf]

theorem npaToEvaDram_eq_ok_fields (h : Striped mc s k) {r : UInt32 × ℕ}
    (hok : defaultNpaToEvaDram mc tgt npa = .ok r) : s + k ≤ 30 := by
  have hsk1 := h.shift_succ_toNat
  unfold defaultNpaToEvaDram at hok
  simp only [bind_eq_ok, shl_eq_ok, hsk1] at hok
  obtain ⟨-, -, -, -, -, -, -, ⟨hlt, -⟩, -⟩ := hok
  omega

theorem columns_of_isDram (h : Striped mc s k) (hd : defaultNpaIsDram mc npa tgt = true) :
    InColumns mc k tgt npa ∧
      (podVcoreOrigin mc.config (pod mc.config tgt)).x.toNat + 2 ^ k ≤ 2 ^ 32 := by
  simp only [defaultNpaIsDram, Bool.and_eq_true, decide_eq_true_eq, ge_iff_le,
    UInt32.le_iff_toNat_le] at hd
  obtain ⟨⟨-, hmin⟩, hmax⟩ := hd
  have hm := maxX_toNat (podVcoreOrigin mc.config (pod mc.config tgt)) h.columns_pos
  rw [minX_origin, h.columns] at hm
  rw [minX_origin] at hmin
  unfold InColumns
  omega

theorem globalRemote_toNat (npa : Npa) (he : npa.epa.toNat < 2 ^ 16) (hx : npa.x.toNat < 2 ^ 7)
    (hy : npa.y.toNat < 2 ^ 7) :
    (npa.epa ||| (npa.x <<< defaultGlobalXBitidx) ||| (npa.y <<< defaultGlobalYBitidx) |||
      (1 <<< defaultGlobalBitidx)).toNat =
      npa.epa.toNat + npa.x.toNat * 2 ^ 16 + npa.y.toNat * 2 ^ 23 + 1 * 2 ^ 30 := by
  have hxs : (npa.x <<< defaultGlobalXBitidx).toNat = npa.x.toNat * 2 ^ 16 := by
    rw [shiftLeft_toNat (by decide), show defaultGlobalXBitidx.toNat = 16 by decide]
    omega
  have hys : (npa.y <<< defaultGlobalYBitidx).toNat = npa.y.toNat * 2 ^ 23 := by
    rw [shiftLeft_toNat (by decide), show defaultGlobalYBitidx.toNat = 23 by decide]
    omega
  have hbit : ((1 : UInt32) <<< defaultGlobalBitidx).toNat = 1 * 2 ^ 30 := by decide
  rw [UInt32.toNat_or, UInt32.toNat_or, UInt32.toNat_or, hxs, hys, hbit, or_fields _ he,
    or_fields _ (show _ < 2 ^ 23 by omega), or_fields _ (show _ < 2 ^ 30 by omega)]

/-- The global address of a word of data memory translates back to that word. -/
theorem globalRemote_round_trip (he : npa.epa.toNat < 4096) (hx : npa.x.toNat < 2 ^ 7)
    (hy : npa.y.toNat < 2 ^ 7) {eva : UInt32} {sz : ℕ}
    (hok : defaultNpaToEvaGlobalRemote npa = .ok (eva, sz)) :
    ∃ sz', evaToNpa mc defaultMap tgt eva = .ok (npa, sz') := by
  simp only [defaultNpaToEvaGlobalRemote, Except.ok.injEq, Prod.mk.injEq] at hok
  obtain ⟨rfl, -⟩ := hok
  have hv := globalRemote_toNat npa (by omega) hx hy
  refine ⟨tileSegment npa.epa.toNat, ?_⟩
  rw [defaultMap, evaToNpa_origin, TileTranslation.evaToNpa_of_global (by omega),
    TileTranslation.evaToNpaGlobal_eq_ok, hv]
  have hm : (npa.epa.toNat + npa.x.toNat * 2 ^ 16 + npa.y.toNat * 2 ^ 23 + 1 * 2 ^ 30) % 2 ^ 16 =
      npa.epa.toNat := by omega
  rw [hm]
  exact ⟨Or.inl he, by omega, by omega, rfl, rfl⟩

theorem localEpaIsValid_iff {cfg : Config} {epa : UInt32} :
    defaultLocalEpaIsValid cfg epa = true ↔ epa.toNat < 4096 := by
  have hd : (tileEpaDmemBase + cfg.dmemSize).toNat = 4096 := by
    rw [Config.dmemSize, tileEpaDmemBase]
    decide
  have hb : tileEpaDmemBase.toNat = 0 := by decide
  simp only [defaultLocalEpaIsValid, Bool.and_eq_true, decide_eq_true_eq, ge_iff_le,
    UInt32.le_iff_toNat_le, UInt32.lt_iff_toNat_lt, hd, hb]
  omega

end Backward

/-- Data memory of a tile, as the backward direction classifies it. -/
def ClassifiedDmem (mc : Manycore) (tgt : Coord) (npa : Npa) : Prop :=
  defaultNpaIsDram mc npa tgt = false ∧ defaultNpaIsHost mc.config npa = false ∧
  (defaultNpaIsLocal mc.config npa tgt = true ∨ defaultNpaIsGlobal mc.config npa = true)

structure NamesSlot (mc : Manycore) (k : ℕ) (tgt : Coord) (npa : Npa) : Prop where
  row : npa.y = edgeY mc.config (pod mc.config tgt)
    (if isDramSouth mc.config npa.xy then 1 else 0)
  width : addrBits mc ≤ 31
  address : npa.epa.toNat < 2 ^ addrBits mc
  field : npa.epa.toNat < 2 ^ (30 - k)

section Soundness

variable {mc : Manycore} {s k : ℕ} {tgt : Coord} {npa : Npa} {eva : UInt32} {sz : ℕ}

theorem npaToEva_of_isDram (hd : defaultNpaIsDram mc npa tgt = true) :
    npaToEva mc defaultMap tgt npa = defaultNpaToEvaDram mc tgt npa := by
  rw [defaultMap, npaToEva_origin, defaultNpaToEva, if_pos hd]

theorem npaToEva_of_dmem (h : ClassifiedDmem mc tgt npa) :
    npaToEva mc defaultMap tgt npa = defaultNpaToEvaGlobalRemote npa := by
  obtain ⟨hd, hh, hl⟩ := h
  rw [defaultMap, npaToEva_origin, defaultNpaToEva, hd, hh]
  simp only [Bool.false_eq_true, if_false]
  by_cases hlocal : defaultNpaIsLocal mc.config npa tgt = true
  · rw [if_pos hlocal]
    rfl
  · rw [if_neg hlocal, if_pos (hl.resolve_left hlocal)]
    rfl

theorem dmem_epa_lt (h : ClassifiedDmem mc tgt npa) : npa.epa.toNat < 4096 := by
  obtain ⟨-, -, hl | hg⟩ := h
  · simp only [defaultNpaIsLocal, Bool.and_eq_true, localEpaIsValid_iff] at hl
    exact hl.2
  · simp only [defaultNpaIsGlobal, Bool.and_eq_true, localEpaIsValid_iff] at hg
    exact hg.2

theorem dram_round_trip_iff (h : Striped mc s k) (hd : defaultNpaIsDram mc npa tgt = true)
    (hok : defaultNpaToEvaDram mc tgt npa = .ok (eva, sz)) :
    (∃ sz', evaToNpa mc defaultMap tgt eva = .ok (npa, sz')) ↔ NamesSlot mc k tgt npa := by
  have hf := npaToEvaDram_eq_ok_fields h hok
  obtain ⟨hc, hroom⟩ := columns_of_isDram h hd
  obtain ⟨hde, hslot⟩ := slot_ofNat (address_npaSlot_lt hf hc) (npaSlot_inArray hc)
  rw [npaToEvaDram_eq h hf hc, Except.ok.injEq, Prod.mk.injEq] at hok
  obtain ⟨rfl, -⟩ := hok
  have hoff : (npaSlot mc k tgt npa).offset = npa.epa.toNat % 2 ^ (30 - k) := rfl
  have hcol : (npaSlot mc k tgt npa).column =
      npa.x.toNat - (podVcoreOrigin mc.config (pod mc.config tgt)).x.toNat := rfl
  simp only [evaToNpa_slot h hf hde, hslot, hoff, hcol]
  constructor
  · rintro ⟨-, hw, -, ha, -, hy, he, -⟩
    rw [← he] at ha
    exact ⟨hy, hw, ha, by rw [he]; exact Nat.mod_lt _ (Nat.two_pow_pos _)⟩
  · rintro ⟨hy, hw, ha, hfield⟩
    rw [Nat.mod_eq_of_lt hfield]
    have := hc.1
    exact ⟨_, hw, hroom, ha, by omega, hy, rfl, rfl⟩

/-- The backward direction is sound exactly on the addresses that name a slot of the
target's pod; data memory always comes back. -/
theorem npaToEva_sound_iff (h : Striped mc s k) (hx : npa.x.toNat < 2 ^ 7)
    (hy : npa.y.toNat < 2 ^ 7)
    (hclass : defaultNpaIsDram mc npa tgt = true ∨ ClassifiedDmem mc tgt npa)
    (hok : npaToEva mc defaultMap tgt npa = .ok (eva, sz)) :
    (∃ sz', evaToNpa mc defaultMap tgt eva = .ok (npa, sz')) ↔
      (defaultNpaIsDram mc npa tgt = true → NamesSlot mc k tgt npa) := by
  rcases hclass with hd | hm
  · rw [npaToEva_of_isDram hd] at hok
    rw [dram_round_trip_iff h hd hok]
    exact ⟨fun hn _ => hn, fun hn => hn hd⟩
  · rw [npaToEva_of_dmem hm] at hok
    refine ⟨fun _ hd => ?_, fun _ => globalRemote_round_trip (dmem_epa_lt hm) hx hy hok⟩
    rw [hm.1] at hd
    cases hd

end Soundness

/-- A word of the first cache north of the only pod. -/
theorem npaToEva_sound_x16y8 :
    (∃ sz', evaToNpa ⟨({} : Machine).config, true⟩ defaultMap ⟨16, 8⟩ 0x80002080 =
      .ok (⟨17, 7, 0x100⟩, sz')) ↔
      (defaultNpaIsDram ⟨({} : Machine).config, true⟩ ⟨17, 7, 0x100⟩ ⟨16, 8⟩ = true →
        NamesSlot ⟨({} : Machine).config, true⟩ 4 ⟨16, 8⟩ ⟨17, 7, 0x100⟩) :=
  npaToEva_sound_iff (s := 7) ⟨by decide, by decide⟩ (by decide) (by decide)
    (Or.inl (by decide)) (show npaToEva _ _ _ _ = .ok (0x80002080, 4) by decide)

/-- A cache of the next pod down is taken for the target's own, and an address past the end
of a bank for its beginning. -/
theorem npaToEva_sound_fails :
    (∃ mc s k p tgt npa eva sz, Accepted mc.config ∧ Striped mc s k ∧
      mc.config.nocCoordWidth.x ≤ 7 ∧ mc.config.nocCoordWidth.y ≤ 7 ∧ IsPod mc.config p ∧
      IsTile mc.config p tgt ∧ defaultNpaIsDram mc npa tgt = true ∧ npa.epa = 0 ∧
      npaToEva mc defaultMap tgt npa = .ok (eva, sz) ∧
      ¬ ∃ sz', evaToNpa mc defaultMap tgt eva = .ok (npa, sz')) ∧
    (∃ mc s k p tgt npa eva sz, Accepted mc.config ∧ Striped mc s k ∧
      mc.config.nocCoordWidth.x ≤ 7 ∧ mc.config.nocCoordWidth.y ≤ 7 ∧ IsPod mc.config p ∧
      IsTile mc.config p tgt ∧ defaultNpaIsDram mc npa tgt = true ∧
      npa.y = podDramNorthY mc.config p ∧
      npaToEva mc defaultMap tgt npa = .ok (eva, sz) ∧
      ¬ ∃ sz', evaToNpa mc defaultMap tgt eva = .ok (npa, sz')) := by
  constructor
  · refine ⟨⟨({ podsX := 2, podsY := 2, dramChannels := 8 } : Machine).config, true⟩, 7, 4,
      ⟨0, 0⟩, ⟨16, 8⟩, ⟨16, 23, 0⟩, 0x80000000, 4, Machine.config_accepted _ (by decide),
      ⟨by decide, by decide⟩, by decide, by decide, by decide, by decide, by decide, rfl,
      by decide, ?_⟩
    rintro ⟨sz', ht⟩
    have hok : evaToNpa ⟨({ podsX := 2, podsY := 2, dramChannels := 8 } : Machine).config, true⟩
        defaultMap ⟨16, 8⟩ 0x80000000 = .ok (⟨16, 7, 0⟩, 128) := by decide
    rw [hok] at ht
    simp at ht
  · refine ⟨⟨({} : Machine).config, true⟩, 7, 4, ⟨0, 0⟩, ⟨16, 8⟩, ⟨16, 7, 0x4000000⟩,
      0x80000000, 4, Machine.config_accepted _ (by decide), ⟨by decide, by decide⟩, by decide,
      by decide, by decide, by decide, by decide, by decide, by decide, ?_⟩
    rintro ⟨sz', ht⟩
    have hok : evaToNpa ⟨({} : Machine).config, true⟩ defaultMap ⟨16, 8⟩ 0x80000000 =
        .ok (⟨16, 7, 0⟩, 128) := by decide
    rw [hok] at ht
    simp at ht

section Completeness

variable {mc : Manycore} {s k : ℕ} {src : Coord} {eva : UInt32} {npa : Npa} {sz : ℕ}

/-- A pod as high as the tile field, with caches of its own in the rows around it. -/
structure EdgesClear (cfg : Config) (p : Coord) : Prop where
  height : cfg.podShape.y.toNat = 2 ^ tileBitsY cfg
  bits : 1 ≤ tileBitsY cfg
  host : podDramSouthY cfg p ≠ cfg.hostInterface.y

theorem northRow_class {cfg : Config} {p co : Coord} (hb : 1 ≤ tileBitsY cfg)
    (hy : co.y = podDramNorthY cfg p) :
    isDramNorth cfg co = true ∧ isDramSouth cfg co = false := by
  obtain ⟨q, hq, hodd⟩ := origin_y_aligned cfg p
  have hpos := origin_y_pos cfg p
  have hlt := (podVcoreOrigin cfg p).y.toNat_lt
  have hval : co.y.toNat = 2 ^ tileBitsY cfg * (q - 1) + (2 ^ tileBitsY cfg - 1) := by
    have h1 : co.y.toNat = (podVcoreOrigin cfg p).y.toNat - 1 := by
      rw [hy, podDramNorthY, UInt32.toNat_sub]
      simp only [UInt32.reduceToNat]
      omega
    have h2 : 2 ^ tileBitsY cfg * q = 2 ^ tileBitsY cfg * (q - 1) + 2 ^ tileBitsY cfg := by
      rw [← Nat.mul_succ]
      congr 1
      omega
    have := Nat.two_pow_pos (tileBitsY cfg)
    omega
  have hmask : 2 ^ tileBitsY cfg - 1 < 2 ^ tileBitsY cfg :=
    Nat.sub_lt (Nat.two_pow_pos _) (by omega)
  have hmod : co.y.toNat % 2 ^ tileBitsY cfg = 2 ^ tileBitsY cfg - 1 := by
    rw [hval, Nat.mul_add_mod, Nat.mod_eq_of_lt hmask]
  have hdiv : co.y.toNat / 2 ^ tileBitsY cfg = q - 1 := by
    rw [hval, Nat.mul_add_div (Nat.two_pow_pos _), Nat.div_eq_of_lt hmask, Nat.add_zero]
  have htwo : 2 ^ 1 ≤ 2 ^ tileBitsY cfg := Nat.pow_le_pow_right (by omega) hb
  constructor
  · rw [isDramNorth_iff, hmod, hdiv]
    exact ⟨rfl, by omega⟩
  · rw [← Bool.not_eq_true, isDramSouth_iff, hmod]
    rintro ⟨hz, -⟩
    omega

theorem southRow_class {cfg : Config} {p co : Coord} (h : EdgesClear cfg p)
    (hy : co.y = podDramSouthY cfg p) : isDramSouth cfg co = true := by
  obtain ⟨q, hq, hodd⟩ := origin_y_aligned cfg p
  have hb := tileBitsY_lt cfg
  have h32 : 2 ^ 32 = 2 ^ tileBitsY cfg * 2 ^ (32 - tileBitsY cfg) := by
    rw [← pow_add, Nat.add_sub_cancel' hb.le]
  have hval : co.y.toNat = 2 ^ tileBitsY cfg * ((q + 1) % 2 ^ (32 - tileBitsY cfg)) := by
    rw [hy, podDramSouthY, UInt32.toNat_add, hq, h.height, h32, ← Nat.mul_succ,
      Nat.mul_mod_mul_left]
  have heven : (q + 1) % 2 ^ (32 - tileBitsY cfg) % 2 = 0 := by
    have h2 : (2 : ℕ) ∣ 2 ^ (32 - tileBitsY cfg) := dvd_pow_self 2 (by omega)
    rw [Nat.mod_mod_of_dvd _ h2]
    omega
  rw [isDramSouth_iff, hval, Nat.mul_mod_right, Nat.mul_div_cancel_left _ (Nat.two_pow_pos _)]
  exact ⟨rfl, heven, by rw [hy]; exact h.host⟩

theorem edgeRow_class {p : Coord} (co : Coord) {row : ℕ} (h : EdgesClear mc.config p)
    (hrow : row < 2) (hy : co.y = edgeY mc.config p row) :
    isDram mc.config co = true ∧ (if isDramSouth mc.config co then 1 else 0) = row := by
  by_cases h1 : row = 1
  · rw [edgeY, if_pos h1] at hy
    have hs := southRow_class h hy
    simp [isDram, hs, h1]
  · rw [edgeY, if_neg h1] at hy
    obtain ⟨hn, hs⟩ := northRow_class h.bits hy
    simp only [isDram, hn, hs, Bool.true_or, Bool.false_eq_true, if_false, true_and]
    omega

theorem dram_round_trip (h : Striped mc s k) (hf : s + k ≤ 30)
    (he : EdgesClear mc.config (pod mc.config src)) (hd : defaultEvaIsDram eva = true)
    (ht : evaToNpa mc defaultMap src eva = .ok (npa, sz))
    (hv : defaultDramEpaIsValid mc npa.epa = true) :
    npaToEva mc defaultMap src npa = .ok (eva, wordLeft npa.epa) := by
  have hin : (layout s k).InArray (slot s k eva) := (layout s k).locate_inArray _
  rw [evaToNpa_slot h hf hd] at ht
  obtain ⟨-, hroom, -, hx, hy, hepa, -⟩ := ht
  obtain ⟨hdram, hrow⟩ := edgeRow_class npa.xy he hin.2 hy
  have hcol : (slot s k eva).column < 2 ^ k := hin.1
  have hc : InColumns mc k src npa := ⟨by omega, by omega⟩
  have hclass : defaultNpaIsDram mc npa src = true := by
    have hm := maxX_toNat (podVcoreOrigin mc.config (pod mc.config src)) h.columns_pos
    rw [minX_origin, h.columns] at hm
    simp only [defaultNpaIsDram, hdram, hv, minX_origin, ge_iff_le, UInt32.le_iff_toNat_le,
      Bool.and_eq_true, decide_eq_true_eq, true_and]
    omega
  have hoff : npa.epa.toNat % 2 ^ (30 - k) = npa.epa.toNat := by
    apply Nat.mod_eq_of_lt
    rw [hepa, ← address_lt_dramBit hf hin, slot, Layout.address_locate]
    exact Nat.mod_lt _ (by decide)
  have hslot : npaSlot mc k src npa = slot s k eva := by
    rw [npaSlot, hrow, hoff, hepa, hx, Nat.add_sub_cancel_left]
  rw [npaToEva_of_isDram hclass, npaToEvaDram_eq h hf hc, hslot]
  rw [isDram_iff] at hd
  rw [address_slot eva hd, UInt32.ofNat_toNat]

theorem global_round_trip {npa : Npa} (hg : eva.toNat / 2 ^ 30 = 1)
    (ht : evaToNpa mc defaultMap src eva = .ok (npa, sz))
    (hv : isVanillaCore mc.config npa.xy = true) (he : npa.epa.toNat < 4096) :
    ∃ eva' sz', npaToEva mc defaultMap src npa = .ok (eva', sz') ∧
      ∃ sz'', evaToNpa mc defaultMap src eva' = .ok (npa, sz'') := by
  rw [defaultMap, evaToNpa_origin, TileTranslation.evaToNpa_of_global hg,
    TileTranslation.evaToNpaGlobal_eq_ok] at ht
  obtain ⟨-, hx, hy, -, -⟩ := ht
  have hnd : defaultNpaIsDram mc npa src = false := by
    rw [isVanillaCore_iff] at hv
    have hnorth : isDramNorth mc.config npa.xy = false := by
      rw [← Bool.not_eq_true, isDramNorth_iff]
      omega
    have hsouth : isDramSouth mc.config npa.xy = false := by
      rw [← Bool.not_eq_true, isDramSouth_iff]
      omega
    simp [defaultNpaIsDram, isDram, hnorth, hsouth]
  have hgl : defaultNpaIsGlobal mc.config npa = true := by
    rw [defaultNpaIsGlobal, hv, Bool.true_and, localEpaIsValid_iff]
    exact he
  have hmap : npaToEva mc defaultMap src npa = defaultNpaToEvaGlobalRemote npa := by
    rw [defaultMap, npaToEva_origin, defaultNpaToEva, hnd, hgl]
    simp only [Bool.false_eq_true, if_false, if_true, defaultNpaToEvaHost, defaultNpaToEvaLocal,
      defaultNpaToEvaGlobal, ite_self]
  refine ⟨_, _, hmap, globalRemote_round_trip he ?_ ?_ rfl⟩
  · rw [hx]
    exact Nat.mod_lt _ (by decide)
  · rw [hy]
    exact Nat.mod_lt _ (by decide)

end Completeness

/-- An address that translates is mapped back to itself. -/
def MapsBack (mc : Manycore) (src : Coord) (eva : UInt32) : Prop :=
  ∀ npa sz, evaToNpa mc defaultMap src eva = .ok (npa, sz) →
    ∃ sz', npaToEva mc defaultMap src npa = .ok (eva, sz')

/-- Every DRAM address that translates to an offset within the backward bound is mapped back,
and so is every global address of a core's data memory. -/
theorem npaToEva_complete (mc : Manycore) (src : Coord) :
    (∀ s k p, Striped mc s k → s + k ≤ 30 → EdgesClear mc.config p → IsTile mc.config p src →
      ∀ eva npa sz, defaultEvaIsDram eva = true →
        evaToNpa mc defaultMap src eva = .ok (npa, sz) →
        defaultDramEpaIsValid mc npa.epa = true → MapsBack mc src eva) ∧
    (∀ eva npa sz, defaultEvaIsDram eva = false → defaultEvaIsGlobal eva = true →
      evaToNpa mc defaultMap src eva = .ok (npa, sz) →
      isVanillaCore mc.config npa.xy = true → npa.epa < mc.config.dmemSize →
      ∃ eva' sz', npaToEva mc defaultMap src npa = .ok (eva', sz') ∧
        ∃ sz'', evaToNpa mc defaultMap src eva' = .ok (npa, sz'')) := by
  constructor
  · intro s k p h hf he hsrc eva npa sz hd ht hv npa' sz₁ ht'
    have hy := podVcoreOrigin_y_of_isTile mc.config he.height.le hsrc
    have he' : EdgesClear mc.config (pod mc.config src) := by
      refine ⟨he.height, he.bits, ?_⟩
      rw [podDramSouthY, hy]
      exact he.host
    rw [ht, Except.ok.injEq, Prod.mk.injEq] at ht'
    obtain ⟨rfl, rfl⟩ := ht'
    exact ⟨_, dram_round_trip h hf he' hd ht hv⟩
  · intro eva npa sz hd hg ht hv he
    have hlt := eva.toNat_lt
    rw [← Bool.not_eq_true, isDram_iff] at hd
    rw [TileTranslation.isGlobal_iff] at hg
    exact global_round_trip (by omega) ht hv (UInt32.lt_iff_toNat_lt.mp he)

/-- The last word that a pod's first southern cache holds, on the single-pod machine. -/
theorem npaToEva_complete_x16y8 :
    MapsBack ⟨({} : Machine).config, true⟩ ⟨16, 8⟩ 0xFFFFF87C ∧
    ∃ eva' sz', npaToEva ⟨({} : Machine).config, true⟩ defaultMap ⟨16, 8⟩ ⟨17, 9, 0x40⟩ =
      .ok (eva', sz') ∧ ∃ sz'', evaToNpa ⟨({} : Machine).config, true⟩ defaultMap ⟨16, 8⟩ eva' =
        .ok (⟨17, 9, 0x40⟩, sz'') :=
  ⟨(npaToEva_complete _ _).1 7 4 ⟨0, 0⟩ ⟨by decide, by decide⟩ (by omega)
      ⟨by decide, by decide, by decide⟩ (by decide) 0xFFFFF87C ⟨16, 16, 0x3FFFFFC⟩ 4 (by decide)
      (by decide) (by decide),
    (npaToEva_complete _ _).2 0x44910040 ⟨17, 9, 0x40⟩ 4032 (by decide) (by decide) (by decide)
      (by decide) (by decide)⟩

def OneWay (m : Machine) (dram : Bool) (src : Coord) (eva : UInt32) : Prop :=
  Accepted m.config ∧ (∃ s k, Striped ⟨m.config, dram⟩ s k) ∧ IsPod m.config ⟨0, 0⟩ ∧
  IsTile m.config ⟨0, 0⟩ src ∧ defaultEvaIsDram eva = true ∧ ¬ MapsBack ⟨m.config, dram⟩ src eva

private theorem not_mapsBack {mc : Manycore} {src : Coord} {eva : UInt32} (npa : Npa) (sz : ℕ)
    (ht : evaToNpa mc defaultMap src eva = .ok (npa, sz))
    (hn : (npaToEva mc defaultMap src npa).map Prod.fst ≠ .ok eva) : ¬ MapsBack mc src eva := by
  intro h
  obtain ⟨sz', hb⟩ := h npa sz ht
  rw [hb] at hn
  exact hn rfl

/-- What stops an address from coming back, one machine for each condition: an offset past
all of DRAM, an offset past a cache that is no power of two in size, a pod lower than its tile
field, a tile field without bits, caches in the host's row, and stripes that leave no bit for
the edge. -/
theorem npaToEva_complete_fails :
    OneWay { dramBankWords := 0x400 } true ⟨16, 8⟩ 0x80400000 ∧
    OneWay { vcacheWay := 6 } false ⟨16, 8⟩ 0x80180000 ∧
    OneWay { podTilesY := 4 } true ⟨16, 8⟩ 0x80000800 ∧
    OneWay { nocCoordYWidth := 4, podTilesY := 1, hostCoordY := 5 } true ⟨16, 1⟩ 0x80000000 ∧
    OneWay { hostCoordY := 16 } true ⟨16, 8⟩ 0x80000800 ∧
    OneWay { vcacheStripeWords := 0x2000000 } true ⟨16, 8⟩ 0x80000000 :=
  ⟨⟨Machine.config_accepted _ (by decide), ⟨7, 4, by decide, by decide⟩, by decide, by decide,
      by decide, not_mapsBack ⟨16, 7, 0x20000⟩ 128 (by decide) (by decide)⟩,
    ⟨Machine.config_accepted _ (by decide), ⟨7, 4, by decide, by decide⟩, by decide, by decide,
      by decide, not_mapsBack ⟨16, 7, 0xC000⟩ 128 (by decide) (by decide)⟩,
    ⟨Machine.config_accepted _ (by decide), ⟨7, 4, by decide, by decide⟩, by decide, by decide,
      by decide, not_mapsBack ⟨16, 12, 0⟩ 128 (by decide) (by decide)⟩,
    ⟨Machine.config_accepted _ (by decide), ⟨7, 4, by decide, by decide⟩, by decide, by decide,
      by decide, not_mapsBack ⟨16, 0, 0⟩ 128 (by decide) (by decide)⟩,
    ⟨Machine.config_accepted _ (by decide), ⟨7, 4, by decide, by decide⟩, by decide, by decide,
      by decide, not_mapsBack ⟨16, 16, 0⟩ 128 (by decide) (by decide)⟩,
    ⟨Machine.config_accepted _ (by decide), ⟨27, 4, by decide, by decide⟩, by decide, by decide,
      by decide, not_mapsBack ⟨16, 16, 0⟩ 134217728 (by decide) (by decide)⟩⟩

end NpaRoundTrip
