import ManycoreRuntime.TileTranslation

/-! # Striping of a pod's DRAM over its caches

The default map is the striped memory whose columns are the pod's columns and whose two rows
are the caches north and south of the pod. -/
namespace DramStriping

open BitField
open Coordinate (Coord)
open Configuration (Config Manycore Accepted)
open ConfigPod EvaToNpa DramTranslation
open NpaToEva (evaToNpa defaultMap)
open TileTranslation (isDram_iff)
open Machines (Machine)
open Striping (Layout Slot)

/-- The caches of a pod lie along its columns, north and south of it. -/
def OwnCache (cfg : Config) (p co : Coord) : Prop :=
  (podVcoreOrigin cfg p).x.toNat ≤ co.x.toNat ∧
  co.x.toNat < (podVcoreOrigin cfg p).x.toNat + cfg.podShape.x.toNat ∧
  (co.y = podDramNorthY cfg p ∨ co.y = podDramSouthY cfg p)

instance (cfg : Config) (p co : Coord) : Decidable (OwnCache cfg p co) :=
  inferInstanceAs (Decidable (_ ≤ _ ∧ _ < _ ∧ (_ ∨ _)))

/-- The DRAM addresses of a pod are dealt one-to-one to its own caches. -/
structure StripesPod (mc : Manycore) (p : Coord) : Prop where
  injective : ∀ src src' eva eva' npa sz sz', IsTile mc.config p src →
    IsTile mc.config p src' → defaultEvaIsDram eva = true → defaultEvaIsDram eva' = true →
    evaToNpa mc defaultMap src eva = .ok (npa, sz) →
    evaToNpa mc defaultMap src' eva' = .ok (npa, sz') → eva = eva'
  ownCache : ∀ src eva npa sz, IsTile mc.config p src → defaultEvaIsDram eva = true →
    evaToNpa mc defaultMap src eva = .ok (npa, sz) → OwnCache mc.config p npa.xy
  uniform : ∀ src src' eva, IsTile mc.config p src → IsTile mc.config p src' →
    defaultEvaIsDram eva = true →
    evaToNpa mc defaultMap src eva = evaToNpa mc defaultMap src' eva
  onto : ∀ co (epa : UInt32), OwnCache mc.config p co →
    epa.toNat < min (2 ^ addrBits mc) (2 ^ (30 - Nat.log 2 mc.config.podShape.x.toNat)) →
    ∃ eva, defaultEvaIsDram eva = true ∧ ∀ src, IsTile mc.config p src →
      ∃ sz, evaToNpa mc defaultMap src eva = .ok (⟨co.x, co.y, epa⟩, sz)

theorem evaToNpa_of_isDram {mc : Manycore} {src : Coord} {eva : UInt32}
    (h : defaultEvaIsDram eva = true) :
    evaToNpa mc defaultMap src eva = defaultEvaToNpaDram mc src eva := by
  rw [defaultMap, NpaToEva.evaToNpa_origin, defaultEvaToNpa, if_pos h]

def layout (s k : ℕ) : Layout where
  stripe := 2 ^ s
  columns := 2 ^ k
  rows := 2
  stripe_pos := Nat.two_pow_pos s
  columns_pos := Nat.two_pow_pos k
  rows_pos := by decide

/-- The slot that a DRAM address names, once its DRAM bit is cleared. -/
def slot (s k : ℕ) (eva : UInt32) : Slot := (layout s k).locate (eva.toNat % 2 ^ 31)

section Slot

variable {s k : ℕ} (eva : UInt32)

theorem slot_column (h : s + k ≤ 31) : (slot s k eva).column = eva.toNat / 2 ^ s % 2 ^ k :=
  field_mod h

theorem slot_row (h : s + k ≤ 30) : (slot s k eva).row = eva.toNat / 2 ^ (s + k) % 2 := by
  have hf : eva.toNat % 2 ^ 31 / 2 ^ (s + k) % 2 ^ 1 = eva.toNat / 2 ^ (s + k) % 2 ^ 1 :=
    field_mod (by omega)
  rw [pow_one, pow_add, ← Nat.div_div_eq_div_mul, ← pow_add] at hf
  exact hf

theorem slot_offset (h : s + k ≤ 31) : (slot s k eva).offset = bankOffset s k eva.toNat := by
  have hm : eva.toNat % 2 ^ 31 % 2 ^ s = eva.toNat % 2 ^ s :=
    Nat.mod_mod_of_dvd _ (pow_dvd_pow 2 (by omega))
  have hq : eva.toNat % 2 ^ 31 / 2 ^ s / 2 ^ k / 2 = eva.toNat % 2 ^ 31 / 2 ^ (s + k + 1) := by
    have hp : 2 ^ s * (2 ^ k * 2) = 2 ^ (s + k + 1) := by ring
    rw [Nat.div_div_eq_div_mul, Nat.div_div_eq_div_mul, hp]
  simp only [slot, layout, Layout.locate, bankOffset, hm, hq]
  ring

theorem address_slot (h : 2 ^ 31 ≤ eva.toNat) :
    2 ^ 31 + (layout s k).address (slot s k eva) = eva.toNat := by
  have := eva.toNat_lt
  rw [slot, Layout.address_locate]
  omega

theorem slot_ofNat {b : Slot} (hlt : (layout s k).address b < 2 ^ 31)
    (hin : (layout s k).InArray b) :
    defaultEvaIsDram (UInt32.ofNat (2 ^ 31 + (layout s k).address b)) = true ∧
      slot s k (UInt32.ofNat (2 ^ 31 + (layout s k).address b)) = b := by
  have hval : (UInt32.ofNat (2 ^ 31 + (layout s k).address b)).toNat =
      2 ^ 31 + (layout s k).address b := by
    rw [UInt32.toNat_ofNat']
    omega
  refine ⟨?_, ?_⟩
  · rw [isDram_iff, hval]
    omega
  · rw [slot, hval, Nat.add_mod_left, Nat.mod_eq_of_lt hlt, Layout.locate_address _ hin]

theorem band_mul (h : s + k ≤ 30) : (layout s k).band * 2 ^ (30 - s - k) = 2 ^ 31 := by
  simp only [layout, Layout.band]
  rw [← pow_add, ← pow_succ, ← pow_add]
  congr 1
  omega

theorem address_lt_dramBit (h : s + k ≤ 30) {b : Slot} (hin : (layout s k).InArray b) :
    (layout s k).address b < 2 ^ 31 ↔ b.offset < 2 ^ (30 - k) := by
  have hstripe : (layout s k).stripe * 2 ^ (30 - s - k) = 2 ^ (30 - k) := by
    simp only [layout]
    rw [← pow_add]
    congr 1
    omega
  rw [← band_mul h, Layout.address_lt_band _ hin, hstripe]

end Slot

def edgeY (cfg : Config) (p : Coord) (row : ℕ) : UInt32 :=
  if row = 1 then podDramSouthY cfg p else podDramNorthY cfg p

theorem edgeY_congr {cfg : Config} {p q : Coord}
    (h : podVcoreOrigin cfg p = podVcoreOrigin cfg q) (row : ℕ) :
    edgeY cfg p row = edgeY cfg q row := by
  simp only [edgeY, podDramSouthY, podDramNorthY, h]

/-- A DRAM address translates to the slot that it names, in the pod of its source. -/
theorem evaToNpa_slot {mc : Manycore} {s k : ℕ} {src : Coord} {eva : UInt32}
    (h : Striped mc s k) (hf : s + k ≤ 30) (hd : defaultEvaIsDram eva = true)
    {npa : Npa} {sz : ℕ} :
    evaToNpa mc defaultMap src eva = .ok (npa, sz) ↔
      addrBits mc ≤ 31 ∧
      (podVcoreOrigin mc.config (pod mc.config src)).x.toNat + 2 ^ k ≤ 2 ^ 32 ∧
      (slot s k eva).offset < 2 ^ addrBits mc ∧
      npa.x.toNat = (podVcoreOrigin mc.config (pod mc.config src)).x.toNat +
        (slot s k eva).column ∧
      npa.y = edgeY mc.config (pod mc.config src) (slot s k eva).row ∧
      npa.epa.toNat = (slot s k eva).offset ∧ sz = 2 ^ s - eva.toNat % 2 ^ s := by
  rw [evaToNpa_of_isDram hd, evaToNpaDram_eq_ok h, slot_column eva (hf.trans (by decide)),
    slot_row eva hf, slot_offset eva (hf.trans (by decide)), defaultDramMinXCoord, edgeY]
  constructor
  · rintro ⟨-, ha, hr, hoff, hx, hy, he, hs⟩
    exact ⟨ha, hr, hoff, hx, hy, he, hs⟩
  · rintro ⟨ha, hr, hoff, hx, hy, he, hs⟩
    exact ⟨by omega, ha, hr, hoff, hx, hy, he, hs⟩

theorem origin_x_room (cfg : Config) (p : Coord) (h : cfg.podShape.x.toNat ≤ 2 ^ tileBitsX cfg) :
    (podVcoreOrigin cfg p).x.toNat + cfg.podShape.x.toNat ≤ 2 ^ 32 := by
  obtain ⟨q, hq⟩ := origin_x_aligned cfg p
  have hb := tileBitsX_lt cfg
  have h32 : 2 ^ 32 = 2 ^ tileBitsX cfg * 2 ^ (32 - tileBitsX cfg) := by
    rw [← pow_add, Nat.add_sub_cancel' hb.le]
  have hlt := (podVcoreOrigin cfg p).x.toNat_lt
  rw [hq, h32] at hlt
  have hq1 : q + 1 ≤ 2 ^ (32 - tileBitsX cfg) := Nat.lt_of_mul_lt_mul_left hlt
  have hm := Nat.mul_le_mul_left (2 ^ tileBitsX cfg) hq1
  rw [Nat.mul_add, Nat.mul_one, ← hq, ← h32] at hm
  omega

/-- The conditions under which the address fields fit below the DRAM bit and the pods do
not overlap. -/
structure Regular (mc : Manycore) (s k : ℕ) : Prop extends Striped mc s k where
  fields : s + k ≤ 30
  width : addrBits mc ≤ 31
  shape : ShapeFits mc.config

section Regular

variable {mc : Manycore} {s k : ℕ} {p src : Coord} {eva : UInt32}

theorem evaToNpa_eq_ok (h : Regular mc s k) (hsrc : IsTile mc.config p src)
    (hd : defaultEvaIsDram eva = true) {npa : Npa} {sz : ℕ} :
    evaToNpa mc defaultMap src eva = .ok (npa, sz) ↔
      (slot s k eva).offset < 2 ^ addrBits mc ∧
      npa.x.toNat = (podVcoreOrigin mc.config p).x.toNat + (slot s k eva).column ∧
      npa.y = edgeY mc.config p (slot s k eva).row ∧
      npa.epa.toNat = (slot s k eva).offset ∧ sz = 2 ^ s - eva.toNat % 2 ^ s := by
  have ho := podVcoreOrigin_pod_of_isTile mc.config h.shape hsrc
  have hroom := origin_x_room mc.config p h.shape.x
  have hc := h.columns
  have hf := h.fields
  rw [evaToNpa_slot h.toStriped hf hd, ho, edgeY_congr ho]
  constructor
  · rintro ⟨-, -, hoff, hx, hy, he, hs⟩
    exact ⟨hoff, hx, hy, he, hs⟩
  · rintro ⟨hoff, hx, hy, he, hs⟩
    exact ⟨h.width, by omega, hoff, hx, hy, he, hs⟩

theorem translated_uniform (h : Regular mc s k) {src' : Coord} (hsrc : IsTile mc.config p src)
    (hsrc' : IsTile mc.config p src') (hd : defaultEvaIsDram eva = true) :
    evaToNpa mc defaultMap src eva = evaToNpa mc defaultMap src' eva := by
  have ho := podVcoreOrigin_pod_of_isTile mc.config h.shape hsrc
  have ho' := podVcoreOrigin_pod_of_isTile mc.config h.shape hsrc'
  rw [evaToNpa_of_isDram hd, evaToNpa_of_isDram hd]
  simp only [defaultEvaToNpaDram, defaultEvaGetXCoordDram, defaultEvaGetYCoordDram,
    defaultDramMaxXCoord, defaultDramMinXCoord, podDramSouthY, podDramNorthY, ho, ho']

theorem northY_ne_southY (h : mc.config.podShape.y.toNat ≤ 2 ^ 31) (p : Coord) :
    podDramNorthY mc.config p ≠ podDramSouthY mc.config p := by
  have hy := (podVcoreOrigin mc.config p).y.toNat_lt
  rw [podDramNorthY, podDramSouthY, ne_eq, ← UInt32.toNat_inj, UInt32.toNat_sub,
    UInt32.toNat_add]
  simp only [UInt32.reduceToNat]
  omega

theorem Regular.podShapeY_le (h : Regular mc s k) : mc.config.podShape.y.toNat ≤ 2 ^ 31 :=
  h.shape.y.trans
    (Nat.pow_le_pow_right (by decide) (Nat.le_of_lt_succ (tileBitsY_lt mc.config)))

theorem slot_of_npa (h : Regular mc s k) (hsrc : IsTile mc.config p src)
    (hd : defaultEvaIsDram eva = true) {npa : Npa} {sz : ℕ}
    (ht : evaToNpa mc defaultMap src eva = .ok (npa, sz)) :
    slot s k eva = {
      column := npa.x.toNat - (podVcoreOrigin mc.config p).x.toNat
      row := if npa.y = podDramSouthY mc.config p then 1 else 0
      offset := npa.epa.toNat } := by
  rw [evaToNpa_eq_ok h hsrc hd] at ht
  obtain ⟨-, hx, hy, he, -⟩ := ht
  have hrow : (slot s k eva).row < 2 := ((layout s k).locate_inArray _).2
  have hne := northY_ne_southY h.podShapeY_le p
  have hr : (slot s k eva).row = if npa.y = podDramSouthY mc.config p then 1 else 0 := by
    by_cases h1 : (slot s k eva).row = 1
    · simp [hy, edgeY, h1]
    · simp [hy, edgeY, h1, hne]
      omega
  rw [← hr, hx, he, Nat.add_sub_cancel_left]

theorem translated_injective (h : Regular mc s k) {src' : Coord} {eva' : UInt32}
    (hsrc : IsTile mc.config p src) (hsrc' : IsTile mc.config p src')
    (hd : defaultEvaIsDram eva = true) (hd' : defaultEvaIsDram eva' = true)
    {npa : Npa} {sz sz' : ℕ} (ht : evaToNpa mc defaultMap src eva = .ok (npa, sz))
    (ht' : evaToNpa mc defaultMap src' eva' = .ok (npa, sz')) : eva = eva' := by
  have hs : slot s k eva = slot s k eva' := by
    rw [slot_of_npa h hsrc hd ht, slot_of_npa h hsrc' hd' ht']
  rw [isDram_iff] at hd hd'
  rw [← UInt32.toNat_inj, ← address_slot (s := s) (k := k) eva hd,
    ← address_slot (s := s) (k := k) eva' hd', hs]

theorem translated_ownCache (h : Regular mc s k) (hsrc : IsTile mc.config p src)
    (hd : defaultEvaIsDram eva = true) {npa : Npa} {sz : ℕ}
    (ht : evaToNpa mc defaultMap src eva = .ok (npa, sz)) : OwnCache mc.config p npa.xy := by
  rw [evaToNpa_eq_ok h hsrc hd] at ht
  obtain ⟨-, hx, hy, -, -⟩ := ht
  have hcol : (slot s k eva).column < 2 ^ k := ((layout s k).locate_inArray _).1
  have hc := h.columns
  refine ⟨by simp only [Npa.xy]; omega, by simp only [Npa.xy]; omega, ?_⟩
  by_cases h1 : (slot s k eva).row = 1
  · exact Or.inr (by simp [Npa.xy, hy, edgeY, h1])
  · exact Or.inl (by simp [Npa.xy, hy, edgeY, h1])

theorem exists_eva (h : Regular mc s k) {co : Coord} (hco : OwnCache mc.config p co)
    {epa : UInt32} (ha : epa.toNat < 2 ^ addrBits mc) (hk : epa.toNat < 2 ^ (30 - k)) :
    ∃ eva, defaultEvaIsDram eva = true ∧ ∀ src, IsTile mc.config p src →
      ∃ sz, evaToNpa mc defaultMap src eva = .ok (⟨co.x, co.y, epa⟩, sz) := by
  obtain ⟨h1, h2, hy⟩ := hco
  have hc := h.columns
  have hf := h.fields
  let b : Slot := {
    column := co.x.toNat - (podVcoreOrigin mc.config p).x.toNat
    row := if co.y = podDramSouthY mc.config p then 1 else 0
    offset := epa.toNat }
  have hin : (layout s k).InArray b := by
    refine ⟨?_, ?_⟩
    · change co.x.toNat - _ < 2 ^ k
      omega
    · change (if _ then 1 else 0) < 2
      split <;> omega
  obtain ⟨hd, hslot⟩ := slot_ofNat ((address_lt_dramBit hf hin).mpr hk) hin
  refine ⟨_, hd, fun src hsrc => ⟨2 ^ s - (UInt32.ofNat (2 ^ 31 +
    (layout s k).address b)).toNat % 2 ^ s, ?_⟩⟩
  rw [evaToNpa_eq_ok h hsrc hd]
  rw [hslot]
  refine ⟨ha, ?_, ?_, rfl, rfl⟩
  · simp only [b]
    omega
  · have hne := northY_ne_southY h.podShapeY_le p
    rcases hy with hy | hy
    · simp [b, hy, hne, edgeY]
    · simp [b, hy, edgeY]

end Regular

theorem dram_striping {mc : Manycore} {s k : ℕ} (h : Striped mc s k)
    (hy : mc.config.podShape.y.toNat = 2 ^ tileBitsY mc.config)
    (hx : mc.config.podShape.x.toNat ≤ 2 ^ tileBitsX mc.config)
    (hf : s + k ≤ 30) (ha : addrBits mc ≤ 31) (p : Coord) : StripesPod mc p := by
  have hr : Regular mc s k := ⟨h, hf, ha, hx, hy.le⟩
  refine ⟨?_, ?_, ?_, ?_⟩
  · intro src src' eva eva' npa sz sz' hs hs' hd hd' ht ht'
    exact translated_injective hr hs hs' hd hd' ht ht'
  · intro src eva npa sz hs hd ht
    exact translated_ownCache hr hs hd ht
  · intro src src' eva hs hs' hd
    exact translated_uniform hr hs hs' hd
  · intro co epa hco hlt
    rw [h.columns, Nat.log_pow (by omega), lt_min_iff] at hlt
    exact exists_eva hr hco hlt.1 hlt.2

/-- The single-pod machine: stripes of 128 bytes over 16 columns. -/
theorem dram_striping_x16y8 : StripesPod ⟨({} : Machine).config, true⟩ ⟨0, 0⟩ :=
  dram_striping (s := 7) (k := 4) ⟨by decide, by decide⟩ (by decide) (by decide) (by omega)
    (by decide) ⟨0, 0⟩

/-- A stripe of `2 ^ 27` bytes over 16 columns leaves the north-south bit to the DRAM bit. -/
private theorem wide_stripe_fails :
    ¬ StripesPod ⟨({ vcacheStripeWords := 0x2000000 } : Machine).config, true⟩ ⟨0, 0⟩ := by
  intro hp
  obtain ⟨eva, hd, ht⟩ := hp.onto ⟨16, 7⟩ 0 (by decide) (by decide)
  obtain ⟨sz, ht⟩ := ht ⟨16, 8⟩ (by decide)
  rw [evaToNpa_of_isDram hd,
    evaToNpaDram_eq_ok (s := 27) (k := 4) ⟨by decide, by decide⟩] at ht
  obtain ⟨-, -, -, -, -, hy, -⟩ := ht
  have := eva.toNat_lt
  rw [isDram_iff] at hd
  rw [if_pos (by omega)] at hy
  exact absurd hy (by decide)

/-- Pods of four columns in a tile field of one bit: a pod's tiles belong to two pods. -/
private theorem wide_pod_fails :
    ¬ StripesPod ⟨({ nocCoordXWidth := 4, podTilesX := 4 } : Machine).config, true⟩ ⟨0, 0⟩ := by
  intro hp
  have hu := hp.uniform ⟨2, 8⟩ ⟨4, 8⟩ 0x80000000 (by decide) (by decide) (by decide)
  exact absurd hu (by decide)

/-- Caches of `3 * 2 ^ 30` bytes need 32 bits of address. -/
private theorem wide_address_fails :
    ¬ StripesPod ⟨({ vcacheSet := 0x100000, vcacheWay := 24 } : Machine).config, false⟩
      ⟨0, 0⟩ := by
  intro hp
  obtain ⟨eva, hd, ht⟩ := hp.onto ⟨16, 7⟩ 0 (by decide) (by decide)
  obtain ⟨sz, ht⟩ := ht ⟨16, 8⟩ (by decide)
  rw [evaToNpa_of_isDram hd,
    evaToNpaDram_eq_ok (s := 7) (k := 4) ⟨by decide, by decide⟩] at ht
  exact absurd ht.2.1 (by decide)

/-- Each of the three conditions is needed, on machines that the ROM decoder accepts. -/
theorem dram_striping_fails :
    (∃ mc s k p, Accepted mc.config ∧ Striped mc s k ∧ IsPod mc.config p ∧
      mc.config.podShape.y.toNat = 2 ^ tileBitsY mc.config ∧
      mc.config.podShape.x.toNat ≤ 2 ^ tileBitsX mc.config ∧ addrBits mc ≤ 31 ∧
      ¬ StripesPod mc p) ∧
    (∃ mc s k p, Accepted mc.config ∧ Striped mc s k ∧ IsPod mc.config p ∧
      mc.config.podShape.y.toNat = 2 ^ tileBitsY mc.config ∧ s + k ≤ 30 ∧ addrBits mc ≤ 31 ∧
      ¬ StripesPod mc p) ∧
    (∃ mc s k p, Accepted mc.config ∧ Striped mc s k ∧ IsPod mc.config p ∧
      mc.config.podShape.y.toNat = 2 ^ tileBitsY mc.config ∧
      mc.config.podShape.x.toNat ≤ 2 ^ tileBitsX mc.config ∧ s + k ≤ 30 ∧
      ¬ StripesPod mc p) :=
  ⟨⟨_, 27, 4, _, Machine.config_accepted _ (by decide), ⟨by decide, by decide⟩, by decide,
      by decide, by decide, by decide, wide_stripe_fails⟩,
    ⟨_, 7, 2, _, Machine.config_accepted _ (by decide), ⟨by decide, by decide⟩, by decide,
      by decide, by omega, by decide, wide_pod_fails⟩,
    ⟨_, 7, 4, _, Machine.config_accepted _ (by decide), ⟨by decide, by decide⟩, by decide,
      by decide, by decide, by omega, wide_address_fails⟩⟩

end DramStriping
