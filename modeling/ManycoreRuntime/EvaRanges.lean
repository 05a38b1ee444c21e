import ManycoreRuntime.DramStriping
import ManycoreRuntime.WriteMem
import Mathlib.Data.Nat.ModEq

/-! # Ranges of endpoint virtual addresses

A translation also yields the size of the segment that begins at the address. Inside the segment
the network address follows the address, in a stripe of DRAM as in a tile's data memory. -/
namespace EvaRanges

open Fallible (bind_eq_ok)
open BitField
open Coordinate (Coord Errno)
open Configuration (Config Manycore)
open ConfigPod EvaToNpa DramTranslation
open DramStriping (evaToNpa_of_isDram slot layout)
open NpaToEva (evaToNpa defaultMap)
open Striping (Layout)
open TileTranslation
open WriteMem (addEpa)

def advance (eva : UInt32) (n : ℕ) : UInt32 := eva + UInt32.ofNat n

theorem advance_zero (eva : UInt32) : advance eva 0 = eva := by
  simp [advance]

theorem advance_advance (eva : UInt32) (i j : ℕ) :
    advance (advance eva i) j = advance eva (i + j) := by
  simp only [advance, UInt32.ofNat_add, UInt32.add_assoc]

theorem advance_toNat {eva : UInt32} {n : ℕ} (h : eva.toNat + n < 2 ^ 32) :
    (advance eva n).toNat = eva.toNat + n := by
  rw [advance, UInt32.toNat_add, UInt32.toNat_ofNat', Nat.add_mod_mod]
  exact Nat.mod_eq_of_lt h

/-- The translations of the bytes of a range: each segment covers as many bytes as it says, and
no two bytes of the range are at one place. -/
structure Mapped (mc : Manycore) (src : Coord) (eva : UInt32) (sz : ℕ) : Prop where
  segment : ∀ off npa n, off < sz → evaToNpa mc defaultMap src (advance eva off) = .ok (npa, n) →
    ∀ j < n, off + j < sz →
      ∃ n', evaToNpa mc defaultMap src (advance eva (off + j)) = .ok (addEpa npa j, n')
  injective : ∀ i j npa n n', i < sz → j < sz →
    evaToNpa mc defaultMap src (advance eva i) = .ok (npa, n) →
    evaToNpa mc defaultMap src (advance eva j) = .ok (npa, n') → i = j

section Dram

variable {mc : Manycore} {s k : ℕ} {src : Coord} {eva eva' : UInt32} {npa : Npa} {n : ℕ}

theorem bankOffset_add (hsk : s + k ≤ 31) {j : ℕ} (hd : 2 ^ 31 ≤ eva.toNat)
    (heva : eva'.toNat = eva.toNat + j) (hj : eva.toNat % 2 ^ s + j < 2 ^ s) :
    bankOffset s k eva'.toNat = bankOffset s k eva.toNat + j := by
  have hlt := eva'.toNat_lt
  have hlow : eva'.toNat % 2 ^ 31 = eva.toNat % 2 ^ 31 + j := by omega
  have hmod : eva.toNat % 2 ^ 31 % 2 ^ s = eva.toNat % 2 ^ s :=
    Nat.mod_mod_of_dvd _ (pow_dvd_pow 2 (by omega))
  have hslot : slot s k eva' = { slot s k eva with offset := (slot s k eva).offset + j } := by
    rw [slot, hlow]
    refine Layout.locate_add _ ?_
    simp only [layout, hmod]
    exact hj
  rw [← DramStriping.slot_offset eva' hsk, ← DramStriping.slot_offset eva hsk, hslot]

theorem stripe_fields (hsk : s + k ≤ 31) {j : ℕ} (hd : 2 ^ 31 ≤ eva.toNat)
    (heva : eva'.toNat = eva.toNat + j) (hlow : eva.toNat % 2 ^ s + j < 2 ^ s) :
    eva'.toNat / 2 ^ s = eva.toNat / 2 ^ s ∧
      eva'.toNat / 2 ^ (s + k) = eva.toNat / 2 ^ (s + k) ∧
      bankOffset s k eva'.toNat = bankOffset s k eva.toNat + j := by
  have hjlt : j < 2 ^ s := Nat.lt_of_le_of_lt (Nat.le_add_left _ _) hlow
  have hsum : eva.toNat % 2 ^ s + j % 2 ^ s < 2 ^ s := by rwa [Nat.mod_eq_of_lt hjlt]
  have hdiv : eva'.toNat / 2 ^ s = eva.toNat / 2 ^ s := by
    rw [heva, Nat.add_div_eq_of_add_mod_lt hsum, Nat.div_eq_of_lt hjlt, Nat.add_zero]
  refine ⟨hdiv, ?_, bankOffset_add hsk hd heva hlow⟩
  rw [pow_add, ← Nat.div_div_eq_div_mul, hdiv, Nat.div_div_eq_div_mul]

theorem shr_congr {v v' amount : UInt32}
    (h : v'.toNat / 2 ^ amount.toNat = v.toNat / 2 ^ amount.toNat) :
    shr v' amount = shr v amount := by
  unfold shr
  by_cases hlt : amount < 32
  · have hlt' : amount.toNat < 32 := UInt32.lt_iff_toNat_lt.mp hlt
    rw [if_pos hlt, if_pos hlt, Except.ok.injEq, ← UInt32.toNat_inj, shiftRight_toNat hlt',
      shiftRight_toNat hlt', h]
  · rw [if_neg hlt, if_neg hlt]

theorem bank_congr (h : Fields mc s k) (hdiv : eva'.toNat / 2 ^ s = eva.toNat / 2 ^ s)
    (hrow : eva'.toNat / 2 ^ (s + k) = eva.toNat / 2 ^ (s + k)) :
    defaultEvaGetXCoordDram mc src eva' = defaultEvaGetXCoordDram mc src eva ∧
      ∀ y, defaultEvaGetYCoordDram mc src eva' = .ok y ↔
        defaultEvaGetYCoordDram mc src eva = .ok y := by
  constructor
  · have hshift : shr eva' (defaultGetDramStripeSizeLog mc) =
        shr eva (defaultGetDramStripeSizeLog mc) := by
      refine shr_congr ?_
      rw [h.stripe_bits]
      exact hdiv
    simp only [defaultEvaGetXCoordDram, hshift]
  · intro y
    rw [getYCoordDram_eq_ok h, getYCoordDram_eq_ok h, hrow]

theorem dram_place (h : Fields mc s k) (hd : 2 ^ 31 ≤ eva.toNat) {j : ℕ}
    (heva : eva'.toNat = eva.toNat + j) (hj : j < n)
    (ht : evaToNpa mc defaultMap src eva = .ok (npa, n)) {npa' : Npa} {n' : ℕ}
    (ht' : evaToNpa mc defaultMap src eva' = .ok (npa', n')) :
    npa' = addEpa npa j ∧ npa.epa.toNat + j < 2 ^ 32 := by
  rw [evaToNpa_of_isDram ((isDram_iff _).mpr hd)] at ht
  rw [evaToNpa_of_isDram ((isDram_iff _).mpr (by omega))] at ht'
  simp only [defaultEvaToNpaDram, bind_eq_ok, Prod.exists, pure, Except.pure, Except.ok.injEq,
    Prod.mk.injEq] at ht ht'
  obtain ⟨x, hx, y, hy, epa, n, he, rfl, rfl⟩ := ht
  obtain ⟨x', hx', y', hy', epa', n', he', rfl, rfl⟩ := ht'
  have hsk := ((getYCoordDram_eq_ok h).mp hy).1
  rw [getEpaDram_eq_ok h hsk] at he he'
  obtain ⟨ha, -, he, hn⟩ := he
  obtain ⟨-, hoff', he', -⟩ := he'
  have hlow : eva.toNat % 2 ^ s + j < 2 ^ s := by omega
  obtain ⟨hdiv, hrow, hbank⟩ := stripe_fields (k := k) (by omega) hd heva hlow
  obtain ⟨hxcongr, hycongr⟩ := @bank_congr mc s k src eva eva' h hdiv hrow
  rw [hxcongr, hx] at hx'
  rw [hycongr, hy] at hy'
  cases hx'
  cases hy'
  have hpow : 2 ^ addrBits mc ≤ 2 ^ 31 := Nat.pow_le_pow_right (by decide) ha
  have hlt : epa.toNat + j < 2 ^ 32 := by omega
  refine ⟨?_, hlt⟩
  have hepa : epa' = epa + UInt32.ofNat j := by
    rw [← UInt32.toNat_inj, UInt32.toNat_add, UInt32.toNat_ofNat', he', hbank, he]
    omega
  rw [hepa]
  rfl

/-- Inside a stripe the bank stays and the offset follows the address, up to the end of the
stripe. -/
theorem evaToNpaDram_follows (h : Fields mc s k) (hmap : s ≤ addrBits mc)
    (hd : 2 ^ 31 ≤ eva.toNat) {j : ℕ} (heva : eva'.toNat = eva.toNat + j) (hj : j < n)
    (ht : defaultEvaToNpaDram mc src eva = .ok (npa, n)) :
    defaultEvaToNpaDram mc src eva' = .ok (addEpa npa j, n - j) := by
  unfold defaultEvaToNpaDram at ht ⊢
  simp only [bind_eq_ok, Prod.exists, pure, Except.pure, Except.ok.injEq, Prod.mk.injEq] at ht ⊢
  obtain ⟨x, hx, y, hy, epa, n, he, rfl, rfl⟩ := ht
  have hsk := ((getYCoordDram_eq_ok h).mp hy).1
  rw [getEpaDram_eq_ok h hsk] at he
  obtain ⟨ha, hoff, he, hn⟩ := he
  have hlow : eva.toNat % 2 ^ s + j < 2 ^ s := by omega
  have hjs : j % 2 ^ s = j := Nat.mod_eq_of_lt (Nat.lt_of_le_of_lt (Nat.le_add_left _ _) hlow)
  have hsum : eva.toNat % 2 ^ s + j % 2 ^ s < 2 ^ s := by rwa [hjs]
  obtain ⟨hdiv, hrow, hbank⟩ := stripe_fields (k := k) (by omega) hd heva hlow
  have hbound : bankOffset s k eva.toNat + j < 2 ^ addrBits mc := by
    have hsplit : 2 ^ addrBits mc = 2 ^ (addrBits mc - s) * 2 ^ s := by
      rw [← pow_add, Nat.sub_add_cancel hmap]
    rw [hsplit] at hoff ⊢
    rw [← Nat.div_lt_iff_lt_mul (Nat.two_pow_pos s)] at hoff ⊢
    unfold bankOffset at hoff ⊢
    rw [Nat.add_mul_div_right _ _ (Nat.two_pow_pos s), Nat.div_eq_of_lt (by omega)] at hoff
    rw [Nat.add_right_comm, Nat.add_mul_div_right _ _ (Nat.two_pow_pos s), Nat.div_eq_of_lt hlow]
    exact hoff
  have hpow : 2 ^ addrBits mc ≤ 2 ^ 31 := Nat.pow_le_pow_right (by decide) ha
  obtain ⟨hxcongr, hycongr⟩ := @bank_congr mc s k src eva eva' h hdiv hrow
  refine ⟨x, ?_, y, ?_, epa + UInt32.ofNat j, n - j, ?_, rfl, rfl⟩
  · rw [hxcongr]
    exact hx
  · rw [hycongr]
    exact hy
  · rw [getEpaDram_eq_ok h hsk]
    refine ⟨ha, ?_, ?_, ?_⟩
    · rw [hbank]
      exact hbound
    · rw [hbank, UInt32.toNat_add, UInt32.toNat_ofNat', he]
      omega
    · rw [heva, Nat.add_mod_of_add_mod_lt hsum, hjs]
      omega

theorem dram_segment (h : Fields mc s k) (hmap : s ≤ addrBits mc) (hd : 2 ^ 31 ≤ eva.toNat)
    {j : ℕ} (heva : eva'.toNat = eva.toNat + j) (hj : j < n)
    (ht : evaToNpa mc defaultMap src eva = .ok (npa, n)) :
    evaToNpa mc defaultMap src eva' = .ok (addEpa npa j, n - j) := by
  rw [evaToNpa_of_isDram ((isDram_iff _).mpr hd)] at ht
  rw [evaToNpa_of_isDram ((isDram_iff _).mpr (by omega))]
  exact evaToNpaDram_follows h hmap hd heva hj ht

theorem dram_injective (h : Fields mc s k) (hc : 0 < mc.config.podShape.x.toNat)
    (hy : mc.config.podShape.y.toNat ≤ 2 ^ 31) (hd : 2 ^ 31 ≤ eva.toNat)
    (hd' : 2 ^ 31 ≤ eva'.toNat) {n' : ℕ}
    (ht : evaToNpa mc defaultMap src eva = .ok (npa, n))
    (ht' : evaToNpa mc defaultMap src eva' = .ok (npa, n')) : eva.toNat = eva'.toNat := by
  rw [evaToNpa_of_isDram ((isDram_iff _).mpr hd), evaToNpaDram_eq_ok_of_fields h hc] at ht
  rw [evaToNpa_of_isDram ((isDram_iff _).mpr hd'), evaToNpaDram_eq_ok_of_fields h hc] at ht'
  obtain ⟨hsk, -, -, -, -, hx, hrow, he, -⟩ := ht
  obtain ⟨-, -, -, -, -, hx', hrow', he', -⟩ := ht'
  have hsk' : s + k ≤ 31 := Nat.le_of_lt_succ hsk
  have hslot : slot s k eva = slot s k eva' := by
    have hcol : (slot s k eva).column = (slot s k eva').column := by
      rw [DramStriping.slot_column eva hsk', DramStriping.slot_column eva' hsk']
      omega
    have hoff : (slot s k eva).offset = (slot s k eva').offset := by
      rw [DramStriping.slot_offset eva hsk', DramStriping.slot_offset eva' hsk', ← he, ← he']
    have hsouth : (slot s k eva).row = (slot s k eva').row := by
      rcases Nat.lt_or_ge (s + k) 31 with hlt | hge
      · have hne := DramStriping.northY_ne_southY hy (pod mc.config src)
        have hf : s + k ≤ 30 := Nat.le_of_lt_succ hlt
        rw [DramStriping.slot_row eva hf, DramStriping.slot_row eva' hf]
        rw [hrow] at hrow'
        split at hrow' <;> split at hrow'
        · omega
        · exact absurd hrow'.symm hne
        · exact absurd hrow' hne
        · omega
      · -- the bit above the column is the DRAM bit, which a slot does not see
        have hzero : ∀ e : UInt32, (slot s k e).row = 0 := by
          intro e
          have hq : e.toNat % 2 ^ 31 / 2 ^ s / 2 ^ k = 0 := by
            rw [Nat.div_div_eq_div_mul, ← pow_add]
            refine Nat.div_eq_of_lt ?_
            have hp : 2 ^ 31 ≤ 2 ^ (s + k) := Nat.pow_le_pow_right (by decide) hge
            omega
          simp only [slot, layout, Layout.locate, hq, Nat.zero_mod]
        rw [hzero, hzero]
    cases ha : slot s k eva
    cases hb : slot s k eva'
    rw [ha, hb] at hcol hoff hsouth
    simp only at hcol hoff hsouth
    rw [hcol, hoff, hsouth]
  rw [← DramStriping.address_slot (s := s) (k := k) eva hd,
    ← DramStriping.address_slot (s := s) (k := k) eva' hd', hslot]

theorem mapped_dram (h : Striped mc s k) (hmap : s ≤ addrBits mc)
    (hy : mc.config.podShape.y.toNat ≤ 2 ^ 31) {sz : ℕ} (hend : eva.toNat + sz ≤ 2 ^ 32)
    (hd : 2 ^ 31 ≤ eva.toNat) : Mapped mc src eva sz := by
  have hval : ∀ i < sz, (advance eva i).toNat = eva.toNat + i :=
    fun i hi => advance_toNat (by omega)
  constructor
  · intro off npa n hoff ht j hj hlt
    have hoffd : 2 ^ 31 ≤ (advance eva off).toNat := by
      rw [hval off hoff]
      omega
    refine ⟨n - j, dram_segment h.fields hmap hoffd ?_ hj ht⟩
    rw [hval off hoff, hval (off + j) hlt, Nat.add_assoc]
  · intro i j npa n n' hi hj ht ht'
    have heq : (advance eva i).toNat = (advance eva j).toNat := by
      refine dram_injective h.fields h.columns_pos hy ?_ ?_ ht ht'
      · rw [hval i hi]
        omega
      · rw [hval j hj]
        omega
    rw [hval i hi, hval j hj] at heq
    exact Nat.add_left_cancel heq

end Dram

def tileOffset (eva : UInt32) : ℕ :=
  if defaultEvaIsGlobal eva then eva.toNat % 2 ^ 16 else eva.toNat % 2 ^ 18

def tileOf (cfg : Config) (o src : Coord) (eva : UInt32) : Except Errno Coord :=
  if defaultEvaIsGlobal eva then
    .ok ⟨field eva defaultGlobalXLogsz defaultGlobalXBitidx,
      field eva defaultGlobalYLogsz defaultGlobalYBitidx⟩
  else if defaultEvaIsGroup eva then
    let x := field eva defaultGroupXLogsz defaultGroupXBitidx + o.x
    let y := field eva defaultGroupYLogsz defaultGroupYBitidx + o.y
    if cfg.podShape.x + Configuration.vcoreBaseX < x then .error .fail
    else if cfg.podShape.y + Configuration.vcoreBaseY < y then .error .fail
    else .ok ⟨x, y⟩
  else if defaultEvaIsLocal eva then .ok src
  else .error .fail

section Dmem

variable {mc : Manycore} {o src : Coord} {eva eva' : UInt32} {npa : Npa} {n : ℕ}

theorem defaultEvaToNpa_tile (hd : eva.toNat < 2 ^ 31) (hoff : tileOffset eva < 4096) :
    defaultEvaToNpa mc o src eva = (tileOf mc.config o src eva).map fun c =>
      (⟨c.x, c.y, UInt32.ofNat (tileOffset eva)⟩, 4096 - tileOffset eva) := by
  have hdram : ¬ defaultEvaIsDram eva = true := by
    rw [isDram_iff]
    omega
  have hofNat : ∀ m, UInt32.ofNat (eva &&& m).toNat = eva &&& m := fun m => UInt32.ofNat_toNat
  rw [defaultEvaToNpa, if_neg hdram]
  unfold tileOf tileOffset at *
  by_cases hg : defaultEvaIsGlobal eva = true
  · simp only [hg, if_true] at hoff ⊢
    rw [← masked_global] at hoff ⊢
    rw [hofNat, defaultEvaToNpaGlobal, defaultEvaToEpaTileGlobal,
      evaToEpaTile_of_isTileEpa (Or.inl hoff), tileSegment, if_pos hoff]
    rfl
  · simp only [hg, Bool.false_eq_true, if_false] at hoff ⊢
    rw [← masked_group] at hoff ⊢
    have htile : defaultEvaToEpaTileGroup mc.config eva =
        .ok (eva &&& (lowMask epaLogsz).toUInt32,
          4096 - (eva &&& (lowMask epaLogsz).toUInt32).toNat) := by
      rw [defaultEvaToEpaTileGroup, evaToEpaTile_of_isTileEpa (Or.inl hoff), tileSegment,
        if_pos hoff]
    rw [hofNat]
    by_cases hp : defaultEvaIsGroup eva = true
    · simp only [hp, if_true, defaultEvaToNpaGroup, htile]
      split
      · rfl
      · split <;> rfl
    · by_cases hl : defaultEvaIsLocal eva = true
      · simp only [hp, hl, Bool.false_eq_true, if_true, if_false, defaultEvaToNpaLocal, htile]
        rfl
      · simp only [hp, hl, Bool.false_eq_true, if_false]
        rfl

theorem evaToNpa_tile (hd : eva.toNat < 2 ^ 31) (hoff : tileOffset eva < 4096) :
    evaToNpa mc defaultMap src eva = (tileOf mc.config defaultOrigin src eva).map fun c =>
      (⟨c.x, c.y, UInt32.ofNat (tileOffset eva)⟩, 4096 - tileOffset eva) := by
  rw [defaultMap, NpaToEva.evaToNpa_origin]
  exact defaultEvaToNpa_tile hd hoff

theorem field_congr (logsz bitidx : UInt32) (h : logsz.toNat + bitidx.toNat ≤ 32)
    (hbit : 12 ≤ bitidx.toNat) (hpage : eva.toNat / 2 ^ 12 = eva'.toNat / 2 ^ 12) :
    field eva logsz bitidx = field eva' logsz bitidx := by
  have hpow : 2 ^ bitidx.toNat = 2 ^ 12 * 2 ^ (bitidx.toNat - 12) := by
    rw [← pow_add, Nat.add_sub_cancel' hbit]
  rw [← UInt32.toNat_inj, field_toNat h, field_toNat h, hpow, ← Nat.div_div_eq_div_mul,
    ← Nat.div_div_eq_div_mul, hpage]

theorem tileOf_congr {cfg : Config} {o : Coord} (hpage : eva.toNat / 2 ^ 12 = eva'.toNat / 2 ^ 12) :
    tileOf cfg o src eva = tileOf cfg o src eva' := by
  have hglobal : defaultEvaIsGlobal eva = defaultEvaIsGlobal eva' := by
    rw [Bool.eq_iff_iff, isGlobal_iff, isGlobal_iff]
    omega
  have hgroup : defaultEvaIsGroup eva = defaultEvaIsGroup eva' := by
    rw [Bool.eq_iff_iff, isGroup_iff, isGroup_iff]
    omega
  have hlocal : defaultEvaIsLocal eva = defaultEvaIsLocal eva' := by
    rw [Bool.eq_iff_iff, isLocal_iff, isLocal_iff]
    omega
  rw [tileOf, tileOf, hglobal, hgroup, hlocal,
    field_congr defaultGlobalXLogsz defaultGlobalXBitidx (by decide) (by decide) hpage,
    field_congr defaultGlobalYLogsz defaultGlobalYBitidx (by decide) (by decide) hpage,
    field_congr defaultGroupXLogsz defaultGroupXBitidx (by decide) (by decide) hpage,
    field_congr defaultGroupYLogsz defaultGroupYBitidx (by decide) (by decide) hpage]

theorem tileOffset_add {j : ℕ} (heva : eva'.toNat = eva.toNat + j)
    (hoff : tileOffset eva + j < 4096) :
    eva.toNat / 2 ^ 12 = eva'.toNat / 2 ^ 12 ∧ tileOffset eva' = tileOffset eva + j := by
  have hpage : eva.toNat / 2 ^ 12 = eva'.toNat / 2 ^ 12 := by
    unfold tileOffset at hoff
    split at hoff <;> omega
  have hglobal : defaultEvaIsGlobal eva = defaultEvaIsGlobal eva' := by
    rw [Bool.eq_iff_iff, isGlobal_iff, isGlobal_iff]
    omega
  refine ⟨hpage, ?_⟩
  unfold tileOffset at hoff ⊢
  rw [← hglobal]
  split at hoff
  · next h =>
    rw [if_pos h, if_pos h]
    omega
  · next h =>
    rw [if_neg h, if_neg h]
    omega

theorem tile_return {cfg : Config} {mask x y : UInt32}
    (h : (do
      let (epa, sz) ← defaultEvaToEpaTile cfg eva mask
      return (⟨x, y, epa⟩, sz)) = Except.ok (npa, n)) :
    IsTileEpa (eva &&& mask).toNat ∧ npa.epa = eva &&& mask ∧
      n = tileSegment (eva &&& mask).toNat := by
  obtain ⟨⟨epa, sz⟩, htile, hret⟩ := bind_eq_ok.mp h
  cases hret
  by_cases ht : IsTileEpa (eva &&& mask).toNat
  · rw [evaToEpaTile_of_isTileEpa ht] at htile
    cases htile
    exact ⟨ht, rfl, rfl⟩
  · rw [evaToEpaTile_of_not ht] at htile
    cases htile

theorem defaultEvaToNpa_segment (hd : eva.toNat < 2 ^ 31)
    (ht : defaultEvaToNpa mc o src eva = .ok (npa, n)) :
    IsTileEpa (tileOffset eva) ∧ npa.epa.toNat = tileOffset eva ∧
      n = tileSegment (tileOffset eva) := by
  have hdram : ¬ defaultEvaIsDram eva = true := by
    rw [isDram_iff]
    omega
  rw [defaultEvaToNpa, if_neg hdram] at ht
  unfold tileOffset
  split at ht
  · next hg =>
    obtain ⟨h1, h2, h3⟩ := tile_return ht
    rw [if_pos hg, ← masked_global, h2]
    exact ⟨h1, rfl, h3⟩
  · next hg =>
    rw [if_neg hg, ← masked_group]
    split at ht
    · simp only [defaultEvaToNpaGroup] at ht
      split at ht
      · cases ht
      split at ht
      · cases ht
      obtain ⟨h1, h2, h3⟩ := tile_return ht
      exact ⟨h1, congrArg UInt32.toNat h2, h3⟩
    split at ht
    · obtain ⟨h1, h2, h3⟩ := tile_return ht
      exact ⟨h1, congrArg UInt32.toNat h2, h3⟩
    · cases ht

theorem tile_segment (hd : eva.toNat < 2 ^ 31)
    (ht : evaToNpa mc defaultMap src eva = .ok (npa, n)) :
    IsTileEpa (tileOffset eva) ∧ npa.epa.toNat = tileOffset eva ∧
      n = tileSegment (tileOffset eva) := by
  rw [defaultMap, NpaToEva.evaToNpa_origin] at ht
  exact defaultEvaToNpa_segment hd ht

theorem mapped_dmem {sz : ℕ} (hd : eva.toNat < 2 ^ 31) (hoff : tileOffset eva + sz ≤ 4096) :
    Mapped mc src eva sz := by
  have hval : ∀ i < sz, (advance eva i).toNat = eva.toNat + i :=
    fun i hi => advance_toNat (by omega)
  have htile : ∀ i < sz, evaToNpa mc defaultMap src (advance eva i) =
      (tileOf mc.config defaultOrigin src eva).map fun c =>
        (⟨c.x, c.y, UInt32.ofNat (tileOffset eva + i)⟩, 4096 - (tileOffset eva + i)) := by
    intro i hi
    obtain ⟨hpage, hadd⟩ := tileOffset_add (hval i hi) (by omega)
    have hlow : (advance eva i).toNat < 2 ^ 31 := by
      have := hval i hi
      omega
    rw [evaToNpa_tile hlow (by omega), hadd, ← tileOf_congr hpage]
  cases ht : tileOf mc.config defaultOrigin src eva with
  | error e =>
    simp only [ht] at htile
    constructor
    · intro off npa n hlt hn
      rw [htile off hlt] at hn
      cases hn
    · intro i j npa n n' hi hj hn
      rw [htile i hi] at hn
      cases hn
  | ok c =>
    simp only [ht] at htile
    constructor
    · intro off npa n hlt hn j hj hend
      rw [htile off hlt] at hn
      cases hn
      refine ⟨4096 - (tileOffset eva + (off + j)), ?_⟩
      rw [htile (off + j) hend]
      simp only [Except.map, addEpa, ← UInt32.ofNat_add, Nat.add_assoc]
    · intro i j npa n n' hi hj hn hn'
      rw [htile i hi] at hn
      rw [htile j hj] at hn'
      cases hn
      simp only [Except.map, Except.ok.injEq, Prod.mk.injEq, Npa.mk.injEq, true_and] at hn'
      have heq := congrArg UInt32.toNat hn'.1
      rw [UInt32.toNat_ofNat', UInt32.toNat_ofNat'] at heq
      omega

end Dmem

theorem defaultEvaToNpa_word {mc : Manycore} {s k : ℕ} {o src : Coord} {eva eva' : UInt32}
    {npa : Npa} {n : ℕ} (h : Fields mc s k) (hmap : 2 ^ 31 ≤ eva.toNat → s ≤ addrBits mc) {j : ℕ}
    (heva : eva'.toNat = eva.toNat + j) (hword : j % 4 = 0) (hj : j < n)
    (ht : defaultEvaToNpa mc o src eva = .ok (npa, n)) :
    defaultEvaToNpa mc o src eva' = .ok (addEpa npa j, n - j) := by
  rcases Nat.lt_or_ge eva.toNat (2 ^ 31) with hd | hd
  · obtain ⟨-, hepa, hn⟩ := defaultEvaToNpa_segment hd ht
    unfold tileSegment at hn
    split at hn
    · next hoff =>
      obtain ⟨hpage, hadd⟩ := tileOffset_add heva (by omega)
      rw [defaultEvaToNpa_tile hd hoff] at ht
      rw [defaultEvaToNpa_tile (by omega) (by omega), ← tileOf_congr hpage, hadd]
      cases hc : tileOf mc.config o src eva with
      | error e =>
        rw [hc] at ht
        cases ht
      | ok c =>
        rw [hc] at ht
        cases ht
        simp only [Except.map, addEpa, ← UInt32.ofNat_add, Nat.sub_add_eq]
    · -- a register is one word
      obtain rfl : j = 0 := by omega
      have he : eva' = eva := UInt32.toNat_inj.mp heva
      rw [WriteMem.addEpa_zero, he, Nat.sub_zero]
      exact ht
  · rw [defaultEvaToNpa, if_pos ((isDram_iff _).mpr hd)] at ht
    rw [defaultEvaToNpa, if_pos ((isDram_iff _).mpr (by omega))]
    exact evaToNpaDram_follows h (hmap hd) hd heva hj ht

theorem word_segment {mc : Manycore} {s k : ℕ} {src : Coord} {eva eva' : UInt32} {npa : Npa}
    {n : ℕ} (h : Fields mc s k) (hmap : 2 ^ 31 ≤ eva.toNat → s ≤ addrBits mc) {j : ℕ}
    (heva : eva'.toNat = eva.toNat + j) (hword : j % 4 = 0) (hj : j < n)
    (ht : evaToNpa mc defaultMap src eva = .ok (npa, n)) :
    ∃ n', evaToNpa mc defaultMap src eva' = .ok (addEpa npa j, n') := by
  rw [defaultMap, NpaToEva.evaToNpa_origin] at ht ⊢
  exact ⟨n - j, defaultEvaToNpa_word h hmap heva hword hj ht⟩

end EvaRanges
