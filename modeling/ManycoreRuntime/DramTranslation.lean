import ManycoreRuntime.NpaToEva

/-! # What the translation of a DRAM address computes

For power-of-two stripes and columns the fields are digits, and a translated address is the
slot of a striped memory with two rows of banks. -/
namespace DramTranslation

open Fallible (bind_eq_ok)
open BitField
open Coordinate (Coord Errno)
open Configuration (Config Manycore)
open ConfigPod EvaToNpa

/-- The offset in the stripe takes `s` bits of an address and the column `k` bits. -/
structure Fields (mc : Manycore) (s k : ℕ) : Prop where
  stripe_bits : (defaultGetDramStripeSizeLog mc).toNat = s
  column_bits : (defaultGetXDimlog mc.config).toNat = k

structure Striped (mc : Manycore) (s k : ℕ) : Prop where
  stripe : mc.config.vcacheStripeSize.toNat = 2 ^ s
  columns : mc.config.podShape.x.toNat = 2 ^ k

def addrBits (mc : Manycore) : ℕ := (defaultGetDramBitwidth mc).toNat

theorem shr_eq_ok {v amount r : UInt32} :
    shr v amount = .ok r ↔ amount.toNat < 32 ∧ r = v >>> amount := by
  unfold shr
  have hlt : amount < 32 ↔ amount.toNat < 32 := UInt32.lt_iff_toNat_lt
  by_cases h : amount.toNat < 32 <;> simp [hlt, h, eq_comm]

theorem shl_eq_ok {v amount r : UInt32} :
    shl v amount = .ok r ↔ amount.toNat < 32 ∧ r = v <<< amount := by
  unfold shl
  have hlt : amount < 32 ↔ amount.toNat < 32 := UInt32.lt_iff_toNat_lt
  by_cases h : amount.toNat < 32 <;> simp [hlt, h, eq_comm]

theorem shr64_of_lt {v : UInt64} {amount : UInt32} (h : amount.toNat < 64) :
    shr64 v amount = .ok (v >>> amount.toUInt64) :=
  if_pos (UInt32.lt_iff_toNat_lt.mpr h)

theorem shl64_of_lt {v : UInt64} {amount : UInt32} (h : amount.toNat < 64) :
    shl64 v amount = .ok (v <<< amount.toUInt64) :=
  if_pos (UInt32.lt_iff_toNat_lt.mpr h)

theorem fields_bits (mc : Manycore) :
    Fields mc (defaultGetDramStripeSizeLog mc).toNat (defaultGetXDimlog mc.config).toNat :=
  ⟨rfl, rfl⟩

namespace Fields

variable {mc : Manycore} {s k : ℕ}

theorem stripe_le (h : Fields mc s k) : s ≤ 32 := by
  rw [← h.stripe_bits]
  exact clog2_le _

theorem column_le (h : Fields mc s k) : k ≤ 32 := by
  rw [← h.column_bits]
  exact clog2_le _

theorem shift_toNat (h : Fields mc s k) :
    (defaultGetDramStripeSizeLog mc + defaultGetXDimlog mc.config).toNat = s + k := by
  have := h.stripe_le
  have := h.column_le
  rw [UInt32.toNat_add, h.stripe_bits, h.column_bits]
  omega

theorem shift_succ_toNat (h : Fields mc s k) :
    (defaultGetDramStripeSizeLog mc + defaultGetXDimlog mc.config + 1).toNat = s + k + 1 := by
  have := h.stripe_le
  have := h.column_le
  rw [UInt32.toNat_add, h.shift_toNat]
  simp only [UInt32.reduceToNat]
  omega

end Fields

namespace Striped

variable {mc : Manycore} {s k : ℕ}

theorem fields (h : Striped mc s k) : Fields mc s k :=
  ⟨clog2_two_pow h.stripe, clog2_two_pow h.columns⟩

theorem columns_pos (h : Striped mc s k) : 0 < mc.config.podShape.x.toNat := by
  rw [h.columns]
  exact Nat.two_pow_pos k

theorem stripe_bits (h : Striped mc s k) : (defaultGetDramStripeSizeLog mc).toNat = s :=
  h.fields.stripe_bits

theorem stripe_lt (h : Striped mc s k) : s < 32 := by
  by_contra hs
  have h32 : 2 ^ 32 ≤ 2 ^ s := Nat.pow_le_pow_right (by omega) (by omega)
  have := mc.config.vcacheStripeSize.toNat_lt
  have := h.stripe
  omega

theorem shift_toNat (h : Striped mc s k) :
    (defaultGetDramStripeSizeLog mc + defaultGetXDimlog mc.config).toNat = s + k :=
  h.fields.shift_toNat

theorem shift_succ_toNat (h : Striped mc s k) :
    (defaultGetDramStripeSizeLog mc + defaultGetXDimlog mc.config + 1).toNat = s + k + 1 :=
  h.fields.shift_succ_toNat

end Striped

section Fields

variable {mc : Manycore} {s k : ℕ} {src : Coord} {eva : UInt32}

theorem maxX_toNat (src : Coord) (hc : 0 < mc.config.podShape.x.toNat) :
    ((defaultDramMinXCoord mc.config src).toNat + mc.config.podShape.x.toNat ≤ 2 ^ 32 ∧
      (defaultDramMaxXCoord mc.config src).toNat + 1 =
        (defaultDramMinXCoord mc.config src).toNat + mc.config.podShape.x.toNat) ∨
    (2 ^ 32 < (defaultDramMinXCoord mc.config src).toNat + mc.config.podShape.x.toNat ∧
      (defaultDramMaxXCoord mc.config src).toNat < (defaultDramMinXCoord mc.config src).toNat) := by
  have hmin := (defaultDramMinXCoord mc.config src).toNat_lt
  have hk := mc.config.podShape.x.toNat_lt
  have hx : (defaultDramMaxXCoord mc.config src).toNat =
      (2 ^ 32 - 1 + ((defaultDramMinXCoord mc.config src).toNat +
        mc.config.podShape.x.toNat) % 2 ^ 32) % 2 ^ 32 := by
    rw [defaultDramMaxXCoord, UInt32.toNat_sub, UInt32.toNat_add]
    rfl
  omega

theorem getXCoordDram_eq_ok (h : Fields mc s k) (hc : 0 < mc.config.podShape.x.toNat)
    {x : UInt32} :
    defaultEvaGetXCoordDram mc src eva = .ok x ↔
      s < 32 ∧
      (defaultDramMinXCoord mc.config src).toNat + mc.config.podShape.x.toNat ≤ 2 ^ 32 ∧
      eva.toNat / 2 ^ s % 2 ^ k < mc.config.podShape.x.toNat ∧
      x.toNat = (defaultDramMinXCoord mc.config src).toNat + eva.toNat / 2 ^ s % 2 ^ k := by
  have hm := maxX_toNat src hc
  have hcol : eva.toNat / 2 ^ s % 2 ^ k < 2 ^ 32 :=
    lt_of_le_of_lt (Nat.mod_le _ _) (lt_of_le_of_lt (Nat.div_le_self _ _) eva.toNat_lt)
  have hmin := (defaultDramMinXCoord mc.config src).toNat_lt
  have hcols := mc.config.podShape.x.toNat_lt
  have hfield : s < 32 → (eva >>> defaultGetDramStripeSizeLog mc &&&
      defaultGetDramXBitidx mc.config).toNat = eva.toNat / 2 ^ s % 2 ^ k := by
    intro hs
    have hk32 : (defaultGetXDimlog mc.config).toNat ≤ 32 := clog2_le _
    rw [defaultGetDramXBitidx, and_lowMask_word hk32,
      shiftRight_toNat (by rw [h.stripe_bits]; exact hs), h.stripe_bits, h.column_bits]
  unfold defaultEvaGetXCoordDram
  simp only [bind_eq_ok, shr_eq_ok, h.stripe_bits, pure, Except.pure]
  constructor
  · rintro ⟨shifted, ⟨hs, rfl⟩, hx⟩
    have hadd : (eva >>> defaultGetDramStripeSizeLog mc &&& defaultGetDramXBitidx mc.config).toNat +
        (podVcoreOrigin mc.config (pod mc.config src)).x.toNat =
        (defaultDramMinXCoord mc.config src).toNat + eva.toNat / 2 ^ s % 2 ^ k := by
      rw [hfield hs, Nat.add_comm]
      rfl
    simp only [gt_iff_lt, UInt32.lt_iff_toNat_lt, UInt32.toNat_add, hadd] at hx
    split at hx
    · cases hx
    · next hin =>
      simp only [Except.ok.injEq, ← UInt32.toNat_inj, UInt32.toNat_add, hadd] at hx
      omega
  · rintro ⟨hs, hroom, hlt, hx⟩
    refine ⟨_, ⟨hs, rfl⟩, ?_⟩
    have hadd : (eva >>> defaultGetDramStripeSizeLog mc &&& defaultGetDramXBitidx mc.config).toNat +
        (podVcoreOrigin mc.config (pod mc.config src)).x.toNat =
        (defaultDramMinXCoord mc.config src).toNat + eva.toNat / 2 ^ s % 2 ^ k := by
      rw [hfield hs, Nat.add_comm]
      rfl
    simp only [gt_iff_lt, UInt32.lt_iff_toNat_lt, UInt32.toNat_add, hadd]
    rw [if_neg (by omega), Except.ok.injEq, ← UInt32.toNat_inj, UInt32.toNat_add, hadd, hx]
    exact Nat.mod_eq_of_lt (by omega)

theorem southBit_iff (h : Fields mc s k) (hlt : s + k < 32) :
    (eva >>> (defaultGetDramStripeSizeLog mc + defaultGetXDimlog mc.config) &&& 1 ≠ 0) ↔
      eva.toNat / 2 ^ (s + k) % 2 = 1 := by
  have hbit : (eva >>> (defaultGetDramStripeSizeLog mc + defaultGetXDimlog mc.config) &&&
      1).toNat = eva.toNat / 2 ^ (s + k) % 2 := by
    rw [UInt32.toNat_and, shiftRight_toNat (by rw [h.shift_toNat]; exact hlt), h.shift_toNat]
    exact Nat.and_one_is_mod _
  rw [ne_eq, ← UInt32.toNat_inj, hbit]
  simp only [UInt32.reduceToNat]
  omega

theorem getYCoordDram_eq_ok (h : Fields mc s k) {y : UInt32} :
    defaultEvaGetYCoordDram mc src eva = .ok y ↔
      s + k < 32 ∧ y = if eva.toNat / 2 ^ (s + k) % 2 = 1
        then podDramSouthY mc.config (pod mc.config src)
        else podDramNorthY mc.config (pod mc.config src) := by
  unfold defaultEvaGetYCoordDram
  simp only [bind_eq_ok, shr_eq_ok, h.shift_toNat, pure, Except.pure, Except.ok.injEq]
  constructor
  · rintro ⟨r, ⟨hlt, rfl⟩, rfl⟩
    refine ⟨hlt, ?_⟩
    simp only [southBit_iff h hlt]
  · rintro ⟨hlt, rfl⟩
    refine ⟨_, ⟨hlt, rfl⟩, ?_⟩
    simp only [southBit_iff h hlt]

def bankOffset (s k e : ℕ) : ℕ := e % 2 ^ s + e % 2 ^ 31 / 2 ^ (s + k + 1) * 2 ^ s

theorem bankOffset_lt {e : ℕ} (hs : s < 32) : bankOffset s k e < 2 ^ 31 := by
  have hq : e % 2 ^ 31 / 2 ^ (s + k + 1) ≤ e % 2 ^ 31 / 2 ^ (s + 1) :=
    Nat.div_le_div_left (Nat.pow_le_pow_right (by omega) (by omega)) (Nat.two_pow_pos _)
  have hq2 : e % 2 ^ 31 / 2 ^ (s + 1) * 2 ^ s * 2 ≤ e % 2 ^ 31 := by
    rw [Nat.mul_assoc, ← Nat.pow_succ]
    exact Nat.div_mul_le_self _ _
  have hq3 := Nat.mul_le_mul_right (2 ^ s) hq
  unfold bankOffset
  rcases Nat.lt_or_ge s 31 with h31 | h31
  · have hm : e % 2 ^ s < 2 ^ s := Nat.mod_lt _ (Nat.two_pow_pos s)
    have hp : 2 ^ s ≤ 2 ^ 30 := Nat.pow_le_pow_right (by omega) (by omega)
    have he : e % 2 ^ 31 < 2 ^ 31 := Nat.mod_lt _ (by omega)
    omega
  · have he : s = 31 := by omega
    subst he
    have he : e % 2 ^ 31 < 2 ^ 31 := Nat.mod_lt _ (by omega)
    have hz : e % 2 ^ 31 / 2 ^ (31 + 1) = 0 := Nat.div_eq_of_lt (by omega)
    omega

theorem maxDramSz_eq (mc : Manycore) :
    (addrBits mc ≤ 31 ∧ ∃ n, maxDramSz (defaultGetDramBitwidth mc) = .ok n ∧
      ∀ m < 2 ^ 31, m < n ↔ m < 2 ^ addrBits mc) ∨
    (31 < addrBits mc ∧ maxDramSz (defaultGetDramBitwidth mc) = .error .undefined) := by
  unfold maxDramSz addrBits
  have hlt : defaultGetDramBitwidth mc < 31 ↔ (defaultGetDramBitwidth mc).toNat < 31 :=
    UInt32.lt_iff_toNat_lt
  have heq : defaultGetDramBitwidth mc = 31 ↔ (defaultGetDramBitwidth mc).toNat = 31 := by
    rw [← UInt32.toNat_inj]
    rfl
  rcases Nat.lt_trichotomy (defaultGetDramBitwidth mc).toNat 31 with h31 | h31 | h31
  · exact Or.inl ⟨h31.le, _, if_pos (hlt.mpr h31), fun m _ => Iff.rfl⟩
  · refine Or.inl ⟨h31.le, 2 ^ 64 - 2 ^ 31, ?_, fun m hm => ?_⟩
    · rw [if_neg (fun hc => absurd (hlt.mp hc) (by omega)), if_pos (heq.mpr h31)]
    · rw [h31]
      omega
  · refine Or.inr ⟨h31, ?_⟩
    rw [if_neg (fun hc => absurd (hlt.mp hc) (by omega)),
      if_neg (fun hc => absurd (heq.mp hc) (by omega))]

theorem getEpaDram_eq_ok (h : Fields mc s k) (hlt : s + k < 32) {epa : UInt32} {sz : ℕ} :
    defaultEvaGetEpaDram mc eva = .ok (epa, sz) ↔
      addrBits mc ≤ 31 ∧ bankOffset s k eva.toNat < 2 ^ addrBits mc ∧
      epa.toNat = bankOffset s k eva.toNat ∧ sz = 2 ^ s - eva.toNat % 2 ^ s := by
  have hs : s < 32 := by omega
  have hoff := bankOffset_lt (s := s) (k := k) (e := eva.toNat) hs
  have hlow : (eva.toUInt64 &&& lowMask (defaultGetDramStripeSizeLog mc)).toNat =
      eva.toNat % 2 ^ s := by
    rw [and_lowMask (by rw [h.stripe_bits]; omega), h.stripe_bits, UInt32.toNat_toUInt64]
  have hmod : eva.toNat % 2 ^ s < 2 ^ s := Nat.mod_lt _ (Nat.two_pow_pos s)
  have hps : 2 ^ s < 2 ^ 32 := pow_lt_word hs
  have htop : ((eva.toUInt64 &&& lowMask defaultDramBitidx) >>>
      (defaultGetDramStripeSizeLog mc + defaultGetXDimlog mc.config + 1).toUInt64 <<<
      (defaultGetDramStripeSizeLog mc).toUInt64).toNat =
      eva.toNat % 2 ^ 31 / 2 ^ (s + k + 1) * 2 ^ s := by
    rw [shiftLeft64_toNat (by rw [h.stripe_bits]; omega),
      shiftRight64_toNat (by rw [h.shift_succ_toNat]; omega), h.shift_succ_toNat,
      h.stripe_bits, and_lowMask (by decide), UInt32.toNat_toUInt64]
    refine Nat.mod_eq_of_lt (lt_of_le_of_lt (Nat.le_add_left _ (eva.toNat % 2 ^ s)) ?_)
    exact lt_trans hoff (by norm_num)
  have hepa : ((eva.toUInt64 &&& lowMask (defaultGetDramStripeSizeLog mc)).toUInt32 |||
      ((eva.toUInt64 &&& lowMask defaultDramBitidx) >>>
      (defaultGetDramStripeSizeLog mc + defaultGetXDimlog mc.config + 1).toUInt64 <<<
      (defaultGetDramStripeSizeLog mc).toUInt64).toUInt32).toNat =
      bankOffset s k eva.toNat := by
    have hb : bankOffset s k eva.toNat =
      eva.toNat % 2 ^ s + eva.toNat % 2 ^ 31 / 2 ^ (s + k + 1) * 2 ^ s := rfl
    have h1 : eva.toNat % 2 ^ s < 2 ^ 32 := by omega
    have h2 : eva.toNat % 2 ^ 31 / 2 ^ (s + k + 1) * 2 ^ s < 2 ^ 32 := by omega
    rw [UInt32.toNat_or, UInt64.toNat_toUInt32, UInt64.toNat_toUInt32, hlow, htop,
      Nat.mod_eq_of_lt h1, Nat.mod_eq_of_lt h2, or_fields _ hmod]
    rfl
  have hstripe : ((1 : UInt32) <<< defaultGetDramStripeSizeLog mc).toNat = 2 ^ s := by
    rw [shiftLeft_toNat (by rw [h.stripe_bits]; exact hs), h.stripe_bits]
    simpa using hps
  have hshl : shl 1 (defaultGetDramStripeSizeLog mc) =
      .ok (1 <<< defaultGetDramStripeSizeLog mc) :=
    shl_eq_ok.mpr ⟨by rw [h.stripe_bits]; exact hs, rfl⟩
  unfold defaultEvaGetEpaDram
  simp only [shr64_of_lt (by rw [h.shift_succ_toNat]; omega : UInt32.toNat _ < 64),
    shl64_of_lt (by rw [h.stripe_bits]; omega : UInt32.toNat _ < 64), hshl, bind, Except.bind,
    pure, Except.pure]
  rcases maxDramSz_eq mc with ⟨ha, n, hn, hbound⟩ | ⟨ha, hn⟩
  · simp only [hn, hepa, hstripe, hlow, ge_iff_le]
    have hiff := hbound _ hoff
    split
    · next hge =>
      simp only [reduceCtorEq, false_iff]
      rintro ⟨-, hlt, -⟩
      omega
    · next hlt =>
      simp only [Except.ok.injEq, Prod.mk.injEq, ← UInt32.toNat_inj, hepa]
      constructor
      · rintro ⟨h1, h2⟩
        exact ⟨ha, hiff.mp (by omega), h1.symm, h2.symm⟩
      · rintro ⟨-, -, h1, h2⟩
        exact ⟨h1.symm, h2.symm⟩
  · simp only [hn, reduceCtorEq, false_iff]
    rintro ⟨h1, -⟩
    omega

theorem evaToNpaDram_segment {npa : Npa} {sz : ℕ} (h : Fields mc s k)
    (ht : defaultEvaToNpaDram mc src eva = .ok (npa, sz)) :
    s < 32 ∧ sz = 2 ^ s - eva.toNat % 2 ^ s ∧ npa.epa.toNat % 2 ^ s = eva.toNat % 2 ^ s := by
  unfold defaultEvaToNpaDram at ht
  simp only [bind_eq_ok, getYCoordDram_eq_ok h, Prod.exists, pure, Except.pure, Except.ok.injEq,
    Prod.mk.injEq] at ht
  obtain ⟨x, -, y, ⟨hlt, -⟩, epa, n, he, rfl, rfl⟩ := ht
  rw [getEpaDram_eq_ok h hlt] at he
  obtain ⟨-, -, hepa, hn⟩ := he
  refine ⟨by omega, hn, ?_⟩
  rw [hepa, bankOffset, Nat.add_mul_mod_self_right]
  exact Nat.mod_mod _ _

/-- When a DRAM address translates, and where to. -/
theorem evaToNpaDram_eq_ok_of_fields (h : Fields mc s k) (hc : 0 < mc.config.podShape.x.toNat)
    {npa : Npa} {sz : ℕ} :
    defaultEvaToNpaDram mc src eva = .ok (npa, sz) ↔
      s + k < 32 ∧ addrBits mc ≤ 31 ∧
      (defaultDramMinXCoord mc.config src).toNat + mc.config.podShape.x.toNat ≤ 2 ^ 32 ∧
      eva.toNat / 2 ^ s % 2 ^ k < mc.config.podShape.x.toNat ∧
      bankOffset s k eva.toNat < 2 ^ addrBits mc ∧
      npa.x.toNat = (defaultDramMinXCoord mc.config src).toNat + eva.toNat / 2 ^ s % 2 ^ k ∧
      (npa.y = if eva.toNat / 2 ^ (s + k) % 2 = 1
        then podDramSouthY mc.config (pod mc.config src)
        else podDramNorthY mc.config (pod mc.config src)) ∧
      npa.epa.toNat = bankOffset s k eva.toNat ∧ sz = 2 ^ s - eva.toNat % 2 ^ s := by
  unfold defaultEvaToNpaDram
  simp only [bind_eq_ok, getXCoordDram_eq_ok h hc, getYCoordDram_eq_ok h, Prod.exists,
    pure, Except.pure, Except.ok.injEq, Prod.mk.injEq]
  constructor
  · rintro ⟨x, ⟨-, hx1, hx2, hx3⟩, y, ⟨hlt, hy⟩, epa, sz', he, rfl, rfl⟩
    rw [getEpaDram_eq_ok h hlt] at he
    obtain ⟨ha, hb, he, hsz⟩ := he
    exact ⟨hlt, ha, hx1, hx2, hb, hx3, hy, he, hsz⟩
  · rintro ⟨hlt, ha, hx1, hx2, hb, hx3, hy, he, hsz⟩
    refine ⟨npa.x, ⟨by omega, hx1, hx2, hx3⟩, npa.y, ⟨hlt, hy⟩, npa.epa, sz, ?_, rfl, rfl⟩
    rw [getEpaDram_eq_ok h hlt]
    exact ⟨ha, hb, he, hsz⟩

theorem evaToNpaDram_eq_ok (h : Striped mc s k) {npa : Npa} {sz : ℕ} :
    defaultEvaToNpaDram mc src eva = .ok (npa, sz) ↔
      s + k < 32 ∧ addrBits mc ≤ 31 ∧
      (defaultDramMinXCoord mc.config src).toNat + 2 ^ k ≤ 2 ^ 32 ∧
      bankOffset s k eva.toNat < 2 ^ addrBits mc ∧
      npa.x.toNat = (defaultDramMinXCoord mc.config src).toNat + eva.toNat / 2 ^ s % 2 ^ k ∧
      (npa.y = if eva.toNat / 2 ^ (s + k) % 2 = 1
        then podDramSouthY mc.config (pod mc.config src)
        else podDramNorthY mc.config (pod mc.config src)) ∧
      npa.epa.toNat = bankOffset s k eva.toNat ∧ sz = 2 ^ s - eva.toNat % 2 ^ s := by
  have hcol : eva.toNat / 2 ^ s % 2 ^ k < 2 ^ k := Nat.mod_lt _ (Nat.two_pow_pos k)
  rw [evaToNpaDram_eq_ok_of_fields h.fields h.columns_pos, h.columns]
  exact ⟨fun ⟨h1, h2, h3, _, h5⟩ => ⟨h1, h2, h3, h5⟩,
    fun ⟨h1, h2, h3, h5⟩ => ⟨h1, h2, h3, hcol, h5⟩⟩

end Fields

end DramTranslation
