import Mathlib.Data.Nat.Bitwise
import Mathlib.Data.Set.Function
import Mathlib.Data.Finset.Card
import Mathlib.Order.Interval.Finset.Nat
import Mathlib.Algebra.Order.Ring.Nat
import Mathlib.Tactic.Ring

/-! # Words gathered from the bits of a word

A list of bit positions reads a word of its own out of a word, lowest bit first. Where the
positions are those of `n` bits, each once, it is a bijection of the `n`-bit words; where the
positions around one that a carry reaches are in order, it goes up by one with its argument. -/
namespace BitGather

def gather : List ℕ → ℕ → ℕ
  | [], _ => 0
  | s :: σ, a => (a.testBit s).toNat + 2 * gather σ a

@[simp] theorem gather_nil (a : ℕ) : gather [] a = 0 := rfl

@[simp] theorem gather_cons (s : ℕ) (σ : List ℕ) (a : ℕ) :
    gather (s :: σ) a = (a.testBit s).toNat + 2 * gather σ a := rfl

theorem gather_lt (σ : List ℕ) (a : ℕ) : gather σ a < 2 ^ σ.length := by
  induction σ with
  | nil => simp
  | cons s σ ih =>
    have hs := Bool.toNat_lt (a.testBit s)
    simp only [gather_cons, List.length_cons, pow_succ]
    omega

/-- A list of positions above another one. -/
theorem gather_append (σ τ : List ℕ) (a : ℕ) :
    gather (σ ++ τ) a = gather σ a + 2 ^ σ.length * gather τ a := by
  induction σ with
  | nil => simp
  | cons s σ ih =>
    simp only [List.cons_append, gather_cons, List.length_cons, ih, pow_succ]
    ring

theorem gather_range' (start width a : ℕ) :
    gather (List.range' start width) a = a / 2 ^ start % 2 ^ width := by
  induction width generalizing start with
  | zero => simp [Nat.mod_one]
  | succ width ih =>
    have hbit : (a.testBit start).toNat = a / 2 ^ start % 2 := by
      rw [Nat.testBit_eq_decide_div_mod_eq]
      rcases Nat.mod_two_eq_zero_or_one (a / 2 ^ start) with h | h <;> simp [h]
    have hnext : a / 2 ^ (start + 1) = a / 2 ^ start / 2 := by
      rw [pow_succ, Nat.div_div_eq_div_mul]
    rw [List.range'_succ, gather_cons, ih, hbit, hnext, pow_succ', Nat.mod_mul]

theorem testBit_gather (σ : List ℕ) (a i : ℕ) :
    (gather σ a).testBit i = (σ[i]?.map a.testBit).getD false := by
  induction σ generalizing i with
  | nil => simp
  | cons s σ ih =>
    have hs := Bool.toNat_lt (a.testBit s)
    cases i with
    | zero =>
      cases hb : a.testBit s <;> simp [Nat.testBit_zero, hb]
    | succ i =>
      have hd : ((a.testBit s).toNat + 2 * gather σ a) / 2 = gather σ a := by omega
      simp only [gather_cons, Nat.testBit_succ, hd, ih, List.getElem?_cons_succ]

/-- A word that differs from another differs at a position listed. -/
theorem gather_injOn {σ : List ℕ} {n : ℕ} (h : ∀ i < n, i ∈ σ) :
    Set.InjOn (gather σ) (Set.Iio (2 ^ n)) := by
  intro a ha b hb hab
  apply Nat.eq_of_testBit_eq
  intro i
  by_cases hi : i < n
  · obtain ⟨j, hj⟩ := List.mem_iff_getElem?.mp (h i hi)
    have := congrArg (fun v => v.testBit j) hab
    simpa only [testBit_gather, hj, Option.map_some, Option.getD_some] using this
  · have hn : 2 ^ n ≤ 2 ^ i := Nat.pow_le_pow_right (by omega) (by omega)
    rw [Nat.testBit_lt_two_pow (lt_of_lt_of_le ha hn),
      Nat.testBit_lt_two_pow (lt_of_lt_of_le hb hn)]

theorem gather_bijOn {σ : List ℕ} {n : ℕ} (hlen : σ.length = n) (h : ∀ i < n, i ∈ σ) :
    Set.BijOn (gather σ) (Set.Iio (2 ^ n)) (Set.Iio (2 ^ n)) := by
  have hmaps : Set.MapsTo (gather σ) (Set.Iio (2 ^ n)) (Set.Iio (2 ^ n)) := fun a _ => by
    have := gather_lt σ a
    rwa [hlen] at this
  have hinj := gather_injOn h
  rw [← Finset.coe_Iio] at hmaps hinj ⊢
  exact ⟨hmaps, hinj, Finset.surjOn_of_injOn_of_card_le _ hmaps hinj le_rfl⟩

/-- Around the position `t`, what is gathered below comes from below and what is gathered above
comes from above. -/
def InOrder (σ : List ℕ) (t : ℕ) : Prop :=
  ∃ below above, σ = below ++ t :: above ∧ (∀ s ∈ below, s < t) ∧ ∀ s ∈ above, t < s

def CarryAt (b t : ℕ) : Prop := b % 2 ^ (t + 1) = 2 ^ t - 1

theorem exists_carryAt (b : ℕ) : ∃ t, CarryAt b t := by
  induction b using Nat.strongRecOn with
  | ind b ih =>
    unfold CarryAt at ih ⊢
    by_cases hb : b % 2 = 0
    · exact ⟨0, by simpa using hb⟩
    · obtain ⟨t, ht⟩ := ih (b / 2) (by omega)
      refine ⟨t + 1, ?_⟩
      have hpos := Nat.two_pow_pos t
      rw [pow_succ' 2 (t + 1), Nat.mod_mul, ht, pow_succ]
      omega

section Carry

variable {b t : ℕ}

theorem CarryAt.eq_add (h : CarryAt b t) : b = 2 ^ (t + 1) * (b / 2 ^ (t + 1)) + (2 ^ t - 1) := by
  have := Nat.div_add_mod b (2 ^ (t + 1))
  rw [h] at this
  exact this.symm

theorem CarryAt.testBit (h : CarryAt b t) (s : ℕ) :
    b.testBit s = if s < t + 1 then decide (s < t)
      else (b / 2 ^ (t + 1)).testBit (s - (t + 1)) := by
  have hpos := Nat.two_pow_pos t
  have hlt : 2 ^ t - 1 < 2 ^ (t + 1) := by
    rw [pow_succ]
    omega
  conv_lhs => rw [h.eq_add]
  rw [Nat.testBit_two_pow_mul_add _ hlt, Nat.testBit_two_pow_sub_one]

theorem CarryAt.testBit_succ (h : CarryAt b t) (s : ℕ) :
    (b + 1).testBit s = if s < t + 1 then decide (t = s)
      else (b / 2 ^ (t + 1)).testBit (s - (t + 1)) := by
  have hpos := Nat.two_pow_pos t
  have hlt : 2 ^ t < 2 ^ (t + 1) := by
    rw [pow_succ]
    omega
  have hsucc : b + 1 = 2 ^ (t + 1) * (b / 2 ^ (t + 1)) + 2 ^ t := by
    have := h.eq_add
    omega
  conv_lhs => rw [hsucc]
  rw [Nat.testBit_two_pow_mul_add _ hlt, Nat.testBit_two_pow]

theorem CarryAt.gather_eq_iff (h : CarryAt b t) (σ : List ℕ) :
    gather σ (b + 1) = gather σ b ↔ ∀ s ∈ σ, t < s := by
  induction σ with
  | nil => simp
  | cons s σ ih =>
    simp only [gather_cons, List.forall_mem_cons, h.testBit, h.testBit_succ, ← ih]
    rcases lt_trichotomy s t with hs | rfl | hs
    · simp only [show s < t + 1 by omega, if_true, hs, show t ≠ s by omega, decide_true,
        decide_false, Bool.toNat_true, Bool.toNat_false, hs.not_gt, false_and, iff_false]
      omega
    · simp only [show s < s + 1 by omega, if_true, lt_irrefl, decide_true, decide_false,
        Bool.toNat_true, Bool.toNat_false, false_and, iff_false]
      omega
    · simp only [show ¬ s < t + 1 by omega, if_false, hs, true_and]
      omega

theorem inOrder_nil : ¬ InOrder [] t := by
  rintro ⟨below, above, h, -⟩
  simp at h

theorem inOrder_cons {s : ℕ} {σ : List ℕ} :
    InOrder (s :: σ) t ↔ (s < t ∧ InOrder σ t) ∨ (s = t ∧ ∀ r ∈ σ, t < r) := by
  constructor
  · rintro ⟨below, above, h, hbelow, habove⟩
    cases below with
    | nil =>
      obtain ⟨rfl, rfl⟩ := List.cons.inj h
      exact .inr ⟨rfl, habove⟩
    | cons r below =>
      obtain ⟨rfl, rfl⟩ := List.cons.inj h
      obtain ⟨hr, hbelow⟩ := List.forall_mem_cons.mp hbelow
      exact .inl ⟨hr, below, above, rfl, hbelow, habove⟩
  · rintro (⟨hs, below, above, rfl, hbelow, habove⟩ | ⟨rfl, habove⟩)
    · exact ⟨s :: below, above, rfl, List.forall_mem_cons.mpr ⟨hs, hbelow⟩, habove⟩
    · exact ⟨[], σ, rfl, by simp, habove⟩

/-- A gathered word goes up by one with its argument exactly if the positions around the carry
are in order. -/
theorem CarryAt.gather_succ_iff (h : CarryAt b t) (σ : List ℕ) :
    gather σ (b + 1) = gather σ b + 1 ↔ InOrder σ t := by
  induction σ with
  | nil => simp [inOrder_nil]
  | cons s σ ih =>
    simp only [inOrder_cons, ← ih, ← h.gather_eq_iff, gather_cons, h.testBit, h.testBit_succ]
    rcases lt_trichotomy s t with hs | rfl | hs
    · -- the bit falls from one to zero and carries on
      simp only [show s < t + 1 by omega, if_true, hs, show t ≠ s by omega, hs.ne, decide_true,
        decide_false, Bool.toNat_true, Bool.toNat_false, true_and, false_and, or_false]
      omega
    · -- the bit rises, and nothing above it may change
      simp only [show s < s + 1 by omega, if_true, lt_irrefl, decide_true, decide_false,
        Bool.toNat_true, Bool.toNat_false, false_and, false_or, true_and]
      omega
    · -- the bit stays, so the sum changes by an even amount
      simp only [show ¬ s < t + 1 by omega, if_false, hs.not_gt, hs.ne', false_and, or_false,
        iff_false]
      omega

end Carry

/-- The positions are in order around every carry inside a range. -/
def CarriesInOrder (σ : List ℕ) (b n : ℕ) : Prop :=
  ∀ k, k + 1 < n → ∀ t, CarryAt (b + k) t → InOrder σ t

/-- A range is gathered into a range exactly if the positions are in order around its carries. -/
theorem gather_add_iff (σ : List ℕ) (b n : ℕ) :
    (∀ k < n, gather σ (b + k) = gather σ b + k) ↔ CarriesInOrder σ b n := by
  constructor
  · intro h k hk t ht
    apply (ht.gather_succ_iff σ).mp
    have hnext := h (k + 1) hk
    have hthis := h k (by omega)
    rw [← add_assoc] at hnext
    omega
  · intro h k hk
    induction k with
    | zero => rfl
    | succ k ih =>
      obtain ⟨t, ht⟩ := exists_carryAt (b + k)
      have hstep := (ht.gather_succ_iff σ).mpr (h k hk t ht)
      rw [← add_assoc, hstep, ih (by omega)]
      omega

end BitGather
