import Mathlib.Data.List.Basic
import Mathlib.Data.Nat.Notation

/-! # Loops of a bounded number of turns

The values that a loop variable takes, and loops whose turns return or go on. An enumeration of
the values, or a measure that every turn lowers, shows that a loop stops by itself. -/
namespace Loops

section For

variable {α : Type*} {test : α → Bool} {step : α → α}

def visited (test : α → Bool) (step : α → α) : ℕ → α → List α
  | 0, _ => []
  | fuel + 1, a => if test a then a :: visited test step fuel (step a) else []

/-- The loop takes the values `f 0`, …, `f (n - 1)` and is left at `f n`. -/
structure Enumerates (test : α → Bool) (step : α → α) (n : ℕ) (f : ℕ → α) : Prop where
  inside : ∀ i < n, test (f i) = true
  outside : test (f n) = false
  step : ∀ i < n, step (f i) = f (i + 1)

theorem visited_of_stop {a : α} (h : test a = false) (fuel : ℕ) :
    visited test step fuel a = [] := by
  cases fuel with
  | zero => rfl
  | succ fuel => simp only [visited, h, Bool.false_eq_true, if_false]

theorem Enumerates.visited_from {n : ℕ} {f : ℕ → α} (h : Enumerates test step n f)
    {i fuel : ℕ} (hi : i ≤ n) (hf : n - i ≤ fuel) :
    visited test step fuel (f i) = (List.range' i (n - i)).map f := by
  induction fuel generalizing i with
  | zero =>
    have he : n - i = 0 := Nat.le_zero.mp hf
    rw [he]
    rfl
  | succ fuel ih =>
    by_cases hn : i = n
    · subst hn
      rw [visited_of_stop h.outside, Nat.sub_self]
      rfl
    · have hlt : i < n := Nat.lt_of_le_of_ne hi hn
      have hk : n - i = n - (i + 1) + 1 := by omega
      simp only [visited, h.inside i hlt, if_true, h.step i hlt]
      rw [ih hlt (by omega), hk, List.range'_succ, List.map_cons]

theorem Enumerates.visited_eq {n : ℕ} {f : ℕ → α} (h : Enumerates test step n f) {fuel : ℕ}
    (hf : n ≤ fuel) : visited test step fuel (f 0) = (List.range n).map f := by
  rw [h.visited_from (Nat.zero_le n) hf, Nat.sub_zero, List.range_eq_range']

end For

section Iterate

variable {σ ρ : Type*} {step : σ → σ ⊕ ρ}

/-- What the loop returns from a state, if it returns within `fuel` turns. -/
def iterate (step : σ → σ ⊕ ρ) : ℕ → σ → Option ρ
  | 0, _ => none
  | fuel + 1, s =>
    match step s with
    | .inl t => iterate step fuel t
    | .inr r => some r

theorem iterate_inl {s t : σ} (h : step s = .inl t) (fuel : ℕ) :
    iterate step (fuel + 1) s = iterate step fuel t := by
  simp only [iterate, h]

theorem iterate_inr {s : σ} {r : ρ} (h : step s = .inr r) (fuel : ℕ) :
    iterate step (fuel + 1) s = some r := by
  simp only [iterate, h]

/-- A relation between a state and what the loop returns from it, which each turn carries back. -/
theorem iterate_rule {R : σ → ρ → Prop} (hinr : ∀ s r, step s = .inr r → R s r)
    (hinl : ∀ s t r, step s = .inl t → R t r → R s r) {fuel : ℕ} {s : σ} {r : ρ}
    (h : iterate step fuel s = some r) : R s r := by
  induction fuel generalizing s with
  | zero => cases h
  | succ fuel ih =>
    cases hs : step s with
    | inl t =>
      rw [iterate_inl hs] at h
      exact hinl s t r hs (ih h)
    | inr r' =>
      rw [iterate_inr hs] at h
      cases h
      exact hinr s r hs

theorem iterate_returns {measure : σ → ℕ}
    (h : ∀ s t, step s = .inl t → measure t < measure s) (s : σ) :
    ∃ r, ∀ fuel, measure s < fuel → iterate step fuel s = some r := by
  induction hm : measure s using Nat.strongRecOn generalizing s with
  | _ m ih =>
    cases hs : step s with
    | inl t =>
      have hlt := h s t hs
      obtain ⟨r, hr⟩ := ih (measure t) (hm ▸ hlt) t rfl
      refine ⟨r, fun fuel hf => ?_⟩
      obtain ⟨k, rfl⟩ : ∃ k, fuel = k + 1 := ⟨fuel - 1, by omega⟩
      rw [iterate_inl hs]
      exact hr k (by omega)
    | inr r =>
      refine ⟨r, fun fuel hf => ?_⟩
      obtain ⟨k, rfl⟩ : ∃ k, fuel = k + 1 := ⟨fuel - 1, by omega⟩
      exact iterate_inr hs k

end Iterate

end Loops
