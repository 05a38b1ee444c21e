import Mathlib.Data.List.Range
import Mathlib.Data.List.Nodup
import Mathlib.Data.List.Perm.Basic

/-! # Numbers shared out between two lists

Every number below a bound is in exactly one place of exactly one of two lists. Tickets that
are free or taken, and jobs that are done or under way, are shared in this way. -/
namespace Sharing

def Shares (n : ℕ) (a b : List ℕ) : Prop := (a ++ b).Perm (List.range n)

namespace Shares

variable {n x : ℕ} {a b b₁ b₂ : List ℕ}

theorem all (n : ℕ) : Shares n (List.range n) [] := by
  rw [Shares, List.append_nil]

theorem none : Shares 0 [] [] := List.Perm.refl _

theorem nodup (h : Shares n a b) : (a ++ b).Nodup := h.nodup_iff.mpr List.nodup_range

theorem mem_or_mem_iff (h : Shares n a b) : x ∈ a ∨ x ∈ b ↔ x < n := by
  rw [← List.mem_append, h.mem_iff, List.mem_range]

theorem lt_of_mem_left (h : Shares n a b) (hx : x ∈ a) : x < n :=
  h.mem_or_mem_iff.mp (Or.inl hx)

theorem lt_of_mem_right (h : Shares n a b) (hx : x ∈ b) : x < n :=
  h.mem_or_mem_iff.mp (Or.inr hx)

theorem not_mem_right (h : Shares n a b) (hx : x ∈ a) : x ∉ b :=
  fun hb => (List.disjoint_of_nodup_append h.nodup) hx hb

theorem length (h : Shares n a b) : a.length + b.length = n := by
  rw [← List.length_append, h.length_eq, List.length_range]

theorem take (h : Shares n (x :: a) b) : Shares n a (x :: b) :=
  List.perm_middle.trans h

theorem give (h : Shares n a (b₁ ++ x :: b₂)) : Shares n (x :: a) (b₁ ++ b₂) := by
  refine List.Perm.trans ?_ h
  rw [← List.append_assoc, List.cons_append, ← List.append_assoc]
  exact List.perm_middle.symm

theorem grow (h : Shares n a b) : Shares (n + 1) a (n :: b) := by
  refine List.perm_middle.trans ?_
  rw [List.range_succ]
  exact (h.cons n).trans (List.perm_append_singleton n (List.range n)).symm

/-- Once the first list has them all, nothing is left for the second. -/
theorem perm_of_le (h : Shares n a b) (hn : n ≤ a.length) : a.Perm (List.range n) := by
  have hl := h.length
  have hb : b = [] := List.eq_nil_of_length_eq_zero (by omega)
  rw [Shares, hb, List.append_nil] at h
  exact h

end Shares

end Sharing
