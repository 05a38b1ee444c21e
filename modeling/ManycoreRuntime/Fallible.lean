import Mathlib.Data.List.Basic

/-! # Computations that may fail

Sequences, and loops over a list whose turns may fail. -/
namespace Fallible

theorem bind_eq_ok {ε α β : Type} {x : Except ε α} {f : α → Except ε β} {b : β} :
    x >>= f = .ok b ↔ ∃ a, x = .ok a ∧ f a = .ok b := by
  cases x <;> simp [bind, Except.bind]

variable {ε α σ : Type} {f : σ → α → Except ε σ}

theorem foldlM_total {l : List α} (hstep : ∀ s, ∀ a ∈ l, ∃ t, f s a = .ok t) (s : σ) :
    ∃ t, l.foldlM f s = .ok t := by
  induction l generalizing s with
  | nil => exact ⟨s, rfl⟩
  | cons a l ih =>
    obtain ⟨t, ht⟩ := hstep s a List.mem_cons_self
    obtain ⟨u, hu⟩ := ih (fun s b hb => hstep s b (List.mem_cons_of_mem a hb)) t
    refine ⟨u, ?_⟩
    rw [List.foldlM_cons, bind_eq_ok]
    exact ⟨t, ht, hu⟩

/-- What a turn establishes for its element (`Q`) stands at the end of the loop, when it stands
along the relation `R` between the states before and after a turn. -/
theorem foldlM_ok {R : σ → σ → Prop} {Q : α → σ → Prop} (hrefl : ∀ s, R s s)
    (htrans : ∀ s t u, R s t → R t u → R s u) (hQ : ∀ a s t, R s t → Q a s → Q a t)
    {l : List α} (hstep : ∀ s t, ∀ a ∈ l, f s a = .ok t → R s t ∧ Q a t) {s t : σ}
    (h : l.foldlM f s = .ok t) : R s t ∧ ∀ a ∈ l, Q a t := by
  induction l generalizing s with
  | nil =>
    cases h
    exact ⟨hrefl _, fun a ha => absurd ha List.not_mem_nil⟩
  | cons a l ih =>
    rw [List.foldlM_cons, bind_eq_ok] at h
    obtain ⟨u, hu, h⟩ := h
    obtain ⟨hR, hq⟩ := hstep s u a List.mem_cons_self hu
    obtain ⟨hR', hall⟩ := ih (fun s t b hb => hstep s t b (List.mem_cons_of_mem a hb)) h
    refine ⟨htrans _ _ _ hR hR', fun b hb => ?_⟩
    rcases List.mem_cons.mp hb with rfl | hb
    · exact hQ _ _ _ hR' hq
    · exact hall b hb

theorem foldlM_ok_mem {l : List α} {s t : σ} (h : l.foldlM f s = .ok t) :
    ∀ a ∈ l, ∃ u v, f u a = .ok v :=
  (foldlM_ok (R := fun _ _ => True) (Q := fun a _ => ∃ u v, f u a = .ok v)
    (fun _ => trivial) (fun _ _ _ _ _ => trivial) (fun _ _ _ _ hq => hq)
    (fun s t _ _ ht => ⟨trivial, s, t, ht⟩) h).2

end Fallible
