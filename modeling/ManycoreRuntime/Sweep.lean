import Mathlib.Data.List.Basic

/-! # Sweeps over items that may not fit

A sweep attempts each item that is ready, once and in order. An attempt at an item that does not
fit changes nothing, and what does not fit before a success does not fit after it. So it is enough
to remember one key that did not fit: the sweep that skips the items with this key does the
same. -/
namespace Sweep

/-- The key of an item is there while the item is ready; an attempt has no result when the item
does not fit. -/
structure Task (ι κ ε σ : Type) where
  key : ι → σ → Option κ
  attempt : ι → σ → Option (Except ε Unit × σ)

section Definitions

variable {ι κ ε σ : Type} (T : Task ι κ ε σ)

def sweep : List ι → σ → Except ε Unit × σ
  | [], s => (.ok (), s)
  | i :: rest, s =>
    match T.key i s with
    | none => sweep rest s
    | some _ =>
      match T.attempt i s with
      | none => sweep rest s
      | some (.error e, s) => (.error e, s)
      | some (.ok _, s) => sweep rest s

def sweepSkipping [DecidableEq κ] : List ι → κ → σ → Except ε Unit × σ
  | [], _, s => (.ok (), s)
  | i :: rest, lastFailed, s =>
    match T.key i s with
    | none => sweepSkipping rest lastFailed s
    | some k =>
      if lastFailed = k then sweepSkipping rest lastFailed s
      else
        match T.attempt i s with
        | none => sweepSkipping rest k s
        | some (.error e, s) => (.error e, s)
        | some (.ok _, s) => sweepSkipping rest lastFailed s

/-- The key alone decides whether a ready item fits; a success leaves the other items as they are,
its own item not ready, and lets nothing fit that did not fit before. -/
structure Lawful (Inv : σ → Prop) (Unfit : κ → σ → Prop) : Prop where
  unfit : ∀ {i s k}, Inv s → T.key i s = some k → (T.attempt i s = none ↔ Unfit k s)
  inv : ∀ {i s k u t}, Inv s → T.key i s = some k → T.attempt i s = some (.ok u, t) → Inv t
  keeps : ∀ {i s k u t}, Inv s → T.key i s = some k → T.attempt i s = some (.ok u, t) →
    ∀ l, Unfit l s → Unfit l t
  done : ∀ {i s k u t}, Inv s → T.key i s = some k → T.attempt i s = some (.ok u, t) →
    T.key i t = none
  others : ∀ {i s k u t}, Inv s → T.key i s = some k → T.attempt i s = some (.ok u, t) →
    ∀ j, j ≠ i → T.key j t = T.key j s

end Definitions

section Rules

variable {ι κ ε σ : Type} {T : Task ι κ ε σ} {Inv : σ → Prop} {Unfit : κ → σ → Prop}

/-- The sweep that skips does the same as the sweep that attempts every ready item. -/
theorem sweepSkipping_eq [DecidableEq κ] (h : Lawful T Inv Unfit) {items : List ι}
    {lastFailed : κ} {s : σ} (hs : Inv s) (hlast : Unfit lastFailed s) :
    sweepSkipping T items lastFailed s = sweep T items s := by
  induction items generalizing lastFailed s with
  | nil => rfl
  | cons i rest ih =>
    rw [sweepSkipping, sweep]
    cases hkey : T.key i s with
    | none => exact ih hs hlast
    | some k =>
      simp only
      by_cases hk : lastFailed = k
      · subst hk
        rw [if_pos rfl, (h.unfit hs hkey).mpr hlast]
        exact ih hs hlast
      · rw [if_neg hk]
        cases hattempt : T.attempt i s with
        | none => exact ih hs ((h.unfit hs hkey).mp hattempt)
        | some r =>
          obtain ⟨result, t⟩ := r
          cases result with
          | error e => rfl
          | ok u => exact ih (h.inv hs hkey hattempt) (h.keeps hs hkey hattempt _ hlast)

theorem sweep_keeps (h : Lawful T Inv Unfit) {items : List ι} {s t : σ} (hs : Inv s)
    (hsweep : sweep T items s = (.ok (), t)) :
    Inv t ∧ (∀ k, Unfit k s → Unfit k t) ∧ ∀ i, i ∉ items → T.key i t = T.key i s := by
  induction items generalizing s with
  | nil =>
    cases hsweep
    exact ⟨hs, fun _ hk => hk, fun _ _ => rfl⟩
  | cons i rest ih =>
    rw [sweep] at hsweep
    have hskip : sweep T rest s = (.ok (), t) →
        Inv t ∧ (∀ k, Unfit k s → Unfit k t) ∧ ∀ j, j ∉ i :: rest → T.key j t = T.key j s := by
      intro hrest
      obtain ⟨hinv, hunfit, hkeys⟩ := ih hs hrest
      exact ⟨hinv, hunfit, fun j hj => hkeys j fun hmem => hj (List.mem_cons_of_mem i hmem)⟩
    cases hkey : T.key i s with
    | none =>
      rw [hkey] at hsweep
      exact hskip hsweep
    | some k =>
      simp only [hkey] at hsweep
      cases hattempt : T.attempt i s with
      | none =>
        rw [hattempt] at hsweep
        exact hskip hsweep
      | some r =>
        obtain ⟨result, u⟩ := r
        simp only [hattempt] at hsweep
        cases result with
        | error e => cases hsweep
        | ok v =>
          obtain ⟨hinv, hunfit, hkeys⟩ := ih (h.inv hs hkey hattempt) hsweep
          refine ⟨hinv, fun l hl => hunfit l (h.keeps hs hkey hattempt l hl), fun j hj => ?_⟩
          obtain ⟨hne, hrest⟩ := not_or.mp (mt List.mem_cons.mpr hj)
          rw [hkeys j hrest, h.others hs hkey hattempt j hne]

theorem sweep_maximal (h : Lawful T Inv Unfit) {items : List ι} (hnd : items.Nodup) {s t : σ}
    (hs : Inv s) (hsweep : sweep T items s = (.ok (), t)) :
    ∀ i ∈ items, ∀ k, T.key i t = some k → Unfit k t := by
  induction items generalizing s with
  | nil =>
    intro i hi
    cases hi
  | cons i rest ih =>
    obtain ⟨hnot, hnd⟩ := List.nodup_cons.mp hnd
    rw [sweep] at hsweep
    intro j hj l hl
    cases hkey : T.key i s with
    | none =>
      rw [hkey] at hsweep
      rcases List.mem_cons.mp hj with rfl | hj
      · rw [(sweep_keeps h hs hsweep).2.2 j hnot, hkey] at hl
        cases hl
      · exact ih hnd hs hsweep j hj l hl
    | some k =>
      simp only [hkey] at hsweep
      cases hattempt : T.attempt i s with
      | none =>
        rw [hattempt] at hsweep
        rcases List.mem_cons.mp hj with rfl | hj
        · obtain ⟨-, hunfit, hkeys⟩ := sweep_keeps h hs hsweep
          rw [hkeys j hnot, hkey] at hl
          cases hl
          exact hunfit _ ((h.unfit hs hkey).mp hattempt)
        · exact ih hnd hs hsweep j hj l hl
      | some r =>
        obtain ⟨result, u⟩ := r
        simp only [hattempt] at hsweep
        cases result with
        | error e => cases hsweep
        | ok v =>
          have hinv := h.inv hs hkey hattempt
          rcases List.mem_cons.mp hj with rfl | hj
          · rw [(sweep_keeps h hinv hsweep).2.2 j hnot, h.done hs hkey hattempt] at hl
            cases hl
          · exact ih hnd hinv hsweep j hj l hl

end Rules

end Sweep
