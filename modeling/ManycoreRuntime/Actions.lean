import Mathlib.Control.Basic
import Mathlib.Data.List.Basic

/-! # Actions

Computations that read and change a state, may fail with an error and may run forever. What one
turn of a loop keeps holds after the loop. -/
namespace Actions

/-- No result means that the action does not end. -/
abbrev Action (ε σ : Type) := ExceptT ε (StateT σ Option)

variable {ε ε' σ α β : Type}

/-- The action, started in `s`, ends in `t` with the value `a`. -/
def Returns (x : Action ε σ α) (s : σ) (a : α) (t : σ) : Prop := x s = some (.ok a, t)

def Fails (x : Action ε σ α) (s : σ) (e : ε) (t : σ) : Prop := x s = some (.error e, t)

def fromExcept (r : Except ε α) : Action ε σ α := fun s => some (r, s)

def fromOption (r : Option α) : Action ε σ α := fun s => r.map fun a => (.ok a, s)

theorem returns_pure {a b : α} {s t : σ} :
    Returns (pure a : Action ε σ α) s b t ↔ a = b ∧ s = t := by
  show some (Except.ok a, s) = some (.ok b, t) ↔ _
  simp only [Option.some.injEq, Prod.mk.injEq, Except.ok.injEq]

theorem not_returns_throw {e : ε} {s t : σ} {a : α} : ¬ Returns (throw e : Action ε σ α) s a t := by
  intro h
  cases h

theorem run_bind (x : Action ε σ α) (f : α → Action ε σ β) (s : σ) :
    (x >>= f) s = (x s).bind fun r =>
      match r with
      | (.ok a, t) => f a t
      | (.error e, t) => some (.error e, t) := by
  show (x s).bind (fun r => (ExceptT.bindCont f r.1 : StateT σ Option (Except ε β)) r.2) = _
  congr 1
  funext ⟨result, t⟩
  cases result with
  | error e => rfl
  | ok a => rfl

theorem bind_of_ok {x : Action ε σ α} {f : α → Action ε σ β} {s t : σ} {a : α}
    (h : x s = some (.ok a, t)) : (x >>= f) s = f a t := by
  rw [run_bind, h]
  rfl

theorem bind_of_error {x : Action ε σ α} {f : α → Action ε σ β} {s t : σ} {e : ε}
    (h : x s = some (.error e, t)) : (x >>= f) s = some (.error e, t) := by
  rw [run_bind, h]
  rfl

theorem returns_bind {x : Action ε σ α} {f : α → Action ε σ β} {s u : σ} {b : β} :
    Returns (x >>= f) s b u ↔ ∃ a t, Returns x s a t ∧ Returns (f a) t b u := by
  simp only [Returns, run_bind, Option.bind_eq_some_iff]
  constructor
  · rintro ⟨⟨result, t⟩, hx, hf⟩
    cases result with
    | error e => cases hf
    | ok a => exact ⟨a, t, hx, hf⟩
  · rintro ⟨a, t, hx, hf⟩
    exact ⟨_, hx, hf⟩

theorem returns_fromExcept {r : Except ε α} {s t : σ} {a : α} :
    Returns (fromExcept r) s a t ↔ r = .ok a ∧ s = t := by
  show some (r, s) = some (.ok a, t) ↔ _
  simp only [Option.some.injEq, Prod.mk.injEq]

theorem returns_fromOption {r : Option α} {s t : σ} {a : α} :
    Returns (fromOption r : Action ε σ α) s a t ↔ r = some a ∧ s = t := by
  cases r <;> simp [Returns, fromOption]

/-- What a loop establishes for the elements that it is through with. -/
theorem forM_returns {f : α → Action ε σ PUnit} {P : List α → σ → Prop} {l : List α} {s t : σ}
    {u : PUnit} (h : Returns (forM l f) s u t) (hnil : P [] s)
    (hstep : ∀ before a s t, a ∈ l → Returns (f a) s ⟨⟩ t → P before s → P (before ++ [a]) t) :
    P l t := by
  have hall : ∀ (rest before : List α) (s : σ), (∀ a ∈ rest, a ∈ l) →
      Returns (forM rest f) s u t → P before s → P (before ++ rest) t := by
    intro rest
    induction rest with
    | nil =>
      intro before s _ hs hP
      obtain ⟨-, rfl⟩ := returns_pure.mp hs
      rwa [List.append_nil]
    | cons a rest ih =>
      intro before s hmem hs hP
      rw [List.forM_cons, returns_bind] at hs
      obtain ⟨v, s', ha, hrest⟩ := hs
      have hnext := ih (before ++ [a]) s' (fun b hb => hmem b (List.mem_cons_of_mem a hb)) hrest
        (hstep before a s s' (hmem a List.mem_cons_self) ha hP)
      rwa [List.append_assoc, List.singleton_append] at hnext
  exact hall l [] s (fun a ha => ha) h hnil

/-- What the turn of an element establishes and the other turns keep holds of all elements. -/
theorem forM_all {f : α → Action ε σ PUnit} {Q : α → σ → Prop} {l : List α} {s t : σ} {u : PUnit}
    (h : Returns (forM l f) s u t)
    (hdone : ∀ a s t, a ∈ l → Returns (f a) s ⟨⟩ t → Q a t)
    (hkeep : ∀ a b s t, b ∈ l → Returns (f b) s ⟨⟩ t → Q a s → Q a t) : ∀ a ∈ l, Q a t := by
  refine forM_returns (P := fun before s => ∀ a ∈ before, Q a s) h ?_ ?_
  · intro a ha
    cases ha
  · intro before b s t hb hf hbefore a ha
    rcases List.mem_append.mp ha with ha | ha
    · exact hkeep a b s t hb hf (hbefore a ha)
    · rw [List.mem_singleton.mp ha]
      exact hdone b s t hb hf

theorem returns_forM {f : α → Action ε σ PUnit} {g : α → σ → σ} {l : List α}
    (h : ∀ a ∈ l, ∀ s, Returns (f a) s ⟨⟩ (g a s)) (s : σ) :
    Returns (forM l f) s ⟨⟩ (l.foldl (fun s a => g a s) s) := by
  induction l generalizing s with
  | nil => exact returns_pure.mpr ⟨rfl, rfl⟩
  | cons a l ih =>
    rw [List.forM_cons]
    exact returns_bind.mpr ⟨⟨⟩, g a s, h a List.mem_cons_self s,
      ih (fun b hb => h b (List.mem_cons_of_mem a hb)) (g a s)⟩

theorem forM_flatMap {f : β → Action ε σ PUnit} {g : α → List β} (l : List α) :
    forM (l.flatMap g) f = forM l fun a => forM (g a) f := by
  induction l with
  | nil => rfl
  | cons a l ih => rw [List.flatMap_cons, List.forM_append, List.forM_cons, ih]

theorem exists_returns {x : Action ε σ α} {s : σ} (q : σ → Bool)
    (h : (x s).any (fun r => r.1.isOk && q r.2) = true) : ∃ a t, Returns x s a t ∧ q t = true := by
  obtain ⟨⟨result, t⟩, hrun, hr⟩ := (Option.any_eq_true _ _).mp h
  obtain ⟨hok, hq⟩ := Bool.and_eq_true_iff.mp hr
  cases result with
  | error e => cases hok
  | ok a => exact ⟨a, t, hrun, hq⟩

theorem not_fails_pure {a : α} {s t : σ} {e : ε} : ¬ Fails (pure a : Action ε σ α) s e t := by
  intro h
  cases h

theorem exists_fails {x : Action ε σ α} {s : σ} (q : σ → Bool)
    (h : (x s).any (fun r => !r.1.isOk && q r.2) = true) : ∃ e t, Fails x s e t ∧ q t = true := by
  obtain ⟨⟨result, t⟩, hrun, hr⟩ := (Option.any_eq_true _ _).mp h
  obtain ⟨hfail, hq⟩ := Bool.and_eq_true_iff.mp hr
  cases result with
  | error e => exact ⟨e, t, hrun, hq⟩
  | ok a => cases hfail

theorem fails_fromExcept {r : Except ε α} {s t : σ} {e : ε} :
    Fails (fromExcept r) s e t ↔ r = .error e ∧ s = t := by
  show some (r, s) = some (.error e, t) ↔ _
  simp only [Option.some.injEq, Prod.mk.injEq]

theorem fails_bind {x : Action ε σ α} {f : α → Action ε σ β} {s u : σ} {e : ε} :
    Fails (x >>= f) s e u ↔ Fails x s e u ∨ ∃ a t, Returns x s a t ∧ Fails (f a) t e u := by
  simp only [Fails, Returns, run_bind, Option.bind_eq_some_iff]
  constructor
  · rintro ⟨⟨result, t⟩, hx, hf⟩
    cases result with
    | error e' =>
      cases hf
      exact Or.inl hx
    | ok a => exact Or.inr ⟨a, t, hx, hf⟩
  · rintro (hx | ⟨a, t, hx, hf⟩)
    · exact ⟨_, hx, rfl⟩
    · exact ⟨_, hx, hf⟩

/-- A loop fails at one element of its list, after the turns of those before it. -/
theorem forM_fails {f : α → Action ε σ PUnit} {l : List α} {s u : σ} {e : ε}
    (h : Fails (forM l f) s e u) : ∃ before a after t, l = before ++ a :: after ∧
      Returns (forM before f) s ⟨⟩ t ∧ Fails (f a) t e u := by
  induction l generalizing s with
  | nil => exact absurd h not_fails_pure
  | cons a l ih =>
    rw [List.forM_cons, fails_bind] at h
    rcases h with ha | ⟨_, s', ha, hl⟩
    · exact ⟨[], a, l, s, rfl, returns_pure.mpr ⟨rfl, rfl⟩, ha⟩
    · obtain ⟨before, b, after, t, rfl, hbefore, hb⟩ := ih hl
      refine ⟨a :: before, b, after, t, rfl, ?_, hb⟩
      rw [List.forM_cons]
      exact returns_bind.mpr ⟨_, s', ha, hbefore⟩

theorem forM_of_error {f : α → Action ε σ PUnit} {done rest : List α} {a : α} {e : ε}
    {s t u : σ} {v : PUnit} (hdone : Returns (forM done f) s v t) (hf : Fails (f a) t e u) :
    Fails (forM (done ++ a :: rest) f) s e u := by
  induction done generalizing s with
  | nil =>
    obtain ⟨-, rfl⟩ := returns_pure.mp hdone
    rw [List.nil_append, List.forM_cons]
    exact fails_bind.mpr (Or.inl hf)
  | cons b done ih =>
    rw [List.forM_cons] at hdone
    obtain ⟨w, s', hb, hrest⟩ := returns_bind.mp hdone
    rw [List.cons_append, List.forM_cons]
    exact fails_bind.mpr (Or.inr ⟨w, s', hb, ih hrest⟩)

/-- A failure of the action is followed by what undoes the steps before it. -/
def unwinding (x : Action ε σ α) (undo : Action ε σ PUnit) : Action ε σ α := fun s =>
  (x s).bind fun r =>
    match r with
    | (.ok a, t) => some (.ok a, t)
    | (.error e, t) => (undo >>= fun _ => throw e) t

theorem returns_unwinding {x : Action ε σ α} {undo : Action ε σ PUnit} {s t : σ} {a : α} :
    Returns (unwinding x undo) s a t ↔ Returns x s a t := by
  simp only [Returns, unwinding, Option.bind_eq_some_iff]
  constructor
  · rintro ⟨⟨result, u⟩, hx, hr⟩
    cases result with
    | error e =>
      obtain ⟨_, _, _, hthrow⟩ := returns_bind.mp hr
      exact absurd hthrow not_returns_throw
    | ok b =>
      cases hr
      exact hx
  · exact fun hx => ⟨_, hx, rfl⟩

theorem fails_unwinding {x : Action ε σ α} {undo : Action ε σ PUnit} {s t : σ} {e : ε} :
    Fails (unwinding x undo) s e t ↔
      ∃ e' u, Fails x s e' u ∧ (Fails undo u e t ∨ e' = e ∧ Returns undo u ⟨⟩ t) := by
  simp only [Fails, unwinding, Option.bind_eq_some_iff]
  constructor
  · rintro ⟨⟨result, u⟩, hx, hr⟩
    cases result with
    | error e' =>
      refine ⟨e', u, hx, ?_⟩
      rcases fails_bind.mp hr with hundo | ⟨_, v, hundo, hthrow⟩
      · exact Or.inl hundo
      · cases hthrow
        exact Or.inr ⟨rfl, hundo⟩
    | ok b => cases hr
  · rintro ⟨e', u, hx, hundo⟩
    refine ⟨_, hx, ?_⟩
    rcases hundo with hundo | ⟨rfl, hundo⟩
    · exact fails_bind.mpr (Or.inl hundo)
    · exact fails_bind.mpr (Or.inr ⟨_, t, hundo, rfl⟩)

/-- The action, returning or failing, leads from states with a property to states with it. -/
def Preserves (P : σ → Prop) (x : Action ε σ α) : Prop := ∀ s r t, x s = some (r, t) → P s → P t

section Preserves

variable {P : σ → Prop}

theorem Preserves.pure (a : α) : Preserves P (pure a : Action ε σ α) := by
  intro s r t h hs
  cases h
  exact hs

theorem Preserves.throw (e : ε) : Preserves P (throw e : Action ε σ α) := by
  intro s r t h hs
  cases h
  exact hs

theorem Preserves.bind {x : Action ε σ α} {f : α → Action ε σ β} (hx : Preserves P x)
    (hf : ∀ a, Preserves P (f a)) : Preserves P (x >>= f) := by
  intro s r u h hs
  rw [run_bind, Option.bind_eq_some_iff] at h
  obtain ⟨⟨result, t⟩, hrun, h⟩ := h
  have ht := hx s _ _ hrun hs
  cases result with
  | error e =>
    cases h
    exact ht
  | ok a => exact hf a t r u h ht

theorem Preserves.fromExcept (r : Except ε α) : Preserves P (fromExcept r : Action ε σ α) := by
  intro s r' t h hs
  cases h
  exact hs

theorem Preserves.bind_fromExcept {r : Except ε α} {f : α → Action ε σ β}
    (hf : ∀ a, r = .ok a → Preserves P (f a)) : Preserves P (Actions.fromExcept r >>= f) := by
  cases r with
  | error e =>
    intro s r t h hs
    cases h
    exact hs
  | ok a => exact hf a rfl

theorem Preserves.bind_fromOption {r : Option α} {f : α → Action ε σ β}
    (hf : ∀ a, r = some a → Preserves P (f a)) : Preserves P (fromOption r >>= f) := by
  cases r with
  | none =>
    intro s r t h
    cases h
  | some a => exact hf a rfl

theorem Preserves.forM {f : α → Action ε σ PUnit} {l : List α}
    (h : ∀ a ∈ l, Preserves P (f a)) : Preserves P (forM l f) := by
  induction l with
  | nil => exact .pure _
  | cons a l ih =>
    rw [List.forM_cons]
    exact .bind (h a List.mem_cons_self) fun _ => ih fun b hb => h b (List.mem_cons_of_mem a hb)

end Preserves

end Actions
