import Mathlib.Data.List.Induction
import Mathlib.Data.Nat.Notation

/-! # Transition systems

Reachability under labelled steps, and the rule that an inductive invariant holds of every
reachable state. -/
namespace Transition

structure System (State Event : Type) where
  initial : State → Prop
  step : State → Event → State → Prop

variable {State Event : Type} {sys : System State Event}

inductive Reachable (sys : System State Event) : State → Prop where
  | initial {s : State} (h : sys.initial s) : Reachable sys s
  | step {s t : State} {e : Event} (hs : Reachable sys s) (h : sys.step s e t) : Reachable sys t

/-- The runs in which every step meets a condition on its event and the state before it. -/
def System.restrict (sys : System State Event) (allowed : State → Event → Prop) :
    System State Event where
  initial := sys.initial
  step s e t := allowed s e ∧ sys.step s e t

theorem Reachable.next {s t : State} (hs : Reachable sys s) (e : Event) (h : sys.step s e t) :
    Reachable sys t :=
  .step hs h

theorem Reachable.invariant {Inv : State → Prop} (hinit : ∀ s, sys.initial s → Inv s)
    (hstep : ∀ s e t, Inv s → sys.step s e t → Inv t) {s : State} (h : Reachable sys s) :
    Inv s := by
  induction h with
  | initial hs => exact hinit _ hs
  | step _ hstep' ih => exact hstep _ _ _ ih hstep'

theorem Reachable.of_restrict {allowed : State → Event → Prop} {s : State}
    (h : Reachable (sys.restrict allowed) s) : Reachable sys s := by
  induction h with
  | initial hs => exact .initial hs
  | step _ hstep ih => exact .step ih hstep.2

/-- The given events lead from one state to another. -/
inductive Path (sys : System State Event) (s : State) : List Event → State → Prop where
  | nil : Path sys s [] s
  | snoc {es : List Event} {t u : State} {e : Event} (ht : Path sys s es t)
      (h : sys.step t e u) : Path sys s (es ++ [e]) u

theorem Path.reachable {es : List Event} {s t : State} (hs : Reachable sys s)
    (h : Path sys s es t) : Reachable sys t := by
  induction h with
  | nil => exact hs
  | snoc _ hstep ih => exact ih.next _ hstep

/-- A system whose every step from a reachable state is a step of a specification follows the
specification event by event. -/
theorem Path.simulates {Spec Label : Type} {spec : System Spec Label} {abs : State → Spec}
    {label : Event → Label}
    (hstep : ∀ s e t, Reachable sys s → sys.step s e t → spec.step (abs s) (label e) (abs t))
    {es : List Event} {s t : State} (hs : Reachable sys s) (h : Path sys s es t) :
    Path spec (abs s) (es.map label) (abs t) := by
  induction h with
  | nil => exact .nil
  | snoc ht hnext ih =>
    rw [List.map_append]
    exact .snoc ih (hstep _ _ _ (ht.reachable hs) hnext)

/-- What every event of a path keeps, the path keeps. -/
theorem Path.keeps {P : State → Prop} {es : List Event} {s t : State}
    (hstep : ∀ e ∈ es, ∀ s t, P s → sys.step s e t → P t) (hs : P s) (h : Path sys s es t) :
    P t := by
  induction h with
  | nil => exact hs
  | snoc ht hnext ih =>
    refine hstep _ (List.mem_append_right _ List.mem_cons_self) _ _ (ih ?_) hnext
    intro e he
    exact hstep e (List.mem_append_left _ he)

section Run

variable {start : State → Prop} {next : State → Event → Option State}
  {allowed : State → Event → Prop}

def System.ofNext (start : State → Prop) (next : State → Event → Option State) :
    System State Event where
  initial := start
  step s e t := next s e = some t

def run (next : State → Event → Option State) : State → List Event → Option State
  | s, [] => some s
  | s, e :: es => (next s e).bind fun t => run next t es

theorem Reachable.events {s t : State} {es : List Event}
    (hs : Reachable (System.ofNext start next) s) (h : run next s es = some t) :
    Reachable (System.ofNext start next) t := by
  induction es generalizing s with
  | nil =>
    cases h
    exact hs
  | cons e es ih =>
    obtain ⟨u, hu, h⟩ := Option.bind_eq_some_iff.mp h
    exact ih (hs.next e hu) h

theorem Reachable.run {s t : State} {es : List Event}
    (hs : Reachable ((System.ofNext start next).restrict allowed) s)
    (hes : ∀ e ∈ es, ∀ s, allowed s e) (h : run next s es = some t) :
    Reachable ((System.ofNext start next).restrict allowed) t := by
  induction es generalizing s with
  | nil =>
    cases h
    exact hs
  | cons e es ih =>
    obtain ⟨u, hu, h⟩ := Option.bind_eq_some_iff.mp h
    have hnext := hs.next e ⟨hes e List.mem_cons_self s, hu⟩
    exact ih hnext (fun e he => hes e (List.mem_cons_of_mem _ he)) h

def checked (check : State → Event → Bool) (next : State → Event → Option State) (s : State)
    (e : Event) : Option State :=
  if check s e = true then next s e else none

theorem run_of_checked {check : State → Event → Bool} {s t : State} {es : List Event}
    (h : run (checked check next) s es = some t) : run next s es = some t := by
  induction es generalizing s with
  | nil => exact h
  | cons e es ih =>
    obtain ⟨u, hu, h⟩ := Option.bind_eq_some_iff.mp h
    unfold checked at hu
    split at hu
    · rw [run, hu]
      exact ih h
    · cases hu

/-- A run whose steps pass a check that implies the condition on its events. -/
theorem Reachable.run_checked {check : State → Event → Bool} {s t : State} {es : List Event}
    (hs : Reachable ((System.ofNext start next).restrict allowed) s)
    (hes : ∀ e ∈ es, ∀ s, check s e = true → allowed s e)
    (h : Transition.run (checked check next) s es = some t) :
    Reachable ((System.ofNext start next).restrict allowed) t := by
  induction es generalizing s with
  | nil =>
    cases h
    exact hs
  | cons e es ih =>
    obtain ⟨u, hu, h⟩ := Option.bind_eq_some_iff.mp h
    unfold checked at hu
    split at hu
    · next hc =>
      have hnext := hs.next e ⟨hes e List.mem_cons_self s hc, hu⟩
      exact ih hnext (fun e he => hes e (List.mem_cons_of_mem _ he)) h
    · cases hu

theorem run_concat (s : State) (es : List Event) (e : Event) :
    run next s (es ++ [e]) = (run next s es).bind fun t => next t e := by
  induction es generalizing s with
  | nil => exact Option.bind_fun_some _
  | cons d es ih =>
    rw [List.cons_append, run, run, Option.bind_assoc]
    congr 1
    funext u
    exact ih u

/-- A relation between the events so far and the state holds after a run if every event keeps it. -/
theorem run_history {Inv : List Event → State → Prop} {s₀ : State} (hinit : Inv [] s₀)
    (hstep : ∀ es s e t, Inv es s → next s e = some t → Inv (es ++ [e]) t) {es : List Event}
    {s : State} (h : run next s₀ es = some s) : Inv es s := by
  induction es using List.reverseRecOn generalizing s with
  | nil =>
    cases h
    exact hinit
  | append_singleton es e ih =>
    rw [run_concat] at h
    obtain ⟨t, ht, hn⟩ := Option.bind_eq_some_iff.mp h
    exact hstep es t e s (ih ht) hn

/-- Two runs to the end that agree wherever both take a step end in the same state. -/
theorem run_confluent {s t t' : State} {es es' : List Event}
    (hagree : ∀ (k : ℕ) (a b : Event), es[k]? = some a → es'[k]? = some b → a = b)
    (h : run next s es = some t) (h' : run next s es' = some t') (hend : ∀ e, next t e = none)
    (hend' : ∀ e, next t' e = none) : t = t' := by
  induction es generalizing s es' with
  | nil =>
    cases h
    cases es' with
    | nil => exact Option.some.inj h'
    | cons b es' =>
      rw [run, hend b] at h'
      cases h'
  | cons a es ih =>
    cases es' with
    | nil =>
      cases h'
      rw [run, hend' a] at h
      cases h
    | cons b es' =>
      obtain rfl : a = b := hagree 0 a b rfl rfl
      obtain ⟨u, hu, h⟩ := Option.bind_eq_some_iff.mp h
      obtain ⟨v, hv, h'⟩ := Option.bind_eq_some_iff.mp h'
      obtain rfl : u = v := Option.some.inj (hu.symm.trans hv)
      exact ih (fun k c d hc hd => hagree (k + 1) c d hc hd) h h'

end Run

end Transition
