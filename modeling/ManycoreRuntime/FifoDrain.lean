import ManycoreRuntime.Coordinate
import ManycoreRuntime.Loops

/-! # Draining a FIFO of the simulated platform

The platform reads packets until the FIFO is empty or the load capacity is passed, and judges
from the number of packets whether it came to the end. Turns outside the transfer window are
repeated. -/
namespace FifoDrain

open Coordinate (Errno)
open Loops

variable {α : Type}

inductive FifoRx where
  | req
  | rsp
  | unknown
  deriving DecidableEq, Repr

inductive DpiErr where
  | success
  | notWindow
  | notValid
  deriving DecidableEq, Repr

structure Dpi (α : Type) where
  req : List α
  rsp : List α
  deriving DecidableEq, Repr

/-- One FIFO's answer: the head is stored to the packet behind the pointer and leaves the FIFO, if
the window is open and there is a head. A store through a pointer to no packet is undefined. -/
def rx (closed : Bool) (fifo : List α) (pkt : Option α) : Option (DpiErr × List α × Option α) :=
  if closed then some (.notWindow, fifo, pkt)
  else match fifo, pkt with
    | [], pkt => some (.notValid, [], pkt)
    | _ :: _, none => none
    | head :: rest, some _ => some (.success, rest, some head)

namespace Dpi

def fifo (dpi : Dpi α) : FifoRx → List α
  | .req => dpi.req
  | .rsp => dpi.rsp
  | .unknown => []

def setFifo (dpi : Dpi α) (fifo : List α) : FifoRx → Dpi α
  | .req => { dpi with req := fifo }
  | .rsp => { dpi with rsp := fifo }
  | .unknown => dpi

end Dpi

/-- Where the loop stands: the number of turns made and of packets read, and the packet behind the
pointer `pkt`, if it points to one. The pointer is never set. -/
structure State (α : Type) where
  turns : ℕ
  drains : ℕ
  pkt : Option α
  dpi : Dpi α

def intMax : ℕ := 2 ^ 31 - 1

/-- A turn of the loop. The window is closed in the turns that `closed` lists, and a counter that
would pass the range of its type is undefined. -/
def drainTurn (cap : UInt32) (type : FifoRx) (closed : ℕ → Bool) (s : State α) :
    State α ⊕ Except Errno Unit × Dpi α :=
  if type = .unknown then .inr (.error .noimpl, s.dpi)
  else
    match rx (closed s.turns) (s.dpi.fifo type) s.pkt with
    | none => .inr (.error .undefined, s.dpi)
    | some (err, fifo, pkt) =>
      let dpi := s.dpi.setFifo fifo type
      -- only a valid packet is counted
      if err = .success ∧ s.drains = intMax then .inr (.error .undefined, dpi)
      else
        let drains := if err = .success then s.drains + 1 else s.drains
        if (err = .notWindow ∨ err = .success) ∧ drains ≤ cap.toNat then
          .inl ⟨s.turns + 1, drains, pkt, dpi⟩
        else if drains = cap.toNat then .inr (.error .fail, dpi)
        else .inr (.ok (), dpi)

/-- `hb_mc_platform_drain`, if it returns within `fuel` turns. `pkt` is the packet that its pointer,
which nobody has set, happens to point to. -/
def platformDrain (cap : UInt32) (type : FifoRx) (closed : ℕ → Bool) (pkt : Option α) (dpi : Dpi α)
    (fuel : ℕ) : Option (Except Errno Unit × Dpi α) :=
  iterate (drainTurn cap type closed) fuel ⟨0, 0, pkt, dpi⟩

def drainAll (cap drains : ℕ) : Option α → List α → Except Errno Unit × List α
  | _, [] => (if drains = cap then .error .fail else .ok (), [])
  | none, head :: rest => (.error .undefined, head :: rest)
  | some _, head :: rest =>
    if drains = intMax then (.error .undefined, rest)
    else if drains + 1 ≤ cap then drainAll cap (drains + 1) (some head) rest
    else (.ok (), rest)

section Turns

variable {cap : UInt32} {type : FifoRx} {closed : ℕ → Bool} {s : State α}

@[simp] theorem Dpi.fifo_setFifo (dpi : Dpi α) (l : List α) (htype : type ≠ .unknown) :
    (dpi.setFifo l type).fifo type = l := by
  cases type with
  | req => rfl
  | rsp => rfl
  | unknown => exact absurd rfl htype

@[simp] theorem Dpi.setFifo_setFifo (dpi : Dpi α) (l m : List α) :
    (dpi.setFifo l type).setFifo m type = dpi.setFifo m type := by
  cases type <;> rfl

@[simp] theorem Dpi.setFifo_fifo (dpi : Dpi α) : dpi.setFifo (dpi.fifo type) type = dpi := by
  cases type <;> rfl

theorem drainTurn_closed (htype : type ≠ .unknown) (hc : closed s.turns = true)
    (hd : s.drains ≤ cap.toNat) :
    drainTurn cap type closed s = .inl { s with turns := s.turns + 1 } := by
  simp only [drainTurn, htype, if_false, rx, hc, if_true, reduceCtorEq, false_and, or_false,
    true_and, hd, Dpi.setFifo_fifo]

theorem drainTurn_empty (htype : type ≠ .unknown) (hc : closed s.turns = false)
    (hf : s.dpi.fifo type = []) :
    drainTurn cap type closed s =
      .inr (if s.drains = cap.toNat then .error .fail else .ok (), s.dpi) := by
  have hdpi : s.dpi.setFifo [] type = s.dpi := by
    rw [← hf, Dpi.setFifo_fifo]
  simp only [drainTurn, htype, if_false, rx, hc, Bool.false_eq_true, hf, reduceCtorEq, false_and,
    or_self, hdpi]
  by_cases he : s.drains = cap.toNat
  · simp only [he, if_true]
  · simp only [he, if_false]

theorem drainTurn_stray (htype : type ≠ .unknown) (hc : closed s.turns = false) {p : α}
    {rest : List α} (hf : s.dpi.fifo type = p :: rest) (hp : s.pkt = none) :
    drainTurn cap type closed s = .inr (.error .undefined, s.dpi) := by
  simp only [drainTurn, htype, if_false, rx, hc, Bool.false_eq_true, hf, hp]

theorem drainTurn_packet (htype : type ≠ .unknown) (hc : closed s.turns = false) {p v : α}
    {rest : List α} (hf : s.dpi.fifo type = p :: rest) (hp : s.pkt = some v)
    (hd : s.drains ≤ cap.toNat) :
    drainTurn cap type closed s =
      if s.drains = intMax then .inr (.error .undefined, s.dpi.setFifo rest type)
      else if s.drains + 1 ≤ cap.toNat then
        .inl ⟨s.turns + 1, s.drains + 1, some p, s.dpi.setFifo rest type⟩
      else .inr (.ok (), s.dpi.setFifo rest type) := by
  simp only [drainTurn, htype, if_false, rx, hc, Bool.false_eq_true, hf, hp, true_and, if_true,
    reduceCtorEq, false_or]
  by_cases hmax : s.drains = intMax
  · simp only [hmax, if_true]
  · simp only [hmax, if_false]
    by_cases hle : s.drains + 1 ≤ cap.toNat
    · simp only [hle, if_true]
    · have hne : ¬ s.drains + 1 = cap.toNat := by omega
      simp only [hle, if_false, hne]

theorem drains_le_of_inl {t : State α} (h : drainTurn cap type closed s = .inl t) :
    type ≠ .unknown ∧ s.drains ≤ cap.toNat := by
  simp only [drainTurn] at h
  split at h
  · cases h
  · next htype =>
    split at h
    · cases h
    · split_ifs at h with hmax hsuccess hgo hlast hgo
      · exact ⟨htype, by omega⟩
      · exact ⟨htype, hgo.2⟩

/-- The turns outside the window change neither what is returned nor what is left. -/
theorem drain_eq (htype : type ≠ .unknown) {fuel : ℕ} {r : Except Errno Unit × Dpi α}
    (h : iterate (drainTurn cap type closed) fuel s = some r) (hd : s.drains ≤ cap.toNat) :
    r = ((drainAll cap.toNat s.drains s.pkt (s.dpi.fifo type)).1,
      s.dpi.setFifo (drainAll cap.toNat s.drains s.pkt (s.dpi.fifo type)).2 type) := by
  refine @iterate_rule (State α) (Except Errno Unit × Dpi α) (drainTurn cap type closed)
    (fun s r => s.drains ≤ cap.toNat →
      r = ((drainAll cap.toNat s.drains s.pkt (s.dpi.fifo type)).1,
        s.dpi.setFifo (drainAll cap.toNat s.drains s.pkt (s.dpi.fifo type)).2 type))
    ?_ ?_ fuel s r h hd
  · intro s r hs hd
    cases hc : closed s.turns with
    | true =>
      rw [drainTurn_closed htype hc hd] at hs
      cases hs
    | false =>
      cases hf : s.dpi.fifo type with
      | nil =>
        rw [drainTurn_empty htype hc hf] at hs
        cases hs
        rw [drainAll, ← hf, Dpi.setFifo_fifo]
      | cons p rest =>
        cases hp : s.pkt with
        | none =>
          rw [drainTurn_stray htype hc hf hp] at hs
          cases hs
          rw [drainAll, ← hf, Dpi.setFifo_fifo]
        | some v =>
          rw [drainTurn_packet htype hc hf hp hd] at hs
          rw [drainAll]
          split_ifs at hs ⊢ with hmax hle
          · cases hs
            rfl
          · cases hs
            rfl
  · intro s t r hs ih hd
    cases hc : closed s.turns with
    | true =>
      rw [drainTurn_closed htype hc hd] at hs
      cases hs
      exact ih hd
    | false =>
      cases hf : s.dpi.fifo type with
      | nil =>
        rw [drainTurn_empty htype hc hf] at hs
        cases hs
      | cons p rest =>
        cases hp : s.pkt with
        | none =>
          rw [drainTurn_stray htype hc hf hp] at hs
          cases hs
        | some v =>
          rw [drainTurn_packet htype hc hf hp hd] at hs
          rw [drainAll]
          split_ifs at hs ⊢ with hmax hle
          cases hs
          have hr := ih hle
          rwa [Dpi.fifo_setFifo _ _ htype, Dpi.setFifo_setFifo] at hr

theorem drain_returns {n : ℕ} (hopen : ∀ k, n ≤ k → closed k = false) (s : State α) :
    ∃ r, ∀ fuel, n - s.turns + (s.dpi.fifo type).length < fuel →
      iterate (drainTurn cap type closed) fuel s = some r := by
  apply @iterate_returns _ _ _ fun s : State α => n - s.turns + (s.dpi.fifo type).length
  intro s t h
  obtain ⟨htype, hd⟩ := drains_le_of_inl h
  cases hc : closed s.turns with
  | true =>
    have hlt : s.turns < n := by
      by_contra hle
      rw [hopen s.turns (Nat.le_of_not_lt hle)] at hc
      cases hc
    rw [drainTurn_closed htype hc hd] at h
    cases h
    simp only
    omega
  | false =>
    cases hf : s.dpi.fifo type with
    | nil =>
      rw [drainTurn_empty htype hc hf] at h
      cases h
    | cons p rest =>
      cases hp : s.pkt with
      | none =>
        rw [drainTurn_stray htype hc hf hp] at h
        cases h
      | some v =>
        rw [drainTurn_packet htype hc hf hp hd] at h
        split_ifs at h
        cases h
        simp only [Dpi.fifo_setFifo _ _ htype, List.length_cons]
        omega

end Turns

section Count

variable {cap drains : ℕ} {pkt : α} {l : List α}

/-- At most the capacity: all packets are read, and the capacity itself counts as a failure. -/
theorem drainAll_of_le (hcap : drains + l.length ≤ cap) (hmax : drains + l.length ≤ intMax) :
    drainAll cap drains (some pkt) l =
      (if drains + l.length = cap then .error .fail else .ok (), []) := by
  induction l generalizing drains pkt with
  | nil => rfl
  | cons p rest ih =>
    rw [List.length_cons] at hcap hmax
    have hne : ¬ drains = intMax := by omega
    have hle : drains + 1 ≤ cap := by omega
    have hlen : drains + 1 + rest.length = drains + (rest.length + 1) := by omega
    rw [drainAll, if_neg hne, if_pos hle, ih (by omega) (by omega), List.length_cons, hlen]

/-- Above the capacity: one packet more than it is read, and the rest is left. -/
theorem drainAll_of_lt (hd : drains ≤ cap) (hcap : cap < drains + l.length) (hmax : cap < intMax) :
    drainAll cap drains (some pkt) l = (.ok (), l.drop (cap + 1 - drains)) := by
  induction l generalizing drains pkt with
  | nil =>
    rw [List.length_nil] at hcap
    omega
  | cons p rest ih =>
    rw [List.length_cons] at hcap
    have hne : ¬ drains = intMax := by omega
    by_cases hle : drains + 1 ≤ cap
    · have hdrop : cap + 1 - drains = cap + 1 - (drains + 1) + 1 := by omega
      rw [drainAll, if_neg hne, if_pos hle, ih hle (by omega), hdrop, List.drop_succ_cons]
    · have hdrop : cap + 1 - drains = 0 + 1 := by omega
      rw [drainAll, if_neg hne, if_neg hle, hdrop, List.drop_succ_cons, List.drop_zero]

theorem drainAll_of_overflow (hd : drains ≤ intMax) (hcap : intMax ≤ cap)
    (hmax : intMax < drains + l.length) :
    (drainAll cap drains (some pkt) l).1 = .error .undefined := by
  induction l generalizing drains pkt with
  | nil =>
    rw [List.length_nil] at hmax
    omega
  | cons p rest ih =>
    rw [List.length_cons] at hmax
    by_cases he : drains = intMax
    · rw [drainAll, if_pos he]
    · have hle : drains + 1 ≤ cap := by omega
      rw [drainAll, if_neg he, if_pos hle]
      exact ih (by omega) (by omega)

end Count

def ReportsEmpty (type : FifoRx) (r : Except Errno Unit × Dpi α) : Prop :=
  r.1 ≠ .error .undefined ∧ (r.1 = .ok () ↔ r.2.fifo type = [])

instance [DecidableEq α] (type : FifoRx) (r : Except Errno Unit × Dpi α) :
    Decidable (ReportsEmpty type r) := inferInstanceAs (Decidable (_ ∧ (_ ↔ _)))

/-- The numbers of packets that a drain reports right, for a pointer to a packet. -/
def Countable (cap n : ℕ) : Prop := n < 2 ^ 31 ∧ (n < cap ∨ n = cap + 1)

instance (cap n : ℕ) : Decidable (Countable cap n) := inferInstanceAs (Decidable (_ ∧ (_ ∨ _)))

section Reports

variable (cap : ℕ)

theorem drainAll_reports_iff_of_packet (pkt : α) (l : List α) :
    ((drainAll cap 0 (some pkt) l).1 ≠ .error .undefined ∧
      ((drainAll cap 0 (some pkt) l).1 = .ok () ↔ (drainAll cap 0 (some pkt) l).2 = [])) ↔
    Countable cap l.length := by
  have hrange : l.length < 2 ^ 31 ↔ l.length ≤ intMax := by
    unfold intMax
    omega
  rw [Countable, hrange]
  by_cases hle : l.length ≤ cap
  · by_cases hmax : l.length ≤ intMax
    · have he := @drainAll_of_le α cap 0 pkt l (by omega) (by omega)
      rw [he, Nat.zero_add]
      by_cases hcap : l.length = cap
      · rw [if_pos hcap]
        refine iff_of_false ?_ (by omega)
        rintro ⟨-, h⟩
        cases h.mpr rfl
      · rw [if_neg hcap]
        refine iff_of_true ?_ (by omega)
        exact ⟨fun h => (by cases h), iff_of_true rfl rfl⟩
    · have he := @drainAll_of_overflow α cap 0 pkt l (Nat.zero_le _) (by omega) (by omega)
      exact iff_of_false (fun h => h.1 he) (fun h => hmax h.1)
  · by_cases hmax : cap < intMax
    · have he := @drainAll_of_lt α cap 0 pkt l (Nat.zero_le _) (by omega) hmax
      rw [he]
      have hnil : l.drop (cap + 1 - 0) = [] ↔ l.length = cap + 1 := by
        rw [List.drop_eq_nil_iff]
        omega
      simp only [hnil, true_iff, ne_eq, reduceCtorEq, not_false_eq_true, true_and]
      omega
    · have he := @drainAll_of_overflow α cap 0 pkt l (Nat.zero_le _) (by omega) (by omega)
      refine iff_of_false (fun h => h.1 he) ?_
      omega

theorem drainAll_reports_iff_of_stray (l : List α) :
    ((drainAll cap 0 none l).1 ≠ .error .undefined ∧
      ((drainAll cap 0 none l).1 = .ok () ↔ (drainAll cap 0 none l).2 = [])) ↔
    l = [] ∧ 0 < cap := by
  cases l with
  | nil =>
    by_cases hcap : 0 = cap
    · rw [drainAll, if_pos hcap]
      refine iff_of_false ?_ (by omega)
      rintro ⟨-, h⟩
      cases h.mpr rfl
    · rw [drainAll, if_neg hcap]
      refine iff_of_true ?_ ⟨rfl, by omega⟩
      exact ⟨fun h => (by cases h), iff_of_true rfl rfl⟩
  | cons p rest =>
    apply iff_of_false
    · intro h
      exact h.1 rfl
    · intro h
      cases h.1

end Reports

/-- The drain returns for every window that stays open in the end. What it returns tells whether the
FIFO is empty in two cases: nothing is pending and the capacity is not zero, or the pointer happens
to point to a packet and fewer packets are pending than the capacity, or one more than it, as far as
the counter can count them. -/
theorem platformDrain_reports_iff (cap : UInt32) {type : FifoRx} (htype : type ≠ .unknown)
    {closed : ℕ → Bool} (hopen : ∃ n, ∀ k, n ≤ k → closed k = false) (pkt : Option α)
    (dpi : Dpi α) :
    ∃ r, (∃ enough, ∀ fuel, enough ≤ fuel →
        platformDrain cap type closed pkt dpi fuel = some r) ∧
      (ReportsEmpty type r ↔ dpi.fifo type = [] ∧ 0 < cap.toNat ∨
        pkt.isSome = true ∧ Countable cap.toNat (dpi.fifo type).length) := by
  obtain ⟨n, hn⟩ := hopen
  obtain ⟨r, hr⟩ := @drain_returns α cap type closed n hn ⟨0, 0, pkt, dpi⟩
  refine ⟨r, ⟨_, fun fuel hf => hr fuel hf⟩, ?_⟩
  have he := drain_eq htype (hr _ (Nat.lt_succ_self _)) (Nat.zero_le _)
  rw [he, ReportsEmpty, Dpi.fifo_setFifo _ _ htype]
  cases pkt with
  | none =>
    rw [drainAll_reports_iff_of_stray, Option.isSome_none]
    simp only [Bool.false_eq_true, false_and, or_false]
  | some v =>
    rw [drainAll_reports_iff_of_packet, Option.isSome_some]
    simp only [true_and]
    constructor
    · exact Or.inr
    · rintro (⟨hnil, hcap⟩ | h)
      · rw [hnil]
        exact ⟨Nat.two_pow_pos 31, Or.inl hcap⟩
      · exact h

theorem platformDrain_reports_iff_three :
    (∃ r, (∃ enough, ∀ fuel, enough ≤ fuel →
        platformDrain 2 .req (fun k => k = 1) (some 0) ⟨[5, 6, 7], [8]⟩ fuel = some r) ∧
      ReportsEmpty .req r) ∧
    ∃ r, (∃ enough, ∀ fuel, enough ≤ fuel →
        platformDrain 2 .req (fun k => k = 1) none ⟨[5, 6, 7], [8]⟩ fuel = some r) ∧
      ¬ ReportsEmpty .req r := by
  have hopen : ∃ n, ∀ k, n ≤ k → (decide (k = 1)) = false :=
    ⟨2, fun k hk => decide_eq_false (by omega)⟩
  constructor
  · obtain ⟨r, hr, hiff⟩ := @platformDrain_reports_iff ℕ 2 .req (by decide) (fun k => k = 1)
      hopen (some 0) ⟨[5, 6, 7], [8]⟩
    exact ⟨r, hr, hiff.mpr (by decide)⟩
  · obtain ⟨r, hr, hiff⟩ := @platformDrain_reports_iff ℕ 2 .req (by decide) (fun k => k = 1)
      hopen none ⟨[5, 6, 7], [8]⟩
    exact ⟨r, hr, fun h => absurd (hiff.mp h) (by decide)⟩

/-- As many packets as the capacity are all read, and reported as a failure; of two packets more
than the capacity one is left, and success is reported. A packet that is stored through a pointer
to nothing is undefined. -/
theorem platformDrain_misjudges :
    (platformDrain 2 .req (fun _ => false) (some 0) ⟨[5, 6], []⟩ 3 =
        some (.error .fail, ⟨[], []⟩) ∧
      ¬ @ReportsEmpty ℕ .req (.error .fail, ⟨[], []⟩)) ∧
    (platformDrain 2 .req (fun _ => false) (some 0) ⟨[5, 6, 7, 8], []⟩ 3 =
        some (.ok (), ⟨[8], []⟩) ∧
      ¬ ReportsEmpty .req (.ok (), ⟨[8], []⟩)) ∧
    platformDrain 2 .req (fun _ => false) none ⟨[5], []⟩ 1 =
        some (.error .undefined, ⟨[5], []⟩) ∧
      ¬ ReportsEmpty .req (.error .undefined, ⟨[5], []⟩) := by
  refine ⟨⟨by decide, by decide⟩, ⟨by decide, by decide⟩, by decide, by decide⟩

end FifoDrain
