import ManycoreRuntime.TransmitCredits

/-! # Fence of the FPGA platform

The host reads how many packets the request path has room for and then how many credits the
endpoint has, until both are at their maximum. Requests leave the path for the network and are
completed there at any time. -/
namespace Fence

open Coordinate (Errno)
open TransmitCredits (Pc getTransmitVacancy sipoEls vacancyRegister)

/-- Where the host's thread stands in the fence: at the test of the loop, or before the read of one
of the two registers. The variables of the loop hold anything before the first turn. -/
inductive FencePc where
  | out
  | test (turned : Bool) (vacancy credits : ℤ)
  | vacancy
  | credits (vacancy : ℤ)
  deriving DecidableEq, Repr

structure State where
  path : TransmitCredits.State
  /-- The requests that the endpoint took and that are not completed, and those that are. -/
  outstanding : ℕ
  completed : ℕ
  fence : FencePc
  /-- What the last fence returned, and whether it read the registers. -/
  result : Option (Except Errno Unit × Bool)

structure Maxima where
  transmitVacancyMax : UInt32
  ioEndpointMaxOutCredits : UInt32

inductive Event where
  | host (e : TransmitCredits.Event)
  | clock (arrives ready : Bool)
  | complete
  | fence (timeout vacancy credits : ℤ)
  | step

def initial (credits : ℕ) : State := ⟨TransmitCredits.initial credits, 0, 0, .out, none⟩

/-- A variable of type `int` compared with an unsigned one. -/
def sameInt (a : ℤ) (b : UInt32) : Bool := a % 2 ^ 32 == (b.toNat : ℤ)

def outCreditsRegister (maxOut : ℕ) (s : State) : UInt32 := UInt32.ofNat (maxOut - s.outstanding)

/-- One cycle; the endpoint takes a request while it has a credit. -/
def clock (credits maxOut : ℕ) (s : State) (arrives ready : Bool) : State :=
  let path := TransmitCredits.clock credits s.path arrives (ready && s.outstanding < maxOut)
  { s with
    path := path
    outstanding := s.outstanding + (path.dequeued.length - s.path.dequeued.length) / sipoEls }

/-- The fence's next step. A read of a register waits for the stores before it. -/
def fenceStep (maxima : Maxima) (maxOut : ℕ) (s : State) : Option State :=
  match s.fence with
  | .out => none
  | .test turned vacancy credits =>
    if sameInt vacancy maxima.transmitVacancyMax && sameInt credits maxima.ioEndpointMaxOutCredits
    then some { s with fence := .out, result := some (.ok (), turned) }
    else some { s with fence := .vacancy }
  | .vacancy =>
    if s.path.posted = [] then
      match getTransmitVacancy .req (vacancyRegister s.path) 0 with
      | (.error e, _) => some { s with fence := .out, result := some (.error e, true) }
      | (.ok (), vacancy) => some { s with fence := .credits vacancy }
    else none
  | .credits vacancy =>
    if s.path.posted = [] then
      some { s with fence := .test true vacancy (outCreditsRegister maxOut s).toNat }
    else none

/-- The host's thread makes no other call during a fence. -/
def next (maxima : Maxima) (credits maxOut : ℕ) (s : State) : Event → Option State
  | .host e =>
    match s.fence with
    | .out =>
      match e with
      | .clock _ _ => none
      | e => (TransmitCredits.next credits s.path e).map fun path => { s with path }
    | _ => none
  | .clock arrives ready => some (clock credits maxOut s arrives ready)
  | .complete =>
    if s.outstanding = 0 then none
    else some { s with outstanding := s.outstanding - 1, completed := s.completed + 1 }
  | .fence timeout vacancy credits =>
    match s.fence, s.path.pc with
    | .out, .idle =>
      some (if timeout ≠ -1 then { s with result := some (.error .noimpl, false) }
        else { s with fence := .test false vacancy credits })
    | _, _ => none
  | .step => fenceStep maxima maxOut s

def system (maxima : Maxima) (credits maxOut : ℕ) : Transition.System State Event :=
  .ofNext (· = initial credits) (next maxima credits maxOut)

structure Empty (path : TransmitCredits.State) : Prop where
  idle : path.pc = .idle
  posted : path.posted = []
  fifoReq : path.fifoReq = []
  sipofReq : path.sipofReq = []

structure Maxima.Match (maxima : Maxima) (credits maxOut : ℕ) : Prop where
  vacancy : maxima.transmitVacancyMax.toNat = credits
  credits : maxima.ioEndpointMaxOutCredits.toNat = maxOut

structure Invariant (maxima : Maxima) (credits maxOut : ℕ) (s : State) : Prop where
  path : TransmitCredits.Invariant credits s.path
  taken : s.path.dequeued.length = sipoEls * (s.outstanding + s.completed)
  bound : s.outstanding ≤ maxOut
  idle : s.fence ≠ .out → s.path.pc = .idle
  vacant : ∀ vacancy, s.fence = .credits vacancy →
    sameInt vacancy maxima.transmitVacancyMax = true → Empty s.path
  done : ∀ vacancy out, s.fence = .test true vacancy out →
    sameInt vacancy maxima.transmitVacancyMax = true →
    sameInt out maxima.ioEndpointMaxOutCredits = true → Empty s.path ∧ s.outstanding = 0

section Proof

variable {maxima : Maxima} {credits maxOut : ℕ} {s t : State}

theorem sameInt_iff {n : ℕ} (hn : n < 2 ^ 32) (b : UInt32) :
    sameInt (n : ℤ) b = true ↔ n = b.toNat := by
  rw [sameInt, beq_iff_eq]
  omega

theorem Empty.clock {path : TransmitCredits.State} (h : Empty path) (arrives ready : Bool) :
    TransmitCredits.clock credits path arrives ready = path := by
  obtain ⟨pc, transmitVacancy, posted, fifoReq, sipofReq, hostCredits, requested, dequeued⟩ := path
  obtain ⟨-, hposted, hfifo, hsipo⟩ := h
  cases hposted
  cases hfifo
  cases hsipo
  cases arrives <;> cases ready <;> simp [TransmitCredits.clock, TransmitCredits.accepted,
    TransmitCredits.arrive, TransmitCredits.sipoEls_eq]

/-- A full vacancy means that the path is empty. -/
theorem empty_of_vacancy (hmax : maxima.Match credits maxOut)
    (h : TransmitCredits.Invariant credits s.path) (hidle : s.path.pc = .idle)
    (hposted : s.path.posted = []) {vacancy : ℤ}
    (hread : getTransmitVacancy .req (vacancyRegister s.path) 0 = (.ok (), vacancy))
    (hfull : sameInt vacancy maxima.transmitVacancyMax = true) : Empty s.path := by
  have hleft : s.path.pc.left = [] := by
    rw [hidle]
    rfl
  obtain ⟨n, hn, hreg, hle⟩ := h.vacancy hleft hposted 0
  obtain rfl : (n : ℤ) = vacancy := (Prod.mk.inj (hn.symm.trans hread)).2
  have hlt := (vacancyRegister s.path).toNat_lt
  have hcons := h.conserved
  rw [TransmitCredits.sipoEls_eq] at hreg hle hcons
  have hnc := (sameInt_iff (by omega) _).mp hfull
  rw [hmax.vacancy] at hnc
  have hlens : s.path.fifoReq.length = 0 ∧ s.path.sipofReq.length = 0 := by omega
  exact ⟨hidle, hposted, List.eq_nil_of_length_eq_zero hlens.1,
    List.eq_nil_of_length_eq_zero hlens.2⟩

theorem outstanding_of_credits (hmax : maxima.Match credits maxOut)
    (hbound : s.outstanding ≤ maxOut)
    (hfull : sameInt ((outCreditsRegister maxOut s).toNat : ℤ) maxima.ioEndpointMaxOutCredits =
      true) : s.outstanding = 0 := by
  have hreg : (outCreditsRegister maxOut s).toNat = (maxOut - s.outstanding) % 2 ^ 32 :=
    UInt32.toNat_ofNat'
  have hlt := (outCreditsRegister maxOut s).toNat_lt
  have heq := (sameInt_iff hlt _).mp hfull
  rw [hmax.credits, hreg] at heq
  have hle := Nat.mod_le (maxOut - s.outstanding) (2 ^ 32)
  omega

/-- What leaves the path in a cycle is one whole request or nothing. -/
theorem clock_dequeued (credits : ℕ) (path : TransmitCredits.State) (arrives ready : Bool) :
    (TransmitCredits.clock credits path arrives ready).dequeued.length = path.dequeued.length ∨
    ready = true ∧ (TransmitCredits.clock credits path arrives ready).dequeued.length =
      path.dequeued.length + sipoEls := by
  by_cases hyumi : ready = true ∧ sipoEls ≤ path.sipofReq.length
  · right
    refine ⟨hyumi.1, ?_⟩
    simp only [TransmitCredits.clock, if_pos hyumi, List.length_append, List.length_take]
    rw [Nat.min_eq_left hyumi.2]
  · left
    simp only [TransmitCredits.clock, if_neg hyumi, List.take_zero, List.append_nil]

theorem clock_invariant (h : Invariant maxima credits maxOut s) (arrives ready : Bool) :
    Invariant maxima credits maxOut (clock credits maxOut s arrives ready) := by
  obtain ⟨hpath, htaken, hbound, hidle, hvacant, hdone⟩ := h
  refine ⟨TransmitCredits.clock_invariant hpath _ _, ?_, ?_, ?_, ?_, ?_⟩
  · rw [TransmitCredits.sipoEls_eq] at htaken
    simp only [clock]
    rcases clock_dequeued credits s.path arrives (ready && s.outstanding < maxOut)
      with hsame | ⟨-, hmore⟩
    · rw [hsame, Nat.sub_self, Nat.zero_div, TransmitCredits.sipoEls_eq]
      exact htaken
    · rw [hmore, Nat.add_sub_cancel_left, TransmitCredits.sipoEls_eq]
      omega
  · simp only [clock]
    rcases clock_dequeued credits s.path arrives (ready && s.outstanding < maxOut)
      with hsame | ⟨hready, hmore⟩
    · rw [hsame, Nat.sub_self, Nat.zero_div]
      exact hbound
    · have hlt : s.outstanding < maxOut := of_decide_eq_true (Bool.and_eq_true_iff.mp hready).2
      rw [hmore, Nat.add_sub_cancel_left, TransmitCredits.sipoEls_eq]
      omega
  · exact hidle
  · intro vacancy hf hfull
    have hempty := hvacant vacancy hf hfull
    show Empty (TransmitCredits.clock _ _ _ _)
    rw [hempty.clock]
    exact hempty
  · intro vacancy out hf hv hc
    obtain ⟨hempty, hzero⟩ := hdone vacancy out hf hv hc
    simp only [clock, hempty.clock, Nat.sub_self, Nat.zero_div, Nat.add_zero]
    exact ⟨hempty, hzero⟩

theorem fenceStep_invariant (hmax : maxima.Match credits maxOut)
    (h : Invariant maxima credits maxOut s) (hn : fenceStep maxima maxOut s = some t) :
    Invariant maxima credits maxOut t := by
  obtain ⟨hpath, htaken, hbound, hidle, hvacant, hdone⟩ := h
  cases hf : s.fence with
  | out =>
    simp only [fenceStep, hf] at hn
    cases hn
  | test turned vacancy out =>
    have hpc := hidle (by rw [hf]; exact FencePc.noConfusion)
    simp only [fenceStep, hf] at hn
    split at hn <;> cases hn
    · refine ⟨hpath, htaken, hbound, ?_, ?_, ?_⟩
      · intro hne
        exact absurd rfl hne
      · intro v hv
        cases hv
      · intro v o hv
        cases hv
    · refine ⟨hpath, htaken, hbound, ?_, ?_, ?_⟩
      · intro _
        exact hpc
      · intro v hv
        cases hv
      · intro v o hv
        cases hv
  | vacancy =>
    have hpc := hidle (by rw [hf]; exact FencePc.noConfusion)
    simp only [fenceStep, hf] at hn
    split at hn
    · next hposted =>
      split at hn <;> cases hn
      · refine ⟨hpath, htaken, hbound, ?_, ?_, ?_⟩
        · intro hne
          exact absurd rfl hne
        · intro v hv
          cases hv
        · intro v o hv
          cases hv
      · next vacancy hread =>
        refine ⟨hpath, htaken, hbound, ?_, ?_, ?_⟩
        · intro _
          exact hpc
        · intro v hv hfull
          cases hv
          exact empty_of_vacancy hmax hpath hpc hposted hread hfull
        · intro v o hv
          cases hv
    · cases hn
  | credits vacancy =>
    have hpc := hidle (by rw [hf]; exact FencePc.noConfusion)
    simp only [fenceStep, hf] at hn
    split at hn
    · next hposted =>
      cases hn
      refine ⟨hpath, htaken, hbound, ?_, ?_, ?_⟩
      · intro _
        exact hpc
      · intro v hv
        cases hv
      · intro v o hv hfull hcredits
        cases hv
        exact ⟨hvacant vacancy hf hfull, outstanding_of_credits hmax hbound hcredits⟩
    · cases hn

theorem next_invariant (hmax : maxima.Match credits maxOut)
    (h : Invariant maxima credits maxOut s) {e : Event}
    (hn : next maxima credits maxOut s e = some t) : Invariant maxima credits maxOut t := by
  cases e with
  | clock arrives ready =>
    cases hn
    exact clock_invariant h arrives ready
  | step => exact fenceStep_invariant hmax h hn
  | complete =>
    simp only [next] at hn
    split at hn
    · cases hn
    · next hpos =>
      cases hn
      obtain ⟨hpath, htaken, hbound, hidle, hvacant, hdone⟩ := h
      refine ⟨hpath, ?_, ?_, hidle, hvacant, ?_⟩
      · rw [TransmitCredits.sipoEls_eq] at htaken ⊢
        simp only
        omega
      · simp only
        omega
      · intro vacancy out hf hv hc
        exact absurd (hdone vacancy out hf hv hc).2 hpos
  | fence timeout vacancy credits =>
    simp only [next] at hn
    split at hn
    · next hf hpc =>
      cases hn
      obtain ⟨hpath, htaken, hbound, hidle, hvacant, hdone⟩ := h
      split
      · exact ⟨hpath, htaken, hbound, hidle, hvacant, hdone⟩
      · refine ⟨hpath, htaken, hbound, ?_, ?_, ?_⟩
        · intro _
          exact hpc
        · intro v hv
          cases hv
        · intro v o hv
          cases hv
    · cases hn
  | host e =>
    simp only [next] at hn
    split at hn
    · next hf =>
      split at hn
      · cases hn
      · next hclock =>
        obtain ⟨path, hpath, rfl⟩ := Option.map_eq_some_iff.mp hn
        have hdequeued : path.dequeued = s.path.dequeued := by
          cases TransmitCredits.step_of_next hpath with
          | clock arrives ready => exact absurd rfl (hclock arrives ready)
          | init => rfl
          | cleanup => rfl
          | refuse => rfl
          | transmit => rfl
          | read => rfl
          | take => rfl
          | back => rfl
          | store => rfl
        refine ⟨TransmitCredits.next_invariant h.path hpath, ?_, h.bound, ?_, ?_, ?_⟩
        · rw [hdequeued]
          exact h.taken
        · intro hne
          exact absurd hf hne
        · intro v hv
          rw [hf] at hv
          cases hv
        · intro v o hv
          rw [hf] at hv
          cases hv
    · cases hn

theorem initial_invariant : Invariant maxima credits maxOut (initial credits) where
  path := TransmitCredits.initial_invariant
  taken := rfl
  bound := Nat.zero_le _
  idle := fun _ => rfl
  vacant := by
    intro v hv
    cases hv
  done := by
    intro v o hv
    cases hv

theorem reachable_invariant (hmax : maxima.Match credits maxOut)
    (h : Transition.Reachable (system maxima credits maxOut) s) :
    Invariant maxima credits maxOut s := by
  apply h.invariant
  · rintro _ rfl
    exact initial_invariant
  · intro s e t hs hn
    exact next_invariant hmax hs hn

/-- When a fence that read the registers returns with success, every request that the host has
sent is completed. -/
theorem fence_complete (hmax : maxima.Match credits maxOut)
    (h : Transition.Reachable (system maxima credits maxOut) s) (hf : s.fence ≠ .out)
    (hn : next maxima credits maxOut s .step = some t) (hout : t.fence = .out)
    (hok : t.result = some (.ok (), true)) :
    t.outstanding = 0 ∧ t.path.requested.length = sipoEls * t.completed := by
  have hs := reachable_invariant hmax h
  change fenceStep maxima maxOut s = some t at hn
  obtain ⟨hempty, hzero, rfl⟩ : Empty s.path ∧ s.outstanding = 0 ∧
      t = { s with fence := .out, result := some (.ok (), true) } := by
    cases hpc : s.fence with
    | out => exact absurd hpc hf
    | test turned vacancy out =>
      simp only [fenceStep, hpc] at hn
      split at hn <;> cases hn
      · next hboth =>
        obtain ⟨hv, hc⟩ := Bool.and_eq_true_iff.mp hboth
        cases hok
        obtain ⟨hempty, hzero⟩ := hs.done vacancy out hpc hv hc
        exact ⟨hempty, hzero, rfl⟩
      · cases hout
    | vacancy =>
      simp only [fenceStep, hpc] at hn
      split at hn
      · split at hn <;> cases hn
        · cases hok
        · cases hout
      · cases hn
    | credits vacancy =>
      simp only [fenceStep, hpc] at hn
      split at hn <;> cases hn
      cases hout
  refine ⟨hzero, ?_⟩
  have horder := hs.path.order
  have htaken := hs.taken
  rw [hempty.sipofReq, hempty.fifoReq, hempty.posted, hempty.idle] at horder
  simp only [TransmitCredits.tdrWords, List.filter_nil, List.map_nil, Pc.left, List.append_nil]
    at horder
  rw [hzero, Nat.zero_add] at htaken
  rw [← horder]
  exact htaken

/-- If the variables of the loop happen to hold the maxima, the fence returns at once, whatever is
on its way. -/
theorem fence_unread (hf : s.fence = .out) (hpc : s.path.pc = .idle) :
    Transition.run (next maxima credits maxOut) s
      [.fence (-1) maxima.transmitVacancyMax.toNat maxima.ioEndpointMaxOutCredits.toNat, .step] =
    some { s with fence := .out, result := some (.ok (), false) } := by
  have hv := (sameInt_iff maxima.transmitVacancyMax.toNat_lt maxima.transmitVacancyMax).mpr rfl
  have hc := (sameInt_iff maxima.ioEndpointMaxOutCredits.toNat_lt
    maxima.ioEndpointMaxOutCredits).mpr rfl
  simp only [Transition.run, next, hf, hpc, ne_eq, not_true, if_false, Option.bind_some, fenceStep,
    hv, hc, Bool.and_self, if_true]

end Proof

def maximaTwo : Maxima := ⟨2, 2⟩

theorem match_maximaTwo : maximaTwo.Match 2 2 := ⟨rfl, rfl⟩

def oneRequest : List Event :=
  [.host .init, .host (.transmit .req ⟨[4, 3, 2, 1], rfl⟩ (-1)), .host .take] ++
    List.replicate 5 (.host .store)

def fenced : List Event :=
  oneRequest ++ [.fence (-1) 7 7, .step] ++ List.replicate 4 (.clock true true) ++
    [.step, .step, .step] ++ List.replicate 3 (.clock true true) ++
    [.step, .step, .step, .complete, .step, .step]

theorem fence_complete_fenced : ∃ s t : State, s.fence ≠ .out ∧ t.completed = 1 ∧
    t.outstanding = 0 ∧ t.path.requested.length = sipoEls * t.completed := by
  have hrun : (Transition.run (next maximaTwo 2 2) (initial 2) fenced).any (fun s =>
      s.fence ≠ .out ∧ (next maximaTwo 2 2 s .step).any fun t =>
        t.fence = .out ∧ t.result = some (.ok (), true) ∧ t.completed = 1) = true := by
    decide +kernel
  obtain ⟨s, hs, hp⟩ := (Option.any_eq_true _ _).mp hrun
  obtain ⟨hf, hstep⟩ := of_decide_eq_true hp
  obtain ⟨t, hn, hq⟩ := (Option.any_eq_true _ _).mp hstep
  obtain ⟨hout, hok, hcompleted⟩ := of_decide_eq_true hq
  exact ⟨s, t, hf, hcompleted, fence_complete match_maximaTwo
    (Transition.Reachable.events (.initial rfl) hs) hf hn hout hok⟩

end Fence
