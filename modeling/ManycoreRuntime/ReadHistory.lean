import ManycoreRuntime.WriteMem

/-! # Histories of reads

The reads of one machine share the queue of responses and the small space of load ids. A call
that returns with an error leaves its accepted requests behind; the hardware still answers
them, and the next call receives whatever response comes first. -/
namespace ReadHistory

open Coordinate (Errno)
open Configuration (Manycore Accepted)
open EvaToNpa (Npa)
open Packets
open ReadMem (Load nIds)
open WriteMem (readWriteMemCheckArgs addEpa)
open Machines (Machine)

inductive Call where
  | read (npa : Npa) (sz : ℕ)
  | readMem (npa : Npa) (data : ℕ) (words : ℕ → UInt32) (sz : ℕ)
  | readMemScatterGather (npa : ℕ → Npa) (data : ℕ → UInt32) (words : ℕ)

/-- Where a read of one value stands: before its request, waiting for the response, or
returned. -/
inductive ReadPc where
  | rqst
  | rsp
  | done (result : Except Errno UInt32)
  deriving DecidableEq

/-- A call under way, with the requests that it sent and that are not answered. -/
inductive Running where
  | read (npa : Npa) (sz : ℕ) (pc : ReadPc) (pending : List Load)
  | readMem (npa : ℕ → Npa) (cnt : ℕ) (s : ReadMem.State)

namespace Running

def pending : Running → List Load
  | .read _ _ _ pending => pending
  | .readMem _ _ s => s.pending

def size : Running → ℕ
  | .read _ sz _ _ => sz
  | .readMem _ _ _ => 4

def withPending (loads : List Load) : Running → Running
  | .read npa sz pc _ => .read npa sz pc loads
  | .readMem npa cnt s => .readMem npa cnt { s with pending := loads }

def returned : Running → Bool
  | .read _ _ (.done _) _ => true
  | .readMem _ _ s => match s.pc with
    | .done _ => true
    | _ => false
  | _ => false

end Running

def begin (mc : Manycore) : Call → Running
  | .read npa sz => .read npa sz .rqst []
  | .readMem npa data words sz =>
    let start := ReadMem.initial mc words
    .readMem (fun i => addEpa npa (4 * i)) (sz / 4) <|
      match readWriteMemCheckArgs data sz with
      | .error e => { start with pc := .done (.error e) }
      | .ok _ => start
  | .readMemScatterGather npa data words => .readMem npa words (ReadMem.initial mc data)

def castTo (sz : ℕ) (data : UInt32) : UInt32 :=
  match sz with
  | 1 => data.toUInt8.toUInt32
  | 2 => data.toUInt16.toUInt32
  | _ => data

/-- The load id of the response is not looked at. -/
def advanceRead (mc : Manycore) (npa : Npa) (sz : ℕ) (pending : List Load) :
    ReadPc → ReadMem.Event → Option Running
  | .rqst, .send tx =>
    match sendReadRqst mc npa sz 0 tx with
    | .error e => some (.read npa sz (.done (.error e)) pending)
    | .ok rqst => some (.read npa sz .rsp (⟨rqst.regId, npa⟩ :: pending))
  | .rsp, .recv (.error e) => some (.read npa sz (.done (.error e)) pending)
  | .rsp, .recv (.ok rsp) => some (.read npa sz (.done (.ok (castTo sz rsp.data)))
      (pending.eraseP fun l => l.loadId = rsp.loadId))
  | _, _ => none

def advance (mc : Manycore) : Running → ReadMem.Event → Option Running
  | .read npa sz pc pending, e => advanceRead mc npa sz pending pc e
  | .readMem npa cnt s, e => (ReadMem.next mc npa cnt s e).map (.readMem npa cnt)

structure State where
  calls : ℕ
  current : Option Running
  /-- The responses to requests of earlier calls. -/
  stale : List ResponsePacket

inductive Event where
  | call (c : Call)
  | step (e : ReadMem.Event)
  | stale (rsp : ResponsePacket)

/-- `value k npa sz` is what a load of `sz` bytes at `npa` reads during call `k`. -/
def leftover (value : ℕ → Npa → ℕ → UInt32) (s : State) : List ResponsePacket :=
  match s.current with
  | none => []
  | some r => r.pending.map fun l => ⟨l.loadId, value s.calls l.npa r.size⟩

def next (mc : Manycore) (value : ℕ → Npa → ℕ → UInt32) (s : State) : Event → Option State
  | .call c =>
    if s.current.all Running.returned then
      some ⟨s.calls + 1, some (begin mc c), s.stale ++ leftover value s⟩
    else none
  | .step e => s.current.bind fun r =>
    (advance mc r e).map fun t => { s with current := some t }
  | .stale rsp =>
    if rsp ∈ s.stale then s.current.bind fun r =>
      (advance mc r (.recv (.ok rsp))).map fun t =>
        { s with current := some (t.withPending r.pending), stale := s.stale.erase rsp }
    else none

def initial : State := ⟨0, none, []⟩

def system (mc : Manycore) (value : ℕ → Npa → ℕ → UInt32) : Transition.System State Event :=
  .ofNext (· = initial) (next mc value)

/-- Each response answers one accepted request of the call, with its load id and value; the
responses to earlier requests are the stale ones. -/
def Honest (value : ℕ → Npa → ℕ → UInt32) (s : State) : Event → Prop
  | .step (.recv (.ok rsp)) => ∃ r ∈ s.current, ∃ l ∈ r.pending,
      rsp.loadId = l.loadId ∧ rsp.data = value s.calls l.npa r.size
  | _ => True

/-- A call that returned with success has the values at its own addresses. -/
def Delivered (value : ℕ → Npa → ℕ → UInt32) (s : State) : Prop :=
  match s.current with
  | some (.read npa sz (.done (.ok v)) _) => v = castTo sz (value s.calls npa sz)
  | some (.readMem npa cnt t) =>
    t.pc = .done (.ok ()) → ∀ i < cnt, t.data i = value s.calls (npa i) 4
  | _ => True

def Call.words : Call → ℕ
  | .read _ _ => 1
  | .readMem _ _ _ sz => sz / 4
  | .readMemScatterGather _ _ words => words

/-- A request is refused only while no accepted request of its call is unanswered, no receive
fails, and the indices of a call fit the 32 bits of the map's entries. -/
def Orderly (mc : Manycore) (s : State) : Event → Prop
  | .call c => c.words ≤ 2 ^ 32
  | .step (.send tx) => ∀ npa cnt t, s.current = some (.readMem npa cnt t) → t.pending ≠ [] →
      ∀ loadId ∈ t.ids.head?, ∀ e, sendReadRqst mc (npa t.rqstI) 4 loadId tx = .error e → e = .busy
  | .step (.recv (.error _)) => False
  | _ => True

def CallInv (mc : Manycore) (mem : Npa → ℕ → UInt32) : Running → Prop
  | .read _ _ .rqst pending => pending = []
  | .read npa _ .rsp pending => pending = [⟨0, npa⟩]
  | .read npa sz (.done result) pending =>
    pending = [] ∧ ∀ v, result = .ok v → v = castTo sz (mem npa sz)
  | .readMem npa cnt t => cnt ≤ 2 ^ 32 ∧
    (∃ data, ReadMem.Invariant mc npa cnt (fun a => mem a 4) data t) ∧
    ∀ result, t.pc = .done result → t.pending = []

structure Invariant (mc : Manycore) (value : ℕ → Npa → ℕ → UInt32) (s : State) : Prop where
  stale : s.stale = []
  current : ∀ r ∈ s.current, CallInv mc (value s.calls) r

section Proof

variable {mc : Manycore} {mem : Npa → ℕ → UInt32} {value : ℕ → Npa → ℕ → UInt32}

theorem begin_callInv {c : Call} (h : c.words ≤ 2 ^ 32) : CallInv mc mem (begin mc c) := by
  cases c with
  | read npa sz => rfl
  | readMem npa data words sz =>
    have hstart : ReadMem.Invariant mc (fun i => addEpa npa (4 * i)) (sz / 4) (fun a => mem a 4)
        words (ReadMem.initial mc words) := ReadMem.initial_invariant
    simp only [begin]
    split
    · exact ⟨h, ⟨words, hstart.stop (by simp)⟩, fun _ _ => rfl⟩
    · exact ⟨h, ⟨words, hstart⟩, fun _ _ => rfl⟩
  | readMemScatterGather npa data words =>
    exact ⟨h, ⟨data, ReadMem.initial_invariant⟩, fun _ _ => rfl⟩

theorem pending_nil_of_returned {r : Running} (h : CallInv mc mem r) (hr : r.returned = true) :
    r.pending = [] := by
  cases r with
  | read npa sz pc pending =>
    cases pc with
    | rqst => cases hr
    | rsp => cases hr
    | done result => exact h.1
  | readMem npa cnt t =>
    simp only [Running.returned] at hr
    split at hr
    · next result hpc => exact h.2.2 result hpc
    · cases hr

theorem advanceRead_callInv {npa : Npa} {sz : ℕ} {pc : ReadPc} {pending : List Load}
    {e : ReadMem.Event} {t : Running} (h : CallInv mc mem (.read npa sz pc pending))
    (hon : ∀ rsp, e = .recv (.ok rsp) →
      ∃ l ∈ pending, rsp.loadId = l.loadId ∧ rsp.data = mem l.npa sz)
    (hn : advanceRead mc npa sz pending pc e = some t)
    (herr : ∀ err, e ≠ .recv (.error err)) : CallInv mc mem t := by
  cases pc with
  | rqst =>
    cases e with
    | turn => cases hn
    | recv rsp => cases hn
    | send tx =>
      simp only [advanceRead] at hn
      split at hn
      · cases hn
        exact ⟨h, fun v hv => by cases hv⟩
      · next rqst hs =>
        cases hn
        have hid : rqst.regId = 0 := sendReadRqst_regId hs
        rw [CallInv] at h
        rw [CallInv, h, hid]
  | rsp =>
    cases e with
    | turn => cases hn
    | send tx => cases hn
    | recv rsp =>
      cases rsp with
      | error err => exact absurd rfl (herr err)
      | ok rsp =>
        obtain ⟨l, hl, hid, hdata⟩ := hon rsp rfl
        rw [CallInv] at h
        subst h
        rcases List.mem_singleton.mp hl with rfl
        cases hn
        refine ⟨?_, ?_⟩
        · exact List.eraseP_cons_of_pos (decide_eq_true hid.symm)
        · rintro v ⟨⟩
          rw [hdata]
  | done result => cases e <;> cases hn

/-- A step that returns leaves no request unanswered, if refusals and failures of the receive
do not happen in between. -/
theorem next_pending_nil {npa : ℕ → Npa} {cnt : ℕ} {data : ℕ → UInt32} {s t : ReadMem.State}
    {e : ReadMem.Event} {word : Npa → UInt32} (h : ReadMem.Invariant mc npa cnt word data s)
    (ht : ReadMem.Invariant mc npa cnt word data t) (hon : ReadMem.Honest word s e)
    (hsend : ∀ tx, e = .send tx → s.pending ≠ [] → ∀ loadId ∈ s.ids.head?, ∀ err,
      sendReadRqst mc (npa s.rqstI) 4 loadId tx = .error err → err = .busy)
    (herr : ∀ err, e ≠ .recv (.error err)) (hn : ReadMem.next mc npa cnt s e = some t)
    {result : Except Errno Unit} (hdone : t.pc = .done result) : t.pending = [] := by
  cases ReadMem.step_of_next hn with
  | turn pc hturns =>
    have hok : result = .ok () := by
      cases hturns with
      | request => cases hdone
      | finish =>
        cases hdone
        rfl
      | receive => cases hdone
      | again => cases hdone
    rw [hok] at hdone
    exact ht.pending_nil hdone
  | send loadId rest tx hpc hids =>
    simp only [ReadMem.send] at hdone ⊢
    split at hdone
    · simp [hpc] at hdone
    · cases hdone
    · next err hne hs =>
      by_contra hp
      exact hne (hsend tx rfl hp loadId (by simp [hids]) err hs)
  | recvError err => exact absurd rfl (herr err)
  | recv hpc =>
    obtain ⟨before, l, after, i, hans⟩ := h.answered hon
    rw [hans.recv] at hdone
    simp [hpc] at hdone

theorem advance_callInv {r t : Running} {e : ReadMem.Event} (hcap : nIds mc ≤ 256)
    (h : CallInv mc mem r)
    (hon : ∀ rsp, e = .recv (.ok rsp) →
      ∃ l ∈ r.pending, rsp.loadId = l.loadId ∧ rsp.data = mem l.npa r.size)
    (hsend : ∀ tx npa cnt s, e = .send tx → r = .readMem npa cnt s → s.pending ≠ [] →
      ∀ loadId ∈ s.ids.head?, ∀ err,
        sendReadRqst mc (npa s.rqstI) 4 loadId tx = .error err → err = .busy)
    (herr : ∀ err, e ≠ .recv (.error err)) (hn : advance mc r e = some t) :
    CallInv mc mem t := by
  cases r with
  | read npa sz pc pending => exact advanceRead_callInv h hon hn herr
  | readMem npa cnt s =>
    obtain ⟨u, hu, rfl⟩ := Option.map_eq_some_iff.mp hn
    obtain ⟨hcnt, ⟨data, hinv⟩, -⟩ := h
    have hword : ReadMem.Honest (fun a => mem a 4) s e := by
      cases e with
      | recv rsp =>
        cases rsp with
        | error err => trivial
        | ok rsp => exact hon rsp rfl
      | turn => trivial
      | send tx => trivial
    have hnext := ReadMem.next_invariant hcap hcnt hinv hword hu
    exact ⟨hcnt, ⟨data, hnext⟩, fun result hdone =>
      next_pending_nil hinv hnext hword (fun tx he => hsend tx npa cnt s he rfl) herr hu hdone⟩

theorem next_invariant {s t : State} {e : Event} (hcap : nIds mc ≤ 256)
    (h : Invariant mc value s) (hon : Honest value s e) (hord : Orderly mc s e)
    (hn : next mc value s e = some t) : Invariant mc value t := by
  cases e with
  | call c =>
    simp only [next] at hn
    split at hn
    · next hall =>
      cases hn
      refine ⟨?_, fun r hr => ?_⟩
      · simp only [h.stale, List.nil_append, leftover]
        split
        · rfl
        · next r hr =>
          rw [hr] at hall
          rw [pending_nil_of_returned (h.current r hr) hall]
          rfl
      · cases hr
        exact begin_callInv hord
    · cases hn
  | step e =>
    obtain ⟨r, hr, hn⟩ := Option.bind_eq_some_iff.mp hn
    obtain ⟨u, hu, rfl⟩ := Option.map_eq_some_iff.mp hn
    refine ⟨h.stale, fun q hq => ?_⟩
    cases hq
    refine advance_callInv hcap (h.current r hr) ?_ ?_ ?_ hu
    · rintro rsp rfl
      obtain ⟨r', hr', hl⟩ := hon
      have hsame : r' = r := Option.some.inj (hr'.symm.trans hr)
      rw [← hsame]
      exact hl
    · rintro tx npa cnt q rfl rfl
      exact hord npa cnt q hr
    · rintro err rfl
      exact hord
  | stale rsp =>
    simp only [next, h.stale, List.not_mem_nil, if_false] at hn
    cases hn

theorem Invariant.delivered {s : State} (h : Invariant mc value s) : Delivered value s := by
  unfold Delivered
  split
  · next npa sz v pending hr => exact (h.current _ hr).2 v rfl
  · next npa cnt q hr =>
    obtain ⟨-, ⟨data, hinv⟩, -⟩ := h.current _ hr
    intro hdone i hi
    exact hinv.read i ((hinv.writes_perm hdone).mem_iff.mpr (List.mem_range.mpr hi))
  · trivial

/-- Calls that leave nothing behind receive no response but their own. -/
theorem no_stale_response (hacc : Accepted mc.config) {s : State}
    (h : Transition.Reachable
      ((system mc value).restrict fun s e => Honest value s e ∧ Orderly mc s e) s) :
    Delivered value s := by
  have hcap : nIds mc ≤ 256 := le_trans hacc.limits.loadCap (by decide)
  refine (@Transition.Reachable.invariant _ _ _ (Invariant mc value) ?_ ?_ _ h).delivered
  · rintro _ rfl
    exact ⟨rfl, fun r hr => by cases hr⟩
  · rintro s e t hs ⟨⟨hon, hord⟩, hn⟩
    exact next_invariant hcap hs hon hord hn

end Proof

def addresses (_ : ℕ) (npa : Npa) (_ : ℕ) : UInt32 := npa.epa

/-- A vector whose addresses cannot be read is refused at once, and the word that is read next
is the one that was asked for. -/
theorem no_stale_response_x16y8 :
    ∃ s pending, s.current = some (.read ⟨16, 8, 8⟩ 4 (.done (.ok 8)) pending) ∧
      Delivered addresses s := by
  have hvector : Call.words (.readMemScatterGather (fun _ => ⟨16, 8, 2⟩) (fun _ => 0) 2) ≤
      2 ^ 32 := by
    decide
  have hword : Call.words (.read ⟨16, 8, 8⟩ 4) ≤ 2 ^ 32 := by decide
  have hcall : Transition.Reachable ((system ⟨({} : Machine).config, true⟩ addresses).restrict
      fun s e => Honest addresses s e ∧ Orderly ⟨({} : Machine).config, true⟩ s e) _ :=
    .step (e := Event.call _) (.initial rfl) ⟨⟨trivial, hvector⟩, rfl⟩
  have hturn := hcall.next (Event.step .turn) ⟨⟨trivial, trivial⟩, rfl⟩
  have hrefused := hturn.next (Event.step (.send (.ok ())))
    ⟨⟨trivial, fun _ _ _ he hp => absurd (by cases he; rfl) hp⟩, rfl⟩
  have hread := hrefused.next (Event.call _) ⟨⟨trivial, hword⟩, rfl⟩
  have hsent := hread.next (Event.step (.send (.ok ())))
    ⟨⟨trivial, fun _ _ _ he => by cases he⟩, rfl⟩
  have hdone := hsent.next (Event.step (.recv (.ok ⟨0, 8⟩)))
    ⟨⟨⟨_, rfl, _, List.mem_singleton.mpr rfl, rfl, rfl⟩, trivial⟩, rfl⟩
  exact ⟨_, _, rfl, no_stale_response (Machine.config_accepted _ (by decide)) hdone⟩

def misread (s : State) : Bool :=
  match s.current with
  | some (.read npa sz (.done (.ok v)) _) => v ≠ castTo sz (addresses s.calls npa sz)
  | _ => false

theorem not_delivered_of_misread {s : State} (h : misread s = true) : ¬ Delivered addresses s := by
  intro hd
  unfold misread at h
  split at h
  · next npa sz v pending hc =>
    rw [Delivered, hc] at hd
    exact of_decide_eq_true h hd
  · cases h

/-- A vector of two addresses, the second of which is not aligned: the call returns with an
error while its first request is unanswered, and the next read returns the response to that
request. -/
theorem no_stale_response_fails :
    Accepted ({} : Machine).config ∧
      ∃ s, Transition.Reachable
          ((system ⟨({} : Machine).config, true⟩ addresses).restrict (Honest addresses)) s ∧
        ¬ Delivered addresses s := by
  refine ⟨Machine.config_accepted _ (by decide), ?_⟩
  have hrun : (Transition.run (next ⟨({} : Machine).config, true⟩ addresses) initial
      [.call (.readMemScatterGather (fun i => ⟨16, 8, 2 * UInt32.ofNat i⟩) (fun _ => 0) 2),
        .step .turn, .step (.send (.ok ())), .step (.send (.ok ())), .call (.read ⟨16, 8, 8⟩ 4),
        .step (.send (.ok ())), .stale ⟨0, 0⟩]).any misread = true := by decide
  obtain ⟨s, hs, hbad⟩ := (Option.any_eq_true _ _).mp hrun
  refine ⟨s, Transition.Reachable.run (.initial rfl) ?_ hs, not_delivered_of_misread hbad⟩
  intro e he t
  simp only [List.mem_cons, List.not_mem_nil, or_false] at he
  rcases he with rfl | rfl | rfl | rfl | rfl | rfl | rfl <;> trivial

end ReadHistory
