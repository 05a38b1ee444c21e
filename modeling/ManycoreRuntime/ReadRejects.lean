import ManycoreRuntime.ReadMem

/-! # Responses that nobody waits for

A call that reads many words looks a response's id up in the map from ids to words. The map has
an entry for every id that was ever used, so an id that was answered still has one. -/
namespace ReadRejects

open Coordinate (Errno)
open Configuration (Accepted Manycore)
open EvaToNpa (Npa)
open Packets
open Sharing
open Machines (Machine)
open ReadMem

structure Receiving (s : State) : Prop where
  pc : s.pc = .rsp
  waits : s.rspI < s.rqstI

instance (s : State) : Decidable (Receiving s) :=
  decidable_of_iff (_ ∧ _) ⟨fun h => ⟨h.1, h.2⟩, fun h => ⟨h.pc, h.waits⟩⟩

/-- No request of the call under way has the id of the response. -/
def Unexpected (s : State) (rsp : ResponsePacket) : Prop :=
  ∀ l ∈ s.pending, l.loadId ≠ rsp.loadId

instance (s : State) (rsp : ResponsePacket) : Decidable (Unexpected s rsp) :=
  inferInstanceAs (Decidable (∀ l ∈ s.pending, l.loadId ≠ rsp.loadId))

/-- The response ends the call with an error, and nothing else of the call changes. -/
structure Rejected (mc : Manycore) (cnt : ℕ) (s : State) (rsp : ResponsePacket) : Prop where
  fails : ∃ e, (recv mc cnt s rsp).pc = .done (.error e)
  data : (recv mc cnt s rsp).data = s.data
  writes : (recv mc cnt s rsp).writes = s.writes
  rspI : (recv mc cnt s rsp).rspI = s.rspI
  ids : (recv mc cnt s rsp).ids = s.ids

/-- The id is none of the call's, or no request with it was ever tried. -/
def Unrecorded (mc : Manycore) (s : State) (rsp : ResponsePacket) : Prop :=
  nIds mc ≤ rsp.loadId.toNat ∨ s.idToRspI rsp.loadId.toUInt32 = none

/-- The call tried a request with the id: the id was on top of the stack when it was sent. -/
def Tried (mc : Manycore) (npa : ℕ → Npa) (cnt : ℕ) (data : ℕ → UInt32) (es : List Event)
    (id : UInt32) : Prop :=
  ∃ before tx after s rest, es = before ++ .send tx :: after ∧
    Transition.run (next mc npa cnt) (initial mc data) before = some s ∧ s.ids = id :: rest

section Steps

variable {mc : Manycore} {npa : ℕ → Npa} {cnt : ℕ} {data : ℕ → UInt32} {s t : State} {e : Event}

theorem send_idToRspI (loadId : UInt32) (rest : List UInt32) (tx : Except Errno Unit) :
    (send mc npa s loadId rest tx).idToRspI =
      Function.update s.idToRspI loadId (some (UInt32.ofNat s.rqstI)) := by
  simp only [send]
  split <;> rfl

theorem recv_idToRspI (rsp : ResponsePacket) : (recv mc cnt s rsp).idToRspI = s.idToRspI := by
  simp only [recv]
  split
  · rfl
  · split
    · rfl
    · split <;> rfl

theorem recv_refused {rsp : ResponsePacket} (h : Unrecorded mc s rsp) :
    recv mc cnt s rsp = { s with
      pending := s.pending.eraseP fun l => l.loadId = rsp.loadId
      pc := .done (.error .fail) } := by
  by_cases hle : rsp.loadId.toUInt32.toNat ≥ nIds mc
  · simp only [recv, hle, if_true]
  · have hnone : s.idToRspI rsp.loadId.toUInt32 = none := by
      apply Or.resolve_left h
      rwa [UInt8.toNat_toUInt32] at hle
    simp only [recv, hle, if_false, hnone]

theorem recv_accepted {rsp : ResponsePacket} {i : UInt32} (hid : rsp.loadId.toNat < nIds mc)
    (hi : s.idToRspI rsp.loadId.toUInt32 = some i) (hle : i.toNat ≤ cnt) :
    recv mc cnt s rsp = { s with
      pending := s.pending.eraseP fun l => l.loadId = rsp.loadId
      data := Function.update s.data i.toNat rsp.data
      writes := i.toNat :: s.writes
      rspI := s.rspI + 1
      ids := rsp.loadId.toUInt32 :: s.ids } := by
  have hin : ¬ rsp.loadId.toUInt32.toNat ≥ nIds mc := by
    rw [UInt8.toNat_toUInt32]
    omega
  have hidx : ¬ i.toNat > cnt := Nat.not_lt_of_le hle
  simp only [recv, hin, if_false, hi, hidx]

end Steps

section Map

variable {mc : Manycore} {npa : ℕ → Npa} {cnt : ℕ} {data : ℕ → UInt32} {s t : State}

def Indices (cnt : ℕ) (s : State) : Prop := ∀ id i, s.idToRspI id = some i → i.toNat < cnt

theorem recv_cases (h : Indices cnt s) (rsp : ResponsePacket) :
    (Unrecorded mc s rsp ∧ recv mc cnt s rsp = { s with
      pending := s.pending.eraseP fun l => l.loadId = rsp.loadId
      pc := .done (.error .fail) }) ∨
    (rsp.loadId.toNat < nIds mc ∧ ∃ i, s.idToRspI rsp.loadId.toUInt32 = some i ∧
      recv mc cnt s rsp = { s with
        pending := s.pending.eraseP fun l => l.loadId = rsp.loadId
        data := Function.update s.data i.toNat rsp.data
        writes := i.toNat :: s.writes
        rspI := s.rspI + 1
        ids := rsp.loadId.toUInt32 :: s.ids }) := by
  by_cases hr : Unrecorded mc s rsp
  · exact Or.inl ⟨hr, recv_refused hr⟩
  · rw [Unrecorded, not_or, Nat.not_le] at hr
    obtain ⟨hid, hsome⟩ := hr
    obtain ⟨i, hi⟩ := Option.ne_none_iff_exists'.mp hsome
    exact Or.inr ⟨hid, i, hi, recv_accepted hid hi (h _ i hi).le⟩

/-- Every entry of the map is the index of a word, in whatever way the call was answered. -/
theorem reachable_indices (h : Transition.Reachable (system mc npa cnt data) s) :
    Indices cnt s := by
  refine h.invariant ?_ ?_
  · rintro _ rfl id i hi
    cases hi
  · intro s e t hs hn id i hi
    cases step_of_next hn with
    | turn pc _ => exact hs id i hi
    | send loadId rest tx hpc hids hlt =>
      rw [send_idToRspI] at hi
      by_cases he : id = loadId
      · rw [he, Function.update_self] at hi
        cases hi
        exact lt_of_le_of_lt (Nat.mod_le _ _) hlt
      · rw [Function.update_of_ne he] at hi
        exact hs id i hi
    | recvError err => exact hs id i hi
    | recv hr =>
      rw [recv_idToRspI] at hi
      exact hs id i hi

/-- An entry of the map is never removed. -/
theorem entry_kept {e : Event} (hn : next mc npa cnt s e = some t) {id : UInt32}
    (h : s.idToRspI id ≠ none) : t.idToRspI id ≠ none := by
  cases step_of_next hn with
  | turn pc _ => exact h
  | send loadId rest tx hpc hids hlt =>
    rw [send_idToRspI]
    by_cases he : id = loadId
    · rw [he, Function.update_self]
      exact Option.some_ne_none _
    · rw [Function.update_of_ne he]
      exact h
  | recvError err => exact h
  | recv hr =>
    rw [recv_idToRspI]
    exact h

theorem entry_kept_run {es : List Event} (hr : Transition.run (next mc npa cnt) s es = some t)
    {id : UInt32} (h : s.idToRspI id ≠ none) : t.idToRspI id ≠ none := by
  induction es generalizing s with
  | nil =>
    cases hr
    exact h
  | cons e es ih =>
    obtain ⟨u, hu, hr⟩ := Option.bind_eq_some_iff.mp hr
    exact ih hr (entry_kept hu h)

theorem tried_concat {es : List Event}
    (hs : Transition.run (next mc npa cnt) (initial mc data) es = some s) {e : Event}
    {id : UInt32} : Tried mc npa cnt data (es ++ [e]) id ↔
      Tried mc npa cnt data es id ∨ ∃ tx rest, e = .send tx ∧ s.ids = id :: rest := by
  constructor
  · rintro ⟨before, tx, after, u, rest, hes, hu, hids⟩
    rcases List.eq_nil_or_concat after with rfl | ⟨after, e', rfl⟩
    · obtain ⟨rfl, he⟩ := List.append_inj' hes rfl
      rw [hs, Option.some.injEq] at hu
      subst hu
      exact Or.inr ⟨tx, rest, List.singleton_inj.mp he, hids⟩
    · rw [List.concat_eq_append, ← List.cons_append, ← List.append_assoc] at hes
      exact Or.inl ⟨before, tx, after, u, rest, (List.append_inj' hes rfl).1, hu, hids⟩
  · rintro (⟨before, tx, after, u, rest, rfl, hu, hids⟩ | ⟨tx, rest, rfl, hids⟩)
    · exact ⟨before, tx, after ++ [e], u, rest, by simp only [List.append_assoc, List.cons_append],
        hu, hids⟩
    · exact ⟨es, tx, [], s, rest, rfl, hs, hids⟩

theorem tried_concat_of_not_send {es : List Event}
    (hs : Transition.run (next mc npa cnt) (initial mc data) es = some s) {e : Event}
    (he : ∀ tx, e ≠ .send tx) {id : UInt32} :
    Tried mc npa cnt data (es ++ [e]) id ↔ Tried mc npa cnt data es id := by
  rw [tried_concat hs]
  exact or_iff_left fun ⟨tx, _, hsend, _⟩ => he tx hsend

structure History (mc : Manycore) (npa : ℕ → Npa) (cnt : ℕ) (data : ℕ → UInt32) (es : List Event)
    (s : State) : Prop where
  run : Transition.run (next mc npa cnt) (initial mc data) es = some s
  entry : ∀ id, s.idToRspI id ≠ none ↔ Tried mc npa cnt data es id

theorem initial_history : History mc npa cnt data [] (initial mc data) := by
  refine ⟨rfl, fun id => iff_of_false (fun h => h rfl) ?_⟩
  rintro ⟨before, tx, after, s, rest, hes, -⟩
  exact absurd hes.symm (List.append_ne_nil_of_right_ne_nil _ (List.cons_ne_nil _ _))

theorem next_history {es : List Event} {e : Event} (h : History mc npa cnt data es s)
    (hn : next mc npa cnt s e = some t) : History mc npa cnt data (es ++ [e]) t := by
  refine ⟨?_, fun id => ?_⟩
  · rw [Transition.run_concat, h.run]
    exact hn
  cases step_of_next hn with
  | turn pc _ =>
    rw [tried_concat_of_not_send h.run (fun _ => Event.noConfusion)]
    exact h.entry id
  | send loadId rest tx hpc hids hlt =>
    rw [tried_concat h.run, ← h.entry id, send_idToRspI]
    by_cases he : id = loadId
    · rw [he, Function.update_self]
      exact iff_of_true (Option.some_ne_none _) (Or.inr ⟨tx, rest, rfl, hids⟩)
    · rw [Function.update_of_ne he]
      refine ⟨Or.inl, fun h => h.resolve_right ?_⟩
      rintro ⟨tx', rest', -, hids'⟩
      rw [hids] at hids'
      exact he (List.cons.inj hids').1.symm
  | recvError err =>
    rw [tried_concat_of_not_send h.run (fun _ => Event.noConfusion)]
    exact h.entry id
  | recv hr =>
    rw [recv_idToRspI, tried_concat_of_not_send h.run (fun _ => Event.noConfusion)]
    exact h.entry id

/-- After any run the map has an entry for exactly the ids that the run tried. -/
theorem run_history {es : List Event}
    (h : Transition.run (next mc npa cnt) (initial mc data) es = some s) :
    History mc npa cnt data es s :=
  Transition.run_history initial_history (fun _ _ _ _ => next_history) h

theorem unrecorded_iff {es : List Event}
    (hs : Transition.run (next mc npa cnt) (initial mc data) es = some s) (rsp : ResponsePacket) :
    Unrecorded mc s rsp ↔
      nIds mc ≤ rsp.loadId.toNat ∨ ¬ Tried mc npa cnt data es rsp.loadId.toUInt32 := by
  rw [Unrecorded, ← (run_history hs).entry, not_not]

/-- A response is rejected exactly if its id is unknown to the map. -/
theorem rejected_iff (hidx : Indices cnt s) {rsp : ResponsePacket} (hpc : s.pc = .rsp) :
    Rejected mc cnt s rsp ↔ Unrecorded mc s rsp := by
  constructor
  · intro h
    obtain ⟨err, hfails⟩ := h.fails
    rcases @recv_cases mc cnt s hidx rsp with ⟨hr, -⟩ | ⟨-, i, -, hr⟩
    · exact hr
    · rw [hr] at hfails
      simp only [hpc, reduceCtorEq] at hfails
  · intro h
    have hr := @recv_refused mc cnt s rsp h
    exact ⟨⟨.fail, by rw [hr]⟩, by rw [hr], by rw [hr], by rw [hr], by rw [hr]⟩

end Map

/-- Each response answers a request under way, or has an id that the map does not know. -/
def Recognised (mc : Manycore) (s : State) : Event → Prop
  | .recv (.ok rsp) => ¬ Unexpected s rsp ∨ Unrecorded mc s rsp
  | _ => True

instance (mc : Manycore) (s : State) (rsp : ResponsePacket) : Decidable (Unrecorded mc s rsp) :=
  inferInstanceAs (Decidable (_ ∨ _))

instance (mc : Manycore) (s : State) (e : Event) : Decidable (Recognised mc s e) :=
  match e with
  | .recv (.ok rsp) => inferInstanceAs (Decidable (¬ Unexpected s rsp ∨ Unrecorded mc s rsp))
  | .recv (.error _) | .turn | .send _ => inferInstanceAs (Decidable True)

structure Recording (mc : Manycore) (s : State) : Prop where
  ids : ∀ id ∈ s.ids, id.toNat < nIds mc
  pending : ∀ l ∈ s.pending,
    l.loadId.toNat < nIds mc ∧ s.idToRspI l.loadId.toUInt32 ≠ none

/-- Every id is in one place, on the stack or in a request under way. -/
def Window (mc : Manycore) (s : State) : Prop :=
  Shares (nIds mc) (s.ids.map UInt32.toNat) (s.pending.map fun l => l.loadId.toNat)

section Window

variable {mc : Manycore} {npa : ℕ → Npa} {cnt : ℕ} {data : ℕ → UInt32} {s t : State}

theorem send_cases (hcap : nIds mc ≤ 256) {loadId : UInt32} (hid : loadId.toNat < nIds mc)
    (rest : List UInt32) (tx : Except Errno Unit) :
    ((send mc npa s loadId rest tx).ids = s.ids ∧
      (send mc npa s loadId rest tx).pending = s.pending) ∨
    ((send mc npa s loadId rest tx).ids = rest ∧
      ∃ l, l.loadId.toUInt32 = loadId ∧
        (send mc npa s loadId rest tx).pending = l :: s.pending) := by
  cases hs : sendReadRqst mc (npa s.rqstI) 4 loadId tx with
  | error e => cases e <;> exact Or.inl (by simp only [send, hs, and_self])
  | ok rqst =>
    refine Or.inr ⟨by simp only [send, hs], ⟨rqst.regId, npa s.rqstI⟩, ?_, by simp only [send, hs]⟩
    simp only
    rw [sendReadRqst_regId hs, ← UInt32.toNat_inj, UInt8.toNat_toUInt32, UInt32.toNat_toUInt8]
    omega

theorem initial_recording : Recording mc (initial mc data) := by
  constructor
  · intro id hid
    obtain ⟨i, hi, rfl⟩ := List.mem_map.mp hid
    exact lt_of_le_of_lt (Nat.mod_le _ _) (List.mem_range.mp hi)
  · intro l hl
    cases hl

theorem initial_window : Window mc (initial mc data) :=
  (@initial_invariant mc (fun _ => ⟨0, 0, 0⟩) 0 (fun _ => 0) data).ids

theorem recording_step (hcap : nIds mc ≤ 256) (hidx : Indices cnt s) (h : Recording mc s)
    {e : Event} (hn : next mc npa cnt s e = some t) : Recording mc t := by
  have hkept : ∀ l ∈ s.pending,
      l.loadId.toNat < nIds mc ∧ t.idToRspI l.loadId.toUInt32 ≠ none :=
    fun l hl => ⟨(h.pending l hl).1, entry_kept hn (h.pending l hl).2⟩
  cases step_of_next hn with
  | turn pc _ => exact ⟨h.ids, h.pending⟩
  | send loadId rest tx hpc hids hlt =>
    have hid : loadId.toNat < nIds mc := h.ids loadId (by rw [hids]; exact List.mem_cons_self)
    rcases @send_cases mc npa s hcap loadId hid rest tx with
      ⟨hi, hp⟩ | ⟨hi, l, hl, hp⟩
    · refine ⟨by rw [hi]; exact h.ids, by rw [hp]; exact hkept⟩
    · refine ⟨?_, ?_⟩
      · rw [hi]
        intro id hmem
        apply h.ids
        rw [hids]
        exact List.mem_cons_of_mem _ hmem
      · rw [hp]
        intro l' hl'
        rcases List.mem_cons.mp hl' with rfl | hl'
        · rw [← UInt8.toNat_toUInt32, hl, send_idToRspI, Function.update_self]
          exact ⟨hid, Option.some_ne_none _⟩
        · exact hkept l' hl'
  | recvError err => exact ⟨h.ids, h.pending⟩
  | @recv rsp hr =>
    have herase : ∀ l ∈ s.pending.eraseP (fun l => l.loadId = rsp.loadId),
        l.loadId.toNat < nIds mc ∧ s.idToRspI l.loadId.toUInt32 ≠ none :=
      fun l hl => h.pending l (List.mem_of_mem_eraseP hl)
    rcases @recv_cases mc cnt s hidx rsp with ⟨-, he⟩ | ⟨hid, i, -, he⟩
    · rw [he]
      exact ⟨h.ids, herase⟩
    · rw [he]
      refine ⟨?_, herase⟩
      intro id hmem
      rcases List.mem_cons.mp hmem with rfl | hmem
      · rwa [UInt8.toNat_toUInt32]
      · exact h.ids id hmem

theorem reachable_recording (hcap : nIds mc ≤ 256)
    (h : Transition.Reachable (system mc npa cnt data) s) : Recording mc s := by
  induction h with
  | initial h =>
    cases h
    exact initial_recording
  | step hs hn ih => exact recording_step hcap (reachable_indices hs) ih hn

theorem Recording.recorded (h : Recording mc s) {rsp : ResponsePacket} {l : Load}
    (hl : l ∈ s.pending) (hid : l.loadId = rsp.loadId) : ¬ Unrecorded mc s rsp := by
  obtain ⟨hlt, hsome⟩ := h.pending l hl
  rw [hid] at hlt hsome
  rintro (hle | hnone)
  · exact absurd hlt (Nat.not_lt_of_le hle)
  · exact hsome hnone

theorem Window.give (h : Window mc s) {rsp : ResponsePacket} {l₀ : Load} (hl₀ : l₀ ∈ s.pending)
    (hid₀ : l₀.loadId = rsp.loadId) :
    Shares (nIds mc) ((rsp.loadId.toUInt32 :: s.ids).map UInt32.toNat)
      ((s.pending.eraseP fun l => l.loadId = rsp.loadId).map fun l => l.loadId.toNat) := by
  obtain ⟨l, before, after, -, hp, hsplit, herase⟩ :=
    List.exists_of_eraseP hl₀ (p := fun l => l.loadId = rsp.loadId) (decide_eq_true hid₀)
  have hlid : l.loadId = rsp.loadId := of_decide_eq_true hp
  unfold Window at h
  rw [hsplit, List.map_append, List.map_cons, hlid] at h
  simp only [herase, List.map_cons, List.map_append, UInt8.toNat_toUInt32]
  exact Shares.give h

theorem Window.free (h : Window mc s) {rsp : ResponsePacket} (hu : Unexpected s rsp)
    (hrec : ¬ Unrecorded mc s rsp) : rsp.loadId.toUInt32 ∈ s.ids := by
  rw [Unrecorded, not_or, Nat.not_le] at hrec
  rcases h.mem_or_mem_iff.mpr hrec.1 with hid | hid
  · obtain ⟨id, hmem, he⟩ := List.mem_map.mp hid
    rw [← UInt8.toNat_toUInt32, UInt32.toNat_inj] at he
    exact he ▸ hmem
  · obtain ⟨l, hl, he⟩ := List.mem_map.mp hid
    exact absurd (UInt8.toNat_inj.mp he) (hu l hl)

theorem window_step (hcap : nIds mc ≤ 256) (hidx : Indices cnt s) (hrec : Recording mc s)
    (h : Window mc s) {e : Event} (he : Recognised mc s e)
    (hn : next mc npa cnt s e = some t) : Window mc t := by
  cases step_of_next hn with
  | turn pc _ => exact h
  | send loadId rest tx hpc hids hlt =>
    have hid : loadId.toNat < nIds mc := hrec.ids loadId (by rw [hids]; exact List.mem_cons_self)
    unfold Window at h ⊢
    rcases @send_cases mc npa s hcap loadId hid rest tx with
      ⟨hi, hp⟩ | ⟨hi, l, hl, hp⟩
    · rw [hi, hp]
      exact h
    · have hnat : l.loadId.toNat = loadId.toNat := by
        rw [← hl, UInt8.toNat_toUInt32]
      rw [hids, List.map_cons] at h
      rw [hi, hp, List.map_cons, hnat]
      exact h.take
  | recvError err => exact h
  | @recv rsp hr =>
    by_cases hu : Unexpected s rsp
    · have hkeep : s.pending.eraseP (fun l => l.loadId = rsp.loadId) = s.pending := by
        apply List.eraseP_of_forall_not
        intro l hl hd
        exact hu l hl (of_decide_eq_true hd)
      have hunrec : Unrecorded mc s rsp := by
        rcases he with hne | hunrec
        · exact absurd hu hne
        · exact hunrec
      rw [recv_refused hunrec, hkeep]
      exact h
    · obtain ⟨l, hl, hid⟩ : ∃ l ∈ s.pending, l.loadId = rsp.loadId := by
        simpa only [Unexpected, not_forall, not_not, exists_prop] using hu
      rcases @recv_cases mc cnt s hidx rsp with ⟨hunrec, -⟩ | ⟨-, i, -, hacc⟩
      · exact absurd hunrec (hrec.recorded hl hid)
      · rw [hacc]
        exact h.give hl hid

/-- While every response is expected or unknown to the map, no id is in two places. -/
theorem reachable_window (hcap : nIds mc ≤ 256)
    (h : Transition.Reachable ((system mc npa cnt data).restrict (Recognised mc)) s) :
    Window mc s := by
  induction h with
  | initial h =>
    cases h
    exact @initial_window mc data
  | step hs hn ih =>
    have hreach := hs.of_restrict
    exact window_step hcap (reachable_indices hreach) (reachable_recording hcap hreach) ih hn.1
      hn.2

/-- The id of a request that the call has sent is never rejected again, answered or not. -/
theorem sent_not_rejected (hcap : nIds mc ≤ 256)
    (hs : Transition.Reachable (system mc npa cnt data) s) {l : Load} (hl : l ∈ s.pending)
    {es : List Event} (hrun : Transition.run (next mc npa cnt) s es = some t)
    (hr : Receiving t) (value : UInt32) : ¬ Rejected mc cnt t ⟨l.loadId, value⟩ := by
  have ht : Transition.Reachable (system mc npa cnt data) t :=
    @Transition.Reachable.events State Event (fun s => s = initial mc data) (next mc npa cnt) s t
      es hs hrun
  obtain ⟨hid, hsome⟩ := (reachable_recording hcap hs).pending l hl
  rw [rejected_iff (reachable_indices ht) hr.pc]
  rintro (hle | hnone)
  · exact absurd hid (Nat.not_lt_of_le hle)
  · exact entry_kept_run hrun hsome hnone

end Window

/-- In every state of the call an unexpected response is rejected exactly if its id is none of
the call's or was never tried, and no other response is; and in a run with no other unexpected
responses no id is ever in two places, so that one that is not rejected has an id that is free. -/
theorem unexpected_responses {mc : Manycore} {npa : ℕ → Npa} {cnt : ℕ} {data : ℕ → UInt32} :
    (∀ s, Transition.Reachable (system mc npa cnt data) s → Receiving s →
      ∀ rsp, Unexpected s rsp → (Rejected mc cnt s rsp ↔ Unrecorded mc s rsp)) ∧
    (∀ es s, Transition.run (next mc npa cnt) (initial mc data) es = some s → Receiving s →
      ∀ rsp, Unexpected s rsp → (Rejected mc cnt s rsp ↔
        nIds mc ≤ rsp.loadId.toNat ∨ ¬ Tried mc npa cnt data es rsp.loadId.toUInt32)) ∧
    (Accepted mc.config → ∀ s, Transition.Reachable (system mc npa cnt data) s → Receiving s →
      ∀ rsp, Rejected mc cnt s rsp → Unexpected s rsp) ∧
    (Accepted mc.config → ∀ s,
      Transition.Reachable ((system mc npa cnt data).restrict (Recognised mc)) s →
      (s.ids.map UInt32.toNat ++ s.pending.map fun l => l.loadId.toNat).Nodup ∧
      ∀ rsp, Unexpected s rsp → ¬ Unrecorded mc s rsp → rsp.loadId.toUInt32 ∈ s.ids) := by
  have hcap : Accepted mc.config → nIds mc ≤ 256 :=
    fun hacc => le_trans hacc.limits.loadCap (by decide)
  refine ⟨?_, ?_, ?_, ?_⟩
  · intro s h hr rsp _
    exact rejected_iff (reachable_indices h) hr.pc
  · intro es s h hr rsp _
    rw [← unrecorded_iff h]
    have hreach : Transition.Reachable (system mc npa cnt data) s :=
      @Transition.Reachable.events State Event (fun s => s = initial mc data) _ _ s es
        (.initial rfl) h
    exact rejected_iff (reachable_indices hreach) hr.pc
  · intro hacc s h hr rsp hrej l hl hid
    have hunrec := (rejected_iff (reachable_indices h) hr.pc).mp hrej
    exact (reachable_recording (hcap hacc) h).recorded hl hid hunrec
  · intro hacc s h
    have hwindow := reachable_window (hcap hacc) h
    exact ⟨hwindow.nodup, fun rsp hu hrec => hwindow.free hu hrec⟩

def answeredOnce : List Event :=
  [.turn, .send (.ok ()), .send (.ok ()), .turn, .recv (.ok ⟨0, 5⟩)]

theorem unexpected_responses_x16y8 :
    let mc : Manycore := ⟨({} : Machine).config, true⟩
    let npa : ℕ → Npa := fun i => ⟨16, 8, 4 * UInt32.ofNat i⟩
    ∃ s, Receiving s ∧ Unexpected s ⟨7, 0⟩ ∧ Rejected mc 2 s ⟨7, 0⟩ ∧
      ¬ Tried mc npa 2 (fun _ => 9) answeredOnce 7 ∧
      (s.ids.map UInt32.toNat ++ s.pending.map fun l => l.loadId.toNat).Nodup ∧
      Unexpected s ⟨0, 7⟩ ∧ 0 ∈ s.ids := by
  intro mc npa
  have hrun : (Transition.run
      (Transition.checked (fun s e => decide (Recognised mc s e)) (next mc npa 2))
      (initial mc fun _ => 9) answeredOnce).any
      (fun s => Receiving s ∧ (Unexpected s ⟨7, 0⟩ ∧ Unrecorded mc s ⟨7, 0⟩) ∧
        Unexpected s ⟨0, 7⟩ ∧ ¬ Unrecorded mc s ⟨0, 7⟩) = true := by decide
  obtain ⟨s, hs, h⟩ := (Option.any_eq_true _ _).mp hrun
  obtain ⟨hr, ⟨hu, hunrec⟩, hu', hrec⟩ := of_decide_eq_true h
  have hacc : Accepted mc.config := Machine.config_accepted _ (by decide)
  have hreach : Transition.Reachable ((Transition.System.ofNext
      (fun s => s = initial mc fun _ => 9) (next mc npa 2)).restrict (Recognised mc)) s :=
    .run_checked (.initial rfl) (fun _ _ _ hc => of_decide_eq_true hc) hs
  obtain ⟨hrejected, htried, -, hfree⟩ := @unexpected_responses mc npa 2 (fun _ => 9)
  have hrej := (hrejected s hreach.of_restrict hr ⟨7, 0⟩ hu).mpr hunrec
  obtain ⟨hnodup, hstack⟩ := hfree hacc s hreach
  refine ⟨s, hr, hu, hrej, ?_, hnodup, hu', hstack ⟨0, 7⟩ hu' hrec⟩
  exact ((htried _ s (Transition.run_of_checked hs) hr ⟨7, 0⟩ hu).mp hrej).resolve_left (by decide)

/-- The answer that comes twice is taken for the other word's: the call succeeds without that
word, and the id is twice on the stack. -/
theorem answered_twice :
    ∃ s, Transition.Reachable (system ⟨({} : Machine).config, true⟩
        (fun i => ⟨16, 8, 4 * UInt32.ofNat i⟩) 2 fun _ => 9) s ∧
      Receiving s ∧ Unexpected s ⟨0, 7⟩ ∧ ¬ Rejected ⟨({} : Machine).config, true⟩ 2 s ⟨0, 7⟩ ∧
      (Transition.run (next ⟨({} : Machine).config, true⟩
        (fun i => ⟨16, 8, 4 * UInt32.ofNat i⟩) 2) s [.recv (.ok ⟨0, 7⟩), .turn, .turn]).any
        (fun t => t.pc = .done (.ok ()) ∧ t.data 0 = 7 ∧ t.data 1 = 9 ∧ t.ids.count 0 = 2) =
        true := by
  have hrun : (Transition.run (next ⟨({} : Machine).config, true⟩
      (fun i => ⟨16, 8, 4 * UInt32.ofNat i⟩) 2)
      (initial ⟨({} : Machine).config, true⟩ fun _ => 9) answeredOnce).any
      (fun s => Receiving s ∧ Unexpected s ⟨0, 7⟩ ∧
        ¬ Unrecorded ⟨({} : Machine).config, true⟩ s ⟨0, 7⟩ ∧
        (Transition.run (next ⟨({} : Machine).config, true⟩
          (fun i => ⟨16, 8, 4 * UInt32.ofNat i⟩) 2) s [.recv (.ok ⟨0, 7⟩), .turn, .turn]).any
          (fun t => t.pc = .done (.ok ()) ∧ t.data 0 = 7 ∧ t.data 1 = 9 ∧ t.ids.count 0 = 2) =
          true) = true := by decide
  obtain ⟨s, hs, h⟩ := (Option.any_eq_true _ _).mp hrun
  obtain ⟨hr, hu, hrec, hend⟩ := of_decide_eq_true h
  have hreach : Transition.Reachable (system ⟨({} : Machine).config, true⟩
      (fun i => ⟨16, 8, 4 * UInt32.ofNat i⟩) 2 fun _ => 9) s :=
    @Transition.Reachable.events State Event
      (fun s => s = initial ⟨({} : Machine).config, true⟩ fun _ => 9) _ _ s _ (.initial rfl) hs
  refine ⟨s, hreach, hr, hu, fun hrej => hrec ?_, hend⟩
  exact (rejected_iff (reachable_indices hreach) hr.pc).mp hrej

end ReadRejects
