import ManycoreRuntime.Machines
import ManycoreRuntime.Packets
import ManycoreRuntime.Sharing
import ManycoreRuntime.Transition
import Mathlib.Logic.Function.Basic

/-! # Reading many words at once

Loads are pipelined. A stack holds the load ids that are free, and a map that is never
cleared says which word each id was last used for. The requests that the hardware has
accepted and not yet answered are part of the state. -/
namespace ReadMem

open Coordinate (Coord Errno)
open Configuration (Config Manycore Accepted)
open EvaToNpa (Npa)
open Packets
open Sharing
open Machines (Machine)

/-- An accepted request: the id in its packet and the address that it reads. -/
structure Load where
  loadId : UInt8
  npa : Npa
  deriving DecidableEq, Repr

/-- Where the loop stands: at its head, sending requests, receiving responses, or returned. -/
inductive Pc where
  | outer
  | rqst
  | rsp
  | done (result : Except Errno Unit)
  deriving DecidableEq

structure State where
  pc : Pc
  rspI : ℕ
  rqstI : ℕ
  ids : List UInt32
  idToRspI : UInt32 → Option UInt32
  data : ℕ → UInt32
  pending : List Load
  /-- The indices that were written, the last one first. -/
  writes : List ℕ

inductive Event where
  | turn
  | send (tx : Except Errno Unit)
  | recv (rsp : Except Errno ResponsePacket)

section Call

variable (mc : Manycore) (npa : ℕ → Npa) (cnt : ℕ)

def nIds : ℕ := mc.config.ioRemoteLoadCap.toNat

/-- The ids are pushed from the largest down, so that `0` is on top. -/
def initial (data : ℕ → UInt32) : State where
  pc := .outer
  rspI := 0
  rqstI := 0
  ids := (List.range (nIds mc)).map UInt32.ofNat
  idToRspI := fun _ => none
  data := data
  pending := []
  writes := []

/-- The map records the request before it is sent, and keeps the record if the network is
busy. -/
def send (s : State) (loadId : UInt32) (rest : List UInt32) (tx : Except Errno Unit) : State :=
  let rqstAddr := npa s.rqstI
  let s := { s with
    idToRspI := Function.update s.idToRspI loadId (some (UInt32.ofNat s.rqstI)) }
  match sendReadRqst mc rqstAddr 4 loadId tx with
  | .ok rqst => { s with
      rqstI := s.rqstI + 1
      ids := rest
      pending := ⟨rqst.regId, rqstAddr⟩ :: s.pending }
  | .error .busy => { s with pc := .rsp }
  | .error e => { s with pc := .done (.error e) }

def recv (s : State) (rsp : ResponsePacket) : State :=
  let s := { s with pending := s.pending.eraseP fun l => l.loadId = rsp.loadId }
  let loadId := rsp.loadId.toUInt32
  if loadId.toNat ≥ nIds mc then { s with pc := .done (.error .fail) }
  else match s.idToRspI loadId with
    | none => { s with pc := .done (.error .fail) }
    | some idx =>
      if idx.toNat > cnt then { s with pc := .done (.error .fail) }
      else { s with
        data := Function.update s.data idx.toNat rsp.data
        writes := idx.toNat :: s.writes
        rspI := s.rspI + 1
        ids := loadId :: s.ids }

def next (s : State) : Event → Option State
  | .turn =>
    match s.pc with
    | .outer => some { s with pc := if s.rspI < cnt then .rqst else .done (.ok ()) }
    | .rqst => if s.rqstI < cnt ∧ s.ids ≠ [] then none else some { s with pc := .rsp }
    | .rsp => if s.rspI < s.rqstI then none else some { s with pc := .outer }
    | .done _ => none
  | .send tx =>
    match s.pc, s.ids with
    | .rqst, loadId :: rest =>
      if s.rqstI < cnt then some (send mc npa s loadId rest tx) else none
    | _, _ => none
  | .recv rsp =>
    match s.pc with
    | .rsp =>
      if s.rspI < s.rqstI then
        match rsp with
        | .error e => some { s with pc := .done (.error e) }
        | .ok rsp => some (recv mc cnt s rsp)
      else none
    | _ => none

def system (data : ℕ → UInt32) : Transition.System State Event where
  initial s := s = initial mc data
  step s e t := next mc npa cnt s e = some t

inductive Turns (s : State) : Pc → Prop where
  | request (pc : s.pc = .outer) (more : s.rspI < cnt) : Turns s .rqst
  | finish (pc : s.pc = .outer) (all : cnt ≤ s.rspI) : Turns s (.done (.ok ()))
  | receive (pc : s.pc = .rqst) (through : ¬ (s.rqstI < cnt ∧ s.ids ≠ [])) : Turns s .rsp
  | again (pc : s.pc = .rsp) (through : s.rqstI ≤ s.rspI) : Turns s .outer

inductive Step (s : State) : Event → State → Prop where
  | turn (pc : Pc) (turns : Turns cnt s pc) : Step s .turn { s with pc := pc }
  | send (loadId : UInt32) (rest : List UInt32) (tx : Except Errno Unit) (pc : s.pc = .rqst)
      (ids : s.ids = loadId :: rest) (rqstI : s.rqstI < cnt) :
      Step s (.send tx) (send mc npa s loadId rest tx)
  | recvError (e : Errno) (pc : s.pc = .rsp) (waits : s.rspI < s.rqstI) :
      Step s (.recv (.error e)) { s with pc := .done (.error e) }
  | recv {rsp : ResponsePacket} (pc : s.pc = .rsp) (waits : s.rspI < s.rqstI) :
      Step s (.recv (.ok rsp)) (recv mc cnt s rsp)

end Call

theorem step_of_next {mc : Manycore} {npa : ℕ → Npa} {cnt : ℕ} {s t : State} {e : Event}
    (h : next mc npa cnt s e = some t) : Step mc npa cnt s e t := by
  cases e with
  | turn =>
    simp only [next] at h
    split at h
    · next hpc =>
      cases h
      by_cases hlt : s.rspI < cnt
      · rw [if_pos hlt]
        exact .turn _ (.request hpc hlt)
      · rw [if_neg hlt]
        exact .turn _ (.finish hpc (Nat.le_of_not_lt hlt))
    · next hpc =>
      split at h <;> cases h
      next hthrough => exact .turn _ (.receive hpc hthrough)
    · next hpc =>
      split at h <;> cases h
      next hthrough => exact .turn _ (.again hpc (Nat.le_of_not_lt hthrough))
    · cases h
  | send tx =>
    simp only [next] at h
    split at h
    · next loadId rest hpc hids =>
      split at h <;> cases h
      next hlt => exact .send loadId rest tx hpc hids hlt
    · cases h
  | recv rsp =>
    simp only [next] at h
    split at h
    · next hpc =>
      split at h
      · next hlt =>
        cases rsp with
        | error err =>
          cases h
          exact .recvError err hpc hlt
        | ok rsp =>
          cases h
          exact .recv hpc hlt
      · cases h
    · cases h

/-- Each response answers a request that was accepted: it carries the request's load id and
the value at the request's address. -/
def Honest (mem : Npa → UInt32) (s : State) : Event → Prop
  | .recv (.ok rsp) => ∃ l ∈ s.pending, rsp.loadId = l.loadId ∧ rsp.data = mem l.npa
  | _ => True

instance (mem : Npa → UInt32) (s : State) (e : Event) : Decidable (Honest mem s e) :=
  match e with
  | .recv (.ok rsp) => inferInstanceAs
      (Decidable (∃ l ∈ s.pending, rsp.loadId = l.loadId ∧ rsp.data = mem l.npa))
  | .recv (.error _) | .turn | .send _ => inferInstanceAs (Decidable True)

def slotOf (idToRspI : UInt32 → Option UInt32) (l : Load) : ℕ :=
  match idToRspI l.loadId.toUInt32 with
  | none => 0
  | some i => i.toNat

/-- Free and taken ids share out all ids; written and requested indices share out all indices
that were requested. -/
structure Invariant (mc : Manycore) (npa : ℕ → Npa) (cnt : ℕ) (mem : Npa → UInt32)
    (data : ℕ → UInt32) (s : State) : Prop where
  ids : Shares (nIds mc) (s.ids.map UInt32.toNat) (s.pending.map fun l => l.loadId.toNat)
  slots : Shares s.rqstI s.writes (s.pending.map (slotOf s.idToRspI))
  recorded : ∀ l ∈ s.pending, ∃ i, s.idToRspI l.loadId.toUInt32 = some i ∧ l.npa = npa i.toNat
  rspI : s.rspI = s.writes.length
  rqstI : s.rqstI ≤ cnt
  read : ∀ i ∈ s.writes, s.data i = mem (npa i)
  frame : ∀ i, i ∉ s.writes → s.data i = data i
  done : s.pc = .done (.ok ()) → cnt ≤ s.rspI

section Proof

variable {mc : Manycore} {npa : ℕ → Npa} {cnt : ℕ} {mem : Npa → UInt32} {data : ℕ → UInt32}
  {s : State}

theorem initial_invariant : Invariant mc npa cnt mem data (initial mc data) := by
  have hids : ((List.range (nIds mc)).map UInt32.ofNat).map UInt32.toNat =
      List.range (nIds mc) := by
    rw [List.map_map]
    refine (List.map_congr_left fun i hi => ?_).trans (List.map_id _)
    have hlt : i < nIds mc := List.mem_range.mp hi
    have hn : nIds mc < 2 ^ 32 := mc.config.ioRemoteLoadCap.toNat_lt
    exact UInt32.toNat_ofNat_of_lt' (by simp only [UInt32.size]; omega)
  constructor
  · simp only [initial, hids]
    exact Shares.all _
  · exact Shares.none
  · intro l hl
    cases hl
  · rfl
  · exact Nat.zero_le _
  · intro i hi
    cases hi
  · intro i _
    rfl
  · intro h
    cases h

theorem Invariant.id_ne (h : Invariant mc npa cnt mem data s) {loadId : UInt32}
    (hid : loadId ∈ s.ids) {l : Load} (hl : l ∈ s.pending) : l.loadId.toUInt32 ≠ loadId := by
  intro he
  refine h.ids.not_mem_right (List.mem_map_of_mem hid) (List.mem_map.mpr ⟨l, hl, ?_⟩)
  rw [← he, UInt8.toNat_toUInt32]

/-- A request that is not sent leaves its record behind, under a free id. -/
theorem Invariant.record (h : Invariant mc npa cnt mem data s) {loadId : UInt32}
    (hid : loadId ∈ s.ids) (i : UInt32) :
    Invariant mc npa cnt mem data
      { s with idToRspI := Function.update s.idToRspI loadId (some i) } := by
  have hmap : ∀ l ∈ s.pending, Function.update s.idToRspI loadId (some i) l.loadId.toUInt32 =
      s.idToRspI l.loadId.toUInt32 :=
    fun l hl => Function.update_of_ne (h.id_ne hid hl) _ _
  refine ⟨h.ids, ?_, ?_, h.rspI, h.rqstI, h.read, h.frame, h.done⟩
  · have hslots : s.pending.map (slotOf (Function.update s.idToRspI loadId (some i))) =
        s.pending.map (slotOf s.idToRspI) := by
      apply List.map_congr_left
      intro l hl
      simp only [slotOf, hmap l hl]
    simp only [hslots]
    exact h.slots
  · intro l hl
    simp only [hmap l hl]
    exact h.recorded l hl

theorem Invariant.stop (h : Invariant mc npa cnt mem data s) {pc : Pc} (hpc : pc ≠ .done (.ok ())) :
    Invariant mc npa cnt mem data { s with pc := pc } :=
  ⟨h.ids, h.slots, h.recorded, h.rspI, h.rqstI, h.read, h.frame, fun he => absurd he hpc⟩

theorem send_invariant (hcap : nIds mc ≤ 256) (hcnt : cnt ≤ 2 ^ 32)
    (h : Invariant mc npa cnt mem data s) {loadId : UInt32} {rest : List UInt32}
    (hids : s.ids = loadId :: rest) (hlt : s.rqstI < cnt) (hpc : s.pc = .rqst)
    (tx : Except Errno Unit) : Invariant mc npa cnt mem data (send mc npa s loadId rest tx) := by
  have hid : loadId ∈ s.ids := by
    rw [hids]
    exact List.mem_cons_self
  have hrec := h.record hid (UInt32.ofNat s.rqstI)
  cases hs : sendReadRqst mc (npa s.rqstI) 4 loadId tx with
  | error e =>
    have hstop : ∀ pc, pc ≠ .done (.ok ()) → Invariant mc npa cnt mem data
        { s with
          idToRspI := Function.update s.idToRspI loadId (some (UInt32.ofNat s.rqstI)), pc := pc } :=
      fun pc hpc => hrec.stop hpc
    cases e <;> simp only [send, hs] <;> exact hstop _ (by simp)
  | ok rqst =>
    have hlid : loadId.toNat < nIds mc := h.ids.lt_of_mem_left (List.mem_map_of_mem hid)
    have hreg : rqst.regId.toUInt32 = loadId := by
      rw [sendReadRqst_regId hs, ← UInt32.toNat_inj, UInt8.toNat_toUInt32, UInt32.toNat_toUInt8]
      omega
    have hval : (UInt32.ofNat s.rqstI).toNat = s.rqstI :=
      UInt32.toNat_ofNat_of_lt' (by simp only [UInt32.size]; omega)
    have hslot : slotOf (Function.update s.idToRspI loadId (some (UInt32.ofNat s.rqstI)))
        ⟨rqst.regId, npa s.rqstI⟩ = s.rqstI := by
      simp only [slotOf, hreg, Function.update_self, hval]
    simp only [send, hs]
    constructor
    · have hi := hrec.ids
      rw [hids] at hi
      have hrid : rqst.regId.toNat = loadId.toNat := by
        rw [← hreg, UInt8.toNat_toUInt32]
      simp only [List.map_cons, hrid]
      exact hi.take
    · simp only [List.map_cons, hslot]
      exact hrec.slots.grow
    · intro l hl
      rcases List.mem_cons.mp hl with rfl | hl
      · refine ⟨UInt32.ofNat s.rqstI, ?_, ?_⟩
        · simp only [hreg, Function.update_self]
        · simp only [hval]
      · exact hrec.recorded l hl
    · exact h.rspI
    · exact hlt
    · exact h.read
    · exact h.frame
    · intro he
      rw [hpc] at he
      cases he

structure Answered (mc : Manycore) (npa : ℕ → Npa) (cnt : ℕ) (mem : Npa → UInt32) (s : State)
    (rsp : ResponsePacket) (before : List Load) (l : Load) (after : List Load) (i : UInt32) :
    Prop where
  pending : s.pending = before ++ l :: after
  loadId : l.loadId = rsp.loadId
  slot : slotOf s.idToRspI l = i.toNat
  fresh : i.toNat ∉ s.writes
  value : rsp.data = mem (npa i.toNat)
  recv : recv mc cnt s rsp = { s with
    pending := before ++ after
    data := Function.update s.data i.toNat rsp.data
    writes := i.toNat :: s.writes
    rspI := s.rspI + 1
    ids := rsp.loadId.toUInt32 :: s.ids }

theorem Invariant.answered (h : Invariant mc npa cnt mem data s) {rsp : ResponsePacket}
    (hon : Honest mem s (.recv (.ok rsp))) :
    ∃ before l after i, Answered mc npa cnt mem s rsp before l after i := by
  obtain ⟨l₀, hl₀, hid₀, hdata₀⟩ := hon
  obtain ⟨l, before, after, -, hp, hsplit, herase⟩ :=
    List.exists_of_eraseP hl₀ (p := fun l => l.loadId = rsp.loadId)
      (decide_eq_true hid₀.symm)
  have hid : l.loadId = rsp.loadId := of_decide_eq_true hp
  have hl : l ∈ s.pending := by
    rw [hsplit]
    exact List.mem_append_right _ List.mem_cons_self
  have hsame : l = l₀ := by
    have hnd := (List.nodup_append.mp h.ids.nodup).2.1
    exact List.inj_on_of_nodup_map hnd hl hl₀ (by rw [hid, hid₀])
  obtain ⟨i, hi, hnpa⟩ := h.recorded l hl
  have hslot : slotOf s.idToRspI l = i.toNat := by
    simp only [slotOf, hi]
  have hlid : rsp.loadId.toNat < nIds mc := by
    rw [← hid]
    exact h.ids.lt_of_mem_right (List.mem_map_of_mem hl)
  have hidx : i.toNat < s.rqstI := by
    rw [← hslot]
    exact h.slots.lt_of_mem_right (List.mem_map_of_mem hl)
  have hle := h.rqstI
  have hfresh : i.toNat ∉ s.writes := by
    intro hw
    refine h.slots.not_mem_right hw ?_
    rw [← hslot]
    exact List.mem_map_of_mem hl
  have hin : ¬ rsp.loadId.toUInt32.toNat ≥ nIds mc := by
    rw [UInt8.toNat_toUInt32]
    omega
  refine ⟨before, l, after, i, hsplit, hid, hslot, hfresh, ?_, ?_⟩
  · rw [hdata₀, ← hnpa, hsame]
  · rw [hid] at hi
    simp only [recv, herase, hin, if_false, hi]
    rw [if_neg (by omega)]

theorem recv_invariant (h : Invariant mc npa cnt mem data s) {rsp : ResponsePacket}
    (hon : Honest mem s (.recv (.ok rsp))) (hpc : s.pc = .rsp) :
    Invariant mc npa cnt mem data (recv mc cnt s rsp) := by
  obtain ⟨before, l, after, i, hans⟩ := h.answered hon
  rw [hans.recv]
  constructor
  · have hs := h.ids
    rw [hans.pending, List.map_append, List.map_cons] at hs
    simp only [List.map_cons, List.map_append, UInt8.toNat_toUInt32, ← hans.loadId]
    exact hs.give
  · have hs := h.slots
    rw [hans.pending, List.map_append, List.map_cons, hans.slot] at hs
    simp only [List.map_append]
    exact hs.give
  · intro m hm
    refine h.recorded m ?_
    rw [hans.pending]
    rcases List.mem_append.mp hm with hm | hm
    · exact List.mem_append_left _ hm
    · exact List.mem_append_right _ (List.mem_cons_of_mem _ hm)
  · simp only [List.length_cons, h.rspI]
  · exact h.rqstI
  · intro j hj
    rcases List.mem_cons.mp hj with rfl | hj
    · simp only [Function.update_self]
      exact hans.value
    · have hne : j ≠ i.toNat := fun he => hans.fresh (he ▸ hj)
      simp only [Function.update_of_ne hne]
      exact h.read j hj
  · intro j hj
    have hne : j ≠ i.toNat := fun he => hj (he ▸ List.mem_cons_self)
    simp only [Function.update_of_ne hne]
    exact h.frame j fun hw => hj (List.mem_cons_of_mem _ hw)
  · intro he
    rw [hpc] at he
    cases he

theorem turn_invariant (h : Invariant mc npa cnt mem data s) {pc : Pc} (ht : Turns cnt s pc) :
    Invariant mc npa cnt mem data { s with pc := pc } := by
  cases ht with
  | request => exact h.stop Pc.noConfusion
  | finish _ hall =>
    exact ⟨h.ids, h.slots, h.recorded, h.rspI, h.rqstI, h.read, h.frame, fun _ => hall⟩
  | receive => exact h.stop Pc.noConfusion
  | again => exact h.stop Pc.noConfusion

theorem next_invariant (hcap : nIds mc ≤ 256) (hcnt : cnt ≤ 2 ^ 32)
    (h : Invariant mc npa cnt mem data s) {e : Event} (hon : Honest mem s e) {t : State}
    (hn : next mc npa cnt s e = some t) : Invariant mc npa cnt mem data t := by
  cases step_of_next hn with
  | turn pc hturns => exact turn_invariant h hturns
  | send loadId rest tx hpc hids hlt => exact send_invariant hcap hcnt h hids hlt hpc tx
  | recvError e => exact h.stop (by simp)
  | recv hpc => exact recv_invariant h hon hpc

theorem reachable_invariant (hcap : nIds mc ≤ 256) (hcnt : cnt ≤ 2 ^ 32)
    (h : Transition.Reachable ((system mc npa cnt data).restrict (Honest mem)) s) :
    Invariant mc npa cnt mem data s := by
  refine h.invariant ?_ ?_
  · rintro _ rfl
    exact initial_invariant
  · rintro s e t hs ⟨hon, hn⟩
    exact next_invariant hcap hcnt hs hon hn

end Proof

/-- What holds in every state of the call: the ids are shared out between the stack and the
requests under way, only indices below the count are written, and success means that each was
written once, with the value at its address. -/
structure Sound (mc : Manycore) (npa : ℕ → Npa) (cnt : ℕ) (mem : Npa → UInt32) (s : State) :
    Prop where
  nodup : (s.ids.map UInt32.toNat ++ s.pending.map fun l => l.loadId.toNat).Nodup
  ids : ∀ i, i ∈ s.ids.map UInt32.toNat ∨ i ∈ (s.pending.map fun l => l.loadId.toNat) ↔
    i < nIds mc
  inBounds : ∀ i ∈ s.writes, i < cnt
  success : s.pc = .done (.ok ()) → ∀ i < cnt, s.data i = mem (npa i) ∧ s.writes.count i = 1

section Done

variable {mc : Manycore} {npa : ℕ → Npa} {cnt : ℕ} {mem : Npa → UInt32} {data : ℕ → UInt32}
  {s : State}

theorem Invariant.writes_length (h : Invariant mc npa cnt mem data s)
    (hdone : s.pc = .done (.ok ())) : s.rqstI = cnt ∧ s.writes.length = cnt := by
  have hlen := h.done hdone
  have hle := h.rqstI
  have hl := h.slots.length
  rw [h.rspI] at hlen
  omega

theorem Invariant.writes_perm (h : Invariant mc npa cnt mem data s)
    (hdone : s.pc = .done (.ok ())) : s.writes.Perm (List.range cnt) := by
  obtain ⟨hall, hlen⟩ := h.writes_length hdone
  have hs := h.slots
  rw [hall] at hs
  exact hs.perm_of_le hlen.ge

theorem Invariant.pending_nil (h : Invariant mc npa cnt mem data s)
    (hdone : s.pc = .done (.ok ())) : s.pending = [] := by
  obtain ⟨hall, hlen⟩ := h.writes_length hdone
  have hl := h.slots.length
  rw [List.length_map] at hl
  exact List.eq_nil_of_length_eq_zero (by omega)

end Done

/-- The map's entries have 32 bits, so no index from `2 ^ 32` on is ever written. -/
theorem data_above {mc : Manycore} {npa : ℕ → Npa} {cnt : ℕ} {data : ℕ → UInt32} {s : State}
    (h : Transition.Reachable (system mc npa cnt data) s) {i : ℕ} (hi : 2 ^ 32 ≤ i) :
    s.data i = data i := by
  refine @Transition.Reachable.invariant _ _ _ (fun s => s.data i = data i) ?_ ?_ _ h
  · rintro _ rfl
    rfl
  · rintro s e t hs hn
    rw [← hs]
    cases e with
    | turn =>
      simp only [system, next] at hn
      split at hn
      · cases hn
        rfl
      · split at hn <;> cases hn
        rfl
      · split at hn <;> cases hn
        rfl
      · cases hn
    | send tx =>
      simp only [system, next] at hn
      split at hn
      · split at hn <;> cases hn
        simp only [send]
        split <;> rfl
      · cases hn
    | recv rsp =>
      simp only [system, next] at hn
      split at hn
      · split at hn
        · cases rsp with
          | error err =>
            cases hn
            rfl
          | ok rsp =>
            cases hn
            simp only [recv]
            split
            · rfl
            · split
              · rfl
              · next idx _ =>
                split
                · rfl
                · have hne : i ≠ idx.toNat := by
                    have := idx.toNat_lt
                    omega
                  exact Function.update_of_ne hne _ _
        · cases hn
      · cases hn

theorem readMem_sound {mc : Manycore} {npa : ℕ → Npa} {cnt : ℕ} {mem : Npa → UInt32}
    {data : ℕ → UInt32} {s : State} (hcap : 1 ≤ nIds mc ∧ nIds mc ≤ 32) (hcnt : cnt < 2 ^ 32)
    (h : Transition.Reachable ((system mc npa cnt data).restrict (Honest mem)) s) :
    Sound mc npa cnt mem s := by
  have hinv := reachable_invariant (by omega) hcnt.le h
  refine ⟨hinv.ids.nodup, fun i => hinv.ids.mem_or_mem_iff, ?_, ?_⟩
  · intro i hi
    exact lt_of_lt_of_le (hinv.slots.lt_of_mem_left hi) hinv.rqstI
  · intro hdone i hi
    have hfull := hinv.writes_perm hdone
    have hmem : i ∈ s.writes := hfull.mem_iff.mpr (List.mem_range.mpr hi)
    refine ⟨hinv.read i hmem, ?_⟩
    rw [hfull.count_eq]
    exact List.count_eq_one_of_mem List.nodup_range (List.mem_range.mpr hi)

def run (mc : Manycore) (npa : ℕ → Npa) (cnt : ℕ) (mem : Npa → UInt32) :
    State → List Event → Option State :=
  Transition.run (Transition.checked (fun s e => decide (Honest mem s e)) (next mc npa cnt))

theorem run_reachable {mc : Manycore} {npa : ℕ → Npa} {cnt : ℕ} {mem : Npa → UInt32}
    {data : ℕ → UInt32} {events : List Event} {s t : State}
    (h : Transition.Reachable ((system mc npa cnt data).restrict (Honest mem)) s)
    (hr : run mc npa cnt mem s events = some t) :
    Transition.Reachable ((system mc npa cnt data).restrict (Honest mem)) t :=
  Transition.Reachable.run_checked h (fun _ _ _ hc => of_decide_eq_true hc) hr

/-- Two words: the network is busy after the first request, and the second request reuses the
id of the first. -/
theorem readMem_sound_x16y8 :
    ∃ s, s.pc = .done (.ok ()) ∧ s.data 0 = 0 ∧ s.data 1 = 4 ∧
      Sound ⟨({} : Machine).config, true⟩ (fun i => ⟨16, 8, 4 * UInt32.ofNat i⟩) 2
        (fun npa => npa.epa) s := by
  have hrun : (run ⟨({} : Machine).config, true⟩ (fun i => ⟨16, 8, 4 * UInt32.ofNat i⟩) 2
      (fun npa => npa.epa) (initial ⟨({} : Machine).config, true⟩ fun _ => 9)
      [.turn, .send (.ok ()), .send (.error .busy), .recv (.ok ⟨0, 0⟩), .turn, .turn,
        .send (.ok ()), .turn, .recv (.ok ⟨0, 4⟩), .turn, .turn]).any
      (fun s => s.pc = .done (.ok ()) ∧ s.data 0 = 0 ∧ s.data 1 = 4) = true := by decide
  obtain ⟨s, hs, hp⟩ := (Option.any_eq_true _ _).mp hrun
  obtain ⟨hpc, h0, h1⟩ := of_decide_eq_true hp
  exact ⟨s, hpc, h0, h1, readMem_sound (by decide) (by decide) (run_reachable (.initial rfl) hs)⟩

end ReadMem
