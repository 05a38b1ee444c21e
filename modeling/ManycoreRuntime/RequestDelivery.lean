import ManycoreRuntime.PacketWords

/-! # Delivery of requests

The requests that the host sends reach the network: whatever the order of the host's steps, of the
stores that arrive and of the cycles, the network takes them whole, in their order and each once. -/
namespace RequestDelivery

open Framing (stream)
open PacketEquals (ofRequest)
open PacketWords (requestCode requestPacket requestPacket_packetWords requestWords_eq)
open Packets (RequestPacket)
open ReadCredits (Event HostEvent Link Layout State requestWords)
open TransmitCredits (FifoTx Pc sipoEls tdrWords dataAddr isWriteToTdr)

def wordsOf (r : RequestPacket × UInt16) : List UInt32 := requestWords r.1 r.2

def sentBy : Event → List (RequestPacket × UInt16)
  | .host (.transmit .req rqst reserved timeout) => if timeout ≠ -1 then [] else [(rqst, reserved)]
  | _ => []

def sent (es : List Event) : List (RequestPacket × UInt16) := es.flatMap sentBy

def polled : Pc → List UInt32
  | .poll .req packet => packet.words
  | _ => []

def requests : List UInt32 → List (PacketEquals.Packet × UInt16)
  | w0 :: w1 :: w2 :: w3 :: rest => requestPacket [w0, w1, w2, w3] :: requests rest
  | _ => []

theorem requests_stream (l : List (RequestPacket × UInt16)) :
    requests (stream wordsOf l) = l.map fun r => (ofRequest r.1, r.2) := by
  induction l with
  | nil => rfl
  | cons r l ih =>
    have hhead : requests (stream wordsOf (r :: l)) =
        requestPacket (wordsOf r) :: requests (stream wordsOf l) := rfl
    rw [hhead, ih, List.map_cons, wordsOf, requestWords_eq, requestPacket_packetWords]

section Run

variable {link : Link} {credits : ℕ} {s t : State} {es : List Event}

theorem sent_concat (es : List Event) (e : Event) : sent (es ++ [e]) = sent es ++ sentBy e := by
  rw [sent, List.flatMap_append, List.flatMap_singleton]
  rfl

/-- What the host's steps put into the path or wait to put there are the requests of its calls. -/
theorem sent_next (h : s.path.requested ++ polled s.path.pc = stream wordsOf (sent es)) {e : Event}
    (hn : ReadCredits.next link credits s e = some t) :
    t.path.requested ++ polled t.path.pc = stream wordsOf (sent (es ++ [e])) := by
  rw [sent_concat, Framing.stream_append, ← h]
  cases e with
  | clock i =>
    cases hn
    exact (List.append_nil _).symm
  | host e =>
    obtain ⟨path, hpath, rfl⟩ := Option.map_eq_some_iff.mp hn
    cases e with
    | init =>
      cases TransmitCredits.step_of_next hpath with
      | init => exact (List.append_nil _).symm
    | cleanup =>
      cases TransmitCredits.step_of_next hpath with
      | cleanup => exact (List.append_nil _).symm
    | read =>
      cases TransmitCredits.step_of_next hpath with
      | read => exact (List.append_nil _).symm
    | transmit type rqst reserved timeout =>
      cases TransmitCredits.step_of_next hpath with
      | refuse hpc hwaits =>
        cases type with
        | req =>
          rw [sentBy, if_pos hwaits]
          exact (List.append_nil _).symm
        | rsp => exact (List.append_nil _).symm
      | transmit hpc =>
        rw [hpc]
        cases type with
        | req =>
          show s.path.requested ++ requestWords rqst reserved =
            s.path.requested ++ [] ++ stream wordsOf [(rqst, reserved)]
          rw [List.append_nil, Framing.stream_cons, Framing.stream_nil, List.append_nil]
          rfl
        | rsp => exact (List.append_nil _).symm
    | take =>
      cases TransmitCredits.step_of_next hpath with
      | @take type packet hpc hv =>
        rw [hpc]
        cases type with
        | req => exact (List.append_nil _).trans (List.append_nil _).symm
        | rsp => exact (List.append_nil _).trans (List.append_nil _).symm
    | store =>
      cases TransmitCredits.step_of_next hpath with
      | back hpc =>
        rw [hpc]
        exact (List.append_nil _).symm
      | store hpc =>
        rw [hpc]
        exact (List.append_nil _).symm

theorem path_next (h : TransmitCredits.Invariant credits s.path) {e : Event}
    (hn : ReadCredits.next link credits s e = some t) :
    TransmitCredits.Invariant credits t.path := by
  cases e with
  | clock i =>
    cases hn
    exact TransmitCredits.clock_invariant h _ _
  | host e =>
    obtain ⟨path, hpath, rfl⟩ := Option.map_eq_some_iff.mp hn
    exact TransmitCredits.next_invariant h hpath

structure History (credits : ℕ) (es : List Event) (s : State) : Prop where
  sent : s.path.requested ++ polled s.path.pc = stream wordsOf (sent es)
  path : TransmitCredits.Invariant credits s.path

theorem run_history
    (h : Transition.run (ReadCredits.next link credits) (ReadCredits.initial credits) es = some s) :
    History credits es s := by
  refine Transition.run_history ?_ ?_ h
  · exact ⟨rfl, TransmitCredits.initial_invariant⟩
  · intro es s e t hs hn
    exact ⟨sent_next hs.sent hn, path_next hs.path hn⟩

/-- What becomes of the requests that the host sends in a run. -/
structure Delivered (es : List Event) (s : State) : Prop where
  /-- The network took the first of them, whole and in order. -/
  taken : requests s.path.dequeued <+: (sent es).map fun r => (ofRequest r.1, r.2)
  whole : s.path.dequeued.length = sipoEls * (requests s.path.dequeued).length
  /-- The others are on their way, behind one another. -/
  underway : requests (s.path.dequeued ++ s.path.sipofReq ++ s.path.fifoReq ++
      tdrWords s.path.posted ++ s.path.pc.left ++ polled s.path.pc) =
    (sent es).map fun r => (ofRequest r.1, r.2)

theorem requests_delivered
    (h : Transition.run (ReadCredits.next link credits) (ReadCredits.initial credits) es = some s) :
    Delivered es s := by
  obtain ⟨hsent, hpath⟩ := run_history h
  have horder := hpath.order
  have hall : s.path.dequeued ++ (s.path.sipofReq ++ s.path.fifoReq ++ tdrWords s.path.posted ++
      s.path.pc.left ++ polled s.path.pc) = stream wordsOf (sent es) := by
    rw [← hsent, ← horder]
    simp only [List.append_assoc]
  have htaken := requestCode.whole_of_prefix (l := sent es) ⟨_, hall⟩ hpath.dequeued
  have hrequests : requests s.path.dequeued =
      ((sent es).take (s.path.dequeued.length / 4)).map fun r => (ofRequest r.1, r.2) := by
    rw [← requests_stream]
    exact congrArg requests htaken
  refine ⟨?_, ?_, ?_⟩
  · rw [hrequests]
    exact (List.take_prefix _ _).map _
  · have hlen := congrArg List.length htaken
    rw [requestCode.length_stream] at hlen
    rw [hrequests, List.length_map]
    exact hlen
  · rw [← requests_stream, ← hall]
    simp only [List.append_assoc]

end Run

def storeThenLoad : List Event :=
  let send (op : Packets.PacketOp) (payload : UInt32) : List Event :=
    [.host (.transmit .req { op, payload, addr := 0x8001 } 0 (-1)), .host .take] ++
      List.replicate 5 (.host .store)
  [.host .init] ++ send .remoteStore 9 ++ send .remoteLoad 0 ++
    List.replicate 6 (.clock ⟨true, true, none, false, false⟩)

theorem requests_delivered_storeThenLoad : ∃ s,
    (requests s.path.dequeued).map (fun r => (r.1.payload, r.1.addr)) = [(9, 0x8001)] ∧
    (sent storeThenLoad).length = 2 ∧ Delivered storeThenLoad s := by
  have hrun : (Transition.run (ReadCredits.next ReadCredits.byteLink 4) (ReadCredits.initial 4)
      storeThenLoad).any (fun s =>
      (requests s.path.dequeued).map (fun r => (r.1.payload, r.1.addr)) = [(9, 0x8001)]) =
      true := by
    decide +kernel
  obtain ⟨s, hs, hp⟩ := (Option.any_eq_true _ _).mp hrun
  exact ⟨s, of_decide_eq_true hp, rfl, requests_delivered hs⟩

end RequestDelivery
