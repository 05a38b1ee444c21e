import ManycoreRuntime.PacketEquals
import ManycoreRuntime.TransmitCredits
import Mathlib.Data.Nat.Log

/-! # Read credits of the FPGA platform

The hardware takes a credit when a load leaves the request path, and holds a load back while no
credit is left. It gives the credit back when the response moves to the serialiser. The queue of
the responses has one place for each credit. -/
namespace ReadCredits

open Packets (PacketOp RequestPacket)
open PacketEquals (opCode)
open TransmitCredits (FifoTx Packet sipoEls)

def requestWords (rqst : RequestPacket) (reserved : UInt16) : List UInt32 :=
  [rqst.xDst.toUInt32 ||| rqst.yDst.toUInt32 <<< 8 ||| rqst.xSrc.toUInt32 <<< 16 |||
      rqst.ySrc.toUInt32 <<< 24,
    rqst.payload,
    rqst.regId.toUInt32 ||| (opCode rqst.op).toUInt32 <<< 8 ||| rqst.addr <<< 16,
    rqst.addr >>> 16 ||| reserved.toUInt32 <<< 16]

def requestPacket (rqst : RequestPacket) (reserved : UInt16) : Packet :=
  ⟨requestWords rqst reserved, rfl⟩

def opV2 (words : List UInt32) : UInt8 := (words.getD 2 0 >>> 8).toUInt8

theorem opV2_requestWords (rqst : RequestPacket) (reserved : UInt16) :
    opV2 (requestWords rqst reserved) = opCode rqst.op := by
  show ((rqst.regId.toUInt32 ||| (opCode rqst.op).toUInt32 <<< 8 ||| rqst.addr <<< 16) >>>
    8).toUInt8 = opCode rqst.op
  apply UInt8.toBitVec_inj.mp
  ext k hk
  have hid : ¬ 8 + k < 8 := by omega
  have haddr : 8 + k < 16 := by omega
  have hword : 8 + k < 32 := by omega
  simp [hid, haddr, hword, hk, BitVec.getLsbD_eq_getElem, BitVec.getLsbD_of_ge]

/-- What the network's library gives to the hardware: where a request has its opcode, and the
opcode of a load. -/
structure Link where
  op : List UInt32 → UInt8
  eRemoteLoad : UInt8

/-- The library and the runtime agree on the requests. -/
structure Layout (link : Link) : Prop where
  op : ∀ rqst reserved, link.op (requestWords rqst reserved) = opCode rqst.op
  eRemoteLoad : link.eRemoteLoad = opCode .remoteLoad

def bsgWidth (x : ℕ) : ℕ := if x = 0 then 1 else Nat.clog 2 (x + 1)

def counterUpDown (maxVal count down up : ℕ) : ℕ :=
  (count + 2 ^ bsgWidth maxVal - down + up) % 2 ^ bsgWidth maxVal

structure State where
  path : TransmitCredits.State
  readCredits : ℕ
  /-- The loads that the network took and did not answer. -/
  inFlight : List (List UInt32)
  fifoRsp : List Packet
  pisoRsp : List UInt32
  arrived : List Packet
  read : List UInt32

/-- What comes from outside in one cycle: whether the first store is presented, whether the
network takes a request, the number of the load that it answers, with the answer, whether the
serialiser takes a packet and whether the host takes a word. -/
structure Inputs where
  arrives : Bool
  hostReqReady : Bool
  response : Option (ℕ × Packet)
  pisoReady : Bool
  rReady : Bool

def initial (credits : ℕ) : State where
  path := TransmitCredits.initial credits
  readCredits := credits
  inFlight := []
  fifoRsp := []
  pisoRsp := []
  arrived := []
  read := []

section Hardware

variable (link : Link) (credits : ℕ) (s : State) (i : Inputs)

def hostReq : List UInt32 := s.path.sipofReq.take sipoEls

def sipofV : Bool := sipoEls ≤ s.path.sipofReq.length

def isHostReadReq : Bool := link.op (hostReq s) == link.eRemoteLoad

def pauseHostReq : Bool := isHostReadReq link s && s.readCredits == 0

def hostReqV : Bool := !pauseHostReq link s && sipofV s

def sipofYumi : Bool := (!pauseHostReq link s && i.hostReqReady) && hostReqV link s

def launchingRead : Bool := hostReqV link s && i.hostReqReady && isHostReadReq link s

def returnedRead : Bool := i.pisoReady && !s.fifoRsp.isEmpty

def mcRspReady : Bool := s.fifoRsp.length < credits

/-- The loads that may be answered in this cycle. The network sees the opcode of the request that
it takes. -/
def loads : List (List UInt32) :=
  s.inFlight ++ if sipofYumi link s i ∧ opV2 (hostReq s) = opCode .remoteLoad then [hostReq s]
    else []

/-- The load that the network answers, and the answer; there is none to a load not in flight. -/
def answered : Option (ℕ × Packet) :=
  i.response.filter fun r => r.1 < (loads link s i).length

/-- The answer that enters the queue; without room it waits. -/
def entering : Option (ℕ × Packet) :=
  if mcRspReady credits s then answered link s i else none

def cycle : State where
  path := TransmitCredits.clock credits s.path i.arrives (sipofYumi link s i)
  readCredits := counterUpDown credits s.readCredits (launchingRead link s i).toNat
    (returnedRead s i).toNat
  inFlight := ((entering link credits s i).map Prod.fst).elim (loads link s i)
    (loads link s i).eraseIdx
  fifoRsp := s.fifoRsp.drop (returnedRead s i).toNat ++
    ((entering link credits s i).map Prod.snd).toList
  pisoRsp := s.pisoRsp.drop i.rReady.toNat ++
    (s.fifoRsp.take (returnedRead s i).toNat).flatMap Packet.words
  arrived := s.arrived ++ ((entering link credits s i).map Prod.snd).toList
  read := s.read ++ s.pisoRsp.take i.rReady.toNat

end Hardware

inductive HostEvent where
  | init
  | cleanup
  | transmit (type : FifoTx) (rqst : RequestPacket) (reserved : UInt16) (timeout : ℤ)
  | read
  | take
  | store

def HostEvent.onPath : HostEvent → TransmitCredits.Event
  | .init => .init
  | .cleanup => .cleanup
  | .transmit type rqst reserved timeout => .transmit type (requestPacket rqst reserved) timeout
  | .read => .read
  | .take => .take
  | .store => .store

inductive Event where
  | host (e : HostEvent)
  | clock (i : Inputs)

def next (link : Link) (credits : ℕ) (s : State) : Event → Option State
  | .host e => (TransmitCredits.next credits s.path e.onPath).map fun path => { s with path }
  | .clock i => some (cycle link credits s i)

def system (link : Link) (credits : ℕ) : Transition.System State Event :=
  .ofNext (· = initial credits) (next link credits)

section Path

variable {credits : ℕ} {s t : TransmitCredits.State}

theorem path_next {e : TransmitCredits.Event} (h : TransmitCredits.next credits s e = some t) :
    (t.requested = s.requested ∨
      ∃ type packet, s.pc = .poll type packet ∧ t.requested = s.requested ++ packet.words) ∧
    (∀ type packet, t.pc = .poll type packet →
      s.pc = .poll type packet ∨ ∃ timeout, e = .transmit type packet timeout) := by
  cases TransmitCredits.step_of_next h with
  | init => exact ⟨Or.inl rfl, fun _ _ hpc => Or.inl hpc⟩
  | cleanup => exact ⟨Or.inl rfl, fun _ _ hpc => Or.inl hpc⟩
  | refuse => exact ⟨Or.inl rfl, fun _ _ hpc => Or.inl hpc⟩
  | transmit =>
    refine ⟨Or.inl rfl, ?_⟩
    intro type packet hpc
    cases hpc
    exact Or.inr ⟨_, rfl⟩
  | read => exact ⟨Or.inl rfl, fun _ _ hpc => Or.inl hpc⟩
  | @take type packet hpoll hv =>
    constructor
    · by_cases htdr : TransmitCredits.isWriteToTdr (TransmitCredits.dataAddr type) = true
      · exact Or.inr ⟨type, packet, hpoll, by simp only [htdr, if_true]⟩
      · exact Or.inl (by simp only [htdr, if_false, List.append_nil, Bool.false_eq_true])
    · intro type' packet' hpc
      cases hpc
  | back => exact ⟨Or.inl rfl, fun _ _ hpc => absurd hpc TransmitCredits.Pc.noConfusion⟩
  | store => exact ⟨Or.inl rfl, fun _ _ hpc => absurd hpc TransmitCredits.Pc.noConfusion⟩
  | clock => exact ⟨Or.inl rfl, fun _ _ hpc => Or.inl hpc⟩

def Requests (words : List UInt32) : Prop :=
  ∃ rqsts : List (RequestPacket × UInt16), words = rqsts.flatMap fun r => requestWords r.1 r.2

theorem Requests.next {done rest : List UInt32} (h : Requests (done ++ rest))
    (hdone : done.length % sipoEls = 0) (hrest : sipoEls ≤ rest.length) :
    ∃ rqst reserved, rest.take sipoEls = requestWords rqst reserved := by
  obtain ⟨rqsts, h⟩ := h
  induction rqsts generalizing done with
  | nil =>
    have hlen := congrArg List.length h
    rw [List.length_append, List.flatMap_nil, List.length_nil] at hlen
    rw [TransmitCredits.sipoEls_eq] at hrest
    omega
  | cons r rqsts ih =>
    rw [List.flatMap_cons] at h
    by_cases hempty : done = []
    · refine ⟨r.1, r.2, ?_⟩
      rw [hempty, List.nil_append] at h
      rw [h]
      rfl
    · have hpos := List.length_pos_of_ne_nil hempty
      have hlen : (requestWords r.1 r.2).length = 4 := rfl
      have hle : 4 ≤ done.length := by
        rw [TransmitCredits.sipoEls_eq] at hdone
        omega
      apply @ih (done.drop 4)
      · rw [List.length_drop]
        rw [TransmitCredits.sipoEls_eq] at hdone ⊢
        omega
      · have hdrop := congrArg (List.drop 4) h
        rw [List.drop_append_of_le_length hle, ← hlen, List.drop_left] at hdrop
        exact hdrop

end Path

structure Invariant (credits : ℕ) (s : State) : Prop where
  path : TransmitCredits.Invariant credits s.path
  polled : ∀ type packet, s.path.pc = .poll type packet →
    ∃ rqst reserved, packet = requestPacket rqst reserved
  requested : Requests s.path.requested
  conserved : s.readCredits + s.inFlight.length + s.fifoRsp.length = credits
  loads : ∀ words ∈ s.inFlight, ∃ rqst reserved,
    words = requestWords rqst reserved ∧ rqst.op = .remoteLoad
  order : s.read ++ s.pisoRsp ++ s.fifoRsp.flatMap Packet.words = s.arrived.flatMap Packet.words

theorem lt_two_pow_bsgWidth (x : ℕ) : x < 2 ^ bsgWidth x := by
  unfold bsgWidth
  split
  · next hx =>
    rw [hx]
    exact Nat.two_pow_pos 1
  · exact Nat.lt_of_succ_le (Nat.le_pow_clog Nat.one_lt_two (x + 1))

theorem counterUpDown_eq {maxVal count down up : ℕ} (hdown : down ≤ count)
    (hup : count - down + up ≤ maxVal) :
    counterUpDown maxVal count down up = count - down + up := by
  have hmax := lt_two_pow_bsgWidth maxVal
  have hsum : count + 2 ^ bsgWidth maxVal - down + up =
      count - down + up + 2 ^ bsgWidth maxVal := by omega
  rw [counterUpDown, hsum, Nat.add_mod_right, Nat.mod_eq_of_lt (by omega)]

section Proof

variable {link : Link} {credits : ℕ} {s t : State}

theorem initial_invariant : Invariant credits (initial credits) where
  path := TransmitCredits.initial_invariant
  polled := by
    intro type packet hpc
    cases hpc
  requested := ⟨[], rfl⟩
  conserved := rfl
  loads := by
    intro words hwords
    cases hwords
  order := rfl

theorem Invariant.hostReq (hs : Invariant credits s) (hv : sipofV s = true) :
    ∃ rqst reserved, hostReq s = requestWords rqst reserved := by
  have hlen : sipoEls ≤ s.path.sipofReq.length := of_decide_eq_true hv
  obtain ⟨rqsts, hrqsts⟩ := hs.requested
  have horder := hs.path.order
  rw [List.append_assoc, List.append_assoc, List.append_assoc, hrqsts] at horder
  obtain ⟨rqst, reserved, htake⟩ := Requests.next ⟨rqsts, horder⟩ hs.path.dequeued (by
    rw [List.length_append]
    omega)
  refine ⟨rqst, reserved, ?_⟩
  rw [List.take_append_of_le_length hlen] at htake
  exact htake

/-- The hardware takes for a load what the network takes for one. -/
theorem isHostReadReq_iff (hlink : Layout link) (hs : Invariant credits s)
    (hv : sipofV s = true) :
    isHostReadReq link s = true ↔ opV2 (hostReq s) = opCode .remoteLoad := by
  obtain ⟨rqst, reserved, hreq⟩ := hs.hostReq hv
  rw [isHostReadReq, beq_iff_eq, hreq, hlink.op, hlink.eRemoteLoad, opV2_requestWords]

theorem sipofYumi_iff {i : Inputs} : sipofYumi link s i = true ↔
    pauseHostReq link s = false ∧ i.hostReqReady = true ∧ sipofV s = true := by
  simp only [sipofYumi, hostReqV, Bool.and_eq_true, Bool.not_eq_true']
  constructor
  · rintro ⟨⟨hpause, hready⟩, -, hv⟩
    exact ⟨hpause, hready, hv⟩
  · rintro ⟨hpause, hready, hv⟩
    exact ⟨⟨hpause, hready⟩, hpause, hv⟩

theorem launchingRead_iff {i : Inputs} :
    launchingRead link s i = true ↔ sipofYumi link s i = true ∧ isHostReadReq link s = true := by
  rw [sipofYumi_iff]
  simp only [launchingRead, hostReqV, Bool.and_eq_true, Bool.not_eq_true']
  constructor
  · rintro ⟨⟨⟨hpause, hv⟩, hready⟩, hread⟩
    exact ⟨⟨hpause, hready, hv⟩, hread⟩
  · rintro ⟨⟨hpause, hready, hv⟩, hread⟩
    exact ⟨⟨⟨hpause, hv⟩, hready⟩, hread⟩

/-- The counter goes down exactly in the cycles in which the network takes a load. -/
theorem loads_eq (hlink : Layout link) (hs : Invariant credits s) (i : Inputs) :
    loads link s i =
      s.inFlight ++ if launchingRead link s i = true then [ReadCredits.hostReq s] else [] := by
  have hiff : (sipofYumi link s i = true ∧ opV2 (ReadCredits.hostReq s) = opCode .remoteLoad) ↔
      launchingRead link s i = true := by
    rw [launchingRead_iff]
    apply and_congr_right
    intro hyumi
    exact (isHostReadReq_iff hlink hs (sipofYumi_iff.mp hyumi).2.2).symm
  rw [loads]
  simp only [hiff]

theorem loads_length (hlink : Layout link) (hs : Invariant credits s) (i : Inputs) :
    (loads link s i).length = s.inFlight.length + (launchingRead link s i).toNat := by
  rw [loads_eq hlink hs, List.length_append]
  cases launchingRead link s i <;> rfl

theorem launchingRead_le (i : Inputs) : (launchingRead link s i).toNat ≤ s.readCredits := by
  cases hl : launchingRead link s i with
  | false => exact Nat.zero_le _
  | true =>
    obtain ⟨hyumi, hread⟩ := launchingRead_iff.mp hl
    obtain ⟨hpause, -, -⟩ := sipofYumi_iff.mp hyumi
    rw [pauseHostReq, hread, Bool.true_and, beq_eq_false_iff_ne] at hpause
    exact Nat.pos_of_ne_zero hpause

theorem returnedRead_le (i : Inputs) : (returnedRead s i).toNat ≤ s.fifoRsp.length := by
  cases hr : returnedRead s i with
  | false => exact Nat.zero_le _
  | true =>
    obtain ⟨-, hne⟩ := Bool.and_eq_true_iff.mp hr
    rw [Bool.not_eq_true', List.isEmpty_eq_false_iff] at hne
    exact List.length_pos_of_ne_nil hne

/-- While a load is in flight the queue has room. -/
theorem room (hlink : Layout link) (hs : Invariant credits s) {i : Inputs}
    (h : loads link s i ≠ []) : mcRspReady credits s = true := by
  have hpos := List.length_pos_of_ne_nil h
  have hlen := loads_length hlink hs i
  have hle := @launchingRead_le link s i
  have hcons := hs.conserved
  apply decide_eq_true
  omega

theorem readCredits_cycle (hs : Invariant credits s) (i : Inputs) :
    (cycle link credits s i).readCredits =
      s.readCredits - (launchingRead link s i).toNat + (returnedRead s i).toNat := by
  have hdown := @launchingRead_le link s i
  have hup := @returnedRead_le s i
  have hcons := hs.conserved
  apply counterUpDown_eq hdown
  omega

theorem entering_length (i : Inputs) : (cycle link credits s i).inFlight.length +
    ((entering link credits s i).map Prod.snd).toList.length = (loads link s i).length := by
  show (((entering link credits s i).map Prod.fst).elim (loads link s i)
    (loads link s i).eraseIdx).length + _ = _
  cases he : entering link credits s i with
  | none => rfl
  | some r =>
    have hlt : r.1 < (loads link s i).length := by
      unfold entering at he
      split at he
      · exact of_decide_eq_true (Option.filter_eq_some_iff.mp he).2
      · cases he
    show ((loads link s i).eraseIdx r.1).length + 1 = _
    rw [List.length_eraseIdx_of_lt hlt]
    omega

theorem inFlight_subset (i : Inputs) :
    ∀ words ∈ (cycle link credits s i).inFlight, words ∈ loads link s i := by
  intro words hwords
  change words ∈ ((entering link credits s i).map Prod.fst).elim (loads link s i)
    (loads link s i).eraseIdx at hwords
  cases he : entering link credits s i with
  | none =>
    rw [he] at hwords
    exact hwords
  | some r =>
    rw [he] at hwords
    exact List.mem_of_mem_eraseIdx hwords

theorem Invariant.loads_cycle (hlink : Layout link) (hs : Invariant credits s) (i : Inputs) :
    ∀ words ∈ ReadCredits.loads link s i, ∃ rqst reserved,
      words = requestWords rqst reserved ∧ rqst.op = .remoteLoad := by
  intro words hmem
  rw [loads_eq hlink hs, List.mem_append] at hmem
  rcases hmem with hmem | hmem
  · exact hs.loads words hmem
  · split at hmem
    · next hl =>
      obtain ⟨hyumi, hread⟩ := launchingRead_iff.mp hl
      have hv := (sipofYumi_iff.mp hyumi).2.2
      obtain ⟨rqst, reserved, hreq⟩ := hs.hostReq hv
      have hop := (isHostReadReq_iff hlink hs hv).mp hread
      rw [hreq, opV2_requestWords] at hop
      refine ⟨rqst, reserved, (List.mem_singleton.mp hmem).trans hreq, ?_⟩
      cases hrqst : rqst.op with
      | remoteLoad => rfl
      | remoteStore => rw [hrqst] at hop; cases hop
      | remoteSw => rw [hrqst] at hop; cases hop
      | cacheOp => rw [hrqst] at hop; cases hop
    · cases hmem

theorem cycle_invariant (hlink : Layout link) (hs : Invariant credits s) (i : Inputs) :
    Invariant credits (cycle link credits s i) where
  path := TransmitCredits.clock_invariant hs.path _ _
  polled := hs.polled
  requested := hs.requested
  conserved := by
    have hcount := @readCredits_cycle link credits s hs i
    have hflight := @entering_length link credits s i
    have hloads := loads_length hlink hs i
    have hqueue : (cycle link credits s i).fifoRsp.length =
        s.fifoRsp.length - (returnedRead s i).toNat +
          ((entering link credits s i).map Prod.snd).toList.length := by
      show (s.fifoRsp.drop _ ++ _).length = _
      rw [List.length_append, List.length_drop]
    have hdown := @launchingRead_le link s i
    have hup := @returnedRead_le s i
    have hcons := hs.conserved
    omega
  loads := by
    intro words hwords
    exact hs.loads_cycle hlink i words (inFlight_subset i words hwords)
  order := by
    have hread := List.take_append_drop i.rReady.toNat s.pisoRsp
    have hqueue := List.take_append_drop (returnedRead s i).toNat s.fifoRsp
    have horder := hs.order
    rw [← hread, ← hqueue, List.flatMap_append] at horder
    show s.read ++ s.pisoRsp.take i.rReady.toNat ++ (s.pisoRsp.drop i.rReady.toNat ++
      (s.fifoRsp.take (returnedRead s i).toNat).flatMap Packet.words) ++
      (s.fifoRsp.drop (returnedRead s i).toNat ++ _).flatMap Packet.words =
      (s.arrived ++ _).flatMap Packet.words
    rw [List.flatMap_append, List.flatMap_append, ← horder]
    simp only [List.append_assoc]

theorem host_invariant (hs : Invariant credits s) {e : HostEvent} {path : TransmitCredits.State}
    (hn : TransmitCredits.next credits s.path e.onPath = some path) :
    Invariant credits { s with path } := by
  obtain ⟨hrequested, hpolled⟩ := path_next hn
  refine ⟨TransmitCredits.next_invariant hs.path hn, ?_, ?_, hs.conserved, hs.loads, hs.order⟩
  · intro type packet hpc
    rcases hpolled type packet hpc with hbefore | ⟨timeout, he⟩
    · exact hs.polled type packet hbefore
    · cases e with
      | transmit type' rqst reserved timeout' =>
        cases he
        exact ⟨rqst, reserved, rfl⟩
      | init => cases he
      | cleanup => cases he
      | read => cases he
      | take => cases he
      | store => cases he
  · rcases hrequested with hsame | ⟨type, packet, hpoll, hmore⟩
    · show Requests path.requested
      rw [hsame]
      exact hs.requested
    · obtain ⟨rqst, reserved, rfl⟩ := hs.polled type packet hpoll
      obtain ⟨rqsts, hrqsts⟩ := hs.requested
      refine ⟨rqsts ++ [(rqst, reserved)], ?_⟩
      show path.requested = _
      rw [hmore, hrqsts, List.flatMap_append, List.flatMap_singleton]
      rfl

theorem reachable_invariant (hlink : Layout link)
    (h : Transition.Reachable (system link credits) s) : Invariant credits s := by
  apply h.invariant
  · rintro _ rfl
    exact initial_invariant
  · intro s e t hs hn
    cases e with
    | host e =>
      obtain ⟨path, hpath, rfl⟩ := Option.map_eq_some_iff.mp hn
      exact host_invariant hs hpath
    | clock i =>
      cases hn
      exact cycle_invariant hlink hs i

/-- The host reads the responses in the order in which they came, each word once. -/
theorem read_isPrefix (hlink : Layout link) (h : Transition.Reachable (system link credits) s) :
    s.read <+: s.arrived.flatMap Packet.words := by
  have horder := (reachable_invariant hlink h).order
  rw [List.append_assoc] at horder
  exact ⟨_, horder⟩

end Proof

/-- What holds of the read credits in every state, whatever comes from outside next. -/
structure Safe (link : Link) (credits : ℕ) (s : State) : Prop where
  conserved : s.readCredits + s.inFlight.length + s.fifoRsp.length = credits
  loads : ∀ words ∈ s.inFlight, ∃ rqst reserved,
    words = requestWords rqst reserved ∧ rqst.op = .remoteLoad
  underflow : ∀ i, launchingRead link s i = true → 0 < s.readCredits
  overflow : ∀ i, returnedRead s i = true → s.readCredits < credits
  counter : ∀ i, (cycle link credits s i).readCredits =
    s.readCredits - (launchingRead link s i).toNat + (returnedRead s i).toNat
  room : ∀ i, entering link credits s i = answered link s i

theorem read_credits {link : Link} {credits : ℕ} {s : State} (hlink : Layout link)
    (h : Transition.Reachable (system link credits) s) : Safe link credits s := by
  have hs := reachable_invariant hlink h
  have hcons := hs.conserved
  refine ⟨hcons, hs.loads, ?_, ?_, readCredits_cycle hs, ?_⟩
  · intro i hl
    have hle := @launchingRead_le link s i
    rw [hl] at hle
    exact hle
  · intro i hr
    have hle := @returnedRead_le s i
    rw [hr] at hle
    have hone : (true).toNat = 1 := rfl
    omega
  · intro i
    unfold entering
    by_cases hempty : loads link s i = []
    · have hnone : answered link s i = none := by
        rw [answered, hempty, Option.filter_eq_none_iff]
        intro r _ hlt
        exact absurd (of_decide_eq_true hlt) (Nat.not_lt_zero r.1)
      rw [hnone, ite_self]
    · rw [if_pos (room hlink hs hempty)]

def byteLink : Link := ⟨opV2, 0⟩

/-- Two loads are launched and one of them is answered. The third, behind a store, is held back at
the end of the path. -/
def threeLoads : List Event :=
  let call (op : PacketOp) : Event := .host (.transmit .req { op } 0 (-1))
  let send : List Event := [.host .take] ++ List.replicate 5 (.host .store)
  let cycles (n : ℕ) : List Event := List.replicate n (.clock ⟨true, true, none, false, false⟩)
  [.host .init, call .remoteLoad] ++ send ++ [call .remoteLoad] ++ send ++ cycles 12 ++
    [call .remoteStore, .host .read] ++ send ++ [call .remoteLoad] ++ send ++ cycles 12 ++
    [.clock ⟨false, true, some (0, ⟨[7, 0, 0, 0], rfl⟩), false, false⟩]

theorem layout_byteLink : Layout byteLink := ⟨opV2_requestWords, rfl⟩

theorem read_credits_threeLoads : ∃ s, s.readCredits = 0 ∧ s.inFlight.length = 1 ∧
    s.fifoRsp.length = 1 ∧ pauseHostReq byteLink s = true ∧ Safe byteLink 2 s := by
  have hrun : (Transition.run (next byteLink 2) (initial 2) threeLoads).any (fun s =>
      s.readCredits = 0 ∧ s.inFlight.length = 1 ∧ s.fifoRsp.length = 1 ∧
      pauseHostReq byteLink s = true) = true := by
    decide +kernel
  obtain ⟨s, hs, hp⟩ := (Option.any_eq_true _ _).mp hrun
  obtain ⟨hcredits, hflight, hqueue, hpause⟩ := of_decide_eq_true hp
  exact ⟨s, hcredits, hflight, hqueue, hpause,
    read_credits layout_byteLink (Transition.Reachable.events (.initial rfl) hs)⟩

end ReadCredits
