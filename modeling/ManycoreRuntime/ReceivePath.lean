import ManycoreRuntime.Framing
import ManycoreRuntime.LinkToAxil
import ManycoreRuntime.ReadCredits

/-! # Receive path of the FPGA platform

The hardware queues the packets of the network, gives them to the host word by word and counts the
words that the host has not read. The host reads the words of a request after it has seen a whole
packet in that count. -/
namespace ReceivePath

open Coordinate (Errno)
open Framing (Code stream)
open LinkToAxil (Paths isRead)
open ReadCredits (bsgWidth counterUpDown)
open TransmitCredits (Packet hostIoPktWidth axilDataWidth mmioFifoGetAddr mmioFifoDataWidth
  sizeofPacket)

inductive FifoRx where
  | rsp
  | req
  deriving DecidableEq, Repr

def FifoRx.direction : FifoRx → UInt32
  | .rsp => 0
  | .req => 1

def mmioFifoRxOccupancyOffset : UInt32 := 0x08

def mmioFifoRxDataOffset : UInt32 := 0x0C

def occupancyAddr (type : FifoRx) : UInt32 :=
  mmioFifoGetAddr type.direction mmioFifoRxOccupancyOffset

def dataAddr (type : FifoRx) : UInt32 := mmioFifoGetAddr type.direction mmioFifoRxDataOffset

/-- What the occupancy register reads gives the number of packets. The test on the remainder
compares the divisor with itself and never fails. -/
def rxFifoGetOccupancy (type : FifoRx) (val : UInt32) : Except Errno UInt32 :=
  match type with
  | .rsp => .error .fail
  | .req =>
    let occ : UInt32 := UInt32.ofNat (sizeofPacket * 8 / mmioFifoDataWidth)
    if occ < UInt32.ofNat (sizeofPacket * 8 / mmioFifoDataWidth) ∧ val % occ ≠ 0 then .error .fail
    else .ok (val / occ)

/-- What a packet is received for: a call of its own, or the drain's round with that number, with
the packets that the round has left after this one. -/
inductive Call where
  | receive
  | drain (drains : ℕ) (left : ℕ)
  deriving DecidableEq, Repr

/-- Where the host's thread stands: outside a call, in the loop that waits for a packet, before the
next word of a packet, or before a read of the occupancy in the drain, in a round or after them. -/
inductive Pc where
  | idle
  | poll (call : Call)
  | word (call : Call) (type : FifoRx) (words : List UInt32)
  | check (drains : ℕ)
  | recheck
  deriving DecidableEq, Repr

structure Host where
  pc : Pc
  /-- The packets that were read whole. -/
  received : List (List UInt32)
  receivedRsp : List (List UInt32)
  result : Option (Except Errno Unit)

def maxDrains : ℕ := 20

def nextRound (drains : ℕ) : Pc := if drains + 1 < maxDrains then .check (drains + 1) else .recheck

def Host.return (h : Host) (r : Except Errno Unit) : Host :=
  { h with pc := .idle, result := some r }

def Pc.araddr : Pc → Option UInt32
  | .idle => none
  | .poll _ => some (occupancyAddr .req)
  | .word _ type _ => some (dataAddr type)
  | .check _ => some (occupancyAddr .req)
  | .recheck => some (occupancyAddr .req)

def Host.got (h : Host) (type : FifoRx) (words : List UInt32) : Host :=
  match type with
  | .rsp => { h with receivedRsp := h.receivedRsp ++ [words] }
  | .req => { h with received := h.received ++ [words] }

def Host.proceed (h : Host) : Call → Host
  | .receive => h.return (.ok ())
  | .drain drains 0 => { h with pc := nextRound drains }
  | .drain drains (left + 1) => { h with pc := .poll (.drain drains left) }

def Host.after (h : Host) (val : UInt32) : Host :=
  match h.pc with
  | .idle => h
  | .poll call =>
    match rxFifoGetOccupancy .req val with
    | .error e => h.return (.error e)
    | .ok occupancy => if occupancy < 1 then h else { h with pc := .word call .req [] }
  | .word call type words =>
    let words := words ++ [val]
    if words.length < 4 then { h with pc := .word call type words }
    else (h.got type words).proceed call
  | .check drains =>
    match rxFifoGetOccupancy .req val with
    | .error e => h.return (.error e)
    | .ok occupancy =>
      if occupancy = 0 then { h with pc := .recheck }
      else { h with pc := .poll (.drain drains (occupancy.toNat - 1)) }
  | .recheck =>
    match rxFifoGetOccupancy .req val with
    | .error _ => h.return (.error .fail)
    | .ok occupancy =>
      -- the message of the failure prints the FIFO's enumerator as a string
      h.return (if occupancy > 0 then .error .undefined else .ok ())

def pisoEls : ℕ := hostIoPktWidth / axilDataWidth

/-- A queue of packets, the words in the serialiser behind it, the packets that entered and the
words that the host read. -/
structure Queue where
  fifo : List Packet
  piso : List UInt32
  arrived : List Packet
  read : List UInt32

def Queue.empty : Queue := ⟨[], [], [], []⟩

/-- The widths of the hardware: the packets of the request and of the receive path, and the words
that the serialiser can hold. -/
structure Widths where
  ioPktsTx : ℕ
  ioPktsRx : ℕ
  pisoWords : ℕ
  romBytes : ℕ

def Queue.enters (q : Queue) (capacity : ℕ) (mcReq : Option Packet) : Option Packet :=
  if q.fifo.length < capacity then mcReq else none

def Queue.moved (q : Queue) (pisoWords : ℕ) (pisoReady : Bool) : ℕ :=
  if pisoReady ∧ q.piso.length + pisoEls ≤ pisoWords then 1 else 0

def Queue.cycle (q : Queue) (capacity pisoWords : ℕ) (mcReq : Option Packet)
    (pisoReady rReady : Bool) : Queue where
  fifo := q.fifo.drop (q.moved pisoWords pisoReady) ++ (q.enters capacity mcReq).toList
  piso := q.piso.drop rReady.toNat ++
    (q.fifo.take (q.moved pisoWords pisoReady)).flatMap Packet.words
  arrived := q.arrived ++ (q.enters capacity mcReq).toList
  read := q.read ++ q.piso.take rReady.toNat

structure State where
  host : Host
  req : Queue
  mcReqWords : ℕ
  rsp : Queue

def initial : State where
  host := ⟨.idle, [], [], none⟩
  req := .empty
  mcReqWords := 0
  rsp := .empty

/-- What comes from outside in one cycle: whether the host's read is presented, the rest of what
the bridge shows, the packets of the network and whether the serialisers take one. -/
structure Inputs where
  access : Bool
  paths : Paths
  mcReq : Option Packet
  mcRsp : Option Packet
  pisoReady : Bool
  pisoRspReady : Bool

section Hardware

variable (w : Widths) (s : State) (i : Inputs)

/-- The counter crosses a bus that is as wide as the counter of the request path. -/
def mcReqWordsLo : ℕ := s.mcReqWords % 2 ^ bsgWidth (w.ioPktsTx * pisoEls)

def paths : Paths := { i.paths with
  txRv := !s.rsp.piso.isEmpty
  txRdata := s.rsp.piso.headD 0
  mcReqWords := UInt32.ofNat (mcReqWordsLo w s)
  rxRv := !s.req.piso.isEmpty
  rxRdata := s.req.piso.headD 0 }

def accepted : Option (UInt32 × LinkToAxil.Reg) :=
  if i.access then
    (s.host.pc.araddr.map fun a => (a, isRead w.romBytes a)).filter
      fun r => (paths w s i).arready r.2
  else none

def pops (r : LinkToAxil.Reg) : Bool := ((accepted w s i).map Prod.snd) == some r

def cycle : State where
  host := ((accepted w s i).map fun r => s.host.after ((paths w s i).rdata r.1 r.2)).getD s.host
  req := s.req.cycle w.ioPktsRx w.pisoWords i.mcReq i.pisoReady (pops w s i .rdrReq)
  mcReqWords := counterUpDown (w.ioPktsRx * pisoEls) s.mcReqWords (pops w s i .rdrReq).toNat
    (if (s.req.enters w.ioPktsRx i.mcReq).isSome then pisoEls else 0)
  rsp := s.rsp.cycle w.ioPktsTx w.pisoWords i.mcRsp i.pisoRspReady (pops w s i .rdrRsp)

end Hardware

inductive Event where
  | receive (type : FifoRx) (timeout : ℤ)
  | drain (type : FifoRx)
  | clock (i : Inputs)

def next (w : Widths) (s : State) : Event → Option State
  | .receive type timeout =>
    match s.host.pc with
    | .idle => some { s with host :=
        if timeout ≠ -1 then s.host.return (.error .invalid)
        else match type with
          | .rsp => { s.host with pc := .word .receive .rsp [] }
          | .req => { s.host with pc := .poll .receive } }
    | _ => none
  | .drain type =>
    match s.host.pc with
    | .idle => some { s with host :=
        match type with
        | .rsp => s.host.return (.error .fail)
        | .req => { s.host with pc := .check 0 } }
    | _ => none
  | .clock i => some (cycle w s i)

def system (w : Widths) : Transition.System State Event :=
  .ofNext (· = initial) (next w)

section Access

variable {w : Widths} {s : State} {i : Inputs} {h : Host} {val : UInt32}

theorem pisoEls_eq : pisoEls = 4 := rfl

theorem packetCode : Code Packet.words 4 where
  pos := by decide
  length := Packet.length_eq
  injective := by
    rintro ⟨words, _⟩ ⟨words', _⟩ heq
    cases heq
    rfl

theorem rxFifoGetOccupancy_req (val : UInt32) : rxFifoGetOccupancy .req val = .ok (val / 4) := by
  have hocc : UInt32.ofNat (sizeofPacket * 8 / mmioFifoDataWidth) = 4 := rfl
  have hlt : ¬ (4 : UInt32) < 4 := by decide
  simp only [rxFifoGetOccupancy, hocc, hlt, false_and, if_false]

theorem isRead_dataAddr_req : isRead w.romBytes (dataAddr .req) = .rdrReq := rfl

theorem isRead_dataAddr_rsp : isRead w.romBytes (dataAddr .rsp) = .rdrRsp := rfl

/-- The words of a packet of the type that the host has so far. -/
def Pc.partly (pc : Pc) (type : FifoRx) : List UInt32 :=
  match pc with
  | .word _ type' words => if type' = type then words else []
  | _ => []

def Host.packets (h : Host) : FifoRx → List (List UInt32)
  | .rsp => h.receivedRsp
  | .req => h.received

inductive Accepts (w : Widths) (s : State) (i : Inputs) : Prop where
  | none (accepted : accepted w s i = none)
  | occupancy (pc : s.host.pc.araddr = some (occupancyAddr .req))
      (accepted : accepted w s i = some (occupancyAddr .req, .rdfoMcReq))
  | req {call : Call} {words : List UInt32} {v : UInt32} {rest : List UInt32}
      (pc : s.host.pc = .word call .req words) (piso : s.req.piso = v :: rest)
      (accepted : accepted w s i = some (dataAddr .req, .rdrReq))
  | rsp {call : Call} {words : List UInt32} {v : UInt32} {rest : List UInt32}
      (pc : s.host.pc = .word call .rsp words) (piso : s.rsp.piso = v :: rest)
      (accepted : accepted w s i = some (dataAddr .rsp, .rdrRsp))

theorem accepts (w : Widths) (s : State) (i : Inputs) : Accepts w s i := by
  by_cases ha : i.access = true
  · cases hp : s.host.pc.araddr with
    | none =>
      apply Accepts.none
      rw [accepted, if_pos ha, hp]
      rfl
    | some a =>
      have hacc : accepted w s i =
          (some (a, isRead w.romBytes a)).filter fun r => (paths w s i).arready r.2 := by
        rw [accepted, if_pos ha, hp]
        rfl
      cases hpc : s.host.pc with
      | idle =>
        rw [hpc] at hp
        cases hp
      | poll call =>
        obtain rfl : occupancyAddr .req = a := by simpa [hpc, Pc.araddr] using hp
        exact .occupancy hp hacc
      | check drains =>
        obtain rfl : occupancyAddr .req = a := by simpa [hpc, Pc.araddr] using hp
        exact .occupancy hp hacc
      | recheck =>
        obtain rfl : occupancyAddr .req = a := by simpa [hpc, Pc.araddr] using hp
        exact .occupancy hp hacc
      | word call type words =>
        obtain rfl : dataAddr type = a := by simpa [hpc, Pc.araddr] using hp
        cases type with
        | req =>
          cases hpiso : s.req.piso with
          | nil =>
            apply Accepts.none
            rw [hacc, isRead_dataAddr_req]
            simp [paths, Paths.arready, hpiso]
          | cons v rest =>
            apply Accepts.req hpc hpiso
            rw [hacc, isRead_dataAddr_req]
            simp [paths, Paths.arready, hpiso]
        | rsp =>
          cases hpiso : s.rsp.piso with
          | nil =>
            apply Accepts.none
            rw [hacc, isRead_dataAddr_rsp]
            simp [paths, Paths.arready, hpiso]
          | cons v rest =>
            apply Accepts.rsp hpc hpiso
            rw [hacc, isRead_dataAddr_rsp]
            simp [paths, Paths.arready, hpiso]
  · apply Accepts.none
    rw [accepted, if_neg ha]

def Pc.Between : Pc → Prop
  | .word _ _ _ => False
  | _ => True

theorem Pc.Between.partly {pc : Pc} (h : pc.Between) (type : FifoRx) : pc.partly type = [] := by
  cases pc with
  | word call type' words => exact h.elim
  | idle => rfl
  | poll call => rfl
  | check drains => rfl
  | recheck => rfl

/-- A read of the occupancy leaves the packets alone. A packet is begun if a whole one is counted,
and the drain succeeds if none is. -/
structure AfterOccupancy (h : Host) (val : UInt32) : Prop where
  packets : ∀ type, (h.after val).packets type = h.packets type
  pc : (h.after val).pc.Between ∨ ∃ call, (h.after val).pc = .word call .req [] ∧ 4 ≤ val.toNat

theorem after_occupancy (hpc : h.pc.araddr = some (occupancyAddr .req)) :
    AfterOccupancy h val := by
  have hdiv : (val / 4).toNat = val.toNat / 4 := rfl
  cases hp : h.pc with
  | idle =>
    rw [hp] at hpc
    cases hpc
  | word call type words =>
    rw [hp] at hpc
    have haddr : dataAddr type = occupancyAddr .req := Option.some.inj hpc
    cases type <;> exact absurd haddr (by decide)
  | poll call =>
    by_cases hlt : val / 4 < 1
    · have hsame : h.after val = h := by
        simp only [Host.after, hp, rxFifoGetOccupancy_req, hlt, if_true]
      refine ⟨?_, Or.inl ?_⟩
      · intro type
        rw [hsame]
      · rw [hsame, hp]
        trivial
    · have hnext : h.after val = { h with pc := .word call .req [] } := by
        simp only [Host.after, hp, rxFifoGetOccupancy_req, hlt, if_false]
      refine ⟨?_, Or.inr ⟨call, ?_, ?_⟩⟩
      · intro type
        rw [hnext]
        cases type <;> rfl
      · rw [hnext]
      · rw [UInt32.lt_iff_toNat_lt, hdiv] at hlt
        have hone : (1 : UInt32).toNat = 1 := rfl
        omega
  | check drains =>
    by_cases hz : val / 4 = 0
    · have hnext : h.after val = { h with pc := .recheck } := by
        simp only [Host.after, hp, rxFifoGetOccupancy_req, hz, if_true]
      refine ⟨?_, Or.inl ?_⟩
      · intro type
        rw [hnext]
        cases type <;> rfl
      · rw [hnext]
        trivial
    · have hnext : h.after val =
          { h with pc := .poll (.drain drains ((val / 4).toNat - 1)) } := by
        simp only [Host.after, hp, rxFifoGetOccupancy_req, hz, if_false]
      refine ⟨?_, Or.inl ?_⟩
      · intro type
        rw [hnext]
        cases type <;> rfl
      · rw [hnext]
        trivial
  | recheck =>
    have hnext : h.after val = h.return (if val / 4 > 0 then .error .undefined else .ok ()) := by
      simp only [Host.after, hp, rxFifoGetOccupancy_req]
    refine ⟨?_, Or.inl ?_⟩
    · intro type
      rw [hnext]
      cases type <;> rfl
    · rw [hnext]
      trivial

theorem proceed_between (h : Host) (call : Call) : (h.proceed call).pc.Between := by
  cases call with
  | receive => trivial
  | drain drains left =>
    cases left with
    | zero =>
      show (nextRound drains).Between
      unfold nextRound
      split <;> trivial
    | succ left => trivial

theorem proceed_packets (h : Host) (call : Call) (type : FifoRx) :
    (h.proceed call).packets type = h.packets type := by
  cases call with
  | receive => cases type <;> rfl
  | drain drains left => cases left <;> cases type <;> rfl

theorem got_packets (h : Host) (type type' : FifoRx) (words : List UInt32) :
    (h.got type words).packets type' =
      h.packets type' ++ if type = type' then [words] else [] := by
  cases type <;> cases type' <;> simp [Host.got, Host.packets]

theorem after_word {call : Call} {type : FifoRx} {words : List UInt32}
    (hpc : h.pc = .word call type words) :
    h.after val = if words.length + 1 < 4 then { h with pc := .word call type (words ++ [val]) }
      else (h.got type (words ++ [val])).proceed call := by
  simp only [Host.after, hpc, List.length_append, List.length_singleton]

end Access

def Queue.unread (q : Queue) : ℕ := q.piso.length + pisoEls * q.fifo.length

structure Queue.Invariant (q : Queue) (capacity pisoWords : ℕ) : Prop where
  order : q.read ++ q.piso ++ stream Packet.words q.fifo = stream Packet.words q.arrived
  fifo : q.fifo.length ≤ capacity
  piso : q.piso.length ≤ pisoWords

def State.queue (s : State) : FifoRx → Queue
  | .rsp => s.rsp
  | .req => s.req

structure Invariant (w : Widths) (s : State) : Prop where
  req : s.req.Invariant w.ioPktsRx w.pisoWords
  rsp : s.rsp.Invariant w.ioPktsTx w.pisoWords
  counter : s.mcReqWords = s.req.unread % 2 ^ bsgWidth (w.ioPktsRx * pisoEls)
  read : ∀ type, (s.queue type).read =
    (s.host.packets type).flatten ++ s.host.pc.partly type
  whole : ∀ type, ∀ words ∈ s.host.packets type, words.length = pisoEls
  partly : ∀ type, (s.host.pc.partly type).length < pisoEls
  rest : ∀ call words, s.host.pc = .word call .req words →
    pisoEls ≤ words.length + s.req.unread

section Proof

variable {w : Widths} {s t : State} {i : Inputs} {q : Queue}

theorem moved_le (pisoWords : ℕ) (pisoReady : Bool) : q.moved pisoWords pisoReady ≤ 1 := by
  unfold Queue.moved
  split
  · exact le_rfl
  · exact Nat.zero_le 1

theorem cycle_queue {capacity pisoWords : ℕ} (h : q.Invariant capacity pisoWords)
    (mcReq : Option Packet) (pisoReady rReady : Bool) :
    (q.cycle capacity pisoWords mcReq pisoReady rReady).Invariant capacity pisoWords := by
  obtain ⟨horder, hfifo, hpiso⟩ := h
  have hread := List.take_append_drop rReady.toNat q.piso
  have hqueue := List.take_append_drop (q.moved pisoWords pisoReady) q.fifo
  have hmoved := @moved_le q pisoWords pisoReady
  constructor
  · rw [← hread, ← hqueue, Framing.stream_append] at horder
    simp only [Queue.cycle, Framing.stream_append, ← horder, List.append_assoc]
    rfl
  · simp only [Queue.cycle, List.length_append, List.length_drop]
    unfold Queue.enters
    split
    · next hroom =>
      cases mcReq with
      | none => simp only [Option.toList_none, List.length_nil]; omega
      | some p => simp only [Option.toList_some, List.length_singleton]; omega
    · simp only [Option.toList_none, List.length_nil]
      omega
  · have hlen := packetCode.length_stream (q.fifo.take (q.moved pisoWords pisoReady))
    have htake := List.length_take_le (q.moved pisoWords pisoReady) q.fifo
    rw [Framing.stream] at hlen
    simp only [Queue.cycle, List.length_append, List.length_drop, hlen]
    by_cases hroom : pisoReady ∧ q.piso.length + pisoEls ≤ pisoWords
    · have hone : q.moved pisoWords pisoReady = 1 := if_pos hroom
      have hle := hroom.2
      rw [pisoEls_eq] at hle
      omega
    · have hzero : q.moved pisoWords pisoReady = 0 := if_neg hroom
      omega

theorem unread_cycle (q : Queue) (capacity pisoWords : ℕ) (mcReq : Option Packet)
    (pisoReady rReady : Bool) (hr : rReady = true → q.piso ≠ []) :
    (q.cycle capacity pisoWords mcReq pisoReady rReady).unread + rReady.toNat =
      q.unread + if (q.enters capacity mcReq).isSome then pisoEls else 0 := by
  have hlen := packetCode.length_stream (q.fifo.take (q.moved pisoWords pisoReady))
  have hsplit := congrArg List.length
    (List.take_append_drop (q.moved pisoWords pisoReady) q.fifo)
  have hpop : rReady.toNat ≤ q.piso.length := by
    cases rReady with
    | false => exact Nat.zero_le _
    | true => exact List.length_pos_of_ne_nil (hr rfl)
  have hentered : (q.enters capacity mcReq).toList.length =
      if (q.enters capacity mcReq).isSome then 1 else 0 := by
    cases q.enters capacity mcReq <;> rfl
  rw [List.length_append] at hsplit
  rw [Framing.stream] at hlen
  simp only [Queue.unread, Queue.cycle, List.length_append, hlen, hentered, List.length_drop]
  rw [List.length_drop] at hsplit
  rw [pisoEls_eq]
  split <;> omega

theorem read_cycle {capacity pisoWords : ℕ} (mcReq : Option Packet) (pisoReady : Bool)
    {v : UInt32} {rest : List UInt32} (hpiso : q.piso = v :: rest) :
    (q.cycle capacity pisoWords mcReq pisoReady true).read = q.read ++ [v] := by
  simp only [Queue.cycle, hpiso, Bool.toNat_true, List.take_succ_cons, List.take_zero]

theorem read_cycle_idle {capacity pisoWords : ℕ} (mcReq : Option Packet) (pisoReady : Bool) :
    (q.cycle capacity pisoWords mcReq pisoReady false).read = q.read := by
  simp only [Queue.cycle, Bool.toNat_false, List.take_zero, List.append_nil]

theorem counterUpDown_mod {maxVal n down up : ℕ} (hdown : down ≤ n) (hone : down ≤ 1) :
    counterUpDown maxVal (n % 2 ^ bsgWidth maxVal) down up =
      (n + up - down) % 2 ^ bsgWidth maxVal := by
  unfold counterUpDown
  generalize hm : 2 ^ bsgWidth maxVal = m
  have hpos : 0 < m := by
    rw [← hm]
    exact Nat.two_pow_pos _
  have hdiv := Nat.div_add_mod n m
  have hsum : n % m + m - down + up + m * (n / m) = n + up - down + m := by omega
  calc (n % m + m - down + up) % m
      = (n % m + m - down + up + m * (n / m)) % m := (Nat.add_mul_mod_self_left _ _ _).symm
    _ = (n + up - down + m) % m := by rw [hsum]
    _ = (n + up - down) % m := Nat.add_mod_right _ _

theorem pops_none (h : accepted w s i = none) (r : LinkToAxil.Reg) : pops w s i r = false := by
  rw [pops, h]
  rfl

theorem pops_some {a : UInt32} {r : LinkToAxil.Reg} (h : accepted w s i = some (a, r))
    (r' : LinkToAxil.Reg) : pops w s i r' = decide (r = r') := by
  rw [pops, h]
  cases hd : decide (r = r') with
  | true =>
    obtain rfl := of_decide_eq_true hd
    exact beq_self_eq_true _
  | false =>
    apply beq_eq_false_iff_ne.mpr
    intro heq
    exact of_decide_eq_false hd (Option.some.inj heq)

theorem host_none (h : accepted w s i = none) : (cycle w s i).host = s.host := by
  show ((accepted w s i).map _).getD s.host = s.host
  rw [h]
  rfl

theorem host_some {a : UInt32} {r : LinkToAxil.Reg} (h : accepted w s i = some (a, r)) :
    (cycle w s i).host = s.host.after ((paths w s i).rdata a r) := by
  show ((accepted w s i).map _).getD s.host = _
  rw [h]
  rfl

theorem pops_ne_nil : pops w s i .rdrReq = true → s.req.piso ≠ [] := by
  intro hpops
  cases accepts w s i with
  | none hacc =>
    rw [pops_none hacc] at hpops
    cases hpops
  | occupancy _ hacc =>
    rw [pops_some hacc] at hpops
    cases hpops
  | req _ hpiso _ =>
    rw [hpiso]
    exact List.cons_ne_nil _ _
  | rsp _ _ hacc =>
    rw [pops_some hacc] at hpops
    cases hpops

theorem counter_cycle (h : Invariant w s) (i : Inputs) : (cycle w s i).mcReqWords =
    (cycle w s i).req.unread % 2 ^ bsgWidth (w.ioPktsRx * pisoEls) := by
  have hunread := unread_cycle s.req w.ioPktsRx w.pisoWords i.mcReq i.pisoReady
    (pops w s i .rdrReq) pops_ne_nil
  have hle : (pops w s i .rdrReq).toNat ≤ s.req.unread := by
    cases hp : pops w s i .rdrReq with
    | false => exact Nat.zero_le _
    | true =>
      have hpos := List.length_pos_of_ne_nil (pops_ne_nil hp)
      have hone : (true).toNat = 1 := rfl
      unfold Queue.unread
      omega
  have hone : (pops w s i .rdrReq).toNat ≤ 1 := Bool.toNat_le _
  show counterUpDown _ s.mcReqWords _ _ = (s.req.cycle _ _ _ _ _).unread % _
  rw [h.counter, counterUpDown_mod hle hone]
  congr 1
  omega

theorem invariant_of_host (h : Invariant w s)
    (hread : ∀ type, ((cycle w s i).queue type).read =
      ((cycle w s i).host.packets type).flatten ++ (cycle w s i).host.pc.partly type)
    (hwhole : ∀ type, ∀ words ∈ (cycle w s i).host.packets type, words.length = pisoEls)
    (hpartly : ∀ type, ((cycle w s i).host.pc.partly type).length < pisoEls)
    (hrest : ∀ call words, (cycle w s i).host.pc = .word call .req words →
      pisoEls ≤ words.length + (cycle w s i).req.unread) : Invariant w (cycle w s i) where
  req := cycle_queue h.req _ _ _
  rsp := cycle_queue h.rsp _ _ _
  counter := counter_cycle h i
  read := hread
  whole := hwhole
  partly := hpartly
  rest := hrest

theorem read_queue (type : FifoRx)
    (hp : pops w s i (match type with | .req => .rdrReq | .rsp => .rdrRsp) = false) :
    ((cycle w s i).queue type).read = (s.queue type).read := by
  cases type with
  | req =>
    show (s.req.cycle _ _ _ _ (pops w s i .rdrReq)).read = s.req.read
    rw [hp]
    exact read_cycle_idle _ _
  | rsp =>
    show (s.rsp.cycle _ _ _ _ (pops w s i .rdrRsp)).read = s.rsp.read
    rw [hp]
    exact read_cycle_idle _ _

theorem read_word (type : FifoRx) {v : UInt32} {rest : List UInt32}
    (hp : pops w s i (match type with | .req => .rdrReq | .rsp => .rdrRsp) = true)
    (hpiso : (s.queue type).piso = v :: rest) :
    ((cycle w s i).queue type).read = (s.queue type).read ++ [v] := by
  cases type with
  | req =>
    show (s.req.cycle _ _ _ _ (pops w s i .rdrReq)).read = s.req.read ++ [v]
    rw [hp]
    exact read_cycle _ _ hpiso
  | rsp =>
    show (s.rsp.cycle _ _ _ _ (pops w s i .rdrRsp)).read = s.rsp.read ++ [v]
    rw [hp]
    exact read_cycle _ _ hpiso

theorem unread_le (hp : pops w s i .rdrReq = false) : s.req.unread ≤ (cycle w s i).req.unread := by
  have hunread := unread_cycle s.req w.ioPktsRx w.pisoWords i.mcReq i.pisoReady
    (pops w s i .rdrReq) pops_ne_nil
  rw [hp] at hunread
  show s.req.unread ≤ (s.req.cycle _ _ _ _ (pops w s i .rdrReq)).unread
  rw [hp]
  rw [Bool.toNat_false] at hunread
  omega

def FifoRx.reg : FifoRx → LinkToAxil.Reg
  | .rsp => .rdrRsp
  | .req => .rdrReq

/-- The host gets the next word of its packet. -/
theorem word_invariant (h : Invariant w s) {call : Call} {type : FifoRx} {words : List UInt32}
    {v : UInt32} {rest : List UInt32} (hpc : s.host.pc = .word call type words)
    (hpiso : (s.queue type).piso = v :: rest)
    (hpops : ∀ type', pops w s i type'.reg = decide (type = type'))
    (hhost : (cycle w s i).host = s.host.after v) : Invariant w (cycle w s i) := by
  have hread : ∀ type', ((cycle w s i).queue type').read =
      (s.queue type').read ++ if type = type' then [v] else [] := by
    intro type'
    by_cases ht : type = type'
    · obtain rfl := ht
      rw [if_pos rfl]
      apply read_word type _ hpiso
      have hp := hpops type
      rw [decide_eq_true rfl] at hp
      cases type <;> exact hp
    · rw [if_neg ht, List.append_nil]
      apply read_queue
      have hp := hpops type'
      rw [decide_eq_false ht] at hp
      cases type' <;> exact hp
  have hbefore : ∀ type', s.host.pc.partly type' = if type = type' then words else [] := by
    intro type'
    rw [hpc]
    rfl
  have hlt := h.partly type
  rw [hbefore, if_pos rfl, pisoEls_eq] at hlt
  by_cases hmore : words.length + 1 < 4
  · have hafter : (cycle w s i).host = { s.host with pc := .word call type (words ++ [v]) } := by
      rw [hhost, after_word hpc, if_pos hmore]
    apply invariant_of_host h
    · intro type'
      rw [hread, h.read, hbefore, hafter]
      show _ = (s.host.packets type').flatten ++ if type = type' then words ++ [v] else []
      by_cases ht : type = type'
      · rw [if_pos ht, if_pos ht, if_pos ht, List.append_assoc]
      · rw [if_neg ht, if_neg ht, if_neg ht, List.append_nil]
    · rw [hafter]
      exact h.whole
    · intro type'
      rw [hafter]
      show (if type = type' then words ++ [v] else []).length < pisoEls
      rw [pisoEls_eq]
      split
      · rw [List.length_append, List.length_singleton]
        exact hmore
      · exact Nat.zero_lt_succ 3
    · intro call' words' hpc'
      rw [hafter] at hpc'
      cases hpc'
      have hrest := h.rest call words hpc
      have hunread := unread_cycle s.req w.ioPktsRx w.pisoWords i.mcReq i.pisoReady
        (pops w s i .rdrReq) pops_ne_nil
      have hone : (pops w s i .rdrReq).toNat ≤ 1 := Bool.toNat_le _
      rw [List.length_append, List.length_singleton]
      show pisoEls ≤ words.length + 1 + (s.req.cycle _ _ _ _ (pops w s i .rdrReq)).unread
      omega
  · have hafter : (cycle w s i).host = (s.host.got type (words ++ [v])).proceed call := by
      rw [hhost, after_word hpc, if_neg hmore]
    have hbetween := proceed_between (s.host.got type (words ++ [v])) call
    have hpackets : ∀ type', (cycle w s i).host.packets type' =
        s.host.packets type' ++ if type = type' then [words ++ [v]] else [] := by
      intro type'
      rw [hafter, proceed_packets, got_packets]
    apply invariant_of_host h
    · intro type'
      rw [hread, h.read, hbefore, hpackets, hafter, hbetween.partly, List.append_nil,
        List.flatten_append]
      by_cases ht : type = type'
      · rw [if_pos ht, if_pos ht, if_pos ht, List.append_assoc]
        simp only [List.flatten_cons, List.flatten_nil, List.append_nil]
      · rw [if_neg ht, if_neg ht, if_neg ht, List.append_nil, List.flatten_nil]
    · intro type' packet hpacket
      rw [hpackets, List.mem_append] at hpacket
      rcases hpacket with hold | hnew
      · exact h.whole type' packet hold
      · split at hnew
        · rw [List.mem_singleton.mp hnew, List.length_append, List.length_singleton, pisoEls_eq]
          omega
        · cases hnew
    · intro type'
      rw [hafter, hbetween.partly]
      exact Nat.zero_lt_succ 3
    · intro call' words' hpc'
      rw [hafter] at hpc'
      rw [hpc'] at hbetween
      exact hbetween.elim

theorem quiet_invariant (h : Invariant w s) (hpops : ∀ type : FifoRx, pops w s i type.reg = false)
    (hpackets : ∀ type, (cycle w s i).host.packets type = s.host.packets type)
    (hpartly : ∀ type, (cycle w s i).host.pc.partly type = s.host.pc.partly type)
    (hrest : ∀ call words, (cycle w s i).host.pc = .word call .req words →
      pisoEls ≤ words.length + s.req.unread) : Invariant w (cycle w s i) := by
  apply invariant_of_host h
  · intro type
    have hread : ((cycle w s i).queue type).read = (s.queue type).read := by
      apply read_queue
      have hp := hpops type
      cases type <;> exact hp
    rw [hread, hpackets, hpartly]
    exact h.read type
  · intro type
    rw [hpackets]
    exact h.whole type
  · intro type
    rw [hpartly]
    exact h.partly type
  · intro call words hpc
    have hmore := unread_le (hpops .req)
    have hbefore := hrest call words hpc
    omega

/-- The register never shows more words than there are. -/
theorem mcReqWords_le (h : Invariant w s) :
    (UInt32.ofNat (mcReqWordsLo w s)).toNat ≤ s.req.unread := by
  have hreg : (UInt32.ofNat (mcReqWordsLo w s)).toNat = mcReqWordsLo w s % 2 ^ 32 :=
    UInt32.toNat_ofNat'
  rw [hreg, mcReqWordsLo, h.counter]
  calc _ ≤ s.req.unread % 2 ^ bsgWidth (w.ioPktsRx * pisoEls) %
        2 ^ bsgWidth (w.ioPktsTx * pisoEls) := Nat.mod_le _ _
    _ ≤ s.req.unread % 2 ^ bsgWidth (w.ioPktsRx * pisoEls) := Nat.mod_le _ _
    _ ≤ s.req.unread := Nat.mod_le _ _

theorem cycle_invariant (h : Invariant w s) (i : Inputs) : Invariant w (cycle w s i) := by
  cases accepts w s i with
  | none hacc =>
    have hhost := host_none hacc
    apply quiet_invariant h
    · intro type
      exact pops_none hacc _
    · intro type
      rw [hhost]
    · intro type
      rw [hhost]
    · rw [hhost]
      exact h.rest
  | occupancy hpc hacc =>
    have hhost := host_some hacc
    obtain ⟨hpackets, hnext⟩ := @after_occupancy s.host
      ((paths w s i).rdata (occupancyAddr .req) .rdfoMcReq) hpc
    have hbefore : ∀ type, s.host.pc.partly type = [] := by
      intro type
      cases hp : s.host.pc with
      | word call type' words =>
        rw [hp] at hpc
        have haddr : dataAddr type' = occupancyAddr .req := Option.some.inj hpc
        cases type' <;> exact absurd haddr (by decide)
      | idle => rfl
      | poll call => rfl
      | check drains => rfl
      | recheck => rfl
    rw [← hhost] at hpackets hnext
    apply quiet_invariant h
    · intro type
      rw [pops_some hacc]
      cases type <;> rfl
    · exact hpackets
    · intro type
      rw [hbefore]
      rcases hnext with hbetween | ⟨call, hword, -⟩
      · exact hbetween.partly type
      · rw [hword]
        cases type <;> rfl
    · intro call words hword
      rcases hnext with hbetween | ⟨call', hword', hval⟩
      · rw [hword] at hbetween
        exact hbetween.elim
      · rw [hword'] at hword
        cases hword
        have hle : ((paths w s i).rdata (occupancyAddr .req) .rdfoMcReq).toNat ≤ s.req.unread :=
          mcReqWords_le h
        rw [pisoEls_eq, List.length_nil, Nat.zero_add]
        exact Nat.le_trans hval hle
  | @req call words v rest hpc hpiso hacc =>
    refine word_invariant h hpc hpiso ?_ ?_
    · intro type
      rw [pops_some hacc]
      cases type <;> rfl
    · rw [host_some hacc]
      show s.host.after (s.req.piso.headD 0) = _
      rw [hpiso, List.headD_cons]
  | @rsp call words v rest hpc hpiso hacc =>
    refine word_invariant h hpc hpiso ?_ ?_
    · intro type
      rw [pops_some hacc]
      cases type <;> rfl
    · rw [host_some hacc]
      show s.host.after (s.rsp.piso.headD 0) = _
      rw [hpiso, List.headD_cons]

theorem initial_invariant : Invariant w initial where
  req := ⟨rfl, Nat.zero_le _, Nat.zero_le _⟩
  rsp := ⟨rfl, Nat.zero_le _, Nat.zero_le _⟩
  counter := (Nat.zero_mod _).symm
  read := by
    intro type
    cases type <;> rfl
  whole := by
    intro type words hwords
    cases type <;> cases hwords
  partly := by
    intro type
    exact Nat.zero_lt_succ 3
  rest := by
    intro call words hpc
    cases hpc

theorem call_invariant (h : Invariant w s) {host : Host} (hidle : s.host.pc = .idle)
    (hpackets : ∀ type, host.packets type = s.host.packets type)
    (hpartly : ∀ type, host.pc.partly type = [])
    (hreq : ∀ call words, host.pc ≠ .word call .req words) :
    Invariant w { s with host } := by
  refine ⟨h.req, h.rsp, h.counter, ?_, ?_, ?_, ?_⟩
  · intro type
    have hread := h.read type
    rw [hidle] at hread
    show (s.queue type).read = (host.packets type).flatten ++ host.pc.partly type
    rw [hpackets, hpartly]
    exact hread
  · intro type
    show ∀ words ∈ host.packets type, _
    rw [hpackets]
    exact h.whole type
  · intro type
    show (host.pc.partly type).length < pisoEls
    rw [hpartly]
    exact Nat.zero_lt_succ 3
  · intro call words hpc
    exact absurd hpc (hreq call words)

theorem next_invariant (h : Invariant w s) {e : Event} (hn : next w s e = some t) :
    Invariant w t := by
  cases e with
  | clock i =>
    cases hn
    exact cycle_invariant h i
  | receive type timeout =>
    simp only [next] at hn
    split at hn
    · next hidle =>
      cases hn
      apply call_invariant h hidle
      · intro type'
        split
        · cases type' <;> rfl
        · cases type <;> cases type' <;> rfl
      · intro type'
        split
        · rfl
        · cases type <;> cases type' <;> rfl
      · intro call words
        split
        · exact Pc.noConfusion
        · cases type with
          | req => exact Pc.noConfusion
          | rsp =>
            intro hpc
            cases hpc
    · cases hn
  | drain type =>
    simp only [next] at hn
    split at hn
    · next hidle =>
      cases hn
      apply call_invariant h hidle
      · intro type'
        cases type <;> cases type' <;> rfl
      · intro type'
        cases type <;> rfl
      · intro call words
        cases type <;> exact Pc.noConfusion
    · cases hn

theorem reachable_invariant (h : Transition.Reachable (system w) s) : Invariant w s := by
  apply h.invariant
  · rintro _ rfl
    exact initial_invariant
  · intro s e t hs hn
    exact next_invariant hs hn

end Proof

/-- The packets of a type as they came from the network, and as the host got them. -/
structure Delivery (s : State) (type : FifoRx) : Prop where
  /-- What the host received are the first of the packets that came, each once and whole. -/
  received : s.host.packets type =
    ((s.queue type).arrived.take (s.host.packets type).length).map Packet.words
  /-- What it has of another packet are the first words of the one that comes next. -/
  partly : s.host.pc.partly type = [] ∨ ∃ packet,
    (s.queue type).arrived[(s.host.packets type).length]? = some packet ∧
    s.host.pc.partly type <+: packet.words
  /-- None of the other words is lost. -/
  unread : (s.host.packets type).length * pisoEls + (s.host.pc.partly type).length +
    (s.queue type).unread = (s.queue type).arrived.length * pisoEls

theorem Invariant.delivers {w : Widths} {s : State} (hs : Invariant w s) (type : FifoRx) :
    Delivery s type := by
  have hqueue : (s.queue type).read ++ (s.queue type).piso ++
      stream Packet.words (s.queue type).fifo = stream Packet.words (s.queue type).arrived := by
    cases type with
    | rsp => exact hs.rsp.order
    | req => exact hs.req.order
  -- the packets that were read are packets
  obtain ⟨packets, hpackets⟩ : ∃ packets : List Packet,
      s.host.packets type = packets.map Packet.words := by
    have hwhole : ∀ words ∈ s.host.packets type, words.length = 4 := hs.whole type
    refine ⟨(s.host.packets type).pmap Packet.mk hwhole, ?_⟩
    rw [List.map_pmap]
    exact (List.pmap_eq_self.mpr fun _ _ => rfl).symm
  have hstream : (s.host.packets type).flatten = stream Packet.words packets := by
    rw [hpackets]
    exact (List.flatMap_def).symm
  have hread := hs.read type
  rw [hstream] at hread
  rw [hread, List.append_assoc] at hqueue
  obtain ⟨htake, hpartly⟩ := packetCode.delivered hqueue (hs.partly type)
  have hlen : (s.host.packets type).length = packets.length := by
    rw [hpackets, List.length_map]
  refine ⟨?_, ?_, ?_⟩
  · rw [hlen, ← htake]
    exact hpackets
  · rw [hlen]
    exact hpartly
  · have hlens := congrArg List.length hqueue
    simp only [List.length_append, packetCode.length_stream] at hlens
    rw [hlen, Queue.unread, pisoEls_eq]
    omega

/-- In every run, the host receives the packets of each type whole, once each and in the order in
which they came. -/
theorem delivery {w : Widths} {s : State} (h : Transition.Reachable (system w) s)
    (type : FifoRx) : Delivery s type :=
  (reachable_invariant h).delivers type

/-- The words that the path can hold are fewer than the counter and its bus can show. -/
structure Fits (w : Widths) : Prop where
  counter : w.pisoWords + pisoEls * w.ioPktsRx < 2 ^ bsgWidth (w.ioPktsRx * pisoEls)
  bus : w.pisoWords + pisoEls * w.ioPktsRx < 2 ^ bsgWidth (w.ioPktsTx * pisoEls)
  register : w.pisoWords + pisoEls * w.ioPktsRx < 2 ^ 32

theorem occupancy_exact {w : Widths} {s : State} (hw : Fits w) (h : Invariant w s) :
    (UInt32.ofNat (mcReqWordsLo w s)).toNat = s.req.unread := by
  have hle : s.req.unread ≤ w.pisoWords + pisoEls * w.ioPktsRx := by
    have hfifo := h.req.fifo
    have hpiso := h.req.piso
    unfold Queue.unread
    rw [pisoEls_eq]
    omega
  have hreg : (UInt32.ofNat (mcReqWordsLo w s)).toNat = mcReqWordsLo w s % 2 ^ 32 :=
    UInt32.toNat_ofNat'
  rw [hreg, mcReqWordsLo, h.counter, Nat.mod_eq_of_lt (hle.trans_lt hw.counter),
    Nat.mod_eq_of_lt (hle.trans_lt hw.bus), Nat.mod_eq_of_lt (hle.trans_lt hw.register)]

/-- The drain succeeds exactly if the host has every packet that had come at its last look.
Otherwise it fails in its own message, before it returns. -/
theorem drain_ok_iff {w : Widths} {s t : State} {i : Inputs} (hw : Fits w)
    (h : Transition.Reachable (system w) s) (hpc : s.host.pc = .recheck)
    (hn : next w s (.clock i) = some t) (hend : t.host.pc = .idle) :
    (t.host.result = some (.ok ()) ↔ s.host.received = s.req.arrived.map Packet.words) ∧
    (t.host.result = some (.ok ()) ∨ t.host.result = some (.error .undefined)) := by
  have hs := reachable_invariant h
  have hexact := occupancy_exact hw hs
  have hdelivery := hs.delivers .req
  have hpartly : s.host.pc.partly .req = [] := by
    rw [hpc]
    rfl
  have hunread := hdelivery.unread
  rw [hpartly, List.length_nil, Nat.add_zero] at hunread
  have hreceived := hdelivery.received
  change s.host.received.length * pisoEls + s.req.unread = s.req.arrived.length * pisoEls
    at hunread
  change s.host.received = (s.req.arrived.take s.host.received.length).map Packet.words
    at hreceived
  rw [pisoEls_eq] at hunread
  -- nothing is unread exactly if all was received
  have hall : s.req.unread < 4 ↔ s.host.received = s.req.arrived.map Packet.words := by
    constructor
    · intro hlt
      have hlen : s.host.received.length = s.req.arrived.length := by omega
      rw [hlen, List.take_length] at hreceived
      exact hreceived
    · intro heq
      have hlen := congrArg List.length heq
      rw [List.length_map] at hlen
      omega
  cases hn
  have hnext : (cycle w s i).host = s.host.return
      (if UInt32.ofNat (mcReqWordsLo w s) / 4 > 0 then .error .undefined else .ok ()) := by
    cases accepts w s i with
    | none hacc =>
      rw [host_none hacc, hpc] at hend
      cases hend
    | occupancy _ hacc =>
      rw [host_some hacc]
      show s.host.after (UInt32.ofNat (mcReqWordsLo w s)) = _
      simp only [Host.after, hpc, rxFifoGetOccupancy_req]
    | req hword =>
      rw [hpc] at hword
      cases hword
    | rsp hword =>
      rw [hpc] at hword
      cases hword
  have hpos : UInt32.ofNat (mcReqWordsLo w s) / 4 > 0 ↔ ¬ s.req.unread < 4 := by
    have hdiv : (UInt32.ofNat (mcReqWordsLo w s) / 4).toNat =
        (UInt32.ofNat (mcReqWordsLo w s)).toNat / 4 := rfl
    have hzero : (0 : UInt32).toNat = 0 := rfl
    rw [gt_iff_lt, UInt32.lt_iff_toNat_lt, hdiv, hexact, hzero]
    omega
  rw [hnext, ← hall]
  by_cases hlt : s.req.unread < 4
  · rw [if_neg (fun hc => hpos.mp hc hlt)]
    exact ⟨⟨fun _ => hlt, fun _ => rfl⟩, Or.inl rfl⟩
  · rw [if_pos (hpos.mpr hlt)]
    refine ⟨⟨fun hok => ?_, fun hc => absurd hc hlt⟩, Or.inr rfl⟩
    cases hok

def smallPath : Widths := ⟨4, 2, 4, 64⟩

theorem fits_smallPath : Fits smallPath := by
  constructor <;> decide

def tick (mcReq : Option Packet) : Inputs :=
  ⟨true, ⟨0, false, 0, 0, 0, false, 0, fun _ => 0, 0⟩, mcReq, none, true, true⟩

def onePacket : List Event :=
  [.clock (tick (some ⟨[5, 6, 7, 8], rfl⟩)), .drain .req] ++ List.replicate 7 (.clock (tick none))

theorem delivery_onePacket : ∃ s, s.host.received = [[5, 6, 7, 8]] ∧ Delivery s .req := by
  have hrun : (Transition.run (next smallPath) initial onePacket).any (fun s =>
      s.host.received = [[5, 6, 7, 8]]) = true := by
    decide +kernel
  obtain ⟨s, hs, hp⟩ := (Option.any_eq_true _ _).mp hrun
  exact ⟨s, of_decide_eq_true hp, delivery (Transition.Reachable.events (.initial rfl) hs) .req⟩

/-- A packet comes in the cycle in which the drain has counted none. -/
def latePacket : List Event := [.drain .req, .clock (tick (some ⟨[5, 6, 7, 8], rfl⟩))]

theorem drain_ok_iff_onePacket :
    (∃ s t : State, s.host.received = [[5, 6, 7, 8]] ∧ t.host.result = some (.ok ()) ∧
      (t.host.result = some (.ok ()) ↔ s.host.received = s.req.arrived.map Packet.words)) ∧
    ∃ s t : State, s.host.received = [] ∧ s.req.arrived.length = 1 ∧
      t.host.result = some (.error .undefined) ∧
      (t.host.result = some (.ok ()) ↔ s.host.received = s.req.arrived.map Packet.words) := by
  constructor
  · have hrun : (Transition.run (next smallPath) initial onePacket).any (fun s =>
        s.host.pc = .recheck ∧ s.host.received = [[5, 6, 7, 8]] ∧
        (cycle smallPath s (tick none)).host.pc = .idle ∧
        (cycle smallPath s (tick none)).host.result = some (.ok ())) = true := by
      decide +kernel
    obtain ⟨s, hs, hp⟩ := (Option.any_eq_true _ _).mp hrun
    obtain ⟨hpc, hreceived, hidle, hok⟩ := of_decide_eq_true hp
    exact ⟨s, _, hreceived, hok, (drain_ok_iff fits_smallPath
      (Transition.Reachable.events (.initial rfl) hs) hpc rfl hidle).1⟩
  · have hrun : (Transition.run (next smallPath) initial latePacket).any (fun s =>
        s.host.pc = .recheck ∧ s.host.received = [] ∧ s.req.arrived.length = 1 ∧
        (cycle smallPath s (tick none)).host.pc = .idle ∧
        (cycle smallPath s (tick none)).host.result = some (.error .undefined)) = true := by
      decide +kernel
    obtain ⟨s, hs, hp⟩ := (Option.any_eq_true _ _).mp hrun
    obtain ⟨hpc, hreceived, harrived, hidle, hfail⟩ := of_decide_eq_true hp
    exact ⟨s, _, hreceived, harrived, hfail, (drain_ok_iff fits_smallPath
      (Transition.Reachable.events (.initial rfl) hs) hpc rfl hidle).1⟩

end ReceivePath
