import ManycoreRuntime.Coordinate
import ManycoreRuntime.Transition
import Mathlib.Data.List.Infix

/-! # Transmit credits of the FPGA platform

The host spends a cached vacancy, in packets, and stores a packet's words one by one. The
hardware counts single words into the request path and whole packets out of it, in its own
time. -/
namespace TransmitCredits

open Coordinate (Errno)

inductive FifoTx where
  | req
  | rsp
  deriving DecidableEq, Repr

def FifoTx.direction : FifoTx → UInt32
  | .req => 0
  | .rsp => 1

def mmioFifoBase : UInt32 := 0x1000

def mmioFifoNumBytes : UInt32 := 0x10

def mmioFifoTxDataOffset : UInt32 := 0x04

def mmioFifoGetAddr (dir ofs : UInt32) : UInt32 := mmioFifoBase + dir * mmioFifoNumBytes + ofs

def dataAddr (type : FifoTx) : UInt32 := mmioFifoGetAddr type.direction mmioFifoTxDataOffset

def mmioFifoDataWidth : ℕ := 32

def sizeofPacket : ℕ := 16

def fifoElsPerPacket : ℕ := sizeofPacket * 8 / mmioFifoDataWidth

structure Packet where
  words : List UInt32
  length_eq : words.length = 4

/-- What the vacancy register reads gives the call's result and its new vacancy. -/
def getTransmitVacancy (type : FifoTx) (vac : UInt32) (vacancy : ℤ) : Except Errno Unit × ℤ :=
  match type with
  | .rsp => (.error .noimpl, vacancy)
  | .req =>
    if vac.toNat % fifoElsPerPacket ≠ 0 then (.error .fail, vacancy)
    else
      let vacancy : ℤ := (vac.toNat / fifoElsPerPacket : ℕ)
      if vacancy < 0 then (.error .fail, vacancy) else (.ok (), vacancy)

def hostIoPktWidth : ℕ := 128

def axilDataWidth : ℕ := 32

def sipoEls : ℕ := hostIoPktWidth / axilDataWidth

def hostTxFifoEls (credits : ℕ) : ℕ := sipoEls * credits - (sipoEls + 1)

def isWriteToTdr (addr : UInt32) : Bool := addr == 0x1000 + 0x04

/-- Where the host's thread stands: outside a call, in the loop that waits for a vacancy, or
before the store of the first of the words that are left. -/
inductive Pc where
  | idle
  | poll (type : FifoTx) (packet : Packet)
  | store (type : FifoTx) (words : List UInt32)

structure State where
  pc : Pc
  transmitVacancy : ℤ
  /-- The stores, address and word, that have not arrived at the hardware. -/
  posted : List (UInt32 × UInt32)
  fifoReq : List UInt32
  sipofReq : List UInt32
  hostCredits : ℕ
  requested : List UInt32
  dequeued : List UInt32

inductive Event where
  | init
  | cleanup
  | transmit (type : FifoTx) (packet : Packet) (timeout : ℤ)
  | read
  | take
  | store
  | clock (arrives ready : Bool)

def initial (credits : ℕ) : State where
  pc := .idle
  transmitVacancy := 0
  posted := []
  fifoReq := []
  sipofReq := []
  hostCredits := sipoEls * credits
  requested := []
  dequeued := []

def vacancyRegister (s : State) : UInt32 := UInt32.ofNat s.hostCredits

/-- The first store arrives: one to the data register waits for room in the buffer, any other
is dropped. The result is what is left of the stores and the words that the buffer takes. -/
def arrive (wReady : Bool) : List (UInt32 × UInt32) → List (UInt32 × UInt32) × List UInt32
  | [] => ([], [])
  | (addr, w) :: rest =>
    if isWriteToTdr addr then if wReady then (rest, [w]) else ((addr, w) :: rest, [])
    else (rest, [])

def accepted (credits : ℕ) (s : State) (arrives : Bool) :
    List (UInt32 × UInt32) × List UInt32 :=
  if arrives then arrive (s.fifoReq.length < hostTxFifoEls credits) s.posted else (s.posted, [])

/-- One cycle. A word moves on while the collector has an element left, and a packet leaves it
when the network is ready; the counter goes down by a word and up by a packet. -/
def clock (credits : ℕ) (s : State) (arrives ready : Bool) : State :=
  let (posted, words) := accepted credits s arrives
  let moved := if s.sipofReq.length < sipoEls + 1 then 1 else 0
  let yumi := if ready ∧ sipoEls ≤ s.sipofReq.length then sipoEls else 0
  { s with
    posted := posted
    fifoReq := s.fifoReq.drop moved ++ words
    sipofReq := s.sipofReq.drop yumi ++ s.fifoReq.take moved
    hostCredits := s.hostCredits + yumi - words.length
    dequeued := s.dequeued ++ s.sipofReq.take yumi }

/-- A read of a register waits for the stores before it. -/
def readVacancy (s : State) : Option State :=
  if s.posted = [] then some { s with
    transmitVacancy := (getTransmitVacancy .req (vacancyRegister s) s.transmitVacancy).2 }
  else none

def next (credits : ℕ) (s : State) : Event → Option State
  | .init =>
    match s.pc with
    | .idle => readVacancy s
    | _ => none
  | .cleanup =>
    match s.pc with
    | .idle => some { s with transmitVacancy := 0 }
    | _ => none
  | .transmit type packet timeout =>
    match s.pc with
    | .idle => some (if timeout ≠ -1 then s else { s with pc := .poll type packet })
    | _ => none
  | .read =>
    match s.pc with
    | .poll _ _ => if s.transmitVacancy = 0 then readVacancy s else none
    | _ => none
  | .take =>
    match s.pc with
    | .poll type packet =>
      if s.transmitVacancy = 0 then none
      else some { s with
        pc := .store type packet.words
        transmitVacancy := s.transmitVacancy - 1
        requested := s.requested ++
          if isWriteToTdr (dataAddr type) then packet.words else [] }
    | _ => none
  | .store =>
    match s.pc with
    | .store _ [] => some { s with pc := .idle }
    | .store type (w :: words) => some { s with
        pc := .store type words
        posted := s.posted ++ [(dataAddr type, w)] }
    | _ => none
  | .clock arrives ready => some (clock credits s arrives ready)

def system (credits : ℕ) : Transition.System State Event :=
  .ofNext (· = initial credits) (next credits)

inductive Step (credits : ℕ) (s : State) : Event → State → Prop where
  | init (pc : s.pc = .idle) (posted : s.posted = []) : Step credits s .init { s with
      transmitVacancy := (getTransmitVacancy .req (vacancyRegister s) s.transmitVacancy).2 }
  | cleanup (pc : s.pc = .idle) : Step credits s .cleanup { s with transmitVacancy := 0 }
  | refuse {type : FifoTx} {packet : Packet} {timeout : ℤ} (pc : s.pc = .idle)
      (waits : timeout ≠ -1) : Step credits s (.transmit type packet timeout) s
  | transmit {type : FifoTx} {packet : Packet} (pc : s.pc = .idle) :
      Step credits s (.transmit type packet (-1)) { s with pc := .poll type packet }
  | read {type : FifoTx} {packet : Packet} (pc : s.pc = .poll type packet)
      (vacancy : s.transmitVacancy = 0) (posted : s.posted = []) : Step credits s .read { s with
        transmitVacancy := (getTransmitVacancy .req (vacancyRegister s) s.transmitVacancy).2 }
  | take {type : FifoTx} {packet : Packet} (pc : s.pc = .poll type packet)
      (vacancy : s.transmitVacancy ≠ 0) : Step credits s .take { s with
        pc := .store type packet.words
        transmitVacancy := s.transmitVacancy - 1
        requested := s.requested ++ if isWriteToTdr (dataAddr type) then packet.words else [] }
  | back {type : FifoTx} (pc : s.pc = .store type []) :
      Step credits s .store { s with pc := .idle }
  | store {type : FifoTx} {w : UInt32} {words : List UInt32}
      (pc : s.pc = .store type (w :: words)) : Step credits s .store { s with
        pc := .store type words
        posted := s.posted ++ [(dataAddr type, w)] }
  | clock (arrives ready : Bool) :
      Step credits s (.clock arrives ready) (clock credits s arrives ready)

theorem step_of_next {credits : ℕ} {s t : State} {e : Event} (h : next credits s e = some t) :
    Step credits s e t := by
  cases e with
  | init =>
    simp only [next, readVacancy] at h
    split at h
    · next hpc =>
      split at h <;> cases h
      next hposted => exact .init hpc hposted
    · cases h
  | cleanup =>
    simp only [next] at h
    split at h <;> cases h
    next hpc => exact .cleanup hpc
  | transmit type packet timeout =>
    simp only [next] at h
    split at h <;> cases h
    next hpc =>
      split
      · next hwaits => exact .refuse hpc hwaits
      · next hwaits =>
        rw [not_not.mp hwaits]
        exact .transmit hpc
  | read =>
    simp only [next, readVacancy] at h
    split at h
    · next hpc =>
      split at h
      · next hv =>
        split at h <;> cases h
        next hposted => exact .read hpc hv hposted
      · cases h
    · cases h
  | take =>
    simp only [next] at h
    split at h
    · next hpc =>
      split at h <;> cases h
      next hv => exact .take hpc hv
    · cases h
  | store =>
    simp only [next] at h
    split at h <;> cases h
    · next hpc => exact .back hpc
    · next hpc => exact .store hpc
  | clock arrives ready =>
    cases h
    exact .clock arrives ready

def tdrWords (stores : List (UInt32 × UInt32)) : List UInt32 :=
  (stores.filter fun st => isWriteToTdr st.1).map Prod.snd

def Pc.left : Pc → List UInt32
  | .store type words => if isWriteToTdr (dataAddr type) then words else []
  | _ => []

def Pc.Between : Pc → Prop
  | .store _ _ => False
  | _ => True

structure Invariant (credits : ℕ) (s : State) : Prop where
  nonneg : 0 ≤ s.transmitVacancy
  conserved : s.hostCredits + (s.fifoReq.length + s.sipofReq.length) = sipoEls * credits
  spent : sipoEls * s.transmitVacancy + (s.pc.left.length + (tdrWords s.posted).length : ℕ) ≤
    s.hostCredits
  order : s.dequeued ++ s.sipofReq ++ s.fifoReq ++ tdrWords s.posted ++ s.pc.left = s.requested
  requested : s.requested.length % sipoEls = 0
  dequeued : s.dequeued.length % sipoEls = 0

section Proof

variable {credits : ℕ} {s t : State}

theorem sipoEls_eq : sipoEls = 4 := rfl

theorem fifoElsPerPacket_eq : fifoElsPerPacket = 4 := rfl

theorem tdrWords_append (a b : List (UInt32 × UInt32)) :
    tdrWords (a ++ b) = tdrWords a ++ tdrWords b := by
  simp only [tdrWords, List.filter_append, List.map_append]

theorem arrive_words (wReady : Bool) (stores : List (UInt32 × UInt32)) :
    tdrWords stores = (arrive wReady stores).2 ++ tdrWords (arrive wReady stores).1 := by
  cases stores with
  | nil => rfl
  | cons st rest =>
    obtain ⟨addr, w⟩ := st
    cases ha : isWriteToTdr addr with
    | false => simp [arrive, tdrWords, ha]
    | true => cases wReady <;> simp [arrive, tdrWords, ha]

variable (credits s) in
theorem accepted_words (arrives : Bool) : tdrWords s.posted =
    (accepted credits s arrives).2 ++ tdrWords (accepted credits s arrives).1 := by
  unfold accepted
  split
  · exact arrive_words _ _
  · rfl

theorem initial_invariant : Invariant credits (initial credits) where
  nonneg := le_rfl
  conserved := rfl
  spent := by
    simp only [initial, Pc.left, tdrWords, List.filter_nil, List.map_nil, List.length_nil]
    omega
  order := rfl
  requested := rfl
  dequeued := rfl

/-- Between packets and behind all stores, the counter is a whole number of packets. -/
theorem Invariant.whole (h : Invariant credits s) (hpc : s.pc.left = []) (hposted : s.posted = []) :
    s.hostCredits % sipoEls = 0 := by
  have horder := congrArg List.length h.order
  have hcons := h.conserved
  have hreq := h.requested
  have hdeq := h.dequeued
  rw [hpc, hposted] at horder
  simp only [tdrWords, List.filter_nil, List.map_nil, List.length_append, List.length_nil]
    at horder
  rw [sipoEls_eq] at *
  omega

theorem Invariant.vacancy (h : Invariant credits s) (hpc : s.pc.left = [])
    (hposted : s.posted = []) (v : ℤ) :
    ∃ n : ℕ, getTransmitVacancy .req (vacancyRegister s) v = (.ok (), (n : ℤ)) ∧
      (vacancyRegister s).toNat = sipoEls * n ∧ sipoEls * n ≤ s.hostCredits := by
  have hwhole := h.whole hpc hposted
  have hreg : (vacancyRegister s).toNat = s.hostCredits % 2 ^ 32 := UInt32.toNat_ofNat'
  rw [sipoEls_eq] at hwhole
  have hmod : (vacancyRegister s).toNat % 4 = 0 := by omega
  refine ⟨(vacancyRegister s).toNat / 4, ?_, ?_, ?_⟩
  · have hneg : ¬ (((vacancyRegister s).toNat / 4 : ℕ) : ℤ) < 0 := by omega
    simp only [getTransmitVacancy, fifoElsPerPacket_eq, hmod, ne_eq, not_true, if_false, hneg]
  · rw [sipoEls_eq]
    omega
  · rw [sipoEls_eq]
    omega

theorem readVacancy_invariant (h : Invariant credits s) (hpc : s.pc.left = [])
    (hposted : s.posted = []) : Invariant credits { s with
      transmitVacancy := (getTransmitVacancy .req (vacancyRegister s) s.transmitVacancy).2 } := by
  obtain ⟨n, hv, -, hle⟩ := h.vacancy hpc hposted s.transmitVacancy
  rw [hv]
  refine ⟨?_, h.conserved, ?_, h.order, h.requested, h.dequeued⟩
  · exact Int.natCast_nonneg n
  · simp only [hpc, hposted, tdrWords, List.filter_nil, List.map_nil, List.length_nil]
    omega

theorem clock_invariant (h : Invariant credits s) (arrives ready : Bool) :
    Invariant credits (clock credits s arrives ready) := by
  have hwords := accepted_words credits s arrives
  have hlen := congrArg List.length hwords
  rw [List.length_append] at hlen
  have hspent := h.spent
  have hcons := h.conserved
  have hnonneg := h.nonneg
  have hdeq := h.dequeued
  rw [sipoEls_eq] at hspent hcons hdeq
  unfold clock
  generalize hm : (if s.sipofReq.length < sipoEls + 1 then 1 else 0) = moved
  generalize hy : (if ready ∧ sipoEls ≤ s.sipofReq.length then sipoEls else 0) = yumi
  have hyumi : yumi ≤ s.sipofReq.length ∧ yumi % 4 = 0 := by
    rw [← hy]
    split
    · next hp => exact ⟨hp.2, rfl⟩
    · exact ⟨Nat.zero_le _, rfl⟩
  obtain ⟨hle, hmod⟩ := hyumi
  have hfifo : (s.fifoReq.drop moved).length + (s.fifoReq.take moved).length =
      s.fifoReq.length := by
    rw [Nat.add_comm, ← List.length_append, List.take_append_drop]
  constructor
  · exact hnonneg
  · simp only [List.length_append, List.length_drop] at hfifo ⊢
    rw [sipoEls_eq]
    omega
  · simp only
    rw [sipoEls_eq]
    omega
  · have hsplit : s.dequeued ++ s.sipofReq.take yumi ++
        (s.sipofReq.drop yumi ++ s.fifoReq.take moved) ++
        (s.fifoReq.drop moved ++ (accepted credits s arrives).2) ++
        tdrWords (accepted credits s arrives).1 =
        s.dequeued ++ (s.sipofReq.take yumi ++ s.sipofReq.drop yumi) ++
        (s.fifoReq.take moved ++ s.fifoReq.drop moved) ++
        ((accepted credits s arrives).2 ++ tdrWords (accepted credits s arrives).1) := by
      simp only [List.append_assoc]
    rw [List.take_append_drop, List.take_append_drop, ← hwords] at hsplit
    simp only
    rw [hsplit]
    exact h.order
  · exact h.requested
  · simp only [List.length_append, List.length_take]
    rw [sipoEls_eq]
    omega

/-- A vacancy pays for the words of one packet. -/
theorem take_invariant (h : Invariant credits s) {type : FifoTx} {packet : Packet}
    (hpc : s.pc = .poll type packet) (hv : s.transmitVacancy ≠ 0) :
    Invariant credits { s with
      pc := .store type packet.words
      transmitVacancy := s.transmitVacancy - 1
      requested := s.requested ++ if isWriteToTdr (dataAddr type) then packet.words else [] } := by
  have hnonneg := h.nonneg
  have hspent := h.spent
  have hreq := h.requested
  have hlen := packet.length_eq
  have horder := h.order
  simp only [hpc, Pc.left, List.append_nil, List.length_nil] at hspent horder
  rw [sipoEls_eq] at hspent hreq
  constructor
  · simp only
    omega
  · exact h.conserved
  · simp only [Pc.left]
    rw [sipoEls_eq]
    split
    · omega
    · rw [List.length_nil]
      omega
  · simp only [Pc.left, ← horder, List.append_assoc]
  · simp only [List.length_append]
    rw [sipoEls_eq]
    split
    · omega
    · rw [List.length_nil]
      omega
  · exact h.dequeued

theorem store_invariant (h : Invariant credits s) {type : FifoTx} {w : UInt32}
    {words : List UInt32} (hpc : s.pc = .store type (w :: words)) :
    Invariant credits { s with
      pc := .store type words
      posted := s.posted ++ [(dataAddr type, w)] } := by
  have hspent := h.spent
  have horder := h.order
  simp only [hpc, Pc.left] at hspent horder
  have hone : tdrWords [(dataAddr type, w)] =
      if isWriteToTdr (dataAddr type) then [w] else [] := by
    cases htdr : isWriteToTdr (dataAddr type) <;> simp [tdrWords, htdr]
  have hleft : (if isWriteToTdr (dataAddr type) then w :: words else []) =
      tdrWords [(dataAddr type, w)] ++ if isWriteToTdr (dataAddr type) then words else [] := by
    rw [hone]
    split <;> rfl
  rw [hleft] at hspent horder
  rw [List.length_append] at hspent
  refine ⟨h.nonneg, h.conserved, ?_, ?_, h.requested, h.dequeued⟩
  · simp only [Pc.left, tdrWords_append, List.length_append]
    omega
  · simp only [Pc.left, tdrWords_append, ← List.append_assoc] at horder ⊢
    exact horder

theorem next_invariant (h : Invariant credits s) {e : Event} (hn : next credits s e = some t) :
    Invariant credits t := by
  cases step_of_next hn with
  | init hpc hposted => exact readVacancy_invariant h (by rw [hpc]; rfl) hposted
  | cleanup hpc =>
    have hnonneg := h.nonneg
    have hspent := h.spent
    rw [sipoEls_eq] at hspent
    refine ⟨le_rfl, h.conserved, ?_, h.order, h.requested, h.dequeued⟩
    simp only
    omega
  | refuse => exact h
  | transmit hpc =>
    have hspent := h.spent
    have horder := h.order
    simp only [hpc, Pc.left] at hspent horder
    exact ⟨h.nonneg, h.conserved, hspent, horder, h.requested, h.dequeued⟩
  | read hpc hv hposted => exact readVacancy_invariant h (by rw [hpc]; rfl) hposted
  | take hpc hv => exact take_invariant h hpc hv
  | back hpc =>
    have hspent := h.spent
    have horder := h.order
    simp only [hpc, Pc.left, ite_self] at hspent horder
    exact ⟨h.nonneg, h.conserved, hspent, horder, h.requested, h.dequeued⟩
  | store hpc => exact store_invariant h hpc
  | clock arrives ready => exact clock_invariant h arrives ready

theorem reachable_invariant (h : Transition.Reachable (system credits) s) :
    Invariant credits s := by
  refine h.invariant ?_ ?_
  · rintro _ rfl
    exact initial_invariant
  · rintro s e t hs hn
    exact next_invariant hs hn

theorem Pc.Between.left {pc : Pc} (h : pc.Between) : pc.left = [] := by
  cases pc with
  | idle => rfl
  | poll type packet => rfl
  | store type words => exact h.elim

end Proof

def queued (s : State) : ℕ := s.fifoReq.length + s.sipofReq.length

/-- What holds of the credits in every state. -/
structure Safe (credits : ℕ) (s : State) : Prop where
  cached : s.pc.Between → sipoEls * s.transmitVacancy ≤ s.hostCredits
  conserved : s.hostCredits + queued s = sipoEls * credits
  vacancy : s.pc.Between → s.posted = [] → ∀ v, ∃ n : ℕ,
    getTransmitVacancy .req (vacancyRegister s) v = (.ok (), (n : ℤ)) ∧
    (vacancyRegister s).toNat = sipoEls * n
  /-- A cycle that counts a word down finds the counter positive and the path not full. -/
  underflow : ∀ arrives, (accepted credits s arrives).2 ≠ [] →
    (accepted credits s arrives).2.length ≤ s.hostCredits ∧ queued s < sipoEls * credits
  /-- A word that the host stores has room, even behind all stores that did not arrive. -/
  room : ∀ type w words, s.pc = .store type (w :: words) → isWriteToTdr (dataAddr type) = true →
    queued s + (tdrWords s.posted).length < sipoEls * credits
  order : (s.dequeued ++ s.sipofReq ++ s.fifoReq ++ tdrWords s.posted).IsPrefix s.requested
  packets : s.dequeued.length % sipoEls = 0

theorem transmit_credits {credits : ℕ} {s : State}
    (h : Transition.Reachable (system credits) s) : Safe credits s := by
  have hinv := reachable_invariant h
  have hspent := hinv.spent
  have hnonneg := hinv.nonneg
  have hcons := hinv.conserved
  rw [sipoEls_eq] at hspent hcons
  constructor
  · intro hpc
    rw [sipoEls_eq]
    omega
  · exact hinv.conserved
  · intro hpc hposted v
    obtain ⟨n, hv, hreg, -⟩ := hinv.vacancy hpc.left hposted v
    exact ⟨n, hv, hreg⟩
  · intro arrives hne
    have hlen := congrArg List.length (accepted_words credits s arrives)
    have hpos := List.length_pos_of_ne_nil hne
    rw [List.length_append] at hlen
    unfold queued
    rw [sipoEls_eq]
    omega
  · intro type w words hpc htdr
    simp only [hpc, Pc.left, htdr, if_true, List.length_cons] at hspent
    unfold queued
    rw [sipoEls_eq]
    omega
  · exact ⟨s.pc.left, hinv.order⟩
  · exact hinv.dequeued

/-- Two packets with a vacancy of two: the second goes into the path while the first is there,
and a third one waits for the vacancy that the first gives back. -/
def threePackets : List Event :=
  let packet : Packet := ⟨[1, 2, 3, 4], rfl⟩
  let stores : List Event := [.take, .store, .store, .store, .store, .store]
  [.init, .transmit .req packet (-1)] ++ stores ++
    List.replicate 4 (.clock true false) ++ [.transmit .req packet (-1)] ++ stores ++
    List.replicate 5 (.clock true true) ++ [.transmit .req packet (-1), .read] ++ stores

theorem transmit_credits_two : ∃ s, s.transmitVacancy = 0 ∧ s.dequeued = [1, 2, 3, 4] ∧
    s.posted.length = 4 ∧ Safe 2 s := by
  have hrun : (Transition.run (next 2) (initial 2) threePackets).any (fun s =>
      s.transmitVacancy = 0 ∧ s.dequeued = [1, 2, 3, 4] ∧ s.posted.length = 4) = true := by
    decide
  obtain ⟨s, hs, hp⟩ := (Option.any_eq_true _ _).mp hrun
  obtain ⟨hv, hd, hl⟩ := of_decide_eq_true hp
  have hreach : Transition.Reachable ((system 2).restrict fun _ _ => True) s :=
    Transition.Reachable.run (.initial rfl) (fun _ _ _ => trivial) hs
  exact ⟨s, hv, hd, hl, transmit_credits hreach.of_restrict⟩

end TransmitCredits
