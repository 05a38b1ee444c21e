import ManycoreRuntime.Transition
import ManycoreRuntime.TransmitCredits
import Mathlib.Data.List.Forall2

/-! # AXI-Lite bridge

The bridge decodes the addresses of the host's accesses. It answers a read in the cycle in which it
accepts the address and holds the answer until the host takes it. A write it accepts when it sees
the address and the data together. -/
namespace LinkToAxil

def mclFifoBaseAddr : UInt32 := 0x1000
def mclOfsTdfvReq : UInt32 := 0x00
def mclOfsTdr : UInt32 := 0x04
def mclOfsRdrRsp : UInt32 := 0x0C
def mclOfsRdrReq : UInt32 := 0x1C
def mclOfsRdfoReq : UInt32 := 0x18
def mclOfsCounterLow : UInt32 := 0x1FF0
def mclOfsCounterHigh : UInt32 := 0x1FF4
def mclOfsCredits : UInt32 := 0x2000

inductive Reg where
  | credits
  | rdrRsp
  | tdfvHostReq
  | rdfoMcReq
  | rdrReq
  | rom
  | counterLow
  | counterHigh
  | undefined
  deriving DecidableEq, Repr

def isRead (romBytes : ℕ) (araddr : UInt32) : Reg :=
  if araddr = mclOfsCredits then .credits
  else if araddr = mclFifoBaseAddr + mclOfsRdrRsp then .rdrRsp
  else if araddr = mclFifoBaseAddr + mclOfsTdfvReq then .tdfvHostReq
  else if araddr = mclFifoBaseAddr + mclOfsRdfoReq then .rdfoMcReq
  else if araddr = mclFifoBaseAddr + mclOfsRdrReq then .rdrReq
  else if araddr.toNat < romBytes then .rom
  else if araddr = mclOfsCounterLow then .counterLow
  else if araddr = mclOfsCounterHigh then .counterHigh
  else .undefined

/-- What the data paths show to the read channel in one cycle. -/
structure Paths where
  epOutCredits : UInt32
  txRv : Bool
  txRdata : UInt32
  hostCredits : UInt32
  mcReqWords : UInt32
  rxRv : Bool
  rxRdata : UInt32
  rom : UInt32 → UInt32
  cycleCtr : UInt64

/-- An address is accepted at once, but for a queue that has no word. -/
def Paths.arready (p : Paths) : Reg → Bool
  | .rdrRsp => p.txRv
  | .rdrReq => p.rxRv
  | _ => true

def Paths.rdata (p : Paths) (araddr : UInt32) : Reg → UInt32
  | .credits => p.epOutCredits
  | .rdrRsp => p.txRdata
  | .tdfvHostReq => p.hostCredits
  | .rdfoMcReq => p.mcReqWords
  | .rdrReq => p.rxRdata
  | .rom => p.rom araddr
  | .counterLow => p.cycleCtr.toUInt32
  | .counterHigh => (p.cycleCtr >>> 32).toUInt32
  | .undefined => 0xdeadbeef

structure ReadInputs where
  arvalid : Bool
  araddr : UInt32
  rready : Bool
  paths : Paths

/-- The registers of the channel, and what passed through it: the accepted reads, address and
answer, the words that left each queue, the answers that the master took and those that were
replaced before. -/
structure ReadChannel where
  rdata : UInt32
  rvalid : Bool
  accepted : List (UInt32 × UInt32)
  txPopped : List UInt32
  rxPopped : List UInt32
  delivered : List UInt32
  replaced : List UInt32

def ReadChannel.reset : ReadChannel := ⟨0, false, [], [], [], [], []⟩

section Read

variable (romBytes : ℕ) (c : ReadChannel) (i : ReadInputs)

def arready : Bool := i.arvalid && i.paths.arready (isRead romBytes i.araddr)

def txRready : Bool := i.arvalid && isRead romBytes i.araddr == .rdrRsp

def rxRready : Bool := i.arvalid && isRead romBytes i.araddr == .rdrReq

def rdataN : UInt32 :=
  if i.arvalid then i.paths.rdata i.araddr (isRead romBytes i.araddr) else c.rdata

def rvalidN : Bool := if i.arvalid then arready romBytes i && i.arvalid else c.rvalid

/-- One cycle: the answer is held unless the master takes it in the cycle. -/
def readCycle : ReadChannel where
  rdata := if i.rready && rvalidN romBytes c i then 0 else rdataN romBytes c i
  rvalid := if i.rready && rvalidN romBytes c i then false else rvalidN romBytes c i
  accepted := c.accepted ++
    if arready romBytes i && i.arvalid then [(i.araddr, rdataN romBytes c i)] else []
  txPopped := c.txPopped ++ if txRready romBytes i && i.paths.txRv then [i.paths.txRdata] else []
  rxPopped := c.rxPopped ++ if rxRready romBytes i && i.paths.rxRv then [i.paths.rxRdata] else []
  delivered := c.delivered ++
    if i.rready && rvalidN romBytes c i then [rdataN romBytes c i] else []
  replaced := c.replaced ++ if i.arvalid && c.rvalid then [c.rdata] else []

end Read

def readSystem (romBytes : ℕ) : Transition.System ReadChannel ReadInputs :=
  .ofNext (· = ReadChannel.reset) fun c i => some (readCycle romBytes c i)

def ReadChannel.held (c : ReadChannel) : List UInt32 := if c.rvalid then [c.rdata] else []

def ReadChannel.answers (romBytes : ℕ) (c : ReadChannel) (r : Reg) : List UInt32 :=
  (c.accepted.filter fun a => isRead romBytes a.1 == r).map Prod.snd

structure ReadInvariant (romBytes : ℕ) (c : ReadChannel) : Prop where
  tx : c.txPopped = c.answers romBytes .rdrRsp
  rx : c.rxPopped = c.answers romBytes .rdrReq
  count : c.accepted.length = c.delivered.length + c.held.length + c.replaced.length
  order : c.replaced = [] → c.accepted.map Prod.snd = c.delivered ++ c.held

section ReadProof

variable {romBytes : ℕ} {c : ReadChannel} {i : ReadInputs}

theorem reset_invariant : ReadInvariant romBytes .reset where
  tx := rfl
  rx := rfl
  count := rfl
  order := by
    intro _
    rfl

/-- A queue gives up a word in the cycles in which a read of its register is accepted. -/
theorem answers_readCycle (r : Reg) : (readCycle romBytes c i).answers romBytes r =
    c.answers romBytes r ++ if i.arvalid && (isRead romBytes i.araddr == r) && i.paths.arready r
      then [i.paths.rdata i.araddr r] else [] := by
  unfold ReadChannel.answers readCycle
  rw [List.filter_append, List.map_append]
  congr 1
  cases harv : i.arvalid with
  | false => simp only [arready, harv, Bool.false_and, Bool.false_eq_true, if_false,
      List.filter_nil, List.map_nil]
  | true =>
    by_cases hr : isRead romBytes i.araddr = r
    · cases hready : i.paths.arready r <;>
        simp [arready, rdataN, harv, hr, hready]
    · have hbeq : (isRead romBytes i.araddr == r) = false := beq_eq_false_iff_ne.mpr hr
      cases hready : i.paths.arready (isRead romBytes i.araddr) <;>
        simp [arready, harv, hbeq, hready]

theorem readCycle_invariant (h : ReadInvariant romBytes c) :
    ReadInvariant romBytes (readCycle romBytes c i) := by
  obtain ⟨htx, hrx, hcount, horder⟩ := h
  constructor
  · rw [answers_readCycle, ← htx]
    rfl
  · rw [answers_readCycle, ← hrx]
    rfl
  · unfold ReadChannel.held at hcount ⊢
    cases harv : i.arvalid <;> cases hready : i.paths.arready (isRead romBytes i.araddr) <;>
      cases hr : i.rready <;> cases hv : c.rvalid <;>
      simp [readCycle, rvalidN, arready, harv, hready, hr, hv] at hcount ⊢ <;> omega
  · intro hreplaced
    have hsplit : c.replaced = [] ∧ (i.arvalid && c.rvalid) = false := by
      obtain ⟨hold, hnew⟩ := List.append_eq_nil_iff.mp hreplaced
      refine ⟨hold, ?_⟩
      cases hb : i.arvalid && c.rvalid with
      | false => rfl
      | true =>
        rw [hb] at hnew
        cases hnew
    obtain ⟨hold, hquiet⟩ := hsplit
    have hbefore := horder hold
    unfold ReadChannel.held at hbefore ⊢
    cases harv : i.arvalid with
    | false =>
      cases hr : i.rready <;> cases hv : c.rvalid <;>
        simp_all [readCycle, rvalidN, rdataN, arready]
    | true =>
      rw [harv, Bool.true_and] at hquiet
      cases hready : i.paths.arready (isRead romBytes i.araddr) <;> cases hr : i.rready <;>
        simp_all [readCycle, rvalidN, rdataN, arready]

theorem read_reachable_invariant (h : Transition.Reachable (readSystem romBytes) c) :
    ReadInvariant romBytes c := by
  apply h.invariant
  · rintro _ rfl
    exact reset_invariant
  · intro c i d hc hn
    cases hn
    exact readCycle_invariant hc

/-- Nothing is lost exactly as long as no address is presented while an answer is held. -/
theorem read_order_iff (h : Transition.Reachable (readSystem romBytes) c) :
    c.accepted.map Prod.snd = c.delivered ++ c.held ↔ c.replaced = [] := by
  have hc := read_reachable_invariant h
  constructor
  · intro heq
    have hlen := congrArg List.length heq
    have hcount := hc.count
    rw [List.length_map, List.length_append] at hlen
    apply List.eq_nil_of_length_eq_zero
    omega
  · exact hc.order

end ReadProof

/-- A master with one read open at a time, which holds its address until it is accepted. -/
inductive Master where
  | idle
  | address (araddr : UInt32)
  | data (araddr : UInt32)
  deriving DecidableEq, Repr

structure HostReads where
  channel : ReadChannel
  master : Master
  /-- The addresses of the reads that were begun, the reads that ended, and what the data paths
  showed in each cycle. -/
  begun : List UInt32
  ended : List (UInt32 × UInt32)
  shown : List Paths

inductive ReadEvent where
  | read (araddr : UInt32)
  | cycle (rready : Bool) (paths : Paths)

def Master.inputs (m : Master) (rready : Bool) (paths : Paths) : ReadInputs :=
  match m with
  | .address araddr => ⟨true, araddr, rready, paths⟩
  | _ => ⟨false, 0, rready, paths⟩

def Master.after (m : Master) (accepted taken : Bool) : Master :=
  match m with
  | .idle => .idle
  | .address araddr => if accepted then if taken then .idle else .data araddr else .address araddr
  | .data araddr => if taken then .idle else .data araddr

def Master.araddr : Master → UInt32
  | .idle => 0
  | .address araddr => araddr
  | .data araddr => araddr

def hostReadCycle (romBytes : ℕ) (s : HostReads) (rready : Bool) (paths : Paths) : HostReads :=
  let i := s.master.inputs rready paths
  let taken := rready && rvalidN romBytes s.channel i
  { s with
    channel := readCycle romBytes s.channel i
    master := s.master.after (arready romBytes i && i.arvalid) taken
    ended := s.ended ++
      if taken then [(s.master.araddr, rdataN romBytes s.channel i)] else []
    shown := s.shown ++ [paths] }

def hostReadNext (romBytes : ℕ) (s : HostReads) : ReadEvent → Option HostReads
  | .read araddr =>
    match s.master with
    | .idle => some { s with master := .address araddr, begun := s.begun ++ [araddr] }
    | _ => none
  | .cycle rready paths => some (hostReadCycle romBytes s rready paths)

def hostReadSystem (romBytes : ℕ) : Transition.System HostReads ReadEvent :=
  .ofNext (· = ⟨.reset, .idle, [], [], []⟩) (hostReadNext romBytes)

def HostReads.waiting (s : HostReads) : List (UInt32 × UInt32) :=
  match s.master with
  | .data araddr => [(araddr, s.channel.rdata)]
  | _ => []

def HostReads.presented (s : HostReads) : List UInt32 :=
  match s.master with
  | .address araddr => [araddr]
  | _ => []

def Answers (romBytes : ℕ) (paths : Paths) (read : UInt32 × UInt32) : Prop :=
  paths.arready (isRead romBytes read.1) = true ∧
    read.2 = paths.rdata read.1 (isRead romBytes read.1)

structure HostReadInvariant (romBytes : ℕ) (s : HostReads) : Prop where
  channel : Transition.Reachable (readSystem romBytes) s.channel
  rvalid : s.channel.rvalid = true ↔ ∃ araddr, s.master = .data araddr
  replaced : s.channel.replaced = []
  accepted : s.channel.accepted = s.ended ++ s.waiting
  begun : s.begun = (s.ended ++ s.waiting).map Prod.fst ++ s.presented
  answers : ∃ cycles, cycles.Sublist s.shown ∧
    List.Forall₂ (Answers romBytes) cycles s.channel.accepted

section HostReadProof

variable {romBytes : ℕ} {s t : HostReads}

theorem answers_readCycle_host (rready : Bool) (paths : Paths)
    (h : ∃ cycles, cycles.Sublist s.shown ∧
      List.Forall₂ (Answers romBytes) cycles s.channel.accepted) :
    ∃ cycles, cycles.Sublist (hostReadCycle romBytes s rready paths).shown ∧
      List.Forall₂ (Answers romBytes) cycles
        (hostReadCycle romBytes s rready paths).channel.accepted := by
  obtain ⟨cycles, hsub, hall⟩ := h
  simp only [hostReadCycle, readCycle]
  by_cases haccept : (arready romBytes (s.master.inputs rready paths) &&
      (s.master.inputs rready paths).arvalid) = true
  · refine ⟨cycles ++ [paths], hsub.append (List.Sublist.refl _), ?_⟩
    rw [if_pos haccept]
    apply List.rel_append hall (List.Forall₂.cons _ .nil)
    cases hm : s.master with
    | idle => simp [hm, Master.inputs] at haccept
    | data araddr => simp [hm, Master.inputs] at haccept
    | address araddr =>
      simp only [hm, Master.inputs, arready, Bool.true_and, Bool.and_true] at haccept
      exact ⟨haccept, rfl⟩
  · refine ⟨cycles, hsub.trans (List.sublist_append_left _ _), ?_⟩
    rw [if_neg haccept, List.append_nil]
    exact hall

theorem hostReadCycle_invariant (h : HostReadInvariant romBytes s) (rready : Bool)
    (paths : Paths) : HostReadInvariant romBytes (hostReadCycle romBytes s rready paths) := by
  obtain ⟨hchannel, hrvalid, hreplaced, haccepted, hbegun, hanswers⟩ := h
  have hnext := hchannel.next (s.master.inputs rready paths) rfl
  have hcycle := answers_readCycle_host rready paths hanswers
  cases hm : s.master with
  | idle =>
    have hv : s.channel.rvalid = false := by
      cases hv : s.channel.rvalid with
      | false => rfl
      | true =>
        obtain ⟨araddr, ha⟩ := hrvalid.mp hv
        rw [hm] at ha
        cases ha
    refine ⟨hnext, ?_, ?_, ?_, ?_, hcycle⟩ <;>
      simp_all [hostReadCycle, Master.inputs, Master.after, readCycle, rvalidN, rdataN, arready,
        HostReads.waiting, HostReads.presented]
  | address araddr =>
    have hv : s.channel.rvalid = false := by
      cases hv : s.channel.rvalid with
      | false => rfl
      | true =>
        obtain ⟨araddr', ha⟩ := hrvalid.mp hv
        rw [hm] at ha
        cases ha
    refine ⟨hnext, ?_, ?_, ?_, ?_, hcycle⟩ <;>
      cases hready : paths.arready (isRead romBytes araddr) <;> cases hr : rready <;>
      simp_all [hostReadCycle, Master.inputs, Master.after, Master.araddr, readCycle, rvalidN,
        rdataN, arready, HostReads.waiting, HostReads.presented]
  | data araddr =>
    have hv : s.channel.rvalid = true := hrvalid.mpr ⟨araddr, hm⟩
    refine ⟨hnext, ?_, ?_, ?_, ?_, hcycle⟩ <;> cases hr : rready <;>
      simp_all [hostReadCycle, Master.inputs, Master.after, Master.araddr, readCycle, rvalidN,
        rdataN, arready, HostReads.waiting, HostReads.presented]

theorem hostRead_invariant (h : Transition.Reachable (hostReadSystem romBytes) s) :
    HostReadInvariant romBytes s := by
  apply h.invariant
  · rintro _ rfl
    refine ⟨.initial rfl, ?_, rfl, rfl, rfl, [], List.Sublist.refl _, .nil⟩
    constructor
    · intro hv
      cases hv
    · rintro ⟨araddr, ha⟩
      cases ha
  · intro s e t hs hn
    cases e with
    | read araddr =>
      simp only [hostReadSystem, Transition.System.ofNext, hostReadNext] at hn
      split at hn
      · next hm =>
        cases hn
        obtain ⟨hchannel, hrvalid, hreplaced, haccepted, hbegun, hanswers⟩ := hs
        simp only [HostReads.waiting, HostReads.presented, hm, List.append_nil] at *
        refine ⟨hchannel, ?_, hreplaced, ?_, ?_, hanswers⟩
        · rw [hrvalid]
          constructor <;> rintro ⟨araddr', ha⟩ <;> cases ha
        · rw [haccepted]
          exact (List.append_nil _).symm
        · rw [hbegun]
          simp only [HostReads.waiting, HostReads.presented, List.append_nil]
      · cases hn
    | cycle rready paths =>
      cases hn
      exact hostReadCycle_invariant hs rready paths

def answersOf (romBytes : ℕ) (r : Reg) (reads : List (UInt32 × UInt32)) : List UInt32 :=
  (reads.filter fun a => isRead romBytes a.1 == r).map Prod.snd

/-- What the host gets from its reads. -/
structure ReadsExact (romBytes : ℕ) (s : HostReads) : Prop where
  /-- The reads end in their order, and one of them at most has not ended. -/
  order : s.begun = (s.ended ++ s.waiting).map Prod.fst ++ s.presented
  single : s.waiting.length + s.presented.length ≤ 1
  /-- Each is answered from a cycle of its own. -/
  answers : ∃ cycles, cycles.Sublist s.shown ∧
    List.Forall₂ (Answers romBytes) cycles (s.ended ++ s.waiting)
  /-- A word leaves a queue as the answer of one read, and no answer is replaced. -/
  tx : s.channel.txPopped = answersOf romBytes .rdrRsp (s.ended ++ s.waiting)
  rx : s.channel.rxPopped = answersOf romBytes .rdrReq (s.ended ++ s.waiting)
  kept : s.channel.replaced = []

/-- For a master with one read open at a time nothing is lost or answered twice; `read_order_iff`
says that any other master must not present an address while an answer is held. -/
theorem reads_exact (h : Transition.Reachable (hostReadSystem romBytes) s) :
    ReadsExact romBytes s := by
  have hs := hostRead_invariant h
  have hc := read_reachable_invariant hs.channel
  constructor
  · exact hs.begun
  · unfold HostReads.waiting HostReads.presented
    cases s.master with
    | idle => exact Nat.zero_le _
    | address araddr => exact le_rfl
    | data araddr => exact le_rfl
  · rw [← hs.accepted]
    exact hs.answers
  · rw [answersOf, ← hs.accepted]
    exact hc.tx
  · rw [answersOf, ← hs.accepted]
    exact hc.rx
  · exact hs.replaced

end HostReadProof

def oneRead : List ReadEvent :=
  let paths (rxRv : Bool) : Paths := ⟨32, false, 0, 128, 4, rxRv, 7, fun _ => 0, 0⟩
  [.read 0x101C, .cycle true (paths false), .cycle false (paths true), .cycle false (paths false),
    .cycle true (paths true)]

theorem reads_exact_oneRead : ∃ s, s.ended = [(0x101C, 7)] ∧ s.channel.rxPopped = [7] ∧
    ReadsExact 64 s := by
  have hrun : (Transition.run (hostReadNext 64) ⟨.reset, .idle, [], [], []⟩ oneRead).any (fun s =>
      s.ended = [(0x101C, 7)] ∧ s.channel.rxPopped = [7]) = true := by
    decide +kernel
  obtain ⟨s, hs, hp⟩ := (Option.any_eq_true _ _).mp hrun
  obtain ⟨hended, hpopped⟩ := of_decide_eq_true hp
  exact ⟨s, hended, hpopped, reads_exact (Transition.Reachable.events (.initial rfl) hs)⟩

structure WriteInputs where
  awvalid : Bool
  awaddr : UInt32
  wvalid : Bool
  wdata : UInt32
  bready : Bool
  txWready : Bool

/-- The register of the channel, and what passed through it: the writes whose address and data
were accepted together, the data accepted without an address, the words that the request path took,
the responses that the master took and those that it never saw. -/
structure WriteChannel where
  bvalid : Bool
  accepted : List (UInt32 × UInt32)
  stray : List UInt32
  taken : List UInt32
  responses : ℕ
  missed : ℕ

def WriteChannel.reset : WriteChannel := ⟨false, [], [], [], 0, 0⟩

section Write

variable (c : WriteChannel) (i : WriteInputs)

def isWriteToTdr : Bool := i.awaddr == mclFifoBaseAddr + mclOfsTdr

def wready : Bool :=
  if i.awvalid && i.wvalid then if isWriteToTdr i then i.txWready else true else true

def awready : Bool := if i.awvalid && i.wvalid then wready i else false

def txWen : Bool := if i.awvalid && i.wvalid then isWriteToTdr i else false

def bvalidN : Bool := if i.bready && c.bvalid then false else wready i && i.wvalid

/-- One cycle. A response that the master does not take is withdrawn, and there is none to data
that comes in the cycle in which it takes one. -/
def writeCycle : WriteChannel where
  bvalid := bvalidN c i
  accepted := c.accepted ++ if awready i && i.awvalid then [(i.awaddr, i.wdata)] else []
  stray := c.stray ++ if wready i && i.wvalid && !i.awvalid then [i.wdata] else []
  taken := c.taken ++ if txWen i && i.txWready then [i.wdata] else []
  responses := c.responses + (i.bready && c.bvalid).toNat
  missed := c.missed + (c.bvalid && (!i.bready || (wready i && i.wvalid))).toNat

end Write

def tdrData (writes : List (UInt32 × UInt32)) : List UInt32 :=
  (writes.filter fun w => w.1 == mclFifoBaseAddr + mclOfsTdr).map Prod.snd

structure WriteInvariant (c : WriteChannel) : Prop where
  taken : c.taken = tdrData c.accepted
  count : c.accepted.length + c.stray.length = c.responses + c.bvalid.toNat + c.missed

theorem writeCycle_invariant {c : WriteChannel} (i : WriteInputs) (h : WriteInvariant c) :
    WriteInvariant (writeCycle c i) := by
  obtain ⟨htaken, hcount⟩ := h
  constructor
  · simp only [writeCycle, tdrData, List.filter_append, List.map_append]
    rw [htaken, tdrData]
    congr 1
    cases haw : i.awvalid <;> cases hw : i.wvalid <;> cases htx : i.txWready <;>
      cases htdr : (i.awaddr == mclFifoBaseAddr + mclOfsTdr) <;>
      simp_all [awready, wready, txWen, isWriteToTdr]
  · cases haw : i.awvalid <;> cases hw : i.wvalid <;> cases htx : i.txWready <;>
      cases htdr : isWriteToTdr i <;> cases hb : i.bready <;> cases hbv : c.bvalid <;>
      simp [writeCycle, bvalidN, awready, wready, haw, hw, htx, htdr, hb, hbv] at hcount ⊢ <;>
      omega

/-- The host's writes. The address and the data of a write are raised when the master likes, and
each is held until it is accepted. -/
structure HostWrites where
  channel : WriteChannel
  aw : Option UInt32
  awUp : Bool
  w : Option UInt32
  wUp : Bool
  begun : List (UInt32 × UInt32)

inductive WriteEvent where
  | write (addr data : UInt32)
  | cycle (raiseAw raiseW bready txWready : Bool)

namespace HostWrites

def awvalid (s : HostWrites) (raiseAw : Bool) : Bool := s.aw.isSome && (s.awUp || raiseAw)

def wvalid (s : HostWrites) (raiseW : Bool) : Bool := s.w.isSome && (s.wUp || raiseW)

def inputs (s : HostWrites) (raiseAw raiseW bready txWready : Bool) : WriteInputs :=
  ⟨s.awvalid raiseAw, s.aw.getD 0, s.wvalid raiseW, s.w.getD 0, bready, txWready⟩

def presented (s : HostWrites) : List (UInt32 × UInt32) :=
  match s.aw, s.w with
  | some addr, some data => [(addr, data)]
  | _, _ => []

end HostWrites

def hostWriteCycle (s : HostWrites) (raiseAw raiseW bready txWready : Bool) : HostWrites :=
  let i := s.inputs raiseAw raiseW bready txWready
  { s with
    channel := writeCycle s.channel i
    aw := if awready i && i.awvalid then none else s.aw
    awUp := if awready i && i.awvalid then false else i.awvalid
    w := if wready i && i.wvalid then none else s.w
    wUp := if wready i && i.wvalid then false else i.wvalid }

def hostWriteNext (s : HostWrites) : WriteEvent → Option HostWrites
  | .write addr data =>
    if s.aw.isSome || s.w.isSome then none
    else some { s with
      aw := some addr, awUp := false, w := some data, wUp := false
      begun := s.begun ++ [(addr, data)] }
  | .cycle raiseAw raiseW bready txWready =>
    some (hostWriteCycle s raiseAw raiseW bready txWready)

def hostWriteSystem : Transition.System HostWrites WriteEvent :=
  .ofNext (· = ⟨.reset, none, false, none, false, []⟩) hostWriteNext

/-- The master has one write on its way at a time: it begins the next when the last is answered. It
presents no data before their address, and always takes a response. -/
def OneWrite (s : HostWrites) : WriteEvent → Prop
  | .write _ _ => s.begun.length = s.channel.responses
  | .cycle raiseAw raiseW bready _ =>
    (s.wvalid raiseW = true → s.awvalid raiseAw = true) ∧ bready = true

instance (s : HostWrites) : (e : WriteEvent) → Decidable (OneWrite s e)
  | .write _ _ => inferInstanceAs (Decidable (_ = _))
  | .cycle _ _ _ _ => inferInstanceAs (Decidable (_ ∧ _))

structure HostWriteInvariant (s : HostWrites) : Prop where
  channel : WriteInvariant s.channel
  together : s.aw.isSome = s.w.isSome
  down : s.aw = none → s.awUp = false ∧ s.wUp = false
  free : s.aw.isSome = true → s.channel.bvalid = false
  stray : s.channel.stray = []
  missed : s.channel.missed = 0
  begun : s.begun = s.channel.accepted ++ s.presented

section HostWriteProof

variable {s t : HostWrites}

theorem HostWriteInvariant.data (h : HostWriteInvariant s) {addr : UInt32}
    (haw : s.aw = some addr) : ∃ data, s.w = some data := by
  apply Option.isSome_iff_exists.mp
  rw [← h.together, haw]
  rfl

theorem HostWriteInvariant.answered (h : HostWriteInvariant s) :
    s.begun.length = s.channel.responses + (s.aw.isSome || s.channel.bvalid).toNat := by
  have hcount := h.channel.count
  rw [h.stray, h.missed, List.length_nil] at hcount
  rw [h.begun, List.length_append]
  cases haw : s.aw with
  | none =>
    simp only [HostWrites.presented, haw, List.length_nil, Option.isSome_none, Bool.false_or]
    omega
  | some addr =>
    obtain ⟨data, hw⟩ := h.data haw
    have hfree := h.free (by rw [haw]; rfl)
    rw [hfree, Bool.toNat_false] at hcount
    simp only [HostWrites.presented, haw, hw, List.length_singleton, Option.isSome_some,
      Bool.true_or, Bool.toNat_true]
    omega

theorem hostWriteCycle_invariant (h : HostWriteInvariant s)
    {raiseAw raiseW bready txWready : Bool}
    (hone : OneWrite s (.cycle raiseAw raiseW bready txWready)) :
    HostWriteInvariant (hostWriteCycle s raiseAw raiseW bready txWready) := by
  have hdata := @h.data
  obtain ⟨hchannel, htogether, hdown, hfree, hstray, hmissed, hbegun⟩ := h
  obtain ⟨hfirst, rfl⟩ := hone
  have hnext := writeCycle_invariant (s.inputs raiseAw raiseW true txWready) hchannel
  refine ⟨hnext, ?_, ?_, ?_, ?_, ?_, ?_⟩ <;>
    cases haw : s.aw with
    | none =>
      have hw : s.w = none := by simpa [haw] using htogether.symm
      cases hbv : s.channel.bvalid <;>
        simp_all [hostWriteCycle, writeCycle, HostWrites.inputs, HostWrites.awvalid,
          HostWrites.wvalid, HostWrites.presented, bvalidN, awready, wready]
    | some addr =>
      obtain ⟨data, hw⟩ := hdata haw
      have hb : s.channel.bvalid = false := hfree (by rw [haw]; rfl)
      cases hav : s.awvalid raiseAw <;> cases hwv : s.wvalid raiseW <;>
        cases htx : (isWriteToTdr ⟨true, addr, true, data, true, txWready⟩ && !txWready) <;>
        simp_all [hostWriteCycle, writeCycle, HostWrites.inputs,
          HostWrites.presented, bvalidN, awready, wready, isWriteToTdr]

theorem hostWrite_invariant
    (h : Transition.Reachable (hostWriteSystem.restrict OneWrite) s) :
    HostWriteInvariant s := by
  apply h.invariant
  · rintro _ rfl
    refine ⟨⟨rfl, rfl⟩, rfl, ?_, ?_, rfl, rfl, rfl⟩
    · intro _
      exact ⟨rfl, rfl⟩
    · intro haw
      cases haw
  · rintro s e t hs ⟨hone, hn⟩
    cases e with
    | write addr data =>
      have hanswered := hs.answered
      simp only [hostWriteSystem, Transition.System.ofNext, hostWriteNext] at hn
      split at hn
      · cases hn
      · next hidle =>
        cases hn
        obtain ⟨hchannel, htogether, -, -, hstray, hmissed, hbegun⟩ := hs
        have haw : s.aw = none := by
          cases haw : s.aw with
          | none => rfl
          | some a => simp [haw] at hidle
        have hbv : s.channel.bvalid = false := by
          rw [haw, Option.isSome_none, Bool.false_or] at hanswered
          cases hbv : s.channel.bvalid with
          | false => rfl
          | true =>
            rw [hbv, Bool.toNat_true, hone] at hanswered
            omega
        have hnone : s.presented = [] := by
          rw [HostWrites.presented, haw]
        refine ⟨hchannel, rfl, ?_, ?_, hstray, hmissed, ?_⟩
        · intro hne
          cases hne
        · intro _
          exact hbv
        · simp only [hbegun, hnone, List.append_nil]
          rfl
    | cycle raiseAw raiseW bready txWready =>
      cases hn
      exact hostWriteCycle_invariant hs hone

/-- What becomes of the host's writes. -/
structure WritesExact (s : HostWrites) : Prop where
  order : s.begun = s.channel.accepted ++ s.presented
  taken : s.channel.taken = tdrData s.channel.accepted
  stray : s.channel.stray = []
  missed : s.channel.missed = 0
  /-- Each write but the last is answered, and none twice. -/
  answered : s.channel.responses ≤ s.begun.length ∧ s.begun.length ≤ s.channel.responses + 1
  /-- The last one has its response once it is accepted. -/
  response : s.channel.responses < s.begun.length → s.presented = [] → s.channel.bvalid = true

theorem writes_exact (h : Transition.Reachable (hostWriteSystem.restrict OneWrite) s) :
    WritesExact s := by
  have hs := hostWrite_invariant h
  have hanswered := hs.answered
  have hone := Bool.toNat_le (s.aw.isSome || s.channel.bvalid)
  refine ⟨hs.begun, hs.channel.taken, hs.stray, hs.missed, ⟨by omega, by omega⟩, ?_⟩
  intro hlt hnone
  cases haw : s.aw with
  | none =>
    rw [haw, Option.isSome_none, Bool.false_or] at hanswered
    cases hbv : s.channel.bvalid with
    | true => rfl
    | false =>
      rw [hbv, Bool.toNat_false] at hanswered
      omega
  | some addr =>
    obtain ⟨data, hw⟩ := hs.data haw
    simp [HostWrites.presented, haw, hw] at hnone

end HostWriteProof

def oneWrite : List WriteEvent :=
  [.write 0x1004 9, .cycle true false true false, .cycle true true true false,
    .cycle true true true true]

theorem writes_exact_oneWrite : ∃ s, s.channel.taken = [9] ∧ s.begun = [(0x1004, 9)] ∧
    s.presented = [] ∧ WritesExact s := by
  have hrun : (Transition.run
      (Transition.checked (fun s e => decide (OneWrite s e)) hostWriteNext)
      ⟨.reset, none, false, none, false, []⟩ oneWrite).any (fun s =>
      s.channel.taken = [9] ∧ s.begun = [(0x1004, 9)] ∧ s.presented = []) = true := by
    decide +kernel
  obtain ⟨s, hs, hp⟩ := (Option.any_eq_true _ _).mp hrun
  obtain ⟨htaken, hbegun, hnone⟩ := of_decide_eq_true hp
  exact ⟨s, htaken, hbegun, hnone, writes_exact (Transition.Reachable.run_checked (.initial rfl)
    (fun _ _ _ hc => of_decide_eq_true hc) hs)⟩

/-- A write that is accepted in the cycle in which the response of the one before it is taken has no
response. -/
example : (Transition.run hostWriteNext ⟨.reset, none, false, none, false, []⟩
    [.write 0x1004 9, .cycle true true true true, .write 0x1004 8, .cycle true true true true]).any
    (fun s => s.channel.accepted.length = 2 ∧ s.channel.responses = 1 ∧
      s.channel.bvalid = false ∧ s.channel.missed = 1) = true := by
  decide +kernel

end LinkToAxil
