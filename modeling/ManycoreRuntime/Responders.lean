import ManycoreRuntime.Packets
import Mathlib.Data.List.Perm.Basic
import Mathlib.Logic.Function.Basic

/-! # Responders

Every request that the host receives is shown to the responders that are registered. The three
that come with the runtime print what tiles write to some addresses of the host. -/
namespace Responders

open Coordinate (Coord Errno)
open Packets

structure RequestPacketId where
  init : ℤ
  aValue : UInt32
  aMask : UInt32
  xLo : UInt32
  xHi : UInt32
  yLo : UInt32
  yHi : UInt32
  deriving DecidableEq, Repr

def getEpa (pkt : RequestPacket) : UInt32 := pkt.addr <<< 2

def xIsMatch (pkt : RequestPacket) (pktid : RequestPacketId) : Bool :=
  pktid.xLo ≤ pkt.xSrc.toUInt32 && pkt.xSrc.toUInt32 ≤ pktid.xHi

def yIsMatch (pkt : RequestPacket) (pktid : RequestPacketId) : Bool :=
  pktid.yLo ≤ pkt.ySrc.toUInt32 && pkt.ySrc.toUInt32 ≤ pktid.yHi

def addrIsMatch (pkt : RequestPacket) (pktid : RequestPacketId) : Bool :=
  pktid.aMask &&& getEpa pkt == pktid.aValue

def requestPacketIsMatch (pkt : RequestPacket) (pktid : RequestPacketId) : Bool :=
  xIsMatch pkt pktid && yIsMatch pkt pktid && addrIsMatch pkt pktid

def rqstId (addr : UInt32) : RequestPacketId := ⟨1, addr, 0xffffffff, 0, 0xffffffff, 0, 0xffffffff⟩

def sentinel : RequestPacketId := ⟨0, 0, 0, 0, 0, 0, 0⟩

def anyMatch (rqst : RequestPacket) : List RequestPacketId → Except Errno Bool
  | [] => .error .undefined
  | id :: rest =>
    if id.init = 0 then .ok false
    else if requestPacketIsMatch rqst id then .ok true
    else anyMatch rqst rest

/-- The functions get the responder's data, and may set it; `Out` is what a response prints. -/
structure Responder (Data Out : Type) where
  name : String
  ids : Option (List RequestPacketId)
  init : Option (Option Data → Except Errno Unit × Option Data)
  quit : Option (Option Data → Except Errno Unit × Option Data)
  respond : Option (Option Data → RequestPacket → Except Errno Unit × Option Data × List Out)

/-- The list of responders is made when the first one is added. Responders are named by their
addresses, at which their data is. -/
structure State (Ptr Data Out : Type) where
  responders : Option (List Ptr)
  data : Ptr → Option Data
  output : List Out

section Registry

variable {Ptr Data Out : Type} [DecidableEq Ptr] (at_ : Ptr → Responder Data Out)

def responderInit (p : Ptr) (s : State Ptr Data Out) : Except Errno Unit × State Ptr Data Out :=
  match (at_ p).init with
  | none => (.error .invalid, s)
  | some init =>
    let (r, data) := init (s.data p)
    (r, { s with data := Function.update s.data p data })

def responderQuit (p : Ptr) (s : State Ptr Data Out) : Except Errno Unit × State Ptr Data Out :=
  match (at_ p).quit with
  | none => (.error .invalid, s)
  | some quit =>
    let (r, data) := quit (s.data p)
    (r, { s with data := Function.update s.data p data })

def responderRespond (rqst : RequestPacket) (p : Ptr) (s : State Ptr Data Out) :
    Except Errno Unit × State Ptr Data Out :=
  match (at_ p).respond, (at_ p).ids with
  | none, _ => (.error .invalid, s)
  | some _, none => (.ok (), s)
  | some respond, some ids =>
    match anyMatch rqst ids with
    | .error e => (.error e, s)
    | .ok false => (.ok (), s)
    | .ok true =>
      let (r, data, out) := respond (s.data p) rqst
      (r, { s with data := Function.update s.data p data, output := s.output ++ out })

def forEach (f : Ptr → State Ptr Data Out → Except Errno Unit × State Ptr Data Out) :
    List Ptr → State Ptr Data Out → Except Errno Unit × State Ptr Data Out
  | [], s => (.ok (), s)
  | p :: rest, s =>
    match f p s with
    | (.error e, s) => (.error e, s)
    | (.ok _, s) => forEach f rest s

def respondersInit (s : State Ptr Data Out) : Except Errno Unit × State Ptr Data Out :=
  match s.responders with
  | none => (.ok (), s)
  | some ps => forEach (responderInit at_) ps s

def respondersQuit (s : State Ptr Data Out) : Except Errno Unit × State Ptr Data Out :=
  match s.responders with
  | none => (.ok (), s)
  | some ps => forEach (responderQuit at_) ps s

def respondersRespond (rqst : RequestPacket) (s : State Ptr Data Out) :
    Except Errno Unit × State Ptr Data Out :=
  match s.responders with
  | none => (.ok (), s)
  | some ps => forEach (responderRespond at_ rqst) ps s

def responderAdd (p : Ptr) (s : State Ptr Data Out) : Except Errno Unit × State Ptr Data Out :=
  (.ok (), { s with responders := some (p :: s.responders.getD []) })

def responderDel (p : Ptr) (s : State Ptr Data Out) : Except Errno Unit × State Ptr Data Out :=
  match s.responders with
  | none => (.error .fail, s)
  | some ps => (.ok (), { s with responders := some (ps.filter (· ≠ p)) })

def requestRx (received : Except Errno RequestPacket) (s : State Ptr Data Out) :
    Except Errno Unit × State Ptr Data Out :=
  match received with
  | .error e => (.error e, s)
  | .ok rqst => respondersRespond at_ rqst s

end Registry

inductive Stream where
  | stdout
  | stderr
  deriving DecidableEq, Repr

/-- What is printed, with its arguments; the text is made by the standard library. -/
inductive Text where
  | char (c : UInt8)
  | int32 (src : Coord) (data : UInt32)
  | uint32 (src : Coord) (data : UInt32)
  | hex (src : Coord) (data : UInt32)
  | float32 (src : Coord) (bits : UInt32)
  | float32Sci (src : Coord) (bits : UInt32)
  | trace (type : String) (src : Coord) (data : UInt32)
  deriving DecidableEq, Repr

structure Output where
  stream : Stream
  text : Text
  deriving DecidableEq, Repr

inductive Data where
  | streams (fs : List Stream)
  | file (f : Stream)
  | traces (configs : List (Stream × String))
  deriving DecidableEq, Repr

inductive Builtin where
  | uart
  | printInt
  | trace
  deriving DecidableEq, Repr

def requestPacketSrc (rqst : RequestPacket) : Coord := ⟨rqst.xSrc.toUInt32, rqst.ySrc.toUInt32⟩

def respondFirst (print : ℕ → Except Errno Output) (rqst : RequestPacket) :
    ℕ → List RequestPacketId → Except Errno (List Output)
  | _, [] => .ok []
  | i, id :: rest =>
    if requestPacketIsMatch rqst id then (print i).map fun out => [out]
    else respondFirst print rqst (i + 1) rest

def printing (data : Option Data) (r : Except Errno (List Output)) :
    Except Errno Unit × Option Data × List Output :=
  match r with
  | .error e => (.error e, data, [])
  | .ok out => (.ok (), data, out)

namespace Uart

def numUartEpas : ℕ := 2

def ids : List RequestPacketId := [rqstId 0xEADC, rqstId 0xEEE0, sentinel]

def streams : List Stream := [.stdout, .stderr]

def respond (data : Option Data) (rqst : RequestPacket) :
    Except Errno Unit × Option Data × List Output :=
  printing data <| respondFirst (fun i =>
    match data with
    | some (.streams fs) =>
      match fs[i]? with
      | some f => .ok ⟨f, .char rqst.payload.toUInt8⟩
      | none => .error .undefined
    | _ => .error .undefined) rqst 0 (ids.take numUartEpas)

end Uart

namespace PrintInt

def sintEpa : UInt32 := 0xEAE0

def uintEpa : UInt32 := 0xEAE4

def xintEpa : UInt32 := 0xEAE8

def fp32Epa : UInt32 := 0xEAEC

def fp32SciEpa : UInt32 := 0xEAF0

def ids : List RequestPacketId :=
  [rqstId sintEpa, rqstId uintEpa, rqstId xintEpa, rqstId fp32Epa, rqstId fp32SciEpa, sentinel]

def text (rqst : RequestPacket) : Option Text :=
  let src := requestPacketSrc rqst
  let data := rqst.payload
  if getEpa rqst = sintEpa then some (.int32 src data)
  else if getEpa rqst = uintEpa then some (.uint32 src data)
  else if getEpa rqst = xintEpa then some (.hex src data)
  else if getEpa rqst = fp32Epa then some (.float32 src data)
  else if getEpa rqst = fp32SciEpa then some (.float32Sci src data)
  else none

def respond (data : Option Data) (rqst : RequestPacket) :
    Except Errno Unit × Option Data × List Output :=
  match text rqst, data with
  | none, _ => (.ok (), data, [])
  | some text, some (.file f) => (.ok (), data, [⟨f, text⟩])
  | some _, _ => (.error .undefined, data, [])

end PrintInt

namespace Trace

def numTraceEpas : ℕ := 1

def ids : List RequestPacketId := [rqstId 0xEEE4, sentinel]

def configs : List (Stream × String) := [(.stderr, "branch")]

def respond (data : Option Data) (rqst : RequestPacket) :
    Except Errno Unit × Option Data × List Output :=
  printing data <| respondFirst (fun i =>
    match data with
    | some (.traces configs) =>
      match configs[i]? with
      | some (f, type) => .ok ⟨f, .trace type (requestPacketSrc rqst) rqst.payload⟩
      | none => .error .undefined
    | _ => .error .undefined) rqst 0 (ids.take numTraceEpas)

end Trace

def dataOf : Builtin → Data
  | .uart => .streams Uart.streams
  | .printInt => .file .stdout
  | .trace => .traces Trace.configs

/-- The responder of each source file; `init` sets its data, `quit` clears it. -/
def builtin (p : Builtin) : Responder Data Output where
  name := match p with
    | .uart => "UART"
    | .printInt => "Print Int"
    | .trace => "TRACE"
  ids := some (match p with
    | .uart => Uart.ids
    | .printInt => PrintInt.ids
    | .trace => Trace.ids)
  init := some fun _ => (.ok (), some (dataOf p))
  quit := some fun _ => (.ok (), none)
  respond := some (match p with
    | .uart => Uart.respond
    | .printInt => PrintInt.respond
    | .trace => Trace.respond)

inductive Event (Ptr : Type) where
  | add (p : Ptr)
  | del (p : Ptr)
  | init
  | quit
  | receive (received : Except Errno RequestPacket)

/-- One call, with its result. -/
def call {Ptr Data Out : Type} [DecidableEq Ptr] (at_ : Ptr → Responder Data Out)
    (s : State Ptr Data Out) : Event Ptr → Except Errno Unit × State Ptr Data Out
  | .add p => responderAdd p s
  | .del p => responderDel p s
  | .init => respondersInit at_ s
  | .quit => respondersQuit at_ s
  | .receive received => requestRx at_ received s

def runCalls {σ ε ρ : Type} (call : σ → ε → ρ × σ) : σ → List ε → List ρ × σ
  | s, [] => ([], s)
  | s, e :: es =>
    let (r, s) := call s e
    let (rs, s) := runCalls call s es
    (r :: rs, s)

def start : State Builtin Data Output where
  responders := none
  data _ := none
  output := []

/-- How often each responder is registered, whether its data is set, and what was printed. -/
structure Console where
  made : Bool
  count : Builtin → ℕ
  running : Builtin → Bool
  output : List Output

/-- The responder that a packet's address belongs to, and what it prints. -/
def printed (rqst : RequestPacket) : Option (Builtin × Output) :=
  let src := requestPacketSrc rqst
  let data := rqst.payload
  if getEpa rqst = 0xEADC then some (.uart, ⟨.stdout, .char data.toUInt8⟩)
  else if getEpa rqst = 0xEEE0 then some (.uart, ⟨.stderr, .char data.toUInt8⟩)
  else if getEpa rqst = 0xEAE0 then some (.printInt, ⟨.stdout, .int32 src data⟩)
  else if getEpa rqst = 0xEAE4 then some (.printInt, ⟨.stdout, .uint32 src data⟩)
  else if getEpa rqst = 0xEAE8 then some (.printInt, ⟨.stdout, .hex src data⟩)
  else if getEpa rqst = 0xEAEC then some (.printInt, ⟨.stdout, .float32 src data⟩)
  else if getEpa rqst = 0xEAF0 then some (.printInt, ⟨.stdout, .float32Sci src data⟩)
  else if getEpa rqst = 0xEEE4 then some (.trace, ⟨.stderr, .trace "branch" src data⟩)
  else none

namespace Console

/-- A packet is printed once for each time that its responder is registered. A responder that is
registered must be running when its packets come. -/
def call (c : Console) : Event Builtin → Except Errno Unit × Console
  | .add p => (.ok (), { c with made := true, count := Function.update c.count p (c.count p + 1) })
  | .del p =>
    if c.made then (.ok (), { c with count := Function.update c.count p 0 })
    else (.error .fail, c)
  | .init => (.ok (), { c with running := fun p => c.running p || decide (0 < c.count p) })
  | .quit => (.ok (), { c with running := fun p => c.running p && decide (c.count p = 0) })
  | .receive (.error e) => (.error e, c)
  | .receive (.ok rqst) =>
    match printed rqst with
    | none => (.ok (), c)
    | some (p, out) =>
      if c.count p = 0 then (.ok (), c)
      else if c.running p then
        (.ok (), { c with output := c.output ++ List.replicate (c.count p) out })
      else (.error .undefined, c)

def off : Console where
  made := false
  count _ := 0
  running _ := false
  output := []

end Console

def entries (s : State Builtin Data Output) : List Builtin := s.responders.getD []

def consoleOf (s : State Builtin Data Output) : Console where
  made := s.responders.isSome
  count p := (entries s).count p
  running p := (s.data p).isSome
  output := s.output

def DataSet (s : State Builtin Data Output) : Prop :=
  ∀ p, s.data p = none ∨ s.data p = some (dataOf p)

theorem isMatch_rqstId (rqst : RequestPacket) (addr : UInt32) :
    requestPacketIsMatch rqst (rqstId addr) = decide (getEpa rqst = addr) := by
  have hx : xIsMatch rqst (rqstId addr) = true := by
    have := rqst.xSrc.toNat_lt
    simp [xIsMatch, rqstId, UInt32.le_iff_toNat_le]
    omega
  have hy : yIsMatch rqst (rqstId addr) = true := by
    have := rqst.ySrc.toNat_lt
    simp [yIsMatch, rqstId, UInt32.le_iff_toNat_le]
    omega
  have hmask : (0xffffffff : UInt32) &&& getEpa rqst = getEpa rqst := by
    exact UInt32.neg_one_and
  rw [requestPacketIsMatch, hx, hy, addrIsMatch]
  simp only [rqstId, hmask, Bool.true_and, Bool.and_true, beq_eq_decide]

theorem anyMatch_cons (rqst : RequestPacket) (addr : UInt32) (rest : List RequestPacketId) :
    anyMatch rqst (rqstId addr :: rest) =
      if getEpa rqst = addr then .ok true else anyMatch rqst rest := by
  rw [anyMatch, isMatch_rqstId]
  simp [rqstId]

theorem anyMatch_sentinel (rqst : RequestPacket) (rest : List RequestPacketId) :
    anyMatch rqst (sentinel :: rest) = .ok false := by
  simp [anyMatch, sentinel]

theorem anyMatch_builtin (rqst : RequestPacket) (p : Builtin) {ids : List RequestPacketId}
    (h : (builtin p).ids = some ids) :
    anyMatch rqst ids = .ok ((printed rqst).any fun q => decide (q.1 = p)) := by
  cases h
  cases p
  · simp only [Uart.ids, anyMatch_cons, anyMatch_sentinel, printed]
    split_ifs <;> rfl
  · simp only [PrintInt.ids, PrintInt.sintEpa, PrintInt.uintEpa, PrintInt.xintEpa,
      PrintInt.fp32Epa, PrintInt.fp32SciEpa, anyMatch_cons, anyMatch_sentinel, printed]
    split_ifs <;> simp_all
  · simp only [Trace.ids, anyMatch_cons, anyMatch_sentinel, printed]
    split_ifs <;> simp_all

theorem respond_builtin {rqst : RequestPacket} {p : Builtin} {out : Output}
    (h : printed rqst = some (p, out)) :
    ∃ f, (builtin p).respond = some f ∧
      f (some (dataOf p)) rqst = (.ok (), some (dataOf p), [out]) ∧
      f none rqst = (.error .undefined, none, []) := by
  refine ⟨_, rfl, ?_⟩
  unfold printed at h
  split_ifs at h with h1 h2 h3 h4 h5 h6 h7 h8 <;> cases h
  · simp [Uart.respond, Uart.ids, Uart.numUartEpas, respondFirst, isMatch_rqstId, h1, printing,
      dataOf, Uart.streams, Except.map]
  · simp [Uart.respond, Uart.ids, Uart.numUartEpas, respondFirst, isMatch_rqstId, h2, printing,
      dataOf, Uart.streams, Except.map]
  · simp [PrintInt.respond, PrintInt.text, h3, PrintInt.sintEpa, dataOf]
  · simp [PrintInt.respond, PrintInt.text, h4, PrintInt.sintEpa, PrintInt.uintEpa, dataOf]
  · simp [PrintInt.respond, PrintInt.text, h5, PrintInt.sintEpa, PrintInt.uintEpa,
      PrintInt.xintEpa, dataOf]
  · simp [PrintInt.respond, PrintInt.text, h6, PrintInt.sintEpa, PrintInt.uintEpa,
      PrintInt.xintEpa, PrintInt.fp32Epa, dataOf]
  · simp [PrintInt.respond, PrintInt.text, h7, PrintInt.sintEpa, PrintInt.uintEpa,
      PrintInt.xintEpa, PrintInt.fp32Epa, PrintInt.fp32SciEpa, dataOf]
  · simp [Trace.respond, Trace.ids, Trace.numTraceEpas, respondFirst, isMatch_rqstId, h8, printing,
      dataOf, Trace.configs, Except.map]

section One

variable {s : State Builtin Data Output} {rqst : RequestPacket} {p : Builtin}

theorem ids_builtin (p : Builtin) : ∃ ids, (builtin p).ids = some ids := ⟨_, rfl⟩

theorem respond_other (h : ∀ out, printed rqst ≠ some (p, out)) :
    responderRespond builtin rqst p s = (.ok (), s) := by
  obtain ⟨ids, hids⟩ := ids_builtin p
  have hmatch := anyMatch_builtin rqst p hids
  have hfalse : ((printed rqst).any fun q => decide (q.1 = p)) = false := by
    rw [← Bool.not_eq_true, Option.any_eq_true]
    rintro ⟨⟨q, out⟩, hq, hp⟩
    obtain rfl : q = p := of_decide_eq_true hp
    exact h out hq
  rw [hfalse] at hmatch
  have hrespond : ∃ f, (builtin p).respond = some f := ⟨_, rfl⟩
  obtain ⟨f, hf⟩ := hrespond
  simp only [responderRespond, hf, hids, hmatch]

theorem respond_own {out : Output} (h : printed rqst = some (p, out)) (hs : DataSet s) :
    responderRespond builtin rqst p s =
      if (s.data p).isSome then (.ok (), { s with output := s.output ++ [out] })
      else (.error .undefined, s) := by
  obtain ⟨ids, hids⟩ := ids_builtin p
  have hmatch := anyMatch_builtin rqst p hids
  rw [h, Option.any_some, decide_eq_true rfl] at hmatch
  obtain ⟨f, hf, hset, hnull⟩ := respond_builtin h
  simp only [responderRespond, hf, hids, hmatch]
  rcases hs p with hd | hd
  · have hsame : Function.update s.data p none = s.data := by
      rw [← hd, Function.update_eq_self]
    rw [hd, hnull]
    simp only [hsame, List.append_nil, Option.isSome_none, Bool.false_eq_true, if_false]
  · have hsame : Function.update s.data p (some (dataOf p)) = s.data := by
      rw [← hd, Function.update_eq_self]
    rw [hd, hset]
    simp only [hsame, Option.isSome_some, if_true]

end One

section Loops

variable {s : State Builtin Data Output} {rqst : RequestPacket} {p : Builtin}

theorem forEach_skip {f : Builtin → State Builtin Data Output →
    Except Errno Unit × State Builtin Data Output} {ps : List Builtin}
    (h : ∀ p ∈ ps, f p s = (.ok (), s)) : forEach f ps s = (.ok (), s) := by
  induction ps with
  | nil => rfl
  | cons p ps ih =>
    rw [forEach, h p List.mem_cons_self]
    exact ih fun q hq => h q (List.mem_cons_of_mem p hq)

theorem respondAll_running {out : Output} (h : printed rqst = some (p, out)) (hs : DataSet s)
    (hrun : (s.data p).isSome = true) (ps : List Builtin) :
    forEach (responderRespond builtin rqst) ps s =
      (.ok (), { s with output := s.output ++ List.replicate (ps.count p) out }) := by
  induction ps generalizing s with
  | nil =>
    rw [List.count_nil, List.replicate_zero, List.append_nil]
    rfl
  | cons q ps ih =>
    by_cases hq : q = p
    · subst hq
      rw [forEach, respond_own h hs, if_pos hrun]
      refine (ih (s := { s with output := s.output ++ [out] }) hs hrun).trans ?_
      rw [List.count_cons_self, List.replicate_succ, List.append_assoc]
      rfl
    · have hother : ∀ out', printed rqst ≠ some (q, out') := by
        intro out' ho
        rw [h] at ho
        exact hq (Prod.mk.inj (Option.some.inj ho)).1.symm
      rw [forEach, respond_other hother]
      simp only
      rw [ih hs hrun, List.count_cons_of_ne hq]

/-- The packets of a responder that is not running follow a null pointer. -/
theorem respondAll_stopped {out : Output} (h : printed rqst = some (p, out)) (hs : DataSet s)
    (hrun : (s.data p).isSome = false) (ps : List Builtin) :
    forEach (responderRespond builtin rqst) ps s =
      if ps.count p = 0 then (.ok (), s) else (.error .undefined, s) := by
  induction ps with
  | nil => rfl
  | cons q ps ih =>
    by_cases hq : q = p
    · subst hq
      rw [forEach, respond_own h hs, hrun]
      simp
    · have hother : ∀ out', printed rqst ≠ some (q, out') := by
        intro out' ho
        rw [h] at ho
        exact hq (Prod.mk.inj (Option.some.inj ho)).1.symm
      rw [forEach, respond_other hother]
      simp only
      rw [ih, List.count_cons_of_ne hq]

theorem forEach_data {f : Builtin → State Builtin Data Output →
    Except Errno Unit × State Builtin Data Output} {set : Builtin → Option Data}
    (h : ∀ p s, f p s = (.ok (), { s with data := Function.update s.data p (set p) }))
    (ps : List Builtin) (s : State Builtin Data Output) :
    forEach f ps s = (.ok (), { s with data := fun p => if p ∈ ps then set p else s.data p }) := by
  induction ps generalizing s with
  | nil => simp [forEach]
  | cons q ps ih =>
    rw [forEach, h]
    simp only
    rw [ih]
    refine congrArg (Prod.mk (Except.ok ())) ?_
    congr 1
    funext p
    by_cases hp : p ∈ ps
    · simp [hp]
    · by_cases hq : p = q
      · subst hq
        simp [hp]
      · simp [hp, hq]

end Loops

theorem responderInit_builtin (p : Builtin) (s : State Builtin Data Output) :
    responderInit builtin p s =
      (.ok (), { s with data := Function.update s.data p (some (dataOf p)) }) := rfl

theorem responderQuit_builtin (p : Builtin) (s : State Builtin Data Output) :
    responderQuit builtin p s = (.ok (), { s with data := Function.update s.data p none }) := rfl

theorem respondersInit_builtin (s : State Builtin Data Output) :
    respondersInit builtin s =
      (.ok (), { s with
        data := fun p => if p ∈ entries s then some (dataOf p) else s.data p }) := by
  have hloop : respondersInit builtin s = forEach (responderInit builtin) (entries s) s := by
    unfold respondersInit entries
    cases s.responders <;> rfl
  exact hloop.trans (forEach_data responderInit_builtin (entries s) s)

theorem respondersQuit_builtin (s : State Builtin Data Output) :
    respondersQuit builtin s =
      (.ok (), { s with data := fun p => if p ∈ entries s then none else s.data p }) := by
  have hloop : respondersQuit builtin s = forEach (responderQuit builtin) (entries s) s := by
    unfold respondersQuit entries
    cases s.responders <;> rfl
  exact hloop.trans (forEach_data responderQuit_builtin (entries s) s)

/-- What the responders do with a packet, whatever the order in which they were registered. -/
theorem respondersRespond_builtin (rqst : RequestPacket) {s : State Builtin Data Output}
    (hs : DataSet s) :
    respondersRespond builtin rqst s =
      match printed rqst with
      | none => (.ok (), s)
      | some (p, out) =>
        if (entries s).count p = 0 then (.ok (), s)
        else if (s.data p).isSome then
          (.ok (), { s with output := s.output ++ List.replicate ((entries s).count p) out })
        else (.error .undefined, s) := by
  have hloop : respondersRespond builtin rqst s =
      forEach (responderRespond builtin rqst) (entries s) s := by
    unfold respondersRespond entries
    cases s.responders <;> rfl
  rw [hloop]
  rcases hp : printed rqst with _ | ⟨p, out⟩
  · apply forEach_skip
    intro p _
    apply respond_other
    intro out hout
    rw [hp] at hout
    cases hout
  · simp only
    rcases hrun : (s.data p).isSome with _ | _
    · rw [respondAll_stopped hp hs hrun]
      rfl
    · rw [respondAll_running hp hs hrun]
      by_cases hcount : (entries s).count p = 0
      · rw [hcount, List.replicate_zero, List.append_nil]
        rfl
      · rw [if_neg hcount, if_pos rfl]

theorem call_dataSet {s : State Builtin Data Output} (hs : DataSet s) (e : Event Builtin) :
    DataSet (call builtin s e).2 := by
  intro p
  cases e with
  | add q => exact hs p
  | del q =>
    simp only [call, responderDel]
    split <;> exact hs p
  | init =>
    simp only [call, respondersInit_builtin]
    split
    · exact .inr rfl
    · exact hs p
  | quit =>
    simp only [call, respondersQuit_builtin]
    split
    · exact .inl rfl
    · exact hs p
  | receive received =>
    cases received with
    | error e => exact hs p
    | ok rqst =>
      simp only [call, requestRx, respondersRespond_builtin rqst hs]
      repeat' split
      all_goals exact hs p

theorem call_simulates {s : State Builtin Data Output} (hs : DataSet s) (e : Event Builtin) :
    (call builtin s e).1 = ((consoleOf s).call e).1 ∧
      consoleOf (call builtin s e).2 = ((consoleOf s).call e).2 := by
  cases e with
  | add q =>
    refine ⟨rfl, ?_⟩
    have hcount : (fun p => (q :: entries s).count p) =
        Function.update (fun p => (entries s).count p) q ((entries s).count q + 1) := by
      funext p
      by_cases hp : p = q
      · subst hp
        simp
      · simp [hp, List.count_cons_of_ne (Ne.symm hp)]
    exact congrArg (fun count => (⟨true, count, fun p => (s.data p).isSome, s.output⟩ : Console))
      hcount
  | del q =>
    rcases hs : s.responders with _ | ps
    · simp [call, responderDel, Console.call, consoleOf, hs]
    · have hcount : (fun p => (ps.filter fun r => !decide (r = q)).count p) =
          Function.update (fun p => ps.count p) q 0 := by
        funext p
        by_cases hp : p = q
        · subst hp
          simp [List.count_eq_zero]
        · simp [hp, List.count_filter]
      simp [call, responderDel, Console.call, consoleOf, entries, hs, hcount]
  | init =>
    simp only [call, respondersInit_builtin]
    refine ⟨rfl, ?_⟩
    simp only [consoleOf, Console.call, entries, List.count_pos_iff]
    congr 1
    funext p
    by_cases hp : p ∈ s.responders.getD [] <;> simp [hp]
  | quit =>
    simp only [call, respondersQuit_builtin]
    refine ⟨rfl, ?_⟩
    simp only [consoleOf, Console.call, entries, List.count_eq_zero]
    congr 1
    funext p
    by_cases hp : p ∈ s.responders.getD [] <;> simp [hp]
  | receive received =>
    cases received with
    | error e => exact ⟨rfl, rfl⟩
    | ok rqst =>
      simp only [call, requestRx, respondersRespond_builtin rqst hs, Console.call]
      rcases printed rqst with _ | ⟨p, out⟩
      · exact ⟨rfl, rfl⟩
      · simp only [consoleOf]
        by_cases hcount : (entries s).count p = 0
        · simp only [hcount, if_true, and_self]
        · by_cases hrun : (s.data p).isSome = true
          · simp only [hcount, hrun, if_true, if_false, true_and]
            rfl
          · simp [hcount, hrun]

/-- Over any run of calls, the registry of responders gives the results and the output of the
console: the order of the registrations makes no difference. -/
theorem console_exact (es : List (Event Builtin)) :
    (runCalls (call builtin) start es).1 = (runCalls Console.call Console.off es).1 ∧
      consoleOf (runCalls (call builtin) start es).2 =
        (runCalls Console.call Console.off es).2 := by
  have hrun : ∀ s, DataSet s →
      (runCalls (call builtin) s es).1 = (runCalls Console.call (consoleOf s) es).1 ∧
        consoleOf (runCalls (call builtin) s es).2 =
          (runCalls Console.call (consoleOf s) es).2 := by
    induction es with
    | nil => exact fun s _ => ⟨rfl, rfl⟩
    | cons e es ih =>
      intro s hs
      obtain ⟨hresult, hstate⟩ := call_simulates hs e
      obtain ⟨hresults, hlast⟩ := ih _ (call_dataSet hs e)
      rw [hstate] at hresults hlast
      exact ⟨congrArg₂ List.cons hresult hresults, hlast⟩
  exact hrun start fun _ => .inl rfl

end Responders
