import ManycoreRuntime.EvaToNpa

/-! # Packets

The requests that the host sends over the network and the responses that it receives. -/
namespace Packets

open Fallible (bind_eq_ok)
open Coordinate (Coord Errno)
open Configuration (Config Manycore)
open EvaToNpa (Npa)

inductive PacketOp where
  | remoteLoad
  | remoteStore
  | remoteSw
  | cacheOp
  deriving DecidableEq, Repr

structure RequestPacket where
  xDst : UInt8 := 0
  yDst : UInt8 := 0
  xSrc : UInt8 := 0
  ySrc : UInt8 := 0
  payload : UInt32 := 0
  /-- The id of a load, the byte mask of a store, the opcode of a cache operation. -/
  regId : UInt8 := 0
  op : PacketOp := .remoteLoad
  addr : UInt32 := 0
  deriving DecidableEq, Repr

structure ResponsePacket where
  loadId : UInt8
  data : UInt32
  deriving DecidableEq, Repr

def hostCoordinate (mc : Manycore) : Coord := mc.config.hostInterface

def dstNpaIsValid (mc : Manycore) (npa : Npa) : Bool :=
  npa.x < mc.config.dimensionNetwork.x && npa.y < mc.config.dimensionNetwork.y

/-- The coordinates are cut to the eight bits of the packet's fields. -/
def formatRequestPacket (mc : Manycore) (pkt : RequestPacket) (npa : Npa) :
    Except Errno RequestPacket :=
  if dstNpaIsValid mc npa then .ok { pkt with
    xDst := npa.x.toUInt8
    yDst := npa.y.toUInt8
    xSrc := (hostCoordinate mc).x.toUInt8
    ySrc := (hostCoordinate mc).y.toUInt8
    addr := npa.epa >>> 2 }
  else .error .invalid

def formatLoadRequestPacket (mc : Manycore) (pkt : RequestPacket) (npa : Npa) :
    Except Errno RequestPacket := do
  let pkt ← formatRequestPacket mc pkt npa
  return { pkt with payload := 0, op := .remoteLoad }

def cacheOpTagfl : UInt8 := 3

def formatCacheOpRequestPacket (mc : Manycore) (pkt : RequestPacket) (npa : Npa)
    (opcode : UInt8) : Except Errno RequestPacket := do
  let pkt ← formatRequestPacket mc pkt npa
  return { pkt with op := .cacheOp, regId := opcode }

def epaCheckAlignment (epa : UInt32) (sz : ℕ) : Except Errno Unit :=
  match sz with
  | 4 => if epa &&& 3 ≠ 0 then .error .unaligned else .ok ()
  | 2 => if epa &&& 1 ≠ 0 then .error .unaligned else .ok ()
  | 1 => .ok ()
  | _ => .error .invalid

structure LoadInfo where
  partSel : UInt32
  isHexOp : Bool
  isByteOp : Bool
  isUnsignedOp : Bool
  deriving DecidableEq, Repr

def loadInfoWord (info : LoadInfo) : UInt32 :=
  (info.partSel &&& (0x03 : UInt32)) ||| (if info.isHexOp then 0x04 else 0) |||
    (if info.isByteOp then 0x08 else 0) ||| (if info.isUnsignedOp then 0x10 else 0)

def sendReadRqst (mc : Manycore) (npa : Npa) (sz : ℕ) (id : UInt32) (tx : Except Errno Unit) :
    Except Errno RequestPacket := do
  let rqst ← formatLoadRequestPacket mc {} npa
  let _ ← epaCheckAlignment npa.epa sz
  let info : LoadInfo := ⟨npa.epa &&& 3, sz == 2, sz == 1, true⟩
  let rqst := { rqst with regId := id.toUInt8, payload := loadInfoWord info }
  let _ ← tx
  return rqst

/-- A load that is accepted carries its id, cut to eight bits. -/
theorem sendReadRqst_regId {mc : Manycore} {npa : Npa} {sz : ℕ} {id : UInt32}
    {tx : Except Errno Unit} {rqst : RequestPacket}
    (h : sendReadRqst mc npa sz id tx = .ok rqst) : rqst.regId = id.toUInt8 := by
  simp only [sendReadRqst, bind_eq_ok] at h
  obtain ⟨pkt, -, u, -, v, -, he⟩ := h
  cases he
  rfl

end Packets
