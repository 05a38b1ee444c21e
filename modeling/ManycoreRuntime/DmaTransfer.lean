import ManycoreRuntime.CacheBanks
import ManycoreRuntime.EvaMemory

/-! # Transfers by DMA

The runtime flushes the caches of a pod before a transfer, so that the banks are up to date, and
invalidates them after a transfer to the device, so that no line shows what the banks held
before. -/
namespace DmaTransfer

open Actions
open CacheBanks
open Coordinate (Coord Errno)
open Configuration (Manycore)
open ConfigPod (isDram podVcoreOrigin)
open EvaMemory (evaReadInternal evaWriteInternal)
open EvaToNpa (Npa)
open NpaToEva (defaultMap)
open Packets
open PodGeometry (dramId podForeachDram)
open PodMalloc (Pod checkPodId)
open Vcache
open WriteMem (write)

abbrev Command := Action Errno System

structure DmaJob where
  dAddr : UInt32
  hAddr : ℕ
  size : ℕ
  deriving DecidableEq, Repr

section Requests

variable (mc : Manycore) (hw : Hardware)

def transmit (rqst : Except Errno Unit → Except Errno RequestPacket) : Command RequestPacket :=
  fun s =>
    match rqst (hw.transmit s.time) with
    | .error e => some (.error e, s)
    | .ok pkt => some (.ok pkt, s.send mc hw pkt)

def recvReadRsp (rqst : RequestPacket) : Command UInt32 := fun s =>
  match hw.receive s.time with
  | .error e => some (.error e, s)
  | .ok _ =>
    let s := s.drain mc hw (destination rqst)
    let word : Npa := ⟨rqst.xDst.toUInt32, rqst.yDst.toUInt32, rqst.addr <<< 2⟩
    some (.ok (WriteMem.loadWord (s.seen mc hw) word), s)

def read32 (npa : Npa) : Command UInt32 := do
  let rqst ← transmit mc hw (sendReadRqst mc npa 4 0)
  recvReadRsp mc hw rqst

def write32 (npa : Npa) (vp : UInt32) : Command Unit := do
  let _ ← transmit mc hw (write mc npa vp 4)

def vcacheFlushTag (npa : Npa) : Command Unit :=
  if hasCache mc then do
    let _ ← transmit mc hw fun tx => do
      let pkt ← formatCacheOpRequestPacket mc {} npa cacheOpTagfl
      let _ ← tx
      return pkt
  else pure ()

def podInvalidateVcache (p : Coord) : Command Unit :=
  podApplyToVcache mc p fun way_addr => write32 mc hw way_addr 0

/-- When a load from a cache has returned, the flushes before it are done. -/
def podFlushVcache (p : Coord) : Command Unit :=
  if hasCache mc then do
    podApplyToVcache mc p (vcacheFlushTag mc hw)
    let drams ← fromOption (podForeachDram mc.config p)
    forM drams fun dram => do
      let cache_id ← fromExcept (dramId mc.config dram)
      let way_addr ← fromExcept (vcacheWayNpa mc cache_id 0 0)
      let _ ← read32 mc hw { way_addr with epa := 0 }
  else pure ()

end Requests

section Dma

variable (mc : Manycore) (hw : Hardware)

def supportsDmaWrite : Bool := mc.config.memsys.featureDma

def supportsDmaRead : Bool := mc.config.memsys.featureDma

/-- `data` is the address of a buffer in the host's memory. -/
def dmaWrite (npa : Npa) (data sz : ℕ) : Command Unit := fun s =>
  match hw.dma s.time with
  | .error e => some (.error e, s)
  | .ok _ =>
    let c : Coord := ⟨npa.x, npa.y⟩
    let written := (s.bank c).writeMemory npa.epa.toNat sz fun j => s.host (data + j)
    some (.ok (), { s with time := s.time + 1, bank := Function.update s.bank c written })

def dmaRead (npa : Npa) (data sz : ℕ) : Command Unit := fun s =>
  match hw.dma s.time with
  | .error e => some (.error e, s)
  | .ok _ =>
    let m := (s.bank ⟨npa.x, npa.y⟩).memory
    some (.ok (), { s with
      time := s.time + 1
      host := fun a =>
        if data ≤ a ∧ a < data + sz then m (npa.epa.toNat + (a - data)) else s.host a })

def npaIsDram (npa : Npa) : Bool := isDram mc.config ⟨npa.x, npa.y⟩

def dmaWriteNoCacheAinv (npa : Npa) (data sz : ℕ) : Command Unit :=
  if !supportsDmaWrite mc then throw .noimpl
  else if !mc.dramEnabled then throw .fail
  else if !npaIsDram mc npa then throw .invalid
  else dmaWrite hw npa data sz

def dmaReadNoCacheAfl (npa : Npa) (data sz : ℕ) : Command Unit :=
  if !supportsDmaRead mc then throw .noimpl
  else if !mc.dramEnabled then throw .fail
  else if !npaIsDram mc npa then throw .invalid
  else dmaRead hw npa data sz

def evaWriteDma (tgt : Coord) (eva : UInt32) (data sz : ℕ) : Command Unit :=
  evaWriteInternal mc defaultMap tgt eva sz fun npa off xfer =>
    dmaWriteNoCacheAinv mc hw npa (data + off) xfer

def evaReadDma (tgt : Coord) (eva : UInt32) (data sz : ℕ) : Command Unit :=
  evaReadInternal mc defaultMap tgt eva sz fun npa off xfer =>
    dmaReadNoCacheAfl mc hw npa (data + off) xfer

def podDmaToDevice (pods : List Pod) (podId : ℤ) (jobs : List DmaJob) : Command Unit := do
  let pod ← fromExcept (checkPodId pods podId)
  if !supportsDmaRead mc then throw .noimpl
  else do
    podFlushVcache mc hw pod.podCoord
    forM jobs fun dma =>
      evaWriteDma mc hw (podVcoreOrigin mc.config pod.podCoord) dma.dAddr dma.hAddr dma.size
    podInvalidateVcache mc hw pod.podCoord

def podDmaToHost (pods : List Pod) (podId : ℤ) (jobs : List DmaJob) : Command Unit := do
  let pod ← fromExcept (checkPodId pods podId)
  if !supportsDmaRead mc then throw .noimpl
  else do
    podFlushVcache mc hw pod.podCoord
    forM jobs fun dma =>
      evaReadDma mc hw (podVcoreOrigin mc.config pod.podCoord) dma.dAddr dma.hAddr dma.size

end Dma

end DmaTransfer
