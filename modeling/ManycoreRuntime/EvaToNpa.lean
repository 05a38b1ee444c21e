import ManycoreRuntime.BitField
import ManycoreRuntime.Striping
import ManycoreRuntime.ConfigPod

/-! # From endpoint virtual addresses to network physical addresses

The default map. A DRAM address is cut into a stripe offset, a column, a north-south bit
and the top of the address in the bank; global, group and local addresses name a tile. -/
namespace EvaToNpa

open BitField
open Coordinate (Coord Dimension Errno InRect)
open Configuration (Config Manycore)
open ConfigPod

structure Npa where
  x : UInt32
  y : UInt32
  epa : UInt32
  deriving DecidableEq, Repr

def Npa.xy (npa : Npa) : Coord := ⟨npa.x, npa.y⟩

def shr (v amount : UInt32) : Except Errno UInt32 :=
  if amount < 32 then .ok (v >>> amount) else .error .undefined

def shl (v amount : UInt32) : Except Errno UInt32 :=
  if amount < 32 then .ok (v <<< amount) else .error .undefined

def shr64 (v : UInt64) (amount : UInt32) : Except Errno UInt64 :=
  if amount < 64 then .ok (v >>> amount.toUInt64) else .error .undefined

def shl64 (v : UInt64) (amount : UInt32) : Except Errno UInt64 :=
  if amount < 64 then .ok (v <<< amount.toUInt64) else .error .undefined

def epaLogsz : UInt32 := 18

def globalEpaLogsz : UInt32 := 16

def tileEvaDmemBase : UInt32 := 0x00000000

def tileEpaDmemBase : UInt32 := 0x00000000

def tileEpaCsrFreeze : UInt32 := 0x20000

def tileEpaCsrTileGroupOriginX : UInt32 := 0x20004

def tileEpaCsrTileGroupOriginY : UInt32 := 0x20008

def defaultEvaToEpaTile (cfg : Config) (eva epa_mask : UInt32) : Except Errno (UInt32 × ℕ) :=
  let eva_masked := eva &&& epa_mask
  let eva_dmem := eva_masked - tileEvaDmemBase
  if eva_dmem < cfg.dmemSize then
    .ok (eva_dmem + tileEpaDmemBase, cfg.dmemSize.toNat - eva_dmem.toNat)
  else if eva_masked = tileEpaCsrFreeze then .ok (eva_masked, 4)
  else if eva_masked = tileEpaCsrTileGroupOriginX then .ok (eva_masked, 4)
  else if eva_masked = tileEpaCsrTileGroupOriginY then .ok (eva_masked, 4)
  else .error .fail

def defaultEvaToEpaTileGlobal (cfg : Config) (eva : UInt32) : Except Errno (UInt32 × ℕ) :=
  defaultEvaToEpaTile cfg eva (lowMask globalEpaLogsz).toUInt32

def defaultEvaToEpaTileGroup (cfg : Config) (eva : UInt32) : Except Errno (UInt32 × ℕ) :=
  defaultEvaToEpaTile cfg eva (lowMask epaLogsz).toUInt32

def defaultEvaIsLocal (eva : UInt32) : Bool :=
  (eva.toUInt64 &&& ~~~(lowMask epaLogsz)) == 0

def defaultEvaToNpaLocal (cfg : Config) (src : Coord) (eva : UInt32) :
    Except Errno (Npa × ℕ) := do
  let (epa, sz) ← defaultEvaToEpaTileGroup cfg eva
  return (⟨src.x, src.y, epa⟩, sz)

def defaultGroupXLogsz : UInt32 := 6

def defaultGroupXBitidx : UInt32 := epaLogsz

def defaultGroupYLogsz : UInt32 := 5

def defaultGroupYBitidx : UInt32 := defaultGroupXBitidx + defaultGroupXLogsz

def defaultGroupBitidx : UInt32 := defaultGroupYBitidx + defaultGroupYLogsz

def defaultEvaIsGroup (eva : UInt32) : Bool := hasBit eva defaultGroupBitidx

/-- `o` is the origin of the tile group; the limits are those of the fixed base coordinates. -/
def defaultEvaToNpaGroup (cfg : Config) (o : Coord) (eva : UInt32) :
    Except Errno (Npa × ℕ) := do
  let dim_x := cfg.podShape.x + Configuration.vcoreBaseX
  let dim_y := cfg.podShape.y + Configuration.vcoreBaseY
  let x := field eva defaultGroupXLogsz defaultGroupXBitidx + o.x
  let y := field eva defaultGroupYLogsz defaultGroupYBitidx + o.y
  if dim_x < x then .error .fail
  else if dim_y < y then .error .fail
  else
    let (epa, sz) ← defaultEvaToEpaTileGroup cfg eva
    return (⟨x, y, epa⟩, sz)

def defaultGlobalXLogsz : UInt32 := 7

def defaultGlobalXBitidx : UInt32 := globalEpaLogsz

def defaultGlobalYLogsz : UInt32 := 7

def defaultGlobalYBitidx : UInt32 := defaultGlobalXBitidx + defaultGlobalXLogsz

def defaultGlobalBitidx : UInt32 := defaultGlobalYBitidx + defaultGlobalYLogsz

def defaultEvaIsGlobal (eva : UInt32) : Bool := hasBit eva defaultGlobalBitidx

def defaultEvaToNpaGlobal (cfg : Config) (eva : UInt32) : Except Errno (Npa × ℕ) := do
  let x := field eva defaultGlobalXLogsz defaultGlobalXBitidx
  let y := field eva defaultGlobalYLogsz defaultGlobalYBitidx
  let (epa, sz) ← defaultEvaToEpaTileGlobal cfg eva
  return (⟨x, y, epa⟩, sz)

def defaultDramBitidx : UInt32 := 31

def defaultEvaIsDram (eva : UInt32) : Bool := hasBit eva defaultDramBitidx

def defaultDramMaxXCoord (cfg : Config) (tgt : Coord) : UInt32 :=
  (podVcoreOrigin cfg (pod cfg tgt)).x + cfg.podShape.x - 1

def defaultDramMinXCoord (cfg : Config) (tgt : Coord) : UInt32 :=
  (podVcoreOrigin cfg (pod cfg tgt)).x

def defaultGetXDimlog (cfg : Config) : UInt32 := clog2 cfg.podShape.x

def defaultGetDramXBitidx (cfg : Config) : UInt32 := (lowMask (defaultGetXDimlog cfg)).toUInt32

def defaultGetDramStripeSizeLog (mc : Manycore) : UInt32 := clog2 mc.config.vcacheStripeSize

def defaultGetDramBitwidth (mc : Manycore) : UInt32 :=
  if mc.dramEnabled then mc.config.vcacheBitwidthDataAddr else clog2 mc.config.vcacheSize

def defaultEvaGetXCoordDram (mc : Manycore) (src : Coord) (eva : UInt32) :
    Except Errno UInt32 := do
  let cfg := mc.config
  let og := podVcoreOrigin cfg (pod cfg src)
  let shifted ← shr eva (defaultGetDramStripeSizeLog mc)
  let x := (shifted &&& defaultGetDramXBitidx cfg) + og.x
  if x > defaultDramMaxXCoord cfg src ∨ x < defaultDramMinXCoord cfg src then .error .invalid
  else return x

def defaultEvaGetYCoordDram (mc : Manycore) (src : Coord) (eva : UInt32) :
    Except Errno UInt32 := do
  let cfg := mc.config
  let shift := defaultGetDramStripeSizeLog mc + defaultGetXDimlog cfg
  let shifted ← shr eva shift
  let is_south := shifted &&& 1
  return if is_south ≠ 0 then podDramSouthY cfg (pod cfg src)
    else podDramNorthY cfg (pod cfg src)

/-- `1 << addrbits` is an `int` that is then widened to 64 bits, sign included. -/
def maxDramSz (addrbits : UInt32) : Except Errno ℕ :=
  if addrbits < 31 then .ok (2 ^ addrbits.toNat)
  else if addrbits = 31 then .ok (2 ^ 64 - 2 ^ 31)
  else .error .undefined

def defaultEvaGetEpaDram (mc : Manycore) (eva : UInt32) : Except Errno (UInt32 × ℕ) := do
  let xdimlog := defaultGetXDimlog mc.config
  let stripe_log := defaultGetDramStripeSizeLog mc
  let shift := stripe_log + xdimlog + 1
  let low := eva.toUInt64 &&& lowMask stripe_log
  let top ← shr64 (eva.toUInt64 &&& lowMask defaultDramBitidx) shift
  let top ← shl64 top stripe_log
  let epa := low.toUInt32 ||| top.toUInt32
  let max_dram_sz ← maxDramSz (defaultGetDramBitwidth mc)
  if epa.toNat ≥ max_dram_sz then .error .invalid
  else
    let max_striped_block_size ← shl 1 stripe_log
    return (epa, max_striped_block_size.toNat - low.toNat)

def defaultEvaToNpaDram (mc : Manycore) (src : Coord) (eva : UInt32) :
    Except Errno (Npa × ℕ) := do
  let x ← defaultEvaGetXCoordDram mc src eva
  let y ← defaultEvaGetYCoordDram mc src eva
  let (epa, sz) ← defaultEvaGetEpaDram mc eva
  return (⟨x, y, epa⟩, sz)

/-- Translate an address that tile `src` issues, under the map with group origin `origin`. -/
def defaultEvaToNpa (mc : Manycore) (origin src : Coord) (eva : UInt32) :
    Except Errno (Npa × ℕ) :=
  if defaultEvaIsDram eva then defaultEvaToNpaDram mc src eva
  else if defaultEvaIsGlobal eva then defaultEvaToNpaGlobal mc.config eva
  else if defaultEvaIsGroup eva then defaultEvaToNpaGroup mc.config origin eva
  else if defaultEvaIsLocal eva then defaultEvaToNpaLocal mc.config src eva
  else .error .fail

def defaultOrigin : Coord := ⟨Configuration.vcoreBaseX, Configuration.vcoreBaseY⟩

end EvaToNpa
