import ManycoreRuntime.EvaToNpa

/-! # From network physical addresses back to endpoint virtual addresses

The backward direction of the default map, with its own classification of addresses, and
the maps that the runtime hands to its callers. -/
namespace NpaToEva

open BitField
open Coordinate (Coord Errno)
open Configuration (Config Manycore)
open ConfigPod EvaToNpa

def defaultDramEpaIsValid (mc : Manycore) (epa : UInt32) : Bool :=
  if mc.dramEnabled then epa.toNat < mc.config.dramSize else epa < mc.config.vcacheSize

def defaultLocalEpaIsValid (cfg : Config) (epa : UInt32) : Bool :=
  epa ≥ tileEpaDmemBase && epa < tileEpaDmemBase + cfg.dmemSize

/-- The column is compared with the target's pod; the row is not. -/
def defaultNpaIsDram (mc : Manycore) (npa : Npa) (tgt : Coord) : Bool :=
  let cfg := mc.config
  let og := podVcoreOrigin cfg (pod cfg tgt)
  isDram cfg npa.xy && defaultDramEpaIsValid mc npa.epa &&
    npa.x ≥ defaultDramMinXCoord cfg og && npa.x ≤ defaultDramMaxXCoord cfg og

def defaultNpaIsHost (cfg : Config) (npa : Npa) : Bool :=
  cfg.hostInterface.x == npa.x && cfg.hostInterface.y == npa.y

def defaultNpaIsLocal (cfg : Config) (npa : Npa) (tgt : Coord) : Bool :=
  npa.x == tgt.x && npa.y == tgt.y && defaultLocalEpaIsValid cfg npa.epa

def defaultNpaIsGlobal (cfg : Config) (npa : Npa) : Bool :=
  isVanillaCore cfg npa.xy && defaultLocalEpaIsValid cfg npa.epa

/-- An address is only promised up to the end of its word. -/
def wordLeft (epa : UInt32) : ℕ := 4 - (epa &&& 0x3).toNat

def defaultNpaToEvaDram (mc : Manycore) (tgt : Coord) (npa : Npa) :
    Except Errno (UInt32 × ℕ) := do
  let cfg := mc.config
  let origin := podVcoreOrigin cfg (pod cfg tgt)
  let is_south : UInt32 := if isDramSouth cfg npa.xy then 1 else 0
  let stripe_log := defaultGetDramStripeSizeLog mc
  let xdimlog := defaultGetXDimlog cfg
  let low := (npa.epa.toUInt64 &&& lowMask stripe_log).toUInt32
  let column ← shl (npa.x - defaultDramMinXCoord cfg origin) stripe_log
  let south ← shl is_south (stripe_log + xdimlog)
  let section_ ← shr npa.epa stripe_log
  let top ← shl section_ (stripe_log + xdimlog + 1)
  return (low ||| column ||| south ||| top ||| (1 <<< defaultDramBitidx), wordLeft npa.epa)

def defaultNpaToEvaGlobalRemote (npa : Npa) : Except Errno (UInt32 × ℕ) :=
  .ok (npa.epa ||| (npa.x <<< defaultGlobalXBitidx) ||| (npa.y <<< defaultGlobalYBitidx) |||
    (1 <<< defaultGlobalBitidx), wordLeft npa.epa)

def defaultNpaToEvaHost (npa : Npa) : Except Errno (UInt32 × ℕ) :=
  defaultNpaToEvaGlobalRemote npa

def defaultNpaToEvaLocal (npa : Npa) : Except Errno (UInt32 × ℕ) :=
  defaultNpaToEvaGlobalRemote npa

def defaultNpaToEvaGlobal (npa : Npa) : Except Errno (UInt32 × ℕ) :=
  defaultNpaToEvaGlobalRemote npa

/-- Translate an address for tile `tgt`; the group origin plays no part. -/
def defaultNpaToEva (mc : Manycore) (_origin tgt : Coord) (npa : Npa) :
    Except Errno (UInt32 × ℕ) :=
  if defaultNpaIsDram mc npa tgt then defaultNpaToEvaDram mc tgt npa
  else if defaultNpaIsHost mc.config npa then defaultNpaToEvaHost npa
  else if defaultNpaIsLocal mc.config npa tgt then defaultNpaToEvaLocal npa
  else if defaultNpaIsGlobal mc.config npa then defaultNpaToEvaGlobal npa
  else .error .fail

def defaultEvaSize (mc : Manycore) (o : Coord) (eva : UInt32) : Except Errno ℕ :=
  (defaultEvaToNpa mc o o eva).map Prod.snd

structure EvaMap where
  priv : Coord
  evaToNpa : Manycore → Coord → Coord → UInt32 → Except Errno (Npa × ℕ)
  evaSize : Manycore → Coord → UInt32 → Except Errno ℕ
  npaToEva : Manycore → Coord → Coord → Npa → Except Errno (UInt32 × ℕ)

def originEvaMapInit (origin : Coord) : EvaMap where
  priv := origin
  evaToNpa := defaultEvaToNpa
  evaSize := defaultEvaSize
  npaToEva := defaultNpaToEva

def defaultMap : EvaMap := originEvaMapInit defaultOrigin

def evaToNpa (mc : Manycore) (map : EvaMap) (src : Coord) (eva : UInt32) :
    Except Errno (Npa × ℕ) :=
  map.evaToNpa mc map.priv src eva

@[simp] theorem evaToNpa_origin (mc : Manycore) (origin src : Coord) (eva : UInt32) :
    evaToNpa mc (originEvaMapInit origin) src eva = defaultEvaToNpa mc origin src eva := by
  simp only [evaToNpa, originEvaMapInit]

def npaToEva (mc : Manycore) (map : EvaMap) (tgt : Coord) (npa : Npa) :
    Except Errno (UInt32 × ℕ) :=
  map.npaToEva mc map.priv tgt npa

@[simp] theorem npaToEva_origin (mc : Manycore) (origin tgt : Coord) (npa : Npa) :
    npaToEva mc (originEvaMapInit origin) tgt npa = defaultNpaToEva mc origin tgt npa := by
  simp only [npaToEva, originEvaMapInit]

end NpaToEva
