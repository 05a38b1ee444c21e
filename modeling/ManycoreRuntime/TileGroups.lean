import ManycoreRuntime.EvaToNpa
import ManycoreRuntime.PodMalloc
import ManycoreRuntime.PodMesh

/-! # Tile groups of a pod

Enqueueing, allocation, launch and cleanup of the tile groups of one pod. The answers of the
hardware and of the program's symbol table are arguments. -/
namespace TileGroups

open Coordinate
open Configuration (Config Manycore)
open EvaToNpa (Npa)
open PodMalloc (Program)
open PodMesh

inductive TileGroupStatus where
  | initialized
  | allocated
  | launched
  | finished
  deriving DecidableEq, Repr

structure Kernel where
  name : String
  argv : List UInt32
  refcount : ℤ
  /-- The name and the arguments were given back. -/
  released : Bool
  deriving DecidableEq, Repr

structure TileGroup where
  id : Coord
  gridId : UInt8
  gridDim : Dimension
  status : TileGroupStatus
  origin : Coord
  dim : Dimension
  kernel : Option ℕ
  argvEva : UInt32
  finishSignalNpa : Npa
  deriving DecidableEq, Repr

structure Pod extends PodMalloc.Pod where
  mesh : Mesh
  tileGroups : List TileGroup
  tileGroupCapacity : UInt32
  numGrids : UInt8
  kernels : List Kernel
  deriving DecidableEq, Repr

/-- What the calls into the hardware and into the program's symbol table return while one tile
group is allocated and launched. -/
structure Answers where
  setConfigSymbols : Coord → Except Errno Unit
  copyArgv : Except Errno Unit
  kernelAddr : Except Errno UInt32
  setRuntimeSymbols : Coord → Except Errno Unit

def hostFinishSignalBaseAddr : UInt32 := 0xF000

def getFinishSignalAddr (id : Coord) (gridDim : Dimension) : UInt32 :=
  hostFinishSignalBaseAddr + ((id.y * gridDim.x + id.x) <<< 2)

def tileGroupInit (mc : Manycore) (pod : Pod) (gridId : UInt8) (tgId : Coord)
    (gridDim dim : Dimension) (kernel : ℕ) : TileGroup where
  id := tgId
  gridId := gridId
  gridDim := gridDim
  status := .initialized
  origin := pod.mesh.origin
  dim := dim
  kernel := some kernel
  argvEva := 0
  finishSignalNpa :=
    ⟨mc.config.hostInterface.x, mc.config.hostInterface.y, getFinishSignalAddr tgId gridDim⟩

def retain (kernel : Kernel) : Kernel := { kernel with refcount := kernel.refcount + 1 }

/-- The array of tile groups doubles when it is full. -/
def tileGroupKernelEnqueue (mc : Manycore) (pod : Pod) (gridId : UInt8) (tgId : Coord)
    (gridDim dim : Dimension) (kernel : ℕ) : Pod :=
  let capacity :=
    if pod.tileGroupCapacity.toNat = pod.tileGroups.length then pod.tileGroupCapacity * 2
    else pod.tileGroupCapacity
  { pod with
    tileGroupCapacity := capacity
    tileGroups := pod.tileGroups ++ [tileGroupInit mc pod gridId tgId gridDim dim kernel]
    kernels := pod.kernels.modify kernel retain }

def kernelEnqueue (mc : Manycore) (pod : Pod) (gridDim tgDim : Dimension) (name : String)
    (argv : List UInt32) : Pod :=
  let kernel := pod.kernels.length
  let pod := { pod with kernels := pod.kernels ++ [⟨name, argv, 0, false⟩] }
  let pod := (foreachCoordinate ⟨0, 0⟩ gridDim).foldl
    (fun pod tgId => tileGroupKernelEnqueue mc pod pod.numGrids tgId gridDim tgDim kernel) pod
  { pod with numGrids := pod.numGrids + 1 }

def tilesAreFree (m : Mesh) (origin : Coord) (dim : Dimension) : Bool :=
  (foreachCoordinate origin dim).all fun xy =>
    (m.tileAt xy).any fun tile => tile.status = .free

def findOrigin (m : Mesh) (dim : Dimension) : Except Errno (Option Coord) := do
  let originBoundary ← subSafe m.dim dim
  let originBoundary := add originBoundary ⟨1, 1⟩
  return (foreachCoordinate m.origin originBoundary).find? fun origin => tilesAreFree m origin dim

def claimTile (id origin : Coord) (tile : Tile) : Tile :=
  { tile with origin := origin, tileGroupId := id, status := .busy }

/-- Each tile is marked before its symbols are set; the first write that fails ends the loop. -/
def claimTiles (setConfigSymbols : Coord → Except Errno Unit) (id origin : Coord) :
    Mesh → List Coord → Except Errno Unit × Mesh
  | m, [] => (.ok (), m)
  | m, xy :: rest =>
    let m := m.modifyTile xy (claimTile id origin)
    match setConfigSymbols xy with
    | .error e => (.error e, m)
    | .ok _ => claimTiles setConfigSymbols id origin m rest

def allocateTiles (setConfigSymbols : Coord → Except Errno Unit) (m : Mesh) (tg : TileGroup) :
    Except Errno Unit × Mesh × TileGroup :=
  match findOrigin m tg.dim with
  | .error e => (.error e, m, tg)
  | .ok none => (.error .notfound, m, tg)
  | .ok (some origin) =>
    let tg := { tg with origin := origin }
    match claimTiles setConfigSymbols tg.id origin m (foreachCoordinate origin tg.dim) with
    | (.error e, m) => (.error e, m, tg)
    | (.ok _, m) => (.ok (), m, { tg with status := .allocated })

def wakeTiles (setRuntimeSymbols : Coord → Except Errno Unit) : List Coord → Except Errno Unit
  | [] => .ok ()
  | xy :: rest => do
    let _ ← setRuntimeSymbols xy
    wakeTiles setRuntimeSymbols rest

def launch (answers : Answers) (pod : Pod) (tg : TileGroup) :
    Except Errno Unit × Option Program × TileGroup :=
  match tg.kernel.bind fun k => pod.kernels[k]? with
  | none => (.error .undefined, pod.program, tg)
  | some kernel =>
    match pod.program with
    | none => (.error .invalid, none, tg)
    | some program =>
      match program.malloc (4 * UInt32.ofNat kernel.argv.length) with
      | (.error e, program) => (.error e, some program, tg)
      | (.ok argvAddr, program) =>
        let tg := { tg with argvEva := argvAddr }
        let sent : Except Errno Unit := do
          let _ ← answers.copyArgv
          let _ ← answers.kernelAddr
          wakeTiles answers.setRuntimeSymbols (foreachCoordinate tg.origin tg.dim)
        match sent with
        | .error e => (.error e, some program, tg)
        | .ok _ => (.ok (), some program, { tg with status := .launched })

def allocateAndLaunch (answers : Answers) (pod : Pod) (i : ℕ) (tg : TileGroup) :
    Bool × Except Errno Unit × Pod :=
  match allocateTiles answers.setConfigSymbols pod.mesh tg with
  | (.error _, mesh, tg) =>
    (false, .ok (), { pod with mesh := mesh, tileGroups := pod.tileGroups.set i tg })
  | (.ok _, mesh, tg) =>
    let (result, program, tg) := launch answers { pod with mesh := mesh } tg
    (true, result, { pod with
      mesh := mesh, program := program, tileGroups := pod.tileGroups.set i tg })

/-- The loop over the tile groups with the given indices; `lastFailed` is the last shape that
could not be allocated. -/
def tryLaunchFrom (answers : ℕ → Answers) :
    List ℕ → Dimension → Pod → Except Errno Unit × Pod
  | [], _, pod => (.ok (), pod)
  | i :: rest, lastFailed, pod =>
    match pod.tileGroups[i]? with
    | none => (.error .undefined, pod)
    | some tg =>
      if tg.status ≠ .initialized then tryLaunchFrom answers rest lastFailed pod
      else if lastFailed = tg.dim then tryLaunchFrom answers rest lastFailed pod
      else
        match allocateAndLaunch (answers i) pod i tg with
        | (false, _, pod) => tryLaunchFrom answers rest tg.dim pod
        | (true, .error e, pod) => (.error e, pod)
        | (true, .ok _, pod) => tryLaunchFrom answers rest lastFailed pod

def tryLaunchTileGroups (answers : ℕ → Answers) (pod : Pod) : Except Errno Unit × Pod :=
  tryLaunchFrom answers (List.range pod.tileGroups.length) ⟨0, 0⟩ pod

def freeTile (meshOrigin : Coord) (tile : Tile) : Tile :=
  { tile with origin := meshOrigin, tileGroupId := ⟨0, 0⟩, status := .free }

def deallocateTiles (m : Mesh) (tg : TileGroup) : Mesh :=
  m.updateTiles (fun _ => freeTile m.origin) (foreachCoordinate tg.origin tg.dim)

/-- The last tile group of a kernel gives its name and arguments back. -/
def release (kernel : Kernel) : Kernel :=
  if kernel.refcount - 1 = 0 then ⟨"", [], 0, true⟩
  else { kernel with refcount := kernel.refcount - 1 }

def tileGroupExit (pod : Pod) (i : ℕ) (tg : TileGroup) : Except Errno Unit × Pod :=
  match pod.program with
  | none => (.error .invalid, pod)
  | some program =>
    let tg' := { tg with
      dim := ⟨0, 0⟩
      origin := pod.mesh.origin
      id := ⟨0, 0⟩
      gridId := 0
      status := .finished
      kernel := none }
    let kernels := match tg.kernel with
      | none => pod.kernels
      | some k => pod.kernels.modify k release
    (.ok (), { pod with
      program := some (program.free tg.argvEva)
      tileGroups := pod.tileGroups.set i tg'
      kernels := kernels })

/-- A finish packet is matched by status, origin and address. -/
def finishes (src : Coord) (epa : UInt32) (tg : TileGroup) : Bool :=
  tg.status = .launched && tg.origin = src && epa = tg.finishSignalNpa.epa

def retire (pod : Pod) (i : ℕ) (tg : TileGroup) : Except Errno Unit × Pod :=
  tileGroupExit { pod with mesh := deallocateTiles pod.mesh tg } i tg

/-- What a finish packet does to the pod of its source: nothing if no tile group matches. -/
def finishTileGroup (pod : Pod) (src : Coord) (epa : UInt32) :
    Option (ℕ × Except Errno Unit × Pod) :=
  (pod.tileGroups.findIdx? (finishes src epa)).bind fun i =>
    pod.tileGroups[i]?.map fun tg => (i, retire pod i tg)

def allTileGroupsFinished (pod : Pod) : Bool :=
  pod.tileGroups.all fun tg => tg.status = .finished

end TileGroups
