import ManycoreRuntime.ElfLoad
import ManycoreRuntime.FileSymbols
import ManycoreRuntime.TileGroups

/-! # Initialisation of a pod's program

A program is attached to a pod in steps: the mesh, the table of tile groups, the copy of the
program with its allocator, and last the loading of the tiles. Each step may fail. -/
namespace PodInit

open Actions
open ByteStore
open Coordinate (Coord Dimension Errno getRelative)
open Configuration (Config Manycore)
open ElfImage
open EvaMemory
open EvaToNpa
open Loader (Session fromImage tileFreeze tileSetOrigin write32)
open NpaToEva (defaultMap)
open Packets (RequestPacket)
open PodMesh (Mesh meshDim meshInit)
open SymbolSearch (CString le16 le32 symbolToEva)
open Machines (Machine)
open TileGroups (Kernel TileGroup)
open WriteMem

structure Pointer (α : Type) where
  addr : ℕ
  value : α
  deriving DecidableEq, Repr

structure Program where
  binName : String
  bin : Option (Pointer Image)
  allocName : String
  allocId : ℤ
  allocator : PodMalloc.Program
  deriving DecidableEq, Repr

structure Pod where
  podCoord : Coord
  program : Option (Pointer Program)
  mesh : Option (Pointer Mesh)
  tileGroups : Option (Pointer (List TileGroup))
  tileGroupCapacity : UInt32
  numGrids : UInt8
  kernels : List Kernel
  programLoaded : Bool
  deriving DecidableEq, Repr

structure ProgramOptions where
  allocId : ℤ
  allocName : String
  meshDim : Dimension
  programName : String
  moveBinData : Bool
  deriving DecidableEq, Repr

/-- The addresses that the host's allocator returns for the blocks of an initialisation; none is
the null pointer. -/
structure Allocations where
  mesh : Option ℕ
  tiles : Option ℕ
  tileGroups : Option ℕ
  program : Option ℕ
  binName : Option ℕ
  bin : Option ℕ
  allocator : Option ℕ
  allocatorName : Option ℕ
  deriving DecidableEq, Repr

/-- One pod, and the packets that were sent to the machine. -/
structure State where
  pod : Pod
  sent : List RequestPacket
  deriving DecidableEq, Repr

section Primitives

variable {α : Type}

def getPod : Action Errno State Pod := fun s => some (.ok s.pod, s)

def modifyPod (f : Pod → Pod) : Action Errno State Unit := fun s =>
  some (.ok (), { s with pod := f s.pod })

def onHardware (x : Session α) : Action Errno State α := fun s =>
  (x s.sent).map fun r => (r.1, { s with sent := r.2 })

def malloc : Option ℕ → Action Errno State ℕ
  | none => throw .nomem
  | some addr => pure addr

end Primitives

def cString (s : String) : CString where
  bytes := (s.toList.map fun c => UInt8.ofNat c.toNat).takeWhile (· != 0)
  nonzero := fun b hb => by simpa using List.all_eq_true.mp List.all_takeWhile b hb

def kernelNotLoadedVal : UInt32 := 0x0001

def finishSignalVal : UInt32 := 0xFACE

section Tiles

variable (mc : Manycore) (platform : Platform)

section Symbols

variable (bin : Option Image)

/-- The word is a local variable, whose address is aligned. -/
def tileSetSymbolVal (tile : Coord) (symbol : String) (val : UInt32) : Session Unit := do
  let symbol_dev ← fromImage (symbolToEva bin (some (cString symbol)) true)
  evaWrite mc defaultMap tile platform symbol_dev 0 (byteOf val) 4

def tileUnfreeze (tile : Coord) : Session Unit := do
  tileSetSymbolVal mc platform bin tile "cuda_kernel_ptr" kernelNotLoadedVal
  write32 mc platform ⟨tile.x, tile.y, tileEpaCsrFreeze⟩ 0

def tileSetConfigSymbols (origin tg_id : Coord) (tg_dim grid_dim : Dimension) (tile : Coord) :
    Session Unit := do
  let coord := getRelative origin tile
  tileSetOrigin mc platform tile origin
  tileSetSymbolVal mc platform bin tile "__bsg_grp_org_x" origin.x
  tileSetSymbolVal mc platform bin tile "__bsg_grp_org_y" origin.y
  tileSetSymbolVal mc platform bin tile "__bsg_x" coord.x
  tileSetSymbolVal mc platform bin tile "__bsg_y" coord.y
  tileSetSymbolVal mc platform bin tile "__bsg_id" (coord.y * tg_dim.x + coord.x)
  tileSetSymbolVal mc platform bin tile "__bsg_tile_group_id_x" tg_id.x
  tileSetSymbolVal mc platform bin tile "__bsg_tile_group_id_y" tg_id.y
  tileSetSymbolVal mc platform bin tile "__bsg_tile_group_id" (tg_id.y * grid_dim.x + tg_id.x)
  tileSetSymbolVal mc platform bin tile "__bsg_grid_dim_x" grid_dim.x
  tileSetSymbolVal mc platform bin tile "__bsg_grid_dim_y" grid_dim.y
  tileSetSymbolVal mc platform bin tile "cuda_finish_signal_val" finishSignalVal
  tileSetSymbolVal mc platform bin tile "cuda_kernel_not_loaded_val" kernelNotLoadedVal

end Symbols

def loadTiles (mesh : Mesh) (bin : Option (Pointer Image)) : Session Unit := do
  let image := bin.map (·.value)
  let base := (bin.map (·.addr)).getD 0
  let tile_list := mesh.tiles.map (·.coord)
  forM tile_list (tileFreeze mc platform)
  Loader.load mc platform base image tile_list
  forM tile_list fun tile => do
    tileSetConfigSymbols mc platform image mesh.origin ⟨0, 0⟩ ⟨1, 1⟩ ⟨1, 1⟩ tile
    tileUnfreeze mc platform image tile

def hostRequestFence : Session Unit := fun sent => some (platform.fence sent.length, sent)

end Tiles

section Init

variable (mc : Manycore) (platform : Platform) (default_mesh_dim : Dimension)
variable (a : Allocations) (popts : ProgramOptions)

/-- The dimensions are checked first; the tiles are filled in once they have memory. -/
def podMeshInit : Action Errno State Unit := do
  let pod ← getPod
  let checked := meshInit mc.config pod.podCoord popts.meshDim default_mesh_dim
  if checked = .error .invalid then throw .invalid
  else do
    let addr ← malloc a.mesh
    let _ ← malloc a.tiles
    let mesh ← fromExcept checked
    modifyPod fun pod => { pod with mesh := some ⟨addr, mesh⟩ }

def podTileGroupsInit : Action Errno State Unit := do
  let addr ← malloc a.tileGroups
  modifyPod fun pod => { pod with tileGroups := some ⟨addr, []⟩, tileGroupCapacity := 1 }

/-- Whatever code the look-up of the program's end fails with, the caller gets another. -/
def dramEnd (bin : Option Image) : Except Errno UInt32 :=
  match symbolToEva bin (some (cString "_bsg_dram_end_addr")) true with
  | .ok eva => .ok eva
  | .error (.code _) => .error .invalid
  | .error _ => .error .undefined

def programAllocatorInit (bin : Option Image) : Action Errno State PodMalloc.Program := do
  let _ ← malloc a.allocator
  let _ ← malloc a.allocatorName
  let program_end_eva ← fromExcept (dramEnd bin)
  fromExcept (PodMalloc.programAllocatorInit mc.config (some program_end_eva))

/-- The program takes the binary over, or has a copy of its own. -/
def programBin (bin_data : Option (Pointer Image)) :
    Action Errno State (Option (Pointer Image)) :=
  if popts.moveBinData then pure bin_data
  else do
    let addr ← malloc a.bin
    match bin_data with
    | none => throw .undefined
    | some data => pure (some ⟨addr, data.value⟩)

def podProgramLoad : Action Errno State Unit := do
  let pod ← getPod
  match pod.mesh, pod.program with
  | some mesh, some program => onHardware (loadTiles mc platform mesh.value program.value.bin)
  | _, _ => throw .undefined

def podAttachProgram (bin_data : Option (Pointer Image)) : Action Errno State Unit := do
  podTileGroupsInit a
  let addr ← malloc a.program
  let _ ← malloc a.binName
  let bin ← programBin a popts bin_data
  let allocator ← programAllocatorInit mc a (bin.map (·.value))
  modifyPod fun pod => { pod with
    program := some ⟨addr, ⟨popts.programName, bin, popts.allocName, popts.allocId, allocator⟩⟩ }
  podProgramLoad mc platform
  modifyPod fun pod => { pod with programLoaded := true }

def podProgramInitBinaryOpts (bin_data : Option (Pointer Image)) : Action Errno State Unit := do
  podMeshInit mc default_mesh_dim a popts
  podAttachProgram mc platform a popts bin_data

end Init

def Pod.groups (pod : Pod) (mesh : Mesh) : TileGroups.Pod where
  podCoord := pod.podCoord
  program := pod.program.map fun program => program.value.allocator
  mesh := mesh
  tileGroups := (pod.tileGroups.map (·.value)).getD []
  tileGroupCapacity := pod.tileGroupCapacity
  numGrids := pod.numGrids
  kernels := pod.kernels

def Pod.withGroups (pod : Pod) (left : TileGroups.Pod) : Pod :=
  { pod with
    program := pod.program.map fun program =>
      { program with value := { program.value with
        allocator := left.program.getD program.value.allocator } }
    tileGroups := pod.tileGroups.map fun groups => { groups with value := left.tileGroups }
    kernels := left.kernels }

/-- The exits of the tile groups that have not finished; the first that fails ends the loop. -/
def tileGroupsExitFrom : List ℕ → TileGroups.Pod → Except Errno Unit × TileGroups.Pod
  | [], pod => (.ok (), pod)
  | i :: rest, pod =>
    match pod.tileGroups[i]? with
    | none => (.error .undefined, pod)
    | some tg =>
      if tg.status = .finished then tileGroupsExitFrom rest pod
      else
        match TileGroups.tileGroupExit pod i tg with
        | (.error e, pod) => (.error e, pod)
        | (.ok _, pod) => tileGroupsExitFrom rest pod

def podTileGroupsExit (mesh : Mesh) : Action Errno State Unit := do
  let pod ← getPod
  let groups := pod.groups mesh
  let (result, left) := tileGroupsExitFrom (List.range groups.tileGroups.length) groups
  modifyPod fun pod => pod.withGroups left
  fromExcept result
  modifyPod fun pod => { pod with tileGroups := none, tileGroupCapacity := 0 }

/-- Without a loaded program there is nothing to do. -/
def podProgramFinish (mc : Manycore) (platform : Platform) : Action Errno State Unit := do
  let pod ← getPod
  if ¬ pod.programLoaded then pure ()
  else
    match pod.mesh, pod.program with
    | some mesh, some _ => do
      onHardware (forM (mesh.value.tiles.map (·.coord)) (tileFreeze mc platform))
      onHardware (hostRequestFence platform)
      podTileGroupsExit mesh.value
      modifyPod fun pod => { pod with mesh := none }
      modifyPod fun pod => { pod with program := none, programLoaded := false }
    | _, _ => throw .undefined

structure Device where
  pods : List Pod
  sent : List RequestPacket
  deriving DecidableEq, Repr

def checkPodId (pods : List Pod) (pod_id : ℤ) : Except Errno Pod :=
  if pod_id < 0 then .error .invalid
  else
    match pods[pod_id.toNat]? with
    | none => .error .invalid
    | some pod => .ok pod

def onPod (pod_id : ℤ) (call : Action Errno State Unit) : Action Errno Device Unit := fun d =>
  match checkPodId d.pods pod_id with
  | .error e => some (.error e, d)
  | .ok pod => (call ⟨pod, d.sent⟩).map fun r =>
    (r.1, ⟨d.pods.set pod_id.toNat r.2.pod, r.2.sent⟩)

structure Kept (before after : Pod) : Prop where
  mesh : after.mesh = before.mesh
  tileGroups : after.tileGroups = before.tileGroups
  program : after.program = before.program
  programLoaded : after.programLoaded = before.programLoaded

/-- The pod with the given id, if there is one, is kept. -/
def PodKept (pod_id : ℤ) (before after : Device) : Prop :=
  ∀ pod, checkPodId before.pods pod_id = .ok pod →
    ∃ pod', checkPodId after.pods pod_id = .ok pod' ∧ Kept pod pod'

def BadMeshDim (cfg : Config) (optDim default_mesh_dim : Dimension) : Prop :=
  let dim := meshDim cfg optDim default_mesh_dim
  dim.x = 0 ∨ dim.y = 0 ∨ cfg.podShape.x < dim.x ∨ cfg.podShape.y < dim.y

/-- The call ends before the mesh is attached. -/
def MeshRefused (cfg : Config) (default_mesh_dim : Dimension) (a : Allocations)
    (popts : ProgramOptions) (pod_id : ℤ) (d : Device) : Prop :=
  (∃ e, checkPodId d.pods pod_id = .error e) ∨
    BadMeshDim cfg popts.meshDim default_mesh_dim ∨ a.mesh = none ∨ a.tiles = none

/-- The host's allocator returns no block that is in use: the mesh of the pod stays where it is
until it is freed. -/
def MallocFresh (a : Allocations) (pod_id : ℤ) (d : Device) : Prop :=
  ∀ pod mesh, checkPodId d.pods pod_id = .ok pod → pod.mesh = some mesh → a.mesh ≠ some mesh.addr

section Proof

variable {α : Type} {P : Pod → Prop}

theorem preserves_getPod : Preserves (fun s => P s.pod) getPod := by
  intro s r t h hs
  cases h
  exact hs

theorem preserves_modifyPod {g : Pod → Pod} (h : ∀ pod, P pod → P (g pod)) :
    Preserves (fun s => P s.pod) (modifyPod g) := by
  intro s r t hrun hs
  cases hrun
  exact h s.pod hs

theorem preserves_onHardware (x : Session α) : Preserves (fun s => P s.pod) (onHardware x) := by
  intro s r t h hs
  obtain ⟨_, -, hr⟩ := Option.map_eq_some_iff.mp h
  cases hr
  exact hs

theorem preserves_malloc (answer : Option ℕ) :
    Preserves (fun s => P s.pod) (malloc answer) := by
  cases answer with
  | none => exact .throw _
  | some addr => exact .pure _

end Proof

section Init

variable {mc : Manycore} {platform : Platform} {default_mesh_dim : Dimension}
variable {a : Allocations} {popts : ProgramOptions} {bin_data : Option (Pointer Image)}

theorem meshInit_eq_invalid {cfg : Config} {podCoord : Coord} {optDim : Dimension} :
    meshInit cfg podCoord optDim default_mesh_dim = .error .invalid ↔
      BadMeshDim cfg optDim default_mesh_dim := by
  simp only [meshInit, BadMeshDim, UInt32.le_zero_iff, gt_iff_lt]
  split
  · simp only [true_iff]
    tauto
  · split
    · simp only [true_iff]
      tauto
    · split
      · simp only [Except.error.injEq, reduceCtorEq, false_iff]
        tauto
      · simp only [reduceCtorEq, false_iff]
        tauto

theorem meshInit_error {cfg : Config} {podCoord : Coord} {optDim : Dimension} {e : Errno}
    (h : meshInit cfg podCoord optDim default_mesh_dim = .error e) :
    e = .invalid ∨ e = .undefined := by
  simp only [meshInit] at h
  split_ifs at h <;> cases h
  · exact Or.inl rfl
  · exact Or.inl rfl
  · exact Or.inr rfl

theorem podMeshInit_refused (s : State)
    (h : BadMeshDim mc.config popts.meshDim default_mesh_dim ∨ a.mesh = none ∨ a.tiles = none) :
    ∃ e, Fails (podMeshInit mc default_mesh_dim a popts) s e s := by
  by_cases hbad : BadMeshDim mc.config popts.meshDim default_mesh_dim
  · refine ⟨.invalid, fails_bind.mpr (Or.inr ⟨s.pod, s, rfl, ?_⟩)⟩
    rw [if_pos (meshInit_eq_invalid.mpr hbad)]
    rfl
  · refine ⟨.nomem, fails_bind.mpr (Or.inr ⟨s.pod, s, rfl, ?_⟩)⟩
    rw [if_neg (mt meshInit_eq_invalid.mp hbad), fails_bind]
    cases hm : a.mesh with
    | none => exact Or.inl rfl
    | some addr =>
      refine Or.inr ⟨addr, s, rfl, fails_bind.mpr (Or.inl ?_)⟩
      rw [(h.resolve_left hbad).resolve_left (by simp [hm])]
      rfl

theorem podMeshInit_accepted (s : State)
    (h : ¬ (BadMeshDim mc.config popts.meshDim default_mesh_dim ∨ a.mesh = none ∨
      a.tiles = none)) :
    Fails (podMeshInit mc default_mesh_dim a popts) s .undefined s ∨
      ∃ addr mesh, a.mesh = some addr ∧
        meshInit mc.config s.pod.podCoord popts.meshDim default_mesh_dim = .ok mesh ∧
        Returns (podMeshInit mc default_mesh_dim a popts) s ()
          { s with pod := { s.pod with mesh := some ⟨addr, mesh⟩ } } := by
  simp only [not_or] at h
  obtain ⟨hbad, hm, ht⟩ := h
  obtain ⟨addr, hm⟩ := Option.ne_none_iff_exists'.mp hm
  obtain ⟨tiles, ht⟩ := Option.ne_none_iff_exists'.mp ht
  have hok : meshInit mc.config s.pod.podCoord popts.meshDim default_mesh_dim ≠ .error .invalid :=
    mt meshInit_eq_invalid.mp hbad
  have hrun : podMeshInit mc default_mesh_dim a popts s =
      (fromExcept (meshInit mc.config s.pod.podCoord popts.meshDim default_mesh_dim) >>=
        fun mesh => modifyPod fun pod => { pod with mesh := some ⟨addr, mesh⟩ }) s := by
    rw [podMeshInit, bind_of_ok (rfl : getPod s = some (.ok s.pod, s))]
    rw [if_neg hok, hm, ht, bind_of_ok (rfl : malloc (some addr) s = some (.ok addr, s)),
      bind_of_ok (rfl : malloc (some tiles) s = some (.ok tiles, s))]
  cases hinit : meshInit mc.config s.pod.podCoord popts.meshDim default_mesh_dim with
  | error e =>
    left
    rw [Fails, hrun, hinit]
    rcases meshInit_error hinit with rfl | rfl
    · exact absurd hinit hok
    · rfl
  | ok mesh =>
    right
    refine ⟨addr, mesh, hm, rfl, ?_⟩
    rw [Returns, hrun, hinit]
    rfl

theorem podAttachProgram_preserves {P : Pod → Prop}
    (h : ∀ pod pod', pod'.mesh = pod.mesh → P pod → P pod') :
    Preserves (fun s => P s.pod) (podAttachProgram mc platform a popts bin_data) := by
  refine .bind (.bind (preserves_malloc _) fun _ =>
    preserves_modifyPod fun pod => h pod _ rfl) fun _ => ?_
  refine .bind (preserves_malloc _) fun addr => .bind (preserves_malloc _) fun _ =>
    .bind ?_ fun bin => ?_
  · rw [programBin]
    split
    · exact .pure _
    · refine .bind (preserves_malloc _) fun copy => ?_
      cases bin_data with
      | none => exact .throw _
      | some data => exact .pure _
  · refine .bind ?_ fun allocator => .bind (preserves_modifyPod fun pod => h pod _ rfl) fun _ =>
      .bind ?_ fun _ => preserves_modifyPod fun pod => h pod _ rfl
    · exact .bind (preserves_malloc _) fun _ => .bind (preserves_malloc _) fun _ =>
        .bind (.fromExcept _) fun _ => .fromExcept _
    · refine .bind preserves_getPod fun pod => ?_
      split
      · exact preserves_onHardware _
      · exact .throw _

theorem kept_iff {s t : State} {e : Errno}
    (h : Fails (podProgramInitBinaryOpts mc platform default_mesh_dim a popts bin_data) s e t)
    (he : e ≠ .undefined) (hfresh : ∀ mesh, s.pod.mesh = some mesh → a.mesh ≠ some mesh.addr) :
    Kept s.pod t.pod ↔
      BadMeshDim mc.config popts.meshDim default_mesh_dim ∨ a.mesh = none ∨ a.tiles = none := by
  constructor
  · intro hkept
    by_contra hnot
    have hmesh := podMeshInit_accepted s hnot
    rcases fails_bind.mp h with hfail | ⟨_, u, hret, hrest⟩
    · rcases hmesh with hundef | ⟨_, _, -, -, hret⟩
      · rw [Fails, hfail] at hundef
        cases hundef
        exact he rfl
      · rw [Returns, hfail] at hret
        cases hret
    · rcases hmesh with hundef | ⟨addr, mesh, hm, -, hret'⟩
      · rw [Fails, hret] at hundef
        cases hundef
      · rw [Returns, hret] at hret'
        cases hret'
        -- what fails after the mesh leaves it attached
        have hkeep : t.pod.mesh = some ⟨addr, mesh⟩ :=
          podAttachProgram_preserves (P := fun pod => pod.mesh = some ⟨addr, mesh⟩)
            (fun _ _ he hp => he.trans hp) _ _ _ hrest rfl
        exact hfresh ⟨addr, mesh⟩ (hkept.mesh ▸ hkeep) hm
  · intro hrefused
    obtain ⟨e', hfail⟩ := podMeshInit_refused s hrefused
    have hrun : Fails (podProgramInitBinaryOpts mc platform default_mesh_dim a popts bin_data)
        s e' s := fails_bind.mpr (Or.inl hfail)
    rw [Fails, h] at hrun
    cases hrun
    exact ⟨rfl, rfl, rfl, rfl⟩

end Init

def podInit (pod_coord : Coord) : Pod where
  podCoord := pod_coord
  program := none
  mesh := none
  tileGroups := none
  tileGroupCapacity := 0
  numGrids := 0
  kernels := []
  programLoaded := false

def Pod.attached (pod : Pod) (mesh : Pointer Mesh) (groups : ℕ) (program : Pointer Program) : Pod :=
  { pod with
    mesh := some mesh
    tileGroups := some ⟨groups, []⟩
    tileGroupCapacity := 1
    program := some program
    programLoaded := true }

def Pointer.unplaced {α : Type} (p : Pointer α) : Pointer α := ⟨0, p.value⟩

def Program.unplaced (program : Program) : Program :=
  { program with bin := program.bin.map .unplaced }

def Pod.unplaced (pod : Pod) : Pod :=
  { pod with
    program := pod.program.map fun program => ⟨0, program.value.unplaced⟩
    mesh := pod.mesh.map .unplaced
    tileGroups := pod.tileGroups.map .unplaced }

section Primitives

variable {α : Type} {s t : State}

theorem returns_getPod {pod : Pod} : Returns getPod s pod t ↔ s.pod = pod ∧ s = t := by
  show some (Except.ok s.pod, s) = some (.ok pod, t) ↔ _
  simp only [Option.some.injEq, Prod.mk.injEq, Except.ok.injEq]

theorem returns_modifyPod {g : Pod → Pod} {u : Unit} :
    Returns (modifyPod g) s u t ↔ { s with pod := g s.pod } = t := by
  show some (Except.ok (), _) = some (.ok u, t) ↔ _
  simp only [Option.some.injEq, Prod.mk.injEq, true_and]

theorem returns_onHardware {x : Session α} {b : α} :
    Returns (onHardware x) s b t ↔
      ∃ sent, Returns x s.sent b sent ∧ { s with sent := sent } = t := by
  simp only [Returns, onHardware, Option.map_eq_some_iff, Prod.mk.injEq]
  constructor
  · rintro ⟨⟨r, sent⟩, hx, rfl, rfl⟩
    exact ⟨sent, hx, rfl⟩
  · rintro ⟨sent, hx, rfl⟩
    exact ⟨_, hx, rfl, rfl⟩

theorem returns_malloc {answer : Option ℕ} {addr : ℕ} :
    Returns (malloc answer) s addr t ↔ answer = some addr ∧ s = t := by
  cases answer with
  | none => simp [malloc, not_returns_throw]
  | some addr' => simp only [malloc, returns_pure, Option.some.injEq]

end Primitives

section Attach

variable {mc : Manycore} {platform : Platform} {default_mesh_dim : Dimension}
variable {a : Allocations} {popts : ProgramOptions} {bin_data bin : Option (Pointer Image)}
variable {s t : State}

theorem podMeshInit_returns (h : Returns (podMeshInit mc default_mesh_dim a popts) s () t) :
    ∃ addr mesh, meshInit mc.config s.pod.podCoord popts.meshDim default_mesh_dim = .ok mesh ∧
      t = { s with pod := { s.pod with mesh := some ⟨addr, mesh⟩ } } := by
  by_cases hrefused : BadMeshDim mc.config popts.meshDim default_mesh_dim ∨ a.mesh = none ∨
      a.tiles = none
  · obtain ⟨e, hfail⟩ := podMeshInit_refused s hrefused
    rw [Fails, h] at hfail
    cases hfail
  · rcases podMeshInit_accepted s hrefused with hfail | ⟨addr, mesh, -, hinit, hret⟩
    · rw [Fails, h] at hfail
      cases hfail
    · rw [Returns, h] at hret
      cases hret
      exact ⟨addr, mesh, hinit, rfl⟩

theorem programBin_returns (h : Returns (programBin a popts bin_data) s bin t) :
    t = s ∧ bin.map (·.value) = bin_data.map (·.value) := by
  rw [programBin] at h
  split at h
  · obtain ⟨rfl, rfl⟩ := returns_pure.mp h
    exact ⟨rfl, rfl⟩
  · obtain ⟨addr, u, haddr, h⟩ := returns_bind.mp h
    obtain ⟨-, rfl⟩ := returns_malloc.mp haddr
    cases bin_data with
    | none => exact absurd h not_returns_throw
    | some data =>
      obtain ⟨rfl, rfl⟩ := returns_pure.mp h
      exact ⟨rfl, rfl⟩

theorem programAllocatorInit_returns {image : Option Image} {allocator : PodMalloc.Program}
    (h : Returns (programAllocatorInit mc a image) s allocator t) :
    t = s ∧ (dramEnd image >>= fun e => PodMalloc.programAllocatorInit mc.config (some e)) =
      .ok allocator := by
  obtain ⟨_, _, h₁, h⟩ := returns_bind.mp h
  obtain ⟨-, rfl⟩ := returns_malloc.mp h₁
  obtain ⟨_, _, h₂, h⟩ := returns_bind.mp h
  obtain ⟨-, rfl⟩ := returns_malloc.mp h₂
  obtain ⟨e, _, h₃, h⟩ := returns_bind.mp h
  obtain ⟨hend, rfl⟩ := returns_fromExcept.mp h₃
  obtain ⟨hinit, rfl⟩ := returns_fromExcept.mp h
  exact ⟨rfl, Fallible.bind_eq_ok.mpr ⟨e, hend, hinit⟩⟩

theorem podProgramLoad_returns (h : Returns (podProgramLoad mc platform) s () t) :
    t.pod = s.pod := by
  obtain ⟨pod, _, hpod, h⟩ := returns_bind.mp h
  obtain ⟨rfl, rfl⟩ := returns_getPod.mp hpod
  split at h
  · obtain ⟨_, -, rfl⟩ := returns_onHardware.mp h
    rfl
  · exact absurd h not_returns_throw

/-- The parts are those that the options, the device and the binary determine. -/
theorem podProgramInit_returns
    (h : Returns (podProgramInitBinaryOpts mc platform default_mesh_dim a popts bin_data)
      s () t) : ∃ mesh groups program, t.pod = s.pod.attached mesh groups program ∧
      meshInit mc.config s.pod.podCoord popts.meshDim default_mesh_dim = .ok mesh.value ∧
      program.value.binName = popts.programName ∧
      program.value.bin.map (·.value) = bin_data.map (·.value) ∧
      program.value.allocName = popts.allocName ∧ program.value.allocId = popts.allocId ∧
      (dramEnd (bin_data.map (·.value)) >>= fun e =>
        PodMalloc.programAllocatorInit mc.config (some e)) = .ok program.value.allocator := by
  obtain ⟨_, s₁, hmesh, h⟩ := returns_bind.mp h
  obtain ⟨addr, mesh, hinit, rfl⟩ := podMeshInit_returns hmesh
  obtain ⟨_, _, hgroups, h⟩ := returns_bind.mp h
  obtain ⟨groups, _, h₁, hgroups⟩ := returns_bind.mp hgroups
  obtain ⟨-, rfl⟩ := returns_malloc.mp h₁
  obtain rfl := returns_modifyPod.mp hgroups
  obtain ⟨place, _, h₂, h⟩ := returns_bind.mp h
  obtain ⟨-, rfl⟩ := returns_malloc.mp h₂
  obtain ⟨_, _, h₃, h⟩ := returns_bind.mp h
  obtain ⟨-, rfl⟩ := returns_malloc.mp h₃
  obtain ⟨bin, _, h₄, h⟩ := returns_bind.mp h
  obtain ⟨rfl, hbin⟩ := programBin_returns h₄
  obtain ⟨allocator, _, h₅, h⟩ := returns_bind.mp h
  obtain ⟨rfl, halloc⟩ := programAllocatorInit_returns h₅
  obtain ⟨_, _, hset, h⟩ := returns_bind.mp h
  obtain rfl := returns_modifyPod.mp hset
  obtain ⟨_, _, hload, h⟩ := returns_bind.mp h
  have hpod := podProgramLoad_returns hload
  obtain rfl := returns_modifyPod.mp h
  refine ⟨⟨addr, mesh⟩, groups,
    ⟨place, ⟨popts.programName, bin, popts.allocName, popts.allocId, allocator⟩⟩, ?_, hinit, rfl,
    hbin, rfl, rfl, hbin ▸ halloc⟩
  rw [hpod]
  rfl

theorem podProgramFinish_returns {pod_coord : Coord} {mesh : Pointer Mesh} {groups : ℕ}
    {program : Pointer Program} (hs : s.pod = (podInit pod_coord).attached mesh groups program)
    (h : Returns (podProgramFinish mc platform) s () t) : t.pod = podInit pod_coord := by
  obtain ⟨pod, _, hpod, h⟩ := returns_bind.mp h
  obtain ⟨rfl, rfl⟩ := returns_getPod.mp hpod
  rw [hs] at h
  obtain ⟨_, _, h₁, h⟩ := returns_bind.mp h
  obtain ⟨sent₁, -, rfl⟩ := returns_onHardware.mp h₁
  obtain ⟨_, _, h₂, h⟩ := returns_bind.mp h
  obtain ⟨sent₂, -, rfl⟩ := returns_onHardware.mp h₂
  obtain ⟨_, _, hexit, h⟩ := returns_bind.mp h
  obtain ⟨pod, _, hpod, hexit⟩ := returns_bind.mp hexit
  obtain ⟨rfl, rfl⟩ := returns_getPod.mp hpod
  -- there are no groups to exit
  simp only [hs] at hexit
  obtain ⟨_, _, h₃, hexit⟩ := returns_bind.mp hexit
  obtain rfl := returns_modifyPod.mp h₃
  obtain ⟨_, _, h₄, hexit⟩ := returns_bind.mp hexit
  obtain ⟨-, rfl⟩ := returns_fromExcept.mp h₄
  obtain rfl := returns_modifyPod.mp hexit
  obtain ⟨_, _, h₅, h⟩ := returns_bind.mp h
  obtain rfl := returns_modifyPod.mp h₅
  obtain rfl := returns_modifyPod.mp h
  rfl

theorem unplaced_eq {s₁ s₂ t₁ t₂ : State} {a₁ a₂ : Allocations} {pod_coord : Coord}
    (h₁ : Returns (podProgramInitBinaryOpts mc platform default_mesh_dim a₁ popts bin_data)
      s₁ () t₁)
    (h₂ : Returns (podProgramInitBinaryOpts mc platform default_mesh_dim a₂ popts bin_data)
      s₂ () t₂) (hs₁ : s₁.pod = podInit pod_coord) (hs₂ : s₂.pod = podInit pod_coord) :
    t₁.pod.unplaced = t₂.pod.unplaced := by
  obtain ⟨⟨ma, m⟩, g, ⟨pa, n, b, l, i, q⟩, ht₁, hm₁, hn₁, hb₁, hl₁, hi₁, hq₁⟩ :=
    podProgramInit_returns h₁
  obtain ⟨⟨ma', m'⟩, g', ⟨pa', n', b', l', i', q'⟩, ht₂, hm₂, hn₂, hb₂, hl₂, hi₂, hq₂⟩ :=
    podProgramInit_returns h₂
  rw [hs₁] at ht₁ hm₁
  rw [hs₂] at ht₂ hm₂
  dsimp only at hn₁ hb₁ hl₁ hi₁ hq₁ hn₂ hb₂ hl₂ hi₂ hq₂
  cases hm₁.symm.trans hm₂
  cases hq₁.symm.trans hq₂
  subst hn₁ hn₂ hl₁ hl₂ hi₁ hi₂
  have hb : b.map Pointer.unplaced = b'.map Pointer.unplaced := by
    have hmap : ∀ c : Option (Pointer Image), c.map Pointer.unplaced =
        (c.map (·.value)).map (Pointer.mk 0) := by
      intro c
      cases c <;> rfl
    rw [hmap, hmap, hb₁, hb₂]
  rw [ht₁, ht₂]
  simp only [Pod.unplaced, Pod.attached, Option.map_some, Program.unplaced, hb, Pointer.unplaced]

end Attach

section Device

variable {call : Action Errno State Unit} {pod_id : ℤ} {d d' : Device}

theorem checkPodId_set {pods : List Pod} {pod : Pod} (h : checkPodId pods pod_id = .ok pod)
    (pod' : Pod) : checkPodId (pods.set pod_id.toNat pod') pod_id = .ok pod' := by
  simp only [checkPodId] at h ⊢
  split at h
  · cases h
  · rename_i hneg
    rw [if_neg hneg]
    cases hget : pods[pod_id.toNat]? with
    | none =>
      rw [hget] at h
      cases h
    | some p =>
      obtain ⟨hlt, -⟩ := List.getElem?_eq_some_iff.mp hget
      rw [List.getElem?_set_self hlt]

theorem onPod_fails {e : Errno} {pod : Pod} (hpod : checkPodId d.pods pod_id = .ok pod)
    (h : Fails (onPod pod_id call) d e d') :
    ∃ t, Fails call ⟨pod, d.sent⟩ e t ∧ checkPodId d'.pods pod_id = .ok t.pod := by
  simp only [Fails, onPod, hpod, Option.map_eq_some_iff, Prod.mk.injEq] at h
  obtain ⟨⟨r, t⟩, hrun, rfl, rfl⟩ := h
  exact ⟨t, hrun, checkPodId_set hpod t.pod⟩

theorem onPod_returns {pod : Pod} (hpod : checkPodId d.pods pod_id = .ok pod)
    (h : Returns (onPod pod_id call) d () d') :
    ∃ t, Returns call ⟨pod, d.sent⟩ () t ∧ checkPodId d'.pods pod_id = .ok t.pod := by
  simp only [Returns, onPod, hpod, Option.map_eq_some_iff, Prod.mk.injEq] at h
  obtain ⟨⟨r, t⟩, hrun, rfl, rfl⟩ := h
  exact ⟨t, hrun, checkPodId_set hpod t.pod⟩

end Device

/-- The law of a call that fails: the pod is kept exactly when the call ended before the mesh was
attached. -/
theorem podKept_iff {mc : Manycore} {platform : Platform} {default_mesh_dim : Dimension}
    {a : Allocations} {popts : ProgramOptions} {bin_data : Option (Pointer Image)} {pod_id : ℤ}
    {d d' : Device} {e : Errno}
    (h : Fails (onPod pod_id
      (podProgramInitBinaryOpts mc platform default_mesh_dim a popts bin_data)) d e d')
    (he : e ≠ .undefined) (hfresh : MallocFresh a pod_id d) :
    PodKept pod_id d d' ↔ MeshRefused mc.config default_mesh_dim a popts pod_id d := by
  cases hpod : checkPodId d.pods pod_id with
  | error e' =>
    refine iff_of_true (fun pod hpod' => ?_) (Or.inl ⟨e', hpod⟩)
    rw [hpod] at hpod'
    cases hpod'
  | ok pod =>
    obtain ⟨t, hfail, hpod'⟩ := onPod_fails hpod h
    have hiff := kept_iff hfail he fun mesh hmesh => hfresh pod mesh hpod hmesh
    simp only [PodKept, MeshRefused, hpod, hpod', reduceCtorEq, exists_false, false_or,
      Except.ok.injEq, exists_eq_left', forall_eq', ← hiff]

/-- The law of calls that succeed: what an initialisation attaches to a new pod comes off again,
and a second initialisation leaves what a single one does. -/
structure ReinitLaw (mc : Manycore) (platform : Platform) (default_mesh_dim : Dimension)
    (popts : ProgramOptions) (bin_data : Option (Pointer Image)) (pod_id : ℤ) (pod_coord : Coord)
    (d₂ : Device) : Prop where
  finished : checkPodId d₂.pods pod_id = .ok (podInit pod_coord)
  again : ∀ a a' d₃ d₀ d₀',
    Returns (onPod pod_id
      (podProgramInitBinaryOpts mc platform default_mesh_dim a popts bin_data)) d₂ () d₃ →
    checkPodId d₀.pods pod_id = .ok (podInit pod_coord) →
    Returns (onPod pod_id
      (podProgramInitBinaryOpts mc platform default_mesh_dim a' popts bin_data)) d₀ () d₀' →
    ∃ pod pod', checkPodId d₃.pods pod_id = .ok pod ∧ checkPodId d₀'.pods pod_id = .ok pod' ∧
      pod.unplaced = pod'.unplaced

/-- The exact law of initialisation: a call that fails keeps the pod exactly when it ends before the
mesh is attached; calls that succeed can be repeated after a cleanup. -/
theorem program_init_iff (mc : Manycore) (platform : Platform) (default_mesh_dim : Dimension)
    (popts : ProgramOptions) (bin_data : Option (Pointer Image)) (pod_id : ℤ) :
    (∀ a d d' e, Fails (onPod pod_id
        (podProgramInitBinaryOpts mc platform default_mesh_dim a popts bin_data)) d e d' →
      e ≠ .undefined → MallocFresh a pod_id d →
      (PodKept pod_id d d' ↔ MeshRefused mc.config default_mesh_dim a popts pod_id d)) ∧
    (∀ pod_coord a d d₁ d₂, checkPodId d.pods pod_id = .ok (podInit pod_coord) →
      Returns (onPod pod_id
        (podProgramInitBinaryOpts mc platform default_mesh_dim a popts bin_data)) d () d₁ →
      Returns (onPod pod_id (podProgramFinish mc platform)) d₁ () d₂ →
      ReinitLaw mc platform default_mesh_dim popts bin_data pod_id pod_coord d₂) := by
  refine ⟨fun a d d' e h he hfresh => podKept_iff h he hfresh, ?_⟩
  intro pod_coord a d d₁ d₂ hpod hinit hfinish
  obtain ⟨s₁, hinit, hpod₁⟩ := onPod_returns hpod hinit
  obtain ⟨mesh, groups, program, hs₁, -⟩ := podProgramInit_returns hinit
  obtain ⟨s₂, hfinish, hpod₂⟩ := onPod_returns hpod₁ hfinish
  rw [podProgramFinish_returns (s := ⟨s₁.pod, d₁.sent⟩) hs₁ hfinish] at hpod₂
  refine ⟨hpod₂, fun a₃ a₀ d₃ d₀ d₀' hagain hpod₀ hsingle => ?_⟩
  obtain ⟨s₃, hagain, hpod₃⟩ := onPod_returns hpod₂ hagain
  obtain ⟨s₀, hsingle, hpod₀'⟩ := onPod_returns hpod₀ hsingle
  exact ⟨s₃.pod, s₀.pod, hpod₃, hpod₀', unplaced_eq hagain hsingle rfl rfl⟩

def deviceInit (cfg : Config) : Device :=
  ⟨(PodMalloc.deviceInit cfg).map fun pod => podInit pod.podCoord, []⟩

def oneTile : ProgramOptions := ⟨0, "default-allocator", ⟨1, 1⟩, "main.riscv", false⟩

def blocksFrom (n : ℕ) : Allocations where
  mesh := some n
  tiles := some (n + 64)
  tileGroups := some (n + 128)
  program := some (n + 192)
  binName := some (n + 256)
  bin := some (n + 320)
  allocator := some (n + 1088)
  allocatorName := some (n + 1152)

def symbolEntries : ℕ → List String → Image
  | _, [] => []
  | off, name :: rest =>
    FileSymbols.symbolEntry off 0x100 ++ symbolEntries (off + name.length + 1) rest

def programFile (names : List String) : Image :=
  elfmag ++ [1, 1, 1] ++ List.replicate 9 0 ++ le16 2 ++ le16 243 ++ le32 1 ++ le32 0 ++ le32 52 ++
    le32 84 ++ le32 0 ++ le16 52 ++ le16 32 ++ le16 1 ++ le16 40 ++ le16 2 ++ le16 1 ++
    [1, 0, 0, 0, 4, 4, 5, 0].flatMap le32 ++
    FileSymbols.sectionHeader 2 164 (16 * names.length) 1 16 ++
    FileSymbols.sectionHeader 3 (164 + 16 * names.length)
      (1 + (names.map fun name => name.length + 1).sum) 0 0 ++
    symbolEntries 1 names ++ [0] ++ names.flatMap fun name => (cString name).bytes ++ [0]

def runtimeSymbols : List String :=
  ["__bsg_x", "__bsg_y", "__bsg_id", "__bsg_grp_org_x", "__bsg_grp_org_y", "__bsg_grid_dim_x",
    "__bsg_grid_dim_y", "__bsg_tile_group_id", "__bsg_tile_group_id_x", "__bsg_tile_group_id_y",
    "cuda_kernel_ptr", "cuda_finish_signal_val", "cuda_kernel_not_loaded_val",
    "_bsg_dram_end_addr"]

def oneTileMesh : Mesh := ⟨⟨1, 1⟩, ⟨16, 8⟩, [PodMesh.initTile ⟨16, 8⟩ ⟨16, 8⟩]⟩

def halfInitialised : Device where
  pods := [{ podInit ⟨0, 0⟩ with
    mesh := some ⟨0x1000, oneTileMesh⟩
    tileGroups := some ⟨0x1080, []⟩
    tileGroupCapacity := 1 }]
  sent := []

private theorem fails_without_symbols : Fails (onPod 0 (podProgramInitBinaryOpts
    ⟨({} : Machine).config, true⟩ takesAll PodMesh.meshFullCore (blocksFrom 0x1000) oneTile
    (some ⟨0x8000, programFile []⟩))) (deviceInit ({} : Machine).config) .invalid
    halfInitialised := by
  rw [Fails]
  decide +kernel

private theorem mallocFresh_deviceInit :
    MallocFresh (blocksFrom 0x1000) 0 (deviceInit ({} : Machine).config) := by
  intro pod mesh hpod hmesh
  cases hpod
  cases hmesh

/-- A call that fails and one that succeeds, for a mesh of one tile. -/
theorem program_init_oneTile :
    (PodKept 0 (deviceInit ({} : Machine).config) halfInitialised ↔
      MeshRefused ({} : Machine).config PodMesh.meshFullCore (blocksFrom 0x1000) oneTile 0
        (deviceInit ({} : Machine).config)) ∧
    ∃ d₁ d₂, Returns (onPod 0 (podProgramInitBinaryOpts ⟨({} : Machine).config, true⟩ takesAll
        PodMesh.meshFullCore (blocksFrom 0x1000) oneTile
        (some ⟨0x8000, programFile runtimeSymbols⟩))) (deviceInit ({} : Machine).config) () d₁ ∧
      Returns (onPod 0 (podProgramFinish ⟨({} : Machine).config, true⟩ takesAll)) d₁ () d₂ ∧
      ReinitLaw ⟨({} : Machine).config, true⟩ takesAll PodMesh.meshFullCore oneTile
        (some ⟨0x8000, programFile runtimeSymbols⟩) 0 ⟨0, 0⟩ d₂ := by
  constructor
  · exact (program_init_iff _ _ _ _ _ _).1 _ _ _ _ fails_without_symbols (by decide)
      mallocFresh_deviceInit
  · obtain ⟨_, d₂, h, -⟩ := exists_returns (x := onPod 0 (podProgramInitBinaryOpts
        ⟨({} : Machine).config, true⟩ takesAll PodMesh.meshFullCore (blocksFrom 0x1000) oneTile
        (some ⟨0x8000, programFile runtimeSymbols⟩)) >>= fun _ =>
        onPod 0 (podProgramFinish ⟨({} : Machine).config, true⟩ takesAll))
      (s := deviceInit ({} : Machine).config) (fun _ => true) (by decide +kernel)
    obtain ⟨_, d₁, hinit, hfinish⟩ := returns_bind.mp h
    exact ⟨d₁, d₂, hinit, hfinish,
      (program_init_iff _ _ _ _ _ _).2 ⟨0, 0⟩ _ _ _ _ rfl hinit hfinish⟩

/-- A binary without the symbol of the program's end leaves a mesh and a table of tile groups on
the pod, and the cleanup, which finds no loaded program, leaves them there. -/
theorem program_init_not_atomic :
    (∃ d', Fails (onPod 0 (podProgramInitBinaryOpts ⟨({} : Machine).config, true⟩ takesAll
        PodMesh.meshFullCore (blocksFrom 0x1000) oneTile (some ⟨0x8000, programFile []⟩)))
        (deviceInit ({} : Machine).config) .invalid d' ∧
      ¬ PodKept 0 (deviceInit ({} : Machine).config) d' ∧
      Returns (onPod 0 (podProgramFinish ⟨({} : Machine).config, true⟩ takesAll)) d' () d') ∧
    ¬ ∀ mc platform default_mesh_dim a popts bin_data pod_id d d' e,
      (∀ pod, checkPodId d.pods pod_id = .ok pod → pod.programLoaded = false) →
      Fails (onPod pod_id
        (podProgramInitBinaryOpts mc platform default_mesh_dim a popts bin_data)) d e d' →
      e ≠ .undefined → MallocFresh a pod_id d → PodKept pod_id d d' := by
  have hnot : ¬ PodKept 0 (deviceInit ({} : Machine).config) halfInitialised := by
    intro h
    obtain ⟨pod', hpod', hkept⟩ := h (podInit ⟨0, 0⟩) rfl
    cases hpod'
    cases hkept.mesh
  refine ⟨⟨halfInitialised, fails_without_symbols, hnot, rfl⟩, fun h => hnot ?_⟩
  refine h _ _ _ _ _ _ _ _ _ _ (fun pod hpod => ?_) fails_without_symbols (by decide)
    mallocFresh_deviceInit
  cases hpod
  rfl

end PodInit
