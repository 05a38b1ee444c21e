import ManycoreRuntime.TileOwnership

/-! # Launch attempts that fail

A tile group is placed and launched in steps, and each step that fails returns at once. What the
steps before it have changed stays. -/
namespace LaunchAtomicity

open Coordinate
open Fallible (bind_eq_ok)
open Configuration (Manycore)
open Machines (Machine)
open MemoryManager (Block blockSize firstFit)
open PodMalloc (Program)
open PodMesh TileGroups TileOwnership

/-- The origin that the address map of a tile group holds, until the map is given back. -/
abbrev AddressMap := Option Coord

def originEvaMapExit : AddressMap → Except Errno AddressMap
  | none => .error .invalid
  | some _ => .ok none

/-- The host may have no room for the map. -/
def originEvaMapInit (room : Except Errno Unit) (origin : Coord) : Except Errno AddressMap :=
  room.map fun _ => some origin

/-- The map is made anew before each tile is marked. -/
def claimTilesMapped (room setConfigSymbols : Coord → Except Errno Unit) (id origin : Coord) :
    Mesh → AddressMap → List Coord → Except Errno Unit × Mesh × AddressMap
  | m, map, [] => (.ok (), m, map)
  | m, map, xy :: rest =>
    match originEvaMapExit map with
    | .error e => (.error e, m, map)
    | .ok map =>
      match originEvaMapInit (room xy) origin with
      | .error e => (.error e, m, map)
      | .ok map =>
        let m := m.modifyTile xy (claimTile id origin)
        match setConfigSymbols xy with
        | .error e => (.error e, m, map)
        | .ok _ => claimTilesMapped room setConfigSymbols id origin m map rest

def allocateTilesMapped (room setConfigSymbols : Coord → Except Errno Unit) (m : Mesh)
    (tg : TileGroup) (map : AddressMap) : Except Errno Unit × Mesh × TileGroup × AddressMap :=
  match findOrigin m tg.dim with
  | .error e => (.error e, m, tg, map)
  | .ok none => (.error .notfound, m, tg, map)
  | .ok (some origin) =>
    let tg := { tg with origin := origin }
    match claimTilesMapped room setConfigSymbols tg.id origin m map
      (foreachCoordinate origin tg.dim) with
    | (.error e, m, map) => (.error e, m, tg, map)
    | (.ok _, m, map) => (.ok (), m, { tg with status := .allocated }, map)

section Maps

variable {room setConfigSymbols : Coord → Except Errno Unit} {m : Mesh} {id origin : Coord}
  {map : AddressMap} {cs : List Coord}

theorem claimTilesMapped_eq (hroom : ∀ c, room c = .ok ()) (hmap : map.isSome) :
    ((claimTilesMapped room setConfigSymbols id origin m map cs).1,
      (claimTilesMapped room setConfigSymbols id origin m map cs).2.1) =
      claimTiles setConfigSymbols id origin m cs := by
  induction cs generalizing m map with
  | nil => rfl
  | cons c rest ih =>
    obtain ⟨o, rfl⟩ := Option.isSome_iff_exists.mp hmap
    simp only [claimTilesMapped, claimTiles, originEvaMapExit, originEvaMapInit, hroom, Except.map]
    cases setConfigSymbols c with
    | error e => rfl
    | ok u => exact ih rfl

theorem allocateTilesMapped_eq (hroom : ∀ c, room c = .ok ()) (hmap : map.isSome)
    (tg : TileGroup) :
    ((allocateTilesMapped room setConfigSymbols m tg map).1,
      (allocateTilesMapped room setConfigSymbols m tg map).2.1,
      (allocateTilesMapped room setConfigSymbols m tg map).2.2.1) =
      allocateTiles setConfigSymbols m tg := by
  simp only [allocateTilesMapped, allocateTiles]
  cases findOrigin m tg.dim with
  | error e => rfl
  | ok found =>
    cases found with
    | none => rfl
    | some origin =>
      have hclaim := @claimTilesMapped_eq room setConfigSymbols m tg.id origin map
        (foreachCoordinate origin tg.dim) hroom hmap
      simp only [← hclaim]
      rcases claimTilesMapped room setConfigSymbols tg.id origin m map
        (foreachCoordinate origin tg.dim) with ⟨result, m', map'⟩
      cases result <;> rfl

end Maps

def SameStatuses (m m' : Mesh) : Prop :=
  ∀ c, InMesh m c → (m'.tileAt c).map Tile.status = (m.tileAt c).map Tile.status

/-- A placement that fails leaves the tiles' statuses and the tile group's origin and status. -/
def AllocateAtomic (room setConfigSymbols : Coord → Except Errno Unit) (m : Mesh) (tg : TileGroup)
    (map : AddressMap) : Prop :=
  ∀ e m' tg' map', allocateTilesMapped room setConfigSymbols m tg map = (.error e, m', tg', map') →
    SameStatuses m m' ∧ tg'.origin = tg.origin ∧ tg'.status = tg.status

def ClaimTakes (room setConfigSymbols : Coord → Except Errno Unit) (map : AddressMap)
    (cs : List Coord) : Prop :=
  (cs ≠ [] → map.isSome) ∧ ∀ c ∈ cs, room c = .ok () ∧ setConfigSymbols c = .ok ()

def StopsAtOnce (room : Coord → Except Errno Unit) (map : AddressMap) (cs : List Coord) : Prop :=
  ∃ c ∈ cs.head?, map = none ∨ room c ≠ .ok ()

/-- Where the tile group has room, every step for every tile succeeds, or the first step fails
while the tile group is at its old origin. -/
def AllocateTakes (room setConfigSymbols : Coord → Except Errno Unit) (m : Mesh) (tg : TileGroup)
    (map : AddressMap) : Prop :=
  ∀ origin, findOrigin m tg.dim = .ok (some origin) →
    ClaimTakes room setConfigSymbols map (foreachCoordinate origin tg.dim) ∨
    origin = tg.origin ∧ StopsAtOnce room map (foreachCoordinate origin tg.dim)

section Place

variable {room setConfigSymbols : Coord → Except Errno Unit} {m : Mesh} {id origin : Coord}
  {map : AddressMap} {cs : List Coord}

theorem ClaimTakes.cons {map' : AddressMap} {c o : Coord}
    (h : ClaimTakes room setConfigSymbols map' cs) (hroom : room c = .ok ())
    (hset : setConfigSymbols c = .ok ()) :
    ClaimTakes room setConfigSymbols (some o) (c :: cs) := by
  refine ⟨fun _ => rfl, fun d hd => ?_⟩
  rcases List.mem_cons.mp hd with rfl | hd
  · exact ⟨hroom, hset⟩
  · exact h.2 d hd

theorem claimTilesMapped_takes (h : ClaimTakes room setConfigSymbols map cs) :
    ∃ map', claimTilesMapped room setConfigSymbols id origin m map cs =
      (.ok (), m.updateTiles (fun _ => claimTile id origin) cs, map') := by
  obtain ⟨hmap, hcs⟩ := h
  induction cs generalizing m map with
  | nil => exact ⟨map, rfl⟩
  | cons c rest ih =>
    obtain ⟨o, rfl⟩ := Option.isSome_iff_exists.mp (hmap (List.cons_ne_nil c rest))
    obtain ⟨hroom, hset⟩ := hcs c List.mem_cons_self
    simp only [claimTilesMapped, originEvaMapExit, originEvaMapInit, hroom, Except.map, hset]
    exact ih (fun _ => rfl) fun c hc => hcs c (List.mem_cons_of_mem _ hc)

theorem claimTilesMapped_stops (h : StopsAtOnce room map cs) :
    ∃ e map', claimTilesMapped room setConfigSymbols id origin m map cs = (.error e, m, map') := by
  obtain ⟨c, hc, hfail⟩ := h
  cases cs with
  | nil => cases hc
  | cons d rest =>
    cases hc
    simp only [claimTilesMapped]
    cases map with
    | none => exact ⟨_, _, rfl⟩
    | some o =>
      have hroom := hfail.resolve_left (Option.some_ne_none o)
      simp only [originEvaMapExit, originEvaMapInit]
      cases hr : room c with
      | error e => exact ⟨_, _, rfl⟩
      | ok u => exact absurd hr hroom

theorem claimTilesMapped_marks (cs : List Coord) :
    ∃ marked, marked.Sublist cs ∧ (claimTilesMapped room setConfigSymbols id origin m map cs).2.1 =
      m.updateTiles (fun _ => claimTile id origin) marked := by
  induction cs generalizing m map with
  | nil => exact ⟨[], List.Sublist.refl [], rfl⟩
  | cons c rest ih =>
    simp only [claimTilesMapped]
    cases originEvaMapExit map with
    | error e => exact ⟨[], List.nil_sublist _, rfl⟩
    | ok map₁ =>
      cases originEvaMapInit (room c) origin with
      | error e => exact ⟨[], List.nil_sublist _, rfl⟩
      | ok map₂ =>
        cases setConfigSymbols c with
        | error e => exact ⟨[c], List.singleton_sublist.mpr List.mem_cons_self, rfl⟩
        | ok u =>
          obtain ⟨marked, hsub, hk⟩ := @ih (m.modifyTile c (claimTile id origin)) map₂
          exact ⟨c :: marked, hsub.cons_cons c, hk⟩

theorem claimTilesMapped_ok
    (h : (claimTilesMapped room setConfigSymbols id origin m map cs).1 = .ok ()) :
    ClaimTakes room setConfigSymbols map cs := by
  induction cs generalizing m map with
  | nil => exact ⟨fun hne => absurd rfl hne, fun c hc => absurd hc List.not_mem_nil⟩
  | cons c rest ih =>
    simp only [claimTilesMapped] at h
    cases map with
    | none => cases h
    | some o =>
      simp only [originEvaMapExit, originEvaMapInit] at h
      cases hr : room c with
      | error e =>
        rw [hr] at h
        cases h
      | ok u =>
        simp only [hr, Except.map] at h
        cases hset : setConfigSymbols c with
        | error e =>
          rw [hset] at h
          cases h
        | ok v =>
          simp only [hset] at h
          exact (ih h).cons hr hset

/-- A claim that fails, but not at its first step, has marked the first tile. -/
theorem claimTilesMapped_fails (htakes : ¬ ClaimTakes room setConfigSymbols map cs)
    (hstops : ¬ StopsAtOnce room map cs) :
    ∃ e map' c marked, (c :: marked).Sublist cs ∧
      claimTilesMapped room setConfigSymbols id origin m map cs =
        (.error e, m.updateTiles (fun _ => claimTile id origin) (c :: marked), map') := by
  cases cs with
  | nil => exact absurd ⟨fun hne => absurd rfl hne, fun c hc => absurd hc List.not_mem_nil⟩ htakes
  | cons c rest =>
    have hfirst : map ≠ none ∧ room c = .ok () := by
      refine ⟨fun hn => hstops ⟨c, rfl, Or.inl hn⟩, ?_⟩
      by_contra hr
      exact hstops ⟨c, rfl, Or.inr hr⟩
    obtain ⟨o, rfl⟩ := Option.ne_none_iff_exists'.mp hfirst.1
    simp only [claimTilesMapped, originEvaMapExit, originEvaMapInit, hfirst.2, Except.map]
    cases hset : setConfigSymbols c with
    | error e =>
      exact ⟨e, some origin, c, [], List.singleton_sublist.mpr List.mem_cons_self, rfl⟩
    | ok u =>
      obtain ⟨marked, hsub, hk⟩ := @claimTilesMapped_marks room setConfigSymbols
        (m.modifyTile c (claimTile id origin)) id origin (some origin) rest
      rcases hrun : claimTilesMapped room setConfigSymbols id origin
        (m.modifyTile c (claimTile id origin)) (some origin) rest with ⟨result, m', map'⟩
      rw [hrun] at hk
      cases result with
      | error e =>
        refine ⟨e, map', c, marked, hsub.cons_cons c, ?_⟩
        have hm' : m' = m.updateTiles (fun _ => claimTile id origin) (c :: marked) := hk
        rw [hm']
      | ok v =>
        have hrest := claimTilesMapped_ok (congrArg Prod.fst hrun)
        exact absurd (hrest.cons hfirst.2 hset) htakes

theorem not_sameStatuses {dim : Dimension} (hm : WellFormed m) (hw : Within m origin dim)
    (hfree : ∀ c, InRect origin dim c → ∃ t, m.tileAt c = some t ∧ t.status = .free) {c : Coord}
    {marked : List Coord} (hsub : (c :: marked).Sublist (foreachCoordinate origin dim)) :
    ¬ SameStatuses m (m.updateTiles (fun _ => claimTile id origin) (c :: marked)) := by
  intro hsame
  have hn := hw.noWrap hm
  have hrect : ∀ d ∈ c :: marked, InRect origin dim d :=
    fun d hd => (mem_foreachCoordinate hn d).mp (hsub.subset hd)
  have hc : InMesh m c := hw.inMesh (hrect c List.mem_cons_self)
  obtain ⟨t, ht, hst⟩ := hfree c (hrect c List.mem_cons_self)
  have hat := hsame c hc
  rw [updateTiles_tileAt hm _ (fun d hd => hw.inMesh (hrect d hd))
    (hsub.nodup (foreachCoordinate_nodup hn)) hc, if_pos List.mem_cons_self, ht, Option.map_some,
    Option.map_some, Option.map_some, hst] at hat
  cases hat

theorem allocateAtomic_iff (hm : WellFormed m) (tg : TileGroup) :
    AllocateAtomic room setConfigSymbols m tg map ↔
      AllocateTakes room setConfigSymbols m tg map := by
  unfold AllocateAtomic AllocateTakes
  cases hf : findOrigin m tg.dim with
  | error e =>
    refine iff_of_true ?_ fun origin ho => by cases ho
    intro e' m' tg' map' h
    simp only [allocateTilesMapped, hf] at h
    cases h
    exact ⟨fun _ _ => rfl, rfl, rfl⟩
  | ok found =>
    cases found with
    | none =>
      refine iff_of_true ?_ fun origin ho => by cases ho
      intro e' m' tg' map' h
      simp only [allocateTilesMapped, hf] at h
      cases h
      exact ⟨fun _ _ => rfl, rfl, rfl⟩
    | some origin =>
      obtain ⟨hw, hfree⟩ := findOrigin_some hm hf
      simp only [allocateTilesMapped, hf]
      by_cases htakes : ClaimTakes room setConfigSymbols map (foreachCoordinate origin tg.dim)
      · obtain ⟨map', hclaim⟩ := @claimTilesMapped_takes room setConfigSymbols m tg.id origin map _
          htakes
        refine iff_of_true ?_ ?_
        · intro e' m' tg' map'' h
          rw [hclaim] at h
          cases h
        · intro o ho
          cases ho
          exact Or.inl htakes
      · by_cases hstops : StopsAtOnce room map (foreachCoordinate origin tg.dim)
        · obtain ⟨e, map', hclaim⟩ := @claimTilesMapped_stops room setConfigSymbols m tg.id origin
            map _ hstops
          rw [hclaim]
          constructor
          · intro hatomic o ho
            cases ho
            exact Or.inr ⟨(hatomic _ _ _ _ rfl).2.1, hstops⟩
          · intro htaken e' m' tg' map'' h
            cases h
            obtain ⟨horigin, -⟩ := (htaken origin rfl).resolve_left htakes
            exact ⟨fun _ _ => rfl, horigin, rfl⟩
        · obtain ⟨e, map', c, marked, hsub, hclaim⟩ := @claimTilesMapped_fails room
            setConfigSymbols m tg.id origin map _ htakes hstops
          rw [hclaim]
          refine iff_of_false ?_ ?_
          · intro hatomic
            exact not_sameStatuses hm hw hfree hsub (hatomic _ _ _ _ rfl).1
          · intro htaken
            rcases htaken origin rfl with h | ⟨-, h⟩
            · exact htakes h
            · exact hstops h

end Place

def live (pod : Pod) : List Block :=
  match pod.program with
  | none => []
  | some program => program.memoryManager.busyBufferList

def kernelOf (pod : Pod) (tg : TileGroup) : Option Kernel := tg.kernel.bind fun k => pod.kernels[k]?

def argvSize (kernel : Kernel) : UInt32 := 4 * UInt32.ofNat kernel.argv.length

def ArgvFits (program : Program) (kernel : Kernel) : Prop :=
  (firstFit program.memoryManager.freeBufferList
    (blockSize program.memoryManager (argvSize kernel).toNat)).isSome

def Delivered (answers : Answers) (origin : Coord) (dim : Dimension) : Prop :=
  answers.copyArgv = .ok () ∧ (∃ a, answers.kernelAddr = .ok a) ∧
    ∀ c ∈ foreachCoordinate origin dim, answers.setRuntimeSymbols c = .ok ()

/-- A launch that fails leaves the live blocks and the tile group's origin and status. -/
def LaunchAtomic (answers : Answers) (pod : Pod) (tg : TileGroup) : Prop :=
  ∀ e program tg', launch answers pod tg = (.error e, program, tg') →
    (live { pod with program := program }).Perm (live pod) ∧ tg'.origin = tg.origin ∧
      tg'.status = tg.status

/-- Where a block is allocated for the arguments, every later step succeeds. -/
def LaunchTakes (answers : Answers) (pod : Pod) (tg : TileGroup) : Prop :=
  ∀ kernel program, kernelOf pod tg = some kernel → pod.program = some program →
    ArgvFits program kernel → Delivered answers tg.origin tg.dim

section Start

variable {answers : Answers} {pod : Pod} {tg : TileGroup}

theorem wakeTiles_eq_ok {setRuntimeSymbols : Coord → Except Errno Unit} {cs : List Coord} :
    wakeTiles setRuntimeSymbols cs = .ok () ↔ ∀ c ∈ cs, setRuntimeSymbols c = .ok () := by
  induction cs with
  | nil => exact iff_of_true rfl fun c hc => absurd hc List.not_mem_nil
  | cons c rest ih =>
    rw [wakeTiles, bind_eq_ok, List.forall_mem_cons]
    constructor
    · rintro ⟨u, hc, hrest⟩
      exact ⟨hc, ih.mp hrest⟩
    · rintro ⟨hc, hrest⟩
      exact ⟨(), hc, ih.mpr hrest⟩

theorem delivered_iff {origin : Coord} {dim : Dimension} :
    (do
      let _ ← answers.copyArgv
      let _ ← answers.kernelAddr
      wakeTiles answers.setRuntimeSymbols (foreachCoordinate origin dim)) = Except.ok () ↔
      Delivered answers origin dim := by
  simp only [bind_eq_ok, wakeTiles_eq_ok, Delivered]
  constructor
  · rintro ⟨u, hcopy, a, haddr, hwake⟩
    exact ⟨hcopy, ⟨a, haddr⟩, hwake⟩
  · rintro ⟨hcopy, ⟨a, haddr⟩, hwake⟩
    exact ⟨(), hcopy, a, haddr, hwake⟩

/-- A launch with a kernel and a program allocates; then it succeeds or leaves the status. -/
theorem launch_equipped {kernel : Kernel} {program : Program} (hk : kernelOf pod tg = some kernel)
    (hp : pod.program = some program) :
    ∃ a, a = UInt32.ofNat (MemoryManager.alloc program.memoryManager (argvSize kernel).toNat).1 ∧
      ((Delivered answers tg.origin tg.dim ∧ launch answers pod tg =
        (.ok (), some (program.malloc (argvSize kernel)).2,
          { tg with argvEva := a, status := .launched })) ∨
      ¬ Delivered answers tg.origin tg.dim ∧ ∃ e, launch answers pod tg =
        (.error e, some (program.malloc (argvSize kernel)).2, { tg with argvEva := a })) := by
  refine ⟨_, rfl, ?_⟩
  rw [kernelOf] at hk
  simp only [launch, hk, hp, argvSize, Program.malloc_eq]
  split
  · next e he =>
    refine Or.inr ⟨fun hd => ?_, e, rfl⟩
    rw [delivered_iff.mpr hd] at he
    cases he
  · next u hu => exact Or.inl ⟨delivered_iff.mp hu, rfl⟩

theorem launch_unequipped (h : kernelOf pod tg = none ∨ pod.program = none) :
    ∃ e, launch answers pod tg = (.error e, pod.program, tg) := by
  rw [kernelOf] at h
  cases hk : tg.kernel.bind fun k => pod.kernels[k]? with
  | none => exact ⟨.undefined, by simp only [launch, hk]⟩
  | some kernel =>
    have hp := h.resolve_left (by rw [hk]; exact Option.some_ne_none kernel)
    exact ⟨.invalid, by simp only [launch, hk, hp]⟩

theorem launchAtomic_of_unequipped (h : kernelOf pod tg = none ∨ pod.program = none) :
    LaunchAtomic answers pod tg := by
  obtain ⟨e, he⟩ := @launch_unequipped answers pod tg h
  intro e' program tg' hrun
  rw [he] at hrun
  cases hrun
  exact ⟨List.Perm.refl _, rfl, rfl⟩

theorem malloc_live {program : Program} {kernel : Kernel} (hp : pod.program = some program) :
    (live { pod with program := some (program.malloc (argvSize kernel)).2 }).Perm (live pod) ↔
      ¬ ArgvFits program kernel := by
  simp only [live, hp, Program.malloc_eq, ArgvFits]
  cases hf : firstFit program.memoryManager.freeBufferList
    (blockSize program.memoryManager (argvSize kernel).toNat) with
  | none =>
    rw [MemoryManager.alloc_of_none hf]
    exact iff_of_true (List.Perm.refl _) (fun h => by cases h)
  | some b =>
    rw [MemoryManager.alloc_of_some hf]
    refine iff_of_false (fun hperm => ?_) (fun hno => hno rfl)
    have hlen := hperm.length_eq
    rw [List.length_append, List.length_singleton] at hlen
    omega

theorem launchAtomic_iff : LaunchAtomic answers pod tg ↔ LaunchTakes answers pod tg := by
  unfold LaunchTakes
  rcases hk : kernelOf pod tg with _ | kernel
  · exact iff_of_true (launchAtomic_of_unequipped (Or.inl hk)) fun kernel program h => by cases h
  · rcases hp : pod.program with _ | program
    · exact iff_of_true (launchAtomic_of_unequipped (Or.inr hp)) fun kernel program _ h => by
        cases h
    · obtain ⟨a, -, ⟨hd, he⟩ | ⟨hd, e, he⟩⟩ :=
        @launch_equipped answers pod tg kernel program hk hp
      · refine iff_of_true ?_ fun _ _ _ _ _ => hd
        intro e' program' tg' h
        rw [he] at h
        cases h
      · constructor
        · intro hatomic kernel' program' hk' hp' hfits
          cases hk'
          cases hp'
          exact absurd hfits ((malloc_live hp).mp (hatomic _ _ _ he).1)
        · intro htaken e' program' tg' h
          rw [he] at h
          cases h
          exact ⟨(malloc_live hp).mpr fun hfits => hd (htaken kernel program rfl rfl hfits), rfl,
            rfl⟩

end Start

def attempt (room : Coord → Except Errno Unit) (answers : Answers) (pod : Pod) (tg : TileGroup)
    (map : AddressMap) : Except Errno Unit × Pod × TileGroup :=
  match allocateTilesMapped room answers.setConfigSymbols pod.mesh tg map with
  | (.error e, mesh, tg, _) => (.error e, { pod with mesh := mesh }, tg)
  | (.ok _, mesh, tg, _) =>
    let (result, program, tg) := launch answers { pod with mesh := mesh } tg
    (result, { pod with mesh := mesh, program := program }, tg)

def AttemptAtomic (room : Coord → Except Errno Unit) (answers : Answers) (pod : Pod)
    (tg : TileGroup) (map : AddressMap) : Prop :=
  ∀ e pod' tg', attempt room answers pod tg map = (.error e, pod', tg') →
    SameStatuses pod.mesh pod'.mesh ∧ (live pod').Perm (live pod) ∧ tg'.origin = tg.origin ∧
      tg'.status = tg.status

/-- Nothing goes wrong with a tile group that was placed. -/
def PlacedTakes (room : Coord → Except Errno Unit) (answers : Answers) (pod : Pod)
    (tg : TileGroup) (map : AddressMap) : Prop :=
  ∀ origin, findOrigin pod.mesh tg.dim = .ok (some origin) →
    ClaimTakes room answers.setConfigSymbols map (foreachCoordinate origin tg.dim) →
    (kernelOf pod tg).isSome ∧ pod.program.isSome ∧ Delivered answers origin tg.dim

section Attempt

variable {room : Coord → Except Errno Unit} {answers : Answers} {pod : Pod} {tg : TileGroup}
  {map : AddressMap}

theorem launch_eq_ok :
    (launch answers pod tg).1 = .ok () ↔ (kernelOf pod tg).isSome ∧ pod.program.isSome ∧
      Delivered answers tg.origin tg.dim := by
  rcases hk : kernelOf pod tg with _ | kernel
  · obtain ⟨e, he⟩ := @launch_unequipped answers pod tg (Or.inl hk)
    rw [he]
    exact iff_of_false (fun h => by cases h) (fun h => by cases h.1)
  · rcases hp : pod.program with _ | program
    · obtain ⟨e, he⟩ := @launch_unequipped answers pod tg (Or.inr hp)
      rw [he]
      exact iff_of_false (fun h => by cases h) (fun h => by cases h.2.1)
    · obtain ⟨a, -, ⟨hd, he⟩ | ⟨hd, e, he⟩⟩ :=
        @launch_equipped answers pod tg kernel program hk hp
      · rw [he]
        exact iff_of_true rfl ⟨rfl, rfl, hd⟩
      · rw [he]
        exact iff_of_false (fun h => by cases h) (fun h => hd h.2.2)

theorem launch_error_status {e : Errno} {program : Option Program} {tg' : TileGroup}
    (h : launch answers pod tg = (.error e, program, tg')) : tg'.status = tg.status := by
  obtain ⟨program', -, ⟨e', a, he⟩ | ⟨a, he⟩⟩ := launch_cases answers pod tg
  · rw [he] at h
    cases h
    rfl
  · rw [he] at h
    cases h

theorem attempt_of_error {e : Errno} {m : Mesh} {tg' : TileGroup} {map' : AddressMap}
    (h : allocateTilesMapped room answers.setConfigSymbols pod.mesh tg map =
      (.error e, m, tg', map')) :
    attempt room answers pod tg map = (.error e, { pod with mesh := m }, tg') := by
  simp only [attempt, h]

theorem allocateTilesMapped_ok {m : Mesh} {tg' : TileGroup} {map' : AddressMap}
    (h : allocateTilesMapped room answers.setConfigSymbols pod.mesh tg map =
      (.ok (), m, tg', map')) :
    ∃ origin, findOrigin pod.mesh tg.dim = .ok (some origin) ∧
      ClaimTakes room answers.setConfigSymbols map (foreachCoordinate origin tg.dim) ∧
      tg' = { tg with origin := origin, status := .allocated } := by
  simp only [allocateTilesMapped] at h
  split at h
  · cases h
  · cases h
  · next origin hf =>
    split at h
    · cases h
    · next u m' map'' hclaim =>
      cases h
      exact ⟨origin, hf, claimTilesMapped_ok (congrArg Prod.fst hclaim), rfl⟩

theorem attemptAtomic_iff (hm : WellFormed pod.mesh) (hst : tg.status = .initialized) :
    AttemptAtomic room answers pod tg map ↔
      AllocateTakes room answers.setConfigSymbols pod.mesh tg map ∧
        PlacedTakes room answers pod tg map := by
  rw [← allocateAtomic_iff hm]
  rcases halloc : allocateTilesMapped room answers.setConfigSymbols pod.mesh tg map with
    ⟨_ | u, m, tg', map'⟩
  · have hplaced : PlacedTakes room answers pod tg map := by
      intro origin hf htakes
      obtain ⟨map'', hclaim⟩ := @claimTilesMapped_takes room answers.setConfigSymbols pod.mesh tg.id
        origin map _ htakes
      simp only [allocateTilesMapped, hf, hclaim] at halloc
      cases halloc
    constructor
    · intro hatomic
      refine ⟨?_, hplaced⟩
      intro e' m' tg'' map'' h
      obtain ⟨hsame, -, horigin, hstatus⟩ := hatomic _ _ _ (attempt_of_error h)
      exact ⟨hsame, horigin, hstatus⟩
    · rintro ⟨hatomic, -⟩ e' pod' tg'' h
      rw [attempt_of_error halloc] at h
      cases h
      obtain ⟨hsame, horigin, hstatus⟩ := hatomic _ _ _ _ halloc
      exact ⟨hsame, List.Perm.refl _, horigin, hstatus⟩
  · obtain ⟨origin, hf, htakes, rfl⟩ := allocateTilesMapped_ok halloc
    have hatomic : AllocateAtomic room answers.setConfigSymbols pod.mesh tg map := by
      intro e' m' tg'' map'' h
      rw [halloc] at h
      cases h
    have hplaced : PlacedTakes room answers pod tg map ↔ (launch answers { pod with mesh := m }
        { tg with origin := origin, status := .allocated }).1 = .ok () := by
      rw [launch_eq_ok]
      constructor
      · intro h
        exact h origin hf htakes
      · intro h o ho _
        rw [hf] at ho
        cases ho
        exact h
    rw [hplaced]
    simp only [AttemptAtomic, attempt, halloc]
    constructor
    · intro h
      refine ⟨hatomic, ?_⟩
      rcases hl : launch answers { pod with mesh := m }
        { tg with origin := origin, status := .allocated } with ⟨_ | v, program, tg''⟩
      · -- a tile group that is launched without success stays allocated
        rw [hl] at h
        have hstatus := (h _ _ _ rfl).2.2.2
        rw [launch_error_status hl, hst] at hstatus
        cases hstatus
      · rfl
    · rintro ⟨-, hok⟩ e' pod' tg'' h
      simp only [Prod.mk.injEq] at h
      rw [hok] at h
      cases h.1

/-- A step that fails leaves no trace exactly where it comes before the first change: a placement
must not fail once an origin is stored, and a launch must not fail once it has an argument block. -/
theorem launch_atomicity_iff (hm : WellFormed pod.mesh) :
    (AllocateAtomic room answers.setConfigSymbols pod.mesh tg map ↔
      AllocateTakes room answers.setConfigSymbols pod.mesh tg map) ∧
    (LaunchAtomic answers pod tg ↔ LaunchTakes answers pod tg) ∧
    (tg.status = .initialized → (AttemptAtomic room answers pod tg map ↔
      AllocateTakes room answers.setConfigSymbols pod.mesh tg map ∧
        PlacedTakes room answers pod tg map)) :=
  ⟨allocateAtomic_iff hm tg, launchAtomic_iff, attemptAtomic_iff hm⟩

end Attempt

def onePod (mc : Manycore) : Pod := kernelEnqueue mc smallPod ⟨1, 1⟩ ⟨1, 2⟩ "main" [1]

def secondTileFails : Answers :=
  { allOk with setConfigSymbols := fun c => if c = ⟨16, 9⟩ then .error .fail else .ok () }

def noKernel : Answers := { allOk with kernelAddr := .error .notfound }

/-- An attempt whose kernel is not in the binary leaves its traces; one that succeeds, and one for
which there is no room, leave none. -/
theorem launch_atomicity_iff_x16y8 :
    let mc : Manycore := ⟨({} : Machine).config, true⟩
    let tooWide : TileGroup := tileGroupInit mc smallPod 0 ⟨0, 0⟩ ⟨1, 1⟩ ⟨3, 1⟩ 0
    ∃ tg, (onePod mc).tileGroups = [tg] ∧
      (attempt (fun _ => .ok ()) noKernel (onePod mc) tg (some ⟨16, 8⟩)).1 = .error .notfound ∧
      ¬ AttemptAtomic (fun _ => .ok ()) noKernel (onePod mc) tg (some ⟨16, 8⟩) ∧
      (attempt (fun _ => .ok ()) allOk (onePod mc) tg (some ⟨16, 8⟩)).1 = .ok () ∧
      AttemptAtomic (fun _ => .ok ()) allOk (onePod mc) tg (some ⟨16, 8⟩) ∧
      (attempt (fun _ => .ok ()) allOk (onePod mc) tooWide (some ⟨16, 8⟩)).1 = .error .ioverflow ∧
      AttemptAtomic (fun _ => .ok ()) allOk (onePod mc) tooWide (some ⟨16, 8⟩) := by
  intro mc tooWide
  have hmesh : WellFormed (onePod mc).mesh := by
    have hinit : meshInit mc.config ⟨0, 0⟩ ⟨2, 2⟩ ⟨0, 0⟩ = .ok (onePod mc).mesh := by decide
    exact meshInit_wellFormed hinit
  let tg := tileGroupInit mc smallPod 0 ⟨0, 0⟩ ⟨1, 1⟩ ⟨1, 2⟩ 0
  have horigin : findOrigin (onePod mc).mesh tg.dim = .ok (some ⟨16, 8⟩) := by decide
  have hnone : findOrigin (onePod mc).mesh tooWide.dim = .error .ioverflow := by decide
  have hclaim : ClaimTakes (fun _ => .ok ()) (fun _ => .ok ()) (some ⟨16, 8⟩)
      (foreachCoordinate ⟨16, 8⟩ tg.dim) := ⟨fun _ => rfl, fun _ _ => ⟨rfl, rfl⟩⟩
  refine ⟨tg, by decide, by decide, fun h => ?_, by decide, ?_, by decide, ?_⟩
  · -- the second half of the condition asks for the kernel
    obtain ⟨-, hplaced⟩ := ((launch_atomicity_iff hmesh).2.2 rfl).mp h
    obtain ⟨-, -, -, ⟨a, ha⟩, -⟩ := hplaced _ horigin hclaim
    cases ha
  · refine ((launch_atomicity_iff hmesh).2.2 rfl).mpr ⟨fun origin ho => ?_, fun origin ho _ => ?_⟩
    · rw [horigin] at ho
      cases ho
      exact Or.inl hclaim
    · exact ⟨by decide, by decide, rfl, ⟨_, rfl⟩, fun _ _ => rfl⟩
  · refine ((launch_atomicity_iff hmesh).2.2 rfl).mpr ⟨fun origin ho => ?_, fun origin ho => ?_⟩ <;>
      rw [hnone] at ho <;> cases ho

/-- A write that fails leaves a busy tile without an owner; a kernel that is not found leaves an
argument block that no launched tile group will give back. -/
theorem launch_atomicity_fails :
    let mc : Manycore := ⟨({} : Machine).config, true⟩
    ∃ tg pod pod' tg₁ tg₂, (onePod mc).tileGroups = [tg] ∧
      attempt (fun _ => .ok ()) secondTileFails (onePod mc) tg (some ⟨16, 8⟩) =
        (.error .fail, pod, tg₁) ∧
      tg₁.status = .initialized ∧
      pod.mesh.tiles.map Tile.status = [.busy, .busy, .free, .free] ∧
      attempt (fun _ => .ok ()) noKernel (onePod mc) tg (some ⟨16, 8⟩) =
        (.error .notfound, pod', tg₂) ∧
      tg₂.status = .allocated ∧ live (onePod mc) = [] ∧ live pod' = [⟨0x80000080, 128⟩] ∧
      ¬ AllocateAtomic (fun _ => .ok ()) secondTileFails.setConfigSymbols (onePod mc).mesh tg
        (some ⟨16, 8⟩) ∧
      ¬ LaunchAtomic noKernel { onePod mc with mesh := pod'.mesh } tg₂ ∧
      ¬ AttemptAtomic (fun _ => .ok ()) secondTileFails (onePod mc) tg (some ⟨16, 8⟩) ∧
      ¬ AttemptAtomic (fun _ => .ok ()) noKernel (onePod mc) tg (some ⟨16, 8⟩) := by
  intro mc
  let tg := tileGroupInit mc smallPod 0 ⟨0, 0⟩ ⟨1, 1⟩ ⟨1, 2⟩ 0
  let run := attempt (fun _ => .ok ()) secondTileFails (onePod mc) tg (some ⟨16, 8⟩)
  let run' := attempt (fun _ => .ok ()) noKernel (onePod mc) tg (some ⟨16, 8⟩)
  let placed := allocateTilesMapped (fun _ => .ok ()) secondTileFails.setConfigSymbols
    (onePod mc).mesh tg (some ⟨16, 8⟩)
  let launched := launch noKernel { onePod mc with mesh := run'.2.1.mesh } run'.2.2
  have hrun : run = (.error .fail, run.2.1, run.2.2) := Prod.ext (by decide) rfl
  have hrun' : run' = (.error .notfound, run'.2.1, run'.2.2) := Prod.ext (by decide) rfl
  have hplaced : placed = (.error .fail, placed.2.1, placed.2.2.1, placed.2.2.2) :=
    Prod.ext (by decide) rfl
  have hlaunched : launched = (.error .notfound, launched.2.1, launched.2.2) :=
    Prod.ext (by decide) rfl
  have hin : InMesh (onePod mc).mesh ⟨16, 8⟩ := by
    unfold InMesh
    decide
  refine ⟨tg, run.2.1, run'.2.1, run.2.2, run'.2.2, by decide, hrun, by decide, by decide, hrun',
    by decide, by decide, by decide, fun h => ?_, fun h => ?_, fun h => ?_, fun h => ?_⟩
  · have hsame := (h _ _ _ _ hplaced).1 _ hin
    revert hsame
    decide
  · have hlive := (h _ _ _ hlaunched).1.length_eq
    revert hlive
    decide
  · have hsame := (h _ _ _ hrun).1 _ hin
    revert hsame
    decide
  · have hlive := (h _ _ _ hrun').2.1.length_eq
    revert hlive
    decide

end LaunchAtomicity
