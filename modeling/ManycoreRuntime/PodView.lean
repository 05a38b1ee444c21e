import ManycoreRuntime.KernelsExecute
import Mathlib.Data.List.Find

/-! # A pod as seen from its origin

The coordinates of a pod's tiles and tile groups count from the origin of its mesh. What the
runtime does to a pod looks the same from there wherever the pod lies. -/
namespace PodView

open Coordinate
open Configuration (Config Manycore)
open PodMalloc (Program)
open PodMesh TileGroups
open TileOwnership (Exclusive Within allOk)

section Scan

variable {o origin dim : Coord}

def After (o c : Coord) : Prop := o.x.toNat ≤ c.x.toNat ∧ o.y.toNat ≤ c.y.toNat

theorem relative_toNat {c : Coord} (h : After o c) :
    (getRelative o c).x.toNat = c.x.toNat - o.x.toNat ∧
    (getRelative o c).y.toNat = c.y.toNat - o.y.toNat :=
  ⟨UInt32.toNat_sub_of_le _ _ (UInt32.le_iff_toNat_le.mpr h.1),
    UInt32.toNat_sub_of_le _ _ (UInt32.le_iff_toNat_le.mpr h.2)⟩

@[simp] theorem relative_self (o : Coord) : getRelative o o = ⟨0, 0⟩ := by
  simp [getRelative]

@[simp] theorem relative_zero (c : Coord) : getRelative ⟨0, 0⟩ c = c := by
  simp [getRelative]

theorem noWrap_relative (h : NoWrap origin dim) (ho : After o origin) :
    NoWrap (getRelative o origin) dim := by
  obtain ⟨hx, hy⟩ := relative_toNat ho
  have h1 := h.x
  have h2 := h.y
  exact ⟨by omega, by omega⟩

theorem scanFrom_relative (h : NoWrap origin dim) (ho : After o origin) {fuel : ℕ} {now : Coord}
    (hn : After origin now) :
    scanFrom (getRelative o origin) dim fuel (getRelative o now) =
      (scanFrom origin dim fuel now).map (getRelative o) := by
  induction fuel generalizing now with
  | zero => rfl
  | succ fuel ih =>
    have hr := noWrap_relative h ho
    have hon : After o now := ⟨ho.1.trans hn.1, ho.2.trans hn.2⟩
    obtain ⟨hox, hoy⟩ := relative_toNat ho
    obtain ⟨hnx, hny⟩ := relative_toNat hon
    obtain ⟨ho1, ho2⟩ := ho
    obtain ⟨hn1, hn2⟩ := hn
    by_cases hs : stop now origin dim = true
    · have hs' : stop (getRelative o now) (getRelative o origin) dim = true := by
        rw [stop_iff h] at hs
        rw [stop_iff hr]
        omega
      rw [scanFrom, scanFrom, if_pos hs, if_pos hs']
      rfl
    · have hlt := hs
      rw [stop_iff h] at hlt
      have hs' : ¬ stop (getRelative o now) (getRelative o origin) dim = true := by
        rw [stop_iff hr]
        omega
      have hin : InRect origin dim now := ⟨hn1, by omega, hn2, by omega⟩
      have hin' : InRect (getRelative o origin) dim (getRelative o now) :=
        ⟨by omega, by omega, by omega, by omega⟩
      have hstep := next_toNat h hin
      have hstep' := next_toNat hr hin'
      have hon' : After o (next now origin dim) := ⟨by omega, by omega⟩
      obtain ⟨hx', hy'⟩ := relative_toNat hon'
      have hnext : next (getRelative o now) (getRelative o origin) dim =
          getRelative o (next now origin dim) := coord_eq (by omega) (by omega)
      rw [scanFrom, scanFrom, if_neg hs', if_neg hs, hnext, List.map_cons,
        ih ⟨by omega, by omega⟩]

theorem foreachCoordinate_relative (h : NoWrap origin dim) (ho : After o origin) :
    foreachCoordinate (getRelative o origin) dim =
      (foreachCoordinate origin dim).map (getRelative o) :=
  scanFrom_relative h ho ⟨le_rfl, le_rfl⟩

end Scan

def viewTile (o : Coord) (tile : Tile) : Tile :=
  { tile with coord := getRelative o tile.coord, origin := getRelative o tile.origin }

def viewMesh (m : Mesh) : Mesh where
  dim := m.dim
  origin := ⟨0, 0⟩
  tiles := m.tiles.map (viewTile m.origin)

def viewGroup (o : Coord) (tg : TileGroup) : TileGroup :=
  { tg with origin := getRelative o tg.origin }

def view (pod : Pod) : Pod :=
  { pod with
    podCoord := ⟨0, 0⟩
    mesh := viewMesh pod.mesh
    tileGroups := pod.tileGroups.map (viewGroup pod.mesh.origin) }

section Mesh

variable {m : Mesh}

theorem viewMesh_tileAt (m : Mesh) (xy : Coord) :
    (viewMesh m).tileAt (getRelative m.origin xy) = (m.tileAt xy).map (viewTile m.origin) := by
  simp only [Mesh.tileAt, viewMesh, getTileId, relative_zero, List.getElem?_map]

theorem map_modify {α β : Type} {f : α → β} {g : α → α} {g' : β → β}
    (h : ∀ a, f (g a) = g' (f a)) (l : List α) (i : ℕ) :
    (l.modify i g).map f = (l.map f).modify i g' := by
  induction l generalizing i with
  | nil => cases i <;> rfl
  | cons a l ih =>
    cases i with
    | zero => simp [h]
    | succ i => simp [ih]

theorem viewMesh_updateTiles (f f' : Coord → Tile → Tile)
    (h : ∀ xy tile, viewTile m.origin (f xy tile) =
      f' (getRelative m.origin xy) (viewTile m.origin tile)) (cs : List Coord) :
    viewMesh (m.updateTiles f cs) =
      (viewMesh m).updateTiles f' (cs.map (getRelative m.origin)) := by
  induction cs generalizing m with
  | nil => rfl
  | cons c rest ih =>
    have hstep : viewMesh (m.modifyTile c (f c)) =
        (viewMesh m).modifyTile (getRelative m.origin c) (f' (getRelative m.origin c)) := by
      simp only [viewMesh, Mesh.modifyTile, getTileId, relative_zero, map_modify (h c)]
    show viewMesh ((m.modifyTile c (f c)).updateTiles f rest) =
      ((viewMesh m).modifyTile (getRelative m.origin c)
        (f' (getRelative m.origin c))).updateTiles f' (rest.map (getRelative m.origin))
    rw [← hstep]
    exact @ih (m.modifyTile c (f c)) h

theorem tilesAreFree_view {origin dim : Coord} (h : NoWrap origin dim)
    (ho : After m.origin origin) :
    tilesAreFree (viewMesh m) (getRelative m.origin origin) dim = tilesAreFree m origin dim := by
  rw [tilesAreFree, tilesAreFree, foreachCoordinate_relative h ho, List.all_map]
  congr 1
  funext xy
  rw [Function.comp_apply, viewMesh_tileAt, Option.any_map]
  rfl

/-- A mesh with room for one more row and column before the largest index. -/
structure Room (m : Mesh) : Prop where
  x : m.origin.x.toNat + m.dim.x.toNat + 1 < 2 ^ 32
  y : m.origin.y.toNat + m.dim.y.toNat + 1 < 2 ^ 32

theorem findOrigin_view (h : Room m) (dim : Dimension) :
    findOrigin (viewMesh m) dim = (findOrigin m dim).map (Option.map (getRelative m.origin)) := by
  have hx := h.x
  have hy := h.y
  unfold findOrigin
  cases hb : subSafe m.dim dim with
  | error e => simp [viewMesh, hb, bind, Except.bind, Except.map]
  | ok b =>
    obtain ⟨⟨hdx, hbx⟩, hdy, hby⟩ := TileOwnership.subSafe_eq_ok hb
    have hone : (add b ⟨1, 1⟩).x.toNat = b.x.toNat + 1 ∧
        (add b ⟨1, 1⟩).y.toNat = b.y.toNat + 1 := by
      simp only [add, UInt32.toNat_add, UInt32.reduceToNat]
      omega
    have hn : NoWrap m.origin (add b ⟨1, 1⟩) := ⟨by omega, by omega⟩
    have hscan := foreachCoordinate_relative hn (o := m.origin) ⟨le_rfl, le_rfl⟩
    rw [relative_self] at hscan
    simp only [viewMesh, hb, bind, Except.bind, pure, Except.pure, Except.map, hscan]
    rw [List.find?_map]
    congr 2
    refine List.find?_congr fun origin ho => ?_
    obtain ⟨h1, h2, h3, h4⟩ := (mem_foreachCoordinate hn origin).mp ho
    exact tilesAreFree_view ⟨by omega, by omega⟩ ⟨h1, h3⟩

theorem claimTiles_ok (id origin : Coord) (m : Mesh) (cs : List Coord) :
    claimTiles allOk.setConfigSymbols id origin m cs =
      (.ok (), m.updateTiles (fun _ => claimTile id origin) cs) := by
  induction cs generalizing m with
  | nil => rfl
  | cons c rest ih => exact ih (m.modifyTile c (claimTile id origin))

def viewAllocated (o : Coord) (r : Except Errno Unit × Mesh × TileGroup) :
    Except Errno Unit × Mesh × TileGroup := (r.1, viewMesh r.2.1, viewGroup o r.2.2)

theorem allocateTiles_view (h : Room m) (hm : WellFormed m) (tg : TileGroup) :
    allocateTiles allOk.setConfigSymbols (viewMesh m) (viewGroup m.origin tg) =
      viewAllocated m.origin (allocateTiles allOk.setConfigSymbols m tg) := by
  have hf := findOrigin_view h tg.dim
  unfold allocateTiles
  cases ho : findOrigin m tg.dim with
  | error e =>
    rw [ho] at hf
    simp only [viewGroup, hf, Except.map, viewAllocated]
  | ok found =>
    rw [ho] at hf
    cases found with
    | none => simp only [viewGroup, hf, Except.map, Option.map_none, viewAllocated]
    | some origin =>
      have hw := (TileOwnership.findOrigin_some hm ho).1
      have hscan := foreachCoordinate_relative (hw.noWrap hm) (o := m.origin) ⟨hw.left, hw.top⟩
      simp only [viewGroup, hf, Except.map, Option.map_some, claimTiles_ok, viewAllocated, hscan]
      rw [viewMesh_updateTiles _ (fun _ => claimTile tg.id (getRelative m.origin origin))
        fun _ _ => rfl]

theorem allocateTiles_origin (setConfigSymbols : Coord → Except Errno Unit) (hm : WellFormed m)
    (tg : TileGroup) : (allocateTiles setConfigSymbols m tg).2.1.origin = m.origin := by
  rcases TileOwnership.allocateTiles_cases hm setConfigSymbols tg with
    ⟨e, origin, marked, -, -, -, he⟩ | ⟨origin, -, -, he⟩
  · rw [he]
    exact (updateTiles_dim _ _ _).2
  · rw [he]
    exact (updateTiles_dim _ _ _).2

end Mesh

section Launch

variable {pod : Pod} {i : ℕ} {tg : TileGroup}

theorem wakeTiles_ok (cs : List Coord) : wakeTiles allOk.setRuntimeSymbols cs = .ok () := by
  induction cs with
  | nil => rfl
  | cons c rest ih => exact ih

/-- The launch does not look at the place of the pod or of the tile group. -/
theorem launch_view (pod pod' : Pod) (hk : pod'.kernels = pod.kernels)
    (hp : pod'.program = pod.program) (o : Coord) (tg : TileGroup) :
    launch allOk pod' (viewGroup o tg) =
      ((launch allOk pod tg).1, (launch allOk pod tg).2.1,
        viewGroup o (launch allOk pod tg).2.2) := by
  have hcopy : allOk.copyArgv = .ok () := rfl
  have haddr : allOk.kernelAddr = .ok 0 := rfl
  unfold launch
  rw [hk, hp]
  cases hkernel : tg.kernel.bind fun k => pod.kernels[k]? with
  | none => simp only [viewGroup, hkernel]
  | some kernel =>
    cases hprogram : pod.program with
    | none => simp only [viewGroup, hkernel]
    | some program =>
      simp only [viewGroup, hkernel, Program.malloc_eq, hcopy, haddr, wakeTiles_ok, bind,
        Except.bind]

theorem allocateAndLaunch_view (hr : Room pod.mesh) (hm : WellFormed pod.mesh) (i : ℕ)
    (tg : TileGroup) :
    allocateAndLaunch allOk (view pod) i (viewGroup pod.mesh.origin tg) =
      ((allocateAndLaunch allOk pod i tg).1, (allocateAndLaunch allOk pod i tg).2.1,
        view (allocateAndLaunch allOk pod i tg).2.2) := by
  have ha := allocateTiles_view hr hm tg
  have horigin := allocateTiles_origin allOk.setConfigSymbols hm tg
  unfold allocateAndLaunch
  rw [show (view pod).mesh = viewMesh pod.mesh from rfl, ha]
  cases hres : allocateTiles allOk.setConfigSymbols pod.mesh tg with
  | mk result rest =>
    obtain ⟨mesh, tg'⟩ := rest
    rw [hres] at horigin
    replace horigin : mesh.origin = pod.mesh.origin := horigin
    cases result with
    | error e => simp only [viewAllocated, view, horigin, List.map_set]
    | ok u =>
      have hl := launch_view { pod with mesh := mesh }
        { view pod with mesh := viewMesh mesh } rfl rfl pod.mesh.origin tg'
      simp only [viewAllocated, hl]
      simp only [view, horigin, List.map_set]

/-- Hardware that takes every write, and a program that has the kernels. -/
structure Succeeds (answers : Answers) : Prop where
  setConfigSymbols : ∀ c, answers.setConfigSymbols c = .ok ()
  copyArgv : answers.copyArgv = .ok ()
  kernelAddr : ∃ addr, answers.kernelAddr = .ok addr
  setRuntimeSymbols : ∀ c, answers.setRuntimeSymbols c = .ok ()

theorem Succeeds.allocateAndLaunch_eq {answers : Answers} (h : Succeeds answers) (pod : Pod)
    (i : ℕ) (tg : TileGroup) :
    allocateAndLaunch answers pod i tg = allocateAndLaunch allOk pod i tg := by
  have hset : answers.setConfigSymbols = allOk.setConfigSymbols := funext h.setConfigSymbols
  have hrun : answers.setRuntimeSymbols = allOk.setRuntimeSymbols := funext h.setRuntimeSymbols
  have hcopy : allOk.copyArgv = .ok () := rfl
  have haddr : allOk.kernelAddr = .ok 0 := rfl
  obtain ⟨addr, ha⟩ := h.kernelAddr
  have hl : ∀ pod tg, launch answers pod tg = launch allOk pod tg := by
    intro pod tg
    simp only [launch, h.copyArgv, ha, hcopy, haddr, hrun, bind, Except.bind]
  simp only [allocateAndLaunch, hset, hl]

structure Ready (pod : Pod) : Prop where
  exclusive : Exclusive pod.mesh pod.tileGroups
  room : Room pod.mesh
  program : pod.program.isSome = true
  kernels : ∀ g ∈ pod.tileGroups, g.status = .initialized →
    ∃ k, g.kernel = some k ∧ k < pod.kernels.length

theorem Room.of_dim {m m' : Mesh} (h : Room m) (hd : m'.dim = m.dim ∧ m'.origin = m.origin) :
    Room m' := by
  obtain ⟨hx, hy⟩ := h
  rw [← hd.1, ← hd.2] at hx hy
  exact ⟨hx, hy⟩

theorem allocateAndLaunch_ready (answers : Answers) (h : Ready pod)
    (hi : pod.tileGroups[i]? = some tg) (hst : tg.status = .initialized) :
    Ready (allocateAndLaunch answers pod i tg).2.2 := by
  have hex := TileOwnership.allocateAndLaunch_exclusive answers (i := i) hst h.exclusive
  rcases TileOwnership.allocateAndLaunch_cases h.exclusive.wellFormed answers i tg with
    ⟨origin, marked, -, -, -, he⟩ | ⟨origin, result, program, a, status, -, -, hp, hres, he⟩
  · rw [he] at hex ⊢
    refine ⟨hex, h.room.of_dim (updateTiles_dim _ _ _), h.program, ?_⟩
    intro g hg hg'
    rcases List.mem_or_eq_of_mem_set hg with hg | rfl
    · exact h.kernels g hg hg'
    · exact h.kernels tg (List.mem_of_getElem? hi) hst
  · rw [he] at hex ⊢
    refine ⟨hex, h.room.of_dim (updateTiles_dim _ _ _), hp.trans h.program, ?_⟩
    intro g hg hg'
    rcases List.mem_or_eq_of_mem_set hg with hg | rfl
    · exact h.kernels g hg hg'
    · exact h.kernels tg (List.mem_of_getElem? hi) hst

theorem launch_ok {k : ℕ} (hp : pod.program.isSome = true) (hk : tg.kernel = some k)
    (hlt : k < pod.kernels.length) : (launch allOk pod tg).1 = .ok () := by
  have hcopy : allOk.copyArgv = .ok () := rfl
  have haddr : allOk.kernelAddr = .ok 0 := rfl
  obtain ⟨program, hprogram⟩ := Option.isSome_iff_exists.mp hp
  simp only [launch, hk, Option.bind_some, List.getElem?_eq_getElem hlt, hprogram,
    Program.malloc_eq, hcopy, haddr, wakeTiles_ok, bind, Except.bind]

theorem allocateAndLaunch_ok (h : Ready pod) (hi : pod.tileGroups[i]? = some tg)
    (hst : tg.status = .initialized) : (allocateAndLaunch allOk pod i tg).2.1 = .ok () := by
  obtain ⟨k, hk, hlt⟩ := h.kernels tg (List.mem_of_getElem? hi) hst
  unfold allocateAndLaunch
  rcases TileOwnership.allocateTiles_cases h.exclusive.wellFormed allOk.setConfigSymbols tg with
    ⟨e, origin, marked, -, -, -, he⟩ | ⟨origin, -, -, he⟩
  · simp only [he]
  · simp only [he]
    exact launch_ok h.program hk hlt

/-- The launches of a pod, from its place and from its origin, go the same way. -/
theorem tryLaunchFrom_view (answers answers' : ℕ → Answers)
    (ha : ∀ j, Succeeds (answers j)) (ha' : ∀ j, Succeeds (answers' j)) (h : Ready pod)
    (is : List ℕ)
    (his : ∀ j ∈ is, j < pod.tileGroups.length) (lastFailed : Dimension) :
    (tryLaunchFrom answers is lastFailed pod).1 = .ok () ∧
    Ready (tryLaunchFrom answers is lastFailed pod).2 ∧
    tryLaunchFrom answers' is lastFailed (view pod) =
      (.ok (), view (tryLaunchFrom answers is lastFailed pod).2) := by
  induction is generalizing pod lastFailed with
  | nil => exact ⟨rfl, h, rfl⟩
  | cons i rest ih =>
    have hrest : ∀ j ∈ rest, j < pod.tileGroups.length :=
      fun j hj => his j (List.mem_cons_of_mem i hj)
    obtain ⟨tg, hi⟩ : ∃ tg, pod.tileGroups[i]? = some tg :=
      ⟨_, List.getElem?_eq_getElem (his i List.mem_cons_self)⟩
    have hi' : (view pod).tileGroups[i]? = some (viewGroup pod.mesh.origin tg) := by
      simp only [view, List.getElem?_map, hi, Option.map_some]
    rw [tryLaunchFrom, tryLaunchFrom, hi, hi']
    simp only
    by_cases hst : tg.status = .initialized
    · rw [if_neg (not_not.mpr hst),
        if_neg (not_not.mpr (show (viewGroup pod.mesh.origin tg).status =
        .initialized from hst))]
      by_cases hd : lastFailed = tg.dim
      · rw [if_pos hd, if_pos (show lastFailed = (viewGroup pod.mesh.origin tg).dim from hd)]
        exact ih h hrest lastFailed
      · rw [if_neg hd, if_neg (show ¬ lastFailed = (viewGroup pod.mesh.origin tg).dim from hd),
          (ha i).allocateAndLaunch_eq, (ha' i).allocateAndLaunch_eq,
          allocateAndLaunch_view h.room h.exclusive.wellFormed]
        have hready := allocateAndLaunch_ready allOk h hi hst
        have hok := allocateAndLaunch_ok h hi hst
        have hlen : (allocateAndLaunch allOk pod i tg).2.2.tileGroups.length =
            pod.tileGroups.length := by
          rcases TileOwnership.allocateAndLaunch_cases h.exclusive.wellFormed allOk i tg with
            ⟨origin, marked, -, -, -, he⟩ | ⟨origin, result, program, a, status, -, -, -, -, he⟩
          · rw [he]
            exact List.length_set
          · rw [he]
            exact List.length_set
        cases hr : allocateAndLaunch allOk pod i tg with
        | mk fits r =>
          obtain ⟨result, pod'⟩ := r
          rw [hr] at hready hok hlen
          replace hok : result = .ok () := hok
          rw [hok]
          cases fits with
          | false => exact ih hready (fun j hj => hlen ▸ hrest j hj) tg.dim
          | true => exact ih hready (fun j hj => hlen ▸ hrest j hj) lastFailed
    · rw [if_pos hst, if_pos (show (viewGroup pod.mesh.origin tg).status ≠ .initialized from hst)]
      exact ih h hrest lastFailed

/-- One pod's launches, as the code makes them when the hardware takes every write. -/
def launchAll (pod : Pod) : Pod := (tryLaunchTileGroups (fun _ => allOk) pod).2

theorem succeeds_allOk : Succeeds allOk := ⟨fun _ => rfl, rfl, ⟨0, rfl⟩, fun _ => rfl⟩

theorem tryLaunch_view {answers : ℕ → Answers} (ha : ∀ j, Succeeds (answers j)) (h : Ready pod) :
    (tryLaunchTileGroups answers pod).1 = .ok () ∧
    Ready (tryLaunchTileGroups answers pod).2 ∧
    view (tryLaunchTileGroups answers pod).2 = launchAll (view pod) := by
  have hlen : (view pod).tileGroups.length = pod.tileGroups.length := List.length_map _
  obtain ⟨hok, hready, hv⟩ := tryLaunchFrom_view answers (fun _ => allOk) ha
    (fun _ => succeeds_allOk) h (List.range pod.tileGroups.length)
    (fun j hj => List.mem_range.mp hj) ⟨0, 0⟩
  refine ⟨hok, hready, ?_⟩
  rw [launchAll, tryLaunchTileGroups, tryLaunchTileGroups, hlen, hv]

end Launch

def complete (pod : Pod) (i : ℕ) : Option Pod :=
  pod.tileGroups[i]?.bind fun tg => if tg.status = .launched then some (retire pod i tg).2 else none

def turn (pod : Pod) (i : ℕ) : Option Pod := (complete pod i).map launchAll

section Completion

variable {pod : Pod} {i : ℕ} {tg : TileGroup}

theorem deallocateTiles_view {m : Mesh} (hn : NoWrap tg.origin tg.dim)
    (ho : After m.origin tg.origin) :
    deallocateTiles (viewMesh m) (viewGroup m.origin tg) = viewMesh (deallocateTiles m tg) := by
  have hfree := viewMesh_updateTiles (m := m) (fun _ => freeTile m.origin)
    (fun _ => freeTile ⟨0, 0⟩) (by simp only [viewTile, freeTile, relative_self, implies_true])
    (foreachCoordinate tg.origin tg.dim)
  rw [← foreachCoordinate_relative hn ho] at hfree
  exact hfree.symm

theorem retire_eq {program : Program} (hp : pod.program = some program) (i : ℕ)
    (tg : TileGroup) : retire pod i tg = (.ok (), { pod with
      mesh := deallocateTiles pod.mesh tg
      program := some (program.free tg.argvEva)
      tileGroups := pod.tileGroups.set i { tg with
        dim := ⟨0, 0⟩
        origin := pod.mesh.origin
        id := ⟨0, 0⟩
        gridId := 0
        status := .finished
        kernel := none }
      kernels := match tg.kernel with
        | none => pod.kernels
        | some k => pod.kernels.modify k release }) := by
  have horigin : (deallocateTiles pod.mesh tg).origin = pod.mesh.origin :=
    (updateTiles_dim _ _ _).2
  cases hk : tg.kernel with
  | none => simp only [retire, tileGroupExit, hp, horigin, hk]
  | some k => simp only [retire, tileGroupExit, hp, horigin, hk]

theorem retire_view (h : Ready pod) (hi : pod.tileGroups[i]? = some tg)
    (hst : tg.status = .launched) :
    (retire (view pod) i (viewGroup pod.mesh.origin tg)).2 = view (retire pod i tg).2 := by
  obtain ⟨program, hp⟩ := Option.isSome_iff_exists.mp h.program
  have hw := h.exclusive.inside i tg hi (Or.inr hst)
  have hm := deallocateTiles_view (hw.noWrap h.exclusive.wellFormed) ⟨hw.left, hw.top⟩
  have horigin : (deallocateTiles pod.mesh tg).origin = pod.mesh.origin :=
    (updateTiles_dim _ _ _).2
  rw [retire_eq (show (view pod).program = some program from hp), retire_eq hp]
  simp only [view, hm, horigin, List.map_set]
  simp only [viewMesh, viewGroup, relative_self]

theorem complete_view (h : Ready pod) (i : ℕ) :
    complete (view pod) i = (complete pod i).map view := by
  unfold complete
  cases hi : pod.tileGroups[i]? with
  | none => simp only [view, List.getElem?_map, hi, Option.map_none, Option.bind_none]
  | some tg =>
    have hi' : (view pod).tileGroups[i]? = some (viewGroup pod.mesh.origin tg) := by
      simp only [view, List.getElem?_map, hi, Option.map_some]
    rw [hi', Option.bind_some, Option.bind_some]
    by_cases hst : tg.status = .launched
    · rw [if_pos hst, if_pos (show (viewGroup pod.mesh.origin tg).status = .launched from hst),
        retire_view h hi hst]
      rfl
    · rw [if_neg hst,
        if_neg (show ¬ (viewGroup pod.mesh.origin tg).status = .launched from hst)]
      rfl

theorem retire_ready (h : Ready pod) (hi : pod.tileGroups[i]? = some tg)
    (hst : tg.status = .launched) : Ready (retire pod i tg).2 := by
  obtain ⟨program, hp⟩ := Option.isSome_iff_exists.mp h.program
  rw [retire_eq hp]
  refine ⟨?_, h.room.of_dim (updateTiles_dim _ _ _), rfl, ?_⟩
  · exact h.exclusive.giveBack hi (Or.inr hst) (TileOwnership.not_owns_finished rfl)
  · intro g hg hinit
    rcases List.mem_or_eq_of_mem_set hg with hg | rfl
    · obtain ⟨k, hk, hlt⟩ := h.kernels g hg hinit
      refine ⟨k, hk, ?_⟩
      cases tg.kernel with
      | none => exact hlt
      | some k' =>
        simp only [List.length_modify]
        exact hlt
    · cases hinit

theorem complete_ready {pod' : Pod} (h : Ready pod) (hc : complete pod i = some pod') :
    Ready pod' := by
  obtain ⟨tg, hi, hc⟩ := Option.bind_eq_some_iff.mp hc
  split at hc
  · next hst =>
    cases hc
    exact retire_ready h hi hst
  · cases hc

theorem turn_of_finished (h : allTileGroupsFinished pod = true) (i : ℕ) : turn pod i = none := by
  unfold turn complete
  cases hi : pod.tileGroups[i]? with
  | none => rfl
  | some tg =>
    have hst := KernelsExecute.allTileGroupsFinished_iff.mp h i tg hi
    rw [Option.bind_some, if_neg (by rw [hst]; decide)]
    rfl

theorem allTileGroupsFinished_view (pod : Pod) :
    allTileGroupsFinished (view pod) = allTileGroupsFinished pod := by
  rw [allTileGroupsFinished, view, List.all_map]
  rfl

end Completion

section Enqueue

variable {mc : Manycore} {pod : Pod}

theorem tileGroupKernelEnqueue_view (mc : Manycore) (pod : Pod) (gridId : UInt8) (tgId : Coord)
    (gridDim dim : Dimension) (kernel : ℕ) :
    tileGroupKernelEnqueue mc (view pod) gridId tgId gridDim dim kernel =
      view (tileGroupKernelEnqueue mc pod gridId tgId gridDim dim kernel) := by
  simp only [tileGroupKernelEnqueue, tileGroupInit, view, viewMesh, viewGroup, List.length_map,
    List.map_append, List.map_cons, List.map_nil, relative_self]

theorem kernelEnqueue_view (mc : Manycore) (pod : Pod) (gridDim tgDim : Dimension) (name : String)
    (argv : List UInt32) :
    kernelEnqueue mc (view pod) gridDim tgDim name argv =
      view (kernelEnqueue mc pod gridDim tgDim name argv) := by
  let enqueue (pod' : Pod) (tgId : Coord) : Pod :=
    tileGroupKernelEnqueue mc pod' pod'.numGrids tgId gridDim tgDim pod.kernels.length
  have hfold : ∀ (cs : List Coord) (p : Pod),
      cs.foldl enqueue (view p) = view (cs.foldl enqueue p) := by
    intro cs
    induction cs with
    | nil => exact fun _ => rfl
    | cons c rest ih =>
      intro p
      rw [List.foldl_cons, List.foldl_cons, ← ih]
      congr 1
      exact tileGroupKernelEnqueue_view mc p _ c gridDim tgDim _
  exact congrArg (fun pod' : Pod => { pod' with numGrids := pod'.numGrids + 1 })
    (hfold (foreachCoordinate ⟨0, 0⟩ gridDim)
      { pod with kernels := pod.kernels ++ [⟨name, argv, 0, false⟩] })

theorem tileGroupKernelEnqueue_ready (h : Ready pod) {kernel : ℕ}
    (hk : kernel < pod.kernels.length) (gridId : UInt8) (tgId : Coord) (gridDim dim : Dimension) :
    Ready (tileGroupKernelEnqueue mc pod gridId tgId gridDim dim kernel) := by
  refine ⟨h.exclusive.append ?_, h.room, h.program, ?_⟩
  · intro g hg
    cases List.mem_singleton.mp hg
    exact TileOwnership.not_owns_initialized rfl
  · intro g hg hinit
    simp only [tileGroupKernelEnqueue, List.length_modify]
    rcases List.mem_append.mp hg with hg | hg
    · exact h.kernels g hg hinit
    · cases List.mem_singleton.mp hg
      exact ⟨kernel, rfl, hk⟩

theorem kernelEnqueue_ready (h : Ready pod) (gridDim tgDim : Dimension) (name : String)
    (argv : List UInt32) : Ready (kernelEnqueue mc pod gridDim tgDim name argv) := by
  have hfold : ∀ (cs : List Coord) (p : Pod), Ready p → pod.kernels.length < p.kernels.length →
      Ready (cs.foldl (fun p tgId =>
        tileGroupKernelEnqueue mc p p.numGrids tgId gridDim tgDim pod.kernels.length) p) := by
    intro cs
    induction cs with
    | nil => exact fun p hp _ => hp
    | cons c rest ih =>
      intro p hp hlt
      refine ih _ (tileGroupKernelEnqueue_ready hp hlt _ _ _ _) ?_
      simp only [tileGroupKernelEnqueue, List.length_modify]
      exact hlt
  have hstart : Ready { pod with kernels := pod.kernels ++ [⟨name, argv, 0, false⟩] } := by
    refine ⟨h.exclusive, h.room, h.program, ?_⟩
    intro g hg hinit
    obtain ⟨k, hk, hlt⟩ := h.kernels g hg hinit
    refine ⟨k, hk, ?_⟩
    rw [List.length_append]
    exact Nat.lt_add_right _ hlt
  have hready := hfold (foreachCoordinate ⟨0, 0⟩ gridDim) _ hstart (by simp)
  exact ⟨hready.exclusive, hready.room, hready.program, hready.kernels⟩

end Enqueue

def originMesh (dim : Dimension) : Mesh :=
  (blankMesh ⟨0, 0⟩ dim).updateTiles (fun xy _ => initTile ⟨0, 0⟩ xy)
    (foreachCoordinate ⟨0, 0⟩ dim)

theorem meshInit_view {cfg : Config} {podCoord : Coord} {optDim defaultDim : Dimension} {m : Mesh}
    (h : meshInit cfg podCoord optDim defaultDim = .ok m) :
    viewMesh m = originMesh (meshDim cfg optDim defaultDim) ∧
    m.origin = ConfigPod.podVcoreOrigin cfg podCoord ∧
    m.dim.x.toNat ≤ cfg.podShape.x.toNat ∧ m.dim.y.toNat ≤ cfg.podShape.y.toNat := by
  unfold meshInit at h
  simp only at h
  split at h
  · cases h
  · split at h
    · cases h
    · next hdim =>
      split at h
      · cases h
      · next hok =>
        cases h
        obtain ⟨hn, -⟩ := not_or.mp hok
        have hn := not_not.mp hn
        obtain ⟨hd, ho⟩ := updateTiles_dim
          (blankMesh (ConfigPod.podVcoreOrigin cfg podCoord) (meshDim cfg optDim defaultDim))
          (fun xy _ => initTile (ConfigPod.podVcoreOrigin cfg podCoord) xy)
          (foreachCoordinate (ConfigPod.podVcoreOrigin cfg podCoord)
            (meshDim cfg optDim defaultDim))
        obtain ⟨hx, hy⟩ := not_or.mp hdim
        refine ⟨?_, ho, ?_, ?_⟩
        · rw [viewMesh_updateTiles _ fun xy _ => initTile ⟨0, 0⟩ xy]
          · rw [originMesh, ← relative_self (ConfigPod.podVcoreOrigin cfg podCoord),
              foreachCoordinate_relative hn ⟨le_rfl, le_rfl⟩]
            simp only [viewMesh, blankMesh, List.map_replicate, viewTile, initTile, relative_self]
          · intro xy tile
            simp only [viewTile, initTile, blankMesh, relative_self]
        · rw [hd]
          exact UInt32.le_iff_toNat_le.mp (UInt32.not_lt.mp hx)
        · rw [hd]
          exact UInt32.le_iff_toNat_le.mp (UInt32.not_lt.mp hy)

end PodView
