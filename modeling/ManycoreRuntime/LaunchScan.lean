import ManycoreRuntime.Sweep
import ManycoreRuntime.TileOwnership

/-! # The scan for tile groups to launch

The loop over the tile groups of a pod skips those whose shape could not be allocated just
before. It launches what a loop without the skip launches, and leaves no tile group behind that has
room. -/
namespace LaunchScan

open Coordinate
open Configuration (Manycore)
open Fallible (bind_eq_ok)
open Machines (Machine)
open PodMesh TileGroups TileOwnership
open Sweep

/-- The loop that tries every tile group that is ready. -/
def plainLaunchFrom (answers : ℕ → Answers) : List ℕ → Pod → Except Errno Unit × Pod
  | [], pod => (.ok (), pod)
  | i :: rest, pod =>
    match pod.tileGroups[i]? with
    | none => (.error .undefined, pod)
    | some tg =>
      if tg.status ≠ .initialized then plainLaunchFrom answers rest pod
      else
        match allocateAndLaunch (answers i) pod i tg with
        | (false, _, pod) => plainLaunchFrom answers rest pod
        | (true, .error e, pod) => (.error e, pod)
        | (true, .ok _, pod) => plainLaunchFrom answers rest pod

def plainLaunch (answers : ℕ → Answers) (pod : Pod) : Except Errno Unit × Pod :=
  plainLaunchFrom answers (List.range pod.tileGroups.length) pod

def Placeable (m : Mesh) (dim : Dimension) : Prop :=
  ∃ origin, Within m origin dim ∧
    ∀ c, InRect origin dim c → ∃ t, m.tileAt c = some t ∧ t.status = .free

def Positive (dim : Dimension) : Prop := 1 ≤ dim.x.toNat ∧ 1 ≤ dim.y.toNat

instance (dim : Dimension) : Decidable (Positive dim) := inferInstanceAs (Decidable (_ ∧ _))

/-- Tiles in one array, and tile groups of at least one tile that wait for their launch. -/
structure Ready (pod : Pod) : Prop where
  mesh : WellFormed pod.mesh
  dims : ∀ g ∈ pod.tileGroups, g.status = .initialized → Positive g.dim

def Configured (answers : ℕ → Answers) : Prop := ∀ i c, (answers i).setConfigSymbols c = .ok ()

section Placement

variable {m : Mesh} {dim : Dimension}

theorem exists_findOrigin (hm : WellFormed m) (hdim : Positive dim) (h : Placeable m dim) :
    ∃ origin, findOrigin m dim = .ok (some origin) := by
  obtain ⟨origin, hw, hfree⟩ := h
  obtain ⟨h1, h2, h3, h4⟩ := hw
  obtain ⟨hx, hy⟩ := hdim
  have hmx := hm.noWrap.x
  have hmy := hm.noWrap.y
  have hlex : dim.x ≤ m.dim.x := UInt32.le_iff_toNat_le.mpr (by omega)
  have hley : dim.y ≤ m.dim.y := UInt32.le_iff_toNat_le.mpr (by omega)
  have hsub : subSafe m.dim dim = .ok ⟨m.dim.x - dim.x, m.dim.y - dim.y⟩ := by
    rw [subSafe, if_neg]
    rw [not_or, UInt32.not_lt, UInt32.not_lt]
    exact ⟨hlex, hley⟩
  have hbx : (m.dim.x - dim.x + 1).toNat = m.dim.x.toNat - dim.x.toNat + 1 := by
    rw [UInt32.toNat_add, UInt32.toNat_sub_of_le _ _ hlex]
    simp only [UInt32.reduceToNat]
    omega
  have hby : (m.dim.y - dim.y + 1).toNat = m.dim.y.toNat - dim.y.toNat + 1 := by
    rw [UInt32.toNat_add, UInt32.toNat_sub_of_le _ _ hley]
    simp only [UInt32.reduceToNat]
    omega
  have hscan : origin ∈ foreachCoordinate m.origin
      (add ⟨m.dim.x - dim.x, m.dim.y - dim.y⟩ ⟨1, 1⟩) := by
    rw [mem_foreachCoordinate]
    · refine ⟨h1, ?_, h3, ?_⟩
      · show origin.x.toNat < m.origin.x.toNat + (m.dim.x - dim.x + 1).toNat
        omega
      · show origin.y.toNat < m.origin.y.toNat + (m.dim.y - dim.y + 1).toNat
        omega
    · refine ⟨?_, ?_⟩
      · show m.origin.x.toNat + (m.dim.x - dim.x + 1).toNat < 2 ^ 32
        omega
      · show m.origin.y.toNat + (m.dim.y - dim.y + 1).toNat < 2 ^ 32
        omega
  have hsome := List.find?_isSome (p := fun origin => tilesAreFree m origin dim) |>.mpr
    ⟨origin, hscan, (tilesAreFree_iff hm ⟨h1, h2, h3, h4⟩).mpr hfree⟩
  obtain ⟨found, hfound⟩ := Option.isSome_iff_exists.mp hsome
  refine ⟨found, ?_⟩
  simp only [findOrigin, hsub, bind, Except.bind, pure, Except.pure, hfound]

/-- Tiles that are claimed make room for nothing. -/
theorem placeable_of_claimed (hm : WellFormed m) {id origin : Coord} {dim' : Dimension}
    (hw : Within m origin dim')
    (h : Placeable (m.updateTiles (fun _ => claimTile id origin) (foreachCoordinate origin dim'))
      dim) : Placeable m dim := by
  obtain ⟨o, ho, hfree⟩ := h
  obtain ⟨hd, hor⟩ := updateTiles_dim m (fun _ => claimTile id origin)
    (foreachCoordinate origin dim')
  have hin : Within m o dim := ho.of_dim hd.symm hor.symm
  refine ⟨o, hin, fun c hc => ?_⟩
  obtain ⟨t, ht, hf⟩ := hfree c hc
  rw [hw.updateTiles_tileAt hm _ (hin.inMesh hc)] at ht
  split at ht
  · obtain ⟨t₀, -, rfl⟩ := Option.map_eq_some_iff.mp ht
    cases hf
  · exact ⟨t, ht, hf⟩

end Placement

section Scan

variable {answers : ℕ → Answers} {pod : Pod} {i : ℕ} {tg : TileGroup}

theorem allocateAndLaunch_unfit (hm : WellFormed pod.mesh) (hok : Configured answers)
    (hi : pod.tileGroups[i]? = some tg) (hdim : Positive tg.dim) :
    (¬ Placeable pod.mesh tg.dim ∧ allocateAndLaunch (answers i) pod i tg = (false, .ok (), pod)) ∨
    Placeable pod.mesh tg.dim ∧ ∃ result pod', allocateAndLaunch (answers i) pod i tg =
      (true, result, pod') := by
  by_cases hplace : Placeable pod.mesh tg.dim
  · refine Or.inr ⟨hplace, ?_⟩
    obtain ⟨origin, horigin⟩ := exists_findOrigin hm hdim hplace
    rcases claimTiles_cases (m := pod.mesh) (answers i).setConfigSymbols tg.id origin
      (foreachCoordinate origin tg.dim) with hclaim | ⟨e, marked, -, ⟨c, hc⟩, -⟩
    · simp only [allocateAndLaunch, allocateTiles, horigin, hclaim]
      exact ⟨_, _, rfl⟩
    · rw [hok i c] at hc
      cases hc
  · refine Or.inl ⟨hplace, ?_⟩
    rcases allocateAndLaunch_cases hm (answers i) i tg with
      ⟨origin, marked, -, -, hclean, he⟩ | ⟨origin, -, -, -, -, hw, hfree, -⟩
    · obtain ⟨rfl, rfl⟩ := hclean (hok i)
      rw [he, set_getElem?_self hi]
      rfl
    · exact absurd ⟨origin, hw, hfree⟩ hplace

theorem allocateAndLaunch_done (h : Ready pod) {pod' : Pod}
    (he : allocateAndLaunch (answers i) pod i tg = (true, .ok (), pod')) :
    WellFormed pod'.mesh ∧ (∀ dim, Placeable pod'.mesh dim → Placeable pod.mesh dim) ∧
      ∃ origin a, pod'.tileGroups = pod.tileGroups.set i
        { tg with origin := origin, argvEva := a, status := .launched } := by
  rcases allocateAndLaunch_cases h.mesh (answers i) i tg with
    ⟨origin, marked, -, -, -, hcase⟩ |
    ⟨origin, result, program, a, status, hw, -, -, hres, hcase⟩
  · rw [he] at hcase
    cases hcase
  · rw [he] at hcase
    simp only [Prod.mk.injEq, true_and] at hcase
    obtain ⟨rfl, rfl⟩ := hcase
    obtain ⟨-, rfl⟩ | ⟨e, herr, -⟩ := hres
    · exact ⟨updateTiles_wellFormed h.mesh _ _,
        fun dim => placeable_of_claimed h.mesh hw, origin, a, rfl⟩
    · cases herr

/-- The tile groups that are ready, by their shape. -/
def launchTask (answers : ℕ → Answers) : Task ℕ Dimension Errno Pod where
  key i pod := pod.tileGroups[i]?.bind fun tg =>
    if tg.status = .initialized then some tg.dim else none
  attempt i pod := pod.tileGroups[i]?.bind fun tg =>
    match allocateAndLaunch (answers i) pod i tg with
    | (false, _) => none
    | (true, result) => some result

theorem key_eq_some {dim : Dimension} :
    (launchTask answers).key i pod = some dim ↔
      ∃ tg, pod.tileGroups[i]? = some tg ∧ tg.status = .initialized ∧ tg.dim = dim := by
  simp only [launchTask, Option.bind_eq_some_iff, Option.ite_none_right_eq_some,
    Option.some.injEq]

def Unfit (dim : Dimension) (pod : Pod) : Prop := Positive dim → ¬ Placeable pod.mesh dim

theorem attempt_eq (hi : pod.tileGroups[i]? = some tg) :
    (launchTask answers).attempt i pod =
      match allocateAndLaunch (answers i) pod i tg with
      | (false, _) => none
      | (true, result) => some result := by
  simp only [launchTask, hi, Option.bind_some]

theorem attempt_eq_some {u : Unit} {pod' : Pod} (hi : pod.tileGroups[i]? = some tg)
    (h : (launchTask answers).attempt i pod = some (.ok u, pod')) :
    allocateAndLaunch (answers i) pod i tg = (true, .ok (), pod') := by
  rw [attempt_eq hi] at h
  split at h
  · cases h
  · next he =>
    cases h
    exact he

theorem launchTask_lawful (hok : Configured answers) :
    Lawful (launchTask answers) Ready Unfit := by
  refine ⟨?_, ?_, ?_, ?_, ?_⟩
  · intro i pod dim hready hkey
    obtain ⟨tg, hi, hst, rfl⟩ := key_eq_some.mp hkey
    have hdim := hready.dims tg (List.mem_of_getElem? hi) hst
    rw [attempt_eq hi]
    rcases allocateAndLaunch_unfit hready.mesh hok hi hdim with
      ⟨hplace, he⟩ | ⟨hplace, result, pod', he⟩
    · rw [he]
      exact iff_of_true rfl fun _ => hplace
    · rw [he]
      exact iff_of_false (fun hnone => by cases hnone) fun hunfit => hunfit hdim hplace
  · intro i pod dim u pod' hready hkey hattempt
    obtain ⟨tg, hi, hst, rfl⟩ := key_eq_some.mp hkey
    obtain ⟨hm, -, origin, a, hgroups⟩ :=
      allocateAndLaunch_done hready (attempt_eq_some hi hattempt)
    refine ⟨hm, fun g hg hginit => ?_⟩
    rw [hgroups] at hg
    rcases List.mem_or_eq_of_mem_set hg with hg | rfl
    · exact hready.dims g hg hginit
    · cases hginit
  · intro i pod dim u pod' hready hkey hattempt l hl hpos hplace
    obtain ⟨tg, hi, hst, rfl⟩ := key_eq_some.mp hkey
    obtain ⟨-, hkeeps, -⟩ := allocateAndLaunch_done hready (attempt_eq_some hi hattempt)
    exact hl hpos (hkeeps l hplace)
  · intro i pod dim u pod' hready hkey hattempt
    obtain ⟨tg, hi, hst, rfl⟩ := key_eq_some.mp hkey
    obtain ⟨-, -, origin, a, hgroups⟩ :=
      allocateAndLaunch_done hready (attempt_eq_some hi hattempt)
    simp only [launchTask, hgroups, getElem?_set_of_some _ hi, Option.bind_some]
    rfl
  · intro i pod dim u pod' hready hkey hattempt j hj
    obtain ⟨tg, hi, hst, rfl⟩ := key_eq_some.mp hkey
    obtain ⟨-, -, origin, a, hgroups⟩ :=
      allocateAndLaunch_done hready (attempt_eq_some hi hattempt)
    simp only [launchTask, hgroups, List.getElem?_set_ne (Ne.symm hj)]

def Indices (pod : Pod) (is : List ℕ) : Prop := ∀ i ∈ is, i < pod.tileGroups.length

theorem Indices.after {rest : List ℕ} (h : Indices pod (i :: rest)) (hready : Ready pod)
    {pod' : Pod} (he : allocateAndLaunch (answers i) pod i tg = (true, .ok (), pod')) :
    Indices pod' rest := by
  intro j hj
  obtain ⟨-, -, origin, a, hgroups⟩ := allocateAndLaunch_done hready he
  rw [hgroups, List.length_set]
  exact h j (List.mem_cons_of_mem i hj)

/-- What an attempt at a tile group that is ready comes to. -/
theorem attempt_cases {rest : List ℕ} (hok : Configured answers) (hready : Ready pod)
    (his : Indices pod (i :: rest)) (hi : pod.tileGroups[i]? = some tg)
    (hst : tg.status = .initialized) :
    (launchTask answers).attempt i pod = none ∧
        allocateAndLaunch (answers i) pod i tg = (false, .ok (), pod) ∨
      ∃ result pod', (launchTask answers).attempt i pod = some (result, pod') ∧
        allocateAndLaunch (answers i) pod i tg = (true, result, pod') ∧
        (result = .ok () → Ready pod' ∧ Indices pod' rest) := by
  rw [attempt_eq hi]
  rcases allocateAndLaunch_unfit hready.mesh hok hi
    (hready.dims _ (List.mem_of_getElem? hi) hst) with ⟨-, he⟩ | ⟨-, result, pod', he⟩
  · rw [he]
    exact Or.inl ⟨rfl, rfl⟩
  · refine Or.inr ⟨result, pod', by rw [he], he, ?_⟩
    rintro rfl
    refine ⟨?_, his.after hready he⟩
    exact (launchTask_lawful hok).inv hready (key_eq_some.mpr ⟨_, hi, hst, rfl⟩)
      (by rw [attempt_eq hi, he])

theorem tryLaunchFrom_eq_sweep (hok : Configured answers) {is : List ℕ} {lastFailed : Dimension}
    (hready : Ready pod) (his : Indices pod is) :
    tryLaunchFrom answers is lastFailed pod =
      sweepSkipping (launchTask answers) is lastFailed pod := by
  induction is generalizing lastFailed pod with
  | nil => rfl
  | cons i rest ih =>
    obtain ⟨tg, hi⟩ : ∃ tg, pod.tileGroups[i]? = some tg :=
      ⟨_, List.getElem?_eq_getElem (his i List.mem_cons_self)⟩
    have hrest : Indices pod rest := fun j hj => his j (List.mem_cons_of_mem i hj)
    rw [tryLaunchFrom, sweepSkipping]
    by_cases hst : tg.status = .initialized
    · have hkey : (launchTask answers).key i pod = some tg.dim := key_eq_some.mpr ⟨tg, hi, hst, rfl⟩
      simp only [hi, hkey, hst, ne_eq, not_true, if_false]
      by_cases hlast : lastFailed = tg.dim
      · rw [if_pos hlast, if_pos hlast]
        exact ih hready hrest
      · rw [if_neg hlast, if_neg hlast]
        rcases attempt_cases hok hready his hi hst with ⟨ha, he⟩ | ⟨result, pod', ha, he, hnext⟩
        · simp only [ha, he]
          exact ih hready hrest
        · simp only [ha, he]
          cases result with
          | error e => rfl
          | ok u => exact ih (hnext rfl).1 (hnext rfl).2
    · simp only [launchTask, hi, Option.bind_some, hst, ne_eq, not_false_eq_true, if_true, if_false]
      exact ih hready hrest

theorem plainLaunchFrom_eq_sweep (hok : Configured answers) {is : List ℕ} (hready : Ready pod)
    (his : Indices pod is) :
    plainLaunchFrom answers is pod = sweep (launchTask answers) is pod := by
  induction is generalizing pod with
  | nil => rfl
  | cons i rest ih =>
    obtain ⟨tg, hi⟩ : ∃ tg, pod.tileGroups[i]? = some tg :=
      ⟨_, List.getElem?_eq_getElem (his i List.mem_cons_self)⟩
    have hrest : Indices pod rest := fun j hj => his j (List.mem_cons_of_mem i hj)
    rw [plainLaunchFrom, sweep]
    by_cases hst : tg.status = .initialized
    · have hkey : (launchTask answers).key i pod = some tg.dim := key_eq_some.mpr ⟨tg, hi, hst, rfl⟩
      simp only [hi, hkey, hst, ne_eq, not_true, if_false]
      rcases attempt_cases hok hready his hi hst with ⟨ha, he⟩ | ⟨result, pod', ha, he, hnext⟩
      · simp only [ha, he]
        exact ih hready hrest
      · simp only [ha, he]
        cases result with
        | error e => rfl
        | ok u => exact ih (hnext rfl).1 (hnext rfl).2
    · simp only [launchTask, hi, Option.bind_some, hst, ne_eq, not_false_eq_true, if_true, if_false]
      exact ih hready hrest

end Scan

/-- The loop that skips the last failed shape launches what the plain loop launches, at the same
origins, and leaves no tile group behind that has room. -/
theorem launch_maximality {answers : ℕ → Answers} (hok : Configured answers) {pod : Pod}
    (hready : Ready pod) :
    tryLaunchTileGroups answers pod = plainLaunch answers pod ∧
    ∀ pod', tryLaunchTileGroups answers pod = (.ok (), pod') →
      ∀ g ∈ pod'.tileGroups, g.status = .initialized → ¬ Placeable pod'.mesh g.dim := by
  have hindices : Indices pod (List.range pod.tileGroups.length) :=
    fun i hi => List.mem_range.mp hi
  have hzero : Unfit ⟨0, 0⟩ pod := fun hpos => absurd hpos (by decide)
  have hskip : tryLaunchTileGroups answers pod =
      sweep (launchTask answers) (List.range pod.tileGroups.length) pod := by
    rw [tryLaunchTileGroups, tryLaunchFrom_eq_sweep hok hready hindices,
      sweepSkipping_eq (launchTask_lawful hok) hready hzero]
  refine ⟨?_, fun pod' hrun g hg hst => ?_⟩
  · rw [hskip, plainLaunch, plainLaunchFrom_eq_sweep hok hready hindices]
  · rw [hskip] at hrun
    obtain ⟨i, hi⟩ := List.getElem?_of_mem hg
    have hkey : (launchTask answers).key i pod' = some g.dim := key_eq_some.mpr ⟨g, hi, hst, rfl⟩
    obtain ⟨hready', -, hothers⟩ := sweep_keeps (launchTask_lawful hok) hready hrun
    refine sweep_maximal (launchTask_lawful hok) List.nodup_range hready hrun i ?_ _ hkey
      (hready'.dims g hg hst)
    -- the loop adds no tile group
    by_contra hout
    rw [hothers i hout, key_eq_some] at hkey
    obtain ⟨tg, htg, -⟩ := hkey
    exact hout (List.mem_range.mpr (List.getElem?_eq_some_iff.mp htg).1)

/-- Tile groups on a mesh of two by two tiles: two that are larger than the mesh, and three of
which two fit. -/
def crowdedPod (mc : Manycore) : Pod :=
  kernelEnqueue mc (kernelEnqueue mc smallPod ⟨2, 1⟩ ⟨3, 3⟩ "large" []) ⟨3, 1⟩ ⟨1, 2⟩ "main" [1]

theorem launch_maximality_x16y8 :
    let mc : Manycore := ⟨({} : Machine).config, true⟩
    tryLaunchTileGroups (fun _ => allOk) (crowdedPod mc) =
      plainLaunch (fun _ => allOk) (crowdedPod mc) ∧
    ∃ pod', tryLaunchTileGroups (fun _ => allOk) (crowdedPod mc) = (.ok (), pod') ∧
      pod'.tileGroups.map (fun g => (g.status, g.origin)) =
        [(.initialized, ⟨16, 8⟩), (.initialized, ⟨16, 8⟩), (.launched, ⟨16, 8⟩),
          (.launched, ⟨17, 8⟩), (.initialized, ⟨16, 8⟩)] ∧
      ∀ g ∈ pod'.tileGroups, g.status = .initialized → ¬ Placeable pod'.mesh g.dim := by
  intro mc
  have hmesh : meshInit mc.config ⟨0, 0⟩ ⟨2, 2⟩ ⟨0, 0⟩ = .ok (crowdedPod mc).mesh := by decide
  obtain ⟨heq, hmax⟩ := @launch_maximality (fun _ => allOk) (fun _ _ => rfl) (crowdedPod mc)
    ⟨meshInit_wellFormed hmesh, by decide⟩
  have hrun : tryLaunchTileGroups (fun _ => allOk) (crowdedPod mc) =
      (.ok (), (tryLaunchTileGroups (fun _ => allOk) (crowdedPod mc)).2) :=
    Prod.ext (by decide) rfl
  exact ⟨heq, _, hrun, by decide, hmax _ hrun⟩

end LaunchScan
