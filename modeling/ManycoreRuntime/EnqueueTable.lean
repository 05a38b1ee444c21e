import ManycoreRuntime.TileOwnership

/-! # The table of tile groups

An enqueue adds the tile groups of a grid to a table that doubles when it is full. The host may
have no memory for the kernel, for a larger table, or for an address map. -/
namespace EnqueueTable

open Coordinate
open Configuration (Manycore)
open Fallible (bind_eq_ok)
open Machines (Machine)
open TileGroups TileOwnership

/-- What the host's `malloc` and `realloc` return during one enqueue. -/
structure Host where
  kernel : Except Errno Unit
  table : Coord → Except Errno Unit
  map : Coord → Except Errno Unit

def tileGroupsInit (pod : Pod) : Pod := { pod with tileGroups := [], tileGroupCapacity := 1 }

/-- The new capacity is computed as an `int`. -/
def growTable (room : Except Errno Unit) (pod : Pod) : Except Errno Pod :=
  if pod.tileGroupCapacity.toNat = pod.tileGroups.length then
    if 2 ^ 31 ≤ pod.tileGroupCapacity.toNat * 2 then .error .undefined
    else do
      let _ ← room
      return { pod with tileGroupCapacity := pod.tileGroupCapacity * 2 }
  else return pod

/-- Behind the end of the table there is memory that is not the table's. -/
def storeTileGroup (pod : Pod) (tg : TileGroup) : Except Errno Pod :=
  if pod.tileGroups.length < pod.tileGroupCapacity.toNat then
    .ok { pod with tileGroups := pod.tileGroups ++ [tg] }
  else .error .undefined

def tileGroupKernelEnqueueChecked (mc : Manycore) (host : Host) (pod : Pod) (gridId : UInt8)
    (tgId : Coord) (gridDim dim : Dimension) (kernel : ℕ) : Except Errno Pod := do
  let pod ← growTable (host.table tgId) pod
  let _ ← host.map tgId
  let pod ← storeTileGroup pod (tileGroupInit mc pod gridId tgId gridDim dim kernel)
  return { pod with kernels := pod.kernels.modify kernel retain }

def kernelEnqueueChecked (mc : Manycore) (host : Host) (pod : Pod) (gridDim tgDim : Dimension)
    (name : String) (argv : List UInt32) : Except Errno Pod := do
  let _ ← host.kernel
  let kernel := pod.kernels.length
  let pod := { pod with kernels := pod.kernels ++ [⟨name, argv, 0, false⟩] }
  let pod ← (foreachCoordinate ⟨0, 0⟩ gridDim).foldlM (fun pod tgId =>
    tileGroupKernelEnqueueChecked mc host pod pod.numGrids tgId gridDim tgDim kernel) pod
  return { pod with numGrids := pod.numGrids + 1 }

structure Fits (pod : Pod) : Prop where
  room : pod.tileGroups.length ≤ pod.tileGroupCapacity.toNat
  pos : 0 < pod.tileGroupCapacity.toNat

section Step

variable {mc : Manycore} {host : Host} {pod pod' : Pod} {gridId : UInt8} {tgId : Coord}
  {gridDim dim : Dimension} {kernel : ℕ}

theorem toNat_double {a : UInt32} (h : a.toNat * 2 < 2 ^ 31) : (a * 2).toNat = a.toNat * 2 := by
  rw [UInt32.toNat_mul]
  simp only [UInt32.reduceToNat]
  omega

theorem growTable_ok {room : Except Errno Unit} (hfits : Fits pod)
    (h : growTable room pod = .ok pod') :
    pod' = { pod with tileGroupCapacity :=
      if pod.tileGroupCapacity.toNat = pod.tileGroups.length then pod.tileGroupCapacity * 2
      else pod.tileGroupCapacity } ∧
    pod.tileGroups.length < pod'.tileGroupCapacity.toNat := by
  unfold growTable at h
  have hroom := hfits.room
  have hpos := hfits.pos
  split at h
  · next hfull =>
    split at h
    · cases h
    · next hlt =>
      rw [bind_eq_ok] at h
      obtain ⟨u, -, h⟩ := h
      cases h
      have hdouble := toNat_double (not_le.mp hlt)
      refine ⟨by rw [if_pos hfull], ?_⟩
      simp only [hdouble]
      omega
  · next hfull =>
    cases h
    refine ⟨by rw [if_neg hfull], ?_⟩
    omega

theorem tileGroupKernelEnqueueChecked_ok (hfits : Fits pod)
    (h : tileGroupKernelEnqueueChecked mc host pod gridId tgId gridDim dim kernel = .ok pod') :
    pod' = tileGroupKernelEnqueue mc pod gridId tgId gridDim dim kernel ∧ Fits pod' := by
  unfold tileGroupKernelEnqueueChecked at h
  rw [bind_eq_ok] at h
  obtain ⟨grown, hgrow, h⟩ := h
  obtain ⟨rfl, hlt⟩ := growTable_ok hfits hgrow
  rw [bind_eq_ok] at h
  obtain ⟨u, -, h⟩ := h
  rw [bind_eq_ok, storeTileGroup, if_pos hlt] at h
  obtain ⟨stored, hstore, h⟩ := h
  cases hstore
  cases h
  refine ⟨rfl, ?_, ?_⟩
  · rw [List.length_append, List.length_singleton]
    exact hlt
  · exact lt_of_le_of_lt (Nat.zero_le _) hlt

end Step

section Grid

variable {mc : Manycore} {host : Host} {pod pod' : Pod} {gridDim tgDim : Dimension}
  {name : String} {argv : List UInt32}

theorem modify_concat {α : Type} (l : List α) (a : α) (f : α → α) :
    (l ++ [a]).modify l.length f = l ++ [f a] := by
  induction l with
  | nil => rfl
  | cons b l ih => exact congrArg (b :: ·) ih

theorem foldlM_checked {kernel : ℕ} {cs : List Coord} (hfits : Fits pod)
    (h : cs.foldlM (fun pod tgId => tileGroupKernelEnqueueChecked mc host pod pod.numGrids tgId
      gridDim tgDim kernel) pod = .ok pod') :
    pod' = cs.foldl (fun pod tgId => tileGroupKernelEnqueue mc pod pod.numGrids tgId gridDim tgDim
      kernel) pod ∧ Fits pod' := by
  induction cs generalizing pod with
  | nil =>
    cases h
    exact ⟨rfl, hfits⟩
  | cons c rest ih =>
    rw [List.foldlM_cons, bind_eq_ok] at h
    obtain ⟨pod₁, hstep, h⟩ := h
    obtain ⟨rfl, hfits₁⟩ := tileGroupKernelEnqueueChecked_ok hfits hstep
    exact ih hfits₁ h

theorem kernelEnqueueChecked_ok (hfits : Fits pod)
    (h : kernelEnqueueChecked mc host pod gridDim tgDim name argv = .ok pod') :
    pod' = kernelEnqueue mc pod gridDim tgDim name argv ∧ Fits pod' := by
  unfold kernelEnqueueChecked at h
  rw [bind_eq_ok] at h
  obtain ⟨u, -, h⟩ := h
  rw [bind_eq_ok] at h
  obtain ⟨pod₁, hfold, h⟩ := h
  cases h
  have hfits₀ : Fits { pod with kernels := pod.kernels ++ [⟨name, argv, 0, false⟩] } :=
    ⟨hfits.room, hfits.pos⟩
  obtain ⟨rfl, hfits₁⟩ := foldlM_checked hfits₀ hfold
  exact ⟨rfl, hfits₁.room, hfits₁.pos⟩

/-- Each tile group counts as a reference to the kernel, the last one of the pod. -/
theorem foldl_enqueue {old : List Kernel} {refs : ℤ} {cs : List Coord}
    (hk : pod.kernels = old ++ [⟨name, argv, refs, false⟩]) :
    ∃ capacity, cs.foldl (fun pod tgId => tileGroupKernelEnqueue mc pod pod.numGrids tgId gridDim
      tgDim old.length) pod = { pod with
        tileGroupCapacity := capacity
        tileGroups := pod.tileGroups ++
          cs.map fun c => tileGroupInit mc pod pod.numGrids c gridDim tgDim old.length
        kernels := old ++ [⟨name, argv, refs + cs.length, false⟩] } := by
  induction cs generalizing pod refs with
  | nil => exact ⟨pod.tileGroupCapacity, by simp [← hk]⟩
  | cons c rest ih =>
    obtain ⟨capacity, he⟩ := @ih (tileGroupKernelEnqueue mc pod pod.numGrids c gridDim tgDim
      old.length) (refs + 1) (by
        simp only [tileGroupKernelEnqueue, hk, modify_concat, retain])
    have hrefs : refs + 1 + (rest.length : ℤ) = refs + ((c :: rest).length : ℤ) := by
      rw [List.length_cons, Nat.cast_add, Nat.cast_one, add_assoc, add_comm 1]
    refine ⟨capacity, ?_⟩
    rw [List.foldl_cons, he, hrefs]
    simp only [tileGroupKernelEnqueue, List.append_assoc, List.singleton_append, List.map_cons]
    rfl

def gridGroups (mc : Manycore) (pod : Pod) (gridDim tgDim : Dimension) : List TileGroup :=
  (foreachCoordinate ⟨0, 0⟩ gridDim).map fun c =>
    tileGroupInit mc pod pod.numGrids c gridDim tgDim pod.kernels.length

theorem kernelEnqueue_eq : ∃ capacity, kernelEnqueue mc pod gridDim tgDim name argv = { pod with
    tileGroupCapacity := capacity
    tileGroups := pod.tileGroups ++ gridGroups mc pod gridDim tgDim
    numGrids := pod.numGrids + 1
    kernels := pod.kernels ++
      [⟨name, argv, (foreachCoordinate ⟨0, 0⟩ gridDim).length, false⟩] } := by
  obtain ⟨capacity, he⟩ := @foldl_enqueue mc
    { pod with kernels := pod.kernels ++ [⟨name, argv, 0, false⟩] } gridDim tgDim name argv
    pod.kernels 0 (foreachCoordinate ⟨0, 0⟩ gridDim) rfl
  refine ⟨capacity, ?_⟩
  rw [kernelEnqueue, he, zero_add]
  rfl

structure Ample (host : Host) : Prop where
  kernel : host.kernel = .ok ()
  table : ∀ c, host.table c = .ok ()
  map : ∀ c, host.map c = .ok ()

theorem exists_tileGroupKernelEnqueueChecked (hhost : Ample host) (hfits : Fits pod)
    (hlen : pod.tileGroups.length < 2 ^ 30) (gridId : UInt8) (tgId : Coord) (kernel : ℕ) :
    ∃ pod', tileGroupKernelEnqueueChecked mc host pod gridId tgId gridDim tgDim kernel =
      .ok pod' := by
  obtain ⟨grown, hgrow⟩ : ∃ grown, growTable (host.table tgId) pod = .ok grown := by
    unfold growTable
    by_cases hfull : pod.tileGroupCapacity.toNat = pod.tileGroups.length
    · rw [if_pos hfull, if_neg (by omega), hhost.table]
      exact ⟨_, rfl⟩
    · rw [if_neg hfull]
      exact ⟨_, rfl⟩
  obtain ⟨hgrown, hlt⟩ := growTable_ok hfits hgrow
  have hstore : grown.tileGroups.length < grown.tileGroupCapacity.toNat := by
    have hsame : grown.tileGroups = pod.tileGroups := by rw [hgrown]
    rw [hsame]
    exact hlt
  simp only [tileGroupKernelEnqueueChecked, hgrow, bind, Except.bind, hhost.map, storeTileGroup,
    if_pos hstore]
  exact ⟨_, rfl⟩

theorem exists_foldlM_checked {kernel : ℕ} {cs : List Coord} (hhost : Ample host)
    (hfits : Fits pod) (hlen : pod.tileGroups.length + cs.length ≤ 2 ^ 30) :
    ∃ pod', cs.foldlM (fun pod tgId => tileGroupKernelEnqueueChecked mc host pod pod.numGrids tgId
      gridDim tgDim kernel) pod = .ok pod' := by
  induction cs generalizing pod with
  | nil => exact ⟨pod, rfl⟩
  | cons c rest ih =>
    rw [List.length_cons] at hlen
    obtain ⟨pod₁, hstep⟩ := @exists_tileGroupKernelEnqueueChecked mc host pod gridDim tgDim hhost
      hfits (by omega) pod.numGrids c kernel
    obtain ⟨rfl, hfits₁⟩ := tileGroupKernelEnqueueChecked_ok hfits hstep
    have hlen₁ : (tileGroupKernelEnqueue mc pod pod.numGrids c gridDim tgDim
        kernel).tileGroups.length = pod.tileGroups.length + 1 := by
      rw [tileGroupKernelEnqueue, List.length_append, List.length_singleton]
    obtain ⟨pod', hrest⟩ := ih hfits₁ (by omega)
    refine ⟨pod', ?_⟩
    rw [List.foldlM_cons, bind_eq_ok]
    exact ⟨_, hstep, hrest⟩

theorem length_gridGroups : (gridGroups mc pod gridDim tgDim).length =
    gridDim.x.toNat * gridDim.y.toNat := by
  rw [gridGroups, List.length_map, length_foreachCoordinate (noWrap_zero gridDim)]

theorem exists_kernelEnqueueChecked (hhost : Ample host) (hfits : Fits pod)
    (hlen : pod.tileGroups.length + gridDim.x.toNat * gridDim.y.toNat ≤ 2 ^ 30) :
    ∃ pod', kernelEnqueueChecked mc host pod gridDim tgDim name argv = .ok pod' := by
  have hfits₀ : Fits { pod with kernels := pod.kernels ++ [⟨name, argv, 0, false⟩] } :=
    ⟨hfits.room, hfits.pos⟩
  have hcs := @length_gridGroups mc pod gridDim tgDim
  rw [gridGroups, List.length_map] at hcs
  obtain ⟨pod', hfold⟩ := @exists_foldlM_checked mc host _ gridDim tgDim pod.kernels.length
    (foreachCoordinate ⟨0, 0⟩ gridDim) hhost hfits₀ (by rw [hcs]; exact hlen)
  exact ⟨{ pod' with numGrids := pod'.numGrids + 1 },
    bind_eq_ok.mpr ⟨(), hhost.kernel, bind_eq_ok.mpr ⟨pod', hfold, rfl⟩⟩⟩

end Grid

structure SameTable (pod pod' : Pod) : Prop where
  length : pod'.tileGroups.length = pod.tileGroups.length
  capacity : pod'.tileGroupCapacity = pod.tileGroupCapacity
  numGrids : pod'.numGrids = pod.numGrids

section Others

variable {pod pod' pod'' : Pod} {i : ℕ} {tg : TileGroup}

theorem SameTable.refl (pod : Pod) : SameTable pod pod := ⟨rfl, rfl, rfl⟩

theorem SameTable.trans (h : SameTable pod pod') (h' : SameTable pod' pod'') :
    SameTable pod pod'' :=
  ⟨h'.length.trans h.length, h'.capacity.trans h.capacity, h'.numGrids.trans h.numGrids⟩

theorem SameTable.fits (h : SameTable pod pod') (hfits : Fits pod) : Fits pod' :=
  ⟨by rw [h.length, h.capacity]; exact hfits.room, by rw [h.capacity]; exact hfits.pos⟩

theorem allocateAndLaunch_sameTable (answers : Answers) :
    SameTable pod (allocateAndLaunch answers pod i tg).2.2 := by
  simp only [allocateAndLaunch]
  split
  · exact ⟨List.length_set, rfl, rfl⟩
  · exact ⟨List.length_set, rfl, rfl⟩

theorem tryLaunch_sameTable (answers : ℕ → Answers) (pod : Pod) :
    SameTable pod (tryLaunchTileGroups answers pod).2 := by
  refine tryLaunchFrom_invariant ?_ _ _ (SameTable.refl pod)
  intro pod' i tg _ _ h
  exact h.trans (allocateAndLaunch_sameTable (answers i))

theorem tileGroupExit_sameTable : SameTable pod (tileGroupExit pod i tg).2 := by
  simp only [tileGroupExit]
  split
  · exact SameTable.refl pod
  · exact ⟨List.length_set, rfl, rfl⟩

theorem retire_sameTable : SameTable pod (retire pod i tg).2 := by
  have hmesh : SameTable pod { pod with mesh := deallocateTiles pod.mesh tg } := ⟨rfl, rfl, rfl⟩
  exact hmesh.trans tileGroupExit_sameTable

theorem finish_sameTable (mc : Manycore) (src : Coord) (epa : UInt32) :
    SameTable pod (TileOwnership.next mc pod (.finish src epa)) := by
  simp only [TileOwnership.next, finishTileGroup]
  cases pod.tileGroups.findIdx? (finishes src epa) with
  | none => exact SameTable.refl pod
  | some i =>
    simp only [Option.bind_some]
    cases pod.tileGroups[i]? with
    | none => exact SameTable.refl pod
    | some tg => exact retire_sameTable

end Others

/-- The grid ids of the enqueues so far, the last one first. -/
structure State where
  pod : Pod
  gridIds : List UInt8

inductive Event where
  | enqueue (host : Host) (gridDim tgDim : Dimension) (name : String) (argv : List UInt32)
  | tryLaunch (answers : ℕ → Answers)
  | finish (src : Coord) (epa : UInt32)

/-- Enqueues that fail are not part of a run. -/
def next (mc : Manycore) (s : State) : Event → Option State
  | .enqueue host gridDim tgDim name argv =>
    match kernelEnqueueChecked mc host s.pod gridDim tgDim name argv with
    | .error _ => none
    | .ok pod => some ⟨pod, s.pod.numGrids :: s.gridIds⟩
  | .tryLaunch answers => some { s with pod := (tryLaunchTileGroups answers s.pod).2 }
  | .finish src epa => some { s with pod := TileOwnership.next mc s.pod (.finish src epa) }

def system (mc : Manycore) : Transition.System State Event :=
  .ofNext (fun s => ∃ pod, s = ⟨tileGroupsInit pod, []⟩) (next mc)

/-- The tile groups fit in the table, and the number of the next grid counts the grids before. -/
structure Counted (s : State) : Prop where
  fits : Fits s.pod
  ids : ∀ (k : ℕ) id, s.gridIds[k]? = some id → s.pod.numGrids = id + UInt8.ofNat (k + 1)

theorem Counted.other {s : State} {pod : Pod} (h : Counted s) (hsame : SameTable s.pod pod) :
    Counted { s with pod := pod } :=
  ⟨hsame.fits h.fits, fun k id hk => hsame.numGrids.trans (h.ids k id hk)⟩

theorem next_counted {mc : Manycore} {s t : State} {e : Event} (h : Counted s)
    (he : next mc s e = some t) : Counted t := by
  cases e with
  | enqueue host gridDim tgDim name argv =>
    simp only [next] at he
    split at he
    · cases he
    · next pod hpod =>
      cases he
      obtain ⟨rfl, hfits⟩ := kernelEnqueueChecked_ok h.fits hpod
      obtain ⟨capacity, heq⟩ := @kernelEnqueue_eq mc s.pod gridDim tgDim name argv
      refine ⟨hfits, fun k id hk => ?_⟩
      have hnum : (kernelEnqueue mc s.pod gridDim tgDim name argv).numGrids =
          s.pod.numGrids + 1 := by
        rw [heq]
      rw [hnum]
      cases k with
      | zero =>
        cases hk
        rfl
      | succ k =>
        rw [h.ids k id hk, UInt8.ofNat_add (k + 1) 1, UInt8.add_assoc]
        rfl
  | tryLaunch answers =>
    cases he
    exact h.other (tryLaunch_sameTable answers s.pod)
  | finish src epa =>
    cases he
    exact h.other (finish_sameTable mc src epa)

structure Appended (pod pod' : Pod) (gridDim tgDim : Dimension) (name : String)
    (argv : List UInt32) (new : List TileGroup) : Prop where
  groups : pod'.tileGroups = pod.tileGroups ++ new
  count : new.length = gridDim.x.toNat * gridDim.y.toNat
  initialized : ∀ g ∈ new, g.status = .initialized
  distinct : (new.map TileGroup.id).Nodup
  ids : ∀ c, c ∈ new.map TileGroup.id ↔ c.x < gridDim.x ∧ c.y < gridDim.y
  shape : ∀ g ∈ new, g.dim = tgDim ∧ g.gridDim = gridDim ∧ g.gridId = pod.numGrids
  kernel : ∃ k, pod'.kernels[k]? = some ⟨name, argv, new.length, false⟩ ∧
    ∀ g ∈ new, g.kernel = some k
  room : pod'.tileGroups.length ≤ pod'.tileGroupCapacity.toNat

theorem kernelEnqueueChecked_appended {mc : Manycore} {host : Host} {pod pod' : Pod}
    {gridDim tgDim : Dimension} {name : String} {argv : List UInt32} (hfits : Fits pod)
    (h : kernelEnqueueChecked mc host pod gridDim tgDim name argv = .ok pod') :
    Appended pod pod' gridDim tgDim name argv (gridGroups mc pod gridDim tgDim) := by
  obtain ⟨rfl, hfits'⟩ := kernelEnqueueChecked_ok hfits h
  obtain ⟨capacity, heq⟩ := @kernelEnqueue_eq mc pod gridDim tgDim name argv
  have hwrap := noWrap_zero gridDim
  have hids : (gridGroups mc pod gridDim tgDim).map TileGroup.id =
      foreachCoordinate ⟨0, 0⟩ gridDim := by
    rw [gridGroups, List.map_map]
    exact List.map_id _
  refine ⟨by rw [heq], length_gridGroups, ?_, ?_, fun c => ?_, ?_, ?_, hfits'.room⟩
  · intro g hg
    obtain ⟨c, -, rfl⟩ := List.mem_map.mp hg
    rfl
  · rw [hids]
    exact foreachCoordinate_nodup hwrap
  · rw [hids, mem_foreachCoordinate hwrap, UInt32.lt_iff_toNat_lt, UInt32.lt_iff_toNat_lt]
    simp [InRect]
  · intro g hg
    obtain ⟨c, -, rfl⟩ := List.mem_map.mp hg
    exact ⟨rfl, rfl, rfl⟩
  · refine ⟨pod.kernels.length, ?_, fun g hg => ?_⟩
    · rw [heq, gridGroups, List.length_map]
      exact List.getElem?_concat_length
    · obtain ⟨c, -, rfl⟩ := List.mem_map.mp hg
      rfl

theorem reachable_counted {mc : Manycore} {s : State}
    (h : Transition.Reachable (system mc) s) : Counted s := by
  refine h.invariant ?_ ?_
  · rintro s ⟨pod, rfl⟩
    exact ⟨⟨Nat.zero_le _, Nat.one_pos⟩, fun k id hk => by cases hk⟩
  · intro s e t hs he
    exact next_counted hs he

/-- Whatever was enqueued before, the tile groups fit in the table, and an enqueue with success adds
exactly the tile groups of its grid, with a grid id that none of the 255 enqueues before it has. -/
theorem enqueue_appends (mc : Manycore) {s : State} (h : Transition.Reachable (system mc) s) :
    s.pod.tileGroups.length ≤ s.pod.tileGroupCapacity.toNat ∧
    ∀ host gridDim tgDim name argv,
      (∀ pod', kernelEnqueueChecked mc host s.pod gridDim tgDim name argv = .ok pod' →
        ∃ new, Appended s.pod pod' gridDim tgDim name argv new ∧
          ∀ k < 255, s.gridIds[k]? ≠ some s.pod.numGrids) ∧
      (Ample host → s.pod.tileGroups.length + gridDim.x.toNat * gridDim.y.toNat ≤ 2 ^ 30 →
        ∃ pod', kernelEnqueueChecked mc host s.pod gridDim tgDim name argv = .ok pod') := by
  have hcounted := reachable_counted h
  refine ⟨hcounted.fits.room, fun host gridDim tgDim name argv => ⟨fun pod' hpod =>
    ⟨_, kernelEnqueueChecked_appended hcounted.fits hpod, fun k hk hid => ?_⟩,
    fun hhost hlen => exists_kernelEnqueueChecked hhost hcounted.fits hlen⟩⟩
  -- the number of the grid is a byte
  have hcount := congrArg UInt8.toNat (hcounted.ids k _ hid)
  rw [UInt8.toNat_add, UInt8.toNat_ofNat'] at hcount
  have hlt := s.pod.numGrids.toNat_lt
  omega

def ampleHost : Host := ⟨.ok (), fun _ => .ok (), fun _ => .ok ()⟩

theorem enqueue_appends_x16y8 :
    let mc : Manycore := ⟨({} : Machine).config, true⟩
    ∃ s, Transition.Reachable (system mc) s ∧
      s.pod.tileGroups.length = 3 ∧ s.pod.tileGroupCapacity = 4 ∧
      ∃ pod' new, kernelEnqueueChecked mc ampleHost s.pod ⟨2, 2⟩ ⟨1, 1⟩ "main" [1] = .ok pod' ∧
        pod'.tileGroupCapacity = 8 ∧ Appended s.pod pod' ⟨2, 2⟩ ⟨1, 1⟩ "main" [1] new := by
  intro mc
  let s : State := ⟨kernelEnqueue mc (tileGroupsInit smallPod) ⟨3, 1⟩ ⟨1, 2⟩ "main" [], [0]⟩
  have hreach : Transition.Reachable (system mc) s :=
    .step (e := .enqueue ampleHost ⟨3, 1⟩ ⟨1, 2⟩ "main" []) (.initial ⟨smallPod, rfl⟩) rfl
  obtain ⟨-, hgrid⟩ := enqueue_appends mc hreach
  obtain ⟨happend, htotal⟩ := hgrid ampleHost ⟨2, 2⟩ ⟨1, 1⟩ "main" [1]
  obtain ⟨pod', hpod⟩ := htotal ⟨rfl, fun _ => rfl, fun _ => rfl⟩ (by decide)
  obtain ⟨new, hnew, -⟩ := happend pod' hpod
  have hcapacity : (kernelEnqueueChecked mc ampleHost s.pod ⟨2, 2⟩ ⟨1, 1⟩ "main" [1]).map
      Pod.tileGroupCapacity = .ok 8 := rfl
  rw [hpod] at hcapacity
  exact ⟨s, hreach, by decide, by decide, pod', new, hpod, Except.ok.inj hcapacity, hnew⟩

/-- After one enqueue the numbers of the grids begin anew every 256 enqueues. -/
theorem exists_enqueues (mc : Manycore) {n : ℕ} (hn : n < 2 ^ 30) :
    ∃ s, Transition.Reachable (system mc) s ∧ s.pod.tileGroups.length = n + 1 ∧
      s.pod.numGrids = UInt8.ofNat (n + 1) ∧
      ∃ g, s.pod.tileGroups[0]? = some g ∧ g.gridId = 0 := by
  induction n with
  | zero =>
    let s : State := ⟨kernelEnqueue mc (tileGroupsInit smallPod) ⟨1, 1⟩ ⟨1, 1⟩ "main" [], [0]⟩
    have hreach : Transition.Reachable (system mc) s :=
      .step (e := .enqueue ampleHost ⟨1, 1⟩ ⟨1, 1⟩ "main" []) (.initial ⟨smallPod, rfl⟩) rfl
    exact ⟨s, hreach, rfl, rfl, _, rfl, rfl⟩
  | succ n ih =>
    obtain ⟨s, hreach, hlen, hnum, g, hg, hid⟩ := ih (by omega)
    have hfits := (reachable_counted hreach).fits
    obtain ⟨pod', hpod⟩ := @exists_kernelEnqueueChecked mc ampleHost s.pod ⟨1, 1⟩ ⟨1, 1⟩ "main" []
      ⟨rfl, fun _ => rfl, fun _ => rfl⟩ hfits (by rw [hlen]; exact hn)
    have hnew := kernelEnqueueChecked_appended hfits hpod
    obtain ⟨capacity, heq⟩ := @kernelEnqueue_eq mc s.pod ⟨1, 1⟩ ⟨1, 1⟩ "main" []
    refine ⟨⟨pod', s.pod.numGrids :: s.gridIds⟩, .step hreach (e := .enqueue ampleHost ⟨1, 1⟩ ⟨1, 1⟩
      "main" []) ?_, ?_, ?_, g, ?_, hid⟩
    · show next mc s _ = _
      simp only [next, hpod]
    · rw [hnew.groups, List.length_append, hnew.count, hlen]
      rfl
    · rw [(kernelEnqueueChecked_ok hfits hpod).1, heq]
      simp only [hnum, UInt8.ofNat_add]
      rfl
    · rw [hnew.groups, List.getElem?_append_left (by omega), hg]

/-- The tile group of the 257th enqueue has the grid id of the first. -/
theorem enqueue_appends_fails :
    let mc : Manycore := ⟨({} : Machine).config, true⟩
    ∃ s pod' g g', Transition.Reachable (system mc) s ∧
      kernelEnqueueChecked mc ampleHost s.pod ⟨1, 1⟩ ⟨1, 1⟩ "main" [] = .ok pod' ∧
      s.pod.tileGroups[0]? = some g ∧ s.pod.tileGroups.length = 256 ∧
      pod'.tileGroups[256]? = some g' ∧ g'.gridId = g.gridId := by
  intro mc
  obtain ⟨s, hreach, hlen, hnum, g, hg, hid⟩ := @exists_enqueues mc 255 (by decide)
  have hfits := (reachable_counted hreach).fits
  obtain ⟨pod', hpod⟩ := @exists_kernelEnqueueChecked mc ampleHost s.pod ⟨1, 1⟩ ⟨1, 1⟩ "main" []
    ⟨rfl, fun _ => rfl, fun _ => rfl⟩ hfits (by rw [hlen]; decide)
  have hnew := kernelEnqueueChecked_appended hfits hpod
  refine ⟨s, pod', g, tileGroupInit mc s.pod s.pod.numGrids ⟨0, 0⟩ ⟨1, 1⟩ ⟨1, 1⟩
    s.pod.kernels.length, hreach, hpod, hg, hlen, ?_, ?_⟩
  · rw [hnew.groups, List.getElem?_append_right (by omega), hlen]
    rfl
  · rw [hid]
    exact hnum

end EnqueueTable
