import ManycoreRuntime.EnqueueTable

/-! # References to kernels

The tile groups of a grid share one kernel. It counts the tile groups that are not finished, and
its name and its arguments are given back with the last of them. -/
namespace KernelRefs

open Coordinate
open Configuration (Manycore)
open Machines (Machine)
open PodMesh TileGroups TileOwnership EnqueueTable

def uses (k : ℕ) (g : TileGroup) : Bool := g.status ≠ .finished && g.kernel = some k

/-- The number of tile groups that are not finished and point to the kernel. -/
def users (pod : Pod) (k : ℕ) : ℕ := pod.tileGroups.countP (uses k)

def kernelExitOf (pod : Pod) (tg : TileGroup) : Option ℕ :=
  pod.program.bind fun _ => tg.kernel.bind fun k => pod.kernels[k]?.bind fun kernel =>
    if kernel.refcount - 1 = 0 then some k else none

/-- What was enqueued for each kernel, and how often `kernel_exit` was called for it. -/
structure State where
  pod : Pod
  enqueued : List (String × List UInt32)
  exits : ℕ → ℕ

inductive Event where
  | enqueue (host : Host) (gridDim tgDim : Dimension) (name : String) (argv : List UInt32)
  | launch (i : ℕ) (answers : Answers)
  | finish (src : Coord) (epa : UInt32)

def countExit (exits : ℕ → ℕ) : Option ℕ → ℕ → ℕ
  | none => exits
  | some k => Function.update exits k (exits k + 1)

/-- Grids have tile groups, and enqueues that fail are not part of a run. -/
def next (mc : Manycore) (s : State) : Event → Option State
  | .enqueue host gridDim tgDim name argv =>
    if gridDim.x = 0 ∨ gridDim.y = 0 then none
    else match kernelEnqueueChecked mc host s.pod gridDim tgDim name argv with
      | .error _ => none
      | .ok pod => some { s with pod := pod, enqueued := s.enqueued ++ [(name, argv)] }
  | .launch i answers =>
    match s.pod.tileGroups[i]? with
    | none => none
    | some tg =>
      if tg.status = .initialized then
        some { s with pod := (allocateAndLaunch answers s.pod i tg).2.2 }
      else none
  | .finish src epa =>
    match s.pod.tileGroups.findIdx? (finishes src epa) with
    | none => some s
    | some i =>
      match s.pod.tileGroups[i]? with
      | none => none
      | some tg => some { s with
          pod := (retire s.pod i tg).2
          exits := countExit s.exits (kernelExitOf s.pod tg) }

def Start (s : State) : Prop :=
  ∃ pod, s = ⟨{ tileGroupsInit pod with kernels := [] }, [], fun _ => 0⟩

def system (mc : Manycore) : Transition.System State Event := .ofNext Start (next mc)

section Change

variable {pod : Pod} {i k : ℕ} {tg g : TileGroup}

theorem countP_uses_set {groups : List TileGroup} (hi : groups[i]? = some tg) (g : TileGroup) :
    (groups.set i g).countP (uses k) + (if uses k tg = true then 1 else 0) =
      groups.countP (uses k) + if uses k g = true then 1 else 0 := by
  obtain ⟨hlt, hget⟩ := List.getElem?_eq_some_iff.mp hi
  rw [List.countP_set hlt, hget]
  by_cases htg : uses k tg = true
  · have hpos : 0 < groups.countP (uses k) :=
      List.countP_pos_iff.mpr ⟨tg, List.mem_of_getElem? hi, htg⟩
    rw [if_pos htg]
    omega
  · rw [if_neg htg]
    omega

theorem allocateAndLaunch_kernel (answers : Answers) (pod : Pod) (i : ℕ)
    (hst : tg.status ≠ .finished) :
    ∃ g, (allocateAndLaunch answers pod i tg).2.2.tileGroups = pod.tileGroups.set i g ∧
      g.kernel = tg.kernel ∧ g.status ≠ .finished ∧
      (allocateAndLaunch answers pod i tg).2.2.kernels = pod.kernels := by
  obtain ⟨mesh, origin, ⟨e, halloc⟩ | halloc⟩ :=
    allocateTiles_shape answers.setConfigSymbols pod.mesh tg
  · refine ⟨{ tg with origin := origin }, ?_, rfl, hst, ?_⟩
    · simp only [allocateAndLaunch, halloc]
    · simp only [allocateAndLaunch, halloc]
  · obtain ⟨program, -, ⟨e, a, hl⟩ | ⟨a, hl⟩⟩ := launch_cases answers { pod with mesh := mesh }
      { tg with origin := origin, status := .allocated }
    · refine ⟨{ tg with origin := origin, status := .allocated, argvEva := a }, ?_, rfl,
        by simp, ?_⟩
      · simp only [allocateAndLaunch, halloc, hl]
      · simp only [allocateAndLaunch, halloc, hl]
    · refine ⟨{ tg with origin := origin, status := .launched, argvEva := a }, ?_, rfl, by simp, ?_⟩
      · simp only [allocateAndLaunch, halloc, hl]
      · simp only [allocateAndLaunch, halloc, hl]

theorem retire_without_program (hp : pod.program = none) :
    (retire pod i tg).2.tileGroups = pod.tileGroups ∧ (retire pod i tg).2.kernels = pod.kernels ∧
      kernelExitOf pod tg = none := by
  simp only [retire, tileGroupExit, kernelExitOf, hp, Option.bind_none, and_self]

theorem retire_with_program {program : PodMalloc.Program} (hp : pod.program = some program)
    (hk : tg.kernel = some k) :
    ∃ g, g.status = .finished ∧ (retire pod i tg).2.tileGroups = pod.tileGroups.set i g ∧
      (retire pod i tg).2.kernels = pod.kernels.modify k release := by
  simp only [retire, tileGroupExit, hp, hk, and_true]
  exact ⟨_, rfl, rfl⟩

theorem countP_uses_gridGroups (mc : Manycore) (pod : Pod) (gridDim tgDim : Dimension) (k : ℕ) :
    (gridGroups mc pod gridDim tgDim).countP (uses k) =
      if k = pod.kernels.length then (gridGroups mc pod gridDim tgDim).length else 0 := by
  split
  · next hk =>
    refine List.countP_eq_length.mpr fun g hg => ?_
    obtain ⟨c, -, rfl⟩ := List.mem_map.mp hg
    simp [uses, tileGroupInit, hk]
  · next hk =>
    refine List.countP_eq_zero.mpr fun g hg hu => ?_
    obtain ⟨c, -, rfl⟩ := List.mem_map.mp hg
    simp only [uses, tileGroupInit, Bool.and_eq_true, decide_eq_true_eq, Option.some.injEq] at hu
    exact hk hu.2.symm

theorem users_kernelEnqueue (mc : Manycore) (pod : Pod) (gridDim tgDim : Dimension)
    (name : String) (argv : List UInt32) (k : ℕ) :
    users (kernelEnqueue mc pod gridDim tgDim name argv) k = users pod k +
      if k = pod.kernels.length then (gridGroups mc pod gridDim tgDim).length else 0 := by
  obtain ⟨capacity, heq⟩ := @kernelEnqueue_eq mc pod gridDim tgDim name argv
  rw [users, heq, List.countP_append, countP_uses_gridGroups]
  rfl

theorem users_retire {program : PodMalloc.Program} (hi : pod.tileGroups[i]? = some tg)
    (hst : tg.status ≠ .finished) (hp : pod.program = some program) (hk : tg.kernel = some k)
    (j : ℕ) : users pod j = users (retire pod i tg).2 j + if j = k then 1 else 0 := by
  obtain ⟨g, hg, hgroups, -⟩ := @retire_with_program pod i k tg program hp hk
  have hset := countP_uses_set (k := j) hi g
  have hgone : ¬ uses j g = true := by simp [uses, hg]
  have huses : uses j tg = true ↔ j = k := by simp [uses, hst, hk, eq_comm]
  simp only [hgone, huses, ← hgroups] at hset
  exact hset.symm

end Change

/-- A kernel with users is as it was enqueued and counts them; a kernel without was given back. -/
def KernelOk (users : ℕ) (kernel : Kernel) (enqueued : Option (String × List UInt32))
    (exits : ℕ) : Prop :=
  (0 < users ∧ enqueued = some (kernel.name, kernel.argv) ∧ kernel.refcount = users ∧
    kernel.released = false ∧ exits = 0) ∨
  (users = 0 ∧ kernel = ⟨"", [], 0, true⟩ ∧ exits = 1)

theorem KernelOk.exits_eq {users exits : ℕ} {kernel : Kernel}
    {enqueued : Option (String × List UInt32)} (h : KernelOk users kernel enqueued exits) :
    exits = if users = 0 then 1 else 0 := by
  rcases h with ⟨hpos, -, -, -, hexits⟩ | ⟨hzero, -, hexits⟩
  · rw [hexits, if_neg (Nat.ne_of_gt hpos)]
  · rw [hexits, if_pos hzero]

structure Inv (s : State) : Prop where
  fits : Fits s.pod
  length : s.enqueued.length = s.pod.kernels.length
  valid : ∀ g ∈ s.pod.tileGroups, g.status ≠ .finished →
    ∃ k, g.kernel = some k ∧ k < s.pod.kernels.length
  kernels : ∀ (k : ℕ) kernel, s.pod.kernels[k]? = some kernel →
    KernelOk (users s.pod k) kernel s.enqueued[k]? (s.exits k)
  fresh : ∀ k, s.pod.kernels.length ≤ k → s.exits k = 0

section Steps

variable {mc : Manycore} {s t : State}

theorem start_inv (h : Start s) : Inv s := by
  obtain ⟨pod, rfl⟩ := h
  refine ⟨⟨Nat.zero_le _, Nat.one_pos⟩, rfl, fun g hg => ?_, fun k kernel hk => ?_, fun k _ => rfl⟩
  · cases hg
  · cases hk

theorem users_of_length_le (h : Inv s) {k : ℕ} (hk : s.pod.kernels.length ≤ k) :
    users s.pod k = 0 := by
  refine List.countP_eq_zero.mpr fun g hg hu => ?_
  simp only [uses, Bool.and_eq_true, decide_eq_true_eq] at hu
  obtain ⟨k', hk', hlt⟩ := h.valid g hg hu.1
  rw [hu.2] at hk'
  cases hk'
  omega

theorem enqueue_inv (h : Inv s) {host : Host} {gridDim tgDim : Dimension} {name : String}
    {argv : List UInt32} (hx : gridDim.x ≠ 0) (hy : gridDim.y ≠ 0) {pod : Pod}
    (he : kernelEnqueueChecked mc host s.pod gridDim tgDim name argv = .ok pod) :
    Inv { s with pod := pod, enqueued := s.enqueued ++ [(name, argv)] } := by
  obtain ⟨rfl, hfits⟩ := kernelEnqueueChecked_ok h.fits he
  obtain ⟨capacity, heq⟩ := @kernelEnqueue_eq mc s.pod gridDim tgDim name argv
  have hcount := @length_gridGroups mc s.pod gridDim tgDim
  have hpos : 0 < (gridGroups mc s.pod gridDim tgDim).length := by
    rw [hcount]
    refine Nat.mul_pos (Nat.pos_of_ne_zero fun hz => hx ?_) (Nat.pos_of_ne_zero fun hz => hy ?_)
    · exact UInt32.toNat_inj.mp hz
    · exact UInt32.toNat_inj.mp hz
  refine ⟨hfits, ?_, fun g hg hst => ?_, fun k kernel hk => ?_, fun k hk => h.fresh k ?_⟩
  · rw [heq, List.length_append, List.length_append, h.length]
    rfl
  · rw [heq] at hg ⊢
    rw [List.length_append]
    rcases List.mem_append.mp hg with hg | hg
    · obtain ⟨k, hk, hlt⟩ := h.valid g hg hst
      exact ⟨k, hk, Nat.lt_add_right _ hlt⟩
    · obtain ⟨c, -, rfl⟩ := List.mem_map.mp hg
      exact ⟨s.pod.kernels.length, rfl, Nat.lt_succ_self _⟩
  · simp only [users_kernelEnqueue]
    rw [heq] at hk
    by_cases hlast : k = s.pod.kernels.length
    · subst hlast
      rw [List.getElem?_concat_length] at hk
      cases hk
      rw [if_pos rfl, users_of_length_le h le_rfl, Nat.zero_add]
      refine Or.inl ⟨hpos, ?_, ?_, rfl, h.fresh _ le_rfl⟩
      · rw [← h.length]
        exact List.getElem?_concat_length
      · rw [gridGroups, List.length_map]
    · have hlt : k < s.pod.kernels.length := by
        have hlt := (List.getElem?_eq_some_iff.mp hk).1
        rw [List.length_append, List.length_singleton] at hlt
        omega
      rw [List.getElem?_append_left hlt] at hk
      rw [if_neg hlast, Nat.add_zero, List.getElem?_append_left (by rw [h.length]; exact hlt)]
      exact h.kernels k kernel hk
  · rw [heq, List.length_append] at hk
    omega

theorem launch_inv (h : Inv s) {i : ℕ} {tg : TileGroup} (hi : s.pod.tileGroups[i]? = some tg)
    (hst : tg.status = .initialized) (answers : Answers) :
    Inv { s with pod := (allocateAndLaunch answers s.pod i tg).2.2 } := by
  have hunfinished : tg.status ≠ .finished := by rw [hst]; decide
  obtain ⟨g, hgroups, hkernel, hg, hkernels⟩ :=
    allocateAndLaunch_kernel answers s.pod i hunfinished
  have husers : ∀ k, users (allocateAndLaunch answers s.pod i tg).2.2 k = users s.pod k := by
    intro k
    have hset := countP_uses_set (k := k) hi g
    have hsame : uses k g = uses k tg := by simp [uses, hkernel, hg, hunfinished]
    rw [hsame] at hset
    rw [users, hgroups]
    exact Nat.add_right_cancel hset
  refine ⟨(allocateAndLaunch_sameTable answers).fits h.fits, ?_, fun g' hg' hst' => ?_,
    fun k kernel hk => ?_, fun k hk => h.fresh k ?_⟩
  · rw [hkernels]
    exact h.length
  · rw [hgroups] at hg'
    rw [hkernels]
    rcases List.mem_or_eq_of_mem_set hg' with hg' | rfl
    · exact h.valid g' hg' hst'
    · rw [hkernel]
      exact h.valid tg (List.mem_of_getElem? hi) hunfinished
  · rw [hkernels] at hk
    rw [husers]
    exact h.kernels k kernel hk
  · rw [hkernels] at hk
    exact hk

theorem release_ok {users exits : ℕ} {kernel : Kernel} {enqueued : Option (String × List UInt32)}
    (h : KernelOk (users + 1) kernel enqueued exits) :
    KernelOk users (release kernel) enqueued
      (if kernel.refcount - 1 = 0 then exits + 1 else exits) := by
  obtain ⟨-, henq, hrefs, hrel, hexits⟩ := h.resolve_right fun hu => by omega
  have hone : kernel.refcount - 1 = (users : ℤ) := by omega
  rw [release]
  by_cases hlast : kernel.refcount - 1 = 0
  · rw [if_pos hlast, if_pos hlast]
    exact Or.inr ⟨by omega, rfl, by omega⟩
  · rw [if_neg hlast, if_neg hlast]
    exact Or.inl ⟨by omega, henq, hone, hrel, hexits⟩

theorem kernelExitOf_eq {pod : Pod} {tg : TileGroup} {program : PodMalloc.Program} {k : ℕ}
    {kernel : Kernel} (hp : pod.program = some program) (hk : tg.kernel = some k)
    (hkernel : pod.kernels[k]? = some kernel) :
    kernelExitOf pod tg = if kernel.refcount - 1 = 0 then some k else none := by
  simp only [kernelExitOf, hp, hk, hkernel, Option.bind_some]

theorem countExit_eq (exits : ℕ → ℕ) (k j : ℕ) (last : Prop) [Decidable last] :
    countExit exits (if last then some k else none) j =
      if j = k ∧ last then exits j + 1 else exits j := by
  by_cases hl : last
  · rw [if_pos hl, countExit, Function.update_apply]
    by_cases hj : j = k
    · rw [if_pos hj, if_pos ⟨hj, hl⟩, hj]
    · rw [if_neg hj, if_neg fun h => hj h.1]
  · rw [if_neg hl, if_neg fun h => hl h.2, countExit]

theorem retire_inv_without_program (h : Inv s) {i : ℕ} {tg : TileGroup}
    (hp : s.pod.program = none) :
    Inv { s with
      pod := (retire s.pod i tg).2
      exits := countExit s.exits (kernelExitOf s.pod tg) } ∧
    ∀ k, users (retire s.pod i tg).2 k = users s.pod k := by
  obtain ⟨hgroups, hkernels, hexit⟩ := @retire_without_program s.pod i tg hp
  have husers : ∀ k, users (retire s.pod i tg).2 k = users s.pod k := by
    intro k
    rw [users, hgroups]
    rfl
  refine ⟨⟨retire_sameTable.fits h.fits, ?_, ?_, ?_, ?_⟩, husers⟩
  · rw [hkernels]
    exact h.length
  · rw [hgroups, hkernels]
    exact h.valid
  · rw [hkernels, hexit]
    simp only [husers]
    exact h.kernels
  · rw [hkernels, hexit]
    exact h.fresh

theorem retire_inv_with_program (h : Inv s) {i k₀ : ℕ} {tg : TileGroup}
    {program : PodMalloc.Program} (hi : s.pod.tileGroups[i]? = some tg)
    (hst : tg.status ≠ .finished) (hp : s.pod.program = some program) (hk₀ : tg.kernel = some k₀)
    (hlt : k₀ < s.pod.kernels.length) :
    Inv { s with
      pod := (retire s.pod i tg).2
      exits := countExit s.exits (kernelExitOf s.pod tg) } := by
  obtain ⟨g, hg, hgroups, hkernels⟩ := @retire_with_program s.pod i k₀ tg program hp hk₀
  obtain ⟨kernel₀, hkernel₀⟩ : ∃ kernel, s.pod.kernels[k₀]? = some kernel :=
    ⟨_, List.getElem?_eq_getElem hlt⟩
  have hlen : (retire s.pod i tg).2.kernels.length = s.pod.kernels.length := by
    rw [hkernels, List.length_modify]
  refine ⟨retire_sameTable.fits h.fits, ?_, ?_, ?_, ?_⟩
  · rw [hlen]
    exact h.length
  · intro g' hg' hst'
    rw [hgroups] at hg'
    rw [hlen]
    rcases List.mem_or_eq_of_mem_set hg' with hg' | rfl
    · exact h.valid g' hg' hst'
    · exact absurd hg hst'
  · intro k kernel hk
    simp only [kernelExitOf_eq hp hk₀ hkernel₀, countExit_eq]
    rw [hkernels, List.getElem?_modify] at hk
    have huk := users_retire hi hst hp hk₀ k
    obtain ⟨kernel', hk', rfl⟩ := Option.map_eq_some_iff.mp hk
    have hok := h.kernels k kernel' hk'
    by_cases hkk : k = k₀
    · subst hkk
      rw [hkernel₀] at hk'
      cases hk'
      rw [huk, if_pos rfl] at hok
      simp only [true_and, if_true]
      exact release_ok hok
    · rw [if_neg hkk, Nat.add_zero] at huk
      rw [if_neg (Ne.symm hkk), if_neg fun hand => hkk hand.1, ← huk]
      exact hok
  · intro k hk
    rw [hlen] at hk
    simp only [kernelExitOf_eq hp hk₀ hkernel₀, countExit_eq]
    rw [if_neg fun hand => by omega]
    exact h.fresh k hk

/-- The exit of a tile group takes at most one user from a kernel. -/
theorem retire_inv (h : Inv s) {i : ℕ} {tg : TileGroup} (hi : s.pod.tileGroups[i]? = some tg)
    (hst : tg.status ≠ .finished) :
    Inv { s with
      pod := (retire s.pod i tg).2
      exits := countExit s.exits (kernelExitOf s.pod tg) } ∧
    ∀ k, users s.pod k = users (retire s.pod i tg).2 k ∨
      users s.pod k = users (retire s.pod i tg).2 k + 1 := by
  cases hp : s.pod.program with
  | none =>
    obtain ⟨hinv, husers⟩ := @retire_inv_without_program s h i tg hp
    exact ⟨hinv, fun k => Or.inl (husers k).symm⟩
  | some program =>
    obtain ⟨k₀, hk₀, hlt⟩ := h.valid tg (List.mem_of_getElem? hi) hst
    refine ⟨retire_inv_with_program h hi hst hp hk₀ hlt, fun k => ?_⟩
    have huk := users_retire hi hst hp hk₀ k
    split at huk
    · exact Or.inr huk
    · exact Or.inl huk

theorem next_finish {src : Coord} {epa : UInt32} (h : next mc s (.finish src epa) = some t) :
    t = s ∨ ∃ i tg, s.pod.tileGroups[i]? = some tg ∧ tg.status ≠ .finished ∧ t = { s with
      pod := (retire s.pod i tg).2, exits := countExit s.exits (kernelExitOf s.pod tg) } := by
  simp only [next] at h
  split at h
  · cases h
    exact Or.inl rfl
  · next i hfind =>
    split at h
    · cases h
    · next tg hi =>
      cases h
      obtain ⟨hlt, hfin, -⟩ := List.findIdx?_eq_some_iff_getElem.mp hfind
      rw [List.getElem?_eq_getElem hlt, Option.some.injEq] at hi
      rw [hi, finishes_iff] at hfin
      refine Or.inr ⟨i, tg, by rw [List.getElem?_eq_getElem hlt, hi], ?_, rfl⟩
      rw [hfin.1]
      decide

theorem next_inv {e : Event} (h : Inv s) (he : next mc s e = some t) : Inv t := by
  cases e with
  | enqueue host gridDim tgDim name argv =>
    simp only [next] at he
    split at he
    · cases he
    · next hgrid =>
      obtain ⟨hx, hy⟩ := not_or.mp hgrid
      split at he
      · cases he
      · next pod hpod =>
        cases he
        exact enqueue_inv h hx hy hpod
  | launch i answers =>
    simp only [next] at he
    split at he
    · cases he
    · next tg hi =>
      split at he
      · next hst =>
        cases he
        exact launch_inv h hi hst answers
      · cases he
  | finish src epa =>
    rcases next_finish he with rfl | ⟨i, tg, hi, hst, rfl⟩
    · exact h
    · exact (retire_inv h hi hst).1

theorem reachable_inv (h : Transition.Reachable (system mc) s) : Inv s := by
  refine @Transition.Reachable.invariant _ _ (system mc) Inv ?_ ?_ s h
  · intro s hs
    exact start_inv hs
  · intro s e t hs he
    exact next_inv hs he

/-- A kernel is given back at the exit of its last tile group. -/
theorem finish_exits (h : Inv s) {src : Coord} {epa : UInt32}
    (he : next mc s (.finish src epa) = some t) (k : ℕ) :
    t.exits k = s.exits k + if users s.pod k = 1 ∧ users t.pod k = 0 then 1 else 0 := by
  rcases next_finish he with rfl | ⟨i, tg, hi, hst, rfl⟩
  · rw [if_neg fun hu => by omega, Nat.add_zero]
  · obtain ⟨hinv, husers⟩ := retire_inv h hi hst
    have hlen := hinv.length.symm.trans h.length
    have hk := husers k
    rcases Nat.lt_or_ge k s.pod.kernels.length with hlt | hge
    · have hok := h.kernels k _ (List.getElem?_eq_getElem hlt)
      have hok' := hinv.kernels k _ (List.getElem?_eq_getElem (hlen.symm ▸ hlt))
      have hexits : countExit s.exits (kernelExitOf s.pod tg) k =
          if users (retire s.pod i tg).2 k = 0 then 1 else 0 := hok'.exits_eq
      simp only
      rw [hok.exits_eq, hexits]
      split <;> split <;> split <;> omega
    · have hnone := users_of_length_le h hge
      rw [if_neg fun hu => by omega, h.fresh k hge, hinv.fresh k (hlen.symm ▸ hge)]

theorem tryLaunch_reachable (h : Transition.Reachable (system mc) s) (answers : ℕ → Answers) :
    Transition.Reachable (system mc) { s with pod := (tryLaunchTileGroups answers s.pod).2 } := by
  refine tryLaunchFrom_invariant
    (P := fun pod => Transition.Reachable (system mc) { s with pod := pod }) ?_ _ _ h
  intro pod i tg hi hst hreach
  refine hreach.next (.launch i (answers i)) ?_
  show next mc _ _ = _
  simp only [next, hi, hst, if_true]

end Steps

/-- Each kernel counts the tile groups that are not finished and point to it; it is given back
once, with the last of them; and a tile group that is not finished, whether or not it was launched,
has a kernel with the name and the arguments that were enqueued. -/
theorem kernel_refs (mc : Manycore) {s : State} (h : Transition.Reachable (system mc) s) :
    (∀ (k : ℕ) kernel, s.pod.kernels[k]? = some kernel →
      kernel.refcount = users s.pod k ∧ (kernel.released = true ↔ users s.pod k = 0) ∧
      s.exits k = if users s.pod k = 0 then 1 else 0) ∧
    (∀ src epa t, next mc s (.finish src epa) = some t → ∀ k,
      t.exits k = s.exits k + if users s.pod k = 1 ∧ users t.pod k = 0 then 1 else 0) ∧
    (∀ g ∈ s.pod.tileGroups, g.status ≠ .finished → ∃ k kernel, g.kernel = some k ∧
      s.pod.kernels[k]? = some kernel ∧ kernel.released = false ∧
      s.enqueued[k]? = some (kernel.name, kernel.argv)) ∧
    ∀ answers, Transition.Reachable (system mc)
      { s with pod := (tryLaunchTileGroups answers s.pod).2 } := by
  have hinv := reachable_inv h
  refine ⟨fun k kernel hk => ?_, fun src epa t he k => finish_exits hinv he k, fun g hg hst => ?_,
    tryLaunch_reachable h⟩
  · have hok := hinv.kernels k kernel hk
    rcases id hok with ⟨hpos, -, hrefs, hrel, -⟩ | ⟨hzero, rfl, -⟩
    · exact ⟨hrefs, iff_of_false (by rw [hrel]; decide) (by omega), hok.exits_eq⟩
    · exact ⟨by rw [hzero]; rfl, iff_of_true rfl hzero, hok.exits_eq⟩
  · obtain ⟨k, hk, hlt⟩ := hinv.valid g hg hst
    have hkernel := List.getElem?_eq_getElem hlt
    have hpos : 0 < users s.pod k := by
      refine List.countP_pos_iff.mpr ⟨g, hg, ?_⟩
      simp [uses, hst, hk]
    rcases hinv.kernels k _ hkernel with ⟨-, henq, -, hrel, -⟩ | ⟨hzero, -⟩
    · exact ⟨k, _, hk, hkernel, hrel, henq⟩
    · omega

def twoGroups : List Event :=
  [.enqueue ampleHost ⟨2, 1⟩ ⟨1, 2⟩ "main" [1], .launch 0 allOk, .launch 1 allOk,
    .finish ⟨16, 8⟩ 0xF000]

theorem kernel_refs_x16y8 :
    let mc : Manycore := ⟨({} : Machine).config, true⟩
    ∃ s t, Transition.Reachable (system mc) s ∧
      s.pod.tileGroups.map TileGroup.status = [.finished, .launched] ∧
      s.pod.kernels = [⟨"main", [1], 1, false⟩] ∧
      next mc s (.finish ⟨17, 8⟩ 0xF004) = some t ∧
      t.pod.kernels = [⟨"", [], 0, true⟩] ∧ t.exits 0 = s.exits 0 + 1 := by
  intro mc
  let start : State := ⟨{ tileGroupsInit smallPod with kernels := [] }, [], fun _ => 0⟩
  have hrun : Transition.run (next mc) start twoGroups =
      some ((Transition.run (next mc) start twoGroups).get (by decide)) := (Option.some_get _).symm
  have hstart : Transition.Reachable (system mc) start := .initial ⟨smallPod, rfl⟩
  have hs := hstart.events hrun
  refine ⟨_, _, hs, by decide, by decide, (Option.some_get (by decide)).symm, by decide, ?_⟩
  rw [(kernel_refs mc hs).2.1 ⟨17, 8⟩ 0xF004 _ (Option.some_get (by decide)).symm 0,
    if_pos (by decide)]

end KernelRefs
