import ManycoreRuntime.EnqueueTable
import ManycoreRuntime.LaunchAtomicity
import ManycoreRuntime.PodExhaustion

/-! # The blocks of the arguments

A launch allocates a block for the kernel's arguments, and the exit of the tile group frees it.
Between the calls that execute kernels the user allocates and frees as well. -/
namespace ArgvBlocks

open Coordinate
open Configuration (Manycore)
open LaunchAtomicity
open Machines (Machine)
open MemoryManager (Block Manager Holds cover firstFit blockSize)
open PodExhaustion (Solid)
open PodMalloc (Program)
open PodMesh TileGroups TileOwnership

/-- The loop of a call launches tile groups, then waits for one of them to finish. -/
inductive Pc where
  | idle
  | launching
  | waiting
  deriving DecidableEq, Repr

/-- The live blocks at the start of the last call, and how many blocks became live at the launch
of each tile group and were freed at its exit. -/
structure State where
  pod : Pod
  pc : Pc
  returned : Option (Except Errno Unit)
  atCall : List Block
  allocs : ℕ → ℕ
  frees : ℕ → ℕ

inductive Event where
  | enqueue (gridDim tgDim : Dimension) (name : String) (argv : List UInt32)
  | malloc (size : UInt32)
  | free (eva : UInt32)
  | execute
  | launch (i : ℕ) (answers : Answers)
  | launched
  | receive (src : Coord) (epa : UInt32)
  | otherPod
  | rxError (e : Errno)

def addTo (count : ℕ → ℕ) (i n : ℕ) : ℕ → ℕ := Function.update count i (count i + n)

def mapProgram (f : Program → Program) (pod : Pod) : Pod :=
  { pod with program := pod.program.map f }

def State.turn (s : State) : State :=
  if allTileGroupsFinished s.pod then { s with pc := .idle, returned := some (.ok ()) }
  else { s with pc := .launching }

def State.fail (s : State) (e : Errno) : State :=
  { s with pc := .idle, returned := some (.error e) }

def State.user (s : State) (pod : Pod) : Option State :=
  if s.pc = .idle then some { s with pod := pod, returned := none } else none

/-- The tile groups may be tried in any order; the wait may also retire one of another pod. -/
def next (mc : Manycore) (s : State) : Event → Option State
  | .enqueue gridDim tgDim name argv => s.user (kernelEnqueue mc s.pod gridDim tgDim name argv)
  | .malloc size => s.user (mapProgram (fun program => (program.malloc size).2) s.pod)
  | .free eva => s.user (mapProgram (fun program => program.free eva) s.pod)
  | .execute =>
    if s.pc = .idle then some { s with atCall := live s.pod, returned := none }.turn else none
  | .launch i answers =>
    match s.pc, s.pod.tileGroups[i]? with
    | .launching, some tg =>
      if tg.status ≠ .initialized then none
      else match allocateAndLaunch answers s.pod i tg with
        | (false, _, pod) => some { s with pod := pod }
        | (true, result, pod) =>
          let s := { s with
            pod := pod
            allocs := addTo s.allocs i ((live pod).length - (live s.pod).length) }
          match result with
          | .error e => some (s.fail e)
          | .ok _ => some s
    | _, _ => none
  | .launched => if s.pc = .launching then some { s with pc := .waiting } else none
  | .receive src epa =>
    if s.pc = .waiting then
      match finishTileGroup s.pod src epa with
      | none => some s
      | some (i, result, pod) =>
        let s := { s with
          pod := pod
          frees := addTo s.frees i ((live s.pod).length - (live pod).length) }
        match result with
        | .error e => some (s.fail e)
        | .ok _ => some s.turn
    else none
  | .otherPod => if s.pc = .waiting then some { s with pc := .launching } else none
  | .rxError e => if s.pc = .waiting then some (s.fail e) else none

structure LowPool (program : Program) : Prop where
  solid : Solid program.memoryManager
  low : program.memoryManager.start + program.memoryManager.size ≤ 2 ^ 32

structure Initial (s : State) : Prop where
  program : ∃ program, s.pod.program = some program ∧ LowPool program
  tileGroups : s.pod.tileGroups = []
  idle : s.pc = .idle ∧ s.returned = none
  counts : s.allocs = (fun _ => 0) ∧ s.frees = fun _ => 0

def system (mc : Manycore) : Transition.System State Event := .ofNext Initial (next mc)

/-- A free block can hold the arguments of every kernel that is launched, and no call finds tile
groups that an earlier call launched and left. -/
def Supplied (s : State) : Event → Prop
  | .execute => ∀ g ∈ s.pod.tileGroups, g.status ≠ .launched
  | .launch i _ => ∀ tg kernel program, s.pod.tileGroups[i]? = some tg →
      kernelOf s.pod tg = some kernel → s.pod.program = some program → ArgvFits program kernel
  | _ => True

instance (program : Program) (kernel : Kernel) : Decidable (ArgvFits program kernel) :=
  inferInstanceAs (Decidable (_ = true))

instance (s : State) (e : Event) : Decidable (Supplied s e) :=
  match e with
  | .execute => inferInstanceAs (Decidable (∀ g ∈ s.pod.tileGroups, g.status ≠ .launched))
  | .launch i _ =>
    decidable_of_iff (∀ tg ∈ s.pod.tileGroups[i]?, ∀ kernel ∈ kernelOf s.pod tg,
        ∀ program ∈ s.pod.program, ArgvFits program kernel)
      ⟨fun h tg kernel program hi hk hp => h tg hi kernel hk program hp,
        fun h tg hi kernel hk program hp => h tg kernel program hi hk hp⟩
  | .enqueue .. | .malloc _ | .free _ | .launched | .receive .. | .otherPod | .rxError _ =>
    inferInstanceAs (Decidable True)

section Blocks

variable {program : Program} {b : Block}

theorem LowPool.malloc (h : LowPool program) (size : UInt32) : LowPool (program.malloc size).2 := by
  obtain ⟨hsize, hstart, -⟩ := MemoryManager.alloc_samePool program.memoryManager size.toNat
  rw [Program.malloc_eq]
  exact ⟨PodExhaustion.alloc_solid h.solid _, by rw [hsize, hstart]; exact h.low⟩

theorem LowPool.free (h : LowPool program) (eva : UInt32) : LowPool (program.free eva) := by
  obtain ⟨hsize, hstart, -⟩ := MemoryManager.free_samePool program.memoryManager eva.toNat
  exact ⟨PodExhaustion.free_solid h.solid _, by rw [Program.free, hsize, hstart]; exact h.low⟩

theorem LowPool.argv (h : LowPool program) {kernel : Kernel} (hfits : ArgvFits program kernel) :
    ∃ b, (program.malloc (argvSize kernel)).2.memoryManager.busyBufferList =
        program.memoryManager.busyBufferList ++ [b] ∧
      (UInt32.ofNat (MemoryManager.alloc program.memoryManager (argvSize kernel).toNat).1).toNat =
        b.first := by
  obtain ⟨c, hc⟩ := Option.isSome_iff_exists.mp hfits
  refine ⟨⟨c.first, blockSize program.memoryManager (argvSize kernel).toNat⟩, ?_, ?_⟩
  · rw [Program.malloc_eq, MemoryManager.alloc_of_some hc]
  · rw [MemoryManager.alloc_of_some hc]
    refine UInt32.toNat_ofNat_of_lt' ?_
    -- the byte lies in the pool
    obtain ⟨hmem, hle⟩ := MemoryManager.firstFit_some hc
    have hbs := PodMalloc.blockSize_pos h.solid.alignment (argvSize kernel).toNat
    have hcover := h.solid.cover c.first
    have hone := MemoryManager.cover_pos_iff.mpr ⟨c, hmem, show Holds c.first c from
      ⟨le_rfl, by omega⟩⟩
    have hlow := h.low
    unfold MemoryManager.held at hcover
    simp only [UInt32.size]
    split at hcover <;> omega

theorem LowPool.eq_of_first (h : LowPool program) {c : Block}
    (hb : b ∈ program.memoryManager.busyBufferList) (hc : c ∈ program.memoryManager.busyBufferList)
    (hfirst : b.first = c.first) : b = c := by
  have hcover : ∀ x, cover program.memoryManager.busyBufferList x ≤ 1 := by
    intro x
    have hle := PodExhaustion.held_le x program.memoryManager.start program.memoryManager.size
    have hx := h.solid.cover x
    omega
  have hb0 := h.solid.live b hb
  have hc0 := h.solid.live c hc
  exact PodExhaustion.eq_of_holds hcover hb hc (x := b.first) ⟨le_rfl, by omega⟩
    ⟨by omega, by omega⟩

theorem LowPool.free_perm (h : LowPool program) (hb : b ∈ program.memoryManager.busyBufferList)
    {eva : UInt32} (heva : b.first = eva.toNat) :
    program.memoryManager.busyBufferList.Perm
      (b :: (program.free eva).memoryManager.busyBufferList) := by
  obtain ⟨c, hc⟩ : ∃ c, MemoryManager.find program.memoryManager eva.toNat = some c := by
    rw [← Option.isSome_iff_exists, MemoryManager.find, List.find?_isSome]
    exact ⟨b, hb, decide_eq_true heva⟩
  have hfirst : c.first = eva.toNat := by
    unfold MemoryManager.find at hc
    have hp := List.find?_some hc
    exact of_decide_eq_true hp
  have hbc := h.eq_of_first hb (List.mem_of_find?_eq_some hc) (heva.trans hfirst.symm)
  have hperm := MemoryManager.find_perm hc
  rw [← hbc] at hperm
  simp only [Program.free, MemoryManager.free, hc]
  exact hperm

end Blocks

section Launch

variable {pod : Pod} {i : ℕ} {tg : TileGroup} {program : Program}

theorem finishTileGroup_retires {pod' : Pod} {src : Coord} {epa : UInt32}
    {result : Except Errno Unit} (hp : pod.program = some program)
    (h : finishTileGroup pod src epa = some (i, result, pod')) :
    ∃ tg g, pod.tileGroups[i]? = some tg ∧ tg.status = .launched ∧ g.status = .finished ∧
      result = .ok () ∧ pod'.tileGroups = pod.tileGroups.set i g ∧
      pod'.program = some (program.free tg.argvEva) := by
  have hsome : pod.program.isSome = true := by rw [hp]; rfl
  obtain ⟨tg, g, hi, hfin, hresult, hg, -, -, hgroups, -⟩ := finishTileGroup_some h hsome
  refine ⟨tg, g, hi, (finishes_iff.mp hfin).1, hg, hresult, hgroups, ?_⟩
  obtain ⟨j, -, h⟩ := Option.bind_eq_some_iff.mp h
  obtain ⟨tg', hj, h⟩ := Option.map_eq_some_iff.mp h
  simp only [retire, tileGroupExit, hp, Prod.mk.injEq] at h
  obtain ⟨rfl, -, rfl⟩ := h
  rw [hi] at hj
  cases hj
  rfl

inductive Attempt (pod : Pod) (i : ℕ) (tg : TileGroup) (program : Program) :
    Bool × Except Errno Unit × Pod → Prop where
  | unplaced (origin : Coord) (pod' : Pod) (hp : pod'.program = some program)
    (hgroups : pod'.tileGroups = pod.tileGroups.set i { tg with origin := origin }) :
    Attempt pod i tg program (false, .ok (), pod')
  | failed (e : Errno) (pod' : Pod) (program' : Program) (g : TileGroup)
    (hp : pod'.program = some program') (hlow : LowPool program → LowPool program')
    (hgroups : pod'.tileGroups = pod.tileGroups.set i g) (hst : g.status = .allocated) :
    Attempt pod i tg program (true, .error e, pod')
  | launched (pod' : Pod) (kernel : Kernel) (g : TileGroup) (hk : kernelOf pod tg = some kernel)
    (hp : pod'.program = some (program.malloc (argvSize kernel)).2)
    (hgroups : pod'.tileGroups = pod.tileGroups.set i g) (hst : g.status = .launched)
    (hargv : g.argvEva = UInt32.ofNat
      (MemoryManager.alloc program.memoryManager (argvSize kernel).toNat).1) :
    Attempt pod i tg program (true, .ok (), pod')

theorem allocateAndLaunch_attempt (answers : Answers) (hp : pod.program = some program) :
    Attempt pod i tg program (allocateAndLaunch answers pod i tg) := by
  obtain ⟨mesh, origin, ⟨e, halloc⟩ | halloc⟩ :=
    allocateTiles_shape answers.setConfigSymbols pod.mesh tg
  · simp only [allocateAndLaunch, halloc]
    exact .unplaced origin _ hp rfl
  · have hequipped := @launch_equipped answers { pod with mesh := mesh }
      { tg with origin := origin, status := .allocated }
    cases hk : kernelOf pod tg with
    | none =>
      obtain ⟨e, hl⟩ := @launch_unequipped answers { pod with mesh := mesh }
        { tg with origin := origin, status := .allocated } (Or.inl hk)
      simp only [allocateAndLaunch, halloc, hl]
      exact .failed e _ program _ hp id rfl rfl
    | some kernel =>
      obtain ⟨a, ha, ⟨-, hl⟩ | ⟨-, e, hl⟩⟩ := @hequipped kernel program hk hp
      · simp only [allocateAndLaunch, halloc, hl]
        exact .launched _ kernel _ hk rfl rfl rfl ha
      · simp only [allocateAndLaunch, halloc, hl]
        exact .failed e _ _ _ rfl (fun h => h.malloc _) rfl rfl

end Launch

/-- The tile groups that the running call launched, each with a block of its own; the other live
blocks are those before the call. -/
structure Holding (atCall : List Block) (pod : Pod) (held : List (ℕ × Block)) : Prop where
  perm : (live pod).Perm (atCall ++ held.map Prod.snd)
  nodup : (held.map Prod.fst).Nodup
  launched : ∀ p ∈ held, ∃ g, pod.tileGroups[p.1]? = some g ∧ g.status = .launched ∧
    p.2.first = g.argvEva.toNat
  complete : ∀ (i : ℕ) g, pod.tileGroups[i]? = some g → g.status = .launched →
    ∃ b, (i, b) ∈ held

section Held

variable {atCall : List Block} {pod pod' : Pod} {held : List (ℕ × Block)} {i : ℕ}
  {tg g : TileGroup} {b : Block}

theorem Holding.not_mem (h : Holding atCall pod held) (hi : pod.tileGroups[i]? = some tg)
    (hst : tg.status ≠ .launched) : ∀ p ∈ held, p.1 ≠ i := by
  rintro p hp rfl
  obtain ⟨g, hg, hlaunched, -⟩ := h.launched p hp
  rw [hi] at hg
  cases hg
  exact hst hlaunched

theorem Holding.replace (h : Holding atCall pod held) (hi : pod.tileGroups[i]? = some tg)
    (htg : tg.status ≠ .launched) (hg : g.status ≠ .launched)
    (hgroups : pod'.tileGroups = pod.tileGroups.set i g) (hlive : live pod' = live pod) :
    Holding atCall pod' held := by
  refine ⟨by rw [hlive]; exact h.perm, h.nodup, fun p hp => ?_, fun j g' hj hst => ?_⟩
  · have hne := h.not_mem hi htg p hp
    obtain ⟨g', hg', hrest⟩ := h.launched p hp
    exact ⟨g', by rw [hgroups, List.getElem?_set_ne hne.symm]; exact hg', hrest⟩
  · rw [hgroups] at hj
    rcases getElem?_set_cases hj with ⟨-, rfl⟩ | ⟨-, hj⟩
    · exact absurd hst hg
    · exact h.complete j g' hj hst

/-- The launch of a tile group adds its block. -/
theorem Holding.add (h : Holding atCall pod held) (hi : pod.tileGroups[i]? = some tg)
    (htg : tg.status ≠ .launched) (hg : g.status = .launched) (hb : b.first = g.argvEva.toNat)
    (hgroups : pod'.tileGroups = pod.tileGroups.set i g) (hlive : live pod' = live pod ++ [b]) :
    Holding atCall pod' (held ++ [(i, b)]) := by
  have hnot := h.not_mem hi htg
  refine ⟨?_, ?_, fun p hp => ?_, fun j g' hj hst => ?_⟩
  · rw [hlive, List.map_append, ← List.append_assoc]
    exact h.perm.append_right [b]
  · rw [List.map_append, List.nodup_append]
    refine ⟨h.nodup, List.nodup_singleton i, fun j hj k hk => ?_⟩
    obtain ⟨p, hp, rfl⟩ := List.mem_map.mp hj
    rw [List.mem_singleton.mp hk]
    exact hnot p hp
  · rw [hgroups]
    rcases List.mem_append.mp hp with hp | hp
    · obtain ⟨g', hg', hrest⟩ := h.launched p hp
      exact ⟨g', by rw [List.getElem?_set_ne (hnot p hp).symm]; exact hg', hrest⟩
    · rw [List.mem_singleton.mp hp]
      exact ⟨g, getElem?_set_of_some g hi, hg, hb⟩
  · rw [hgroups] at hj
    rcases getElem?_set_cases hj with ⟨rfl, -⟩ | ⟨-, hj⟩
    · exact ⟨b, List.mem_append_right _ (List.mem_singleton.mpr rfl)⟩
    · obtain ⟨b', hb'⟩ := h.complete j g' hj hst
      exact ⟨b', List.mem_append_left _ hb'⟩

theorem Holding.remove (h : Holding atCall pod held) (hmem : (i, b) ∈ held)
    (hg : g.status ≠ .launched) (hgroups : pod'.tileGroups = pod.tileGroups.set i g)
    (hlive : (live pod).Perm (b :: live pod')) : ∃ rest, Holding atCall pod' rest := by
  have hsplit := List.perm_cons_erase hmem
  have hnodup := (hsplit.map Prod.fst).nodup_iff.mp h.nodup
  rw [List.map_cons, List.nodup_cons] at hnodup
  have hnot : ∀ p ∈ held.erase (i, b), p.1 ≠ i := fun p hp hpi =>
    hnodup.1 (List.mem_map.mpr ⟨p, hp, hpi⟩)
  refine ⟨held.erase (i, b), ?_, hnodup.2, fun p hp => ?_, fun j g' hj hst => ?_⟩
  · have hperm : (b :: live pod').Perm (b :: (atCall ++ (held.erase (i, b)).map Prod.snd)) :=
      calc (b :: live pod').Perm (live pod) := hlive.symm
        List.Perm _ (atCall ++ held.map Prod.snd) := h.perm
        List.Perm _ (atCall ++ b :: (held.erase (i, b)).map Prod.snd) :=
          (hsplit.map Prod.snd).append_left _
        List.Perm _ _ := List.perm_middle
    exact (List.perm_cons b).mp hperm
  · obtain ⟨g', hg', hrest⟩ := h.launched p (List.mem_of_mem_erase hp)
    exact ⟨g', by rw [hgroups, List.getElem?_set_ne (hnot p hp).symm]; exact hg', hrest⟩
  · rw [hgroups] at hj
    rcases getElem?_set_cases hj with ⟨-, rfl⟩ | ⟨hne, hj⟩
    · exact absurd hst hg
    · obtain ⟨b', hb'⟩ := h.complete j g' hj hst
      exact ⟨b', (List.mem_erase_of_ne fun he => hne (congrArg Prod.fst he)).mpr hb'⟩

end Held

def Counted : TileGroupStatus → ℕ → ℕ → Prop
  | .initialized, allocs, frees => allocs = 0 ∧ frees = 0
  | .allocated, _, _ => True
  | .launched, allocs, frees => allocs = 1 ∧ frees = 0
  | .finished, allocs, frees => allocs = 1 ∧ frees = 1

structure Inv (s : State) : Prop where
  pool : ∃ program, s.pod.program = some program ∧ LowPool program
  running : s.pc ≠ .idle → s.returned = none
  holding : s.pc ≠ .idle → ∃ held, Holding s.atCall s.pod held
  success : s.returned = some (.ok ()) → (live s.pod).Perm s.atCall
  counts : ∀ (i : ℕ) g, s.pod.tileGroups[i]? = some g → Counted g.status (s.allocs i) (s.frees i)
  fresh : ∀ i, s.pod.tileGroups.length ≤ i → s.allocs i = 0 ∧ s.frees i = 0

section Steps

variable {mc : Manycore} {s t : State}

theorem initial_inv (h : Initial s) : Inv s := by
  obtain ⟨hpool, hgroups, ⟨hpc, hret⟩, hallocs, hfrees⟩ := h
  refine ⟨hpool, fun hne => absurd hpc hne, fun hne => absurd hpc hne, fun hok => ?_,
    fun i g hi => ?_, fun i _ => ?_⟩
  · rw [hret] at hok
    cases hok
  · rw [hgroups] at hi
    cases hi
  · rw [hallocs, hfrees]
    exact ⟨rfl, rfl⟩

theorem Inv.user (h : Inv s) {pod : Pod} (hu : s.user pod = some t)
    (hpool : ∃ program, pod.program = some program ∧ LowPool program)
    (hgroups : ∃ new, pod.tileGroups = s.pod.tileGroups ++ new ∧
      ∀ g ∈ new, g.status = .initialized) : Inv t := by
  simp only [State.user] at hu
  split at hu
  · next hidle =>
    cases hu
    obtain ⟨new, hnew, hinit⟩ := hgroups
    refine ⟨hpool, fun hne => absurd hidle hne, fun hne => absurd hidle hne, fun hok => ?_,
      fun i g hi => ?_, fun i hlen => ?_⟩
    · cases hok
    · rw [hnew, List.getElem?_append] at hi
      split at hi
      · exact h.counts i g hi
      · next hge =>
        rw [hinit g (List.mem_of_getElem? hi)]
        exact h.fresh i (not_lt.mp hge)
    · rw [hnew, List.length_append] at hlen
      exact h.fresh i (by omega)
  · cases hu

theorem turn_inv (hpool : ∃ program, s.pod.program = some program ∧ LowPool program)
    (hret : s.returned = none) {held : List (ℕ × Block)} (hheld : Holding s.atCall s.pod held)
    (hcounts : ∀ (i : ℕ) g, s.pod.tileGroups[i]? = some g →
      Counted g.status (s.allocs i) (s.frees i))
    (hfresh : ∀ i, s.pod.tileGroups.length ≤ i → s.allocs i = 0 ∧ s.frees i = 0) :
    Inv s.turn := by
  unfold State.turn
  split
  · next hfin =>
    refine ⟨hpool, fun hne => absurd rfl hne, fun hne => absurd rfl hne, fun _ => ?_, hcounts,
      hfresh⟩
    have hempty : held = [] := by
      refine List.eq_nil_iff_forall_not_mem.mpr fun p hp => ?_
      obtain ⟨g, hg, hst, -⟩ := hheld.launched p hp
      rw [allTileGroupsFinished, List.all_eq_true] at hfin
      have hdone := of_decide_eq_true (hfin g (List.mem_of_getElem? hg))
      rw [hst] at hdone
      cases hdone
    have hperm := hheld.perm
    rw [hempty, List.map_nil, List.append_nil] at hperm
    exact hperm
  · refine ⟨hpool, fun _ => hret, fun _ => ⟨held, hheld⟩, fun hok => ?_, hcounts, hfresh⟩
    have hok : s.returned = some (.ok ()) := hok
    rw [hret] at hok
    cases hok

theorem addTo_self (count : ℕ → ℕ) (i n : ℕ) : addTo count i n i = count i + n :=
  Function.update_self ..

theorem addTo_of_ne (count : ℕ → ℕ) {i j : ℕ} (n : ℕ) (h : j ≠ i) : addTo count i n j = count j :=
  Function.update_of_ne h ..

theorem Inv.counts_set (h : Inv s) {i n m : ℕ} {tg g : TileGroup}
    (hi : s.pod.tileGroups[i]? = some tg)
    (hg : Counted g.status (s.allocs i + n) (s.frees i + m)) :
    (∀ (j : ℕ) g', (s.pod.tileGroups.set i g)[j]? = some g' →
      Counted g'.status (addTo s.allocs i n j) (addTo s.frees i m j)) ∧
    ∀ j, (s.pod.tileGroups.set i g).length ≤ j →
      addTo s.allocs i n j = 0 ∧ addTo s.frees i m j = 0 := by
  refine ⟨fun j g' hj => ?_, fun j hj => ?_⟩
  · rcases getElem?_set_cases hj with ⟨rfl, rfl⟩ | ⟨hne, hj⟩
    · rw [addTo_self, addTo_self]
      exact hg
    · rw [addTo_of_ne _ _ hne, addTo_of_ne _ _ hne]
      exact h.counts j g' hj
  · rw [List.length_set] at hj
    have hlt := (List.getElem?_eq_some_iff.mp hi).1
    rw [addTo_of_ne _ _ (by omega), addTo_of_ne _ _ (by omega)]
    exact h.fresh j hj

theorem addTo_zero (count : ℕ → ℕ) (i : ℕ) : addTo count i 0 = count :=
  Function.update_eq_self ..

theorem live_of_program {pod : Pod} {program : Program} (hp : pod.program = some program) :
    live pod = program.memoryManager.busyBufferList := by
  rw [live, hp]

/-- A launch that finds a block for its arguments. -/
theorem launch_inv (h : Inv s) (hpc : s.pc = .launching) {i : ℕ} {answers : Answers}
    (hsupplied : Supplied s (.launch i answers)) (hn : next mc s (.launch i answers) = some t) :
    Inv t := by
  obtain ⟨program, hp, hlow⟩ := h.pool
  have hbusy : s.pc ≠ .idle := by rw [hpc]; decide
  have hret := h.running hbusy
  obtain ⟨held, hheld⟩ := h.holding hbusy
  have hno : s.returned ≠ some (.ok ()) := by
    rw [hret]
    exact fun hok => by cases hok
  simp only [next, hpc] at hn
  cases hi : s.pod.tileGroups[i]? with
  | none => simp only [hi, reduceCtorEq] at hn
  | some tg =>
    simp only [hi] at hn
    split at hn
    · cases hn
    · next hst =>
      rw [not_not] at hst
      have hcounted := h.counts i tg hi
      rw [hst] at hcounted
      obtain ⟨hallocs, hfrees⟩ := hcounted
      have htg : tg.status ≠ .launched := by rw [hst]; decide
      have hattempt := @allocateAndLaunch_attempt s.pod i tg program answers hp
      generalize allocateAndLaunch answers s.pod i tg = result at hattempt hn
      cases hattempt with
      | unplaced origin pod' hp' hgroups =>
        cases hn
        have hlive : live pod' = live s.pod := by rw [live_of_program hp', live_of_program hp]
        have hcounts := @Inv.counts_set s h i 0 0 tg { tg with origin := origin } hi
          (h.counts i tg hi)
        rw [← hgroups, addTo_zero, addTo_zero] at hcounts
        exact ⟨⟨program, hp', hlow⟩, fun _ => hret,
          fun _ => ⟨held, hheld.replace (g := { tg with origin := origin }) hi htg htg hgroups
            hlive⟩, fun hok => absurd hok hno, hcounts.1, hcounts.2⟩
      | failed e pod' program' g hp' hlow' hgroups hg =>
        cases hn
        have hcounts := @Inv.counts_set s h i ((live pod').length - (live s.pod).length) 0 tg g hi
          (by rw [hg]; trivial)
        rw [← hgroups, addTo_zero] at hcounts
        refine ⟨⟨program', hp', hlow' hlow⟩, fun hne => absurd rfl hne, fun hne => absurd rfl hne,
          fun hok => ?_, hcounts.1, hcounts.2⟩
        cases hok
      | launched pod' kernel g hk hp' hgroups hg hargv =>
        cases hn
        obtain ⟨b, hbusy', hb⟩ := hlow.argv (hsupplied tg kernel program hi hk hp)
        have hlive : live pod' = live s.pod ++ [b] := by
          rw [live_of_program hp', live_of_program hp, hbusy']
        have hone : (live pod').length - (live s.pod).length = 1 := by
          rw [hlive, List.length_append, List.length_singleton, Nat.add_sub_cancel_left]
        have hcounts := @Inv.counts_set s h i 1 0 tg g hi (by
          rw [hg, hallocs, hfrees]
          exact ⟨rfl, rfl⟩)
        rw [← hgroups, addTo_zero] at hcounts
        rw [hone]
        refine ⟨⟨_, hp', hlow.malloc _⟩, fun _ => hret, fun _ => ⟨held ++ [(i, b)], ?_⟩,
          fun hok => absurd hok hno, hcounts.1, hcounts.2⟩
        exact hheld.add hi htg hg (by rw [hargv, hb]) hgroups hlive

/-- A finish packet that is taken retires a launched tile group. -/
theorem receive_inv (h : Inv s) {src : Coord} {epa : UInt32}
    (hn : next mc s (.receive src epa) = some t) : Inv t := by
  simp only [next] at hn
  split at hn
  · next hpc =>
    obtain ⟨program, hp, hlow⟩ := h.pool
    have hbusy : s.pc ≠ .idle := by rw [hpc]; decide
    have hret := h.running hbusy
    obtain ⟨held, hheld⟩ := h.holding hbusy
    cases hf : finishTileGroup s.pod src epa with
    | none =>
      simp only [hf] at hn
      cases hn
      exact h
    | some found =>
      obtain ⟨i, result, pod'⟩ := found
      obtain ⟨tg, g, hi, hst, hg, rfl, hgroups, hp'⟩ := finishTileGroup_retires hp hf
      simp only [hf] at hn
      cases hn
      obtain ⟨b, hmem⟩ := hheld.complete i tg hi hst
      obtain ⟨g', hg', -, hb⟩ := hheld.launched (i, b) hmem
      rw [hi] at hg'
      cases hg'
      have hbusy' : b ∈ program.memoryManager.busyBufferList := by
        rw [← live_of_program hp, hheld.perm.mem_iff]
        exact List.mem_append_right _ (List.mem_map_of_mem hmem)
      have hlive : (live s.pod).Perm (b :: live pod') := by
        rw [live_of_program hp, live_of_program hp']
        exact hlow.free_perm hbusy' hb
      have hone : (live s.pod).length - (live pod').length = 1 := by
        rw [hlive.length_eq, List.length_cons, Nat.add_sub_cancel_left]
      have hcounted := h.counts i tg hi
      rw [hst] at hcounted
      obtain ⟨hallocs, hfrees⟩ := hcounted
      have hcounts := @Inv.counts_set s h i 0 1 tg g hi (by
        rw [hg, hallocs, hfrees]
        exact ⟨rfl, rfl⟩)
      rw [← hgroups, addTo_zero] at hcounts
      obtain ⟨rest, hrest⟩ := hheld.remove hmem (by rw [hg]; decide) hgroups hlive
      rw [hone]
      exact turn_inv ⟨_, hp', hlow.free _⟩ hret hrest hcounts.1 hcounts.2
  · cases hn

theorem execute_inv (h : Inv s) (hsupplied : Supplied s .execute)
    (hn : next mc s .execute = some t) : Inv t := by
  simp only [next] at hn
  split at hn
  · cases hn
    have hnone : Holding (live s.pod) s.pod [] := by
      refine ⟨?_, List.nodup_nil, fun p hp => absurd hp List.not_mem_nil, fun i g hi hst => ?_⟩
      · rw [List.map_nil, List.append_nil]
      · exact absurd hst (hsupplied g (List.mem_of_getElem? hi))
    exact turn_inv h.pool rfl hnone h.counts h.fresh
  · cases hn

theorem Inv.mapProgram (h : Inv s) {f : Program → Program}
    (hf : ∀ program, LowPool program → LowPool (f program))
    (hu : s.user (mapProgram f s.pod) = some t) : Inv t := by
  obtain ⟨program, hp, hlow⟩ := h.pool
  refine h.user hu ⟨f program, ?_, hf program hlow⟩ ⟨[], (List.append_nil _).symm, fun g hg => ?_⟩
  · rw [ArgvBlocks.mapProgram, hp, Option.map_some]
  · cases hg

/-- Inside a call the invariant does not depend on where the call is. -/
theorem Inv.move (h : Inv s) (hbusy : s.pc ≠ .idle) (pc : Pc) : Inv { s with pc := pc } :=
  ⟨h.pool, fun _ => h.running hbusy, fun _ => h.holding hbusy, h.success, h.counts, h.fresh⟩

theorem next_inv {e : Event} (h : Inv s) (he : Supplied s e) (hn : next mc s e = some t) :
    Inv t := by
  cases e with
  | enqueue gridDim tgDim name argv =>
    obtain ⟨program, hp, hlow⟩ := h.pool
    obtain ⟨capacity, heq⟩ := @EnqueueTable.kernelEnqueue_eq mc s.pod gridDim tgDim name argv
    refine h.user hn ⟨program, by rw [heq]; exact hp, hlow⟩
      ⟨EnqueueTable.gridGroups mc s.pod gridDim tgDim, by rw [heq], fun g hg => ?_⟩
    obtain ⟨c, -, rfl⟩ := List.mem_map.mp hg
    rfl
  | malloc size => exact h.mapProgram (fun program hlow => hlow.malloc size) hn
  | free eva => exact h.mapProgram (fun program hlow => hlow.free eva) hn
  | execute => exact execute_inv h he hn
  | launch i answers =>
    by_cases hpc : s.pc = .launching
    · exact launch_inv h hpc he hn
    · simp only [next] at hn
      split at hn
      · next hl _ => exact absurd hl hpc
      · cases hn
  | launched =>
    simp only [next] at hn
    split at hn
    · next hpc =>
      cases hn
      exact h.move (by rw [hpc]; decide) _
    · cases hn
  | receive src epa => exact receive_inv h hn
  | otherPod =>
    simp only [next] at hn
    split at hn
    · next hpc =>
      cases hn
      exact h.move (by rw [hpc]; decide) _
    · cases hn
  | rxError e =>
    simp only [next] at hn
    split at hn
    · cases hn
      refine ⟨h.pool, fun hne => absurd rfl hne, fun hne => absurd rfl hne, fun hok => ?_,
        h.counts, h.fresh⟩
      cases hok
    · cases hn

theorem reachable_inv (h : Transition.Reachable ((system mc).restrict Supplied) s) : Inv s := by
  refine h.invariant ?_ ?_
  · intro s hs
    exact initial_inv hs
  · rintro s e t hs ⟨he, hn⟩
    exact next_inv hs he hn

def Tried (s : State) : Except Errno Unit → Prop
  | .ok _ => s.pc = .launching
  | .error e => s.pc = .idle ∧ s.returned = some (.error e)

theorem next_launch (hpc : s.pc = .launching) {i : ℕ} {tg : TileGroup}
    (hi : s.pod.tileGroups[i]? = some tg) (hst : tg.status = .initialized) (answers : Answers) :
    ∃ t, next mc s (.launch i answers) = some t ∧
      t.pod = (allocateAndLaunch answers s.pod i tg).2.2 ∧
      ((allocateAndLaunch answers s.pod i tg).1 = true →
        Tried t (allocateAndLaunch answers s.pod i tg).2.1) ∧
      ((allocateAndLaunch answers s.pod i tg).1 = false → t.pc = .launching) := by
  simp only [next, hpc, hi, hst, ne_eq, not_true_eq_false, if_false]
  rcases allocateAndLaunch answers s.pod i tg with ⟨placed, result, pod⟩
  cases placed with
  | false =>
    refine ⟨_, rfl, rfl, fun h => ?_, fun _ => rfl⟩
    cases h
  | true =>
    cases result with
    | error e =>
      refine ⟨_, rfl, rfl, fun _ => ⟨rfl, rfl⟩, fun h => ?_⟩
      cases h
    | ok u =>
      refine ⟨_, rfl, rfl, fun _ => rfl, fun h => ?_⟩
      cases h

theorem tryLaunchFrom_run (answers : ℕ → Answers) (is : List ℕ) (lastFailed : Dimension)
    (hpc : s.pc = .launching) (his : ∀ i ∈ is, i < s.pod.tileGroups.length) :
    ∃ es t, (∀ e ∈ es, ∃ i, e = Event.launch i (answers i)) ∧
      Transition.run (next mc) s es = some t ∧
      t.pod = (tryLaunchFrom answers is lastFailed s.pod).2 ∧
      Tried t (tryLaunchFrom answers is lastFailed s.pod).1 := by
  induction is generalizing lastFailed s with
  | nil => exact ⟨[], s, fun e he => absurd he List.not_mem_nil, rfl, rfl, hpc⟩
  | cons i rest ih =>
    have hrest : ∀ j ∈ rest, j < s.pod.tileGroups.length :=
      fun j hj => his j (List.mem_cons_of_mem _ hj)
    obtain ⟨tg, hi⟩ : ∃ tg, s.pod.tileGroups[i]? = some tg :=
      ⟨_, List.getElem?_eq_getElem (his i List.mem_cons_self)⟩
    simp only [tryLaunchFrom, hi]
    split
    · exact ih lastFailed hpc hrest
    · next hst =>
      rw [not_not] at hst
      split
      · exact ih lastFailed hpc hrest
      · obtain ⟨u, hu, hpod, hplaced, hunplaced⟩ := @next_launch mc s hpc i tg hi hst (answers i)
        have hlen := (@EnqueueTable.allocateAndLaunch_sameTable s.pod i tg (answers i)).length
        rw [← hpod] at hlen
        have hrest' : ∀ j ∈ rest, j < u.pod.tileGroups.length := by
          rw [hlen]
          exact hrest
        -- one launch, then the launches of the rest
        have hcons : ∀ lastFailed, u.pc = .launching → ∃ es t,
            (∀ e ∈ es, ∃ i, e = Event.launch i (answers i)) ∧
            Transition.run (next mc) s es = some t ∧
            t.pod = (tryLaunchFrom answers rest lastFailed u.pod).2 ∧
            Tried t (tryLaunchFrom answers rest lastFailed u.pod).1 := by
          intro lastFailed hpu
          obtain ⟨es, t, hes, hrun, hrest⟩ := ih lastFailed hpu hrest'
          refine ⟨.launch i (answers i) :: es, t, fun e he => ?_, ?_, hrest⟩
          · rcases List.mem_cons.mp he with rfl | he
            · exact ⟨i, rfl⟩
            · exact hes e he
          · rw [Transition.run, hu]
            exact hrun
        rcases hal : allocateAndLaunch (answers i) s.pod i tg with ⟨placed, result, pod⟩
        rw [hal] at hpod hplaced hunplaced
        obtain rfl : u.pod = pod := hpod
        cases placed with
        | false => exact hcons tg.dim (hunplaced rfl)
        | true =>
          cases result with
          | ok v => exact hcons lastFailed (hplaced rfl)
          | error e =>
            refine ⟨[.launch i (answers i)], u, fun e' he => ⟨i, List.mem_singleton.mp he⟩, ?_,
              rfl, hplaced rfl⟩
            rw [Transition.run, hu]
            rfl

end Steps

structure LeakFree (s : State) : Prop where
  running : s.pc ≠ .idle → ∃ held, Holding s.atCall s.pod held
  returned : s.returned = some (.ok ()) → (live s.pod).Perm s.atCall
  launched : ∀ (i : ℕ) g, s.pod.tileGroups[i]? = some g → g.status = .launched →
    s.allocs i = 1 ∧ s.frees i = 0
  finished : ∀ (i : ℕ) g, s.pod.tileGroups[i]? = some g → g.status = .finished →
    s.allocs i = 1 ∧ s.frees i = 1

def smallState : State := ⟨smallPod, .idle, none, [], fun _ => 0, fun _ => 0⟩

theorem smallState_initial : Initial smallState := by
  refine ⟨⟨_, rfl, ?_, by decide⟩, rfl, ⟨rfl, rfl⟩, rfl, rfl⟩
  have hinit : MemoryManager.init 4096 0x80000080 128 =
      some ⟨4096, 0x80000080, 128, 4, 4096, [⟨0x80000080, 4096⟩], []⟩ := rfl
  exact PodExhaustion.init_solid (by decide) hinit

/-- Two tile groups fit; the third is launched after the first is done, and they do not finish in
order. The user's block is there before and after. -/
def smallEvents : List Event :=
  [.malloc 100, .enqueue ⟨3, 1⟩ ⟨1, 2⟩ "main" [], .execute, .launch 0 allOk, .launch 1 allOk,
    .launch 2 allOk, .launched, .receive ⟨17, 8⟩ 0xF004, .launch 2 allOk, .launched,
    .receive ⟨17, 8⟩ 0xF008, .launched, .receive ⟨16, 8⟩ 0xF000]

end ArgvBlocks
