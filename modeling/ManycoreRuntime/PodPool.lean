import ManycoreRuntime.PodMalloc

/-! # The pool of a pod

Whatever is allocated and freed, live and free blocks share out the pool that was set up for
the pod's program. -/
namespace PodPool

open Fallible (bind_eq_ok)
open Configuration (Config)
open PodMalloc
open MemoryManager
open Machines (Machine)

/-- The pool that was made for a program, and how its blocks share it out. -/
structure Pooled (cfg : Config) (program : Program) : Prop where
  size : program.memoryManager.size = cfg.dramSize
  alignment : program.memoryManager.alignment = cfg.vcacheBlockSize.toNat
  start : program.memoryManager.start = (program.dramEnd + cfg.vcacheBlockSize -
    program.dramEnd % cfg.vcacheBlockSize).toNat
  partition : Partition program.memoryManager

theorem programAllocatorInit_pooled {cfg : Config} {programEnd : UInt32} {program : Program}
    (h : programAllocatorInit cfg (some programEnd) = .ok program) : Pooled cfg program := by
  obtain ⟨manager, hpos, hm, rfl⟩ := programAllocatorInit_eq_ok h
  obtain ⟨-, hsize, hstart, hal⟩ := init_bounded hm
  exact ⟨hsize, hal, hstart, init_partition hpos hm⟩

theorem malloc_pooled {cfg : Config} {program : Program} (h : Pooled cfg program) (size : UInt32) :
    Pooled cfg (program.malloc size).2 := by
  obtain ⟨hsize, hstart, hal⟩ := alloc_samePool program.memoryManager size.toNat
  rw [Program.malloc_eq]
  exact ⟨hsize.trans h.size, hal.trans h.alignment, hstart.trans h.start,
    alloc_partition h.partition _⟩

theorem free_pooled {cfg : Config} {program : Program} (h : Pooled cfg program) (eva : UInt32) :
    Pooled cfg (program.free eva) := by
  obtain ⟨hsize, hstart, hal⟩ := free_samePool program.memoryManager eva.toNat
  exact ⟨hsize.trans h.size, hal.trans h.alignment, hstart.trans h.start,
    free_partition h.partition _⟩

section Programs

variable {P : Program → Prop} {cfg : Config} {pods pods' : List Pod} {podId : ℤ}

def AllPrograms (P : Program → Prop) (pods : List Pod) : Prop :=
  ∀ pod ∈ pods, ∀ program, pod.program = some program → P program

theorem AllPrograms.set (h : AllPrograms P pods) (i : ℕ) {pod : Pod} {program : Program}
    (hp : P program) : AllPrograms P (pods.set i { pod with program := some program }) := by
  intro q hq r hr
  rcases List.mem_or_eq_of_mem_set hq with hq | rfl
  · exact h q hq r hr
  · cases hr
    exact hp

structure Kept (cfg : Config) (P : Program → Prop) : Prop where
  init : ∀ {programEnd program},
    programAllocatorInit cfg (some programEnd) = .ok program → P program
  malloc : ∀ {program}, P program → ∀ size, P (program.malloc size).2
  free : ∀ {program}, P program → ∀ eva, P (program.free eva)

theorem programInit_kept (hk : Kept cfg P) {programEnd : Option UInt32} (h : AllPrograms P pods)
    (hp : programInit cfg pods podId programEnd = .ok pods') : AllPrograms P pods' := by
  unfold programInit at hp
  rw [bind_eq_ok] at hp
  obtain ⟨pod, hpod, hp⟩ := hp
  rw [bind_eq_ok] at hp
  obtain ⟨program, hprogram, hp⟩ := hp
  cases hp
  cases programEnd with
  | none => cases hprogram
  | some programEnd => exact h.set _ (hk.init hprogram)

theorem podFree_kept (hk : Kept cfg P) {eva : UInt32} (h : AllPrograms P pods)
    (hf : podFree pods podId eva = .ok pods') : AllPrograms P pods' := by
  unfold podFree at hf
  rw [bind_eq_ok] at hf
  obtain ⟨pod, hpod, hf⟩ := hf
  cases hp : pod.program with
  | none =>
    rw [hp] at hf
    cases hf
  | some program =>
    rw [hp] at hf
    cases hf
    exact h.set _ (hk.free (h pod (checkPodId_mem hpod) program hp) eva)

theorem next_kept (hk : Kept cfg P) {s : State} (h : AllPrograms P s.pods) (e : Event) :
    AllPrograms P (next cfg s e).pods := by
  cases e with
  | programInit podId programEnd =>
    simp only [next]
    split
    · exact h
    · next pods hp => exact programInit_kept hk h hp
  | malloc podId size =>
    cases hp : programOf s.pods podId with
    | none =>
      obtain ⟨err, he⟩ := podMalloc_of_none size hp
      simp only [next, hp, he]
      exact h
    | some found =>
      obtain ⟨pod, program⟩ := found
      obtain ⟨hc, hprogram⟩ := programOf_eq_some hp
      have hm := hk.malloc (h pod (checkPodId_mem hc) program hprogram) size
      rw [Program.malloc_eq] at hm
      simp only [next, hp, podMalloc_eq hp]
      exact h.set _ hm
  | free podId eva =>
    simp only [next]
    split
    · exact h
    · next pods hp => exact podFree_kept hk h hp

theorem reachable_kept (hk : Kept cfg P) {s : State}
    (h : Transition.Reachable (system cfg) s) : AllPrograms P s.pods := by
  refine @Transition.Reachable.invariant _ _ _ (fun s => AllPrograms P s.pods) ?_ ?_ _ h
  · rintro s rfl pod hpod program hprogram
    obtain ⟨i, -, rfl⟩ := List.mem_map.mp hpod
    cases hprogram
  · rintro s e t hs rfl
    exact next_kept hk hs e

end Programs

def AllPooled (cfg : Config) (pods : List Pod) : Prop :=
  ∀ pod ∈ pods, ∀ program, pod.program = some program → Pooled cfg program

theorem reachable_pooled {cfg : Config} {s : State}
    (h : Transition.Reachable (system cfg) s) : AllPooled cfg s.pods :=
  reachable_kept ⟨programAllocatorInit_pooled, malloc_pooled, free_pooled⟩ h

/-- Live and free blocks are apart and make up the pool, whose end is below `2 ^ 64`. -/
structure PoolLaw (cfg : Config) (program : Program) : Prop where
  noWrap : program.memoryManager.start + program.memoryManager.size < 2 ^ 64
  apart : (program.memoryManager.busyBufferList ++ program.memoryManager.freeBufferList).Pairwise
    fun b c => ∀ x, ¬ (Holds x b ∧ Holds x c)
  aligned : ∀ b ∈ program.memoryManager.busyBufferList, b.first % cfg.vcacheBlockSize.toNat = 0
  whole : ∀ x, (∃ b ∈ program.memoryManager.busyBufferList ++ program.memoryManager.freeBufferList,
    Holds x b) ↔
      program.memoryManager.start ≤ x ∧
        x < program.memoryManager.start + program.memoryManager.size
  freeSize : program.memoryManager.freeSize = total program.memoryManager.freeBufferList

theorem Pooled.noWrap {cfg : Config} {program : Program} (h : Pooled cfg program) :
    program.memoryManager.start + program.memoryManager.size < 2 ^ 64 := by
  rw [h.size, h.start, Config.dramSize]
  have hb := cfg.dramBankSize.toNat_lt
  have hn := cfg.numDramCoordinates.toNat_lt
  have hs := (program.dramEnd + cfg.vcacheBlockSize -
    program.dramEnd % cfg.vcacheBlockSize).toNat_lt
  have hle := Nat.mul_le_mul (Nat.le_sub_one_of_lt hb) (Nat.le_sub_one_of_lt hn)
  omega

theorem Pooled.law {cfg : Config} {program : Program} (h : Pooled cfg program) :
    PoolLaw cfg program := by
  have hcover : ∀ x, cover (program.memoryManager.busyBufferList ++
      program.memoryManager.freeBufferList) x =
        held x program.memoryManager.start program.memoryManager.size := by
    intro x
    rw [cover_append, Nat.add_comm]
    exact h.partition.cover x
  refine ⟨h.noWrap, apart_of_cover_le fun x => ?_, fun b hb => ?_, fun x => ?_,
    h.partition.freeSize⟩
  · rw [hcover, held]
    split
    · exact le_rfl
    · exact Nat.zero_le 1
  · rw [← h.alignment]
    exact (h.partition.busy b hb).1
  · rw [← cover_pos_iff, hcover, held]
    split
    · next hx => exact ⟨fun _ => hx, fun _ => Nat.one_pos⟩
    · next hx => exact ⟨fun hlt => absurd hlt (Nat.lt_irrefl 0), fun hin => absurd hin hx⟩

theorem coalesce_holds_iff (blocks : List Block) (x : ℕ) :
    (∃ b ∈ coalesce blocks, Holds x b) ↔ ∃ b ∈ blocks, Holds x b := by
  rw [← cover_pos_iff, ← cover_pos_iff, coalesce_cover]

theorem checkPodId_get {pods : List Pod} {podId : ℤ} {pod : Pod}
    (h : checkPodId pods podId = .ok pod) : pods[podId.toNat]? = some pod := by
  unfold checkPodId at h
  split at h
  · cases h
  · split at h
    · cases h
    · next hpod =>
      cases h
      exact hpod

/-- An address at which no live block begins is freed without effect. -/
theorem podFree_of_not_live {pods : List Pod} {podId : ℤ} {eva : UInt32} {pod : Pod}
    {program : Program} (h : programOf pods podId = some (pod, program))
    (hb : ∀ b ∈ program.memoryManager.busyBufferList, b.first ≠ eva.toNat) :
    podFree pods podId eva = .ok pods := by
  obtain ⟨hc, hp⟩ := programOf_eq_some h
  have hget := checkPodId_get hc
  have hsame : ({ pod with program := some (program.free eva) } : Pod) = pod := by
    rw [Program.free, free_of_not_busy hb, ← hp]
  obtain ⟨hlt, hget⟩ := List.getElem?_eq_some_iff.mp hget
  simp only [podFree, bind, Except.bind, hc, hp, hsame, pure, Except.pure]
  rw [← hget, List.set_getElem_self]

/-- In every run the pool of each pod is shared out between its live and its free blocks, a
free of an address that is not live changes nothing, and merging keeps the free bytes. -/
theorem pool_law {cfg : Config} {s : State} (h : Transition.Reachable (system cfg) s) :
    (∀ podId pod program, programOf s.pods podId = some (pod, program) →
      PoolLaw cfg program ∧
      ∀ eva : UInt32, (∀ b ∈ program.memoryManager.busyBufferList, b.first ≠ eva.toNat) →
        podFree s.pods podId eva = .ok s.pods) ∧
    ∀ (blocks : List Block) (x : ℕ),
      (∃ b ∈ coalesce blocks, Holds x b) ↔ ∃ b ∈ blocks, Holds x b := by
  refine ⟨fun podId pod program hp => ⟨?_, fun eva hb => podFree_of_not_live hp hb⟩,
    coalesce_holds_iff⟩
  obtain ⟨hc, hprogram⟩ := programOf_eq_some hp
  exact (reachable_pooled h pod (checkPodId_mem hc) program hprogram).law

def fiveFreed (cfg : Config) : State :=
  [Event.programInit 0 (some 0x80000001), .malloc 0 0, .malloc 0 100, .malloc 0 128, .malloc 0 1,
    .malloc 0 4, .free 0 0x80000080, .free 0 0x80000180, .free 0 7, .free 0 0x80000280,
    .free 0 0x80000100].foldl (next cfg) ⟨deviceInit cfg, []⟩

theorem foldl_reachable {cfg : Config} {s : State} (events : List Event)
    (h : Transition.Reachable (system cfg) s) :
    Transition.Reachable (system cfg) (events.foldl (next cfg) s) := by
  induction events generalizing s with
  | nil => exact h
  | cons e events ih => exact ih (.step h rfl)

theorem pool_law_x16y8 :
    ∃ pod program, programOf (fiveFreed ({} : Machine).config).pods 0 = some (pod, program) ∧
      program.memoryManager.busyBufferList = [⟨0x80000200, 128⟩] ∧
      PoolLaw ({} : Machine).config program := by
  have hrun : (programOf (fiveFreed ({} : Machine).config).pods 0).any
      (fun found => found.2.memoryManager.busyBufferList = [⟨0x80000200, 128⟩]) = true := by
    decide
  obtain ⟨⟨pod, program⟩, hp, hb⟩ := (Option.any_eq_true _ _).mp hrun
  exact ⟨pod, program, hp, of_decide_eq_true hb,
    ((pool_law (foldl_reachable _ (.initial rfl))).1 0 pod program hp).1⟩

end PodPool
