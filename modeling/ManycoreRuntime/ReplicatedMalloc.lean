import ManycoreRuntime.LegacyReplicate

/-! # Replicated allocations that fail

`hb_mc_device_malloc` allocates pod after pod and gives nothing back: a pod without a program
ends it, and so does the comparison of the addresses at its end. -/
namespace ReplicatedMalloc

open Coordinate (Errno)
open MemoryManager (Manager Block blockSize firstFit)
open PodMalloc (Program)
open TileGroups (Pod)
open LegacyReplicate

section Loop

variable {α : Type} {f : Pod → Except Errno α × Pod}

theorem foreachPod_map {a : Pod → α} {pods : List Pod}
    (h : ∀ pod ∈ pods, (f pod).1 = .ok (a pod)) :
    foreachPod f pods = (.ok (pods.map a), pods.map fun pod => (f pod).2) := by
  induction pods with
  | nil => rfl
  | cons pod pods ih =>
    have hf : f pod = (.ok (a pod), (f pod).2) :=
      Prod.ext (h pod List.mem_cons_self) rfl
    have hrest := ih fun p hp => h p (List.mem_cons_of_mem pod hp)
    simp only [foreachPod, hrest, Except.map, List.map_cons]
    rw [hf]

/-- The pods before the first error keep what the call has changed, those behind it are not
reached. -/
theorem foreachPod_error {before after : List Pod} {pod : Pod} {e : Errno}
    (hbefore : ∀ p ∈ before, ∃ a, (f p).1 = .ok a) (he : (f pod).1 = .error e) :
    foreachPod f (before ++ pod :: after) =
      (.error e, (before.map fun p => (f p).2) ++ (f pod).2 :: after) := by
  induction before with
  | nil =>
    have hf : f pod = (.error e, (f pod).2) := Prod.ext he rfl
    rw [List.nil_append, foreachPod, hf]
    rfl
  | cons p before ih =>
    obtain ⟨a, ha⟩ := hbefore p List.mem_cons_self
    have hf : f p = (.ok a, (f p).2) := Prod.ext ha rfl
    have hrest := ih fun q hq => hbefore q (List.mem_cons_of_mem p hq)
    rw [List.cons_append, foreachPod, hf]
    simp only [hrest, Except.map, List.map_cons, List.cons_append]

end Loop

def allocator (pod : Pod) : Option Manager := pod.program.map fun program => program.memoryManager

def Full (size : UInt32) (program : Program) : Prop :=
  firstFit program.memoryManager.freeBufferList
    (blockSize program.memoryManager size.toNat) = none

instance (size : UInt32) (program : Program) : Decidable (Full size program) :=
  inferInstanceAs (Decidable (_ = none))

/-- The start of the first free block that can hold the request, cut to 32 bits; without such a
block the null address, cut alike. -/
def firstAddress (size : UInt32) (program : Program) : UInt32 :=
  UInt32.ofNat (((firstFit program.memoryManager.freeBufferList
    (blockSize program.memoryManager size.toNat)).map Block.first).getD MemoryManager.null)

theorem alloc_fst (m : Manager) (n : ℕ) : (MemoryManager.alloc m n).1 =
    ((firstFit m.freeBufferList (blockSize m n)).map Block.first).getD MemoryManager.null := by
  unfold MemoryManager.alloc
  cases h : firstFit m.freeBufferList (blockSize m n) with
  | none => simp only [h, Option.map_none, Option.getD_none]
  | some b => simp only [h, Option.map_some, Option.getD_some]

theorem alloc_snd_eq_iff (m : Manager) (n : ℕ) :
    (MemoryManager.alloc m n).2 = m ↔ firstFit m.freeBufferList (blockSize m n) = none := by
  unfold MemoryManager.alloc
  cases h : firstFit m.freeBufferList (blockSize m n) with
  | none => simp only [h]
  | some b =>
    simp only [h, reduceCtorEq, iff_false]
    intro he
    have hlen := congrArg (fun m => m.busyBufferList.length) he
    simp only [List.length_append, List.length_singleton] at hlen
    omega

theorem podMalloc_of_none {pod : Pod} (h : pod.program = none) (size : UInt32) :
    podMalloc size pod = (.error .invalid, pod) := by
  simp only [podMalloc, h]

theorem podMalloc_of_some {pod : Pod} {program : Program} (h : pod.program = some program)
    (size : UInt32) : (podMalloc size pod).1 = .ok (firstAddress size program) := by
  simp only [podMalloc, h, PodMalloc.Program.malloc_eq, alloc_fst, firstAddress]

theorem podMalloc_allocator {pod : Pod} {program : Program} (h : pod.program = some program)
    (size : UInt32) : allocator (podMalloc size pod).2 = allocator pod ↔ Full size program := by
  simp only [podMalloc, h, PodMalloc.Program.malloc_eq, allocator, Option.map_some,
    Option.some.injEq, alloc_snd_eq_iff, Full]

def loaded (pod : Pod) : Bool := pod.program.isSome

/-- Some pod has no program, and the allocation takes nothing from the pods before it. -/
structure StopsUntaken (pods : List Pod) (size : UInt32) : Prop where
  stops : ∃ pod ∈ pods, pod.program = none
  untaken : ∀ pod ∈ pods.takeWhile loaded, ∀ program ∈ pod.program, Full size program

/-- All pods have a program, and hand out the same address next. -/
def SameNext (pods : List Pod) (size : UInt32) : Prop :=
  ∃ eva, ∀ pod ∈ pods, ∃ program ∈ pod.program, firstAddress size program = eva

def KeptOnError (pods : List Pod) (size : UInt32) : Prop :=
  ∀ e, (deviceMalloc pods size).1 = .error e →
    (deviceMalloc pods size).2.map allocator = pods.map allocator

variable {pods : List Pod} {size : UInt32}

theorem exists_split (h : ∃ pod ∈ pods, pod.program = none) :
    ∃ before pod after, pods = before ++ pod :: after ∧ pod.program = none ∧
      (∀ p ∈ before, ∃ program, p.program = some program) ∧
      pods.takeWhile loaded = before := by
  induction pods with
  | nil =>
    obtain ⟨pod, hp, -⟩ := h
    cases hp
  | cons q pods ih =>
    cases hq : q.program with
    | none =>
      refine ⟨[], q, pods, rfl, hq, fun p hp => (by cases hp), ?_⟩
      simp only [List.takeWhile, loaded, hq, Option.isSome_none]
    | some program =>
      obtain ⟨pod, hp, hnone⟩ := h
      have hmem : pod ∈ pods := by
        rcases List.mem_cons.mp hp with rfl | hp
        · rw [hq] at hnone
          cases hnone
        · exact hp
      obtain ⟨before, pod, after, rfl, hpod, hbefore, htake⟩ := ih ⟨pod, hmem, hnone⟩
      refine ⟨q :: before, pod, after, rfl, hpod, ?_, ?_⟩
      · intro p hp
        rcases List.mem_cons.mp hp with rfl | hp
        · exact ⟨program, hq⟩
        · exact hbefore p hp
      · simp only [List.takeWhile_cons, loaded, hq, Option.isSome_some, if_true, htake]

/-- A pod without a program ends the call. The pods before it have served the request. -/
theorem deviceMalloc_split {before after : List Pod} {pod : Pod} (hpod : pod.program = none)
    (hbefore : ∀ p ∈ before, ∃ program, p.program = some program) :
    deviceMalloc (before ++ pod :: after) size =
      (.error .invalid, (before.map fun p => (podMalloc size p).2) ++ pod :: after) := by
  have hnone := podMalloc_of_none hpod size
  have hloop := @foreachPod_error _ (podMalloc size) before after pod .invalid
    (fun p hp => by
      obtain ⟨program, hprogram⟩ := hbefore p hp
      exact ⟨_, podMalloc_of_some hprogram size⟩)
    (by rw [hnone])
  rw [hnone] at hloop
  simp only [deviceMalloc, hloop]

theorem keptOnError_of_split {before after : List Pod} {pod : Pod} (hpod : pod.program = none)
    (hbefore : ∀ p ∈ before, ∃ program, p.program = some program) :
    KeptOnError (before ++ pod :: after) size ↔
      ∀ p ∈ before, ∀ program ∈ p.program, Full size program := by
  have hkept : KeptOnError (before ++ pod :: after) size ↔
      ∀ p ∈ before, allocator (podMalloc size p).2 = allocator p := by
    simp only [KeptOnError, deviceMalloc_split hpod hbefore, Except.error.injEq, forall_eq',
      List.map_append, List.map_map, List.append_left_inj, List.map_inj_left,
      Function.comp_apply]
  rw [hkept]
  refine forall₂_congr fun p hp => ?_
  obtain ⟨program, hprogram⟩ := hbefore p hp
  rw [podMalloc_allocator hprogram, hprogram]
  simp only [Option.mem_def, Option.some.injEq, forall_eq']

def addressOf (size : UInt32) (pod : Pod) : UInt32 :=
  (pod.program.map (firstAddress size)).getD 0

theorem addressOf_some {pod : Pod} {program : Program} (h : pod.program = some program) :
    addressOf size pod = firstAddress size program := by
  simp only [addressOf, h, Option.map_some, Option.getD_some]

theorem foreachPod_loaded (h : ∀ pod ∈ pods, ∃ program, pod.program = some program) :
    foreachPod (podMalloc size) pods =
      (.ok (pods.map (addressOf size)), pods.map fun pod => (podMalloc size pod).2) := by
  apply foreachPod_map
  intro pod hp
  obtain ⟨program, hprogram⟩ := h pod hp
  rw [podMalloc_of_some hprogram, addressOf_some hprogram]

theorem sameNext_of_full (h : ∀ pod ∈ pods, ∃ program, pod.program = some program)
    (hfull : ∀ pod ∈ pods, ∀ program ∈ pod.program, Full size program) : SameNext pods size := by
  refine ⟨UInt32.ofNat MemoryManager.null, ?_⟩
  intro pod hp
  obtain ⟨program, hprogram⟩ := h pod hp
  have hnone := hfull pod hp program hprogram
  unfold Full at hnone
  refine ⟨program, hprogram, ?_⟩
  simp only [firstAddress, hnone, Option.map_none, Option.getD_none]

theorem keptOnError_of_loaded (h : ∀ pod ∈ pods, ∃ program, pod.program = some program) :
    KeptOnError pods size ↔ SameNext pods size := by
  have hloop := @foreachPod_loaded pods size h
  cases pods with
  | nil =>
    refine iff_of_true ?_ ⟨0, fun pod hp => (by cases hp)⟩
    intro e _
    rfl
  | cons pod pods =>
    rw [List.map_cons] at hloop
    by_cases hall : (pods.map (addressOf size)).all (fun tmp => addressOf size pod = tmp) = true
    · refine iff_of_true ?_ ⟨addressOf size pod, ?_⟩
      · intro e he
        simp only [deviceMalloc, hloop, hall, if_true, reduceCtorEq] at he
      · intro p hp
        obtain ⟨program, hprogram⟩ := h p hp
        refine ⟨program, hprogram, ?_⟩
        rw [← addressOf_some hprogram]
        rcases List.mem_cons.mp hp with rfl | hp
        · rfl
        · rw [List.all_eq_true] at hall
          have heq := hall (addressOf size p) (List.mem_map_of_mem hp)
          exact (of_decide_eq_true heq).symm
    · have hfail : deviceMalloc (pod :: pods) size =
          (.error .fail, (pod :: pods).map fun pod => (podMalloc size pod).2) := by
        simp only [deviceMalloc, hloop, hall, Bool.false_eq_true, if_false]
      have hdiffer : ¬ SameNext (pod :: pods) size := by
        rintro ⟨eva, heva⟩
        have haddress : ∀ p ∈ pod :: pods, addressOf size p = eva := by
          intro p hp
          obtain ⟨program, hprogram, he⟩ := heva p hp
          rw [addressOf_some hprogram, he]
        apply hall
        rw [List.all_eq_true]
        intro tmp ht
        obtain ⟨p, hp, rfl⟩ := List.mem_map.mp ht
        rw [haddress p (List.mem_cons_of_mem pod hp), haddress pod List.mem_cons_self]
        exact decide_eq_true rfl
      refine iff_of_false (fun hkept => hdiffer (sameNext_of_full h ?_)) hdiffer
      have hmap := hkept .fail (by rw [hfail])
      rw [hfail, List.map_map, List.map_inj_left] at hmap
      intro p hp program hprogram
      exact (podMalloc_allocator hprogram size).mp (hmap p hp)

/-- A failing call leaves the allocators as they were exactly when it stops at a pod without a
program before any block is taken; where all pods have one, only when it does not fail. -/
theorem keptOnError_iff (pods : List Pod) (size : UInt32) :
    KeptOnError pods size ↔ StopsUntaken pods size ∨ SameNext pods size := by
  by_cases hstop : ∃ pod ∈ pods, pod.program = none
  · have hsame : ¬ SameNext pods size := by
      rintro ⟨eva, heva⟩
      obtain ⟨pod, hp, hnone⟩ := hstop
      obtain ⟨program, hprogram, -⟩ := heva pod hp
      rw [hnone] at hprogram
      cases hprogram
    rw [or_iff_left hsame]
    obtain ⟨before, pod, after, hsplit, hpod, hbefore, htake⟩ := exists_split hstop
    have hkept := @keptOnError_of_split size before after pod hpod hbefore
    rw [← hsplit, ← htake] at hkept
    rw [hkept]
    exact ⟨fun h => ⟨hstop, h⟩, fun h => h.untaken⟩
  · have hloaded : ∀ pod ∈ pods, ∃ program, pod.program = some program := by
      intro pod hp
      apply Option.ne_none_iff_exists'.mp
      exact fun hnone => hstop ⟨pod, hp, hnone⟩
    have huntaken : ¬ StopsUntaken pods size := fun h => hstop h.stops
    rw [or_iff_right huntaken]
    exact keptOnError_of_loaded hloaded

def poolPod (free : List Block) : Pod :=
  { TileOwnership.smallPod with
    program := some ⟨0x80000000, ⟨4096, 0x80000080, 128, 4, 4096, free, []⟩⟩ }

theorem not_keptOnError {e : Errno} (he : (deviceMalloc pods size).1 = .error e)
    (h : (deviceMalloc pods size).2.map allocator ≠ pods.map allocator) :
    ¬ KeptOnError pods size := fun hkept => h (hkept e he)

/-- The second pod has no program, or its free block lies elsewhere, or it has none. Each time
the first pod keeps the block that it gave. -/
theorem malloc_takes_before_failing :
    ¬ KeptOnError [poolPod [⟨0x80000080, 4096⟩], KernelsExecute.unloadedPod ⟨1, 0⟩] 4 ∧
    ¬ KeptOnError [poolPod [⟨0x80000080, 4096⟩], poolPod [⟨0x80000100, 128⟩]] 4 ∧
    ¬ KeptOnError [poolPod [⟨0x80000080, 4096⟩], poolPod []] 4 := by
  refine ⟨?_, ?_, ?_⟩
  · exact @not_keptOnError _ _ .invalid (by decide) (by decide)
  · exact @not_keptOnError _ _ .fail (by decide) (by decide)
  · exact @not_keptOnError _ _ .fail (by decide) (by decide)

end ReplicatedMalloc
