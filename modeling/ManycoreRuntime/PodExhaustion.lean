import ManycoreRuntime.PodPool
import Mathlib.Data.List.Pairwise

/-! # An exhausted pool

When the pool of a pod can serve a request, and what an allocation returns when it cannot. -/
namespace PodExhaustion

open Configuration (Config)
open MemoryManager
open PodMalloc PodPool
open Machines (Machine)

/-- No block of the list begins where a block of the list ends. -/
def Merged (blocks : List Block) : Prop :=
  ∀ b ∈ blocks, ∀ c ∈ blocks, 0 < c.size → b.first + b.size ≠ c.first

section Blocks

variable {blocks : List Block} {b c : Block}

theorem eq_of_holds (h : ∀ x, cover blocks x ≤ 1) (hb : b ∈ blocks) (hc : c ∈ blocks) {x : ℕ}
    (hxb : Holds x b) (hxc : Holds x c) : b = c := by
  by_contra hne
  have hsymm : Std.Symm fun b c : Block => ∀ x, ¬ (Holds x b ∧ Holds x c) :=
    ⟨fun _ _ hno x hx => hno x hx.symm⟩
  exact (apart_of_cover_le h).forall hb hc hne x ⟨hxb, hxc⟩

theorem merged_of_gaps (h : blocks.Pairwise fun b c => b.first + b.size < c.first) :
    Merged blocks := by
  intro b hb c hc hpos htouch
  have hsymm : Std.Symm fun b c : Block =>
      b.first + b.size < c.first ∨ c.first + c.size < b.first := ⟨fun _ _ hor => hor.symm⟩
  by_cases hbc : b = c
  · subst hbc
    omega
  · have hor := (h.imp (S := fun b c : Block =>
      b.first + b.size < c.first ∨ c.first + c.size < b.first) Or.inl).forall hb hc hbc
    omega

theorem mergeAdjacent_gaps (h : blocks.Pairwise fun b c => b.first + b.size ≤ c.first) :
    (mergeAdjacent blocks).Pairwise fun b c => b.first + b.size < c.first := by
  induction blocks using mergeAdjacent.induct with
  | case1 =>
    rw [mergeAdjacent]
    exact List.Pairwise.nil
  | case2 b =>
    rw [mergeAdjacent]
    exact List.pairwise_singleton _ _
  | case3 curr next rest hgap ih =>
    obtain ⟨hcurr, hnext⟩ := List.pairwise_cons.mp h
    rw [mergeAdjacent, if_pos hgap]
    refine List.Pairwise.cons (fun c hc => ?_) (ih hnext)
    obtain ⟨b, hb, he⟩ := mergeAdjacent_first hc
    have hle := hcurr next List.mem_cons_self
    rw [he]
    rcases List.mem_cons.mp hb with rfl | hb
    · omega
    · have hrest := (List.pairwise_cons.mp hnext).1 b hb
      omega
  | case4 curr next rest hgap ih =>
    obtain ⟨hcurr, hnext⟩ := List.pairwise_cons.mp h
    obtain ⟨hend, hrest⟩ := List.pairwise_cons.mp hnext
    rw [mergeAdjacent, if_neg hgap]
    refine ih (List.Pairwise.cons (fun c hc => ?_) hrest)
    have hle := hend c hc
    simp only
    omega

theorem mergeAdjacent_pos (h : ∀ b ∈ blocks, 0 < b.size) :
    ∀ b ∈ mergeAdjacent blocks, 0 < b.size := by
  induction blocks using mergeAdjacent.induct with
  | case1 =>
    rw [mergeAdjacent]
    exact h
  | case2 b =>
    rw [mergeAdjacent]
    exact h
  | case3 curr next rest hgap ih =>
    obtain ⟨hcurr, hrest⟩ := List.forall_mem_cons.mp h
    rw [mergeAdjacent, if_pos hgap]
    exact List.forall_mem_cons.mpr ⟨hcurr, ih hrest⟩
  | case4 curr next rest hgap ih =>
    obtain ⟨hcurr, hnext⟩ := List.forall_mem_cons.mp h
    rw [mergeAdjacent, if_neg hgap]
    exact ih (List.forall_mem_cons.mpr
      ⟨Nat.add_pos_left hcurr _, (List.forall_mem_cons.mp hnext).2⟩)

theorem coalesce_pos (h : ∀ b ∈ blocks, 0 < b.size) : ∀ b ∈ coalesce blocks, 0 < b.size :=
  mergeAdjacent_pos fun b hb => h b (List.mem_mergeSort.mp hb)

/-- Blocks that are sorted, and neither empty nor overlapping, follow one another. -/
theorem coalesce_merged (hcover : ∀ x, cover blocks x ≤ 1) (hpos : ∀ b ∈ blocks, 0 < b.size) :
    Merged (coalesce blocks) := by
  have hsorted : (blocks.mergeSort blockLe).Pairwise fun b c => blockLe b c = true := by
    refine List.pairwise_mergeSort (fun a b c hab hbc => ?_) (fun a b => ?_) blocks
    · simp only [blockLe, Bool.or_eq_true, Bool.and_eq_true, decide_eq_true_eq, beq_iff_eq] at *
      omega
    · simp only [blockLe, Bool.or_eq_true, Bool.and_eq_true, decide_eq_true_eq, beq_iff_eq] at *
      omega
  have hapart : (blocks.mergeSort blockLe).Pairwise
      fun b c => ∀ x, ¬ (Holds x b ∧ Holds x c) := by
    refine apart_of_cover_le fun x => ?_
    rw [cover_perm (List.mergeSort_perm blocks _)]
    exact hcover x
  refine merged_of_gaps (mergeAdjacent_gaps ?_)
  refine (hsorted.and hapart).imp_of_mem ?_
  rintro b c hb hc ⟨hle, hno⟩
  have hb := hpos b (List.mem_mergeSort.mp hb)
  have hc := hpos c (List.mem_mergeSort.mp hc)
  simp only [blockLe, Bool.or_eq_true, Bool.and_eq_true, decide_eq_true_eq, beq_iff_eq] at hle
  have hfirst := hno c.first
  unfold Holds at hfirst
  omega

/-- A run of bytes that blocks without contact hold lies in one of them. -/
theorem run_in_block (hcover : ∀ x, cover blocks x ≤ 1) (hmerged : Merged blocks) {lo n : ℕ}
    (hn : 0 < n) (hrun : ∀ x, lo ≤ x → x < lo + n → ∃ b ∈ blocks, Holds x b) :
    ∃ b ∈ blocks, n ≤ b.size := by
  obtain ⟨b, hb, hlo⟩ := hrun lo le_rfl (by omega)
  refine ⟨b, hb, ?_⟩
  unfold Holds at hlo
  by_contra hshort
  -- the byte behind the block is held by a block that must begin before it
  obtain ⟨c, hc, hend⟩ := hrun (b.first + b.size) (by omega) (by omega)
  unfold Holds at hend
  have htouch := hmerged b hb c hc (by omega)
  have hbc := eq_of_holds hcover hb hc (x := b.first + b.size - 1)
    (by unfold Holds; omega) (by unfold Holds; omega)
  rw [hbc] at hend
  omega

theorem firstFit_eq_none {size : ℕ} :
    firstFit blocks size = none ↔ ∀ b ∈ blocks, b.size < size := by
  simp only [firstFit, List.find?_eq_none, decide_eq_true_eq, not_le]

theorem exists_firstFit {size : ℕ} :
    (∃ b, firstFit blocks size = some b) ↔ ∃ b ∈ blocks, size ≤ b.size := by
  rw [← Option.isSome_iff_exists, ← Option.ne_none_iff_isSome, ne_eq, firstFit_eq_none]
  simp only [not_forall, not_lt, exists_prop]

end Blocks

/-- No live block is empty, and only an empty pool has an empty free block. -/
structure Solid (m : Manager) : Prop extends Partition m where
  sized : ∀ b ∈ m.freeBufferList, 0 < m.size → 0 < b.size
  live : ∀ b ∈ m.busyBufferList, 0 < b.size

section Pools

variable {m : Manager}

theorem held_le (x first size : ℕ) : held x first size ≤ 1 := by
  unfold held
  split <;> omega

theorem Solid.freeCover (h : Solid m) (x : ℕ) : cover m.freeBufferList x ≤ 1 := by
  have hc := h.cover x
  have hle := held_le x m.start m.size
  omega

theorem Solid.pos_of_holds (h : Solid m) {b : Block} (hb : b ∈ m.freeBufferList) {x : ℕ}
    (hx : Holds x b) : 0 < m.size := by
  have hc := h.cover x
  have hpos : 0 < MemoryManager.cover m.freeBufferList x := cover_pos_iff.mpr ⟨b, hb, hx⟩
  unfold held at hc
  split at hc <;> omega

theorem init_solid {size start alignment : ℕ} (ha : 0 < alignment)
    (h : init size start alignment = some m) : Solid m := by
  refine ⟨init_partition ha h, ?_, ?_⟩
  · unfold init at h
    split at h
    · cases h
      intro b hb hpos
      rcases List.mem_singleton.mp hb with rfl
      exact hpos
    · cases h
  · unfold init at h
    split at h
    · cases h
      intro b hb
      cases hb
    · cases h

theorem init_merged {size start alignment : ℕ} (h : init size start alignment = some m) :
    Merged m.freeBufferList := by
  unfold init at h
  split at h
  · cases h
    intro b hb c hc hpos
    rcases List.mem_singleton.mp hb with rfl
    rcases List.mem_singleton.mp hc with rfl
    simp only at hpos ⊢
    omega
  · cases h

theorem alloc_solid (h : Solid m) (size : ℕ) : Solid (alloc m size).2 := by
  have hpart := alloc_partition h.toPartition size
  cases hf : firstFit m.freeBufferList (blockSize m size) with
  | none =>
    rw [alloc_of_none hf]
    exact h
  | some b =>
    rw [alloc_of_some hf] at hpart ⊢
    refine ⟨hpart, fun c hc hpos => ?_, fun c hc => ?_⟩
    · rcases mem_takeFit hf hc with hc | ⟨hlt, rfl⟩
      · exact h.sized c hc hpos
      · exact Nat.sub_pos_of_lt hlt
    · rcases List.mem_append.mp hc with hc | hc
      · exact h.live c hc
      · rcases List.mem_singleton.mp hc with rfl
        exact blockSize_pos h.alignment size

theorem Solid.freed (h : Solid m) {buf : ℕ} {b : Block} (hf : find m buf = some b) :
    (∀ x, MemoryManager.cover (m.freeBufferList ++ [b]) x ≤ 1) ∧
      ∀ c ∈ m.freeBufferList ++ [b], 0 < m.size → 0 < c.size := by
  refine ⟨fun x => ?_, fun c hc hpos => ?_⟩
  · have hc := h.cover x
    rw [cover_perm (find_perm hf), cover_cons] at hc
    have hle := held_le x m.start m.size
    rw [cover_append, cover_cons, cover_nil]
    omega
  · rcases List.mem_append.mp hc with hc | hc
    · exact h.sized c hc hpos
    · rcases List.mem_singleton.mp hc with rfl
      exact h.live c (List.mem_of_find?_eq_some hf)

theorem free_solid (h : Solid m) (buf : ℕ) : Solid (free m buf) := by
  have hpart := free_partition h.toPartition buf
  cases hf : find m buf with
  | none =>
    simp only [free, hf]
    exact h
  | some b =>
    obtain ⟨-, hfreed⟩ := h.freed hf
    simp only [free, hf] at hpart ⊢
    refine ⟨hpart, fun c hc hpos => ?_, fun c hc => h.live c (List.mem_of_mem_eraseP hc)⟩
    simp only at hc
    split at hc
    · exact coalesce_pos (fun d hd => hfreed d hd hpos) c hc
    · exact hfreed c hc hpos

theorem free_merged (h : Solid m) {buf : ℕ} {b : Block} (hf : find m buf = some b)
    (hmany : m.coalesceThreshold ≤ m.freeBufferList.length) :
    Merged (free m buf).freeBufferList := by
  obtain ⟨hcover, hsized⟩ := h.freed hf
  have hlen : (m.freeBufferList ++ [b]).length > m.coalesceThreshold := by
    rw [List.length_append, List.length_singleton]
    omega
  simp only [free, hf, hlen, if_true]
  by_cases hpos : 0 < m.size
  · exact coalesce_merged hcover fun c hc => hsized c hc hpos
  · -- an empty pool has no bytes to touch
    intro c _ d hd hd' _
    have hin := (free_partition h.toPartition buf).cover d.first
    have hd : d ∈ (free m buf).freeBufferList := by
      simp only [free, hf, hlen, if_true]
      exact hd
    have hone : 0 < cover (free m buf).freeBufferList d.first :=
      cover_pos_iff.mpr ⟨d, hd, le_rfl, by omega⟩
    obtain ⟨hsize, -, -⟩ := free_samePool m buf
    rw [held, hsize, if_neg (by omega)] at hin
    omega

theorem alloc_merged (h : Solid m) (hmerged : Merged m.freeBufferList) (size : ℕ) :
    Merged (alloc m size).2.freeBufferList := by
  cases hf : firstFit m.freeBufferList (blockSize m size) with
  | none =>
    rw [alloc_of_none hf]
    exact hmerged
  | some b =>
    rw [alloc_of_some hf]
    have hb := (firstFit_some hf).1
    have hbs := blockSize_pos h.alignment size
    intro c hc d hd hpos htouch
    rcases mem_takeFit hf hc with hc | ⟨hlt, rfl⟩
    · rcases mem_takeFit hf hd with hd | ⟨hlt, rfl⟩
      · exact hmerged c hc d hd hpos htouch
      · -- the block would reach into the one that was cut
        simp only at htouch
        have hfull : 0 < m.size := h.pos_of_holds hb (x := b.first) ⟨le_rfl, by omega⟩
        have hc0 := h.sized c hc hfull
        have hcb := eq_of_holds h.freeCover hc hb (x := c.first + c.size - 1)
          ⟨by omega, by omega⟩ ⟨by omega, by omega⟩
        rw [hcb] at htouch
        omega
    · simp only at htouch
      rcases mem_takeFit hf hd with hd | ⟨hlt', rfl⟩
      · exact hmerged b hb d hd hpos (by omega)
      · simp only at htouch
        omega

def FreeRun (m : Manager) (lo n : ℕ) : Prop :=
  m.start ≤ lo ∧ lo + n ≤ m.start + m.size ∧
    ∀ x, lo ≤ x → x < lo + n → ∀ b ∈ m.busyBufferList, ¬ Holds x b

theorem FreeRun.entry {lo n : ℕ} (hrun : FreeRun m lo n) (h : Solid m)
    (hmerged : Merged m.freeBufferList) (hn : 0 < n) : ∃ b ∈ m.freeBufferList, n ≤ b.size := by
  obtain ⟨hlo, hhi, hfree⟩ := hrun
  have hheld : ∀ x, lo ≤ x → x < lo + n → ∃ b ∈ m.freeBufferList, Holds x b := by
    intro x hx hx'
    have hbusy : cover m.busyBufferList x = 0 := by
      by_contra hne
      obtain ⟨b, hb, hxb⟩ := cover_pos_iff.mp (Nat.pos_of_ne_zero hne)
      exact hfree x hx hx' b hb hxb
    have hc := h.cover x
    rw [hbusy, held, if_pos (by omega)] at hc
    exact cover_pos_iff.mp (by omega)
  exact run_in_block h.freeCover hmerged hn hheld

end Pools

def SolidProgram (program : Program) : Prop := Solid program.memoryManager

theorem reachable_solid {cfg : Config} {s : State} (h : Transition.Reachable (system cfg) s)
    {podId : ℤ} {pod : Pod} {program : Program}
    (hp : programOf s.pods podId = some (pod, program)) : Solid program.memoryManager := by
  obtain ⟨hc, hprogram⟩ := programOf_eq_some hp
  have hkept : Kept cfg SolidProgram := by
    refine ⟨?_, ?_, fun h eva => free_solid h _⟩
    · intro programEnd program h
      obtain ⟨manager, hpos, hm, rfl⟩ := programAllocatorInit_eq_ok h
      exact init_solid hpos hm
    · intro program h size
      rw [Program.malloc_eq]
      exact alloc_solid h _
  exact reachable_kept hkept h pod (checkPodId_mem hc) program hprogram

def rounded (program : Program) (size : UInt32) : ℕ :=
  blockSize program.memoryManager size.toNat

/-- The allocation returns `eva`, where the block `b` begins, with success, and makes the block
live that was not. -/
structure MakesLive (pods : List Pod) (podId : ℤ) (size eva : UInt32) (b : Block) : Prop where
  holds : size.toNat ≤ b.size
  /-- The address of the block is cut to 32 bits. -/
  address : eva = UInt32.ofNat b.first
  makes : ∃ pod program manager, programOf pods podId = some (pod, program) ∧
    b ∉ program.memoryManager.busyBufferList ∧
    manager.busyBufferList = program.memoryManager.busyBufferList ++ [b] ∧
    podMalloc pods podId size = (.ok eva,
      pods.set podId.toNat { pod with program := some ⟨program.dramEnd, manager⟩ })

section Requests

variable {pods : List Pod} {podId : ℤ} {size : UInt32} {pod : Pod} {program : Program}

theorem le_blockSize (m : Manager) (n : ℕ) : n ≤ blockSize m n := by
  simp only [blockSize]
  split <;> omega

theorem set_program_inj (hp : programOf pods podId = some (pod, program)) {q r : Program}
    (h : pods.set podId.toNat { pod with program := some q } =
      pods.set podId.toNat { pod with program := some r }) : q = r := by
  have hlt := (List.getElem?_eq_some_iff.mp (checkPodId_get (programOf_eq_some hp).1)).1
  have hget := congrArg (fun l : List Pod => l[podId.toNat]?) h
  simp only [List.getElem?_set_self hlt, Option.some.injEq, Pod.mk.injEq, true_and] at hget
  exact hget

/-- A request is served from the first entry of the free list that can hold it. -/
theorem makesLive_iff (h : Solid program.memoryManager)
    (hp : programOf pods podId = some (pod, program)) {eva : UInt32} {b : Block} :
    MakesLive pods podId size eva b ↔ ∃ c,
      firstFit program.memoryManager.freeBufferList (rounded program size) = some c ∧
        b = ⟨c.first, rounded program size⟩ ∧ eva = UInt32.ofNat c.first := by
  have hm := @podMalloc_eq pods podId size pod program hp
  constructor
  · rintro ⟨-, -, pod', program', manager, hp', -, hbusy, he⟩
    rw [hp] at hp'
    cases hp'
    rw [hm, Prod.mk.injEq, Except.ok.injEq] at he
    obtain ⟨heva, hset⟩ := he
    have hmanager := congrArg Program.memoryManager (set_program_inj hp hset)
    simp only at hmanager
    rw [← hmanager] at hbusy
    cases hf : firstFit program.memoryManager.freeBufferList (rounded program size) with
    | none =>
      rw [alloc_of_none hf] at hbusy
      have hlen : program.memoryManager.busyBufferList.length = _ := congrArg List.length hbusy
      rw [List.length_append, List.length_singleton] at hlen
      omega
    | some c =>
      rw [alloc_of_some hf] at hbusy heva
      have hb := List.append_cancel_left hbusy
      exact ⟨c, rfl, (List.singleton_inj.mp hb).symm, heva.symm⟩
  · rintro ⟨c, hc, rfl, rfl⟩
    refine ⟨le_blockSize _ _, rfl, pod, program, (alloc program.memoryManager size.toNat).2, hp,
      ?_, ?_, ?_⟩
    · -- a live block has no bytes in common with a free one
      intro hmem
      have hpos := blockSize_pos h.alignment size.toNat
      obtain ⟨hfree, hle⟩ := firstFit_some hc
      have hcover := h.cover c.first
      have hone := cover_pos_iff.mpr ⟨c, hfree, show Holds c.first c from ⟨le_rfl, by
        simp only [rounded] at hle
        omega⟩⟩
      have htwo := cover_pos_iff.mpr ⟨_, hmem, show Holds c.first ⟨c.first, rounded program size⟩
        from ⟨le_rfl, by
          simp only [rounded]
          omega⟩⟩
      have hle := held_le c.first program.memoryManager.start program.memoryManager.size
      omega
    · rw [alloc_of_some hc]
      rfl
    · rw [hm, alloc_of_some hc]

theorem exists_makesLive (h : Solid program.memoryManager)
    (hp : programOf pods podId = some (pod, program)) :
    (∃ eva b, MakesLive pods podId size eva b) ↔
      ∃ b ∈ program.memoryManager.freeBufferList, rounded program size ≤ b.size := by
  rw [← exists_firstFit]
  constructor
  · rintro ⟨eva, b, hb⟩
    obtain ⟨c, hc, -⟩ := (makesLive_iff h hp).mp hb
    exact ⟨c, hc⟩
  · rintro ⟨c, hc⟩
    exact ⟨_, _, (makesLive_iff h hp).mpr ⟨c, hc, rfl, rfl⟩⟩

/-- Exactly a request that no free block can hold is refused, and changes nothing; any other
request returns the beginning of a block that it makes live. -/
structure Reported (pods : List Pod) (podId : ℤ) (size : UInt32) (program : Program) : Prop where
  refused : (podMalloc pods podId size).1 = .error .nomem ↔
    ∀ b ∈ program.memoryManager.freeBufferList, b.size < rounded program size
  unchanged : (podMalloc pods podId size).1 = .error .nomem → (podMalloc pods podId size).2 = pods
  granted : ∀ eva, (podMalloc pods podId size).1 = .ok eva →
    ∃ b, MakesLive pods podId size eva b ∧ b.first = eva.toNat

theorem reported_iff (h : Solid program.memoryManager)
    (hp : programOf pods podId = some (pod, program)) :
    Reported pods podId size program ↔ ∃ b, firstFit program.memoryManager.freeBufferList
      (rounded program size) = some b ∧ b.first < 2 ^ 32 := by
  have hm := @podMalloc_eq pods podId size pod program hp
  have hsome : (podMalloc pods podId size).1 ≠ .error .nomem := by
    rw [hm]
    exact fun he => by cases he
  constructor
  · rintro ⟨-, -, hgranted⟩
    obtain ⟨b, hb, hfirst⟩ := hgranted _ (by rw [hm])
    obtain ⟨c, hc, rfl, -⟩ := (makesLive_iff h hp).mp hb
    exact ⟨c, hc, by rw [show c.first = _ from hfirst]; exact UInt32.toNat_lt _⟩
  · rintro ⟨c, hc, hlt⟩
    refine ⟨iff_of_false hsome fun hno => ?_, fun he => absurd he hsome, fun eva he => ?_⟩
    · rw [firstFit_eq_none.mpr hno] at hc
      cases hc
    · rw [hm, alloc_of_some hc, Except.ok.injEq] at he
      refine ⟨_, (makesLive_iff h hp).mpr ⟨c, hc, rfl, he.symm⟩, ?_⟩
      rw [← he, UInt32.toNat_ofNat_of_lt' hlt]

end Requests

def twoBlocks (cfg : Config) : State :=
  [Event.programInit 0 (some 0x80000001), .malloc 0 0, .malloc 0 100, .free 0 0x80000080].foldl
    (next cfg) ⟨deviceInit cfg, []⟩

/-- An allocation returns what it should exactly where a free block can hold the request and the
first one that can begins below `2 ^ 32`: exhaustion is never reported. -/
theorem malloc_reported_iff {cfg : Config} {s : State}
    (h : Transition.Reachable (system cfg) s) {podId : ℤ} {pod : Pod} {program : Program}
    (hp : programOf s.pods podId = some (pod, program)) (size : UInt32) :
    Reported s.pods podId size program ↔
      ∃ b, firstFit program.memoryManager.freeBufferList (rounded program size) = some b ∧
        b.first < 2 ^ 32 :=
  reported_iff (reachable_solid h hp) hp

theorem malloc_reported_iff_x16y8 :
    ∃ pod program, programOf (twoBlocks ({} : Machine).config).pods 0 = some (pod, program) ∧
      Reported (twoBlocks ({} : Machine).config).pods 0 100 program := by
  have hrun : (programOf (twoBlocks ({} : Machine).config).pods 0).any (fun found =>
      (firstFit found.2.memoryManager.freeBufferList (rounded found.2 100)).any
        fun b => b.first < 2 ^ 32) = true := by
    decide
  obtain ⟨⟨pod, program⟩, hp, hb⟩ := (Option.any_eq_true _ _).mp hrun
  obtain ⟨b, hb, hlt⟩ := (Option.any_eq_true _ _).mp hb
  exact ⟨pod, program, hp, (malloc_reported_iff (foldl_reachable _ (.initial rfl)) hp 100).mpr
    ⟨b, hb, of_decide_eq_true hlt⟩⟩

/-- No free block of a new pool can hold `2 ^ 32 - 1` bytes; the allocation returns `0xffffffff`
with success and makes nothing live. -/
theorem malloc_reported_fails :
    ∃ s pod program, Transition.Reachable (system ({} : Machine).config) s ∧
      programOf s.pods 0 = some (pod, program) ∧
      (∀ b ∈ program.memoryManager.freeBufferList, b.size < rounded program 0xffffffff) ∧
      (podMalloc s.pods 0 0xffffffff).1 = .ok 0xffffffff ∧
      (podMalloc s.pods 0 0xffffffff).2 = s.pods ∧ ¬ Reported s.pods 0 0xffffffff program := by
  let s : State := next ({} : Machine).config ⟨deviceInit ({} : Machine).config, []⟩
    (.programInit 0 (some 0x80000000))
  have hrun : (programOf s.pods 0).any (fun found =>
      found.2.memoryManager.freeBufferList.all fun b =>
        b.size < rounded found.2 0xffffffff) = true := by
    decide
  obtain ⟨⟨pod, program⟩, hp, hb⟩ := (Option.any_eq_true _ _).mp hrun
  have hsmall : ∀ b ∈ program.memoryManager.freeBufferList, b.size < rounded program 0xffffffff :=
    fun b hmem => of_decide_eq_true (List.all_eq_true.mp hb b hmem)
  refine ⟨s, pod, program, .step (.initial rfl) rfl, hp, hsmall, by decide, by decide, fun h => ?_⟩
  have hrefused := h.refused.mpr hsmall
  rw [podMalloc_eq hp] at hrefused
  cases hrefused

/-- A single entry of the free list must hold a request. Entries that touch are merged only by a
free that leaves more of them than the threshold; while none touch, every request is served for
which there is a run of free bytes. -/
theorem merged_pool_serves {cfg : Config} {s : State}
    (h : Transition.Reachable (system cfg) s) {podId : ℤ} {pod : Pod} {program : Program}
    (hp : programOf s.pods podId = some (pod, program)) :
    (∀ size, (∃ eva b, MakesLive s.pods podId size eva b) ↔
      ∃ b ∈ program.memoryManager.freeBufferList, rounded program size ≤ b.size) ∧
    (Merged program.memoryManager.freeBufferList →
      (∀ size, (∃ lo, FreeRun program.memoryManager lo (rounded program size)) →
        ∃ eva b, MakesLive s.pods podId size eva b) ∧
      (∀ size, program.memoryManager.busyBufferList = [] →
        rounded program size ≤ program.memoryManager.size →
        ∃ eva b, MakesLive s.pods podId size eva b) ∧
      ∀ size, Merged (program.malloc size).2.memoryManager.freeBufferList) ∧
    (∀ eva : UInt32, (find program.memoryManager eva.toNat).isSome →
      program.memoryManager.coalesceThreshold ≤ program.memoryManager.freeBufferList.length →
      Merged (program.free eva).memoryManager.freeBufferList) ∧
    ∀ programEnd new, programAllocatorInit cfg programEnd = .ok new →
      Merged new.memoryManager.freeBufferList := by
  have hsolid := reachable_solid h hp
  have hserves : ∀ size, Merged program.memoryManager.freeBufferList →
      (∃ lo, FreeRun program.memoryManager lo (rounded program size)) →
        ∃ eva b, MakesLive s.pods podId size eva b := by
    rintro size hmerged ⟨lo, hrun⟩
    exact (exists_makesLive hsolid hp).mpr
      (hrun.entry hsolid hmerged (blockSize_pos hsolid.alignment _))
  refine ⟨fun size => exists_makesLive hsolid hp, fun hmerged => ⟨fun size hrun =>
    hserves size hmerged hrun, fun size hbusy hle => hserves size hmerged
      ⟨program.memoryManager.start, le_rfl, by omega, fun x _ _ b hb => ?_⟩, fun size => ?_⟩,
    fun eva hsome hmany => ?_, fun programEnd new hnew => ?_⟩
  · rw [hbusy] at hb
    cases hb
  · rw [Program.malloc_eq]
    exact alloc_merged hsolid hmerged _
  · obtain ⟨b, hb⟩ := Option.isSome_iff_exists.mp hsome
    exact free_merged hsolid hb hmany
  · cases programEnd with
    | none => cases hnew
    | some programEnd =>
      obtain ⟨manager, -, hm, rfl⟩ := programAllocatorInit_eq_ok hnew
      exact init_merged hm

theorem merged_pool_serves_x16y8 :
    ∃ pod program, programOf (twoBlocks ({} : Machine).config).pods 0 = some (pod, program) ∧
      ∃ eva b, MakesLive (twoBlocks ({} : Machine).config).pods 0 4096 eva b := by
  have hrun : (programOf (twoBlocks ({} : Machine).config).pods 0).any (fun found =>
      found.2.memoryManager.freeBufferList.any fun b => rounded found.2 4096 ≤ b.size) = true := by
    decide
  obtain ⟨⟨pod, program⟩, hp, hb⟩ := (Option.any_eq_true _ _).mp hrun
  obtain ⟨b, hb, hle⟩ := List.any_eq_true.mp hb
  exact ⟨pod, program, hp, ((merged_pool_serves (foldl_reachable _ (.initial rfl)) hp).1 4096).mpr
    ⟨b, hb, of_decide_eq_true hle⟩⟩

/-- Every block was freed, and no entry of the free list can hold the pool. -/
theorem free_run_not_served :
    ∃ s pod program, Transition.Reachable (system ({} : Machine).config) s ∧
      programOf s.pods 0 = some (pod, program) ∧ program.memoryManager.busyBufferList = [] ∧
      (∃ lo, FreeRun program.memoryManager lo (rounded program 0x80000000)) ∧
      ¬ ∃ eva b, MakesLive s.pods 0 0x80000000 eva b := by
  let s : State := [Event.programInit 0 (some 0x80000000), .malloc 0 0, .free 0 0x80000080].foldl
    (next ({} : Machine).config) ⟨deviceInit ({} : Machine).config, []⟩
  have hrun : (programOf s.pods 0).any (fun found =>
      found.2.memoryManager.busyBufferList = [] ∧
      rounded found.2 0x80000000 ≤ found.2.memoryManager.size ∧
      ∀ b ∈ found.2.memoryManager.freeBufferList, b.size < rounded found.2 0x80000000) = true := by
    decide
  obtain ⟨⟨pod, program⟩, hp, hb⟩ := (Option.any_eq_true _ _).mp hrun
  obtain ⟨hbusy, hsize, hsmall⟩ := of_decide_eq_true hb
  have hreach : Transition.Reachable (system ({} : Machine).config) s :=
    foldl_reachable _ (.initial rfl)
  refine ⟨s, pod, program, hreach, hp, hbusy, ⟨program.memoryManager.start, le_rfl,
    Nat.add_le_add_left hsize _, fun x _ _ b hmem => ?_⟩, ?_⟩
  · simp only at hbusy
    rw [hbusy] at hmem
    cases hmem
  · rw [exists_makesLive (reachable_solid hreach hp) hp]
    rintro ⟨b, hmem, hle⟩
    exact absurd (hsmall b hmem) (not_lt.mpr hle)

end PodExhaustion
