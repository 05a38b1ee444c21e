import Mathlib.Data.List.Sort
import Mathlib.Tactic.Linarith

/-! # The first-fit memory manager

Free and busy blocks of one pool. Allocation takes the front of the first free block that is
large enough; freed blocks go to the back of the free list, which is sorted and merged once
it grows past a threshold. -/
namespace MemoryManager

structure Block where
  first : ℕ
  size : ℕ
  deriving DecidableEq, Repr

/-- Sums of addresses and sizes stay below `2 ^ 64`: the pool ends below it. -/
structure Manager where
  size : ℕ
  start : ℕ
  alignment : ℕ
  coalesceThreshold : ℕ
  freeSize : ℕ
  freeBufferList : List Block
  busyBufferList : List Block
  deriving DecidableEq, Repr

def null : ℕ := 0xffffffffffffffff

def init (size start alignment : ℕ) : Option Manager :=
  if start % alignment = 0 then some {
    size := size
    start := start
    alignment := alignment
    coalesceThreshold := 4
    freeSize := size
    freeBufferList := [⟨start, size⟩]
    busyBufferList := [] }
  else none

/-- The size of a block for a request: at least the alignment, and a multiple of it. -/
def blockSize (m : Manager) (size : ℕ) : ℕ :=
  let size := if size = 0 then m.alignment else size
  let mod_size := size % m.alignment
  size + if mod_size > 0 then m.alignment - mod_size else 0

def firstFit (blocks : List Block) (size : ℕ) : Option Block :=
  blocks.find? fun b => size ≤ b.size

def takeFit (size : ℕ) : List Block → List Block
  | [] => []
  | b :: rest =>
    if b.size < size then b :: takeFit size rest
    else if b.size > size then ⟨b.first + size, b.size - size⟩ :: rest
    else rest

def alloc (m : Manager) (size : ℕ) : ℕ × Manager :=
  let size := blockSize m size
  match firstFit m.freeBufferList size with
  | none => (null, m)
  | some b => (b.first, { m with
      freeBufferList := takeFit size m.freeBufferList
      busyBufferList := m.busyBufferList ++ [⟨b.first, size⟩]
      freeSize := m.freeSize - size })

def blockLe (a b : Block) : Bool := a.first < b.first || a.first == b.first && a.size ≤ b.size

def mergeAdjacent : List Block → List Block
  | [] => []
  | [b] => [b]
  | curr :: next :: rest =>
    if curr.first + curr.size ≠ next.first then curr :: mergeAdjacent (next :: rest)
    else mergeAdjacent (⟨curr.first, curr.size + next.size⟩ :: rest)
  termination_by blocks => blocks.length

def coalesce (blocks : List Block) : List Block := mergeAdjacent (blocks.mergeSort blockLe)

def find (m : Manager) (buf : ℕ) : Option Block := m.busyBufferList.find? fun b => b.first = buf

def free (m : Manager) (buf : ℕ) : Manager :=
  match find m buf with
  | none => m
  | some b =>
    let blocks := m.freeBufferList ++ [b]
    { m with
      freeSize := m.freeSize + b.size
      busyBufferList := m.busyBufferList.eraseP fun b => b.first = buf
      freeBufferList := if blocks.length > m.coalesceThreshold then coalesce blocks else blocks }

def Inside (lo hi : ℕ) (b : Block) : Prop := lo ≤ b.first ∧ b.first + b.size ≤ hi

theorem takeFit_inside {lo hi size : ℕ} {blocks : List Block}
    (h : ∀ b ∈ blocks, Inside lo hi b) : ∀ b ∈ takeFit size blocks, Inside lo hi b := by
  induction blocks with
  | nil => exact h
  | cons b rest ih =>
    have hb := h b List.mem_cons_self
    have hrest : ∀ c ∈ rest, Inside lo hi c := fun c hc => h c (List.mem_cons_of_mem b hc)
    intro c hc
    by_cases hlt : b.size < size
    · rw [takeFit, if_pos hlt] at hc
      rcases List.mem_cons.mp hc with rfl | hc
      · exact hb
      · exact ih hrest c hc
    · rw [takeFit, if_neg hlt] at hc
      by_cases hgt : b.size > size
      · rw [if_pos hgt] at hc
        rcases List.mem_cons.mp hc with rfl | hc
        · unfold Inside at hb ⊢
          simp only
          omega
        · exact hrest c hc
      · rw [if_neg hgt] at hc
        exact hrest c hc

theorem mergeAdjacent_inside {lo hi : ℕ} {blocks : List Block}
    (h : ∀ b ∈ blocks, Inside lo hi b) : ∀ b ∈ mergeAdjacent blocks, Inside lo hi b := by
  induction blocks using mergeAdjacent.induct with
  | case1 => simp [mergeAdjacent]
  | case2 b => simpa [mergeAdjacent] using h
  | case3 curr next rest hgap ih =>
    rw [mergeAdjacent, if_pos hgap]
    intro b hb
    rcases List.mem_cons.mp hb with rfl | hb
    · exact h b List.mem_cons_self
    · exact ih (fun c hc => h c (List.mem_cons_of_mem curr hc)) b hb
  | case4 curr next rest hgap ih =>
    rw [mergeAdjacent, if_neg hgap]
    apply ih
    intro b hb
    rcases List.mem_cons.mp hb with rfl | hb
    · have hcurr := h curr List.mem_cons_self
      have hnext := h next (List.mem_cons_of_mem _ List.mem_cons_self)
      unfold Inside at hcurr hnext ⊢
      simp only
      omega
    · exact h b (List.mem_cons_of_mem _ (List.mem_cons_of_mem _ hb))

theorem coalesce_inside {lo hi : ℕ} {blocks : List Block}
    (h : ∀ b ∈ blocks, Inside lo hi b) : ∀ b ∈ coalesce blocks, Inside lo hi b := by
  apply mergeAdjacent_inside
  intro b hb
  exact h b (List.mem_mergeSort.mp hb)

structure Bounded (m : Manager) : Prop where
  free : ∀ b ∈ m.freeBufferList, Inside m.start (m.start + m.size) b
  busy : ∀ b ∈ m.busyBufferList, Inside m.start (m.start + m.size) b

def SamePool (m m' : Manager) : Prop :=
  m'.size = m.size ∧ m'.start = m.start ∧ m'.alignment = m.alignment

theorem init_bounded {size start alignment : ℕ} {m : Manager}
    (h : init size start alignment = some m) :
    Bounded m ∧ m.size = size ∧ m.start = start ∧ m.alignment = alignment := by
  unfold init at h
  split at h
  · cases h
    refine ⟨⟨?_, ?_⟩, rfl, rfl, rfl⟩
    · intro b hb
      rcases List.mem_singleton.mp hb with rfl
      exact ⟨le_rfl, le_rfl⟩
    · intro b hb
      cases hb
  · cases h

theorem firstFit_some {blocks : List Block} {size : ℕ} {b : Block}
    (h : firstFit blocks size = some b) : b ∈ blocks ∧ size ≤ b.size := by
  have hp := List.find?_some h
  exact ⟨List.mem_of_find?_eq_some h, of_decide_eq_true hp⟩

theorem alloc_of_none {m : Manager} {size : ℕ}
    (h : firstFit m.freeBufferList (blockSize m size) = none) : alloc m size = (null, m) := by
  simp only [alloc, h]

theorem alloc_of_some {m : Manager} {size : ℕ} {b : Block}
    (h : firstFit m.freeBufferList (blockSize m size) = some b) :
    alloc m size = (b.first, { m with
      freeBufferList := takeFit (blockSize m size) m.freeBufferList
      busyBufferList := m.busyBufferList ++ [⟨b.first, blockSize m size⟩]
      freeSize := m.freeSize - blockSize m size }) := by
  simp only [alloc, h]

theorem alloc_samePool (m : Manager) (size : ℕ) : SamePool m (alloc m size).2 := by
  cases hf : firstFit m.freeBufferList (blockSize m size) with
  | none =>
    rw [alloc_of_none hf]
    exact ⟨rfl, rfl, rfl⟩
  | some b =>
    rw [alloc_of_some hf]
    exact ⟨rfl, rfl, rfl⟩

theorem free_samePool (m : Manager) (buf : ℕ) : SamePool m (free m buf) := by
  cases hf : find m buf with
  | none =>
    simp only [free, hf]
    exact ⟨rfl, rfl, rfl⟩
  | some b =>
    simp only [free, hf]
    exact ⟨rfl, rfl, rfl⟩

theorem alloc_bounded {m : Manager} (h : Bounded m) (size : ℕ) : Bounded (alloc m size).2 := by
  cases hf : firstFit m.freeBufferList (blockSize m size) with
  | none =>
    rw [alloc_of_none hf]
    exact h
  | some b =>
    rw [alloc_of_some hf]
    obtain ⟨hmem, hsize⟩ := firstFit_some hf
    refine ⟨takeFit_inside h.free, ?_⟩
    intro c hc
    rcases List.mem_append.mp hc with hc | hc
    · exact h.busy c hc
    · rcases List.mem_singleton.mp hc with rfl
      have hb := h.free b hmem
      unfold Inside at hb ⊢
      simp only
      omega

theorem free_bounded {m : Manager} (h : Bounded m) (buf : ℕ) : Bounded (free m buf) := by
  cases hf : find m buf with
  | none =>
    simp only [free, hf]
    exact h
  | some b =>
    simp only [free, hf]
    have hb := h.busy b (List.mem_of_find?_eq_some hf)
    have happ : ∀ c ∈ m.freeBufferList ++ [b], Inside m.start (m.start + m.size) c := by
      intro c hc
      rcases List.mem_append.mp hc with hc | hc
      · exact h.free c hc
      · rcases List.mem_singleton.mp hc with rfl
        exact hb
    refine ⟨?_, fun c hc => h.busy c (List.mem_of_mem_eraseP hc)⟩
    intro c hc
    simp only at hc
    split at hc
    · exact coalesce_inside happ c hc
    · exact happ c hc

section Starts

variable {blocks : List Block} {b c : Block} {m : Manager} {limit : ℕ}

theorem mem_takeFit {size : ℕ} (h : firstFit blocks size = some b) (hc : c ∈ takeFit size blocks) :
    c ∈ blocks ∨ size < b.size ∧ c = ⟨b.first + size, b.size - size⟩ := by
  induction blocks with
  | nil => cases h
  | cons d rest ih =>
    rw [takeFit] at hc
    by_cases hlt : d.size < size
    · rw [firstFit, List.find?_cons_of_neg (by simpa using hlt)] at h
      rw [if_pos hlt] at hc
      rcases List.mem_cons.mp hc with rfl | hc
      · exact Or.inl List.mem_cons_self
      · exact (ih h hc).imp_left (List.mem_cons_of_mem d)
    · rw [firstFit, List.find?_cons_of_pos (by simpa using hlt)] at h
      cases h
      rw [if_neg hlt] at hc
      split at hc
      · next hgt =>
        rcases List.mem_cons.mp hc with rfl | hc
        · exact Or.inr ⟨hgt, rfl⟩
        · exact Or.inl (List.mem_cons_of_mem _ hc)
      · exact Or.inl (List.mem_cons_of_mem _ hc)

theorem mergeAdjacent_first (h : c ∈ mergeAdjacent blocks) : ∃ b ∈ blocks, c.first = b.first := by
  induction blocks using mergeAdjacent.induct with
  | case1 =>
    rw [mergeAdjacent] at h
    cases h
  | case2 b =>
    rw [mergeAdjacent] at h
    exact ⟨c, h, rfl⟩
  | case3 curr next rest hgap ih =>
    rw [mergeAdjacent, if_pos hgap] at h
    rcases List.mem_cons.mp h with rfl | h
    · exact ⟨c, List.mem_cons_self, rfl⟩
    · obtain ⟨b, hb, he⟩ := ih h
      exact ⟨b, List.mem_cons_of_mem curr hb, he⟩
  | case4 curr next rest hgap ih =>
    rw [mergeAdjacent, if_neg hgap] at h
    obtain ⟨b, hb, he⟩ := ih h
    rcases List.mem_cons.mp hb with rfl | hb
    · exact ⟨curr, List.mem_cons_self, he⟩
    · exact ⟨b, List.mem_cons_of_mem _ (List.mem_cons_of_mem _ hb), he⟩

structure StartsBy (limit : ℕ) (m : Manager) : Prop where
  free : ∀ b ∈ m.freeBufferList, b.first ≤ limit
  busy : ∀ b ∈ m.busyBufferList, b.first ≤ limit

theorem init_startsBy {size start alignment : ℕ} (hle : start ≤ limit)
    (h : init size start alignment = some m) : StartsBy limit m := by
  unfold init at h
  split at h
  · cases h
    refine ⟨fun b hb => ?_, fun b hb => by cases hb⟩
    rcases List.mem_singleton.mp hb with rfl
    exact hle
  · cases h

theorem alloc_startsBy (h : StartsBy limit m) {size : ℕ}
    (hb : firstFit m.freeBufferList (blockSize m size) = some b)
    (hend : b.first + blockSize m size ≤ limit) : StartsBy limit (alloc m size).2 := by
  rw [alloc_of_some hb]
  refine ⟨fun c hc => ?_, fun c hc => ?_⟩
  · rcases mem_takeFit hb hc with hc | ⟨-, rfl⟩
    · exact h.free c hc
    · exact hend
  · rcases List.mem_append.mp hc with hc | hc
    · exact h.busy c hc
    · rcases List.mem_singleton.mp hc with rfl
      exact le_trans (Nat.le_add_right _ _) hend

theorem free_startsBy (h : StartsBy limit m) (buf : ℕ) : StartsBy limit (free m buf) := by
  cases hf : find m buf with
  | none =>
    simp only [free, hf]
    exact h
  | some b =>
    simp only [free, hf]
    have happ : ∀ c ∈ m.freeBufferList ++ [b], c.first ≤ limit := by
      intro c hc
      rcases List.mem_append.mp hc with hc | hc
      · exact h.free c hc
      · rcases List.mem_singleton.mp hc with rfl
        exact h.busy c (List.mem_of_find?_eq_some hf)
    refine ⟨fun c hc => ?_, fun c hc => h.busy c (List.mem_of_mem_eraseP hc)⟩
    simp only at hc
    split at hc
    · obtain ⟨d, hd, he⟩ := mergeAdjacent_first hc
      rw [he]
      exact happ d (List.mem_mergeSort.mp hd)
    · exact happ c hc

end Starts

def Holds (x : ℕ) (b : Block) : Prop := b.first ≤ x ∧ x < b.first + b.size

instance (x : ℕ) (b : Block) : Decidable (Holds x b) := inferInstanceAs (Decidable (_ ∧ _))

/-- How many of the blocks hold an address. -/
def cover (blocks : List Block) (x : ℕ) : ℕ := blocks.countP fun b => Holds x b

def held (x first size : ℕ) : ℕ := if first ≤ x ∧ x < first + size then 1 else 0

def total (blocks : List Block) : ℕ := (blocks.map Block.size).sum

@[simp] theorem cover_nil (x : ℕ) : cover [] x = 0 := rfl

theorem cover_cons (b : Block) (blocks : List Block) (x : ℕ) :
    cover (b :: blocks) x = cover blocks x + held x b.first b.size := by
  rw [cover, List.countP_cons, held]
  by_cases h : b.first ≤ x ∧ x < b.first + b.size
  · rw [if_pos h, if_pos (decide_eq_true (p := Holds x b) h)]
    rfl
  · rw [if_neg h, if_neg (ne_true_of_eq_false (decide_eq_false (p := Holds x b) h))]
    rfl

theorem cover_append (blocks blocks' : List Block) (x : ℕ) :
    cover (blocks ++ blocks') x = cover blocks x + cover blocks' x := List.countP_append

theorem cover_perm {blocks blocks' : List Block} (h : blocks.Perm blocks') (x : ℕ) :
    cover blocks x = cover blocks' x := h.countP_eq _

theorem cover_pos_iff {blocks : List Block} {x : ℕ} :
    0 < cover blocks x ↔ ∃ b ∈ blocks, Holds x b := by
  simp only [cover, List.countP_pos_iff, decide_eq_true_eq]

@[simp] theorem total_cons (b : Block) (blocks : List Block) :
    total (b :: blocks) = b.size + total blocks := by
  simp only [total, List.map_cons, List.sum_cons]

theorem total_append (blocks blocks' : List Block) :
    total (blocks ++ blocks') = total blocks + total blocks' := by
  simp only [total, List.map_append, List.sum_append]

theorem total_perm {blocks blocks' : List Block} (h : blocks.Perm blocks') :
    total blocks = total blocks' := (h.map Block.size).sum_nat

theorem held_split (x first size size' : ℕ) :
    held x first size + held x (first + size) size' = held x first (size + size') := by
  unfold held
  split <;> split <;> split <;> omega

theorem takeFit_cover {blocks : List Block} {size : ℕ} {b : Block}
    (h : firstFit blocks size = some b) (x : ℕ) :
    cover (takeFit size blocks) x + held x b.first size = cover blocks x := by
  induction blocks with
  | nil => cases h
  | cons c rest ih =>
    by_cases hlt : c.size < size
    · have hrest : firstFit rest size = some b := by
        rw [firstFit, List.find?_cons_of_neg (by simpa using hlt)] at h
        exact h
      rw [takeFit, if_pos hlt, cover_cons, cover_cons, ← ih hrest]
      omega
    · have hb : c = b := by
        rw [firstFit, List.find?_cons_of_pos (by simpa using hlt)] at h
        exact Option.some.inj h
      subst hb
      rw [takeFit, if_neg hlt]
      by_cases hgt : c.size > size
      · have hs := held_split x c.first size (c.size - size)
        rw [Nat.add_sub_cancel' (le_of_lt hgt)] at hs
        rw [if_pos hgt, cover_cons, cover_cons]
        simp only
        omega
      · have hs : size = c.size := by omega
        rw [if_neg hgt, cover_cons, hs]

theorem takeFit_total {blocks : List Block} {size : ℕ} {b : Block}
    (h : firstFit blocks size = some b) : total (takeFit size blocks) + size = total blocks := by
  induction blocks with
  | nil => cases h
  | cons c rest ih =>
    by_cases hlt : c.size < size
    · have hrest : firstFit rest size = some b := by
        rw [firstFit, List.find?_cons_of_neg (by simpa using hlt)] at h
        exact h
      rw [takeFit, if_pos hlt, total_cons, total_cons, ← ih hrest]
      omega
    · rw [takeFit, if_neg hlt]
      by_cases hgt : c.size > size
      · rw [if_pos hgt, total_cons, total_cons]
        simp only
        omega
      · rw [if_neg hgt, total_cons]
        omega

theorem mergeAdjacent_cover (blocks : List Block) (x : ℕ) :
    cover (mergeAdjacent blocks) x = cover blocks x := by
  induction blocks using mergeAdjacent.induct with
  | case1 => rw [mergeAdjacent]
  | case2 b => rw [mergeAdjacent]
  | case3 curr next rest hgap ih =>
    rw [mergeAdjacent, if_pos hgap, cover_cons, ih, cover_cons curr]
  | case4 curr next rest hgap ih =>
    have hs := held_split x curr.first curr.size next.size
    rw [not_not.mp hgap] at hs
    rw [mergeAdjacent, if_neg hgap, ih, cover_cons, cover_cons, cover_cons, ← hs]
    omega

theorem mergeAdjacent_total (blocks : List Block) :
    total (mergeAdjacent blocks) = total blocks := by
  induction blocks using mergeAdjacent.induct with
  | case1 => rw [mergeAdjacent]
  | case2 b => rw [mergeAdjacent]
  | case3 curr next rest hgap ih => rw [mergeAdjacent, if_pos hgap, total_cons, ih, total_cons curr]
  | case4 curr next rest hgap ih =>
    rw [mergeAdjacent, if_neg hgap, ih, total_cons, total_cons, total_cons]
    simp only
    omega

theorem coalesce_cover (blocks : List Block) (x : ℕ) :
    cover (coalesce blocks) x = cover blocks x := by
  rw [coalesce, mergeAdjacent_cover]
  exact cover_perm (List.mergeSort_perm blocks _) x

theorem coalesce_total (blocks : List Block) : total (coalesce blocks) = total blocks := by
  rw [coalesce, mergeAdjacent_total]
  exact total_perm (List.mergeSort_perm blocks _)

theorem takeFit_aligned {alignment size : ℕ} {blocks : List Block}
    (hsize : size % alignment = 0) (h : ∀ b ∈ blocks, b.first % alignment = 0) :
    ∀ b ∈ takeFit size blocks, b.first % alignment = 0 := by
  induction blocks with
  | nil => exact h
  | cons b rest ih =>
    have hb := h b List.mem_cons_self
    have hrest : ∀ c ∈ rest, c.first % alignment = 0 :=
      fun c hc => h c (List.mem_cons_of_mem b hc)
    intro c hc
    rw [takeFit] at hc
    split at hc
    · rcases List.mem_cons.mp hc with rfl | hc
      · exact hb
      · exact ih hrest c hc
    · split at hc
      · rcases List.mem_cons.mp hc with rfl | hc
        · simp only
          rw [Nat.add_mod, hb, hsize, Nat.add_zero, Nat.zero_mod]
        · exact hrest c hc
      · exact hrest c hc

theorem mergeAdjacent_aligned {alignment : ℕ} {blocks : List Block}
    (h : ∀ b ∈ blocks, b.first % alignment = 0) :
    ∀ b ∈ mergeAdjacent blocks, b.first % alignment = 0 := by
  induction blocks using mergeAdjacent.induct with
  | case1 => simp [mergeAdjacent]
  | case2 b => simpa [mergeAdjacent] using h
  | case3 curr next rest hgap ih =>
    rw [mergeAdjacent, if_pos hgap]
    intro b hb
    rcases List.mem_cons.mp hb with rfl | hb
    · exact h b List.mem_cons_self
    · exact ih (fun c hc => h c (List.mem_cons_of_mem curr hc)) b hb
  | case4 curr next rest hgap ih =>
    rw [mergeAdjacent, if_neg hgap]
    apply ih
    intro b hb
    rcases List.mem_cons.mp hb with rfl | hb
    · exact h curr List.mem_cons_self
    · exact h b (List.mem_cons_of_mem _ (List.mem_cons_of_mem _ hb))

theorem coalesce_aligned {alignment : ℕ} {blocks : List Block}
    (h : ∀ b ∈ blocks, b.first % alignment = 0) :
    ∀ b ∈ coalesce blocks, b.first % alignment = 0 := by
  apply mergeAdjacent_aligned
  intro b hb
  exact h b (List.mem_mergeSort.mp hb)

theorem blockSize_mod {m : Manager} (h : 0 < m.alignment) (size : ℕ) :
    blockSize m size % m.alignment = 0 := by
  simp only [blockSize]
  generalize (if size = 0 then m.alignment else size) = n
  split
  · have hlt := Nat.mod_lt n h
    have hdiv := Nat.div_add_mod n m.alignment
    have heq : n + (m.alignment - n % m.alignment) = m.alignment * (n / m.alignment + 1) := by
      rw [Nat.mul_succ]
      omega
    rw [heq, Nat.mul_mod_right]
  · next hpos =>
    rw [Nat.add_zero]
    omega

/-- Every byte of the pool is in exactly one block, and no other byte is. -/
structure Partition (m : Manager) : Prop where
  alignment : 0 < m.alignment
  cover : ∀ x, cover m.freeBufferList x + cover m.busyBufferList x =
    held x m.start m.size
  freeSize : m.freeSize = total m.freeBufferList
  free : ∀ b ∈ m.freeBufferList, b.first % m.alignment = 0
  busy : ∀ b ∈ m.busyBufferList, b.first % m.alignment = 0 ∧ b.size % m.alignment = 0

theorem init_partition {size start alignment : ℕ} {m : Manager} (ha : 0 < alignment)
    (h : init size start alignment = some m) : Partition m := by
  unfold init at h
  split at h
  · next hmod =>
    cases h
    refine ⟨ha, fun x => ?_, ?_, ?_, ?_⟩
    · rw [cover_cons]
      simp only [cover_nil, Nat.zero_add, Nat.add_zero]
    · simp [total]
    · intro b hb
      rcases List.mem_singleton.mp hb with rfl
      exact hmod
    · intro b hb
      cases hb
  · cases h

theorem alloc_partition {m : Manager} (h : Partition m) (size : ℕ) :
    Partition (alloc m size).2 := by
  cases hf : firstFit m.freeBufferList (blockSize m size) with
  | none =>
    rw [alloc_of_none hf]
    exact h
  | some b =>
    rw [alloc_of_some hf]
    have hmod := blockSize_mod h.alignment size
    refine ⟨h.alignment, fun x => ?_, ?_, takeFit_aligned hmod h.free, ?_⟩
    · have hc := h.cover x
      have ht := takeFit_cover hf x
      simp only [cover_append, cover_cons, cover_nil]
      omega
    · have ht := takeFit_total hf
      have hs := h.freeSize
      simp only
      omega
    · intro c hc
      rcases List.mem_append.mp hc with hc | hc
      · exact h.busy c hc
      · rcases List.mem_singleton.mp hc with rfl
        exact ⟨h.free b (firstFit_some hf).1, hmod⟩

/-- The block that is looked up is the one that is erased. -/
theorem find_perm {m : Manager} {buf : ℕ} {b : Block} (h : find m buf = some b) :
    m.busyBufferList.Perm (b :: m.busyBufferList.eraseP fun b => b.first = buf) := by
  obtain ⟨hp, before, after, hl, hbefore⟩ := List.find?_eq_some_iff_append.mp h
  have hnone : ∀ c ∈ before, ¬ decide (c.first = buf) = true := by
    intro c hc hp
    have := hbefore c hc
    rw [hp] at this
    cases this
  rw [hl, List.eraseP_append_right _ hnone,
    List.eraseP_cons_of_pos (p := fun b : Block => decide (b.first = buf)) hp]
  exact List.perm_middle

theorem free_partition {m : Manager} (h : Partition m) (buf : ℕ) : Partition (free m buf) := by
  cases hf : find m buf with
  | none =>
    simp only [free, hf]
    exact h
  | some b =>
    have hperm := find_perm hf
    have hb := h.busy b (List.mem_of_find?_eq_some hf)
    have hblocks : ∀ blocks, (∀ x, cover blocks x = cover (m.freeBufferList ++ [b]) x) →
        total blocks = total (m.freeBufferList ++ [b]) →
        (∀ c ∈ blocks, c.first % m.alignment = 0) →
        Partition { m with
          freeSize := m.freeSize + b.size
          busyBufferList := m.busyBufferList.eraseP fun b => b.first = buf
          freeBufferList := blocks } := by
      intro blocks hcover htotal hmod
      refine ⟨h.alignment, fun x => ?_, ?_, hmod, fun c hc => h.busy c (List.mem_of_mem_eraseP hc)⟩
      · have hc := h.cover x
        rw [cover_perm hperm, cover_cons] at hc
        simp only [hcover, cover_append, cover_cons, cover_nil]
        omega
      · simp only [htotal, total_append, h.freeSize, total_cons]
        rfl
    have happ : ∀ c ∈ m.freeBufferList ++ [b], c.first % m.alignment = 0 := by
      intro c hc
      rcases List.mem_append.mp hc with hc | hc
      · exact h.free c hc
      · rcases List.mem_singleton.mp hc with rfl
        exact hb.1
    simp only [free, hf]
    split
    · exact hblocks _ (coalesce_cover _) (coalesce_total _) (coalesce_aligned happ)
    · exact hblocks _ (fun _ => rfl) rfl happ

/-- Blocks that hold every byte at most once are apart. -/
theorem apart_of_cover_le {blocks : List Block} (h : ∀ x, cover blocks x ≤ 1) :
    blocks.Pairwise fun b c => ∀ x, ¬ (Holds x b ∧ Holds x c) := by
  induction blocks with
  | nil => exact List.Pairwise.nil
  | cons b rest ih =>
    refine List.Pairwise.cons ?_ (ih fun x => ?_)
    · rintro c hc x ⟨hb, hx⟩
      have hle := h x
      have hpos : 0 < cover rest x := cover_pos_iff.mpr ⟨c, hc, hx⟩
      rw [cover_cons, held, if_pos (show b.first ≤ x ∧ x < b.first + b.size from hb)] at hle
      omega
    · have hle := h x
      rw [cover_cons] at hle
      omega

theorem free_of_not_busy {m : Manager} {buf : ℕ} (h : ∀ b ∈ m.busyBufferList, b.first ≠ buf) :
    free m buf = m := by
  have hf : find m buf = none := List.find?_eq_none.mpr fun b hb => by simpa using h b hb
  simp only [free, hf]

end MemoryManager
