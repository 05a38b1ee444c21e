import Mathlib.Data.List.Basic
import Mathlib.Data.Nat.Notation
import Mathlib.Logic.Function.Basic

/-! # Set-associative write-back caches

A bank is a memory behind a cache. The view through the cache finds an address in the line that
holds its block, or else in the memory. A flush writes a dirty line back; a drop forgets a line,
which is safe only when the line is clean. -/
namespace WriteBackCache

/-- The size of a block, the number of sets and the ways of each set. -/
structure Shape where
  block : ℕ
  sets : ℕ
  ways : ℕ
  deriving DecidableEq, Repr

namespace Shape

variable (S : Shape)

def setOf (a : ℕ) : ℕ := a / S.block % S.sets

def tagOf (a : ℕ) : ℕ := a / S.block / S.sets

def offsetOf (a : ℕ) : ℕ := a % S.block

def address (set tag off : ℕ) : ℕ := S.block * (S.sets * tag + set) + off

theorem address_of (a : ℕ) : S.address (S.setOf a) (S.tagOf a) (S.offsetOf a) = a := by
  rw [address, setOf, tagOf, offsetOf, Nat.div_add_mod, Nat.div_add_mod]

variable {S}

theorem div_address {set tag off : ℕ} (hoff : off < S.block) :
    S.address set tag off / S.block = S.sets * tag + set := by
  rw [address, Nat.mul_add_div (by omega), Nat.div_eq_of_lt hoff, Nat.add_zero]

theorem setOf_address {set tag off : ℕ} (hoff : off < S.block) (hset : set < S.sets) :
    S.setOf (S.address set tag off) = set := by
  rw [setOf, div_address hoff, Nat.mul_add_mod, Nat.mod_eq_of_lt hset]

theorem tagOf_address {set tag off : ℕ} (hoff : off < S.block) (hset : set < S.sets) :
    S.tagOf (S.address set tag off) = tag := by
  rw [tagOf, div_address hoff, Nat.mul_add_div (by omega), Nat.div_eq_of_lt hset, Nat.add_zero]

theorem offsetOf_address {set tag off : ℕ} (hoff : off < S.block) :
    S.offsetOf (S.address set tag off) = off := by
  rw [offsetOf, address, Nat.mul_add_mod, Nat.mod_eq_of_lt hoff]

theorem offsetOf_lt {a : ℕ} (h : 0 < S.block) : S.offsetOf a < S.block := Nat.mod_lt _ h

end Shape

structure Line (ν : Type) where
  tag : ℕ
  dirty : Bool
  data : ℕ → ν

def Line.clean {ν : Type} (l : Line ν) : Line ν := { l with dirty := false }

structure Bank (ν : Type) where
  memory : ℕ → ν
  lines : ℕ → ℕ → Option (Line ν)

namespace Bank

variable {ν : Type} (S : Shape) (b : Bank ν)

def find (a : ℕ) : Option (Line ν) :=
  (List.range S.ways).findSome? fun way =>
    (b.lines (S.setOf a) way).filter fun l => l.tag == S.tagOf a

/-- What the cache shows at an address. -/
def view (a : ℕ) : ν :=
  match b.find S a with
  | some l => l.data (S.offsetOf a)
  | none => b.memory a

def setLine (set way : ℕ) (line : Option (Line ν)) : Bank ν :=
  { b with lines := fun s w => if s = set ∧ w = way then line else b.lines s w }

def writeBack (set : ℕ) (l : Line ν) : ℕ → ν := fun a =>
  if S.setOf a = set ∧ S.tagOf a = l.tag then l.data (S.offsetOf a) else b.memory a

def flushLine (set way : ℕ) : Bank ν :=
  match b.lines set way with
  | some l =>
    if l.dirty then
      { setLine b set way (some { l with dirty := false }) with memory := b.writeBack S set l }
    else b
  | none => b

def dropLine (set way : ℕ) : Bank ν := b.setLine set way none

def lineFor (a : ℕ) : Line ν :=
  ⟨S.tagOf a, false, fun off => b.memory (S.address (S.setOf a) (S.tagOf a) off)⟩

def load (victim a : ℕ) : Bank ν :=
  if (b.find S a).isNone ∧ S.setOf a < S.sets ∧ victim < S.ways then
    let b := b.flushLine S (S.setOf a) victim
    b.setLine (S.setOf a) victim (some (b.lineFor S a))
  else b

def writeMemory (start sz : ℕ) (data : ℕ → ν) : Bank ν :=
  { b with memory := fun a => if start ≤ a ∧ a < start + sz then data (a - start) else b.memory a }

/-- Lines lie in the sets and ways of the cache, a block has one line at most, and clean lines
agree with the memory. -/
structure Coherent : Prop where
  shape : ∀ {set way l}, b.lines set way = some l → set < S.sets ∧ way < S.ways
  unique : ∀ {set way way' l l'}, b.lines set way = some l → b.lines set way' = some l' →
    l.tag = l'.tag → way = way'
  clean : ∀ {set way l}, b.lines set way = some l → l.dirty = false → ∀ off < S.block,
    l.data off = b.memory (S.address set l.tag off)

structure Distinct : Prop where
  shape : ∀ {set way l}, b.lines set way = some l → set < S.sets ∧ way < S.ways
  unique : ∀ {set way way' l l'}, b.lines set way = some l → b.lines set way' = some l' →
    l.tag = l'.tag → way = way'

def CleanAt (set way : ℕ) : Prop := ∀ l, b.lines set way = some l → l.dirty = false

def Clean : Prop := ∀ set way, b.CleanAt set way

def Empty : Prop := ∀ set way, b.lines set way = none

/-- What is seen at an address, without a search for the line. -/
inductive Sees (b : Bank ν) (a : ℕ) : ν → Prop where
  | hit {way : ℕ} {l : Line ν} : b.lines (S.setOf a) way = some l → l.tag = S.tagOf a →
      Sees b a (l.data (S.offsetOf a))
  | miss : (∀ way l, b.lines (S.setOf a) way = some l → l.tag ≠ S.tagOf a) →
      Sees b a (b.memory a)

variable {S b}

theorem Coherent.distinct (h : b.Coherent S) : b.Distinct S := ⟨h.shape, h.unique⟩

theorem find_eq_some (h : b.Distinct S) {a : ℕ} {l : Line ν} :
    b.find S a = some l ↔ ∃ way, b.lines (S.setOf a) way = some l ∧ l.tag = S.tagOf a := by
  have hfilter : ∀ way l, (b.lines (S.setOf a) way).filter (fun l => l.tag == S.tagOf a) = some l ↔
      b.lines (S.setOf a) way = some l ∧ l.tag = S.tagOf a := by
    intro way l
    rw [Option.filter_eq_some_iff, beq_iff_eq]
  constructor
  · intro hfind
    obtain ⟨way, -, hway⟩ := List.exists_of_findSome?_eq_some hfind
    exact ⟨way, (hfilter way l).mp hway⟩
  · rintro ⟨way, hline, htag⟩
    have hsome : (b.find S a).isSome := by
      rw [find, List.findSome?_isSome_iff]
      refine ⟨way, List.mem_range.mpr (h.shape hline).2, ?_⟩
      rw [(hfilter way l).mpr ⟨hline, htag⟩]
      rfl
    obtain ⟨l', hl'⟩ := Option.isSome_iff_exists.mp hsome
    obtain ⟨way', -, hway'⟩ := List.exists_of_findSome?_eq_some hl'
    obtain ⟨hline', htag'⟩ := (hfilter way' l').mp hway'
    have he := h.unique hline hline' (htag.trans htag'.symm)
    rw [he, hline'] at hline
    rw [hl', hline]

theorem find_eq_none (h : b.Distinct S) {a : ℕ} :
    b.find S a = none ↔ ∀ way l, b.lines (S.setOf a) way = some l → l.tag ≠ S.tagOf a := by
  rw [Option.eq_none_iff_forall_ne_some]
  constructor
  · intro hnone way l hline htag
    exact hnone l ((find_eq_some h).mpr ⟨way, hline, htag⟩)
  · intro hnone l hfind
    obtain ⟨way, hline, htag⟩ := (find_eq_some h).mp hfind
    exact hnone way l hline htag

theorem sees_iff (h : b.Distinct S) {a : ℕ} {v : ν} : Sees S b a v ↔ b.view S a = v := by
  constructor
  · intro hs
    cases hs with
    | hit hline htag =>
      have hfind := (find_eq_some h).mpr ⟨_, hline, htag⟩
      simp only [view, hfind]
    | miss hnone =>
      have hfind := (find_eq_none h).mpr hnone
      simp only [view, hfind]
  · rintro rfl
    cases hfind : b.find S a with
    | some l =>
      obtain ⟨way, hline, htag⟩ := (find_eq_some h).mp hfind
      simp only [view, hfind]
      exact .hit hline htag
    | none =>
      simp only [view, hfind]
      exact .miss ((find_eq_none h).mp hfind)

theorem Distinct.of_lines {b' : Bank ν} (h : b.Distinct S)
    (hlines : ∀ set way l, b'.lines set way = some l → b.lines set way = some l) :
    b'.Distinct S where
  shape hl := h.shape (hlines _ _ _ hl)
  unique hl hl' := h.unique (hlines _ _ _ hl) (hlines _ _ _ hl')

theorem view_of_line (h : b.Distinct S) {a way : ℕ} {l : Line ν}
    (hl : b.lines (S.setOf a) way = some l) (htag : l.tag = S.tagOf a) :
    b.view S a = l.data (S.offsetOf a) := (sees_iff h).mp (.hit hl htag)

theorem view_of_no_line (h : b.Distinct S) {a : ℕ}
    (hnone : ∀ way l, b.lines (S.setOf a) way = some l → l.tag ≠ S.tagOf a) :
    b.view S a = b.memory a := (sees_iff h).mp (.miss hnone)

/-- Two banks show the same if whatever one of them shows the other one shows, too. -/
theorem view_eq_of_sees {b' : Bank ν} (h : b.Coherent S) (h' : b'.Coherent S)
    (hsees : ∀ a v, Sees S b a v → Sees S b' a v) : b'.view S = b.view S := by
  funext a
  exact (sees_iff h'.distinct).mp (hsees a _ ((sees_iff h.distinct).mpr rfl))

theorem setLine_eq_some {set way s w : ℕ} {line : Option (Line ν)} {l : Line ν} :
    (b.setLine set way line).lines s w = some l ↔
      (s = set ∧ w = way ∧ line = some l) ∨ (¬ (s = set ∧ w = way) ∧ b.lines s w = some l) := by
  by_cases hslot : s = set ∧ w = way
  · simp [setLine, hslot]
  · simp only [setLine, hslot, not_false_eq_true, true_and]
    exact ⟨Or.inr, fun h => h.resolve_left fun hc => hslot ⟨hc.1, hc.2.1⟩⟩

section Flush

variable {set way : ℕ}

theorem flushLine_other {s w : ℕ} (hslot : ¬ (s = set ∧ w = way)) :
    (b.flushLine S set way).lines s w = b.lines s w := by
  rw [flushLine]
  split
  · split
    · exact if_neg hslot
    · rfl
  · rfl

theorem flushLine_self :
    (b.flushLine S set way).lines set way =
      (b.lines set way).map fun l => { l with dirty := false } := by
  rw [flushLine]
  split
  · next l hl =>
    split
    · rw [hl]
      exact if_pos ⟨rfl, rfl⟩
    · next hd =>
      have hsame : { l with dirty := false } = l := by
        rw [← eq_false_of_ne_true hd]
      rw [hl, Option.map_some, hsame]
  · next hnone =>
    rw [hnone]
    rfl

theorem flushLine_eq_some {s w : ℕ} {l' : Line ν} :
    (b.flushLine S set way).lines s w = some l' ↔
      ∃ l, b.lines s w = some l ∧
        l' = if s = set ∧ w = way then { l with dirty := false } else l := by
  by_cases hslot : s = set ∧ w = way
  · obtain ⟨rfl, rfl⟩ := hslot
    rw [flushLine_self, Option.map_eq_some_iff]
    simp only [and_self, if_true, eq_comm]
  · simp only [flushLine_other hslot, if_neg hslot, exists_eq_right']

theorem flushLine_cleanAt : (b.flushLine S set way).CleanAt set way := by
  intro l' hl'
  obtain ⟨l, -, rfl⟩ := flushLine_eq_some.mp hl'
  rw [if_pos ⟨rfl, rfl⟩]

theorem CleanAt.flushLine {s w : ℕ} (h : b.CleanAt s w) :
    (b.flushLine S set way).CleanAt s w := by
  intro l' hl'
  obtain ⟨l, hl, rfl⟩ := flushLine_eq_some.mp hl'
  split
  · rfl
  · exact h l hl

theorem flushLine_memory {a : ℕ}
    (h : ∀ l, b.lines set way = some l → ¬ (S.setOf a = set ∧ S.tagOf a = l.tag)) :
    (b.flushLine S set way).memory a = b.memory a := by
  rw [flushLine]
  split
  · next l hl =>
    split
    · exact if_neg (h l hl)
    · rfl
  · rfl

theorem flushLine_memory_dirty {l : Line ν} (hl : b.lines set way = some l)
    (hd : l.dirty = true) : (b.flushLine S set way).memory = b.writeBack S set l := by
  simp only [flushLine, hl, hd, if_true]

theorem flushLine_coherent (h : b.Coherent S) : (b.flushLine S set way).Coherent S := by
  constructor
  · intro s w l' hl'
    obtain ⟨l, hl, -⟩ := flushLine_eq_some.mp hl'
    exact h.shape hl
  · intro s w w' l₁ l₂ h₁ h₂ htag
    obtain ⟨m₁, hm₁, rfl⟩ := flushLine_eq_some.mp h₁
    obtain ⟨m₂, hm₂, rfl⟩ := flushLine_eq_some.mp h₂
    refine h.unique hm₁ hm₂ ?_
    split at htag <;> split at htag <;> exact htag
  · intro s w l' hl' hd off hoff
    obtain ⟨l, hl, rfl⟩ := flushLine_eq_some.mp hl'
    have hset := (h.shape hl).1
    by_cases hslot : s = set ∧ w = way
    · obtain ⟨rfl, rfl⟩ := hslot
      rw [if_pos ⟨rfl, rfl⟩]
      show l.data off = (b.flushLine S s w).memory (S.address s l.tag off)
      cases hdirty : l.dirty with
      | true =>
        rw [flushLine_memory_dirty hl hdirty, writeBack,
          if_pos ⟨Shape.setOf_address hoff hset, Shape.tagOf_address hoff hset⟩,
          Shape.offsetOf_address hoff]
      | false =>
        have hsame : b.flushLine S s w = b := by
          simp only [flushLine, hl, hdirty, Bool.false_eq_true, if_false]
        rw [hsame]
        exact h.clean hl hdirty off hoff
    · rw [if_neg hslot] at hd ⊢
      rw [flushLine_memory, h.clean hl hd off hoff]
      -- the line that is flushed holds another block
      rintro m hm ⟨hs, ht⟩
      rw [Shape.setOf_address hoff hset] at hs
      rw [Shape.tagOf_address hoff hset] at ht
      subst hs
      exact hslot ⟨rfl, h.unique hl hm ht⟩

theorem flushLine_view (h : b.Coherent S) : (b.flushLine S set way).view S = b.view S := by
  refine view_eq_of_sees h (flushLine_coherent h) ?_
  intro a v hs
  cases hs with
  | @hit w l hl htag =>
    have hl' := (@flushLine_eq_some ν S b set way (S.setOf a) w _).mpr ⟨l, hl, rfl⟩
    split at hl'
    · exact @Sees.hit ν S _ a w { l with dirty := false } hl' htag
    · exact Sees.hit hl' htag
  | miss hnone =>
    have hmem : (b.flushLine S set way).memory a = b.memory a := by
      refine flushLine_memory ?_
      rintro l hl ⟨rfl, ht⟩
      exact hnone way l hl ht.symm
    rw [← hmem]
    refine Sees.miss ?_
    intro w l' hl'
    obtain ⟨l, hl, rfl⟩ := flushLine_eq_some.mp hl'
    have := hnone w l hl
    split <;> exact this

end Flush

/-- Where all lines are clean, the memory holds what the cache shows. -/
theorem memory_eq_view (hblock : 0 < S.block) (h : b.Coherent S) (hclean : b.Clean) :
    b.memory = b.view S := by
  funext a
  refine ((sees_iff h.distinct).mp ?_).symm
  by_cases hheld : ∃ way l, b.lines (S.setOf a) way = some l ∧ l.tag = S.tagOf a
  · obtain ⟨way, l, hl, htag⟩ := hheld
    have hdata := h.clean hl (hclean _ _ l hl) _ (Shape.offsetOf_lt (a := a) hblock)
    rw [htag, Shape.address_of] at hdata
    rw [← hdata]
    exact Sees.hit hl htag
  · exact Sees.miss fun way l hl htag => hheld ⟨way, l, hl, htag⟩

theorem view_of_empty (h : b.Empty) : b.view S = b.memory := by
  funext a
  have hnone : b.find S a = none := by
    rw [find, List.findSome?_eq_none_iff]
    intro way _
    rw [h]
    rfl
  simp only [view, hnone]

theorem Empty.coherent (h : b.Empty) : b.Coherent S := by
  constructor
  · intro set way l hl
    rw [h] at hl
    cases hl
  · intro set way way' l l' hl
    rw [h] at hl
    cases hl
  · intro set way l hl
    rw [h] at hl
    cases hl

section Load

variable {a victim : ℕ}

theorem fill_coherent (h : b.Coherent S) (hnone : b.find S a = none) (hset : S.setOf a < S.sets)
    (hway : victim < S.ways) :
    (b.setLine (S.setOf a) victim (some (b.lineFor S a))).Coherent S := by
  have hne := (find_eq_none h.distinct).mp hnone
  constructor
  · intro s w l hl
    rcases setLine_eq_some.mp hl with ⟨rfl, rfl, -⟩ | ⟨-, hl⟩
    · exact ⟨hset, hway⟩
    · exact h.shape hl
  · intro s w w' l l' hl hl' htag
    rw [setLine_eq_some] at hl hl'
    rcases hl with ⟨rfl, rfl, hnew⟩ | ⟨-, hl⟩ <;> rcases hl' with ⟨hs, rfl, hnew'⟩ | ⟨-, hl'⟩
    · rfl
    · cases hnew
      exact absurd htag.symm (hne w' l' hl')
    · cases hnew'
      rw [hs] at hl
      exact absurd htag (hne w l hl)
    · exact h.unique hl hl' htag
  · intro s w l hl hd off hoff
    rcases setLine_eq_some.mp hl with ⟨rfl, rfl, hnew⟩ | ⟨-, hl⟩
    · cases hnew
      rfl
    · exact h.clean hl hd off hoff

theorem fill_view (hblock : 0 < S.block) (h : b.Coherent S) (hnone : b.find S a = none)
    (hset : S.setOf a < S.sets) (hway : victim < S.ways)
    (hclean : b.CleanAt (S.setOf a) victim) :
    (b.setLine (S.setOf a) victim (some (b.lineFor S a))).view S = b.view S := by
  have hne := (find_eq_none h.distinct).mp hnone
  refine view_eq_of_sees h (fill_coherent h hnone hset hway) ?_
  intro a' v hs
  cases hs with
  | @hit way l hl htag =>
    by_cases hslot : S.setOf a' = S.setOf a ∧ way = victim
    · -- the line is the victim, and the memory has its data
      obtain ⟨hs, rfl⟩ := hslot
      have hdata := h.clean hl (hclean l (hs ▸ hl)) _ (Shape.offsetOf_lt (a := a') hblock)
      rw [htag, Shape.address_of] at hdata
      rw [hdata]
      refine Sees.miss ?_
      intro w l' hl' htag'
      rcases setLine_eq_some.mp hl' with ⟨-, -, hnew⟩ | ⟨hslot', hl'⟩
      · cases hnew
        exact hne way l (hs ▸ hl) (htag.trans htag'.symm)
      · exact hslot' ⟨hs, (h.unique hl hl' (htag.trans htag'.symm)).symm⟩
    · exact Sees.hit (setLine_eq_some.mpr (Or.inr ⟨hslot, hl⟩)) htag
  | miss hmiss =>
    by_cases hblk : S.setOf a' = S.setOf a ∧ S.tagOf a' = S.tagOf a
    · obtain ⟨hs, ht⟩ := hblk
      have hdata : (b.lineFor S a).data (S.offsetOf a') = b.memory a' := by
        rw [lineFor, ← hs, ← ht]
        exact congrArg b.memory (S.address_of a')
      rw [← hdata]
      exact Sees.hit (setLine_eq_some.mpr (Or.inl ⟨hs, rfl, rfl⟩)) ht.symm
    · refine Sees.miss ?_
      intro w l hl htag
      rcases setLine_eq_some.mp hl with ⟨hs, -, hnew⟩ | ⟨-, hl⟩
      · cases hnew
        exact hblk ⟨hs, htag.symm⟩
      · exact hmiss w l hl htag

theorem flushLine_find_none {set way : ℕ} (h : b.Coherent S) (hnone : b.find S a = none) :
    (b.flushLine S set way).find S a = none := by
  rw [find_eq_none (flushLine_coherent h).distinct]
  intro w l' hl'
  obtain ⟨l, hl, rfl⟩ := flushLine_eq_some.mp hl'
  have := (find_eq_none h.distinct).mp hnone w l hl
  split <;> exact this

theorem load_coherent (h : b.Coherent S) : (b.load S victim a).Coherent S := by
  rw [load]
  split
  · next hc =>
    obtain ⟨hnone, hset, hway⟩ := hc
    exact fill_coherent (flushLine_coherent h)
      (flushLine_find_none h (Option.isNone_iff_eq_none.mp hnone)) hset hway
  · exact h

theorem load_view (hblock : 0 < S.block) (h : b.Coherent S) :
    (b.load S victim a).view S = b.view S := by
  rw [load]
  split
  · next hc =>
    obtain ⟨hnone, hset, hway⟩ := hc
    exact (fill_view hblock (flushLine_coherent h)
      (flushLine_find_none h (Option.isNone_iff_eq_none.mp hnone)) hset hway
      flushLine_cleanAt).trans (flushLine_view h)
  · rfl

theorem load_of_no_ways (h : S.ways = 0) : b.load S victim a = b := by
  refine if_neg fun hc => ?_
  rw [h] at hc
  exact Nat.not_lt_zero victim hc.2.2

theorem load_clean (h : b.Clean) : (b.load S victim a).Clean := by
  rw [load]
  split
  · intro s w l hl
    rcases setLine_eq_some.mp hl with ⟨-, -, hnew⟩ | ⟨-, hl⟩
    · cases hnew
      rfl
    · exact (h s w).flushLine l hl
  · exact h

end Load

/-- A second load of an address finds what the first one left. -/
theorem load_again {a : ℕ} (h : b.Coherent S) (victim : Bank ν → ℕ) :
    (b.load S (victim b) a).load S (victim (b.load S (victim b) a)) a =
      b.load S (victim b) a := by
  by_cases hc : (b.find S a).isNone ∧ S.setOf a < S.sets ∧ victim b < S.ways
  · have hload : b.load S (victim b) a =
        (b.flushLine S (S.setOf a) (victim b)).setLine (S.setOf a) (victim b)
          (some ((b.flushLine S (S.setOf a) (victim b)).lineFor S a)) := by
      rw [load, if_pos hc]
    have hheld : (b.load S (victim b) a).find S a ≠ none := by
      intro hnone
      rw [find_eq_none (load_coherent h).distinct] at hnone
      refine hnone (victim b) ((b.flushLine S (S.setOf a) (victim b)).lineFor S a) ?_ rfl
      rw [hload, setLine_eq_some]
      exact Or.inl ⟨rfl, rfl, rfl⟩
    exact if_neg fun hc' => hheld (Option.isNone_iff_eq_none.mp hc'.1)
  · have hload : b.load S (victim b) a = b := if_neg hc
    rw [hload, hload]

variable (S b) in
/-- The bank once every line was flushed. -/
def flushed : Bank ν where
  memory := b.view S
  lines set way := (b.lines set way).map Line.clean

theorem flushLine_clean {set way s w : ℕ} :
    ((b.flushLine S set way).lines s w).map Line.clean = (b.lines s w).map Line.clean := by
  by_cases hslot : s = set ∧ w = way
  · obtain ⟨rfl, rfl⟩ := hslot
    rw [flushLine_self, Option.map_map]
    rfl
  · rw [flushLine_other hslot]

theorem eq_flushed {b' : Bank ν} (hblock : 0 < S.block) (h : b'.Coherent S) (hclean : b'.Clean)
    (hview : b'.view S = b.view S)
    (hlines : ∀ set way, (b'.lines set way).map Line.clean = (b.lines set way).map Line.clean) :
    b' = b.flushed S := by
  have hmemory : b'.memory = b.view S := (memory_eq_view hblock h hclean).trans hview
  have hsame : b'.lines = fun set way => (b.lines set way).map Line.clean := by
    funext set way
    rw [← hlines]
    cases hl : b'.lines set way with
    | none => rfl
    | some l =>
      rw [Option.map_some, Line.clean, ← hclean set way l hl]
  rw [flushed, ← hmemory, ← hsame]

theorem flushed_of_empty (h : b.Empty) : b.flushed S = b := by
  have hlines : (fun set way => (b.lines set way).map Line.clean) = b.lines := by
    funext set way
    rw [h]
    rfl
  rw [flushed, view_of_empty h, hlines]

theorem dropLine_other {set way s w : ℕ} (hslot : ¬ (s = set ∧ w = way)) :
    (b.dropLine set way).lines s w = b.lines s w := if_neg hslot

theorem dropLine_self {set way : ℕ} : (b.dropLine set way).lines set way = none :=
  if_pos ⟨rfl, rfl⟩

theorem dropLine_none {set way s w : ℕ} (h : b.lines s w = none) :
    (b.dropLine set way).lines s w = none := by
  by_cases hslot : s = set ∧ w = way
  · exact if_pos hslot
  · rw [dropLine_other hslot, h]

theorem writeMemory_inside {start sz : ℕ} {data : ℕ → ν} {j : ℕ} (hj : j < sz) :
    (b.writeMemory start sz data).memory (start + j) = data j := by
  rw [writeMemory]
  simp only
  rw [if_pos (by omega), Nat.add_sub_cancel_left]

theorem writeMemory_outside {start sz : ℕ} {data : ℕ → ν} {a : ℕ}
    (ha : ∀ j < sz, a ≠ start + j) : (b.writeMemory start sz data).memory a = b.memory a := by
  refine if_neg ?_
  rintro ⟨hle, hlt⟩
  exact ha (a - start) (by omega) (by omega)

variable (S b)

def cached (a : ℕ) : Option ν := (b.find S a).map fun l => l.data (S.offsetOf a)

/-- The cache forgets the block of an address. -/
def dropBlock (a : ℕ) : Bank ν :=
  { b with lines := fun set way =>
      if set = S.setOf a then (b.lines set way).filter fun l => l.tag != S.tagOf a
      else b.lines set way }

variable {S b}

theorem view_eq_cached (a : ℕ) : b.view S a = (b.cached S a).getD (b.memory a) := by
  rw [view, cached]
  cases b.find S a with
  | none => rfl
  | some l => rfl

theorem cached_congr {b' : Bank ν} (h : b'.lines = b.lines) (a : ℕ) :
    b'.cached S a = b.cached S a := by
  simp only [cached, find, h]

/-- Two addresses lie in one block exactly when their sets and their tags are the same. -/
theorem block_eq_iff {a a' : ℕ} :
    a' / S.block = a / S.block ↔ S.setOf a' = S.setOf a ∧ S.tagOf a' = S.tagOf a := by
  constructor
  · intro h
    simp only [Shape.setOf, Shape.tagOf, h, and_self]
  · rintro ⟨hset, htag⟩
    rw [← Nat.div_add_mod (a' / S.block) S.sets, ← Nat.div_add_mod (a / S.block) S.sets]
    exact congrArg₂ (fun t s => S.sets * t + s) htag hset

theorem dropBlock_congr {a a' : ℕ} (h : a' / S.block = a / S.block) :
    b.dropBlock S a' = b.dropBlock S a := by
  obtain ⟨hset, htag⟩ := block_eq_iff.mp h
  rw [dropBlock, dropBlock, hset, htag]

theorem find_dropBlock (a a' : ℕ) :
    (b.dropBlock S a).find S a' = if a' / S.block = a / S.block then none else b.find S a' := by
  by_cases hblock : a' / S.block = a / S.block
  · obtain ⟨hset, htag⟩ := block_eq_iff.mp hblock
    rw [if_pos hblock]
    apply List.findSome?_eq_none_iff.mpr
    intro way _
    simp only [dropBlock]
    rw [if_pos hset, Option.filter_filter, htag]
    simp
  · rw [if_neg hblock]
    apply congrArg (fun f => (List.range S.ways).findSome? f)
    funext way
    simp only [dropBlock]
    by_cases hset : S.setOf a' = S.setOf a
    · have htag : S.tagOf a' ≠ S.tagOf a := fun htag => hblock (block_eq_iff.mpr ⟨hset, htag⟩)
      rw [if_pos hset, Option.filter_filter]
      congr 1
      funext l
      by_cases hl : l.tag = S.tagOf a'
      · simp [hl, htag]
      · simp [hl]
    · rw [if_neg hset]

theorem cached_dropBlock (a a' : ℕ) :
    (b.dropBlock S a).cached S a' =
      if a' / S.block = a / S.block then none else b.cached S a' := by
  rw [cached, find_dropBlock]
  split <;> rfl

theorem dropBlock_dropBlock (a : ℕ) : (b.dropBlock S a).dropBlock S a = b.dropBlock S a := by
  simp only [dropBlock, mk.injEq, true_and]
  funext set way
  split
  · rw [Option.filter_filter]
    simp only [Bool.and_self]
  · rfl

end Bank

end WriteBackCache
