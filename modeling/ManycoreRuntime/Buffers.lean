import ManycoreRuntime.Transition
import Mathlib.Data.List.Basic
import Mathlib.Logic.Function.Basic

/-! # Buffers of their own bytes

What an allocator with transfers is for. Each pool has buffers at some of its addresses, each with
its own contents. A transfer moves bytes between a range of one buffer and the memory of the
caller, and one that fails has moved a front part of them. -/
namespace Buffers

open Transition (System Path Reachable)

section Splice

variable {α : Type}

def splice (contents : List α) (off : ℕ) (new : List α) : List α :=
  contents.take off ++ new ++ contents.drop (off + new.length)

theorem splice_length {contents new : List α} {off : ℕ}
    (h : off + new.length ≤ contents.length) :
    (splice contents off new).length = contents.length := by
  simp only [splice, List.length_append, List.length_take, List.length_drop]
  omega

theorem splice_get {contents new : List α} {off : ℕ}
    (h : off + new.length ≤ contents.length) (i : ℕ) :
    (splice contents off new)[i]? =
      if off ≤ i ∧ i < off + new.length then new[i - off]? else contents[i]? := by
  have htake : (contents.take off).length = off := by
    rw [List.length_take]
    omega
  rw [splice]
  by_cases hlow : i < off
  · rw [if_neg (by omega), List.append_assoc, List.getElem?_append_left (by omega),
      List.getElem?_take_of_lt hlow]
  · by_cases hhigh : i < off + new.length
    · rw [if_pos ⟨by omega, hhigh⟩, List.getElem?_append_left (by simp; omega),
        List.getElem?_append_right (by omega), htake]
    · rw [if_neg (by omega), List.getElem?_append_right (by simp; omega), List.getElem?_drop]
      congr 1
      simp only [List.length_append, htake]
      omega

end Splice

/-- The buffers of the pools, and the memory of the caller. -/
@[ext] structure Heap (Pool Byte : Type) where
  buffer : Pool → ℕ → Option (List Byte)
  caller : ℕ → Byte

inductive Op (Pool Byte : Type) where
  | reset (pool : Pool)
  | alloc (pool : Pool) (size : ℕ)
  | free (pool : Pool) (addr : ℕ)
  | fill (pool : Pool) (addr n : ℕ) (val : Byte)
  | store (pool : Pool) (addr n source : ℕ)
  | load (pool : Pool) (addr n target : ℕ)
  | other

variable {Pool Byte : Type} [DecidableEq Pool]

namespace Heap

variable (h : Heap Pool Byte)

def set (pool : Pool) (base : ℕ) (contents : Option (List Byte)) : Heap Pool Byte :=
  { h with
    buffer := Function.update h.buffer pool (Function.update (h.buffer pool) base contents) }

def clear (pool : Pool) : Heap Pool Byte :=
  { h with buffer := Function.update h.buffer pool fun _ => none }

/-- No buffer of the pool begins at the base or overlaps the range behind it. -/
structure Unused (pool : Pool) (base size : ℕ) : Prop where
  fresh : h.buffer pool base = none
  apart : ∀ a contents, h.buffer pool a = some contents →
    base + size ≤ a ∨ a + contents.length ≤ base

structure InBuffer (pool : Pool) (addr n base off : ℕ) (contents : List Byte) : Prop where
  buffer : h.buffer pool base = some contents
  addr : addr = base + off
  inside : off + n ≤ contents.length

def Apart : Prop :=
  ∀ pool a b contents contents', h.buffer pool a = some contents →
    h.buffer pool b = some contents' → a ≠ b → a + contents.length ≤ b ∨ b + contents'.length ≤ a

theorem set_buffer (pool : Pool) (base : ℕ) (contents : Option (List Byte)) (pool' : Pool)
    (base' : ℕ) : (h.set pool base contents).buffer pool' base' =
      if pool' = pool ∧ base' = base then contents else h.buffer pool' base' := by
  by_cases hp : pool' = pool
  · subst hp
    by_cases hb : base' = base
    · subst hb
      simp [set]
    · simp [set, hb]
  · simp [set, hp]

theorem clear_buffer (pool pool' : Pool) (base : ℕ) :
    (h.clear pool).buffer pool' base = if pool' = pool then none else h.buffer pool' base := by
  by_cases hp : pool' = pool
  · subst hp
    simp [clear]
  · simp [clear, hp]

end Heap

/-- A front part of the bytes is written to a range of a buffer, all of them in a success. -/
inductive Writes (h : Heap Pool Byte) (pool : Pool) (addr n : ℕ) (bytes : ℕ → Byte) :
    Option ℕ → Heap Pool Byte → Prop where
  | intro {base off m : ℕ} {contents : List Byte} {r : Option ℕ}
      (range : h.InBuffer pool addr n base off contents) (front : m ≤ n)
      (whole : r.isSome = true → m = n) :
      Writes h pool addr n bytes r
        (h.set pool base (some (splice contents off ((List.range m).map bytes))))

inductive Step (h : Heap Pool Byte) : Op Pool Byte × Option ℕ → Heap Pool Byte → Prop where
  | refuse (op : Op Pool Byte) : Step h (op, none) h
  | reset (pool : Pool) (r : Option ℕ) : Step h (.reset pool, r) (h.clear pool)
  | alloc {pool : Pool} {size a : ℕ} (contents : List Byte) (room : size ≤ contents.length)
      (unused : h.Unused pool a contents.length) :
      Step h (.alloc pool size, some a) (h.set pool a (some contents))
  | free (pool : Pool) (a : ℕ) : Step h (.free pool a, some 0) (h.set pool a none)
  | fill {pool : Pool} {addr n : ℕ} {val : Byte} {r : Option ℕ} {h' : Heap Pool Byte}
      (writes : Writes h pool addr n (fun _ => val) r h') :
      Step h (.fill pool addr n val, r) h'
  | store {pool : Pool} {addr n source : ℕ} {r : Option ℕ} {h' : Heap Pool Byte}
      (writes : Writes h pool addr n (fun k => h.caller (source + k)) r h') :
      Step h (.store pool addr n source, r) h'
  | load {pool : Pool} {addr n target base off : ℕ} {contents : List Byte} {r : Option ℕ}
      {caller : ℕ → Byte} (range : h.InBuffer pool addr n base off contents)
      (frame : ∀ x, x < target ∨ target + n ≤ x → caller x = h.caller x)
      (whole : r.isSome = true → ∀ k < n, contents[off + k]? = some (caller (target + k))) :
      Step h (.load pool addr n target, r) { h with caller := caller }

def system : System (Heap Pool Byte) (Op Pool Byte × Option ℕ) where
  initial h := ∀ pool a, h.buffer pool a = none
  step h e h' := Step h e h'

variable {h h' : Heap Pool Byte}

theorem Writes.buffer {pool : Pool} {addr n : ℕ} {bytes : ℕ → Byte} {r : Option ℕ}
    (hw : Writes h pool addr n bytes r h') :
    ∃ base off m contents, h.InBuffer pool addr n base off contents ∧ m ≤ n ∧
      (r.isSome = true → m = n) ∧
      h' = h.set pool base (some (splice contents off ((List.range m).map bytes))) ∧
      (splice contents off ((List.range m).map bytes)).length = contents.length := by
  obtain ⟨range, front, whole⟩ := hw
  refine ⟨_, _, _, _, range, front, whole, rfl, splice_length ?_⟩
  have hin := range.inside
  simp only [List.length_map, List.length_range]
  omega

theorem Writes.apart {pool : Pool} {addr n : ℕ} {bytes : ℕ → Byte} {r : Option ℕ}
    (ha : h.Apart) (hw : Writes h pool addr n bytes r h') : h'.Apart := by
  obtain ⟨base, off, m, contents, range, -, -, rfl, hlen⟩ := hw.buffer
  have hold := range.buffer
  intro pool' a b c c' hc hc' hne
  rw [Heap.set_buffer] at hc hc'
  -- the written buffer has its old length
  have hsame : ∀ a c, (if pool' = pool ∧ a = base then
      some (splice contents off ((List.range m).map bytes)) else h.buffer pool' a) = some c →
      ∃ c₀, h.buffer pool' a = some c₀ ∧ c₀.length = c.length := by
    intro a c hc
    by_cases hbase : pool' = pool ∧ a = base
    · rw [if_pos hbase, Option.some.injEq] at hc
      rw [hbase.1, hbase.2, ← hc]
      exact ⟨contents, hold, hlen.symm⟩
    · rw [if_neg hbase] at hc
      exact ⟨c, hc, rfl⟩
  obtain ⟨c₀, h₀, hl₀⟩ := hsame a c hc
  obtain ⟨c₁, h₁, hl₁⟩ := hsame b c' hc'
  rw [← hl₀, ← hl₁]
  exact ha pool' a b c₀ c₁ h₀ h₁ hne

theorem Step.apart {e : Op Pool Byte × Option ℕ} (ha : h.Apart) (hs : Step h e h') :
    h'.Apart := by
  cases hs with
  | refuse op => exact ha
  | reset pool r =>
    intro pool' a b c c' hc hc' hne
    rw [Heap.clear_buffer] at hc hc'
    split at hc
    · cases hc
    · next hp =>
      rw [if_neg hp] at hc'
      exact ha pool' a b c c' hc hc' hne
  | @alloc pool size a contents room unused =>
    intro pool' b b' c c' hc hc' hne
    rw [Heap.set_buffer] at hc hc'
    split at hc
    · next hb =>
      obtain ⟨rfl, rfl⟩ := hb
      cases hc
      rw [if_neg (fun hb' => hne hb'.2.symm)] at hc'
      exact unused.apart b' c' hc'
    · split at hc'
      · next hb' =>
        obtain ⟨rfl, rfl⟩ := hb'
        cases hc'
        exact (unused.apart b c hc).symm
      · exact ha pool' b b' c c' hc hc' hne
  | free pool a =>
    intro pool' b b' c c' hc hc' hne
    rw [Heap.set_buffer] at hc hc'
    split at hc
    · cases hc
    · split at hc'
      · cases hc'
      · exact ha pool' b b' c c' hc hc' hne
  | fill writes => exact writes.apart ha
  | store writes => exact writes.apart ha
  | load range frame whole => exact ha

theorem reachable_apart (hr : Reachable system h) : h.Apart := by
  refine @Reachable.invariant _ _ _ Heap.Apart ?_ ?_ _ hr
  · intro h hinit pool a b c c' hc
    rw [hinit] at hc
    cases hc
  · intro h e h' ha hs
    exact Step.apart ha hs

def Leaves (pool : Pool) (base size : ℕ) : Op Pool Byte → Prop
  | .reset pool' => pool' ≠ pool
  | .free pool' a => pool' ≠ pool ∨ a ≠ base
  | .fill pool' a n _ => pool' ≠ pool ∨ a + n ≤ base ∨ base + size ≤ a
  | .store pool' a n _ => pool' ≠ pool ∨ a + n ≤ base ∨ base + size ≤ a
  | .alloc _ _ | .load _ _ _ _ | .other => True

theorem splice_nil {α : Type} (contents : List α) (off : ℕ) :
    splice contents off [] = contents := by
  simp [splice]

theorem Writes.leaves {pool pool' : Pool} {addr n base : ℕ} {bytes : ℕ → Byte} {r : Option ℕ}
    {contents : List Byte} (hw : Writes h pool' addr n bytes r h')
    (hc : h.buffer pool base = some contents)
    (hl : pool' ≠ pool ∨ addr + n ≤ base ∨ base + contents.length ≤ addr) :
    h'.buffer pool base = some contents := by
  obtain ⟨base', off, m, c, range, hm, -, rfl, -⟩ := hw.buffer
  rw [Heap.set_buffer]
  split
  · next heq =>
    obtain ⟨rfl, rfl⟩ := heq
    obtain rfl : contents = c := Option.some.inj (hc.symm.trans range.buffer)
    have haddr := range.addr
    have hin := range.inside
    -- a range of the buffer that lies outside it is empty
    have hzero : m = 0 := by
      rcases hl with hne | hl
      · exact absurd rfl hne
      · omega
    rw [hzero, List.range_zero, List.map_nil, splice_nil]
  · exact hc

theorem Step.leaves {e : Op Pool Byte × Option ℕ} (hs : Step h e h') {pool : Pool} {base : ℕ}
    {contents : List Byte} (hc : h.buffer pool base = some contents)
    (hl : Leaves pool base contents.length e.1) : h'.buffer pool base = some contents := by
  cases hs with
  | refuse op => exact hc
  | reset pool' r =>
    rw [Heap.clear_buffer, if_neg (Ne.symm hl)]
    exact hc
  | @alloc pool' size a c room unused =>
    rw [Heap.set_buffer]
    split
    · next heq =>
      obtain ⟨rfl, rfl⟩ := heq
      rw [unused.fresh] at hc
      cases hc
    · exact hc
  | free pool' a =>
    rw [Heap.set_buffer]
    split
    · next heq =>
      obtain ⟨rfl, rfl⟩ := heq
      rcases hl with hne | hne <;> exact absurd rfl hne
    · exact hc
  | fill writes => exact writes.leaves hc hl
  | store writes => exact writes.leaves hc hl
  | load range frame whole => exact hc

/-- What a store has written to a buffer is what a load gets, after any operations that leave the
buffer alone. -/
theorem load_of_store {pool : Pool} {addr n source target a b : ℕ}
    {es : List (Op Pool Byte × Option ℕ)} {h₀ h₁ h₂ h₃ : Heap Pool Byte} (ha : h₀.Apart)
    (hstore : Step h₀ (.store pool addr n source, some a) h₁) (hpath : Path system h₁ es h₂)
    (hes : ∀ base off contents, h₀.InBuffer pool addr n base off contents →
      ∀ e ∈ es, Leaves pool base contents.length e.1)
    (hload : Step h₂ (.load pool addr n target, some b) h₃) :
    ∀ k < n, h₃.caller (target + k) = h₀.caller (source + k) := by
  intro k hk
  cases hstore with
  | store writes =>
    have hapart₁ := writes.apart ha
    obtain ⟨base, off, m, contents, range, -, whole, rfl, hlen⟩ := writes.buffer
    obtain rfl := whole rfl
    have hin := range.inside
    have hwritten := Heap.set_buffer h₀ pool base (some (splice contents off
      ((List.range m).map fun k => h₀.caller (source + k)))) pool base
    rw [if_pos ⟨rfl, rfl⟩] at hwritten
    have hstep : ∀ e ∈ es, ∀ h h' : Heap Pool Byte,
        h.Apart ∧ h.buffer pool base = some (splice contents off
          ((List.range m).map fun k => h₀.caller (source + k))) → Step h e h' →
        h'.Apart ∧ h'.buffer pool base = some (splice contents off
          ((List.range m).map fun k => h₀.caller (source + k))) := by
      rintro e he h h' ⟨hapart, hbuf⟩ hs
      have hl := hes base off contents range e he
      rw [← hlen] at hl
      exact ⟨hs.apart hapart, hs.leaves hbuf hl⟩
    obtain ⟨hapart₂, hkept⟩ := hpath.keeps hstep ⟨hapart₁, hwritten⟩
    cases hload with
    | @load _ _ _ _ base' off' contents' _ caller range' frame' whole' =>
      have haddr := range.addr
      have haddr' := range'.addr
      have hin' := range'.inside
      -- the two ranges are the same, so they lie in one buffer
      have hbase : base' = base := by
        by_contra hne
        rcases hapart₂ pool base' base _ _ range'.buffer hkept hne with hlt | hlt <;> omega
      subst hbase
      have hoff : off' = off := by omega
      have hsame := Option.some.inj (range'.buffer.symm.trans hkept)
      have hget := whole' rfl k hk
      rw [hsame, hoff, splice_get (by simpa using hin), if_pos (by simp; omega)] at hget
      simpa [hk] using hget.symm

end Buffers
