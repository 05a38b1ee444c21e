import Mathlib.Data.List.Infix
import Mathlib.Data.List.Flatten
import Mathlib.Data.Nat.Notation
import Mathlib.Logic.Function.Basic

/-! # Framing

Elements written one after the other as blocks of one length. A stream determines its elements,
and what was read of it up to a block's end is a stream itself. -/
namespace Framing

universe u v

/-- Every element is written as a block of `n` letters, and no two as the same. -/
structure Code {α : Type u} {β : Type v} (enc : α → List β) (n : ℕ) : Prop where
  pos : 0 < n
  length : ∀ a, (enc a).length = n
  injective : Function.Injective enc

variable {α : Type u} {β : Type v} {enc : α → List β} {n : ℕ}

def stream (enc : α → List β) (l : List α) : List β := l.flatMap enc

@[simp] theorem stream_nil : stream enc [] = [] := rfl

@[simp] theorem stream_cons (a : α) (l : List α) : stream enc (a :: l) = enc a ++ stream enc l :=
  rfl

@[simp] theorem stream_append (l m : List α) :
    stream enc (l ++ m) = stream enc l ++ stream enc m :=
  List.flatMap_append

namespace Code

theorem length_stream (h : Code enc n) (l : List α) : (stream enc l).length = n * l.length := by
  induction l with
  | nil => rfl
  | cons a l ih => rw [stream_cons, List.length_append, h.length, ih, List.length_cons,
      Nat.mul_succ, Nat.add_comm]

theorem cons_cancel (h : Code enc n) {a b : α} {xs ys : List β} (heq : enc a ++ xs = enc b ++ ys) :
    a = b ∧ xs = ys := by
  have hlen : (enc a).length = (enc b).length := (h.length a).trans (h.length b).symm
  obtain ⟨hab, hxy⟩ := List.append_inj heq hlen
  exact ⟨h.injective hab, hxy⟩

theorem isPrefix (h : Code enc n) {l m : List α} (hpre : stream enc l <+: stream enc m) :
    l <+: m := by
  induction l generalizing m with
  | nil => exact List.nil_prefix
  | cons a l ih =>
    obtain ⟨rest, hrest⟩ := hpre
    cases m with
    | nil =>
      have hlen := congrArg List.length hrest
      have hpos := h.pos
      rw [stream_cons, List.length_append, List.length_append, h.length, stream_nil,
        List.length_nil] at hlen
      omega
    | cons b m =>
      rw [stream_cons, stream_cons, List.append_assoc] at hrest
      obtain ⟨rfl, htail⟩ := h.cons_cancel hrest
      exact List.cons_prefix_cons.mpr ⟨rfl, ih ⟨rest, htail⟩⟩

theorem take_stream (h : Code enc n) (l : List α) (k : ℕ) :
    (stream enc l).take (n * k) = stream enc (l.take k) := by
  induction l generalizing k with
  | nil => rw [stream_nil, List.take_nil, List.take_nil, stream_nil]
  | cons a l ih =>
    cases k with
    | zero => rfl
    | succ k =>
      have hlen : n * (k + 1) = (enc a).length + n * k := by
        rw [h.length, Nat.mul_succ, Nat.add_comm]
      rw [stream_cons, hlen, List.take_length_add_append, ih, List.take_succ_cons, stream_cons]

/-- What was read up to a block's end is the stream of the first elements. -/
theorem whole_of_prefix (h : Code enc n) {read : List β} {l : List α}
    (hpre : read <+: stream enc l) (hdvd : read.length % n = 0) :
    read = stream enc (l.take (read.length / n)) := by
  have hmul : n * (read.length / n) = read.length :=
    Nat.mul_div_cancel' (Nat.dvd_of_mod_eq_zero hdvd)
  rw [← h.take_stream, hmul]
  exact List.prefix_iff_eq_take.mp hpre

/-- Of a stream that is read up to somewhere in a block, the blocks that are whole are the first
elements, and the rest of what is read begins the block of the next one. -/
theorem delivered (h : Code enc n) {l m : List α} {part rest : List β}
    (heq : stream enc l ++ part ++ rest = stream enc m) (hpart : part.length < n) :
    l = m.take l.length ∧ (part = [] ∨ ∃ a, m[l.length]? = some a ∧ part <+: enc a) := by
  have hlm : l <+: m := by
    apply h.isPrefix
    rw [List.append_assoc] at heq
    exact ⟨part ++ rest, heq⟩
  refine ⟨List.prefix_iff_eq_take.mp hlm, ?_⟩
  obtain ⟨tail, rfl⟩ := hlm
  rw [stream_append, List.append_assoc] at heq
  have hnext := List.append_cancel_left heq
  cases tail with
  | nil =>
    left
    exact (List.append_eq_nil_iff.mp hnext).1
  | cons a tail =>
    right
    refine ⟨a, ?_, ?_⟩
    · rw [List.getElem?_append_right le_rfl, Nat.sub_self]
      rfl
    · rw [stream_cons] at hnext
      have hle : part.length ≤ (enc a).length := by
        rw [h.length]
        omega
      exact List.prefix_of_prefix_length_le ⟨rest, hnext⟩ (List.prefix_append _ _) hle

end Code

end Framing
