import ManycoreRuntime.ByteStore
import ManycoreRuntime.Coordinate
import ManycoreRuntime.Fallible
import Mathlib.Data.List.Infix

/-! # Program files

A 32-bit ELF file is a buffer of bytes, and every field of its headers is data that nobody has
checked. A read outside the buffer and a division by zero are failures of their own, beside the
error codes. -/
namespace ElfImage

open Fallible (bind_eq_ok)
open ByteStore
open Coordinate (Errno)

abbrev Image := List UInt8

inductive Failure where
  | code (e : Errno)
  | outOfBounds
  | divideByZero
  deriving DecidableEq, Repr

def Safe {α : Type} : Except Failure α → Prop
  | .ok _ | .error (.code _) => True
  | .error _ => False

instance {α : Type} (r : Except Failure α) : Decidable (Safe r) :=
  match r with
  | .ok _ | .error (.code _) => inferInstanceAs (Decidable True)
  | .error .outOfBounds | .error .divideByZero => inferInstanceAs (Decidable False)

def check (cond : Bool) (e : Errno) : Except Failure Unit :=
  if cond then .ok () else .error (.code e)

/-- The little-endian word at an offset; bytes behind the buffer count as zero. -/
def word (bin : Image) (off : ℕ) : UInt32 := packWord fun j => bin.getD (off + j) 0

def half (bin : Image) (off : ℕ) : UInt16 :=
  UInt16.ofNat ((bin.getD off 0).toNat + 2 ^ 8 * (bin.getD (off + 1) 0).toNat)

def readByte (bin : Image) (off : ℕ) : Except Failure UInt8 :=
  if off < bin.length then .ok (bin.getD off 0) else .error .outOfBounds

def readHalf (bin : Image) (off : ℕ) : Except Failure UInt16 :=
  if off + 2 ≤ bin.length then .ok (half bin off) else .error .outOfBounds

def readWord (bin : Image) (off : ℕ) : Except Failure UInt32 :=
  if off + 4 ≤ bin.length then .ok (word bin off) else .error .outOfBounds

def div (n d : UInt32) : Except Failure UInt32 :=
  if d = 0 then .error .divideByZero else .ok (n / d)

section Lemmas

variable {α β : Type} {bin : Image} {off : ℕ}

@[simp] theorem safe_ok (a : α) : Safe (Except.ok a : Except Failure α) := trivial

@[simp] theorem safe_code (e : Errno) : Safe (Except.error (.code e) : Except Failure α) := trivial

@[simp] theorem safe_pure (a : α) : Safe (pure a : Except Failure α) := trivial

theorem safe_bind {x : Except Failure α} {f : α → Except Failure β} :
    Safe (x >>= f) ↔ Safe x ∧ ∀ a, x = .ok a → Safe (f a) := by
  cases x with
  | ok a => simp [bind, Except.bind]
  | error e => cases e <;> simp [bind, Except.bind, Safe]

@[simp] theorem safe_check (cond : Bool) (e : Errno) : Safe (check cond e) := by
  unfold check
  split <;> trivial

theorem check_eq_ok {cond : Bool} {e : Errno} {u : Unit} :
    check cond e = .ok u ↔ cond = true := by
  unfold check
  by_cases h : cond = true <;> simp [h]

@[simp] theorem safe_readByte : Safe (readByte bin off) ↔ off < bin.length := by
  unfold readByte
  by_cases h : off < bin.length <;> simp [h, Safe]

@[simp] theorem safe_readHalf : Safe (readHalf bin off) ↔ off + 2 ≤ bin.length := by
  unfold readHalf
  by_cases h : off + 2 ≤ bin.length <;> simp [h, Safe]

@[simp] theorem safe_readWord : Safe (readWord bin off) ↔ off + 4 ≤ bin.length := by
  unfold readWord
  by_cases h : off + 4 ≤ bin.length <;> simp [h, Safe]

theorem readByte_eq_ok {b : UInt8} :
    readByte bin off = .ok b ↔ off < bin.length ∧ bin.getD off 0 = b := by
  unfold readByte
  by_cases h : off < bin.length <;> simp [h]

theorem readHalf_eq_ok {v : UInt16} :
    readHalf bin off = .ok v ↔ off + 2 ≤ bin.length ∧ half bin off = v := by
  unfold readHalf
  by_cases h : off + 2 ≤ bin.length <;> simp [h]

theorem readWord_eq_ok {v : UInt32} :
    readWord bin off = .ok v ↔ off + 4 ≤ bin.length ∧ word bin off = v := by
  unfold readWord
  by_cases h : off + 4 ≤ bin.length <;> simp [h]

@[simp] theorem safe_div {n d : UInt32} : Safe (div n d) ↔ d ≠ 0 := by
  unfold div
  by_cases h : d = 0 <;> simp [h, Safe]

theorem div_eq_ok {n d q : UInt32} : div n d = .ok q ↔ d ≠ 0 ∧ n / d = q := by
  unfold div
  by_cases h : d = 0 <;> simp [h]

end Lemmas

def sizeofEhdr : ℕ := 52

def sizeofPhdr : ℕ := 32

def sizeofShdr : ℕ := 40

def sizeofSym : ℕ := 16

def elfmag : List UInt8 := [0x7f, 0x45, 0x4c, 0x46]

def elfclass32 : UInt8 := 1

def elfdata2lsb : UInt8 := 1

def etExec : UInt16 := 2

def emRiscv : UInt16 := 243

def eType : ℕ := 16

def eMachine : ℕ := 18

def ePhoff : ℕ := 28

def eShoff : ℕ := 32

def ePhnum : ℕ := 44

def eShnum : ℕ := 48

/-- The length is checked before any field is read. -/
def elfValidate (elf : Option Image) : Except Failure Unit :=
  match elf with
  | none => .error (.code .invalid)
  | some bin => do
    check (sizeofEhdr ≤ bin.length) .invalid
    check (bin.take 4 == elfmag) .invalid
    let cls ← readByte bin 4
    check (cls == elfclass32) .invalid
    let data ← readByte bin 5
    check (data == elfdata2lsb) .invalid
    let type ← readHalf bin eType
    check (type == etExec) .invalid
    let machine ← readHalf bin eMachine
    check (machine == emRiscv) .invalid

theorem elfValidate_safe (elf : Option Image) : Safe (elfValidate elf) := by
  cases elf with
  | none => trivial
  | some bin =>
    simp only [elfValidate, safe_bind, safe_check, true_and, check_eq_ok, decide_eq_true_eq,
      safe_readByte, safe_readHalf, eType, eMachine]
    intro _ hlen _ _
    unfold sizeofEhdr at hlen
    refine ⟨by omega, fun _ _ _ _ => ⟨by omega, fun _ _ _ _ => ⟨by omega, fun _ _ _ _ => ?_⟩⟩⟩
    exact ⟨by omega, fun _ _ => trivial⟩

theorem length_of_elfValidate {bin : Image} {u : Unit} (h : elfValidate (some bin) = .ok u) :
    sizeofEhdr ≤ bin.length := by
  simp only [elfValidate, bind_eq_ok, check_eq_ok, decide_eq_true_eq] at h
  obtain ⟨_, hlen, -⟩ := h
  exact hlen

section Header

variable {bin : Image} (hlen : sizeofEhdr ≤ bin.length)

include hlen

theorem read_eShoff : readWord bin eShoff = .ok (word bin eShoff) :=
  if_pos (hlen.trans' (by decide))

theorem read_eShnum : readHalf bin eShnum = .ok (half bin eShnum) :=
  if_pos (hlen.trans' (by decide))

end Header

end ElfImage
