import Mathlib.Data.Nat.Notation
import Mathlib.Tactic.Ring

/-! # Striped memory

A linear address space is cut into stripes, dealt in turn to the banks of an array of
columns and rows. An address is one mixed-radix number: the offset in the stripe, the
column, the row and the stripe's position in its bank are its digits. -/
namespace Striping

structure Layout where
  stripe : ℕ
  columns : ℕ
  rows : ℕ
  stripe_pos : 0 < stripe
  columns_pos : 0 < columns
  rows_pos : 0 < rows

/-- A byte of one bank of the array. -/
structure Slot where
  column : ℕ
  row : ℕ
  offset : ℕ
  deriving DecidableEq, Repr

namespace Layout

variable (l : Layout)

def locate (a : ℕ) : Slot where
  column := a / l.stripe % l.columns
  row := a / l.stripe / l.columns % l.rows
  offset := a % l.stripe + l.stripe * (a / l.stripe / l.columns / l.rows)

def address (b : Slot) : ℕ :=
  b.offset % l.stripe +
    l.stripe * (b.column + l.columns * (b.row + l.rows * (b.offset / l.stripe)))

def band : ℕ := l.stripe * l.columns * l.rows

def InArray (b : Slot) : Prop := b.column < l.columns ∧ b.row < l.rows

theorem locate_inArray (a : ℕ) : l.InArray (l.locate a) :=
  ⟨Nat.mod_lt _ l.columns_pos, Nat.mod_lt _ l.rows_pos⟩

theorem locate_offset_mod (a : ℕ) : (l.locate a).offset % l.stripe = a % l.stripe := by
  simp [locate]

theorem locate_offset_div (a : ℕ) :
    (l.locate a).offset / l.stripe = a / l.stripe / l.columns / l.rows := by
  have hm : a % l.stripe < l.stripe := Nat.mod_lt _ l.stripe_pos
  rw [locate, Nat.add_mul_div_left _ _ l.stripe_pos, Nat.div_eq_of_lt hm, Nat.zero_add]

theorem address_locate (a : ℕ) : l.address (l.locate a) = a := by
  rw [address, locate_offset_mod, locate_offset_div]
  simp only [locate]
  rw [Nat.mod_add_div (a / l.stripe / l.columns), Nat.mod_add_div (a / l.stripe),
    Nat.mod_add_div]

theorem locate_address {b : Slot} (h : l.InArray b) : l.locate (l.address b) = b := by
  obtain ⟨hc, hr⟩ := h
  have hm : b.offset % l.stripe < l.stripe := Nat.mod_lt _ l.stripe_pos
  have hs : l.address b / l.stripe =
      b.column + l.columns * (b.row + l.rows * (b.offset / l.stripe)) := by
    rw [address, Nat.add_mul_div_left _ _ l.stripe_pos, Nat.div_eq_of_lt hm, Nat.zero_add]
  have hq : l.address b / l.stripe / l.columns = b.row + l.rows * (b.offset / l.stripe) := by
    rw [hs, Nat.add_mul_div_left _ _ l.columns_pos, Nat.div_eq_of_lt hc, Nat.zero_add]
  have ht : l.address b / l.stripe / l.columns / l.rows = b.offset / l.stripe := by
    rw [hq, Nat.add_mul_div_left _ _ l.rows_pos, Nat.div_eq_of_lt hr, Nat.zero_add]
  have ho : l.address b % l.stripe = b.offset % l.stripe := by simp [address]
  rw [locate, ht, hq, hs, ho, Nat.mod_add_div, Nat.add_mul_mod_self_left,
    Nat.add_mul_mod_self_left, Nat.mod_eq_of_lt hc, Nat.mod_eq_of_lt hr]

/-- Inside one stripe the bank stays and the offset follows the address. -/
theorem locate_add {a i : ℕ} (h : a % l.stripe + i < l.stripe) :
    l.locate (a + i) = { l.locate a with offset := (l.locate a).offset + i } := by
  have hd : (a + i) / l.stripe = a / l.stripe := by
    conv_lhs => rw [← Nat.mod_add_div a l.stripe]
    rw [show a % l.stripe + l.stripe * (a / l.stripe) + i =
        a % l.stripe + i + l.stripe * (a / l.stripe) by ring,
      Nat.add_mul_div_left _ _ l.stripe_pos, Nat.div_eq_of_lt h, Nat.zero_add]
  have hm : (a + i) % l.stripe = a % l.stripe + i := by
    rw [← Nat.mod_add_mod, Nat.mod_eq_of_lt h]
  simp only [locate, hd, hm, Slot.mk.injEq, true_and]
  ring

theorem address_lt_band {b : Slot} (h : l.InArray b) (n : ℕ) :
    l.address b < l.band * n ↔ b.offset < l.stripe * n := by
  have hb : l.address b / l.band = b.offset / l.stripe := by
    have hl := locate_offset_div l (l.address b)
    rw [l.locate_address h] at hl
    rw [hl, band, Nat.div_div_eq_div_mul, Nat.div_div_eq_div_mul, ← Nat.mul_assoc]
  have hp : 0 < l.band :=
    Nat.mul_pos (Nat.mul_pos l.stripe_pos l.columns_pos) l.rows_pos
  rw [Nat.mul_comm l.band, Nat.mul_comm l.stripe, ← Nat.div_lt_iff_lt_mul hp,
    ← Nat.div_lt_iff_lt_mul l.stripe_pos, hb]

end Layout

end Striping
