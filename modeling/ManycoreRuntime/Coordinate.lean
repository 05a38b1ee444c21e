import Mathlib.Data.Nat.Notation
import Mathlib.Data.List.Basic
import Mathlib.Tactic.Ring
import Mathlib.Tactic.Linarith

/-! # Coordinates of the network

Error codes, coordinates and the row-by-row scan over a rectangle of coordinates.
Indices are 32-bit and wrap as the runtime's do. -/
namespace Coordinate

/-- The error codes. `undefined` is not one of them: it marks an evaluation that the
language leaves undefined, such as a shift by at least the width of the word. -/
inductive Errno where
  | fail
  | timeout
  | uninitialized
  | invalid
  | nomem
  | noimpl
  | notfound
  | busy
  | unaligned
  | ioverflow
  | undefined
  deriving DecidableEq, Repr

structure Coord where
  x : UInt32
  y : UInt32
  deriving DecidableEq, Repr

abbrev Dimension := Coord

def add (first second : Coord) : Coord := ⟨first.x + second.x, first.y + second.y⟩

def getRelative (origin coord : Coord) : Coord := ⟨coord.x - origin.x, coord.y - origin.y⟩

def toIndex (coord : Coord) (dim : Dimension) : UInt32 := coord.x * dim.y + coord.y

def toLength (dim : Dimension) : UInt32 := dim.x * dim.y

def subSafe (first second : Coord) : Except Errno Coord :=
  if first.x < second.x ∨ first.y < second.y then .error .ioverflow
  else .ok ⟨first.x - second.x, first.y - second.y⟩

def next (now origin dim : Coord) : Coord :=
  let y := now.y + 1
  if y ≥ origin.y + dim.y then ⟨now.x + 1, origin.y⟩ else ⟨now.x, y⟩

def stop (now origin dim : Coord) : Bool :=
  now.x ≥ origin.x + dim.x || now.y ≥ origin.y + dim.y

def scanFrom (origin dim : Coord) : ℕ → Coord → List Coord
  | 0, _ => []
  | fuel + 1, now =>
    if stop now origin dim then [] else now :: scanFrom origin dim fuel (next now origin dim)

/-- The coordinates that `foreach_coordinate` visits, in order. -/
def foreachCoordinate (origin dim : Coord) : List Coord :=
  scanFrom origin dim (dim.x.toNat * dim.y.toNat) origin

/-- The rectangle `[origin, origin + dim)`, with sums that do not wrap. -/
def InRect (origin dim c : Coord) : Prop :=
  origin.x.toNat ≤ c.x.toNat ∧ c.x.toNat < origin.x.toNat + dim.x.toNat ∧
  origin.y.toNat ≤ c.y.toNat ∧ c.y.toNat < origin.y.toNat + dim.y.toNat

instance (origin dim c : Coord) : Decidable (InRect origin dim c) :=
  inferInstanceAs (Decidable (_ ≤ _ ∧ _ < _ ∧ _ ≤ _ ∧ _ < _))

structure NoWrap (origin dim : Coord) : Prop where
  x : origin.x.toNat + dim.x.toNat < 2 ^ 32
  y : origin.y.toNat + dim.y.toNat < 2 ^ 32

instance (origin dim : Coord) : Decidable (NoWrap origin dim) :=
  decidable_of_iff (_ < 2 ^ 32 ∧ _ < 2 ^ 32) ⟨fun h => ⟨h.1, h.2⟩, fun h => ⟨h.x, h.y⟩⟩

theorem noWrap_zero (dim : Coord) : NoWrap ⟨0, 0⟩ dim := by
  refine ⟨?_, ?_⟩
  · rw [UInt32.toNat_zero, Nat.zero_add]
    exact dim.x.toNat_lt
  · rw [UInt32.toNat_zero, Nat.zero_add]
    exact dim.y.toNat_lt

theorem coord_eq {a b : Coord} (hx : a.x.toNat = b.x.toNat) (hy : a.y.toNat = b.y.toNat) :
    a = b := by
  cases a
  cases b
  simp_all [UInt32.toNat_inj]

section Scan

variable {origin dim : Coord}

theorem end_toNat (h : NoWrap origin dim) :
    (origin.x + dim.x).toNat = origin.x.toNat + dim.x.toNat ∧
    (origin.y + dim.y).toNat = origin.y.toNat + dim.y.toNat := by
  have hx := h.x
  have hy := h.y
  rw [UInt32.toNat_add, UInt32.toNat_add]
  omega

theorem stop_iff (h : NoWrap origin dim) (now : Coord) :
    stop now origin dim = true ↔
      origin.x.toNat + dim.x.toNat ≤ now.x.toNat ∨
      origin.y.toNat + dim.y.toNat ≤ now.y.toNat := by
  obtain ⟨hx, hy⟩ := end_toNat h
  simp [stop, UInt32.le_iff_toNat_le, hx, hy]

theorem next_toNat (h : NoWrap origin dim) {now : Coord} (hn : InRect origin dim now) :
    (now.y.toNat + 1 < origin.y.toNat + dim.y.toNat ∧
      (next now origin dim).x.toNat = now.x.toNat ∧
      (next now origin dim).y.toNat = now.y.toNat + 1) ∨
    (now.y.toNat + 1 = origin.y.toNat + dim.y.toNat ∧
      (next now origin dim).x.toNat = now.x.toNat + 1 ∧
      (next now origin dim).y.toNat = origin.y.toNat) := by
  obtain ⟨hx, hy⟩ := end_toNat h
  obtain ⟨h1, h2, h3, h4⟩ := hn
  have hb := h.x
  have hc := h.y
  have hy1 : (now.y + 1).toNat = now.y.toNat + 1 := by
    rw [UInt32.toNat_add]
    simp only [UInt32.reduceToNat]
    omega
  have hx1 : (now.x + 1).toNat = now.x.toNat + 1 := by
    rw [UInt32.toNat_add]
    simp only [UInt32.reduceToNat]
    omega
  have hge : (now.y + 1 ≥ origin.y + dim.y) ↔
      origin.y.toNat + dim.y.toNat ≤ now.y.toNat + 1 := by
    rw [ge_iff_le, UInt32.le_iff_toNat_le, hy, hy1]
  by_cases hw : now.y + 1 ≥ origin.y + dim.y
  · have he : next now origin dim = ⟨now.x + 1, origin.y⟩ := if_pos hw
    rw [hge] at hw
    exact Or.inr ⟨by omega, by rw [he, hx1], by rw [he]⟩
  · have he : next now origin dim = ⟨now.x, now.y + 1⟩ := if_neg hw
    rw [hge] at hw
    exact Or.inl ⟨by omega, by rw [he], by rw [he, hy1]⟩

def Remaining (origin dim now c : Coord) : Prop :=
  InRect origin dim c ∧ (now.x.toNat < c.x.toNat ∨
    (now.x.toNat = c.x.toNat ∧ now.y.toNat ≤ c.y.toNat))

theorem remaining_step (h : NoWrap origin dim) {now : Coord} (hn : InRect origin dim now)
    (c : Coord) :
    Remaining origin dim now c ↔ c = now ∨ Remaining origin dim (next now origin dim) c := by
  have hstep := next_toNat h hn
  constructor
  · rintro ⟨hc, hlt⟩
    by_cases he : c = now
    · exact Or.inl he
    · refine Or.inr ⟨hc, ?_⟩
      have hne : ¬ (c.x.toNat = now.x.toNat ∧ c.y.toNat = now.y.toNat) :=
        fun hq => he (coord_eq hq.1 hq.2)
      unfold InRect at hc hn
      omega
  · rintro (rfl | ⟨hc, hlt⟩)
    · exact ⟨hn, Or.inr ⟨rfl, le_rfl⟩⟩
    · refine ⟨hc, ?_⟩
      unfold InRect at hc hn
      omega

def turnsLeft (origin dim now : Coord) : ℕ :=
  (origin.x.toNat + dim.x.toNat - now.x.toNat) * dim.y.toNat + origin.y.toNat - now.y.toNat

theorem turnsLeft_step (h : NoWrap origin dim) {now : Coord} (hn : InRect origin dim now) :
    turnsLeft origin dim now = turnsLeft origin dim (next now origin dim) + 1 := by
  have hstep := next_toNat h hn
  obtain ⟨h1, h2, h3, h4⟩ := hn
  obtain ⟨k, hk⟩ : ∃ k, origin.x.toNat + dim.x.toNat - now.x.toNat = k + 1 :=
    ⟨origin.x.toNat + dim.x.toNat - now.x.toNat - 1, by omega⟩
  unfold turnsLeft
  rcases hstep with ⟨hlt, hx, hy⟩ | ⟨hlt, hx, hy⟩
  · rw [hx, hy, hk, Nat.add_mul]
    omega
  · have hk' : origin.x.toNat + dim.x.toNat - (next now origin dim).x.toNat = k := by omega
    rw [hk', hy, hk, Nat.add_mul]
    omega

theorem mem_scanFrom (h : NoWrap origin dim) {fuel : ℕ} {now : Coord}
    (hx : origin.x.toNat ≤ now.x.toNat) (hy : origin.y.toNat ≤ now.y.toNat)
    (hy' : now.y.toNat < origin.y.toNat + dim.y.toNat)
    (hf : turnsLeft origin dim now ≤ fuel) (c : Coord) :
    c ∈ scanFrom origin dim fuel now ↔ Remaining origin dim now c := by
  induction fuel generalizing now with
  | zero =>
    simp only [scanFrom, List.not_mem_nil, false_iff]
    rintro ⟨⟨h1, h2, h3, h4⟩, hlt⟩
    have hk : 1 ≤ origin.x.toNat + dim.x.toNat - now.x.toNat := by omega
    have hm := Nat.mul_le_mul_right dim.y.toNat hk
    unfold turnsLeft at hf
    omega
  | succ fuel ih =>
    by_cases hs : stop now origin dim = true
    · simp only [scanFrom, hs, if_true, List.not_mem_nil, false_iff]
      rw [stop_iff h] at hs
      rintro ⟨⟨h1, h2, h3, h4⟩, hlt⟩
      omega
    · have hs' := hs
      rw [stop_iff h] at hs'
      have hn : InRect origin dim now := ⟨hx, by omega, hy, by omega⟩
      have hstep := next_toNat h hn
      have hleft := turnsLeft_step h hn
      simp only [scanFrom, hs, Bool.false_eq_true, if_false, List.mem_cons]
      rw [remaining_step h hn, ih (by omega) (by omega) (by omega) (by omega)]

theorem foreachCoordinate_of_wrap (h : ¬ NoWrap origin dim) :
    foreachCoordinate origin dim = [] := by
  have hs : stop origin origin dim = true := by
    have hx := origin.x.toNat_lt
    have hy := origin.y.toNat_lt
    have hdx := dim.x.toNat_lt
    have hdy := dim.y.toNat_lt
    have hw : 2 ^ 32 ≤ origin.x.toNat + dim.x.toNat ∨ 2 ^ 32 ≤ origin.y.toNat + dim.y.toNat := by
      by_contra hc
      rw [not_or, Nat.not_le, Nat.not_le] at hc
      exact h ⟨hc.1, hc.2⟩
    simp only [stop, ge_iff_le, Bool.or_eq_true, decide_eq_true_eq, UInt32.le_iff_toNat_le,
      UInt32.toNat_add]
    omega
  unfold foreachCoordinate
  cases dim.x.toNat * dim.y.toNat with
  | zero => rfl
  | succ fuel => simp only [scanFrom, hs, if_true]

/-- The scan visits exactly the rectangle. -/
theorem mem_foreachCoordinate (h : NoWrap origin dim) (c : Coord) :
    c ∈ foreachCoordinate origin dim ↔ InRect origin dim c := by
  by_cases hd : dim.y.toNat = 0
  · have hs : foreachCoordinate origin dim = [] := by simp [foreachCoordinate, hd, scanFrom]
    rw [hs]
    simp only [List.not_mem_nil, false_iff]
    rintro ⟨h1, h2, h3, h4⟩
    omega
  · have hf : turnsLeft origin dim origin ≤ dim.x.toNat * dim.y.toNat := by
      simp [turnsLeft]
    rw [foreachCoordinate, mem_scanFrom h le_rfl le_rfl (by omega) hf]
    constructor
    · exact fun hr => hr.1
    · rintro hr
      refine ⟨hr, ?_⟩
      unfold InRect at hr
      omega

theorem inRect_of_mem {c : Coord} (hc : c ∈ foreachCoordinate origin dim) :
    NoWrap origin dim ∧ InRect origin dim c := by
  by_cases h : NoWrap origin dim
  · exact ⟨h, (mem_foreachCoordinate h c).mp hc⟩
  · rw [foreachCoordinate_of_wrap h] at hc
    cases hc

theorem scanFrom_nodup (h : NoWrap origin dim) {fuel : ℕ} {now : Coord}
    (hx : origin.x.toNat ≤ now.x.toNat) (hy : origin.y.toNat ≤ now.y.toNat) :
    (∀ c ∈ scanFrom origin dim fuel now, now.x.toNat < c.x.toNat ∨
      (now.x.toNat = c.x.toNat ∧ now.y.toNat ≤ c.y.toNat)) ∧
    (scanFrom origin dim fuel now).Nodup := by
  induction fuel generalizing now with
  | zero => simp [scanFrom]
  | succ fuel ih =>
    by_cases hs : stop now origin dim = true
    · simp [scanFrom, hs]
    · have hs' := hs
      rw [stop_iff h] at hs'
      have hn : InRect origin dim now := ⟨hx, by omega, hy, by omega⟩
      have hstep := next_toNat h hn
      obtain ⟨hlater, hnd⟩ := @ih (next now origin dim) (by omega) (by omega)
      simp only [scanFrom, hs, Bool.false_eq_true, if_false, List.mem_cons, List.nodup_cons]
      refine ⟨?_, ?_, hnd⟩
      · rintro c (rfl | hc)
        · exact Or.inr ⟨rfl, le_rfl⟩
        · have := hlater c hc
          omega
      · intro hmem
        have := hlater now hmem
        omega

theorem length_scanFrom (h : NoWrap origin dim) {fuel : ℕ} {now : Coord}
    (hx : origin.x.toNat ≤ now.x.toNat) (hx' : now.x.toNat ≤ origin.x.toNat + dim.x.toNat)
    (hy : origin.y.toNat ≤ now.y.toNat) (hy' : now.y.toNat < origin.y.toNat + dim.y.toNat)
    (hend : now.x.toNat = origin.x.toNat + dim.x.toNat → now.y = origin.y)
    (hf : turnsLeft origin dim now ≤ fuel) :
    (scanFrom origin dim fuel now).length = turnsLeft origin dim now := by
  induction fuel generalizing now with
  | zero => exact (Nat.le_zero.mp hf).symm
  | succ fuel ih =>
    by_cases hs : stop now origin dim = true
    · have hs' := hs
      rw [stop_iff h] at hs'
      have hxe : now.x.toNat = origin.x.toNat + dim.x.toNat := by omega
      simp only [scanFrom, hs, if_true, List.length_nil, turnsLeft, hxe, hend hxe]
      simp
    · have hs' := hs
      rw [stop_iff h] at hs'
      have hn : InRect origin dim now := ⟨hx, by omega, hy, by omega⟩
      have hstep := next_toNat h hn
      have hleft := turnsLeft_step h hn
      have hyend : (next now origin dim).x.toNat = origin.x.toNat + dim.x.toNat →
          (next now origin dim).y = origin.y := by
        intro he
        rw [← UInt32.toNat_inj]
        omega
      simp only [scanFrom, hs, Bool.false_eq_true, if_false, List.length_cons]
      rw [ih (by omega) (by omega) (by omega) (by omega) hyend (by omega), hleft]

/-- The scan visits each coordinate of the rectangle once. -/
theorem length_foreachCoordinate (h : NoWrap origin dim) :
    (foreachCoordinate origin dim).length = dim.x.toNat * dim.y.toNat := by
  have hleft : turnsLeft origin dim origin = dim.x.toNat * dim.y.toNat := by simp [turnsLeft]
  by_cases hd : dim.y.toNat = 0
  · rw [foreachCoordinate, hd, Nat.mul_zero]
    rfl
  · rw [foreachCoordinate, length_scanFrom h le_rfl (Nat.le_add_right _ _) le_rfl (by omega)
      (fun _ => rfl) hleft.le, hleft]

theorem foreachCoordinate_nodup (h : NoWrap origin dim) :
    (foreachCoordinate origin dim).Nodup :=
  (scanFrom_nodup h le_rfl le_rfl).2

end Scan

theorem row_column_inj {n a a' b b' : ℕ} (hb : b < n) (hb' : b' < n)
    (h : a * n + b = a' * n + b') : a = a' ∧ b = b' := by
  have hpos : 0 < n := Nat.zero_lt_of_lt hb
  obtain ⟨hdiv, hmod⟩ := (Nat.div_mod_unique hpos).mpr ⟨Nat.add_comm b (n * a), hb⟩
  obtain ⟨hdiv', hmod'⟩ := (Nat.div_mod_unique hpos).mpr ⟨Nat.add_comm b' (n * a'), hb'⟩
  rw [Nat.mul_comm a, Nat.mul_comm a'] at h
  rw [h] at hdiv hmod
  exact ⟨hdiv.symm.trans hdiv', hmod.symm.trans hmod'⟩

end Coordinate
