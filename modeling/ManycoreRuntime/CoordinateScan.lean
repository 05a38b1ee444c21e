import ManycoreRuntime.Loops
import ManycoreRuntime.PodMalloc

/-! # The two scans over a rectangle

`foreach_coordinate` moves a coordinate, `foreach_x_y` a pair of indices. Both go through the
rectangle column by column of `x`, and the place of a coordinate in the scan is its index. -/
namespace CoordinateScan

open Coordinate Loops
open PodMalloc (indexToCoordinate)

variable {origin dim : Coord}

def nextXY (now origin dim : Coord) : Coord :=
  if now.y + 1 ≥ origin.y + dim.y then ⟨now.x + 1, origin.y⟩ else ⟨now.x, now.y + 1⟩

/-- The scan of `foreach_x_y` tests `x` alone. -/
def scanXY (origin dim : Coord) : ℕ → List Coord :=
  fun fuel => visited (fun now => now.x < origin.x + dim.x) (nextXY · origin dim) fuel origin

/-- The pairs that `foreach_x_y` visits, in order. An index `y` that wraps around comes back to
its end after at most `2 ^ 32` turns, so the turns are enough for every rectangle. -/
def foreachXY (origin dim : Coord) : List Coord :=
  scanXY origin dim (dim.x.toNat * 2 ^ 32)

theorem nextXY_eq_next (now origin dim : Coord) : nextXY now origin dim = next now origin dim :=
  rfl

theorem scanFrom_eq_visited (fuel : ℕ) (now : Coord) :
    scanFrom origin dim fuel now =
      visited (fun now => !stop now origin dim) (next · origin dim) fuel now := by
  induction fuel generalizing now with
  | zero => rfl
  | succ fuel ih => cases h : stop now origin dim <;> simp [scanFrom, visited, h, ih]

def place (origin dim : Coord) (i : ℕ) : Coord := add origin (indexToCoordinate i dim)

theorem place_zero : place origin dim 0 = origin := by
  apply coord_eq <;> simp [place, add, indexToCoordinate]

theorem place_toNat (h : NoWrap origin dim) (hy : 0 < dim.y.toNat) {i : ℕ}
    (hi : i ≤ dim.x.toNat * dim.y.toNat) :
    (place origin dim i).x.toNat = origin.x.toNat + i / dim.y.toNat ∧
    (place origin dim i).y.toNat = origin.y.toNat + i % dim.y.toNat := by
  have hx := h.x
  have hyw := h.y
  have hdiv : i / dim.y.toNat ≤ dim.x.toNat := by
    apply Nat.div_le_of_le_mul
    rw [Nat.mul_comm]
    exact hi
  have hmod := Nat.mod_lt i hy
  simp only [place, add, indexToCoordinate, UInt32.toNat_add, UInt32.toNat_ofNat']
  generalize i / dim.y.toNat = column at *
  generalize i % dim.y.toNat = row at *
  constructor <;> omega

theorem div_lt_of_lt {i m n : ℕ} (hi : i < m * n) : i / n < m := by
  apply Nat.div_lt_of_lt_mul
  rw [Nat.mul_comm]
  exact hi

theorem inRect_place (h : NoWrap origin dim) (hy : 0 < dim.y.toNat) {i : ℕ}
    (hi : i < dim.x.toNat * dim.y.toNat) : InRect origin dim (place origin dim i) := by
  obtain ⟨hpx, hpy⟩ := place_toNat h hy hi.le
  have hdiv := div_lt_of_lt hi
  have hmod := Nat.mod_lt i hy
  generalize i / dim.y.toNat = column at *
  generalize i % dim.y.toNat = row at *
  refine ⟨?_, ?_, ?_, ?_⟩ <;> omega

/-- Both steps lead from each place to the one with the next index. -/
theorem next_place (h : NoWrap origin dim) (hy : 0 < dim.y.toNat) {i : ℕ}
    (hi : i < dim.x.toNat * dim.y.toNat) :
    next (place origin dim i) origin dim = place origin dim (i + 1) := by
  obtain ⟨hpx, hpy⟩ := place_toNat h hy hi.le
  obtain ⟨hqx, hqy⟩ := place_toNat h hy hi
  have hsplit := Nat.mod_add_div i dim.y.toNat
  have hmod := Nat.mod_lt i hy
  rcases next_toNat h (inRect_place h hy hi) with ⟨hlt, hnx, hny⟩ | ⟨hend, hnx, hny⟩
  · obtain ⟨hdiv', hmod'⟩ : (i + 1) / dim.y.toNat = i / dim.y.toNat ∧
        (i + 1) % dim.y.toNat = i % dim.y.toNat + 1 := by
      apply (Nat.div_mod_unique hy).mpr
      constructor <;> omega
    apply coord_eq
    · rw [hnx, hpx, hqx, hdiv']
    · rw [hny, hpy, hqy, hmod', Nat.add_assoc]
  · obtain ⟨hdiv', hmod'⟩ : (i + 1) / dim.y.toNat = i / dim.y.toNat + 1 ∧
        (i + 1) % dim.y.toNat = 0 := by
      apply (Nat.div_mod_unique hy).mpr
      rw [Nat.mul_add]
      constructor <;> omega
    apply coord_eq
    · rw [hnx, hpx, hqx, hdiv', Nat.add_assoc]
    · rw [hny, hqy, hmod', Nat.add_zero]

theorem place_end (h : NoWrap origin dim) (hy : 0 < dim.y.toNat) :
    (place origin dim (dim.x.toNat * dim.y.toNat)).x.toNat =
      origin.x.toNat + dim.x.toNat := by
  obtain ⟨hpx, -⟩ := place_toNat h hy le_rfl
  rw [hpx, Nat.mul_div_cancel _ hy]

theorem test_iff (h : NoWrap origin dim) (now : Coord) :
    (decide (now.x < origin.x + dim.x)) = true ↔
      now.x.toNat < origin.x.toNat + dim.x.toNat := by
  obtain ⟨hx, -⟩ := end_toNat h
  rw [decide_eq_true_eq, UInt32.lt_iff_toNat_lt, hx]

theorem enumerates_coordinate (h : NoWrap origin dim) :
    Enumerates (fun now => !stop now origin dim) (next · origin dim)
      (dim.x.toNat * dim.y.toNat) (place origin dim) := by
  rcases Nat.eq_zero_or_pos dim.y.toNat with hz | hy
  · rw [hz, Nat.mul_zero]
    refine ⟨fun i hi => absurd hi (Nat.not_lt_zero i), ?_,
      fun i hi => absurd hi (Nat.not_lt_zero i)⟩
    have hs : stop origin origin dim = true := (stop_iff h origin).mpr (Or.inr (by omega))
    rw [place_zero, hs]
    rfl
  · refine ⟨?_, ?_, fun i hi => next_place h hy hi⟩
    · intro i hi
      obtain ⟨-, hx, -, hyr⟩ := inRect_place h hy hi
      have hs : ¬ stop (place origin dim i) origin dim = true := by
        rw [stop_iff h]
        omega
      simp only [hs, Bool.not_false]
    · have hs : stop (place origin dim (dim.x.toNat * dim.y.toNat)) origin dim = true := by
        rw [stop_iff h, place_end h hy]
        exact Or.inl le_rfl
      simp only [hs, Bool.not_true]

theorem enumerates_xy (h : NoWrap origin dim) (hd : dim.y ≠ 0 ∨ dim.x = 0) :
    Enumerates (fun now => decide (now.x < origin.x + dim.x)) (nextXY · origin dim)
      (dim.x.toNat * dim.y.toNat) (place origin dim) := by
  by_cases hx : dim.x.toNat = 0
  · rw [hx, Nat.zero_mul]
    refine ⟨fun i hi => absurd hi (Nat.not_lt_zero i), ?_,
      fun i hi => absurd hi (Nat.not_lt_zero i)⟩
    rw [place_zero, ← Bool.not_eq_true, test_iff h]
    omega
  · have hy : 0 < dim.y.toNat := by
      rcases hd with hd | hd
      · exact Nat.pos_of_ne_zero (fun hz => hd (UInt32.toNat_inj.mp hz))
      · exact absurd (congrArg UInt32.toNat hd) hx
    refine ⟨?_, ?_, ?_⟩
    · intro i hi
      exact (test_iff h _).mpr (inRect_place h hy hi).2.1
    · rw [← Bool.not_eq_true, test_iff h, place_end h hy]
      exact lt_irrefl _
    · intro i hi
      show nextXY (place origin dim i) origin dim = place origin dim (i + 1)
      rw [nextXY_eq_next]
      exact next_place h hy hi

/-- Without a second dimension `foreach_x_y` still visits the first `y` of each `x`. -/
theorem enumerates_xy_of_zero (h : NoWrap origin dim) (hd : dim.y = 0)
    (hy : origin.y.toNat + 1 < 2 ^ 32) :
    Enumerates (fun now => decide (now.x < origin.x + dim.x)) (nextXY · origin dim)
      dim.x.toNat (fun i => ⟨origin.x + UInt32.ofNat i, origin.y⟩) := by
  have hx := h.x
  have hval : ∀ i ≤ dim.x.toNat,
      (origin.x + UInt32.ofNat i).toNat = origin.x.toNat + i := by
    intro i hi
    simp only [UInt32.toNat_add, UInt32.toNat_ofNat']
    omega
  refine ⟨?_, ?_, ?_⟩
  · intro i hi
    rw [test_iff h, hval i hi.le]
    omega
  · rw [← Bool.not_eq_true, test_iff h, hval _ le_rfl]
    exact lt_irrefl _
  · intro i hi
    have hge : origin.y + 1 ≥ origin.y + dim.y := by
      rw [hd, ge_iff_le, UInt32.le_iff_toNat_le]
      simp only [UInt32.toNat_add, UInt32.reduceToNat]
      omega
    rw [nextXY, if_pos hge]
    apply coord_eq
    · simp only [UInt32.toNat_add, UInt32.toNat_ofNat', UInt32.reduceToNat]
      omega
    · rfl

theorem foreachCoordinate_eq (h : NoWrap origin dim) :
    foreachCoordinate origin dim =
      (List.range (dim.x.toNat * dim.y.toNat)).map (place origin dim) := by
  have hv := (enumerates_coordinate h).visited_eq le_rfl
  rw [place_zero] at hv
  rw [foreachCoordinate, scanFrom_eq_visited, hv]

theorem foreachXY_eq (h : NoWrap origin dim) (hd : dim.y ≠ 0 ∨ dim.x = 0) :
    foreachXY origin dim =
      (List.range (dim.x.toNat * dim.y.toNat)).map (place origin dim) := by
  have hle : dim.x.toNat * dim.y.toNat ≤ dim.x.toNat * 2 ^ 32 :=
    Nat.mul_le_mul_left _ dim.y.toNat_lt.le
  have hv := (enumerates_xy h hd).visited_eq hle
  rw [place_zero] at hv
  rw [foreachXY, scanXY, hv]

theorem foreachXY_of_zero (h : NoWrap origin dim) (hd : dim.y = 0)
    (hy : origin.y.toNat + 1 < 2 ^ 32) :
    foreachXY origin dim =
      (List.range dim.x.toNat).map fun i => ⟨origin.x + UInt32.ofNat i, origin.y⟩ := by
  have hv := (enumerates_xy_of_zero h hd hy).visited_eq
    (Nat.le_mul_of_pos_right dim.x.toNat (Nat.two_pow_pos 32))
  have hstart : (⟨origin.x + UInt32.ofNat 0, origin.y⟩ : Coord) = origin := by
    apply coord_eq <;> simp
  rw [hstart] at hv
  rw [foreachXY, scanXY, hv]

theorem getRelative_place (i : ℕ) :
    getRelative origin (place origin dim i) = indexToCoordinate i dim := by
  simp only [getRelative, place, add, UInt32.add_comm origin.x, UInt32.add_comm origin.y,
    UInt32.add_sub_cancel]

theorem toIndex_place {i : ℕ} (hi : i < dim.x.toNat * dim.y.toNat) :
    toIndex (getRelative origin (place origin dim i)) dim = UInt32.ofNat i := by
  have hdx := dim.x.toNat_lt
  have hdy := dim.y.toNat_lt
  have hy : 0 < dim.y.toNat := Nat.pos_of_ne_zero fun hz => by
    rw [hz, Nat.mul_zero] at hi
    exact Nat.not_lt_zero i hi
  have hdiv : i / dim.y.toNat < 2 ^ 32 := (div_lt_of_lt hi).trans hdx
  have hmod : i % dim.y.toNat < 2 ^ 32 := (Nat.mod_lt i hy).trans hdy
  rw [getRelative_place, ← UInt32.toNat_inj]
  simp only [toIndex, indexToCoordinate, UInt32.toNat_add, UInt32.toNat_mul,
    UInt32.toNat_ofNat', Nat.mod_eq_of_lt hdiv, Nat.mod_eq_of_lt hmod]
  rw [Nat.mod_add_mod, Nat.mul_comm, Nat.div_add_mod]

/-- A list of coordinates that goes through the rectangle in the order of the indices. An index
that does not pass 32 bits is the place in the list, and gives the coordinate back. -/
structure InOrder (origin dim : Coord) (visited : List Coord) : Prop where
  mem : ∀ c, c ∈ visited ↔ InRect origin dim c
  once : visited.Nodup
  index : ∀ i c, visited[i]? = some c →
    toIndex (getRelative origin c) dim = UInt32.ofNat i
  exact : dim.x.toNat * dim.y.toNat ≤ 2 ^ 32 → ∀ i c, visited[i]? = some c →
    (toIndex (getRelative origin c) dim).toNat = i ∧
    indexToCoordinate (toIndex (getRelative origin c) dim).toNat dim = getRelative origin c

theorem inOrder_foreachCoordinate (h : NoWrap origin dim) :
    InOrder origin dim (foreachCoordinate origin dim) := by
  have hplace : ∀ i c, (foreachCoordinate origin dim)[i]? = some c →
      i < dim.x.toNat * dim.y.toNat ∧ c = place origin dim i := by
    intro i c hc
    rw [foreachCoordinate_eq h, List.getElem?_map, Option.map_eq_some_iff] at hc
    obtain ⟨j, hj, rfl⟩ := hc
    obtain ⟨hlt, rfl⟩ := List.getElem?_eq_some_iff.mp hj
    rw [List.length_range] at hlt
    rw [List.getElem_range]
    exact ⟨hlt, rfl⟩
  refine ⟨mem_foreachCoordinate h, foreachCoordinate_nodup h, ?_, ?_⟩
  · intro i c hc
    obtain ⟨hi, rfl⟩ := hplace i c hc
    exact toIndex_place hi
  · intro hle i c hc
    obtain ⟨hi, rfl⟩ := hplace i c hc
    have hval : (UInt32.ofNat i).toNat = i := UInt32.toNat_ofNat_of_lt (hi.trans_le hle)
    rw [toIndex_place hi, hval, getRelative_place]
    exact ⟨rfl, rfl⟩

/-- Both scans end by themselves, agree, and go through the rectangle in order. -/
structure ScanLaw (origin dim : Coord) : Prop where
  coordinate_ends : ∀ fuel, dim.x.toNat * dim.y.toNat ≤ fuel →
    scanFrom origin dim fuel origin = foreachCoordinate origin dim
  xy_ends : ∀ fuel, dim.x.toNat * dim.y.toNat ≤ fuel →
    scanXY origin dim fuel = foreachXY origin dim
  coordinate_inOrder : InOrder origin dim (foreachCoordinate origin dim)
  xy_inOrder : InOrder origin dim (foreachXY origin dim)
  same : foreachXY origin dim = foreachCoordinate origin dim

theorem scanLaw_of_test (h : NoWrap origin dim) (hd : dim.y ≠ 0 ∨ dim.x = 0) :
    ScanLaw origin dim := by
  have hsame : foreachXY origin dim = foreachCoordinate origin dim := by
    rw [foreachXY_eq h hd, foreachCoordinate_eq h]
  refine ⟨?_, ?_, inOrder_foreachCoordinate h, ?_, hsame⟩
  · intro fuel hf
    have hv := (enumerates_coordinate h).visited_eq hf
    rw [place_zero] at hv
    rw [scanFrom_eq_visited, hv, foreachCoordinate_eq h]
  · intro fuel hf
    have hv := (enumerates_xy h hd).visited_eq hf
    rw [place_zero] at hv
    rw [scanXY, hv, foreachXY_eq h hd]
  · rw [hsame]
    exact inOrder_foreachCoordinate h

theorem origin_mem_foreachXY (h : NoWrap origin dim) (hx : dim.x ≠ 0) :
    origin ∈ foreachXY origin dim := by
  have hpos : 0 < dim.x.toNat :=
    Nat.pos_of_ne_zero fun hz => hx (UInt32.toNat_inj.mp hz)
  have ht : decide (origin.x < origin.x + dim.x) = true := (test_iff h origin).mpr (by omega)
  obtain ⟨fuel, hfuel⟩ : ∃ fuel, dim.x.toNat * 2 ^ 32 = fuel + 1 :=
    ⟨dim.x.toNat * 2 ^ 32 - 1, by omega⟩
  rw [foreachXY, scanXY, hfuel]
  simp only [visited, ht, if_true]
  exact List.mem_cons_self

/-- The two scans go through the rectangle exactly when `foreach_x_y` need not test `y`. -/
theorem scanLaw_iff (h : NoWrap origin dim) :
    ScanLaw origin dim ↔ dim.y ≠ 0 ∨ dim.x = 0 := by
  refine ⟨fun hlaw => ?_, scanLaw_of_test h⟩
  by_contra hd
  rw [not_or, not_not] at hd
  obtain ⟨-, -, -, hlt⟩ := (hlaw.xy_inOrder.mem origin).mp (origin_mem_foreachXY h hd.2)
  have hz : dim.y.toNat = 0 := congrArg UInt32.toNat hd.1
  omega

theorem scanLaw_iff_square :
    NoWrap ⟨0, 2⟩ ⟨2, 2⟩ ∧ ScanLaw ⟨0, 2⟩ ⟨2, 2⟩ :=
  ⟨by decide, (scanLaw_iff (by decide)).mpr (by decide)⟩

/-- A rectangle without rows: one scan visits nothing, the other its origin. -/
theorem foreachXY_without_rows :
    NoWrap ⟨0, 0⟩ ⟨1, 0⟩ ∧ foreachCoordinate ⟨0, 0⟩ ⟨1, 0⟩ = [] ∧
      foreachXY ⟨0, 0⟩ ⟨1, 0⟩ = [⟨0, 0⟩] ∧ ¬ ScanLaw ⟨0, 0⟩ ⟨1, 0⟩ := by
  have hxy : foreachXY ⟨0, 0⟩ ⟨1, 0⟩ = [⟨0, 0⟩] :=
    foreachXY_of_zero (by decide) rfl (by decide)
  refine ⟨by decide, rfl, hxy, fun hlaw => ?_⟩
  have hsame := hlaw.same
  rw [hxy] at hsame
  cases hsame

end CoordinateScan
