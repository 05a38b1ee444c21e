import ManycoreRuntime.NpaRoundTrip
import ManycoreRuntime.PodMalloc

/-! # The caches of the pods and their ids

The loop over the caches of a pod runs along the row north of the pod and then along the row
south of it. Ids number the caches pod by pod, in the order of that loop. -/
namespace PodGeometry

open Coordinate (Coord Errno toIndex)
open Configuration (Config Accepted)
open ConfigPod
open DramStriping (edgeY)
open NpaRoundTrip (EdgesClear northRow_class southRow_class)
open PodMalloc (indexToCoordinate)
open Machines (Machine)

section Definitions

variable (cfg : Config)

def podDramStart (p : Coord) : Coord :=
  let og := podVcoreOrigin cfg p
  ⟨og.x, og.y - 1⟩

def podDramStop (p pos : Coord) : Bool :=
  let og := podVcoreOrigin cfg p
  pos.x ≥ og.x + cfg.podShape.x || pos.y ≥ og.y + cfg.podShape.y + 1

def podDramNext (p pos : Coord) : Coord :=
  let og := podVcoreOrigin cfg p
  let north_y := og.y - 1
  let x := pos.x + 1
  if x ≥ og.x + cfg.podShape.x && pos.y == north_y then ⟨og.x, og.y + cfg.podShape.y⟩
  else ⟨x, pos.y⟩

/-- The loop from `pos` on; no result if it takes `fuel` turns without stopping. -/
def podForeachDramFrom (p : Coord) : ℕ → Coord → Option (List Coord)
  | 0, _ => none
  | fuel + 1, pos =>
    if podDramStop cfg p pos then some []
    else (podForeachDramFrom p fuel (podDramNext cfg p pos)).map (pos :: ·)

def podForeachDram (p : Coord) : Option (List Coord) :=
  podForeachDramFrom cfg p (2 * cfg.podShape.x.toNat + 1) (podDramStart cfg p)

/-- The function has no return for a coordinate that is no cache. -/
def podDramId (co : Coord) : Except Errno UInt32 :=
  if isDramNorth cfg co then .ok (tileInPod cfg co).x
  else if isDramSouth cfg co then .ok ((tileInPod cfg co).x + cfg.podShape.x)
  else .error .undefined

def dramId (co : Coord) : Except Errno UInt32 := do
  let pod_id := toIndex (pod cfg co) cfg.pods
  let pod_ndrams := cfg.podShape.x * 2
  let pod_dram_id ← podDramId cfg co
  return pod_id * pod_ndrams + pod_dram_id

def div (a b : UInt32) : Except Errno UInt32 := if b = 0 then .error .undefined else .ok (a / b)

def mod (a b : UInt32) : Except Errno UInt32 := if b = 0 then .error .undefined else .ok (a % b)

def podDramX (p : Coord) (pod_dram_id : UInt32) : Except Errno UInt32 := do
  let x ← mod pod_dram_id cfg.podShape.x
  return (podVcoreOrigin cfg p).x + x

/-- What the source calls north is the row behind the pod's last row. -/
def podDramY (p : Coord) (pod_dram_id : UInt32) : Except Errno UInt32 := do
  let north ← div pod_dram_id cfg.podShape.x
  return (podVcoreOrigin cfg p).y + if north ≠ 0 then cfg.podShape.y else -1

def podDram (p : Coord) (pod_dram_id : UInt32) : Except Errno Coord := do
  let x ← podDramX cfg p pod_dram_id
  let y ← podDramY cfg p pod_dram_id
  return ⟨x, y⟩

def dram (dram_id : UInt32) : Except Errno Coord := do
  let pod_ndrams := cfg.podShape.x * 2
  let pod_id ← div dram_id pod_ndrams
  let _ ← div pod_id cfg.pods.y
  let pod_dram_id ← mod dram_id pod_ndrams
  podDram cfg (indexToCoordinate pod_id.toNat cfg.pods) pod_dram_id

def IsCache (co : Coord) : Prop :=
  ∃ p, IsPod cfg p ∧ ∃ visited, podForeachDram cfg p = some visited ∧ co ∈ visited

end Definitions

section Visit

variable {cfg : Config} {p : Coord}

def cache (cfg : Config) (p : Coord) (row i : ℕ) : Coord :=
  ⟨(podVcoreOrigin cfg p).x + UInt32.ofNat i, edgeY cfg p row⟩

def cacheRow (cfg : Config) (p : Coord) (row i : ℕ) : List Coord :=
  (List.range' i (cfg.podShape.x.toNat - i)).map (cache cfg p row)

structure Unwrapped (cfg : Config) (p : Coord) : Prop where
  x : (podVcoreOrigin cfg p).x.toNat + cfg.podShape.x.toNat < 2 ^ 32
  y : (podVcoreOrigin cfg p).y.toNat + cfg.podShape.y.toNat + 1 < 2 ^ 32

theorem edgeY_zero (cfg : Config) (p : Coord) : edgeY cfg p 0 = podDramNorthY cfg p := rfl

theorem edgeY_one (cfg : Config) (p : Coord) : edgeY cfg p 1 = podDramSouthY cfg p := rfl

theorem northY_toNat (cfg : Config) (p : Coord) :
    (podDramNorthY cfg p).toNat = (podVcoreOrigin cfg p).y.toNat - 1 := by
  have hpos := origin_y_pos cfg p
  rw [podDramNorthY, UInt32.toNat_sub_of_le]
  · rfl
  · exact UInt32.le_iff_toNat_le.mpr hpos

theorem southY_toNat (hy : (podVcoreOrigin cfg p).y.toNat + cfg.podShape.y.toNat < 2 ^ 32) :
    (podDramSouthY cfg p).toNat = (podVcoreOrigin cfg p).y.toNat + cfg.podShape.y.toNat := by
  rw [podDramSouthY, UInt32.toNat_add]
  exact Nat.mod_eq_of_lt hy

theorem Unwrapped.southY_toNat (h : Unwrapped cfg p) :
    (podDramSouthY cfg p).toNat = (podVcoreOrigin cfg p).y.toNat + cfg.podShape.y.toNat :=
  PodGeometry.southY_toNat (lt_trans (Nat.lt_succ_self _) h.y)

theorem Unwrapped.south_ne_north (h : Unwrapped cfg p) :
    podDramSouthY cfg p ≠ podDramNorthY cfg p := by
  have hpos := origin_y_pos cfg p
  intro he
  have hv := congrArg UInt32.toNat he
  rw [h.southY_toNat, northY_toNat] at hv
  omega

theorem Unwrapped.cache_x (h : Unwrapped cfg p) {i : ℕ} (row : ℕ)
    (hi : i ≤ cfg.podShape.x.toNat) :
    (cache cfg p row i).x.toNat = (podVcoreOrigin cfg p).x.toNat + i := by
  have hx := h.x
  have hv : (UInt32.ofNat i).toNat = i :=
    UInt32.toNat_ofNat_of_lt' (by simp only [UInt32.size]; omega)
  rw [cache, UInt32.toNat_add, hv]
  exact Nat.mod_eq_of_lt (by omega)

theorem Unwrapped.stop_iff (h : Unwrapped cfg p) {row i : ℕ} (hi : i ≤ cfg.podShape.x.toNat) :
    podDramStop cfg p (cache cfg p row i) = true ↔ i = cfg.podShape.x.toNat := by
  have hx := h.x
  have hy := h.y
  have hpos := origin_y_pos cfg p
  have hend : ((podVcoreOrigin cfg p).x + cfg.podShape.x).toNat =
      (podVcoreOrigin cfg p).x.toNat + cfg.podShape.x.toNat := by
    rw [UInt32.toNat_add]
    exact Nat.mod_eq_of_lt hx
  have hlast : ((podVcoreOrigin cfg p).y + cfg.podShape.y + 1).toNat =
      (podVcoreOrigin cfg p).y.toNat + cfg.podShape.y.toNat + 1 := by
    rw [UInt32.toNat_add, UInt32.toNat_add]
    simp only [UInt32.reduceToNat]
    omega
  have hrow : (cache cfg p row i).y.toNat <
      (podVcoreOrigin cfg p).y.toNat + cfg.podShape.y.toNat + 1 := by
    simp only [cache, edgeY]
    split
    · rw [h.southY_toNat]
      omega
    · rw [northY_toNat]
      omega
  simp only [podDramStop, Bool.or_eq_true, decide_eq_true_eq, ge_iff_le,
    UInt32.le_iff_toNat_le, hend, hlast, h.cache_x row hi]
  omega

theorem Unwrapped.next_eq (h : Unwrapped cfg p) {row i : ℕ} (hrow : row < 2)
    (hi : i < cfg.podShape.x.toNat) :
    podDramNext cfg p (cache cfg p row i) =
      if row = 0 ∧ i + 1 = cfg.podShape.x.toNat then cache cfg p 1 0
      else cache cfg p row (i + 1) := by
  have hx := h.x
  have hend : ((podVcoreOrigin cfg p).x + cfg.podShape.x).toNat =
      (podVcoreOrigin cfg p).x.toNat + cfg.podShape.x.toNat := by
    rw [UInt32.toNat_add]
    exact Nat.mod_eq_of_lt hx
  have hsucc : (cache cfg p row i).x + 1 = (cache cfg p row (i + 1)).x := by
    simp only [cache, UInt32.ofNat_add, UInt32.add_assoc]
    rfl
  have hge : (cache cfg p row (i + 1)).x ≥ (podVcoreOrigin cfg p).x + cfg.podShape.x ↔
      i + 1 = cfg.podShape.x.toNat := by
    rw [ge_iff_le, UInt32.le_iff_toNat_le, hend, h.cache_x row hi]
    omega
  have hnorth : (cache cfg p row i).y = (podVcoreOrigin cfg p).y - 1 ↔ row = 0 := by
    rcases (by omega : row = 0 ∨ row = 1) with rfl | rfl
    · exact ⟨fun _ => rfl, fun _ => rfl⟩
    · exact ⟨fun he => absurd he h.south_ne_north, fun he => by cases he⟩
  simp only [podDramNext, hsucc, Bool.and_eq_true, decide_eq_true_eq, beq_iff_eq, hge, hnorth]
  by_cases hturn : row = 0 ∧ i + 1 = cfg.podShape.x.toNat
  · rw [if_pos hturn, if_pos ⟨hturn.2, hturn.1⟩]
    simp [cache, edgeY_one, podDramSouthY]
  · rw [if_neg hturn, if_neg fun hc => hturn ⟨hc.2, hc.1⟩]
    rfl

theorem cacheRow_cons {row i : ℕ} (hi : i < cfg.podShape.x.toNat) :
    cacheRow cfg p row i = cache cfg p row i :: cacheRow cfg p row (i + 1) := by
  obtain ⟨k, hk⟩ : ∃ k, cfg.podShape.x.toNat - i = k + 1 :=
    ⟨cfg.podShape.x.toNat - i - 1, by omega⟩
  have hk' : cfg.podShape.x.toNat - (i + 1) = k := by omega
  rw [cacheRow, cacheRow, hk, hk', List.range'_succ, List.map_cons]

theorem cacheRow_end (row : ℕ) : cacheRow cfg p row cfg.podShape.x.toNat = [] := by
  rw [cacheRow, Nat.sub_self]
  rfl

theorem Unwrapped.foreach_south (h : Unwrapped cfg p) {i fuel : ℕ}
    (hi : i ≤ cfg.podShape.x.toNat) (hf : cfg.podShape.x.toNat - i < fuel) :
    podForeachDramFrom cfg p fuel (cache cfg p 1 i) = some (cacheRow cfg p 1 i) := by
  induction fuel generalizing i with
  | zero => exact absurd hf (Nat.not_lt_zero _)
  | succ fuel ih =>
    rw [podForeachDramFrom]
    by_cases hend : i = cfg.podShape.x.toNat
    · rw [if_pos ((h.stop_iff hi).mpr hend), hend, cacheRow_end]
    · rw [if_neg fun hs => hend ((h.stop_iff hi).mp hs), h.next_eq (by decide) (by omega),
        if_neg (by omega), ih (by omega) (by omega), cacheRow_cons (i := i) (by omega)]
      rfl

/-- The loop along the northern row goes on with the southern row. -/
theorem Unwrapped.foreach_north (h : Unwrapped cfg p) {i fuel : ℕ}
    (hi : i < cfg.podShape.x.toNat) (hf : 2 * cfg.podShape.x.toNat - i < fuel) :
    podForeachDramFrom cfg p fuel (cache cfg p 0 i) =
      some (cacheRow cfg p 0 i ++ cacheRow cfg p 1 0) := by
  induction fuel generalizing i with
  | zero => exact absurd hf (Nat.not_lt_zero _)
  | succ fuel ih =>
    rw [podForeachDramFrom, if_neg fun hs => hi.ne ((h.stop_iff hi.le).mp hs),
      h.next_eq (by decide) hi, cacheRow_cons hi]
    by_cases hend : i + 1 = cfg.podShape.x.toNat
    · rw [if_pos ⟨rfl, hend⟩, h.foreach_south (Nat.zero_le _) (by omega), hend, cacheRow_end]
      rfl
    · rw [if_neg (by omega), ih (by omega) (by omega)]
      rfl

theorem Unwrapped.foreachDram_eq (h : Unwrapped cfg p) :
    podForeachDram cfg p = some (cacheRow cfg p 0 0 ++ cacheRow cfg p 1 0) := by
  have hstart : podDramStart cfg p = cache cfg p 0 0 := by
    simp [podDramStart, cache, edgeY_zero, podDramNorthY]
  rw [podForeachDram, hstart]
  rcases Nat.eq_zero_or_pos cfg.podShape.x.toNat with hz | hpos
  · rw [podForeachDramFrom, if_pos ((h.stop_iff (Nat.zero_le _)).mpr hz.symm)]
    simp [cacheRow, hz]
  · exact h.foreach_north hpos (by omega)

theorem mem_cacheRow {row : ℕ} {co : Coord} :
    co ∈ cacheRow cfg p row 0 ↔ ∃ i < cfg.podShape.x.toNat, co = cache cfg p row i := by
  simp only [cacheRow, Nat.sub_zero, List.mem_map, List.mem_range'_1, Nat.zero_le, true_and,
    Nat.zero_add]
  constructor
  · rintro ⟨i, hi, rfl⟩
    exact ⟨i, hi, rfl⟩
  · rintro ⟨i, hi, rfl⟩
    exact ⟨i, hi, rfl⟩

theorem mem_visited_iff {co : Coord} :
    co ∈ cacheRow cfg p 0 0 ++ cacheRow cfg p 1 0 ↔
      ∃ row < 2, ∃ i < cfg.podShape.x.toNat, co = cache cfg p row i := by
  rw [List.mem_append, mem_cacheRow, mem_cacheRow]
  constructor
  · rintro (⟨i, hi, rfl⟩ | ⟨i, hi, rfl⟩)
    · exact ⟨0, by decide, i, hi, rfl⟩
    · exact ⟨1, by decide, i, hi, rfl⟩
  · rintro ⟨row, hrow, i, hi, rfl⟩
    rcases (by omega : row = 0 ∨ row = 1) with rfl | rfl
    · exact Or.inl ⟨i, hi, rfl⟩
    · exact Or.inr ⟨i, hi, rfl⟩

theorem Unwrapped.cache_injective (h : Unwrapped cfg p) {row row' i i' : ℕ} (hrow : row < 2)
    (hrow' : row' < 2) (hi : i < cfg.podShape.x.toNat) (hi' : i' < cfg.podShape.x.toNat)
    (he : cache cfg p row i = cache cfg p row' i') : row = row' ∧ i = i' := by
  constructor
  · have hy : edgeY cfg p row = edgeY cfg p row' := congrArg Coord.y he
    have hne := h.south_ne_north
    rcases (by omega : row = 0 ∨ row = 1) with rfl | rfl <;>
      rcases (by omega : row' = 0 ∨ row' = 1) with rfl | rfl
    · rfl
    · exact absurd hy.symm hne
    · exact absurd hy hne
    · rfl
  · have hx := congrArg (fun co => co.x.toNat) he
    simp only [h.cache_x row hi.le, h.cache_x row' hi'.le] at hx
    omega

theorem Unwrapped.visited_nodup (h : Unwrapped cfg p) :
    (cacheRow cfg p 0 0 ++ cacheRow cfg p 1 0).Nodup := by
  have hrow : ∀ row < 2, (cacheRow cfg p row 0).Nodup := by
    intro row hlt
    have hrange : (List.range' 0 (cfg.podShape.x.toNat - 0)).Nodup := List.nodup_range'
    refine List.Nodup.map_on ?_ hrange
    intro i hi j hj he
    simp only [List.mem_range'_1, Nat.zero_le, Nat.sub_zero, Nat.zero_add, true_and] at hi hj
    exact (h.cache_injective hlt hlt hi hj he).2
  refine (hrow 0 (by decide)).append (hrow 1 (by decide)) ?_
  intro co h0 h1
  obtain ⟨i, hi, rfl⟩ := mem_cacheRow.mp h0
  obtain ⟨j, hj, he⟩ := mem_cacheRow.mp h1
  exact absurd (h.cache_injective (by decide) (by decide) hi hj he).1 (by decide)

theorem visited_length : (cacheRow cfg p 0 0 ++ cacheRow cfg p 1 0).length =
    2 * cfg.podShape.x.toNat := by
  simp only [cacheRow, List.length_append, List.length_map, List.length_range', Nat.sub_zero]
  omega

end Visit

/-- Pods as wide as the tile field at most and exactly as high, inside the network, with rows of
caches that are not the host's. -/
structure Regular (cfg : Config) : Prop where
  width : cfg.podShape.x.toNat ≤ 2 ^ tileBitsX cfg
  height : cfg.podShape.y.toNat = 2 ^ tileBitsY cfg
  inNetwork : ∀ p, IsPod cfg p →
    2 ^ tileBitsX cfg * (1 + p.x.toNat) + cfg.podShape.x.toNat ≤ cfg.dimensionNetwork.x.toNat ∧
    2 ^ tileBitsY cfg * (1 + 2 * p.y.toNat) + cfg.podShape.y.toNat <
      cfg.dimensionNetwork.y.toNat
  host : ∀ p, IsPod cfg p → podDramNorthY cfg p ≠ cfg.hostInterface.y ∧
    podDramSouthY cfg p ≠ cfg.hostInterface.y

/-- The rows of the pods and of their caches lie where the classes expect them. -/
structure RowsPlaced (cfg : Config) : Prop where
  height : cfg.podShape.y.toNat = 2 ^ tileBitsY cfg
  rows : ∀ p, IsPod cfg p →
    2 ^ tileBitsY cfg * (1 + 2 * p.y.toNat) + cfg.podShape.y.toNat + 1 < 2 ^ 32
  host : ∀ p, IsPod cfg p → podDramSouthY cfg p ≠ cfg.hostInterface.y

/-- What the ids of the caches rest on: `Regular` without the bounds of the network and with
no claim on the northern rows. -/
structure Placed (cfg : Config) : Prop extends RowsPlaced cfg where
  width : cfg.podShape.x.toNat ≤ 2 ^ tileBitsX cfg
  columns : ∀ p, IsPod cfg p →
    2 ^ tileBitsX cfg * (1 + p.x.toNat) + cfg.podShape.x.toNat < 2 ^ 32

theorem Regular.placed {cfg : Config} (h : Regular cfg) : Placed cfg := by
  have hdx := cfg.dimensionNetwork.x.toNat_lt
  have hdy := cfg.dimensionNetwork.y.toNat_lt
  refine ⟨⟨h.height, fun p hp => ?_, fun p hp => (h.host p hp).2⟩, h.width, fun p hp => ?_⟩
  · have := (h.inNetwork p hp).2
    omega
  · have := (h.inNetwork p hp).1
    omega

def cacheCount (cfg : Config) : ℕ :=
  cfg.pods.x.toNat * cfg.pods.y.toNat * (2 * cfg.podShape.x.toNat)

section Ids

variable {cfg : Config} {p : Coord}

theorem RowsPlaced.origin_y (h : RowsPlaced cfg) (hp : IsPod cfg p) :
    (podVcoreOrigin cfg p).y.toNat = 2 ^ tileBitsY cfg * (1 + 2 * p.y.toNat) := by
  have hy := h.rows p hp
  rw [podVcoreOrigin_y_toNat]
  exact Nat.mod_eq_of_lt (by omega)

theorem Placed.origin_x (h : Placed cfg) (hp : IsPod cfg p) :
    (podVcoreOrigin cfg p).x.toNat = 2 ^ tileBitsX cfg * (1 + p.x.toNat) := by
  have hx := h.columns p hp
  rw [podVcoreOrigin_x_toNat]
  exact Nat.mod_eq_of_lt (by omega)

theorem Placed.unwrapped (h : Placed cfg) (hp : IsPod cfg p) : Unwrapped cfg p := by
  refine ⟨?_, ?_⟩
  · rw [h.origin_x hp]
    exact h.columns p hp
  · rw [h.origin_y hp]
    exact h.rows p hp

theorem RowsPlaced.edges (h : RowsPlaced cfg) (hb : 1 ≤ tileBitsY cfg) (hp : IsPod cfg p) :
    EdgesClear cfg p := ⟨h.height, hb, h.host p hp⟩

theorem Placed.cache_column (h : Placed cfg) (hp : IsPod cfg p) {row i : ℕ}
    (hi : i < cfg.podShape.x.toNat) :
    (npod cfg (cache cfg p row i)).x.toNat = 1 + p.x.toNat ∧
    (tileInPod cfg (cache cfg p row i)).x.toNat = i := by
  have hx := (h.unwrapped hp).cache_x row hi.le
  rw [h.origin_x hp] at hx
  have hlt : i < 2 ^ tileBitsX cfg := lt_of_lt_of_le hi h.width
  constructor
  · rw [npod_x_toNat, hx, Nat.mul_add_div (Nat.two_pow_pos _), Nat.div_eq_of_lt hlt, Nat.add_zero]
  · have hm : (tileInPod cfg (cache cfg p row i)).x.toNat =
        (cache cfg p row i).x.toNat % 2 ^ tileBitsX cfg := low_field _ _
    rw [hm, hx, Nat.mul_add_mod, Nat.mod_eq_of_lt hlt]

theorem RowsPlaced.cache_row (h : RowsPlaced cfg) (hp : IsPod cfg p) {row i : ℕ} (hrow : row < 2) :
    (npod cfg (cache cfg p row i)).y.toNat = 2 * p.y.toNat + 2 * row := by
  have oy := h.origin_y hp
  have hrows := h.rows p hp
  have hpos := Nat.two_pow_pos (tileBitsY cfg)
  rw [npod_y_toNat]
  rcases (by omega : row = 0 ∨ row = 1) with rfl | rfl
  · have hy : (cache cfg p 0 i).y.toNat =
        2 ^ tileBitsY cfg * (2 * p.y.toNat) + (2 ^ tileBitsY cfg - 1) := by
      rw [cache, edgeY_zero, northY_toNat, oy, Nat.mul_add, Nat.mul_one]
      omega
    rw [hy, Nat.mul_add_div hpos, Nat.div_eq_of_lt (by omega)]
  · have hy : (cache cfg p 1 i).y.toNat = 2 ^ tileBitsY cfg * (2 * p.y.toNat + 2) := by
      rw [cache, edgeY_one, southY_toNat (by omega), oy, h.height, ← Nat.mul_succ]
      congr 1
      omega
    rw [hy, Nat.mul_div_cancel_left _ hpos]

theorem RowsPlaced.cache_class (h : RowsPlaced cfg) (hb : 1 ≤ tileBitsY cfg) (hp : IsPod cfg p)
    {row i : ℕ} (hrow : row < 2) :
    isDramNorth cfg (cache cfg p row i) = decide (row = 0) ∧
    isDramSouth cfg (cache cfg p row i) = decide (row = 1) ∧
    isVanillaCore cfg (cache cfg p row i) = false := by
  have hcore : isVanillaCore cfg (cache cfg p row i) = false := by
    rw [← Bool.not_eq_true, isVanillaCore, beq_iff_eq, ← UInt32.toNat_inj, UInt32.toNat_mod,
      h.cache_row hp hrow]
    simp only [UInt32.reduceToNat]
    omega
  rcases (by omega : row = 0 ∨ row = 1) with rfl | rfl
  · obtain ⟨hn, hs⟩ := @northRow_class cfg p (cache cfg p 0 i) hb (edgeY_zero cfg p)
    exact ⟨hn, hs, hcore⟩
  · have hs := @southRow_class cfg p (cache cfg p 1 i) (h.edges hb hp) (edgeY_one cfg p)
    refine ⟨?_, hs, hcore⟩
    -- the tile field of the southern row is zero, and a mask of at least one bit is not
    rw [isDramSouth_iff] at hs
    refine Bool.eq_false_iff.mpr fun hn => ?_
    rw [isDramNorth_iff, hs.1] at hn
    have htwo : 2 ^ 1 ≤ 2 ^ tileBitsY cfg := Nat.pow_le_pow_right (by omega) hb
    omega

theorem RowsPlaced.cache_pod (h : RowsPlaced cfg) (hb : 1 ≤ tileBitsY cfg) (hp : IsPod cfg p)
    {row i : ℕ} (hrow : row < 2) :
    pod cfg (cache cfg p row i) = ⟨(npod cfg (cache cfg p row i)).x - 1, p.y⟩ := by
  obtain ⟨hn, hs, hv⟩ := h.cache_class hb hp (i := i) hrow
  have hhalf : ((npod cfg (cache cfg p row i)).y >>> 1).toNat = p.y.toNat + row := by
    rw [UInt32.toNat_shiftRight, h.cache_row hp hrow, Nat.shiftRight_eq_div_pow]
    simp only [UInt32.reduceToNat, Nat.reduceMod, pow_one]
    omega
  rcases (by omega : row = 0 ∨ row = 1) with rfl | rfl
  · have hpy : (npod cfg (cache cfg p 0 i)).y >>> 1 = p.y := by
      rw [← UInt32.toNat_inj, hhalf, Nat.add_zero]
    simp only [pod, hv, hs, hn, Bool.false_eq_true, decide_false, decide_true, if_false, if_true,
      hpy, Nat.zero_ne_one]
  · have hpy : (npod cfg (cache cfg p 1 i)).y >>> 1 - 1 = p.y := by
      rw [← UInt32.toNat_inj, UInt32.toNat_sub, hhalf]
      have := p.y.toNat_lt
      simp only [UInt32.reduceToNat]
      omega
    simp only [pod, hv, hs, Bool.false_eq_true, decide_true, if_false, if_true, hpy]

theorem Placed.cache_pod (h : Placed cfg) (hb : 1 ≤ tileBitsY cfg) (hp : IsPod cfg p)
    {row i : ℕ} (hrow : row < 2) (hi : i < cfg.podShape.x.toNat) :
    pod cfg (cache cfg p row i) = p := by
  obtain ⟨hx, -⟩ := @Placed.cache_column cfg p h hp row i hi
  have hpx : (npod cfg (cache cfg p row i)).x - 1 = p.x := by
    rw [← UInt32.toNat_inj, UInt32.toNat_sub, hx]
    have := p.x.toNat_lt
    simp only [UInt32.reduceToNat]
    omega
  rw [h.toRowsPlaced.cache_pod hb hp hrow, hpx]

def idOf (cfg : Config) (p : Coord) (row i : ℕ) : ℕ :=
  (p.x.toNat * cfg.pods.y.toNat + p.y.toNat) * (2 * cfg.podShape.x.toNat) +
    (row * cfg.podShape.x.toNat + i)

theorem index_lt (hp : IsPod cfg p) :
    p.x.toNat * cfg.pods.y.toNat + p.y.toNat < cfg.pods.x.toNat * cfg.pods.y.toNat := by
  obtain ⟨hx, hy⟩ := hp
  rw [UInt32.lt_iff_toNat_lt] at hx hy
  have hle := Nat.mul_le_mul_right cfg.pods.y.toNat (Nat.succ_le_of_lt hx)
  rw [Nat.succ_mul] at hle
  omega

theorem column_lt {row i : ℕ} (hrow : row < 2) (hi : i < cfg.podShape.x.toNat) :
    row * cfg.podShape.x.toNat + i < 2 * cfg.podShape.x.toNat := by
  rcases (by omega : row = 0 ∨ row = 1) with rfl | rfl <;> omega

theorem idOf_lt (hp : IsPod cfg p) {row i : ℕ} (hrow : row < 2)
    (hi : i < cfg.podShape.x.toNat) : idOf cfg p row i < cacheCount cfg := by
  have hle := Nat.mul_le_mul_right (2 * cfg.podShape.x.toNat) (Nat.succ_le_of_lt (index_lt hp))
  have hlt := column_lt hrow hi
  rw [Nat.succ_mul] at hle
  unfold idOf cacheCount
  omega

theorem numDramCoordinates_toNat (hc : cacheCount cfg < 2 ^ 32) :
    cfg.numDramCoordinates.toNat = cacheCount cfg := by
  simp only [Configuration.Config.numDramCoordinates, UInt32.toNat_mul, UInt32.reduceToNat,
    Nat.mod_mul_mod]
  have he : cfg.pods.x.toNat * cfg.pods.y.toNat * cfg.podShape.x.toNat * 2 = cacheCount cfg := by
    rw [cacheCount, Nat.mul_assoc _ _ 2, Nat.mul_comm _ 2]
  rw [he]
  exact Nat.mod_eq_of_lt hc

theorem two_width_lt (hc : cacheCount cfg < 2 ^ 32) (hp : IsPod cfg p) :
    2 * cfg.podShape.x.toNat < 2 ^ 32 := by
  have hpos : 1 ≤ cfg.pods.x.toNat * cfg.pods.y.toNat :=
    Nat.one_le_iff_ne_zero.mpr fun hz => by
      have := index_lt hp
      omega
  have hle := Nat.mul_le_mul_right (2 * cfg.podShape.x.toNat) hpos
  unfold cacheCount at hc
  omega

theorem length_lt (hc : cacheCount cfg < 2 ^ 32) (hw : 0 < cfg.podShape.x.toNat) :
    cfg.pods.x.toNat * cfg.pods.y.toNat < 2 ^ 32 := by
  have hle := Nat.mul_le_mul_left (cfg.pods.x.toNat * cfg.pods.y.toNat)
    (by omega : 1 ≤ 2 * cfg.podShape.x.toNat)
  unfold cacheCount at hc
  omega

theorem toIndex_toNat (hlen : cfg.pods.x.toNat * cfg.pods.y.toNat < 2 ^ 32) (hp : IsPod cfg p) :
    (toIndex p cfg.pods).toNat = p.x.toNat * cfg.pods.y.toNat + p.y.toNat := by
  rw [toIndex, UInt32.toNat_add, UInt32.toNat_mul, Nat.mod_add_mod]
  exact Nat.mod_eq_of_lt (lt_trans (index_lt hp) hlen)

theorem ndrams_toNat (h2 : 2 * cfg.podShape.x.toNat < 2 ^ 32) :
    (cfg.podShape.x * 2).toNat = 2 * cfg.podShape.x.toNat := by
  rw [UInt32.toNat_mul]
  simp only [UInt32.reduceToNat]
  omega

theorem Placed.dramId_cache (h : Placed cfg) (hb : 1 ≤ tileBitsY cfg)
    (hc : cacheCount cfg < 2 ^ 32) (hp : IsPod cfg p) {row i : ℕ} (hrow : row < 2)
    (hi : i < cfg.podShape.x.toNat) :
    ∃ id, dramId cfg (cache cfg p row i) = .ok id ∧ id.toNat = idOf cfg p row i := by
  obtain ⟨hn, hs, -⟩ := h.cache_class hb hp (i := i) hrow
  obtain ⟨-, hcol⟩ := @Placed.cache_column cfg p h hp row i hi
  have h2 := two_width_lt hc hp
  have hlt := idOf_lt hp hrow hi
  -- the id in the pod
  obtain ⟨r, hr, hrv⟩ : ∃ r, podDramId cfg (cache cfg p row i) = .ok r ∧
      r.toNat = row * cfg.podShape.x.toNat + i := by
    rcases (by omega : row = 0 ∨ row = 1) with rfl | rfl
    · refine ⟨(tileInPod cfg (cache cfg p 0 i)).x, ?_, ?_⟩
      · simp only [podDramId, hn, decide_true, if_true]
      · rw [hcol]
        omega
    · refine ⟨(tileInPod cfg (cache cfg p 1 i)).x + cfg.podShape.x, ?_, ?_⟩
      · simp [podDramId, hn, hs]
      · rw [UInt32.toNat_add, hcol]
        omega
  refine ⟨toIndex p cfg.pods * (cfg.podShape.x * 2) + r, ?_, ?_⟩
  · simp only [dramId, h.cache_pod hb hp hrow hi, hr, bind, Except.bind, pure, Except.pure]
  · rw [UInt32.toNat_add, UInt32.toNat_mul, ndrams_toNat h2, hrv,
      toIndex_toNat (length_lt hc (by omega)) hp, Nat.mod_add_mod]
    exact Nat.mod_eq_of_lt (lt_trans hlt hc)

/-- The id of a cache leads back to the cache. -/
theorem dram_idOf (hc : cacheCount cfg < 2 ^ 32) (hp : IsPod cfg p) {row i : ℕ} (hrow : row < 2)
    (hi : i < cfg.podShape.x.toNat) {id : UInt32} (hid : id.toNat = idOf cfg p row i) :
    dram cfg id = .ok (cache cfg p row i) := by
  have h2 := two_width_lt hc hp
  have hlt := column_lt hrow hi
  obtain ⟨hpx, hpy⟩ := hp
  rw [UInt32.lt_iff_toNat_lt] at hpx hpy
  have hn : cfg.podShape.x * 2 ≠ 0 := by
    rw [ne_eq, ← UInt32.toNat_inj, ndrams_toNat h2]
    simp only [UInt32.reduceToNat]
    omega
  have hx : cfg.podShape.x ≠ 0 := by
    rw [ne_eq, ← UInt32.toNat_inj]
    simp only [UInt32.reduceToNat]
    omega
  have hy : cfg.pods.y ≠ 0 := by
    rw [ne_eq, ← UInt32.toNat_inj]
    simp only [UInt32.reduceToNat]
    omega
  have hdiv : (id / (cfg.podShape.x * 2)).toNat = p.x.toNat * cfg.pods.y.toNat + p.y.toNat := by
    rw [UInt32.toNat_div, ndrams_toNat h2, hid, idOf, Nat.mul_comm, Nat.mul_add_div (by omega),
      Nat.div_eq_of_lt hlt, Nat.add_zero]
  have hmod : (id % (cfg.podShape.x * 2)).toNat = row * cfg.podShape.x.toNat + i := by
    rw [UInt32.toNat_mod, ndrams_toNat h2, hid, idOf, Nat.mul_comm, Nat.mul_add_mod,
      Nat.mod_eq_of_lt hlt]
  have hpod : indexToCoordinate (id / (cfg.podShape.x * 2)).toNat cfg.pods = p := by
    have hq : (p.x.toNat * cfg.pods.y.toNat + p.y.toNat) / cfg.pods.y.toNat = p.x.toNat := by
      rw [Nat.mul_comm, Nat.mul_add_div (by omega), Nat.div_eq_of_lt hpy, Nat.add_zero]
    have hr : (p.x.toNat * cfg.pods.y.toNat + p.y.toNat) % cfg.pods.y.toNat = p.y.toNat := by
      rw [Nat.mul_comm, Nat.mul_add_mod, Nat.mod_eq_of_lt hpy]
    simp only [indexToCoordinate, hdiv, hq, hr, UInt32.ofNat_toNat]
  have hcolumn : id % (cfg.podShape.x * 2) % cfg.podShape.x = UInt32.ofNat i := by
    rw [← UInt32.toNat_inj, UInt32.toNat_mod, hmod, Nat.mul_comm, Nat.mul_add_mod,
      Nat.mod_eq_of_lt hi, UInt32.toNat_ofNat_of_lt' (by simp only [UInt32.size]; omega)]
  have hrowv : (id % (cfg.podShape.x * 2) / cfg.podShape.x).toNat = row := by
    rw [UInt32.toNat_div, hmod, Nat.mul_comm, Nat.mul_add_div (by omega), Nat.div_eq_of_lt hi,
      Nat.add_zero]
  have hedge : (podVcoreOrigin cfg p).y +
      (if id % (cfg.podShape.x * 2) / cfg.podShape.x ≠ 0 then cfg.podShape.y else -1) =
        edgeY cfg p row := by
    rcases (by omega : row = 0 ∨ row = 1) with rfl | rfl
    · rw [if_neg (by rw [not_not, ← UInt32.toNat_inj, hrowv]; rfl), edgeY_zero, podDramNorthY,
        UInt32.sub_eq_add_neg]
    · rw [if_pos (by rw [ne_eq, ← UInt32.toNat_inj, hrowv]; simp), edgeY_one, podDramSouthY]
  simp only [dram, div, mod, podDram, podDramX, podDramY, hn, hx, hy, if_false, bind, Except.bind,
    pure, Except.pure, hpod, hcolumn, hedge, cache]

theorem exists_idOf {n : ℕ} (hn : n < cacheCount cfg) (hc : cacheCount cfg < 2 ^ 32) :
    ∃ p row i, IsPod cfg p ∧ row < 2 ∧ i < cfg.podShape.x.toNat ∧ idOf cfg p row i = n := by
  have hw : 0 < cfg.podShape.x.toNat :=
    Nat.pos_of_ne_zero fun hz => by simp [cacheCount, hz] at hn
  have hlen := length_lt hc hw
  have hk : n / (2 * cfg.podShape.x.toNat) < (Coordinate.toLength cfg.pods).toNat := by
    rw [Coordinate.toLength, UInt32.toNat_mul, Nat.mod_eq_of_lt hlen]
    rw [cacheCount, Nat.mul_comm] at hn
    exact Nat.div_lt_of_lt_mul hn
  obtain ⟨hp, hidx⟩ := PodMalloc.indexToCoordinate_spec hk
  rw [toIndex_toNat hlen hp] at hidx
  have hr : n % (2 * cfg.podShape.x.toNat) < cfg.podShape.x.toNat * 2 := by
    rw [Nat.mul_comm _ 2]
    exact Nat.mod_lt n (by omega)
  refine ⟨_, n % (2 * cfg.podShape.x.toNat) / cfg.podShape.x.toNat,
    n % (2 * cfg.podShape.x.toNat) % cfg.podShape.x.toNat, hp, Nat.div_lt_of_lt_mul hr,
    Nat.mod_lt _ hw, ?_⟩
  rw [idOf, hidx, Nat.div_add_mod', Nat.div_add_mod']

theorem Regular.originsFit (h : Regular cfg) (hp : IsPod cfg p) : OriginsFit cfg := by
  have hpos : 0 < cfg.pods.x.toNat ∧ 0 < cfg.pods.y.toNat := by
    obtain ⟨hx, hy⟩ := hp
    rw [UInt32.lt_iff_toNat_lt] at hx hy
    omega
  have hone : ∀ n : UInt32, 0 < n.toNat → (n - 1).toNat = n.toNat - 1 := by
    intro n hn
    rw [UInt32.toNat_sub_of_le]
    · rfl
    · exact UInt32.le_iff_toNat_le.mpr hn
  have hlast : IsPod cfg ⟨cfg.pods.x - 1, cfg.pods.y - 1⟩ := by
    constructor <;> rw [UInt32.lt_iff_toNat_lt, hone _ (by omega)] <;> omega
  obtain ⟨hx, hy⟩ := h.inNetwork _ hlast
  simp only [hone _ hpos.1, hone _ hpos.2] at hx hy
  have hw : cfg.dimensionNetwork.x.toNat ≤ 2 ^ 31 := by
    rw [Configuration.Config.dimensionNetwork, one_shiftLeft_toNat]
    exact Nat.pow_le_pow_right (by decide) (by omega)
  have hdy := cfg.dimensionNetwork.y.toNat_lt
  constructor
  · rw [Nat.add_sub_cancel' (by omega : 1 ≤ cfg.pods.x.toNat)] at hx
    have hle := Nat.mul_le_mul_left (2 ^ tileBitsX cfg) (by omega : 1 ≤ cfg.pods.x.toNat)
    rw [Nat.mul_add]
    omega
  · have he : 1 + 2 * (cfg.pods.y.toNat - 1) + 1 = 2 * cfg.pods.y.toNat := by omega
    rw [h.height, ← Nat.mul_succ, Nat.succ_eq_add_one, he] at hy
    omega

end Ids

/-- The caches that the loop visits and the tiles of the pod are classified as the pod's. -/
structure PodLaw (cfg : Config) (p : Coord) : Prop where
  visits : ∃ visited, podForeachDram cfg p = some visited ∧
    visited.length = 2 * cfg.podShape.x.toNat ∧ visited.Nodup ∧
    ∀ co ∈ visited, isDram cfg co = true ∧ isVanillaCore cfg co = false ∧ pod cfg co = p
  tiles : ∀ co, IsTile cfg p co → isVanillaCore cfg co = true ∧ pod cfg co = p

/-- The ids number the caches of all pods without gaps, and each id leads back to its cache. -/
structure IdLaw (cfg : Config) : Prop where
  into : ∀ co, IsCache cfg co →
    ∃ id, dramId cfg co = .ok id ∧ id < cfg.numDramCoordinates ∧ dram cfg id = .ok co
  injective : ∀ co co', IsCache cfg co → IsCache cfg co' → dramId cfg co = dramId cfg co' →
    co = co'
  onto : ∀ id < cfg.numDramCoordinates, ∃ co, IsCache cfg co ∧ dramId cfg co = .ok id

theorem Regular.isCache_iff {cfg : Config} (h : Regular cfg) {co : Coord} :
    IsCache cfg co ↔ ∃ p, IsPod cfg p ∧ ∃ row < 2, ∃ i < cfg.podShape.x.toNat,
      co = cache cfg p row i := by
  constructor
  · rintro ⟨p, hp, visited, hv, hco⟩
    rw [(h.placed.unwrapped hp).foreachDram_eq] at hv
    cases hv
    exact ⟨p, hp, mem_visited_iff.mp hco⟩
  · rintro ⟨p, hp, hco⟩
    exact ⟨p, hp, _, (h.placed.unwrapped hp).foreachDram_eq, mem_visited_iff.mpr hco⟩

theorem Regular.podLaw {cfg : Config} {p : Coord} (h : Regular cfg) (hb : 1 ≤ tileBitsY cfg)
    (hp : IsPod cfg p) : PodLaw cfg p := by
  have hu := h.placed.unwrapped hp
  refine ⟨⟨_, hu.foreachDram_eq, visited_length, hu.visited_nodup, ?_⟩, ?_⟩
  · intro co hco
    obtain ⟨row, hrow, i, hi, rfl⟩ := mem_visited_iff.mp hco
    obtain ⟨hn, hs, hv⟩ := h.placed.cache_class hb hp (i := i) hrow
    refine ⟨?_, hv, h.placed.cache_pod hb hp hrow hi⟩
    rw [isDram, hn, hs, Bool.or_eq_true, decide_eq_true_eq, decide_eq_true_eq]
    omega
  · intro co hco
    exact ⟨isTile_vanilla cfg h.height.le hco,
      pod_of_isTile cfg ⟨h.width, h.height.le⟩ (h.originsFit hp) hp hco⟩

theorem Regular.idLaw {cfg : Config} (h : Regular cfg) (hb : 1 ≤ tileBitsY cfg)
    (hc : cacheCount cfg < 2 ^ 32) : IdLaw cfg := by
  have hinto : ∀ co, IsCache cfg co →
      ∃ id, dramId cfg co = .ok id ∧ id < cfg.numDramCoordinates ∧ dram cfg id = .ok co := by
    intro co hco
    obtain ⟨p, hp, row, hrow, i, hi, rfl⟩ := h.isCache_iff.mp hco
    obtain ⟨id, hid, hval⟩ := h.placed.dramId_cache hb hc hp hrow hi
    refine ⟨id, hid, ?_, dram_idOf hc hp hrow hi hval⟩
    rw [UInt32.lt_iff_toNat_lt, hval, numDramCoordinates_toNat hc]
    exact idOf_lt hp hrow hi
  refine ⟨hinto, ?_, ?_⟩
  · intro co co' hco hco' he
    obtain ⟨id, hid, -, hd⟩ := hinto co hco
    obtain ⟨id', hid', -, hd'⟩ := hinto co' hco'
    rw [hid, hid'] at he
    cases he
    rw [hd] at hd'
    exact Except.ok.inj hd'
  · intro id hid
    rw [UInt32.lt_iff_toNat_lt, numDramCoordinates_toNat hc] at hid
    obtain ⟨p, row, i, hp, hrow, hi, hval⟩ := exists_idOf hid hc
    obtain ⟨id', hid', hval'⟩ := h.placed.dramId_cache hb hc hp hrow hi
    have he : id' = id := by rw [← UInt32.toNat_inj, hval', hval]
    rw [he] at hid'
    exact ⟨_, h.isCache_iff.mpr ⟨p, hp, row, hrow, i, hi, rfl⟩, hid'⟩

theorem pod_geometry {cfg : Config} (h : Regular cfg) (hb : 1 ≤ tileBitsY cfg)
    (hc : cacheCount cfg < 2 ^ 32) : (∀ p, IsPod cfg p → PodLaw cfg p) ∧ IdLaw cfg :=
  ⟨fun _ hp => h.podLaw hb hp, h.idLaw hb hc⟩

def fourPods : Machine := { podsX := 2, podsY := 2 }

theorem pod_geometry_x2y2 :
    PodLaw fourPods.config ⟨1, 1⟩ ∧ IdLaw fourPods.config := by
  have h : Regular fourPods.config :=
    ⟨by decide, by decide, forall_pod (by decide), forall_pod (by decide)⟩
  obtain ⟨hpods, hids⟩ := pod_geometry h (by decide) (by decide)
  exact ⟨hpods ⟨1, 1⟩ (by decide), hids⟩

def oneRow : Machine := { nocCoordYWidth := 4, podTilesY := 1, hostCoordY := 5 }

def wideRows : Machine :=
  { nocCoordXWidth := 31, podTilesX := 0x10000000, podsX := 4, podsY := 2 }

/-- With no bit for the row of a tile, northern caches are taken for southern ones; with
`2 ^ 32` caches the ids run out. -/
theorem pod_geometry_fails :
    (Accepted oneRow.config ∧ Regular oneRow.config ∧ cacheCount oneRow.config < 2 ^ 32 ∧
      IsPod oneRow.config ⟨0, 0⟩ ∧ ¬ PodLaw oneRow.config ⟨0, 0⟩) ∧
    Accepted wideRows.config ∧ Regular wideRows.config ∧ 1 ≤ tileBitsY wideRows.config ∧
      ¬ IdLaw wideRows.config := by
  have hrow : Regular oneRow.config :=
    ⟨by decide, by decide, forall_pod (by decide), forall_pod (by decide)⟩
  have hwide : Regular wideRows.config :=
    ⟨by decide, by decide, forall_pod (by decide), forall_pod (by decide)⟩
  refine ⟨⟨Machine.config_accepted _ (by decide), hrow, by decide, by decide, ?_⟩,
    Machine.config_accepted _ (by decide), hwide, by decide, ?_⟩
  · rintro ⟨⟨visited, hv, -, -, hclass⟩, -⟩
    rw [(hrow.placed.unwrapped (by decide)).foreachDram_eq] at hv
    cases hv
    have hmem : cache oneRow.config ⟨0, 0⟩ 0 0 ∈
        cacheRow oneRow.config ⟨0, 0⟩ 0 0 ++ cacheRow oneRow.config ⟨0, 0⟩ 1 0 :=
      mem_visited_iff.mpr ⟨0, by decide, 0, by decide, rfl⟩
    exact absurd (hclass _ hmem).2.2 (by decide)
  · intro h
    obtain ⟨id, -, hlt, -⟩ := h.into (cache wideRows.config ⟨0, 0⟩ 0 0)
      (hwide.isCache_iff.mpr ⟨⟨0, 0⟩, by decide, 0, by decide, 0, by decide, rfl⟩)
    rw [UInt32.lt_iff_toNat_lt] at hlt
    exact absurd hlt (Nat.not_lt_zero _)

end PodGeometry
