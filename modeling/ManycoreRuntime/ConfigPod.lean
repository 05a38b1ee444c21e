import ManycoreRuntime.Config

/-! # Pods

A network coordinate splits into a pod field and a tile field. Rows of network pods
alternate: odd rows hold vanilla cores, and the caches of a pod lie along the edges of the
even rows around it. -/
namespace ConfigPod

open Coordinate (Coord Dimension InRect)
open Configuration (Config)

variable (cfg : Config)

def podCoordWidth : Coord := ⟨3, 4⟩

def tileCoordWidth : Coord :=
  ⟨cfg.nocCoordWidth.x - podCoordWidth.x, cfg.nocCoordWidth.y - podCoordWidth.y⟩

def tileCoordMask : Coord :=
  ⟨(1 <<< (tileCoordWidth cfg).x) - 1, (1 <<< (tileCoordWidth cfg).y) - 1⟩

def podCoordMask : Coord := ⟨~~~(tileCoordMask cfg).x, ~~~(tileCoordMask cfg).y⟩

def podVcoreOrigin (pod : Coord) : Coord :=
  let tile_w := tileCoordWidth cfg
  let og : Coord := ⟨1 <<< tile_w.x, 1 <<< tile_w.y⟩
  ⟨og.x + (1 <<< tile_w.x) * pod.x, og.y + (1 <<< tile_w.y) * (pod.y * 2)⟩

def npod (co : Coord) : Coord :=
  let pm := podCoordMask cfg
  let s := tileCoordWidth cfg
  ⟨(pm.x &&& co.x) >>> s.x, (pm.y &&& co.y) >>> s.y⟩

def tileInPod (co : Coord) : Coord :=
  ⟨(tileCoordMask cfg).x &&& co.x, (tileCoordMask cfg).y &&& co.y⟩

def isDramNorth (co : Coord) : Bool :=
  (tileInPod cfg co).y == (tileCoordMask cfg).y && (npod cfg co).y % 2 == 0

/-- The northern-most row is reserved for the host. -/
def isDramSouth (co : Coord) : Bool :=
  (tileInPod cfg co).y == 0 && (npod cfg co).y % 2 == 0 && co.y != cfg.hostInterface.y

def isDram (co : Coord) : Bool := isDramNorth cfg co || isDramSouth cfg co

def isVanillaCore (co : Coord) : Bool := (npod cfg co).y % 2 == 1

def pod (co : Coord) : Coord :=
  let np := npod cfg co
  if isVanillaCore cfg co then ⟨np.x - 1, np.y >>> 1⟩
  else if isDramSouth cfg co then ⟨np.x - 1, (np.y >>> 1) - 1⟩
  else if isDramNorth cfg co then ⟨np.x - 1, np.y >>> 1⟩
  else ⟨0, 0⟩

def podDramNorthY (pod : Coord) : UInt32 := (podVcoreOrigin cfg pod).y - 1

def podDramSouthY (pod : Coord) : UInt32 := (podVcoreOrigin cfg pod).y + cfg.podShape.y

def IsPod (pod : Coord) : Prop := pod.x < cfg.pods.x ∧ pod.y < cfg.pods.y

instance (pod : Coord) : Decidable (IsPod cfg pod) :=
  inferInstanceAs (Decidable (_ < _ ∧ _ < _))

variable {cfg} in
theorem forall_pod {P : Coord → Prop}
    (h : ∀ i < cfg.pods.x.toNat, ∀ j < cfg.pods.y.toNat, P ⟨UInt32.ofNat i, UInt32.ofNat j⟩) :
    ∀ p, IsPod cfg p → P p := by
  rintro ⟨x, y⟩ ⟨hx, hy⟩
  have hp := h x.toNat (UInt32.lt_iff_toNat_lt.mp hx) y.toNat (UInt32.lt_iff_toNat_lt.mp hy)
  rwa [UInt32.ofNat_toNat, UInt32.ofNat_toNat] at hp

/-- A coordinate is a tile of a pod when it lies in the pod's rectangle of vanilla cores. -/
def IsTile (pod co : Coord) : Prop := InRect (podVcoreOrigin cfg pod) cfg.podShape co

instance (pod co : Coord) : Decidable (IsTile cfg pod co) :=
  inferInstanceAs (Decidable (InRect _ _ _))

/-- The processor takes shift amounts modulo the width of the word. -/
def tileBitsX : ℕ := (tileCoordWidth cfg).x.toNat % 32

def tileBitsY : ℕ := (tileCoordWidth cfg).y.toNat % 32

theorem tileBitsX_lt : tileBitsX cfg < 32 := Nat.mod_lt _ (by decide)

theorem tileBitsY_lt : tileBitsY cfg < 32 := Nat.mod_lt _ (by decide)

theorem one_shiftLeft_toNat (w : UInt32) : ((1 : UInt32) <<< w).toNat = 2 ^ (w.toNat % 32) := by
  have h : 2 ^ (w.toNat % 32) < 2 ^ 32 := BitField.pow_lt_word (Nat.mod_lt _ (by omega))
  rw [UInt32.toNat_shiftLeft, Nat.shiftLeft_eq]
  simpa using h

theorem mask_toNat (w : UInt32) : (((1 : UInt32) <<< w) - 1).toNat = 2 ^ (w.toNat % 32) - 1 := by
  have h : 2 ^ (w.toNat % 32) < 2 ^ 32 := BitField.pow_lt_word (Nat.mod_lt _ (by omega))
  have h1 : 1 ≤ 2 ^ (w.toNat % 32) := Nat.one_le_two_pow
  rw [UInt32.toNat_sub, one_shiftLeft_toNat]
  simp only [UInt32.reduceToNat]
  omega

theorem low_field (w c : UInt32) :
    ((((1 : UInt32) <<< w) - 1) &&& c).toNat = c.toNat % 2 ^ (w.toNat % 32) := by
  rw [UInt32.toNat_and, mask_toNat, Nat.and_comm, Nat.and_two_pow_sub_one_eq_mod]

theorem high_field (w c : UInt32) :
    ((~~~(((1 : UInt32) <<< w) - 1) &&& c) >>> w).toNat = c.toNat / 2 ^ (w.toNat % 32) := by
  have hw : w.toNat % 32 < 32 := Nat.mod_lt _ (by omega)
  rw [UInt32.toNat_shiftRight, ← Nat.shiftRight_eq_div_pow, UInt32.toNat_and,
    UInt32.toNat_not, mask_toNat]
  apply Nat.eq_of_testBit_eq
  intro i
  have hm : UInt32.size - 1 - (2 ^ (w.toNat % 32) - 1) =
      2 ^ 32 - ((2 ^ (w.toNat % 32) - 1) + 1) := by
    simp only [UInt32.size]
    omega
  have hlt : 2 ^ (w.toNat % 32) - 1 < 2 ^ 32 := by
    have := BitField.pow_lt_word hw
    omega
  rw [Nat.testBit_shiftRight, Nat.testBit_shiftRight, Nat.testBit_and, hm,
    Nat.testBit_two_pow_sub_succ hlt, Nat.testBit_two_pow_sub_one]
  by_cases hi : w.toNat % 32 + i < 32
  · simp [hi]
  · have hc : c.toNat.testBit (w.toNat % 32 + i) = false := by
      apply Nat.testBit_lt_two_pow
      exact lt_of_lt_of_le c.toNat_lt (Nat.pow_le_pow_right (by omega) (by omega))
    simp [hc]

theorem npod_x_toNat (co : Coord) :
    (npod cfg co).x.toNat = co.x.toNat / 2 ^ tileBitsX cfg := high_field _ _

theorem npod_y_toNat (co : Coord) :
    (npod cfg co).y.toNat = co.y.toNat / 2 ^ tileBitsY cfg := high_field _ _

theorem tileInPod_y_toNat (co : Coord) :
    (tileInPod cfg co).y.toNat = co.y.toNat % 2 ^ tileBitsY cfg := low_field _ _

theorem isVanillaCore_iff (co : Coord) :
    isVanillaCore cfg co = true ↔ co.y.toNat / 2 ^ tileBitsY cfg % 2 = 1 := by
  rw [isVanillaCore, beq_iff_eq, ← UInt32.toNat_inj, UInt32.toNat_mod, npod_y_toNat]
  simp

theorem isDramNorth_iff (co : Coord) :
    isDramNorth cfg co = true ↔
      co.y.toNat % 2 ^ tileBitsY cfg = 2 ^ tileBitsY cfg - 1 ∧
      co.y.toNat / 2 ^ tileBitsY cfg % 2 = 0 := by
  rw [isDramNorth, Bool.and_eq_true, beq_iff_eq, beq_iff_eq, ← UInt32.toNat_inj,
    ← UInt32.toNat_inj, UInt32.toNat_mod, npod_y_toNat, tileInPod_y_toNat, tileCoordMask,
    mask_toNat]
  simp [tileBitsY]

theorem isDramSouth_iff (co : Coord) :
    isDramSouth cfg co = true ↔
      co.y.toNat % 2 ^ tileBitsY cfg = 0 ∧ co.y.toNat / 2 ^ tileBitsY cfg % 2 = 0 ∧
      co.y ≠ cfg.hostInterface.y := by
  rw [isDramSouth, Bool.and_eq_true, Bool.and_eq_true, beq_iff_eq, beq_iff_eq,
    ← UInt32.toNat_inj, ← UInt32.toNat_inj, UInt32.toNat_mod, npod_y_toNat,
    tileInPod_y_toNat, bne_iff_ne]
  simp [and_assoc]

theorem podVcoreOrigin_x_toNat (p : Coord) :
    (podVcoreOrigin cfg p).x.toNat = 2 ^ tileBitsX cfg * (1 + p.x.toNat) % 2 ^ 32 := by
  simp only [podVcoreOrigin, UInt32.toNat_add, UInt32.toNat_mul, one_shiftLeft_toNat]
  rw [Nat.add_mod_mod, Nat.mul_add, Nat.mul_one]
  rfl

theorem podVcoreOrigin_y_toNat (p : Coord) :
    (podVcoreOrigin cfg p).y.toNat = 2 ^ tileBitsY cfg * (1 + 2 * p.y.toNat) % 2 ^ 32 := by
  simp only [podVcoreOrigin, UInt32.toNat_add, UInt32.toNat_mul, one_shiftLeft_toNat]
  rw [Nat.mul_mod_mod, Nat.add_mod_mod, Nat.mul_add, Nat.mul_one, Nat.mul_comm p.y.toNat]
  rfl

theorem origin_x_aligned (p : Coord) :
    ∃ q, (podVcoreOrigin cfg p).x.toNat = 2 ^ tileBitsX cfg * q := by
  have hb := tileBitsX_lt cfg
  have h32 : 2 ^ 32 = 2 ^ tileBitsX cfg * 2 ^ (32 - tileBitsX cfg) := by
    rw [← pow_add, Nat.add_sub_cancel' hb.le]
  rw [podVcoreOrigin_x_toNat, h32, Nat.mul_mod_mul_left]
  exact ⟨_, rfl⟩

theorem origin_y_aligned (p : Coord) :
    ∃ q, (podVcoreOrigin cfg p).y.toNat = 2 ^ tileBitsY cfg * q ∧ q % 2 = 1 := by
  have hb := tileBitsY_lt cfg
  have h32 : 2 ^ 32 = 2 ^ tileBitsY cfg * 2 ^ (32 - tileBitsY cfg) := by
    rw [← pow_add, Nat.add_sub_cancel' hb.le]
  refine ⟨(1 + 2 * p.y.toNat) % 2 ^ (32 - tileBitsY cfg), ?_, ?_⟩
  · rw [podVcoreOrigin_y_toNat, h32, Nat.mul_mod_mul_left]
  · have h2 : (2 : ℕ) ∣ 2 ^ (32 - tileBitsY cfg) := dvd_pow_self 2 (by omega)
    rw [Nat.mod_mod_of_dvd _ h2]
    omega

theorem origin_y_pos (p : Coord) : 0 < (podVcoreOrigin cfg p).y.toNat := by
  obtain ⟨q, hq, hodd⟩ := origin_y_aligned cfg p
  rw [hq]
  exact Nat.mul_pos (Nat.two_pow_pos _) (by omega)

theorem podVcoreOrigin_pod_of_vanilla {co : Coord} (h : isVanillaCore cfg co = true) :
    (podVcoreOrigin cfg (pod cfg co)).x.toNat =
        2 ^ tileBitsX cfg * (co.x.toNat / 2 ^ tileBitsX cfg) ∧
      (podVcoreOrigin cfg (pod cfg co)).y.toNat =
        2 ^ tileBitsY cfg * (co.y.toNat / 2 ^ tileBitsY cfg) := by
  have hp : pod cfg co = ⟨(npod cfg co).x - 1, (npod cfg co).y >>> 1⟩ := by simp [pod, h]
  have hx := Nat.mul_div_le co.x.toNat (2 ^ tileBitsX cfg)
  have hy := Nat.mul_div_le co.y.toNat (2 ^ tileBitsY cfg)
  have hcx := co.x.toNat_lt
  have hcy := co.y.toNat_lt
  constructor
  · have hs : ((npod cfg co).x - 1).toNat =
        (2 ^ 32 - 1 + co.x.toNat / 2 ^ tileBitsX cfg) % 2 ^ 32 := by
      rw [UInt32.toNat_sub, npod_x_toNat]
      rfl
    rw [podVcoreOrigin_x_toNat, hp, hs]
    -- pod column `n - 1` wraps around when the network column `n` is zero
    rcases Nat.eq_zero_or_pos (co.x.toNat / 2 ^ tileBitsX cfg) with hz | hn
    · simp [hz]
    · have he : 1 + (2 ^ 32 - 1 + co.x.toNat / 2 ^ tileBitsX cfg) % 2 ^ 32 =
          co.x.toNat / 2 ^ tileBitsX cfg := by
        have := Nat.div_le_self co.x.toNat (2 ^ tileBitsX cfg)
        omega
      rw [he]
      exact Nat.mod_eq_of_lt (by omega)
  · rw [isVanillaCore_iff] at h
    have hs : ((npod cfg co).y >>> 1).toNat = co.y.toNat / 2 ^ tileBitsY cfg / 2 := by
      rw [UInt32.toNat_shiftRight, npod_y_toNat]
      simp [Nat.shiftRight_eq_div_pow]
    rw [podVcoreOrigin_y_toNat, hp, hs]
    have he : 1 + 2 * (co.y.toNat / 2 ^ tileBitsY cfg / 2) = co.y.toNat / 2 ^ tileBitsY cfg := by
      omega
    rw [he]
    exact Nat.mod_eq_of_lt (by omega)

theorem origin_isVanillaCore (p : Coord) : isVanillaCore cfg (podVcoreOrigin cfg p) = true := by
  obtain ⟨q, hq, hodd⟩ := origin_y_aligned cfg p
  rw [isVanillaCore_iff, hq, Nat.mul_div_cancel_left _ (Nat.two_pow_pos _), hodd]

theorem podVcoreOrigin_pod_origin (p : Coord) :
    podVcoreOrigin cfg (pod cfg (podVcoreOrigin cfg p)) = podVcoreOrigin cfg p := by
  obtain ⟨hx, hy⟩ := podVcoreOrigin_pod_of_vanilla cfg (origin_isVanillaCore cfg p)
  obtain ⟨qx, hqx⟩ := origin_x_aligned cfg p
  obtain ⟨qy, hqy, -⟩ := origin_y_aligned cfg p
  apply Coordinate.coord_eq
  · rw [hx, hqx, Nat.mul_div_cancel_left _ (Nat.two_pow_pos _)]
  · rw [hy, hqy, Nat.mul_div_cancel_left _ (Nat.two_pow_pos _)]

/-- Pods no wider and no higher than the tile field keep their tiles apart. -/
structure ShapeFits : Prop where
  x : cfg.podShape.x.toNat ≤ 2 ^ tileBitsX cfg
  y : cfg.podShape.y.toNat ≤ 2 ^ tileBitsY cfg

private theorem field_of_aligned {b q n s c : ℕ} (hs : s ≤ 2 ^ b) (ho : n = 2 ^ b * q)
    (h1 : n ≤ c) (h2 : c < n + s) : c / 2 ^ b = q := by
  have hq : c < 2 ^ b * (q + 1) := by rw [Nat.mul_add]; omega
  rw [Nat.div_eq_iff (Nat.two_pow_pos b)]
  rw [Nat.mul_comm (2 ^ b)] at hq ho
  rw [Nat.add_mul] at hq
  omega

theorem isTile_vanilla (h : cfg.podShape.y.toNat ≤ 2 ^ tileBitsY cfg) {p co : Coord}
    (ht : IsTile cfg p co) : isVanillaCore cfg co = true := by
  obtain ⟨q, hq, hodd⟩ := origin_y_aligned cfg p
  obtain ⟨-, -, h3, h4⟩ := ht
  rw [isVanillaCore_iff, field_of_aligned h hq h3 h4, hodd]

theorem podVcoreOrigin_y_of_isTile (h : cfg.podShape.y.toNat ≤ 2 ^ tileBitsY cfg) {p co : Coord}
    (ht : IsTile cfg p co) :
    (podVcoreOrigin cfg (pod cfg co)).y = (podVcoreOrigin cfg p).y := by
  obtain ⟨-, hy⟩ := podVcoreOrigin_pod_of_vanilla cfg (isTile_vanilla cfg h ht)
  obtain ⟨q, hq, -⟩ := origin_y_aligned cfg p
  obtain ⟨-, -, h3, h4⟩ := ht
  rw [← UInt32.toNat_inj, hy, field_of_aligned h hq h3 h4, hq]

/-- Every tile of a pod finds the origin of that pod. -/
theorem podVcoreOrigin_pod_of_isTile (h : ShapeFits cfg) {p co : Coord}
    (ht : IsTile cfg p co) : podVcoreOrigin cfg (pod cfg co) = podVcoreOrigin cfg p := by
  obtain ⟨hx, -⟩ := podVcoreOrigin_pod_of_vanilla cfg (isTile_vanilla cfg h.y ht)
  obtain ⟨q, hq⟩ := origin_x_aligned cfg p
  have hy := podVcoreOrigin_y_of_isTile cfg h.y ht
  obtain ⟨h1, h2, -, -⟩ := ht
  apply Coordinate.coord_eq
  · rw [hx, field_of_aligned h.x hq h1 h2, hq]
  · rw [hy]

structure OriginsFit : Prop where
  x : 2 ^ tileBitsX cfg * (1 + cfg.pods.x.toNat) ≤ 2 ^ 32
  y : 2 ^ tileBitsY cfg * (2 * cfg.pods.y.toNat) ≤ 2 ^ 32

theorem pod_of_isTile (h : ShapeFits cfg) (ho : OriginsFit cfg) {p co : Coord}
    (hp : IsPod cfg p) (ht : IsTile cfg p co) : pod cfg co = p := by
  obtain ⟨hpx, hpy⟩ := hp
  rw [UInt32.lt_iff_toNat_lt] at hpx hpy
  have hbx := Nat.two_pow_pos (tileBitsX cfg)
  have hby := Nat.two_pow_pos (tileBitsY cfg)
  have hox : (podVcoreOrigin cfg p).x.toNat = 2 ^ tileBitsX cfg * (1 + p.x.toNat) := by
    rw [podVcoreOrigin_x_toNat]
    have := Nat.mul_lt_mul_of_pos_left (show 1 + p.x.toNat < 1 + cfg.pods.x.toNat by omega) hbx
    exact Nat.mod_eq_of_lt (lt_of_lt_of_le this ho.x)
  have hoy : (podVcoreOrigin cfg p).y.toNat = 2 ^ tileBitsY cfg * (1 + 2 * p.y.toNat) := by
    rw [podVcoreOrigin_y_toNat]
    have := Nat.mul_lt_mul_of_pos_left
      (show 1 + 2 * p.y.toNat < 2 * cfg.pods.y.toNat by omega) hby
    exact Nat.mod_eq_of_lt (lt_of_lt_of_le this ho.y)
  have hv := isTile_vanilla cfg h.y ht
  have hpod : pod cfg co = ⟨(npod cfg co).x - 1, (npod cfg co).y >>> 1⟩ := by simp [pod, hv]
  obtain ⟨h1, h2, h3, h4⟩ := ht
  have hx : (npod cfg co).x.toNat = 1 + p.x.toNat := by
    rw [npod_x_toNat, field_of_aligned h.x hox h1 h2]
  have hy : (npod cfg co).y.toNat = 1 + 2 * p.y.toNat := by
    rw [npod_y_toNat, field_of_aligned h.y hoy h3 h4]
  rw [hpod]
  apply Coordinate.coord_eq
  · have hle : (1 : UInt32) ≤ (npod cfg co).x := by
      rw [UInt32.le_iff_toNat_le, hx]
      exact Nat.le_add_right 1 _
    show ((npod cfg co).x - 1).toNat = p.x.toNat
    rw [UInt32.toNat_sub_of_le _ _ hle, hx]
    exact Nat.add_sub_cancel_left 1 _
  · show ((npod cfg co).y >>> 1).toNat = p.y.toNat
    rw [UInt32.toNat_shiftRight, hy, Nat.shiftRight_eq_div_pow]
    show (1 + 2 * p.y.toNat) / 2 = p.y.toNat
    omega

end ConfigPod
