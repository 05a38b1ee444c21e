import ManycoreRuntime.ConfigPod
import Mathlib.Data.List.Nodup

/-! # The mesh of a pod

The tiles of a pod in one array, indexed relative to the origin of the mesh. -/
namespace PodMesh

open Coordinate
open Configuration (Config)
open ConfigPod (podVcoreOrigin)

inductive TileStatus where
  | free
  | busy
  deriving DecidableEq, Repr

structure Tile where
  coord : Coord
  origin : Coord
  tileGroupId : Coord
  status : TileStatus
  deriving DecidableEq, Repr

structure Mesh where
  dim : Dimension
  origin : Coord
  tiles : List Tile
  deriving DecidableEq, Repr

def getTileId (origin : Coord) (dim : Dimension) (coord : Coord) : UInt32 :=
  toIndex (getRelative origin coord) dim

namespace Mesh

variable (m : Mesh)

def tileAt (xy : Coord) : Option Tile := m.tiles[(getTileId m.origin m.dim xy).toNat]?

def modifyTile (xy : Coord) (f : Tile → Tile) : Mesh :=
  { m with tiles := m.tiles.modify (getTileId m.origin m.dim xy).toNat f }

def updateTiles (f : Coord → Tile → Tile) (cs : List Coord) : Mesh :=
  cs.foldl (fun m xy => m.modifyTile xy (f xy)) m

end Mesh

def meshFullCore : Dimension := ⟨0, 0⟩

def initTile (origin xy : Coord) : Tile where
  coord := xy
  origin := origin
  tileGroupId := ⟨-1, -1⟩
  status := .free

/-- The array of a mesh before its tiles are initialised; what it holds plays no part. -/
def blankMesh (origin : Coord) (dim : Dimension) : Mesh where
  dim := dim
  origin := origin
  tiles := List.replicate (toLength dim).toNat (initTile origin origin)

def meshDim (cfg : Config) (optDim defaultDim : Dimension) : Dimension :=
  if defaultDim ≠ meshFullCore then defaultDim
  else if optDim = meshFullCore then cfg.podShape
  else optDim

def meshInit (cfg : Config) (podCoord : Coord) (optDim defaultDim : Dimension) :
    Except Errno Mesh :=
  let dim := meshDim cfg optDim defaultDim
  let origin := podVcoreOrigin cfg podCoord
  if dim.x ≤ 0 ∨ dim.y ≤ 0 then .error .invalid
  else if dim.x > cfg.podShape.x ∨ dim.y > cfg.podShape.y then .error .invalid
  -- a loop that wraps around leaves tiles without a value, and a length that wraps around
  -- leaves tiles without memory
  else if ¬ NoWrap origin dim ∨ 2 ^ 32 ≤ dim.x.toNat * dim.y.toNat then .error .undefined
  else .ok ((blankMesh origin dim).updateTiles (fun xy _ => initTile origin xy)
    (foreachCoordinate origin dim))

/-- The array has a place of its own for every coordinate of the mesh. -/
structure WellFormed (m : Mesh) : Prop where
  noWrap : NoWrap m.origin m.dim
  index : m.dim.x.toNat * m.dim.y.toNat < 2 ^ 32
  length : m.tiles.length = m.dim.x.toNat * m.dim.y.toNat

def InMesh (m : Mesh) (c : Coord) : Prop := InRect m.origin m.dim c

section Index

variable {m : Mesh} {c d : Coord}

theorem tileId_toNat (h : WellFormed m) (hc : InMesh m c) :
    (getTileId m.origin m.dim c).toNat =
      (c.x.toNat - m.origin.x.toNat) * m.dim.y.toNat + (c.y.toNat - m.origin.y.toNat) ∧
    (getTileId m.origin m.dim c).toNat < m.tiles.length := by
  obtain ⟨h1, h2, h3, h4⟩ := hc
  have hi := h.index
  have hx : (c.x - m.origin.x).toNat = c.x.toNat - m.origin.x.toNat :=
    UInt32.toNat_sub_of_le _ _ (UInt32.le_iff_toNat_le.mpr h1)
  have hy : (c.y - m.origin.y).toNat = c.y.toNat - m.origin.y.toNat :=
    UInt32.toNat_sub_of_le _ _ (UInt32.le_iff_toNat_le.mpr h3)
  have hrow : c.x.toNat - m.origin.x.toNat + 1 ≤ m.dim.x.toNat := by omega
  have hmul := Nat.mul_le_mul_right m.dim.y.toNat hrow
  rw [Nat.add_mul] at hmul
  have hid : (getTileId m.origin m.dim c).toNat =
      (c.x.toNat - m.origin.x.toNat) * m.dim.y.toNat + (c.y.toNat - m.origin.y.toNat) := by
    rw [getTileId, toIndex, getRelative, UInt32.toNat_add, UInt32.toNat_mul, hx, hy]
    omega
  refine ⟨hid, ?_⟩
  rw [hid, h.length]
  omega

theorem tileId_inj (h : WellFormed m) (hc : InMesh m c) (hd : InMesh m d)
    (he : (getTileId m.origin m.dim c).toNat = (getTileId m.origin m.dim d).toNat) : c = d := by
  rw [(tileId_toNat h hc).1, (tileId_toNat h hd).1] at he
  obtain ⟨h1, h2, h3, h4⟩ := hc
  obtain ⟨k1, k2, k3, k4⟩ := hd
  obtain ⟨hx, hy⟩ := row_column_inj (by omega) (by omega) he
  exact coord_eq (by omega) (by omega)

theorem exists_tileAt (h : WellFormed m) (hc : InMesh m c) : ∃ t, m.tileAt c = some t :=
  ⟨_, List.getElem?_eq_getElem (tileId_toNat h hc).2⟩

theorem modifyTile_wellFormed (h : WellFormed m) (f : Tile → Tile) :
    WellFormed (m.modifyTile c f) := by
  refine ⟨h.noWrap, h.index, ?_⟩
  rw [Mesh.modifyTile, List.length_modify]
  exact h.length

theorem modifyTile_tileAt (h : WellFormed m) (hc : InMesh m c) (hd : InMesh m d)
    (f : Tile → Tile) :
    (m.modifyTile c f).tileAt d = if d = c then (m.tileAt d).map f else m.tileAt d := by
  simp only [Mesh.tileAt, Mesh.modifyTile, List.getElem?_modify]
  by_cases he : d = c
  · rw [if_pos he, he]
    simp only [if_true]
    rfl
  · rw [if_neg he]
    have hne : (getTileId m.origin m.dim c).toNat ≠ (getTileId m.origin m.dim d).toNat :=
      fun hq => he (tileId_inj h hd hc hq.symm)
    simp only [hne, if_false]
    exact Option.map_id'

theorem updateTiles_dim (m : Mesh) (f : Coord → Tile → Tile) (cs : List Coord) :
    (m.updateTiles f cs).dim = m.dim ∧ (m.updateTiles f cs).origin = m.origin := by
  induction cs generalizing m with
  | nil => exact ⟨rfl, rfl⟩
  | cons c rest ih => exact ih (m.modifyTile c (f c))

theorem updateTiles_wellFormed (h : WellFormed m) (f : Coord → Tile → Tile) (cs : List Coord) :
    WellFormed (m.updateTiles f cs) := by
  induction cs generalizing m with
  | nil => exact h
  | cons c rest ih => exact ih (modifyTile_wellFormed h (f c))

theorem updateTiles_tileAt (h : WellFormed m) (f : Coord → Tile → Tile) {cs : List Coord}
    (hcs : ∀ c ∈ cs, InMesh m c) (hnd : cs.Nodup) (hd : InMesh m d) :
    (m.updateTiles f cs).tileAt d = if d ∈ cs then (m.tileAt d).map (f d) else m.tileAt d := by
  induction cs generalizing m with
  | nil => rfl
  | cons c rest ih =>
    obtain ⟨hnot, hnd⟩ := List.nodup_cons.mp hnd
    have hc : InMesh m c := hcs c List.mem_cons_self
    have hstep := ih (modifyTile_wellFormed (c := c) h (f c))
      (fun e he => hcs e (List.mem_cons_of_mem c he)) hnd hd
    show ((m.modifyTile c (f c)).updateTiles f rest).tileAt d = _
    rw [hstep, modifyTile_tileAt h hc hd]
    by_cases he : d = c
    · subst he
      simp [hnot]
    · simp [he]

end Index

section Init

variable {cfg : Config} {podCoord : Coord} {optDim defaultDim : Dimension} {m : Mesh}

theorem blankMesh_wellFormed {origin : Coord} {dim : Dimension} (hn : NoWrap origin dim)
    (hi : dim.x.toNat * dim.y.toNat < 2 ^ 32) : WellFormed (blankMesh origin dim) := by
  refine ⟨hn, hi, ?_⟩
  rw [blankMesh, List.length_replicate, toLength, UInt32.toNat_mul]
  exact Nat.mod_eq_of_lt hi

theorem meshInit_ok (h : meshInit cfg podCoord optDim defaultDim = .ok m) :
    ∃ dim, 0 < dim.x.toNat ∧ 0 < dim.y.toNat ∧ dim.x.toNat ≤ cfg.podShape.x.toNat ∧
      dim.y.toNat ≤ cfg.podShape.y.toNat ∧
      WellFormed (blankMesh (podVcoreOrigin cfg podCoord) dim) ∧
      m = (blankMesh (podVcoreOrigin cfg podCoord) dim).updateTiles
        (fun xy _ => initTile (podVcoreOrigin cfg podCoord) xy)
        (foreachCoordinate (podVcoreOrigin cfg podCoord) dim) := by
  simp only [meshInit] at h
  split at h
  · cases h
  · next hpos =>
    split at h
    · cases h
    · next hle =>
      split at h
      · cases h
      · next hok =>
        rw [not_or, not_not, Nat.not_le] at hok
        simp only [not_or, UInt32.not_le, UInt32.lt_iff_toNat_lt, gt_iff_lt] at hpos hle
        cases h
        exact ⟨_, hpos.1, hpos.2, Nat.le_of_not_lt hle.1, Nat.le_of_not_lt hle.2,
          blankMesh_wellFormed hok.1 hok.2, rfl⟩

theorem meshInit_wellFormed (h : meshInit cfg podCoord optDim defaultDim = .ok m) :
    WellFormed m := by
  obtain ⟨dim, -, -, -, -, hw, rfl⟩ := meshInit_ok h
  exact updateTiles_wellFormed hw _ _

theorem meshInit_origin (h : meshInit cfg podCoord optDim defaultDim = .ok m) :
    m.origin = podVcoreOrigin cfg podCoord := by
  obtain ⟨dim, -, -, -, -, -, rfl⟩ := meshInit_ok h
  exact (updateTiles_dim _ _ _).2

theorem meshInit_dim (h : meshInit cfg podCoord optDim defaultDim = .ok m) :
    0 < m.dim.x.toNat ∧ 0 < m.dim.y.toNat ∧ m.dim.x.toNat ≤ cfg.podShape.x.toNat ∧
      m.dim.y.toNat ≤ cfg.podShape.y.toNat := by
  obtain ⟨dim, hx, hy, hx', hy', -, rfl⟩ := meshInit_ok h
  rw [(updateTiles_dim _ _ _).1]
  exact ⟨hx, hy, hx', hy'⟩

/-- Every tile of the initial mesh is initialised, and free. -/
theorem meshInit_tileAt (h : meshInit cfg podCoord optDim defaultDim = .ok m) {c : Coord}
    (hc : InMesh m c) : m.tileAt c = some (initTile m.origin c) := by
  rw [meshInit_origin h]
  obtain ⟨dim, -, -, -, -, hw, rfl⟩ := meshInit_ok h
  obtain ⟨hd, ho⟩ := updateTiles_dim (blankMesh (podVcoreOrigin cfg podCoord) dim)
    (fun xy _ => initTile (podVcoreOrigin cfg podCoord) xy)
    (foreachCoordinate (podVcoreOrigin cfg podCoord) dim)
  rw [InMesh, hd, ho] at hc
  have hn : NoWrap (podVcoreOrigin cfg podCoord) dim := hw.noWrap
  rw [updateTiles_tileAt hw _ (fun e he => (mem_foreachCoordinate hn e).mp he)
    (foreachCoordinate_nodup hn) hc, if_pos ((mem_foreachCoordinate hn c).mpr hc)]
  obtain ⟨t, ht⟩ := exists_tileAt hw hc
  rw [ht]
  rfl

end Init

end PodMesh
