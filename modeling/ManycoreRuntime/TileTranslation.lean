import ManycoreRuntime.DramTranslation
import ManycoreRuntime.Machines

/-! # Translation of tile addresses

Global, group and local addresses name a word of a tile. A group address is relative to the
origin of its tile group, and its bounds are checked against fixed base coordinates. -/
namespace TileTranslation

open BitField
open Coordinate (Coord Errno InRect)
open Configuration (Config Manycore Accepted)
open ConfigPod EvaToNpa
open NpaToEva (evaToNpa originEvaMapInit)
open Machines (Machine)

/-- The addresses of a tile that the map serves: its data memory and three registers. -/
def IsTileEpa (epa : ℕ) : Prop :=
  epa < 4096 ∨ epa = 0x20000 ∨ epa = 0x20004 ∨ epa = 0x20008

instance (epa : ℕ) : Decidable (IsTileEpa epa) :=
  inferInstanceAs (Decidable (_ < _ ∨ _ = _ ∨ _ = _ ∨ _ = _))

def tileSegment (epa : ℕ) : ℕ := if epa < 4096 then 4096 - epa else 4

theorem evaToEpaTile_of_isTileEpa {cfg : Config} {eva mask : UInt32}
    (h : IsTileEpa (eva &&& mask).toNat) :
    defaultEvaToEpaTile cfg eva mask = .ok (eva &&& mask, tileSegment (eva &&& mask).toNat) := by
  have hz : (eva &&& mask) - tileEvaDmemBase = eva &&& mask := by simp [tileEvaDmemBase]
  have hz' : (eva &&& mask) + tileEpaDmemBase = eva &&& mask := by simp [tileEpaDmemBase]
  have hd : cfg.dmemSize.toNat = 4096 := rfl
  unfold defaultEvaToEpaTile
  simp only [hz, hz', UInt32.lt_iff_toNat_lt, hd, tileSegment]
  by_cases hlt : (eva &&& mask).toNat < 4096
  · rw [if_pos hlt, if_pos hlt]
  · rw [if_neg hlt, if_neg hlt]
    simp only [← UInt32.toNat_inj, tileEpaCsrFreeze, tileEpaCsrTileGroupOriginX,
      tileEpaCsrTileGroupOriginY, UInt32.reduceToNat]
    rcases h with h | h | h | h
    · exact absurd h hlt
    · rw [if_pos h]
    · rw [if_neg (by omega), if_pos h]
    · rw [if_neg (by omega), if_neg (by omega), if_pos h]

theorem evaToEpaTile_of_not {cfg : Config} {eva mask : UInt32}
    (h : ¬ IsTileEpa (eva &&& mask).toNat) :
    defaultEvaToEpaTile cfg eva mask = .error .fail := by
  have hz : (eva &&& mask) - tileEvaDmemBase = eva &&& mask := by simp [tileEvaDmemBase]
  have hd : cfg.dmemSize.toNat = 4096 := rfl
  unfold IsTileEpa at h
  unfold defaultEvaToEpaTile
  simp only [hz, UInt32.lt_iff_toNat_lt, hd, ← UInt32.toNat_inj, tileEpaCsrFreeze,
    tileEpaCsrTileGroupOriginX, tileEpaCsrTileGroupOriginY, UInt32.reduceToNat]
  rw [if_neg (by omega), if_neg (by omega), if_neg (by omega), if_neg (by omega)]

theorem masked_group (eva : UInt32) :
    (eva &&& (lowMask epaLogsz).toUInt32).toNat = eva.toNat % 2 ^ 18 :=
  and_lowMask_word (by decide)

theorem masked_global (eva : UInt32) :
    (eva &&& (lowMask globalEpaLogsz).toUInt32).toNat = eva.toNat % 2 ^ 16 :=
  and_lowMask_word (by decide)

theorem isDram_iff (eva : UInt32) : defaultEvaIsDram eva = true ↔ 2 ^ 31 ≤ eva.toNat := by
  have := eva.toNat_lt
  rw [defaultEvaIsDram, hasBit_iff (by decide)]
  simp only [defaultDramBitidx, UInt32.reduceToNat]
  omega

theorem isGlobal_iff (eva : UInt32) :
    defaultEvaIsGlobal eva = true ↔ eva.toNat / 2 ^ 30 % 2 = 1 :=
  hasBit_iff (by decide)

theorem isGroup_iff (eva : UInt32) :
    defaultEvaIsGroup eva = true ↔ eva.toNat / 2 ^ 29 % 2 = 1 :=
  hasBit_iff (by decide)

theorem isLocal_iff (eva : UInt32) : defaultEvaIsLocal eva = true ↔ eva.toNat < 2 ^ 18 := by
  have hn : (~~~(lowMask epaLogsz)).toNat = (2 ^ 46 - 1) * 2 ^ 18 := by decide
  have hlt := eva.toNat_lt
  rw [defaultEvaIsLocal, beq_iff_eq, ← UInt64.toNat_inj, UInt64.toNat_and, hn,
    UInt32.toNat_toUInt64, and_field]
  simp only [UInt64.reduceToNat]
  omega

section Regions

variable {mc : Manycore} {origin src : Coord} {eva : UInt32}

theorem evaToNpa_of_global (h : eva.toNat / 2 ^ 30 = 1) :
    defaultEvaToNpa mc origin src eva = defaultEvaToNpaGlobal mc.config eva := by
  have hd : ¬ defaultEvaIsDram eva = true := by rw [isDram_iff]; omega
  have hg : defaultEvaIsGlobal eva = true := by rw [isGlobal_iff]; omega
  rw [defaultEvaToNpa, if_neg hd, if_pos hg]

theorem evaToNpa_of_group (h : eva.toNat / 2 ^ 29 = 1) :
    defaultEvaToNpa mc origin src eva = defaultEvaToNpaGroup mc.config origin eva := by
  have hd : ¬ defaultEvaIsDram eva = true := by rw [isDram_iff]; omega
  have hg : ¬ defaultEvaIsGlobal eva = true := by rw [isGlobal_iff]; omega
  have hp : defaultEvaIsGroup eva = true := by rw [isGroup_iff]; omega
  rw [defaultEvaToNpa, if_neg hd, if_neg hg, if_pos hp]

theorem evaToNpaGlobal_eq_ok {cfg : Config} {npa : Npa} {sz : ℕ} :
    defaultEvaToNpaGlobal cfg eva = .ok (npa, sz) ↔
      IsTileEpa (eva.toNat % 2 ^ 16) ∧ npa.x.toNat = eva.toNat / 2 ^ 16 % 2 ^ 7 ∧
      npa.y.toNat = eva.toNat / 2 ^ 23 % 2 ^ 7 ∧ npa.epa.toNat = eva.toNat % 2 ^ 16 ∧
      sz = tileSegment (eva.toNat % 2 ^ 16) := by
  have hx : (field eva defaultGlobalXLogsz defaultGlobalXBitidx).toNat =
      eva.toNat / 2 ^ 16 % 2 ^ 7 := field_toNat (by decide)
  have hy : (field eva defaultGlobalYLogsz defaultGlobalYBitidx).toNat =
      eva.toNat / 2 ^ 23 % 2 ^ 7 := field_toNat (by decide)
  rw [defaultEvaToNpaGlobal, defaultEvaToEpaTileGlobal, ← hx, ← hy, ← masked_global]
  by_cases h : IsTileEpa (eva &&& (lowMask globalEpaLogsz).toUInt32).toNat
  · rw [evaToEpaTile_of_isTileEpa h]
    obtain ⟨x, y, epa⟩ := npa
    simp only [bind, Except.bind, pure, Except.pure, Except.ok.injEq, Prod.mk.injEq,
      Npa.mk.injEq, UInt32.toNat_inj]
    constructor
    · rintro ⟨⟨rfl, rfl, rfl⟩, rfl⟩
      exact ⟨h, rfl, rfl, rfl, rfl⟩
    · rintro ⟨-, rfl, rfl, rfl, rfl⟩
      exact ⟨⟨rfl, rfl, rfl⟩, rfl⟩
  · rw [evaToEpaTile_of_not h]
    simp only [bind, Except.bind, reduceCtorEq, false_iff]
    exact fun hc => h hc.1

end Regions

structure GroupAddress where
  x : ℕ
  y : ℕ
  epa : ℕ
  x_lt : x < 2 ^ 6
  y_lt : y < 2 ^ 5
  epa_lt : epa < 2 ^ 18

def GroupAddress.eva (g : GroupAddress) : UInt32 :=
  UInt32.ofNat (2 ^ 29 + g.y * 2 ^ 24 + g.x * 2 ^ 18 + g.epa)

theorem GroupAddress.eva_toNat (g : GroupAddress) :
    g.eva.toNat = 2 ^ 29 + g.y * 2 ^ 24 + g.x * 2 ^ 18 + g.epa := by
  have := g.x_lt
  have := g.y_lt
  have := g.epa_lt
  rw [GroupAddress.eva, UInt32.toNat_ofNat']
  omega

/-- The bounds check of a group address, in 32-bit arithmetic. -/
def Admits (cfg : Config) (o : Coord) (g : GroupAddress) : Prop :=
  (o.x.toNat + g.x) % 2 ^ 32 ≤ (cfg.podShape.x.toNat + 16) % 2 ^ 32 ∧
  (o.y.toNat + g.y) % 2 ^ 32 ≤ (cfg.podShape.y.toNat + 8) % 2 ^ 32

theorem evaToNpaGroup_eq_ok {mc : Manycore} {o src : Coord} {g : GroupAddress} {npa : Npa}
    {sz : ℕ} :
    evaToNpa mc (originEvaMapInit o) src g.eva = .ok (npa, sz) ↔
      Admits mc.config o g ∧ IsTileEpa g.epa ∧
      npa.x.toNat = (o.x.toNat + g.x) % 2 ^ 32 ∧ npa.y.toNat = (o.y.toNat + g.y) % 2 ^ 32 ∧
      npa.epa.toNat = g.epa ∧ sz = tileSegment g.epa := by
  have hxl := g.x_lt
  have hyl := g.y_lt
  have hel := g.epa_lt
  have he := g.eva_toNat
  have hfx : (field g.eva defaultGroupXLogsz defaultGroupXBitidx).toNat = g.x := by
    have hf : (field g.eva defaultGroupXLogsz defaultGroupXBitidx).toNat =
        g.eva.toNat / 2 ^ 18 % 2 ^ 6 := field_toNat (by decide)
    omega
  have hfy : (field g.eva defaultGroupYLogsz defaultGroupYBitidx).toNat = g.y := by
    have hf : (field g.eva defaultGroupYLogsz defaultGroupYBitidx).toNat =
        g.eva.toNat / 2 ^ 24 % 2 ^ 5 := field_toNat (by decide)
    omega
  have hme : (g.eva &&& (lowMask epaLogsz).toUInt32).toNat = g.epa := by
    rw [masked_group]
    omega
  have hx : (field g.eva defaultGroupXLogsz defaultGroupXBitidx + o.x).toNat =
      (o.x.toNat + g.x) % 2 ^ 32 := by rw [UInt32.toNat_add, hfx, Nat.add_comm]
  have hy : (field g.eva defaultGroupYLogsz defaultGroupYBitidx + o.y).toNat =
      (o.y.toNat + g.y) % 2 ^ 32 := by rw [UInt32.toNat_add, hfy, Nat.add_comm]
  have hdx : (mc.config.podShape.x + Configuration.vcoreBaseX).toNat =
      (mc.config.podShape.x.toNat + 16) % 2 ^ 32 := by
    rw [UInt32.toNat_add, show Configuration.vcoreBaseX.toNat = 16 by decide]
  have hdy : (mc.config.podShape.y + Configuration.vcoreBaseY).toNat =
      (mc.config.podShape.y.toNat + 8) % 2 ^ 32 := by
    rw [UInt32.toNat_add, show Configuration.vcoreBaseY.toNat = 8 by decide]
  have hmap : evaToNpa mc (originEvaMapInit o) src g.eva =
      defaultEvaToNpaGroup mc.config o g.eva := by
    rw [NpaToEva.evaToNpa_origin, evaToNpa_of_group (by omega)]
  rw [hmap, defaultEvaToNpaGroup, defaultEvaToEpaTileGroup]
  simp only [UInt32.lt_iff_toNat_lt, hx, hy, hdx, hdy, Admits]
  by_cases hax : (mc.config.podShape.x.toNat + 16) % 2 ^ 32 < (o.x.toNat + g.x) % 2 ^ 32
  · rw [if_pos hax]
    simp only [reduceCtorEq, false_iff]
    rintro ⟨⟨h1, -⟩, -⟩
    omega
  by_cases hay : (mc.config.podShape.y.toNat + 8) % 2 ^ 32 < (o.y.toNat + g.y) % 2 ^ 32
  · rw [if_neg hax, if_pos hay]
    simp only [reduceCtorEq, false_iff]
    rintro ⟨⟨-, h1⟩, -⟩
    omega
  rw [if_neg hax, if_neg hay]
  by_cases ht : IsTileEpa g.epa
  · rw [evaToEpaTile_of_isTileEpa (by rw [hme]; exact ht), hme]
    obtain ⟨x, y, epa⟩ := npa
    simp only [bind, Except.bind, pure, Except.pure, Except.ok.injEq, Prod.mk.injEq,
      Npa.mk.injEq, ← UInt32.toNat_inj, hx, hy, hme]
    constructor
    · rintro ⟨⟨h1, h2, h3⟩, h4⟩
      exact ⟨⟨by omega, by omega⟩, ht, h1.symm, h2.symm, h3.symm, h4.symm⟩
    · rintro ⟨-, -, h1, h2, h3, h4⟩
      exact ⟨⟨h1.symm, h2.symm, h3.symm⟩, h4.symm⟩
  · rw [evaToEpaTile_of_not (by rw [hme]; exact ht)]
    simp only [bind, Except.bind, reduceCtorEq, false_iff]
    exact fun hc => ht hc.2.1

def InVanillaCores (cfg : Config) (p : Coord) (x y : ℕ) : Prop :=
  (podVcoreOrigin cfg p).x.toNat ≤ x ∧
  x < (podVcoreOrigin cfg p).x.toNat + cfg.podShape.x.toNat ∧
  (podVcoreOrigin cfg p).y.toNat ≤ y ∧
  y < (podVcoreOrigin cfg p).y.toNat + cfg.podShape.y.toNat

instance (cfg : Config) (p : Coord) (x y : ℕ) : Decidable (InVanillaCores cfg p x y) :=
  inferInstanceAs (Decidable (_ ≤ _ ∧ _ < _ ∧ _ ≤ _ ∧ _ < _))

/-- What a group address promises to the tiles of a group at `o` with shape `d` in pod `p`. -/
structure GroupLaw (mc : Manycore) (p o d src : Coord) (g : GroupAddress) : Prop where
  inside : g.x < d.x.toNat → g.y < d.y.toNat → IsTileEpa g.epa →
    ∃ npa sz, evaToNpa mc (originEvaMapInit o) src g.eva = .ok (npa, sz) ∧
      npa.x.toNat = o.x.toNat + g.x ∧ npa.y.toNat = o.y.toNat + g.y ∧ npa.epa.toNat = g.epa
  outside : ¬ InVanillaCores mc.config p (o.x.toNat + g.x) (o.y.toNat + g.y) →
    ∃ e, evaToNpa mc (originEvaMapInit o) src g.eva = .error e

/-- The bounds check agrees with the group and the pod on this address. -/
structure BoundsAgree (cfg : Config) (p o d : Coord) (g : GroupAddress) : Prop where
  inside : g.x < d.x.toNat → g.y < d.y.toNat → IsTileEpa g.epa →
    Admits cfg o g ∧ o.x.toNat + g.x < 2 ^ 32 ∧ o.y.toNat + g.y < 2 ^ 32
  outside : ¬ InVanillaCores cfg p (o.x.toNat + g.x) (o.y.toNat + g.y) →
    IsTileEpa g.epa → ¬ Admits cfg o g

theorem group_eva_iff (mc : Manycore) (p o d src : Coord) (g : GroupAddress) :
    GroupLaw mc p o d src g ↔ BoundsAgree mc.config p o d g := by
  constructor
  · rintro ⟨hin, hout⟩
    refine ⟨fun hx hy ht => ?_, fun ho ht ha => ?_⟩
    · obtain ⟨npa, sz, he, hnx, hny, -⟩ := hin hx hy ht
      have hxl := npa.x.toNat_lt
      have hyl := npa.y.toNat_lt
      rw [evaToNpaGroup_eq_ok] at he
      exact ⟨he.1, by omega, by omega⟩
    · obtain ⟨e, he⟩ := hout ho
      have hok : evaToNpa mc (originEvaMapInit o) src g.eva =
          .ok (⟨o.x + UInt32.ofNat g.x, o.y + UInt32.ofNat g.y, UInt32.ofNat g.epa⟩,
            tileSegment g.epa) := by
        have hxl := g.x_lt
        have hyl := g.y_lt
        have hel := g.epa_lt
        rw [evaToNpaGroup_eq_ok]
        refine ⟨ha, ht, ?_, ?_, ?_, rfl⟩
        · rw [UInt32.toNat_add, UInt32.toNat_ofNat_of_lt' (by simp only [UInt32.size]; omega)]
        · rw [UInt32.toNat_add, UInt32.toNat_ofNat_of_lt' (by simp only [UInt32.size]; omega)]
        · exact UInt32.toNat_ofNat_of_lt' (by simp only [UInt32.size]; omega)
      rw [hok] at he
      cases he
  · rintro ⟨hin, hout⟩
    refine ⟨fun hx hy ht => ?_, fun ho => ?_⟩
    · obtain ⟨ha, hx32, hy32⟩ := hin hx hy ht
      have hel := g.epa_lt
      refine ⟨⟨UInt32.ofNat (o.x.toNat + g.x), UInt32.ofNat (o.y.toNat + g.y),
        UInt32.ofNat g.epa⟩, tileSegment g.epa, ?_, ?_, ?_, ?_⟩
      · rw [evaToNpaGroup_eq_ok]
        refine ⟨ha, ht, ?_, ?_, ?_, rfl⟩
        · exact UInt32.toNat_ofNat'
        · exact UInt32.toNat_ofNat'
        · exact UInt32.toNat_ofNat_of_lt' (by simp only [UInt32.size]; omega)
      · exact UInt32.toNat_ofNat_of_lt' hx32
      · exact UInt32.toNat_ofNat_of_lt' hy32
      · exact UInt32.toNat_ofNat_of_lt' (by simp only [UInt32.size]; omega)
    · cases hr : evaToNpa mc (originEvaMapInit o) src g.eva with
      | error e => exact ⟨e, rfl⟩
      | ok r =>
        obtain ⟨npa, sz⟩ := r
        rw [evaToNpaGroup_eq_ok] at hr
        exact absurd hr.1 (hout ho hr.2.1)

def GroupInPod (cfg : Config) (p o d : Coord) : Prop :=
  (podVcoreOrigin cfg p).x.toNat ≤ o.x.toNat ∧
  o.x.toNat + d.x.toNat ≤ (podVcoreOrigin cfg p).x.toNat + cfg.podShape.x.toNat ∧
  (podVcoreOrigin cfg p).y.toNat ≤ o.y.toNat ∧
  o.y.toNat + d.y.toNat ≤ (podVcoreOrigin cfg p).y.toNat + cfg.podShape.y.toNat

instance (cfg : Config) (p o d : Coord) : Decidable (GroupInPod cfg p o d) :=
  inferInstanceAs (Decidable (_ ≤ _ ∧ _ ≤ _ ∧ _ ≤ _ ∧ _ ≤ _))

/-- The first column past the only pod is accepted, and a tile of pod (1,1) is refused. -/
theorem group_eva_fails :
    (∃ mc p o d src g, Accepted mc.config ∧ IsPod mc.config p ∧ GroupInPod mc.config p o d ∧
      InRect o d src ∧ ¬ InVanillaCores mc.config p (o.x.toNat + g.x) (o.y.toNat + g.y) ∧
      ¬ GroupLaw mc p o d src g) ∧
    (∃ mc p o d src g, Accepted mc.config ∧ IsPod mc.config p ∧ GroupInPod mc.config p o d ∧
      InRect o d src ∧ g.x < d.x.toNat ∧ g.y < d.y.toNat ∧ IsTileEpa g.epa ∧
      ¬ GroupLaw mc p o d src g) := by
  constructor
  · refine ⟨⟨({} : Machine).config, true⟩, ⟨0, 0⟩, ⟨16, 8⟩, ⟨16, 8⟩, ⟨16, 8⟩,
      ⟨16, 0, 0, by decide, by decide, by decide⟩, Machine.config_accepted _ (by decide),
      by decide, by decide, by decide, by decide, ?_⟩
    intro h
    obtain ⟨e, he⟩ := h.outside (by decide)
    have hok : evaToNpa ⟨({} : Machine).config, true⟩ (originEvaMapInit ⟨16, 8⟩) ⟨16, 8⟩
        (GroupAddress.eva ⟨16, 0, 0, by decide, by decide, by decide⟩) =
        .ok (⟨32, 8, 0⟩, 4096) := by decide
    rw [hok] at he
    cases he
  · refine ⟨⟨({ podsX := 2, podsY := 2, dramChannels := 8 } : Machine).config, true⟩, ⟨1, 1⟩,
      ⟨32, 24⟩, ⟨1, 1⟩, ⟨32, 24⟩, ⟨0, 0, 0, by decide, by decide, by decide⟩,
      Machine.config_accepted _ (by decide), by decide, by decide, by decide, by decide,
      by decide, by decide, ?_⟩
    intro h
    obtain ⟨npa, sz, hok, -⟩ := h.inside (by decide) (by decide) (by decide)
    have he : evaToNpa ⟨({ podsX := 2, podsY := 2, dramChannels := 8 } : Machine).config, true⟩
        (originEvaMapInit ⟨32, 24⟩) ⟨32, 24⟩
        (GroupAddress.eva ⟨0, 0, 0, by decide, by decide, by decide⟩) = .error .fail := by
      decide
    rw [he] at hok
    cases hok

end TileTranslation
