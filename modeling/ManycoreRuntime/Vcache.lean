import ManycoreRuntime.Actions
import ManycoreRuntime.PodGeometry

/-! # The victim caches

The tags of a cache are words of their own in its address space, one for each way of each set. The
runtime goes through the tags of all caches of a pod. -/
namespace Vcache

open Actions
open Coordinate (Coord Errno foreachCoordinate)
open Configuration (Manycore popcount)
open ConfigPod (IsPod)
open EvaToNpa (Npa shl shr)
open PodGeometry

section Definitions

variable (mc : Manycore)

def vcacheEpaTag : UInt32 := 0x20000000

def vcacheEpaWhDst : UInt32 := 0x30000000

def vcacheValid : UInt32 := 0x80000000

def vcacheNumWays : UInt32 := mc.config.vcacheWays

def vcacheNumSets : UInt32 := mc.config.vcacheSets

def vcacheSetMask : UInt32 := mc.config.vcacheSets - 1

def vcacheSetShift : UInt32 := UInt32.ofNat (popcount (mc.config.vcacheBlockSize - 1))

def vcacheSet (epa : UInt32) : Except Errno UInt32 := do
  let shifted ← shr epa (vcacheSetShift mc)
  return shifted &&& vcacheSetMask mc

def vcacheWayMask : UInt32 := mc.config.vcacheWays - 1

def vcacheWayShift : UInt32 :=
  UInt32.ofNat (popcount (mc.config.vcacheSets - 1)) + vcacheSetShift mc

def vcacheWay (epa : UInt32) : Except Errno UInt32 := do
  let shifted ← shr epa (vcacheWayShift mc)
  return shifted &&& vcacheWayMask mc

def vcacheWayAddr (set way : UInt32) : Except Errno UInt32 := do
  let way ← shl way (vcacheWayShift mc)
  let set ← shl set (vcacheSetShift mc)
  return vcacheEpaTag ||| way ||| set

def vcacheWayNpa (cache set way : UInt32) : Except Errno Npa := do
  let cache_xy ← dram mc.config cache
  let epa ← vcacheWayAddr mc set way
  return ⟨cache_xy.x, cache_xy.y, epa⟩

def hasCache : Bool := mc.config.memsys.featureCache

/-- Apply a function to the tags of a pod's caches, way by way, and in each way set by set. -/
def podApplyToVcache {σ : Type} (p : Coord) (applyFunction : Npa → Action Errno σ Unit) :
    Action Errno σ Unit :=
  if hasCache mc then
    forM (List.range (vcacheNumWays mc).toNat) fun way_id =>
      forM (List.range (vcacheNumSets mc).toNat) fun set_id => do
        let drams ← fromOption (podForeachDram mc.config p)
        forM drams fun dram => do
          let cache_id ← fromExcept (dramId mc.config dram)
          let way_addr ← fromExcept
            (vcacheWayNpa mc cache_id (UInt32.ofNat set_id) (UInt32.ofNat way_id))
          applyFunction way_addr
  else pure ()

end Definitions

def TagOf (mc : Manycore) (p : Coord) (tag : Npa) : Prop :=
  ∃ drams, podForeachDram mc.config p = some drams ∧ ∃ dram ∈ drams, ∃ cache,
    dramId mc.config dram = .ok cache ∧
    ∃ set < (vcacheNumSets mc).toNat, ∃ way < (vcacheNumWays mc).toNat,
      vcacheWayNpa mc cache (UInt32.ofNat set) (UInt32.ofNat way) = .ok tag

def CacheOf (cfg : Configuration.Config) (p c : Coord) : Prop :=
  ∃ drams, podForeachDram cfg p = some drams ∧ c ∈ drams

structure LineId where
  way : ℕ
  set : ℕ
  cache : Coord
  deriving DecidableEq, Repr

def podLines (mc : Manycore) (drams : List Coord) : List LineId :=
  (List.range (vcacheNumWays mc).toNat).flatMap fun way =>
    (List.range (vcacheNumSets mc).toNat).flatMap fun set => drams.map fun c => ⟨way, set, c⟩

def tagTurn {σ : Type} (mc : Manycore) (f : Npa → Action Errno σ Unit) (line : LineId) :
    Action Errno σ Unit := do
  let cache_id ← fromExcept (dramId mc.config line.cache)
  let way_addr ← fromExcept
    (vcacheWayNpa mc cache_id (UInt32.ofNat line.set) (UInt32.ofNat line.way))
  f way_addr

section Proof

variable {mc : Manycore} {σ : Type} {p : Coord} {f : Npa → Action Errno σ Unit}

theorem mem_podLines {drams : List Coord} {line : LineId} :
    line ∈ podLines mc drams ↔ line.way < (vcacheNumWays mc).toNat ∧
      line.set < (vcacheNumSets mc).toNat ∧ line.cache ∈ drams := by
  simp only [podLines, List.mem_flatMap, List.mem_map, List.mem_range]
  constructor
  · rintro ⟨way, hway, set, hset, c, hc, rfl⟩
    exact ⟨hway, hset, hc⟩
  · rintro ⟨hway, hset, hc⟩
    exact ⟨line.way, hway, line.set, hset, line.cache, hc, rfl⟩

theorem nodup_podLines {drams : List Coord} (hd : drams.Nodup) : (podLines mc drams).Nodup := by
  rw [podLines, List.nodup_flatMap]
  constructor
  · intro way hway
    rw [List.nodup_flatMap]
    constructor
    · intro set hset
      apply hd.map
      intro c c' he
      exact congrArg LineId.cache he
    · apply List.nodup_range.pairwise_of_forall_ne
      intro set hset set' hset' hne line hline hline'
      obtain ⟨c, -, rfl⟩ := List.mem_map.mp hline
      obtain ⟨c', -, he⟩ := List.mem_map.mp hline'
      exact hne (congrArg LineId.set he).symm
  · apply List.nodup_range.pairwise_of_forall_ne
    intro way hway way' hway' hne line hline hline'
    simp only [List.mem_flatMap, List.mem_map] at hline hline'
    obtain ⟨set, -, c, -, rfl⟩ := hline
    obtain ⟨set', -, c', -, he⟩ := hline'
    exact hne (congrArg LineId.way he).symm

theorem tagTurn_fails {line : LineId} {s t : σ} {e : Errno}
    (hf : ∀ tag, Fails (f tag) s e t → t = s) (h : Fails (tagTurn mc f line) s e t) : t = s := by
  rcases fails_bind.mp h with h | ⟨_, _, hret, h⟩
  · exact (fails_fromExcept.mp h).2.symm
  obtain ⟨-, rfl⟩ := returns_fromExcept.mp hret
  rcases fails_bind.mp h with h | ⟨tag, _, hret, h⟩
  · exact (fails_fromExcept.mp h).2.symm
  obtain ⟨-, rfl⟩ := returns_fromExcept.mp hret
  exact hf tag h

theorem podApplyToVcache_eq {drams : List Coord} (hcache : hasCache mc = true)
    (hd : podForeachDram mc.config p = some drams) (f : Npa → Action Errno σ Unit) :
    podApplyToVcache mc p f = forM (podLines mc drams) (tagTurn mc f) := by
  rw [podApplyToVcache, if_pos hcache, podLines, forM_flatMap]
  congr 1
  funext way
  rw [forM_flatMap]
  congr 1
  funext set
  rw [List.forM_map, hd]
  rfl

theorem podApplyToVcache_returns (hcache : hasCache mc = true) {s t : σ} {u : Unit}
    (h : Returns (podApplyToVcache mc p f) s u t) :
    ∃ drams, (∀ c, CacheOf mc.config p c ↔ c ∈ drams) ∧
      Returns (forM (podLines mc drams) (tagTurn mc f)) s u t := by
  cases hd : podForeachDram mc.config p with
  | some drams =>
    rw [podApplyToVcache_eq hcache hd] at h
    refine ⟨drams, fun c => ⟨?_, fun hc => ⟨drams, hd, hc⟩⟩, h⟩
    rintro ⟨drams', hd', hc⟩
    cases hd.symm.trans hd'
    exact hc
  | none =>
    -- no turn of the outer loops returns
    rw [podApplyToVcache, if_pos hcache, hd] at h
    have hsame : t = s := by
      refine forM_returns (P := fun _ t => t = s) h rfl fun _ way s₁ t hway h hs => ?_
      refine forM_returns (P := fun _ t => t = s) h hs fun _ set s₁ t hset h hs => ?_
      obtain ⟨drams, _, hret, -⟩ := returns_bind.mp h
      obtain ⟨hnone, -⟩ := returns_fromOption.mp hret
      cases hnone
    have hlines : podLines mc [] = [] := by simp [podLines]
    refine ⟨[], fun c => ⟨?_, fun hc => absurd hc List.not_mem_nil⟩, ?_⟩
    · rintro ⟨drams', hd', -⟩
      cases hd.symm.trans hd'
    · rw [hlines, hsame]
      exact returns_pure.mpr ⟨rfl, rfl⟩

theorem tagTurn_returns {line : LineId} {s t : σ} {u : Unit} (h : Returns (tagTurn mc f line) s u t)
    (hc : CacheOf mc.config p line.cache) (hset : line.set < (vcacheNumSets mc).toNat)
    (hway : line.way < (vcacheNumWays mc).toNat) :
    ∃ cache tag, dramId mc.config line.cache = .ok cache ∧
      vcacheWayNpa mc cache (UInt32.ofNat line.set) (UInt32.ofNat line.way) = .ok tag ∧
      TagOf mc p tag ∧ Returns (f tag) s () t := by
  obtain ⟨cache, s₁, hid, h⟩ := returns_bind.mp h
  obtain ⟨hcache, rfl⟩ := returns_fromExcept.mp hid
  obtain ⟨tag, s₂, hnpa, h⟩ := returns_bind.mp h
  obtain ⟨htag, rfl⟩ := returns_fromExcept.mp hnpa
  obtain ⟨drams, hdrams, hmem⟩ := hc
  exact ⟨cache, tag, hcache, htag, ⟨drams, hdrams, line.cache, hmem, cache, hcache, line.set, hset,
    line.way, hway, htag⟩, h⟩

theorem podApplyToVcache_keeps {P : σ → Prop} {s t : σ} {u : Unit}
    (h : Returns (podApplyToVcache mc p f) s u t) (hs : P s)
    (hstep : ∀ tag s t, TagOf mc p tag → Returns (f tag) s () t → P s → P t) : P t := by
  by_cases hcache : hasCache mc = true
  · obtain ⟨drams, hdrams, h⟩ := podApplyToVcache_returns hcache h
    refine forM_returns (P := fun _ => P) h hs fun _ line s t hline h hs => ?_
    obtain ⟨hway, hset, hc⟩ := mem_podLines.mp hline
    obtain ⟨-, tag, -, -, htag, hf⟩ := tagTurn_returns h ((hdrams _).mpr hc) hset hway
    exact hstep tag s t htag hf hs
  · rw [podApplyToVcache, if_neg hcache] at h
    obtain ⟨-, rfl⟩ := returns_pure.mp h
    exact hs

/-- What each application to a tag of the pod keeps also if it fails. -/
theorem podApplyToVcache_preserves {P : σ → Prop}
    (h : ∀ tag, TagOf mc p tag → Preserves P (f tag)) : Preserves P (podApplyToVcache mc p f) := by
  unfold podApplyToVcache
  split
  · refine .forM fun way hway => .forM fun set hset => .bind_fromOption fun drams hdrams => ?_
    refine .forM fun c hc => .bind_fromExcept fun cache hcache => ?_
    refine .bind_fromExcept fun tag htag => ?_
    exact h tag ⟨drams, hdrams, c, hc, cache, hcache, set, List.mem_range.mp hset, way,
      List.mem_range.mp hway, htag⟩
  · exact .pure _

/-- What the application to a tag establishes and the others keep holds of all lines. -/
theorem podApplyToVcache_all {Q : Coord → ℕ → ℕ → σ → Prop} {s t : σ} {u : Unit}
    (hcache : hasCache mc = true) (h : Returns (podApplyToVcache mc p f) s u t)
    (hdone : ∀ c cache set way tag s t, CacheOf mc.config p c → dramId mc.config c = .ok cache →
      set < (vcacheNumSets mc).toNat → way < (vcacheNumWays mc).toNat →
      vcacheWayNpa mc cache (UInt32.ofNat set) (UInt32.ofNat way) = .ok tag →
      Returns (f tag) s () t → Q c set way t)
    (hkeep : ∀ c set way tag s t, TagOf mc p tag → Returns (f tag) s () t → Q c set way s →
      Q c set way t) :
    ∀ c, CacheOf mc.config p c → ∀ set < (vcacheNumSets mc).toNat,
      ∀ way < (vcacheNumWays mc).toNat, Q c set way t := by
  obtain ⟨drams, hdrams, h⟩ := podApplyToVcache_returns hcache h
  have hlines := forM_all (Q := fun line s => Q line.cache line.set line.way s) h ?_ ?_
  · intro c hc set hset way hway
    exact hlines ⟨way, set, c⟩ (mem_podLines.mpr ⟨hway, hset, (hdrams c).mp hc⟩)
  · intro line s t hline h
    obtain ⟨hway, hset, hmem⟩ := mem_podLines.mp hline
    have hc := (hdrams _).mpr hmem
    obtain ⟨cache, tag, hid, hnpa, -, hf⟩ := tagTurn_returns h hc hset hway
    exact hdone _ cache _ _ tag s t hc hid hset hway hnpa hf
  · intro line line' s t hline' h hq
    obtain ⟨hway, hset, hmem⟩ := mem_podLines.mp hline'
    obtain ⟨-, tag, -, -, htag, hf⟩ := tagTurn_returns h ((hdrams _).mpr hmem) hset hway
    exact hkeep _ _ _ tag s t htag hf hq

end Proof

end Vcache
