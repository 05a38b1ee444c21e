import ManycoreRuntime.Fallible
import ManycoreRuntime.PodGeometry

/-! # The tables of the simulated DMA

The simulated DMA reaches a cache's memory through two tables that give each cache id the
simulated memory and the bank behind the cache. One of four builders fills them, chosen by
memory system, pod shape and pod arrangement. -/
namespace DmaInit

open Coordinate (Coord Errno foreachCoordinate)
open Configuration (Config)
open Fallible (bind_eq_ok foldlM_ok foldlM_ok_mem foldlM_total)
open ConfigPod
open PodGeometry

/-- The entries of a table that is allocated and not yet written have no value. -/
structure Tables where
  cacheIdToMemoryId : ℕ → Option UInt64
  cacheIdToBankId : ℕ → Option UInt64

def newTables : Tables := ⟨fun _ => none, fun _ => none⟩

section Builders

variable (cfg : Config)

def numCaches : UInt32 := cfg.numDramCoordinates

def originVcore : Coord := ⟨Configuration.vcoreBaseX, Configuration.vcoreBaseY⟩

/-- Writing past the end of the tables is undefined. -/
def store (t : Tables) (id : ℕ) (memory bank : UInt64) : Except Errno Tables :=
  if id < (numCaches cfg).toNat then
    .ok ⟨Function.update t.cacheIdToMemoryId id (some memory),
      Function.update t.cacheIdToBankId id (some bank)⟩
  else .error .undefined

def divLong (a b : UInt64) : Except Errno UInt64 :=
  if b = 0 then .error .undefined else .ok (a / b)

def modLong (a b : UInt64) : Except Errno UInt64 :=
  if b = 0 then .error .undefined else .ok (a % b)

/-- Overflow of an `int` is undefined; a conversion to `int` wraps. -/
def addInt (a b : Int32) : Except Errno Int32 :=
  if -2 ^ 31 ≤ a.toInt + b.toInt ∧ a.toInt + b.toInt < 2 ^ 31 then .ok (a + b)
  else .error .undefined

abbrev Entries := Coord → Coord → UInt32 → Except Errno (UInt64 × UInt64)

def mapDram (entries : Entries) (p : Coord) (t : Tables) (dram : Coord) : Except Errno Tables := do
  let id ← dramId cfg dram
  let (memory, bank) ← entries p dram id
  store cfg t id.toNat memory bank

def mapPod (entries : Entries) (t : Tables) (p : Coord) : Except Errno Tables :=
  match podForeachDram cfg p with
  | some drams => drams.foldlM (mapDram cfg entries p) t
  | none => .error .undefined

def podInQuadBase (y x : UInt32) : UInt64 :=
  if y = 0 then (if x = 0 then 0 else 2) else if x = 0 then 4 else 6

def northId (p : Coord) : UInt64 :=
  let quad : Coord := ⟨p.x / 2, p.y / 2⟩
  let pod_in_quad : Coord := ⟨p.x % 2, p.y % 2⟩
  let memory_id_quad_base := (quad.x * 16 + quad.y * 8).toUInt64
  memory_id_quad_base + podInQuadBase pod_in_quad.y pod_in_quad.x

def hbmEntries (caches_per_channel : UInt64) : Entries := fun p dram id => do
  let south_id := northId p + 1
  let bank ← modLong id.toUInt64 caches_per_channel
  return (if isDramNorth cfg dram then northId p else south_id, bank)

def initPodX4Y4X16Hbm (t : Tables) : Except Errno Tables := do
  let caches_per_channel ← div (numCaches cfg) cfg.memsys.dramChannels
  (foreachCoordinate ⟨0, 0⟩ cfg.pods).foldlM
    (mapPod cfg (hbmEntries cfg caches_per_channel.toUInt64)) t

def halfEntries : Entries := fun p dram _ => do
  let bx := (podVcoreOrigin cfg p).x
  let _ ← podDramId cfg dram
  let east_not_west : Bool := dram.x - bx ≥ cfg.podShape.x / 2
  let bank :=
    if east_not_west then
      if isDramNorth cfg dram then dram.x - bx - cfg.podShape.x / 2 else dram.x - bx
    else if isDramNorth cfg dram then dram.x - bx
    else dram.x - bx + cfg.podShape.x / 2
  return (if east_not_west then 1 else 0, bank.toUInt64)

def initPodX1Y1X16Hbm (t : Tables) : Except Errno Tables := mapPod cfg (halfEntries cfg) t ⟨0, 0⟩

def testMemory (test_memories test_mems_per_row : UInt64) (east_not_west : Bool) (y : UInt32)
    (south_not_north : Bool) (ruche_id : UInt32) : Except Errno Int32 :=
  let memory : Int32 := if east_not_west then (test_memories / 2).toUInt32.toInt32 else 0
  let memory := (memory.toInt64.toUInt64 + y.toUInt64 * test_mems_per_row).toUInt32.toInt32
  let memory := (memory.toInt64.toUInt64 +
    test_mems_per_row / 2 * if south_not_north then 1 else 0).toUInt32.toInt32
  addInt memory ruche_id.toInt32

/-- `bx` is an `int` in the source; the differences that it enters are unsigned again. -/
def testMemEntries (test_memories test_mems_per_row : UInt64) : Entries := fun p dram _ => do
  let east_not_west : Bool := p.x ≥ cfg.pods.x / 2
  let bx := originVcore.x +
    (if east_not_west then 1 else 0) * (cfg.podShape.x * cfg.pods.x / 2)
  let ruche_id := dram.x &&& 1
  let bank := (dram.x - bx) >>> 1
  let memory ← testMemory test_memories test_mems_per_row east_not_west p.y
    (isDramSouth cfg dram) ruche_id
  return (memory.toInt64.toUInt64, bank.toUInt64)

def initPodX4Y4X16TestMem (t : Tables) : Except Errno Tables := do
  let test_memories := cfg.memsys.dramChannels.toUInt64
  let _ ← divLong (numCaches cfg).toUInt64 test_memories
  let test_mems_per_row := (2 * (cfg.pods.x / 2)).toUInt64
  (foreachCoordinate ⟨0, 0⟩ cfg.pods).foldlM
    (mapPod cfg (testMemEntries cfg test_memories test_mems_per_row)) t

def defaultTurn (t : Tables) (cache_id : ℕ) : Except Errno Tables := do
  let caches_per_channel ← div (numCaches cfg) cfg.memsys.dramChannels
  let memory ← divLong cache_id.toUInt64 caches_per_channel.toUInt64
  let bank ← modLong cache_id.toUInt64 caches_per_channel.toUInt64
  store cfg t cache_id memory bank

/-- The function ends after its loop without returning a value. -/
def initDefault (t : Tables) : Except Errno Tables := do
  let _ ← (List.range (numCaches cfg).toNat).foldlM (defaultTurn cfg) t
  .error .undefined

/-- The configuration and the tables that `hb_mc_dma_init` leaves behind when it returns; every
return is a success. -/
def dmaInit : Except Errno (Config × Tables) :=
  if cfg.memsys.id = .hbm2 ∧ cfg.podShape.x = 16 ∧ cfg.podShape.y = 8 then
    if cfg.pods.x = 4 ∧ cfg.pods.y = 4 then do return (cfg, ← initPodX4Y4X16Hbm cfg newTables)
    else if cfg.pods.x = 1 ∧ cfg.pods.y = 1 then do
      return (cfg, ← initPodX1Y1X16Hbm cfg newTables)
    -- no branch is left, and no return follows
    else .error .undefined
  else if cfg.memsys.id = .testmem ∧ cfg.podShape.x = 16 ∧ cfg.podShape.y = 8 then
    if cfg.pods.x = 4 ∧ cfg.pods.y = 4 then do
      return (cfg, ← initPodX4Y4X16TestMem cfg newTables)
    else return ({ cfg with memsys := { cfg.memsys with featureDma := false } }, newTables)
  else do return (cfg, ← initDefault cfg newTables)

end Builders

/-- Each cache has a bank of its own in a memory of some channel. -/
structure TableLaw (cfg : Config) (t : Tables) : Prop where
  entry : ∀ id < (numCaches cfg).toNat, ∃ memory bank,
    t.cacheIdToMemoryId id = some memory ∧ t.cacheIdToBankId id = some bank ∧
    memory.toNat < cfg.memsys.dramChannels.toNat ∧
    bank.toNat < (numCaches cfg).toNat / cfg.memsys.dramChannels.toNat
  injective : ∀ id < (numCaches cfg).toNat, ∀ id' < (numCaches cfg).toNat,
    t.cacheIdToMemoryId id = t.cacheIdToMemoryId id' →
    t.cacheIdToBankId id = t.cacheIdToBankId id' → id = id'

/-- Initialisation returns, and the tables it leaves behind are right if DMA is still on. -/
def InitLaw (cfg : Config) : Prop :=
  ∃ cfg' t, dmaInit cfg = .ok (cfg', t) ∧ (cfg'.memsys.featureDma = true → TableLaw cfg' t)

section Runs

variable {cfg : Config} {entries : Entries}

theorem store_eq_ok {t t' : Tables} {id : ℕ} {memory bank : UInt64} :
    store cfg t id memory bank = .ok t' ↔ id < (numCaches cfg).toNat ∧
      t' = ⟨Function.update t.cacheIdToMemoryId id (some memory),
        Function.update t.cacheIdToBankId id (some bank)⟩ := by
  unfold store
  by_cases hlt : id < (numCaches cfg).toNat
  · simp [hlt, eq_comm]
  · simp [hlt]

theorem mapDram_eq_ok {p dram : Coord} {t t' : Tables} :
    mapDram cfg entries p t dram = .ok t' ↔
      ∃ id memory bank, dramId cfg dram = .ok id ∧ entries p dram id = .ok (memory, bank) ∧
        store cfg t id.toNat memory bank = .ok t' := by
  simp only [mapDram, bind_eq_ok]
  constructor
  · rintro ⟨id, hid, ⟨memory, bank⟩, he, hs⟩
    exact ⟨id, memory, bank, hid, he, hs⟩
  · rintro ⟨id, memory, bank, hid, he, hs⟩
    exact ⟨id, hid, (memory, bank), he, hs⟩

theorem mem_pods {p : Coord} : p ∈ foreachCoordinate ⟨0, 0⟩ cfg.pods ↔ IsPod cfg p := by
  have hw : Coordinate.NoWrap ⟨0, 0⟩ cfg.pods := by
    refine ⟨?_, ?_⟩
    · simpa using cfg.pods.x.toNat_lt
    · simpa using cfg.pods.y.toNat_lt
  rw [Coordinate.mem_foreachCoordinate hw]
  simp [Coordinate.InRect, IsPod, UInt32.lt_iff_toNat_lt]

/-- A run that returns has given every visited cache an id inside the tables. -/
theorem mapPod_ids {p : Coord} {t t' : Tables} (h : mapPod cfg entries t p = .ok t') :
    ∃ drams, podForeachDram cfg p = some drams ∧
      ∀ co ∈ drams, ∃ id, dramId cfg co = .ok id ∧ id.toNat < (numCaches cfg).toNat := by
  unfold mapPod at h
  split at h
  · next drams hd =>
    refine ⟨drams, hd, fun co hco => ?_⟩
    obtain ⟨u, v, hturn⟩ := foldlM_ok_mem h co hco
    obtain ⟨id, memory, bank, hid, -, hs⟩ := mapDram_eq_ok.mp hturn
    exact ⟨id, hid, (store_eq_ok.mp hs).1⟩
  · cases h

def Holds (cfg : Config) (entries : Entries) (p dram : Coord) (n : ℕ) (t : Tables) : Prop :=
  ∃ id memory bank, dramId cfg dram = .ok id ∧ id.toNat = n ∧
    entries p dram id = .ok (memory, bank) ∧
    t.cacheIdToMemoryId n = some memory ∧ t.cacheIdToBankId n = some bank

structure Slot (cfg : Config) where
  p : Coord
  row : ℕ
  i : ℕ
  isPod : IsPod cfg p
  row_lt : row < 2
  i_lt : i < cfg.podShape.x.toNat

def Slot.co (s : Slot cfg) : Coord := cache cfg s.p s.row s.i

def Slot.id (s : Slot cfg) : ℕ := idOf cfg s.p s.row s.i

theorem Slot.co_of_id (h : Placed cfg) (hb : 1 ≤ tileBitsY cfg) (hc : cacheCount cfg < 2 ^ 32)
    {s s' : Slot cfg} (he : s.id = s'.id) : s.p = s'.p ∧ s.co = s'.co := by
  obtain ⟨id, -, hid⟩ := h.dramId_cache hb hc s.isPod s.row_lt s.i_lt
  have hd := dram_idOf hc s.isPod s.row_lt s.i_lt hid
  have hd' := dram_idOf hc s'.isPod s'.row_lt s'.i_lt (hid.trans he)
  have hco : s.co = s'.co := Except.ok.inj (hd.symm.trans hd')
  refine ⟨?_, hco⟩
  rw [← h.cache_pod hb s.isPod s.row_lt s.i_lt, ← h.cache_pod hb s'.isPod s'.row_lt s'.i_lt]
  exact congrArg (pod cfg) hco

def Keeps (cfg : Config) (entries : Entries) (t t' : Tables) : Prop :=
  ∀ s : Slot cfg, Holds cfg entries s.p s.co s.id t → Holds cfg entries s.p s.co s.id t'

theorem mapDram_keeps (h : Placed cfg) (hb : 1 ≤ tileBitsY cfg) (hc : cacheCount cfg < 2 ^ 32)
    (s : Slot cfg) {t t' : Tables} (hrun : mapDram cfg entries s.p t s.co = .ok t') :
    Keeps cfg entries t t' ∧ Holds cfg entries s.p s.co s.id t' := by
  obtain ⟨id, memory, bank, hid, he, hs⟩ := mapDram_eq_ok.mp hrun
  obtain ⟨-, rfl⟩ := store_eq_ok.mp hs
  have hval : id.toNat = s.id := by
    obtain ⟨id', hid', hval⟩ := h.dramId_cache hb hc s.isPod s.row_lt s.i_lt
    rw [Slot.co, hid'] at hid
    cases hid
    exact hval
  have hnew : Holds cfg entries s.p s.co s.id
      ⟨Function.update t.cacheIdToMemoryId id.toNat (some memory),
        Function.update t.cacheIdToBankId id.toNat (some bank)⟩ := by
    refine ⟨id, memory, bank, hid, hval, he, ?_, ?_⟩
    · rw [hval]
      exact Function.update_self ..
    · rw [hval]
      exact Function.update_self ..
  refine ⟨fun s' hs' => ?_, hnew⟩
  by_cases hsame : s'.id = s.id
  · obtain ⟨hp, hco⟩ := Slot.co_of_id h hb hc hsame
    rw [hp, hco, hsame]
    exact hnew
  · obtain ⟨id', memory', bank', hid', hval', he', hm, hk⟩ := hs'
    rw [← hval] at hsame
    refine ⟨id', memory', bank', hid', hval', he', ?_, ?_⟩
    · exact (Function.update_of_ne hsame ..).trans hm
    · exact (Function.update_of_ne hsame ..).trans hk

theorem mapPod_keeps (h : Placed cfg) (hb : 1 ≤ tileBitsY cfg) (hc : cacheCount cfg < 2 ^ 32)
    {p : Coord} (hp : IsPod cfg p) {t t' : Tables} (hrun : mapPod cfg entries t p = .ok t') :
    Keeps cfg entries t t' ∧ ∀ s : Slot cfg, s.p = p → Holds cfg entries s.p s.co s.id t' := by
  have hstep : ∀ t t', ∀ co ∈ cacheRow cfg p 0 0 ++ cacheRow cfg p 1 0,
      mapDram cfg entries p t co = .ok t' → Keeps cfg entries t t' ∧
        ∀ s : Slot cfg, s.p = p → s.co = co → Holds cfg entries s.p s.co s.id t' := by
    intro t t' co hco hturn
    obtain ⟨row, hrow, i, hi, rfl⟩ := mem_visited_iff.mp hco
    obtain ⟨hk, hnew⟩ := mapDram_keeps h hb hc ⟨p, row, i, hp, hrow, hi⟩ hturn
    refine ⟨hk, fun s hs hsame => ?_⟩
    have hid : s.id = Slot.id ⟨p, row, i, hp, hrow, hi⟩ := by
      subst hs
      obtain ⟨h₁, h₂⟩ := (h.unwrapped hp).cache_injective s.row_lt hrow s.i_lt hi hsame
      simp only [Slot.id, h₁, h₂]
    rw [hs, hsame, hid]
    exact hnew
  rw [mapPod, (h.unwrapped hp).foreachDram_eq] at hrun
  obtain ⟨hkeeps, hall⟩ := foldlM_ok (R := Keeps cfg entries)
    (Q := fun co t => ∀ s : Slot cfg, s.p = p → s.co = co → Holds cfg entries s.p s.co s.id t)
    (fun _ _ hs => hs) (fun _ _ _ h₁ h₂ s hs => h₂ s (h₁ s hs))
    (fun _ _ _ hR hQ s hs hco => hR s (hQ s hs hco)) hstep hrun
  refine ⟨hkeeps, fun s hs => hall s.co ?_ s hs rfl⟩
  subst hs
  exact mem_visited_iff.mpr ⟨s.row, s.row_lt, s.i, s.i_lt, rfl⟩

theorem mapPods_holds (h : Placed cfg) (hb : 1 ≤ tileBitsY cfg) (hc : cacheCount cfg < 2 ^ 32)
    {t t' : Tables}
    (hrun : (foreachCoordinate ⟨0, 0⟩ cfg.pods).foldlM (mapPod cfg entries) t = .ok t') :
    ∀ s : Slot cfg, Holds cfg entries s.p s.co s.id t' := by
  obtain ⟨-, hall⟩ := foldlM_ok (R := Keeps cfg entries)
    (Q := fun p t => ∀ s : Slot cfg, s.p = p → Holds cfg entries s.p s.co s.id t)
    (fun _ _ hs => hs) (fun _ _ _ h₁ h₂ s hs => h₂ s (h₁ s hs))
    (fun _ _ _ hR hQ s hs => hR s (hQ s hs))
    (fun _ _ _ hp hturn => mapPod_keeps h hb hc (mem_pods.mp hp) hturn) hrun
  exact fun s => hall s.p (mem_pods.mpr s.isPod) s rfl

variable (entries) in
theorem mapPod_total (h : Placed cfg) (hb : 1 ≤ tileBitsY cfg) (hc : cacheCount cfg < 2 ^ 32)
    (hentries : ∀ s : Slot cfg, ∀ id, dramId cfg s.co = .ok id →
      ∃ memory bank, entries s.p s.co id = .ok (memory, bank))
    {p : Coord} (hp : IsPod cfg p) (t : Tables) : ∃ t', mapPod cfg entries t p = .ok t' := by
  rw [mapPod, (h.unwrapped hp).foreachDram_eq]
  refine foldlM_total (fun t co hco => ?_) t
  obtain ⟨row, hrow, i, hi, rfl⟩ := mem_visited_iff.mp hco
  obtain ⟨id, hid, hval⟩ := h.dramId_cache hb hc hp hrow hi
  obtain ⟨memory, bank, he⟩ := hentries ⟨p, row, i, hp, hrow, hi⟩ id hid
  have hlt : id.toNat < (numCaches cfg).toNat := by
    rw [hval, numCaches, numDramCoordinates_toNat hc]
    exact idOf_lt hp hrow hi
  exact ⟨_, mapDram_eq_ok.mpr ⟨id, memory, bank, hid, he, store_eq_ok.mpr ⟨hlt, rfl⟩⟩⟩

variable (entries) in
theorem mapPods_total (h : Placed cfg) (hb : 1 ≤ tileBitsY cfg) (hc : cacheCount cfg < 2 ^ 32)
    (hentries : ∀ s : Slot cfg, ∀ id, dramId cfg s.co = .ok id →
      ∃ memory bank, entries s.p s.co id = .ok (memory, bank)) (t : Tables) :
    ∃ t', (foreachCoordinate ⟨0, 0⟩ cfg.pods).foldlM (mapPod cfg entries) t = .ok t' :=
  foldlM_total (fun t _ hp => mapPod_total entries h hb hc hentries (mem_pods.mp hp) t) t

end Runs

section Geometry

variable {cfg : Config}

/-- The shape of the pods and the arrangements of pods that have a builder of their own. -/
structure Special (cfg : Config) : Prop where
  width : cfg.podShape.x = 16
  height : cfg.podShape.y = 8
  pods : cfg.pods.x = 4 ∧ cfg.pods.y = 4 ∨ cfg.pods.x = 1 ∧ cfg.pods.y = 1

theorem Special.pod_lt (h : Special cfg) {p : Coord} (hp : IsPod cfg p) :
    p.x.toNat < 4 ∧ p.y.toNat < 4 := by
  obtain ⟨hx, hy⟩ := hp
  rw [UInt32.lt_iff_toNat_lt] at hx hy
  rcases h.pods with ⟨h₁, h₂⟩ | ⟨h₁, h₂⟩ <;> rw [h₁] at hx <;> rw [h₂] at hy <;>
    simp only [UInt32.reduceToNat] at hx hy <;> omega

theorem Special.unwrapped (h : Special cfg) {p : Coord} (hp : IsPod cfg p) : Unwrapped cfg p := by
  have hfits : ∀ b < 32, ∀ n < 4, 2 ^ b * (1 + n) % 2 ^ 32 + 16 < 2 ^ 32 ∧
      2 ^ b * (1 + 2 * n) % 2 ^ 32 + 8 + 1 < 2 ^ 32 := by decide
  obtain ⟨hx, hy⟩ := h.pod_lt hp
  refine ⟨?_, ?_⟩
  · rw [podVcoreOrigin_x_toNat, h.width]
    exact (hfits _ (tileBitsX_lt cfg) _ hx).1
  · rw [podVcoreOrigin_y_toNat, h.height]
    exact (hfits _ (tileBitsY_lt cfg) _ hy).2

theorem Special.cacheCount_eq (h : Special cfg) :
    cacheCount cfg = if cfg.pods.x = 4 then 512 else 32 := by
  rcases h.pods with ⟨h₁, h₂⟩ | ⟨h₁, h₂⟩ <;> rw [cacheCount, h₁, h₂, h.width] <;> rfl

theorem Special.cacheCount_lt (h : Special cfg) : cacheCount cfg < 2 ^ 32 := by
  rw [h.cacheCount_eq]
  split <;> decide

theorem Special.numCaches_toNat (h : Special cfg) :
    (numCaches cfg).toNat = if cfg.pods.x = 4 then 512 else 32 := by
  rw [numCaches, numDramCoordinates_toNat h.cacheCount_lt, h.cacheCount_eq]

theorem Special.south_id (h : Special cfg) {p : Coord} (hp : IsPod cfg p) {id : UInt32}
    (hid : dramId cfg (cache cfg p 1 0) = .ok id) :
    tileBitsY cfg = 3 ∧ podDramSouthY cfg p ≠ cfg.hostInterface.y := by
  have hrows : ∀ b < 32, ∀ n < 4,
      ¬ ((2 ^ b * (1 + 2 * n) % 2 ^ 32 + 8) % 2 ^ b = 2 ^ b - 1 ∧
        (2 ^ b * (1 + 2 * n) % 2 ^ 32 + 8) / 2 ^ b % 2 = 0) ∧
      ((2 ^ b * (1 + 2 * n) % 2 ^ 32 + 8) % 2 ^ b = 0 →
        (2 ^ b * (1 + 2 * n) % 2 ^ 32 + 8) / 2 ^ b % 2 = 0 → b = 3) := by decide
  obtain ⟨hnorth, hsouth⟩ := hrows _ (tileBitsY_lt cfg) _ (h.pod_lt hp).2
  have hy : (cache cfg p 1 0).y.toNat =
      2 ^ tileBitsY cfg * (1 + 2 * p.y.toNat) % 2 ^ 32 + 8 := by
    rw [cache, edgeY_one, (h.unwrapped hp).southY_toNat, podVcoreOrigin_y_toNat, h.height]
    rfl
  simp only [dramId, bind_eq_ok] at hid
  obtain ⟨r, hr, -⟩ := hid
  unfold podDramId at hr
  split at hr
  · next hn =>
    rw [isDramNorth_iff, hy] at hn
    exact absurd hn hnorth
  · split at hr
    · next hs =>
      rw [isDramSouth_iff, hy] at hs
      exact ⟨hsouth hs.1 hs.2.1, hs.2.2⟩
    · cases hr

theorem Special.rowsPlaced (h : Special cfg) (hids : ∀ p, IsPod cfg p →
    ∃ id, dramId cfg (cache cfg p 1 0) = .ok id) (hsome : IsPod cfg ⟨0, 0⟩) :
    tileBitsY cfg = 3 ∧ RowsPlaced cfg := by
  have hb : tileBitsY cfg = 3 := by
    obtain ⟨id, hid⟩ := hids _ hsome
    exact (h.south_id hsome hid).1
  refine ⟨hb, ?_, fun p hp => ?_, fun p hp => ?_⟩
  · rw [h.height, hb]
    rfl
  · have hy := (h.pod_lt hp).2
    rw [h.height, hb]
    simp only [UInt32.reduceToNat]
    omega
  · obtain ⟨id, hid⟩ := hids p hp
    exact (h.south_id hp hid).2

theorem Special.last_id (h : Special cfg) (hr : RowsPlaced cfg) (hb : tileBitsY cfg = 3)
    {p : Coord} (hp : IsPod cfg p) (hx : p.x.toNat + 1 = cfg.pods.x.toNat) (hy : p.y = 0)
    {id : UInt32} (hid : dramId cfg (cache cfg p 0 15) = .ok id)
    (hlt : id.toNat < (numCaches cfg).toNat) :
    16 ≤ 2 ^ tileBitsX cfg ∧ 2 ^ tileBitsX cfg * cfg.pods.x.toNat + 16 < 2 ^ 32 := by
  have hco : (cache cfg p 0 15).x.toNat =
      2 ^ tileBitsX cfg * cfg.pods.x.toNat % 2 ^ 32 + 15 := by
    rw [(h.unwrapped hp).cache_x 0 (by rw [h.width]; decide), podVcoreOrigin_x_toNat,
      ← hx, Nat.add_comm 1]
  obtain ⟨hn, -, -⟩ := @RowsPlaced.cache_class cfg p hr (by omega) hp 0 15 (by decide)
  have htile : (tileInPod cfg (cache cfg p 0 15)).x.toNat =
      (2 ^ tileBitsX cfg * cfg.pods.x.toNat % 2 ^ 32 + 15) % 2 ^ tileBitsX cfg := by
    rw [← hco]
    exact low_field _ _
  simp only [dramId, podDramId, hn, decide_true, if_true, hr.cache_pod (by omega) hp
    (show 0 < 2 by decide), bind, Except.bind, pure, Except.pure, Except.ok.injEq] at hid
  subst hid
  simp only [Coordinate.toIndex, hy, h.width, UInt32.toNat_add, UInt32.toNat_mul, UInt32.toNat_sub,
    npod_x_toNat, hco, htile, h.numCaches_toNat] at hlt
  have hlast : ∀ b < 32, ∀ k, k = 1 ∨ k = 4 →
      ((((2 ^ 32 - 1 + (2 ^ b * k % 2 ^ 32 + 15) / 2 ^ b) % 2 ^ 32 * k % 2 ^ 32 + 0) % 2 ^ 32 *
        (16 * 2 % 2 ^ 32) % 2 ^ 32) + (2 ^ b * k % 2 ^ 32 + 15) % 2 ^ b) % 2 ^ 32 <
          (if k = 4 then 512 else 32) → 16 ≤ 2 ^ b ∧ 2 ^ b * k + 16 < 2 ^ 32 := by
    rintro b hb k (rfl | rfl)
    · revert b
      decide
    · revert b
      decide
  rcases h.pods with ⟨h₁, h₂⟩ | ⟨h₁, h₂⟩
  · rw [h₁, h₂] at hlt
    rw [h₁]
    exact hlast _ (tileBitsX_lt cfg) 4 (Or.inr rfl) hlt
  · rw [h₁, h₂] at hlt
    rw [h₁]
    exact hlast _ (tileBitsX_lt cfg) 1 (Or.inl rfl) hlt

/-- Every visited cache can have an id in range only in pods that lie where their ids expect
them. -/
theorem Special.placed (h : Special cfg) (hids : ∀ p, IsPod cfg p →
    ∃ drams, podForeachDram cfg p = some drams ∧
      ∀ co ∈ drams, ∃ id, dramId cfg co = .ok id ∧ id.toNat < (numCaches cfg).toNat) :
    tileBitsY cfg = 3 ∧ Placed cfg := by
  have hslot : ∀ p, IsPod cfg p → ∀ row < 2, ∀ i < 16,
      ∃ id, dramId cfg (cache cfg p row i) = .ok id ∧ id.toNat < (numCaches cfg).toNat := by
    intro p hp row hrow i hi
    obtain ⟨drams, hd, hall⟩ := hids p hp
    rw [(h.unwrapped hp).foreachDram_eq] at hd
    cases hd
    exact hall _ (mem_visited_iff.mpr ⟨row, hrow, i, by rwa [h.width], rfl⟩)
  have hsouth : ∀ p, IsPod cfg p → ∃ id, dramId cfg (cache cfg p 1 0) = .ok id := by
    intro p hp
    obtain ⟨id, hid, -⟩ := hslot p hp 1 (by decide) 0 (by decide)
    exact ⟨id, hid⟩
  -- the first and the last pod of the northern pods
  obtain ⟨hfirst, last, hlast, hx, hy⟩ : IsPod cfg ⟨0, 0⟩ ∧
      ∃ last, IsPod cfg last ∧ last.x.toNat + 1 = cfg.pods.x.toNat ∧ last.y = 0 := by
    rcases h.pods with ⟨h₁, h₂⟩ | ⟨h₁, h₂⟩
    · rw [IsPod, h₁, h₂]
      exact ⟨by decide, ⟨3, 0⟩, by rw [IsPod, h₁, h₂]; decide, rfl, rfl⟩
    · rw [IsPod, h₁, h₂]
      exact ⟨by decide, ⟨0, 0⟩, by rw [IsPod, h₁, h₂]; decide, rfl, rfl⟩
  obtain ⟨hb, hr⟩ := h.rowsPlaced hsouth hfirst
  obtain ⟨id, hid, hlt⟩ := hslot last hlast 0 (by decide) 15 (by decide)
  obtain ⟨hw, hc⟩ := h.last_id hr hb hlast hx hy hid hlt
  refine ⟨hb, hr, ?_, fun p hp => ?_⟩
  · rw [h.width]
    exact hw
  · have hp' := UInt32.lt_iff_toNat_lt.mp hp.1
    have hle := Nat.mul_le_mul_left (2 ^ tileBitsX cfg) (by omega : 1 + p.x.toNat ≤
      cfg.pods.x.toNat)
    rw [h.width]
    simp only [UInt32.reduceToNat]
    omega

theorem Special.slot_lt (h : Special cfg) (s : Slot cfg) :
    s.p.x.toNat < 4 ∧ s.p.y.toNat < 4 ∧ s.row < 2 ∧ s.i < 16 := by
  obtain ⟨hx, hy⟩ := h.pod_lt s.isPod
  have hi := s.i_lt
  rw [h.width] at hi
  exact ⟨hx, hy, s.row_lt, hi⟩

theorem Special.exists_slot (h : Special cfg) {n : ℕ} (hn : n < (numCaches cfg).toNat) :
    ∃ s : Slot cfg, s.id = n := by
  rw [numCaches, numDramCoordinates_toNat h.cacheCount_lt] at hn
  obtain ⟨p, row, i, hp, hrow, hi, hid⟩ := exists_idOf hn h.cacheCount_lt
  exact ⟨⟨p, row, i, hp, hrow, hi⟩, hid⟩

theorem Special.tileBitsY_eq (h : Special cfg) (hp : Placed cfg) : tileBitsY cfg = 3 := by
  have he := hp.height
  rw [h.height] at he
  exact (Nat.pow_right_injective (le_refl 2) he).symm

end Geometry

end DmaInit
