import ManycoreRuntime.DmaInit

/-! # The law of the DMA tables

For each builder, the tables that it leaves behind as functions of the cache id, and the
machines on which they give every cache a bank of its own. -/
namespace DmaTables

open Coordinate (Coord Errno foreachCoordinate)
open Configuration (Config Accepted memsysCheckDramChannels)
open Fallible (bind_eq_ok foldlM_ok_mem)
open ConfigPod
open PodGeometry
open DmaInit
open Machines (Machine)

section Law

variable {cfg : Config} {entries : Entries} {t : Tables}

/-- The tables give the cache with id `n` the memory `memory n` and the bank `bank n`. -/
def Filled (cfg : Config) (t : Tables) (memory bank : ℕ → ℕ) : Prop :=
  ∀ n < (numCaches cfg).toNat, ∃ m b, t.cacheIdToMemoryId n = some m ∧
    t.cacheIdToBankId n = some b ∧ m.toNat = memory n ∧ b.toNat = bank n

theorem filled_of_holds (h : Special cfg) {memory bank : ℕ → ℕ}
    (hholds : ∀ s : Slot cfg, Holds cfg entries s.p s.co s.id t)
    (hval : ∀ s : Slot cfg, ∀ id m b, id.toNat = s.id → entries s.p s.co id = .ok (m, b) →
      m.toNat = memory s.id ∧ b.toNat = bank s.id) : Filled cfg t memory bank := by
  intro n hn
  obtain ⟨s, rfl⟩ := h.exists_slot hn
  obtain ⟨id, m, b, -, hid, he, hm, hb⟩ := hholds s
  obtain ⟨hm', hb'⟩ := hval s id m b hid he
  exact ⟨m, b, hm, hb, hm', hb'⟩

theorem Filled.tableLaw_iff {memory bank : ℕ → ℕ} (h : Filled cfg t memory bank) :
    TableLaw cfg t ↔
      (∀ n < (numCaches cfg).toNat, memory n < cfg.memsys.dramChannels.toNat ∧
        bank n < (numCaches cfg).toNat / cfg.memsys.dramChannels.toNat) ∧
      ∀ n < (numCaches cfg).toNat, ∀ n' < (numCaches cfg).toNat, memory n = memory n' →
        bank n = bank n' → n = n' := by
  constructor
  · intro hlaw
    refine ⟨fun n hn => ?_, fun n hn n' hn' hme hbe => ?_⟩
    · obtain ⟨m, b, hm, hb, hm', hb'⟩ := h n hn
      obtain ⟨m₂, b₂, hm₂, hb₂, hlt⟩ := hlaw.entry n hn
      rw [hm] at hm₂
      rw [hb] at hb₂
      cases hm₂
      cases hb₂
      rwa [← hm', ← hb']
    · obtain ⟨m, b, hm, hb, hm', hb'⟩ := h n hn
      obtain ⟨m₂, b₂, hm₂, hb₂, hm₂', hb₂'⟩ := h n' hn'
      refine hlaw.injective n hn n' hn' ?_ ?_
      · rw [hm, hm₂, UInt64.toNat_inj.mp (hm'.trans (hme.trans hm₂'.symm))]
      · rw [hb, hb₂, UInt64.toNat_inj.mp (hb'.trans (hbe.trans hb₂'.symm))]
  · rintro ⟨hlt, hinj⟩
    refine ⟨fun n hn => ?_, fun n hn n' hn' hme hbe => ?_⟩
    · obtain ⟨m, b, hm, hb, hm', hb'⟩ := h n hn
      have hn' := hlt n hn
      rw [← hm', ← hb'] at hn'
      exact ⟨m, b, hm, hb, hn'⟩
    · obtain ⟨m, b, hm, hb, hm', hb'⟩ := h n hn
      obtain ⟨m₂, b₂, hm₂, hb₂, hm₂', hb₂'⟩ := h n' hn'
      rw [hm, hm₂, Option.some_inj] at hme
      rw [hb, hb₂, Option.some_inj] at hbe
      refine hinj n hn n' hn' ?_ ?_
      · rw [← hm', ← hm₂', hme]
      · rw [← hb', ← hb₂', hbe]

end Law

section X4Y4

variable {cfg : Config}

structure FourByFour (cfg : Config) : Prop where
  width : cfg.podShape.x = 16
  height : cfg.podShape.y = 8
  podsX : cfg.pods.x = 4
  podsY : cfg.pods.y = 4

theorem FourByFour.special (h : FourByFour cfg) : Special cfg :=
  ⟨h.width, h.height, Or.inl ⟨h.podsX, h.podsY⟩⟩

theorem FourByFour.numCaches_toNat (h : FourByFour cfg) : (numCaches cfg).toNat = 512 := by
  rw [h.special.numCaches_toNat, if_pos h.podsX]

theorem FourByFour.slot_id (h : FourByFour cfg) (s : Slot cfg) :
    s.id = (s.p.x.toNat * 4 + s.p.y.toNat) * 32 + (s.row * 16 + s.i) := by
  rw [Slot.id, idOf, h.podsY, h.width]
  rfl

def hbmMemory (n : ℕ) : ℕ :=
  n / 256 * 16 + n / 64 % 2 * 8 + (n / 32 % 2 * 4 + n / 128 % 2 * 2) + n / 16 % 2

theorem northId_toNat {p : Coord} (hx : p.x.toNat < 4) (hy : p.y.toNat < 4) :
    (northId p).toNat =
      p.x.toNat / 2 * 16 + p.y.toNat / 2 * 8 + (p.y.toNat % 2 * 4 + p.x.toNat % 2 * 2) := by
  have hall : ∀ x < 4, ∀ y < 4, (northId ⟨UInt32.ofNat x, UInt32.ofNat y⟩).toNat =
      x / 2 * 16 + y / 2 * 8 + (y % 2 * 4 + x % 2 * 2) := by decide
  have hp := hall _ hx _ hy
  rwa [UInt32.ofNat_toNat, UInt32.ofNat_toNat] at hp

theorem FourByFour.hbmEntries_eq (h : FourByFour cfg) (hr : RowsPlaced cfg)
    (hb : tileBitsY cfg = 3) (s : Slot cfg) {c : UInt64} (hc : c ≠ 0) (id : UInt32) :
    ∃ m, hbmEntries cfg c s.p s.co id = .ok (m, id.toUInt64 % c) ∧ m.toNat = hbmMemory s.id := by
  obtain ⟨hx, hy, hrow, hi⟩ := h.special.slot_lt s
  obtain ⟨hn, -, -⟩ := hr.cache_class (by omega) s.isPod (i := s.i) s.row_lt
  have hnorth := northId_toNat hx hy
  refine ⟨if isDramNorth cfg s.co then northId s.p else northId s.p + 1, ?_, ?_⟩
  · simp only [hbmEntries, modLong, if_neg hc, bind, Except.bind, pure, Except.pure]
  · have hid := h.slot_id s
    have h16 : s.id / 16 % 2 = s.row := by omega
    have h32 : s.id / 32 % 2 = s.p.y.toNat % 2 := by omega
    have h64 : s.id / 64 % 2 = s.p.y.toNat / 2 := by omega
    have h128 : s.id / 128 % 2 = s.p.x.toNat % 2 := by omega
    have h256 : s.id / 256 = s.p.x.toNat / 2 := by omega
    rw [Slot.co, hn, hbmMemory, h16, h32, h64, h128, h256]
    rcases (by omega : s.row = 0 ∨ s.row = 1) with h0 | h1
    · rw [h0, if_pos (by decide), hnorth, Nat.add_zero]
    · rw [h1, if_neg (by decide), UInt64.toNat_add, hnorth, UInt64.toNat_one]
      exact Nat.mod_eq_of_lt (by omega)

theorem FourByFour.placed (h : FourByFour cfg) {entries : Entries} {t t' : Tables}
    (hrun : (foreachCoordinate ⟨0, 0⟩ cfg.pods).foldlM (mapPod cfg entries) t = .ok t') :
    Placed cfg := by
  refine (h.special.placed fun p hp => ?_).2
  obtain ⟨u, v, hv⟩ := foldlM_ok_mem hrun p (mem_pods.mpr hp)
  exact mapPod_ids hv

theorem FourByFour.div_eq (h : FourByFour cfg) (hpos : 0 < cfg.memsys.dramChannels.toNat)
    (hle : cfg.memsys.dramChannels.toNat ≤ 32) :
    ∃ q, div (numCaches cfg) cfg.memsys.dramChannels = .ok q ∧ q.toUInt64 ≠ 0 ∧
      q.toNat = 512 / cfg.memsys.dramChannels.toNat := by
  have hne : cfg.memsys.dramChannels ≠ 0 := by
    rintro he
    rw [he] at hpos
    exact absurd hpos (by decide)
  have hq : (numCaches cfg / cfg.memsys.dramChannels).toNat =
      512 / cfg.memsys.dramChannels.toNat := by rw [UInt32.toNat_div, h.numCaches_toNat]
  refine ⟨_, if_neg hne, fun hz => ?_, hq⟩
  have hge := Nat.div_le_div_left (a := 512) hle hpos
  rw [← UInt64.toNat_inj, UInt32.toNat_toUInt64, hq] at hz
  simp only [UInt64.toNat_zero] at hz
  omega

theorem FourByFour.hbm_filled (h : FourByFour cfg) (hp : Placed cfg) {q : UInt32}
    (hq : q.toUInt64 ≠ 0) {t : Tables}
    (hrun : (foreachCoordinate ⟨0, 0⟩ cfg.pods).foldlM
      (mapPod cfg (hbmEntries cfg q.toUInt64)) newTables = .ok t) :
    Filled cfg t hbmMemory fun n => n % q.toNat := by
  have hb := h.special.tileBitsY_eq hp
  refine filled_of_holds h.special (mapPods_holds hp (by omega) h.special.cacheCount_lt hrun) ?_
  intro s id m b hid he
  obtain ⟨m', he', hm'⟩ := h.hbmEntries_eq hp.toRowsPlaced hb s hq id
  rw [he'] at he
  cases he
  refine ⟨hm', ?_⟩
  rw [UInt64.toNat_mod, UInt32.toNat_toUInt64, UInt32.toNat_toUInt64, hid]

theorem hbmMemory_lt {n : ℕ} (hn : n < 512) : hbmMemory n < 32 := by
  unfold hbmMemory
  omega

theorem hbm_injective {n n' : ℕ} (hm : hbmMemory n = hbmMemory n')
    (hb : n % 16 = n' % 16) : n = n' := by
  unfold hbmMemory at hm
  have h256 : n / 256 = n' / 256 := by omega
  have h64 : n / 64 % 2 = n' / 64 % 2 := by omega
  have h32 : n / 32 % 2 = n' / 32 % 2 := by omega
  have h128 : n / 128 % 2 = n' / 128 % 2 := by omega
  have h16 : n / 16 % 2 = n' / 16 % 2 := by omega
  omega

theorem FourByFour.hbm_iff (h : FourByFour cfg) (hpos : 0 < cfg.memsys.dramChannels.toNat)
    (hle : cfg.memsys.dramChannels.toNat ≤ 32) :
    (∃ t, initPodX4Y4X16Hbm cfg newTables = .ok t ∧ TableLaw cfg t) ↔
      cfg.memsys.dramChannels = 32 ∧ Placed cfg := by
  obtain ⟨q, hdiv, hq, hval⟩ := h.div_eq hpos hle
  simp only [initPodX4Y4X16Hbm, hdiv, bind, Except.bind]
  constructor
  · rintro ⟨t, hrun, hlaw⟩
    have hp := h.placed hrun
    rw [(h.hbm_filled hp hq hrun).tableLaw_iff, h.numCaches_toNat] at hlaw
    have hlast := (hlaw.1 511 (by decide)).1
    have hm : hbmMemory 511 = 31 := rfl
    refine ⟨?_, hp⟩
    rw [← UInt32.toNat_inj]
    simp only [UInt32.reduceToNat]
    omega
  · rintro ⟨hc, hp⟩
    have hb := h.special.tileBitsY_eq hp
    obtain ⟨t, hrun⟩ := mapPods_total (hbmEntries cfg q.toUInt64) hp (by omega)
      h.special.cacheCount_lt (fun s id _ => by
        obtain ⟨m, he, -⟩ := h.hbmEntries_eq hp.toRowsPlaced hb s hq id
        exact ⟨m, _, he⟩) newTables
    refine ⟨t, hrun, ?_⟩
    rw [hc] at hval
    have hq16 : q.toNat = 16 := hval
    rw [(h.hbm_filled hp hq hrun).tableLaw_iff, h.numCaches_toNat, hc, hq16]
    refine ⟨fun n hn => ⟨hbmMemory_lt hn, Nat.mod_lt _ (by decide)⟩, ?_⟩
    intro n _ n' _ hm hb
    exact hbm_injective hm hb

end X4Y4

section TestMem

variable {cfg : Config}

def testMemFirst (n : ℕ) : ℕ := 16 + if 2 ≤ n / 128 then 32 else 0

def testMemBank (tileBits n : ℕ) : ℕ := (2 ^ tileBits * (1 + n / 128) + n % 16 - testMemFirst n) / 2

def testMemMemory (channels n : ℕ) : ℕ :=
  (if 2 ≤ n / 128 then channels / 2 else 0) + n / 32 % 4 * 4 + n / 16 % 2 * 2 + n % 2

theorem testMemory_toNat {c : UInt64} (hc : c.toNat ≤ 32) (east south : Bool) {y r : UInt32}
    (hy : y.toNat < 4) (hr : r.toNat < 2) :
    ∃ m, testMemory c 4 east y south r = .ok m ∧ m.toInt64.toUInt64.toNat =
      (if east then c.toNat / 2 else 0) + y.toNat * 4 + (if south then 2 else 0) + r.toNat := by
  have hall : ∀ c < 33, ∀ east south : Bool, ∀ y < 4, ∀ r < 2,
      (testMemory (UInt64.ofNat c) 4 east (UInt32.ofNat y) south (UInt32.ofNat r)).toOption.map
        (fun m => m.toInt64.toUInt64.toNat) =
      some ((if east then c / 2 else 0) + y * 4 + (if south then 2 else 0) + r) := by
    decide +kernel
  have h := hall _ (by omega : c.toNat < 33) east south _ hy _ hr
  rw [UInt64.ofNat_toNat, UInt32.ofNat_toNat, UInt32.ofNat_toNat] at h
  cases hm : testMemory c 4 east y south r with
  | error e =>
    rw [hm] at h
    cases h
  | ok m =>
    rw [hm] at h
    exact ⟨m, rfl, Option.some_inj.mp h⟩

theorem FourByFour.testMemEntries_eq (h : FourByFour cfg) (hp : Placed cfg) (s : Slot cfg)
    (c : UInt64) (id : UInt32) :
    ∃ b, testMemEntries cfg c 4 s.p s.co id = (do
        let memory ← testMemory c 4 (decide (2 ≤ s.p.x.toNat)) s.p.y (decide (s.row = 1))
          (s.co.x &&& 1)
        return (memory.toInt64.toUInt64, b)) ∧
      b.toNat = testMemBank (tileBitsX cfg) s.id := by
  have hb := h.special.tileBitsY_eq hp
  obtain ⟨hx, hy, hrow, hi⟩ := h.special.slot_lt s
  obtain ⟨-, hs, -⟩ := hp.cache_class (by omega) s.isPod (i := s.i) s.row_lt
  have hw := hp.width
  have hcols := hp.columns s.p s.isPod
  have hco : s.co.x.toNat = 2 ^ tileBitsX cfg * (1 + s.p.x.toNat) + s.i := by
    rw [Slot.co, (hp.unwrapped s.isPod).cache_x s.row s.i_lt.le, hp.origin_x s.isPod]
  have hid := h.slot_id s
  have hx128 : s.id / 128 = s.p.x.toNat := by omega
  have hi16 : s.id % 16 = s.i := by omega
  have heast : decide (s.p.x ≥ 4 / 2) = decide (2 ≤ s.p.x.toNat) :=
    decide_eq_decide.mpr UInt32.le_iff_toNat_le
  refine ⟨((s.co.x - (originVcore.x +
    (if decide (2 ≤ s.p.x.toNat) = true then 1 else 0) * (16 * 4 / 2))) >>> 1).toUInt64, ?_, ?_⟩
  · simp only [testMemEntries, h.podsX, h.width, heast]
    rw [Slot.co, hs]
  rw [testMemBank, testMemFirst, hx128, hi16, UInt32.toNat_toUInt64, UInt32.toNat_shiftRight,
    Nat.shiftRight_eq_div_pow]
  rw [h.width] at hw hcols
  simp only [UInt32.reduceToNat] at hw hcols
  have hfirst : (originVcore.x + (if decide (2 ≤ s.p.x.toNat) = true then 1 else 0) *
      (16 * 4 / 2)).toNat = 16 + if 2 ≤ s.p.x.toNat then 32 else 0 := by
    by_cases he : 2 ≤ s.p.x.toNat
    · simp [he, originVcore, Configuration.vcoreBaseX]
    · simp [he, originVcore, Configuration.vcoreBaseX]
  have hge : 16 + (if 2 ≤ s.p.x.toNat then 32 else 0) ≤ s.co.x.toNat := by
    rw [hco]
    by_cases he : 2 ≤ s.p.x.toNat
    · rw [if_pos he]
      have := Nat.mul_le_mul hw (by omega : 3 ≤ 1 + s.p.x.toNat)
      omega
    · rw [if_neg he]
      have := Nat.mul_le_mul hw (by omega : 1 ≤ 1 + s.p.x.toNat)
      omega
  rw [UInt32.toNat_sub_of_le _ _ (UInt32.le_iff_toNat_le.mpr (hfirst.trans_le hge)), hfirst, hco]
  rfl

theorem FourByFour.testMemory_slot (h : FourByFour cfg) (hp : Placed cfg) (s : Slot cfg)
    {c : UInt64} (hc : c.toNat ≤ 32) :
    ∃ m, testMemory c 4 (decide (2 ≤ s.p.x.toNat)) s.p.y (decide (s.row = 1)) (s.co.x &&& 1) =
      .ok m ∧ m.toInt64.toUInt64.toNat = testMemMemory c.toNat s.id := by
  obtain ⟨hx, hy, hrow, hi⟩ := h.special.slot_lt s
  have hid := h.slot_id s
  have hr : (s.co.x &&& 1).toNat = s.id % 2 := by
    have hw := hp.width
    rw [h.width] at hw
    -- the columns of a pod start at an even one
    have htwo : (2 : ℕ) ∣ 2 ^ tileBitsX cfg := by
      refine dvd_pow_self 2 fun hz => ?_
      rw [hz] at hw
      exact absurd hw (by decide)
    obtain ⟨q, hq⟩ := htwo
    rw [UInt32.toNat_and, UInt32.toNat_one, Nat.and_one_is_mod, Slot.co,
      (hp.unwrapped s.isPod).cache_x s.row s.i_lt.le, hp.origin_x s.isPod, hq, hid, Nat.mul_assoc,
      Nat.mul_add_mod]
    omega
  obtain ⟨m, hm, hval⟩ := testMemory_toNat hc (decide (2 ≤ s.p.x.toNat)) (decide (s.row = 1)) hy
    (show (s.co.x &&& 1).toNat < 2 by omega)
  have h128 : s.id / 128 = s.p.x.toNat := by omega
  have h32 : s.id / 32 % 4 = s.p.y.toNat := by omega
  have h16 : s.id / 16 % 2 = s.row := by omega
  refine ⟨m, hm, hval.trans ?_⟩
  rw [testMemMemory, h128, h32, h16, hr]
  simp only [decide_eq_true_eq]
  rcases (by omega : s.row = 0 ∨ s.row = 1) with h0 | h1
  · rw [h0]
    rfl
  · rw [h1]
    rfl

theorem FourByFour.testMem_filled (h : FourByFour cfg) (hp : Placed cfg) {c : UInt64}
    (hc : c.toNat ≤ 32) {t : Tables}
    (hrun : (foreachCoordinate ⟨0, 0⟩ cfg.pods).foldlM
      (mapPod cfg (testMemEntries cfg c 4)) newTables = .ok t) :
    Filled cfg t (testMemMemory c.toNat) (testMemBank (tileBitsX cfg)) := by
  have hb := h.special.tileBitsY_eq hp
  refine filled_of_holds h.special (mapPods_holds hp (by omega) h.special.cacheCount_lt hrun) ?_
  intro s id m b _ he
  obtain ⟨b', he', hbank⟩ := h.testMemEntries_eq hp s c id
  obtain ⟨m', hm', hval⟩ := h.testMemory_slot hp s hc
  rw [he', hm'] at he
  cases he
  exact ⟨hval, hbank⟩

theorem FourByFour.testMem_bank (h : FourByFour cfg) (hp : Placed cfg) {c : UInt64} {t : Tables}
    (hrun : (foreachCoordinate ⟨0, 0⟩ cfg.pods).foldlM
      (mapPod cfg (testMemEntries cfg c 4)) newTables = .ok t) {n : ℕ} (hn : n < 512) :
    ∃ b, t.cacheIdToBankId n = some b ∧ b.toNat = testMemBank (tileBitsX cfg) n := by
  have hb := h.special.tileBitsY_eq hp
  obtain ⟨s, rfl⟩ := h.special.exists_slot (h.numCaches_toNat ▸ hn)
  obtain ⟨id, m, b, -, -, he, -, hbank⟩ :=
    mapPods_holds hp (by omega) h.special.cacheCount_lt hrun s
  obtain ⟨b', he', hval⟩ := h.testMemEntries_eq hp s c id
  rw [he', bind_eq_ok] at he
  obtain ⟨memory, -, he⟩ := he
  cases he
  exact ⟨b, hbank, hval⟩

theorem testMem_digits {n : ℕ} (hn : n < 512) :
    testMemMemory 32 n = n / 256 * 16 + n / 32 % 4 * 4 + n / 16 % 2 * 2 + n % 2 ∧
      testMemBank 4 n = n / 128 % 2 * 8 + n / 2 % 8 := by
  rw [testMemMemory, testMemBank, testMemFirst]
  by_cases he : 2 ≤ n / 128
  · rw [if_pos he, if_pos he]
    omega
  · rw [if_neg he, if_neg he]
    omega

theorem digits_injective {a b c d a' b' c' d' : ℕ} (hb : b < 4) (hb' : b' < 4) (hc : c < 2)
    (hc' : c' < 2) (hd : d < 2) (hd' : d' < 2)
    (h : a * 16 + b * 4 + c * 2 + d = a' * 16 + b' * 4 + c' * 2 + d') :
    a = a' ∧ b = b' ∧ c = c' ∧ d = d' := by
  omega

theorem testMem_injective {n n' : ℕ} (hn : n < 512) (hn' : n' < 512)
    (hm : testMemMemory 32 n = testMemMemory 32 n') (hb : testMemBank 4 n = testMemBank 4 n') :
    n = n' := by
  rw [(testMem_digits hn).1, (testMem_digits hn').1] at hm
  rw [(testMem_digits hn).2, (testMem_digits hn').2] at hb
  obtain ⟨h256, h32, h16, h1⟩ := digits_injective (Nat.mod_lt _ (by decide))
    (Nat.mod_lt _ (by decide)) (Nat.mod_lt _ (by decide)) (Nat.mod_lt _ (by decide))
    (Nat.mod_lt _ (by decide)) (Nat.mod_lt _ (by decide)) hm
  clear hm
  have h128 : n / 128 % 2 = n' / 128 % 2 := by omega
  have h2 : n / 2 % 8 = n' / 2 % 8 := by omega
  clear hb
  omega

theorem testMem_lt {n : ℕ} (hn : n < 512) : testMemMemory 32 n < 32 ∧ testMemBank 4 n < 16 := by
  rw [testMemMemory, testMemBank, testMemFirst]
  by_cases he : 2 ≤ n / 128
  · rw [if_pos he, if_pos he]
    omega
  · rw [if_neg he, if_neg he]
    omega

/-- Tables that keep the law need the channels and the tile bits of the machine, with its caches in
their places. -/
theorem FourByFour.testMem_needs (h : FourByFour cfg) {t : Tables}
    (hrun : (foreachCoordinate ⟨0, 0⟩ cfg.pods).foldlM
      (mapPod cfg (testMemEntries cfg cfg.memsys.dramChannels.toUInt64 4)) newTables = .ok t)
    (hlaw : TableLaw cfg t) :
    cfg.memsys.dramChannels = 32 ∧ tileBitsX cfg = 4 ∧ Placed cfg := by
  have hp := h.placed hrun
  have hw := hp.width
  rw [h.width] at hw
  simp only [UInt32.reduceToNat] at hw
  -- the last column of the second pod has the last bank of the western half
  have hlast : testMemBank (tileBitsX cfg) 143 = (2 ^ tileBitsX cfg * 2 - 1) / 2 := by
    simp [testMemBank, testMemFirst]
  have hbank : (2 ^ tileBitsX cfg * 2 - 1) / 2 < 512 / cfg.memsys.dramChannels.toNat := by
    obtain ⟨-, b, -, hb, -, hlt⟩ := hlaw.entry 143 (by rw [h.numCaches_toNat]; decide)
    obtain ⟨b', hb', hval⟩ := h.testMem_bank hp hrun (n := 143) (by decide)
    rw [hb] at hb'
    cases hb'
    rwa [hval, hlast, h.numCaches_toNat] at hlt
  have hle : cfg.memsys.dramChannels.toNat ≤ 32 := by
    by_contra hgt
    have := Nat.div_le_div_left (a := 512) (by omega : 33 ≤ cfg.memsys.dramChannels.toNat)
      (by decide)
    omega
  have hc : cfg.memsys.dramChannels.toUInt64.toNat ≤ 32 := by rwa [UInt32.toNat_toUInt64]
  rw [(h.testMem_filled hp hc hrun).tableLaw_iff, h.numCaches_toNat, UInt32.toNat_toUInt64]
    at hlaw
  obtain ⟨hlt, hinj⟩ := hlaw
  have h511 := (hlt 511 (by decide)).1
  have hm : testMemMemory cfg.memsys.dramChannels.toNat 511 =
      cfg.memsys.dramChannels.toNat / 2 + 15 := by simp [testMemMemory]
  have hge := Nat.div_le_div_left (a := 512) (by omega : 31 ≤ cfg.memsys.dramChannels.toNat)
    (by decide)
  have hbits : tileBitsX cfg = 4 :=
    Nat.pow_right_injective (le_refl 2) (show 2 ^ tileBitsX cfg = 2 ^ 4 by omega)
  refine ⟨?_, hbits, hp⟩
  rw [← UInt32.toNat_inj]
  simp only [UInt32.reduceToNat]
  -- with 31 channels the two halves of the machine share a memory
  by_contra hne
  have h31 : cfg.memsys.dramChannels.toNat = 31 := by omega
  rw [h31, hbits] at hinj
  exact absurd (hinj 256 (by decide) 113 (by decide) rfl rfl) (by decide)

theorem FourByFour.testMem_law (h : FourByFour cfg) (hc : cfg.memsys.dramChannels = 32)
    (hbits : tileBitsX cfg = 4) (hp : Placed cfg) :
    ∃ t, (foreachCoordinate ⟨0, 0⟩ cfg.pods).foldlM
      (mapPod cfg (testMemEntries cfg cfg.memsys.dramChannels.toUInt64 4)) newTables = .ok t ∧
      TableLaw cfg t := by
  have hb := h.special.tileBitsY_eq hp
  have hc32 : cfg.memsys.dramChannels.toUInt64.toNat = 32 := by
    rw [hc]
    rfl
  obtain ⟨t, hrun⟩ := mapPods_total (testMemEntries cfg
      cfg.memsys.dramChannels.toUInt64 4) hp (by omega) h.special.cacheCount_lt
    (fun s id _ => by
      obtain ⟨b, he, -⟩ := h.testMemEntries_eq hp s cfg.memsys.dramChannels.toUInt64 id
      obtain ⟨m, hm, -⟩ := h.testMemory_slot hp s hc32.le
      exact ⟨_, b, by rw [he, hm]; rfl⟩) newTables
  refine ⟨t, hrun, ?_⟩
  rw [(h.testMem_filled hp hc32.le hrun).tableLaw_iff, h.numCaches_toNat, hc32, hc, hbits]
  refine ⟨fun n hn => testMem_lt hn, ?_⟩
  intro n hn n' hn' hm hk
  exact testMem_injective hn hn' hm hk

theorem FourByFour.testMem_iff (h : FourByFour cfg) :
    (∃ t, initPodX4Y4X16TestMem cfg newTables = .ok t ∧ TableLaw cfg t) ↔
      cfg.memsys.dramChannels = 32 ∧ tileBitsX cfg = 4 ∧ Placed cfg := by
  have hrow : (2 * (cfg.pods.x / 2)).toUInt64 = 4 := by
    rw [h.podsX]
    rfl
  simp only [initPodX4Y4X16TestMem, hrow, bind_eq_ok]
  constructor
  · rintro ⟨t, ⟨-, -, hrun⟩, hlaw⟩
    exact h.testMem_needs hrun hlaw
  · rintro ⟨hc, hbits, hp⟩
    have hdiv : divLong (numCaches cfg).toUInt64 cfg.memsys.dramChannels.toUInt64 =
        .ok ((numCaches cfg).toUInt64 / cfg.memsys.dramChannels.toUInt64) := by
      refine if_neg fun hz => ?_
      rw [hc] at hz
      exact absurd hz (by decide)
    obtain ⟨t, hrun, hlaw⟩ := h.testMem_law hc hbits hp
    exact ⟨t, ⟨_, hdiv, hrun⟩, hlaw⟩

end TestMem

section X1Y1

variable {cfg : Config}

structure OneByOne (cfg : Config) : Prop where
  width : cfg.podShape.x = 16
  height : cfg.podShape.y = 8
  podsX : cfg.pods.x = 1
  podsY : cfg.pods.y = 1

theorem OneByOne.special (h : OneByOne cfg) : Special cfg :=
  ⟨h.width, h.height, Or.inr ⟨h.podsX, h.podsY⟩⟩

theorem OneByOne.numCaches_toNat (h : OneByOne cfg) : (numCaches cfg).toNat = 32 := by
  rw [h.special.numCaches_toNat, h.podsX]
  rfl

theorem OneByOne.isPod_iff (h : OneByOne cfg) {p : Coord} : IsPod cfg p ↔ p = ⟨0, 0⟩ := by
  rw [IsPod, h.podsX, h.podsY, UInt32.lt_iff_toNat_lt, UInt32.lt_iff_toNat_lt]
  constructor
  · rintro ⟨hx, hy⟩
    simp only [UInt32.reduceToNat] at hx hy
    refine Coordinate.coord_eq ?_ ?_ <;> simp only [UInt32.reduceToNat] <;> omega
  · rintro rfl
    decide

theorem OneByOne.slot_id (h : OneByOne cfg) (s : Slot cfg) : s.id = s.row * 16 + s.i := by
  rw [Slot.id, idOf, h.isPod_iff.mp s.isPod, h.width]
  simp

theorem OneByOne.halfEntries_eq (h : OneByOne cfg) (hr : RowsPlaced cfg)
    (hb : tileBitsY cfg = 3) (s : Slot cfg) (id : UInt32) :
    ∃ m b, halfEntries cfg s.p s.co id = .ok (m, b) ∧ m.toNat = s.id % 16 / 8 ∧
      b.toNat = s.id / 16 * 8 + s.id % 8 := by
  obtain ⟨-, -, hrow, hi⟩ := h.special.slot_lt s
  obtain ⟨hn, hs, -⟩ := hr.cache_class (by omega) s.isPod (i := s.i) s.row_lt
  have hx : s.co.x - (podVcoreOrigin cfg s.p).x = UInt32.ofNat s.i := by
    rw [Slot.co, cache, UInt32.add_comm, UInt32.add_sub_cancel]
  have hpid : ∃ pid, podDramId cfg s.co = .ok pid := by
    rw [podDramId, Slot.co, hn, hs]
    rcases (by omega : s.row = 0 ∨ s.row = 1) with h0 | h1
    · rw [h0]
      exact ⟨_, rfl⟩
    · rw [h1]
      exact ⟨_, rfl⟩
  obtain ⟨pid, hpid⟩ := hpid
  have hvalues : ∀ row < 2, ∀ i < 16,
      (if decide (UInt32.ofNat i ≥ 16 / 2) = true then (1 : UInt64) else 0).toNat = i / 8 ∧
      (if decide (UInt32.ofNat i ≥ 16 / 2) = true then
        if decide (row = 0) = true then UInt32.ofNat i - 16 / 2 else UInt32.ofNat i
      else if decide (row = 0) = true then UInt32.ofNat i
      else UInt32.ofNat i + 16 / 2).toUInt64.toNat = row * 8 + i % 8 := by decide
  obtain ⟨hm, hk⟩ := hvalues _ hrow _ hi
  refine ⟨_, _, ?_, hm.trans ?_, hk.trans ?_⟩
  · simp only [halfEntries, hpid, hx, h.width, bind, Except.bind, pure, Except.pure]
    rw [Slot.co, hn]
  · rw [h.slot_id]
    omega
  · rw [h.slot_id]
    omega

theorem OneByOne.half_iff (h : OneByOne cfg) :
    (∃ t, initPodX1Y1X16Hbm cfg newTables = .ok t ∧ TableLaw cfg t) ↔
      cfg.memsys.dramChannels = 2 ∧ Placed cfg := by
  have hpod : IsPod cfg ⟨0, 0⟩ := h.isPod_iff.mpr rfl
  have hfilled : ∀ t, Placed cfg → initPodX1Y1X16Hbm cfg newTables = .ok t →
      Filled cfg t (fun n => n % 16 / 8) fun n => n / 16 * 8 + n % 8 := by
    intro t hp hrun
    have hb := h.special.tileBitsY_eq hp
    have hall := (mapPod_keeps hp (by omega) h.special.cacheCount_lt hpod hrun).2
    refine filled_of_holds h.special (fun s => hall s (h.isPod_iff.mp s.isPod)) ?_
    intro s id m b _ he
    obtain ⟨m', b', he', hm, hk⟩ := h.halfEntries_eq hp.toRowsPlaced hb s id
    rw [he'] at he
    cases he
    exact ⟨hm, hk⟩
  constructor
  · rintro ⟨t, hrun, hlaw⟩
    obtain ⟨-, hp⟩ := h.special.placed fun p hp => by
      rw [h.isPod_iff.mp hp]
      exact mapPod_ids hrun
    rw [(hfilled t hp hrun).tableLaw_iff, h.numCaches_toNat] at hlaw
    obtain ⟨hm, hk⟩ := hlaw.1 31 (by decide)
    refine ⟨?_, hp⟩
    rw [← UInt32.toNat_inj]
    simp only [UInt32.reduceToNat]
    by_contra hne
    have hle := Nat.div_le_div_left (a := 32) (by omega : 3 ≤ cfg.memsys.dramChannels.toNat)
      (by decide)
    omega
  · rintro ⟨hc, hp⟩
    have hb := h.special.tileBitsY_eq hp
    obtain ⟨t, hrun⟩ := mapPod_total (halfEntries cfg) hp (by omega)
      h.special.cacheCount_lt (fun s id _ => by
        obtain ⟨m, b, he, -⟩ := h.halfEntries_eq hp.toRowsPlaced hb s id
        exact ⟨m, b, he⟩) hpod newTables
    refine ⟨t, hrun, ?_⟩
    rw [(hfilled t hp hrun).tableLaw_iff, h.numCaches_toNat, hc]
    refine ⟨fun n hn => ⟨?_, ?_⟩, fun n hn n' hn' hm hk => ?_⟩
    · simp only [UInt32.reduceToNat]
      omega
    · simp only [UInt32.reduceToNat]
      omega
    · omega

end X1Y1

/-- The machines of 16 by 8 pods whose arrangement and channels are those of a builder, with a
tile field of the pods' size, and those on which initialisation turns DMA off. -/
def Supported (cfg : Config) : Prop :=
  cfg.podShape = ⟨16, 8⟩ ∧
  (cfg.memsys.id = .hbm2 ∧ cfg.pods = ⟨4, 4⟩ ∧ cfg.memsys.dramChannels = 32 ∧ Placed cfg ∨
    cfg.memsys.id = .hbm2 ∧ cfg.pods = ⟨1, 1⟩ ∧ cfg.memsys.dramChannels = 2 ∧ Placed cfg ∨
    cfg.memsys.id = .testmem ∧ cfg.pods = ⟨4, 4⟩ ∧ cfg.memsys.dramChannels = 32 ∧
      tileBitsX cfg = 4 ∧ Placed cfg ∨
    cfg.memsys.id = .testmem ∧ cfg.pods ≠ ⟨4, 4⟩)

theorem initDefault_undefined (cfg : Config) (t : Tables) :
    ∀ t', initDefault cfg t ≠ .ok t' := by
  intro t' h
  rw [initDefault, bind_eq_ok] at h
  obtain ⟨u, -, h⟩ := h
  cases h

/-- A builder's result is the initialisation's. -/
theorem builder_iff {cfg : Config} (hdma : cfg.memsys.featureDma = true)
    (builder : Except Errno Tables)
    (h : dmaInit cfg = do return (cfg, ← builder)) :
    InitLaw cfg ↔ ∃ t, builder = .ok t ∧ TableLaw cfg t := by
  rw [InitLaw, h]
  constructor
  · rintro ⟨cfg', t, hrun, hlaw⟩
    rw [bind_eq_ok] at hrun
    obtain ⟨t', hrun, he⟩ := hrun
    cases he
    exact ⟨t, hrun, hlaw hdma⟩
  · rintro ⟨t, hrun, hlaw⟩
    refine ⟨cfg, t, ?_, fun _ => hlaw⟩
    rw [hrun]
    rfl

theorem coord_iff {co : Coord} {x y : UInt32} : co = ⟨x, y⟩ ↔ co.x = x ∧ co.y = y := by
  cases co
  simp

theorem initLaw_hbm {cfg : Config} (hacc : Accepted cfg) (hdma : cfg.memsys.featureDma = true)
    (hid : cfg.memsys.id = .hbm2) (hx : cfg.podShape.x = 16) (hy : cfg.podShape.y = 8) :
    InitLaw cfg ↔ Supported cfg := by
  have hchannels := hacc.dramChannels
  rw [hid, memsysCheckDramChannels, Configuration.check_eq_ok, Bool.and_eq_true,
    decide_eq_true_eq, decide_eq_true_eq, gt_iff_lt, UInt32.lt_iff_toNat_lt,
    UInt32.le_iff_toNat_le] at hchannels
  by_cases h4 : cfg.pods.x = 4 ∧ cfg.pods.y = 4
  · have hf : FourByFour cfg := ⟨hx, hy, h4.1, h4.2⟩
    rw [builder_iff hdma (initPodX4Y4X16Hbm cfg newTables)
      (by simp [dmaInit, hid, hx, hy, h4]), hf.hbm_iff hchannels.1 hchannels.2]
    simp [Supported, coord_iff, hid, hx, hy, h4]
  · by_cases h1 : cfg.pods.x = 1 ∧ cfg.pods.y = 1
    · have ho : OneByOne cfg := ⟨hx, hy, h1.1, h1.2⟩
      rw [builder_iff hdma (initPodX1Y1X16Hbm cfg newTables)
        (by simp [dmaInit, hid, hx, hy, h1]), ho.half_iff]
      simp [Supported, coord_iff, hid, hx, hy, h1]
    · have hrun : dmaInit cfg = .error .undefined := by simp [dmaInit, hid, hx, hy, h4, h1]
      simp [InitLaw, hrun, Supported, coord_iff, hid, h4, h1]

theorem initLaw_testMem {cfg : Config} (hdma : cfg.memsys.featureDma = true)
    (hid : cfg.memsys.id = .testmem) (hx : cfg.podShape.x = 16) (hy : cfg.podShape.y = 8) :
    InitLaw cfg ↔ Supported cfg := by
  by_cases h4 : cfg.pods.x = 4 ∧ cfg.pods.y = 4
  · have hf : FourByFour cfg := ⟨hx, hy, h4.1, h4.2⟩
    rw [builder_iff hdma (initPodX4Y4X16TestMem cfg newTables)
      (by simp [dmaInit, hid, hx, hy, h4]), hf.testMem_iff]
    simp [Supported, coord_iff, hid, hx, hy, h4]
  · refine iff_of_true ⟨{ cfg with memsys := { cfg.memsys with featureDma := false } },
      newTables, ?_, fun h => absurd h (by simp)⟩ ?_
    · simp [dmaInit, hid, hx, hy, h4, pure, Except.pure]
    · simp [Supported, coord_iff, hid, hx, hy, h4]

theorem dmaInit_iff {cfg : Config} (hacc : Accepted cfg)
    (hdma : cfg.memsys.featureDma = true) : InitLaw cfg ↔ Supported cfg := by
  by_cases hshape : cfg.podShape.x = 16 ∧ cfg.podShape.y = 8
  · by_cases hh : cfg.memsys.id = .hbm2
    · exact initLaw_hbm hacc hdma hh hshape.1 hshape.2
    · by_cases ht : cfg.memsys.id = .testmem
      · exact initLaw_testMem hdma ht hshape.1 hshape.2
      · rw [builder_iff hdma (initDefault cfg newTables)
          (by simp [dmaInit, hh, ht])]
        refine iff_of_false ?_ (by simp [Supported, hh, ht])
        rintro ⟨t, hrun, -⟩
        exact initDefault_undefined _ _ _ hrun
  · rw [builder_iff hdma (initDefault cfg newTables) (by simp [dmaInit, hshape])]
    refine iff_of_false ?_ (by simp [Supported, coord_iff, hshape])
    rintro ⟨t, hrun, -⟩
    exact initDefault_undefined _ _ _ hrun

def sixteenPods : Machine := { podsX := 4, podsY := 4, dramChannels := 32 }

theorem dmaInit_x4y4 : InitLaw sixteenPods.config := by
  have hplaced : Placed sixteenPods.config :=
    ⟨⟨by decide, forall_pod (by decide), forall_pod (by decide)⟩, by decide,
      forall_pod (by decide)⟩
  exact (dmaInit_iff (Machine.config_accepted _ (by decide)) rfl).mpr
    ⟨rfl, Or.inl ⟨rfl, rfl, rfl, hplaced⟩⟩

def halfChannels : Machine := { podsX := 4, podsY := 4, dramChannels := 16 }

def halfPod : Machine := { podTilesY := 4, nocCoordYWidth := 6 }

/-- Four pods and a pod of half the height find no return; on half the channels memory indices
pass the number of channels. -/
theorem dmaInit_fails :
    (Accepted fourPods.config ∧ fourPods.config.memsys.featureDma = true ∧
      ¬ InitLaw fourPods.config) ∧
    (Accepted halfPod.config ∧ halfPod.config.memsys.featureDma = true ∧
      ¬ InitLaw halfPod.config) ∧
    Accepted halfChannels.config ∧ halfChannels.config.memsys.featureDma = true ∧
      ¬ InitLaw halfChannels.config := by
  refine ⟨⟨Machine.config_accepted _ (by decide), rfl, ?_⟩,
    ⟨Machine.config_accepted _ (by decide), rfl, ?_⟩,
    Machine.config_accepted _ (by decide), rfl, ?_⟩
  · rintro ⟨cfg', t, hrun, -⟩
    have hnone : dmaInit fourPods.config = .error .undefined := rfl
    rw [hnone] at hrun
    cases hrun
  · rw [builder_iff rfl (initDefault halfPod.config newTables) rfl]
    rintro ⟨t, hrun, -⟩
    exact initDefault_undefined _ _ _ hrun
  · have hf : FourByFour halfChannels.config := ⟨rfl, rfl, rfl, rfl⟩
    rw [builder_iff rfl (initPodX4Y4X16Hbm halfChannels.config newTables) rfl,
      hf.hbm_iff (by decide) (by decide)]
    rintro ⟨hc, -⟩
    exact absurd hc (by decide)

end DmaTables
