import ManycoreRuntime.DramTranslation
import ManycoreRuntime.MemsysMap
import ManycoreRuntime.Vcache

/-! # What an accepted configuration promises

The decoder checks each word of the ROM by itself. The widths, shifts, divisors, fields and
coordinates that the runtime derives combine several words; they are what they should be if and
only if the words meet conditions that the decoder does not check. -/
namespace ConfigSound

open BitField (clog2)
open Configuration
open ConfigPod hiding podCoordWidth
open Coordinate (Coord)
open EvaToNpa
open Fallible (bind_eq_ok)
open Machines (Machine)
open MemsysMap
open PodGeometry (cache)
open Vcache

section Law

variable (cfg : Config)

def shifts (mc : Manycore) : List UInt32 :=
  [30 - mc.config.networkBitwidthAddr, mc.config.nocCoordWidth.x, mc.config.nocCoordWidth.y,
    (tileCoordWidth mc.config).x, (tileCoordWidth mc.config).y, vcacheSetShift mc,
    vcacheWayShift mc, defaultGetDramStripeSizeLog mc,
    defaultGetDramStripeSizeLog mc + defaultGetXDimlog mc.config,
    defaultGetDramStripeSizeLog mc + defaultGetXDimlog mc.config + 1, defaultGetDramBitwidth mc]

def logArguments : List UInt32 := [cfg.podShape.x, cfg.vcacheStripeSize, cfg.vcacheSize]

/-- The shifts of the map to physical addresses are of an `int` and of a word of 64 bits. -/
structure ShiftsFit : Prop where
  words : ∀ dramEnabled, ∀ n ∈ shifts ⟨cfg, dramEnabled⟩, n.toNat < 32
  logs : ∀ n ∈ logArguments cfg, n ≠ 0
  fields : Mapped cfg.memsys →
    ∀ f ∈ fields cfg.memsys, f.bits.toNat < 32 ∧ f.bitidx.toNat < 64

def divisors : List UInt32 :=
  [cfg.vcacheBlockSize, cfg.podShape.x, cfg.podShape.x * 2, cfg.podShape.y, cfg.pods.x,
    cfg.pods.y, cfg.memsys.dramChannels]

def IsVcore (p c : Coord) : Prop :=
  ∃ i < cfg.podShape.x.toNat, ∃ j < cfg.podShape.y.toNat,
    c = ⟨(podVcoreOrigin cfg p).x + UInt32.ofNat i, (podVcoreOrigin cfg p).y + UInt32.ofNat j⟩

def IsCache (p c : Coord) : Prop :=
  ∃ i < cfg.podShape.x.toNat, c = cache cfg p 0 i ∨ c = cache cfg p 1 i

structure Reachable (c : Coord) : Prop where
  x : c.x.toNat < cfg.dimensionNetwork.x.toNat ∧ c.x.toNat < 2 ^ 8
  y : c.y.toNat < cfg.dimensionNetwork.y.toNat ∧ c.y.toNat < 2 ^ 8

structure ConfigLaw : Prop where
  widths : 0 ≤ (cfg.nocCoordWidth.x.toNat : ℤ) - cfg.podCoordWidth.x.toNat ∧
    0 ≤ (cfg.nocCoordWidth.y.toNat : ℤ) - cfg.podCoordWidth.y.toNat
  shifts : ShiftsFit cfg
  divisors : ∀ d ∈ divisors cfg, d ≠ 0
  bitfields : (fields cfg.memsys).Pairwise fun f g => (bitsOf f).Disjoint (bitsOf g)
  coordinates : ∀ p, IsPod cfg p → ∀ c, IsVcore cfg p c ∨ IsCache cfg p c → Reachable cfg c

end Law

def Apart (f g : DramPaBitfield) : Prop :=
  f.bits.toNat = 0 ∨ g.bits.toNat = 0 ∨ f.bitidx.toNat + f.bits.toNat ≤ g.bitidx.toNat ∨
    g.bitidx.toNat + g.bits.toNat ≤ f.bitidx.toNat

instance (f g : DramPaBitfield) : Decidable (Apart f g) := inferInstanceAs (Decidable (_ ∨ _))

def romFields (rom : MemsysRomIdx → UInt32) : List DramPaBitfield :=
  [⟨rom .dramByteOffBits, rom .dramByteOffBitidx⟩, ⟨rom .dramCoBits, rom .dramCoBitidx⟩,
    ⟨rom .dramBaBits, rom .dramBaBitidx⟩, ⟨rom .dramBgBits, rom .dramBgBitidx⟩,
    ⟨rom .dramRoBits, rom .dramRoBitidx⟩]

/-- What the words of the ROM have to meet together. -/
structure RomCondition (rom : Rom) : Prop where
  nocX : 3 ≤ (rom.config .nocCoordXWidth).toNat
  nocY : 4 ≤ (rom.config .nocCoordYWidth).toNat
  pods : 0 < (rom.config .dimPodsX).toNat ∧ 0 < (rom.config .dimPodsY).toNat
  shape : 0 < (rom.config .podDimX).toNat ∧ 0 < (rom.config .podDimY).toNat
  channels : rom.memsys .dramChannels ≠ 0
  block : rom.config .vcacheBlockWords * 4 ≠ 0
  stripe : rom.config .vcacheStripeWords * 4 ≠ 0
  tags : popcount (rom.config .vcacheSets - 1) +
    popcount (rom.config .vcacheBlockWords * 4 - 1) < 32
  stripes : (clog2 (rom.config .vcacheStripeWords * 4)).toNat +
    (clog2 (rom.config .podDimX)).toNat < 31
  size : 0 < (rom.config .vcacheBlockWords * 4 * rom.config .vcacheSets *
      rom.config .vcacheWays).toNat ∧
    (rom.config .vcacheBlockWords * 4 * rom.config .vcacheSets *
      rom.config .vcacheWays).toNat ≤ 2 ^ 31
  fields : (romFields rom.memsys).Pairwise Apart
  columns : 2 ^ ((rom.config .nocCoordXWidth).toNat - 3) * (rom.config .dimPodsX).toNat +
    (rom.config .podDimX).toNat ≤ min (2 ^ (rom.config .nocCoordXWidth).toNat) (2 ^ 8)
  rows : 2 ^ ((rom.config .nocCoordYWidth).toNat - 4) * (2 * (rom.config .dimPodsY).toNat - 1) +
    (rom.config .podDimY).toNat < min (2 ^ (rom.config .nocCoordYWidth).toNat) (2 ^ 8)

structure Decoded (rom : Rom) (cfg : Config) : Prop where
  nocX : cfg.nocCoordWidth.x = rom.config .nocCoordXWidth
  nocY : cfg.nocCoordWidth.y = rom.config .nocCoordYWidth
  podCoordWidth : cfg.podCoordWidth = ⟨3, 4⟩
  podsX : cfg.pods.x = rom.config .dimPodsX
  podsY : cfg.pods.y = rom.config .dimPodsY
  shapeX : cfg.podShape.x = rom.config .podDimX
  shapeY : cfg.podShape.y = rom.config .podDimY
  blockWords : cfg.vcacheBlockWords = rom.config .vcacheBlockWords
  stripeWords : cfg.vcacheStripeWords = rom.config .vcacheStripeWords
  sets : cfg.vcacheSets = rom.config .vcacheSets
  ways : cfg.vcacheWays = rom.config .vcacheWays
  channels : cfg.memsys.dramChannels = rom.memsys .dramChannels
  fields : fields cfg.memsys = romFields rom.memsys
  memsys : ∃ rom, memsysInit rom = .ok cfg.memsys
  addr : cfg.networkBitwidthAddr.toNat ≤ 30
  nocX_lt : cfg.nocCoordWidth.x.toNat < 32
  nocY_lt : cfg.nocCoordWidth.y.toNat < 32
  shapeY_le : cfg.podShape.y.toNat ≤ 32

theorem decoded_of_init {rom : Rom} {cfg : Config} (h : configInit rom = .ok cfg) :
    Decoded rom cfg := by
  simp only [configInit, bind_eq_ok, check_eq_ok, Bool.and_eq_true, decide_eq_true_eq, ge_iff_le,
    UInt32.le_iff_toNat_le, UInt32.lt_iff_toNat_lt, pure, Except.pure, Except.ok.injEq] at h
  obtain ⟨-, -, -, haddr, -, -, -, ⟨-, hy⟩, -, -, -, -, -, ⟨-, hnx⟩, -, ⟨-, hny⟩, -, -, -, -, -, -,
    -, -, memsys, hm, -, -, rfl⟩ := h
  have hinit := hm
  simp only [memsysInit, bind_eq_ok, pure, Except.pure, Except.ok.injEq] at hm
  obtain ⟨id, -, features, -, _, -, _, -, _, -, rfl⟩ := hm
  exact ⟨rfl, rfl, rfl, rfl, rfl, rfl, rfl, rfl, rfl, rfl, rfl, rfl, rfl, ⟨_, hinit⟩, haddr, hnx,
    hny, hy⟩

section Parts

variable {rom : Rom} {cfg : Config}

theorem popcount_le (n : UInt32) : popcount n ≤ 32 :=
  le_trans List.countP_le_length (le_of_eq List.length_range)

theorem popcount_toNat (n : UInt32) : (UInt32.ofNat (popcount n)).toNat = popcount n :=
  UInt32.toNat_ofNat_of_lt' (lt_of_le_of_lt (popcount_le n) (by decide))

theorem vcacheSetShift_toNat (mc : Manycore) :
    (vcacheSetShift mc).toNat = popcount (mc.config.vcacheBlockSize - 1) := popcount_toNat _

theorem vcacheWayShift_toNat (mc : Manycore) :
    (vcacheWayShift mc).toNat =
      popcount (mc.config.vcacheSets - 1) + popcount (mc.config.vcacheBlockSize - 1) := by
  have hsets := popcount_le (mc.config.vcacheSets - 1)
  have hblock := popcount_le (mc.config.vcacheBlockSize - 1)
  rw [vcacheWayShift, UInt32.toNat_add, vcacheSetShift_toNat, popcount_toNat]
  omega

theorem clog2_lt_iff (n : UInt32) : (clog2 n).toNat < 32 ↔ n.toNat ≤ 2 ^ 31 := by
  have hword : Nat.clog 2 n.toNat ≤ 32 := Nat.clog_le_of_le_pow n.toNat_lt.le
  rw [clog2, UInt32.toNat_ofNat_of_lt' (lt_of_le_of_lt hword (by decide)), Nat.lt_succ_iff]
  exact Nat.clog_le_iff_le_pow (by decide)

theorem tileCoordWidth_toNat (hx : 3 ≤ cfg.nocCoordWidth.x.toNat)
    (hy : 4 ≤ cfg.nocCoordWidth.y.toNat) :
    (tileCoordWidth cfg).x.toNat = cfg.nocCoordWidth.x.toNat - 3 ∧
      (tileCoordWidth cfg).y.toNat = cfg.nocCoordWidth.y.toNat - 4 := by
  constructor
  · exact UInt32.toNat_sub_of_le _ _ (UInt32.le_iff_toNat_le.mpr hx)
  · exact UInt32.toNat_sub_of_le _ _ (UInt32.le_iff_toNat_le.mpr hy)

theorem dramBitwidth_enabled (h : Decoded rom cfg) :
    (defaultGetDramBitwidth ⟨cfg, true⟩).toNat < 32 := by
  have haddr := h.addr
  show (cfg.networkBitwidthAddr - 1 + 2).toNat < 32
  rw [UInt32.toNat_add, UInt32.toNat_sub]
  simp only [UInt32.reduceToNat]
  omega

/-- The shifts whose amounts the decoder does not bound. -/
structure ShiftCondition (cfg : Config) : Prop where
  columns : cfg.podShape.x ≠ 0
  stripe : cfg.vcacheStripeSize ≠ 0
  size : cfg.vcacheSize ≠ 0 ∧ cfg.vcacheSize.toNat ≤ 2 ^ 31
  tags : popcount (cfg.vcacheSets - 1) + popcount (cfg.vcacheBlockSize - 1) < 32
  stripes : (clog2 cfg.vcacheStripeSize).toNat + (clog2 cfg.podShape.x).toNat < 31

theorem shiftsFit_iff (h : Decoded rom cfg) (hx : 3 ≤ cfg.nocCoordWidth.x.toNat)
    (hy : 4 ≤ cfg.nocCoordWidth.y.toNat) : ShiftsFit cfg ↔ ShiftCondition cfg := by
  have hadd := fun dramEnabled =>
    (DramTranslation.fields_bits ⟨cfg, dramEnabled⟩).shift_toNat
  have hsucc := fun dramEnabled =>
    (DramTranslation.fields_bits ⟨cfg, dramEnabled⟩).shift_succ_toNat
  have hbits : (defaultGetDramBitwidth ⟨cfg, false⟩).toNat < 32 ↔ cfg.vcacheSize.toNat ≤ 2 ^ 31 :=
    clog2_lt_iff _
  constructor
  · rintro ⟨hwords, hlogs, -⟩
    have hway := hwords true (vcacheWayShift ⟨cfg, true⟩) (by simp [shifts])
    have hstripes := hwords true (defaultGetDramStripeSizeLog ⟨cfg, true⟩ +
      defaultGetXDimlog cfg + 1) (by simp [shifts])
    have hsize := hwords false (defaultGetDramBitwidth ⟨cfg, false⟩) (by simp [shifts])
    rw [vcacheWayShift_toNat] at hway
    rw [hsucc true] at hstripes
    simp only [logArguments, List.forall_mem_cons, List.not_mem_nil, IsEmpty.forall_iff,
      implies_true, and_true] at hlogs
    obtain ⟨hcolumns, hstripe, hsize'⟩ := hlogs
    exact ⟨hcolumns, hstripe, ⟨hsize', hbits.mp hsize⟩, hway, Nat.lt_of_succ_lt_succ hstripes⟩
  · rintro ⟨hcolumns, hstripe, ⟨hsize, hsize'⟩, htags, hstripes⟩
    obtain ⟨htx, hty⟩ := tileCoordWidth_toNat hx hy
    have hnx := h.nocX_lt
    have hny := h.nocY_lt
    refine ⟨fun dramEnabled => ?_, ?_, fun hid f hf => ?_⟩
    · have hlog : (defaultGetDramStripeSizeLog ⟨cfg, dramEnabled⟩).toNat +
          (defaultGetXDimlog cfg).toNat < 31 := hstripes
      have hwidth : (defaultGetDramBitwidth ⟨cfg, dramEnabled⟩).toNat < 32 := by
        cases dramEnabled with
        | true => exact dramBitwidth_enabled h
        | false => exact hbits.mpr hsize'
      have haddr : (30 - cfg.networkBitwidthAddr).toNat < 32 := by
        rw [UInt32.toNat_sub_of_le _ _ (UInt32.le_iff_toNat_le.mpr h.addr)]
        simp only [UInt32.reduceToNat]
        omega
      simp only [shifts, List.forall_mem_cons, List.not_mem_nil, IsEmpty.forall_iff, implies_true,
        and_true, vcacheSetShift_toNat, vcacheWayShift_toNat, hadd dramEnabled,
        hsucc dramEnabled]
      omega
    · simp only [logArguments, List.forall_mem_cons, List.not_mem_nil, IsEmpty.forall_iff,
        implies_true, and_true]
      exact ⟨hcolumns, hstripe, hsize⟩
    · have hnarrow := (narrow_of_accepted h.memsys hid).bits f hf
      have hidx := (dramsim3Layout_of_accepted h.memsys hid).bitidx f hf
      omega

theorem disjoint_bitsOf_iff {f g : DramPaBitfield} :
    (bitsOf f).Disjoint (bitsOf g) ↔ Apart f g := by
  constructor
  · intro h
    by_contra hmeet
    rw [Apart] at hmeet
    apply @h (max f.bitidx.toNat g.bitidx.toNat)
    · rw [mem_bitsOf]
      omega
    · rw [mem_bitsOf]
      omega
  · rintro (hf | hg | h)
    · intro i hi
      rw [mem_bitsOf] at hi
      omega
    · intro i _ hi
      rw [mem_bitsOf] at hi
      omega
    · exact disjoint_bitsOf h

/-- Pods at every `k`-th multiple of a power of two lie below a bound if and only if the last one
does. The bound is no more than eight pods' room, so no pod comes to wrap around. -/
theorem inside_iff {t k pods n bound room : ℕ} (hroom : room = 2 ^ t * (8 * k))
    (hword : room ≤ 2 ^ 31) (hbound : bound ≤ room) (hpods : 0 < pods) (hn : 0 < n) :
    (∀ p < pods, ∀ i < n, (2 ^ t * (1 + k * p) + i) % 2 ^ 32 < bound) ↔
      2 ^ t * (1 + k * (pods - 1)) + n ≤ bound := by
  have hmono : ∀ {a b : ℕ}, a ≤ b → 2 ^ t * (1 + k * a) ≤ 2 ^ t * (1 + k * b) := fun hab =>
    Nat.mul_le_mul_left _ (Nat.add_le_add_left (Nat.mul_le_mul_left k hab) 1)
  constructor
  · intro h
    have hk : 1 ≤ k := by
      by_contra hk
      have hzero : k = 0 := by omega
      have hfirst := h 0 hpods 0 hn
      rw [hzero, Nat.mul_zero] at hroom
      omega
    have htile : 2 ^ t * 8 ≤ room := hroom ▸ Nat.mul_le_mul_left _ (by omega)
    have hninth : 2 ^ t * (1 + k * 8) = 2 ^ t + room := by
      rw [hroom, Nat.mul_add, Nat.mul_one, Nat.mul_comm k]
    have heighth : 2 ^ t * (1 + k * 7) ≤ room := by
      rw [hroom]
      exact Nat.mul_le_mul_left _ (by omega)
    have hfew : pods ≤ 8 := by
      by_contra hmany
      have hlate := h 8 (not_le.mp hmany) 0 hn
      rw [hninth] at hlate
      omega
    have hlast := le_trans (hmono (show pods - 1 ≤ 7 by omega)) heighth
    by_contra hover
    by_cases hbegin : 2 ^ t * (1 + k * (pods - 1)) < bound
    · have hmid := h (pods - 1) (by omega) (bound - 2 ^ t * (1 + k * (pods - 1))) (by omega)
      omega
    · have hfirst := h (pods - 1) (by omega) 0 hn
      omega
  · intro h p hp i hi
    have hle := hmono (show p ≤ pods - 1 by omega)
    omega

def Below (width c : ℕ) : Prop := c < min (2 ^ width) (2 ^ 8)

theorem reachable_iff (h : Decoded rom cfg) (c : Coord) :
    Reachable cfg c ↔ Below cfg.nocCoordWidth.x.toNat c.x.toNat ∧
      Below cfg.nocCoordWidth.y.toNat c.y.toNat := by
  have hx : cfg.dimensionNetwork.x.toNat = 2 ^ cfg.nocCoordWidth.x.toNat := by
    rw [← Nat.mod_eq_of_lt h.nocX_lt]
    exact one_shiftLeft_toNat _
  have hy : cfg.dimensionNetwork.y.toNat = 2 ^ cfg.nocCoordWidth.y.toNat := by
    rw [← Nat.mod_eq_of_lt h.nocY_lt]
    exact one_shiftLeft_toNat _
  simp only [Below, lt_min_iff, ← hx, ← hy]
  exact ⟨fun hr => ⟨hr.x, hr.y⟩, fun hr => ⟨hr.1, hr.2⟩⟩

theorem coordinates_iff_below (h : Decoded rom cfg) (hx : 0 < cfg.podShape.x.toNat)
    (hy : 0 < cfg.podShape.y.toNat) (p : Coord) :
    (∀ c, IsVcore cfg p c ∨ IsCache cfg p c → Reachable cfg c) ↔
      (∀ i < cfg.podShape.x.toNat, Below cfg.nocCoordWidth.x.toNat
        (((podVcoreOrigin cfg p).x.toNat + i) % 2 ^ 32)) ∧
      ∀ j < cfg.podShape.y.toNat + 1, Below cfg.nocCoordWidth.y.toNat
        (((podVcoreOrigin cfg p).y.toNat + j) % 2 ^ 32) := by
  have hword := cfg.podShape.x.toNat_lt
  have hheight := h.shapeY_le
  have hcolumn : ∀ i < cfg.podShape.x.toNat, ((podVcoreOrigin cfg p).x + UInt32.ofNat i).toNat =
      ((podVcoreOrigin cfg p).x.toNat + i) % 2 ^ 32 := by
    intro i hi
    rw [UInt32.toNat_add, UInt32.toNat_ofNat_of_lt' (lt_trans hi hword)]
  have hrow : ∀ j < cfg.podShape.y.toNat, ((podVcoreOrigin cfg p).y + UInt32.ofNat j).toNat =
      ((podVcoreOrigin cfg p).y.toNat + j) % 2 ^ 32 := by
    intro j hj
    rw [UInt32.toNat_add, UInt32.toNat_ofNat_of_lt' (by simp only [UInt32.size]; omega)]
  have hsouth : (cache cfg p 1 0).y.toNat =
      ((podVcoreOrigin cfg p).y.toNat + cfg.podShape.y.toNat) % 2 ^ 32 := by
    show (podDramSouthY cfg p).toNat = _
    rw [podDramSouthY, UInt32.toNat_add]
  constructor
  · intro hall
    refine ⟨fun i hi => ?_, fun j hj => ?_⟩
    · have hcore := ((reachable_iff h _).mp (hall _ (.inl ⟨i, hi, 0, hy, rfl⟩))).1
      rwa [hcolumn i hi] at hcore
    · rcases Nat.lt_succ_iff_lt_or_eq.mp hj with hj | rfl
      · have hcore := ((reachable_iff h _).mp (hall _ (.inl ⟨0, hx, j, hj, rfl⟩))).2
        rwa [hrow j hj] at hcore
      · have hcache := ((reachable_iff h _).mp (hall _ (.inr ⟨0, hx, .inr rfl⟩))).2
        rwa [hsouth] at hcache
  · rintro ⟨hcols, hrows⟩ c hc
    rw [reachable_iff h]
    rcases hc with ⟨i, hi, j, hj, rfl⟩ | ⟨i, hi, rfl | rfl⟩
    · have hx := hcols i hi
      have hy := hrows j (Nat.lt_succ_of_lt hj)
      rw [← hcolumn i hi] at hx
      rw [← hrow j hj] at hy
      exact ⟨hx, hy⟩
    · have hx := hcols i hi
      rw [← hcolumn i hi] at hx
      refine ⟨hx, ?_⟩
      -- the row north of the pod is below the pod's first row
      have horigin := hrows 0 (Nat.succ_pos _)
      have hlt := (podVcoreOrigin cfg p).y.toNat_lt
      show Below _ (podDramNorthY cfg p).toNat
      rw [PodGeometry.northY_toNat]
      rw [Below] at horigin ⊢
      omega
    · have hx := hcols i hi
      rw [← hcolumn i hi] at hx
      refine ⟨hx, ?_⟩
      have hy := hrows cfg.podShape.y.toNat (Nat.lt_succ_self _)
      rw [← hsouth] at hy
      exact hy

/-- The last column and the last row of caches are in the network and fit a packet. -/
structure CoordinateCondition (cfg : Config) : Prop where
  columns : 2 ^ (cfg.nocCoordWidth.x.toNat - 3) * cfg.pods.x.toNat + cfg.podShape.x.toNat ≤
    min (2 ^ cfg.nocCoordWidth.x.toNat) (2 ^ 8)
  rows : 2 ^ (cfg.nocCoordWidth.y.toNat - 4) * (2 * cfg.pods.y.toNat - 1) +
    cfg.podShape.y.toNat < min (2 ^ cfg.nocCoordWidth.y.toNat) (2 ^ 8)

theorem tileBits_eq (h : Decoded rom cfg) (hx : 3 ≤ cfg.nocCoordWidth.x.toNat)
    (hy : 4 ≤ cfg.nocCoordWidth.y.toNat) :
    tileBitsX cfg = cfg.nocCoordWidth.x.toNat - 3 ∧
      tileBitsY cfg = cfg.nocCoordWidth.y.toNat - 4 := by
  obtain ⟨htx, hty⟩ := tileCoordWidth_toNat hx hy
  have hnx := h.nocX_lt
  have hny := h.nocY_lt
  rw [tileBitsX, tileBitsY, htx, hty]
  omega

theorem isPod_ofNat {x y : ℕ} (hx : x < cfg.pods.x.toNat) (hy : y < cfg.pods.y.toNat) :
    IsPod cfg ⟨UInt32.ofNat x, UInt32.ofNat y⟩ := by
  constructor
  · rw [UInt32.lt_iff_toNat_lt, UInt32.toNat_ofNat_of_lt' (lt_trans hx cfg.pods.x.toNat_lt)]
    exact hx
  · rw [UInt32.lt_iff_toNat_lt, UInt32.toNat_ofNat_of_lt' (lt_trans hy cfg.pods.y.toNat_lt)]
    exact hy

theorem coordinates_iff (h : Decoded rom cfg) (hx : 3 ≤ cfg.nocCoordWidth.x.toNat)
    (hy : 4 ≤ cfg.nocCoordWidth.y.toNat) (hpx : 0 < cfg.pods.x.toNat)
    (hpy : 0 < cfg.pods.y.toNat) (hsx : 0 < cfg.podShape.x.toNat)
    (hsy : 0 < cfg.podShape.y.toNat) :
    (∀ p, IsPod cfg p → ∀ c, IsVcore cfg p c ∨ IsCache cfg p c → Reachable cfg c) ↔
      CoordinateCondition cfg := by
  obtain ⟨htx, hty⟩ := tileBits_eq h hx hy
  have hnx := h.nocX_lt
  have hny := h.nocY_lt
  have hpodsX := cfg.pods.x.toNat_lt
  have hpodsY := cfg.pods.y.toNat_lt
  have hroomX : 2 ^ cfg.nocCoordWidth.x.toNat = 2 ^ (cfg.nocCoordWidth.x.toNat - 3) * (8 * 1) := by
    rw [Nat.mul_one, show 8 = 2 ^ 3 from rfl, ← pow_add, Nat.sub_add_cancel hx]
  have hroomY : 2 ^ cfg.nocCoordWidth.y.toNat = 2 ^ (cfg.nocCoordWidth.y.toNat - 4) * (8 * 2) := by
    rw [show 8 * 2 = 2 ^ 4 from rfl, ← pow_add, Nat.sub_add_cancel hy]
  have hwordX : 2 ^ cfg.nocCoordWidth.x.toNat ≤ 2 ^ 31 := Nat.pow_le_pow_right (by omega) (by omega)
  have hwordY : 2 ^ cfg.nocCoordWidth.y.toNat ≤ 2 ^ 31 := Nat.pow_le_pow_right (by omega) (by omega)
  have hcolumns := @inside_iff _ _ _ _ (min (2 ^ cfg.nocCoordWidth.x.toNat) (2 ^ 8)) _ hroomX hwordX
    (min_le_left _ _) hpx hsx
  have hrows := @inside_iff _ _ _ _ (min (2 ^ cfg.nocCoordWidth.y.toNat) (2 ^ 8)) _ hroomY hwordY
    (min_le_left _ _) hpy (Nat.succ_pos cfg.podShape.y.toNat)
  rw [show 1 + 1 * (cfg.pods.x.toNat - 1) = cfg.pods.x.toNat by omega] at hcolumns
  rw [show 1 + 2 * (cfg.pods.y.toNat - 1) = 2 * cfg.pods.y.toNat - 1 by omega] at hrows
  have hbelow : ∀ p : Coord, (∀ c, IsVcore cfg p c ∨ IsCache cfg p c → Reachable cfg c) ↔
      (∀ i < cfg.podShape.x.toNat,
        (2 ^ (cfg.nocCoordWidth.x.toNat - 3) * (1 + 1 * p.x.toNat) + i) % 2 ^ 32 <
          min (2 ^ cfg.nocCoordWidth.x.toNat) (2 ^ 8)) ∧
      ∀ j < cfg.podShape.y.toNat + 1,
        (2 ^ (cfg.nocCoordWidth.y.toNat - 4) * (1 + 2 * p.y.toNat) + j) % 2 ^ 32 <
          min (2 ^ cfg.nocCoordWidth.y.toNat) (2 ^ 8) := by
    intro p
    rw [coordinates_iff_below h hsx hsy]
    simp only [podVcoreOrigin_x_toNat, podVcoreOrigin_y_toNat, htx, hty, Nat.mod_add_mod, Below,
      Nat.one_mul]
  constructor
  · intro hall
    constructor
    · apply hcolumns.mp
      intro p hp i hi
      have hcol := ((hbelow _).mp (hall _ (isPod_ofNat hp hpy))).1 i hi
      rwa [UInt32.toNat_ofNat_of_lt' (lt_trans hp hpodsX)] at hcol
    · apply Nat.lt_of_succ_le
      apply hrows.mp
      intro p hp j hj
      have hrow := ((hbelow _).mp (hall _ (isPod_ofNat hpx hp))).2 j hj
      rwa [UInt32.toNat_ofNat_of_lt' (lt_trans hp hpodsY)] at hrow
  · rintro ⟨hcol, hrow⟩ p ⟨hp, hp'⟩
    rw [UInt32.lt_iff_toNat_lt] at hp hp'
    exact (hbelow p).mpr ⟨hcolumns.mpr hcol _ hp, hrows.mpr (Nat.succ_le_of_lt hrow) _ hp'⟩

theorem widths_iff (h : Decoded rom cfg) :
    (0 ≤ (cfg.nocCoordWidth.x.toNat : ℤ) - cfg.podCoordWidth.x.toNat ∧
      0 ≤ (cfg.nocCoordWidth.y.toNat : ℤ) - cfg.podCoordWidth.y.toNat) ↔
      3 ≤ cfg.nocCoordWidth.x.toNat ∧ 4 ≤ cfg.nocCoordWidth.y.toNat := by
  rw [h.podCoordWidth]
  simp only [UInt32.reduceToNat]
  omega

theorem pos_of_ne_zero {n : UInt32} (h : n ≠ 0) : 0 < n.toNat :=
  Nat.pos_of_ne_zero fun hzero => h (UInt32.toNat_inj.mp hzero)

theorem ne_zero_of_pos {n : UInt32} (h : 0 < n.toNat) : n ≠ 0 := by
  rintro rfl
  exact absurd h (Nat.lt_irrefl 0)

theorem romCondition_of_law (h : Decoded rom cfg) (hlaw : ConfigLaw cfg) : RomCondition rom := by
  obtain ⟨hx, hy⟩ := (widths_iff h).mp hlaw.widths
  have hdivisors := hlaw.divisors
  simp only [divisors, List.forall_mem_cons, List.not_mem_nil, IsEmpty.forall_iff, implies_true,
    and_true] at hdivisors
  obtain ⟨hblock, hsx, -, hsy, hpx, hpy, hchannels⟩ := hdivisors
  obtain ⟨-, hstripe, ⟨hsize, hsize'⟩, htags, hstripes⟩ := (shiftsFit_iff h hx hy).mp hlaw.shifts
  obtain ⟨hcolumns, hrows⟩ := (coordinates_iff h hx hy (pos_of_ne_zero hpx) (pos_of_ne_zero hpy)
    (pos_of_ne_zero hsx) (pos_of_ne_zero hsy)).mp hlaw.coordinates
  have hfields := hlaw.bitfields.imp disjoint_bitsOf_iff.mp
  have hsizePos := pos_of_ne_zero hsize
  simp only [Config.vcacheSize, Config.vcacheBlockSize, Config.vcacheStripeSize] at *
  rw [h.nocX] at hx hcolumns
  rw [h.nocY] at hy hrows
  rw [h.podsX] at hpx hcolumns
  rw [h.podsY] at hpy hrows
  rw [h.shapeX] at hsx hstripes hcolumns
  rw [h.shapeY] at hsy hrows
  rw [h.channels] at hchannels
  rw [h.blockWords] at hblock htags hsizePos hsize'
  rw [h.stripeWords] at hstripe hstripes
  rw [h.sets] at htags hsizePos hsize'
  rw [h.ways] at hsizePos hsize'
  rw [h.fields] at hfields
  exact ⟨hx, hy, ⟨pos_of_ne_zero hpx, pos_of_ne_zero hpy⟩,
    ⟨pos_of_ne_zero hsx, pos_of_ne_zero hsy⟩, hchannels, hblock, hstripe, htags, hstripes,
    ⟨hsizePos, hsize'⟩, hfields, hcolumns, hrows⟩

theorem law_of_romCondition (h : Decoded rom cfg) (hrom : RomCondition rom) : ConfigLaw cfg := by
  obtain ⟨hx, hy, ⟨hpx, hpy⟩, ⟨hsx, hsy⟩, hchannels, hblock, hstripe, htags, hstripes,
    ⟨hsize, hsize'⟩, hfields, hcolumns, hrows⟩ := hrom
  rw [← h.nocX] at hx hcolumns
  rw [← h.nocY] at hy hrows
  rw [← h.podsX] at hpx hcolumns
  rw [← h.podsY] at hpy hrows
  rw [← h.shapeX] at hsx hstripes hcolumns
  rw [← h.shapeY] at hsy hrows
  rw [← h.channels] at hchannels
  rw [← h.blockWords] at hblock htags hsize hsize'
  rw [← h.stripeWords] at hstripe hstripes
  rw [← h.sets] at htags hsize hsize'
  rw [← h.ways] at hsize hsize'
  rw [← h.fields] at hfields
  refine ⟨(widths_iff h).mpr ⟨hx, hy⟩, ?_, ?_, hfields.imp disjoint_bitsOf_iff.mpr, ?_⟩
  · exact (shiftsFit_iff h hx hy).mpr
      ⟨ne_zero_of_pos hsx, hstripe, ⟨ne_zero_of_pos hsize, hsize'⟩, htags, hstripes⟩
  · have hdouble : 0 < (cfg.podShape.x * 2).toNat := by
      rw [UInt32.toNat_mul]
      simp only [UInt32.reduceToNat]
      omega
    simp only [divisors, List.forall_mem_cons, List.not_mem_nil, IsEmpty.forall_iff, implies_true,
      and_true]
    exact ⟨hblock, ne_zero_of_pos hsx, ne_zero_of_pos hdouble, ne_zero_of_pos hsy,
      ne_zero_of_pos hpx, ne_zero_of_pos hpy, hchannels⟩
  · exact (coordinates_iff h hx hy hpx hpy hsx hsy).mpr ⟨hcolumns, hrows⟩

end Parts

/-- The configuration that is decoded from a ROM keeps the law if and only if the words of the ROM
meet the condition. -/
theorem config_law_iff {rom : Rom} {cfg : Config} (h : configInit rom = .ok cfg) :
    ConfigLaw cfg ↔ RomCondition rom :=
  ⟨romCondition_of_law (decoded_of_init h), law_of_romCondition (decoded_of_init h)⟩

theorem config_law_iff_machine :
    ConfigLaw ({} : Machine).config ↔ RomCondition ({} : Machine).rom :=
  config_law_iff (Machine.configInit_rom _ (by decide))

def narrowNetwork : Machine := { nocCoordXWidth := 1 }

def manyPods : Machine := { podsX := 64 }

/-- A cache with more sets and larger lines than an address has room for. -/
def largeCache : Machine :=
  { vcacheSet := 0x10000, vcacheLineWords := 0x10000, vcacheStripeWords := 0x10000 }

/-- A row that begins in the middle of the columns. -/
def overlappingRom : Rom :=
  ⟨({} : Machine).configRom, fun
    | .dramRoBitidx => 7
    | word => ({} : Machine).memsysRom word⟩

def overlappingFields : Config := { ({} : Machine).config with
  memsys := { ({} : Machine).config.memsys with dramRo := ⟨15, 7⟩ } }

def noPods : Machine := { podsX := 0 }

/-- Each part of the law fails on an accepted configuration. -/
theorem config_law_fails :
    (Accepted narrowNetwork.config ∧ ¬ (0 ≤ (narrowNetwork.config.nocCoordWidth.x.toNat : ℤ) -
      narrowNetwork.config.podCoordWidth.x.toNat) ∧ ¬ ConfigLaw narrowNetwork.config) ∧
    (Accepted largeCache.config ∧ ¬ ShiftsFit largeCache.config ∧
      ¬ ConfigLaw largeCache.config) ∧
    (Accepted noPods.config ∧ (∃ d ∈ divisors noPods.config, d = 0) ∧
      ¬ ConfigLaw noPods.config) ∧
    (Accepted overlappingFields ∧ (¬ (fields overlappingFields.memsys).Pairwise fun f g =>
      (bitsOf f).Disjoint (bitsOf g)) ∧ ¬ ConfigLaw overlappingFields) ∧
    (Accepted manyPods.config ∧ (∃ p, IsPod manyPods.config p ∧ ∃ c, IsVcore manyPods.config p c ∧
      ¬ Reachable manyPods.config c) ∧ ¬ ConfigLaw manyPods.config) := by
  have hwidths : ¬ (0 ≤ (narrowNetwork.config.nocCoordWidth.x.toNat : ℤ) -
      narrowNetwork.config.podCoordWidth.x.toNat) := by decide
  have hshifts : ¬ ShiftsFit largeCache.config := by
    intro h
    exact absurd (h.words true (vcacheWayShift ⟨largeCache.config, true⟩) (by decide)) (by decide)
  have hdivisors : ∃ d ∈ divisors noPods.config, d = 0 := by decide
  have hfields : ¬ (fields overlappingFields.memsys).Pairwise fun f g =>
      (bitsOf f).Disjoint (bitsOf g) := by
    intro h
    exact absurd (h.imp disjoint_bitsOf_iff.mp) (by decide)
  have hcoordinates : ∃ p, IsPod manyPods.config p ∧ ∃ c, IsVcore manyPods.config p c ∧
      ¬ Reachable manyPods.config c := by
    refine ⟨⟨63, 0⟩, by decide, _, ⟨0, by decide, 0, by decide, rfl⟩, fun h => ?_⟩
    exact absurd h.x.1 (by decide)
  refine ⟨⟨?_, hwidths, ?_⟩, ⟨?_, hshifts, ?_⟩, ⟨?_, hdivisors, ?_⟩, ⟨?_, hfields, ?_⟩,
    ⟨?_, hcoordinates, ?_⟩⟩
  · exact Machine.config_accepted _ (by decide)
  · exact fun h => hwidths h.widths.1
  · exact Machine.config_accepted _ (by decide)
  · exact fun h => hshifts h.shifts
  · exact Machine.config_accepted _ (by decide)
  · intro h
    obtain ⟨d, hd, hzero⟩ := hdivisors
    exact h.divisors d hd hzero
  · exact ⟨overlappingRom, by decide +kernel⟩
  · exact fun h => hfields h.bitfields
  · exact Machine.config_accepted _ (by decide)
  · intro h
    obtain ⟨p, hp, c, hc, hout⟩ := hcoordinates
    exact hout (h.coordinates p hp c (.inl hc))

end ConfigSound
