import ManycoreRuntime.BitField
import ManycoreRuntime.Coordinate
import ManycoreRuntime.Fallible

/-! # The machine configuration

The configuration that `hb_mc_config_init` decodes from the ROM and checks, with the memory
system's part, and the quantities that the runtime derives from it. -/
namespace Configuration

open Fallible (bind_eq_ok)
open BitField (clog2)
open Coordinate (Coord Dimension Errno)

inductive MemsysId where
  | none
  | axi4
  | infmem
  | dramsim3
  | testmem
  | hbm2
  deriving DecidableEq, Repr

structure DramPaBitfield where
  bits : UInt32
  bitidx : UInt32
  deriving DecidableEq, Repr

structure Memsys where
  id : MemsysId
  dramChannels : UInt32
  dramBankSize : UInt32
  featureDma : Bool
  featureCache : Bool
  dramRo : DramPaBitfield
  dramBg : DramPaBitfield
  dramBa : DramPaBitfield
  dramCo : DramPaBitfield
  dramByteOffset : DramPaBitfield
  deriving DecidableEq, Repr

structure Version where
  major : UInt8
  minor : UInt8
  revision : UInt8
  deriving DecidableEq, Repr

structure Date where
  month : UInt8
  day : UInt8
  year : UInt16
  deriving DecidableEq, Repr

structure Config where
  designVersion : Version
  timestamp : Date
  networkBitwidthAddr : UInt32
  networkBitwidthData : UInt32
  pods : Dimension
  podShape : Dimension
  nocCoordWidth : Dimension
  podCoordWidth : Dimension
  tileCoordWidth : Dimension
  hostInterface : Coord
  basejump : UInt32
  manycore : UInt32
  f1 : UInt32
  vcacheWays : UInt32
  vcacheSets : UInt32
  vcacheBlockWords : UInt32
  vcacheStripeWords : UInt32
  ioRemoteLoadCap : UInt32
  ioHostCreditsCap : UInt32
  ioEndpointMaxOutCredits : UInt32
  chipId : UInt32
  memsys : Memsys
  deriving DecidableEq, Repr

/-- The parts of a manycore instance that address translation reads. -/
structure Manycore where
  config : Config
  dramEnabled : Bool
  deriving DecidableEq, Repr

inductive ConfigId where
  | version
  | timestamp
  | networkAddrWidth
  | networkDataWidth
  | dimPodsX
  | dimPodsY
  | podDimX
  | podDimY
  | deviceHostIntfCoordX
  | deviceHostIntfCoordY
  | nocCoordXWidth
  | nocCoordYWidth
  | notImplemented
  | repoBasejumpHash
  | repoManycoreHash
  | repoF1Hash
  | vcacheWays
  | vcacheSets
  | vcacheBlockWords
  | vcacheStripeWords
  | vcacheMissFifoEls
  | ioRemoteLoadCap
  | ioHostCreditsCap
  | ioEpMaxOutCredits
  | chipId
  deriving DecidableEq, Repr

inductive MemsysRomIdx where
  | id
  | dramChannels
  | dramBankSize
  | dramRoBits
  | dramBgBits
  | dramBaBits
  | dramCoBits
  | dramByteOffBits
  | dramRoBitidx
  | dramBgBitidx
  | dramBaBitidx
  | dramCoBitidx
  | dramByteOffBitidx
  deriving DecidableEq, Repr

/-- The words of the ROM; the memory system's words follow the configuration's. -/
structure Rom where
  config : ConfigId → UInt32
  memsys : MemsysRomIdx → UInt32

def check (cond : Bool) : Except Errno Unit :=
  if cond then .ok () else .error .invalid

def popcount (x : UInt32) : ℕ := (List.range 32).countP fun i => x.toNat.testBit i

def isPower2 (x : UInt32) : Bool := popcount x == 1

/-- A four-character identifier as the little-endian word that `memcmp` compares. -/
def romId (a b c d : Char) : UInt32 :=
  a.val ||| (b.val <<< 8) ||| (c.val <<< 16) ||| (d.val <<< 24)

def memsysGetIdFromRomValue (rom_id : UInt32) : Except Errno MemsysId :=
  if rom_id = romId 'N' 'O' 'N' 'E' then .ok .none
  else if rom_id = romId 'A' 'X' 'I' '4' then .ok .axi4
  else if rom_id = romId 'I' 'N' 'F' 'M' then .ok .infmem
  else if rom_id = romId 'D' 'R' 'S' '3' then .ok .dramsim3
  else if rom_id = romId 'T' 'E' 'S' 'T' then .ok .testmem
  else if rom_id = romId 'H' 'B' 'M' '2' then .ok .hbm2
  else .error .invalid

def memsysSetFeatures : MemsysId → Except Errno (Bool × Bool)
  | .infmem => .ok (false, true)
  | .dramsim3 | .hbm2 => .ok (true, true)
  | .testmem => .ok (true, true)
  | .none => .error .invalid
  | .axi4 => .ok (true, false)

def memsysCheckDramChannels (id : MemsysId) (channels : UInt32) : Except Errno Unit :=
  match id with
  | .dramsim3 | .hbm2 => check (channels > 0 && channels ≤ 32)
  | .infmem | .testmem => .ok ()
  | .none | .axi4 => check (channels == 1)

def dramsim3CheckBitidx (value : UInt32) : Except Errno Unit := check (value ≥ 0 && value ≤ 30)

def memsysCheckDramAddressMapInfoDramsim3 (m : Memsys) : Except Errno Unit := do
  check (m.dramRo.bits == 14 || m.dramRo.bits == 15)
  check (m.dramCo.bits == 6)
  check (m.dramBa.bits == 2)
  check (m.dramBg.bits == 2)
  check (m.dramByteOffset.bits == 5)
  dramsim3CheckBitidx m.dramRo.bitidx
  dramsim3CheckBitidx m.dramCo.bitidx
  dramsim3CheckBitidx m.dramBa.bitidx
  dramsim3CheckBitidx m.dramBg.bitidx
  dramsim3CheckBitidx m.dramByteOffset.bitidx

def memsysCheckDramAddressMapInfoGeneric (m : Memsys) : Except Errno Unit := do
  check (m.dramRo.bits == 0)
  check (m.dramCo.bits == 0)
  check (m.dramBg.bits == 0)
  check (m.dramBa.bits == 0)
  check (m.dramByteOffset.bits ≥ 28)

def memsysCheckDramAddressMapInfo (m : Memsys) : Except Errno Unit :=
  match m.id with
  | .dramsim3 | .hbm2 => memsysCheckDramAddressMapInfoDramsim3 m
  | _ => memsysCheckDramAddressMapInfoGeneric m

def memsysInit (rom : MemsysRomIdx → UInt32) : Except Errno Memsys := do
  let id ← memsysGetIdFromRomValue (rom .id)
  let (featureCache, featureDma) ← memsysSetFeatures id
  memsysCheckDramChannels id (rom .dramChannels)
  check (isPower2 (rom .dramBankSize))
  let memsys : Memsys := {
    id := id
    dramChannels := rom .dramChannels
    dramBankSize := rom .dramBankSize
    featureDma := featureDma
    featureCache := featureCache
    dramRo := ⟨rom .dramRoBits, rom .dramRoBitidx⟩
    dramBg := ⟨rom .dramBgBits, rom .dramBgBitidx⟩
    dramBa := ⟨rom .dramBaBits, rom .dramBaBitidx⟩
    dramCo := ⟨rom .dramCoBits, rom .dramCoBitidx⟩
    dramByteOffset := ⟨rom .dramByteOffBits, rom .dramByteOffBitidx⟩ }
  memsysCheckDramAddressMapInfo memsys
  return memsys

def decodeVersion (cur : UInt32) : Version where
  major := ((cur >>> 16) &&& 0xFF).toUInt8
  minor := ((cur >>> 8) &&& 0xFF).toUInt8
  revision := (cur &&& 0xFF).toUInt8

def decodeDate (cur : UInt32) : Date :=
  let date (i : UInt32) : UInt32 := (cur >>> (4 * i)) &&& 0xF
  { year := (date 3 * 1000 + date 2 * 100 + date 1 * 10 + date 0).toUInt16
    day := (date 5 * 10 + date 4).toUInt8
    month := (date 7 * 10 + date 6).toUInt8 }

def isChipId (id : UInt32) : Bool := id == 0x00000000 || id == 0xbb1ade00

def Config.numDramCoordinates (cfg : Config) : UInt32 :=
  cfg.pods.x * cfg.pods.y * cfg.podShape.x * 2

def configInitCheckMemsys (cfg : Config) : Except Errno Unit :=
  if cfg.memsys.id = .infmem then check (cfg.numDramCoordinates == cfg.memsys.dramChannels)
  else .ok ()

def configInit (rom : Rom) : Except Errno Config := do
  let raw := rom.config
  check (raw .networkDataWidth ≤ 32)
  check (raw .networkAddrWidth ≤ 30)
  check (raw .podDimX ≥ 0)
  check (raw .podDimY ≥ 0 && raw .podDimY ≤ 32)
  check (raw .dimPodsX ≥ 0 && raw .dimPodsX ≤ 64)
  check (raw .dimPodsY ≥ 0 && raw .dimPodsY ≤ 64)
  check (raw .nocCoordXWidth > 0 && raw .nocCoordXWidth < 32)
  check (raw .nocCoordYWidth > 0 && raw .nocCoordYWidth < 32)
  check (isChipId (raw .chipId))
  check (raw .vcacheStripeWords ≥ raw .vcacheBlockWords)
  check (raw .ioRemoteLoadCap ≥ 1 && raw .ioRemoteLoadCap ≤ 32)
  check (raw .ioHostCreditsCap ≥ 1 && raw .ioHostCreditsCap ≤ 32)
  let memsys ← memsysInit rom.memsys
  let podCoordWidth : Dimension := ⟨3, 4⟩
  let cfg : Config := {
    designVersion := decodeVersion (raw .version)
    timestamp := decodeDate (raw .timestamp)
    networkBitwidthAddr := raw .networkAddrWidth
    networkBitwidthData := raw .networkDataWidth
    pods := ⟨raw .dimPodsX, raw .dimPodsY⟩
    podShape := ⟨raw .podDimX, raw .podDimY⟩
    nocCoordWidth := ⟨raw .nocCoordXWidth, raw .nocCoordYWidth⟩
    podCoordWidth := podCoordWidth
    tileCoordWidth :=
      ⟨raw .nocCoordXWidth - podCoordWidth.x, raw .nocCoordYWidth - podCoordWidth.y⟩
    hostInterface := ⟨raw .deviceHostIntfCoordX, raw .deviceHostIntfCoordY⟩
    basejump := raw .repoBasejumpHash
    manycore := raw .repoManycoreHash
    f1 := raw .repoF1Hash
    vcacheWays := raw .vcacheWays
    vcacheSets := raw .vcacheSets
    vcacheBlockWords := raw .vcacheBlockWords
    vcacheStripeWords := raw .vcacheStripeWords
    ioRemoteLoadCap := raw .ioRemoteLoadCap
    ioHostCreditsCap := raw .ioHostCreditsCap
    ioEndpointMaxOutCredits := raw .ioEpMaxOutCredits
    chipId := raw .chipId
    memsys := memsys }
  configInitCheckMemsys cfg
  return cfg

/-- A configuration of a machine: one that the ROM decoder accepts. -/
def Accepted (cfg : Config) : Prop := ∃ rom, configInit rom = .ok cfg

theorem check_eq_ok {cond : Bool} {u : Unit} : check cond = .ok u ↔ cond = true := by
  unfold check
  by_cases h : cond = true <;> simp [h]

structure Limits (cfg : Config) : Prop where
  podShapeY : cfg.podShape.y.toNat ≤ 32
  loadCap_pos : 1 ≤ cfg.ioRemoteLoadCap.toNat
  loadCap : cfg.ioRemoteLoadCap.toNat ≤ 32

theorem Accepted.limits {cfg : Config} (h : Accepted cfg) : Limits cfg := by
  obtain ⟨rom, h⟩ := h
  simp only [configInit, bind_eq_ok, check_eq_ok, Bool.and_eq_true, decide_eq_true_eq, ge_iff_le,
    UInt32.le_iff_toNat_le, pure, Except.pure, Except.ok.injEq] at h
  obtain ⟨-, -, -, -, -, -, -, ⟨-, hy⟩, -, -, -, -, -, -, -, -, -, -, -, -, -, ⟨hpos, hcap⟩, -, -,
    -, -, -, -, rfl⟩ := h
  exact ⟨hy, hpos, hcap⟩

theorem Accepted.dramChannels {cfg : Config} (h : Accepted cfg) :
    memsysCheckDramChannels cfg.memsys.id cfg.memsys.dramChannels = .ok () := by
  obtain ⟨rom, h⟩ := h
  simp only [configInit, memsysInit, bind_eq_ok, pure, Except.pure, Except.ok.injEq] at h
  obtain ⟨-, -, -, -, -, -, -, -, -, -, -, -, -, -, -, -, -, -, -, -, -, -, -, -, memsys, hm, -, -,
    rfl⟩ := h
  obtain ⟨id, -, features, -, _, hchannels, -, -, -, -, rfl⟩ := hm
  exact hchannels

def vcoreBaseX : UInt32 := 16

def vcoreBaseY : UInt32 := 8

namespace Config

variable (cfg : Config)

def dimensionNetwork : Dimension := ⟨1 <<< cfg.nocCoordWidth.x, 1 <<< cfg.nocCoordWidth.y⟩

def vcacheBitwidthTagAddr (_ : Config) : UInt32 := 1

/-- The high-order bit of the network address names tags, and the network counts words. -/
def vcacheBitwidthDataAddr : UInt32 := cfg.networkBitwidthAddr - cfg.vcacheBitwidthTagAddr + 2

def dmemSize (_ : Config) : UInt32 := 1 <<< (12 : UInt32)

def dramBankSize : UInt32 := cfg.memsys.dramBankSize

def dramSize : ℕ := cfg.dramBankSize.toNat * cfg.numDramCoordinates.toNat

def vcacheBlockSize : UInt32 := cfg.vcacheBlockWords * 4

def vcacheStripeSize : UInt32 := cfg.vcacheStripeWords * 4

def vcacheSize : UInt32 := cfg.vcacheBlockSize * cfg.vcacheSets * cfg.vcacheWays

end Config

end Configuration
