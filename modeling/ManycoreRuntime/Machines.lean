import ManycoreRuntime.Config

/-! # Machines

The parameters of a machine's build file, the ROM that the build writes from them and the
configuration that the runtime decodes. The defaults are the single-pod machine's. -/
namespace Machines

open Configuration

structure Machine where
  podsX : UInt32 := 1
  podsY : UInt32 := 1
  podTilesX : UInt32 := 16
  podTilesY : UInt32 := 8
  maxEpaWidth : UInt32 := 28
  dataWidth : UInt32 := 32
  hostCoordX : UInt32 := 16
  hostCoordY : UInt32 := 0
  nocCoordXWidth : UInt32 := 7
  nocCoordYWidth : UInt32 := 7
  vcacheWay : UInt32 := 8
  vcacheSet : UInt32 := 64
  vcacheLineWords : UInt32 := 32
  vcacheStripeWords : UInt32 := 32
  ioEpCredits : UInt32 := 32
  dramChannels : UInt32 := 2
  dramBankWords : UInt32 := 0x1000000
  deriving DecidableEq, Repr

namespace Machine

variable (m : Machine)

def memsysRom : MemsysRomIdx → UInt32
  | .id => romId 'H' 'B' 'M' '2'
  | .dramChannels => m.dramChannels
  | .dramBankSize => 4 * m.dramBankWords
  | .dramRoBits => 15
  | .dramBgBits => 2
  | .dramBaBits => 2
  | .dramCoBits => 6
  | .dramByteOffBits => 5
  | .dramRoBitidx => 11
  | .dramBgBitidx => 26
  | .dramBaBitidx => 28
  | .dramCoBitidx => 5
  | .dramByteOffBitidx => 0

/-- Release, date and repository hashes play no part in the runtime; they are zero here. -/
def configRom : ConfigId → UInt32
  | .networkAddrWidth => m.maxEpaWidth
  | .networkDataWidth => m.dataWidth
  | .dimPodsX => m.podsX
  | .dimPodsY => m.podsY
  | .podDimX => m.podTilesX
  | .podDimY => m.podTilesY
  | .deviceHostIntfCoordX => m.hostCoordX
  | .deviceHostIntfCoordY => m.hostCoordY
  | .nocCoordXWidth => m.nocCoordXWidth
  | .nocCoordYWidth => m.nocCoordYWidth
  | .vcacheWays => m.vcacheWay
  | .vcacheSets => m.vcacheSet
  | .vcacheBlockWords => m.vcacheLineWords
  | .vcacheStripeWords => m.vcacheStripeWords
  | .vcacheMissFifoEls => 32
  | .ioRemoteLoadCap => m.ioEpCredits
  | .ioHostCreditsCap => m.ioEpCredits
  | .version | .timestamp | .notImplemented | .repoBasejumpHash | .repoManycoreHash
  | .repoF1Hash | .ioEpMaxOutCredits | .chipId => 0

def rom : Rom := ⟨m.configRom, m.memsysRom⟩

def config : Config where
  designVersion := ⟨0, 0, 0⟩
  timestamp := ⟨0, 0, 0⟩
  networkBitwidthAddr := m.maxEpaWidth
  networkBitwidthData := m.dataWidth
  pods := ⟨m.podsX, m.podsY⟩
  podShape := ⟨m.podTilesX, m.podTilesY⟩
  nocCoordWidth := ⟨m.nocCoordXWidth, m.nocCoordYWidth⟩
  podCoordWidth := ⟨3, 4⟩
  tileCoordWidth := ⟨m.nocCoordXWidth - 3, m.nocCoordYWidth - 4⟩
  hostInterface := ⟨m.hostCoordX, m.hostCoordY⟩
  basejump := 0
  manycore := 0
  f1 := 0
  vcacheWays := m.vcacheWay
  vcacheSets := m.vcacheSet
  vcacheBlockWords := m.vcacheLineWords
  vcacheStripeWords := m.vcacheStripeWords
  ioRemoteLoadCap := m.ioEpCredits
  ioHostCreditsCap := m.ioEpCredits
  ioEndpointMaxOutCredits := 0
  chipId := 0
  memsys := {
    id := .hbm2
    dramChannels := m.dramChannels
    dramBankSize := 4 * m.dramBankWords
    featureDma := true
    featureCache := true
    dramRo := ⟨15, 11⟩
    dramBg := ⟨2, 26⟩
    dramBa := ⟨2, 28⟩
    dramCo := ⟨6, 5⟩
    dramByteOffset := ⟨5, 0⟩ }

def wellFormed : Bool :=
  m.dataWidth ≤ 32 && m.maxEpaWidth ≤ 30 && m.podTilesY ≤ 32 && m.podsX ≤ 64 &&
  m.podsY ≤ 64 && m.nocCoordXWidth > 0 && m.nocCoordXWidth < 32 && m.nocCoordYWidth > 0 &&
  m.nocCoordYWidth < 32 && m.vcacheStripeWords ≥ m.vcacheLineWords && m.ioEpCredits ≥ 1 &&
  m.ioEpCredits ≤ 32 && m.dramChannels > 0 && m.dramChannels ≤ 32 &&
  isPower2 (4 * m.dramBankWords)

theorem configInit_rom (h : m.wellFormed = true) : configInit m.rom = .ok m.config := by
  simp only [wellFormed, Bool.and_eq_true, decide_eq_true_eq, and_assoc] at h
  obtain ⟨h1, h2, h3, h4, h5, h6, h7, h8, h9, h10, h11, h12, h13, h14, h15⟩ := h
  have hid : memsysGetIdFromRomValue (romId 'H' 'B' 'M' '2') = .ok .hbm2 := by decide
  have hm : memsysInit m.memsysRom = .ok m.config.memsys := by
    simp [memsysInit, memsysRom, hid, memsysSetFeatures, memsysCheckDramChannels, check,
      h13, h14, h15, memsysCheckDramAddressMapInfo, memsysCheckDramAddressMapInfoDramsim3,
      dramsim3CheckBitidx, bind, Except.bind, pure, Except.pure, config]
  have hch : isChipId 0 = true := by decide
  simp [configInit, rom, configRom, check, h1, h2, h3, h4, h5, h6, h7, h8, h9, h10, h11, h12,
    hm, hch, bind, Except.bind, pure, Except.pure, configInitCheckMemsys]
  rfl

theorem config_accepted (h : m.wellFormed = true) : Accepted m.config :=
  ⟨m.rom, m.configInit_rom h⟩

end Machine

end Machines
