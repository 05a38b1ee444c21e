import ManycoreRuntime.EvaMemory
import ManycoreRuntime.SymbolSearch
import ManycoreRuntime.Vcache

/-! # Loading a program

The loader sets the registers of the tiles, writes the segments of a program file to their
addresses, and the start of the program's text to the instruction caches. -/
namespace Loader

open Actions
open ByteStore
open Coordinate (Coord Errno foreachCoordinate)
open Configuration (Config Manycore)
open ElfImage
open EvaMemory
open EvaToNpa
open NpaToEva (defaultMap)
open Packets (RequestPacket)
open Vcache
open WriteMem

abbrev Session := Action Errno (List RequestPacket)

section Tiles

variable (mc : Manycore) (platform : Platform)

def write32 (npa : Npa) (vp : UInt32) : Session Unit := fun sent =>
  match write mc npa vp 4 (platform.transmit sent.length) with
  | .error e => some (.error e, sent)
  | .ok rqst => some (.ok (), sent ++ [rqst])

def tileEpaCsrPcInitValue : UInt32 := 0x2000C

def tileEpaIcache : UInt32 := 0x01000000

def tileFreeze (tile : Coord) : Session Unit :=
  write32 mc platform ⟨tile.x, tile.y, tileEpaCsrFreeze⟩ 1

def tileSetInitialPc (tile : Coord) (pc_init : UInt32) : Session Unit :=
  write32 mc platform ⟨tile.x, tile.y, tileEpaCsrPcInitValue⟩ pc_init

def tileSetOriginX (tile : Coord) (x : UInt32) : Session Unit :=
  write32 mc platform ⟨tile.x, tile.y, tileEpaCsrTileGroupOriginX⟩ x

def tileSetOriginY (tile : Coord) (y : UInt32) : Session Unit :=
  write32 mc platform ⟨tile.x, tile.y, tileEpaCsrTileGroupOriginY⟩ y

def tileSetOrigin (tile o : Coord) : Session Unit := do
  tileSetOriginX mc platform tile o.x
  tileSetOriginY mc platform tile o.y

def tileSetRegisters (pc_init : UInt32) (origin tile : Coord) : Session Unit := do
  tileFreeze mc platform tile
  tileSetOrigin mc platform tile origin
  tileSetInitialPc mc platform tile pc_init

def podValidateVcache (p : Coord) : Session Unit :=
  podApplyToVcache mc p fun way_addr => do
    let way ← fromExcept (vcacheWay mc way_addr.epa)
    write32 mc platform way_addr (vcacheValid ||| way)

def validateVcache : Session Unit :=
  forM (foreachCoordinate ⟨0, 0⟩ mc.config.pods) (podValidateVcache mc platform)

def tilesInitialize (pc_init : UInt32) : List Coord → Session Unit
  | [] => throw .invalid
  | origin :: rest => do
    forM (origin :: rest) (tileSetRegisters mc platform pc_init origin)
    if mc.dramEnabled then pure () else validateVcache mc platform

end Tiles

structure Phdr where
  type : UInt32
  offset : UInt32
  paddr : UInt32
  filesz : UInt32
  memsz : UInt32
  flags : UInt32
  deriving DecidableEq, Repr

def ptLoad : UInt32 := 1

def pfX : UInt32 := 1

def readPhdr (bin : Image) (off : ℕ) : Except Failure Phdr := do
  let type ← readWord bin off
  let offset ← readWord bin (off + 4)
  let paddr ← readWord bin (off + 12)
  let filesz ← readWord bin (off + 16)
  let memsz ← readWord bin (off + 20)
  let flags ← readWord bin (off + 24)
  return ⟨type, offset, paddr, filesz, memsz, flags⟩

def getSegment (bin : Image) (segidx : ℕ) : Except Failure Phdr := do
  let phoff ← readWord bin ePhoff
  let phnum ← readHalf bin ePhnum
  check (phoff.toNat + phnum.toNat * sizeofPhdr ≤ bin.length) .invalid
  let phdr ← readPhdr bin (phoff.toNat + sizeofPhdr * segidx)
  check (phdr.offset.toNat + phdr.filesz.toNat ≤ bin.length) .invalid
  return phdr

namespace Phdr

variable (phdr : Phdr)

def isLoadNever : Bool := phdr.type != ptLoad

/-- The highest bit of the address decides. -/
def isLoadOnce : Bool := phdr.paddr &&& 0x80000000 != 0

def isLoadIcache : Bool := phdr.type == ptLoad && phdr.flags &&& pfX != 0

def capacity (cfg : Config) : ℕ :=
  if phdr.paddr &&& 0x80000000 != 0 then cfg.dramSize else cfg.dmemSize.toNat

def segdata (bin : Image) (k : ℕ) : UInt8 := bin.getD (phdr.offset.toNat + k) 0

end Phdr

/-- A failure to read the file is no error code of the loader. -/
def toErrno : Failure → Errno
  | .code e => e
  | .outOfBounds | .divideByZero => .undefined

def fromImage {σ α : Type} (r : Except Failure α) : Action Errno σ α :=
  fromExcept (r.mapError toErrno)

section Segments

variable (mc : Manycore) (platform : Platform) (base : ℕ) (bin : Image)

def icacheSize : ℕ := 2 ^ 12

/-- `base` is the address of the file in the host's memory. -/
def loadTileSegment (phdr : Phdr) (tile : Coord) : Session Unit := do
  let cap := phdr.capacity mc.config
  let seg_sz := phdr.memsz.toNat
  if cap < seg_sz then throw .fail
  else
    let eva := phdr.paddr
    let file_sz := phdr.filesz.toNat
    evaWrite mc defaultMap tile platform eva (base + phdr.offset.toNat) (phdr.segdata bin) file_sz
    -- the difference of two sizes is taken modulo `2 ^ 64`
    let zeros_sz := (seg_sz + 2 ^ 64 - file_sz) % 2 ^ 64
    let eva := eva + UInt32.ofNat file_sz
    evaMemset mc defaultMap tile platform eva 0 zeros_sz

def loadTileIcache (phdr : Phdr) (tile : Coord) : Session Unit :=
  let icache_npa : Npa := ⟨tile.x, tile.y, tileEpaIcache⟩
  let sz := min phdr.filesz.toNat icacheSize
  -- the bits of the tag have to stay clear
  if (icache_npa.epa.toNat + sz - 1) &&& 0x00FFF000 ≠ 0 then throw .fail
  else fun sent => some (writeMem mc platform icache_npa (base + phdr.offset.toNat)
    (bufferWords (phdr.segdata bin) 0) sz sent)

def loadSegmentsFrom (origin : Coord) (tiles : List Coord) :
    ℕ → ℕ → Option ℕ → Session (Option ℕ)
  | 0, _, icache_segidx => pure icache_segidx
  | n + 1, segidx, icache_segidx => do
    let phdr ← fromImage (getSegment bin segidx)
    if phdr.isLoadNever then loadSegmentsFrom origin tiles n (segidx + 1) icache_segidx
    else
      (if phdr.isLoadOnce then loadTileSegment mc platform base bin phdr origin
        else forM tiles (loadTileSegment mc platform base bin phdr))
      loadSegmentsFrom origin tiles n (segidx + 1)
        (if phdr.isLoadIcache then some segidx else icache_segidx)

def loadSegments (origin : Coord) (tiles : List Coord) : Session Unit := do
  let phnum ← fromImage (readHalf bin ePhnum)
  let icache_segidx ← loadSegmentsFrom mc platform base bin origin tiles phnum.toNat 0 none
  match icache_segidx with
  | none => throw .invalid
  | some segidx => do
    let phdr ← fromImage (getSegment bin segidx)
    forM tiles (loadTileIcache mc platform base bin phdr)

end Segments

def start : SymbolSearch.CString := ⟨[0x5f, 0x73, 0x74, 0x61, 0x72, 0x74], by simp⟩

def startAddress (bin : Option Image) : Except Errno UInt32 :=
  match SymbolSearch.symbolToEva bin (some start) true with
  | .ok eva => .ok eva
  | .error (.code _) => .ok 0
  | .error _ => .error .undefined

/-- No result means that a loop does not end. -/
def load (mc : Manycore) (platform : Platform) (base : ℕ) (bin : Option Image)
    (tiles : List Coord) : Session Unit := do
  let pc_init ← fromExcept (startAddress bin)
  match tiles with
  | [] => throw .invalid
  | origin :: rest =>
    fromImage (elfValidate bin)
    tilesInitialize mc platform pc_init (origin :: rest)
    match bin with
    | none => throw .invalid
    | some bin => loadSegments mc platform base bin origin (origin :: rest)

end Loader
