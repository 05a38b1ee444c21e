import ManycoreRuntime.DramStriping
import ManycoreRuntime.MemoryManager
import ManycoreRuntime.Transition

/-! # Allocation of a pod's memory

Each pod with a program has a pool of DRAM addresses. The pool begins behind the program and
has the size of the whole system's DRAM, while the addresses name the caches of one pod. -/
namespace PodMalloc

open Fallible (bind_eq_ok)
open Coordinate (Coord Dimension Errno toIndex toLength)
open Configuration (Config Manycore Accepted)
open ConfigPod EvaToNpa DramTranslation
open NpaToEva (evaToNpa defaultMap)
open TileTranslation (isDram_iff)
open DramStriping (OwnCache evaToNpa_of_isDram)
open MemoryManager (Manager Block blockSize firstFit Bounded StartsBy)
open Machines (Machine)

structure Program where
  dramEnd : UInt32
  memoryManager : Manager
  deriving DecidableEq, Repr

structure Pod where
  podCoord : Coord
  program : Option Program
  deriving DecidableEq, Repr

/-- The argument is the symbol `_bsg_dram_end_addr`, when the binary has it. -/
def programAllocatorInit (cfg : Config) : Option UInt32 → Except Errno Program
  | none => .error .invalid
  | some programEnd =>
    let alignment := cfg.vcacheBlockSize
    if alignment = 0 then .error .undefined
    else
      -- start at the next aligned block
      let start := programEnd + alignment - programEnd % alignment
      match MemoryManager.init cfg.dramSize start.toNat alignment.toNat with
      | none => .error .undefined
      | some manager => .ok ⟨programEnd, manager⟩

def indexToCoordinate (idx : ℕ) (dim : Dimension) : Coord :=
  ⟨UInt32.ofNat (idx / dim.y.toNat), UInt32.ofNat (idx % dim.y.toNat)⟩

def deviceInit (cfg : Config) : List Pod :=
  (List.range (toLength cfg.pods).toNat).map fun i => ⟨indexToCoordinate i cfg.pods, none⟩

theorem indexToCoordinate_spec {cfg : Config} {i : ℕ} (h : i < (toLength cfg.pods).toNat) :
    IsPod cfg (indexToCoordinate i cfg.pods) ∧
      (toIndex (indexToCoordinate i cfg.pods) cfg.pods).toNat = i := by
  have hlt : i < cfg.pods.x.toNat * cfg.pods.y.toNat := by
    rw [toLength, UInt32.toNat_mul] at h
    exact lt_of_lt_of_le h (Nat.mod_le _ _)
  have hi : i < 2 ^ 32 := lt_trans h (toLength cfg.pods).toNat_lt
  have hpos : 0 < cfg.pods.y.toNat := by
    rcases Nat.eq_zero_or_pos cfg.pods.y.toNat with hz | hp
    · rw [hz, Nat.mul_zero] at hlt
      exact absurd hlt (Nat.not_lt_zero i)
    · exact hp
  have hdiv : i / cfg.pods.y.toNat < cfg.pods.x.toNat :=
    Nat.div_lt_of_lt_mul (by rw [Nat.mul_comm]; exact hlt)
  have hmod := Nat.mod_lt i hpos
  have hx : (UInt32.ofNat (i / cfg.pods.y.toNat)).toNat = i / cfg.pods.y.toNat :=
    UInt32.toNat_ofNat_of_lt (lt_of_le_of_lt (Nat.div_le_self _ _) hi)
  have hy : (UInt32.ofNat (i % cfg.pods.y.toNat)).toNat = i % cfg.pods.y.toNat :=
    UInt32.toNat_ofNat_of_lt (lt_of_le_of_lt (Nat.mod_le _ _) hi)
  refine ⟨⟨?_, ?_⟩, ?_⟩
  · rw [UInt32.lt_iff_toNat_lt, indexToCoordinate, hx]
    exact hdiv
  · rw [UInt32.lt_iff_toNat_lt, indexToCoordinate, hy]
    exact hmod
  · simp only [toIndex, indexToCoordinate, UInt32.toNat_add, UInt32.toNat_mul, hx, hy]
    rw [Nat.mod_add_mod, Nat.mul_comm, Nat.div_add_mod]
    exact Nat.mod_eq_of_lt hi

theorem isPod_of_mem_deviceInit {cfg : Config} {pod : Pod} (h : pod ∈ deviceInit cfg) :
    IsPod cfg pod.podCoord := by
  obtain ⟨i, hi, rfl⟩ := List.mem_map.mp h
  exact (indexToCoordinate_spec (List.mem_range.mp hi)).1

def checkPodId (pods : List Pod) (id : ℤ) : Except Errno Pod :=
  if id < 0 then .error .invalid
  else match pods[id.toNat]? with
    | none => .error .invalid
    | some pod => .ok pod

def programInit (cfg : Config) (pods : List Pod) (podId : ℤ) (programEnd : Option UInt32) :
    Except Errno (List Pod) := do
  let pod ← checkPodId pods podId
  let program ← programAllocatorInit cfg programEnd
  return pods.set podId.toNat { pod with program := some program }

namespace Program

/-- The address is cut to 32 bits before it is compared with the null address. -/
def malloc (program : Program) (size : UInt32) : Except Errno UInt32 × Program :=
  let (addr, manager) := MemoryManager.alloc program.memoryManager size.toNat
  let program := { program with memoryManager := manager }
  let result := UInt32.ofNat addr
  if result.toNat = MemoryManager.null then (.error .nomem, program) else (.ok result, program)

def free (program : Program) (eva : UInt32) : Program :=
  { program with memoryManager := MemoryManager.free program.memoryManager eva.toNat }

theorem malloc_eq (program : Program) (size : UInt32) :
    program.malloc size =
      (.ok (UInt32.ofNat (MemoryManager.alloc program.memoryManager size.toNat).1),
        { program with
          memoryManager := (MemoryManager.alloc program.memoryManager size.toNat).2 }) := by
  have hne : ∀ r : UInt32, r.toNat ≠ MemoryManager.null := by
    intro r
    have := r.toNat_lt
    unfold MemoryManager.null
    omega
  simp only [malloc, hne, if_false]

end Program

def podMalloc (pods : List Pod) (podId : ℤ) (size : UInt32) :
    Except Errno UInt32 × List Pod :=
  match checkPodId pods podId with
  | .error e => (.error e, pods)
  | .ok pod =>
    match pod.program with
    | none => (.error .invalid, pods)
    | some program =>
      let (result, program) := program.malloc size
      (result, pods.set podId.toNat { pod with program := some program })

def podFree (pods : List Pod) (podId : ℤ) (eva : UInt32) : Except Errno (List Pod) := do
  let pod ← checkPodId pods podId
  match pod.program with
  | none => .error .invalid
  | some program => return pods.set podId.toNat { pod with program := some (program.free eva) }

structure Grant where
  podCoord : Coord
  dramEnd : UInt32
  eva : UInt32
  size : ℕ
  deriving DecidableEq, Repr

structure State where
  pods : List Pod
  granted : List Grant
  deriving DecidableEq, Repr

inductive Event where
  | programInit (podId : ℤ) (programEnd : Option UInt32)
  | malloc (podId : ℤ) (size : UInt32)
  | free (podId : ℤ) (eva : UInt32)

def programOf (pods : List Pod) (podId : ℤ) : Option (Pod × Program) :=
  match checkPodId pods podId with
  | .error _ => none
  | .ok pod => pod.program.map fun program => (pod, program)

def next (cfg : Config) (s : State) : Event → State
  | .programInit podId programEnd =>
    match programInit cfg s.pods podId programEnd with
    | .error _ => s
    | .ok pods => { s with pods := pods }
  | .malloc podId size =>
    match programOf s.pods podId, podMalloc s.pods podId size with
    | some (pod, program), (.ok eva, pods) =>
      ⟨pods, ⟨pod.podCoord, program.dramEnd, eva,
        blockSize program.memoryManager size.toNat⟩ :: s.granted⟩
    | _, (_, pods) => { s with pods := pods }
  | .free podId eva =>
    match podFree s.pods podId eva with
    | .error _ => s
    | .ok pods => { s with pods := pods }

def system (cfg : Config) : Transition.System State Event where
  initial s := s = ⟨deviceInit cfg, []⟩
  step s e t := t = next cfg s e

/-- A DRAM address behind which there is memory of the pod. -/
def InPodMemory (mc : Manycore) (p : Coord) (eva : UInt32) : Prop :=
  defaultEvaIsDram eva = true ∧ ∃ npa sz,
    evaToNpa mc defaultMap (podVcoreOrigin mc.config p) eva = .ok (npa, sz) ∧
    OwnCache mc.config p npa.xy ∧ npa.epa < mc.config.dramBankSize

/-- Every byte of the block lies behind the program, in the memory of the pod. -/
structure Grant.Safe (mc : Manycore) (g : Grant) : Prop where
  noWrap : g.eva.toNat + g.size ≤ 2 ^ 32
  byte : ∀ e : UInt32, g.eva.toNat ≤ e.toNat → e.toNat < g.eva.toNat + g.size →
    g.dramEnd ≤ e ∧ InPodMemory mc g.podCoord e

def EndsInPod (mc : Manycore) (s : State) : Event → Prop
  | .programInit podId (some programEnd) => ∀ pod, checkPodId s.pods podId = .ok pod →
      InPodMemory mc pod.podCoord programEnd
  | _ => True

def stripeBits (mc : Manycore) : ℕ := (defaultGetDramStripeSizeLog mc).toNat

def columnBits (mc : Manycore) : ℕ := (defaultGetXDimlog mc.config).toNat

/-- The column of the address is one of the pod's and its offset lies in the bank. -/
structure Backed (mc : Manycore) (p : Coord) (e : ℕ) : Prop where
  fields : stripeBits mc + columnBits mc < 32
  width : addrBits mc ≤ 31
  room : (podVcoreOrigin mc.config p).x.toNat + mc.config.podShape.x.toNat ≤ 2 ^ 32
  column : e / 2 ^ stripeBits mc % 2 ^ columnBits mc < mc.config.podShape.x.toNat
  bank : bankOffset (stripeBits mc) (columnBits mc) e <
    min (2 ^ addrBits mc) mc.config.dramBankSize.toNat

theorem minX_of_origin (cfg : Config) (p : Coord) :
    defaultDramMinXCoord cfg (podVcoreOrigin cfg p) = (podVcoreOrigin cfg p).x := by
  rw [defaultDramMinXCoord, podVcoreOrigin_pod_origin]

theorem inPodMemory_iff {mc : Manycore} {p : Coord} {eva : UInt32} :
    InPodMemory mc p eva ↔ 2 ^ 31 ≤ eva.toNat ∧ Backed mc p eva.toNat := by
  have hf : Fields mc (stripeBits mc) (columnBits mc) := fields_bits mc
  constructor
  · rintro ⟨hd, npa, sz, ht, ⟨hx1, hx2, -⟩, hb⟩
    have hc : 0 < mc.config.podShape.x.toNat := by omega
    rw [evaToNpa_of_isDram hd, evaToNpaDram_eq_ok_of_fields hf hc, minX_of_origin] at ht
    obtain ⟨hs, ha, hr, hcol, hoff, -, -, he, -⟩ := ht
    rw [UInt32.lt_iff_toNat_lt, he] at hb
    exact ⟨(isDram_iff eva).mp hd, hs, ha, hr, hcol, lt_min hoff hb⟩
  · rintro ⟨hd, hs, ha, hr, hcol, hoff⟩
    have hd := (isDram_iff eva).mpr hd
    have hc : 0 < mc.config.podShape.x.toNat := by omega
    obtain ⟨hoff, hb⟩ := lt_min_iff.mp hoff
    have h31 := bankOffset_lt (k := columnBits mc) (e := eva.toNat) (by omega : stripeBits mc < 32)
    refine ⟨hd, ⟨UInt32.ofNat ((podVcoreOrigin mc.config p).x.toNat +
        eva.toNat / 2 ^ stripeBits mc % 2 ^ columnBits mc),
      if eva.toNat / 2 ^ (stripeBits mc + columnBits mc) % 2 = 1
        then podDramSouthY mc.config p else podDramNorthY mc.config p,
      UInt32.ofNat (bankOffset (stripeBits mc) (columnBits mc) eva.toNat)⟩,
      2 ^ stripeBits mc - eva.toNat % 2 ^ stripeBits mc, ?_, ?_, ?_⟩
    · rw [evaToNpa_of_isDram hd, evaToNpaDram_eq_ok_of_fields hf hc, minX_of_origin]
      refine ⟨hs, ha, hr, hcol, hoff, ?_, ?_, ?_, rfl⟩
      · exact UInt32.toNat_ofNat_of_lt' (by simp only [UInt32.size]; omega)
      · simp only [podDramSouthY, podDramNorthY, podVcoreOrigin_pod_origin]
      · exact UInt32.toNat_ofNat_of_lt' (by simp only [UInt32.size]; omega)
    · have hx := UInt32.toNat_ofNat_of_lt' (by simp only [UInt32.size]; omega :
        (podVcoreOrigin mc.config p).x.toNat +
          eva.toNat / 2 ^ stripeBits mc % 2 ^ columnBits mc < UInt32.size)
      refine ⟨?_, ?_, ?_⟩
      · simp only [Npa.xy, hx]
        omega
      · simp only [Npa.xy, hx]
        omega
      · simp only [Npa.xy]
        split
        · exact Or.inr rfl
        · exact Or.inl rfl
    · rw [UInt32.lt_iff_toNat_lt,
        UInt32.toNat_ofNat_of_lt' (by simp only [UInt32.size]; omega)]
      exact hb

/-- The memory of a pod with `2 ^ k` columns ends where its banks do. -/
theorem backed_iff_lt {mc : Manycore} {s k n e : ℕ} {p : Coord} (h : Striped mc s k)
    (hf : s + k < 32) (hw : addrBits mc ≤ 31)
    (hroom : (podVcoreOrigin mc.config p).x.toNat + mc.config.podShape.x.toNat ≤ 2 ^ 32)
    (hn : min (2 ^ addrBits mc) mc.config.dramBankSize.toNat = n * 2 ^ s)
    (hlo : 2 ^ 31 ≤ e) (hhi : e < 2 ^ 32) :
    Backed mc p e ↔ e < 2 ^ 31 + n * 2 ^ (s + k + 1) := by
  have hs : stripeBits mc = s := h.fields.stripe_bits
  have hk : columnBits mc = k := h.fields.column_bits
  have hmod : e % 2 ^ 31 = e - 2 ^ 31 := by omega
  have hlow : e % 2 ^ s < 2 ^ s := Nat.mod_lt _ (Nat.two_pow_pos s)
  have hbank : bankOffset s k e < n * 2 ^ s ↔ e % 2 ^ 31 / 2 ^ (s + k + 1) < n := by
    rw [bankOffset, Nat.add_comm, Nat.mul_comm n]
    constructor
    · intro hlt
      have hlt : e % 2 ^ 31 / 2 ^ (s + k + 1) * 2 ^ s < 2 ^ s * n := by omega
      rw [Nat.mul_comm] at hlt
      exact Nat.lt_of_mul_lt_mul_left hlt
    · intro hlt
      have hle := Nat.mul_le_mul_left (2 ^ s) (Nat.succ_le_of_lt hlt)
      rw [Nat.mul_succ, Nat.mul_comm (2 ^ s) (_ / _)] at hle
      omega
  rw [Nat.div_lt_iff_lt_mul (Nat.two_pow_pos _), hmod] at hbank
  constructor
  · intro hb
    have hbk := hb.bank
    rw [hs, hk, hn, hbank] at hbk
    omega
  · intro hlt
    refine ⟨by rw [hs, hk]; exact hf, hw, hroom, ?_, ?_⟩
    · rw [hs, hk, h.columns]
      exact Nat.mod_lt _ (Nat.two_pow_pos k)
    · rw [hs, hk, hn, hbank]
      omega

/-- The program's end is rounded up without wrapping around, and a free block can hold the
request whose front has memory of the pod behind it. -/
def Fits (mc : Manycore) (s : State) : Event → Prop
  | .programInit _ (some programEnd) =>
    programEnd.toNat + mc.config.vcacheBlockSize.toNat -
      programEnd.toNat % mc.config.vcacheBlockSize.toNat < 2 ^ 32
  | .malloc podId size => ∀ pod program, programOf s.pods podId = some (pod, program) →
    ∃ b, firstFit program.memoryManager.freeBufferList
        (blockSize program.memoryManager size.toNat) = some b ∧
      ∀ e, b.first ≤ e → e < b.first + blockSize program.memoryManager size.toNat →
        e < 2 ^ 32 ∧ Backed mc pod.podCoord e
  | _ => True

/-- The pool of a program lies behind the program, among the DRAM addresses. -/
structure PoolOk (program : Program) : Prop where
  bounded : Bounded program.memoryManager
  dram : 2 ^ 31 ≤ program.dramEnd.toNat
  start : program.dramEnd.toNat ≤ program.memoryManager.start
  alignment : 0 < program.memoryManager.alignment
  words : 4 ∣ program.memoryManager.alignment
  low : StartsBy (2 ^ 32) program.memoryManager

def PodOk (pod : Pod) : Prop := ∀ program, pod.program = some program → PoolOk program

structure Invariant (mc : Manycore) (s : State) : Prop where
  pods : ∀ pod ∈ s.pods, PodOk pod
  granted : ∀ g ∈ s.granted, g.Safe mc

theorem blockSize_pos {m : Manager} (h : 0 < m.alignment) (size : ℕ) : 0 < blockSize m size := by
  simp only [blockSize]
  split <;> omega

theorem checkPodId_mem {pods : List Pod} {podId : ℤ} {pod : Pod}
    (h : checkPodId pods podId = .ok pod) : pod ∈ pods := by
  unfold checkPodId at h
  split at h
  · cases h
  · split at h
    · cases h
    · next hp =>
      cases h
      exact List.mem_of_getElem? hp

theorem programOf_eq_some {pods : List Pod} {podId : ℤ} {pod : Pod} {program : Program}
    (h : programOf pods podId = some (pod, program)) :
    checkPodId pods podId = .ok pod ∧ pod.program = some program := by
  unfold programOf at h
  split at h
  · cases h
  · next q hq =>
    obtain ⟨r, hr, he⟩ := Option.map_eq_some_iff.mp h
    cases he
    exact ⟨hq, hr⟩

theorem set_podOk {pods : List Pod} {i : ℕ} {pod : Pod} (h : ∀ q ∈ pods, PodOk q)
    (hp : PodOk pod) : ∀ q ∈ pods.set i pod, PodOk q := by
  intro q hq
  rcases List.mem_or_eq_of_mem_set hq with hq | rfl
  · exact h q hq
  · exact hp

theorem programAllocatorInit_eq_ok {cfg : Config} {programEnd : UInt32} {program : Program}
    (h : programAllocatorInit cfg (some programEnd) = .ok program) :
    ∃ manager, 0 < cfg.vcacheBlockSize.toNat ∧
      MemoryManager.init cfg.dramSize
        (programEnd + cfg.vcacheBlockSize - programEnd % cfg.vcacheBlockSize).toNat
        cfg.vcacheBlockSize.toNat = some manager ∧
      program = ⟨programEnd, manager⟩ := by
  simp only [programAllocatorInit] at h
  split at h
  · cases h
  · next hz =>
    rw [← UInt32.toNat_inj] at hz
    split at h
    · cases h
    · next manager hm =>
      cases h
      exact ⟨manager, Nat.pos_of_ne_zero hz, hm, rfl⟩

theorem programAllocatorInit_ok {cfg : Config} {programEnd : UInt32} {program : Program}
    (hd : 2 ^ 31 ≤ programEnd.toNat)
    (hw : programEnd.toNat + cfg.vcacheBlockSize.toNat -
      programEnd.toNat % cfg.vcacheBlockSize.toNat < 2 ^ 32)
    (h : programAllocatorInit cfg (some programEnd) = .ok program) : PoolOk program := by
  obtain ⟨manager, hpos, hm, rfl⟩ := programAllocatorInit_eq_ok h
  obtain ⟨hb, -, hs, ha⟩ := MemoryManager.init_bounded hm
  have hmod := Nat.mod_lt programEnd.toNat hpos
  have hle := Nat.mod_le programEnd.toNat cfg.vcacheBlockSize.toNat
  have hstart : (programEnd + cfg.vcacheBlockSize - programEnd % cfg.vcacheBlockSize).toNat =
      programEnd.toNat + cfg.vcacheBlockSize.toNat -
        programEnd.toNat % cfg.vcacheBlockSize.toNat := by
    rw [UInt32.toNat_sub, UInt32.toNat_add, UInt32.toNat_mod]
    omega
  refine ⟨hb, hd, ?_, ?_, ?_, MemoryManager.init_startsBy (by omega) hm⟩
  · simp only [hs, hstart]
    omega
  · simp only [ha]
    exact hpos
  · simp only [ha, Config.vcacheBlockSize, UInt32.toNat_mul, UInt32.reduceToNat]
    omega

theorem programInit_podOk {mc : Manycore} {s : State} {podId : ℤ} {programEnd : Option UInt32}
    {pods : List Pod} (h : ∀ q ∈ s.pods, PodOk q)
    (hend : EndsInPod mc s (.programInit podId programEnd))
    (hfit : Fits mc s (.programInit podId programEnd))
    (hp : programInit mc.config s.pods podId programEnd = .ok pods) : ∀ q ∈ pods, PodOk q := by
  unfold programInit at hp
  rw [bind_eq_ok] at hp
  obtain ⟨pod, hpod, hp⟩ := hp
  rw [bind_eq_ok] at hp
  obtain ⟨program, hprogram, hp⟩ := hp
  cases hp
  cases programEnd with
  | none => cases hprogram
  | some programEnd =>
    have hd := (inPodMemory_iff.mp (hend pod hpod)).1
    refine set_podOk h ?_
    rintro _ ⟨⟩
    exact programAllocatorInit_ok hd hfit hprogram

theorem podFree_podOk {pods pods' : List Pod} {podId : ℤ} {eva : UInt32}
    (h : ∀ q ∈ pods, PodOk q) (hf : podFree pods podId eva = .ok pods') :
    ∀ q ∈ pods', PodOk q := by
  unfold podFree at hf
  rw [bind_eq_ok] at hf
  obtain ⟨pod, hpod, hf⟩ := hf
  cases hp : pod.program with
  | none =>
    rw [hp] at hf
    cases hf
  | some program =>
    rw [hp] at hf
    cases hf
    have hok := h pod (checkPodId_mem hpod) program hp
    obtain ⟨-, hs, ha⟩ := MemoryManager.free_samePool program.memoryManager eva.toNat
    refine set_podOk h ?_
    rintro _ ⟨⟩
    refine ⟨MemoryManager.free_bounded hok.bounded _, hok.dram, ?_, ?_, ?_,
      MemoryManager.free_startsBy hok.low _⟩
    · rw [Program.free, hs]
      exact hok.start
    · rw [Program.free, ha]
      exact hok.alignment
    · rw [Program.free, ha]
      exact hok.words

theorem podMalloc_eq {pods : List Pod} {podId : ℤ} {size : UInt32} {pod : Pod}
    {program : Program} (h : programOf pods podId = some (pod, program)) :
    podMalloc pods podId size =
      (.ok (UInt32.ofNat (MemoryManager.alloc program.memoryManager size.toNat).1),
        pods.set podId.toNat { pod with program := some { program with
          memoryManager := (MemoryManager.alloc program.memoryManager size.toNat).2 } }) := by
  obtain ⟨hc, hp⟩ := programOf_eq_some h
  simp only [podMalloc, hc, hp, Program.malloc_eq]

theorem podMalloc_of_none {pods : List Pod} {podId : ℤ} (size : UInt32)
    (h : programOf pods podId = none) : ∃ e, podMalloc pods podId size = (.error e, pods) := by
  unfold programOf at h
  split at h
  · next e he =>
    refine ⟨e, ?_⟩
    simp only [podMalloc, he]
  · next pod hpod =>
    refine ⟨.invalid, ?_⟩
    rw [Option.map_eq_none_iff] at h
    simp only [podMalloc, hpod, h]

theorem alloc_podOk {pod : Pod} {program : Program} (h : PoolOk program) {size : ℕ} {b : Block}
    (hb : firstFit program.memoryManager.freeBufferList
      (blockSize program.memoryManager size) = some b)
    (hend : b.first + blockSize program.memoryManager size ≤ 2 ^ 32) :
    PodOk { pod with program := some { program with
      memoryManager := (MemoryManager.alloc program.memoryManager size).2 } } := by
  obtain ⟨-, hs, ha⟩ := MemoryManager.alloc_samePool program.memoryManager size
  rintro _ ⟨⟩
  refine ⟨MemoryManager.alloc_bounded h.bounded _, h.dram, ?_, ?_, ?_,
    MemoryManager.alloc_startsBy h.low hb hend⟩
  · simp only [hs]
    exact h.start
  · simp only [ha]
    exact h.alignment
  · simp only [ha]
    exact h.words

theorem grant_safe {mc : Manycore} {p : Coord} {program : Program} {size : ℕ} {b : Block}
    (h : PoolOk program)
    (hb : firstFit program.memoryManager.freeBufferList
      (blockSize program.memoryManager size) = some b)
    (hback : ∀ e, b.first ≤ e → e < b.first + blockSize program.memoryManager size →
      e < 2 ^ 32 ∧ Backed mc p e) :
    Grant.Safe mc ⟨p, program.dramEnd, UInt32.ofNat b.first,
      blockSize program.memoryManager size⟩ := by
  have hpos := blockSize_pos h.alignment size
  have hin := h.bounded.free b (MemoryManager.firstFit_some hb).1
  have hlow : program.memoryManager.start ≤ b.first := hin.1
  have hstart := h.start
  have hdram := h.dram
  have hlast := (hback (b.first + blockSize program.memoryManager size - 1)
    (by omega) (by omega)).1
  have hval : (UInt32.ofNat b.first).toNat = b.first :=
    UInt32.toNat_ofNat_of_lt' (by simp only [UInt32.size]; omega)
  constructor
  · simp only [hval]
    omega
  · intro e h1 h2
    simp only [hval] at h1 h2
    have hle : program.dramEnd.toNat ≤ e.toNat := by omega
    refine ⟨UInt32.le_iff_toNat_le.mpr hle, ?_⟩
    rw [inPodMemory_iff]
    exact ⟨by omega, (hback e.toNat h1 h2).2⟩

/-- A block of the pod's memory is one that fits. The address of an exhausted pool has no whole
word behind it, and a block that begins at `2 ^ 32` has an address in front of the program. -/
theorem fits_of_grant_safe {mc : Manycore} {p : Coord} {program : Program} {size : ℕ}
    (h : PoolOk program)
    (hs : Grant.Safe mc ⟨p, program.dramEnd,
      UInt32.ofNat (MemoryManager.alloc program.memoryManager size).1,
      blockSize program.memoryManager size⟩) :
    ∃ b, firstFit program.memoryManager.freeBufferList
        (blockSize program.memoryManager size) = some b ∧
      ∀ e, b.first ≤ e → e < b.first + blockSize program.memoryManager size →
        e < 2 ^ 32 ∧ Backed mc p e := by
  have hpos := blockSize_pos h.alignment size
  obtain ⟨hwrap, hbyte⟩ := hs
  cases hf : firstFit program.memoryManager.freeBufferList
      (blockSize program.memoryManager size) with
  | none =>
    have hdvd := Nat.dvd_trans h.words
      (Nat.dvd_of_mod_eq_zero (MemoryManager.blockSize_mod h.alignment size))
    have hfour := Nat.le_of_dvd hpos hdvd
    rw [MemoryManager.alloc_of_none hf] at hwrap
    have hnull : (UInt32.ofNat MemoryManager.null).toNat = 2 ^ 32 - 1 := by decide
    simp only [hnull] at hwrap
    omega
  | some b =>
    rw [MemoryManager.alloc_of_some hf] at hwrap hbyte
    simp only at hwrap hbyte
    have hle := h.low.free b (MemoryManager.firstFit_some hf).1
    have hdram := h.dram
    have hlt : b.first < 2 ^ 32 := by
      by_contra hge
      have hzero : b.first = 2 ^ 32 := by omega
      rw [hzero] at hbyte
      have hend := UInt32.le_iff_toNat_le.mp (hbyte 0 (by decide) (by simpa using hpos)).1
      rw [UInt32.toNat_zero] at hend
      omega
    have hval : (UInt32.ofNat b.first).toNat = b.first := UInt32.toNat_ofNat_of_lt' hlt
    rw [hval] at hwrap hbyte
    refine ⟨b, rfl, fun e h1 h2 => ?_⟩
    have he : e < 2 ^ 32 := by omega
    have hnat : (UInt32.ofNat e).toNat = e := UInt32.toNat_ofNat_of_lt' he
    have hin := (hbyte (UInt32.ofNat e) (by rwa [hnat]) (by rwa [hnat])).2
    rw [inPodMemory_iff, hnat] at hin
    exact ⟨he, hin.2⟩

theorem next_invariant {mc : Manycore} {s : State} {e : Event} (h : Invariant mc s)
    (hend : EndsInPod mc s e) (hfit : Fits mc s e) : Invariant mc (next mc.config s e) := by
  cases e with
  | programInit podId programEnd =>
    simp only [next]
    split
    · exact h
    · next pods hp => exact ⟨programInit_podOk h.pods hend hfit hp, h.granted⟩
  | malloc podId size =>
    cases hp : programOf s.pods podId with
    | none =>
      obtain ⟨err, he⟩ := podMalloc_of_none size hp
      simp only [next, hp, he]
      exact h
    | some found =>
      obtain ⟨pod, program⟩ := found
      obtain ⟨hc, hprog⟩ := programOf_eq_some hp
      have hpool := h.pods pod (checkPodId_mem hc) program hprog
      obtain ⟨b, hb, hback⟩ := hfit pod program hp
      have hpos := blockSize_pos hpool.alignment size.toNat
      have hlast := (hback (b.first + blockSize program.memoryManager size.toNat - 1)
        (by omega) (by omega)).1
      simp only [next, hp, podMalloc_eq hp]
      refine ⟨set_podOk h.pods (alloc_podOk hpool hb (by omega)), ?_⟩
      intro g hg
      rcases List.mem_cons.mp hg with rfl | hg
      · rw [MemoryManager.alloc_of_some hb]
        exact grant_safe hpool hb hback
      · exact h.granted g hg
  | free podId eva =>
    simp only [next]
    split
    · exact h
    · next pods hp => exact ⟨podFree_podOk h.pods hp, h.granted⟩

theorem initial_invariant (mc : Manycore) : Invariant mc ⟨deviceInit mc.config, []⟩ := by
  refine ⟨?_, fun g hg => by cases hg⟩
  intro pod hpod program hprogram
  obtain ⟨i, -, rfl⟩ := List.mem_map.mp hpod
  cases hprogram

theorem reachable_invariant {mc : Manycore} {s : State}
    (h : Transition.Reachable
      ((system mc.config).restrict fun s e => EndsInPod mc s e ∧ Fits mc s e) s) :
    Invariant mc s := by
  refine h.invariant ?_ ?_
  · rintro s rfl
    exact initial_invariant mc
  · rintro s e t hs ⟨⟨hend, hfit⟩, rfl⟩
    exact next_invariant hs hend hfit

/-- Every block that is returned lies in its pod's memory, in every run whose requests fit. -/
theorem malloc_safe (mc : Manycore) {s : State}
    (h : Transition.Reachable
      ((system mc.config).restrict fun s e => EndsInPod mc s e ∧ Fits mc s e) s) :
    ∀ g ∈ s.granted, g.Safe mc := by
  exact (reachable_invariant h).granted

/-- After such a run the next request must fit, or its block does not lie in the pod's memory. -/
theorem fits_iff_safe {mc : Manycore} {s : State}
    (h : Transition.Reachable
      ((system mc.config).restrict fun s e => EndsInPod mc s e ∧ Fits mc s e) s)
    (podId : ℤ) (size : UInt32) :
    Fits mc s (.malloc podId size) ↔
      ∀ g ∈ (next mc.config s (.malloc podId size)).granted, g.Safe mc := by
  have hinv := reachable_invariant h
  constructor
  · intro hfit
    exact (next_invariant hinv (e := .malloc podId size) trivial hfit).granted
  · intro hsafe pod program hp
    obtain ⟨hc, hprog⟩ := programOf_eq_some hp
    refine fits_of_grant_safe (hinv.pods pod (checkPodId_mem hc) program hprog) (hsafe _ ?_)
    simp only [next, hp, podMalloc_eq hp]
    exact List.mem_cons_self

def oneMalloc (cfg : Config) (size : UInt32) : State :=
  next cfg (next cfg ⟨deviceInit cfg, []⟩ (.programInit 0 (some 0x80000000))) (.malloc 0 size)

theorem oneMalloc_reachable {mc : Manycore} {size : UInt32} {allowed : State → Event → Prop}
    (hinit : allowed ⟨deviceInit mc.config, []⟩ (.programInit 0 (some 0x80000000)))
    (hmalloc : allowed (next mc.config ⟨deviceInit mc.config, []⟩
      (.programInit 0 (some 0x80000000))) (.malloc 0 size)) :
    Transition.Reachable ((system mc.config).restrict allowed) (oneMalloc mc.config size) :=
  .step (.step (.initial rfl) ⟨hinit, rfl⟩) ⟨hmalloc, rfl⟩

theorem first_inPodMemory {m : Machine} (hf : Backed ⟨m.config, true⟩ ⟨0, 0⟩ 0x80000000) :
    InPodMemory ⟨m.config, true⟩ ⟨0, 0⟩ 0x80000000 :=
  inPodMemory_iff.mpr ⟨by decide, hf⟩

/-- The single-pod machine: an allocation of 4096 bytes. -/
theorem malloc_safe_x16y8 :
    (⟨⟨0, 0⟩, 0x80000000, 0x80000080, 4096⟩ : Grant) ∈
      (oneMalloc ({} : Machine).config 4096).granted ∧
    (⟨⟨0, 0⟩, 0x80000000, 0x80000080, 4096⟩ : Grant).Safe ⟨({} : Machine).config, true⟩ := by
  have hg : (⟨⟨0, 0⟩, 0x80000000, 0x80000080, 4096⟩ : Grant) ∈
      (oneMalloc ({} : Machine).config 4096).granted := by decide
  refine ⟨hg, malloc_safe ⟨({} : Machine).config, true⟩
    (oneMalloc_reachable ⟨?_, ?_⟩ ⟨trivial, ?_⟩) _ hg⟩
  · intro pod hpod
    cases hpod
    exact first_inPodMemory ⟨by decide, by decide, by decide, by decide, by decide⟩
  · show 0x80000000 + 128 - 0x80000000 % 128 < 2 ^ 32
    decide
  · intro pod program hp
    cases hp
    refine ⟨_, rfl, fun e h1 h2 => ?_⟩
    have hb : 0x80000080 ≤ e ∧ e < 0x80000080 + 4096 := ⟨h1, h2⟩
    refine ⟨by omega, ?_⟩
    rw [backed_iff_lt (s := 7) (k := 4) (n := 2 ^ 19) ⟨by decide, by decide⟩ (by decide)
      (by decide) (by decide) (by decide) (by omega) (by omega)]
    omega

def Escapes (mc : Manycore) : Prop :=
  ∃ s, Transition.Reachable ((system mc.config).restrict (EndsInPod mc)) s ∧
    ∃ g ∈ s.granted, ¬ g.Safe mc

theorem escapes_of_oneMalloc {m : Machine} {size : UInt32} {g : Grant}
    (hf : Backed ⟨m.config, true⟩ ⟨0, 0⟩ 0x80000000)
    (hpod : checkPodId (deviceInit m.config) 0 = .ok ⟨⟨0, 0⟩, none⟩)
    (hg : g ∈ (oneMalloc m.config size).granted) (hbad : ¬ g.Safe ⟨m.config, true⟩) :
    Escapes ⟨m.config, true⟩ := by
  refine ⟨_, oneMalloc_reachable ?_ trivial, g, hg, hbad⟩
  intro pod h
  rw [hpod] at h
  cases h
  exact first_inPodMemory hf

/-- On the single-pod machine a request for `2 ^ 32 - 1` bytes, which no free block can hold,
returns the address `0xffffffff`. On a machine of four pods a block of `2 ^ 28` bytes runs
past the end of the pod's banks. -/
theorem malloc_safe_fails :
    Accepted ({} : Machine).config ∧ Escapes ⟨({} : Machine).config, true⟩ ∧
    Accepted ({ podsX := 2, podsY := 2, dramBankWords := 0x100000 } : Machine).config ∧
    Escapes ⟨({ podsX := 2, podsY := 2, dramBankWords := 0x100000 } : Machine).config, true⟩ := by
  refine ⟨Machine.config_accepted _ (by decide), ?_, Machine.config_accepted _ (by decide), ?_⟩
  · have hg : (⟨⟨0, 0⟩, 0x80000000, 0xffffffff, 2 ^ 32⟩ : Grant) ∈
        (oneMalloc ({} : Machine).config 0xffffffff).granted := by decide
    refine escapes_of_oneMalloc ⟨by decide, by decide, by decide, by decide, by decide⟩
      (by decide) hg fun h => ?_
    have hw := h.noWrap
    simp at hw
  · have hg : (⟨⟨0, 0⟩, 0x80000000, 0x80000080, 2 ^ 28⟩ : Grant) ∈
        (oneMalloc ({ podsX := 2, podsY := 2, dramBankWords := 0x100000 } : Machine).config
          0x10000000).granted := by decide
    refine escapes_of_oneMalloc ⟨by decide, by decide, by decide, by decide, by decide⟩
      (by decide) hg fun h => ?_
    have hb := (h.byte 0x88000000 (by decide) (by decide)).2
    have hbank := (inPodMemory_iff.mp hb).2.bank
    exact absurd hbank (by decide)

end PodMalloc
