import ManycoreRuntime.Buffers
import ManycoreRuntime.EvaOutcomes
import ManycoreRuntime.PodExhaustion
import ManycoreRuntime.PodGeometry

/-! # The heaps of the pods

Allocation and transfers by the host, over one memory that the pods share, striped over their
caches. As long as transfers stay in live blocks, each block is a buffer of its own. -/
namespace PodHeap

open Fallible (bind_eq_ok)
open Buffers (Heap Op Leaves splice)
open ByteStore
open Coordinate (Coord Errno toLength)
open Configuration (Config Manycore Accepted)
open ConfigPod (IsPod forall_pod podVcoreOrigin)
open DramStriping (OwnCache)
open EvaMemory
open EvaOutcomes
open EvaRanges
open EvaToNpa
open Machines (Machine)
open MemoryManager (Block Holds find)
open NpaToEva (evaToNpa defaultMap)
open PodMalloc (Pod Program InPodMemory EndsInPod Fits PodOk PoolOk programOf checkPodId
  deviceInit indexToCoordinate)
open WriteMem

structure State where
  pods : List Pod
  host : ℕ → UInt8
  memory : Npa → UInt8

def State.buffer (s : State) (haddr : ℕ) (k : ℕ) : UInt8 := s.host (haddr + k)

def setBuffer (host : ℕ → UInt8) (haddr : ℕ) (buf : ℕ → UInt8) (x : ℕ) : UInt8 :=
  if haddr ≤ x then buf (x - haddr) else host x

structure Answers where
  platform : Platform
  reads : ℕ → List ReadMem.Event

def memcpyToDevice : UInt32 := 0

def memcpyToHost : UInt32 := 1

inductive Call where
  /-- `loaded` are the bytes that the loader writes, with its result. -/
  | programInit (podId : ℤ) (programEnd : Option UInt32) (loaded : List (Npa × UInt8))
      (result : Except Errno Unit)
  | malloc (podId : ℤ) (size : UInt32)
  | free (podId : ℤ) (eva : UInt32)
  | memset (podId : ℤ) (eva : UInt32) (data : UInt8) (sz : ℕ) (answers : Answers)
  | memcpy (podId : ℤ) (dst src : UInt64) (bytes : UInt32) (kind : UInt32) (answers : Answers)

section Calls

variable (mc : Manycore)

def meshOrigin (pods : List Pod) (podId : ℤ) : Except Errno Coord := do
  let pod ← checkPodId pods podId
  match pod.program with
  | none => .error .undefined
  | some _ => return podVcoreOrigin mc.config pod.podCoord

def status (r : Except Errno Unit) : Except Errno UInt32 := r.map fun _ => 0

def podMemcpyToDevice (s : State) (podId : ℤ) (daddr : UInt32) (haddr bytes : ℕ)
    (platform : Platform) : Option (Except Errno Unit × State) :=
  match meshOrigin mc s.pods podId with
  | .error e => some (.error e, s)
  | .ok origin =>
    (evaWrite mc defaultMap origin platform daddr haddr (s.buffer haddr) bytes []).map
      fun r => (r.1, { s with memory := deliver s.memory r.2 })

def podMemcpyToHost (s : State) (podId : ℤ) (haddr : ℕ) (daddr : UInt32) (bytes : ℕ)
    (reads : ℕ → List ReadMem.Event) : Option (Except Errno Unit × State) :=
  match meshOrigin mc s.pods podId with
  | .error e => some (.error e, s)
  | .ok origin =>
    (evaRead mc defaultMap origin s.memory reads daddr haddr (s.buffer haddr) bytes).map
      fun r => (r.1, { s with host := setBuffer s.host haddr r.2.2 })

def podMemset (s : State) (podId : ℤ) (eva : UInt32) (data : UInt8) (sz : ℕ)
    (platform : Platform) : Option (Except Errno Unit × State) :=
  match meshOrigin mc s.pods podId with
  | .error e => some (.error e, s)
  | .ok origin =>
    (evaMemset mc defaultMap origin platform eva data sz []).map
      fun r => (r.1, { s with memory := deliver s.memory r.2 })

/-- An address of the device is the low half of the pointer that stands for it. -/
def podMemcpy (s : State) (podId : ℤ) (dst src : UInt64) (bytes : UInt32) (kind : UInt32)
    (answers : Answers) : Option (Except Errno Unit × State) :=
  match checkPodId s.pods podId with
  | .error e => some (.error e, s)
  | .ok _ =>
    if kind = memcpyToDevice then
      podMemcpyToDevice mc s podId dst.toUInt32 src.toNat bytes.toNat answers.platform
    else if kind = memcpyToHost then
      podMemcpyToHost mc s podId dst.toNat src.toUInt32 bytes.toNat answers.reads
    else some (.error .invalid, s)

/-- No result means that the answers are not those of honest hardware. -/
def exec (s : State) : Call → Option (Except Errno UInt32 × State)
  | .programInit podId programEnd loaded result =>
    match PodMalloc.programInit mc.config s.pods podId programEnd with
    | .error e => some (.error e, s)
    | .ok pods =>
      some (status result, { s with pods := pods, memory := applyLog s.memory loaded })
  | .malloc podId size =>
    let (result, pods) := PodMalloc.podMalloc s.pods podId size
    some (result, { s with pods := pods })
  | .free podId eva =>
    match PodMalloc.podFree s.pods podId eva with
    | .error e => some (.error e, s)
    | .ok pods => some (.ok 0, { s with pods := pods })
  | .memset podId eva data sz answers =>
    (podMemset mc s podId eva data sz answers.platform).map fun r => (status r.1, r.2)
  | .memcpy podId dst src bytes kind answers =>
    (podMemcpy mc s podId dst src bytes kind answers).map fun r => (status r.1, r.2)

def system : Transition.System State (Call × Except Errno UInt32) where
  initial s := s.pods = deviceInit mc.config
  step s e t := exec mc s e.1 = some (e.2, t)

end Calls

section Abstraction

variable (mc : Manycore)

def bytePlace (p : Coord) (e : ℕ) : Npa :=
  placeAt mc (podVcoreOrigin mc.config p) (UInt32.ofNat e) 0

def live (pods : List Pod) (podId : ℤ) (base : ℕ) : Option (Coord × Block) :=
  (programOf pods podId).bind fun found =>
    (find found.2.memoryManager base).map fun b => (found.1.podCoord, b)

def contents (memory : Npa → UInt8) (p : Coord) (b : Block) : List UInt8 :=
  (List.range b.size).map fun i => memory (bytePlace mc p (b.first + i))

def heapOf (s : State) : Heap ℤ UInt8 where
  buffer podId base :=
    (live s.pods podId base).map fun found => contents mc s.memory found.1 found.2
  caller := s.host

/-- The operation on buffers that a call stands for. -/
def opOf : Call → Op ℤ UInt8
  | .programInit podId _ _ _ => .reset podId
  | .malloc podId size => .alloc podId size.toNat
  | .free podId eva => .free podId eva.toNat
  | .memset podId eva data sz _ => .fill podId eva.toNat sz data
  | .memcpy podId dst src bytes kind _ =>
    if kind = memcpyToDevice then .store podId dst.toUInt32.toNat bytes.toNat src.toNat
    else if kind = memcpyToHost then .load podId src.toUInt32.toNat bytes.toNat dst.toNat
    else .other

def label (e : Call × Except Errno UInt32) : Op ℤ UInt8 × Option ℕ :=
  (opOf e.1, e.2.toOption.map UInt32.toNat)

def InBlock (pods : List Pod) (podId : ℤ) (addr n : ℕ) : Prop :=
  ∃ base p b, live pods podId base = some (p, b) ∧ b.first ≤ addr ∧ addr + n ≤ b.first + b.size

/-- Programs and requests that fit the pod's memory, a loader that keeps to its pod, and
transfers that keep to live blocks. -/
def Allowed (s : State) (e : Call × Except Errno UInt32) : Prop :=
  match e.1 with
  | .programInit podId programEnd loaded _ =>
    EndsInPod mc ⟨s.pods, []⟩ (.programInit podId programEnd) ∧
    Fits mc ⟨s.pods, []⟩ (.programInit podId programEnd) ∧
    ∀ pod, checkPodId s.pods podId = .ok pod → ∀ w ∈ loaded, ∀ q, IsPod mc.config q →
      OwnCache mc.config q w.1.xy → q = pod.podCoord
  | .malloc podId size => Fits mc ⟨s.pods, []⟩ (.malloc podId size)
  | .free _ _ => True
  | .memset podId eva _ sz _ => InBlock s.pods podId eva.toNat sz
  | .memcpy podId dst src bytes kind _ =>
    if kind = memcpyToDevice then InBlock s.pods podId dst.toUInt32.toNat bytes.toNat
    else if kind = memcpyToHost then InBlock s.pods podId src.toUInt32.toNat bytes.toNat
    else True

end Abstraction

/-- A machine whose pods do not overlap, with stripes that the caches can hold. -/
structure HeapMachine (mc : Manycore) (s k : ℕ) : Prop where
  accepted : Accepted mc.config
  regular : PodGeometry.Regular mc.config
  tileRows : 1 ≤ ConfigPod.tileBitsY mc.config
  striped : DramTranslation.Striped mc s k
  stripe : s ≤ DramTranslation.addrBits mc
  packets : FitsPacket mc.config

section Places

variable {mc : Manycore} {s k : ℕ} {p q : Coord}

theorem ownCache_pod (h : HeapMachine mc s k) (hp : IsPod mc.config p) {co : Coord}
    (hco : OwnCache mc.config p co) : ConfigPod.pod mc.config co = p := by
  obtain ⟨hlo, hhi, hrow⟩ := hco
  have hcol : co.x = (podVcoreOrigin mc.config p).x +
      UInt32.ofNat (co.x.toNat - (podVcoreOrigin mc.config p).x.toNat) := by
    have hlt := co.x.toNat_lt
    rw [← UInt32.toNat_inj, UInt32.toNat_add, UInt32.toNat_ofNat']
    omega
  obtain ⟨row, hlt, he⟩ : ∃ row < 2, co.y = DramStriping.edgeY mc.config p row := by
    rcases hrow with hy | hy
    · exact ⟨0, by decide, hy⟩
    · exact ⟨1, by decide, hy⟩
  have hcache : co = PodGeometry.cache mc.config p row
      (co.x.toNat - (podVcoreOrigin mc.config p).x.toNat) := by
    rw [PodGeometry.cache, ← hcol, ← he]
  rw [hcache]
  exact h.regular.placed.cache_pod h.tileRows hp hlt (by omega)

theorem placeAt_eq_bytePlace (eva : UInt32) (i : ℕ) :
    placeAt mc (podVcoreOrigin mc.config p) eva i = bytePlace mc p (eva.toNat + i) := by
  have hadv : advance (UInt32.ofNat (eva.toNat + i)) 0 = advance eva i := by
    rw [advance_zero, UInt32.ofNat_add, UInt32.ofNat_toNat, advance]
  rw [bytePlace, placeAt, placeAt, hadv]

theorem bytePlace_named {e : ℕ} (h : InPodMemory mc p (UInt32.ofNat e)) :
    (∃ n, evaToNpa mc defaultMap (podVcoreOrigin mc.config p) (UInt32.ofNat e) =
      .ok (bytePlace mc p e, n)) ∧ OwnCache mc.config p (bytePlace mc p e).xy := by
  obtain ⟨-, npa, n, ht, hown, -⟩ := h
  have hplace : bytePlace mc p e = npa := by
    refine placeAt_of_ok (n := n) ?_
    rw [advance_zero]
    exact ht
  rw [hplace]
  exact ⟨⟨n, ht⟩, hown⟩

/-- Bytes of the pods' memories share no place. -/
theorem bytePlace_injective (h : HeapMachine mc s k) (hp : IsPod mc.config p)
    (hq : IsPod mc.config q) {e e' : ℕ} (hlt : e < 2 ^ 32) (hlt' : e' < 2 ^ 32)
    (he : InPodMemory mc p (UInt32.ofNat e)) (he' : InPodMemory mc q (UInt32.ofNat e'))
    (hplace : bytePlace mc p e = bytePlace mc q e') : p = q ∧ e = e' := by
  obtain ⟨⟨n, ht⟩, hown⟩ := bytePlace_named he
  obtain ⟨⟨n', ht'⟩, hown'⟩ := bytePlace_named he'
  have hpq : p = q := by
    rw [← ownCache_pod h hp hown, hplace]
    exact ownCache_pod h hq hown'
  subst hpq
  rw [← hplace] at ht'
  have hd := (TileTranslation.isDram_iff _).mp he.1
  have hd' := (TileTranslation.isDram_iff _).mp he'.1
  have hy := h.accepted.limits.podShapeY.trans (by decide : _ ≤ 2 ^ 31)
  have heq := dram_injective h.striped.fields h.striped.columns_pos hy hd hd' ht ht'
  rw [UInt32.toNat_ofNat_of_lt' hlt, UInt32.toNat_ofNat_of_lt' hlt'] at heq
  exact ⟨rfl, heq⟩

end Places

structure BlockInPod (mc : Manycore) (p : Coord) (b : Block) : Prop where
  noWrap : b.first + b.size ≤ 2 ^ 32
  dram : 2 ^ 31 ≤ b.first
  byte : ∀ e, Holds e b → InPodMemory mc p (UInt32.ofNat e)

structure PodsInPlace (mc : Manycore) (pods : List Pod) : Prop where
  coord : ∀ i pod, pods[i]? = some pod →
    i < (toLength mc.config.pods).toNat ∧ pod.podCoord = indexToCoordinate i mc.config.pods
  live : ∀ pod ∈ pods, ∀ program, pod.program = some program →
    ∀ b ∈ program.memoryManager.busyBufferList, BlockInPod mc pod.podCoord b

section Pods

variable {mc : Manycore} {pods : List Pod} {podId : ℤ} {pod : Pod}

theorem PodsInPlace.set (h : PodsInPlace mc pods) (hpod : checkPodId pods podId = .ok pod)
    {program : Program} (hlive : ∀ b ∈ program.memoryManager.busyBufferList,
      BlockInPod mc pod.podCoord b) :
    PodsInPlace mc (pods.set podId.toNat { pod with program := some program }) := by
  constructor
  · intro i q hq
    rw [List.getElem?_set] at hq
    split at hq
    · next he =>
      subst he
      split at hq
      · cases hq
        exact h.coord _ pod (PodPool.checkPodId_get hpod)
      · cases hq
    · exact h.coord i q hq
  · intro q hq r hr
    rcases List.mem_or_eq_of_mem_set hq with hq | rfl
    · exact h.live q hq r hr
    · cases hr
      exact hlive

theorem blockInPod_of_safe {p : Coord} {dramEnd : UInt32} {b : Block} {size : ℕ}
    (hpos : 0 < size) (hfirst : b.first < 2 ^ 32)
    (h : PodMalloc.Grant.Safe mc ⟨p, dramEnd, UInt32.ofNat b.first, size⟩) :
    BlockInPod mc p ⟨b.first, size⟩ := by
  have hval : (UInt32.ofNat b.first).toNat = b.first := UInt32.toNat_ofNat_of_lt' hfirst
  have hwrap := h.noWrap
  simp only [hval] at hwrap
  have hbyte : ∀ e, Holds e ⟨b.first, size⟩ → InPodMemory mc p (UInt32.ofNat e) := by
    rintro e ⟨hlo, hhi⟩
    simp only at hlo hhi
    have he : (UInt32.ofNat e).toNat = e := UInt32.toNat_ofNat_of_lt' (by
      simp only [UInt32.size]
      omega)
    exact (h.byte (UInt32.ofNat e) (by rw [hval, he]; exact hlo) (by rw [hval, he]; exact hhi)).2
  refine ⟨hwrap, ?_, hbyte⟩
  have hd := (TileTranslation.isDram_iff _).mp (hbyte b.first ⟨le_rfl, by simp only; omega⟩).1
  rw [hval] at hd
  exact hd

theorem next_inPlace {s : PodMalloc.State} {e : PodMalloc.Event}
    (hok : ∀ q ∈ s.pods, PodOk q) (hfit : Fits mc s e) (h : PodsInPlace mc s.pods) :
    PodsInPlace mc (PodMalloc.next mc.config s e).pods := by
  cases e with
  | programInit podId programEnd =>
    simp only [PodMalloc.next]
    split
    · exact h
    · next pods hp =>
      unfold PodMalloc.programInit at hp
      rw [bind_eq_ok] at hp
      obtain ⟨pod, hpod, hp⟩ := hp
      rw [bind_eq_ok] at hp
      obtain ⟨program, hprogram, hp⟩ := hp
      cases hp
      refine h.set hpod ?_
      cases programEnd with
      | none => cases hprogram
      | some programEnd =>
        obtain ⟨manager, -, hm, rfl⟩ := PodMalloc.programAllocatorInit_eq_ok hprogram
        unfold MemoryManager.init at hm
        split at hm
        · cases hm
          intro b hb
          cases hb
        · cases hm
  | malloc podId size =>
    cases hp : programOf s.pods podId with
    | none =>
      obtain ⟨err, he⟩ := PodMalloc.podMalloc_of_none size hp
      simp only [PodMalloc.next, hp, he]
      exact h
    | some found =>
      obtain ⟨pod, program⟩ := found
      obtain ⟨hc, hprogram⟩ := PodMalloc.programOf_eq_some hp
      have hpod := PodMalloc.checkPodId_mem hc
      have hpool := hok pod hpod program hprogram
      obtain ⟨b, hb, hback⟩ := hfit pod program hp
      have hpos := PodMalloc.blockSize_pos hpool.alignment size.toNat
      simp only [PodMalloc.next, hp, PodMalloc.podMalloc_eq hp]
      refine h.set hc ?_
      rw [MemoryManager.alloc_of_some hb]
      intro c hcb
      rcases List.mem_append.mp hcb with hcb | hcb
      · exact h.live pod hpod program hprogram c hcb
      · rcases List.mem_singleton.mp hcb with rfl
        exact blockInPod_of_safe hpos (hback b.first le_rfl (by omega)).1
          (PodMalloc.grant_safe hpool hb hback)
  | free podId eva =>
    simp only [PodMalloc.next]
    split
    · exact h
    · next pods hp =>
      unfold PodMalloc.podFree at hp
      rw [bind_eq_ok] at hp
      obtain ⟨pod, hpod, hp⟩ := hp
      cases hprogram : pod.program with
      | none =>
        rw [hprogram] at hp
        cases hp
      | some program =>
        rw [hprogram] at hp
        cases hp
        refine h.set hpod ?_
        intro b hb
        refine h.live pod (PodMalloc.checkPodId_mem hpod) program hprogram b ?_
        simp only [Program.free, MemoryManager.free] at hb
        split at hb
        · exact hb
        · exact List.mem_of_mem_eraseP hb

end Pods

section Lookup

variable {pods : List Pod} {podId : ℤ} {pod : Pod}

theorem checkPodId_nonneg (h : checkPodId pods podId = .ok pod) : 0 ≤ podId := by
  unfold checkPodId at h
  split at h
  · cases h
  · next hneg => exact Int.not_lt.mp hneg

theorem programOf_set (h : checkPodId pods podId = .ok pod) (program : Program) (id : ℤ) :
    programOf (pods.set podId.toNat { pod with program := some program }) id =
      if id = podId then some ({ pod with program := some program }, program)
      else programOf pods id := by
  have hid := checkPodId_nonneg h
  have hlt := (List.getElem?_eq_some_iff.mp (PodPool.checkPodId_get h)).1
  by_cases he : id = podId
  · subst he
    simp only [programOf, checkPodId, Int.not_lt.mpr hid, if_false,
      List.getElem?_set_self hlt, if_true, Option.map_some]
  · rw [if_neg he]
    by_cases hneg : id < 0
    · simp only [programOf, checkPodId, hneg, if_true]
    · have hne : podId.toNat ≠ id.toNat := by omega
      simp only [programOf, checkPodId, hneg, if_false, List.getElem?_set_ne hne]

theorem live_set (h : checkPodId pods podId = .ok pod) (program : Program) (id : ℤ) (base : ℕ) :
    live (pods.set podId.toNat { pod with program := some program }) id base =
      if id = podId then (find program.memoryManager base).map fun b => (pod.podCoord, b)
      else live pods id base := by
  rw [live, programOf_set h]
  split
  · rfl
  · rfl

theorem live_of_program {program : Program} (h : programOf pods podId = some (pod, program))
    (base : ℕ) :
    live pods podId base = (find program.memoryManager base).map fun b => (pod.podCoord, b) := by
  rw [live, h, Option.bind_some]

theorem live_eq_some {base : ℕ} {p : Coord} {b : Block}
    (h : live pods podId base = some (p, b)) :
    ∃ pod program, programOf pods podId = some (pod, program) ∧ pod.podCoord = p ∧
      find program.memoryManager base = some b := by
  obtain ⟨⟨pod, program⟩, hp, hb⟩ := Option.bind_eq_some_iff.mp h
  obtain ⟨b', hf, he⟩ := Option.map_eq_some_iff.mp hb
  simp only [Prod.mk.injEq] at he
  obtain ⟨rfl, rfl⟩ := he
  exact ⟨pod, program, hp, rfl, hf⟩

theorem find_first {m : MemoryManager.Manager} {base : ℕ} {b : Block} (h : find m base = some b) :
    b.first = base ∧ b ∈ m.busyBufferList := by
  have hp := List.find?_some h
  exact ⟨of_decide_eq_true hp, List.mem_of_find?_eq_some h⟩

theorem find?_eraseP {α : Type} {p q : α → Bool} (h : ∀ a, q a = true → p a = false)
    (l : List α) : (l.eraseP q).find? p = l.find? p := by
  induction l with
  | nil => rfl
  | cons a l ih =>
    by_cases hq : q a = true
    · rw [List.eraseP_cons_of_pos hq, List.find?_cons_of_neg (by simp [h a hq])]
    · rw [List.eraseP_cons_of_neg hq]
      simp only [List.find?_cons, ih]

theorem find_freed {m : MemoryManager.Manager} (hm : PodExhaustion.Solid m) {buf : ℕ} {b : Block}
    (hf : find m buf = some b) :
    (m.busyBufferList.eraseP fun b => b.first = buf).find? (fun b => b.first = buf) = none := by
  apply List.find?_eq_none.mpr
  intro c hc hp
  obtain ⟨hb, hmem⟩ := find_first hf
  have hfirst : c.first = buf := of_decide_eq_true hp
  have hpos := hm.live b hmem
  have hcpos := hm.live c (List.mem_of_mem_eraseP hc)
  -- two blocks at one address would both hold it
  have hcover := hm.cover buf
  rw [MemoryManager.cover_perm (MemoryManager.find_perm hf), MemoryManager.cover_cons] at hcover
  have hone : 0 < MemoryManager.cover (m.busyBufferList.eraseP fun b => b.first = buf) buf :=
    MemoryManager.cover_pos_iff.mpr ⟨c, hc, hfirst.le, by omega⟩
  have hheld : MemoryManager.held buf b.first b.size = 1 := by
    rw [MemoryManager.held, if_pos ⟨hb.le, by omega⟩]
  have hle := PodExhaustion.held_le buf m.start m.size
  omega

theorem find_free {m : MemoryManager.Manager} (hm : PodExhaustion.Solid m) (buf base : ℕ) :
    find (MemoryManager.free m buf) base = if base = buf then none else find m base := by
  cases hf : find m buf with
  | none =>
    have hfree : MemoryManager.free m buf = m := by
      simp only [MemoryManager.free, hf]
    rw [hfree]
    by_cases he : base = buf
    · rw [if_pos he, he, hf]
    · rw [if_neg he]
  | some b =>
    have hbusy : (MemoryManager.free m buf).busyBufferList =
        m.busyBufferList.eraseP fun b => b.first = buf := by
      simp only [MemoryManager.free, hf]
    rw [find, hbusy]
    by_cases he : base = buf
    · rw [if_pos he, he]
      exact find_freed hm hf
    · rw [if_neg he, find]
      apply find?_eraseP
      intro c hc
      have hfirst : c.first = buf := of_decide_eq_true hc
      exact decide_eq_false (by omega)

theorem find_alloc {m : MemoryManager.Manager} {size : ℕ} {b : Block}
    (hb : MemoryManager.firstFit m.freeBufferList (MemoryManager.blockSize m size) = some b)
    (base : ℕ) (hfresh : find m b.first = none) :
    find (MemoryManager.alloc m size).2 base =
      if base = b.first then some ⟨b.first, MemoryManager.blockSize m size⟩ else find m base := by
  rw [MemoryManager.alloc_of_some hb]
  simp only [find, List.find?_append, List.find?_singleton]
  by_cases he : base = b.first
  · subst he
    rw [find] at hfresh
    simp [hfresh]
  · simp [he, Ne.symm he]

end Lookup

inductive Does (mc : Manycore) (s : State) : Call → Except Errno UInt32 → State → Prop where
  | refuse (c : Call) (e : Errno) : Does mc s c (.error e) s
  | programInit {podId : ℤ} {programEnd : UInt32} {loaded : List (Npa × UInt8)}
      {result : Except Errno Unit} {pod : Pod} {program : Program}
      (pod_ok : checkPodId s.pods podId = .ok pod)
      (init : PodMalloc.programAllocatorInit mc.config (some programEnd) = .ok program) :
      Does mc s (.programInit podId (some programEnd) loaded result) (status result)
        { s with
          pods := s.pods.set podId.toNat { pod with program := some program }
          memory := applyLog s.memory loaded }
  | malloc {podId : ℤ} {size : UInt32} {pod : Pod} {program : Program}
      (found : programOf s.pods podId = some (pod, program)) :
      Does mc s (.malloc podId size)
        (.ok (UInt32.ofNat (MemoryManager.alloc program.memoryManager size.toNat).1))
        { s with
          pods := s.pods.set podId.toNat { pod with program := some { program with
            memoryManager := (MemoryManager.alloc program.memoryManager size.toNat).2 } } }
  | free {podId : ℤ} {eva : UInt32} {pod : Pod} {program : Program}
      (found : programOf s.pods podId = some (pod, program)) :
      Does mc s (.free podId eva) (.ok 0)
        { s with pods := s.pods.set podId.toNat { pod with program := some (program.free eva) } }
  | memset {podId : ℤ} {eva : UInt32} {data : UInt8} {sz : ℕ} {answers : Answers} {pod : Pod}
      {program : Program} {r : Except Errno Unit} {sent : List Packets.RequestPacket}
      (found : programOf s.pods podId = some (pod, program))
      (run : evaMemset mc defaultMap (podVcoreOrigin mc.config pod.podCoord) answers.platform eva
        data sz [] = some (r, sent)) :
      Does mc s (.memset podId eva data sz answers) (status r)
        { s with memory := deliver s.memory sent }
  | toDevice {podId : ℤ} {dst src : UInt64} {bytes : UInt32} {answers : Answers} {pod : Pod}
      {program : Program} {r : Except Errno Unit} {sent : List Packets.RequestPacket}
      (found : programOf s.pods podId = some (pod, program))
      (run : evaWrite mc defaultMap (podVcoreOrigin mc.config pod.podCoord) answers.platform
        dst.toUInt32 src.toNat (s.buffer src.toNat) bytes.toNat [] = some (r, sent)) :
      Does mc s (.memcpy podId dst src bytes memcpyToDevice answers) (status r)
        { s with memory := deliver s.memory sent }
  | toHost {podId : ℤ} {dst src : UInt64} {bytes : UInt32} {answers : Answers} {pod : Pod}
      {program : Program} {r : Except Errno Unit} {calls : ℕ} {buf : ℕ → UInt8}
      (found : programOf s.pods podId = some (pod, program))
      (run : evaRead mc defaultMap (podVcoreOrigin mc.config pod.podCoord) s.memory answers.reads
        src.toUInt32 dst.toNat (s.buffer dst.toNat) bytes.toNat = some (r, calls, buf)) :
      Does mc s (.memcpy podId dst src bytes memcpyToHost answers) (status r)
        { s with host := setBuffer s.host dst.toNat buf }

section Exec

variable {mc : Manycore} {s t : State} {c : Call} {r : Except Errno UInt32}

theorem meshOrigin_eq_ok {pods : List Pod} {podId : ℤ} {origin : Coord}
    (h : meshOrigin mc pods podId = .ok origin) :
    ∃ pod program, programOf pods podId = some (pod, program) ∧
      origin = podVcoreOrigin mc.config pod.podCoord := by
  unfold meshOrigin at h
  rw [bind_eq_ok] at h
  obtain ⟨pod, hpod, h⟩ := h
  cases hp : pod.program with
  | none =>
    rw [hp] at h
    cases h
  | some program =>
    rw [hp] at h
    cases h
    refine ⟨pod, program, ?_, rfl⟩
    simp only [programOf, hpod, hp, Option.map_some]

theorem does_of_exec (h : exec mc s c = some (r, t)) : Does mc s c r t := by
  cases c with
  | programInit podId programEnd loaded result =>
    simp only [exec] at h
    split at h
    · cases h
      exact .refuse _ _
    · next pods hp =>
      cases h
      unfold PodMalloc.programInit at hp
      rw [bind_eq_ok] at hp
      obtain ⟨pod, hpod, hp⟩ := hp
      rw [bind_eq_ok] at hp
      obtain ⟨program, hprogram, hp⟩ := hp
      cases hp
      cases programEnd with
      | none => cases hprogram
      | some programEnd => exact .programInit hpod hprogram
  | malloc podId size =>
    simp only [exec] at h
    cases hp : programOf s.pods podId with
    | none =>
      obtain ⟨e, he⟩ := PodMalloc.podMalloc_of_none size hp
      rw [he] at h
      cases h
      exact .refuse _ _
    | some found =>
      obtain ⟨pod, program⟩ := found
      rw [PodMalloc.podMalloc_eq hp] at h
      cases h
      exact .malloc hp
  | free podId eva =>
    simp only [exec] at h
    split at h
    · cases h
      exact .refuse _ _
    · next pods hp =>
      cases h
      unfold PodMalloc.podFree at hp
      rw [bind_eq_ok] at hp
      obtain ⟨pod, hpod, hp⟩ := hp
      cases hprogram : pod.program with
      | none =>
        rw [hprogram] at hp
        cases hp
      | some program =>
        rw [hprogram] at hp
        cases hp
        refine .free ?_
        simp only [programOf, hpod, hprogram, Option.map_some]
  | memset podId eva data sz answers =>
    obtain ⟨⟨result, u⟩, hr, he⟩ := Option.map_eq_some_iff.mp h
    cases he
    unfold podMemset at hr
    split at hr
    · cases hr
      exact .refuse _ _
    · next origin ho =>
      obtain ⟨pod, program, found, rfl⟩ := meshOrigin_eq_ok ho
      obtain ⟨⟨result, sent⟩, hrun, he⟩ := Option.map_eq_some_iff.mp hr
      cases he
      exact .memset found hrun
  | memcpy podId dst src bytes kind answers =>
    obtain ⟨⟨result, u⟩, hr, he⟩ := Option.map_eq_some_iff.mp h
    cases he
    unfold podMemcpy at hr
    split at hr
    · cases hr
      exact .refuse _ _
    · split at hr
      · next hkind =>
        subst hkind
        unfold podMemcpyToDevice at hr
        split at hr
        · cases hr
          exact .refuse _ _
        · next origin ho =>
          obtain ⟨pod, program, found, rfl⟩ := meshOrigin_eq_ok ho
          obtain ⟨⟨result, sent⟩, hrun, he⟩ := Option.map_eq_some_iff.mp hr
          cases he
          exact .toDevice found hrun
      · split at hr
        · next hkind =>
          subst hkind
          unfold podMemcpyToHost at hr
          split at hr
          · cases hr
            exact .refuse _ _
          · next origin ho =>
            obtain ⟨pod, program, found, rfl⟩ := meshOrigin_eq_ok ho
            obtain ⟨⟨result, calls, buf⟩, hrun, he⟩ := Option.map_eq_some_iff.mp hr
            cases he
            exact .toHost found hrun
        · cases hr
          exact .refuse _ _

end Exec

/-- The pods are those of a run of the allocator whose requests fit, with their live blocks in
their memory. -/
structure Invariant (mc : Manycore) (s : State) : Prop where
  allocator : ∃ granted, Transition.Reachable ((PodMalloc.system mc.config).restrict
    fun s e => EndsInPod mc s e ∧ Fits mc s e) ⟨s.pods, granted⟩
  inPlace : PodsInPlace mc s.pods

structure LiveAt (mc : Manycore) (pods : List Pod) (podId : ℤ) (base : ℕ) (p : Coord)
    (b : Block) : Prop where
  isPod : IsPod mc.config p
  nonneg : 0 ≤ podId
  index : podId.toNat < (toLength mc.config.pods).toNat
  coord : p = indexToCoordinate podId.toNat mc.config.pods
  first : b.first = base
  pos : 0 < b.size
  inPod : BlockInPod mc p b

section Proof

variable {mc : Manycore} {s : State} {podId : ℤ}

theorem Invariant.podOk (h : Invariant mc s) : ∀ pod ∈ s.pods, PodOk pod := by
  obtain ⟨granted, hr⟩ := h.allocator
  refine (Transition.Reachable.invariant ?_ ?_ hr : PodMalloc.Invariant mc ⟨s.pods, granted⟩).pods
  · rintro s rfl
    exact PodMalloc.initial_invariant mc
  · rintro s e t hs ⟨⟨hend, hfit⟩, rfl⟩
    exact PodMalloc.next_invariant hs hend hfit

theorem Invariant.solid (h : Invariant mc s) {pod : Pod} {program : Program}
    (hp : programOf s.pods podId = some (pod, program)) :
    PodExhaustion.Solid program.memoryManager := by
  obtain ⟨granted, hr⟩ := h.allocator
  exact PodExhaustion.reachable_solid hr.of_restrict hp

theorem Invariant.liveAt (h : Invariant mc s) {base : ℕ} {p : Coord} {b : Block}
    (hl : live s.pods podId base = some (p, b)) : LiveAt mc s.pods podId base p b := by
  obtain ⟨pod, program, hp, rfl, hf⟩ := live_eq_some hl
  obtain ⟨hc, hprogram⟩ := PodMalloc.programOf_eq_some hp
  obtain ⟨hfirst, hmem⟩ := find_first hf
  obtain ⟨hlt, hcoord⟩ := h.inPlace.coord _ pod (PodPool.checkPodId_get hc)
  refine ⟨?_, checkPodId_nonneg hc, hlt, hcoord, hfirst, (h.solid hp).live b hmem, ?_⟩
  · rw [hcoord]
    exact (PodMalloc.indexToCoordinate_spec hlt).1
  · exact h.inPlace.live pod (PodMalloc.checkPodId_mem hc) program hprogram b hmem

theorem BlockInPod.holds_lt {p : Coord} {b : Block} (h : BlockInPod mc p b) {e : ℕ}
    (he : Holds e b) : e < 2 ^ 32 := by
  have hw := h.noWrap
  have hhi := he.2
  omega

/-- Two bytes of live blocks at one place are bytes of one block. -/
theorem Invariant.same_block {k n : ℕ} (hm : HeapMachine mc k n) (h : Invariant mc s)
    {podId' : ℤ} {base base' : ℕ} {p p' : Coord} {b b' : Block}
    (hl : live s.pods podId base = some (p, b)) (hl' : live s.pods podId' base' = some (p', b'))
    {e e' : ℕ} (he : Holds e b) (he' : Holds e' b')
    (hplace : bytePlace mc p e = bytePlace mc p' e') : podId = podId' ∧ base = base' ∧ e = e' := by
  have hb := h.liveAt hl
  have hb' := h.liveAt hl'
  obtain ⟨hpp, rfl⟩ := bytePlace_injective hm hb.isPod hb'.isPod (hb.inPod.holds_lt he)
    (hb'.inPod.holds_lt he') (hb.inPod.byte e he) (hb'.inPod.byte e' he') hplace
  subst hpp
  have hid : podId = podId' := by
    have hi := (PodMalloc.indexToCoordinate_spec hb.index).2
    have hi' := (PodMalloc.indexToCoordinate_spec hb'.index).2
    rw [← hb.coord] at hi
    rw [← hb'.coord, hi] at hi'
    have := hb.nonneg
    have := hb'.nonneg
    omega
  subst hid
  obtain ⟨pod, program, hp, -, hf⟩ := live_eq_some hl
  obtain ⟨pod', program', hp', -, hf'⟩ := live_eq_some hl'
  rw [hp] at hp'
  cases hp'
  have hcover : ∀ x, MemoryManager.cover program.memoryManager.busyBufferList x ≤ 1 := by
    intro x
    have hc := (h.solid hp).cover x
    have hle := PodExhaustion.held_le x program.memoryManager.start program.memoryManager.size
    omega
  have hbb := PodExhaustion.eq_of_holds hcover (find_first hf).2 (find_first hf').2 he he'
  exact ⟨rfl, by rw [← hb.first, ← hb'.first, hbb], rfl⟩

theorem contents_length (mc : Manycore) (memory : Npa → UInt8) (p : Coord) (b : Block) :
    (contents mc memory p b).length = b.size := by
  rw [contents, List.length_map, List.length_range]

theorem contents_congr {memory memory' : Npa → UInt8} {p : Coord} {b : Block}
    (h : ∀ e, Holds e b → memory' (bytePlace mc p e) = memory (bytePlace mc p e)) :
    contents mc memory' p b = contents mc memory p b := by
  apply List.map_congr_left
  intro i hi
  have hlt := List.mem_range.mp hi
  exact h _ ⟨Nat.le_add_right _ _, Nat.add_lt_add_left hlt _⟩

/-- The bytes that are written to a range of a live block replace those of its buffer, and
those of no other buffer. -/
theorem heapOf_write {k n : ℕ} (hm : HeapMachine mc k n) (h : Invariant mc s) {base m : ℕ}
    {p : Coord} {b : Block} (hl : live s.pods podId base = some (p, b)) {eva : UInt32}
    {buf : ℕ → UInt8} (hlo : b.first ≤ eva.toNat) (hhi : eva.toNat + m ≤ b.first + b.size) :
    heapOf mc { s with
      memory := applyLog s.memory (rangeLog mc (podVcoreOrigin mc.config p) eva buf m) } =
    (heapOf mc s).set podId base (some (splice (contents mc s.memory p b)
      (eva.toNat - b.first) ((List.range m).map buf))) := by
  have hlog : ∀ w ∈ rangeLog mc (podVcoreOrigin mc.config p) eva buf m,
      ∃ j < m, w = (bytePlace mc p (eva.toNat + j), buf j) := by
    intro w hw
    obtain ⟨j, hj, rfl⟩ := List.mem_map.mp hw
    exact ⟨j, List.mem_range.mp hj, by rw [placeAt_eq_bytePlace]⟩
  have hin : ∀ j < m, Holds (eva.toNat + j) b := fun j hj => ⟨by omega, by omega⟩
  -- a byte of another block, or of the block outside the range, is not in the log
  have hout : ∀ id base' p' b' e, live s.pods id base' = some (p', b') → Holds e b' →
      (∀ j < m, ¬ (id = podId ∧ base' = base ∧ e = eva.toNat + j)) →
      applyLog s.memory (rangeLog mc (podVcoreOrigin mc.config p) eva buf m)
        (bytePlace mc p' e) = s.memory (bytePlace mc p' e) := by
    intro id base' p' b' e hl' he hne
    apply applyLog_of_not_mem
    intro hmem
    obtain ⟨w, hw, hwe⟩ := List.mem_map.mp hmem
    obtain ⟨j, hj, rfl⟩ := hlog w hw
    obtain ⟨h1, h2, h3⟩ := h.same_block hm hl hl' (hin j hj) he hwe
    exact hne j hj ⟨h1.symm, h2.symm, h3.symm⟩
  have hbuffer : ∀ id base', ((live s.pods id base').map fun found => contents mc
      (applyLog s.memory (rangeLog mc (podVcoreOrigin mc.config p) eva buf m)) found.1 found.2) =
      ((heapOf mc s).set podId base (some (splice (contents mc s.memory p b)
        (eva.toNat - b.first) ((List.range m).map buf)))).buffer id base' := by
    intro id base'
    rw [Heap.set_buffer]
    by_cases hsame : id = podId ∧ base' = base
    · obtain ⟨rfl, rfl⟩ := hsame
      rw [if_pos ⟨rfl, rfl⟩, hl, Option.map_some]
      congr 1
      apply List.ext_getElem?
      intro i
      have hfit : eva.toNat - b.first + ((List.range m).map buf).length ≤
          (contents mc s.memory p b).length := by
        rw [contents_length, List.length_map, List.length_range]
        omega
      rw [Buffers.splice_get hfit, List.length_map, List.length_range]
      by_cases hi : i < b.size
      · have hget : ∀ memory : Npa → UInt8, (contents mc memory p b)[i]? =
            some (memory (bytePlace mc p (b.first + i))) := by
          intro memory
          simp [contents, hi]
        have hholds : Holds (b.first + i) b := ⟨by omega, by omega⟩
        rw [hget, hget]
        split
        · next hrange =>
          obtain ⟨j, rfl⟩ := Nat.exists_eq_add_of_le hrange.1
          have hj : j < m := by omega
          have hbyte : b.first + (eva.toNat - b.first + j) = eva.toNat + j := by omega
          rw [hbyte, Nat.add_sub_cancel_left, List.getElem?_map, List.getElem?_range hj,
            Option.map_some]
          congr 1
          refine applyLog_of_agree _ ?_ ?_
          · refine List.mem_map.mpr ⟨j, List.mem_range.mpr hj, ?_⟩
            rw [placeAt_eq_bytePlace]
          · intro w hw hwe
            obtain ⟨j', hj', rfl⟩ := hlog w hw
            have heq := (h.same_block hm hl hl (hin j' hj') (hin j hj) hwe).2.2
            rw [Nat.add_left_cancel heq]
        · next hrange =>
          rw [hout id base' p b _ hl hholds]
          intro j hj heq
          omega
      · have hnone : ∀ memory : Npa → UInt8, (contents mc memory p b)[i]? = none := by
          intro memory
          apply List.getElem?_eq_none
          rw [contents_length]
          omega
        rw [hnone, hnone, if_neg (by omega)]
    · rw [if_neg hsame]
      cases hl' : live s.pods id base' with
      | none => simp only [heapOf, hl', Option.map_none]
      | some found =>
        obtain ⟨p', b'⟩ := found
        simp only [heapOf, hl', Option.map_some]
        congr 1
        apply contents_congr
        intro e he
        exact hout id base' p' b' e hl' he fun j hj heq => hsame ⟨heq.1, heq.2.1⟩
  rw [heapOf, Heap.set, Heap.mk.injEq]
  refine ⟨?_, rfl⟩
  funext id base'
  exact hbuffer id base'

end Proof

section Steps

variable {mc : Manycore} {s t : State} {c : Call} {r : Except Errno UInt32}

theorem firstFit_apart {m : MemoryManager.Manager} (hm : PodExhaustion.Solid m) {size : ℕ}
    {b c : Block} (hb : MemoryManager.firstFit m.freeBufferList size = some b) (hpos : 0 < size)
    (hc : c ∈ m.busyBufferList) : b.first + size ≤ c.first ∨ c.first + c.size ≤ b.first := by
  obtain ⟨hmem, hsize⟩ := MemoryManager.firstFit_some hb
  by_contra hover
  rw [not_or, Nat.not_le, Nat.not_le] at hover
  have hcpos := hm.live c hc
  have hfree : 0 < MemoryManager.cover m.freeBufferList (max b.first c.first) :=
    MemoryManager.cover_pos_iff.mpr ⟨b, hmem, by omega, by omega⟩
  have hbusy : 0 < MemoryManager.cover m.busyBufferList (max b.first c.first) :=
    MemoryManager.cover_pos_iff.mpr ⟨c, hc, by omega, by omega⟩
  have hcover := hm.cover (max b.first c.first)
  have hle := PodExhaustion.held_le (max b.first c.first) m.start m.size
  omega

theorem heapOf_set {podId : ℤ} {pod : Pod} (hpod : checkPodId s.pods podId = .ok pod)
    (program : Program) (id : ℤ) (base : ℕ) :
    (heapOf mc { s with
      pods := s.pods.set podId.toNat { pod with program := some program } }).buffer id base =
    if id = podId then
      (find program.memoryManager base).map fun b => contents mc s.memory pod.podCoord b
    else (heapOf mc s).buffer id base := by
  simp only [heapOf, live_set hpod]
  split
  · rw [Option.map_map]
    rfl
  · rfl

theorem heapOf_buffer {podId : ℤ} {pod : Pod} {program : Program}
    (hp : programOf s.pods podId = some (pod, program)) (base : ℕ) :
    (heapOf mc s).buffer podId base =
      (find program.memoryManager base).map fun b => contents mc s.memory pod.podCoord b := by
  simp only [heapOf, live_of_program hp, Option.map_map]
  rfl

theorem programInit_simulates (hinv : Invariant mc s) {podId : ℤ} {pod : Pod} {program : Program}
    {programEnd : UInt32} {loaded : List (Npa × UInt8)}
    (hpod : checkPodId s.pods podId = .ok pod)
    (hinit : PodMalloc.programAllocatorInit mc.config (some programEnd) = .ok program)
    (hload : ∀ w ∈ loaded, ∀ q, IsPod mc.config q → OwnCache mc.config q w.1.xy →
      q = pod.podCoord) :
    heapOf mc { s with
      pods := s.pods.set podId.toNat { pod with program := some program }
      memory := applyLog s.memory loaded } = (heapOf mc s).clear podId := by
  refine Heap.ext (funext fun id => funext fun base => ?_) rfl
  rw [Heap.clear_buffer, heapOf]
  simp only [live_set hpod]
  split
  · obtain ⟨manager, -, hm, rfl⟩ := PodMalloc.programAllocatorInit_eq_ok hinit
    unfold MemoryManager.init at hm
    split at hm
    · cases hm
      rfl
    · cases hm
  · next hne =>
    cases hl : live s.pods id base with
    | none => simp only [heapOf, hl, Option.map_none]
    | some found =>
      obtain ⟨p, b⟩ := found
      simp only [heapOf, hl, Option.map_some]
      congr 1
      have hb := hinv.liveAt hl
      apply contents_congr
      intro e he
      apply applyLog_of_not_mem
      intro hmem
      obtain ⟨w, hw, hwe⟩ := List.mem_map.mp hmem
      have hown := (bytePlace_named (hb.inPod.byte e he)).2
      rw [← hwe] at hown
      have hpp := hload w hw p hb.isPod hown
      obtain ⟨hlt, hcoord⟩ := hinv.inPlace.coord _ pod (PodPool.checkPodId_get hpod)
      have hi := (PodMalloc.indexToCoordinate_spec hb.index).2
      have hi' := (PodMalloc.indexToCoordinate_spec hlt).2
      rw [← hb.coord, hpp, hcoord, hi'] at hi
      have := hb.nonneg
      have := checkPodId_nonneg hpod
      omega

theorem malloc_simulates (hinv : Invariant mc s) {podId : ℤ} {size : UInt32} {pod : Pod}
    {program : Program} (hp : programOf s.pods podId = some (pod, program))
    (hfit : Fits mc ⟨s.pods, []⟩ (.malloc podId size)) :
    Buffers.Step (heapOf mc s)
      (.alloc podId size.toNat,
        some (UInt32.ofNat (MemoryManager.alloc program.memoryManager size.toNat).1).toNat)
      (heapOf mc { s with
        pods := s.pods.set podId.toNat { pod with program := some { program with
          memoryManager := (MemoryManager.alloc program.memoryManager size.toNat).2 } } }) := by
  obtain ⟨hpod, hprogram⟩ := PodMalloc.programOf_eq_some hp
  have hm := hinv.solid hp
  have hpool := hinv.podOk pod (PodMalloc.checkPodId_mem hpod) program hprogram
  obtain ⟨b, hb, hback⟩ := hfit pod program hp
  have hpos := PodMalloc.blockSize_pos hpool.alignment size.toNat
  have hlt := (hback b.first le_rfl (by omega)).1
  have hfresh : find program.memoryManager b.first = none := by
    rw [Option.eq_none_iff_forall_not_mem]
    intro c hc
    obtain ⟨hfirst, hmem⟩ := find_first hc
    have hcpos := hm.live c hmem
    rcases firstFit_apart hm hb hpos hmem with h | h <;> omega
  have hval : (UInt32.ofNat (MemoryManager.alloc program.memoryManager size.toNat).1).toNat =
      b.first := by
    rw [MemoryManager.alloc_of_some hb]
    exact UInt32.toNat_ofNat_of_lt' hlt
  have hset : heapOf mc { s with
        pods := s.pods.set podId.toNat { pod with program := some { program with
          memoryManager := (MemoryManager.alloc program.memoryManager size.toNat).2 } } } =
      (heapOf mc s).set podId b.first (some (contents mc s.memory pod.podCoord
        ⟨b.first, MemoryManager.blockSize program.memoryManager size.toNat⟩)) := by
    refine Heap.ext (funext fun id => funext fun base => ?_) rfl
    rw [heapOf_set hpod, Heap.set_buffer]
    by_cases hid : id = podId
    · subst hid
      rw [if_pos rfl, find_alloc hb base hfresh, heapOf_buffer hp]
      by_cases hbase : base = b.first
      · rw [if_pos hbase, if_pos ⟨rfl, hbase⟩, Option.map_some]
      · rw [if_neg hbase, if_neg fun h => hbase h.2]
    · rw [if_neg hid, if_neg fun h => hid h.1]
  rw [hval, hset]
  refine .alloc _ ?_ ⟨?_, ?_⟩
  · rw [contents_length]
    exact PodExhaustion.le_blockSize _ _
  · rw [heapOf_buffer hp, hfresh, Option.map_none]
  · intro a cs hcs
    rw [heapOf_buffer hp] at hcs
    obtain ⟨c, hc, rfl⟩ := Option.map_eq_some_iff.mp hcs
    obtain ⟨hfirst, hmem⟩ := find_first hc
    rw [contents_length, contents_length, ← hfirst]
    exact firstFit_apart hm hb hpos hmem

theorem free_simulates (hinv : Invariant mc s) {podId : ℤ} {eva : UInt32} {pod : Pod}
    {program : Program} (hp : programOf s.pods podId = some (pod, program)) :
    heapOf mc { s with
      pods := s.pods.set podId.toNat { pod with program := some (program.free eva) } } =
    (heapOf mc s).set podId eva.toNat none := by
  obtain ⟨hpod, -⟩ := PodMalloc.programOf_eq_some hp
  refine Heap.ext (funext fun id => funext fun base => ?_) rfl
  rw [heapOf_set hpod, Heap.set_buffer]
  by_cases hid : id = podId
  · subst hid
    rw [if_pos rfl, Program.free, find_free (hinv.solid hp), heapOf_buffer hp]
    by_cases hbase : base = eva.toNat
    · rw [if_pos hbase, if_pos ⟨rfl, hbase⟩, Option.map_none]
    · rw [if_neg hbase, if_neg fun h => hbase h.2]
  · rw [if_neg hid, if_neg fun h => hid h.1]

theorem InBlock.mapped {k n : ℕ} (hm : HeapMachine mc k n) (hinv : Invariant mc s) {podId : ℤ}
    {pod : Pod} {program : Program} (hp : programOf s.pods podId = some (pod, program))
    {eva : UInt32} {sz : ℕ} (hin : InBlock s.pods podId eva.toNat sz) :
    Mapped mc (podVcoreOrigin mc.config pod.podCoord) eva sz ∧ sz < 2 ^ 32 ∧
      ∃ base b, live s.pods podId base = some (pod.podCoord, b) ∧ b.first ≤ eva.toNat ∧
        eva.toNat + sz ≤ b.first + b.size := by
  obtain ⟨base, p, b, hl, hlo, hhi⟩ := hin
  have hb := (hinv.liveAt hl).inPod
  obtain ⟨pod', program', hp', rfl, -⟩ := live_eq_some hl
  rw [hp] at hp'
  cases hp'
  have hwrap := hb.noWrap
  have hdram := hb.dram
  have hy := hm.accepted.limits.podShapeY.trans (by decide : _ ≤ 2 ^ 31)
  exact ⟨mapped_dram hm.striped hm.stripe hy (by omega) (by omega), by omega, base, b, hl, hlo, hhi⟩

theorem status_isSome {result : Except Errno Unit} :
    ((status result).toOption.map UInt32.toNat).isSome = true ↔ result = .ok () := by
  cases result <;> simp [status, Except.map, Except.toOption]

theorem write_simulates {k n : ℕ} (hm : HeapMachine mc k n) (hinv : Invariant mc s) {podId : ℤ}
    {pod : Pod} {program : Program} (hp : programOf s.pods podId = some (pod, program))
    {eva : UInt32} {sz : ℕ} (hin : InBlock s.pods podId eva.toNat sz) {buf : ℕ → UInt8}
    {sent : List Packets.RequestPacket} {result : Except Errno Unit}
    (hout : ∃ m ≤ sz, (result = .ok () → m = sz) ∧ logOf sent =
      logOf [] ++ rangeLog mc (podVcoreOrigin mc.config pod.podCoord) eva buf m) :
    Buffers.Writes (heapOf mc s) podId eva.toNat sz buf
      ((status result).toOption.map UInt32.toNat)
      (heapOf mc { s with memory := deliver s.memory sent }) := by
  obtain ⟨-, -, base, b, hl, hlo, hhi⟩ := hin.mapped hm hinv hp
  obtain ⟨m, hle, hall, hlog⟩ := hout
  have hend : eva.toNat + m ≤ b.first + b.size := by omega
  rw [deliver, hlog, logOf, List.flatMap_nil, List.nil_append, heapOf_write hm hinv hl hlo hend]
  refine .intro ⟨?_, ?_, ?_⟩ hle fun h => hall (status_isSome.mp h)
  · simp only [heapOf, hl, Option.map_some]
  · rw [← (hinv.liveAt hl).first]
    omega
  · rw [contents_length]
    omega

theorem read_simulates {k n : ℕ} (hm : HeapMachine mc k n) (hinv : Invariant mc s) {podId : ℤ}
    {pod : Pod} {program : Program} (hp : programOf s.pods podId = some (pod, program))
    {eva : UInt32} {sz haddr calls : ℕ} (hin : InBlock s.pods podId eva.toNat sz)
    {buf : ℕ → UInt8} {reads : ℕ → List ReadMem.Event} {result : Except Errno Unit}
    (hrun : evaRead mc defaultMap (podVcoreOrigin mc.config pod.podCoord) s.memory reads eva haddr
      (s.buffer haddr) sz = some (result, calls, buf)) :
    Buffers.Step (heapOf mc s)
      (.load podId eva.toNat sz haddr, (status result).toOption.map UInt32.toNat)
      (heapOf mc { s with host := setBuffer s.host haddr buf }) := by
  obtain ⟨hmap, hsz, base, b, hl, hlo, hhi⟩ := hin.mapped hm hinv hp
  have hcap : ReadMem.nIds mc ≤ 256 := hm.accepted.limits.loadCap.trans (by decide)
  obtain ⟨hframe, hread⟩ := evaRead_outcome hm.packets hcap hsz hmap hrun
  have hrange : (heapOf mc s).InBuffer podId eva.toNat sz base (eva.toNat - b.first)
      (contents mc s.memory pod.podCoord b) := by
    refine ⟨?_, ?_, ?_⟩
    · simp only [heapOf, hl, Option.map_some]
    · rw [← (hinv.liveAt hl).first]
      omega
    · rw [contents_length]
      omega
  refine .load hrange ?_ ?_
  · intro x hx
    simp only [setBuffer, heapOf]
    split
    · next hge =>
      rw [hframe _ (by omega), State.buffer, Nat.add_sub_cancel' hge]
    · rfl
  · intro h j hj
    have hbyte : b.first + (eva.toNat - b.first + j) = eva.toNat + j := by omega
    have hget : (contents mc s.memory pod.podCoord b)[eva.toNat - b.first + j]? =
        some (s.memory (bytePlace mc pod.podCoord (eva.toNat + j))) := by
      rw [contents, List.getElem?_map, List.getElem?_range (by omega), Option.map_some, hbyte]
    rw [hget, ← placeAt_eq_bytePlace, ← hread (status_isSome.mp h) j hj]
    simp only [setBuffer, Nat.le_add_right, if_true, Nat.add_sub_cancel_left]

/-- Each call is an operation on buffers. -/
theorem step_simulates {k n : ℕ} (hm : HeapMachine mc k n) (hinv : Invariant mc s)
    (hallowed : Allowed mc s (c, r)) (hd : Does mc s c r t) :
    Buffers.Step (heapOf mc s) (label (c, r)) (heapOf mc t) := by
  have hcap : ReadMem.nIds mc ≤ 256 := hm.accepted.limits.loadCap.trans (by decide)
  cases hd with
  | refuse c e => exact .refuse _
  | programInit hpod hinit =>
    rw [programInit_simulates hinv hpod hinit (hallowed.2.2 _ hpod)]
    exact .reset _ _
  | malloc hp => exact malloc_simulates hinv hp hallowed
  | free hp =>
    rw [free_simulates hinv hp]
    exact .free _ _
  | memset hp hrun =>
    obtain ⟨hmap, -⟩ := hallowed.mapped hm hinv hp
    exact .fill (write_simulates hm hinv hp hallowed (evaMemset_outcome hm.packets hmap hrun))
  | toDevice hp hrun =>
    obtain ⟨hmap, -⟩ := InBlock.mapped hm hinv hp hallowed
    exact .store (write_simulates hm hinv hp hallowed (evaWrite_outcome hm.packets hmap hrun))
  | toHost hp hrun => exact read_simulates hm hinv hp hallowed hrun

theorem Invariant.allocate (hinv : Invariant mc s) {e : PodMalloc.Event}
    (hend : ∀ granted, EndsInPod mc ⟨s.pods, granted⟩ e)
    (hfit : ∀ granted, Fits mc ⟨s.pods, granted⟩ e)
    (hpods : ∀ granted, (PodMalloc.next mc.config ⟨s.pods, granted⟩ e).pods = t.pods) :
    Invariant mc t := by
  obtain ⟨granted, hr⟩ := hinv.allocator
  constructor
  · refine ⟨(PodMalloc.next mc.config ⟨s.pods, granted⟩ e).granted, ?_⟩
    rw [← hpods granted]
    exact hr.next e ⟨⟨hend granted, hfit granted⟩, rfl⟩
  · rw [← hpods granted]
    exact next_inPlace hinv.podOk (hfit granted) hinv.inPlace

theorem Invariant.next (hinv : Invariant mc s) (hallowed : Allowed mc s (c, r))
    (hd : Does mc s c r t) : Invariant mc t := by
  cases hd with
  | refuse c e => exact hinv
  | @programInit podId programEnd loaded result pod program hpod hinit =>
    refine hinv.allocate (e := .programInit podId (some programEnd)) (fun _ => hallowed.1)
      (fun _ => hallowed.2.1) fun granted => ?_
    simp only [PodMalloc.next, PodMalloc.programInit, hpod, hinit, bind, Except.bind, pure,
      Except.pure]
  | @malloc podId size pod program hp =>
    refine hinv.allocate (e := .malloc podId size) (fun _ => trivial) (fun _ => hallowed)
      fun granted => ?_
    simp only [PodMalloc.next, hp, PodMalloc.podMalloc_eq hp]
  | @free podId eva pod program hp =>
    obtain ⟨hpod, hprogram⟩ := PodMalloc.programOf_eq_some hp
    refine hinv.allocate (e := .free podId eva) (fun _ => trivial) (fun _ => trivial)
      fun granted => ?_
    simp only [PodMalloc.next, PodMalloc.podFree, hpod, hprogram, bind, Except.bind, pure,
      Except.pure]
  | memset hp hrun => exact ⟨hinv.allocator, hinv.inPlace⟩
  | toDevice hp hrun => exact ⟨hinv.allocator, hinv.inPlace⟩
  | toHost hp hrun => exact ⟨hinv.allocator, hinv.inPlace⟩

end Steps

theorem initial_invariant {mc : Manycore} {s : State} (h : s.pods = deviceInit mc.config) :
    Invariant mc s := by
  constructor
  · refine ⟨[], .initial ?_⟩
    rw [h]
    rfl
  · rw [h]
    constructor
    · intro i pod hi
      obtain ⟨hlt, rfl⟩ := List.getElem?_eq_some_iff.mp hi
      simp only [deviceInit, List.length_map, List.length_range] at hlt
      refine ⟨hlt, ?_⟩
      simp only [deviceInit, List.getElem_map, List.getElem_range]
    · intro pod hpod program hprogram
      obtain ⟨i, -, rfl⟩ := List.mem_map.mp hpod
      cases hprogram

theorem reachable_invariant {mc : Manycore} {s : State}
    (h : Transition.Reachable ((system mc).restrict (Allowed mc)) s) : Invariant mc s := by
  refine h.invariant ?_ ?_
  · intro s hs
    exact initial_invariant hs
  · rintro s ⟨c, r⟩ t hs ⟨hallowed, hexec⟩
    exact hs.next hallowed (does_of_exec hexec)

theorem heapOf_initial {mc : Manycore} {s : State} (h : s.pods = deviceInit mc.config) :
    Buffers.system.initial (heapOf mc s) := by
  intro podId base
  cases hl : live s.pods podId base with
  | none => simp only [heapOf, hl, Option.map_none]
  | some found =>
    obtain ⟨p, b⟩ := found
    obtain ⟨pod, program, hp, -⟩ := live_eq_some hl
    obtain ⟨hc, hprogram⟩ := PodMalloc.programOf_eq_some hp
    have hmem := PodMalloc.checkPodId_mem hc
    rw [h] at hmem
    obtain ⟨i, -, rfl⟩ := List.mem_map.mp hmem
    cases hprogram

theorem path_simulates {mc : Manycore} {k n : ℕ} (hm : HeapMachine mc k n) {s t : State}
    {es : List (Call × Except Errno UInt32)}
    (hs : Transition.Reachable ((system mc).restrict (Allowed mc)) s)
    (hp : Transition.Path ((system mc).restrict (Allowed mc)) s es t) :
    Transition.Path Buffers.system (heapOf mc s) (es.map label) (heapOf mc t) := by
  refine hp.simulates ?_ hs
  rintro s ⟨c, r⟩ t hr ⟨hallowed, hexec⟩
  exact step_simulates hm (reachable_invariant hr) hallowed (does_of_exec hexec)

/-- The buffers of the pods never overlap. -/
theorem reachable_apart {mc : Manycore} {k n : ℕ} (hm : HeapMachine mc k n) {s : State}
    (h : Transition.Reachable ((system mc).restrict (Allowed mc)) s) : (heapOf mc s).Apart := by
  induction h with
  | initial hs => exact Buffers.reachable_apart (.initial (heapOf_initial hs))
  | step hs hstep ih =>
    have hspec := step_simulates hm (reachable_invariant hs) hstep.1 (does_of_exec hstep.2)
    exact hspec.apart ih

def onePod : Manycore := ⟨({} : Machine).config, true⟩

theorem onePod_heapMachine : HeapMachine onePod 7 4 :=
  ⟨Machine.config_accepted _ (by decide),
    ⟨by decide, by decide, forall_pod (by decide), forall_pod (by decide)⟩,
    by decide, ⟨by decide, by decide⟩, by decide, ⟨by decide, by decide⟩⟩

def twoWords : Answers where
  platform := takesAll
  reads _ := [.turn, .send (.ok ()), .send (.ok ()), .turn, .recv (.ok ⟨1, 0x0b0a0908⟩),
    .recv (.ok ⟨0, 0x07060504⟩), .turn, .turn]

def powerUp : State where
  pods := deviceInit onePod.config
  host i := UInt8.ofNat (i % 256)
  memory _ := 9

def withProgram : State :=
  { powerUp with
    pods := (PodMalloc.next onePod.config ⟨powerUp.pods, []⟩
      (.programInit 0 (some 0x80000000))).pods }

def withBlock : State :=
  { powerUp with pods := (PodMalloc.oneMalloc onePod.config 4096).pods }

theorem withProgram_allowed : Allowed onePod powerUp
    (.programInit 0 (some 0x80000000) [] (.ok ()), .ok 0) := by
  refine ⟨?_, ?_, fun pod _ w hw => by cases hw⟩
  · intro pod hpod
    cases hpod
    exact PodMalloc.first_inPodMemory ⟨by decide, by decide, by decide, by decide, by decide⟩
  · show 0x80000000 + 128 - 0x80000000 % 128 < 2 ^ 32
    decide

theorem withBlock_allowed : Allowed onePod withProgram (.malloc 0 4096, .ok 0x80000080) := by
  intro pod program hp
  cases hp
  refine ⟨_, rfl, fun e h1 h2 => ?_⟩
  have hb : 0x80000080 ≤ e ∧ e < 0x80000080 + 4096 := ⟨h1, h2⟩
  refine ⟨by omega, ?_⟩
  rw [PodMalloc.backed_iff_lt (s := 7) (k := 4) (n := 2 ^ 19) ⟨by decide, by decide⟩ (by decide)
    (by decide) (by decide) (by decide) (by omega) (by omega)]
  omega

theorem withBlock_path :
    Transition.Path ((system onePod).restrict (Allowed onePod)) powerUp
      [(.programInit 0 (some 0x80000000) [] (.ok ()), .ok 0), (.malloc 0 4096, .ok 0x80000080)]
      withBlock := by
  have h₁ : Transition.Path ((system onePod).restrict (Allowed onePod)) powerUp
      [(.programInit 0 (some 0x80000000) [] (.ok ()), .ok 0)] withProgram :=
    .snoc .nil ⟨withProgram_allowed, rfl⟩
  exact h₁.snoc ⟨withBlock_allowed, rfl⟩

theorem withBlock_live : live withBlock.pods 0 0x80000080 = some (⟨0, 0⟩, ⟨0x80000080, 4096⟩) := by
  decide

theorem copy_run : ∃ t u v,
    exec onePod withBlock (.memcpy 0 0x80000080 4 8 memcpyToDevice twoWords) = some (.ok 0, t) ∧
    exec onePod t (.free 0 7) = some (.ok 0, u) ∧
    exec onePod u (.memcpy 0 0x1000 0x80000080 8 memcpyToHost twoWords) = some (.ok 0, v) ∧
    live u.pods 0 0x80000080 = some (⟨0, 0⟩, ⟨0x80000080, 4096⟩) := by
  have hrun : ((exec onePod withBlock (.memcpy 0 0x80000080 4 8 memcpyToDevice twoWords)).bind
      fun r => (exec onePod r.2 (.free 0 7)).bind fun r' =>
        (exec onePod r'.2 (.memcpy 0 0x1000 0x80000080 8 memcpyToHost twoWords)).map fun r'' =>
          decide (r.1 = .ok 0 ∧ r'.1 = .ok 0 ∧ r''.1 = .ok 0 ∧
            live r'.2.pods 0 0x80000080 = some (⟨0, 0⟩, ⟨0x80000080, 4096⟩))) = some true := by
    decide +kernel
  obtain ⟨⟨r, t⟩, ht, hrun⟩ := Option.bind_eq_some_iff.mp hrun
  obtain ⟨⟨r', u⟩, hu, hrun⟩ := Option.bind_eq_some_iff.mp hrun
  obtain ⟨⟨r'', v⟩, hv, hrun⟩ := Option.map_eq_some_iff.mp hrun
  obtain ⟨rfl, rfl, rfl, hl⟩ := of_decide_eq_true hrun
  exact ⟨t, u, v, ht, hu, hv, hl⟩

theorem store_allowed : Allowed onePod withBlock
    (.memcpy 0 0x80000080 4 8 memcpyToDevice twoWords, .ok 0) :=
  ⟨0x80000080, ⟨0, 0⟩, ⟨0x80000080, 4096⟩, withBlock_live, by decide, by decide⟩

end PodHeap
