import ManycoreRuntime.Packets
import ManycoreRuntime.TileOwnership

/-! # Execution of kernels

The calls that launch the enqueued tile groups of one pod, or of several pods, and block until
all of them have finished. The device runs beside the calls: a tile group that was launched
sends one finish packet, and the packets arrive in any order among packets of other kinds. -/
namespace KernelsExecute

open Coordinate
open Configuration (Config Manycore)
open Packets (RequestPacket)
open TileGroups

def podAt (pods : List Pod) (id : ℤ) : Option Pod := if id < 0 then none else pods[id.toNat]?

inductive Call where
  | podKernelsExecute (podId : ℤ)
  | podvKernelsExecute (podv : List ℤ)
  deriving DecidableEq, Repr

def Call.podv : Call → List ℤ
  | .podKernelsExecute podId => [podId]
  | .podvKernelsExecute podv => podv

/-- A call runs until it enters the blocking wait or returns. -/
inductive Outcome where
  | waits
  | returns (result : Except Errno Unit)

def podTryLaunchTileGroups (answers : ℕ → Answers) (pods : List Pod) (podId : ℤ) :
    Except Errno Unit × List Pod :=
  match podAt pods podId with
  | none => (.error .undefined, pods)
  | some pod =>
    let (result, pod) := tryLaunchTileGroups answers pod
    (result, pods.set podId.toNat pod)

/-- The hardware answers each entry of the vector anew. -/
def podvTryLaunchTileGroups (answers : ℕ → ℕ → Answers) :
    List ℤ → List Pod → Except Errno Unit × List Pod
  | [], pods => (.ok (), pods)
  | podId :: podv, pods =>
    match podTryLaunchTileGroups (answers 0) pods podId with
    | (.error e, pods) => (.error e, pods)
    | (.ok _, pods) => podvTryLaunchTileGroups (fun k => answers (k + 1)) podv pods

def podvAllTileGroupsFinished (pods : List Pod) : List ℤ → Except Errno Bool
  | [] => .ok true
  | podId :: podv =>
    match podAt pods podId with
    | none => .error .undefined
    | some pod =>
      if allTileGroupsFinished pod then podvAllTileGroupsFinished pods podv else .ok false

def podTurn (answers : ℕ → ℕ → Answers) (pods : List Pod) (podId : ℤ) : Outcome × List Pod :=
  match podvAllTileGroupsFinished pods [podId] with
  | .error e => (.returns (.error e), pods)
  | .ok true => (.returns (.ok ()), pods)
  | .ok false =>
    match podTryLaunchTileGroups (answers 0) pods podId with
    | (.error e, pods) => (.returns (.error e), pods)
    | (.ok _, pods) => (.waits, pods)

def podvTurn (podv : List ℤ) : Except Errno Unit × List Pod → Outcome × List Pod
  | (.error e, pods) => (.returns (.error e), pods)
  | (.ok _, pods) =>
    match podvAllTileGroupsFinished pods podv with
    | .error e => (.returns (.error e), pods)
    | .ok true => (.returns (.ok ()), pods)
    | .ok false => (.waits, pods)

def start (answers : ℕ → ℕ → Answers) (pods : List Pod) : Call → Outcome × List Pod
  | .podKernelsExecute podId =>
    match podAt pods podId with
    | none => (.returns (.error .invalid), pods)
    | some _ => podTurn answers pods podId
  | .podvKernelsExecute podv => podvTurn podv (podvTryLaunchTileGroups answers podv pods)

def resume (answers : ℕ → ℕ → Answers) (pods : List Pod) (podDone : ℕ) :
    Call → Outcome × List Pod
  | .podKernelsExecute podId => podTurn answers pods podId
  | .podvKernelsExecute podv =>
    podvTurn podv (podTryLaunchTileGroups (answers 0) pods podDone)

def finishSignalVal : UInt32 := 0xFACE

def requestPacketSrc (rqst : RequestPacket) : Coord := ⟨rqst.xSrc.toUInt32, rqst.ySrc.toUInt32⟩

def requestPacketGetEpa (rqst : RequestPacket) : UInt32 := rqst.addr <<< 2

abbrev GroupId := ℕ × ℕ

inductive Turn where
  | continues
  | fails (e : Errno) (pods : List Pod)
  | retires (k : GroupId) (pods : List Pod)

def waitForTileGroupFinishAny (cfg : Config) (pods : List Pod) (rqst : RequestPacket) : Turn :=
  if rqst.payload ≠ finishSignalVal then .continues
  else
    let src := requestPacketSrc rqst
    let podco := ConfigPod.pod cfg src
    let pid := (toIndex podco cfg.pods).toNat
    match pods[pid]? with
    | none => .fails .undefined pods
    | some pod =>
      match finishTileGroup pod src (requestPacketGetEpa rqst) with
      | none => .continues
      | some (_, .error e, pod) => .fails e (pods.set pid pod)
      | some (i, .ok _, pod) => .retires (pid, i) (pods.set pid pod)

inductive Pc where
  | idle
  | waiting (call : Call)
  | resuming (call : Call) (podDone : ℕ)
  deriving DecidableEq, Repr

/-- The sender of a packet in flight and the three counts serve the statements; no step of the
host reads them. -/
structure State where
  pods : List Pod
  pc : Pc
  returned : Option (Call × Except Errno Unit)
  inFlight : List (RequestPacket × Option GroupId)
  launches : GroupId → ℕ
  signals : GroupId → ℕ
  retirements : GroupId → ℕ

def groupAt (pods : List Pod) (k : GroupId) : Option TileGroup :=
  pods[k.1]?.bind fun pod => pod.tileGroups[k.2]?

def statusAt (pods : List Pod) (k : GroupId) : Option TileGroupStatus :=
  (groupAt pods k).map fun g => g.status

def bump (count : GroupId → ℕ) (k : GroupId) : GroupId → ℕ :=
  fun j => if j = k then count j + 1 else count j

/-- The state after a call has run on; a tile group is launched when its status becomes so. -/
def State.after (s : State) (call : Call) (r : Outcome × List Pod) : State :=
  { s with
    pods := r.2
    pc := match r.1 with
      | .waits => .waiting call
      | .returns _ => .idle
    returned := match r.1 with
      | .waits => none
      | .returns result => some (call, result)
    launches := fun k =>
      if statusAt r.2 k = some .launched ∧ statusAt s.pods k ≠ some .launched then
        s.launches k + 1
      else s.launches k }

def State.received (cfg : Config) (s : State) (call : Call) (n : ℕ) (rqst : RequestPacket) :
    State :=
  let s := { s with inFlight := s.inFlight.eraseIdx n }
  match waitForTileGroupFinishAny cfg s.pods rqst with
  | .continues => s
  | .fails e pods => { s with pods := pods, pc := .idle, returned := some (call, .error e) }
  | .retires k pods =>
    { s with pods := pods, pc := .resuming call k.1, retirements := bump s.retirements k }

inductive Event where
  | enqueue (podId : ℤ) (gridDim tgDim : Dimension) (name : String) (argv : List UInt32)
  | execute (call : Call) (answers : ℕ → ℕ → Answers)
  | resume (answers : ℕ → ℕ → Answers)
  | finishSignal (k : GroupId) (rqst : RequestPacket)
  | otherPacket (rqst : RequestPacket)
  | receive (n : ℕ)
  | rxError (e : Errno)

/-- The packet by which a launched tile group reports that it has finished. -/
def Signals (pods : List Pod) (k : GroupId) (rqst : RequestPacket) : Prop :=
  ∃ g, groupAt pods k = some g ∧ g.status = .launched ∧ rqst.payload = finishSignalVal ∧
    requestPacketSrc rqst = g.origin ∧ requestPacketGetEpa rqst = g.finishSignalNpa.epa

instance (pods : List Pod) (k : GroupId) (rqst : RequestPacket) :
    Decidable (Signals pods k rqst) :=
  decidable_of_iff ((groupAt pods k).any (fun g => g.status = .launched ∧
      rqst.payload = finishSignalVal ∧ requestPacketSrc rqst = g.origin ∧
      requestPacketGetEpa rqst = g.finishSignalNpa.epa) = true)
    (by simp only [Signals, Option.any_eq_true, decide_eq_true_eq])

def next (mc : Manycore) (s : State) : Event → Option State
  | .enqueue podId gridDim tgDim name argv =>
    match s.pc, podAt s.pods podId with
    | .idle, some pod =>
      if pod.program.isSome then some { s with
        pods := s.pods.set podId.toNat (kernelEnqueue mc pod gridDim tgDim name argv)
        returned := none }
      else none
    | _, _ => none
  | .execute call answers =>
    if s.pc = .idle then some (s.after call (start answers s.pods call)) else none
  | .resume answers =>
    match s.pc with
    | .resuming call podDone => some (s.after call (resume answers s.pods podDone call))
    | _ => none
  | .finishSignal k rqst =>
    if s.signals k = 0 ∧ Signals s.pods k rqst then some { s with
      inFlight := s.inFlight ++ [(rqst, some k)]
      signals := bump s.signals k }
    else none
  | .otherPacket rqst =>
    if rqst.payload ≠ finishSignalVal then some { s with
      inFlight := s.inFlight ++ [(rqst, none)] }
    else none
  | .receive n =>
    match s.pc, s.inFlight[n]? with
    | .waiting call, some (rqst, _) => some (s.received mc.config call n rqst)
    | _, _ => none
  | .rxError e =>
    match s.pc with
    | .waiting call => some { s with pc := .idle, returned := some (call, .error e) }
    | _ => none

inductive Step (mc : Manycore) (s : State) : Event → State → Prop where
  | enqueue {podId : ℤ} {pod : Pod} (gridDim tgDim : Dimension) (name : String)
      (argv : List UInt32) (pc : s.pc = .idle) (found : podAt s.pods podId = some pod)
      (loaded : pod.program.isSome = true) :
      Step mc s (.enqueue podId gridDim tgDim name argv) { s with
        pods := s.pods.set podId.toNat (kernelEnqueue mc pod gridDim tgDim name argv)
        returned := none }
  | execute (call : Call) (answers : ℕ → ℕ → Answers) (pc : s.pc = .idle) :
      Step mc s (.execute call answers) (s.after call (start answers s.pods call))
  | resume {call : Call} {podDone : ℕ} (answers : ℕ → ℕ → Answers)
      (pc : s.pc = .resuming call podDone) :
      Step mc s (.resume answers) (s.after call (resume answers s.pods podDone call))
  | finishSignal {k : GroupId} {rqst : RequestPacket} (first : s.signals k = 0)
      (signals : Signals s.pods k rqst) : Step mc s (.finishSignal k rqst) { s with
        inFlight := s.inFlight ++ [(rqst, some k)]
        signals := bump s.signals k }
  | otherPacket {rqst : RequestPacket} (payload : rqst.payload ≠ finishSignalVal) :
      Step mc s (.otherPacket rqst) { s with inFlight := s.inFlight ++ [(rqst, none)] }
  | receive {n : ℕ} {call : Call} {rqst : RequestPacket} {sender : Option GroupId}
      (pc : s.pc = .waiting call) (packet : s.inFlight[n]? = some (rqst, sender)) :
      Step mc s (.receive n) (s.received mc.config call n rqst)
  | rxError {call : Call} (e : Errno) (pc : s.pc = .waiting call) :
      Step mc s (.rxError e) { s with pc := .idle, returned := some (call, .error e) }

theorem step_of_next {mc : Manycore} {s t : State} {e : Event} (h : next mc s e = some t) :
    Step mc s e t := by
  cases e with
  | enqueue podId gridDim tgDim name argv =>
    simp only [next] at h
    split at h
    · next pod hpc hpod =>
      split at h <;> cases h
      next hprogram => exact .enqueue gridDim tgDim name argv hpc hpod hprogram
    · cases h
  | execute call answers =>
    simp only [next] at h
    split at h <;> cases h
    next hpc => exact .execute call answers hpc
  | resume answers =>
    simp only [next] at h
    split at h <;> cases h
    next hpc => exact .resume answers hpc
  | finishSignal k rqst =>
    simp only [next] at h
    split at h <;> cases h
    next hsig => exact .finishSignal hsig.1 hsig.2
  | otherPacket rqst =>
    simp only [next] at h
    split at h <;> cases h
    next hval => exact .otherPacket hval
  | receive n =>
    simp only [next] at h
    split at h <;> cases h
    next hpc hn => exact .receive hpc hn
  | rxError e =>
    simp only [next] at h
    split at h <;> cases h
    next hpc => exact .rxError e hpc

structure Initial (mc : Manycore) (s : State) : Prop where
  places : s.pods.map (fun pod => pod.podCoord) =
    (PodMalloc.deviceInit mc.config).map fun pod => pod.podCoord
  pods : ∀ pod ∈ s.pods,
    TileOwnership.Initial mc pod ∨ (pod.program = none ∧ pod.tileGroups = [])
  pc : s.pc = .idle
  returned : s.returned = none
  inFlight : s.inFlight = []
  counts : s.launches = (fun _ => 0) ∧ s.signals = (fun _ => 0) ∧ s.retirements = fun _ => 0

def system (mc : Manycore) : Transition.System State Event := .ofNext (Initial mc) (next mc)

def unloadedPod (podCoord : Coord) : Pod :=
  { TileOwnership.smallPod with podCoord := podCoord, program := none }

def freshPod (cfg : Config) (dim : Dimension) (podCoord : Coord) : Pod :=
  match PodMesh.meshInit cfg podCoord dim PodMesh.meshFullCore with
  | .error _ => unloadedPod podCoord
  | .ok mesh => { TileOwnership.smallPod with podCoord := podCoord, mesh := mesh }

def freshDevice (cfg : Config) (i : ℕ) (dim : Dimension) : State where
  pods := (List.range (toLength cfg.pods).toNat).map fun j =>
    let podCoord := PodMalloc.indexToCoordinate j cfg.pods
    if j = i then freshPod cfg dim podCoord else unloadedPod podCoord
  pc := .idle
  returned := none
  inFlight := []
  launches := fun _ => 0
  signals := fun _ => 0
  retirements := fun _ => 0

theorem freshPod_podCoord (cfg : Config) (dim : Dimension) (podCoord : Coord) :
    (freshPod cfg dim podCoord).podCoord = podCoord := by
  unfold freshPod
  split <;> rfl

theorem freshDevice_initial (mc : Manycore) (i : ℕ) (dim : Dimension) :
    Initial mc (freshDevice mc.config i dim) := by
  refine ⟨?_, ?_, rfl, rfl, rfl, rfl, rfl, rfl⟩
  · rw [freshDevice, PodMalloc.deviceInit, List.map_map, List.map_map]
    refine List.map_congr_left ?_
    intro j _
    simp only [Function.comp_apply]
    split
    · exact freshPod_podCoord _ _ _
    · rfl
  · intro pod hp
    obtain ⟨j, -, rfl⟩ := List.mem_map.mp hp
    simp only
    split
    · unfold freshPod
      split
      · exact Or.inr ⟨rfl, rfl⟩
      · next mesh hm => exact Or.inl ⟨⟨dim, PodMesh.meshFullCore, hm⟩, rfl, rfl⟩
    · exact Or.inr ⟨rfl, rfl⟩

def answersOk : ℕ → ℕ → Answers := fun _ _ => TileOwnership.allOk

section Calls

variable {answers : ℕ → ℕ → Answers} {pods : List Pod}

theorem podAt_eq_some {id : ℤ} {pod : Pod} (h : podAt pods id = some pod) :
    pods[id.toNat]? = some pod := by
  unfold podAt at h
  split at h
  · cases h
  · exact h

theorem groupAt_set {i : ℕ} {pod pod' : Pod} (h : pods[i]? = some pod) (k : GroupId) :
    groupAt (pods.set i pod') k = if k.1 = i then pod'.tileGroups[k.2]? else groupAt pods k := by
  unfold groupAt
  rw [List.getElem?_set]
  by_cases hk : i = k.1
  · rw [if_pos hk, if_pos hk.symm, if_pos (List.getElem?_eq_some_iff.mp h).1]
    rfl
  · rw [if_neg hk, if_neg (fun he => hk he.symm)]

theorem groupAt_of_pod {k : GroupId} {pod : Pod} (h : pods[k.1]? = some pod) :
    groupAt pods k = pod.tileGroups[k.2]? := by
  rw [groupAt, h]
  rfl

/-- A launch attempt touches only groups that wait for their launch. -/
def Launching (g g' : Option TileGroup) : Prop :=
  g' = g ∨ ∃ a b, g = some a ∧ g' = some b ∧ a.status = .initialized ∧ b.status ≠ .finished ∧
    b.dim = a.dim

theorem Launching.trans {g g' g'' : Option TileGroup} (h : Launching g g')
    (h' : Launching g' g'') : Launching g g'' := by
  rcases h with rfl | ⟨a, b, ha, hb, hst, hne, hdim⟩
  · exact h'
  · rcases h' with rfl | ⟨b', c, hb', hc, -, hne', hdim'⟩
    · exact Or.inr ⟨a, b, ha, hb, hst, hne, hdim⟩
    · rw [hb] at hb'
      cases hb'
      exact Or.inr ⟨a, c, ha, hc, hst, hne', hdim'.trans hdim⟩

theorem Launching.launched {g : TileGroup} {g' : Option TileGroup} (h : Launching (some g) g')
    (hst : g.status = .launched) : g' = some g := by
  rcases h with he | ⟨a, b, ha, -, hinit, -, -⟩
  · exact he
  · cases ha
    rw [hst] at hinit
    cases hinit

/-- What the launch of tile groups may change in a pod. -/
structure Advanced (pod pod' : Pod) : Prop where
  podCoord : pod'.podCoord = pod.podCoord
  program : pod'.program.isSome = pod.program.isSome
  mesh : pod'.mesh.dim = pod.mesh.dim ∧ pod'.mesh.origin = pod.mesh.origin
  groups : ∀ j : ℕ, Launching pod.tileGroups[j]? pod'.tileGroups[j]?

theorem Advanced.refl (pod : Pod) : Advanced pod pod := ⟨rfl, rfl, ⟨rfl, rfl⟩, fun _ => Or.inl rfl⟩

theorem Advanced.trans {pod pod' pod'' : Pod} (h : Advanced pod pod') (h' : Advanced pod' pod'') :
    Advanced pod pod'' :=
  ⟨h'.podCoord.trans h.podCoord, h'.program.trans h.program,
    ⟨h'.mesh.1.trans h.mesh.1, h'.mesh.2.trans h.mesh.2⟩,
    fun j => (h.groups j).trans (h'.groups j)⟩

theorem allTileGroupsFinished_iff {pod : Pod} :
    allTileGroupsFinished pod = true ↔
      ∀ (i : ℕ) g, pod.tileGroups[i]? = some g → g.status = .finished := by
  rw [allTileGroupsFinished, List.all_eq_true]
  constructor
  · intro h i g hi
    exact of_decide_eq_true (h g (List.mem_of_getElem? hi))
  · intro h g hg
    obtain ⟨i, hi⟩ := List.getElem?_of_mem hg
    exact decide_eq_true (h i g hi)

theorem Advanced.unfinished {pod pod' : Pod} (h : Advanced pod pod')
    (hu : allTileGroupsFinished pod = false) : allTileGroupsFinished pod' = false := by
  rw [Bool.eq_false_iff] at hu ⊢
  intro hfin
  rw [ne_eq, allTileGroupsFinished_iff] at hu
  rw [allTileGroupsFinished_iff] at hfin
  refine hu ?_
  intro i g hi
  rcases h.groups i with hsame | ⟨a, b, -, hib, -, hne, -⟩
  · rw [hi] at hsame
    exact hfin i g hsame
  · exact absurd (hfin i b hib) hne

theorem Advanced.finished {pod pod' : Pod} (h : Advanced pod pod')
    (hn : ∀ (i : ℕ) g, pod.tileGroups[i]? = some g → g.status = .finished) :
    allTileGroupsFinished pod' = true := by
  rw [allTileGroupsFinished_iff]
  intro i g hi
  rcases h.groups i with hsame | ⟨a, b, hia, -, hinit, -, -⟩
  · rw [hsame] at hi
    exact hn i g hi
  · have hfin := hn i a hia
    rw [hinit] at hfin
    cases hfin

theorem launching_set {groups : List TileGroup} {i : ℕ} {g g' : TileGroup}
    (hi : groups[i]? = some g) (hst : g.status = .initialized) (hne : g'.status ≠ .finished)
    (hdim : g'.dim = g.dim) (j : ℕ) : Launching groups[j]? (groups.set i g')[j]? := by
  by_cases hij : i = j
  · subst hij
    exact Or.inr ⟨g, g', hi, TileOwnership.getElem?_set_of_some g' hi, hst, hne, hdim⟩
  · exact Or.inl (List.getElem?_set_ne hij)

theorem allocateAndLaunch_advanced {answers : Answers} {pod : Pod} {i : ℕ} {tg : TileGroup}
    (hm : PodMesh.WellFormed pod.mesh) (hi : pod.tileGroups[i]? = some tg)
    (hst : tg.status = .initialized) :
    Advanced pod (allocateAndLaunch answers pod i tg).2.2 := by
  rcases TileOwnership.allocateAndLaunch_cases hm answers i tg with
    ⟨origin, marked, -, -, -, he⟩ | ⟨origin, result, program, a, status, -, -, hprog, hres, he⟩
  · rw [he]
    refine ⟨rfl, rfl, PodMesh.updateTiles_dim _ _ _, launching_set hi hst ?_ rfl⟩
    show tg.status ≠ .finished
    rw [hst]
    decide
  · rw [he]
    refine ⟨rfl, hprog, PodMesh.updateTiles_dim _ _ _, launching_set hi hst ?_ rfl⟩
    rcases hres with ⟨-, rfl⟩ | ⟨e, -, rfl⟩
    · exact TileGroupStatus.noConfusion
    · exact TileGroupStatus.noConfusion

/-- A launch attempt keeps the owners of tiles apart. -/
theorem tryLaunchFrom_advanced (answers : ℕ → Answers) (is : List ℕ) (lastFailed : Dimension)
    {pod : Pod} (h : TileOwnership.Exclusive pod.mesh pod.tileGroups) :
    Advanced pod (tryLaunchFrom answers is lastFailed pod).2 ∧
      TileOwnership.Exclusive (tryLaunchFrom answers is lastFailed pod).2.mesh
        (tryLaunchFrom answers is lastFailed pod).2.tileGroups := by
  refine TileOwnership.tryLaunchFrom_invariant (P := fun pod' => Advanced pod pod' ∧
    TileOwnership.Exclusive pod'.mesh pod'.tileGroups) ?_ _ _ ⟨.refl pod, h⟩
  rintro pod' i tg hi hst ⟨hadv, hex⟩
  exact ⟨hadv.trans (allocateAndLaunch_advanced hex.wellFormed hi hst),
    TileOwnership.allocateAndLaunch_exclusive _ hst hex⟩

theorem tryLaunchTileGroups_advanced (answers : ℕ → Answers) {pod : Pod}
    (h : TileOwnership.Exclusive pod.mesh pod.tileGroups) :
    Advanced pod (tryLaunchTileGroups answers pod).2 ∧
      TileOwnership.Exclusive (tryLaunchTileGroups answers pod).2.mesh
        (tryLaunchTileGroups answers pod).2.tileGroups :=
  tryLaunchFrom_advanced answers _ _ h

section Invariants

variable {P : List Pod → Prop}

theorem podTurn_invariant (hstep : ∀ k pods podId, P pods →
    P (podTryLaunchTileGroups (answers k) pods podId).2) (podId : ℤ) (h : P pods) :
    P (podTurn answers pods podId).2 := by
  have hlaunch := hstep 0 pods podId h
  unfold podTurn
  split
  · exact h
  · exact h
  · split
    · next he =>
      rw [he] at hlaunch
      exact hlaunch
    · next he =>
      rw [he] at hlaunch
      exact hlaunch

theorem podvTurn_snd (podv : List ℤ) (r : Except Errno Unit × List Pod) :
    (podvTurn podv r).2 = r.2 := by
  obtain ⟨result, pods⟩ := r
  cases result with
  | error e => rfl
  | ok u =>
    simp only [podvTurn]
    split <;> rfl

theorem podvTryLaunch_invariant (hstep : ∀ k pods podId, P pods →
    P (podTryLaunchTileGroups (answers k) pods podId).2) (podv : List ℤ) (h : P pods) :
    P (podvTryLaunchTileGroups answers podv pods).2 := by
  induction podv generalizing answers pods with
  | nil => exact h
  | cons podId podv ih =>
    have hlaunch := hstep 0 pods podId h
    unfold podvTryLaunchTileGroups
    split
    · next he =>
      rw [he] at hlaunch
      exact hlaunch
    · next he =>
      rw [he] at hlaunch
      exact ih (fun k => hstep (k + 1)) hlaunch

theorem start_invariant (answers : ℕ → ℕ → Answers) (hstep : ∀ k pods podId, P pods →
    P (podTryLaunchTileGroups (answers k) pods podId).2) (call : Call) (h : P pods) :
    P (start answers pods call).2 := by
  cases call with
  | podKernelsExecute podId =>
    simp only [start]
    split
    · exact h
    · exact podTurn_invariant hstep podId h
  | podvKernelsExecute podv =>
    rw [start, podvTurn_snd]
    exact podvTryLaunch_invariant hstep podv h

theorem resume_invariant (answers : ℕ → ℕ → Answers) (hstep : ∀ k pods podId, P pods →
    P (podTryLaunchTileGroups (answers k) pods podId).2) (podDone : ℕ) (call : Call)
    (h : P pods) : P (resume answers pods podDone call).2 := by
  cases call with
  | podKernelsExecute podId => exact podTurn_invariant hstep podId h
  | podvKernelsExecute podv =>
    rw [resume, podvTurn_snd]
    exact hstep 0 pods podDone h

end Invariants

def AllFinished (pods : List Pod) (podv : List ℤ) : Prop :=
  ∀ podId ∈ podv, ∃ pod, podAt pods podId = some pod ∧ allTileGroupsFinished pod = true

theorem podvAllTileGroupsFinished_true {podv : List ℤ}
    (h : podvAllTileGroupsFinished pods podv = .ok true) : AllFinished pods podv := by
  induction podv with
  | nil =>
    intro podId hid
    cases hid
  | cons podId podv ih =>
    unfold podvAllTileGroupsFinished at h
    split at h
    · cases h
    · next pod hpod =>
      split at h
      · next hfin =>
        intro id hid
        rcases List.mem_cons.mp hid with rfl | hid
        · exact ⟨pod, hpod, hfin⟩
        · exact ih h id hid
      · cases h

theorem podTurn_success {podId : ℤ}
    (h : (podTurn answers pods podId).1 = .returns (.ok ())) :
    AllFinished (podTurn answers pods podId).2 [podId] := by
  unfold podTurn at h ⊢
  split at h
  · cases h
  · next hfin => exact podvAllTileGroupsFinished_true hfin
  · split at h
    · cases h
    · cases h

theorem podvTurn_success {podv : List ℤ} {r : Except Errno Unit × List Pod}
    (h : (podvTurn podv r).1 = .returns (.ok ())) : AllFinished r.2 podv := by
  obtain ⟨result, pods⟩ := r
  cases result with
  | error e => cases h
  | ok u =>
    simp only [podvTurn] at h
    split at h
    · cases h
    · next hfin => exact podvAllTileGroupsFinished_true hfin
    · cases h

theorem start_success {call : Call} (h : (start answers pods call).1 = .returns (.ok ())) :
    AllFinished (start answers pods call).2 call.podv := by
  cases call with
  | podKernelsExecute podId =>
    simp only [start] at h ⊢
    split at h
    · cases h
    · exact podTurn_success h
  | podvKernelsExecute podv =>
    rw [start, podvTurn_snd]
    exact podvTurn_success h

theorem resume_success {podDone : ℕ} {call : Call}
    (h : (resume answers pods podDone call).1 = .returns (.ok ())) :
    AllFinished (resume answers pods podDone call).2 call.podv := by
  cases call with
  | podKernelsExecute podId => exact podTurn_success h
  | podvKernelsExecute podv =>
    rw [resume, podvTurn_snd]
    exact podvTurn_success h

end Calls

end KernelsExecute
