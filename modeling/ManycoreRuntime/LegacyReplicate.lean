import ManycoreRuntime.PodView

/-! # The replicated interface

The device calls that take no pod and are made on every pod in turn. A single address stands
for a block of all pods, so the pods' allocators have to stay in step. -/
namespace LegacyReplicate

open Coordinate hiding next
open Configuration (Config Manycore)
open Packets (RequestPacket)
open TileGroups
open KernelsExecute hiding State Event next Initial system
open Machines (Machine)
open PodView

def foreachPod {α : Type} (f : Pod → Except Errno α × Pod) :
    List Pod → Except Errno (List α) × List Pod
  | [] => (.ok [], [])
  | pod :: pods =>
    match f pod with
    | (.error e, pod) => (.error e, pod :: pods)
    | (.ok a, pod) =>
      let (result, pods) := foreachPod f pods
      (result.map fun as => a :: as, pod :: pods)

def podMalloc (size : UInt32) (pod : Pod) : Except Errno UInt32 × Pod :=
  match pod.program with
  | none => (.error .invalid, pod)
  | some program =>
    let (result, program) := program.malloc size
    (result, { pod with program := some program })

def podFree (eva : UInt32) (pod : Pod) : Except Errno Unit × Pod :=
  match pod.program with
  | none => (.error .invalid, pod)
  | some program => (.ok (), { pod with program := some (program.free eva) })

def podKernelEnqueue (mc : Manycore) (gridDim tgDim : Dimension) (name : String)
    (argv : List UInt32) (pod : Pod) : Except Errno Unit × Pod :=
  (.ok (), kernelEnqueue mc pod gridDim tgDim name argv)

/-- Without a pod the address is read before it was written. -/
def deviceMalloc (pods : List Pod) (size : UInt32) : Except Errno UInt32 × List Pod :=
  match foreachPod (podMalloc size) pods with
  | (.error e, pods) => (.error e, pods)
  | (.ok [], pods) => (.error .undefined, pods)
  | (.ok (eva :: evas), pods) =>
    if evas.all (fun tmp => eva = tmp) then (.ok eva, pods) else (.error .fail, pods)

def deviceFree (pods : List Pod) (eva : UInt32) : Except Errno (List Unit) × List Pod :=
  foreachPod (podFree eva) pods

def deviceKernelEnqueue (mc : Manycore) (pods : List Pod) (gridDim tgDim : Dimension)
    (name : String) (argv : List UInt32) : Except Errno (List Unit) × List Pod :=
  foreachPod (podKernelEnqueue mc gridDim tgDim name argv) pods

def allPods (n : ℕ) : List ℤ := (List.range n).map fun i : ℕ => (i : ℤ)

/-- Which tile groups have finished on each pod since the last execution began, in their order,
serves the statements; no step reads it. -/
structure State where
  device : KernelsExecute.State
  finished : ℕ → List ℕ

inductive Event where
  | malloc (size : UInt32)
  | free (eva : UInt32)
  | kernelEnqueue (gridDim tgDim : Dimension) (name : String) (argv : List UInt32)
  | tileGroupsExecute (answers : ℕ → ℕ → Answers)
  | resume (answers : ℕ → ℕ → Answers)
  | finishSignal (k : GroupId) (rqst : RequestPacket)
  | otherPacket (rqst : RequestPacket)
  | receive (n : ℕ)
  | rxError (e : Errno)

def finishedAfter (cfg : Config) (s : State) (n : ℕ) : ℕ → List ℕ :=
  match s.device.inFlight[n]? with
  | none => s.finished
  | some (rqst, _) =>
    match waitForTileGroupFinishAny cfg s.device.pods rqst with
    | .retires k _ => Function.update s.finished k.1 (s.finished k.1 ++ [k.2])
    | _ => s.finished

def onPods (s : State) (pods : List Pod) : Option State :=
  if s.device.pc = .idle then
    some { s with device := { s.device with pods := pods, returned := none } }
  else none

def onDevice (mc : Manycore) (s : State) (e : KernelsExecute.Event) (finished : ℕ → List ℕ) :
    Option State :=
  (KernelsExecute.next mc s.device e).map fun device => ⟨device, finished⟩

def next (mc : Manycore) (s : State) : Event → Option State
  | .malloc size => onPods s (deviceMalloc s.device.pods size).2
  | .free eva => onPods s (deviceFree s.device.pods eva).2
  | .kernelEnqueue gridDim tgDim name argv =>
    onPods s (deviceKernelEnqueue mc s.device.pods gridDim tgDim name argv).2
  | .tileGroupsExecute answers =>
    onDevice mc s (.execute (.podvKernelsExecute (allPods s.device.pods.length)) answers)
      fun _ => []
  | .resume answers => onDevice mc s (.resume answers) s.finished
  | .finishSignal k rqst => onDevice mc s (.finishSignal k rqst) s.finished
  | .otherPacket rqst => onDevice mc s (.otherPacket rqst) s.finished
  | .receive n => onDevice mc s (.receive n) (finishedAfter mc.config s n)
  | .rxError e => onDevice mc s (.rxError e) s.finished

structure Initial (mc : Manycore) (s : State) : Prop where
  device : KernelsExecute.Initial mc s.device
  nonempty : s.device.pods ≠ []
  pods : ∃ programEnd optDim defaultDim program,
    PodMalloc.programAllocatorInit mc.config (some programEnd) = .ok program ∧
    ∀ pod ∈ s.device.pods, pod.program = some program ∧
      PodMesh.meshInit mc.config pod.podCoord optDim defaultDim = .ok pod.mesh ∧
      pod.tileGroups = [] ∧ pod.tileGroupCapacity = 1 ∧ pod.numGrids = 0 ∧ pod.kernels = []
  finished : s.finished = fun _ => []

def system (mc : Manycore) : Transition.System State Event := .ofNext (Initial mc) (next mc)

/-- The next allocation of any size gives the same address on every pod, and it succeeds. -/
def SameAddress (pods : List Pod) : Prop :=
  ∀ size, ∃ eva, (deviceMalloc pods size).1 = .ok eva ∧
    ∀ pod ∈ pods, (podMalloc size pod).1 = .ok eva

def sourcePod (cfg : Config) (rqst : RequestPacket) : ℕ :=
  (toIndex (ConfigPod.pod cfg (requestPacketSrc rqst)) cfg.pods).toNat

/-- A finish packet comes from a pod of the device; if it is the packet of a tile group, then no
pod has completed another tile group at that place of its order. -/
structure InOrder (cfg : Config) (s : State) (rqst : RequestPacket) : Prop where
  source : sourcePod cfg rqst < s.device.pods.length
  agrees : ∀ pod ∈ s.device.pods[sourcePod cfg rqst]?, ∀ i ∈ pod.tileGroups.findIdx?
      (finishes (requestPacketSrc rqst) (requestPacketGetEpa rqst)),
    ∀ q < s.device.pods.length,
      ∀ j ∈ (s.finished q)[(s.finished (sourcePod cfg rqst)).length]?, j = i

/-- The calls into the hardware and the symbol table succeed, and the tile groups finish in the
same order on all pods. -/
def SameOrder (cfg : Config) (s : State) : Event → Prop
  | .tileGroupsExecute answers => ∀ k i, Succeeds (answers k i)
  | .resume answers => ∀ k i, Succeeds (answers k i)
  | .receive n => ∀ p ∈ s.device.inFlight[n]?, p.1.payload = finishSignalVal →
      InOrder cfg s p.1
  | .rxError _ => False
  | _ => True

theorem checkPodId_natCast {pods : List Pod} {i : ℕ} {pod : Pod} (h : pods[i]? = some pod) :
    PodMalloc.checkPodId (pods.map fun pod => pod.toPod) i = .ok pod.toPod := by
  rw [PodMalloc.checkPodId, if_neg (by omega), Int.toNat_natCast, List.getElem?_map, h]
  rfl

theorem podMalloc_toPod {pods : List Pod} {i : ℕ} {pod : Pod} (h : pods[i]? = some pod)
    (size : UInt32) :
    PodMalloc.podMalloc (pods.map fun pod => pod.toPod) i size =
      ((podMalloc size pod).1,
        (pods.set i (podMalloc size pod).2).map fun pod => pod.toPod) := by
  rw [PodMalloc.podMalloc, checkPodId_natCast h, podMalloc]
  cases hp : pod.program with
  | none =>
    simp only [hp, List.map_set]
    obtain ⟨hlt, hget⟩ := List.getElem?_eq_some_iff.mp h
    rw [← hget, ← List.map_set, List.set_getElem_self]
  | some program => simp only [hp, List.map_set, Int.toNat_natCast]

theorem podFree_toPod {pods : List Pod} {i : ℕ} {pod : Pod} (h : pods[i]? = some pod)
    (eva : UInt32) :
    PodMalloc.podFree (pods.map fun pod => pod.toPod) i eva =
      (podFree eva pod).1.map fun _ =>
        (pods.set i (podFree eva pod).2).map fun pod => pod.toPod := by
  rw [PodMalloc.podFree, checkPodId_natCast h, podFree]
  cases hp : pod.program with
  | none => simp only [bind, Except.bind, hp, Except.map]
  | some program =>
    simp only [bind, Except.bind, hp, pure, Except.pure, Except.map, List.map_set,
      Int.toNat_natCast]

def Views (pods : List Pod) (P : ℕ → Pod → Prop) : Prop :=
  ∀ (i : ℕ) pod, pods[i]? = some pod → Ready pod ∧ P i (view pod)

structure Uniform {α : Type} (f : Pod → Except Errno α × Pod) : Prop where
  ready : ∀ pod, Ready pod → Ready (f pod).2
  view : ∀ pod, f (view pod) = ((f pod).1, view (f pod).2)
  ok : ∀ pod, Ready pod → ∃ a, (f pod).1 = .ok a

section Calls

variable {α : Type} {f : Pod → Except Errno α × Pod} {pods : List Pod}

/-- The loop comes to its end, pod by pod. -/
theorem foreachPod_ok (h : ∀ pod ∈ pods, ∃ a, (f pod).1 = .ok a) :
    ∃ as, foreachPod f pods = (.ok as, pods.map fun pod => (f pod).2) ∧
      as.length = pods.length ∧
      ∀ a ∈ as, ∃ pod ∈ pods, (f pod).1 = .ok a := by
  induction pods with
  | nil => exact ⟨[], rfl, rfl, fun a ha => by cases ha⟩
  | cons pod pods ih =>
    obtain ⟨as, has, hlen, hmem⟩ := ih fun p hp => h p (List.mem_cons_of_mem pod hp)
    obtain ⟨a, ha⟩ := h pod List.mem_cons_self
    refine ⟨a :: as, ?_, by rw [List.length_cons, List.length_cons, hlen], ?_⟩
    · cases hf : f pod with
      | mk result pod' =>
        rw [hf] at ha
        replace ha : result = .ok a := ha
        subst ha
        simp only [foreachPod, hf, has, Except.map, List.map_cons]
    · intro b hb
      rcases List.mem_cons.mp hb with rfl | hb
      · exact ⟨pod, List.mem_cons_self, ha⟩
      · obtain ⟨p, hp, he⟩ := hmem b hb
        exact ⟨p, List.mem_cons_of_mem pod hp, he⟩

theorem Uniform.foreachPod (hf : Uniform f) {v : Pod} (h : Views pods fun _ w => w = v) :
    (foreachPod f pods).2.length = pods.length ∧
      Views (foreachPod f pods).2 fun _ w => w = (f v).2 := by
  have hready : ∀ pod ∈ pods, Ready pod := by
    intro pod hp
    obtain ⟨i, hi⟩ := List.getElem?_of_mem hp
    exact (h i pod hi).1
  obtain ⟨as, has, -, -⟩ := foreachPod_ok fun pod hp => hf.ok pod (hready pod hp)
  rw [has]
  refine ⟨List.length_map _, ?_⟩
  intro i pod' hi'
  obtain ⟨pod, hi, rfl⟩ := Option.map_eq_some_iff.mp ((List.getElem?_map ..).symm.trans hi')
  obtain ⟨hr, hv⟩ := h i pod hi
  refine ⟨hf.ready pod hr, ?_⟩
  rw [← hv, hf.view]

theorem podMalloc_uniform (size : UInt32) : Uniform (podMalloc size) := by
  refine ⟨?_, ?_, ?_⟩
  · intro pod h
    obtain ⟨program, hp⟩ := Option.isSome_iff_exists.mp h.program
    simp only [podMalloc, hp]
    exact ⟨h.exclusive, h.room, rfl, h.kernels⟩
  · intro pod
    have hp : (view pod).program = pod.program := rfl
    unfold podMalloc
    rw [hp]
    cases pod.program with
    | none => rfl
    | some program => rfl
  · intro pod h
    obtain ⟨program, hp⟩ := Option.isSome_iff_exists.mp h.program
    simp only [podMalloc, hp, PodMalloc.Program.malloc_eq]
    exact ⟨_, rfl⟩

theorem podFree_uniform (eva : UInt32) : Uniform (podFree eva) := by
  refine ⟨?_, ?_, ?_⟩
  · intro pod h
    obtain ⟨program, hp⟩ := Option.isSome_iff_exists.mp h.program
    simp only [podFree, hp]
    exact ⟨h.exclusive, h.room, rfl, h.kernels⟩
  · intro pod
    have hp : (view pod).program = pod.program := rfl
    unfold podFree
    rw [hp]
    cases pod.program with
    | none => rfl
    | some program => rfl
  · intro pod h
    obtain ⟨program, hp⟩ := Option.isSome_iff_exists.mp h.program
    exact ⟨(), by simp only [podFree, hp]⟩

theorem podKernelEnqueue_uniform (mc : Manycore) (gridDim tgDim : Dimension) (name : String)
    (argv : List UInt32) : Uniform (podKernelEnqueue mc gridDim tgDim name argv) :=
  ⟨fun _ h => kernelEnqueue_ready h gridDim tgDim name argv,
    fun pod => congrArg (Prod.mk (Except.ok ()))
      (kernelEnqueue_view mc pod gridDim tgDim name argv),
    fun _ _ => ⟨(), rfl⟩⟩

theorem sameAddress {v : Pod} (hne : pods ≠ []) (h : Views pods fun _ w => w = v) :
    SameAddress pods := by
  intro size
  have hresult : ∀ pod ∈ pods, (podMalloc size pod).1 = (podMalloc size v).1 := by
    intro pod hp
    obtain ⟨i, hi⟩ := List.getElem?_of_mem hp
    obtain ⟨-, hv⟩ := h i pod hi
    rw [← hv, (podMalloc_uniform size).view]
  have hok : ∀ pod ∈ pods, ∃ a, (podMalloc size pod).1 = .ok a := by
    intro pod hp
    obtain ⟨i, hi⟩ := List.getElem?_of_mem hp
    exact (podMalloc_uniform size).ok pod (h i pod hi).1
  obtain ⟨as, has, hlen, hmem⟩ := foreachPod_ok hok
  cases as with
  | nil => exact absurd (List.length_eq_zero_iff.mp hlen.symm) hne
  | cons eva evas =>
    obtain ⟨pod, hp, heva⟩ := hmem eva List.mem_cons_self
    rw [hresult pod hp] at heva
    refine ⟨eva, ?_, fun pod' hp' => (hresult pod' hp').trans heva⟩
    have hall : evas.all (fun tmp => eva = tmp) = true := by
      rw [List.all_eq_true]
      intro tmp ht
      obtain ⟨pod', hp', htmp⟩ := hmem tmp (List.mem_cons_of_mem eva ht)
      rw [hresult pod' hp', heva] at htmp
      cases htmp
      exact decide_eq_true rfl
    simp only [deviceMalloc, has, hall, if_true]

end Calls

section Execution

variable {pods : List Pod}

theorem podAt_natCast (pods : List Pod) (i : ℕ) : podAt pods (i : ℤ) = pods[i]? := by
  rw [podAt, if_neg (by omega), Int.toNat_natCast]

theorem views_set {P Q : ℕ → Pod → Prop} (h : Views pods P) {p : ℕ} {pod : Pod}
    (hpod : Ready pod ∧ Q p (view pod)) (hother : ∀ i w, i ≠ p → P i w → Q i w) :
    Views (pods.set p pod) Q := by
  intro i pod' hi
  rcases TileOwnership.getElem?_set_cases hi with ⟨rfl, rfl⟩ | ⟨hne, hi⟩
  · exact hpod
  · obtain ⟨hr, hv⟩ := h i pod' hi
    exact ⟨hr, hother i _ hne hv⟩

theorem podTryLaunch_views {answers : ℕ → Answers} (ha : ∀ j, Succeeds (answers j))
    {P Q : ℕ → Pod → Prop} (h : Views pods P) {p : ℕ} (hp : p < pods.length)
    (hself : ∀ w, P p w → Q p (launchAll w)) (hother : ∀ i w, i ≠ p → P i w → Q i w) :
    (podTryLaunchTileGroups answers pods p).1 = .ok () ∧
    (podTryLaunchTileGroups answers pods p).2.length = pods.length ∧
    Views (podTryLaunchTileGroups answers pods p).2 Q := by
  have hi := List.getElem?_eq_getElem hp
  obtain ⟨hr, hv⟩ := h p _ hi
  obtain ⟨hok, hready, hview⟩ := tryLaunch_view ha hr
  simp only [podTryLaunchTileGroups, podAt_natCast, hi, Int.toNat_natCast]
  refine ⟨hok, List.length_set, views_set h ⟨hready, ?_⟩ hother⟩
  rw [hview]
  exact hself _ hv

theorem podvTryLaunch_views {answers : ℕ → ℕ → Answers} (ha : ∀ k j, Succeeds (answers k j))
    {v : Pod} {ids : List ℕ} (hnd : ids.Nodup) (hids : ∀ i ∈ ids, i < pods.length)
    (h : Views pods fun i w => w = if i ∈ ids then v else launchAll v) :
    (podvTryLaunchTileGroups answers (ids.map fun i : ℕ => (i : ℤ)) pods).1 = .ok () ∧
    (podvTryLaunchTileGroups answers (ids.map fun i : ℕ => (i : ℤ)) pods).2.length = pods.length ∧
    Views (podvTryLaunchTileGroups answers (ids.map fun i : ℕ => (i : ℤ)) pods).2
      fun _ w => w = launchAll v := by
  induction ids generalizing answers pods with
  | nil => exact ⟨rfl, rfl, h⟩
  | cons p ids ih =>
    obtain ⟨hp, hnd⟩ := List.nodup_cons.mp hnd
    obtain ⟨hok, hlen, hviews⟩ := podTryLaunch_views (ha 0) h (hids p List.mem_cons_self)
      (Q := fun i w => w = if i ∈ ids then v else launchAll v)
      (by
        rintro w rfl
        rw [if_pos List.mem_cons_self, if_neg hp])
      (by
        rintro i w hne rfl
        simp only [List.mem_cons, hne, false_or])
    have hrest := ih (fun k => ha (k + 1)) hnd
      (fun i hi => by rw [hlen]; exact hids i (List.mem_cons_of_mem p hi)) hviews
    rw [List.map_cons, podvTryLaunchTileGroups]
    cases hr : podTryLaunchTileGroups (answers 0) pods p with
    | mk result pods' =>
      rw [hr] at hok hlen hrest
      replace hok : result = .ok () := hok
      subst hok
      obtain ⟨hok', hlen', hviews'⟩ := hrest
      exact ⟨hok', hlen'.trans hlen, hviews'⟩

theorem podvTurn_allPods (pods : List Pod) :
    podvTurn (allPods pods.length) (.ok (), pods) = (.waits, pods) ∨
    (podvTurn (allPods pods.length) (.ok (), pods) = (.returns (.ok ()), pods) ∧
      ∀ pod ∈ pods, allTileGroupsFinished pod = true) := by
  have hany : ∀ ids : List ℕ, (∀ i ∈ ids, i < pods.length) →
      ∃ b, podvAllTileGroupsFinished pods (ids.map fun i : ℕ => (i : ℤ)) = .ok b := by
    intro ids hids
    induction ids with
    | nil => exact ⟨true, rfl⟩
    | cons i ids ih =>
      have hi := List.getElem?_eq_getElem (hids i List.mem_cons_self)
      obtain ⟨b, hb⟩ := ih fun j hj => hids j (List.mem_cons_of_mem i hj)
      simp only [List.map_cons, podvAllTileGroupsFinished, podAt_natCast, hi, hb]
      split
      · exact ⟨b, rfl⟩
      · exact ⟨false, rfl⟩
  obtain ⟨b, hb⟩ := hany (List.range pods.length) fun i hi => List.mem_range.mp hi
  cases b with
  | false => exact Or.inl (by simp only [podvTurn, allPods, hb])
  | true =>
    refine Or.inr ⟨by simp only [podvTurn, allPods, hb], ?_⟩
    intro pod hp
    obtain ⟨i, hi⟩ := List.getElem?_of_mem hp
    obtain ⟨pod', hpod', hfin⟩ := podvAllTileGroupsFinished_true hb (i : ℤ)
      (List.mem_map_of_mem (List.mem_range.mpr (List.getElem?_eq_some_iff.mp hi).1))
    rw [podAt_natCast, hi] at hpod'
    cases hpod'
    exact hfin

end Execution

def Agree (n : ℕ) (finished : ℕ → List ℕ) : Prop :=
  ∀ p < n, ∀ q < n, ∀ (k a b : ℕ),
    (finished p)[k]? = some a → (finished q)[k]? = some b → a = b

/-- How the pods stand to each other. While a call runs, each of them has come from the same
beginning by its own completions. -/
def Phase (pods : List Pod) (finished : ℕ → List ℕ) : Pc → Prop
  | .idle => ∃ v, Views pods fun _ w => w = v
  | .waiting call => call = .podvKernelsExecute (allPods pods.length) ∧
    ∃ v, Views pods fun i w => Transition.run turn v (finished i) = some w
  | .resuming call p => call = .podvKernelsExecute (allPods pods.length) ∧ p < pods.length ∧
    ∃ v, Views pods fun i w =>
      Transition.run turn v (finished i) = some (if i = p then launchAll w else w)

structure Inv (s : State) : Prop where
  nonempty : s.device.pods ≠ []
  agree : Agree s.device.pods.length s.finished
  phase : Phase s.device.pods s.finished s.device.pc

section Runs

variable {mc : Manycore} {s : State}

theorem Agree.concat {n p i : ℕ} {finished : ℕ → List ℕ} (h : Agree n finished)
    (hi : ∀ q < n, ∀ j ∈ (finished q)[(finished p).length]?, j = i) :
    Agree n (Function.update finished p (finished p ++ [i])) := by
  have hnew : ∀ q < n, q ≠ p → ∀ (k a b : ℕ), (finished p ++ [i])[k]? = some a →
      (finished q)[k]? = some b → p < n → a = b := by
    intro q hq _ k a b ha hb hp
    rw [List.getElem?_append] at ha
    split at ha
    · exact h p hp q hq k a b ha hb
    · next hle =>
      obtain ⟨hlt, he⟩ := List.getElem?_eq_some_iff.mp ha
      have hk : k = (finished p).length := by
        rw [List.length_singleton] at hlt
        omega
      rw [hk] at hb
      rw [hi q hq b hb, ← he, List.getElem_singleton]
  intro r hr q hq k a b ha hb
  by_cases hrp : r = p
  · subst hrp
    rw [Function.update_self] at ha
    by_cases hqr : q = r
    · subst hqr
      rw [Function.update_self] at hb
      exact Option.some.inj (ha.symm.trans hb)
    · rw [Function.update_of_ne hqr] at hb
      exact hnew q hq hqr k a b ha hb hr
  · rw [Function.update_of_ne hrp] at ha
    by_cases hqp : q = p
    · subst hqp
      rw [Function.update_self] at hb
      exact (hnew r hr hrp k b a hb ha hq).symm
    · rw [Function.update_of_ne hqp] at hb
      exact h r hr q hq k a b ha hb

theorem views_finished {pods : List Pod} {finished : ℕ → List ℕ} {v : Pod} (hne : pods ≠ [])
    (hagree : Agree pods.length finished)
    (h : Views pods fun i w => Transition.run turn v (finished i) = some w)
    (hfin : ∀ pod ∈ pods, allTileGroupsFinished pod = true) :
    ∃ v, Views pods fun _ w => w = v := by
  have hend : ∀ pod ∈ pods, ∀ i, turn (view pod) i = none := by
    intro pod hp i
    refine turn_of_finished ?_ i
    rw [allTileGroupsFinished_view]
    exact hfin pod hp
  have h0 : 0 < pods.length := List.length_pos_iff.mpr hne
  have hget := List.getElem?_eq_getElem h0
  refine ⟨view pods[0], ?_⟩
  intro i pod hi
  obtain ⟨hr, hrun⟩ := h i pod hi
  refine ⟨hr, Transition.run_confluent ?_ hrun (h 0 _ hget).2 (hend pod (List.mem_of_getElem? hi))
    (hend _ (List.mem_of_getElem? hget))⟩
  exact hagree i (List.getElem?_eq_some_iff.mp hi).1 0 h0

theorem finishTileGroup_complete {pod pod' : Pod} {src : Coord} {epa : UInt32} {i : ℕ}
    {result : Except Errno Unit} (hr : Ready pod)
    (h : finishTileGroup pod src epa = some (i, result, pod')) :
    pod.tileGroups.findIdx? (finishes src epa) = some i ∧ result = .ok () ∧
      complete pod i = some pod' := by
  obtain ⟨program, hp⟩ := Option.isSome_iff_exists.mp hr.program
  unfold finishTileGroup at h
  obtain ⟨j, hj, h⟩ := Option.bind_eq_some_iff.mp h
  obtain ⟨tg, htg, h⟩ := Option.map_eq_some_iff.mp h
  obtain ⟨hlt, hfin, -⟩ := List.findIdx?_eq_some_iff_getElem.mp hj
  rw [List.getElem?_eq_getElem hlt] at htg
  rw [Option.some.inj htg] at hfin
  have hst := (TileOwnership.finishes_iff.mp hfin).1
  obtain ⟨rfl, hretire⟩ := Prod.mk.inj h
  have hok : (retire pod j tg).1 = .ok () := by rw [retire_eq hp]
  rw [hretire] at hok
  refine ⟨hj, hok, ?_⟩
  rw [complete, List.getElem?_eq_getElem hlt, htg, Option.bind_some, if_pos hst, hretire]

theorem onPods_inv (h : Inv s) {α : Type} {f : Pod → Except Errno α × Pod} (hf : Uniform f)
    {t : State} (hs : onPods s (foreachPod f s.device.pods).2 = some t) : Inv t := by
  unfold onPods at hs
  split at hs
  · next hpc =>
    cases hs
    have hphase := h.phase
    rw [hpc] at hphase
    obtain ⟨v, hv⟩ := hphase
    obtain ⟨hlen, hviews⟩ := hf.foreachPod hv
    refine ⟨?_, by rw [hlen]; exact h.agree, ?_⟩
    · rw [← List.length_pos_iff, hlen]
      exact List.length_pos_iff.mpr h.nonempty
    · simp only [hpc]
      exact ⟨_, hviews⟩
  · cases hs

/-- A call that goes on from launched pods waits, or all of them look alike again. -/
theorem Inv.after (h : Inv s) {pods : List Pod} {finished : ℕ → List ℕ} {v : Pod}
    (hlen : pods.length = s.device.pods.length) (hagree : Agree pods.length finished)
    (hviews : Views pods fun i w => Transition.run turn v (finished i) = some w) :
    Inv ⟨s.device.after (.podvKernelsExecute (allPods pods.length))
      (podvTurn (allPods pods.length) (.ok (), pods)), finished⟩ := by
  have hne : pods ≠ [] := by
    rw [← List.length_pos_iff, hlen]
    exact List.length_pos_iff.mpr h.nonempty
  rcases podvTurn_allPods pods with he | ⟨he, hfin⟩
  · rw [he]
    exact ⟨hne, hagree, rfl, v, hviews⟩
  · rw [he]
    exact ⟨hne, hagree, views_finished hne hagree hviews hfin⟩

theorem Inv.start (h : Inv s) {answers : ℕ → ℕ → Answers} (ha : ∀ k i, Succeeds (answers k i))
    (hpc : s.device.pc = .idle) :
    Inv ⟨s.device.after (.podvKernelsExecute (allPods s.device.pods.length))
      (start answers s.device.pods (.podvKernelsExecute (allPods s.device.pods.length))),
      fun _ => []⟩ := by
  have hphase := h.phase
  rw [hpc] at hphase
  obtain ⟨v, hv⟩ := hphase
  have hall : Views s.device.pods fun i w =>
      w = if i ∈ List.range s.device.pods.length then v else launchAll v := by
    intro i pod hi
    obtain ⟨hr, he⟩ := hv i pod hi
    exact ⟨hr, he.trans
      (if_pos (List.mem_range.mpr (List.getElem?_eq_some_iff.mp hi).1)).symm⟩
  obtain ⟨hok, hlen, hviews⟩ := podvTryLaunch_views ha List.nodup_range
    (fun i hi => List.mem_range.mp hi) hall
  rw [KernelsExecute.start]
  simp only [allPods] at *
  cases hr : podvTryLaunchTileGroups answers
      ((List.range s.device.pods.length).map fun i : ℕ => (i : ℤ)) s.device.pods with
  | mk result pods =>
    rw [hr] at hok hlen hviews
    replace hok : result = .ok () := hok
    replace hlen : pods.length = s.device.pods.length := hlen
    subst hok
    rw [← hlen]
    refine h.after hlen ?_ (v := launchAll v) ?_
    · intro p _ q _ k a b hp
      cases hp
    · intro i pod hi
      obtain ⟨hr, he⟩ := hviews i pod hi
      exact ⟨hr, by rw [Transition.run, he]⟩

theorem Inv.resume (h : Inv s) {answers : ℕ → ℕ → Answers} (ha : ∀ k i, Succeeds (answers k i))
    {call : Call} {p : ℕ} (hpc : s.device.pc = .resuming call p) :
    Inv ⟨s.device.after call (resume answers s.device.pods p call), s.finished⟩ := by
  have hphase := h.phase
  rw [hpc] at hphase
  obtain ⟨rfl, hp, v, hv⟩ := hphase
  obtain ⟨hok, hlen, hviews⟩ := podTryLaunch_views (ha 0) hv hp
    (Q := fun i w => Transition.run turn v (s.finished i) = some w)
    (by
      intro w hw
      rwa [if_pos rfl] at hw)
    (by
      intro i w hne hw
      rwa [if_neg hne] at hw)
  rw [KernelsExecute.resume]
  cases hr : podTryLaunchTileGroups (answers 0) s.device.pods p with
  | mk result pods =>
    rw [hr] at hok hlen hviews
    replace hok : result = .ok () := hok
    replace hlen : pods.length = s.device.pods.length := hlen
    subst hok
    rw [← hlen]
    exact h.after hlen (by rw [hlen]; exact h.agree) hviews

/-- A packet that is read completes one tile group of its pod, or nothing. -/
theorem Inv.received (h : Inv s) {cfg : Config} {call : Call} {n : ℕ} {rqst : RequestPacket}
    {sender : Option GroupId} (hpc : s.device.pc = .waiting call)
    (hn : s.device.inFlight[n]? = some (rqst, sender))
    (ho : rqst.payload = finishSignalVal → InOrder cfg s rqst) :
    Inv ⟨s.device.received cfg call n rqst, finishedAfter cfg s n⟩ := by
  simp only [KernelsExecute.State.received, finishedAfter, hn]
  by_cases hpay : rqst.payload ≠ finishSignalVal
  · have hw : waitForTileGroupFinishAny cfg s.device.pods rqst = .continues := if_pos hpay
    simp only [hw]
    exact ⟨h.nonempty, h.agree, h.phase⟩
  · obtain ⟨hsource, hagrees⟩ := ho (not_not.mp hpay)
    have hi := List.getElem?_eq_getElem hsource
    generalize hpod : s.device.pods[sourcePod cfg rqst] = pod at hi
    have hphase := h.phase
    rw [hpc] at hphase
    obtain ⟨rfl, v, hv⟩ := hphase
    obtain ⟨hr, hrun⟩ := hv _ pod hi
    have hi' := hi
    rw [sourcePod] at hi'
    cases hf : finishTileGroup pod (requestPacketSrc rqst) (requestPacketGetEpa rqst) with
    | none =>
      have hw : waitForTileGroupFinishAny cfg s.device.pods rqst = .continues := by
        simp only [waitForTileGroupFinishAny, if_neg hpay, hi', hf]
      simp only [hw]
      exact ⟨h.nonempty, h.agree, h.phase⟩
    | some r =>
      obtain ⟨i, result, pod'⟩ := r
      obtain ⟨hfind, rfl, hc⟩ := finishTileGroup_complete hr hf
      have hw : waitForTileGroupFinishAny cfg s.device.pods rqst =
          .retires (sourcePod cfg rqst, i) (s.device.pods.set (sourcePod cfg rqst) pod') := by
        simp only [waitForTileGroupFinishAny, if_neg hpay, hi', hf, sourcePod]
      simp only [hw]
      have hview : complete (view pod) i = some (view pod') := by
        rw [complete_view hr, hc, Option.map_some]
      refine ⟨?_, ?_, ?_, ?_, v, views_set hv ⟨complete_ready hr hc, ?_⟩ ?_⟩
      · rw [← List.length_pos_iff, List.length_set]
        exact List.length_pos_iff.mpr h.nonempty
      · rw [List.length_set]
        exact h.agree.concat fun q hq j hj => hagrees pod hi i hfind q hq j hj
      · rw [List.length_set]
      · rw [List.length_set]
        exact hsource
      · simp only [Function.update_self, if_true]
        rw [Transition.run_concat, hrun, Option.bind_some, turn, hview, Option.map_some]
      · intro j w hne hw
        simp only [Function.update_of_ne hne, if_neg hne]
        exact hw

theorem next_inv (h : Inv s) {e : Event} {t : State} (he : SameOrder mc.config s e)
    (hs : next mc s e = some t) : Inv t := by
  cases e with
  | malloc size =>
    have hmalloc : (deviceMalloc s.device.pods size).2 =
        (foreachPod (podMalloc size) s.device.pods).2 := by
      unfold deviceMalloc
      split
      · next heq => rw [heq]
      · next heq => rw [heq]
      · next heq =>
        rw [heq]
        split <;> rfl
    rw [next, hmalloc] at hs
    exact onPods_inv h (podMalloc_uniform size) hs
  | free eva => exact onPods_inv h (podFree_uniform eva) hs
  | kernelEnqueue gridDim tgDim name argv =>
    exact onPods_inv h (podKernelEnqueue_uniform mc gridDim tgDim name argv) hs
  | tileGroupsExecute answers =>
    obtain ⟨d, hd, rfl⟩ := Option.map_eq_some_iff.mp hs
    cases KernelsExecute.step_of_next hd with
    | execute call answers hpc => exact h.start he hpc
  | resume answers =>
    obtain ⟨d, hd, rfl⟩ := Option.map_eq_some_iff.mp hs
    cases KernelsExecute.step_of_next hd with
    | resume answers hpc => exact h.resume he hpc
  | finishSignal k rqst =>
    obtain ⟨d, hd, rfl⟩ := Option.map_eq_some_iff.mp hs
    cases KernelsExecute.step_of_next hd with
    | finishSignal => exact ⟨h.nonempty, h.agree, h.phase⟩
  | otherPacket rqst =>
    obtain ⟨d, hd, rfl⟩ := Option.map_eq_some_iff.mp hs
    cases KernelsExecute.step_of_next hd with
    | otherPacket => exact ⟨h.nonempty, h.agree, h.phase⟩
  | receive n =>
    obtain ⟨d, hd, rfl⟩ := Option.map_eq_some_iff.mp hs
    cases KernelsExecute.step_of_next hd with
    | @receive n call rqst sender hpc hn => exact h.received hpc hn (he (rqst, sender) hn)
  | rxError e => exact he.elim

def Roomy (cfg : Config) : Prop :=
  ∀ p, ConfigPod.IsPod cfg p →
    (ConfigPod.podVcoreOrigin cfg p).x.toNat + cfg.podShape.x.toNat + 1 < 2 ^ 32 ∧
    (ConfigPod.podVcoreOrigin cfg p).y.toNat + cfg.podShape.y.toNat + 1 < 2 ^ 32

theorem initial_inv (hroom : Roomy mc.config) (h : Initial mc s) : Inv s := by
  obtain ⟨hdevice, hne, ⟨programEnd, optDim, defaultDim, program, -, hpods⟩, hfin⟩ := h
  refine ⟨hne, ?_, ?_⟩
  · rw [hfin]
    intro p _ q _ k a b hp
    cases hp
  · rw [hdevice.pc]
    refine ⟨⟨⟨⟨0, 0⟩, some program⟩, PodView.originMesh
      (PodMesh.meshDim mc.config optDim defaultDim), [], 1, 0, []⟩, ?_⟩
    intro i pod hi
    have hmem := List.mem_of_getElem? hi
    obtain ⟨hprogram, hmesh, hgroups, hcap, hgrids, hkernels⟩ := hpods pod hmem
    obtain ⟨hview, horigin, hx, hy⟩ := meshInit_view hmesh
    have hpod : ConfigPod.IsPod mc.config pod.podCoord := by
      have hplace : pod.podCoord ∈ s.device.pods.map fun pod => pod.podCoord :=
        List.mem_map_of_mem hmem
      rw [hdevice.places] at hplace
      obtain ⟨pod', hpod', he⟩ := List.mem_map.mp hplace
      rw [← he]
      exact PodMalloc.isPod_of_mem_deviceInit hpod'
    obtain ⟨hroomx, hroomy⟩ := hroom pod.podCoord hpod
    rw [← horigin] at hroomx hroomy
    have hinit : TileOwnership.Initial mc pod :=
      ⟨⟨optDim, defaultDim, hmesh⟩, hgroups, by rw [hprogram]; rfl⟩
    have hex := TileOwnership.initial_exclusive hinit
    refine ⟨⟨hex, ⟨by omega, by omega⟩, by rw [hprogram]; rfl, ?_⟩, ?_⟩
    · rw [hgroups]
      intro g hg
      cases hg
    · rw [view, hview, hgroups, hprogram, hcap, hgrids, hkernels]
      rfl

/-- As long as the tile groups finish in the same order on all pods, an allocation between two
executions gives one address on all of them. -/
theorem replicated_malloc {mc : Manycore} {s : State} (hroom : Roomy mc.config)
    (h : Transition.Reachable ((system mc).restrict (SameOrder mc.config)) s)
    (hpc : s.device.pc = .idle) : SameAddress s.device.pods := by
  have hinv : Inv s := by
    refine h.invariant ?_ ?_
    · intro s hs
      exact initial_inv hroom hs
    · rintro s e t hinv ⟨he, hnext⟩
      exact next_inv hinv he hnext
  have hphase := hinv.phase
  rw [hpc] at hphase
  obtain ⟨v, hv⟩ := hphase
  exact sameAddress hinv.nonempty hv

end Runs

def replicatedPod (cfg : Config) (dim : Dimension) (programEnd : UInt32) (podCoord : Coord) : Pod :=
  match PodMalloc.programAllocatorInit cfg (some programEnd) with
  | .error _ => unloadedPod podCoord
  | .ok program => { freshPod cfg dim podCoord with program := some program }

def replicatedDevice (cfg : Config) (dim : Dimension) (programEnd : UInt32) : State where
  device := { freshDevice cfg 0 dim with
    pods := (List.range (toLength cfg.pods).toNat).map fun j =>
      replicatedPod cfg dim programEnd (PodMalloc.indexToCoordinate j cfg.pods) }
  finished := fun _ => []

theorem replicatedDevice_initial {mc : Manycore} {dim : Dimension} {programEnd : UInt32}
    {program : PodMalloc.Program} (hpods : 0 < (toLength mc.config.pods).toNat)
    (hp : PodMalloc.programAllocatorInit mc.config (some programEnd) = .ok program)
    (hm : ∀ j < (toLength mc.config.pods).toNat, (PodMesh.meshInit mc.config
      (PodMalloc.indexToCoordinate j mc.config.pods) dim PodMesh.meshFullCore).isOk = true) :
    Initial mc (replicatedDevice mc.config dim programEnd) := by
  have hpod : ∀ j < (toLength mc.config.pods).toNat, ∃ mesh,
      PodMesh.meshInit mc.config (PodMalloc.indexToCoordinate j mc.config.pods) dim
        PodMesh.meshFullCore = .ok mesh ∧
      replicatedPod mc.config dim programEnd (PodMalloc.indexToCoordinate j mc.config.pods) =
        { TileOwnership.smallPod with
          podCoord := PodMalloc.indexToCoordinate j mc.config.pods
          mesh := mesh
          program := some program } := by
    intro j hj
    have hok := hm j hj
    cases hmesh : PodMesh.meshInit mc.config (PodMalloc.indexToCoordinate j mc.config.pods) dim
        PodMesh.meshFullCore with
    | error e =>
      rw [hmesh] at hok
      cases hok
    | ok mesh => exact ⟨mesh, rfl, by simp only [replicatedPod, hp, freshPod, hmesh]⟩
  refine ⟨⟨?_, ?_, rfl, rfl, rfl, rfl, rfl, rfl⟩, ?_, ?_, rfl⟩
  · rw [replicatedDevice, PodMalloc.deviceInit, List.map_map, List.map_map]
    refine List.map_congr_left ?_
    intro j hj
    obtain ⟨mesh, -, he⟩ := hpod j (List.mem_range.mp hj)
    rw [Function.comp_apply, he]
    rfl
  · intro pod hmem
    obtain ⟨j, hj, rfl⟩ := List.mem_map.mp hmem
    obtain ⟨mesh, hmesh, he⟩ := hpod j (List.mem_range.mp hj)
    rw [he]
    exact Or.inl ⟨⟨dim, PodMesh.meshFullCore, hmesh⟩, rfl, rfl⟩
  · intro hnil
    rw [replicatedDevice, List.map_eq_nil_iff, List.range_eq_nil] at hnil
    omega
  · refine ⟨programEnd, dim, PodMesh.meshFullCore, program, hp, ?_⟩
    intro pod hmem
    obtain ⟨j, hj, rfl⟩ := List.mem_map.mp hmem
    obtain ⟨mesh, hmesh, he⟩ := hpod j (List.mem_range.mp hj)
    rw [he]
    exact ⟨rfl, hmesh, rfl, rfl, rfl, rfl⟩

def twoPods : Machine := { podsX := 2, dramBankWords := 0x10000 }

def finishPacket (k : GroupId) : RequestPacket where
  xSrc := UInt8.ofNat (16 * (k.1 + 1) + k.2)
  ySrc := 8
  payload := finishSignalVal
  addr := 0x3C00 + UInt32.ofNat k.2

def finishIn (order : List GroupId) : List Event :=
  [.malloc (UInt32.ofNat twoPods.config.dramSize - 256),
    .kernelEnqueue ⟨2, 1⟩ ⟨1, 1⟩ "main" [], .tileGroupsExecute answersOk] ++
  order.flatMap fun k => [.finishSignal k (finishPacket k), .receive 0, .resume answersOk]

theorem twoPods_initial :
    Initial ⟨twoPods.config, true⟩ (replicatedDevice twoPods.config ⟨2, 1⟩ 0x80000000) :=
  replicatedDevice_initial (by decide) rfl (by decide +kernel)

instance (cfg : Config) (s : State) (rqst : RequestPacket) : Decidable (InOrder cfg s rqst) :=
  decidable_of_iff (_ ∧ _) ⟨fun h => ⟨h.1, h.2⟩, fun h => ⟨h.source, h.agrees⟩⟩

def checkOrder (cfg : Config) (s : State) : Event → Bool
  | .receive n => decide (∀ p ∈ s.device.inFlight[n]?, p.1.payload = finishSignalVal →
      InOrder cfg s p.1)
  | .rxError _ => false
  | _ => true

/-- On both pods the first tile group finishes before the second. -/
theorem replicated_malloc_x2 : ∃ s : State, s.device.pc = .idle ∧
    s.finished 0 = [0, 1] ∧ s.finished 1 = [0, 1] ∧ SameAddress s.device.pods := by
  have hroom : Roomy twoPods.config := ConfigPod.forall_pod (by decide)
  have hrun : (Transition.run
      (Transition.checked (checkOrder twoPods.config) (next ⟨twoPods.config, true⟩))
      (replicatedDevice twoPods.config ⟨2, 1⟩ 0x80000000)
      (finishIn [(0, 0), (1, 0), (0, 1), (1, 1)])).any (fun s => s.device.pc = .idle ∧
        s.finished 0 = [0, 1] ∧ s.finished 1 = [0, 1]) = true := by decide +kernel
  obtain ⟨s, hs, h⟩ := (Option.any_eq_true _ _).mp hrun
  obtain ⟨hpc, h0, h1⟩ := of_decide_eq_true h
  have hreach : Transition.Reachable
      ((system ⟨twoPods.config, true⟩).restrict (SameOrder twoPods.config)) s := by
    refine .run_checked (.initial twoPods_initial) ?_ hs
    intro e he s hc
    cases e with
    | tileGroupsExecute answers =>
      simp only [finishIn, List.cons_append, List.nil_append, List.mem_cons, reduceCtorEq,
        false_or, Event.tileGroupsExecute.injEq, List.mem_flatMap, List.not_mem_nil, or_false,
        or_self, and_false, exists_false] at he
      rw [he]
      exact fun _ _ => succeeds_allOk
    | resume answers =>
      simp only [finishIn, List.cons_append, List.nil_append, List.mem_cons, reduceCtorEq,
        false_or, Event.resume.injEq, List.mem_flatMap, List.not_mem_nil, or_false] at he
      obtain ⟨-, -, rfl⟩ := he
      exact fun _ _ => succeeds_allOk
    | receive n => exact of_decide_eq_true (p := ∀ p ∈ s.device.inFlight[n]?, _) hc
    | rxError e => cases hc
    | malloc size => trivial
    | free eva => trivial
    | kernelEnqueue gridDim tgDim name argv => trivial
    | finishSignal k rqst => trivial
    | otherPacket rqst => trivial
  exact ⟨s, hpc, h0, h1, replicated_malloc hroom hreach hpc⟩

/-- With the two completions of the second pod the other way round, its free blocks lie in
another order, and the next allocation fails. -/
theorem replicated_malloc_fails :
    Configuration.Accepted twoPods.config ∧ ∃ s : State,
      Transition.Reachable (system ⟨twoPods.config, true⟩) s ∧ s.device.pc = .idle ∧
      (deviceMalloc s.device.pods 1).1 = .error .fail ∧ ¬ SameAddress s.device.pods := by
  have hrun : (Transition.run (next ⟨twoPods.config, true⟩)
      (replicatedDevice twoPods.config ⟨2, 1⟩ 0x80000000)
      (finishIn [(0, 0), (0, 1), (1, 1), (1, 0)])).any (fun s => s.device.pc = .idle ∧
        (deviceMalloc s.device.pods 1).1 = .error .fail) = true := by decide +kernel
  obtain ⟨s, hs, h⟩ := (Option.any_eq_true _ _).mp hrun
  obtain ⟨hpc, hfail⟩ := of_decide_eq_true h
  have hreach : Transition.Reachable ((system ⟨twoPods.config, true⟩).restrict
      fun _ _ => True) s :=
    .run (.initial twoPods_initial) (fun _ _ _ => trivial) hs
  refine ⟨Machine.config_accepted _ (by decide), s, hreach.of_restrict, hpc, hfail, ?_⟩
  intro hsame
  obtain ⟨eva, heva, -⟩ := hsame 1
  rw [hfail] at heva
  cases heva

end LegacyReplicate
