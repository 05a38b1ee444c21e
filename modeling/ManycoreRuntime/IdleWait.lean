import ManycoreRuntime.KernelsExecute

/-! # No wait with nothing running

A launch attempt leaves a pod with a launched tile group or with nothing to launch, if every
waiting tile group fits an empty mesh. Enqueueing does not check the shape of a tile group: with
one that no mesh can hold, the call enters the wait and nothing runs. -/
namespace IdleWait

open Coordinate hiding next
open Configuration (Config Manycore)
open PodMesh (Mesh InMesh WellFormed)
open Machines (Machine)
open Packets (RequestPacket)
open TileGroups KernelsExecute
open TileOwnership hiding Event next Initial system

/-- An empty mesh holds a tile group of this shape, and the scan for it reaches the origin of the
mesh. The shape of no tiles at all counts as one that has failed. -/
structure Placeable (m : Mesh) (dim : Dimension) : Prop where
  nonzero : dim ≠ ⟨0, 0⟩
  x : dim.x.toNat ≤ m.dim.x.toNat
  y : dim.y.toNat ≤ m.dim.y.toNat
  scanX : m.origin.x.toNat + (m.dim.x.toNat - dim.x.toNat + 1) < 2 ^ 32
  scanY : m.origin.y.toNat + (m.dim.y.toNat - dim.y.toNat + 1) < 2 ^ 32

instance (m : Mesh) (dim : Dimension) : Decidable (Placeable m dim) :=
  decidable_of_iff (_ ∧ _ ∧ _ ∧ _ ∧ _)
    ⟨fun ⟨h0, h1, h2, h3, h4⟩ => ⟨h0, h1, h2, h3, h4⟩, fun ⟨h0, h1, h2, h3, h4⟩ =>
      ⟨h0, h1, h2, h3, h4⟩⟩

def Running (pod : Pod) : Prop := ∃ g ∈ pod.tileGroups, g.status = .launched

instance (pod : Pod) : Decidable (Running pod) := inferInstanceAs (Decidable (∃ g ∈ _, _ = _))

def NoneAllocated (pod : Pod) : Prop := ∀ g ∈ pod.tileGroups, g.status ≠ .allocated

instance (pod : Pod) : Decidable (NoneAllocated pod) :=
  inferInstanceAs (Decidable (∀ g ∈ _, _ ≠ _))

def Served (pod : Pod) : Prop := Running pod ∨ allTileGroupsFinished pod = true

section Pod

variable {m : Mesh} {pod : Pod} {answers : Answers}

theorem Placeable.of_dim {m' : Mesh} {dim : Dimension} (h : Placeable m dim)
    (hd : m'.dim = m.dim) (ho : m'.origin = m.origin) : Placeable m' dim := by
  obtain ⟨h0, h1, h2, h3, h4⟩ := h
  refine ⟨h0, ?_, ?_, ?_, ?_⟩
  · rw [hd]
    exact h1
  · rw [hd]
    exact h2
  · rw [hd, ho]
    exact h3
  · rw [hd, ho]
    exact h4

/-- The scan of a free mesh succeeds, at the origin of the mesh at the latest. -/
theorem findOrigin_free (hm : WellFormed m) {dim : Dimension} (h : Placeable m dim)
    (hfree : ∀ c, InMesh m c → ∃ t, m.tileAt c = some t ∧ t.status = .free) :
    ∃ origin, findOrigin m dim = .ok (some origin) := by
  obtain ⟨-, hx, hy, hsx, hsy⟩ := h
  have hox := m.origin.x.toNat_lt
  have hsub : subSafe m.dim dim = .ok ⟨m.dim.x - dim.x, m.dim.y - dim.y⟩ := by
    refine if_neg ?_
    rw [not_or, UInt32.not_lt, UInt32.not_lt]
    exact ⟨UInt32.le_iff_toNat_le.mpr hx, UInt32.le_iff_toNat_le.mpr hy⟩
  have hbx : (m.dim.x - dim.x + 1).toNat = m.dim.x.toNat - dim.x.toNat + 1 := by
    rw [UInt32.toNat_add, UInt32.toNat_sub_of_le _ _ (UInt32.le_iff_toNat_le.mpr hx)]
    exact Nat.mod_eq_of_lt (by simp only [UInt32.reduceToNat]; omega)
  have hby : (m.dim.y - dim.y + 1).toNat = m.dim.y.toNat - dim.y.toNat + 1 := by
    rw [UInt32.toNat_add, UInt32.toNat_sub_of_le _ _ (UInt32.le_iff_toNat_le.mpr hy)]
    exact Nat.mod_eq_of_lt (by simp only [UInt32.reduceToNat]; omega)
  have hn : NoWrap m.origin ⟨m.dim.x - dim.x + 1, m.dim.y - dim.y + 1⟩ := by
    refine ⟨?_, ?_⟩
    · rw [hbx]
      exact hsx
    · rw [hby]
      exact hsy
  have hmem : m.origin ∈ foreachCoordinate m.origin
      ⟨m.dim.x - dim.x + 1, m.dim.y - dim.y + 1⟩ := by
    rw [mem_foreachCoordinate hn]
    refine ⟨le_rfl, ?_, le_rfl, ?_⟩
    · rw [hbx]
      omega
    · rw [hby]
      omega
  have hw : Within m m.origin dim := ⟨le_rfl, by omega, le_rfl, by omega⟩
  have hall : tilesAreFree m m.origin dim = true :=
    (tilesAreFree_iff hm hw).mpr fun c hc => hfree c (hw.inMesh hc)
  cases hfind : (foreachCoordinate m.origin ⟨m.dim.x - dim.x + 1, m.dim.y - dim.y + 1⟩).find?
      fun origin => tilesAreFree m origin dim with
  | none => exact absurd hall (List.find?_eq_none.mp hfind _ hmem)
  | some origin =>
    refine ⟨origin, ?_⟩
    simp only [findOrigin, hsub, add, bind, Except.bind, pure, Except.pure, hfind]

theorem free_of_idle (h : Inv pod)
    (hidle : ∀ (i : ℕ) g, pod.tileGroups[i]? = some g → ¬ Owns g) {c : Coord}
    (hc : InMesh pod.mesh c) : ∃ t, pod.mesh.tileAt c = some t ∧ t.status = .free := by
  obtain ⟨t, ht⟩ := PodMesh.exists_tileAt h.exclusive.wellFormed hc
  refine ⟨t, ht, ?_⟩
  cases hs : t.status with
  | free => rfl
  | busy =>
    obtain ⟨i, g, hi, ho, -⟩ := h.recorded.owner c t hc ht hs
    exact absurd ho (hidle i g hi)

theorem allocateAndLaunch_fst (hset : ∀ c, answers.setConfigSymbols c = .ok ()) {i : ℕ}
    {tg : TileGroup} {origin : Coord} (hf : findOrigin pod.mesh tg.dim = .ok (some origin)) :
    (allocateAndLaunch answers pod i tg).1 = true := by
  have hc := claimTiles_cases (m := pod.mesh) answers.setConfigSymbols tg.id origin
    (foreachCoordinate origin tg.dim)
  rcases hc with hok | ⟨e, marked, -, ⟨c, he⟩, -⟩
  · simp only [allocateAndLaunch, allocateTiles, hf, hok]
  · rw [hset c] at he
    cases he

theorem running_of_advanced {pod' : Pod} (h : Running pod) (ha : Advanced pod pod') :
    Running pod' := by
  obtain ⟨g, hg, hst⟩ := h
  obtain ⟨i, hi⟩ := List.getElem?_of_mem hg
  have hl := ha.groups i
  rw [hi] at hl
  exact ⟨g, List.mem_of_getElem? (Launching.launched hl hst), hst⟩

/-- From an idle pod, the first tile group that waits is launched, or the attempt fails. -/
theorem tryLaunchFrom_running {answers : ℕ → Answers}
    (hset : ∀ i c, (answers i).setConfigSymbols c = .ok ()) (h : Inv pod)
    (hidle : ∀ (i : ℕ) g, pod.tileGroups[i]? = some g → ¬ Owns g)
    (hplace : ∀ (i : ℕ) g, pod.tileGroups[i]? = some g → g.status = .initialized →
      Placeable pod.mesh g.dim)
    {is : List ℕ} (hex : ∃ i ∈ is, ∃ g, pod.tileGroups[i]? = some g ∧ g.status = .initialized)
    (hok : (tryLaunchFrom answers is ⟨0, 0⟩ pod).1 = .ok ()) :
    Running (tryLaunchFrom answers is ⟨0, 0⟩ pod).2 := by
  induction is with
  | nil =>
    obtain ⟨i, hi, -⟩ := hex
    cases hi
  | cons i rest ih =>
    obtain ⟨j, hj, g, hg, hgst⟩ := hex
    rw [tryLaunchFrom] at hok ⊢
    cases hi : pod.tileGroups[i]? with
    | none =>
      rw [hi] at hok
      cases hok
    | some tg =>
      simp only [hi] at hok ⊢
      by_cases hst : tg.status = .initialized
      · have hpl := hplace i tg hi hst
        obtain ⟨origin, hf⟩ := findOrigin_free h.exclusive.wellFormed hpl
          (fun c hc => free_of_idle h hidle hc)
        have hfst := allocateAndLaunch_fst (i := i) (hset i) hf
        have hex' := allocateAndLaunch_exclusive (answers i) (i := i) hst h.exclusive
        rw [if_neg (not_not.mpr hst), if_neg (fun he => hpl.nonzero he.symm)] at hok ⊢
        rcases allocateAndLaunch_cases h.exclusive.wellFormed (answers i) i tg with
          ⟨o, marked, -, -, -, he⟩ | ⟨o, result, program, a, status, -, -, -, hres, he⟩
        · rw [he] at hfst
          cases hfst
        · rw [he] at hok hex' ⊢
          rcases hres with ⟨rfl, rfl⟩ | ⟨e, rfl, -⟩
          · have hmem := List.mem_of_getElem? (getElem?_set_of_some
              { tg with origin := o, argvEva := a, status := .launched } hi)
            exact running_of_advanced ⟨_, hmem, rfl⟩
              (tryLaunchFrom_advanced answers rest ⟨0, 0⟩ hex').1
          · cases hok
      · rw [if_pos hst] at hok ⊢
        refine ih ⟨j, ?_, g, hg, hgst⟩ hok
        rcases List.mem_cons.mp hj with rfl | hj
        · rw [hi] at hg
          cases hg
          exact absurd hgst hst
        · exact hj

theorem tryLaunchFrom_noneAllocated {answers : ℕ → Answers} {is : List ℕ}
    {lastFailed : Dimension} (h : Exclusive pod.mesh pod.tileGroups) (hn : NoneAllocated pod)
    (hok : (tryLaunchFrom answers is lastFailed pod).1 = .ok ()) :
    NoneAllocated (tryLaunchFrom answers is lastFailed pod).2 := by
  induction is generalizing lastFailed pod with
  | nil => exact hn
  | cons i rest ih =>
    rw [tryLaunchFrom] at hok ⊢
    cases hi : pod.tileGroups[i]? with
    | none =>
      rw [hi] at hok
      cases hok
    | some tg =>
      simp only [hi] at hok ⊢
      by_cases hst : tg.status = .initialized
      · rw [if_neg (not_not.mpr hst)] at hok ⊢
        by_cases hlast : lastFailed = tg.dim
        · rw [if_pos hlast] at hok ⊢
          exact ih h hn hok
        · rw [if_neg hlast] at hok ⊢
          have hex := allocateAndLaunch_exclusive (answers i) (i := i) hst h
          rcases allocateAndLaunch_cases h.wellFormed (answers i) i tg with
            ⟨o, marked, -, -, -, he⟩ | ⟨o, result, program, a, status, -, -, -, hres, he⟩
          · rw [he] at hok hex ⊢
            refine ih hex ?_ hok
            intro g hg
            rcases List.mem_or_eq_of_mem_set hg with hg | rfl
            · exact hn g hg
            · show tg.status ≠ .allocated
              rw [hst]
              decide
          · rw [he] at hok hex ⊢
            rcases hres with ⟨rfl, rfl⟩ | ⟨e, rfl, -⟩
            · refine ih hex ?_ hok
              intro g hg
              rcases List.mem_or_eq_of_mem_set hg with hg | rfl
              · exact hn g hg
              · exact TileGroupStatus.noConfusion
            · cases hok
      · rw [if_pos hst] at hok ⊢
        exact ih h hn hok

structure PodReady (pod : Pod) : Prop where
  unloaded : pod.program.isSome = false → pod.tileGroups = []
  loaded : pod.program.isSome = true → Inv pod
  placeable : ∀ (i : ℕ) g, pod.tileGroups[i]? = some g → g.status = .initialized →
    Placeable pod.mesh g.dim

theorem tryLaunch_unloaded {answers : ℕ → Answers} (h : pod.tileGroups = []) :
    tryLaunchTileGroups answers pod = (.ok (), pod) := by
  rw [tryLaunchTileGroups, h]
  rfl

theorem PodReady.advanced (h : PodReady pod) (answers : ℕ → Answers) :
    Advanced pod (tryLaunchTileGroups answers pod).2 := by
  cases hp : pod.program.isSome with
  | false =>
    rw [tryLaunch_unloaded (h.unloaded hp)]
    exact .refl pod
  | true => exact (tryLaunchTileGroups_advanced answers (h.loaded hp).exclusive).1

theorem PodReady.tryLaunch (h : PodReady pod) {answers : ℕ → Answers}
    (hset : ∀ i c, (answers i).setConfigSymbols c = .ok ()) :
    PodReady (tryLaunchTileGroups answers pod).2 := by
  have ha := h.advanced answers
  refine ⟨?_, ?_, ?_⟩
  · intro hp
    rw [ha.program] at hp
    rw [tryLaunch_unloaded (h.unloaded hp)]
    exact h.unloaded hp
  · intro hp
    rw [ha.program] at hp
    exact tryLaunchFrom_invariant
      (fun pod i tg hi hst hinv => allocateAndLaunch_inv (hset i) hi hst hinv) _ _ (h.loaded hp)
  · intro i g hi hst
    rcases ha.groups i with hsame | ⟨a, b, hia, hib, hinit, -, hdim⟩
    · rw [hsame] at hi
      exact (h.placeable i g hi hst).of_dim ha.mesh.1 ha.mesh.2
    · rw [hib] at hi
      cases hi
      rw [hdim]
      exact (h.placeable i a hia hinit).of_dim ha.mesh.1 ha.mesh.2

theorem PodReady.served (h : PodReady pod) {answers : ℕ → Answers}
    (hset : ∀ i c, (answers i).setConfigSymbols c = .ok ()) (hn : NoneAllocated pod)
    (hok : (tryLaunchTileGroups answers pod).1 = .ok ()) :
    Served (tryLaunchTileGroups answers pod).2 ∧
      NoneAllocated (tryLaunchTileGroups answers pod).2 := by
  have ha := h.advanced answers
  cases hp : pod.program.isSome with
  | false =>
    rw [tryLaunch_unloaded (h.unloaded hp)]
    refine ⟨Or.inr ?_, hn⟩
    rw [allTileGroupsFinished, h.unloaded hp]
    rfl
  | true =>
    have hinv := h.loaded hp
    refine ⟨?_, tryLaunchFrom_noneAllocated hinv.exclusive hn hok⟩
    by_cases hrun : Running pod
    · exact Or.inl (running_of_advanced hrun ha)
    · have hidle : ∀ (i : ℕ) g, pod.tileGroups[i]? = some g → ¬ Owns g := by
        rintro i g hi (hst | hst)
        · exact hn g (List.mem_of_getElem? hi) hst
        · exact hrun ⟨g, List.mem_of_getElem? hi, hst⟩
      by_cases hex : ∃ i ∈ List.range pod.tileGroups.length, ∃ g,
          pod.tileGroups[i]? = some g ∧ g.status = .initialized
      · exact Or.inl (tryLaunchFrom_running hset hinv hidle h.placeable hex hok)
      · refine Or.inr (ha.finished ?_)
        intro i g hi
        have hlt := (List.getElem?_eq_some_iff.mp hi).1
        cases hst : g.status with
        | initialized => exact absurd ⟨i, List.mem_range.mpr hlt, g, hi, hst⟩ hex
        | allocated => exact absurd (Or.inl hst) (hidle i g hi)
        | launched => exact absurd (Or.inr hst) (hidle i g hi)
        | finished => rfl

theorem PodReady.enqueue {mc : Manycore} (h : PodReady pod) {gridDim tgDim : Dimension}
    (hplace : Placeable pod.mesh tgDim) (hp : pod.program.isSome = true) (name : String)
    (argv : List UInt32) : PodReady (kernelEnqueue mc pod gridDim tgDim name argv) := by
  obtain ⟨new, hnew⟩ := kernelEnqueue_enqueued mc pod gridDim tgDim name argv
  refine ⟨?_, fun _ => next_inv (e := .enqueue gridDim tgDim name argv) (h.loaded hp) trivial, ?_⟩
  · intro hn
    rw [hnew.program, hp] at hn
    cases hn
  · intro i g hi hst
    rw [hnew.groups, List.getElem?_append] at hi
    rw [hnew.mesh]
    split at hi
    · exact h.placeable i g hi hst
    · obtain ⟨tgId, gridId, kernel, rfl⟩ := hnew.new g (List.mem_of_getElem? hi)
      exact hplace

theorem PodReady.finish (mc : Manycore) (h : PodReady pod) {src : Coord} {epa : UInt32} {j : ℕ}
    {result : Except Errno Unit} {pod' : Pod}
    (hf : finishTileGroup pod src epa = some (j, result, pod')) :
    PodReady pod' ∧ (NoneAllocated pod → NoneAllocated pod') := by
  have hp : pod.program.isSome = true := by
    by_contra hn
    have hg := h.unloaded (Bool.eq_false_iff.mpr hn)
    simp only [finishTileGroup, hg, List.findIdx?_nil] at hf
    cases hf
  have hinv : Inv pod' := by
    have hnext : Inv (TileOwnership.next mc pod (.finish src epa)) :=
      next_inv (h.loaded hp) trivial
    simp only [TileOwnership.next, hf] at hnext
    exact hnext
  obtain ⟨tg, g', hi, -, -, hst, -, hmesh, hgroups, -, hp'⟩ := finishTileGroup_some hf hp
  obtain ⟨hd, ho⟩ := PodMesh.updateTiles_dim pod.mesh (fun _ => freeTile pod.mesh.origin)
    (foreachCoordinate tg.origin tg.dim)
  refine ⟨⟨?_, fun _ => hinv, ?_⟩, ?_⟩
  · intro hn
    rw [hp'] at hn
    cases hn
  · intro i g hg hinit
    rw [hgroups] at hg
    rw [hmesh]
    rcases getElem?_set_cases hg with ⟨-, rfl⟩ | ⟨-, hg⟩
    · rw [hst] at hinit
      cases hinit
    · exact (h.placeable i g hg hinit).of_dim hd ho
  · intro hn g hg
    rw [hgroups] at hg
    rcases List.mem_or_eq_of_mem_set hg with hg | rfl
    · exact hn g hg
    · rw [hst]
      decide

end Pod

def Ready (pods : List Pod) : Prop := ∀ (i : ℕ) pod, pods[i]? = some pod → PodReady pod

/-- No pod of the call has a launch that was cut short, and those that `served` names were left
by a launch attempt with nothing more to launch. -/
def Prepared (pods : List Pod) (podv : List ℤ) (served : ℤ → Prop) : Prop :=
  ∀ podId ∈ podv, ∀ pod, podAt pods podId = some pod →
    NoneAllocated pod ∧ (served podId → Served pod)

def Busy (pods : List Pod) (podv : List ℤ) : Prop :=
  ∃ podId ∈ podv, ∃ pod, podAt pods podId = some pod ∧ Running pod

section Calls

variable {pods : List Pod} {podv : List ℤ} {served : ℤ → Prop}

theorem Ready.set (h : Ready pods) {i : ℕ} {pod : Pod} (hp : PodReady pod) :
    Ready (pods.set i pod) := by
  intro j p hj
  rcases getElem?_set_cases hj with ⟨-, rfl⟩ | ⟨-, hj⟩
  · exact hp
  · exact h j p hj

theorem Prepared.mono (h : Prepared pods podv served) {served' : ℤ → Prop}
    (hsub : ∀ podId ∈ podv, served' podId → served podId) : Prepared pods podv served' :=
  fun podId hid pod hpod =>
    ⟨(h podId hid pod hpod).1, fun hs => (h podId hid pod hpod).2 (hsub podId hid hs)⟩

theorem Prepared.set (h : Prepared pods podv served) {i : ℕ} {pod pod' : Pod}
    {served' : ℤ → Prop} (hi : pods[i]? = some pod)
    (hother : ∀ podId ∈ podv, podId ≠ i → served' podId → served podId)
    (hn : NoneAllocated pod → NoneAllocated pod')
    (hs : NoneAllocated pod → served' i → Served pod') :
    Prepared (pods.set i pod') podv served' := by
  intro podId hid p hp
  unfold podAt at hp
  split at hp
  · cases hp
  · next hpos =>
    by_cases hip : i = podId.toNat
    · have hpid : podId = i := by omega
      have hold := h podId hid pod (by
        rw [podAt, if_neg hpos, ← hip]
        exact hi)
      have hnew : (pods.set i pod')[podId.toNat]? = some pod' := by
        rw [← hip, List.getElem?_set_self (List.getElem?_eq_some_iff.mp hi).1]
      rw [hnew] at hp
      cases hp
      refine ⟨hn hold.1, fun hserved => hs hold.1 ?_⟩
      rw [← hpid]
      exact hserved
    · rw [List.getElem?_set_ne hip] at hp
      have hold := h podId hid p (by
        rw [podAt, if_neg hpos]
        exact hp)
      refine ⟨hold.1, fun hserved => hold.2 (hother podId hid ?_ hserved)⟩
      intro he
      exact hip (by omega)

theorem podTryLaunch_ready {answers : ℕ → Answers}
    (hset : ∀ i c, (answers i).setConfigSymbols c = .ok ()) (podId : ℤ) (h : Ready pods) :
    Ready (podTryLaunchTileGroups answers pods podId).2 := by
  unfold podTryLaunchTileGroups
  split
  · exact h
  · next pod hpod => exact h.set ((h _ pod (podAt_eq_some hpod)).tryLaunch hset)

theorem podTryLaunch_prepared {answers : ℕ → Answers}
    (hset : ∀ i c, (answers i).setConfigSymbols c = .ok ()) (podId : ℤ) (hr : Ready pods)
    (h : Prepared pods podv served)
    (hok : (podTryLaunchTileGroups answers pods podId).1 = .ok ()) :
    Prepared (podTryLaunchTileGroups answers pods podId).2 podv
      (fun j => served j ∨ j = podId) := by
  unfold podTryLaunchTileGroups at hok ⊢
  split at hok
  · cases hok
  · next pod hpod =>
    have hi := podAt_eq_some hpod
    have hpos : (podId.toNat : ℤ) = podId := by
      unfold podAt at hpod
      split at hpod
      · cases hpod
      · omega
    have hserve := fun hn => (hr _ pod hi).served hset hn hok
    refine h.set hi ?_ (fun hn => (hserve hn).2) (fun hn _ => (hserve hn).1)
    rintro j _ hne (hj | hj)
    · exact hj
    · rw [hpos] at hne
      exact absurd hj hne

theorem podvTryLaunch_prepared {answers : ℕ → ℕ → Answers}
    (hset : ∀ k i c, (answers k i).setConfigSymbols c = .ok ()) {ids : List ℤ} (hr : Ready pods)
    (h : Prepared pods podv served)
    (hok : (podvTryLaunchTileGroups answers ids pods).1 = .ok ()) :
    Prepared (podvTryLaunchTileGroups answers ids pods).2 podv
      (fun j => served j ∨ j ∈ ids) := by
  induction ids generalizing answers pods served with
  | nil =>
    refine h.mono ?_
    rintro j _ (hj | hj)
    · exact hj
    · cases hj
  | cons podId ids ih =>
    unfold podvTryLaunchTileGroups at hok ⊢
    have hready := podTryLaunch_ready (hset 0) podId hr
    have hprep := podTryLaunch_prepared (hset 0) podId hr h
    split at hok
    · cases hok
    · next he =>
      rw [he] at hready hprep
      refine (ih (fun k => hset (k + 1)) hready (hprep rfl) hok).mono ?_
      rintro j _ (hj | hj)
      · exact Or.inl (Or.inl hj)
      · rcases List.mem_cons.mp hj with hj | hj
        · exact Or.inl (Or.inr hj)
        · exact Or.inr hj

theorem podvAllTileGroupsFinished_false {ids : List ℤ}
    (h : podvAllTileGroupsFinished pods ids = .ok false) :
    ∃ podId ∈ ids, ∃ pod, podAt pods podId = some pod ∧ allTileGroupsFinished pod = false := by
  induction ids with
  | nil => cases h
  | cons podId ids ih =>
    unfold podvAllTileGroupsFinished at h
    split at h
    · cases h
    · next pod hpod =>
      split at h
      · obtain ⟨j, hj, rest⟩ := ih h
        exact ⟨j, List.mem_cons_of_mem _ hj, rest⟩
      · next hfin =>
        exact ⟨podId, List.mem_cons_self, pod, hpod, Bool.eq_false_iff.mpr hfin⟩

theorem Prepared.busy (h : Prepared pods podv fun _ => True) {podId : ℤ} {pod : Pod}
    (hid : podId ∈ podv) (hpod : podAt pods podId = some pod)
    (hu : allTileGroupsFinished pod = false) : Busy pods podv := by
  rcases (h podId hid pod hpod).2 trivial with hrun | hfin
  · exact ⟨podId, hid, pod, hpod, hrun⟩
  · rw [hfin] at hu
    cases hu

theorem podTurn_waits {answers : ℕ → ℕ → Answers}
    (hset : ∀ k i c, (answers k i).setConfigSymbols c = .ok ()) {podId : ℤ} (hr : Ready pods)
    (h : Prepared pods [podId] fun _ => False)
    (hw : (podTurn answers pods podId).1 = .waits) :
    Prepared (podTurn answers pods podId).2 [podId] (fun _ => True) ∧
      Busy (podTurn answers pods podId).2 [podId] := by
  unfold podTurn at hw ⊢
  split at hw
  · cases hw
  · cases hw
  · next hall =>
    have hprep := podTryLaunch_prepared (hset 0) podId hr h
    obtain ⟨id, hid, pod, hpod, hu⟩ := podvAllTileGroupsFinished_false hall
    rw [List.mem_singleton] at hid
    subst hid
    split at hw
    · cases hw
    · next u pods' he =>
      rw [he] at hprep
      have hprep' : Prepared pods' [id] fun _ => True :=
        (hprep rfl).mono fun j hj _ => Or.inr (List.mem_singleton.mp hj)
      refine ⟨hprep', ?_⟩
      have hi := podAt_eq_some hpod
      have ha := (hr _ pod hi).advanced (answers 0)
      have hpods : podAt pods' id = some (tryLaunchTileGroups (answers 0) pod).2 := by
        unfold podTryLaunchTileGroups at he
        simp only [hpod, Prod.mk.injEq] at he
        unfold podAt at hpod ⊢
        split at hpod
        · cases hpod
        · next hpos =>
          rw [if_neg hpos, ← he.2,
            List.getElem?_set_self (List.getElem?_eq_some_iff.mp hi).1]
      exact hprep'.busy (List.mem_singleton.mpr rfl) hpods (ha.unfinished hu)

theorem podvTurn_waits {ids : List ℤ} {r : Except Errno Unit × List Pod}
    (h : r.1 = .ok () → Prepared r.2 ids fun _ => True) (hw : (podvTurn ids r).1 = .waits) :
    Prepared (podvTurn ids r).2 ids (fun _ => True) ∧ Busy (podvTurn ids r).2 ids := by
  rw [podvTurn_snd]
  obtain ⟨result, pods⟩ := r
  cases result with
  | error e => cases hw
  | ok u =>
    simp only [podvTurn] at hw
    split at hw
    · cases hw
    · cases hw
    · next hall =>
      obtain ⟨podId, hid, pod, hpod, hu⟩ := podvAllTileGroupsFinished_false hall
      exact ⟨h rfl, (h rfl).busy hid hpod hu⟩

theorem start_waits {answers : ℕ → ℕ → Answers}
    (hset : ∀ k i c, (answers k i).setConfigSymbols c = .ok ()) {call : Call} (hr : Ready pods)
    (h : Prepared pods call.podv fun _ => False) (hw : (start answers pods call).1 = .waits) :
    Prepared (start answers pods call).2 call.podv (fun _ => True) ∧
      Busy (start answers pods call).2 call.podv := by
  cases call with
  | podKernelsExecute podId =>
    simp only [start] at hw ⊢
    split at hw
    · cases hw
    · exact podTurn_waits hset hr h hw
  | podvKernelsExecute ids =>
    refine podvTurn_waits ?_ hw
    intro hok
    exact (podvTryLaunch_prepared hset hr h hok).mono fun j hj _ => Or.inr hj

theorem resume_waits {answers : ℕ → ℕ → Answers}
    (hset : ∀ k i c, (answers k i).setConfigSymbols c = .ok ()) {call : Call} {podDone : ℕ}
    (hr : Ready pods) (h : Prepared pods call.podv fun j => j ≠ podDone)
    (hw : (resume answers pods podDone call).1 = .waits) :
    Prepared (resume answers pods podDone call).2 call.podv (fun _ => True) ∧
      Busy (resume answers pods podDone call).2 call.podv := by
  cases call with
  | podKernelsExecute podId =>
    exact podTurn_waits hset hr (h.mono fun _ _ hf => hf.elim) hw
  | podvKernelsExecute ids =>
    refine podvTurn_waits ?_ hw
    intro hok
    exact (podTryLaunch_prepared (hset 0) _ hr h hok).mono fun j _ _ => ne_or_eq j podDone

end Calls

/-- Enqueued tile groups fit the mesh of their pod, the tiles take their configuration symbols,
and a call does not begin with a tile group whose launch was cut short. -/
def Fits (s : State) : Event → Prop
  | .enqueue podId _ tgDim _ _ =>
    ∀ pod, podAt s.pods podId = some pod → Placeable pod.mesh tgDim
  | .execute call answers => (∀ k i c, (answers k i).setConfigSymbols c = .ok ()) ∧
    ∀ podId ∈ call.podv, ∀ pod, podAt s.pods podId = some pod → NoneAllocated pod
  | .resume answers => ∀ k i c, (answers k i).setConfigSymbols c = .ok ()
  | _ => True

structure WaitInv (s : State) : Prop where
  ready : Ready s.pods
  waiting : ∀ call, s.pc = .waiting call →
    Prepared s.pods call.podv (fun _ => True) ∧ Busy s.pods call.podv
  resuming : ∀ call (podDone : ℕ), s.pc = .resuming call podDone →
    Prepared s.pods call.podv fun j => j ≠ podDone

section Runs

variable {mc : Manycore} {s : State}

theorem initial_waitInv (h : Initial mc s) : WaitInv s := by
  refine ⟨?_, ?_, ?_⟩
  · intro i pod hi
    rcases h.pods pod (List.mem_of_getElem? hi) with hinit | ⟨hn, hg⟩
    · refine ⟨fun _ => hinit.tileGroups, fun _ => ⟨initial_exclusive hinit,
        initial_recorded hinit, hinit.program⟩, ?_⟩
      intro j g hj
      rw [hinit.tileGroups] at hj
      cases hj
    · refine ⟨fun _ => hg, ?_, ?_⟩
      · intro hp
        rw [hn] at hp
        cases hp
      · intro j g hj
        rw [hg] at hj
        cases hj
  · intro call hpc
    rw [h.pc] at hpc
    cases hpc
  · intro call podDone hpc
    rw [h.pc] at hpc
    cases hpc

theorem WaitInv.after {call : Call} {r : Outcome × List Pod} (hr : Ready r.2)
    (hw : r.1 = .waits → Prepared r.2 call.podv (fun _ => True) ∧ Busy r.2 call.podv) :
    WaitInv (s.after call r) := by
  refine ⟨hr, ?_, ?_⟩
  · intro call' hpc
    simp only [State.after] at hpc
    split at hpc
    · next he =>
      cases hpc
      exact hw he
    · cases hpc
  · intro call' podDone hpc
    simp only [State.after] at hpc
    split at hpc
    · cases hpc
    · cases hpc

theorem WaitInv.of_idle {t : State} (hr : Ready t.pods) (hpc : t.pc = .idle) : WaitInv t := by
  refine ⟨hr, ?_, ?_⟩
  · intro call h
    rw [hpc] at h
    cases h
  · intro call podDone h
    rw [hpc] at h
    cases h

theorem WaitInv.received (h : WaitInv s) {call : Call} (hpc : s.pc = .waiting call) (n : ℕ)
    (rqst : RequestPacket) : WaitInv (s.received mc.config call n rqst) := by
  have hsame : WaitInv { s with inFlight := s.inFlight.eraseIdx n } :=
    ⟨h.ready, h.waiting, h.resuming⟩
  unfold State.received
  simp only [waitForTileGroupFinishAny]
  by_cases hval : rqst.payload ≠ finishSignalVal
  · rw [if_pos hval]
    exact hsame
  · rw [if_neg hval]
    cases hpod : s.pods[(toIndex (ConfigPod.pod mc.config (requestPacketSrc rqst))
        mc.config.pods).toNat]? with
    | none => exact .of_idle h.ready rfl
    | some pod =>
      have hready := h.ready _ pod hpod
      simp only
      cases hf : finishTileGroup pod (requestPacketSrc rqst) (requestPacketGetEpa rqst) with
      | none => exact hsame
      | some r =>
        obtain ⟨i, result, pod'⟩ := r
        obtain ⟨hready', hnone⟩ := hready.finish mc hf
        cases result with
        | error e => exact .of_idle (h.ready.set hready') rfl
        | ok u =>
          refine ⟨h.ready.set hready', fun _ he => Pc.noConfusion he, ?_⟩
          intro call' podDone he
          cases he
          exact (h.waiting call hpc).1.set hpod (fun _ _ _ _ => trivial) hnone
            (fun _ hne => absurd rfl hne)

theorem next_waitInv (h : WaitInv s) {e : KernelsExecute.Event} {t : State} (he : Fits s e)
    (hs : KernelsExecute.next mc s e = some t) : WaitInv t := by
  cases KernelsExecute.step_of_next hs with
  | @enqueue podId pod gridDim tgDim name argv hpc hpod hprogram =>
    have hready := h.ready _ pod (podAt_eq_some hpod)
    exact .of_idle (h.ready.set (hready.enqueue (he pod hpod) hprogram name argv)) hpc
  | execute call answers =>
    obtain ⟨hset, hnone⟩ := he
    have hprep : Prepared s.pods call.podv fun _ => False :=
      fun podId hid pod hpod => ⟨hnone podId hid pod hpod, fun hf => hf.elim⟩
    refine .after ?_ (start_waits hset h.ready hprep)
    exact start_invariant answers (P := Ready)
      (fun k _ podId hr => podTryLaunch_ready (hset k) podId hr) call h.ready
  | @resume call podDone answers hpc =>
    refine .after ?_ (resume_waits he h.ready (h.resuming call podDone hpc))
    exact resume_invariant answers (P := Ready)
      (fun k _ podId hr => podTryLaunch_ready (he k) podId hr) podDone call h.ready
  | finishSignal => exact ⟨h.ready, h.waiting, h.resuming⟩
  | otherPacket => exact ⟨h.ready, h.waiting, h.resuming⟩
  | @receive n call rqst sender hpc hn => exact h.received hpc n rqst
  | rxError e hpc => exact .of_idle h.ready rfl

/-- If every enqueued tile group fits, a call that waits has a launched tile group to wait for,
in every run and for every order of completion. -/
theorem no_idle_wait (mc : Manycore)
    (h : Transition.Reachable ((system mc).restrict Fits) s) {call : Call}
    (hpc : s.pc = .waiting call) : Busy s.pods call.podv := by
  have hinv : WaitInv s := by
    refine h.invariant ?_ ?_
    · intro s hs
      exact initial_waitInv hs
    · rintro s e t hinv ⟨he, hnext⟩
      exact next_waitInv hinv he hnext
  exact (hinv.waiting call hpc).2

end Runs

/-- Two tile groups fill the mesh, the third one waits; the call waits for the first two. -/
theorem no_idle_wait_x16y8 :
    ∃ s : State, s.pc = .waiting (.podKernelsExecute 0) ∧ Busy s.pods [0] := by
  let mc : Manycore := ⟨({} : Machine).config, true⟩
  let s := freshDevice mc.config 0 ⟨2, 2⟩
  have hplace : (podAt s.pods 0).all (fun pod => Placeable pod.mesh ⟨1, 2⟩) = true := by
    decide +kernel
  have hrun : (KernelsExecute.next mc s (.enqueue 0 ⟨3, 1⟩ ⟨1, 2⟩ "main" [1])).any (fun t =>
      ((podAt t.pods 0).all fun pod => NoneAllocated pod) &&
      (KernelsExecute.next mc t (.execute (.podKernelsExecute 0) answersOk)).any fun u =>
        u.pc = .waiting (.podKernelsExecute 0)) = true := by
    decide +kernel
  obtain ⟨t, ht, h⟩ := (Option.any_eq_true _ _).mp hrun
  obtain ⟨hnone, h⟩ := (Bool.and_eq_true _ _).mp h
  obtain ⟨u, hu, hpc⟩ := (Option.any_eq_true _ _).mp h
  have h0 : Transition.Reachable ((system mc).restrict Fits) s :=
    .initial (freshDevice_initial mc 0 ⟨2, 2⟩)
  have h1 : Transition.Reachable ((system mc).restrict Fits) t := by
    refine h0.next (.enqueue 0 ⟨3, 1⟩ ⟨1, 2⟩ "main" [1]) ⟨?_, ht⟩
    intro pod hpod
    exact of_decide_eq_true ((Option.all_eq_true _ _).mp hplace pod hpod)
  have h2 : Transition.Reachable ((system mc).restrict Fits) u := by
    refine h1.next (.execute (.podKernelsExecute 0) answersOk) ⟨⟨fun _ _ _ => rfl, ?_⟩, hu⟩
    intro podId hid pod hpod
    cases List.mem_singleton.mp hid
    exact of_decide_eq_true ((Option.all_eq_true _ _).mp hnone pod hpod)
  exact ⟨u, of_decide_eq_true hpc, no_idle_wait mc h2 (of_decide_eq_true hpc)⟩

/-- A call waits, and no tile group of its pods is launched. -/
def waitsIdle (s : State) : Bool :=
  match s.pc with
  | .waiting call => call.podv.all fun podId => (podAt s.pods podId).all fun pod => ¬ Running pod
  | _ => false

theorem not_busy {s : State} (h : waitsIdle s = true) :
    ∃ call, s.pc = .waiting call ∧ ¬ Busy s.pods call.podv := by
  unfold waitsIdle at h
  split at h
  · next call hpc =>
    refine ⟨call, hpc, ?_⟩
    rintro ⟨podId, hid, pod, hpod, hrun⟩
    have hall := (Option.all_eq_true _ _).mp (List.all_eq_true.mp h podId hid) pod hpod
    exact of_decide_eq_true hall hrun
  · cases h

def oneGroup (tgDim : Dimension) : Option State :=
  Transition.run (KernelsExecute.next ⟨({} : Machine).config, true⟩)
    (freshDevice ({} : Machine).config 0 PodMesh.meshFullCore)
    [.enqueue 0 ⟨1, 1⟩ tgDim "main" [], .execute (.podKernelsExecute 0) answersOk]

theorem oneGroup_idle {tgDim : Dimension} (h : (oneGroup tgDim).any waitsIdle = true) :
    ∃ s call, oneGroup tgDim = some s ∧
      Transition.Reachable (system ⟨({} : Machine).config, true⟩) s ∧
      s.pc = .waiting call ∧ ¬ Busy s.pods call.podv := by
  obtain ⟨s, hs, hidle⟩ := (Option.any_eq_true _ _).mp h
  obtain ⟨call, hpc, hbusy⟩ := not_busy hidle
  have hreach : Transition.Reachable ((system ⟨({} : Machine).config, true⟩).restrict
      fun _ _ => True) s :=
    .run (.initial (freshDevice_initial _ 0 PodMesh.meshFullCore)) (fun _ _ _ => trivial) hs
  exact ⟨s, call, hs, hreach.of_restrict, hpc, hbusy⟩

/-- A tile group wider than the mesh, or without any tiles, is enqueued with success, and the
call waits with nothing running. -/
theorem no_idle_wait_fails :
    (∃ s call, oneGroup ⟨17, 1⟩ = some s ∧
      Transition.Reachable (system ⟨({} : Machine).config, true⟩) s ∧
      s.pc = .waiting call ∧ ¬ Busy s.pods call.podv) ∧
    (∃ s call, oneGroup ⟨0, 0⟩ = some s ∧
      Transition.Reachable (system ⟨({} : Machine).config, true⟩) s ∧
      s.pc = .waiting call ∧ ¬ Busy s.pods call.podv) :=
  ⟨oneGroup_idle (by decide +kernel), oneGroup_idle (by decide +kernel)⟩

end IdleWait
