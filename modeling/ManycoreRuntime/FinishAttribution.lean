import ManycoreRuntime.KernelsExecute
import Mathlib.Data.List.Perm.Basic

/-! # Attribution of finish packets

A finish packet is attributed to a tile group by the pod of its source, the source itself and
the address. On machines whose pods can be told apart by their tiles, the wait retires exactly
the tile group that has sent the packet. -/
namespace FinishAttribution

open Coordinate hiding next
open Configuration (Config Manycore)
open ConfigPod (ShapeFits OriginsFit IsPod IsTile podVcoreOrigin pod_of_isTile)
open Packets (RequestPacket)
open PodMesh (InMesh)
open Machines (Machine)
open TileGroups KernelsExecute
open TileOwnership hiding Event next Initial system

/-- The pods can be told apart by the coordinates of their tiles. -/
structure PodsApart (cfg : Config) : Prop where
  shape : ShapeFits cfg
  origins : OriginsFit cfg

def HasTiles (_ : State) : Event → Prop
  | .enqueue _ _ tgDim _ _ => 0 < tgDim.x ∧ 0 < tgDim.y
  | _ => True

structure Loaded (cfg : Config) (pod : Pod) : Prop where
  exclusive : Exclusive pod.mesh pod.tileGroups
  origin : pod.mesh.origin = podVcoreOrigin cfg pod.podCoord
  width : pod.mesh.dim.x.toNat ≤ cfg.podShape.x.toNat
  height : pod.mesh.dim.y.toNat ≤ cfg.podShape.y.toNat

structure PodKept (cfg : Config) (i : ℕ) (pod : Pod) : Prop where
  bound : i < (toLength cfg.pods).toNat
  place : pod.podCoord = PodMalloc.indexToCoordinate i cfg.pods
  unloaded : pod.program.isSome = false → pod.tileGroups = []
  loaded : pod.program.isSome = true → Loaded cfg pod
  tiles : ∀ (j : ℕ) g, pod.tileGroups[j]? = some g → g.status ≠ .finished →
    0 < g.dim.x.toNat ∧ 0 < g.dim.y.toNat

structure Retirement (pod pod' : Pod) (j : ℕ) (g : TileGroup) : Prop where
  group : pod.tileGroups[j]? = some g
  launched : g.status = .launched
  groups : ∃ g', g'.status = .finished ∧ pod'.tileGroups = pod.tileGroups.set j g'
  freed : ∀ c, InMesh pod.mesh c → Covers g c →
    ∃ t, pod'.mesh.tileAt c = some t ∧ t.status = .free
  others : ∀ c, InMesh pod.mesh c → ¬ Covers g c → pod'.mesh.tileAt c = pod.mesh.tileAt c

section Pods

variable {mc : Manycore} {cfg : Config} {i : ℕ} {pod pod' : Pod}

theorem Loaded.of_advanced (h : Loaded cfg pod) (ha : Advanced pod pod')
    (he : Exclusive pod'.mesh pod'.tileGroups) : Loaded cfg pod' := by
  refine ⟨he, ?_, ?_, ?_⟩
  · rw [ha.mesh.2, ha.podCoord]
    exact h.origin
  · rw [ha.mesh.1]
    exact h.width
  · rw [ha.mesh.1]
    exact h.height

theorem PodKept.tryLaunch (h : PodKept cfg i pod) (answers : ℕ → Answers) :
    PodKept cfg i (tryLaunchTileGroups answers pod).2 ∧
      Advanced pod (tryLaunchTileGroups answers pod).2 := by
  cases hp : pod.program.isSome with
  | false =>
    have he : tryLaunchTileGroups answers pod = (.ok (), pod) := by
      rw [tryLaunchTileGroups, h.unloaded hp]
      rfl
    rw [he]
    exact ⟨h, .refl pod⟩
  | true =>
    have hl := h.loaded hp
    obtain ⟨ha, he⟩ := tryLaunchTileGroups_advanced answers hl.exclusive
    refine ⟨⟨h.bound, ha.podCoord.trans h.place, ?_, fun _ => hl.of_advanced ha he, ?_⟩, ha⟩
    · intro hn
      rw [ha.program, hp] at hn
      cases hn
    · intro j g hj hne
      rcases ha.groups j with hsame | ⟨a, b, haj, hbj, hst, -, hdim⟩
      · rw [hsame] at hj
        exact h.tiles j g hj hne
      · rw [hbj] at hj
        cases hj
        rw [hdim]
        refine h.tiles j a haj ?_
        rw [hst]
        decide

theorem PodKept.enqueue (h : PodKept cfg i pod) {gridDim tgDim : Dimension}
    (hdim : 0 < tgDim.x ∧ 0 < tgDim.y) (hp : pod.program.isSome = true) (name : String)
    (argv : List UInt32) : PodKept cfg i (kernelEnqueue mc pod gridDim tgDim name argv) := by
  obtain ⟨new, hnew⟩ := kernelEnqueue_enqueued mc pod gridDim tgDim name argv
  have hl := h.loaded hp
  refine ⟨h.bound, hnew.podCoord.trans h.place, ?_, fun _ => ⟨?_, ?_, ?_, ?_⟩, ?_⟩
  · intro hn
    rw [hnew.program, hp] at hn
    cases hn
  · rw [hnew.mesh, hnew.groups]
    refine hl.exclusive.append ?_
    intro g hg
    obtain ⟨tgId, gridId, kernel, rfl⟩ := hnew.new g hg
    exact not_owns_initialized rfl
  · rw [hnew.mesh, hnew.podCoord]
    exact hl.origin
  · rw [hnew.mesh]
    exact hl.width
  · rw [hnew.mesh]
    exact hl.height
  · intro j g hj hne
    rw [hnew.groups, List.getElem?_append] at hj
    split at hj
    · exact h.tiles j g hj hne
    · obtain ⟨tgId, gridId, kernel, rfl⟩ := hnew.new g (List.mem_of_getElem? hj)
      exact hdim

theorem covers_origin {g : TileGroup} (h : 0 < g.dim.x.toNat ∧ 0 < g.dim.y.toNat) :
    Covers g g.origin :=
  ⟨le_rfl, Nat.lt_add_of_pos_right h.1, le_rfl, Nat.lt_add_of_pos_right h.2⟩

theorem PodKept.attributes (hc : PodsApart cfg) (h : PodKept cfg i pod) {j : ℕ} {g : TileGroup}
    (hj : pod.tileGroups[j]? = some g) (ho : Owns g) (hcov : Covers g g.origin)
    (hp : pod.program.isSome = true) :
    (toIndex (ConfigPod.pod cfg g.origin) cfg.pods).toNat = i := by
  have hl := h.loaded hp
  obtain ⟨hpod, hindex⟩ := PodMalloc.indexToCoordinate_spec h.bound
  rw [← h.place] at hpod hindex
  have htile : IsTile cfg pod.podCoord g.origin := by
    obtain ⟨h1, h2, h3, h4⟩ := hl.exclusive.inMesh hj ho hcov
    have hw := hl.width
    have hh := hl.height
    rw [hl.origin] at h1 h2 h3 h4
    exact ⟨h1, by omega, h3, by omega⟩
  rw [pod_of_isTile cfg hc.shape hc.origins hpod htile]
  exact hindex

theorem finishTileGroup_of_finishes {j : ℕ} {g : TileGroup} (hj : pod.tileGroups[j]? = some g)
    {src : Coord} {epa : UInt32} (hfin : finishes src epa g = true) :
    ∃ r, finishTileGroup pod src epa = some r := by
  have hfind : (pod.tileGroups.findIdx? (finishes src epa)).isSome = true := by
    rw [List.findIdx?_isSome, List.any_eq_true]
    exact ⟨g, List.mem_of_getElem? hj, hfin⟩
  obtain ⟨l, hl⟩ := Option.isSome_iff_exists.mp hfind
  obtain ⟨hlt, -⟩ := List.findIdx?_eq_some_iff_getElem.mp hl
  refine ⟨(l, retire pod l pod.tileGroups[l]), ?_⟩
  rw [finishTileGroup, hl, Option.bind_some, List.getElem?_eq_getElem hlt]
  rfl

/-- A finish packet finds the tile group at its source, and completes it. -/
theorem PodKept.completes (h : PodKept cfg i pod) {j : ℕ} {g : TileGroup}
    (hj : pod.tileGroups[j]? = some g) (hst : g.status = .launched) {epa : UInt32}
    (hepa : epa = g.finishSignalNpa.epa) (hp : pod.program.isSome = true) :
    ∃ pod', finishTileGroup pod g.origin epa = some (j, .ok (), pod') ∧
      Retirement pod pod' j g ∧ PodKept cfg i pod' := by
  have hl := h.loaded hp
  have hne : g.status ≠ .finished := by
    rw [hst]
    decide
  have hcov := covers_origin (h.tiles j g hj hne)
  have hown : Owns g := Or.inr hst
  obtain ⟨⟨l, result, pod'⟩, hf⟩ :=
    finishTileGroup_of_finishes hj (finishes_iff.mpr ⟨hst, rfl, hepa⟩)
  obtain ⟨tg, g', hl', hfin, rfl, hst', hdim', hmesh, hgroups, hcoord, hprog⟩ :=
    finishTileGroup_some hf hp
  obtain ⟨htg, horigin, -⟩ := finishes_iff.mp hfin
  -- two owners with the same origin are the same owner
  have hjl : j = l := by
    by_contra hne'
    have hcov' : Covers tg g.origin := by
      rw [← horigin]
      refine covers_origin (h.tiles l tg hl' ?_)
      rw [htg]
      decide
    exact hl.exclusive.disjoint j l g tg hj hl' hne' hown (Or.inr htg) _ hcov hcov'
  subst hjl
  rw [hj] at hl'
  cases hl'
  have htile : ∀ {c}, InMesh pod.mesh c → pod'.mesh.tileAt c =
      if Covers g c then (pod.mesh.tileAt c).map (freeTile pod.mesh.origin)
      else pod.mesh.tileAt c := by
    intro c hc
    rw [hmesh]
    exact deallocateTiles_tileAt hl.exclusive hj hown hc
  refine ⟨pod', hf, ⟨hj, hst, ⟨g', hst', hgroups⟩, ?_, ?_⟩, ?_⟩
  · intro c hc hcg
    obtain ⟨t, ht⟩ := PodMesh.exists_tileAt hl.exclusive.wellFormed hc
    refine ⟨freeTile pod.mesh.origin t, ?_, rfl⟩
    rw [htile hc, if_pos hcg, ht]
    rfl
  · intro c hc hcg
    rw [htile hc, if_neg hcg]
  · obtain ⟨hd, hor⟩ := PodMesh.updateTiles_dim pod.mesh (fun _ => freeTile pod.mesh.origin)
      (foreachCoordinate g.origin g.dim)
    refine ⟨h.bound, hcoord.trans h.place, ?_, fun _ => ⟨?_, ?_, ?_, ?_⟩, ?_⟩
    · intro hn
      rw [hprog] at hn
      cases hn
    · rw [hmesh, hgroups]
      exact hl.exclusive.giveBack hj hown (not_owns_finished hst')
    · rw [hmesh, hcoord]
      exact hor.trans hl.origin
    · rw [hmesh, deallocateTiles, hd]
      exact hl.width
    · rw [hmesh, deallocateTiles, hd]
      exact hl.height
    · intro m tg hm hne'
      rw [hgroups] at hm
      rcases getElem?_set_cases hm with ⟨-, rfl⟩ | ⟨-, hm⟩
      · exact absurd hst' hne'
      · exact h.tiles m tg hm hne'

end Pods

def Kept (cfg : Config) (pods : List Pod) : Prop :=
  ∀ (i : ℕ) pod, pods[i]? = some pod → PodKept cfg i pod

/-- The counts that belong to the status of a tile group. -/
def Ledger : Option TileGroupStatus → ℕ → ℕ → ℕ → Prop
  | some .launched, launches, signals, retirements =>
    launches = 1 ∧ signals ≤ 1 ∧ retirements = 0
  | some .finished, launches, signals, retirements =>
    launches = 1 ∧ signals = 1 ∧ retirements = 1
  | _, launches, signals, retirements => launches = 0 ∧ signals = 0 ∧ retirements = 0

def inFlightOf (packets : List (RequestPacket × Option GroupId)) (k : GroupId) : ℕ :=
  packets.countP fun p => p.2 = some k

def Lawful (pods : List Pod) : RequestPacket × Option GroupId → Prop
  | (rqst, none) => rqst.payload ≠ finishSignalVal
  | (rqst, some k) => Signals pods k rqst

structure Inv (cfg : Config) (s : State) : Prop where
  kept : Kept cfg s.pods
  ledger : ∀ k, Ledger (statusAt s.pods k) (s.launches k) (s.signals k) (s.retirements k)
  conserved : ∀ k, s.retirements k + inFlightOf s.inFlight k = s.signals k
  lawful : ∀ p ∈ s.inFlight, Lawful s.pods p
  returned : ∀ call, s.returned = some (call, .ok ()) → AllFinished s.pods call.podv
  pending : s.pc ≠ .idle → s.returned = none

section Groups

variable {cfg : Config} {pods pods' : List Pod} {k : GroupId}

theorem Kept.set (h : Kept cfg pods) {i : ℕ} {pod : Pod} (hp : PodKept cfg i pod) :
    Kept cfg (pods.set i pod) := by
  intro j p hj
  rcases getElem?_set_cases hj with ⟨rfl, rfl⟩ | ⟨-, hj⟩
  · exact hp
  · exact h j p hj

theorem podTryLaunch_kept (answers : ℕ → Answers) (podId : ℤ)
    (h : Kept cfg pods' ∧ ∀ k, Launching (groupAt pods k) (groupAt pods' k)) :
    Kept cfg (podTryLaunchTileGroups answers pods' podId).2 ∧
      ∀ k, Launching (groupAt pods k)
        (groupAt (podTryLaunchTileGroups answers pods' podId).2 k) := by
  obtain ⟨hkept, hlaunch⟩ := h
  unfold podTryLaunchTileGroups
  split
  · exact ⟨hkept, hlaunch⟩
  · next pod hpod =>
    have hi := podAt_eq_some hpod
    obtain ⟨hpk, hadv⟩ := (hkept _ pod hi).tryLaunch answers
    refine ⟨hkept.set hpk, ?_⟩
    intro k
    refine (hlaunch k).trans ?_
    rw [groupAt_set hi]
    by_cases hk : k.1 = podId.toNat
    · rw [if_pos hk, groupAt_of_pod (by rw [hk]; exact hi)]
      exact hadv.groups k.2
    · rw [if_neg hk]
      exact Or.inl rfl

theorem statusAt_of_group {g : TileGroup} (h : groupAt pods k = some g) :
    statusAt pods k = some g.status := by
  rw [statusAt, h]
  rfl

theorem Signals.mono {rqst : RequestPacket} (h : Signals pods k rqst)
    (hmono : ∀ g, groupAt pods k = some g → g.status = .launched → groupAt pods' k = some g) :
    Signals pods' k rqst := by
  obtain ⟨g, hg, hst, hrest⟩ := h
  exact ⟨g, hmono g hg hst, hst, hrest⟩

theorem Lawful.mono {p : RequestPacket × Option GroupId} (h : Lawful pods p)
    (hmono : ∀ k g, p.2 = some k → groupAt pods k = some g → g.status = .launched →
      groupAt pods' k = some g) : Lawful pods' p := by
  obtain ⟨rqst, sender⟩ := p
  cases sender with
  | none => exact h
  | some k => exact Signals.mono h (fun g => hmono k g rfl)

end Groups

section Steps

variable {mc : Manycore} {cfg : Config} {s : State}

theorem Inv.after (h : Inv cfg s) (call : Call) {r : Outcome × List Pod} (hkept : Kept cfg r.2)
    (hlaunch : ∀ k, Launching (groupAt s.pods k) (groupAt r.2 k))
    (hsuccess : r.1 = .returns (.ok ()) → AllFinished r.2 call.podv) :
    Inv cfg (s.after call r) := by
  refine ⟨hkept, ?_, h.conserved, ?_, ?_, ?_⟩
  · intro k
    have hl := h.ledger k
    simp only [State.after]
    rcases hlaunch k with he | ⟨a, b, ha, hb, hinit, hne, -⟩
    · have hst : statusAt r.2 k = statusAt s.pods k := by rw [statusAt, he, statusAt]
      rw [hst, if_neg (fun hc => hc.2 hc.1)]
      exact hl
    · rw [statusAt_of_group ha, hinit] at hl
      obtain ⟨hl0, hs0, hr0⟩ := hl
      rw [statusAt_of_group ha, statusAt_of_group hb, hinit]
      cases hb' : b.status with
      | initialized => exact ⟨hl0, hs0, hr0⟩
      | allocated => exact ⟨hl0, hs0, hr0⟩
      | launched =>
        rw [if_pos ⟨rfl, by decide⟩]
        exact ⟨by rw [hl0], by rw [hs0]; exact Nat.zero_le 1, hr0⟩
      | finished => exact absurd hb' hne
  · intro p hp
    refine (h.lawful p hp).mono ?_
    intro k g _ hg hst
    have hk := hlaunch k
    rw [hg] at hk
    exact Launching.launched hk hst
  · intro call' hr
    simp only [State.after] at hr
    split at hr
    · cases hr
    · next result he =>
      cases hr
      exact hsuccess he
  · intro hpc
    simp only [State.after] at hpc ⊢
    split
    · rfl
    · next he =>
      rw [he] at hpc
      exact absurd rfl hpc

theorem Inv.start (h : Inv cfg s) (answers : ℕ → ℕ → Answers) (call : Call) :
    Inv cfg (s.after call (start answers s.pods call)) := by
  obtain ⟨hkept, hlaunch⟩ := start_invariant answers
    (P := fun pods => Kept cfg pods ∧ ∀ k, Launching (groupAt s.pods k) (groupAt pods k))
    (fun k _ podId hp => podTryLaunch_kept (answers k) podId hp) call
    ⟨h.kept, fun _ => Or.inl rfl⟩
  exact h.after call hkept hlaunch start_success

theorem Inv.resume (h : Inv cfg s) (answers : ℕ → ℕ → Answers) (call : Call) (podDone : ℕ) :
    Inv cfg (s.after call (resume answers s.pods podDone call)) := by
  obtain ⟨hkept, hlaunch⟩ := resume_invariant answers
    (P := fun pods => Kept cfg pods ∧ ∀ k, Launching (groupAt s.pods k) (groupAt pods k))
    (fun k _ podId hp => podTryLaunch_kept (answers k) podId hp) podDone call
    ⟨h.kept, fun _ => Or.inl rfl⟩
  exact h.after call hkept hlaunch resume_success

theorem Inv.enqueue (h : Inv cfg s) {podId : ℤ} {gridDim tgDim : Dimension} {pod : Pod}
    (hdim : 0 < tgDim.x ∧ 0 < tgDim.y) (hpod : podAt s.pods podId = some pod)
    (hprogram : pod.program.isSome = true) (name : String) (argv : List UInt32) :
    Inv cfg { s with
      pods := s.pods.set podId.toNat (kernelEnqueue mc pod gridDim tgDim name argv)
      returned := none } := by
  have hi := podAt_eq_some hpod
  obtain ⟨new, hnew⟩ := kernelEnqueue_enqueued mc pod gridDim tgDim name argv
  have hgroup : ∀ k, groupAt (s.pods.set podId.toNat
      (kernelEnqueue mc pod gridDim tgDim name argv)) k = groupAt s.pods k ∨
      (groupAt s.pods k = none ∧ ∃ g, groupAt (s.pods.set podId.toNat
        (kernelEnqueue mc pod gridDim tgDim name argv)) k = some g ∧
        g.status = .initialized) := by
    intro k
    rw [groupAt_set hi, hnew.groups]
    by_cases hk : k.1 = podId.toNat
    · rw [if_pos hk, groupAt_of_pod (by rw [hk]; exact hi), List.getElem?_append]
      split
      · exact Or.inl rfl
      · next hle =>
        rw [List.getElem?_eq_none (Nat.le_of_not_lt hle)]
        cases hn : new[k.2 - pod.tileGroups.length]? with
        | none => exact Or.inl rfl
        | some g =>
          obtain ⟨tgId, gridId, kernel, rfl⟩ := hnew.new g (List.mem_of_getElem? hn)
          exact Or.inr ⟨rfl, _, rfl, rfl⟩
    · rw [if_neg hk]
      exact Or.inl rfl
  refine ⟨h.kept.set ((h.kept _ pod hi).enqueue hdim hprogram name argv), ?_, h.conserved, ?_, ?_,
    fun _ => rfl⟩
  · intro k
    have hl := h.ledger k
    rcases hgroup k with he | ⟨hnone, g, hg, hst⟩
    · simp only [statusAt, he]
      exact hl
    · rw [statusAt, hnone] at hl
      simp only [statusAt, hg, Option.map_some, hst]
      exact hl
  · intro p hp
    refine (h.lawful p hp).mono ?_
    intro k g _ hg _
    rcases hgroup k with he | ⟨hnone, -⟩
    · rw [← hg]
      exact he
    · rw [hnone] at hg
      cases hg
  · intro call hr
    cases hr

theorem bump_self (count : GroupId → ℕ) (k : GroupId) : bump count k k = count k + 1 :=
  if_pos rfl

theorem bump_ne (count : GroupId → ℕ) {j k : GroupId} (h : j ≠ k) : bump count k j = count j :=
  if_neg h

theorem Inv.finishSignal (h : Inv cfg s) {k : GroupId} {rqst : RequestPacket}
    (honce : s.signals k = 0) (hsig : Signals s.pods k rqst) :
    Inv cfg { s with
      inFlight := s.inFlight ++ [(rqst, some k)]
      signals := bump s.signals k } := by
  refine ⟨h.kept, ?_, ?_, ?_, h.returned, h.pending⟩
  · intro j
    have hl := h.ledger j
    by_cases hjk : j = k
    · subst hjk
      obtain ⟨g, hg, hst, -⟩ := hsig
      rw [statusAt_of_group hg, hst] at hl ⊢
      obtain ⟨hl1, -, hr0⟩ := hl
      refine ⟨hl1, ?_, hr0⟩
      simp only [bump_self, honce, Nat.zero_add]
      exact le_rfl
    · simp only [bump_ne _ hjk]
      exact hl
  · intro j
    have hcons := h.conserved j
    simp only [inFlightOf, List.countP_append, List.countP_singleton] at hcons ⊢
    by_cases hjk : j = k
    · subst hjk
      rw [bump_self, ← hcons, decide_eq_true rfl, if_pos rfl, Nat.add_assoc]
    · have hne : (some k = some j) = False :=
        eq_false fun he => hjk (Option.some.inj he).symm
      simp only [bump_ne _ hjk, hne, decide_false, Bool.false_eq_true, if_false, Nat.add_zero]
      exact hcons
  · intro p hp
    rcases List.mem_append.mp hp with hp | hp
    · exact h.lawful p hp
    · rw [List.mem_singleton.mp hp]
      exact hsig

theorem Inv.otherPacket (h : Inv cfg s) {rqst : RequestPacket}
    (hval : rqst.payload ≠ finishSignalVal) :
    Inv cfg { s with inFlight := s.inFlight ++ [(rqst, none)] } := by
  refine ⟨h.kept, h.ledger, ?_, ?_, h.returned, h.pending⟩
  · intro k
    have hcons := h.conserved k
    simp only [inFlightOf, List.countP_append, List.countP_singleton] at hcons ⊢
    exact hcons
  · intro p hp
    rcases List.mem_append.mp hp with hp | hp
    · exact h.lawful p hp
    · rw [List.mem_singleton.mp hp]
      exact hval

theorem inFlightOf_eraseIdx {n : ℕ} {p : RequestPacket × Option GroupId}
    (hn : s.inFlight[n]? = some p) (k : GroupId) :
    inFlightOf (s.inFlight.eraseIdx n) k + (if p.2 = some k then 1 else 0) =
      inFlightOf s.inFlight k := by
  obtain ⟨hlt, hget⟩ := List.getElem?_eq_some_iff.mp hn
  have hperm := List.getElem_cons_eraseIdx_perm hlt
  have hcount := hperm.countP_eq fun p => decide (p.2 = some k)
  rw [hget, List.countP_cons] at hcount
  simp only [decide_eq_true_eq] at hcount
  exact hcount

/-- A finish packet leads the wait to its sender. -/
theorem Inv.finds (hc : PodsApart cfg) (h : Inv cfg s) {k : GroupId} {rqst : RequestPacket}
    (hsig : Signals s.pods k rqst) :
    ∃ pod g pod', s.pods[k.1]? = some pod ∧ Retirement pod pod' k.2 g ∧
      PodKept cfg k.1 pod' ∧
      waitForTileGroupFinishAny cfg s.pods rqst = .retires k (s.pods.set k.1 pod') := by
  obtain ⟨g, hg, hst, hval, hsrc, hepa⟩ := hsig
  obtain ⟨pod, hpod, hj⟩ := Option.bind_eq_some_iff.mp hg
  have hkept := h.kept k.1 pod hpod
  have hprogram : pod.program.isSome = true := by
    by_contra hn
    rw [hkept.unloaded (Bool.eq_false_iff.mpr hn)] at hj
    cases hj
  have hcov : Covers g g.origin := by
    refine covers_origin (hkept.tiles k.2 g hj ?_)
    rw [hst]
    decide
  have hindex := hkept.attributes hc hj (Or.inr hst) hcov hprogram
  obtain ⟨pod', hf, hret, hkept'⟩ := hkept.completes hj hst hepa hprogram
  refine ⟨pod, g, pod', hpod, hret, hkept', ?_⟩
  simp only [waitForTileGroupFinishAny, hval, ne_eq, not_true, if_false, hsrc, hindex, hpod, hf]

theorem received_other {call : Call} {n : ℕ} {rqst : RequestPacket}
    (hval : rqst.payload ≠ finishSignalVal) :
    s.received cfg call n rqst = { s with inFlight := s.inFlight.eraseIdx n } := by
  simp only [State.received, waitForTileGroupFinishAny, ne_eq, hval, not_false_eq_true, if_true]

theorem received_retires {call : Call} {n : ℕ} {rqst : RequestPacket} {k : GroupId}
    {pods : List Pod} (h : waitForTileGroupFinishAny cfg s.pods rqst = .retires k pods) :
    s.received cfg call n rqst = { s with
      inFlight := s.inFlight.eraseIdx n
      pods := pods
      pc := .resuming call k.1
      retirements := bump s.retirements k } := by
  simp only [State.received, h]

theorem Inv.receive_other (h : Inv cfg s) {n : ℕ} {rqst : RequestPacket}
    (hn : s.inFlight[n]? = some (rqst, none)) :
    Inv cfg { s with inFlight := s.inFlight.eraseIdx n } := by
  refine ⟨h.kept, h.ledger, ?_, ?_, h.returned, h.pending⟩
  · intro k
    have hcount := inFlightOf_eraseIdx hn k
    simp only [reduceCtorEq, if_false, Nat.add_zero] at hcount
    rw [hcount]
    exact h.conserved k
  · intro p hp
    exact h.lawful p (List.mem_of_mem_eraseIdx hp)

theorem groupAt_of_retirement {k : GroupId} {pod pod' : Pod} {g : TileGroup}
    (hpod : s.pods[k.1]? = some pod) (hret : Retirement pod pod' k.2 g) :
    ∃ g', g'.status = .finished ∧ ∀ j,
      groupAt (s.pods.set k.1 pod') j = if j = k then some g' else groupAt s.pods j := by
  obtain ⟨g', hst', hgroups⟩ := hret.groups
  refine ⟨g', hst', fun j => ?_⟩
  rw [groupAt_set hpod, hgroups]
  by_cases hjk : j = k
  · subst hjk
    rw [if_pos rfl, if_pos rfl]
    exact getElem?_set_of_some _ hret.group
  · rw [if_neg hjk]
    by_cases h1 : j.1 = k.1
    · have h2 : k.2 ≠ j.2 := fun he => hjk (Prod.ext h1 he.symm)
      rw [if_pos h1, List.getElem?_set_ne h2, groupAt_of_pod (by rw [h1]; exact hpod)]
    · rw [if_neg h1]

theorem Inv.receive_signal (h : Inv cfg s) {call : Call} {n : ℕ} {rqst : RequestPacket}
    {k : GroupId} {pod pod' : Pod} {g : TileGroup} (hpc : s.pc = .waiting call)
    (hn : s.inFlight[n]? = some (rqst, some k)) (hpod : s.pods[k.1]? = some pod)
    (hret : Retirement pod pod' k.2 g) (hkept : PodKept cfg k.1 pod') :
    Inv cfg { s with
      inFlight := s.inFlight.eraseIdx n
      pods := s.pods.set k.1 pod'
      pc := .resuming call k.1
      retirements := bump s.retirements k } := by
  have hg : groupAt s.pods k = some g := by
    rw [groupAt_of_pod hpod]
    exact hret.group
  obtain ⟨g', hst', hgroup⟩ := groupAt_of_retirement hpod hret
  have hlk := h.ledger k
  rw [statusAt_of_group hg, hret.launched] at hlk
  obtain ⟨hl1, hs1, hr0⟩ := hlk
  have hcons := h.conserved k
  have hcount := inFlightOf_eraseIdx hn k
  simp only [if_true] at hcount
  refine ⟨h.kept.set hkept, ?_, ?_, ?_, ?_, fun _ => h.pending ?_⟩
  · intro j
    by_cases hjk : j = k
    · subst hjk
      simp only [statusAt, hgroup, if_true, Option.map_some, hst', bump_self]
      exact ⟨hl1, by omega, by omega⟩
    · simp only [statusAt, hgroup, if_neg hjk, bump_ne _ hjk]
      exact h.ledger j
  · intro j
    by_cases hjk : j = k
    · subst hjk
      show bump s.retirements j j + inFlightOf (s.inFlight.eraseIdx n) j = s.signals j
      rw [bump_self]
      omega
    · have hcj := inFlightOf_eraseIdx hn j
      have hne : (some k = some j) = False :=
        eq_false fun he => hjk (Option.some.inj he).symm
      simp only [hne, if_false, Nat.add_zero] at hcj
      show bump s.retirements k j + inFlightOf (s.inFlight.eraseIdx n) j = s.signals j
      rw [bump_ne _ hjk, hcj]
      exact h.conserved j
  · intro p hp
    refine (h.lawful p (List.mem_of_mem_eraseIdx hp)).mono ?_
    intro j a hj ha hst
    -- no second packet of the sender is in flight
    have hjk : j ≠ k := by
      rintro rfl
      have hpos : 0 < inFlightOf (s.inFlight.eraseIdx n) j :=
        List.countP_pos_iff.mpr ⟨p, hp, decide_eq_true hj⟩
      omega
    rw [hgroup, if_neg hjk]
    exact ha
  · intro call' hr
    rw [h.pending (by rw [hpc]; exact Pc.noConfusion)] at hr
    cases hr
  · rw [hpc]
    exact Pc.noConfusion

theorem Inv.rxError (h : Inv cfg s) (call : Call) (e : Errno) :
    Inv cfg { s with pc := .idle, returned := some (call, .error e) } := by
  refine ⟨h.kept, h.ledger, h.conserved, h.lawful, ?_, fun hpc => absurd rfl hpc⟩
  intro call' hr
  cases hr

theorem next_inv (hc : PodsApart mc.config) (h : Inv mc.config s) {e : Event} {t : State}
    (ht : HasTiles s e) (hs : next mc s e = some t) : Inv mc.config t := by
  cases step_of_next hs with
  | enqueue gridDim tgDim name argv hpc hpod hprogram => exact h.enqueue ht hpod hprogram name argv
  | execute call answers => exact h.start answers call
  | @resume call podDone answers hpc => exact h.resume answers call podDone
  | finishSignal hfirst hsignals => exact h.finishSignal hfirst hsignals
  | otherPacket hval => exact h.otherPacket hval
  | @receive n call rqst sender hpc hn =>
    have hlaw := h.lawful _ (List.mem_of_getElem? hn)
    cases sender with
    | none =>
      rw [received_other hlaw]
      exact h.receive_other hn
    | some k =>
      obtain ⟨pod, g, pod', hpod, hret, hkept, hturn⟩ := h.finds hc hlaw
      rw [received_retires hturn]
      exact h.receive_signal hpc hn hpod hret hkept
  | @rxError call e hpc => exact h.rxError call e

theorem initial_inv (h : Initial mc s) : Inv mc.config s := by
  obtain ⟨hplaces, hpods, hpc, hreturned, hflight, hl, hs, hr⟩ := h
  have hgroups : ∀ (i : ℕ) pod, s.pods[i]? = some pod → pod.tileGroups = [] := by
    intro i pod hi
    rcases hpods pod (List.mem_of_getElem? hi) with hi | ⟨-, hg⟩
    · exact hi.tileGroups
    · exact hg
  have hnone : ∀ k, groupAt s.pods k = none := by
    intro k
    cases hp : s.pods[k.1]? with
    | none =>
      rw [groupAt, hp]
      rfl
    | some pod =>
      rw [groupAt_of_pod hp, hgroups _ pod hp]
      rfl
  refine ⟨?_, ?_, ?_, ?_, ?_, fun hne => absurd hpc hne⟩
  · intro i pod hi
    have hplace : (s.pods.map fun pod => pod.podCoord)[i]? = some pod.podCoord := by
      rw [List.getElem?_map, hi]
      rfl
    rw [hplaces, PodMalloc.deviceInit, List.map_map, List.getElem?_map,
      Option.map_eq_some_iff] at hplace
    obtain ⟨j, hj, hcoord⟩ := hplace
    obtain ⟨hlt, hji⟩ := List.getElem?_eq_some_iff.mp hj
    rw [List.length_range] at hlt
    rw [List.getElem_range] at hji
    subst hji
    refine ⟨hlt, hcoord.symm, fun _ => hgroups i pod hi, ?_, ?_⟩
    · intro hprogram
      rcases hpods pod (List.mem_of_getElem? hi) with hinit | ⟨hn, -⟩
      · obtain ⟨optDim, defaultDim, hmesh⟩ := hinit.mesh
        obtain ⟨-, -, hx, hy⟩ := PodMesh.meshInit_dim hmesh
        exact ⟨initial_exclusive hinit, PodMesh.meshInit_origin hmesh, hx, hy⟩
      · rw [hn] at hprogram
        cases hprogram
    · intro l g hg
      rw [hgroups i pod hi] at hg
      cases hg
  · intro k
    rw [statusAt, hnone, hl, hs, hr]
    exact ⟨rfl, rfl, rfl⟩
  · intro k
    rw [hr, hflight, hs]
    rfl
  · intro p hp
    rw [hflight] at hp
    cases hp
  · intro call hc
    rw [hreturned] at hc
    cases hc

end Steps

/-- Tile groups are launched, send and are retired in this order and once; a wait that reads a
finish packet retires its sender and changes nothing else; other packets change nothing; and a
call returns with success when all tile groups of its pods were launched and retired. -/
structure Attributed (cfg : Config) (s : State) : Prop where
  once : ∀ k, s.retirements k ≤ s.signals k ∧ s.signals k ≤ s.launches k ∧ s.launches k ≤ 1
  finish : ∀ (call : Call) (n : ℕ) rqst k, s.pc = .waiting call →
    s.inFlight[n]? = some (rqst, some k) → ∃ pod g pod', s.pods[k.1]? = some pod ∧
      Retirement pod pod' k.2 g ∧ s.received cfg call n rqst = { s with
        inFlight := s.inFlight.eraseIdx n
        pods := s.pods.set k.1 pod'
        pc := .resuming call k.1
        retirements := bump s.retirements k }
  other : ∀ (call : Call) (n : ℕ) rqst, s.pc = .waiting call →
    s.inFlight[n]? = some (rqst, none) →
    s.received cfg call n rqst = { s with inFlight := s.inFlight.eraseIdx n }
  success : ∀ call, s.returned = some (call, .ok ()) → ∀ podId ∈ call.podv,
    ∃ pod, podAt s.pods podId = some pod ∧ ∀ j < pod.tileGroups.length,
      s.launches (podId.toNat, j) = 1 ∧ s.retirements (podId.toNat, j) = 1

theorem Ledger.ordered {g : Option TileGroupStatus} {launches signals retirements : ℕ}
    (h : Ledger g launches signals retirements) :
    retirements ≤ signals ∧ signals ≤ launches ∧ launches ≤ 1 := by
  cases g with
  | none =>
    obtain ⟨rfl, rfl, rfl⟩ := h
    decide
  | some status =>
    cases status with
    | launched =>
      obtain ⟨rfl, hs, rfl⟩ := h
      exact ⟨Nat.zero_le _, hs, le_rfl⟩
    | finished | initialized | allocated =>
      obtain ⟨rfl, rfl, rfl⟩ := h
      decide

theorem Inv.attributed {cfg : Config} {s : State} (hc : PodsApart cfg) (h : Inv cfg s) :
    Attributed cfg s := by
  refine ⟨fun k => (h.ledger k).ordered, ?_, ?_, ?_⟩
  · intro call n rqst k _ hn
    have hsig : Signals s.pods k rqst := h.lawful _ (List.mem_of_getElem? hn)
    obtain ⟨pod, g, pod', hpod, hret, -, hturn⟩ := h.finds hc hsig
    exact ⟨pod, g, pod', hpod, hret, received_retires hturn⟩
  · intro call n rqst _ hn
    have hval : rqst.payload ≠ finishSignalVal := h.lawful _ (List.mem_of_getElem? hn)
    exact received_other hval
  · intro call hr podId hid
    obtain ⟨pod, hpod, hfin⟩ := h.returned call hr podId hid
    refine ⟨pod, hpod, ?_⟩
    intro j hj
    have hst : pod.tileGroups[j].status = .finished := by
      rw [allTileGroupsFinished, List.all_eq_true] at hfin
      exact of_decide_eq_true (hfin _ (List.getElem_mem hj))
    have hl := h.ledger (podId.toNat, j)
    rw [statusAt, groupAt_of_pod (podAt_eq_some hpod), List.getElem?_eq_getElem hj,
      Option.map_some, hst] at hl
    exact ⟨hl.1, hl.2.2⟩

/-- On a machine whose pods can be told apart, and with tile groups that contain their origins,
every finish packet is attributed to its sender, in every run. -/
theorem finish_attribution (mc : Manycore) (hc : PodsApart mc.config) {s : State}
    (h : Transition.Reachable ((system mc).restrict HasTiles) s) : Attributed mc.config s := by
  have hinv : Inv mc.config s := by
    refine h.invariant ?_ ?_
    · intro s hs
      exact initial_inv hs
    · rintro s e t hinv ⟨he, hnext⟩
      exact next_inv hc hinv he hnext
  exact hinv.attributed hc

def finishPacket (x y : UInt8) : RequestPacket :=
  { xSrc := x, ySrc := y, payload := finishSignalVal, op := .remoteSw, addr := 0x3C00 }

/-- Two tile groups finish in the opposite order, behind a packet of another kind. -/
theorem finish_attribution_x16y8 :
    ∃ s, s.returned = some (.podvKernelsExecute [0], .ok ()) ∧
      Attributed ({} : Machine).config s := by
  let mc : Manycore := ⟨({} : Machine).config, true⟩
  let events : List Event :=
    [.enqueue 0 ⟨1, 1⟩ ⟨1, 2⟩ "main" [1], .enqueue 0 ⟨1, 1⟩ ⟨1, 1⟩ "main" [2],
      .execute (.podvKernelsExecute [0]) answersOk, .otherPacket {},
      .finishSignal (0, 0) (finishPacket 16 8), .finishSignal (0, 1) (finishPacket 17 8),
      .receive 2, .resume answersOk, .receive 0, .receive 0, .resume answersOk]
  have hrun : (Transition.run (next mc) (freshDevice mc.config 0 ⟨2, 2⟩) events).any
      (fun s => s.returned = some (.podvKernelsExecute [0], .ok ())) = true := by
    decide +kernel
  obtain ⟨s, hs, hret⟩ := (Option.any_eq_true _ _).mp hrun
  refine ⟨s, of_decide_eq_true hret, ?_⟩
  refine finish_attribution mc ⟨⟨by decide, by decide⟩, ⟨by decide, by decide⟩⟩ ?_
  refine Transition.Reachable.run (.initial (freshDevice_initial mc 0 ⟨2, 2⟩)) ?_ hs
  simp [events, HasTiles]

/-- The wait has read the packet of a tile group and has not retired the group. -/
def Misattributes (cfg : Config) (s : State) : Bool :=
  match s.pc, s.inFlight[0]? with
  | .waiting call, some (rqst, some k) =>
    (s.received cfg call 0 rqst).retirements k = s.retirements k
  | _, _ => false

theorem not_attributed {cfg : Config} {s : State} (h : Misattributes cfg s = true) :
    ¬ Attributed cfg s := by
  intro hatt
  unfold Misattributes at h
  split at h
  · next call rqst k hpc hn =>
    obtain ⟨pod, g, pod', -, -, he⟩ := hatt.finish call 0 rqst k hpc hn
    rw [he] at h
    simp only [bump_self, decide_eq_true_eq] at h
    exact absurd h (Nat.succ_ne_self _)
  · cases h

theorem misattributes_of_run {mc : Manycore} {s : State} (allowed : State → Event → Prop)
    (events : List Event) (hs : Initial mc s)
    (hallowed : ∀ e ∈ events, ∀ s, allowed s e)
    (h : (Transition.run (next mc) s events).any (Misattributes mc.config) = true) :
    ∃ t, Transition.Reachable ((system mc).restrict allowed) t ∧ ¬ Attributed mc.config t := by
  obtain ⟨t, ht, hmis⟩ := (Option.any_eq_true _ _).mp h
  exact ⟨t, .run (.initial hs) hallowed ht, not_attributed hmis⟩

def widePods : Machine := { nocCoordXWidth := 4, podTilesX := 4 }

def wrappedPods : Machine := { nocCoordXWidth := 31, podsX := 16 }

example : widePods.wellFormed = true ∧ wrappedPods.wellFormed = true := by decide

/-- Without tiles a group shares its origin with another one, whose packet retires it; with wide
pods and with wrapped origins a packet is attributed to a pod that is not there. -/
theorem finish_attribution_fails :
    (∃ s, Transition.Reachable (system ⟨({} : Machine).config, true⟩) s ∧
      ¬ Attributed ({} : Machine).config s) ∧
    (∃ s, Transition.Reachable ((system ⟨widePods.config, true⟩).restrict HasTiles) s ∧
      ¬ Attributed widePods.config s) ∧
    (∃ s, Transition.Reachable ((system ⟨wrappedPods.config, true⟩).restrict HasTiles) s ∧
      ¬ Attributed wrappedPods.config s) := by
  refine ⟨?_, ?_, ?_⟩
  · obtain ⟨s, hs, hatt⟩ := misattributes_of_run (fun _ _ => True)
      [.enqueue 0 ⟨1, 1⟩ ⟨0, 1⟩ "main" [], .enqueue 0 ⟨1, 1⟩ ⟨1, 1⟩ "main" [],
        .execute (.podKernelsExecute 0) answersOk, .finishSignal (0, 1) (finishPacket 16 8)]
      (freshDevice_initial ⟨({} : Machine).config, true⟩ 0 ⟨2, 2⟩) (fun _ _ _ => trivial)
      (by decide +kernel)
    exact ⟨s, hs.of_restrict, hatt⟩
  · exact misattributes_of_run HasTiles
      [.enqueue 0 ⟨3, 1⟩ ⟨1, 1⟩ "main" [], .execute (.podKernelsExecute 0) answersOk,
        .finishSignal (0, 2) { finishPacket 4 8 with addr := 0x3C02 }]
      (freshDevice_initial ⟨widePods.config, true⟩ 0 ⟨4, 1⟩) (by simp [HasTiles])
      (by decide +kernel)
  · exact misattributes_of_run HasTiles
      [.enqueue 15 ⟨1, 1⟩ ⟨1, 1⟩ "main" [], .execute (.podKernelsExecute 15) answersOk,
        .finishSignal (15, 0) (finishPacket 0 8)]
      (freshDevice_initial ⟨wrappedPods.config, true⟩ 15 ⟨1, 1⟩) (by simp [HasTiles])
      (by decide +kernel)

end FinishAttribution
