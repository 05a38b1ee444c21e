import ManycoreRuntime.Loader
import ManycoreRuntime.Vcache
import Mathlib.Data.Finset.Basic

/-! # Initialisation of a manycore instance

An instance takes a copy of its name, the platform with its id and its device, the configuration,
the responders, the routes of its caches and the DMA. Each step that fails undoes some of those
before it. The platform is that of the FPGA. -/
namespace ManycoreInit

open Actions
open Coordinate (Coord Errno foreachCoordinate)
open Configuration (Config Manycore Rom configInit)
open ConfigPod (podVcoreOrigin)
open EvaToNpa (Npa)
open Loader (Session)
open Packets (RequestPacket)
open PodGeometry (podForeachDram)
open WriteMem (Platform write)
open Machines (Machine)

/-- A pointer to a string: null, to a string, or to one that was given back. -/
inductive NamePtr where
  | null
  | live (name : String)
  | freed
  deriving DecidableEq, Repr

/-- An instance. Its platform is named by its id; there is no configuration until one was read
completely. -/
structure Instance where
  name : NamePtr
  config : Option Config
  platform : Option ℕ
  dramEnabled : Bool
  deriving DecidableEq, Repr

/-- A responder that is registered: which of its functions there are, and whether it was
initialised and not quit since. -/
structure Responder where
  hasInit : Bool
  hasQuit : Bool
  running : Bool
  deriving DecidableEq, Repr

/-- The instance, the responders, the ids of the platforms in use, the number of devices attached,
and the packets that were sent. -/
structure State where
  mc : Instance
  responders : List Responder
  activeIds : Finset ℕ
  attached : ℕ
  sent : List RequestPacket
  deriving DecidableEq

structure Answers where
  strdup : Bool
  attach : Bool
  getAddress : Bool
  fifosInit : Except Errno Unit
  profilerInit : Except Errno Unit
  tracerInit : Except Errno Unit
  rom : Except Errno Rom
  responderInit : ℕ → Except Errno Unit
  waitResetDone : Except Errno Unit
  packets : Platform
  dmaInit : Config → Except Errno Config

abbrev Call := Action Errno State

def getState : Call State := fun s => some (.ok s, s)

def modifyState (f : State → State) : Call Unit := fun s => some (.ok (), f s)

def modifyMc (f : Instance → Instance) : Call Unit := modifyState fun s => { s with mc := f s.mc }

def onHardware {α : Type} (x : Session α) : Call α := fun s =>
  (x s.sent).map fun r => (r.1, { s with sent := r.2 })

/-- Only the device with id 0 is used. -/
def mmioInit (a : Answers) (id : ℕ) : Call Unit := do
  if id ≠ 0 then throw .invalid
  else if a.attach = false then throw .fail
  else
    modifyState fun s => { s with attached := s.attached + 1 }
    if a.getAddress = false then
      modifyState fun s => { s with attached := s.attached - 1 }
      throw .fail

def mmioCleanup : Call Unit := modifyState fun s => { s with attached := s.attached - 1 }

def eraseId (id : ℕ) : Call Unit :=
  modifyState fun s => { s with activeIds := s.activeIds.erase id }

def optional (r : Except Errno Unit) : Except Errno Unit :=
  match r with
  | .error .noimpl => .ok ()
  | r => r

def platformInit (a : Answers) (id : ℕ) : Call Unit := do
  let s ← getState
  if s.mc.platform ≠ none then throw .invalid
  else if id ∈ s.activeIds then throw .invalid
  else
    modifyState fun s => { s with activeIds := insert id s.activeIds }
    -- the id that is to be erased is read from the platform after that was deleted
    unwinding (mmioInit a id) (throw .undefined)
    modifyMc fun mc => { mc with platform := some id }
    let undo := do
      modifyMc fun mc => { mc with platform := none }
      mmioCleanup
      eraseId id
    unwinding (fromExcept a.fifosInit) undo
    unwinding (fromExcept (optional a.profilerInit)) undo
    unwinding (fromExcept (optional a.tracerInit)) undo

/-- Without a platform the null pointer is followed. -/
def platformCleanup : Call Unit := do
  let s ← getState
  match s.mc.platform with
  | none => throw .undefined
  | some id =>
    mmioCleanup
    eraseId id
    modifyMc fun mc => { mc with platform := none }

def initConfig (a : Answers) : Call Unit := do
  let rom ← fromExcept a.rom
  match configInit rom with
  | .error e =>
    modifyMc fun mc => { mc with config := none }
    throw e
  | .ok cfg => modifyMc fun mc => { mc with config := some cfg }

def responderInit (answer : Except Errno Unit) (r : Responder) : Except Errno Unit × Responder :=
  if r.hasInit = false then (.error .invalid, r)
  else match answer with
    | .error e => (.error e, r)
    | .ok _ => (.ok (), { r with running := true })

def initFrom (answers : ℕ → Except Errno Unit) :
    ℕ → List Responder → Except Errno Unit × List Responder
  | _, [] => (.ok (), [])
  | i, r :: rest =>
    match responderInit (answers i) r with
    | (.error e, r) => (.error e, r :: rest)
    | (.ok _, r) =>
      let (result, rest) := initFrom answers (i + 1) rest
      (result, r :: rest)

def respondersInit (a : Answers) : Call Unit := fun s =>
  let (result, responders) := initFrom a.responderInit 0 s.responders
  some (result, { s with responders := responders })

def enableDram : Call Unit := modifyMc fun mc => { mc with dramEnabled := true }

def getConfig : Call Config := do
  let s ← getState
  match s.mc.config with
  | none => throw .undefined
  | some cfg => pure cfg

def write8 (mc : Manycore) (packets : Platform) (npa : Npa) (v : UInt32) : Session Unit :=
  fun sent =>
    match write mc npa v 1 (packets.transmit sent.length) with
    | .error e => some (.error e, sent)
    | .ok rqst => some (.ok (), sent ++ [rqst])

def eastNotWest (cfg : Config) (p dram : Coord) : Bool :=
  if cfg.pods.x = 1 then dram.x - (podVcoreOrigin cfg p).x ≥ cfg.podShape.x / 2
  else p.x ≥ cfg.pods.x / 2

def vcacheInit (a : Answers) : Call Unit := do
  let cfg ← getConfig
  onHardware <| forM (foreachCoordinate ⟨0, 0⟩ cfg.pods) fun p => do
    let drams ← fromOption (podForeachDram cfg p)
    forM drams fun dram =>
      write8 ⟨cfg, true⟩ a.packets ⟨dram.x, dram.y, Vcache.vcacheEpaWhDst⟩
        (if eastNotWest cfg p dram then 1 else 0)

def dmaInit (a : Answers) : Call Unit := do
  let cfg ← getConfig
  let cfg ← fromExcept (a.dmaInit cfg)
  modifyMc fun mc => { mc with config := some cfg }

/-- The string is given back, and the pointer to it stays. -/
def freeName : Call Unit := modifyMc fun mc => { mc with name := .freed }

def manycoreInit (isNull : Bool) (name : Option String) (id : ℕ) (a : Answers) : Call Unit := do
  match isNull, name with
  | false, some name =>
    let s ← getState
    if s.mc.name ≠ .null then throw .invalid
    else if a.strdup = false then throw .fail
    else
      modifyMc fun mc => { mc with name := .live name }
      let undo := do
        platformCleanup
        freeName
      unwinding (platformInit a id) freeName
      unwinding (initConfig a) (do
        freeName
        platformCleanup)
      unwinding (respondersInit a) undo
      unwinding (fromExcept a.waitResetDone) undo
      unwinding enableDram undo
      unwinding (vcacheInit a) undo
      unwinding (dmaInit a) undo
  | _, _ => throw .invalid

section Steps

variable {s t u : State} {e : Errno} {id : ℕ} {a : Answers}

theorem returns_modifyState {f : State → State} : Returns (modifyState f) s ⟨⟩ t ↔ f s = t := by
  show some (Except.ok (), f s) = some (.ok (), t) ↔ _
  simp only [Option.some.injEq, Prod.mk.injEq, true_and]

theorem not_fails_modifyState {f : State → State} : ¬ Fails (modifyState f) s e t := by
  intro h
  cases h

theorem getState_bind {α : Type} (f : State → Call α) (s : State) :
    (getState >>= f) s = f s s :=
  bind_of_ok rfl

theorem fails_throw {α : Type} {e' : Errno} :
    Fails (throw e' : Call α) s e t ↔ e' = e ∧ s = t := by
  show some (Except.error e', s) = some (.error e, t) ↔ _
  simp only [Option.some.injEq, Prod.mk.injEq, Except.error.injEq]

theorem modifyState_bind {α : Type} (f : State → State) (g : Unit → Call α) (s : State) :
    (modifyState f >>= g) s = g () (f s) :=
  bind_of_ok rfl

/-- A device that is attached and cannot be used is detached. -/
theorem mmioInit_returns (h : Returns (mmioInit a id) s ⟨⟩ t) :
    t = { s with attached := s.attached + 1 } := by
  unfold mmioInit at h
  split_ifs at h with hid hattach haddress
  · exact absurd h not_returns_throw
  · exact absurd h not_returns_throw
  · obtain ⟨_, u, -, hu⟩ := returns_bind.mp h
    obtain ⟨_, v, -, hv⟩ := returns_bind.mp hu
    exact absurd hv not_returns_throw
  · obtain ⟨_, u, hu, hpure⟩ := returns_bind.mp h
    obtain ⟨-, rfl⟩ := returns_pure.mp hpure
    exact (returns_modifyState.mp hu).symm

theorem mmioInit_fails (h : Fails (mmioInit a id) s e t) : t = s := by
  unfold mmioInit at h
  split_ifs at h with hid hattach haddress
  · exact (fails_throw.mp h).2.symm
  · exact (fails_throw.mp h).2.symm
  · rw [Fails, modifyState_bind, modifyState_bind] at h
    exact (fails_throw.mp h).2.symm
  · rw [Fails, modifyState_bind] at h
    exact absurd h not_fails_pure

def withPlatform (id : ℕ) (s : State) : State :=
  { s with
    mc := { s.mc with platform := some id }
    activeIds := insert id s.activeIds
    attached := s.attached + 1 }

theorem platformInit_returns (h : Returns (platformInit a id) s ⟨⟩ t) :
    s.mc.platform = none ∧ id ∉ s.activeIds ∧ t = withPlatform id s := by
  unfold platformInit at h
  rw [Returns, getState_bind] at h
  split_ifs at h with hplatform hactive
  · exact absurd h not_returns_throw
  · exact absurd h not_returns_throw
  · rw [modifyState_bind] at h
    obtain ⟨_, u, hmmio, h⟩ := returns_bind.mp h
    rw [returns_unwinding] at hmmio
    have hu := mmioInit_returns hmmio
    rw [Returns, modifyMc, modifyState_bind] at h
    obtain ⟨_, v, hfifos, h⟩ := returns_bind.mp h
    obtain ⟨-, rfl⟩ := returns_fromExcept.mp (returns_unwinding.mp hfifos)
    obtain ⟨_, w, hprofiler, h⟩ := returns_bind.mp h
    obtain ⟨-, rfl⟩ := returns_fromExcept.mp (returns_unwinding.mp hprofiler)
    obtain ⟨-, rfl⟩ := returns_fromExcept.mp (returns_unwinding.mp h)
    exact ⟨not_not.mp hplatform, hactive, by rw [hu]; rfl⟩

theorem platformUndo_returns (hplatform : s.mc.platform = none) (hactive : id ∉ s.activeIds) :
    (do
      modifyMc fun mc => { mc with platform := none }
      mmioCleanup
      eraseId id : Call Unit) (withPlatform id s) = some (.ok (), s) := by
  rw [modifyMc, modifyState_bind, mmioCleanup, modifyState_bind, eraseId, modifyState]
  have herase : (insert id s.activeIds).erase id = s.activeIds := Finset.erase_insert hactive
  simp only [withPlatform, herase, Nat.add_sub_cancel]
  rw [← hplatform]

theorem platformInit_fails (h : Fails (platformInit a id) s e t) :
    (e = .undefined ∧ t = { s with activeIds := insert id s.activeIds }) ∨ t = s := by
  unfold platformInit at h
  rw [Fails, getState_bind] at h
  split_ifs at h with hplatform hactive
  · exact Or.inr (fails_throw.mp h).2.symm
  · exact Or.inr (fails_throw.mp h).2.symm
  · rw [not_not] at hplatform
    have hundo := @platformUndo_returns s id hplatform hactive
    -- each step from here on finds the platform in place
    have hstep : ∀ {r : Except Errno Unit} {t : State}, Fails (unwinding (fromExcept r) (do
        modifyMc fun mc => { mc with platform := none }
        mmioCleanup
        eraseId id)) (withPlatform id s) e t → t = s := by
      intro r t hf
      obtain ⟨e', u, hx, hu⟩ := fails_unwinding.mp hf
      obtain ⟨-, rfl⟩ := fails_fromExcept.mp hx
      rcases hu with hu | ⟨-, hu⟩
      · rw [Fails, hundo] at hu
        cases hu
      · rw [Returns, hundo] at hu
        cases hu
        rfl
    rw [modifyState_bind] at h
    rcases fails_bind.mp h with hmmio | ⟨_, u, hmmio, h⟩
    · obtain ⟨e', u, hx, hu⟩ := fails_unwinding.mp hmmio
      rw [mmioInit_fails hx] at hu
      rcases hu with hu | ⟨-, hu⟩
      · obtain ⟨rfl, rfl⟩ := fails_throw.mp hu
        exact Or.inl ⟨rfl, rfl⟩
      · exact absurd hu not_returns_throw
    · rw [returns_unwinding] at hmmio
      have hu := mmioInit_returns hmmio
      rw [Fails, modifyMc, modifyState_bind] at h
      have hplaced : withPlatform id s =
          { u with mc := { u.mc with platform := some id } } := by
        rw [hu]
        rfl
      rw [← hplaced] at h
      refine Or.inr ?_
      rcases fails_bind.mp h with hf | ⟨_, v, hv, h⟩
      · exact hstep hf
      · obtain ⟨-, rfl⟩ := returns_fromExcept.mp (returns_unwinding.mp hv)
        rcases fails_bind.mp h with hf | ⟨_, w, hw, h⟩
        · exact hstep hf
        · obtain ⟨-, rfl⟩ := returns_fromExcept.mp (returns_unwinding.mp hw)
          exact hstep h

end Steps

structure Held (id : ℕ) (s₀ : State) (rs : List Responder) (s : State) : Prop where
  platform : s.mc.platform = some id
  activeIds : s.activeIds = insert id s₀.activeIds
  attached : s.attached = s₀.attached + 1
  responders : s.responders = rs

/-- What `hb_mc_manycore_init` leaves when it fails on a platform: the name dangles, and the
responders are not quit. -/
structure Left (s₀ : State) (rs : List Responder) (t : State) : Prop where
  name : t.mc.name = .freed
  platform : t.mc.platform = none
  activeIds : t.activeIds = s₀.activeIds
  attached : t.attached = s₀.attached
  responders : t.responders = rs

section Chain

variable {s₀ s t : State} {rs : List Responder} {e : Errno} {id : ℕ} {a : Answers}

theorem held_withPlatform (s : State) : Held id s s.responders (withPlatform id s) :=
  ⟨rfl, rfl, rfl, rfl⟩

theorem held_modifyMc {f : Instance → Instance} (hf : ∀ mc, (f mc).platform = mc.platform) :
    Preserves (Held id s₀ rs) (modifyMc f) := by
  intro s r t h hs
  cases h
  exact ⟨(hf s.mc).trans hs.platform, hs.activeIds, hs.attached, hs.responders⟩

theorem held_onHardware {α : Type} (x : Session α) :
    Preserves (Held id s₀ rs) (onHardware x) := by
  intro s r t h hs
  obtain ⟨r', -, hr⟩ := Option.map_eq_some_iff.mp h
  cases hr
  exact ⟨hs.platform, hs.activeIds, hs.attached, hs.responders⟩

theorem held_getConfig : Preserves (Held id s₀ rs) getConfig := by
  intro s r t h hs
  rw [getConfig, getState_bind] at h
  cases hc : s.mc.config with
  | none =>
    rw [hc] at h
    cases h
    exact hs
  | some cfg =>
    rw [hc] at h
    cases h
    exact hs

theorem held_initConfig : Preserves (Held id s₀ rs) (initConfig a) := by
  refine .bind (.fromExcept _) fun rom => ?_
  cases configInit rom with
  | error err => exact .bind (held_modifyMc fun _ => rfl) fun _ => .throw err
  | ok cfg => exact held_modifyMc fun _ => rfl

theorem held_enableDram : Preserves (Held id s₀ rs) enableDram := held_modifyMc fun _ => rfl

theorem held_vcacheInit : Preserves (Held id s₀ rs) (vcacheInit a) :=
  .bind held_getConfig fun _ => held_onHardware _

theorem held_dmaInit : Preserves (Held id s₀ rs) (dmaInit a) :=
  .bind held_getConfig fun _ => .bind (.fromExcept _) fun _ => held_modifyMc fun _ => rfl

theorem respondersInit_held {r : Except Errno Unit} (h : respondersInit a s = some (r, t))
    (hs : Held id s₀ rs s) : Held id s₀ (initFrom a.responderInit 0 rs).2 t := by
  cases h
  exact ⟨hs.platform, hs.activeIds, hs.attached, by rw [hs.responders]⟩

theorem platformCleanup_held (hs : s.mc.platform = some id) :
    platformCleanup s = some (.ok (), { s with
      mc := { s.mc with platform := none }
      activeIds := s.activeIds.erase id
      attached := s.attached - 1 }) := by
  rw [platformCleanup, getState_bind, hs]
  rfl

def released (id : ℕ) (s : State) : State :=
  { s with
    mc := { s.mc with name := .freed, platform := none }
    activeIds := s.activeIds.erase id
    attached := s.attached - 1 }

theorem Held.released (hs : Held id s₀ rs s) (hactive : id ∉ s₀.activeIds) :
    Left s₀ rs (released id s) := by
  refine ⟨rfl, rfl, ?_, ?_, hs.responders⟩
  · show s.activeIds.erase id = s₀.activeIds
    rw [hs.activeIds, Finset.erase_insert hactive]
  · show s.attached - 1 = s₀.attached
    rw [hs.attached, Nat.add_sub_cancel]

theorem cleanup_released (hs : s.mc.platform = some id) :
    (do
      platformCleanup
      freeName : Call Unit) s = some (.ok (), released id s) :=
  bind_of_ok (platformCleanup_held hs)

theorem freeName_released (hs : s.mc.platform = some id) :
    (do
      freeName
      platformCleanup : Call Unit) s = some (.ok (), released id s) := by
  have hfreed : ({ s with mc := { s.mc with name := .freed } } : State).mc.platform = some id := hs
  exact (bind_of_ok rfl).trans (platformCleanup_held hfreed)

theorem unwinding_cases {x undo : Call Unit} {f : Unit → Call Unit}
    (hactive : id ∉ s₀.activeIds) (hx : ∀ r t, x s = some (r, t) → Held id s₀ rs t)
    (hundo : ∀ u, u.mc.platform = some id → undo u = some (.ok (), released id u))
    (h : Fails (unwinding x undo >>= f) s e t) :
    Left s₀ rs t ∨ ∃ u, Held id s₀ rs u ∧ Fails (f ()) u e t := by
  rcases fails_bind.mp h with hf | ⟨_, u, hu, hf⟩
  · obtain ⟨e', u, hfx, hu⟩ := fails_unwinding.mp hf
    have hheld := hx _ u hfx
    have hrun := hundo u hheld.platform
    rcases hu with hu | ⟨-, hu⟩
    · rw [Fails, hrun] at hu
      cases hu
    · rw [Returns, hrun] at hu
      cases hu
      exact Or.inl (hheld.released hactive)
  · exact Or.inr ⟨u, hx _ u (returns_unwinding.mp hu), hf⟩

def afterPlatform (a : Answers) : Call Unit := do
  let undo := do
    platformCleanup
    freeName
  unwinding (initConfig a) (do
    freeName
    platformCleanup)
  unwinding (respondersInit a) undo
  unwinding (fromExcept a.waitResetDone) undo
  unwinding enableDram undo
  unwinding (vcacheInit a) undo
  unwinding (dmaInit a) undo

theorem afterPlatform_fails (hactive : id ∉ s₀.activeIds) (hs : Held id s₀ rs s)
    (h : Fails (afterPlatform a) s e t) :
    Left s₀ rs t ∨ Left s₀ (initFrom a.responderInit 0 rs).2 t := by
  unfold afterPlatform at h
  rcases unwinding_cases hactive (fun r t hr => held_initConfig s r t hr hs)
    (fun u hu => freeName_released hu) h with hleft | ⟨u, hu, h⟩
  · exact Or.inl hleft
  refine Or.inr ?_
  rcases unwinding_cases hactive (fun r t hr => respondersInit_held hr hu)
    (fun u hu => cleanup_released hu) h with hleft | ⟨v, hv, h⟩
  · exact hleft
  rcases unwinding_cases hactive (fun r t hr => Preserves.fromExcept _ v r t hr hv)
    (fun u hu => cleanup_released hu) h with hleft | ⟨w, hw, h⟩
  · exact hleft
  rcases unwinding_cases hactive (fun r t hr => held_enableDram w r t hr hw)
    (fun u hu => cleanup_released hu) h with hleft | ⟨x, hx, h⟩
  · exact hleft
  rcases unwinding_cases hactive (fun r t hr => held_vcacheInit x r t hr hx)
    (fun u hu => cleanup_released hu) h with hleft | ⟨y, hy, h⟩
  · exact hleft
  rw [← bind_pure (unwinding _ _)] at h
  rcases unwinding_cases hactive (fun r t hr => held_dmaInit y r t hr hy)
    (fun u hu => cleanup_released hu) h with hleft | ⟨z, hz, h⟩
  · exact hleft
  · exact absurd h not_fails_pure

end Chain

def Early (isNull : Bool) (name : Option String) (s : State) (a : Answers) : Prop :=
  isNull = true ∨ name = none ∨ s.mc.name ≠ .null ∨ a.strdup = false

instance (isNull : Bool) (name : Option String) (s : State) (a : Answers) :
    Decidable (Early isNull name s a) := inferInstanceAs (Decidable (_ ∨ _ ∨ _ ∨ _))

/-- Name, platform and responders are as they were, and so is what a later call does. -/
structure Restored (s t : State) : Prop where
  name : t.mc.name = s.mc.name
  platform : t.mc.platform = s.mc.platform
  responders : t.responders = s.responders
  retry : ∀ copy id a, manycoreInit false (some copy) id a t = manycoreInit false (some copy) id a s

section Failures

variable {isNull : Bool} {name : Option String} {id : ℕ} {a : Answers} {s t : State} {e : Errno}

theorem manycoreInit_early (h : Early isNull name s a) :
    ∃ e, manycoreInit isNull name id a s = some (.error e, s) := by
  cases isNull with
  | true => exact ⟨.invalid, rfl⟩
  | false =>
    cases name with
    | none => exact ⟨.invalid, rfl⟩
    | some name =>
      rw [manycoreInit, getState_bind]
      by_cases hname : s.mc.name ≠ .null
      · rw [if_pos hname]
        exact ⟨.invalid, rfl⟩
      · have hdup : a.strdup = false := by
          rcases h with h | h | h | h
          · cases h
          · cases h
          · exact absurd h hname
          · exact h
        rw [if_neg hname, if_pos hdup]
        exact ⟨.fail, rfl⟩

def withName (name : String) (s : State) : State :=
  { s with mc := { s.mc with name := .live name } }

theorem manycoreInit_late (h : ¬ Early isNull name s a) :
    ∃ copy, name = some copy ∧ manycoreInit isNull name id a s =
      (unwinding (platformInit a id) freeName >>= fun _ => afterPlatform a) (withName copy s) := by
  simp only [Early, not_or, Bool.not_eq_true, not_not, Bool.not_eq_false] at h
  obtain ⟨rfl, hname, hnull, hdup⟩ := h
  obtain ⟨copy, rfl⟩ := Option.ne_none_iff_exists'.mp hname
  refine ⟨copy, rfl, ?_⟩
  rw [manycoreInit, getState_bind, if_neg (not_not.mpr hnull), hdup]
  rfl

/-- How the call fails: without a change, or after it has taken the name, which dangles then. What
it has taken of the platform is given back, unless the device could not be opened. -/
theorem manycoreInit_fails (h : Fails (manycoreInit isNull name id a) s e t) :
    (Early isNull name s a ∧ t = s) ∨
    (¬ Early isNull name s a ∧ t.mc.name = .freed ∧
      (e = .undefined ∨ t.mc.platform = s.mc.platform ∧ t.activeIds = s.activeIds ∧
        t.attached = s.attached) ∧
      (t.responders = s.responders ∨
        t.responders = (initFrom a.responderInit 0 s.responders).2)) := by
  by_cases hearly : Early isNull name s a
  · obtain ⟨e', he⟩ := @manycoreInit_early isNull name id a s hearly
    rw [Fails, he] at h
    cases h
    exact Or.inl ⟨hearly, rfl⟩
  · refine Or.inr ⟨hearly, ?_⟩
    obtain ⟨copy, -, hrun⟩ := @manycoreInit_late isNull name id a s hearly
    rw [Fails, hrun] at h
    rcases fails_bind.mp h with hf | ⟨_, u, hu, hf⟩
    · obtain ⟨e', u, hx, hu⟩ := fails_unwinding.mp hf
      have hfree : Returns freeName u ⟨⟩ t ∧ e' = e := by
        rcases hu with hu | ⟨he, hu⟩
        · exact absurd hu not_fails_modifyState
        · exact ⟨hu, he⟩
      obtain ⟨hfree, rfl⟩ := hfree
      cases hfree
      rcases platformInit_fails hx with ⟨rfl, rfl⟩ | rfl
      · exact ⟨rfl, Or.inl rfl, Or.inl rfl⟩
      · exact ⟨rfl, Or.inr ⟨rfl, rfl, rfl⟩, Or.inl rfl⟩
    · obtain ⟨hplatform, hactive, rfl⟩ := platformInit_returns (returns_unwinding.mp hu)
      have hgiven : ∀ rs, Left (withName copy s) rs t →
          t.mc.platform = s.mc.platform ∧ t.activeIds = s.activeIds ∧ t.attached = s.attached := by
        intro rs hleft
        exact ⟨hleft.platform.trans hplatform.symm, hleft.activeIds, hleft.attached⟩
      rcases afterPlatform_fails hactive (held_withPlatform _) hf with hleft | hleft
      · exact ⟨hleft.name, Or.inr (hgiven _ hleft), Or.inl hleft.responders⟩
      · exact ⟨hleft.name, Or.inr (hgiven _ hleft), Or.inr hleft.responders⟩

/-- An instance with a name, live or not, is taken for one that is initialised. -/
theorem manycoreInit_twice (hname : s.mc.name ≠ .null) (copy : String) :
    manycoreInit false (some copy) id a s = some (.error .invalid, s) := by
  rw [manycoreInit, getState_bind, if_pos hname]
  rfl

/-- A failing call restores the instance and the responders exactly when it has not copied the name
yet; otherwise every later call on the instance fails. -/
theorem restored_iff (h : Fails (manycoreInit isNull name id a) s e t) :
    (Restored s t ↔ Early isNull name s a) ∧
    (¬ Early isNull name s a → ∀ copy id' a',
      manycoreInit false (some copy) id' a' t = some (.error .invalid, t)) := by
  rcases manycoreInit_fails h with ⟨hearly, rfl⟩ | ⟨hlate, hfreed, -, -⟩
  · exact ⟨iff_of_true ⟨rfl, rfl, rfl, fun _ _ _ => rfl⟩ hearly, fun hlate => absurd hearly hlate⟩
  · have hnull : t.mc.name ≠ .null := by
      rw [hfreed]
      exact NamePtr.noConfusion
    refine ⟨iff_of_false ?_ hlate, fun _ copy id' a' => manycoreInit_twice hnull copy⟩
    intro hrestored
    apply hlate
    refine Or.inr (Or.inr (Or.inl ?_))
    rw [← hrestored.name]
    exact hnull

end Failures

def zeroed : State where
  mc := ⟨.null, none, none, false⟩
  responders := [⟨true, true, false⟩]
  activeIds := ∅
  attached := 0
  sent := []

def good : Answers where
  strdup := true
  attach := true
  getAddress := true
  fifosInit := .ok ()
  profilerInit := .ok ()
  tracerInit := .error .noimpl
  rom := .ok ({} : Machine).rom
  responderInit _ := .ok ()
  waitResetDone := .ok ()
  packets := ⟨fun _ => .ok (), fun _ => .ok ()⟩
  dmaInit := .ok

def neverReset : Answers := { good with waitResetDone := .error .timeout }

theorem fails_neverReset : ∃ e t, Fails (manycoreInit false (some "mc") 0 neverReset) zeroed e t ∧
    (decide (t.mc.name = .freed) && decide (t.responders = [⟨true, true, true⟩])) = true :=
  exists_fails _ (by decide +kernel)

theorem restored_iff_neverReset : ∃ e t,
    Fails (manycoreInit false (some "mc") 0 neverReset) zeroed e t ∧
    (Restored zeroed t ↔ Early false (some "mc") zeroed neverReset) := by
  obtain ⟨e, t, h, -⟩ := fails_neverReset
  exact ⟨e, t, h, (restored_iff h).1⟩

/-- The reset does not end: the name dangles and the responder stays initialised. A second call
fails, where the first one would have succeeded. -/
theorem neverReset_not_restored : ∃ e t,
    Fails (manycoreInit false (some "mc") 0 neverReset) zeroed e t ∧ ¬ Restored zeroed t ∧
    t.mc.name = .freed ∧ t.responders = [⟨true, true, true⟩] ∧
    manycoreInit false (some "mc") 0 good t = some (.error .invalid, t) ∧
    ∃ u, Returns (manycoreInit false (some "mc") 0 good) zeroed ⟨⟩ u := by
  obtain ⟨e, t, h, hq⟩ := fails_neverReset
  obtain ⟨hname, hresponders⟩ := Bool.and_eq_true_iff.mp hq
  have hfreed := of_decide_eq_true hname
  have hnull : t.mc.name ≠ .null := by
    rw [hfreed]
    exact NamePtr.noConfusion
  obtain ⟨_, u, hu, -⟩ := exists_returns (x := manycoreInit false (some "mc") 0 good)
    (s := zeroed) (fun _ => true) (by decide +kernel)
  refine ⟨e, t, h, ?_, hfreed, of_decide_eq_true hresponders, manycoreInit_twice hnull "mc", u, hu⟩
  intro hrestored
  exact hnull hrestored.name

end ManycoreInit
