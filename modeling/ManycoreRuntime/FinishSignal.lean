import ManycoreRuntime.EnqueueTable
import ManycoreRuntime.NpaRoundTrip

/-! # Finish signals

A tile group signals its end with a store to the host, at an address that grows with the group's
place in the grid. The address is packed into the low bits of a global address. -/
namespace FinishSignal

open BitField
open Coordinate
open Configuration (Manycore)
open EnqueueTable
open EvaToNpa
open Fallible (bind_eq_ok)
open Machines (Machine)
open NpaToEva
open TileGroups
open TileOwnership (smallPod)

/-- The stores up to the first that fails, and which were made. -/
def setSymbolVals (setSymbolVal : String → UInt32 → Except Errno Unit) :
    List (String × UInt32) → Except Errno Unit × List (String × UInt32)
  | [] => (.ok (), [])
  | (symbol, val) :: rest =>
    match setSymbolVal symbol val with
    | .error e => (.error e, [])
    | .ok _ =>
      let (result, stored) := setSymbolVals setSymbolVal rest
      (result, (symbol, val) :: stored)

def tileSetRuntimeSymbols (mc : Manycore) (setSymbolVal : String → UInt32 → Except Errno Unit)
    (map : EvaMap) (tile : Coord) (argc argvAddr : UInt32) (finishSignalNpa : Npa)
    (kernelAddr : UInt32) : Except Errno Unit × List (String × UInt32) :=
  match setSymbolVals setSymbolVal [("cuda_argc", argc), ("cuda_argv_ptr", argvAddr)] with
  | (.error e, stored) => (.error e, stored)
  | (.ok _, stored) =>
    match npaToEva mc map tile finishSignalNpa with
    | .error e => (.error e, stored)
    | .ok (finish_signal_addr, _) =>
      let (result, more) := setSymbolVals setSymbolVal
        [("cuda_finish_signal_addr", finish_signal_addr), ("cuda_kernel_ptr", kernelAddr)]
      (result, stored ++ more)

structure HostEva (host : Coord) (epa eva : UInt32) : Prop where
  global : defaultEvaIsDram eva = false ∧ defaultEvaIsGlobal eva = true
  x : field eva defaultGlobalXLogsz defaultGlobalXBitidx = host.x
  y : field eva defaultGlobalYLogsz defaultGlobalYBitidx = host.y
  epa : eva &&& (lowMask globalEpaLogsz).toUInt32 = epa

/-- The tile group is placed at `origin`. What is stored for the finish signal of its tile is the
host's address, and it is stored when no store fails. -/
structure Signalled (mc : Manycore) (origin tile : Coord) (tg : TileGroup) : Prop where
  stored : ∀ setSymbolVal argc argvAddr kernelAddr eva,
    ("cuda_finish_signal_addr", eva) ∈ (tileSetRuntimeSymbols mc setSymbolVal
      (originEvaMapInit origin) tile argc argvAddr tg.finishSignalNpa kernelAddr).2 →
    HostEva mc.config.hostInterface tg.finishSignalNpa.epa eva
  stores : ∀ setSymbolVal argc argvAddr kernelAddr, (∀ s v, setSymbolVal s v = .ok ()) →
    ∃ eva, ("cuda_finish_signal_addr", eva) ∈ (tileSetRuntimeSymbols mc setSymbolVal
      (originEvaMapInit origin) tile argc argvAddr tg.finishSignalNpa kernelAddr).2

/-- The tile groups of a grid signal to the host, each at an address of its own. -/
structure FinishSignals (mc : Manycore) (origin tile : Coord) (groups : List TileGroup) :
    Prop where
  signalled : ∀ g ∈ groups, Signalled mc origin tile g
  distinct : (groups.map fun g => g.finishSignalNpa.epa).Nodup

section Stores

variable {mc : Manycore} {setSymbolVal : String → UInt32 → Except Errno Unit} {map : EvaMap}
  {origin tile : Coord} {argc argvAddr kernelAddr eva : UInt32} {npa : Npa} {tg : TileGroup}

theorem setSymbolVals_subset (vals : List (String × UInt32)) :
    (setSymbolVals setSymbolVal vals).2 ⊆ vals := by
  induction vals with
  | nil => exact List.Subset.refl []
  | cons val rest ih =>
    obtain ⟨symbol, v⟩ := val
    simp only [setSymbolVals]
    split
    · exact List.nil_subset _
    · exact List.cons_subset_cons _ ih

theorem setSymbolVals_of_ok (h : ∀ s v, setSymbolVal s v = .ok ()) (vals : List (String × UInt32)) :
    setSymbolVals setSymbolVal vals = (.ok (), vals) := by
  induction vals with
  | nil => rfl
  | cons val rest ih =>
    obtain ⟨symbol, v⟩ := val
    simp only [setSymbolVals, h, ih]

theorem npaToEva_of_stored
    (h : ("cuda_finish_signal_addr", eva) ∈
      (tileSetRuntimeSymbols mc setSymbolVal map tile argc argvAddr npa kernelAddr).2) :
    ∃ sz, npaToEva mc map tile npa = .ok (eva, sz) := by
  have hfirst := @setSymbolVals_subset setSymbolVal
    [("cuda_argc", argc), ("cuda_argv_ptr", argvAddr)]
  have hnot : ∀ stored ⊆ [("cuda_argc", argc), ("cuda_argv_ptr", argvAddr)],
      ("cuda_finish_signal_addr", eva) ∉ stored := by
    intro stored hsub hmem
    have := hsub hmem
    simp at this
  simp only [tileSetRuntimeSymbols] at h
  split at h
  · next he =>
    rw [he] at hfirst
    exact absurd h (hnot _ hfirst)
  · next he =>
    rw [he] at hfirst
    split at h
    · exact absurd h (hnot _ hfirst)
    · next addr sz haddr =>
      rcases List.mem_append.mp h with h | h
      · exact absurd h (hnot _ hfirst)
      · have hmem := setSymbolVals_subset _ h
        simp only [List.mem_cons, Prod.mk.injEq, true_and, String.reduceEq, false_and,
          List.not_mem_nil, or_false] at hmem
        exact ⟨sz, by rw [haddr, hmem]⟩

theorem tileSetRuntimeSymbols_of_ok (h : ∀ s v, setSymbolVal s v = .ok ()) :
    (tileSetRuntimeSymbols mc setSymbolVal map tile argc argvAddr npa kernelAddr).2 =
      [("cuda_argc", argc), ("cuda_argv_ptr", argvAddr)] ++
        match npaToEva mc map tile npa with
        | .error _ => []
        | .ok (addr, _) =>
          [("cuda_finish_signal_addr", addr), ("cuda_kernel_ptr", kernelAddr)] := by
  simp only [tileSetRuntimeSymbols, setSymbolVals_of_ok h]
  cases npaToEva mc map tile npa with
  | error e => exact (List.append_nil _).symm
  | ok r => rfl

theorem signalled_iff : Signalled mc origin tile tg ↔
    ∃ eva sz, defaultNpaToEva mc origin tile tg.finishSignalNpa = .ok (eva, sz) ∧
      HostEva mc.config.hostInterface tg.finishSignalNpa.epa eva := by
  constructor
  · intro h
    obtain ⟨eva, hmem⟩ := h.stores (fun _ _ => .ok ()) 0 0 0 fun _ _ => rfl
    obtain ⟨sz, hsz⟩ := npaToEva_of_stored hmem
    rw [npaToEva_origin] at hsz
    exact ⟨eva, sz, hsz, h.stored _ _ _ _ _ hmem⟩
  · rintro ⟨eva, sz, hok, heva⟩
    refine ⟨fun set argc argv kernel eva' hmem => ?_, fun set argc argv kernel hset => ⟨eva, ?_⟩⟩
    · obtain ⟨sz', hsz⟩ := npaToEva_of_stored hmem
      rw [npaToEva_origin, hok] at hsz
      cases hsz
      exact heva
    · rw [tileSetRuntimeSymbols_of_ok hset, npaToEva_origin, hok]
      exact List.mem_append_right _ List.mem_cons_self

end Stores

section Packed

variable {mc : Manycore} {origin tile host : Coord} {npa : Npa} {eva epa : UInt32} {sz : ℕ}

theorem not_hostEva_of_dram (h : defaultNpaToEvaDram mc tile npa = .ok (eva, sz)) :
    ¬ HostEva host epa eva := by
  intro heva
  simp only [defaultNpaToEvaDram, bind_eq_ok] at h
  obtain ⟨column, -, south, -, section_, -, top, -, h⟩ := h
  cases h
  have hbit := (TileTranslation.isDram_iff _).not.mp (Bool.eq_false_iff.mp heva.global.1)
  have hone : ((1 : UInt32) <<< defaultDramBitidx).toNat = 2 ^ 31 := by decide
  rw [UInt32.toNat_or, hone] at hbit
  exact hbit Nat.right_le_or

theorem hostEva_globalRemote (hx : npa.x.toNat < 2 ^ 7) (hy : npa.y.toNat < 2 ^ 7) :
    HostEva npa.xy npa.epa (npa.epa ||| (npa.x <<< defaultGlobalXBitidx) |||
      (npa.y <<< defaultGlobalYBitidx) ||| (1 <<< defaultGlobalBitidx)) ↔
      npa.epa.toNat < 2 ^ 16 := by
  constructor
  · intro h
    have hepa := congrArg UInt32.toNat h.epa
    rw [TileTranslation.masked_global] at hepa
    omega
  · intro he
    have hv := NpaRoundTrip.globalRemote_toNat npa he hx hy
    generalize npa.epa ||| (npa.x <<< defaultGlobalXBitidx) |||
      (npa.y <<< defaultGlobalYBitidx) ||| (1 <<< defaultGlobalBitidx) = eva at hv
    refine ⟨⟨?_, ?_⟩, ?_, ?_, ?_⟩
    · rw [Bool.eq_false_iff, Ne, TileTranslation.isDram_iff]
      omega
    · rw [TileTranslation.isGlobal_iff]
      omega
    · have hfield : (field eva defaultGlobalXLogsz defaultGlobalXBitidx).toNat =
          eva.toNat / 2 ^ 16 % 2 ^ 7 := field_toNat (by decide)
      rw [← UInt32.toNat_inj, hfield]
      show _ = npa.x.toNat
      omega
    · have hfield : (field eva defaultGlobalYLogsz defaultGlobalYBitidx).toNat =
          eva.toNat / 2 ^ 23 % 2 ^ 7 := field_toNat (by decide)
      rw [← UInt32.toNat_inj, hfield]
      show _ = npa.y.toNat
      omega
    · rw [← UInt32.toNat_inj, TileTranslation.masked_global]
      omega

/-- The host is taken for a bank of memory, or its address is packed; the signal's address must
fit in its field. -/
theorem hostEva_iff (hx : mc.config.hostInterface.x.toNat < 2 ^ 7)
    (hy : mc.config.hostInterface.y.toNat < 2 ^ 7) (hnpa : npa.xy = mc.config.hostInterface) :
    (∃ eva sz, defaultNpaToEva mc origin tile npa = .ok (eva, sz) ∧
      HostEva mc.config.hostInterface npa.epa eva) ↔
      defaultNpaIsDram mc npa tile = false ∧ npa.epa.toNat < 2 ^ 16 := by
  have hhost : defaultNpaIsHost mc.config npa = true := by
    rw [defaultNpaIsHost, ← hnpa]
    simp [Npa.xy]
  rw [← hnpa] at hx hy ⊢
  cases hd : defaultNpaIsDram mc npa tile with
  | true =>
    refine iff_of_false ?_ fun h => by cases h.1
    rintro ⟨eva, sz, hok, heva⟩
    rw [defaultNpaToEva, if_pos hd] at hok
    exact not_hostEva_of_dram hok heva
  | false =>
    rw [defaultNpaToEva, hd, if_neg Bool.false_ne_true, if_pos hhost, ← hostEva_globalRemote hx hy]
    constructor
    · rintro ⟨eva, sz, hok, heva⟩
      cases hok
      exact ⟨rfl, heva⟩
    · rintro ⟨-, heva⟩
      exact ⟨_, _, rfl, heva⟩

end Packed

def groupIndex (id : Coord) (gridDim : Dimension) : ℕ := id.y.toNat * gridDim.x.toNat + id.x.toNat

section Place

variable {id id' : Coord} {gridDim : Dimension}

theorem groupIndex_lt (hid : InRect ⟨0, 0⟩ gridDim id) :
    groupIndex id gridDim < gridDim.x.toNat * gridDim.y.toNat := by
  obtain ⟨-, hx, -, hy⟩ := hid
  simp only [UInt32.toNat_zero, Nat.zero_add] at hx hy
  calc groupIndex id gridDim < id.y.toNat * gridDim.x.toNat + gridDim.x.toNat :=
        Nat.add_lt_add_left hx _
    _ = gridDim.x.toNat * (id.y.toNat + 1) := by ring
    _ ≤ gridDim.x.toNat * gridDim.y.toNat := Nat.mul_le_mul_left _ hy

theorem groupIndex_inj (hid : InRect ⟨0, 0⟩ gridDim id) (hid' : InRect ⟨0, 0⟩ gridDim id')
    (h : groupIndex id gridDim = groupIndex id' gridDim) : id = id' := by
  obtain ⟨-, hx, -, -⟩ := hid
  obtain ⟨-, hx', -, -⟩ := hid'
  simp only [UInt32.toNat_zero, Nat.zero_add] at hx hx'
  obtain ⟨hrow, hcolumn⟩ := row_column_inj hx hx' h
  exact coord_eq hcolumn hrow

theorem exists_groupIndex {n : ℕ} (hn : n < gridDim.x.toNat * gridDim.y.toNat) :
    ∃ id, InRect ⟨0, 0⟩ gridDim id ∧ groupIndex id gridDim = n := by
  have hpos : 0 < gridDim.x.toNat := Nat.pos_of_mul_pos_right (Nat.zero_lt_of_lt hn)
  have hmod := Nat.mod_lt n hpos
  have hdiv : n / gridDim.x.toNat < gridDim.y.toNat := Nat.div_lt_of_lt_mul hn
  have hx := gridDim.x.toNat_lt
  have hy := gridDim.y.toNat_lt
  have hidx : (UInt32.ofNat (n % gridDim.x.toNat)).toNat = n % gridDim.x.toNat :=
    UInt32.toNat_ofNat_of_lt' (by simp only [UInt32.size]; omega)
  have hidy : (UInt32.ofNat (n / gridDim.x.toNat)).toNat = n / gridDim.x.toNat :=
    UInt32.toNat_ofNat_of_lt' (by simp only [UInt32.size]; omega)
  refine ⟨⟨UInt32.ofNat (n % gridDim.x.toNat), UInt32.ofNat (n / gridDim.x.toNat)⟩, ?_, ?_⟩
  · simp only [InRect, hidx, hidy, UInt32.toNat_zero]
    omega
  · rw [groupIndex, hidx, hidy, Nat.mul_comm]
    exact Nat.div_add_mod _ _

theorem getFinishSignalAddr_toNat (hid : InRect ⟨0, 0⟩ gridDim id)
    (hsize : gridDim.x.toNat * gridDim.y.toNat ≤ 2 ^ 30) :
    (getFinishSignalAddr id gridDim).toNat = (0xF000 + 4 * groupIndex id gridDim) % 2 ^ 32 := by
  have hlt := groupIndex_lt hid
  have hindex : (id.y * gridDim.x + id.x).toNat = groupIndex id gridDim := by
    rw [UInt32.toNat_add, UInt32.toNat_mul, Nat.mod_add_mod]
    exact Nat.mod_eq_of_lt (show groupIndex id gridDim < 2 ^ 32 by omega)
  have hshift : ((id.y * gridDim.x + id.x) <<< 2).toNat = 4 * groupIndex id gridDim := by
    rw [shiftLeft_toNat (by decide), hindex]
    simp only [UInt32.reduceToNat]
    omega
  rw [getFinishSignalAddr, UInt32.toNat_add, hshift, hostFinishSignalBaseAddr]
  rfl

theorem getFinishSignalAddr_inj (hid : InRect ⟨0, 0⟩ gridDim id)
    (hid' : InRect ⟨0, 0⟩ gridDim id') (hsize : gridDim.x.toNat * gridDim.y.toNat ≤ 2 ^ 30)
    (h : getFinishSignalAddr id gridDim = getFinishSignalAddr id' gridDim) : id = id' := by
  have hlt := groupIndex_lt hid
  have hlt' := groupIndex_lt hid'
  have haddr := congrArg UInt32.toNat h
  rw [getFinishSignalAddr_toNat hid hsize, getFinishSignalAddr_toNat hid' hsize] at haddr
  exact groupIndex_inj hid hid' (by omega)

end Place

section Grid

variable {mc : Manycore} {pod : Pod} {origin tile : Coord} {gridDim tgDim : Dimension}

theorem mem_gridGroups {g : TileGroup} : g ∈ gridGroups mc pod gridDim tgDim ↔
    ∃ id, InRect ⟨0, 0⟩ gridDim id ∧
      tileGroupInit mc pod pod.numGrids id gridDim tgDim pod.kernels.length = g := by
  have hwrap := noWrap_zero gridDim
  simp only [gridGroups, List.mem_map, mem_foreachCoordinate hwrap]

theorem gridGroups_distinct (hsize : gridDim.x.toNat * gridDim.y.toNat ≤ 2 ^ 30) :
    ((gridGroups mc pod gridDim tgDim).map fun g => g.finishSignalNpa.epa).Nodup := by
  have hwrap := noWrap_zero gridDim
  rw [gridGroups, List.map_map]
  refine List.Nodup.map_on (fun id hid id' hid' h => ?_) (foreachCoordinate_nodup hwrap)
  rw [mem_foreachCoordinate hwrap] at hid hid'
  exact getFinishSignalAddr_inj hid hid' hsize h

theorem finishSignals_iff (hx : mc.config.hostInterface.x.toNat < 2 ^ 7)
    (hy : mc.config.hostInterface.y.toNat < 2 ^ 7)
    (hsize : gridDim.x.toNat * gridDim.y.toNat ≤ 2 ^ 30) :
    FinishSignals mc origin tile (gridGroups mc pod gridDim tgDim) ↔
      gridDim.x.toNat * gridDim.y.toNat ≤ 1024 ∧
      ∀ g ∈ gridGroups mc pod gridDim tgDim,
        defaultNpaIsDram mc g.finishSignalNpa tile = false := by
  have hone : ∀ g ∈ gridGroups mc pod gridDim tgDim, Signalled mc origin tile g ↔
      defaultNpaIsDram mc g.finishSignalNpa tile = false ∧
      g.finishSignalNpa.epa.toNat < 2 ^ 16 := by
    intro g hg
    obtain ⟨id, -, rfl⟩ := mem_gridGroups.mp hg
    rw [signalled_iff]
    exact hostEva_iff hx hy rfl
  constructor
  · intro h
    refine ⟨not_lt.mp fun hlarge => ?_, fun g hg => ((hone g hg).mp (h.signalled g hg)).1⟩
    -- the tile group after the first 1024 does not fit in the field
    obtain ⟨id, hid, hindex⟩ := exists_groupIndex hlarge
    have hg := (@mem_gridGroups mc pod gridDim tgDim _).mpr ⟨id, hid, rfl⟩
    have hfits := ((hone _ hg).mp (h.signalled _ hg)).2
    have haddr := getFinishSignalAddr_toNat hid hsize
    rw [hindex] at haddr
    have hfits : (getFinishSignalAddr id gridDim).toNat < 2 ^ 16 := hfits
    omega
  · rintro ⟨hsmall, hdram⟩
    refine ⟨fun g hg => (hone g hg).mpr ⟨hdram g hg, ?_⟩, gridGroups_distinct hsize⟩
    obtain ⟨id, hid, rfl⟩ := mem_gridGroups.mp hg
    have hlt := groupIndex_lt hid
    have haddr := getFinishSignalAddr_toNat hid hsize
    show (getFinishSignalAddr id gridDim).toNat < 2 ^ 16
    omega

end Grid

def Doubled (pod : Pod) : Prop := ∃ k ≤ 30, pod.tileGroupCapacity.toNat = 2 ^ k

section Runs

variable {mc : Manycore} {pod pod' : Pod} {host : Host} {gridDim tgDim : Dimension}
  {name : String} {argv : List UInt32}

theorem growTable_doubled {room : Except Errno Unit} (h : growTable room pod = .ok pod')
    (hd : Doubled pod) : Doubled pod' := by
  obtain ⟨k, hk, hcap⟩ := hd
  unfold growTable at h
  split at h
  · split at h
    · cases h
    · next hlt =>
      rw [bind_eq_ok] at h
      obtain ⟨u, -, h⟩ := h
      cases h
      rw [not_le, hcap, ← pow_succ] at hlt
      refine ⟨k + 1, Nat.lt_succ_iff.mp ((Nat.pow_lt_pow_iff_right Nat.one_lt_two).mp hlt), ?_⟩
      rw [pow_succ, ← hcap]
      exact toNat_double (by rw [hcap, ← pow_succ]; exact hlt)
  · cases h
    exact ⟨k, hk, hcap⟩

theorem tileGroupKernelEnqueueChecked_doubled {gridId : UInt8} {tgId : Coord} {kernel : ℕ}
    (h : tileGroupKernelEnqueueChecked mc host pod gridId tgId gridDim tgDim kernel = .ok pod')
    (hd : Doubled pod) : Doubled pod' := by
  unfold tileGroupKernelEnqueueChecked at h
  simp only [bind_eq_ok] at h
  obtain ⟨grown, hgrow, u, -, stored, hstore, h⟩ := h
  cases h
  have hgrown := growTable_doubled hgrow hd
  unfold storeTileGroup at hstore
  split at hstore
  · cases hstore
    exact hgrown
  · cases hstore

theorem kernelEnqueueChecked_doubled
    (h : kernelEnqueueChecked mc host pod gridDim tgDim name argv = .ok pod')
    (hd : Doubled pod) : Doubled pod' := by
  unfold kernelEnqueueChecked at h
  simp only [bind_eq_ok] at h
  obtain ⟨u, -, grown, hfold, h⟩ := h
  cases h
  have hkept := Fallible.foldlM_ok (R := fun p q => Doubled p → Doubled q)
    (Q := fun _ _ => True) (fun _ h => h) (fun _ _ _ h h' hp => h' (h hp))
    (fun _ _ _ _ _ => trivial)
    (fun p q c _ hstep => ⟨tileGroupKernelEnqueueChecked_doubled hstep, trivial⟩) hfold
  exact hkept.1 hd

theorem reachable_doubled {s : State} (h : Transition.Reachable (system mc) s) :
    Doubled s.pod := by
  refine @Transition.Reachable.invariant _ _ (system mc) (fun s => Doubled s.pod) ?_ ?_ s h
  · rintro s ⟨pod, rfl⟩
    exact ⟨0, Nat.zero_le _, rfl⟩
  · intro s e t hd he
    have he : EnqueueTable.next mc s e = some t := he
    cases e with
    | enqueue host gridDim tgDim name argv =>
      simp only [EnqueueTable.next] at he
      split at he
      · cases he
      · next pod hpod =>
        cases he
        exact kernelEnqueueChecked_doubled hpod hd
    | tryLaunch answers =>
      cases he
      rw [Doubled, (tryLaunch_sameTable answers s.pod).capacity]
      exact hd
    | finish src epa =>
      cases he
      rw [Doubled, (finish_sameTable mc src epa).capacity]
      exact hd

theorem enqueued_le {s : State} (h : Transition.Reachable (system mc) s)
    (hok : kernelEnqueueChecked mc host s.pod gridDim tgDim name argv = .ok pod') :
    gridDim.x.toNat * gridDim.y.toNat ≤ 2 ^ 30 := by
  have hnew := kernelEnqueueChecked_appended (reachable_counted h).fits hok
  obtain ⟨k, hk, hcap⟩ := kernelEnqueueChecked_doubled hok (reachable_doubled h)
  have hpow : 2 ^ k ≤ 2 ^ 30 := Nat.pow_le_pow_right (by decide) hk
  have hlen := congrArg List.length hnew.groups
  rw [List.length_append, hnew.count] at hlen
  have hroom := hnew.room
  omega

def addedGroups (pod pod' : Pod) : List TileGroup := pod'.tileGroups.drop pod.tileGroups.length

theorem addedGroups_eq {s : State} (h : Transition.Reachable (system mc) s)
    (hok : kernelEnqueueChecked mc host s.pod gridDim tgDim name argv = .ok pod') :
    addedGroups s.pod pod' = gridGroups mc s.pod gridDim tgDim := by
  have hnew := kernelEnqueueChecked_appended (reachable_counted h).fits hok
  rw [addedGroups, hnew.groups, List.drop_left]

end Runs

/-- The finish signals of a grid reach the host exactly where the grid has at most 1024 tile groups
and the host is not taken for a bank of memory. -/
theorem finish_signal_iff (mc : Manycore) (hx : mc.config.hostInterface.x < 128)
    (hy : mc.config.hostInterface.y < 128) {s : State}
    (h : Transition.Reachable (system mc) s) {host : Host} {gridDim tgDim : Dimension}
    {name : String} {argv : List UInt32} {pod' : Pod}
    (hok : kernelEnqueueChecked mc host s.pod gridDim tgDim name argv = .ok pod')
    (origin tile : Coord) :
    FinishSignals mc origin tile (addedGroups s.pod pod') ↔
      gridDim.x.toNat * gridDim.y.toNat ≤ 1024 ∧
      ∀ g ∈ addedGroups s.pod pod', defaultNpaIsDram mc g.finishSignalNpa tile = false := by
  rw [addedGroups_eq h hok]
  exact finishSignals_iff (UInt32.lt_iff_toNat_lt.mp hx) (UInt32.lt_iff_toNat_lt.mp hy)
    (enqueued_le h hok)

theorem finish_signal_iff_x16y8 :
    let mc : Manycore := ⟨({} : Machine).config, true⟩
    ∃ s pod', Transition.Reachable (system mc) s ∧
      kernelEnqueueChecked mc ampleHost s.pod ⟨2, 2⟩ ⟨1, 1⟩ "main" [] = .ok pod' ∧
      (addedGroups s.pod pod').length = 4 ∧
      FinishSignals mc ⟨16, 8⟩ ⟨17, 8⟩ (addedGroups s.pod pod') := by
  intro mc
  let s : State := ⟨tileGroupsInit smallPod, []⟩
  have hreach : Transition.Reachable (system mc) s := .initial ⟨smallPod, rfl⟩
  have hok : kernelEnqueueChecked mc ampleHost s.pod ⟨2, 2⟩ ⟨1, 1⟩ "main" [] =
    .ok (kernelEnqueue mc s.pod ⟨2, 2⟩ ⟨1, 1⟩ "main" []) := rfl
  refine ⟨s, _, hreach, hok, by decide, ?_⟩
  exact (finish_signal_iff mc (by decide) (by decide) hreach hok ⟨16, 8⟩ ⟨17, 8⟩).mpr
    ⟨by decide, by decide⟩

/-- The address of tile group 1024 carries into the host's column: the signal goes to column 17. -/
theorem finish_signal_fails :
    let mc : Manycore := ⟨({} : Machine).config, true⟩
    ∃ s pod' g eva, Transition.Reachable (system mc) s ∧
      kernelEnqueueChecked mc ampleHost s.pod ⟨1025, 1⟩ ⟨1, 1⟩ "main" [] = .ok pod' ∧
      g ∈ addedGroups s.pod pod' ∧ g.finishSignalNpa = ⟨16, 0, 0x10000⟩ ∧
      ("cuda_finish_signal_addr", eva) ∈ (tileSetRuntimeSymbols mc (fun _ _ => .ok ())
        (originEvaMapInit ⟨16, 8⟩) ⟨17, 8⟩ 0 0 g.finishSignalNpa 0).2 ∧
      field eva defaultGlobalXLogsz defaultGlobalXBitidx = 17 ∧
      eva &&& (lowMask globalEpaLogsz).toUInt32 = 0 ∧
      ¬ FinishSignals mc ⟨16, 8⟩ ⟨17, 8⟩ (addedGroups s.pod pod') := by
  intro mc
  let s : State := ⟨tileGroupsInit smallPod, []⟩
  have hreach : Transition.Reachable (system mc) s := .initial ⟨smallPod, rfl⟩
  obtain ⟨pod', hok⟩ := @exists_kernelEnqueueChecked mc ampleHost s.pod ⟨1025, 1⟩ ⟨1, 1⟩ "main" []
    ⟨rfl, fun _ => rfl, fun _ => rfl⟩ (reachable_counted hreach).fits (by decide)
  have hadded := addedGroups_eq hreach hok
  refine ⟨s, pod', tileGroupInit mc s.pod s.pod.numGrids ⟨1024, 0⟩ ⟨1025, 1⟩ ⟨1, 1⟩
    s.pod.kernels.length, 0x40110000, hreach, hok, ?_, by decide, by decide, by decide, by decide,
    fun h => ?_⟩
  · rw [hadded]
    exact mem_gridGroups.mpr ⟨⟨1024, 0⟩, by decide, rfl⟩
  · rw [hadded, finishSignals_iff (by decide) (by decide) (by decide)] at h
    exact absurd h.1 (by decide)

end FinishSignal
