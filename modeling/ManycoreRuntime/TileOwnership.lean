import ManycoreRuntime.TileGroups
import ManycoreRuntime.Machines

/-! # Ownership of tiles

The tile groups that are allocated or launched own disjoint rectangles of the mesh, and the
array of tiles records their owners. -/
namespace TileOwnership

open Fallible (bind_eq_ok)
open Coordinate
open Configuration (Config Manycore)
open PodMalloc (Program)
open PodMesh TileGroups
open Machines (Machine)

/-- A tile group owns its rectangle from its allocation to its exit. -/
def Owns (g : TileGroup) : Prop := g.status = .allocated ∨ g.status = .launched

instance (g : TileGroup) : Decidable (Owns g) := inferInstanceAs (Decidable (_ = _ ∨ _ = _))

def Covers (g : TileGroup) (c : Coord) : Prop := InRect g.origin g.dim c

instance (g : TileGroup) (c : Coord) : Decidable (Covers g c) :=
  inferInstanceAs (Decidable (InRect _ _ _))

structure Within (m : Mesh) (origin dim : Coord) : Prop where
  left : m.origin.x.toNat ≤ origin.x.toNat
  right : origin.x.toNat + dim.x.toNat ≤ m.origin.x.toNat + m.dim.x.toNat
  top : m.origin.y.toNat ≤ origin.y.toNat
  bottom : origin.y.toNat + dim.y.toNat ≤ m.origin.y.toNat + m.dim.y.toNat

/-- The owners' rectangles are disjoint, and their tiles are busy. -/
structure Exclusive (m : Mesh) (groups : List TileGroup) : Prop where
  wellFormed : WellFormed m
  inside : ∀ (i : ℕ) g, groups[i]? = some g → Owns g → Within m g.origin g.dim
  disjoint : ∀ (i j : ℕ) g g', groups[i]? = some g → groups[j]? = some g' → i ≠ j →
    Owns g → Owns g' → ∀ c, Covers g c → ¬ Covers g' c
  held : ∀ c t (i : ℕ) g, m.tileAt c = some t → groups[i]? = some g → Owns g → Covers g c →
    t.status = .busy

/-- Only the owners' tiles are busy, and they name their owner. -/
structure Recorded (m : Mesh) (groups : List TileGroup) : Prop where
  owner : ∀ c t, InMesh m c → m.tileAt c = some t → t.status = .busy →
    ∃ (i : ℕ) (g : TileGroup), groups[i]? = some g ∧ Owns g ∧ Covers g c
  tag : ∀ c t (i : ℕ) g, m.tileAt c = some t → groups[i]? = some g → Owns g → Covers g c →
    t.origin = g.origin ∧ t.tileGroupId = g.id

section Rectangles

variable {m : Mesh} {origin dim : Coord}

theorem Within.noWrap (h : Within m origin dim) (hm : WellFormed m) : NoWrap origin dim := by
  have hx := hm.noWrap.x
  have hy := hm.noWrap.y
  have hr := h.right
  have hb := h.bottom
  exact ⟨by omega, by omega⟩

theorem Within.inMesh (h : Within m origin dim) {c : Coord} (hc : InRect origin dim c) :
    InMesh m c := by
  obtain ⟨h1, h2, h3, h4⟩ := h
  obtain ⟨k1, k2, k3, k4⟩ := hc
  exact ⟨by omega, by omega, by omega, by omega⟩

theorem Within.updateTiles_tileAt (h : Within m origin dim) (hm : WellFormed m)
    (f : Tile → Tile) {c : Coord} (hc : InMesh m c) :
    (m.updateTiles (fun _ => f) (foreachCoordinate origin dim)).tileAt c =
      if InRect origin dim c then (m.tileAt c).map f else m.tileAt c := by
  have hn := h.noWrap hm
  rw [PodMesh.updateTiles_tileAt hm _
    (fun e he => h.inMesh ((mem_foreachCoordinate hn e).mp he)) (foreachCoordinate_nodup hn) hc]
  simp only [mem_foreachCoordinate hn]

theorem Within.of_dim {m' : Mesh} (h : Within m origin dim) (hd : m'.dim = m.dim)
    (ho : m'.origin = m.origin) : Within m' origin dim := by
  obtain ⟨h1, h2, h3, h4⟩ := h
  exact ⟨by rw [ho]; exact h1, by rw [hd, ho]; exact h2, by rw [ho]; exact h3,
    by rw [hd, ho]; exact h4⟩

end Rectangles

section Changes

variable {m : Mesh} {groups : List TileGroup}

theorem getElem?_set_cases {α : Type} {l : List α} {i j : ℕ} {a b : α}
    (h : (l.set i b)[j]? = some a) : (j = i ∧ a = b) ∨ (j ≠ i ∧ l[j]? = some a) := by
  rw [List.getElem?_set] at h
  by_cases hij : i = j
  · rw [if_pos hij] at h
    split at h
    · cases h
      exact Or.inl ⟨hij.symm, rfl⟩
    · cases h
  · rw [if_neg hij] at h
    exact Or.inr ⟨fun he => hij he.symm, h⟩

theorem getElem?_set_of_some {i : ℕ} {g : TileGroup} (g' : TileGroup) (h : groups[i]? = some g) :
    (groups.set i g')[i]? = some g' := by
  rw [List.getElem?_set_self]
  exact (List.getElem?_eq_some_iff.mp h).1

theorem Exclusive.inMesh (h : Exclusive m groups) {i : ℕ} {g : TileGroup}
    (hi : groups[i]? = some g) (ho : Owns g) {c : Coord} (hc : Covers g c) : InMesh m c :=
  (h.inside i g hi ho).inMesh hc

theorem Exclusive.not_covers_free (h : Exclusive m groups) {c : Coord}
    (hfree : ∃ t, m.tileAt c = some t ∧ t.status = .free) {i : ℕ} {g : TileGroup}
    (hi : groups[i]? = some g) (ho : Owns g) : ¬ Covers g c := by
  intro hc
  obtain ⟨t, ht, hf⟩ := hfree
  have hb := h.held c t i g ht hi ho hc
  rw [hf] at hb
  cases hb

theorem Exclusive.drop (h : Exclusive m groups) {m' : Mesh} (hm : WellFormed m')
    (hdim : m'.dim = m.dim ∧ m'.origin = m.origin) {i : ℕ} {g' : TileGroup} (hno : ¬ Owns g')
    (hbusy : ∀ c t (j : ℕ) k, m'.tileAt c = some t → j ≠ i → groups[j]? = some k → Owns k →
      Covers k c → t.status = .busy) : Exclusive m' (groups.set i g') := by
  refine ⟨hm, ?_, ?_, ?_⟩
  · intro j k hj hk
    rcases getElem?_set_cases hj with ⟨-, rfl⟩ | ⟨-, hj⟩
    · exact absurd hk hno
    · exact (h.inside j k hj hk).of_dim hdim.1 hdim.2
  · intro j l k k' hj hl hne hk hk'
    rcases getElem?_set_cases hj with ⟨-, rfl⟩ | ⟨-, hj⟩
    · exact absurd hk hno
    · rcases getElem?_set_cases hl with ⟨-, rfl⟩ | ⟨-, hl⟩
      · exact absurd hk' hno
      · exact h.disjoint j l k k' hj hl hne hk hk'
  · intro c t j k ht hj hk hck
    rcases getElem?_set_cases hj with ⟨-, rfl⟩ | ⟨hne, hj⟩
    · exact absurd hk hno
    · exact hbusy c t j k ht hne hj hk hck

theorem Exclusive.mark (h : Exclusive m groups) {i : ℕ} (g' : TileGroup)
    (hno : ¬ Owns g') (id origin : Coord) {cs : List Coord}
    (hcs : ∀ c ∈ cs, InMesh m c) (hnd : cs.Nodup) :
    Exclusive (m.updateTiles (fun _ => claimTile id origin) cs) (groups.set i g') := by
  refine h.drop (updateTiles_wellFormed h.wellFormed _ _) (updateTiles_dim m _ cs) hno ?_
  intro c t j k ht _ hj hk hck
  rw [updateTiles_tileAt h.wellFormed _ hcs hnd (h.inMesh hj hk hck)] at ht
  split at ht
  · obtain ⟨t₀, -, rfl⟩ := Option.map_eq_some_iff.mp ht
    rfl
  · exact h.held c t j k ht hj hk hck

section Claim

variable {i : ℕ} {g : TileGroup} (g' : TileGroup)

def claimed (m : Mesh) (g' : TileGroup) : Mesh :=
  m.updateTiles (fun _ => claimTile g'.id g'.origin) (foreachCoordinate g'.origin g'.dim)

theorem claimed_tileAt (h : Exclusive m groups) (hw : Within m g'.origin g'.dim) {c : Coord}
    (hc : InMesh m c) : (claimed m g').tileAt c =
      if Covers g' c then (m.tileAt c).map (claimTile g'.id g'.origin) else m.tileAt c :=
  hw.updateTiles_tileAt h.wellFormed _ hc

/-- A free rectangle of the mesh is claimed for a tile group that owned nothing. -/
theorem Exclusive.claim (h : Exclusive m groups) (ho : Owns g')
    (hw : Within m g'.origin g'.dim)
    (hfree : ∀ c, Covers g' c → ∃ t, m.tileAt c = some t ∧ t.status = .free) :
    Exclusive (claimed m g') (groups.set i g') := by
  obtain ⟨hd, hor⟩ := updateTiles_dim m (fun _ => claimTile g'.id g'.origin)
    (foreachCoordinate g'.origin g'.dim)
  refine ⟨updateTiles_wellFormed h.wellFormed _ _, ?_, ?_, ?_⟩
  · intro j k hj hk
    rcases getElem?_set_cases hj with ⟨-, rfl⟩ | ⟨-, hj⟩
    · exact hw.of_dim hd hor
    · exact (h.inside j k hj hk).of_dim hd hor
  · intro j l k k' hj hl hne hk hk' c hc hc'
    rcases getElem?_set_cases hj with ⟨hji, hkg⟩ | ⟨-, hj'⟩
    · rcases getElem?_set_cases hl with ⟨hli, -⟩ | ⟨-, hl'⟩
      · exact hne (hji.trans hli.symm)
      · exact h.not_covers_free (hfree c (hkg ▸ hc)) hl' hk' hc'
    · rcases getElem?_set_cases hl with ⟨-, hkg⟩ | ⟨-, hl'⟩
      · exact h.not_covers_free (hfree c (hkg ▸ hc')) hj' hk hc
      · exact h.disjoint j l k k' hj' hl' hne hk hk' c hc hc'
  · intro c t j k ht hj hk hck
    rcases getElem?_set_cases hj with ⟨-, rfl⟩ | ⟨-, hj⟩
    · rw [claimed_tileAt _ h hw (hw.inMesh hck), if_pos hck] at ht
      obtain ⟨t₀, -, rfl⟩ := Option.map_eq_some_iff.mp ht
      rfl
    · have hcov : ¬ Covers g' c :=
        fun hc' => h.not_covers_free (hfree c hc') hj hk hck
      rw [claimed_tileAt _ h hw (h.inMesh hj hk hck), if_neg hcov] at ht
      exact h.held c t j k ht hj hk hck

theorem Recorded.claim (hr : Recorded m groups) (h : Exclusive m groups)
    (hi : groups[i]? = some g) (hno : ¬ Owns g) (ho : Owns g')
    (hw : Within m g'.origin g'.dim)
    (hfree : ∀ c, Covers g' c → ∃ t, m.tileAt c = some t ∧ t.status = .free) :
    Recorded (claimed m g') (groups.set i g') := by
  obtain ⟨hd, hor⟩ := updateTiles_dim m (fun _ => claimTile g'.id g'.origin)
    (foreachCoordinate g'.origin g'.dim)
  constructor
  · intro c t hc ht hb
    rw [InMesh, claimed, hd, hor] at hc
    rw [claimed_tileAt _ h hw hc] at ht
    by_cases hcov : Covers g' c
    · exact ⟨i, g', getElem?_set_of_some g' hi, ho, hcov⟩
    · rw [if_neg hcov] at ht
      obtain ⟨j, k, hj, hk, hck⟩ := hr.owner c t hc ht hb
      have hne : i ≠ j := by
        rintro rfl
        rw [hi] at hj
        cases hj
        exact hno hk
      exact ⟨j, k, by rw [List.getElem?_set_ne hne]; exact hj, hk, hck⟩
  · intro c t j k ht hj hk hck
    rcases getElem?_set_cases hj with ⟨-, rfl⟩ | ⟨-, hj⟩
    · rw [claimed_tileAt _ h hw (hw.inMesh hck), if_pos hck] at ht
      obtain ⟨t₀, -, rfl⟩ := Option.map_eq_some_iff.mp ht
      exact ⟨rfl, rfl⟩
    · have hcov : ¬ Covers g' c :=
        fun hc' => h.not_covers_free (hfree c hc') hj hk hck
      rw [claimed_tileAt _ h hw (h.inMesh hj hk hck), if_neg hcov] at ht
      exact hr.tag c t j k ht hj hk hck

end Claim

section GiveBack

variable {i : ℕ} {g g' : TileGroup}

theorem deallocateTiles_tileAt (h : Exclusive m groups) (hi : groups[i]? = some g) (ho : Owns g)
    {c : Coord} (hc : InMesh m c) : (deallocateTiles m g).tileAt c =
      if Covers g c then (m.tileAt c).map (freeTile m.origin) else m.tileAt c :=
  (h.inside i g hi ho).updateTiles_tileAt h.wellFormed _ hc

theorem Exclusive.giveBack (h : Exclusive m groups) (hi : groups[i]? = some g) (ho : Owns g)
    (hno : ¬ Owns g') : Exclusive (deallocateTiles m g) (groups.set i g') := by
  have hm : WellFormed (deallocateTiles m g) := updateTiles_wellFormed h.wellFormed _ _
  refine h.drop hm (updateTiles_dim m _ _) hno ?_
  intro c t j k ht hne hj hk hck
  have hcov := h.disjoint j i k g hj hi hne hk ho c hck
  rw [deallocateTiles_tileAt h hi ho (h.inMesh hj hk hck), if_neg hcov] at ht
  exact h.held c t j k ht hj hk hck

theorem Recorded.giveBack (hr : Recorded m groups) (h : Exclusive m groups)
    (hi : groups[i]? = some g) (ho : Owns g) (hno : ¬ Owns g') :
    Recorded (deallocateTiles m g) (groups.set i g') := by
  obtain ⟨hd, hor⟩ := updateTiles_dim m (fun _ => freeTile m.origin)
    (foreachCoordinate g.origin g.dim)
  constructor
  · intro c t hc ht hb
    rw [InMesh, deallocateTiles, hd, hor] at hc
    rw [deallocateTiles_tileAt h hi ho hc] at ht
    by_cases hcov : Covers g c
    · rw [if_pos hcov] at ht
      obtain ⟨t₀, -, rfl⟩ := Option.map_eq_some_iff.mp ht
      cases hb
    · rw [if_neg hcov] at ht
      obtain ⟨j, k, hj, hk, hck⟩ := hr.owner c t hc ht hb
      have hne : i ≠ j := by
        rintro rfl
        rw [hi] at hj
        cases hj
        exact hcov hck
      exact ⟨j, k, by rw [List.getElem?_set_ne hne]; exact hj, hk, hck⟩
  · intro c t j k ht hj hk hck
    rcases getElem?_set_cases hj with ⟨-, rfl⟩ | ⟨hne, hj⟩
    · exact absurd hk hno
    · have hcov := h.disjoint j i k g hj hi hne hk ho c hck
      rw [deallocateTiles_tileAt h hi ho (h.inMesh hj hk hck), if_neg hcov] at ht
      exact hr.tag c t j k ht hj hk hck

end GiveBack

section Append

variable {new : List TileGroup}

theorem owner_append (hnew : ∀ g ∈ new, ¬ Owns g) {i : ℕ} {g : TileGroup} (ho : Owns g) :
    (groups ++ new)[i]? = some g ↔ groups[i]? = some g := by
  rw [List.getElem?_append]
  split
  · exact Iff.rfl
  · next hle =>
    constructor
    · intro hi
      exact absurd ho (hnew g (List.mem_of_getElem? hi))
    · intro hi
      exact absurd (List.getElem?_eq_some_iff.mp hi).1 hle

theorem Exclusive.append (h : Exclusive m groups) (hnew : ∀ g ∈ new, ¬ Owns g) :
    Exclusive m (groups ++ new) := by
  refine ⟨h.wellFormed, ?_, ?_, ?_⟩
  · intro i g hi ho
    exact h.inside i g ((owner_append hnew ho).mp hi) ho
  · intro i j g g' hi hj hne ho ho'
    exact h.disjoint i j g g' ((owner_append hnew ho).mp hi) ((owner_append hnew ho').mp hj) hne
      ho ho'
  · intro c t i g ht hi ho
    exact h.held c t i g ht ((owner_append hnew ho).mp hi) ho

theorem Recorded.append (h : Recorded m groups) (hnew : ∀ g ∈ new, ¬ Owns g) :
    Recorded m (groups ++ new) := by
  constructor
  · intro c t hc ht hb
    obtain ⟨i, g, hi, ho, hg⟩ := h.owner c t hc ht hb
    exact ⟨i, g, (owner_append hnew ho).mpr hi, ho, hg⟩
  · intro c t i g ht hi ho
    exact h.tag c t i g ht ((owner_append hnew ho).mp hi) ho

end Append

end Changes

section Operations

variable {m : Mesh} {pod : Pod} {i : ℕ} {tg : TileGroup}

theorem subSafe_eq_ok {a b c : Coord} (h : subSafe a b = .ok c) :
    (b.x.toNat ≤ a.x.toNat ∧ c.x.toNat = a.x.toNat - b.x.toNat) ∧
    (b.y.toNat ≤ a.y.toNat ∧ c.y.toNat = a.y.toNat - b.y.toNat) := by
  unfold subSafe at h
  split at h
  · cases h
  · next hle =>
    cases h
    rw [not_or, UInt32.not_lt, UInt32.not_lt] at hle
    exact ⟨⟨UInt32.le_iff_toNat_le.mp hle.1, UInt32.toNat_sub_of_le _ _ hle.1⟩,
      ⟨UInt32.le_iff_toNat_le.mp hle.2, UInt32.toNat_sub_of_le _ _ hle.2⟩⟩

theorem tilesAreFree_iff (hm : WellFormed m) {origin dim : Coord} (hw : Within m origin dim) :
    tilesAreFree m origin dim = true ↔
      ∀ c, InRect origin dim c → ∃ t, m.tileAt c = some t ∧ t.status = .free := by
  simp only [tilesAreFree, List.all_eq_true, mem_foreachCoordinate (hw.noWrap hm),
    Option.any_eq_true, decide_eq_true_eq]

theorem findOrigin_some (hm : WellFormed m) {origin dim : Coord}
    (h : findOrigin m dim = .ok (some origin)) :
    Within m origin dim ∧
      ∀ c, InRect origin dim c → ∃ t, m.tileAt c = some t ∧ t.status = .free := by
  unfold findOrigin at h
  rw [bind_eq_ok] at h
  obtain ⟨b, hb, h⟩ := h
  obtain ⟨⟨hx, hbx⟩, hy, hby⟩ := subSafe_eq_ok hb
  simp only [pure, Except.pure, Except.ok.injEq] at h
  obtain ⟨-, h1, h2, h3, h4⟩ := inRect_of_mem (List.mem_of_find?_eq_some h)
  have hfree := List.find?_some h
  simp only [add, UInt32.toNat_add, UInt32.reduceToNat] at h2 h4
  have hw : Within m origin dim := ⟨h1, by omega, h3, by omega⟩
  exact ⟨hw, (tilesAreFree_iff hm hw).mp hfree⟩

theorem claimTiles_cases (setConfigSymbols : Coord → Except Errno Unit) (id origin : Coord)
    (cs : List Coord) :
    claimTiles setConfigSymbols id origin m cs =
      (.ok (), m.updateTiles (fun _ => claimTile id origin) cs) ∨
    ∃ e marked, marked.Sublist cs ∧ (∃ c, setConfigSymbols c = .error e) ∧
      claimTiles setConfigSymbols id origin m cs =
        (.error e, m.updateTiles (fun _ => claimTile id origin) marked) := by
  induction cs generalizing m with
  | nil => exact Or.inl rfl
  | cons c rest ih =>
    cases hc : setConfigSymbols c with
    | error e =>
      refine Or.inr ⟨e, [c], List.singleton_sublist.mpr List.mem_cons_self, ⟨c, hc⟩, ?_⟩
      simp only [claimTiles, hc]
      rfl
    | ok u =>
      simp only [claimTiles, hc]
      rcases @ih (m.modifyTile c (claimTile id origin)) with hok | ⟨e, marked, hsub, he, hk⟩
      · exact Or.inl hok
      · exact Or.inr ⟨e, c :: marked, hsub.cons_cons c, he, hk⟩

/-- An allocation claims a free rectangle, or it fails and has marked tiles only if a write
failed. -/
theorem allocateTiles_cases (hm : WellFormed m) (setConfigSymbols : Coord → Except Errno Unit)
    (tg : TileGroup) :
    (∃ e origin marked, (∀ c ∈ marked, InMesh m c) ∧ marked.Nodup ∧
      ((∀ c, setConfigSymbols c = .ok ()) → marked = [] ∧ origin = tg.origin) ∧
      allocateTiles setConfigSymbols m tg =
        (.error e, m.updateTiles (fun _ => claimTile tg.id origin) marked,
          { tg with origin := origin })) ∨
    ∃ origin, Within m origin tg.dim ∧
      (∀ c, InRect origin tg.dim c → ∃ t, m.tileAt c = some t ∧ t.status = .free) ∧
      allocateTiles setConfigSymbols m tg = (.ok (),
        m.updateTiles (fun _ => claimTile tg.id origin) (foreachCoordinate origin tg.dim),
        { tg with origin := origin, status := .allocated }) := by
  cases hf : findOrigin m tg.dim with
  | error e =>
    refine Or.inl ⟨e, tg.origin, [], fun c hc => (List.not_mem_nil hc).elim, List.nodup_nil,
      fun _ => ⟨rfl, rfl⟩, ?_⟩
    simp only [allocateTiles, hf]
    rfl
  | ok found =>
    cases found with
    | none =>
      refine Or.inl ⟨.notfound, tg.origin, [], fun c hc => (List.not_mem_nil hc).elim,
        List.nodup_nil, fun _ => ⟨rfl, rfl⟩, ?_⟩
      simp only [allocateTiles, hf]
      rfl
    | some origin =>
      obtain ⟨hw, hfree⟩ := findOrigin_some hm hf
      have hn := hw.noWrap hm
      rcases claimTiles_cases (m := m) setConfigSymbols tg.id origin
        (foreachCoordinate origin tg.dim) with hok | ⟨e, marked, hsub, ⟨c, hc⟩, hk⟩
      · refine Or.inr ⟨origin, hw, hfree, ?_⟩
        simp only [allocateTiles, hf, hok]
      · refine Or.inl ⟨e, origin, marked, ?_, hsub.nodup (foreachCoordinate_nodup hn), ?_, ?_⟩
        · intro c hmem
          exact hw.inMesh ((mem_foreachCoordinate hn c).mp (hsub.subset hmem))
        · intro hall
          rw [hall c] at hc
          cases hc
        · simp only [allocateTiles, hf, hk]

theorem launch_cases (answers : Answers) (pod : Pod) (tg : TileGroup) :
    ∃ program, program.isSome = pod.program.isSome ∧
      ((∃ e a, launch answers pod tg = (.error e, program, { tg with argvEva := a })) ∨
      ∃ a, launch answers pod tg =
        (.ok (), program, { tg with argvEva := a, status := .launched })) := by
  cases hk : tg.kernel.bind fun k => pod.kernels[k]? with
  | none =>
    refine ⟨pod.program, rfl, Or.inl ⟨.undefined, tg.argvEva, ?_⟩⟩
    simp only [launch, hk]
  | some kernel =>
    cases hp : pod.program with
    | none =>
      refine ⟨none, rfl, Or.inl ⟨.invalid, tg.argvEva, ?_⟩⟩
      simp only [launch, hk, hp]
    | some program =>
      refine ⟨some (program.malloc (4 * UInt32.ofNat kernel.argv.length)).2, rfl, ?_⟩
      simp only [launch, hk, hp, Program.malloc_eq]
      split
      · next e _ => exact Or.inl ⟨e, _, rfl⟩
      · exact Or.inr ⟨_, rfl⟩

theorem allocateTiles_shape (setConfigSymbols : Coord → Except Errno Unit) (m : Mesh)
    (tg : TileGroup) : ∃ m' origin,
      (∃ e, allocateTiles setConfigSymbols m tg = (.error e, m', { tg with origin := origin })) ∨
      allocateTiles setConfigSymbols m tg =
        (.ok (), m', { tg with origin := origin, status := .allocated }) := by
  simp only [allocateTiles]
  split
  · exact ⟨m, tg.origin, Or.inl ⟨_, rfl⟩⟩
  · exact ⟨m, tg.origin, Or.inl ⟨_, rfl⟩⟩
  · next origin _ =>
    split
    · next m' _ => exact ⟨m', origin, Or.inl ⟨_, rfl⟩⟩
    · next m' _ => exact ⟨m', origin, Or.inr rfl⟩

theorem allocateAndLaunch_cases (hm : WellFormed pod.mesh) (answers : Answers) (i : ℕ)
    (tg : TileGroup) :
    (∃ origin marked, (∀ c ∈ marked, InMesh pod.mesh c) ∧ marked.Nodup ∧
      ((∀ c, answers.setConfigSymbols c = .ok ()) → marked = [] ∧ origin = tg.origin) ∧
      allocateAndLaunch answers pod i tg = (false, .ok (), { pod with
        mesh := pod.mesh.updateTiles (fun _ => claimTile tg.id origin) marked
        tileGroups := pod.tileGroups.set i { tg with origin := origin } })) ∨
    ∃ origin result program a status, Within pod.mesh origin tg.dim ∧
      (∀ c, InRect origin tg.dim c → ∃ t, pod.mesh.tileAt c = some t ∧ t.status = .free) ∧
      program.isSome = pod.program.isSome ∧
      ((result = .ok () ∧ status = .launched) ∨ (∃ e, result = .error e ∧ status = .allocated)) ∧
      allocateAndLaunch answers pod i tg = (true, result, { pod with
        mesh := pod.mesh.updateTiles (fun _ => claimTile tg.id origin)
          (foreachCoordinate origin tg.dim)
        program := program
        tileGroups := pod.tileGroups.set i
          { tg with origin := origin, argvEva := a, status := status } }) := by
  rcases allocateTiles_cases hm answers.setConfigSymbols tg with
    ⟨e, origin, marked, hin, hnd, hset, he⟩ | ⟨origin, hw, hfree, he⟩
  · refine Or.inl ⟨origin, marked, hin, hnd, hset, ?_⟩
    simp only [allocateAndLaunch, he]
  · refine Or.inr ?_
    simp only [allocateAndLaunch, he]
    obtain ⟨program, hp, ⟨e, a, hl⟩ | ⟨a, hl⟩⟩ := launch_cases answers
      { pod with
        mesh := pod.mesh.updateTiles (fun _ => claimTile tg.id origin)
          (foreachCoordinate origin tg.dim) }
      { tg with origin := origin, status := .allocated }
    · refine ⟨origin, .error e, program, a, .allocated, hw, hfree, hp, Or.inr ⟨e, rfl, rfl⟩, ?_⟩
      simp only [hl]
    · refine ⟨origin, .ok (), program, a, .launched, hw, hfree, hp, Or.inl ⟨rfl, rfl⟩, ?_⟩
      simp only [hl]

/-- What holds of a pod, and is kept by every allocation with launch, holds after the loop. -/
theorem tryLaunchFrom_invariant {P : Pod → Prop} {answers : ℕ → Answers}
    (hstep : ∀ pod i tg, pod.tileGroups[i]? = some tg → tg.status = .initialized → P pod →
      P (allocateAndLaunch (answers i) pod i tg).2.2)
    (is : List ℕ) (lastFailed : Dimension) (h : P pod) :
    P (tryLaunchFrom answers is lastFailed pod).2 := by
  induction is generalizing lastFailed pod with
  | nil => exact h
  | cons i rest ih =>
    rw [tryLaunchFrom]
    cases hi : pod.tileGroups[i]? with
    | none => exact h
    | some tg =>
      simp only
      split
      · exact ih lastFailed h
      · next hst =>
        rw [not_not] at hst
        split
        · exact ih lastFailed h
        · have hnext := hstep pod i tg hi hst h
          split
          · next he =>
            rw [he] at hnext
            exact ih tg.dim hnext
          · next he =>
            rw [he] at hnext
            exact hnext
          · next he =>
            rw [he] at hnext
            exact ih lastFailed hnext

structure Enqueued (mc : Manycore) (pod pod' : Pod) (gridDim tgDim : Dimension)
    (new : List TileGroup) : Prop where
  groups : pod'.tileGroups = pod.tileGroups ++ new
  mesh : pod'.mesh = pod.mesh
  podCoord : pod'.podCoord = pod.podCoord
  program : pod'.program = pod.program
  new : ∀ g ∈ new, ∃ tgId gridId kernel,
    g = tileGroupInit mc pod gridId tgId gridDim tgDim kernel

theorem kernelEnqueue_enqueued (mc : Manycore) (pod : Pod) (gridDim tgDim : Dimension)
    (name : String) (argv : List UInt32) :
    ∃ new, Enqueued mc pod (kernelEnqueue mc pod gridDim tgDim name argv) gridDim tgDim new := by
  have hfold : ∀ (cs : List Coord) (p : Pod) (old : List TileGroup),
      Enqueued mc pod p gridDim tgDim old → ∃ new, Enqueued mc pod
        (cs.foldl (fun p tgId =>
          tileGroupKernelEnqueue mc p p.numGrids tgId gridDim tgDim pod.kernels.length) p)
        gridDim tgDim new := by
    intro cs
    induction cs with
    | nil => exact fun p old h => ⟨old, h⟩
    | cons c rest ih =>
      intro p old h
      refine ih _ (old ++ [tileGroupInit mc p p.numGrids c gridDim tgDim pod.kernels.length])
        ⟨?_, h.mesh, h.podCoord, h.program, ?_⟩
      · simp only [tileGroupKernelEnqueue, h.groups, List.append_assoc]
      · intro g hg
        rcases List.mem_append.mp hg with hg | hg
        · exact h.new g hg
        · refine ⟨c, p.numGrids, pod.kernels.length, ?_⟩
          rw [List.mem_singleton.mp hg]
          simp only [tileGroupInit, h.mesh]
  obtain ⟨new, hnew⟩ := hfold (foreachCoordinate ⟨0, 0⟩ gridDim)
    { pod with kernels := pod.kernels ++ [⟨name, argv, 0, false⟩] } []
    ⟨(List.append_nil _).symm, rfl, rfl, rfl, fun g hg => by cases hg⟩
  exact ⟨new, hnew.groups, hnew.mesh, hnew.podCoord, hnew.program, hnew.new⟩

theorem finishes_iff {src : Coord} {epa : UInt32} {tg : TileGroup} :
    finishes src epa tg = true ↔
      tg.status = .launched ∧ tg.origin = src ∧ epa = tg.finishSignalNpa.epa := by
  simp only [finishes, Bool.and_eq_true, decide_eq_true_eq, and_assoc]

theorem finishTileGroup_some {src : Coord} {epa : UInt32} {result : Except Errno Unit}
    {pod' : Pod} (h : finishTileGroup pod src epa = some (i, result, pod'))
    (hp : pod.program.isSome = true) :
    ∃ tg g', pod.tileGroups[i]? = some tg ∧ finishes src epa tg = true ∧ result = .ok () ∧
      g'.status = .finished ∧ g'.dim = ⟨0, 0⟩ ∧ pod'.mesh = deallocateTiles pod.mesh tg ∧
      pod'.tileGroups = pod.tileGroups.set i g' ∧ pod'.podCoord = pod.podCoord ∧
      pod'.program.isSome = true := by
  unfold finishTileGroup at h
  obtain ⟨j, hj, h⟩ := Option.bind_eq_some_iff.mp h
  obtain ⟨tg, htg, h⟩ := Option.map_eq_some_iff.mp h
  obtain ⟨program, hprogram⟩ := Option.isSome_iff_exists.mp hp
  rw [List.findIdx?_eq_some_iff_getElem] at hj
  obtain ⟨hlt, hfin, -⟩ := hj
  have hget : tg = pod.tileGroups[j] := by
    rw [List.getElem?_eq_getElem hlt] at htg
    exact (Option.some.inj htg).symm
  simp only [retire, tileGroupExit, hprogram, Prod.mk.injEq] at h
  obtain ⟨rfl, rfl, rfl⟩ := h
  exact ⟨tg, _, htg, by rw [hget]; exact hfin, rfl, rfl, rfl, rfl, rfl, rfl, rfl⟩

end Operations

inductive Event where
  | enqueue (gridDim tgDim : Dimension) (name : String) (argv : List UInt32)
  | tryLaunch (answers : ℕ → Answers)
  | finish (src : Coord) (epa : UInt32)

def next (mc : Manycore) (pod : Pod) : Event → Pod
  | .enqueue gridDim tgDim name argv => kernelEnqueue mc pod gridDim tgDim name argv
  | .tryLaunch answers => (tryLaunchTileGroups answers pod).2
  | .finish src epa =>
    match finishTileGroup pod src epa with
    | none => pod
    | some (_, _, pod) => pod

structure Initial (mc : Manycore) (pod : Pod) : Prop where
  mesh : ∃ optDim defaultDim, meshInit mc.config pod.podCoord optDim defaultDim = .ok pod.mesh
  tileGroups : pod.tileGroups = []
  program : pod.program.isSome = true

def system (mc : Manycore) : Transition.System Pod Event where
  initial := Initial mc
  step pod e pod' := pod' = next mc pod e

/-- The tiles take their configuration symbols, as they did when the program was loaded. -/
def NoHardwareError (_ : Pod) : Event → Prop
  | .tryLaunch answers => ∀ i c, (answers i).setConfigSymbols c = .ok ()
  | _ => True

structure Inv (pod : Pod) : Prop where
  exclusive : Exclusive pod.mesh pod.tileGroups
  recorded : Recorded pod.mesh pod.tileGroups
  program : pod.program.isSome = true

section Runs

variable {mc : Manycore} {pod : Pod}

theorem initial_exclusive (h : Initial mc pod) : Exclusive pod.mesh pod.tileGroups := by
  obtain ⟨⟨optDim, defaultDim, hm⟩, hg, -⟩ := h
  rw [hg]
  refine ⟨meshInit_wellFormed hm, ?_, ?_, ?_⟩
  · intro i g hi
    cases hi
  · intro i j g g' hi
    cases hi
  · intro c t i g _ hi
    cases hi

theorem initial_recorded (h : Initial mc pod) : Recorded pod.mesh pod.tileGroups := by
  obtain ⟨⟨optDim, defaultDim, hm⟩, hg, -⟩ := h
  rw [hg]
  constructor
  · intro c t hc ht hb
    rw [meshInit_tileAt hm hc] at ht
    cases ht
    cases hb
  · intro c t i g _ hi
    cases hi

theorem not_owns_initialized {g : TileGroup} (h : g.status = .initialized) : ¬ Owns g := by
  unfold Owns
  rw [h]
  decide

theorem not_owns_finished {g : TileGroup} (h : g.status = .finished) : ¬ Owns g := by
  unfold Owns
  rw [h]
  decide

theorem owns_of_result {g : TileGroup} {result : Except Errno Unit}
    (h : (result = .ok () ∧ g.status = .launched) ∨
      (∃ e, result = .error e ∧ g.status = .allocated)) : Owns g := by
  rcases h with ⟨-, hs⟩ | ⟨e, -, hs⟩
  · exact Or.inr hs
  · exact Or.inl hs

theorem set_getElem?_self {groups : List TileGroup} {i : ℕ} {g : TileGroup}
    (h : groups[i]? = some g) : groups.set i g = groups := by
  obtain ⟨hlt, hget⟩ := List.getElem?_eq_some_iff.mp h
  rw [← hget, List.set_getElem_self]

/-- An allocation with launch keeps the owners apart, whatever the hardware answers. -/
theorem allocateAndLaunch_exclusive (answers : Answers) {i : ℕ} {tg : TileGroup}
    (hst : tg.status = .initialized) (h : Exclusive pod.mesh pod.tileGroups) :
    Exclusive (allocateAndLaunch answers pod i tg).2.2.mesh
      (allocateAndLaunch answers pod i tg).2.2.tileGroups := by
  rcases allocateAndLaunch_cases h.wellFormed answers i tg with
    ⟨origin, marked, hin, hnd, -, he⟩ |
    ⟨origin, result, program, a, status, hw, hfree, -, hres, he⟩
  · rw [he]
    exact h.mark { tg with origin := origin } (not_owns_initialized hst) _ _ hin hnd
  · rw [he]
    exact h.claim { tg with origin := origin, argvEva := a, status := status }
      (owns_of_result hres) hw hfree

theorem allocateAndLaunch_inv {answers : Answers} (hset : ∀ c, answers.setConfigSymbols c = .ok ())
    {i : ℕ} {tg : TileGroup} (hi : pod.tileGroups[i]? = some tg) (hst : tg.status = .initialized)
    (h : Inv pod) : Inv (allocateAndLaunch answers pod i tg).2.2 := by
  have hexclusive := allocateAndLaunch_exclusive (i := i) answers hst h.exclusive
  rcases allocateAndLaunch_cases h.exclusive.wellFormed answers i tg with
    ⟨origin, marked, -, -, hclean, he⟩ |
    ⟨origin, result, program, a, status, hw, hfree, hprog, hres, he⟩
  · obtain ⟨rfl, rfl⟩ := hclean hset
    rw [he, set_getElem?_self hi]
    exact h
  · refine ⟨hexclusive, ?_, ?_⟩
    · rw [he]
      exact h.recorded.claim { tg with origin := origin, argvEva := a, status := status }
        h.exclusive hi (not_owns_initialized hst) (owns_of_result hres) hw hfree
    · rw [he]
      exact hprog.trans h.program

theorem next_inv (h : Inv pod) {e : Event} (he : NoHardwareError pod e) : Inv (next mc pod e) := by
  cases e with
  | enqueue gridDim tgDim name argv =>
    obtain ⟨new, hnew⟩ := kernelEnqueue_enqueued mc pod gridDim tgDim name argv
    have hown : ∀ g ∈ new, ¬ Owns g := by
      intro g hg
      obtain ⟨tgId, gridId, kernel, rfl⟩ := hnew.new g hg
      exact not_owns_initialized rfl
    refine ⟨?_, ?_, ?_⟩
    · simp only [next, hnew.mesh, hnew.groups]
      exact h.exclusive.append hown
    · simp only [next, hnew.mesh, hnew.groups]
      exact h.recorded.append hown
    · simp only [next, hnew.program]
      exact h.program
  | tryLaunch answers =>
    exact tryLaunchFrom_invariant
      (fun pod i tg hi hst hinv => allocateAndLaunch_inv (he i) hi hst hinv) _ _ h
  | finish src epa =>
    simp only [next]
    split
    · exact h
    · next hf =>
      obtain ⟨tg, g', hi, hfin, -, hst, -, hmesh, hgroups, -, hp⟩ :=
        finishTileGroup_some hf h.program
      have ho : Owns tg := Or.inr (finishes_iff.mp hfin).1
      have hno := not_owns_finished hst
      refine ⟨?_, ?_, hp⟩
      · rw [hmesh, hgroups]
        exact h.exclusive.giveBack hi ho hno
      · rw [hmesh, hgroups]
        exact h.recorded.giveBack h.exclusive hi ho hno

end Runs

/-- The tile groups that are allocated or launched own disjoint rectangles of the mesh; the
busy tiles are theirs and record the origin and the id of their owner. -/
structure Ownership (m : Mesh) (groups : List TileGroup) : Prop where
  inside : ∀ (i : ℕ) g, groups[i]? = some g → Owns g → Within m g.origin g.dim
  disjoint : ∀ (i j : ℕ) g g', groups[i]? = some g → groups[j]? = some g' → i ≠ j →
    Owns g → Owns g' → ∀ c, Covers g c → ¬ Covers g' c
  busy : ∀ c, InMesh m c → ∃ t, m.tileAt c = some t ∧
    (t.status = .busy ↔ ∃ (i : ℕ) (g : TileGroup), groups[i]? = some g ∧ Owns g ∧ Covers g c)
  tag : ∀ c t (i : ℕ) g, m.tileAt c = some t → groups[i]? = some g → Owns g → Covers g c →
    t.origin = g.origin ∧ t.tileGroupId = g.id

theorem Inv.ownership {pod : Pod} (h : Inv pod) : Ownership pod.mesh pod.tileGroups := by
  refine ⟨h.exclusive.inside, h.exclusive.disjoint, ?_, h.recorded.tag⟩
  intro c hc
  obtain ⟨t, ht⟩ := exists_tileAt h.exclusive.wellFormed hc
  refine ⟨t, ht, h.recorded.owner c t hc ht, ?_⟩
  rintro ⟨i, g, hi, ho, hg⟩
  exact h.exclusive.held c t i g ht hi ho hg

/-- In every reachable state of a pod the tile groups own disjoint rectangles of its mesh, and
the tiles record it. -/
theorem tile_ownership (mc : Manycore) {pod : Pod}
    (h : Transition.Reachable ((system mc).restrict NoHardwareError) pod) :
    Ownership pod.mesh pod.tileGroups := by
  have hinv : Inv pod := by
    refine h.invariant ?_ ?_
    · intro pod (hp : Initial mc pod)
      exact ⟨initial_exclusive hp, initial_recorded hp, hp.program⟩
    · rintro pod e _ hinv ⟨he, rfl⟩
      exact next_inv hinv he
  exact hinv.ownership

def smallPod : Pod where
  podCoord := ⟨0, 0⟩
  program := some ⟨0x80000000, ⟨4096, 0x80000080, 128, 4, 4096, [⟨0x80000080, 4096⟩], []⟩⟩
  mesh := (blankMesh ⟨16, 8⟩ ⟨2, 2⟩).updateTiles (fun xy _ => initTile ⟨16, 8⟩ xy)
    (foreachCoordinate ⟨16, 8⟩ ⟨2, 2⟩)
  tileGroups := []
  tileGroupCapacity := 1
  numGrids := 0
  kernels := []

def allOk : Answers := ⟨fun _ => .ok (), .ok (), .ok 0, fun _ => .ok ()⟩

/-- Three tile groups of two tiles: two fit, and the third is launched after the first is done. -/
def smallRun (mc : Manycore) : Pod :=
  let pod := next mc smallPod (.enqueue ⟨3, 1⟩ ⟨1, 2⟩ "main" [1])
  let pod := next mc pod (.tryLaunch fun _ => allOk)
  let pod := next mc pod (.finish ⟨16, 8⟩ 0xF000)
  next mc pod (.tryLaunch fun _ => allOk)

theorem tile_ownership_x16y8 :
    ((smallRun ⟨({} : Machine).config, true⟩).tileGroups.map fun g => (g.status, g.origin)) =
      [(.finished, ⟨16, 8⟩), (.launched, ⟨17, 8⟩), (.launched, ⟨16, 8⟩)] ∧
    Ownership (smallRun ⟨({} : Machine).config, true⟩).mesh
      (smallRun ⟨({} : Machine).config, true⟩).tileGroups := by
  have h0 : Transition.Reachable ((system ⟨({} : Machine).config, true⟩).restrict
      NoHardwareError) smallPod := .initial ⟨⟨⟨2, 2⟩, ⟨0, 0⟩, by decide⟩, rfl, rfl⟩
  have h1 := h0.next (.enqueue ⟨3, 1⟩ ⟨1, 2⟩ "main" [1]) ⟨trivial, rfl⟩
  have h2 := h1.next (.tryLaunch fun _ => allOk) ⟨fun _ _ => rfl, rfl⟩
  have h3 := h2.next (.finish ⟨16, 8⟩ 0xF000) ⟨trivial, rfl⟩
  have h4 := h3.next (.tryLaunch fun _ => allOk) ⟨fun _ _ => rfl, rfl⟩
  exact ⟨by decide, tile_ownership _ h4⟩

end TileOwnership
