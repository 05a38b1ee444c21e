import ManycoreRuntime.ElfImage

/-! # Looking up a symbol

The search walks the section table, and in each symbol table the symbols, up to one with the
wanted name. What the walk comes to decides which fields of the file it reads. -/
namespace SymbolSearch

open ElfImage

/-- A C string, without the byte that ends it. -/
structure CString where
  bytes : List UInt8
  nonzero : ∀ b ∈ bytes, b ≠ 0

def shtSymtab : UInt32 := 2

structure Section where
  shdr : ℕ
  data : ℕ
  deriving DecidableEq, Repr

def getSection (bin : Image) (idx : ℕ) : Except Failure Section := do
  let shoff ← readWord bin eShoff
  let shnum ← readHalf bin eShnum
  check (shoff.toNat + shnum.toNat * sizeofShdr ≤ bin.length) .invalid
  let shdr := shoff.toNat + sizeofShdr * idx
  let section_off ← readWord bin (shdr + 16)
  let section_sz ← readWord bin (shdr + 20)
  check (section_off.toNat + section_sz.toNat ≤ bin.length) .invalid
  return ⟨shdr, section_off.toNat⟩

def sectionIsSymbolTable (bin : Image) (shdr : ℕ) : Except Failure Bool := do
  let type ← readWord bin (shdr + 4)
  return type == shtSymtab

def strcmp (bin : Image) (off : ℕ) : List UInt8 → Except Failure Bool
  | [] => do
    let c ← readByte bin off
    return c == 0
  | b :: rest => do
    let c ← readByte bin off
    if c ≠ b then return false else strcmp bin (off + 1) rest

def searchSymbols (bin : Image) (symbol : CString) (symtab_data : ℕ) (strtab : Section) :
    ℕ → ℕ → Except Failure UInt32
  | 0, _ => .error (.code .notfound)
  | n + 1, sym_i => do
    let sym := symtab_data + sizeofSym * sym_i
    let sym_name_off ← readWord bin sym
    if sym_name_off = 0 then searchSymbols bin symbol symtab_data strtab n (sym_i + 1)
    else
      let strtab_sz ← readWord bin (strtab.shdr + 20)
      if sym_name_off > strtab_sz then .error (.code .invalid)
      else
        let found ← strcmp bin (strtab.data + sym_name_off.toNat) symbol.bytes
        if found then readWord bin (sym + 4)
        else searchSymbols bin symbol symtab_data strtab n (sym_i + 1)

def searchSymbolTable (bin : Image) (symbol : CString) (symtab : Section) :
    Except Failure UInt32 := do
  let strtab_idx ← readWord bin (symtab.shdr + 24)
  let strtab ← getSection bin strtab_idx.toNat
  let symtab_sz ← readWord bin (symtab.shdr + 20)
  let entsize ← readWord bin (symtab.shdr + 36)
  let sym_n ← div symtab_sz entsize
  searchSymbols bin symbol symtab.data strtab sym_n.toNat 0

def searchSections (bin : Image) (symbol : CString) : ℕ → ℕ → Except Failure UInt32
  | 0, _ => .error (.code .notfound)
  | n + 1, idx => do
    let s ← getSection bin idx
    let isSymbolTable ← sectionIsSymbolTable bin s.shdr
    if ¬ isSymbolTable then searchSections bin symbol n (idx + 1)
    else
      match searchSymbolTable bin symbol s with
      | .error (.code .notfound) => searchSections bin symbol n (idx + 1)
      | r => r

def searchSymbolTables (bin : Image) (symbol : CString) : Except Failure UInt32 := do
  let shnum ← readHalf bin eShnum
  searchSections bin symbol shnum.toNat 0

/-- The result is what is stored at `eva`, which is no null pointer if `eva` holds. -/
def symbolToEva (bin : Option Image) (symbol : Option CString) (eva : Bool) :
    Except Failure UInt32 :=
  match symbol, eva with
  | none, _ | _, false => .error (.code .invalid)
  | some symbol, true => do
    elfValidate bin
    match bin with
    | none => .error (.code .invalid)
    | some bin => searchSymbolTables bin symbol

section Fields

variable (bin : Image)

def shdr (idx : ℕ) : ℕ := (word bin eShoff).toNat + sizeofShdr * idx

def shOffset (idx : ℕ) : ℕ := (word bin (shdr bin idx + 16)).toNat

def shSize (idx : ℕ) : ℕ := (word bin (shdr bin idx + 20)).toNat

def shLink (idx : ℕ) : ℕ := (word bin (shdr bin idx + 24)).toNat

def IsSymtab (idx : ℕ) : Prop := word bin (shdr bin idx + 4) = shtSymtab

instance (idx : ℕ) : Decidable (IsSymtab bin idx) := inferInstanceAs (Decidable (_ = _))

def symbols (idx : ℕ) : ℕ := shSize bin idx / (word bin (shdr bin idx + 36)).toNat

def TableFits : Prop :=
  (word bin eShoff).toNat + (half bin eShnum).toNat * sizeofShdr ≤ bin.length

instance : Decidable (TableFits bin) := inferInstanceAs (Decidable (_ ≤ _))

def DataFits (idx : ℕ) : Prop := shOffset bin idx + shSize bin idx ≤ bin.length

instance (idx : ℕ) : Decidable (DataFits bin idx) := inferInstanceAs (Decidable (_ ≤ _))

variable (symbol : CString) (idx : ℕ)

def symAt (i : ℕ) : ℕ := shOffset bin idx + sizeofSym * i

def stName (i : ℕ) : UInt32 := word bin (symAt bin idx i)

def nameBytes (i : ℕ) : List UInt8 :=
  bin.drop (shOffset bin (shLink bin idx) + (stName bin idx i).toNat)

def Skipped (i : ℕ) : Prop :=
  stName bin idx i = 0 ∨ (stName bin idx i).toNat ≤ shSize bin (shLink bin idx) ∧
    ¬ (symbol.bytes ++ [0]).IsPrefix (nameBytes bin idx i)

/-- What the search reads of symbol `i` lies in the file. The name of a symbol ends, or differs
from the wanted one, before the file ends. -/
structure SymbolCovered (i : ℕ) : Prop where
  name : symAt bin idx i + 4 ≤ bin.length
  string : stName bin idx i ≠ 0 → (stName bin idx i).toNat ≤ shSize bin (shLink bin idx) →
    ¬ (nameBytes bin idx i).IsPrefix symbol.bytes
  value : stName bin idx i ≠ 0 → (stName bin idx i).toNat ≤ shSize bin (shLink bin idx) →
    (symbol.bytes ++ [0]).IsPrefix (nameBytes bin idx i) → symAt bin idx i + 8 ≤ bin.length

/-- What the search reads of symbol table `idx` lies in the file, and its symbols have a size. -/
structure TableCovered : Prop where
  link : shdr bin (shLink bin idx) + 24 ≤ bin.length
  entsize : DataFits bin (shLink bin idx) → word bin (shdr bin idx + 36) ≠ 0
  symbols : DataFits bin (shLink bin idx) → ∀ i < symbols bin idx,
    (∀ j < i, Skipped bin symbol idx j) → SymbolCovered bin symbol idx i

def PassedOver : Prop :=
  DataFits bin idx ∧ (IsSymtab bin idx → DataFits bin (shLink bin idx) ∧
    ∀ i < symbols bin idx, Skipped bin symbol idx i)

/-- Every symbol table that the search comes to is covered. -/
def Covered : Prop :=
  ∀ idx < (half bin eShnum).toNat, (∀ i < idx, PassedOver bin symbol i) → DataFits bin idx →
    IsSymtab bin idx → TableCovered bin symbol idx

end Fields

section Proof

variable {bin : Image} {symbol : CString} {idx : ℕ}

theorem getSection_eq (hlen : sizeofEhdr ≤ bin.length) (ht : TableFits bin) (idx : ℕ) :
    getSection bin idx =
      if shdr bin idx + 24 ≤ bin.length then
        if DataFits bin idx then .ok ⟨shdr bin idx, shOffset bin idx⟩
        else .error (.code .invalid)
      else .error .outOfBounds := by
  have hfits : check ((word bin eShoff).toNat + (half bin eShnum).toNat * sizeofShdr ≤
      bin.length) .invalid = .ok () := if_pos (decide_eq_true ht)
  simp only [getSection, read_eShoff hlen, read_eShnum hlen, hfits, bind, Except.bind]
  by_cases hsz : shdr bin idx + 24 ≤ bin.length
  · have hread16 : readWord bin ((word bin eShoff).toNat + sizeofShdr * idx + 16) =
        .ok (word bin (shdr bin idx + 16)) := if_pos (by unfold shdr at hsz; omega)
    have hread20 : readWord bin ((word bin eShoff).toNat + sizeofShdr * idx + 20) =
        .ok (word bin (shdr bin idx + 20)) := if_pos hsz
    simp only [hread16, hread20, if_pos hsz]
    by_cases hdata : DataFits bin idx
    · have hcheck : check ((word bin (shdr bin idx + 16)).toNat +
          (word bin (shdr bin idx + 20)).toNat ≤ bin.length) .invalid = .ok () :=
        if_pos (decide_eq_true hdata)
      simp only [hcheck, if_pos hdata]
      rfl
    · have hcheck : check ((word bin (shdr bin idx + 16)).toNat +
          (word bin (shdr bin idx + 20)).toNat ≤ bin.length) .invalid =
          .error (.code .invalid) := if_neg fun h => hdata (of_decide_eq_true h)
      simp only [hcheck, if_neg hdata]
  · rw [if_neg hsz]
    by_cases h20 : shdr bin idx + 20 ≤ bin.length
    · have hread16 : readWord bin ((word bin eShoff).toNat + sizeofShdr * idx + 16) =
          .ok (word bin (shdr bin idx + 16)) := if_pos h20
      have hread20 : readWord bin ((word bin eShoff).toNat + sizeofShdr * idx + 20) =
          .error .outOfBounds := if_neg hsz
      simp only [hread16, hread20]
    · have hread16 : readWord bin ((word bin eShoff).toNat + sizeofShdr * idx + 16) =
          .error .outOfBounds := if_neg h20
      simp only [hread16]

theorem getSection_invalid (hlen : sizeofEhdr ≤ bin.length) (ht : ¬ TableFits bin) (idx : ℕ) :
    getSection bin idx = .error (.code .invalid) := by
  have hfits : check ((word bin eShoff).toNat + (half bin eShnum).toNat * sizeofShdr ≤
      bin.length) .invalid = .error (.code .invalid) := if_neg fun h => ht (of_decide_eq_true h)
  simp only [getSection, read_eShoff hlen, read_eShnum hlen, hfits, bind, Except.bind]

theorem readByte_drop (off : ℕ) : readByte bin off =
    match bin.drop off with
    | [] => .error .outOfBounds
    | c :: _ => .ok c := by
  rcases Nat.lt_or_ge off bin.length with hlt | hge
  · have hget : bin.getD off 0 = bin[off] := by
      rw [List.getD_eq_getElem?_getD, List.getElem?_eq_getElem hlt]
      rfl
    rw [List.drop_eq_getElem_cons hlt, readByte, if_pos hlt, hget]
  · rw [List.drop_eq_nil_of_le hge, readByte, if_neg (Nat.not_lt.mpr hge)]

variable (bin) in
/-- A comparison reads on while the bytes agree, and out of the file if it ends inside the
name. -/
theorem strcmp_spec (name : List UInt8) (off : ℕ) :
    (bin.drop off).IsPrefix name ∧ strcmp bin off name = .error .outOfBounds ∨
    ¬ (bin.drop off).IsPrefix name ∧ ∃ found, strcmp bin off name = .ok found ∧
      (found = true ↔ (name ++ [0]).IsPrefix (bin.drop off)) := by
  induction name generalizing off with
  | nil =>
    rw [strcmp, readByte_drop]
    cases bin.drop off with
    | nil => exact Or.inl ⟨List.nil_prefix, rfl⟩
    | cons c bytes =>
      refine Or.inr ⟨by simp, c == 0, rfl, ?_⟩
      rw [List.nil_append, List.cons_prefix_cons, beq_iff_eq, eq_comm]
      exact (and_iff_left (List.nil_prefix)).symm
  | cons b rest ih =>
    have htail : bin.drop (off + 1) = (bin.drop off).drop 1 := by
      rw [List.drop_drop]
    have hrest := ih (off + 1)
    rw [strcmp, readByte_drop]
    rw [htail] at hrest
    cases hdrop : bin.drop off with
    | nil => exact Or.inl ⟨List.nil_prefix, rfl⟩
    | cons c bytes =>
      rw [hdrop, List.drop_one, List.tail_cons] at hrest
      simp only [bind, Except.bind, List.cons_append, List.cons_prefix_cons]
      by_cases hc : c = b
      · simp only [hc, ne_eq, not_true, if_false, true_and]
        exact hrest
      · simp only [hc, ne_eq, not_false_eq_true, if_true, false_and, Ne.symm hc, false_or,
          true_and, iff_false, Bool.not_eq_true]
        exact ⟨false, rfl, rfl⟩

def strtab (bin : Image) (idx : ℕ) : Section :=
  ⟨shdr bin (shLink bin idx), shOffset bin (shLink bin idx)⟩

section Symbols

variable (hstr : shdr bin (shLink bin idx) + 24 ≤ bin.length) {n i : ℕ}

include hstr

theorem searchSymbols_succ :
    searchSymbols bin symbol (shOffset bin idx) (strtab bin idx) (n + 1) i =
      if symAt bin idx i + 4 ≤ bin.length then
        if stName bin idx i = 0 then
          searchSymbols bin symbol (shOffset bin idx) (strtab bin idx) n (i + 1)
        else if shSize bin (shLink bin idx) < (stName bin idx i).toNat then
          .error (.code .invalid)
        else do
          let found ← strcmp bin (shOffset bin (shLink bin idx) + (stName bin idx i).toNat)
            symbol.bytes
          if found then readWord bin (symAt bin idx i + 4)
          else searchSymbols bin symbol (shOffset bin idx) (strtab bin idx) n (i + 1)
      else .error .outOfBounds := by
  have hsz : readWord bin ((strtab bin idx).shdr + 20) =
      .ok (word bin (shdr bin (shLink bin idx) + 20)) := if_pos hstr
  have hgt : word bin (symAt bin idx i) > word bin (shdr bin (shLink bin idx) + 20) ↔
      shSize bin (shLink bin idx) < (word bin (symAt bin idx i)).toNat := UInt32.lt_iff_toNat_lt
  rw [searchSymbols]
  simp only [hsz]
  by_cases hname : symAt bin idx i + 4 ≤ bin.length
  · have hread : readWord bin (shOffset bin idx + sizeofSym * i) = .ok (stName bin idx i) :=
      if_pos hname
    simp only [hread, bind, Except.bind, if_pos hname, stName, hgt]
    rfl
  · have hread : readWord bin (shOffset bin idx + sizeofSym * i) = .error .outOfBounds :=
      if_neg hname
    simp only [hread, bind, Except.bind, if_neg hname]

theorem searchSymbols_skipped (hc : SymbolCovered bin symbol idx i)
    (hs : Skipped bin symbol idx i) :
    searchSymbols bin symbol (shOffset bin idx) (strtab bin idx) (n + 1) i =
      searchSymbols bin symbol (shOffset bin idx) (strtab bin idx) n (i + 1) := by
  rw [searchSymbols_succ hstr, if_pos hc.name]
  split
  · rfl
  · next hname =>
    obtain ⟨hle, hdiff⟩ := hs.resolve_left hname
    rw [if_neg (Nat.not_lt.mpr hle)]
    rcases strcmp_spec bin symbol.bytes
      (shOffset bin (shLink bin idx) + (stName bin idx i).toNat) with
      ⟨hend, -⟩ | ⟨-, found, hcmp, hfound⟩
    · exact absurd hend (hc.string hname hle)
    · have hno : found = false := Bool.eq_false_iff.mpr fun hyes => hdiff (hfound.mp hyes)
      rw [hcmp, hno]
      rfl

theorem searchSymbols_found (hc : SymbolCovered bin symbol idx i) (hname : stName bin idx i ≠ 0)
    (hle : (stName bin idx i).toNat ≤ shSize bin (shLink bin idx))
    (hmatch : (symbol.bytes ++ [0]).IsPrefix (nameBytes bin idx i)) :
    searchSymbols bin symbol (shOffset bin idx) (strtab bin idx) (n + 1) i =
      .ok (word bin (symAt bin idx i + 4)) := by
  have hvalue : readWord bin (symAt bin idx i + 4) = .ok (word bin (symAt bin idx i + 4)) :=
    if_pos (hc.value hname hle hmatch)
  rw [searchSymbols_succ hstr, if_pos hc.name, if_neg hname, if_neg (Nat.not_lt.mpr hle)]
  rcases strcmp_spec bin symbol.bytes
    (shOffset bin (shLink bin idx) + (stName bin idx i).toNat) with
    ⟨hend, -⟩ | ⟨-, found, hcmp, hfound⟩
  · exact absurd hend (hc.string hname hle)
  · rw [hcmp, hfound.mpr hmatch]
    exact hvalue

theorem searchSymbols_stops (hc : SymbolCovered bin symbol idx i)
    (hs : ¬ Skipped bin symbol idx i) :
    Safe (searchSymbols bin symbol (shOffset bin idx) (strtab bin idx) (n + 1) i) ∧
      searchSymbols bin symbol (shOffset bin idx) (strtab bin idx) (n + 1) i ≠
        .error (.code .notfound) := by
  have hname : stName bin idx i ≠ 0 := fun hz => hs (Or.inl hz)
  by_cases hle : (stName bin idx i).toNat ≤ shSize bin (shLink bin idx)
  · have hmatch : (symbol.bytes ++ [0]).IsPrefix (nameBytes bin idx i) :=
      not_not.mp fun hdiff => hs (Or.inr ⟨hle, hdiff⟩)
    rw [searchSymbols_found hstr hc hname hle hmatch]
    exact ⟨trivial, by simp⟩
  · rw [searchSymbols_succ hstr, if_pos hc.name, if_neg hname, if_pos (Nat.lt_of_not_le hle)]
    exact ⟨trivial, by simp⟩

theorem searchSymbols_unsafe (hc : ¬ SymbolCovered bin symbol idx i) :
    ¬ Safe (searchSymbols bin symbol (shOffset bin idx) (strtab bin idx) (n + 1) i) := by
  rw [searchSymbols_succ hstr]
  intro hsafe
  refine hc ?_
  split at hsafe
  · next hname =>
    refine ⟨hname, fun hne hle => ?_, fun hne hle hmatch => ?_⟩
    · rw [if_neg hne, if_neg (Nat.not_lt.mpr hle), safe_bind] at hsafe
      rcases strcmp_spec bin symbol.bytes
        (shOffset bin (shLink bin idx) + (stName bin idx i).toNat) with ⟨-, hcmp⟩ | ⟨hend, -⟩
      · rw [hcmp] at hsafe
        exact hsafe.1.elim
      · exact hend
    · rw [if_neg hne, if_neg (Nat.not_lt.mpr hle), safe_bind] at hsafe
      rcases strcmp_spec bin symbol.bytes
        (shOffset bin (shLink bin idx) + (stName bin idx i).toNat) with
        ⟨-, hcmp⟩ | ⟨-, found, hcmp, hfound⟩
      · rw [hcmp] at hsafe
        exact hsafe.1.elim
      · have hread := hsafe.2 found hcmp
        rw [hfound.mpr hmatch, if_pos rfl, safe_readWord] at hread
        exact hread
  · exact hsafe.elim

variable (symbol) in
/-- The search through the symbols from `i` on is safe when those that it comes to are covered,
and finds nothing when it skips all of them. -/
theorem searchSymbols_spec :
    (Safe (searchSymbols bin symbol (shOffset bin idx) (strtab bin idx) n i) ↔
      ∀ j, i ≤ j → j < i + n → (∀ k, i ≤ k → k < j → Skipped bin symbol idx k) →
        SymbolCovered bin symbol idx j) ∧
    (searchSymbols bin symbol (shOffset bin idx) (strtab bin idx) n i =
        .error (.code .notfound) ↔
      ∀ j, i ≤ j → j < i + n → Skipped bin symbol idx j ∧ SymbolCovered bin symbol idx j) := by
  induction n generalizing i with
  | zero =>
    have hnone : ∀ j, i ≤ j → ¬ j < i + 0 := fun j hj => by omega
    exact ⟨iff_of_true trivial fun j hj hlt => absurd hlt (hnone j hj),
      iff_of_true rfl fun j hj hlt => absurd hlt (hnone j hj)⟩
  | succ n ih =>
    by_cases hc : SymbolCovered bin symbol idx i
    · by_cases hs : Skipped bin symbol idx i
      · rw [searchSymbols_skipped hstr hc hs]
        obtain ⟨hsafe, hnot⟩ := ih (i := i + 1)
        rw [hsafe, hnot]
        constructor
        · constructor
          · intro h j hj hlt hbefore
            rcases Nat.eq_or_lt_of_le hj with rfl | hj
            · exact hc
            · exact h j hj (by omega) fun k hk => hbefore k (by omega)
          · intro h j hj hlt hbefore
            refine h j (by omega) (by omega) fun k hk hkj => ?_
            rcases Nat.eq_or_lt_of_le hk with rfl | hk
            · exact hs
            · exact hbefore k hk hkj
        · constructor
          · intro h j hj hlt
            rcases Nat.eq_or_lt_of_le hj with rfl | hj
            · exact ⟨hs, hc⟩
            · exact h j hj (by omega)
          · intro h j hj hlt
            exact h j (by omega) (by omega)
      · obtain ⟨hsafe, hnot⟩ := searchSymbols_stops hstr (n := n) hc hs
        refine ⟨iff_of_true hsafe ?_, iff_of_false hnot ?_⟩
        · intro j hj hlt hbefore
          rcases Nat.eq_or_lt_of_le hj with rfl | hj
          · exact hc
          · exact absurd (hbefore i le_rfl hj) hs
        · exact fun h => hs (h i le_rfl (by omega)).1
    · have hunsafe := searchSymbols_unsafe hstr (n := n) hc
      refine ⟨iff_of_false hunsafe ?_, iff_of_false ?_ ?_⟩
      · exact fun h => hc (h i le_rfl (by omega) fun k hk hlt => absurd hlt (Nat.not_lt.mpr hk))
      · intro he
        rw [he] at hunsafe
        exact hunsafe trivial
      · exact fun h => hc (h i le_rfl (by omega)).2

end Symbols

theorem shdr_fits (ht : TableFits bin) (hidx : idx < (half bin eShnum).toNat) :
    shdr bin idx + sizeofShdr ≤ bin.length := by
  have hmul : sizeofShdr * (idx + 1) ≤ sizeofShdr * (half bin eShnum).toNat :=
    Nat.mul_le_mul_left _ hidx
  rw [TableFits, Nat.mul_comm] at ht
  rw [Nat.mul_add, Nat.mul_one] at hmul
  unfold shdr
  omega

theorem read_shdr (hfits : shdr bin idx + sizeofShdr ≤ bin.length) {k : ℕ} (hk : k ≤ 36) :
    readWord bin (shdr bin idx + k) = .ok (word bin (shdr bin idx + k)) := by
  unfold sizeofShdr at hfits
  exact if_pos (by omega)

section Sections

variable (hlen : sizeofEhdr ≤ bin.length) (ht : TableFits bin)

include hlen ht

variable (symbol) in
theorem searchSymbolTable_spec (hidx : shdr bin idx + sizeofShdr ≤ bin.length) :
    (Safe (searchSymbolTable bin symbol ⟨shdr bin idx, shOffset bin idx⟩) ↔
      TableCovered bin symbol idx) ∧
    (TableCovered bin symbol idx →
      (searchSymbolTable bin symbol ⟨shdr bin idx, shOffset bin idx⟩ =
          .error (.code .notfound) ↔
        DataFits bin (shLink bin idx) ∧ ∀ i < symbols bin idx, Skipped bin symbol idx i)) := by
  have hgoal : searchSymbolTable bin symbol ⟨shdr bin idx, shOffset bin idx⟩ =
      getSection bin (shLink bin idx) >>= fun str =>
        div (word bin (shdr bin idx + 20)) (word bin (shdr bin idx + 36)) >>= fun n =>
          searchSymbols bin symbol (shOffset bin idx) str n.toNat 0 := by
    simp only [searchSymbolTable, read_shdr hidx (by decide : 24 ≤ 36),
      read_shdr hidx (by decide : 20 ≤ 36), read_shdr hidx le_rfl, bind, Except.bind, shLink]
  rw [hgoal, getSection_eq hlen ht]
  by_cases hl : shdr bin (shLink bin idx) + 24 ≤ bin.length
  · rw [if_pos hl]
    by_cases hdata : DataFits bin (shLink bin idx)
    · rw [if_pos hdata]
      by_cases hz : word bin (shdr bin idx + 36) = 0
      · have hdiv : div (word bin (shdr bin idx + 20)) (word bin (shdr bin idx + 36)) =
            .error .divideByZero := if_pos hz
        simp only [hdiv, bind, Except.bind]
        exact ⟨iff_of_false id fun h => h.entsize hdata hz,
          fun h => absurd hz (h.entsize hdata)⟩
      · have hdiv : div (word bin (shdr bin idx + 20)) (word bin (shdr bin idx + 36)) =
            .ok (word bin (shdr bin idx + 20) / word bin (shdr bin idx + 36)) := if_neg hz
        have hn : (word bin (shdr bin idx + 20) / word bin (shdr bin idx + 36)).toNat =
            symbols bin idx := UInt32.toNat_div _ _
        simp only [hdiv, bind, Except.bind, hn]
        obtain ⟨hsafe, hnot⟩ := searchSymbols_spec symbol hl
          (n := symbols bin idx) (i := 0)
        rw [strtab] at hsafe hnot
        simp only [Nat.zero_le, Nat.zero_add, true_imp_iff] at hsafe hnot
        rw [hsafe, hnot]
        constructor
        · exact ⟨fun h => ⟨hl, fun _ => hz, fun _ => h⟩, fun h => h.symbols hdata⟩
        · intro hcov
          constructor
          · exact fun h => ⟨hdata, fun i hi => (h i hi).1⟩
          · exact fun h i hi =>
              ⟨h.2 i hi, hcov.symbols hdata i hi fun j hj => h.2 j (hj.trans hi)⟩
    · rw [if_neg hdata]
      simp only [bind, Except.bind]
      exact ⟨iff_of_true trivial
          ⟨hl, fun h => absurd h hdata, fun h => absurd h hdata⟩,
        fun _ => iff_of_false (by simp) fun h => hdata h.1⟩
  · rw [if_neg hl]
    simp only [bind, Except.bind]
    exact ⟨iff_of_false id fun h => hl h.link, fun h => absurd h.link hl⟩

theorem searchSections_succ (hidx : idx < (half bin eShnum).toNat) (n : ℕ) :
    searchSections bin symbol (n + 1) idx =
      if DataFits bin idx then
        if IsSymtab bin idx then
          match searchSymbolTable bin symbol ⟨shdr bin idx, shOffset bin idx⟩ with
          | .error (.code .notfound) => searchSections bin symbol n (idx + 1)
          | r => r
        else searchSections bin symbol n (idx + 1)
      else .error (.code .invalid) := by
  have hfits := shdr_fits ht hidx
  unfold sizeofShdr at hfits
  rw [searchSections, getSection_eq hlen ht, if_pos (by omega : shdr bin idx + 24 ≤ bin.length)]
  by_cases hdata : DataFits bin idx
  · have htype : sectionIsSymbolTable bin (shdr bin idx) =
        .ok (word bin (shdr bin idx + 4) == shtSymtab) := by
      rw [sectionIsSymbolTable, readWord, if_pos (by omega : shdr bin idx + 4 + 4 ≤ bin.length)]
      rfl
    simp only [if_pos hdata, htype, bind, Except.bind]
    by_cases hsym : IsSymtab bin idx
    · have heq : (word bin (shdr bin idx + 4) == shtSymtab) = true := beq_iff_eq.mpr hsym
      simp only [heq, not_true, if_false, if_pos hsym]
    · have heq : (word bin (shdr bin idx + 4) == shtSymtab) = false := beq_eq_false_iff_ne.mpr hsym
      simp only [heq, Bool.false_eq_true, not_false_eq_true, if_true, if_neg hsym]
  · simp only [if_neg hdata, bind, Except.bind]

theorem searchSections_safe {n : ℕ} (hn : idx + n ≤ (half bin eShnum).toNat) :
    Safe (searchSections bin symbol n idx) ↔
      ∀ j, idx ≤ j → j < idx + n → (∀ i, idx ≤ i → i < j → PassedOver bin symbol i) →
        DataFits bin j → IsSymtab bin j → TableCovered bin symbol j := by
  induction n generalizing idx with
  | zero =>
    exact iff_of_true trivial fun j hj hlt => absurd hlt (Nat.not_lt.mpr hj)
  | succ n ih =>
    have hidx : idx < (half bin eShnum).toNat := by omega
    rw [searchSections_succ hlen ht hidx]
    -- what follows section `idx` matters only when the search passes over it
    have hnext : PassedOver bin symbol idx → (DataFits bin idx → IsSymtab bin idx →
        TableCovered bin symbol idx) → (Safe (searchSections bin symbol n (idx + 1)) ↔
        ∀ j, idx ≤ j → j < idx + (n + 1) → (∀ i, idx ≤ i → i < j → PassedOver bin symbol i) →
          DataFits bin j → IsSymtab bin j → TableCovered bin symbol j) := by
      intro hpass hcov
      rw [ih (by omega)]
      constructor
      · intro h j hj hlt hbefore
        rcases Nat.eq_or_lt_of_le hj with rfl | hj
        · exact hcov
        · exact h j hj (by omega) fun i hi => hbefore i (by omega)
      · intro h j hj hlt hbefore
        refine h j (by omega) (by omega) fun i hi hij => ?_
        rcases Nat.eq_or_lt_of_le hi with rfl | hi
        · exact hpass
        · exact hbefore i hi hij
    have hstop : ¬ PassedOver bin symbol idx → (DataFits bin idx → IsSymtab bin idx →
        TableCovered bin symbol idx) → ∀ j, idx ≤ j → j < idx + (n + 1) →
        (∀ i, idx ≤ i → i < j → PassedOver bin symbol i) →
          DataFits bin j → IsSymtab bin j → TableCovered bin symbol j := by
      intro hpass hcov j hj hlt hbefore
      rcases Nat.eq_or_lt_of_le hj with rfl | hj
      · exact hcov
      · exact absurd (hbefore idx le_rfl hj) hpass
    by_cases hdata : DataFits bin idx
    · by_cases hsym : IsSymtab bin idx
      · rw [if_pos hdata, if_pos hsym]
        obtain ⟨hsafe, hnot⟩ :=
          searchSymbolTable_spec symbol hlen ht (shdr_fits ht hidx)
        by_cases hcov : TableCovered bin symbol idx
        · have hnot := hnot hcov
          split
          · next he =>
            obtain ⟨hl, hskip⟩ := hnot.mp he
            exact hnext ⟨hdata, fun _ => ⟨hl, hskip⟩⟩ fun _ _ => hcov
          · next he =>
            refine iff_of_true (hsafe.mpr hcov) (hstop ?_ fun _ _ => hcov)
            exact fun hpass => he (hnot.mpr (hpass.2 hsym))
        · have hunsafe := mt hsafe.mp hcov
          split
          · next he =>
            rw [he] at hunsafe
            exact absurd trivial hunsafe
          · refine iff_of_false hunsafe fun h => hcov ?_
            exact h idx le_rfl (by omega) (fun i hi hlt => absurd hlt (Nat.not_lt.mpr hi)) hdata
              hsym
      · rw [if_pos hdata, if_neg hsym]
        exact hnext ⟨hdata, fun h => absurd h hsym⟩ fun _ h => absurd h hsym
    · rw [if_neg hdata]
      exact iff_of_true trivial (hstop (fun h => hdata h.1) fun h => absurd h hdata)

end Sections

theorem searchSymbolTables_safe (hlen : sizeofEhdr ≤ bin.length) :
    Safe (searchSymbolTables bin symbol) ↔ (TableFits bin → Covered bin symbol) := by
  simp only [searchSymbolTables, read_eShnum hlen, bind, Except.bind]
  by_cases ht : TableFits bin
  · rw [searchSections_safe hlen ht (by omega)]
    simp only [Nat.zero_le, Nat.zero_add, true_imp_iff, ht, Covered]
  · refine iff_of_true ?_ fun h => absurd h ht
    cases hn : (half bin eShnum).toNat with
    | zero => trivial
    | succ n =>
      rw [searchSections, getSection_invalid hlen ht]
      trivial

end Proof

/-- The look-up reads the file within its bounds and divides by no zero exactly when the symbol
tables that it comes to are covered. -/
theorem symbolToEva_safe_iff (bin : Option Image) (symbol : Option CString) (eva : Bool) :
    Safe (symbolToEva bin symbol eva) ↔
      ∀ file name, bin = some file → symbol = some name → eva = true →
        elfValidate (some file) = .ok () → TableFits file → Covered file name := by
  cases symbol with
  | none => exact iff_of_true trivial fun file name _ h => by cases h
  | some name =>
    cases eva with
    | false => exact iff_of_true trivial fun file name _ _ h => by cases h
    | true =>
      have hval := elfValidate_safe bin
      cases bin with
      | none => exact iff_of_true trivial fun file name h => by cases h
      | some file =>
        simp only [symbolToEva, safe_bind, hval, true_and, Option.some.injEq]
        constructor
        · rintro h _ _ rfl rfl - hok
          exact (searchSymbolTables_safe (length_of_elfValidate hok)).mp (h () hok)
        · intro h u hok
          exact (searchSymbolTables_safe (length_of_elfValidate hok)).mpr
            (h file name rfl rfl trivial hok)

def le16 (n : ℕ) : List UInt8 := [UInt8.ofNat n, UInt8.ofNat (n / 2 ^ 8)]

def le32 (n : ℕ) : List UInt8 := le16 n ++ le16 (n / 2 ^ 16)

/-- A file of 92 bytes: the header, and the header of one symbol table with the given data,
string table, alignment and symbol size. -/
def oneSection (off size link addralign entsize : ℕ) : Image :=
  elfmag ++ [1, 1, 1] ++ List.replicate 9 0 ++ le16 2 ++ le16 243 ++ le32 1 ++ le32 0 ++ le32 0 ++
    le32 52 ++ le32 0 ++ le16 52 ++ le16 32 ++ le16 0 ++ le16 40 ++ le16 1 ++ le16 0 ++
    (le32 0 ++ le32 2 ++ le32 0 ++ le32 0 ++ le32 off ++ le32 size ++ le32 link ++ le32 0 ++
    le32 addralign ++ le32 entsize)

def main : CString := ⟨[0x6d, 0x61, 0x69, 0x6e], by simp⟩

/-- The string table's index is past the section table; the symbols have no size; the name
begins where the string table ends, and the file with it; the second symbol is behind the
file. -/
theorem symbolToEva_fails :
    symbolToEva (some (oneSection 0 16 0xffffffff 0 16)) (some main) true =
      .error .outOfBounds ∧
    symbolToEva (some (oneSection 0 16 0 0 0)) (some main) true = .error .divideByZero ∧
    symbolToEva (some (oneSection 84 8 0 8 8)) (some main) true = .error .outOfBounds ∧
    symbolToEva (some (oneSection 84 2 0 0 1)) (some main) true = .error .outOfBounds ∧
    ¬ ∀ bin symbol eva, Safe (symbolToEva bin symbol eva) := by
  refine ⟨by decide +kernel, by decide +kernel, by decide +kernel, by decide +kernel, fun h => ?_⟩
  have hsafe := h (some (oneSection 0 16 0 0 0)) (some main) true
  have hunsafe : ¬ Safe (symbolToEva (some (oneSection 0 16 0 0 0)) (some main) true) := by
    decide +kernel
  exact hunsafe hsafe

end SymbolSearch
