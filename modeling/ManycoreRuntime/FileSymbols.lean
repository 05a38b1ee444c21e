import ManycoreRuntime.SymbolSearch
import ManycoreRuntime.Transition
import Mathlib.Logic.Function.Basic

/-! # Looking up a symbol by the name of a file

A second reader of program files puts all symbols of a file into one table, which lives as long as
the process does. The table is compared with the search in the file's own image. -/
namespace FileSymbols

open Coordinate (Errno)
open ElfImage
open Fallible (bind_eq_ok)
open SymbolSearch

structure SymbolInfo where
  name : List UInt8
  value : UInt32
  size : UInt32
  deriving DecidableEq, Repr

abbrev SymbolTable := List UInt8 → Option SymbolInfo

/-- The process exits, or reads outside the file. -/
inductive Ended where
  | exit
  | failure (f : Failure)
  deriving DecidableEq, Repr

def cString : List UInt8 → Except Failure (List UInt8)
  | [] => .error .outOfBounds
  | c :: rest => if c = 0 then .ok [] else (cString rest).map (c :: ·)

def readString (bin : Image) (off : ℕ) : Except Failure (List UInt8) := cString (bin.drop off)

def define (symbols : SymbolTable) (sym_info : SymbolInfo) : SymbolTable :=
  Function.update symbols sym_info.name (some sym_info)

def importSymbolsFrom (bin : Image) (sym_base strtab_base : ℕ) :
    ℕ → ℕ → SymbolTable → Except Failure SymbolTable
  | 0, _, symbols => .ok symbols
  | n + 1, sym_i, symbols => do
    let sym := sym_base + sizeofSym * sym_i
    let st_name ← readWord bin sym
    if st_name = 0 then importSymbolsFrom bin sym_base strtab_base n (sym_i + 1) symbols
    else
      let sym_name ← readString bin (strtab_base + st_name.toNat)
      let st_value ← readWord bin (sym + 4)
      let st_size ← readWord bin (sym + 8)
      importSymbolsFrom bin sym_base strtab_base n (sym_i + 1)
        (define symbols ⟨sym_name, st_value, st_size⟩)

def objectSymbolTableImportSymbols (bin : Image) (symtab_shdr strtab_shdr : ℕ)
    (symbols : SymbolTable) : Except Failure SymbolTable := do
  let sh_size ← readWord bin (symtab_shdr + 20)
  let sh_entsize ← readWord bin (symtab_shdr + 36)
  let sym_n ← div sh_size sh_entsize
  let sym_base ← readWord bin (symtab_shdr + 16)
  let strtab_base ← readWord bin (strtab_shdr + 16)
  importSymbolsFrom bin sym_base.toNat strtab_base.toNat sym_n.toNat 0 symbols

def importSections (bin : Image) (shoff : ℕ) :
    ℕ → ℕ → SymbolTable → Except Failure SymbolTable
  | 0, _, symbols => .ok symbols
  | n + 1, section_i, symbols => do
    let shdr := shoff + sizeofShdr * section_i
    let sh_type ← readWord bin (shdr + 4)
    if sh_type ≠ shtSymtab then importSections bin shoff n (section_i + 1) symbols
    else
      let sh_link ← readWord bin (shdr + 24)
      let symbols ← objectSymbolTableImportSymbols bin shdr
        (shoff + sizeofShdr * sh_link.toNat) symbols
      importSections bin shoff n (section_i + 1) symbols

/-- What the file says of its format; no field is compared with the file's length. -/
def readIdent (bin : Image) : Except Failure Bool := do
  let magic ← (List.range elfmag.length).mapM fun i => readByte bin i
  if magic ≠ elfmag then return false
  else
    let cls ← readByte bin 4
    if cls ≠ elfclass32 then return false
    else
      let data ← readByte bin 5
      return data == elfdata2lsb

def importObject (bin : Image) (symbols : SymbolTable) : Except Failure SymbolTable := do
  let shoff ← readWord bin eShoff
  let shnum ← readHalf bin eShnum
  importSections bin shoff.toNat shnum.toNat 0 symbols

/-- A file that cannot be read, or is empty, or is no 32-bit little-endian ELF file ends the
process. -/
def objectSymbolTableInit (file : Option Image) (symbols : SymbolTable) :
    Except Ended SymbolTable :=
  match file with
  | none | some [] => .error .exit
  | some bin =>
    match readIdent bin with
    | .error f => .error (.failure f)
    | .ok false => .error .exit
    | .ok true => (importObject bin symbols).mapError .failure

/-- The table is static: what earlier calls put into it is still there. -/
def symbolToEva (file : Option Image) (sym_name : CString) (symbols : SymbolTable) :
    Except Ended (Except Errno UInt32 × SymbolTable) := do
  let symbols ← objectSymbolTableInit file symbols
  match symbols sym_name.bytes with
  | some sym_info => return (.ok sym_info.value, symbols)
  | none => return (.error .fail, symbols)

structure State where
  symbols : SymbolTable
  files : List Image

inductive Event where
  | symbolToEva (file : Option Image) (sym_name : CString)

/-- A call that ends the process has none after it. -/
def next (s : State) : Event → Option State
  | .symbolToEva file sym_name =>
    match FileSymbols.symbolToEva file sym_name s.symbols with
    | .error _ => none
    | .ok (_, symbols) => some ⟨symbols, s.files ++ file.toList⟩

def system : Transition.System State Event := .ofNext (· = ⟨fun _ => none, []⟩) next

section Definitions

variable (bin : Image)

def symbolInfo (idx i : ℕ) : SymbolInfo where
  name := (nameBytes bin idx i).takeWhile (· != 0)
  value := word bin (symAt bin idx i + 4)
  size := word bin (symAt bin idx i + 8)

def tableDefinitions (idx i n : ℕ) : List SymbolInfo :=
  ((List.range' i n).filter fun j => stName bin idx j ≠ 0).map (symbolInfo bin idx)

def sectionDefinitions (idx : ℕ) : List SymbolInfo :=
  if IsSymtab bin idx then tableDefinitions bin idx 0 (symbols bin idx) else []

def definitions : List SymbolInfo :=
  (List.range (half bin eShnum).toNat).flatMap (sectionDefinitions bin)

/-- The symbols before the first section that reaches past the end of the file. -/
def visible : List SymbolInfo :=
  ((List.range (half bin eShnum).toNat).takeWhile fun idx => DataFits bin idx).flatMap
    (sectionDefinitions bin)

def Defines (name : List UInt8) : Prop := ∃ d ∈ definitions bin, d.name = name

end Definitions

def shtStrtab : UInt32 := 3

def shtNobits : UInt32 := 8

structure WellFormedSymtab (bin : Image) (idx : ℕ) : Prop where
  entsize : word bin (shdr bin idx + 36) = 16
  link : shLink bin idx < (half bin eShnum).toNat
  strtab : word bin (shdr bin (shLink bin idx) + 4) = shtStrtab
  ended : 0 < shSize bin (shLink bin idx) ∧
    bin.getD (shOffset bin (shLink bin idx) + shSize bin (shLink bin idx) - 1) 0 = 0
  names : ∀ i < symbols bin idx, (stName bin idx i).toNat < shSize bin (shLink bin idx)

/-- Only a section without bytes in the file may reach past its end. -/
structure WellFormed (bin : Image) : Prop where
  table : TableFits bin
  data : ∀ idx < (half bin eShnum).toNat, word bin (shdr bin idx + 4) ≠ shtNobits →
    DataFits bin idx
  symtab : ∀ idx < (half bin eShnum).toNat, IsSymtab bin idx → WellFormedSymtab bin idx

section Reader

variable {bin : Image} {idx : ℕ} {t t' : SymbolTable}

theorem cString_eq_ok {l name : List UInt8} :
    cString l = .ok name ↔ 0 ∈ l ∧ name = l.takeWhile (· != 0) := by
  induction l generalizing name with
  | nil => simp [cString]
  | cons c rest ih =>
    by_cases hc : c = 0
    · simp [cString, hc, eq_comm]
    · have hne : (c != 0) = true := bne_iff_ne.mpr hc
      rw [cString, if_neg hc, List.takeWhile_cons, if_pos hne, List.mem_cons,
        or_iff_right (Ne.symm hc)]
      constructor
      · intro h
        cases hrest : cString rest with
        | error e =>
          rw [hrest] at h
          cases h
        | ok s =>
          rw [hrest] at h
          cases h
          obtain ⟨hz, rfl⟩ := ih.mp hrest
          exact ⟨hz, rfl⟩
      · rintro ⟨hz, rfl⟩
        rw [ih.mpr ⟨hz, rfl⟩]
        rfl

theorem tableDefinitions_succ (idx i n : ℕ) :
    tableDefinitions bin idx i (n + 1) =
      if stName bin idx i = 0 then tableDefinitions bin idx (i + 1) n
      else symbolInfo bin idx i :: tableDefinitions bin idx (i + 1) n := by
  rw [tableDefinitions, List.range'_succ, List.filter_cons]
  by_cases h : stName bin idx i = 0
  · simp [h, tableDefinitions]
  · simp [h, tableDefinitions]

theorem importSymbolsFrom_ok {n i : ℕ}
    (h : importSymbolsFrom bin (shOffset bin idx) (shOffset bin (shLink bin idx)) n i t = .ok t') :
    t' = (tableDefinitions bin idx i n).foldl define t := by
  induction n generalizing i t with
  | zero =>
    cases h
    rfl
  | succ n ih =>
    simp only [importSymbolsFrom, bind_eq_ok, readWord_eq_ok] at h
    obtain ⟨st_name, ⟨-, rfl⟩, h⟩ := h
    rw [tableDefinitions_succ]
    split at h
    · next hz =>
      have hz : stName bin idx i = 0 := hz
      rw [if_pos hz]
      exact ih h
    · next hz =>
      have hz : ¬ stName bin idx i = 0 := hz
      rw [if_neg hz, List.foldl_cons]
      simp only [bind_eq_ok, readWord_eq_ok] at h
      obtain ⟨name, hname, value, ⟨-, rfl⟩, size, ⟨-, rfl⟩, h⟩ := h
      obtain ⟨-, rfl⟩ := cString_eq_ok.mp hname
      exact ih h

theorem importSections_ok {n i : ℕ}
    (h : importSections bin (word bin eShoff).toNat n i t = .ok t') :
    t' = ((List.range' i n).flatMap (sectionDefinitions bin)).foldl define t := by
  induction n generalizing i t with
  | zero =>
    cases h
    rfl
  | succ n ih =>
    rw [List.range'_succ, List.flatMap_cons, List.foldl_append]
    simp only [importSections, bind_eq_ok, readWord_eq_ok] at h
    obtain ⟨type, ⟨-, rfl⟩, h⟩ := h
    split at h
    · next hne =>
      have hno : ¬ IsSymtab bin i := hne
      rw [sectionDefinitions, if_neg hno]
      exact ih h
    · next heq =>
      have hsym : IsSymtab bin i := not_not.mp heq
      simp only [bind_eq_ok, readWord_eq_ok] at h
      obtain ⟨link, ⟨-, rfl⟩, u, hu, h⟩ := h
      simp only [objectSymbolTableImportSymbols, bind_eq_ok, readWord_eq_ok, div_eq_ok] at hu
      obtain ⟨size, ⟨-, rfl⟩, entsize, ⟨-, rfl⟩, count, ⟨-, rfl⟩, base, ⟨-, rfl⟩, strtab,
        ⟨-, rfl⟩, hu⟩ := hu
      rw [UInt32.toNat_div] at hu
      have hdefs : u = (tableDefinitions bin i 0 (symbols bin i)).foldl define t :=
        importSymbolsFrom_ok hu
      rw [sectionDefinitions, if_pos hsym, ← hdefs]
      exact ih h

theorem objectSymbolTableInit_ok {file : Option Image}
    (h : objectSymbolTableInit file t = .ok t') :
    ∃ bin, file = some bin ∧ t' = (definitions bin).foldl define t := by
  unfold objectSymbolTableInit at h
  split at h
  · cases h
  · cases h
  · next bin _ =>
    refine ⟨bin, rfl, ?_⟩
    split at h
    · cases h
    · cases h
    · cases hobj : importObject bin t with
      | error f =>
        rw [hobj] at h
        cases h
      | ok u =>
        rw [hobj] at h
        cases h
        simp only [importObject, bind_eq_ok, readWord_eq_ok, readHalf_eq_ok] at hobj
        obtain ⟨shoff, ⟨-, rfl⟩, shnum, ⟨-, rfl⟩, hobj⟩ := hobj
        rw [definitions, List.range_eq_range']
        exact importSections_ok hobj

theorem foldl_define (l : List SymbolInfo) (t : SymbolTable) (name : List UInt8) :
    l.foldl define t name = (l.reverse.find? fun d => d.name = name).or (t name) := by
  induction l generalizing t with
  | nil => rfl
  | cons d l ih =>
    rw [List.foldl_cons, ih, List.reverse_cons, List.find?_append, Option.or_assoc]
    congr 1
    by_cases hd : d.name = name
    · subst hd
      simp [define]
    · simp [define, hd, Ne.symm hd]

section Readable

structure Readable (bin : Image) (idx i : ℕ) : Prop where
  symbol : symAt bin idx i + sizeofSym ≤ bin.length
  name : (stName bin idx i).toNat < shSize bin (shLink bin idx)
  ended : 0 ∈ nameBytes bin idx i

theorem zero_mem_drop {off k : ℕ} (hk : off ≤ k) (hlen : k < bin.length)
    (hz : bin.getD k 0 = 0) : 0 ∈ bin.drop off := by
  rw [List.mem_drop_iff_getElem]
  refine ⟨k - off, by omega, ?_⟩
  rw [List.getD_eq_getElem?_getD, List.getElem?_eq_getElem hlen] at hz
  simpa [Nat.add_sub_cancel' hk] using hz

theorem WellFormedSymtab.count (h : WellFormedSymtab bin idx) :
    div (word bin (shdr bin idx + 20)) (word bin (shdr bin idx + 36)) =
      .ok (word bin (shdr bin idx + 20) / word bin (shdr bin idx + 36)) := by
  refine if_neg ?_
  rw [h.entsize]
  decide

theorem WellFormed.dataFits_link (h : WellFormed bin) (hidx : idx < (half bin eShnum).toNat)
    (hsym : IsSymtab bin idx) : DataFits bin (shLink bin idx) := by
  have htab := h.symtab idx hidx hsym
  refine h.data _ htab.link ?_
  rw [htab.strtab]
  decide

theorem WellFormed.readable (h : WellFormed bin) (hidx : idx < (half bin eShnum).toNat)
    (hsym : IsSymtab bin idx) {i : ℕ} (hi : i < symbols bin idx) : Readable bin idx i := by
  have htab := h.symtab idx hidx hsym
  have hdata : DataFits bin idx := by
    refine h.data idx hidx ?_
    rw [show word bin (shdr bin idx + 4) = shtSymtab from hsym]
    decide
  have hlink := h.dataFits_link hidx hsym
  have hname := htab.names i hi
  obtain ⟨hpos, hzero⟩ := htab.ended
  have hcount : symbols bin idx = shSize bin idx / 16 := by rw [symbols, htab.entsize]; rfl
  unfold DataFits at hdata hlink
  refine ⟨?_, hname, zero_mem_drop ?_ ?_ hzero⟩
  · unfold symAt sizeofSym
    omega
  · omega
  · omega

theorem exists_importSymbolsFrom {n i : ℕ} (h : ∀ j, i ≤ j → j < i + n → Readable bin idx j)
    (t : SymbolTable) : ∃ t', importSymbolsFrom bin (shOffset bin idx)
      (shOffset bin (shLink bin idx)) n i t = .ok t' := by
  induction n generalizing i t with
  | zero => exact ⟨t, rfl⟩
  | succ n ih =>
    have hrest : ∀ j, i + 1 ≤ j → j < i + 1 + n → Readable bin idx j :=
      fun j hj hlt => h j (by omega) (by omega)
    obtain ⟨hsymbol, -, hended⟩ := h i le_rfl (by omega)
    unfold sizeofSym at hsymbol
    have hread : ∀ k ≤ 12, readWord bin (symAt bin idx i + k) =
        .ok (word bin (symAt bin idx i + k)) := fun k hk => if_pos (by omega)
    simp only [importSymbolsFrom, bind_eq_ok]
    by_cases hz : stName bin idx i = 0
    · obtain ⟨t', ht'⟩ := ih hrest t
      refine ⟨t', _, hread 0 (by decide), ?_⟩
      rw [if_pos (show word bin (symAt bin idx i + 0) = 0 from hz)]
      exact ht'
    · obtain ⟨t', ht'⟩ := ih hrest (define t (symbolInfo bin idx i))
      refine ⟨t', _, hread 0 (by decide), ?_⟩
      rw [if_neg (show ¬ word bin (symAt bin idx i + 0) = 0 from hz)]
      simp only [bind_eq_ok]
      refine ⟨_, cString_eq_ok.mpr ⟨hended, rfl⟩, _, hread 4 (by decide), _,
        hread 8 (by decide), ?_⟩
      exact ht'

theorem WellFormed.exists_importSections (h : WellFormed bin) {n i : ℕ}
    (hn : i + n ≤ (half bin eShnum).toNat) (t : SymbolTable) :
    ∃ t', importSections bin (word bin eShoff).toNat n i t = .ok t' := by
  induction n generalizing i t with
  | zero => exact ⟨t, rfl⟩
  | succ n ih =>
    have hidx : i < (half bin eShnum).toNat := by omega
    have hfits := shdr_fits h.table hidx
    simp only [importSections, bind_eq_ok]
    by_cases hsym : IsSymtab bin i
    · have htab := h.symtab i hidx hsym
      obtain ⟨u, hu⟩ := @exists_importSymbolsFrom bin i (symbols bin i) 0
        (fun j _ hj => h.readable hidx hsym (by omega)) t
      obtain ⟨t', ht'⟩ := @ih (i + 1) (by omega) u
      have hlink := shdr_fits h.table htab.link
      refine ⟨t', _, read_shdr hfits (by decide), ?_⟩
      rw [if_neg (show ¬ word bin (shdr bin i + 4) ≠ shtSymtab from not_not.mpr hsym)]
      simp only [bind_eq_ok, objectSymbolTableImportSymbols]
      refine ⟨_, read_shdr hfits (by decide), u, ⟨_, read_shdr hfits (by decide), _,
        read_shdr hfits le_rfl, _, htab.count, _, read_shdr hfits (by decide), _,
        read_shdr hlink (by decide), ?_⟩, ht'⟩
      rw [UInt32.toNat_div]
      exact hu
    · obtain ⟨t', ht'⟩ := @ih (i + 1) (by omega) t
      refine ⟨t', _, read_shdr hfits (by decide), ?_⟩
      rw [if_pos (show word bin (shdr bin i + 4) ≠ shtSymtab from hsym)]
      exact ht'

theorem mapM_readByte {n : ℕ} (hn : n ≤ bin.length) :
    (List.range n).mapM (fun i => readByte bin i) = .ok (bin.take n) := by
  induction n with
  | zero => rfl
  | succ n ih =>
    have hlt : n < bin.length := hn
    have hread : readByte bin n = .ok bin[n] := by
      rw [readByte, if_pos hlt, List.getD_eq_getElem?_getD, List.getElem?_eq_getElem hlt]
      rfl
    rw [List.range_succ, List.mapM_append, ih hlt.le, List.take_succ_eq_append_getElem hlt]
    simp [hread, bind, Except.bind, pure, Except.pure]

theorem readIdent_of_elfValidate {u : Unit} (h : elfValidate (some bin) = .ok u) :
    readIdent bin = .ok true := by
  have hlen := length_of_elfValidate h
  unfold sizeofEhdr at hlen
  simp only [elfValidate, bind_eq_ok, check_eq_ok, readByte_eq_ok, beq_iff_eq] at h
  obtain ⟨-, -, -, hmagic, cls, ⟨-, rfl⟩, -, hcls, data, ⟨-, rfl⟩, -, hdata, -⟩ := h
  have hread : ∀ k < 6, readByte bin k = .ok (bin.getD k 0) := fun k hk => if_pos (by omega)
  have htake : (List.range elfmag.length).mapM (fun i => readByte bin i) = .ok (bin.take 4) :=
    mapM_readByte (hlen.trans' (by decide))
  simp only [readIdent, htake, bind, Except.bind, hmagic, ne_eq, not_true, if_false,
    hread 4 (by decide), hread 5 (by decide), hcls, hdata]
  rfl

theorem objectSymbolTableInit_eq {u : Unit} (hval : elfValidate (some bin) = .ok u)
    (h : WellFormed bin) (t : SymbolTable) :
    objectSymbolTableInit (some bin) t = .ok ((definitions bin).foldl define t) := by
  have hlen := length_of_elfValidate hval
  obtain ⟨t', ht'⟩ := @WellFormed.exists_importSections bin h (half bin eShnum).toNat 0
    (by omega) t
  have hobj : importObject bin t = .ok t' := by
    simp only [importObject, read_eShoff hlen, read_eShnum hlen, bind, Except.bind]
    exact ht'
  have hinit : objectSymbolTableInit (some bin) t = .ok t' := by
    cases bin with
    | nil => exact absurd hlen (by decide)
    | cons b rest =>
      simp only [objectSymbolTableInit, readIdent_of_elfValidate hval, hobj]
      rfl
  obtain ⟨_, hfile, rfl⟩ := objectSymbolTableInit_ok hinit
  cases hfile
  exact hinit

end Readable

section Search

variable {symbol : CString}

def outcome : Option SymbolInfo → Except Failure UInt32
  | some d => .ok d.value
  | none => .error (.code .notfound)

theorem prefix_iff {l : List UInt8} (symbol : CString) (hz : 0 ∈ l) :
    (symbol.bytes ++ [0]).IsPrefix l ↔ l.takeWhile (· != 0) = symbol.bytes := by
  obtain ⟨bytes, hbytes⟩ := symbol
  induction l generalizing bytes with
  | nil => exact absurd hz List.not_mem_nil
  | cons c rest ih =>
    by_cases hc : c = 0
    · subst hc
      cases bytes with
      | nil => simp
      | cons b bytes =>
        have hb := hbytes b List.mem_cons_self
        simp [hb]
    · have hrest : 0 ∈ rest := (List.mem_cons.mp hz).resolve_left (Ne.symm hc)
      cases bytes with
      | nil => simp [hc, Ne.symm hc]
      | cons b bytes =>
        have htail := ih hrest bytes fun x hx => hbytes x (List.mem_cons_of_mem b hx)
        simp only [List.cons_append, List.cons_prefix_cons, htail, List.takeWhile_cons,
          bne_iff_ne.mpr hc, if_true, List.cons.injEq, eq_comm (a := b)]

theorem Readable.covered {i : ℕ} (h : Readable bin idx i) (symbol : CString) :
    SymbolCovered bin symbol idx i := by
  have hsym := h.symbol
  unfold sizeofSym at hsym
  refine ⟨by omega, fun _ _ hpre => ?_, fun _ _ _ => by omega⟩
  exact symbol.nonzero 0 (hpre.subset h.ended) rfl

theorem searchSymbols_eq {n i : ℕ} (hlink : shdr bin (shLink bin idx) + 24 ≤ bin.length)
    (h : ∀ j, i ≤ j → j < i + n → Readable bin idx j) :
    searchSymbols bin symbol (shOffset bin idx) (strtab bin idx) n i =
      outcome ((tableDefinitions bin idx i n).find? fun d => d.name = symbol.bytes) := by
  induction n generalizing i with
  | zero => rfl
  | succ n ih =>
    have hrest := @ih (i + 1) fun j hj hlt => h j (by omega) (by omega)
    have hi := h i le_rfl (by omega)
    have hcov := hi.covered symbol
    rw [tableDefinitions_succ]
    by_cases hs : Skipped bin symbol idx i
    · rw [searchSymbols_skipped hlink hcov hs, hrest]
      rcases hs with hz | ⟨-, hdiff⟩
      · rw [if_pos hz]
      · have hname : (symbolInfo bin idx i).name ≠ symbol.bytes :=
          mt (prefix_iff symbol hi.ended).mpr hdiff
        split
        · rfl
        · rw [List.find?_cons_of_neg (by simpa using hname)]
    · have hname : stName bin idx i ≠ 0 := fun hz => hs (Or.inl hz)
      have hle := hi.name.le
      have hmatch : (symbol.bytes ++ [0]).IsPrefix (nameBytes bin idx i) :=
        not_not.mp fun hdiff => hs (Or.inr ⟨hle, hdiff⟩)
      have heq : (symbolInfo bin idx i).name = symbol.bytes :=
        (prefix_iff symbol hi.ended).mp hmatch
      rw [searchSymbols_found hlink hcov hname hle hmatch, if_neg hname,
        List.find?_cons_of_pos (by simpa using heq)]
      rfl

theorem searchSymbolTable_eq (hlen : sizeofEhdr ≤ bin.length) (h : WellFormed bin)
    (hidx : idx < (half bin eShnum).toNat) (hsym : IsSymtab bin idx) :
    searchSymbolTable bin symbol ⟨shdr bin idx, shOffset bin idx⟩ =
      outcome ((sectionDefinitions bin idx).find? fun d => d.name = symbol.bytes) := by
  have htab := h.symtab idx hidx hsym
  have hfits := shdr_fits h.table hidx
  have hlink : shdr bin (shLink bin idx) + 24 ≤ bin.length :=
    (shdr_fits h.table htab.link).trans' (Nat.add_le_add_left (by decide) _)
  have hstr : getSection bin (shLink bin idx) = .ok (strtab bin idx) := by
    rw [getSection_eq hlen h.table, if_pos hlink, if_pos (h.dataFits_link hidx hsym)]
    rfl
  unfold shLink at hstr
  have hsearch := @searchSymbols_eq bin idx symbol (symbols bin idx) 0 hlink
    fun j _ hj => h.readable hidx hsym (by omega)
  rw [sectionDefinitions, if_pos hsym, ← hsearch]
  simp only [searchSymbolTable, read_shdr hfits (by decide : 24 ≤ 36),
    read_shdr hfits (by decide : 20 ≤ 36), read_shdr hfits le_rfl, hstr, htab.count, bind,
    Except.bind, UInt32.toNat_div]
  rfl

theorem searchSections_eq_ok (hlen : sizeofEhdr ≤ bin.length) (h : WellFormed bin) {n : ℕ}
    (hn : idx + n ≤ (half bin eShnum).toNat) (a : UInt32) :
    searchSections bin symbol n idx = .ok a ↔
      ∃ d, (((List.range' idx n).takeWhile fun i => DataFits bin i).flatMap
        (sectionDefinitions bin)).find? (fun d => d.name = symbol.bytes) = some d ∧
        d.value = a := by
  induction n generalizing idx with
  | zero => simp [searchSections]
  | succ n ih =>
    have hidx : idx < (half bin eShnum).toNat := by omega
    have hrest := @ih (idx + 1) (by omega)
    rw [searchSections_succ hlen h.table hidx, List.range'_succ]
    by_cases hdata : DataFits bin idx
    · rw [if_pos hdata, List.takeWhile_cons, if_pos (decide_eq_true hdata), List.flatMap_cons,
        List.find?_append]
      by_cases hsym : IsSymtab bin idx
      · rw [if_pos hsym, searchSymbolTable_eq hlen h hidx hsym]
        cases (sectionDefinitions bin idx).find? fun d => d.name = symbol.bytes with
        | none => exact hrest
        | some d => simp [outcome]
      · rw [if_neg hsym, hrest, sectionDefinitions, if_neg hsym]
        rfl
    · rw [if_neg hdata, List.takeWhile_cons, if_neg (by simpa using hdata)]
      simp

end Search

end Reader

section Lookups

variable {bin : Image} {name : CString} {t : SymbolTable} {a : UInt32}

theorem find_definitions_eq_none {name : List UInt8} :
    ((definitions bin).reverse.find? fun d => d.name = name) = none ↔ ¬ Defines bin name := by
  simp [Defines]

theorem mem_definitions_of_visible {d : SymbolInfo} (h : d ∈ visible bin) :
    d ∈ definitions bin := by
  obtain ⟨idx, hidx, hd⟩ := List.mem_flatMap.mp h
  exact List.mem_flatMap.mpr ⟨idx, (List.takeWhile_sublist _).subset hidx, hd⟩

theorem symbolToEva_eq_ok (hval : elfValidate (some bin) = .ok ()) (h : WellFormed bin) :
    (∃ t', symbolToEva (some bin) name t = .ok (.ok a, t')) ↔
      ((((definitions bin).reverse.find? fun d => d.name = name.bytes).or
        (t name.bytes)).map SymbolInfo.value) = some a := by
  rw [← foldl_define, Option.map_eq_some_iff]
  simp only [symbolToEva, objectSymbolTableInit_eq hval h, bind, Except.bind]
  cases (definitions bin).foldl define t name.bytes with
  | none => simp [pure, Except.pure]
  | some d => simp [pure, Except.pure]

theorem search_eq_ok (hval : elfValidate (some bin) = .ok ()) (h : WellFormed bin) :
    SymbolSearch.symbolToEva (some bin) (some name) true = .ok a ↔
      ((visible bin).find? fun d => d.name = name.bytes).map SymbolInfo.value = some a := by
  have hlen := length_of_elfValidate hval
  rw [Option.map_eq_some_iff, visible, List.range_eq_range', ← searchSections_eq_ok hlen h
    (by omega)]
  simp only [SymbolSearch.symbolToEva, hval, searchSymbolTables, read_eShnum hlen,
    bind, Except.bind]

def State.Known (s : State) : Prop :=
  ∀ name, s.symbols name = none ↔ ∀ f ∈ s.files, ¬ Defines f name

theorem known_next {s s' : State} {e : Event} (hs : s.Known) (h : next s e = some s') :
    s'.Known := by
  obtain ⟨file, name⟩ := e
  simp only [next] at h
  split at h
  · cases h
  · next r symbols hcall =>
    cases h
    simp only [symbolToEva, bind_eq_ok] at hcall
    obtain ⟨u, hu, hcall⟩ := hcall
    have hsymbols : symbols = u := by
      split at hcall <;> cases hcall <;> rfl
    obtain ⟨bin, rfl, rfl⟩ := objectSymbolTableInit_ok hu
    intro other
    simp only [hsymbols, foldl_define, Option.or_eq_none_iff, find_definitions_eq_none, hs other,
      Option.toList_some, List.forall_mem_append, List.forall_mem_singleton, and_comm]

theorem known {s : State} (hs : Transition.Reachable system s) : s.Known := by
  refine @Transition.Reachable.invariant _ _ system State.Known ?_ ?_ s hs
  · rintro s rfl name
    exact iff_of_true rfl fun f hf => absurd hf List.not_mem_nil
  · intro s e s' hs h
    exact known_next hs h

/-- A call that reads a well-formed file returns. -/
theorem reachable_read {s : State} (hs : Transition.Reachable system s)
    (hval : elfValidate (some bin) = .ok ()) (h : WellFormed bin) :
    Transition.Reachable system
      ⟨(definitions bin).foldl define s.symbols, s.files ++ [bin]⟩ := by
  refine hs.next (.symbolToEva (some bin) main) ?_
  simp only [system, Transition.System.ofNext, next, symbolToEva,
    objectSymbolTableInit_eq hval h, bind, Except.bind]
  cases (definitions bin).foldl define s.symbols main.bytes <;> rfl

end Lookups

instance (bin : Image) (idx : ℕ) : Decidable (WellFormedSymtab bin idx) :=
  decidable_of_iff (word bin (shdr bin idx + 36) = 16 ∧
      shLink bin idx < (half bin eShnum).toNat ∧
      word bin (shdr bin (shLink bin idx) + 4) = shtStrtab ∧
      (0 < shSize bin (shLink bin idx) ∧
        bin.getD (shOffset bin (shLink bin idx) + shSize bin (shLink bin idx) - 1) 0 = 0) ∧
      ∀ i < symbols bin idx, (stName bin idx i).toNat < shSize bin (shLink bin idx))
    ⟨fun ⟨he, hl, hs, hz, hn⟩ => ⟨he, hl, hs, hz, hn⟩,
      fun ⟨he, hl, hs, hz, hn⟩ => ⟨he, hl, hs, hz, hn⟩⟩

instance (bin : Image) : Decidable (WellFormed bin) :=
  decidable_of_iff (TableFits bin ∧
      (∀ idx < (half bin eShnum).toNat, word bin (shdr bin idx + 4) ≠ shtNobits →
        DataFits bin idx) ∧
      ∀ idx < (half bin eShnum).toNat, IsSymtab bin idx → WellFormedSymtab bin idx)
    ⟨fun ⟨ht, hd, hs⟩ => ⟨ht, hd, hs⟩, fun ⟨ht, hd, hs⟩ => ⟨ht, hd, hs⟩⟩

def sectionHeader (type off size link entsize : ℕ) : List UInt8 :=
  le32 0 ++ le32 type ++ le32 0 ++ le32 0 ++ le32 off ++ le32 size ++ le32 link ++ le32 0 ++
    le32 4 ++ le32 entsize

def symbolEntry (name value : ℕ) : List UInt8 :=
  le32 name ++ le32 value ++ le32 4 ++ [0, 0] ++ le16 1

def mainFile (bss : ℕ) (values : List ℕ) : Image :=
  elfmag ++ [1, 1, 1] ++ List.replicate 9 0 ++ le16 2 ++ le16 243 ++ le32 1 ++ le32 0 ++ le32 0 ++
    le32 52 ++ le32 0 ++ le16 52 ++ le16 32 ++ le16 0 ++ le16 40 ++ le16 4 ++ le16 3 ++
    sectionHeader 0 0 0 0 0 ++ sectionHeader 8 212 bss 0 0 ++
    sectionHeader 2 212 (16 * (values.length + 1)) 3 16 ++
    sectionHeader 3 (212 + 16 * (values.length + 1)) 6 0 0 ++
    symbolEntry 0 0 ++ values.flatMap (symbolEntry 1) ++ [0] ++ main.bytes ++ [0]

theorem reachable_mainFile : Transition.Reachable system
    ⟨(definitions (mainFile 0 [0x100])).foldl define fun _ => none, [mainFile 0 [0x100]]⟩ :=
  reachable_read (.initial rfl) (by decide +kernel) (by decide +kernel)

/-- The two look-ups agree exactly when no file that was read, this one included, defines the
name, or its first definition in the file comes before the first section that reaches past the
end, and has the value of its last one. -/
theorem lookups_agree_iff {s : State} (hs : Transition.Reachable system s) {bin : Image}
    (hval : elfValidate (some bin) = .ok ()) (h : WellFormed bin) (name : CString) :
    (∀ a, (∃ t, symbolToEva (some bin) name s.symbols = .ok (.ok a, t)) ↔
      SymbolSearch.symbolToEva (some bin) (some name) true = .ok a) ↔
    (¬ Defines bin name.bytes ∧ ∀ f ∈ s.files, ¬ Defines f name.bytes) ∨
      ∃ first last, ((visible bin).find? fun d => d.name = name.bytes) = some first ∧
        ((definitions bin).reverse.find? fun d => d.name = name.bytes) = some last ∧
        first.value = last.value := by
  simp only [symbolToEva_eq_ok hval h, search_eq_ok hval h]
  rw [← Option.ext_iff, ← find_definitions_eq_none, ← known hs name.bytes]
  have hvisible : ((visible bin).find? fun d => d.name = name.bytes) ≠ none →
      ((definitions bin).reverse.find? fun d => d.name = name.bytes) ≠ none := by
    intro hfirst hlast
    obtain ⟨first, hfirst⟩ := Option.ne_none_iff_exists'.mp hfirst
    have hname : first.name = name.bytes := by simpa using List.find?_some hfirst
    exact find_definitions_eq_none.mp hlast
      ⟨first, mem_definitions_of_visible (List.mem_of_find?_eq_some hfirst), hname⟩
  cases hlast : (definitions bin).reverse.find? fun d => d.name = name.bytes with
  | none =>
    have hfirst : ((visible bin).find? fun d => d.name = name.bytes) = none :=
      not_not.mp fun hne => hvisible hne hlast
    simp [hfirst]
  | some last =>
    cases (visible bin).find? fun d => d.name = name.bytes with
    | none => simp
    | some first => simp [eq_comm]

/-- A second file, read after one with the same symbol. -/
theorem lookups_agree_main : ∃ s, Transition.Reachable system s ∧
    s.files = [mainFile 0 [0x100]] ∧
    ∀ a, (∃ t, symbolToEva (some (mainFile 0 [0x200])) main s.symbols = .ok (.ok a, t)) ↔
      SymbolSearch.symbolToEva (some (mainFile 0 [0x200])) (some main) true = .ok a := by
  refine ⟨_, reachable_mainFile, rfl, (lookups_agree_iff reachable_mainFile (by decide +kernel)
    (by decide +kernel) main).mpr ?_⟩
  exact Or.inr ⟨⟨main.bytes, 0x200, 4⟩, ⟨main.bytes, 0x200, 4⟩, by decide +kernel,
    by decide +kernel, rfl⟩

/-- A symbol that only an earlier file has is found; of two symbols of one name the file's reader
takes the second and the search the first; the search fails at a section without bytes in the
file that would reach past its end. -/
theorem lookups_disagree :
    (∃ s, Transition.Reachable system s ∧ s.files = [mainFile 0 [0x100]] ∧
      (∃ t, symbolToEva (some (mainFile 0 [])) main s.symbols = .ok (.ok 0x100, t)) ∧
      SymbolSearch.symbolToEva (some (mainFile 0 [])) (some main) true =
        .error (.code .notfound)) ∧
    ((∃ t, symbolToEva (some (mainFile 0 [0x100, 0x200])) main (fun _ => none) =
        .ok (.ok 0x200, t)) ∧
      SymbolSearch.symbolToEva (some (mainFile 0 [0x100, 0x200])) (some main) true =
        .ok 0x100) ∧
    ((∃ t, symbolToEva (some (mainFile 0x1000 [0x100])) main (fun _ => none) =
        .ok (.ok 0x100, t)) ∧
      SymbolSearch.symbolToEva (some (mainFile 0x1000 [0x100])) (some main) true =
        .error (.code .invalid)) ∧
    ¬ ∀ s bin name, Transition.Reachable system s → elfValidate (some bin) = .ok () →
      WellFormed bin → ∀ a, (∃ t, symbolToEva (some bin) name s.symbols = .ok (.ok a, t)) ↔
        SymbolSearch.symbolToEva (some bin) (some name) true = .ok a := by
  have hval : elfValidate (some (mainFile 0 [0x100, 0x200])) = .ok () := by decide +kernel
  have hform : WellFormed (mainFile 0 [0x100, 0x200]) := by decide +kernel
  have hdup : ∃ t, symbolToEva (some (mainFile 0 [0x100, 0x200])) main (fun _ => none) =
      .ok (.ok 0x200, t) := (symbolToEva_eq_ok hval hform).mpr (by decide +kernel)
  have hfirst : SymbolSearch.symbolToEva (some (mainFile 0 [0x100, 0x200])) (some main) true =
      .ok 0x100 := by decide +kernel
  refine ⟨⟨_, reachable_mainFile, rfl, ?_, by decide +kernel⟩, ⟨hdup, hfirst⟩,
    ⟨?_, by decide +kernel⟩, fun h => ?_⟩
  · exact (symbolToEva_eq_ok (by decide +kernel) (by decide +kernel)).mpr (by decide +kernel)
  · exact (symbolToEva_eq_ok (by decide +kernel) (by decide +kernel)).mpr (by decide +kernel)
  · have hfound := (h ⟨fun _ => none, []⟩ _ main (.initial rfl) hval hform 0x200).mp hdup
    rw [hfirst] at hfound
    exact absurd hfound (by decide)

end FileSymbols
