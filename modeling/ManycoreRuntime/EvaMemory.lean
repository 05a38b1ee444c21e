import ManycoreRuntime.ChunkedTransfer
import ManycoreRuntime.EvaRanges

/-! # Reading and writing memory through endpoint virtual addresses

Each loop translates the current address, transfers as much of the range as the segment holds
and goes on behind it. What a successful write sends, a read of the range gives back. -/
namespace EvaMemory

open Fallible (bind_eq_ok)
open ByteStore
open ChunkedTransfer
open Coordinate (Coord Errno)
open Configuration (Config Manycore Accepted)
open ConfigPod (IsPod IsTile)
open DramTranslation
open EvaRanges
open EvaToNpa
open Machines (Machine)
open NpaToEva (EvaMap evaToNpa defaultMap)
open Packets (RequestPacket)
open TileTranslation
open WriteMem

def bufferWords (buf : ℕ → UInt8) (off i : ℕ) : UInt32 := packWord fun j => buf (off + 4 * i + j)

def setBufferWords (buf : ℕ → UInt8) (off : ℕ) (words : ℕ → UInt32) (k : ℕ) : UInt8 :=
  if k < off then buf k else byteOf (words ((k - off) / 4)) ((k - off) % 4)

theorem byteOf_bufferWords (buf : ℕ → UInt8) (off j : ℕ) :
    byteOf (bufferWords buf off (j / 4)) (j % 4) = buf (off + j) := by
  have hbyte : off + 4 * (j / 4) + j % 4 = off + j := by omega
  rw [bufferWords, byteOf_packWord _ (Nat.mod_lt _ (by decide)), hbyte]

section Loops

variable (mc : Manycore) (map : EvaMap) (tgt : Coord)

def evaWriteInternal {σ : Type} (eva : UInt32) (sz : ℕ)
    (writeFunction : Npa → ℕ → ℕ → σ → Option (Except Errno Unit × σ)) (s : σ) :
    Option (Except Errno Unit × σ) :=
  transferFrom (evaToNpa mc map tgt) advance writeFunction sz eva 0 sz s

def evaReadInternal {σ : Type} (eva : UInt32) (sz : ℕ)
    (readFunction : Npa → ℕ → ℕ → σ → Option (Except Errno Unit × σ)) (s : σ) :
    Option (Except Errno Unit × σ) :=
  transferFrom (evaToNpa mc map tgt) advance readFunction sz eva 0 sz s

def evaWrite (platform : Platform) (eva : UInt32) (data : ℕ) (buf : ℕ → UInt8) (sz : ℕ)
    (sent : List RequestPacket) : Option (Except Errno Unit × List RequestPacket) :=
  evaWriteInternal mc map tgt eva sz (fun npa off xfer sent =>
    some (writeMem mc platform npa (data + off) (bufferWords buf off) xfer sent)) sent

/-- A read of the memory `m` into the buffer `buf`; `answers` are the hardware's answers during
each of the calls that read one chunk. -/
def evaRead (m : Npa → UInt8) (answers : ℕ → List ReadMem.Event) (eva : UInt32) (data : ℕ)
    (buf : ℕ → UInt8) (sz : ℕ) : Option (Except Errno Unit × ℕ × (ℕ → UInt8)) :=
  evaReadInternal mc map tgt eva sz (fun npa off xfer s =>
    (readMem mc (loadWord m) (answers s.1) npa (data + off) (bufferWords s.2 off) xfer).map
      fun r => (r.1, s.1 + 1, setBufferWords s.2 off r.2)) (0, buf)

def evaMemset (platform : Platform) (eva : UInt32) (val : UInt8) (sz : ℕ)
    (sent : List RequestPacket) : Option (Except Errno Unit × List RequestPacket) :=
  transferFrom (evaToNpa mc map tgt) advance
    (fun npa _ xfer sent => some (memset mc platform npa val xfer sent)) sz eva 0 sz sent

end Loops

/-- What writes, reads and fills of a range do to the memory. -/
structure MemoryLaw (mc : Manycore) (tgt : Coord) (eva : UInt32) (sz : ℕ) : Prop where
  terminates : ∀ platform data buf sent,
    ∃ r, evaWrite mc defaultMap tgt platform eva data buf sz sent = some r
  write : ∀ platform data buf sent sent',
    evaWrite mc defaultMap tgt platform eva data buf sz sent = some (.ok (), sent') →
    ∃ target : ℕ → Npa,
      (∀ k < sz, ∃ n, evaToNpa mc defaultMap tgt (advance eva k) = .ok (target k, n)) ∧
      (∀ i < sz, ∀ j < sz, target i = target j → i = j) ∧
      logOf sent' = logOf sent ++ (List.range sz).map fun k => (target k, buf k)
  read : ∀ platform data buf sent sent' m answers data' old calls new,
    evaWrite mc defaultMap tgt platform eva data buf sz sent = some (.ok (), sent') →
    evaRead mc defaultMap tgt (deliver m sent') answers eva data' old sz =
      some (.ok (), calls, new) →
    (∀ k < sz, new k = buf k) ∧ ∀ k, sz ≤ k → new k = old k
  memset : ∀ platform data val sent, data % 4 = 0 →
    evaMemset mc defaultMap tgt platform eva val sz sent =
      evaWrite mc defaultMap tgt platform eva data (fun _ => val) sz sent
  memsetMemory : ∀ platform platform' data val sent sent' m,
    evaMemset mc defaultMap tgt platform eva val sz [] = some (.ok (), sent) →
    evaWrite mc defaultMap tgt platform' eva data (fun _ => val) sz [] = some (.ok (), sent') →
    deliver m sent = deliver m sent'

section Proof

variable {mc : Manycore} {tgt : Coord} {eva : UInt32} {sz : ℕ}

theorem tileSegment_pos (epa : ℕ) : 0 < tileSegment epa := by
  unfold tileSegment
  split <;> omega

theorem segment_pos {eva : UInt32} {npa : Npa} {n : ℕ}
    (ht : evaToNpa mc defaultMap tgt eva = .ok (npa, n)) : 0 < n := by
  rcases Nat.lt_or_ge eva.toNat (2 ^ 31) with hd | hd
  · obtain ⟨-, -, rfl⟩ := tile_segment hd ht
    exact tileSegment_pos _
  · rw [DramStriping.evaToNpa_of_isDram ((isDram_iff eva).mpr hd)] at ht
    obtain ⟨-, rfl, -⟩ := evaToNpaDram_segment (fields_bits mc) ht
    exact Nat.sub_pos_of_lt (Nat.mod_lt _ (Nat.two_pow_pos _))

theorem evaWrite_terminates (platform : Platform) (data : ℕ) (buf : ℕ → UInt8)
    (sent : List RequestPacket) :
    ∃ r, evaWrite mc defaultMap tgt platform eva data buf sz sent = some r :=
  transferFrom_terminates (fun _ _ _ ht => segment_pos ht) (fun _ _ _ _ => ⟨_, rfl⟩) le_rfl
    eva 0 sent

def placeAt (mc : Manycore) (tgt : Coord) (eva : UInt32) (k : ℕ) : Npa :=
  match evaToNpa mc defaultMap tgt (advance eva k) with
  | .ok (npa, _) => npa
  | .error _ => ⟨0, 0, 0⟩

theorem placeAt_of_ok {k : ℕ} {npa : Npa} {n : ℕ}
    (h : evaToNpa mc defaultMap tgt (advance eva k) = .ok (npa, n)) :
    placeAt mc tgt eva k = npa := by
  simp only [placeAt, h]

theorem placeAt_segment (hmap : Mapped mc tgt eva sz) {off : ℕ} (hoff : off < sz) {npa : Npa}
    {n : ℕ} (ht : evaToNpa mc defaultMap tgt (advance eva off) = .ok (npa, n)) {j : ℕ}
    (hj : j < min (sz - off) n) :
    placeAt mc tgt eva (off + j) = addEpa npa j ∧
      ∃ n', evaToNpa mc defaultMap tgt (advance eva (off + j)) = .ok (addEpa npa j, n') := by
  obtain ⟨hend, hn⟩ := Nat.lt_min.mp hj
  obtain ⟨n', ht'⟩ := hmap.segment off npa n hoff ht j hn (by omega)
  exact ⟨placeAt_of_ok ht', n', ht'⟩

theorem placeAt_injective (hmap : Mapped mc tgt eva sz)
    (htrans : ∀ k < sz, ∃ n, evaToNpa mc defaultMap tgt (advance eva k) =
      .ok (placeAt mc tgt eva k, n)) :
    ∀ i < sz, ∀ j < sz, placeAt mc tgt eva i = placeAt mc tgt eva j → i = j := by
  intro i hi j hj heq
  obtain ⟨n, hn⟩ := htrans i hi
  obtain ⟨n', hn'⟩ := htrans j hj
  rw [← heq] at hn'
  exact hmap.injective i j _ n n' hi hj hn hn'

/-- The bytes of a range are at given places: each chunk of words that is translated covers the
places behind it, and those with a name have an address of their own. -/
structure Places (mc : Manycore) (tgt : Coord) (eva : UInt32) (sz : ℕ) (place : ℕ → Npa)
    (named : ℕ → Prop) : Prop where
  chunk : ∀ off npa n, off < sz → off % 4 = 0 →
    evaToNpa mc defaultMap tgt (advance eva off) = .ok (npa, n) → ∀ j < n, off + j < sz →
      place (off + j) = addEpa npa j ∧ (named (off + j) →
        ∃ n', evaToNpa mc defaultMap tgt (advance eva (off + j)) = .ok (place (off + j), n'))

theorem places_of_mapped (hmap : Mapped mc tgt eva sz) :
    Places mc tgt eva sz (placeAt mc tgt eva) fun _ => True := by
  constructor
  intro off npa n hoff _ ht j hj hend
  obtain ⟨hp, n', ht'⟩ := placeAt_segment hmap hoff ht (Nat.lt_min.mpr ⟨by omega, hj⟩)
  refine ⟨hp, fun _ => ⟨n', ?_⟩⟩
  rw [hp]
  exact ht'

structure Written (mc : Manycore) (tgt : Coord) (eva : UInt32) (place : ℕ → Npa)
    (named : ℕ → Prop) (buf : ℕ → UInt8) (before : List RequestPacket) (off : ℕ)
    (sent : List RequestPacket) : Prop where
  aligned : off % 4 = 0
  translated : ∀ k < off, named k →
    ∃ n, evaToNpa mc defaultMap tgt (advance eva k) = .ok (place k, n)
  reached : ∀ k < off, k % 4 = 0 → Reached (place k)
  log : logOf sent = logOf before ++ (List.range off).map fun k => (place k, buf k)

section Write

variable {place : ℕ → Npa} {named : ℕ → Prop}

theorem written_step (hfit : FitsPacket mc.config) (hplaces : Places mc tgt eva sz place named)
    {platform : Platform} {data : ℕ} {buf : ℕ → UInt8} {before sent sent' : List RequestPacket}
    {off n : ℕ} {npa : Npa} (hoff : off < sz)
    (ht : evaToNpa mc defaultMap tgt (advance eva off) = .ok (npa, n))
    (hw : writeMem mc platform npa (data + off) (bufferWords buf off) (min (sz - off) n) sent =
      (.ok (), sent'))
    (h : Written mc tgt eva place named buf before off sent) :
    Written mc tgt eva place named buf before (off + min (sz - off) n) sent' := by
  obtain ⟨hx, hreach, hlog⟩ := writeMem_ok hfit hw
  have hal := h.aligned
  have hchunk : ∀ j < min (sz - off) n, place (off + j) = addEpa npa j ∧ (named (off + j) →
      ∃ n', evaToNpa mc defaultMap tgt (advance eva (off + j)) = .ok (place (off + j), n')) := by
    intro j hj
    exact hplaces.chunk off npa n hoff hal ht j (by omega) (by omega)
  constructor
  · omega
  · intro k hk hnamed
    rcases Nat.lt_or_ge k off with hlt | hge
    · exact h.translated k hlt hnamed
    · obtain ⟨j, rfl⟩ := Nat.exists_eq_add_of_le hge
      exact (hchunk j (Nat.lt_of_add_lt_add_left hk)).2 hnamed
  · intro k hk hk4
    rcases Nat.lt_or_ge k off with hlt | hge
    · exact h.reached k hlt hk4
    · obtain ⟨j, rfl⟩ := Nat.exists_eq_add_of_le hge
      have hj := Nat.lt_of_add_lt_add_left hk
      have hj4 : 4 * (j / 4) = j := by omega
      rw [(hchunk j hj).1, ← hj4]
      exact hreach (j / 4) (by omega)
  · have hbytes : (List.range (min (sz - off) n)).map (fun j =>
        (addEpa npa j, byteOf (bufferWords buf off (j / 4)) (j % 4))) =
        ((List.range (min (sz - off) n)).map (off + ·)).map fun k => (place k, buf k) := by
      rw [List.map_map]
      refine List.map_congr_left fun j hj => ?_
      rw [Function.comp_apply, (hchunk j (List.mem_range.mp hj)).1, byteOf_bufferWords]
    rw [hlog, h.log, hbytes, List.append_assoc, ← List.map_append, ← List.range_add]

theorem evaWrite_written (hfit : FitsPacket mc.config)
    (hplaces : Places mc tgt eva sz place named) {platform : Platform} {data : ℕ}
    {buf : ℕ → UInt8} {sent sent' : List RequestPacket}
    (h : evaWrite mc defaultMap tgt platform eva data buf sz sent = some (.ok (), sent')) :
    Written mc tgt eva place named buf sent sz sent' := by
  refine transferFrom_success h (advance_zero eva) (advance_advance eva) ?_ ?_
  · intro off npa n s t hoff ht hw hs
    exact written_step hfit hplaces hoff ht (Option.some.inj hw) hs
  · refine ⟨rfl, ?_, ?_, (List.append_nil _).symm⟩
    · intro k hk
      exact absurd hk (Nat.not_lt_zero k)
    · intro k hk
      exact absurd hk (Nat.not_lt_zero k)

end Write

def wordPlace (mc : Manycore) (tgt : Coord) (eva : UInt32) (k : ℕ) : Npa :=
  addEpa (placeAt mc tgt eva (4 * (k / 4))) (k % 4)

section Words

variable {s k : ℕ}

theorem places_of_words (h : Fields mc s k) (hend : eva.toNat + sz ≤ 2 ^ 32)
    (hmap : 2 ^ 31 < eva.toNat + sz → s ≤ addrBits mc) :
    Places mc tgt eva sz (wordPlace mc tgt eva) fun k => k % 4 = 0 := by
  constructor
  intro off npa n hoff hal ht j hj hlt
  have hval : ∀ i < sz, (advance eva i).toNat = eva.toNat + i :=
    fun i hi => advance_toNat (by omega)
  have hword : ∀ i ≤ j, i % 4 = 0 →
      ∃ n', evaToNpa mc defaultMap tgt (advance eva (off + i)) = .ok (addEpa npa i, n') := by
    intro i hi hi4
    refine word_segment h ?_ ?_ hi4 (by omega) ht
    · rw [hval off hoff]
      intro hd
      exact hmap (by omega)
    · rw [hval off hoff, hval (off + i) (by omega), Nat.add_assoc]
  have hsplit : 4 * ((off + j) / 4) = off + 4 * (j / 4) := by omega
  have hrem : (off + j) % 4 = j % 4 := by omega
  obtain ⟨n', hn'⟩ := hword (4 * (j / 4)) (by omega) (by omega)
  have hplace : wordPlace mc tgt eva (off + j) = addEpa npa j := by
    rw [wordPlace, hsplit, hrem, placeAt_of_ok hn', addEpa_add, Nat.div_add_mod]
  refine ⟨hplace, fun hnamed => ?_⟩
  rw [hplace]
  exact hword j le_rfl (by omega)

theorem wordPlace_advance {off : ℕ} (hoff : off % 4 = 0) (i : ℕ) :
    wordPlace mc tgt (advance eva off) i = wordPlace mc tgt eva (off + i) := by
  have hdiv : 4 * ((off + i) / 4) = off + 4 * (i / 4) := by omega
  have hmod : (off + i) % 4 = i % 4 := by omega
  simp only [wordPlace, placeAt, hdiv, hmod, advance_advance]

end Words

theorem setBufferWords_of_lt {buf : ℕ → UInt8} {words : ℕ → UInt32} {off k : ℕ} (h : k < off) :
    setBufferWords buf off words k = buf k :=
  if_pos h

theorem setBufferWords_add {buf : ℕ → UInt8} {words : ℕ → UInt32} (off j : ℕ) :
    setBufferWords buf off words (off + j) = byteOf (words (j / 4)) (j % 4) := by
  rw [setBufferWords, if_neg (Nat.not_lt.mpr (Nat.le_add_right off j)), Nat.add_sub_cancel_left]

structure Filled (mc : Manycore) (tgt : Coord) (eva : UInt32) (m : Npa → UInt8)
    (old : ℕ → UInt8) (off : ℕ) (buf : ℕ → UInt8) : Prop where
  aligned : off % 4 = 0
  read : ∀ k < off, buf k = m (placeAt mc tgt eva k)
  frame : ∀ k, off ≤ k → buf k = old k

theorem filled_step (hcap : ReadMem.nIds mc ≤ 256) (hsz : sz < 2 ^ 32)
    (hmap : Mapped mc tgt eva sz)
    (hreach : ∀ k < sz, k % 4 = 0 → Reached (placeAt mc tgt eva k)) {m : Npa → UInt8}
    {answers : List ReadMem.Event} {data off n : ℕ} {old buf : ℕ → UInt8} {words : ℕ → UInt32}
    {npa : Npa} (hoff : off < sz)
    (ht : evaToNpa mc defaultMap tgt (advance eva off) = .ok (npa, n))
    (hr : readMem mc (loadWord m) answers npa (data + off) (bufferWords buf off)
      (min (sz - off) n) = some (.ok (), words))
    (h : Filled mc tgt eva m old off buf) :
    Filled mc tgt eva m old (off + min (sz - off) n) (setBufferWords buf off words) := by
  obtain ⟨hx, hread, hframe⟩ := readMem_ok hcap (by omega) hr
  have hal := h.aligned
  constructor
  · omega
  · intro k hk
    rcases Nat.lt_or_ge k off with hlt | hge
    · rw [setBufferWords_of_lt hlt]
      exact h.read k hlt
    · obtain ⟨j, rfl⟩ := Nat.exists_eq_add_of_le hge
      have hj := Nat.lt_of_add_lt_add_left hk
      have hfirst : 4 * (j / 4) < min (sz - off) n := by omega
      have hword := hreach (off + 4 * (j / 4)) (by omega) (by omega)
      rw [(placeAt_segment hmap hoff ht hfirst).1] at hword
      rw [setBufferWords_add, hread (j / 4) (by omega), loadWord_of_reached hword,
        byteOf_packWord _ (Nat.mod_lt _ (by decide)), addEpa_add, Nat.div_add_mod,
        (placeAt_segment hmap hoff ht hj).1]
  · intro k hk
    have hge : off ≤ k := (Nat.le_add_right off _).trans hk
    obtain ⟨j, rfl⟩ := Nat.exists_eq_add_of_le hge
    rw [setBufferWords_add, hframe (j / 4) (by omega), byteOf_bufferWords]
    exact h.frame (off + j) hge

theorem evaRead_filled (hcap : ReadMem.nIds mc ≤ 256) (hsz : sz < 2 ^ 32)
    (hmap : Mapped mc tgt eva sz)
    (hreach : ∀ k < sz, k % 4 = 0 → Reached (placeAt mc tgt eva k)) {m : Npa → UInt8}
    {answers : ℕ → List ReadMem.Event} {data calls : ℕ} {old new : ℕ → UInt8}
    (h : evaRead mc defaultMap tgt m answers eva data old sz = some (.ok (), calls, new)) :
    Filled mc tgt eva m old sz new := by
  refine transferFrom_success (P := fun off s => Filled mc tgt eva m old off s.2) h
    (advance_zero eva) (advance_advance eva) ?_ ?_
  · intro off npa n s t hoff ht hr hs
    obtain ⟨⟨result, words⟩, hw, heq⟩ := Option.map_eq_some_iff.mp hr
    simp only [Prod.mk.injEq] at heq
    obtain ⟨rfl, rfl⟩ := heq
    exact filled_step hcap hsz hmap hreach hoff ht hw hs
  · exact ⟨rfl, fun k hk => absurd hk (Nat.not_lt_zero k), fun k _ => rfl⟩

/-- Filling a range and writing a buffer full of the value are the same run. -/
theorem evaMemset_eq {map : EvaMap} {platform : Platform} {val : UInt8}
    {sent : List RequestPacket} (data : ℕ) (hdata : data % 4 = 0) :
    evaMemset mc map tgt platform eva val sz sent =
      evaWrite mc map tgt platform eva data (fun _ => val) sz sent := by
  refine transferFrom_congr (Q := fun off => off % 4 = 0) ?_ ?_ rfl _ _ _
  · intro npa off xfer s hoff
    rw [memset_eq_writeMem (data + off) (by omega)]
    rfl
  · intro npa off xfer s t hoff hx
    have hsz : xfer % 4 = 0 := by
      simp only [Option.some.injEq] at hx
      unfold memset at hx
      split at hx
      · cases hx
      · next hargs => exact readWriteMemCheckArgs_ok hargs
    omega

theorem evaMemset_written (hfit : FitsPacket mc.config) {place : ℕ → Npa} {named : ℕ → Prop}
    (hplaces : Places mc tgt eva sz place named) {platform : Platform} {val : UInt8}
    {sent sent' : List RequestPacket}
    (h : evaMemset mc defaultMap tgt platform eva val sz sent = some (.ok (), sent')) :
    Written mc tgt eva place named (fun _ => val) sent sz sent' := by
  rw [evaMemset_eq 0 rfl] at h
  exact evaWrite_written hfit hplaces h

theorem deliver_written {m : Npa → UInt8} {buf : ℕ → UInt8} {before sent : List RequestPacket}
    (hmap : Mapped mc tgt eva sz)
    (h : Written mc tgt eva (placeAt mc tgt eva) (fun _ => True) buf before sz sent) :
    ∀ k < sz, deliver m sent (placeAt mc tgt eva k) = buf k := by
  intro k hk
  have hinj := placeAt_injective hmap fun k hk => h.translated k hk trivial
  have hnodup : (((List.range sz).map fun k => (placeAt mc tgt eva k, buf k)).map
      Prod.fst).Nodup := by
    rw [List.map_map]
    refine List.Nodup.map_on ?_ List.nodup_range
    intro i hi j hj heq
    exact hinj i (List.mem_range.mp hi) j (List.mem_range.mp hj) heq
  rw [deliver, h.log, applyLog_append]
  exact applyLog_of_mem _ hnodup (List.mem_map.mpr ⟨k, List.mem_range.mpr hk, rfl⟩)

end Proof

/-- The whole range lies in DRAM or in the data memory of one tile. -/
def InMemory (eva : UInt32) (sz : ℕ) : Prop :=
  2 ^ 31 ≤ eva.toNat ∨ eva.toNat < 2 ^ 31 ∧ tileOffset eva + sz ≤ 4096

instance (eva : UInt32) (sz : ℕ) : Decidable (InMemory eva sz) :=
  inferInstanceAs (Decidable (_ ∨ _ ∧ _))

theorem eva_memory {mc : Manycore} {s k : ℕ} (hcfg : Accepted mc.config) (h : Striped mc s k)
    (hfit : FitsPacket mc.config) (tgt : Coord) {eva : UInt32} {sz : ℕ}
    (hend : eva.toNat + sz ≤ 2 ^ 32) (hrange : InMemory eva sz)
    (hstripe : 2 ^ 31 ≤ eva.toNat → s ≤ addrBits mc) : MemoryLaw mc tgt eva sz := by
  have hlimits := hcfg.limits
  have hmap : Mapped mc tgt eva sz := by
    rcases hrange with hd | ⟨hd, hoff⟩
    · exact mapped_dram h (hstripe hd) (hlimits.podShapeY.trans (by decide)) hend hd
    · exact mapped_dmem hd hoff
  have hsz : sz < 2 ^ 32 := by
    rcases hrange with hd | ⟨-, hoff⟩ <;> omega
  have hcap : ReadMem.nIds mc ≤ 256 := hlimits.loadCap.trans (by decide)
  constructor
  · intro platform data buf sent
    exact evaWrite_terminates platform data buf sent
  · intro platform data buf sent sent' hw
    have hwr := evaWrite_written hfit (places_of_mapped hmap) hw
    have htrans := fun k hk => hwr.translated k hk trivial
    exact ⟨placeAt mc tgt eva, htrans, placeAt_injective hmap htrans, hwr.log⟩
  · intro platform data buf sent sent' m answers data' old calls new hw hr
    have hwr := evaWrite_written hfit (places_of_mapped hmap) hw
    have hrd := evaRead_filled hcap hsz hmap hwr.reached hr
    refine ⟨fun i hi => ?_, hrd.frame⟩
    rw [hrd.read i hi]
    exact deliver_written hmap hwr i hi
  · intro platform data val sent hdata
    exact evaMemset_eq data hdata
  · intro platform platform' data val sent sent' m hset hw
    rw [evaMemset_eq 0 rfl] at hset
    rw [deliver, deliver, (evaWrite_written hfit (places_of_mapped hmap) hset).log,
      (evaWrite_written hfit (places_of_mapped hmap) hw).log]

def takesAll : Platform := ⟨fun _ => .ok (), fun _ => .ok ()⟩

private def oneWordEach (words : ℕ → UInt32) (call : ℕ) : List ReadMem.Event :=
  [.turn, .send (.ok ()), .turn, .recv (.ok ⟨0, words call⟩), .turn, .turn]

/-- Eight bytes across the end of a stripe are written to two caches and read back. -/
theorem eva_memory_x16y8 :
    (∃ sent calls new,
      evaWrite ⟨({} : Machine).config, true⟩ defaultMap ⟨16, 8⟩ takesAll 0x8000007c 0
        (fun k => UInt8.ofNat k) 8 [] = some (.ok (), sent) ∧
      evaRead ⟨({} : Machine).config, true⟩ defaultMap ⟨16, 8⟩ (deliver (fun _ => 9) sent)
        (oneWordEach fun i => if i = 0 then 0x03020100 else 0x07060504) 0x8000007c 0
        (fun _ => 9) 8 = some (.ok (), calls, new)) ∧
      MemoryLaw ⟨({} : Machine).config, true⟩ ⟨16, 8⟩ 0x8000007c 8 := by
  refine ⟨?_, eva_memory (s := 7) (k := 4) (Machine.config_accepted _ (by decide))
    ⟨by decide, by decide⟩ ⟨by decide, by decide⟩ ⟨16, 8⟩ (by decide) (by decide)
    fun _ => by decide⟩
  have hrun : (evaWrite ⟨({} : Machine).config, true⟩ defaultMap ⟨16, 8⟩ takesAll 0x8000007c 0
      (fun k => UInt8.ofNat k) 8 []).any (fun r => r.1.isOk &&
        (evaRead ⟨({} : Machine).config, true⟩ defaultMap ⟨16, 8⟩ (deliver (fun _ => 9) r.2)
          (oneWordEach fun i => if i = 0 then 0x03020100 else 0x07060504) 0x8000007c 0
          (fun _ => 9) 8).any fun r => r.1.isOk) = true := by decide +kernel
  obtain ⟨⟨result, sent⟩, hw, hr⟩ := (Option.any_eq_true _ _).mp hrun
  obtain ⟨hok, hr⟩ := Bool.and_eq_true_iff.mp hr
  obtain ⟨⟨result', calls, new⟩, hr, hok'⟩ := (Option.any_eq_true _ _).mp hr
  cases result with
  | error e => cases hok
  | ok u =>
    cases result' with
    | error e => cases hok'
    | ok u' => exact ⟨sent, calls, new, hw, hr⟩

structure AlignedRange (mc : Manycore) (tgt : Coord) (eva : UInt32) (sz : ℕ) : Prop where
  accepted : Accepted mc.config
  striped : ∃ s k, Striped mc s k
  tile : ∃ p, IsPod mc.config p ∧ IsTile mc.config p tgt
  aligned : eva.toNat % 4 = 0
  size : sz % 4 = 0
  bound : eva.toNat + sz ≤ 2 ^ 32
  memory : InMemory eva sz

/-- Stripes of eight bytes over caches of four. -/
def smallCaches : Machine where
  vcacheWay := 1
  vcacheSet := 1
  vcacheLineWords := 1
  vcacheStripeWords := 2

/-- Four pods side by side, with columns past the eight bits of a packet. -/
def wideNetwork : Machine where
  podsX := 4
  nocCoordXWidth := 9

/-- The second word of a stripe has no address, and is written all the same. -/
private theorem smallCaches_fails :
    ¬ MemoryLaw ⟨smallCaches.config, false⟩ ⟨16, 8⟩ 0x80000000 8 := by
  intro h
  have hrun : (evaWrite ⟨smallCaches.config, false⟩ defaultMap ⟨16, 8⟩ takesAll 0x80000000 0
      (fun _ => 7) 8 []).any (fun r => r.1.isOk) = true := by decide +kernel
  obtain ⟨⟨result, sent⟩, hw, hok⟩ := (Option.any_eq_true _ _).mp hrun
  cases result with
  | error e => cases hok
  | ok u =>
    obtain ⟨target, htrans, -⟩ := h.write _ _ _ _ _ hw
    obtain ⟨n, hn⟩ := htrans 4 (by decide)
    have herr : (evaToNpa ⟨smallCaches.config, false⟩ defaultMap ⟨16, 8⟩
        (advance 0x80000000 4)).isOk = false := by decide +kernel
    rw [hn] at herr
    cases herr

/-- The tile in column 256 writes to column 0. -/
private theorem wideNetwork_fails :
    ¬ MemoryLaw ⟨wideNetwork.config, true⟩ ⟨256, 8⟩ 0 4 := by
  intro h
  have hrun : (evaWrite ⟨wideNetwork.config, true⟩ defaultMap ⟨256, 8⟩ takesAll 0 0
      (fun _ => 7) 4 []).any (fun r => r.1.isOk &&
        (logOf r.2).head? = some (⟨0, 8, 0⟩, 7)) = true := by decide +kernel
  obtain ⟨⟨result, sent⟩, hw, hr⟩ := (Option.any_eq_true _ _).mp hrun
  obtain ⟨hok, hhead⟩ := Bool.and_eq_true_iff.mp hr
  cases result with
  | error e => cases hok
  | ok u =>
    obtain ⟨target, htrans, -, hlog⟩ := h.write _ _ _ _ _ hw
    obtain ⟨n, hn⟩ := htrans 0 (by decide)
    have hplace : evaToNpa ⟨wideNetwork.config, true⟩ defaultMap ⟨256, 8⟩ (advance 0 0) =
        .ok (⟨256, 8, 0⟩, 4096) := rfl
    rw [hplace, Except.ok.injEq, Prod.mk.injEq] at hn
    have hfirst : (logOf sent).head? = some (⟨0, 8, 0⟩, 7) := of_decide_eq_true hhead
    rw [hlog] at hfirst
    have hzero : target 0 = ⟨0, 8, 0⟩ :=
      (Prod.mk.inj (Option.some.inj hfirst)).1
    rw [← hn.1] at hzero
    exact absurd hzero (by decide)

theorem eva_memory_fails :
    (∃ mc tgt eva sz, AlignedRange mc tgt eva sz ∧ FitsPacket mc.config ∧
      ¬ MemoryLaw mc tgt eva sz) ∧
    (∃ mc tgt eva sz, AlignedRange mc tgt eva sz ∧
      (∃ s k, Striped mc s k ∧ s ≤ addrBits mc) ∧ ¬ MemoryLaw mc tgt eva sz) := by
  constructor
  · refine ⟨⟨smallCaches.config, false⟩, ⟨16, 8⟩, 0x80000000, 8, ?_, ⟨by decide, by decide⟩,
      smallCaches_fails⟩
    exact ⟨Machine.config_accepted _ (by decide), ⟨3, 4, by decide, by decide⟩,
      ⟨⟨0, 0⟩, by decide, by decide⟩, by decide, by decide, by decide, by decide⟩
  · refine ⟨⟨wideNetwork.config, true⟩, ⟨256, 8⟩, 0, 4, ?_, ⟨7, 4, ⟨by decide, by decide⟩,
      by decide⟩, wideNetwork_fails⟩
    exact ⟨Machine.config_accepted _ (by decide), ⟨7, 4, by decide, by decide⟩,
      ⟨⟨3, 0⟩, by decide, by decide⟩, by decide, by decide, by decide, by decide⟩

end EvaMemory
