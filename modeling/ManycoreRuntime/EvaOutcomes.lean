import ManycoreRuntime.EvaMemory

/-! # Transfers that fail

A write that fails has written a front part of its range, and a read that fails has touched no
byte outside the buffer it was given. -/
namespace EvaOutcomes

open Fallible (bind_eq_ok)
open ByteStore
open ChunkedTransfer
open Coordinate (Coord Errno)
open Configuration (Config Manycore)
open EvaMemory
open EvaRanges
open EvaToNpa
open NpaToEva (evaToNpa defaultMap)
open Packets
open WriteMem

variable {mc : Manycore}

section Write

variable {platform : Platform} {words : ℕ → UInt32} {npa : Npa} {sz : ℕ}
  {sent sent' : List RequestPacket} {r : Except Errno Unit}

def chunkLog (npa : Npa) (words : ℕ → UInt32) (n : ℕ) : List (Npa × UInt8) :=
  (List.range n).map fun j => (addEpa npa j, byteOf (words (j / 4)) (j % 4))

theorem writeWords_fails {n i : ℕ} {addr : Npa} {e : Errno}
    (h : writeWords mc platform words n i addr sent = (.error e, sent')) :
    ∃ m < n, writeWords mc platform words m i addr sent = (.ok (), sent') := by
  induction n generalizing i addr sent with
  | zero => cases h
  | succ n ih =>
    rw [writeWords] at h
    split at h
    · cases h
      exact ⟨0, Nat.succ_pos n, rfl⟩
    · next rqst hw =>
      obtain ⟨m, hm, hrest⟩ := ih h
      refine ⟨m + 1, Nat.succ_lt_succ hm, ?_⟩
      rw [writeWords, hw]
      exact hrest

theorem writeWords_prefix (hfit : FitsPacket mc.config) {n : ℕ}
    (h : writeWords mc platform words n 0 npa sent = (r, sent')) :
    ∃ m ≤ n, (r = .ok () → m = n) ∧
      logOf sent' = logOf sent ++ chunkLog npa words (4 * m) := by
  have hlog : ∀ m, writeWords mc platform words m 0 npa sent = (.ok (), sent') →
      logOf sent' = logOf sent ++ chunkLog npa words (4 * m) := by
    intro m hm
    have hm := (writeWords_ok hfit hm).2
    simp only [Nat.zero_add] at hm
    exact hm
  cases r with
  | ok u => exact ⟨n, le_rfl, fun _ => rfl, hlog n h⟩
  | error e =>
    obtain ⟨m, hm, hshort⟩ := writeWords_fails h
    exact ⟨m, hm.le, fun he => absurd he (by simp), hlog m hshort⟩

theorem writeMem_prefix (hfit : FitsPacket mc.config) {data : ℕ}
    (h : writeMem mc platform npa data words sz sent = (r, sent')) :
    ∃ m ≤ sz, (r = .ok () → m = sz) ∧ logOf sent' = logOf sent ++ chunkLog npa words m := by
  have hnone : logOf sent = logOf sent ++ chunkLog npa words 0 := (List.append_nil _).symm
  unfold writeMem at h
  split at h
  · cases h
    exact ⟨0, Nat.zero_le sz, fun he => absurd he (by simp), hnone⟩
  · next hargs =>
    have hsz := readWriteMemCheckArgs_ok hargs
    have hwhole : 4 * (sz / 4) = sz := by omega
    unfold sendWords at h
    split at h
    · next e left hw =>
      cases h
      obtain ⟨m, hm, -, hlog⟩ := writeWords_prefix hfit hw
      exact ⟨4 * m, by omega, fun he => absurd he (by simp), hlog⟩
    · next u left hw =>
      cases h
      obtain ⟨m, hm, hall, hlog⟩ := writeWords_prefix hfit hw
      obtain rfl := hall rfl
      rw [hwhole] at hlog
      exact ⟨sz, le_rfl, fun _ => rfl, hlog⟩

end Write

section Range

variable {tgt : Coord} {eva : UInt32} {sz : ℕ}

def rangeLog (mc : Manycore) (tgt : Coord) (eva : UInt32) (buf : ℕ → UInt8) (n : ℕ) :
    List (Npa × UInt8) :=
  (List.range n).map fun k => (placeAt mc tgt eva k, buf k)

theorem rangeLog_chunk (hmap : Mapped mc tgt eva sz) {buf : ℕ → UInt8} {off n m : ℕ} {npa : Npa}
    (hoff : off < sz) (ht : evaToNpa mc defaultMap tgt (advance eva off) = .ok (npa, n))
    (hm : m ≤ min (sz - off) n) :
    rangeLog mc tgt eva buf off ++ chunkLog npa (bufferWords buf off) m =
      rangeLog mc tgt eva buf (off + m) := by
  rw [rangeLog, rangeLog, List.range_add, List.map_append, List.map_map, chunkLog]
  congr 1
  apply List.map_congr_left
  intro j hj
  have hlt : j < min (sz - off) n := lt_of_lt_of_le (List.mem_range.mp hj) hm
  rw [Function.comp_apply, (placeAt_segment hmap hoff ht hlt).1, byteOf_bufferWords]

/-- Whatever its result, a write has written the first bytes of its range, all of them if it
succeeds. -/
theorem evaWrite_outcome (hfit : FitsPacket mc.config) (hmap : Mapped mc tgt eva sz)
    {platform : Platform} {data : ℕ} {buf : ℕ → UInt8} {sent sent' : List RequestPacket}
    {r : Except Errno Unit}
    (h : evaWrite mc defaultMap tgt platform eva data buf sz sent = some (r, sent')) :
    ∃ n ≤ sz, (r = .ok () → n = sz) ∧
      logOf sent' = logOf sent ++ rangeLog mc tgt eva buf n := by
  have hrun := h
  rw [evaWrite, evaWriteInternal, ← advance_zero eva] at hrun
  have hout := transferFrom_outcome
    (P := fun off s => logOf s = logOf sent ++ rangeLog mc tgt eva buf off)
    (Q := fun s => ∃ n ≤ sz, logOf s = logOf sent ++ rangeLog mc tgt eva buf n)
    (advance_advance eva) ?_ ?_ (Nat.zero_le sz) (List.append_nil _).symm hrun
  · rcases hout with ⟨rfl, hall⟩ | ⟨hne, n, hn, hlog⟩
    · exact ⟨sz, le_rfl, fun _ => rfl, hall⟩
    · exact ⟨n, hn, fun he => absurd he hne, hlog⟩
  · intro off s hoff hs
    exact ⟨off, hoff.le, hs⟩
  · intro off npa n s result t hoff ht hw hs
    obtain ⟨m, hm, hall, hlog⟩ := writeMem_prefix hfit (Option.some.inj hw)
    rw [hs, List.append_assoc, rangeLog_chunk hmap hoff ht hm] at hlog
    constructor
    · intro hok
      rw [hall hok] at hlog
      exact hlog
    · exact ⟨off + m, by omega, hlog⟩

theorem evaMemset_outcome (hfit : FitsPacket mc.config) (hmap : Mapped mc tgt eva sz)
    {platform : Platform} {val : UInt8} {sent sent' : List RequestPacket}
    {r : Except Errno Unit}
    (h : evaMemset mc defaultMap tgt platform eva val sz sent = some (r, sent')) :
    ∃ n ≤ sz, (r = .ok () → n = sz) ∧
      logOf sent' = logOf sent ++ rangeLog mc tgt eva (fun _ => val) n := by
  rw [evaMemset_eq 0 rfl] at h
  exact evaWrite_outcome hfit hmap h

end Range

section Load

open ReadMem (Event Load State Honest Invariant)

variable {npa : ℕ → Npa} {cnt : ℕ} {mem : Npa → UInt32} {data : ℕ → UInt32} {s : State}

theorem sendReadRqst_reached (hfit : FitsPacket mc.config) {addr : Npa} {loadId : UInt32}
    {tx : Except Errno Unit} {rqst : RequestPacket}
    (h : sendReadRqst mc addr 4 loadId tx = .ok rqst) : Reached addr := by
  simp only [sendReadRqst, formatLoadRequestPacket, bind_eq_ok] at h
  obtain ⟨load, ⟨pkt, hpkt, -⟩, u, halign, -⟩ := h
  -- a store to the address passes the same checks
  have hstore : ∃ rqst', write mc addr 0 4 (.ok ()) = .ok rqst' := by
    simp only [write, hpkt, halign, bind, Except.bind, pure, Except.pure]
    exact ⟨_, rfl⟩
  obtain ⟨rqst', hw⟩ := hstore
  exact (write_word hfit hw).1

structure Reads (npa : ℕ → Npa) (s : State) : Prop where
  pending : ∀ l ∈ s.pending, Reached l.npa
  written : ∀ i ∈ s.writes, Reached (npa i)

theorem next_reads (hfit : FitsPacket mc.config) (hinv : Invariant mc npa cnt mem data s)
    (h : Reads npa s) {e : Event} (hon : Honest mem s e) {t : State}
    (hn : ReadMem.next mc npa cnt s e = some t) : Reads npa t := by
  cases ReadMem.step_of_next hn with
  | turn pc hturns => exact ⟨h.pending, h.written⟩
  | recvError e => exact ⟨h.pending, h.written⟩
  | send loadId rest tx hpc hids hlt =>
    cases hs : sendReadRqst mc (npa s.rqstI) 4 loadId tx with
    | error e => cases e <;> simp only [ReadMem.send, hs] <;> exact ⟨h.pending, h.written⟩
    | ok rqst =>
      simp only [ReadMem.send, hs]
      refine ⟨?_, h.written⟩
      intro l hl
      rcases List.mem_cons.mp hl with rfl | hl
      · exact sendReadRqst_reached hfit hs
      · exact h.pending l hl
  | recv hpc =>
    obtain ⟨before, l, after, i, hans⟩ := hinv.answered hon
    have hl : l ∈ s.pending := by
      rw [hans.pending]
      exact List.mem_append_right _ List.mem_cons_self
    rw [hans.recv]
    constructor
    · intro m hm
      refine h.pending m ?_
      rw [hans.pending]
      rcases List.mem_append.mp hm with hm | hm
      · exact List.mem_append_left _ hm
      · exact List.mem_append_right _ (List.mem_cons_of_mem _ hm)
    · intro j hj
      rcases List.mem_cons.mp hj with rfl | hj
      · obtain ⟨k, hk, hnpa⟩ := hinv.recorded l hl
        have hslot := hans.slot
        simp only [ReadMem.slotOf, hk] at hslot
        rw [← hslot, ← hnpa]
        exact h.pending l hl
      · exact h.written j hj

theorem reachable_reads (hfit : FitsPacket mc.config) (hcap : ReadMem.nIds mc ≤ 256)
    (hcnt : cnt ≤ 2 ^ 32)
    (h : Transition.Reachable ((ReadMem.system mc npa cnt data).restrict (Honest mem)) s) :
    Invariant mc npa cnt mem data s ∧ Reads npa s := by
  refine @Transition.Reachable.invariant _ _ _
    (fun s => Invariant mc npa cnt mem data s ∧ Reads npa s) ?_ ?_ _ h
  · rintro _ rfl
    refine ⟨ReadMem.initial_invariant, ?_, ?_⟩
    · intro l hl
      cases hl
    · intro i hi
      cases hi
  · rintro s e t ⟨hinv, hs⟩ ⟨hon, hn⟩
    exact ⟨ReadMem.next_invariant hcap hcnt hinv hon hn, next_reads hfit hinv hs hon hn⟩

theorem readMem_outcome (hfit : FitsPacket mc.config) (hcap : ReadMem.nIds mc ≤ 256)
    {addr : Npa} {sz haddr : ℕ} (hsz : sz < 2 ^ 32) {answers : List Event}
    {words words' : ℕ → UInt32} {r : Except Errno Unit}
    (h : readMem mc mem answers addr haddr words sz = some (r, words')) :
    (∀ i, sz / 4 ≤ i → words' i = words i) ∧
      (r = .ok () → sz % 4 = 0 ∧ ∀ i < sz / 4, Reached (addEpa addr (4 * i))) := by
  unfold readMem at h
  split at h
  · cases h
    exact ⟨fun i _ => rfl, fun he => absurd he (by simp)⟩
  · next hargs =>
    split at h
    · cases h
    · next s hrun =>
      have hcnt : sz / 4 ≤ 2 ^ 32 := (Nat.div_le_self _ _).trans hsz.le
      obtain ⟨hinv, hreads⟩ :=
        reachable_reads hfit hcap hcnt (ReadMem.run_reachable (.initial rfl) hrun)
      split at h
      · next result hpc =>
        cases h
        constructor
        · intro i hi
          refine hinv.frame i fun hmem => ?_
          have hlt := hinv.slots.lt_of_mem_left hmem
          have hle := hinv.rqstI
          omega
        · rintro rfl
          refine ⟨readWriteMemCheckArgs_ok hargs, fun i hi => ?_⟩
          exact hreads.written i ((hinv.writes_perm hpc).mem_iff.mpr (List.mem_range.mpr hi))
      · cases h

end Load

section Buffer

variable {tgt : Coord} {eva : UInt32} {sz : ℕ}

/-- A read of the first `off` bytes of a range: the buffer behind them is as before, and their
words are at their own addresses. -/
structure ReadTo (mc : Manycore) (tgt : Coord) (eva : UInt32) (old : ℕ → UInt8) (off : ℕ)
    (buf : ℕ → UInt8) : Prop where
  aligned : off % 4 = 0
  reached : ∀ k < off, k % 4 = 0 → Reached (placeAt mc tgt eva k)
  frame : ∀ k, off ≤ k → buf k = old k

theorem setBufferWords_frame {buf : ℕ → UInt8} {words : ℕ → UInt32} {off n : ℕ}
    (h : ∀ i, n / 4 ≤ i → words i = bufferWords buf off i) {k : ℕ} (hk : off + n ≤ k) :
    setBufferWords buf off words k = buf k := by
  obtain ⟨j, rfl⟩ := Nat.exists_eq_add_of_le ((Nat.le_add_right off n).trans hk)
  rw [setBufferWords_add, h (j / 4) (by omega), byteOf_bufferWords]

/-- Whatever its result, a read touches no byte behind its buffer; if it succeeds, the buffer
holds the bytes of the range. -/
theorem evaRead_outcome (hfit : FitsPacket mc.config) (hcap : ReadMem.nIds mc ≤ 256)
    (hsz : sz < 2 ^ 32) (hmap : Mapped mc tgt eva sz) {m : Npa → UInt8}
    {answers : ℕ → List ReadMem.Event} {data calls : ℕ} {old new : ℕ → UInt8}
    {r : Except Errno Unit}
    (h : evaRead mc defaultMap tgt m answers eva data old sz = some (r, calls, new)) :
    (∀ k, sz ≤ k → new k = old k) ∧
      (r = .ok () → ∀ k < sz, new k = m (placeAt mc tgt eva k)) := by
  have hrun := h
  rw [evaRead, evaReadInternal, ← advance_zero eva] at hrun
  have hout := transferFrom_outcome (P := fun off s => ReadTo mc tgt eva old off s.2)
    (Q := fun s => ∀ k, sz ≤ k → s.2 k = old k) (advance_advance eva) ?_ ?_ (Nat.zero_le sz)
    ⟨rfl, fun k hk => absurd hk (Nat.not_lt_zero k), fun k _ => rfl⟩ hrun
  · rcases hout with ⟨rfl, hall⟩ | ⟨hne, hframe⟩
    · exact ⟨hall.frame, fun _ => (evaRead_filled hcap hsz hmap hall.reached h).read⟩
    · exact ⟨hframe, fun he => absurd he hne⟩
  · intro off s hoff hs k hk
    exact hs.frame k (hoff.le.trans hk)
  · intro off npa n s result t hoff ht hw hs
    obtain ⟨⟨result, words⟩, hread, heq⟩ := Option.map_eq_some_iff.mp hw
    simp only [Prod.mk.injEq] at heq
    obtain ⟨rfl, rfl⟩ := heq
    obtain ⟨hframe, hok⟩ := readMem_outcome hfit hcap (by omega) hread
    constructor
    · intro he
      obtain ⟨hmod, hreach⟩ := hok he
      have hal := hs.aligned
      refine ⟨by omega, ?_, ?_⟩
      · intro k hk hk4
        rcases Nat.lt_or_ge k off with hlt | hge
        · exact hs.reached k hlt hk4
        · obtain ⟨j, rfl⟩ := Nat.exists_eq_add_of_le hge
          have hj := Nat.lt_of_add_lt_add_left hk
          have hj4 : 4 * (j / 4) = j := by omega
          rw [(placeAt_segment hmap hoff ht hj).1, ← hj4]
          exact hreach (j / 4) (by omega)
      · intro k hk
        exact (setBufferWords_frame hframe hk).trans
          (hs.frame k ((Nat.le_add_right _ _).trans hk))
    · intro k hk
      exact (setBufferWords_frame hframe (by omega)).trans (hs.frame k (by omega))

end Buffer

end EvaOutcomes
