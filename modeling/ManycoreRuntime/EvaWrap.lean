import ManycoreRuntime.EvaMemory

/-! # Ranges that pass the last address

The address of a loop has 32 bits. A DRAM range that passes the last of them ends in an error
where a chunk cannot be translated or transferred; otherwise the loop goes on at address 0, the
data memory of the tile. -/
namespace EvaWrap

open Fallible (bind_eq_ok)
open ChunkedTransfer
open Coordinate (Coord Errno)
open Configuration (Manycore Accepted)
open ConfigPod (IsTile)
open DramTranslation
open EvaMemory
open EvaRanges
open EvaToNpa
open Machines (Machine)
open NpaToEva (evaToNpa defaultMap)
open Packets
open TileTranslation
open WriteMem

section Calls

variable (mc : Manycore) (tgt : Coord)

def writeChunk (platform : Platform) (data : ℕ) (buf : ℕ → UInt8) (npa : Npa) (off xfer : ℕ)
    (sent : List RequestPacket) : Option (Except Errno Unit × List RequestPacket) :=
  some (writeMem mc platform npa (data + off) (bufferWords buf off) xfer sent)

def readChunk (m : Npa → UInt8) (answers : ℕ → List ReadMem.Event) (data : ℕ) (npa : Npa)
    (off xfer : ℕ) (s : ℕ × (ℕ → UInt8)) : Option (Except Errno Unit × ℕ × (ℕ → UInt8)) :=
  (readMem mc (loadWord m) (answers s.1) npa (data + off) (bufferWords s.2 off) xfer).map
    fun r => (r.1, s.1 + 1, setBufferWords s.2 off r.2)

def memsetChunk (platform : Platform) (val : UInt8) (npa : Npa) (_ xfer : ℕ)
    (sent : List RequestPacket) : Option (Except Errno Unit × List RequestPacket) :=
  some (memset mc platform npa val xfer sent)

def chunkCalls {σ : Type} (chunk : Npa → ℕ → ℕ → σ → Option (Except Errno Unit × σ))
    (eva : UInt32) (sz : ℕ) (s : σ) : List (Call UInt32 Npa σ) :=
  callsFrom (evaToNpa mc defaultMap tgt) advance chunk sz eva 0 sz s

/-- The call gets past the checks of its arguments and of its destination, so that a packet for
its first word goes to the platform. -/
structure Issues (data : ℕ) (npa : Npa) (xfer : ℕ) : Prop where
  args : readWriteMemCheckArgs data xfer = .ok ()
  valid : dstNpaIsValid mc npa = true
  aligned : epaCheckAlignment npa.epa 4 = .ok ()

/-- Each loop over the range fails, and no packet of its goes below the DRAM addresses. -/
structure NoWrap (eva : UInt32) (sz : ℕ) : Prop where
  write : ∀ platform data buf sent,
    (∃ e sent', evaWrite mc defaultMap tgt platform eva data buf sz sent =
      some (.error e, sent')) ∧
    ∀ c ∈ chunkCalls mc tgt (writeChunk mc platform data buf) eva sz sent,
      Issues mc (data + c.off) c.loc c.xfer → 2 ^ 31 ≤ c.addr.toNat
  read : ∀ m answers data buf,
    ((∃ e s, evaRead mc defaultMap tgt m answers eva data buf sz = some (.error e, s)) ∨
      evaRead mc defaultMap tgt m answers eva data buf sz = none ∧
      ∃ c ∈ chunkCalls mc tgt (readChunk mc m answers data) eva sz (0, buf),
        readChunk mc m answers data c.loc c.off c.xfer c.state = none) ∧
    ∀ c ∈ chunkCalls mc tgt (readChunk mc m answers data) eva sz (0, buf),
      Issues mc (data + c.off) c.loc c.xfer → 2 ^ 31 ≤ c.addr.toNat
  memset : ∀ platform val sent,
    (∃ e sent', evaMemset mc defaultMap tgt platform eva val sz sent = some (.error e, sent')) ∧
    ∀ c ∈ chunkCalls mc tgt (memsetChunk mc platform val) eva sz sent,
      Issues mc 0 c.loc c.xfer → 2 ^ 31 ≤ c.addr.toNat

def stripeBits : ℕ := (defaultGetDramStripeSizeLog mc).toNat

/-- A chunk begins at the range's first byte and at the first byte of each later stripe. -/
def IsStart (eva : UInt32) (i : ℕ) : Prop := i = 0 ∨ (eva.toNat + i) % 2 ^ stripeBits mc = 0

def Passes (eva : UInt32) : Prop :=
  ∃ npa n, evaToNpa mc defaultMap tgt eva = .ok (npa, n) ∧ dstNpaIsValid mc npa = true

/-- Nothing stops the loops at the end of the range: the chunks are made of words, those below
the last address can be transferred, and so can the first one of the tile's data memory. -/
structure RunsOn (eva : UInt32) (sz : ℕ) : Prop where
  stripe : 2 ≤ stripeBits mc
  aligned : eva.toNat % 4 = 0
  starts : ∀ i, eva.toNat + i < 2 ^ 32 → IsStart mc eva i → Passes mc tgt (advance eva i)
  tile : dstNpaIsValid mc ⟨tgt.x, tgt.y, 0⟩ = true
  rest : (eva.toNat + sz) % 4 = 0 ∨ 2 ^ 32 + 4096 ≤ eva.toNat + sz

end Calls

section Proof

variable {mc : Manycore} {tgt : Coord} {eva : UInt32} {sz : ℕ}

theorem epaCheckAlignment_of_mod {epa : UInt32} (h : epa.toNat % 4 = 0) :
    epaCheckAlignment epa 4 = .ok () := by
  have hz : epa &&& 3 = 0 := by
    rw [← UInt32.toNat_inj, UInt32.toNat_and]
    exact (Nat.and_two_pow_sub_one_eq_mod _ 2).trans h
  simp only [epaCheckAlignment, hz, ne_eq, not_true, if_false]

theorem formatRequestPacket_valid {pkt rqst : RequestPacket} {npa : Npa}
    (h : formatRequestPacket mc pkt npa = .ok rqst) : dstNpaIsValid mc npa = true := by
  unfold formatRequestPacket at h
  split at h
  · next hv => exact hv
  · cases h

theorem write_issues {data : ℕ} {npa : Npa} {words : ℕ → UInt32} {xfer : ℕ} {platform : Platform}
    {sent sent' : List RequestPacket} (hpos : 0 < xfer)
    (hargs : readWriteMemCheckArgs data xfer = .ok ())
    (h : sendWords mc platform npa words xfer sent = (.ok (), sent')) :
    Issues mc data npa xfer := by
  obtain ⟨n, hn⟩ : ∃ n, xfer / 4 = n + 1 := by
    have := readWriteMemCheckArgs_ok hargs
    exact ⟨xfer / 4 - 1, by omega⟩
  rw [sendWords, hn, writeWords] at h
  split at h
  · cases h
  · next u t hw =>
    split at hw
    · cases hw
    · next rqst hw' =>
      simp only [write, bind_eq_ok] at hw'
      obtain ⟨pkt, hpkt, u', halign, -⟩ := hw'
      exact ⟨hargs, formatRequestPacket_valid hpkt, halign⟩

theorem writeMem_issues {data : ℕ} {npa : Npa} {words : ℕ → UInt32} {xfer : ℕ}
    {platform : Platform} {sent sent' : List RequestPacket} (hpos : 0 < xfer)
    (h : writeMem mc platform npa data words xfer sent = (.ok (), sent')) :
    Issues mc data npa xfer := by
  unfold writeMem at h
  split at h
  · cases h
  · next hargs => exact write_issues hpos hargs h

theorem memset_issues {val : UInt8} {npa : Npa} {xfer : ℕ} {platform : Platform}
    {sent sent' : List RequestPacket} (hpos : 0 < xfer)
    (h : memset mc platform npa val xfer sent = (.ok (), sent')) : Issues mc 0 npa xfer := by
  unfold memset at h
  split at h
  · cases h
  · next hargs => exact write_issues hpos hargs h

structure Requested (mc : Manycore) (npa : ℕ → Npa) (cnt : ℕ) (s : ReadMem.State) : Prop where
  order : s.rspI ≤ s.rqstI
  first : 0 < s.rqstI → dstNpaIsValid mc (npa 0) = true ∧ epaCheckAlignment (npa 0).epa 4 = .ok ()
  done : s.pc = .done (.ok ()) → cnt ≤ s.rspI

theorem requested_send {npa : ℕ → Npa} {cnt : ℕ} {s : ReadMem.State} (hpc : s.pc = .rqst)
    (h : Requested mc npa cnt s) (loadId : UInt32) (rest : List UInt32) (tx : Except Errno Unit) :
    Requested mc npa cnt (ReadMem.send mc npa s loadId rest tx) := by
  have hne : s.pc ≠ .done (.ok ()) := by
    rw [hpc]
    exact ReadMem.Pc.noConfusion
  cases hs : sendReadRqst mc (npa s.rqstI) 4 loadId tx with
  | error e =>
    cases e <;> simp only [ReadMem.send, hs] <;>
      exact ⟨h.order, h.first, fun he => by cases he⟩
  | ok rqst =>
    simp only [ReadMem.send, hs]
    refine ⟨Nat.le_succ_of_le h.order, fun _ => ?_, fun he => absurd he hne⟩
    rcases Nat.eq_zero_or_pos s.rqstI with hz | hpos
    · simp only [sendReadRqst, formatLoadRequestPacket, bind_eq_ok, hz] at hs
      obtain ⟨pkt, ⟨pkt', hpkt, -⟩, u, halign, -⟩ := hs
      exact ⟨formatRequestPacket_valid hpkt, halign⟩
    · exact h.first hpos

theorem requested_recv {npa : ℕ → Npa} {cnt : ℕ} {s : ReadMem.State} (hpc : s.pc = .rsp)
    (hlt : s.rspI < s.rqstI) (h : Requested mc npa cnt s) (rsp : ResponsePacket) :
    Requested mc npa cnt (ReadMem.recv mc cnt s rsp) := by
  have hfail : ∀ {t : ReadMem.State}, t.rspI = s.rspI → t.rqstI = s.rqstI →
      t.pc = .done (.error .fail) → Requested mc npa cnt t := by
    intro t hrsp hrqst hdone
    refine ⟨?_, ?_, fun he => ?_⟩
    · rw [hrsp, hrqst]
      exact h.order
    · rw [hrqst]
      exact h.first
    · rw [hdone] at he
      cases he
  simp only [ReadMem.recv]
  split
  · exact hfail rfl rfl rfl
  · split
    · exact hfail rfl rfl rfl
    · split
      · exact hfail rfl rfl rfl
      · refine ⟨hlt, h.first, fun he => ?_⟩
        rw [hpc] at he
        cases he

theorem requested_next {npa : ℕ → Npa} {cnt : ℕ} {s t : ReadMem.State} {e : ReadMem.Event}
    (h : Requested mc npa cnt s) (hn : ReadMem.next mc npa cnt s e = some t) :
    Requested mc npa cnt t := by
  have hpc : ∀ pc, pc ≠ .done (.ok ()) → Requested mc npa cnt { s with pc := pc } :=
    fun pc hne => ⟨h.order, h.first, fun he => absurd he hne⟩
  cases ReadMem.step_of_next hn with
  | turn pc hturns =>
    cases hturns with
    | request => exact hpc _ ReadMem.Pc.noConfusion
    | finish _ hall => exact ⟨h.order, h.first, fun _ => hall⟩
    | receive => exact hpc _ ReadMem.Pc.noConfusion
    | again => exact hpc _ ReadMem.Pc.noConfusion
  | send loadId rest tx hrqst => exact requested_send hrqst h loadId rest tx
  | recvError e => exact hpc _ (by simp)
  | @recv rsp hrsp hlt => exact requested_recv hrsp hlt h rsp

theorem readMem_issues {mem : Npa → UInt32} {answers : List ReadMem.Event} {npa : Npa}
    {data xfer : ℕ} {words words' : ℕ → UInt32} (hpos : 0 < xfer)
    (h : readMem mc mem answers npa data words xfer = some (.ok (), words')) :
    Issues mc data npa xfer := by
  unfold readMem at h
  split at h
  · cases h
  · next hargs =>
    split at h
    · cases h
    · next s hrun =>
      split at h
      · next result hpc =>
        simp only [Option.some.injEq, Prod.mk.injEq] at h
        obtain ⟨rfl, rfl⟩ := h
        have hreq : Requested mc (fun i => addEpa npa (4 * i)) (xfer / 4) s := by
          refine (ReadMem.run_reachable (.initial rfl) hrun).invariant ?_ ?_
          · rintro _ rfl
            exact ⟨le_rfl, fun hp => absurd hp (lt_irrefl 0), fun he => by cases he⟩
          · rintro s e t hs ⟨-, hn⟩
            exact requested_next hs hn
        have hdone := hreq.done hpc
        have horder := hreq.order
        have hsz := readWriteMemCheckArgs_ok hargs
        obtain ⟨hvalid, halign⟩ := hreq.first (by omega)
        rw [Nat.mul_zero, addEpa_zero] at hvalid halign
        exact ⟨hargs, hvalid, halign⟩
      · cases h

structure Passed (mc : Manycore) (tgt : Coord) (eva : UInt32) (off : ℕ) : Prop where
  starts : ∀ i < off, IsStart mc eva i → Passes mc tgt (advance eva i)
  words : 0 < off → 2 ≤ stripeBits mc ∧ eva.toNat % 4 = 0

theorem advance_dram {i : ℕ} (hi : i < 2 ^ 32 - eva.toNat) :
    (advance eva i).toNat = eva.toNat + i :=
  advance_toNat (by omega)

theorem advance_end : advance eva (2 ^ 32 - eva.toNat) = 0 := by
  have heva := eva.toNat_lt
  rw [← UInt32.toNat_inj, advance, UInt32.toNat_add, UInt32.toNat_ofNat', Nat.add_mod_mod,
    Nat.add_sub_cancel' heva.le]
  rfl

theorem segment_of_dram {a : UInt32} (hd : 2 ^ 31 ≤ a.toNat) {npa : Npa} {n : ℕ}
    (ht : evaToNpa mc defaultMap tgt a = .ok (npa, n)) :
    stripeBits mc < 32 ∧ n = 2 ^ stripeBits mc - a.toNat % 2 ^ stripeBits mc ∧
      npa.epa.toNat % 2 ^ stripeBits mc = a.toNat % 2 ^ stripeBits mc := by
  rw [DramStriping.evaToNpa_of_isDram ((isDram_iff _).mpr hd)] at ht
  exact evaToNpaDram_segment (fields_bits mc) ht

theorem stripe_end {a s : ℕ} (ha : a < 2 ^ 32) (hs : s < 32) :
    a + (2 ^ s - a % 2 ^ s) ≤ 2 ^ 32 := by
  have hsplit : 2 ^ 32 = 2 ^ s * 2 ^ (32 - s) := by
    rw [← pow_add, Nat.add_sub_cancel' hs.le]
  have hdiv : a / 2 ^ s + 1 ≤ 2 ^ (32 - s) := by
    refine Nat.div_lt_of_lt_mul ?_
    rwa [← hsplit]
  have hmul := Nat.mul_le_mul_left (2 ^ s) hdiv
  have hmod := Nat.mod_add_div a (2 ^ s)
  have hlt := Nat.mod_lt a (Nat.two_pow_pos s)
  rw [← hsplit, Nat.mul_add, Nat.mul_one] at hmul
  omega

theorem segment_in_dram (hd : 2 ^ 31 ≤ eva.toNat) {off n : ℕ} (hoff : off < 2 ^ 32 - eva.toNat)
    {npa : Npa} (ht : evaToNpa mc defaultMap tgt (advance eva off) = .ok (npa, n)) :
    0 < n ∧ off + n ≤ 2 ^ 32 - eva.toNat := by
  have hval := advance_dram hoff
  obtain ⟨hs, hn, -⟩ := segment_of_dram (by omega) ht
  have hend := stripe_end (a := eva.toNat + off) (by omega) hs
  rw [hval] at hn
  exact ⟨segment_pos ht, by omega⟩

theorem words_of_chunk {a s : ℕ} (h : (2 ^ s - a % 2 ^ s) % 4 = 0) : 2 ≤ s ∧ a % 4 = 0 := by
  rcases Nat.lt_or_ge s 2 with hs | hs
  · obtain rfl | rfl : s = 0 ∨ s = 1 := by omega
    · omega
    · omega
  · obtain ⟨q, hq⟩ : 4 ∣ 2 ^ s := pow_dvd_pow 2 hs
    have hmod : a % 2 ^ s % 4 = a % 4 := Nat.mod_mod_of_dvd _ ⟨q, hq⟩
    have hlt := Nat.mod_lt a (Nat.two_pow_pos s)
    omega

theorem start_of_segment {a s j : ℕ} (hj : j < 2 ^ s - a % 2 ^ s) (h : (a + j) % 2 ^ s = 0) :
    j = 0 := by
  have hlt : j < 2 ^ s := by omega
  have hmod : j % 2 ^ s = j := Nat.mod_eq_of_lt hlt
  rw [Nat.add_mod_of_add_mod_lt (by omega), hmod] at h
  omega

theorem passed_step (hd : 2 ^ 31 ≤ eva.toNat) {off n data : ℕ} (hoff : off < 2 ^ 32 - eva.toNat)
    {npa : Npa} (ht : evaToNpa mc defaultMap tgt (advance eva off) = .ok (npa, n))
    (hi : Issues mc data npa n) (h : Passed mc tgt eva off) : Passed mc tgt eva (off + n) := by
  have hval := advance_dram hoff
  obtain ⟨-, hn, -⟩ := segment_of_dram (by omega) ht
  rw [hval] at hn
  constructor
  · intro i hlt hstart
    rcases Nat.lt_or_ge i off with hbelow | hge
    · exact h.starts i hbelow hstart
    · obtain ⟨j, rfl⟩ := Nat.exists_eq_add_of_le hge
      have hj : j = 0 := by
        rcases hstart with hz | hmod
        · omega
        · rw [← Nat.add_assoc] at hmod
          exact start_of_segment (by omega) hmod
      subst hj
      exact ⟨npa, n, ht, hi.valid⟩
  · intro _
    rcases Nat.eq_zero_or_pos off with rfl | hpos
    · refine words_of_chunk (s := stripeBits mc) ?_
      rw [Nat.add_zero] at hn
      rw [← hn]
      exact readWriteMemCheckArgs_ok hi.args
    · exact h.words hpos

theorem evaToNpa_zero : evaToNpa mc defaultMap tgt 0 = .ok (⟨tgt.x, tgt.y, 0⟩, 4096) := by
  rw [evaToNpa_tile (by decide) (by decide)]
  rfl

/-- What stops a loop at the end of the range, whichever transfer it makes; `arg` is the address
that the transfer checks, by the offset. -/
theorem stops {σ : Type} (chunk : Npa → ℕ → ℕ → σ → Option (Except Errno Unit × σ)) (arg : ℕ → ℕ)
    (hissues : ∀ npa off xfer s t, 0 < xfer → chunk npa off xfer s = some (.ok (), t) →
      Issues mc (arg off) npa xfer)
    (hd : 2 ^ 31 ≤ eva.toNat) (hend : 2 ^ 32 < eva.toNat + sz) (h : ¬ RunsOn mc tgt eva sz)
    (s : σ) :
    (∀ t, transferFrom (evaToNpa mc defaultMap tgt) advance chunk sz eva 0 sz s ≠
      some (.ok (), t)) ∧
    ∀ c ∈ chunkCalls mc tgt chunk eva sz s,
      Issues mc (arg c.off) c.loc c.xfer → 2 ^ 31 ≤ c.addr.toNat := by
  have hlt := eva.toNat_lt
  have hbelow : ∀ c : Call UInt32 Npa σ,
      (∃ i < 2 ^ 32 - eva.toNat, c.addr = advance eva i) → 2 ^ 31 ≤ c.addr.toNat := by
    rintro c ⟨i, hi, he⟩
    rw [he, advance_dram hi]
    omega
  have hstep : ∀ off npa n s t, off < 2 ^ 32 - eva.toNat →
      evaToNpa mc defaultMap tgt (advance eva off) = .ok (npa, n) →
      chunk npa off n s = some (.ok (), t) → Passed mc tgt eva off →
      Passed mc tgt eva (off + n) := by
    intro off npa n s t hoff ht hx hP
    exact passed_step hd hoff ht (hissues npa off n s t (segment_pos ht) hx) hP
  have hzero : Passed mc tgt eva 0 :=
    ⟨fun i hi => absurd hi (Nat.not_lt_zero i), fun hz => absurd hz (lt_irrefl 0)⟩
  have hrun := transferFrom_boundary (P := fun off _ => Passed mc tgt eva off) (s := s)
    (advance_advance eva) (by omega : 2 ^ 32 - eva.toNat ≤ sz)
    (fun off npa n hoff ht => segment_in_dram hd hoff ht) hstep (Nat.zero_le _)
    (le_rfl : sz - 0 ≤ sz) hzero
  rw [advance_zero, advance_end, Nat.sub_zero] at hrun
  rcases hrun with ⟨hfail, hcalls⟩ | ⟨fuel, t, hfuel, hpassed, hrun, hcalls⟩
  · exact ⟨hfail, fun c hc _ => hbelow c (hcalls c hc)⟩
  · obtain ⟨hstripe, haligned⟩ := hpassed.words (by omega)
    -- the first chunk behind the last address is not let through
    have hstop : ¬ Issues mc (arg (2 ^ 32 - eva.toNat)) ⟨tgt.x, tgt.y, 0⟩
        (min (sz - (2 ^ 32 - eva.toNat)) 4096) := by
      intro hi
      refine h ⟨hstripe, haligned, fun i hi => hpassed.starts i (by omega), hi.valid, ?_⟩
      have := readWriteMemCheckArgs_ok hi.args
      omega
    obtain ⟨fuel, rfl⟩ : ∃ m, fuel = m + 1 := ⟨fuel - 1, by omega⟩
    have hsz : sz - (2 ^ 32 - eva.toNat) ≠ 0 := by omega
    have hpos : 0 < min (sz - (2 ^ 32 - eva.toNat)) 4096 := by omega
    rw [transferFrom, if_neg hsz] at hrun
    rw [callsFrom, if_neg hsz] at hcalls
    simp only [evaToNpa_zero] at hrun hcalls
    have hno : ∀ u, chunk ⟨tgt.x, tgt.y, 0⟩ (2 ^ 32 - eva.toNat)
        (min (sz - (2 ^ 32 - eva.toNat)) 4096) t ≠ some (.ok (), u) :=
      fun u hx => hstop (hissues _ _ _ _ _ hpos hx)
    constructor
    · intro t' ht'
      rw [hrun] at ht'
      split at ht'
      · cases ht'
      · cases ht'
      · next u hx => exact hno u hx
    · intro c hc hi
      rcases hcalls c hc with hc | hc
      · exact hbelow c hc
      · split at hc
        · next u hx => exact absurd hx (hno u)
        · rw [List.mem_singleton.mp hc] at hi
          exact absurd hi hstop

theorem error_of_not_ok {σ : Type} {r : Except Errno Unit × σ}
    (h : ∀ t, some r ≠ some (.ok (), t)) : ∃ e t, some r = some (Except.error e, t) := by
  obtain ⟨result, t⟩ := r
  cases result with
  | error e => exact ⟨e, t, rfl⟩
  | ok u => exact absurd rfl (h t)

theorem evaMemset_terminates (platform : Platform) (val : UInt8) (sent : List RequestPacket) :
    ∃ r, evaMemset mc defaultMap tgt platform eva val sz sent = some r := by
  rw [evaMemset_eq 0 rfl]
  exact evaWrite_terminates platform 0 (fun _ => val) sent

theorem no_wrap_of_not (hd : 2 ^ 31 ≤ eva.toNat) (hend : 2 ^ 32 < eva.toNat + sz)
    (h : ¬ RunsOn mc tgt eva sz) : NoWrap mc tgt eva sz := by
  constructor
  · intro platform data buf sent
    obtain ⟨hfail, hcalls⟩ := stops (writeChunk mc platform data buf) (fun off => data + off)
      (fun npa off xfer s t hpos hx => writeMem_issues hpos (Option.some.inj hx)) hd hend h sent
    obtain ⟨r, hr⟩ := evaWrite_terminates platform data buf sent
    refine ⟨?_, hcalls⟩
    rw [hr]
    exact error_of_not_ok fun t ht => hfail t (hr.trans ht)
  · intro m answers data buf
    obtain ⟨hfail, hcalls⟩ := stops (readChunk mc m answers data) (fun off => data + off)
      (fun npa off xfer s t hpos hx => by
        obtain ⟨⟨result, words⟩, hread, heq⟩ := Option.map_eq_some_iff.mp hx
        simp only [Prod.mk.injEq] at heq
        obtain ⟨rfl, -⟩ := heq
        exact readMem_issues hpos hread) hd hend h (0, buf)
    refine ⟨?_, hcalls⟩
    cases hr : evaRead mc defaultMap tgt m answers eva data buf sz with
    | none =>
      exact Or.inr ⟨rfl, exists_call_of_none (fun _ _ _ ht => segment_pos ht) le_rfl hr⟩
    | some r => exact Or.inl (error_of_not_ok fun t ht => hfail t (hr.trans ht))
  · intro platform val sent
    obtain ⟨hfail, hcalls⟩ := stops (memsetChunk mc platform val) (fun _ => 0)
      (fun npa off xfer s t hpos hx => memset_issues hpos (Option.some.inj hx)) hd hend h sent
    refine ⟨?_, hcalls⟩
    obtain ⟨r, hr⟩ := evaMemset_terminates platform val sent
    rw [hr]
    exact error_of_not_ok fun t ht => hfail t (hr.trans ht)

theorem write_takesAll (vp : UInt32) {npa : Npa} (hvalid : dstNpaIsValid mc npa = true)
    (hepa : npa.epa.toNat % 4 = 0) : ∃ rqst, write mc npa vp 4 (.ok ()) = .ok rqst := by
  simp only [write, formatRequestPacket, hvalid, if_true, epaCheckAlignment_of_mod hepa]
  exact ⟨_, rfl⟩

theorem writeWords_takesAll (words : ℕ → UInt32) (n i : ℕ) {addr : Npa}
    (hvalid : dstNpaIsValid mc addr = true) (hepa : addr.epa.toNat % 4 = 0)
    (sent : List RequestPacket) :
    ∃ sent', writeWords mc takesAll words n i addr sent = (.ok (), sent') := by
  induction n generalizing i addr sent with
  | zero => exact ⟨sent, rfl⟩
  | succ n ih =>
    obtain ⟨rqst, hw⟩ := write_takesAll (words i) hvalid hepa
    have hw' : write mc addr (words i) 4 (takesAll.transmit sent.length) = .ok rqst := hw
    have hnext : (addEpa addr 4).epa.toNat % 4 = 0 := by
      rw [addEpa, UInt32.toNat_add, UInt32.toNat_ofNat']
      omega
    have hvalid' : dstNpaIsValid mc (addEpa addr 4) = true := hvalid
    obtain ⟨sent', h⟩ := ih (i + 1) hvalid' hnext (sent ++ [rqst])
    refine ⟨sent', ?_⟩
    rw [writeWords, hw']
    exact h

theorem memset_takesAll (val : UInt8) {npa : Npa} {xfer : ℕ} (hxfer : xfer % 4 = 0)
    (hvalid : dstNpaIsValid mc npa = true) (hepa : npa.epa.toNat % 4 = 0)
    (sent : List RequestPacket) :
    ∃ sent', memset mc takesAll npa val xfer sent = (.ok (), sent') := by
  have hargs : readWriteMemCheckArgs 0 xfer = .ok () := by
    simp only [readWriteMemCheckArgs, hxfer, Nat.zero_mod, ne_eq, not_true, if_false]
  obtain ⟨sent', h⟩ := writeWords_takesAll (fun _ => splat val) (xfer / 4) 0 hvalid hepa
    sent
  refine ⟨sent', ?_⟩
  simp only [memset, hargs, sendWords, h]
  rfl

/-- When nothing stops the loops, a fill comes to address 0 and goes on. -/
theorem fill_runs_on (hd : 2 ^ 31 ≤ eva.toNat) (hend : 2 ^ 32 < eva.toNat + sz)
    (h : RunsOn mc tgt eva sz) (val : UInt8) (sent : List RequestPacket) :
    ∃ c ∈ chunkCalls mc tgt (memsetChunk mc takesAll val) eva sz sent,
      Issues mc 0 c.loc c.xfer ∧ c.addr = 0 := by
  have hlt := eva.toNat_lt
  have hwords : 2 ^ stripeBits mc % 4 = 0 :=
    Nat.mod_eq_zero_of_dvd (pow_dvd_pow 2 h.stripe)
  have hstep : ∀ off sent, off < 2 ^ 32 - eva.toNat → IsStart mc eva off →
      ∃ npa n sent', evaToNpa mc defaultMap tgt (advance eva off) = .ok (npa, n) ∧ 0 < n ∧
        off + n ≤ 2 ^ 32 - eva.toNat ∧
        memsetChunk mc takesAll val npa off n sent = some (.ok (), sent') ∧
        IsStart mc eva (off + n) := by
    intro off sent hoff hstart
    have hval := advance_dram hoff
    obtain ⟨npa, n, ht, hvalid⟩ := h.starts off (by omega) hstart
    obtain ⟨hpos, hin⟩ := segment_in_dram hd hoff ht
    obtain ⟨hs, hn, hepa⟩ := segment_of_dram (by omega) ht
    rw [hval] at hn hepa
    have hmod := Nat.mod_lt (eva.toNat + off) (Nat.two_pow_pos (stripeBits mc))
    have hdvd : 4 ∣ 2 ^ stripeBits mc := pow_dvd_pow 2 h.stripe
    have hword : (eva.toNat + off) % 2 ^ stripeBits mc % 4 = 0 := by
      rcases hstart with rfl | hz
      · rw [Nat.add_zero, Nat.mod_mod_of_dvd _ hdvd]
        exact h.aligned
      · rw [hz]
    have hepa4 : npa.epa.toNat % 4 = 0 := by
      rw [← Nat.mod_mod_of_dvd _ hdvd, hepa]
      exact hword
    have hn4 : n % 4 = 0 := by omega
    obtain ⟨sent', hx⟩ := memset_takesAll val hn4 hvalid hepa4 sent
    refine ⟨npa, n, sent', ht, hpos, hin, congrArg some hx, Or.inr ?_⟩
    have hsum : eva.toNat + (off + n) =
        2 ^ stripeBits mc + 2 ^ stripeBits mc * ((eva.toNat + off) / 2 ^ stripeBits mc) := by
      have := Nat.mod_add_div (eva.toNat + off) (2 ^ stripeBits mc)
      omega
    rw [hsum, Nat.add_mul_mod_self_left, Nat.mod_self]
  obtain ⟨fuel, t, hfuel, hcalls⟩ := callsFrom_boundary (s := sent) (advance_advance eva)
    (by omega : 2 ^ 32 - eva.toNat ≤ sz) hstep (Nat.zero_le _) (le_rfl : sz - 0 ≤ sz)
    (Or.inl rfl : IsStart mc eva 0)
  rw [advance_zero, advance_end, Nat.sub_zero] at hcalls
  obtain ⟨fuel, rfl⟩ : ∃ m, fuel = m + 1 := ⟨fuel - 1, by omega⟩
  have hsz : sz - (2 ^ 32 - eva.toNat) ≠ 0 := by omega
  rw [callsFrom, if_neg hsz, evaToNpa_zero] at hcalls
  have hrest : min (sz - (2 ^ 32 - eva.toNat)) 4096 % 4 = 0 := by
    have := h.rest
    have := h.aligned
    omega
  refine ⟨_, hcalls _ List.mem_cons_self, ⟨?_, h.tile, epaCheckAlignment_of_mod rfl⟩, rfl⟩
  simp only [readWriteMemCheckArgs, hrest, Nat.zero_mod, ne_eq, not_true, if_false]

theorem no_wrap_iff (mc : Manycore) (tgt : Coord) {eva : UInt32} {sz : ℕ}
    (hd : 2 ^ 31 ≤ eva.toNat) (hend : 2 ^ 32 < eva.toNat + sz) :
    NoWrap mc tgt eva sz ↔ ¬ RunsOn mc tgt eva sz := by
  constructor
  · intro h hruns
    obtain ⟨c, hc, hi, hzero⟩ := fill_runs_on hd hend hruns 0 []
    have hdram := (h.memset takesAll 0 []).2 c hc hi
    rw [hzero] at hdram
    exact absurd hdram (by decide)
  · exact no_wrap_of_not hd hend

end Proof

/-- Without DRAM the last addresses of the region have no place in the caches. -/
theorem no_wrap_x16y8 : NoWrap ⟨({} : Machine).config, false⟩ ⟨16, 8⟩ 0xfffffffc 8 := by
  refine (no_wrap_iff _ _ (by decide) (by decide)).mpr fun h => ?_
  obtain ⟨npa, n, ht, -⟩ := h.starts 0 (by decide) (Or.inl rfl)
  have herr : (evaToNpa ⟨({} : Machine).config, false⟩ defaultMap ⟨16, 8⟩
      (advance 0xfffffffc 0)).isOk = false := by decide +kernel
  rw [ht] at herr
  cases herr

/-- With DRAM the write of the last word and of one more ends in the memory of the tile. -/
theorem no_wrap_fails :
    Accepted ({} : Machine).config ∧ IsTile ({} : Machine).config ⟨0, 0⟩ ⟨16, 8⟩ ∧
    ((evaWrite ⟨({} : Machine).config, true⟩ defaultMap ⟨16, 8⟩ takesAll 0xfffffffc 0
      (fun _ => 7) 8 []).any fun r => r.1.isOk && (logOf r.2).contains (⟨16, 8, 0⟩, 7)) = true ∧
    ¬ NoWrap ⟨({} : Machine).config, true⟩ ⟨16, 8⟩ 0xfffffffc 8 := by
  have hrun : ((evaWrite ⟨({} : Machine).config, true⟩ defaultMap ⟨16, 8⟩ takesAll 0xfffffffc 0
      (fun _ => 7) 8 []).any fun r => r.1.isOk && (logOf r.2).contains (⟨16, 8, 0⟩, 7)) =
      true := by decide +kernel
  refine ⟨Machine.config_accepted _ (by decide), by decide, hrun, fun h => ?_⟩
  obtain ⟨⟨e, sent, hw⟩, -⟩ := h.write takesAll 0 (fun _ => 7) []
  rw [hw] at hrun
  cases hrun

end EvaWrap
