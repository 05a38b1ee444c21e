import ManycoreRuntime.ElfLoad

/-! # The capacity of a segment's memory

The loader compares the size of a segment in memory with the capacity of the memory. The number of
bytes that it copies from the file is another field of the header, and the number of zeros behind
them is the difference of the two, modulo `2 ^ 64`. -/
namespace SegmentCapacity

open Actions
open ByteStore
open ChunkedTransfer
open Coordinate (Coord Errno)
open Configuration (Config Manycore)
open ElfImage
open ElfLoad
open EvaMemory EvaRanges EvaToNpa
open Fallible (bind_eq_ok)
open Loader LoaderLog
open Machines (Machine)
open NpaToEva (evaToNpa defaultMap)
open Packets
open WriteMem

/-- A header that the loader is to reject. -/
def Unfit (cfg : Config) (phdr : Phdr) : Prop :=
  phdr.capacity cfg < phdr.filesz.toNat ∨ phdr.capacity cfg < phdr.memsz.toNat ∨
    phdr.memsz.toNat < phdr.filesz.toNat

def Adds (n : ℕ) (sent sent' : List RequestPacket) : Prop :=
  ∃ new, sent' = sent ++ new ∧ (logOf new).length ≤ n

section Runs

variable (mc : Manycore) (platform : Platform) (base : ℕ) (bin : Image) (tiles : List Coord)

structure Comes (i : ℕ) (tile : Coord) (sent : List RequestPacket) : Prop where
  segment : IsLoad bin i
  start : ∃ pc_init, startAddress (some bin) = .ok pc_init ∧
    ∃ initialized, Returns (tilesInitialize mc platform pc_init tiles) [] () initialized ∧
    ∃ origin, tiles.head? = some origin ∧
    ∃ found before, Returns (loadSegmentsFrom mc platform base bin origin tiles i 0 none)
      initialized found before ∧
    ∃ done rest, targets tiles (phdrAt bin i) = done ++ tile :: rest ∧
      Returns (forM done (loadTileSegment mc platform base bin (phdrAt bin i))) before () sent
  valid : elfValidate (some bin) = .ok ()
  header : getSegment bin i = .ok (phdrAt bin i)

/-- A segment that does not fit is rejected before a byte of it is written, and of any segment no
more bytes are written than its memory has. -/
structure SegmentLaw (i : ℕ) (tile : Coord) (sent : List RequestPacket) : Prop where
  rejected : Unfit mc.config (phdrAt bin i) → ∃ e, e ≠ .undefined ∧
    loadTileSegment mc platform base bin (phdrAt bin i) tile sent = some (.error e, sent)
  bounded : ∀ r sent', loadTileSegment mc platform base bin (phdrAt bin i) tile sent =
    some (r, sent') → Adds ((phdrAt bin i).capacity mc.config) sent sent'

def firstWord (phdr : Phdr) (tile : Coord) (sent : List RequestPacket) :
    Except Errno RequestPacket := do
  let (npa, n) ← evaToNpa mc defaultMap tile phdr.paddr
  let _ ← readWriteMemCheckArgs (base + phdr.offset.toNat) (min phdr.filesz.toNat n)
  write mc npa (bufferWords (phdr.segdata bin) 0 0) 4 (platform.transmit sent.length)

end Runs

section Proof

variable {mc : Manycore} {platform : Platform} {base : ℕ} {bin : Image} {tiles : List Coord}
variable {phdr : Phdr} {tile : Coord} {sent sent' : List RequestPacket} {r : Except Errno Unit}

theorem Adds.refl (n : ℕ) (sent : List RequestPacket) : Adds n sent sent :=
  ⟨[], (List.append_nil sent).symm, Nat.zero_le n⟩

theorem Adds.mono {m n : ℕ} (h : Adds m sent sent') (hmn : m ≤ n) : Adds n sent sent' := by
  obtain ⟨new, rfl, hnew⟩ := h
  exact ⟨new, rfl, le_trans hnew hmn⟩

theorem Adds.trans {m n : ℕ} {t : List RequestPacket} (h : Adds m sent t) (h' : Adds n t sent') :
    Adds (m + n) sent sent' := by
  obtain ⟨new, rfl, hnew⟩ := h
  obtain ⟨new', rfl, hnew'⟩ := h'
  refine ⟨new ++ new', List.append_assoc sent new new', ?_⟩
  rw [logOf, List.flatMap_append, List.length_append]
  exact Nat.add_le_add hnew hnew'

theorem packetBytes_length_le (rqst : RequestPacket) : (packetBytes rqst).length ≤ 4 := by
  rw [packetBytes, List.length_map]
  split
  · exact le_of_eq List.length_range
  · exact le_trans (List.length_filter_le _ _) (le_of_eq List.length_range)
  · exact Nat.zero_le 4
  · exact Nat.zero_le 4

theorem writeWords_adds {words : ℕ → UInt32} {n i : ℕ} {addr : Npa}
    (h : writeWords mc platform words n i addr sent = (r, sent')) : Adds (4 * n) sent sent' := by
  induction n generalizing i addr sent with
  | zero =>
    cases h
    exact Adds.refl _ _
  | succ n ih =>
    rw [writeWords] at h
    split at h
    · cases h
      exact Adds.refl _ _
    · next rqst hw =>
      have hone : Adds 4 sent (sent ++ [rqst]) := by
        refine ⟨[rqst], rfl, ?_⟩
        rw [logOf, List.flatMap_singleton]
        exact packetBytes_length_le rqst
      exact (hone.trans (ih h)).mono (by omega)

theorem sendWords_adds {npa : Npa} {words : ℕ → UInt32} {sz : ℕ}
    (h : sendWords mc platform npa words sz sent = (r, sent')) : Adds sz sent sent' := by
  have hwhole : 4 * (sz / 4) ≤ sz := Nat.mul_div_le sz 4
  rw [sendWords] at h
  split at h
  · next hw =>
    cases h
    exact (writeWords_adds hw).mono hwhole
  · next hw =>
    cases h
    exact (writeWords_adds hw).mono hwhole

theorem writeMem_adds {npa : Npa} {data sz : ℕ} {words : ℕ → UInt32}
    (h : writeMem mc platform npa data words sz sent = (r, sent')) : Adds sz sent sent' := by
  rw [writeMem] at h
  split at h
  · cases h
    exact Adds.refl _ _
  · exact sendWords_adds h

theorem writeFrom_adds {data fuel off sz : ℕ} {buf : ℕ → UInt8} {eva : UInt32}
    (h : transferFrom (evaToNpa mc defaultMap tile) advance (fun npa off xfer sent =>
      some (writeMem mc platform npa (data + off) (bufferWords buf off) xfer sent)) fuel eva off sz
        sent = some (r, sent')) : Adds sz sent sent' :=
  transferFrom_adds (Adds.refl 0) (fun _ _ _ _ hmn h => h.mono hmn)
    (fun _ _ _ _ _ h h' => h.trans h')
    (fun _ _ _ _ _ _ hw => writeMem_adds (Option.some.inj hw)) h

theorem evaMemset_adds {eva : UInt32} {val : UInt8} {sz : ℕ}
    (h : evaMemset mc defaultMap tile platform eva val sz sent = some (r, sent')) :
    Adds sz sent sent' := by
  refine transferFrom_adds (Adds.refl 0) (fun _ _ _ _ hmn h => h.mono hmn)
    (fun _ _ _ _ _ h h' => h.trans h') ?_ h
  intro npa off xfer s result t hw
  have hmem := Option.some.inj hw
  rw [memset] at hmem
  split at hmem
  · cases hmem
    exact Adds.refl _ _
  · exact sendWords_adds hmem

section FirstWord

variable {rqst : RequestPacket} {e : Errno}

theorem evaWrite_refused (hsz : 0 < phdr.filesz.toNat)
    (h : firstWord mc platform base bin phdr tile sent = .error e) :
    evaWrite mc defaultMap tile platform phdr.paddr (base + phdr.offset.toNat) (phdr.segdata bin)
      phdr.filesz.toNat sent = some (.error e, sent) := by
  obtain ⟨k, hk⟩ := Nat.exists_eq_succ_of_ne_zero hsz.ne'
  rw [evaWrite, evaWriteInternal, hk, transferFrom, if_neg (Nat.succ_ne_zero k), ← hk]
  rw [firstWord] at h
  cases ht : evaToNpa mc defaultMap tile phdr.paddr with
  | error e' =>
    rw [ht] at h
    cases h
    rfl
  | ok chunk =>
    obtain ⟨npa, n⟩ := chunk
    have hn := segment_pos ht
    rw [ht] at h
    simp only [Nat.add_zero, writeMem]
    cases hc : readWriteMemCheckArgs (base + phdr.offset.toNat) (min phdr.filesz.toNat n) with
    | error e' =>
      simp only [bind, Except.bind, hc] at h
      cases h
      rfl
    | ok u =>
      have hwrite : write mc npa (bufferWords (phdr.segdata bin) 0 0) 4
          (platform.transmit sent.length) = .error e := by
        simpa only [bind, Except.bind, hc] using h
      have hal := readWriteMemCheckArgs_ok hc
      obtain ⟨m, hm⟩ : ∃ m, min phdr.filesz.toNat n / 4 = m + 1 :=
        Nat.exists_eq_succ_of_ne_zero (by omega)
      simp only [sendWords, hm, writeWords, hwrite]

theorem evaWrite_begun (hsz : 0 < phdr.filesz.toNat)
    (h : firstWord mc platform base bin phdr tile sent = .ok rqst)
    (hrun : evaWrite mc defaultMap tile platform phdr.paddr (base + phdr.offset.toNat)
      (phdr.segdata bin) phdr.filesz.toNat sent = some (r, sent')) :
    ∃ new, sent' = sent ++ rqst :: new := by
  obtain ⟨k, hk⟩ := Nat.exists_eq_succ_of_ne_zero hsz.ne'
  rw [evaWrite, evaWriteInternal, hk, transferFrom, if_neg (Nat.succ_ne_zero k), ← hk] at hrun
  simp only [firstWord, bind_eq_ok] at h
  obtain ⟨⟨npa, n⟩, ht, u, hc, hwrite⟩ := h
  have hn := segment_pos ht
  have hal := readWriteMemCheckArgs_ok hc
  obtain ⟨m, hm⟩ : ∃ m, min phdr.filesz.toNat n / 4 = m + 1 :=
    Nat.exists_eq_succ_of_ne_zero (by omega)
  -- the chunk of the first word
  have hchunk : ∀ result t, writeMem mc platform npa (base + phdr.offset.toNat + 0)
      (bufferWords (phdr.segdata bin) 0) (min phdr.filesz.toNat n) sent = (result, t) →
      ∃ new, t = sent ++ rqst :: new := by
    intro result t hw
    simp only [Nat.add_zero, writeMem, hc, sendWords, hm, writeWords, hwrite] at hw
    split at hw
    · next hws =>
      cases hw
      obtain ⟨new, rfl, -⟩ := writeWords_adds hws
      exact ⟨new, List.append_assoc sent [rqst] new⟩
    · next hws =>
      cases hw
      obtain ⟨new, rfl, -⟩ := writeWords_adds hws
      exact ⟨new, List.append_assoc sent [rqst] new⟩
  simp only [ht] at hrun
  split at hrun
  · cases hrun
  · next hw =>
    cases hrun
    exact hchunk _ _ (Option.some.inj hw)
  · next t hw =>
    obtain ⟨new, rfl⟩ := hchunk _ _ (Option.some.inj hw)
    obtain ⟨new', rfl, -⟩ := writeFrom_adds hrun
    exact ⟨new ++ new', List.append_assoc sent (rqst :: new) new'⟩

end FirstWord

theorem loadTileSegment_over (h : phdr.capacity mc.config < phdr.memsz.toNat) :
    loadTileSegment mc platform base bin phdr tile sent = some (.error .fail, sent) := by
  simp only [loadTileSegment, if_pos h]
  rfl

theorem loadTileSegment_error {e : Errno} {t : List RequestPacket}
    (hcap : ¬ phdr.capacity mc.config < phdr.memsz.toNat)
    (h : evaWrite mc defaultMap tile platform phdr.paddr (base + phdr.offset.toNat)
      (phdr.segdata bin) phdr.filesz.toNat sent = some (.error e, t)) :
    loadTileSegment mc platform base bin phdr tile sent = some (.error e, t) := by
  simp only [loadTileSegment, if_neg hcap]
  exact bind_of_error h

theorem loadTileSegment_fill {t : List RequestPacket}
    (hcap : ¬ phdr.capacity mc.config < phdr.memsz.toNat)
    (h : evaWrite mc defaultMap tile platform phdr.paddr (base + phdr.offset.toNat)
      (phdr.segdata bin) phdr.filesz.toNat sent = some (.ok (), t)) :
    loadTileSegment mc platform base bin phdr tile sent =
      evaMemset mc defaultMap tile platform (phdr.paddr + UInt32.ofNat phdr.filesz.toNat) 0
        ((phdr.memsz.toNat + 2 ^ 64 - phdr.filesz.toNat) % 2 ^ 64) t := by
  simp only [loadTileSegment, if_neg hcap]
  exact bind_of_ok h

theorem loadTileSegment_begun {rqst : RequestPacket}
    (hcap : ¬ phdr.capacity mc.config < phdr.memsz.toNat) (hsz : 0 < phdr.filesz.toNat)
    (hfirst : firstWord mc platform base bin phdr tile sent = .ok rqst)
    (h : loadTileSegment mc platform base bin phdr tile sent = some (r, sent')) :
    ∃ new, sent' = sent ++ rqst :: new := by
  obtain ⟨⟨result, t⟩, hw⟩ := @evaWrite_terminates mc tile phdr.paddr phdr.filesz.toNat platform
    (base + phdr.offset.toNat) (phdr.segdata bin) sent
  obtain ⟨new, rfl⟩ := evaWrite_begun hsz hfirst hw
  cases result with
  | error e =>
    rw [loadTileSegment_error hcap hw] at h
    cases h
    exact ⟨new, rfl⟩
  | ok u =>
    rw [loadTileSegment_fill hcap hw] at h
    obtain ⟨new', rfl, -⟩ := evaMemset_adds h
    exact ⟨new ++ new', List.append_assoc sent (rqst :: new) new'⟩

/-- A segment with room for its file data writes no more bytes than it has in memory. -/
theorem loadTileSegment_adds (hcap : ¬ phdr.capacity mc.config < phdr.memsz.toNat)
    (hfile : phdr.filesz.toNat ≤ phdr.memsz.toNat)
    (h : loadTileSegment mc platform base bin phdr tile sent = some (r, sent')) :
    Adds phdr.memsz.toNat sent sent' := by
  have hmem := phdr.memsz.toNat_lt
  have hzeros : (phdr.memsz.toNat + 2 ^ 64 - phdr.filesz.toNat) % 2 ^ 64 =
      phdr.memsz.toNat - phdr.filesz.toNat := by omega
  obtain ⟨⟨result, t⟩, hw⟩ := @evaWrite_terminates mc tile phdr.paddr phdr.filesz.toNat platform
    (base + phdr.offset.toNat) (phdr.segdata bin) sent
  cases result with
  | error e =>
    rw [loadTileSegment_error hcap hw] at h
    cases h
    exact (writeFrom_adds hw).mono hfile
  | ok u =>
    rw [loadTileSegment_fill hcap hw, hzeros] at h
    have hadds := (writeFrom_adds hw).trans (evaMemset_adds h)
    rwa [Nat.add_sub_cancel' hfile] at hadds

theorem segmentLaw_iff {i : ℕ} :
    SegmentLaw mc platform base bin i tile sent ↔
      ((phdrAt bin i).memsz.toNat ≤ (phdrAt bin i).capacity mc.config →
        (phdrAt bin i).memsz.toNat < (phdrAt bin i).filesz.toNat →
        ∃ e, e ≠ .undefined ∧
          firstWord mc platform base bin (phdrAt bin i) tile sent = .error e) := by
  constructor
  · intro hlaw hcap hlt
    obtain ⟨e, hdef, hrun⟩ := hlaw.rejected (.inr (.inr hlt))
    have hsz : 0 < (phdrAt bin i).filesz.toNat := Nat.zero_lt_of_lt hlt
    cases hfirst : firstWord mc platform base bin (phdrAt bin i) tile sent with
    | error e' =>
      rw [loadTileSegment_error (not_lt.mpr hcap) (evaWrite_refused hsz hfirst)] at hrun
      cases hrun
      exact ⟨e, hdef, rfl⟩
    | ok rqst =>
      obtain ⟨new, hnew⟩ := loadTileSegment_begun (not_lt.mpr hcap) hsz hfirst hrun
      have hlength := congrArg List.length hnew
      rw [List.length_append, List.length_cons] at hlength
      omega
  · intro h
    by_cases hcap : (phdrAt bin i).capacity mc.config < (phdrAt bin i).memsz.toNat
    · have hover := @loadTileSegment_over mc platform base bin _ tile sent hcap
      refine ⟨fun _ => ⟨.fail, by decide, hover⟩, fun r sent' hrun => ?_⟩
      rw [hover] at hrun
      cases hrun
      exact Adds.refl _ _
    · have hle := not_lt.mp hcap
      by_cases hlt : (phdrAt bin i).memsz.toNat < (phdrAt bin i).filesz.toNat
      · obtain ⟨e, hdef, hfirst⟩ := h hle hlt
        have hrefused :=
          loadTileSegment_error hcap (evaWrite_refused (Nat.zero_lt_of_lt hlt) hfirst)
        refine ⟨fun _ => ⟨e, hdef, hrefused⟩, fun r sent' hrun => ?_⟩
        rw [hrefused] at hrun
        cases hrun
        exact Adds.refl _ _
      · refine ⟨fun hunfit => ?_, fun r sent' hrun => ?_⟩
        · exfalso
          rw [Unfit] at hunfit
          omega
        · exact (loadTileSegment_adds hcap (not_lt.mp hlt) hrun).mono hle

theorem loadSegmentsFrom_add {origin : Coord} {n m segidx : ℕ} {found found' : Option ℕ}
    (h : Returns (loadSegmentsFrom mc platform base bin origin tiles n segidx found) sent found'
      sent') :
    loadSegmentsFrom mc platform base bin origin tiles (n + m) segidx found sent =
      loadSegmentsFrom mc platform base bin origin tiles m (segidx + n) found' sent' := by
  induction n generalizing segidx found sent with
  | zero =>
    obtain ⟨rfl, rfl⟩ := returns_pure.mp h
    rw [Nat.zero_add, Nat.add_zero]
  | succ n ih =>
    have hnext : segidx + 1 + n = segidx + (n + 1) := by omega
    rw [loadSegmentsFrom] at h
    rw [Nat.succ_add_eq_add_succ, Nat.add_succ, loadSegmentsFrom]
    obtain ⟨phdr, s, hget, h⟩ := returns_bind.mp h
    refine (bind_of_ok hget).trans ?_
    split at h
    · next hnever =>
      rw [if_pos hnever, ih h, hnext]
    · next hnever =>
      obtain ⟨u, s', hseg, h⟩ := returns_bind.mp h
      rw [if_neg hnever]
      exact (bind_of_ok hseg).trans (by rw [ih h, hnext])

theorem turn_of_error {phdr : Phdr} {first : Coord} {others done rest : List Coord} {e : Errno}
    {s : List RequestPacket}
    (htargets : targets (first :: others) phdr = done ++ tile :: rest)
    (hdone : Returns (forM done (loadTileSegment mc platform base bin phdr)) s () sent)
    (hrun : loadTileSegment mc platform base bin phdr tile sent = some (.error e, sent')) :
    (if phdr.isLoadOnce then loadTileSegment mc platform base bin phdr first
      else forM (first :: others) (loadTileSegment mc platform base bin phdr)) s =
      some (.error e, sent') := by
  split
  · next honce =>
    rw [targets, if_pos honce] at htargets
    cases done with
    | nil =>
      obtain ⟨rfl, -⟩ := List.cons.inj htargets
      obtain ⟨-, rfl⟩ := returns_pure.mp hdone
      exact hrun
    | cons c done => cases done <;> cases htargets
  · next honce =>
    rw [targets, if_neg honce] at htargets
    rw [htargets]
    exact forM_of_error hdone hrun

theorem load_of_error {i : ℕ} {e : Errno} (h : Comes mc platform base bin tiles i tile sent)
    (hrun : loadTileSegment mc platform base bin (phdrAt bin i) tile sent =
      some (.error e, sent')) :
    load mc platform base (some bin) tiles [] = some (.error e, sent') := by
  obtain ⟨⟨hi, htype⟩, ⟨pc_init, hpc, initialized, hinit, origin, horigin, found, before, hbefore,
    done, rest, htargets, hdone⟩, hvalid, hheader⟩ := h
  cases tiles with
  | nil => cases horigin
  | cons first others =>
    obtain rfl := Option.some.inj horigin
    have hturn : loadSegmentsFrom mc platform base bin first (first :: others) (phnum bin) 0 none
        initialized = some (.error e, sent') := by
      obtain ⟨m, hm⟩ : ∃ m, phnum bin = i + (m + 1) := ⟨phnum bin - i - 1, by omega⟩
      rw [hm, loadSegmentsFrom_add hbefore, Nat.zero_add, loadSegmentsFrom]
      refine (bind_of_ok (congrArg (fun r => some (r, before)) (congrArg _ hheader))).trans ?_
      rw [if_neg ((not_never_iff _).mpr htype)]
      exact bind_of_error (turn_of_error htargets hdone hrun)
    have hnum : fromImage (readHalf bin ePhnum) initialized =
        some (.ok (half bin ePhnum), initialized) := by
      have hget := hheader
      simp only [getSegment, bind_eq_ok] at hget
      obtain ⟨_, -, num, hread, -⟩ := hget
      rw [hread, (readHalf_eq_ok.mp hread).2]
      rfl
    refine (bind_of_ok (congrArg (fun r => some (r, [])) hpc)).trans ?_
    refine (bind_of_ok (congrArg (fun r => some (r, [])) (congrArg _ hvalid))).trans ?_
    refine (bind_of_ok hinit).trans ((bind_of_ok hnum).trans ?_)
    exact bind_of_error hturn

end Proof

/-- The law holds of every segment that a load comes to if and only if the first word of each
segment with more data in the file than bytes in memory is refused; headers without such a segment
are enough. A segment that fails ends the load. -/
theorem capacity_iff (mc : Manycore) (platform : Platform) (base : ℕ) (bin : Image)
    (tiles : List Coord) :
    ((∀ i tile sent, Comes mc platform base bin tiles i tile sent →
        SegmentLaw mc platform base bin i tile sent) ↔
      ∀ i tile sent, Comes mc platform base bin tiles i tile sent →
        (phdrAt bin i).memsz.toNat ≤ (phdrAt bin i).capacity mc.config →
        (phdrAt bin i).memsz.toNat < (phdrAt bin i).filesz.toNat →
        ∃ e, e ≠ .undefined ∧
          firstWord mc platform base bin (phdrAt bin i) tile sent = .error e) ∧
    ((∀ i, IsLoad bin i → (phdrAt bin i).memsz.toNat ≤ (phdrAt bin i).capacity mc.config →
        (phdrAt bin i).filesz.toNat ≤ (phdrAt bin i).memsz.toNat) →
      ∀ i tile sent, Comes mc platform base bin tiles i tile sent →
        SegmentLaw mc platform base bin i tile sent) ∧
    ∀ i tile sent, Comes mc platform base bin tiles i tile sent → ∀ e sent',
      loadTileSegment mc platform base bin (phdrAt bin i) tile sent = some (.error e, sent') →
      load mc platform base (some bin) tiles [] = some (.error e, sent') := by
  refine ⟨⟨?_, ?_⟩, ?_, ?_⟩
  · intro h i tile sent hcomes
    exact segmentLaw_iff.mp (h i tile sent hcomes)
  · intro h i tile sent hcomes
    exact segmentLaw_iff.mpr (h i tile sent hcomes)
  · intro h i tile sent hcomes
    apply segmentLaw_iff.mpr
    intro hcap hlt
    exact absurd (h i hcomes.segment hcap) (not_le.mpr hlt)
  · intro i tile sent hcomes e sent' hrun
    exact load_of_error hcomes hrun

/-- Four bytes of data for a segment without memory. -/
def shortMemory : Image := elfFile [⟨ptLoad, 84, 0xffc, 4, 0, 5⟩] [1, 2, 3, 4]

def registers : List RequestPacket :=
  (tilesInitialize ⟨({} : Machine).config, true⟩ takesAll 0 [⟨16, 8⟩] []).elim [] Prod.snd

/-- A segment with more data in the file than memory is written. -/
theorem capacity_law_fails :
    Comes ⟨({} : Machine).config, true⟩ takesAll 0 shortMemory [⟨16, 8⟩] 0 ⟨16, 8⟩ registers ∧
    Unfit ({} : Machine).config (phdrAt shortMemory 0) ∧
    ¬ SegmentLaw ⟨({} : Machine).config, true⟩ takesAll 0 shortMemory 0 ⟨16, 8⟩ registers := by
  refine ⟨?_, .inr (.inr (by decide +kernel)), ?_⟩
  · refine ⟨by decide +kernel, ?_, by decide +kernel, by decide +kernel⟩
    refine ⟨0, by decide +kernel, registers, ?_, ⟨16, 8⟩, rfl, none, registers, rfl, [], [],
      by decide +kernel, rfl⟩
    show tilesInitialize _ _ _ _ _ = _
    decide +kernel
  · intro h
    obtain ⟨e, -, hrun⟩ := h.rejected (.inr (.inr (by decide +kernel)))
    have hwritten : (loadTileSegment ⟨({} : Machine).config, true⟩ takesAll 0 shortMemory
        (phdrAt shortMemory 0) ⟨16, 8⟩ registers).any
          (fun r => r.2.length == registers.length + 1) = true := by decide +kernel
    rw [hrun] at hwritten
    exact absurd (beq_iff_eq.mp hwritten) (Nat.ne_of_lt (Nat.lt_succ_self _))

end SegmentCapacity
