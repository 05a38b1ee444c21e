import Mathlib.Data.List.Infix
import ManycoreRuntime.DmaCoherence

/-! # Transfers by DMA that fail

A transfer to the device that fails returns at once. When it fails behind the flush, the caches keep
the lines that they hold, and these hide what the jobs have written to the banks. -/
namespace DmaFailure

open Actions
open ByteStore
open CacheBanks
open Coordinate (Coord Errno)
open Configuration (Manycore Accepted)
open ConfigPod (forall_pod podVcoreOrigin)
open DmaCoherence
open DmaTransfer
open EvaMemory (segment_pos)
open EvaToNpa (Npa)
open Fallible (bind_eq_ok)
open Machines (Machine)
open Packets
open PodGeometry (Regular dramId podForeachDram)
open PodMalloc (Pod checkPodId deviceInit)
open Vcache
open WriteBackCache

/-- What a transfer has done when it fails: the jobs that are complete, what was written of the
next one, and the lines that are invalid. -/
structure Stop where
  completed : List DmaJob
  begun : List DmaJob
  zeroed : List LineId

section Definitions

variable (mc : Manycore) (hw : Hardware)

abbrev writeJob (p : Coord) (dma : DmaJob) : Command Unit :=
  evaWriteDma mc hw (podVcoreOrigin mc.config p) dma.dAddr dma.hAddr dma.size

abbrev invalidateLine (line : LineId) : Command Unit :=
  tagTurn mc (fun way_addr => write32 mc hw way_addr 0) line

inductive StopsAt (pods : List Pod) (podId : ℤ) (p : Coord) (jobs : List DmaJob) (s : System)
    (e : Errno) (t : System) : Stop → Prop where
  | rejected : (∀ pod, checkPodId pods podId ≠ .ok pod) ∨ supportsDmaRead mc = false → t = s →
      StopsAt pods podId p jobs s e t ⟨[], [], []⟩
  | flush : Fails (podFlushVcache mc hw p) s e t → StopsAt pods podId p jobs s e t ⟨[], [], []⟩
  | job {completed rest : List DmaJob} {job : DmaJob} {off : ℕ} {t₁ t₂ : System} :
      jobs = completed ++ job :: rest → Returns (podFlushVcache mc hw p) s () t₁ →
      Returns (forM completed (writeJob mc hw p)) t₁ () t₂ →
      Fails (writeJob mc hw p job) t₂ e t → off < job.size →
      Returns (writeJob mc hw p { job with size := off }) t₂ () t →
      StopsAt pods podId p jobs s e t ⟨completed, [{ job with size := off }], []⟩
  | invalidate {drams : List Coord} {zeroed rest : List LineId} {line : LineId} {t₁ t₂ : System} :
      hasCache mc = true → Returns (podFlushVcache mc hw p) s () t₁ →
      Returns (forM jobs (writeJob mc hw p)) t₁ () t₂ →
      podForeachDram mc.config p = some drams → podLines mc drams = zeroed ++ line :: rest →
      Returns (forM zeroed (invalidateLine mc hw)) t₂ () t →
      Fails (invalidateLine mc hw line) t e t →
      StopsAt pods podId p jobs s e t ⟨jobs, [], zeroed⟩

def afterFlush (s : System) (c : Coord) : Bank UInt8 :=
  let b := (s.settled mc hw c).flushed (shape mc)
  b.load (shape mc) (hw.victim b 0) 0

/-- The line of a place is in the cache behind the flush, and it is not among the invalid ones. -/
def Held (s : System) (zeroed : List LineId) (npa : Npa) : Prop :=
  let c : Coord := ⟨npa.x, npa.y⟩
  let set := (shape mc).setOf npa.epa.toNat
  ∃ way l, (afterFlush mc hw s c).lines set way = some l ∧ l.tag = (shape mc).tagOf npa.epa.toNat ∧
    (⟨way, set, c⟩ : LineId) ∉ zeroed

def ShowsCompleted (p : Coord) (s : System) (stop : Stop) (t : System) : Prop :=
  t.seen mc hw = applyLog (s.seen mc hw) (stop.completed.flatMap (jobLog mc p s.host))

/-- Where a line is held, the complete jobs change nothing. Elsewhere, what was written of the next
job changes nothing. -/
structure Harmless (p : Coord) (s : System) (stop : Stop) : Prop where
  held : ∀ npa : Npa, CacheOf mc.config p ⟨npa.x, npa.y⟩ → Held mc hw s stop.zeroed npa →
    applyLog (s.seen mc hw) (stop.completed.flatMap (jobLog mc p s.host)) npa = s.seen mc hw npa
  begun : ∀ npa : Npa, CacheOf mc.config p ⟨npa.x, npa.y⟩ → ¬ Held mc hw s stop.zeroed npa →
    applyLog (s.seen mc hw) ((stop.completed ++ stop.begun).flatMap (jobLog mc p s.host)) npa =
      applyLog (s.seen mc hw) (stop.completed.flatMap (jobLog mc p s.host)) npa

end Definitions

section Commands

variable {mc : Manycore} {hw : Hardware} {p : Coord} {s s₀ t : System} {e : Errno}

theorem transmit_fails {rqst : Except Errno Unit → Except Errno RequestPacket}
    (h : Fails (transmit mc hw rqst) s e t) : t = s := by
  simp only [Fails, transmit] at h
  split at h
  · cases h
    rfl
  · cases h

theorem transmit_preserves {P : System → Prop}
    {rqst : Except Errno Unit → Except Errno RequestPacket}
    (h : ∀ s pkt, rqst (hw.transmit s.time) = .ok pkt → P s → P (s.send mc hw pkt)) :
    Preserves P (transmit mc hw rqst) := by
  intro s r t hrun hs
  cases r with
  | error e => exact transmit_fails hrun ▸ hs
  | ok pkt =>
    obtain ⟨hpkt, rfl⟩ := transmit_returns.mp hrun
    exact h s pkt hpkt hs

theorem write32_fails {npa : Npa} {vp : UInt32} (h : Fails (write32 mc hw npa vp) s e t) :
    t = s := by
  rcases fails_bind.mp h with h | ⟨_, _, -, h⟩
  · exact transmit_fails h
  · exact absurd h not_fails_pure

theorem dmaWrite_fails {npa : Npa} {data sz : ℕ}
    (h : Fails (dmaWriteNoCacheAinv mc hw npa data sz) s e t) : t = s := by
  simp only [Fails, dmaWriteNoCacheAinv] at h
  split at h
  · cases h
    rfl
  split at h
  · cases h
    rfl
  split at h
  · cases h
    rfl
  simp only [dmaWrite] at h
  split at h <;> cases h
  rfl

/-- A job that fails leaves what a shorter job leaves. -/
theorem writeJob_fails {job : DmaJob} (h : Fails (writeJob mc hw p job) s e t) :
    ∃ off < job.size, Returns (writeJob mc hw p { job with size := off }) s () t :=
  ChunkedTransfer.transferFrom_fails (fun _ _ _ ht => segment_pos ht)
    (fun _ _ _ _ _ _ hx => dmaWrite_fails hx) h

theorem flushTag_preserves (hcache : hasCache mc = true) (hreach : CachesReached mc p) {tag : Npa}
    (htag : TagOf mc p tag) : Preserves (SameView mc hw s₀) (vcacheFlushTag mc hw tag) := by
  obtain ⟨c, set, way, -, hline⟩ := hreach.line_of_tag htag
  intro s r t hrun hs
  cases r with
  | error e =>
    rw [vcacheFlushTag, if_pos hcache] at hrun
    rcases fails_bind.mp hrun with hsend | ⟨_, _, -, hpure⟩
    · exact transmit_fails hsend ▸ hs
    · exact absurd hpure not_fails_pure
  | ok u =>
    obtain ⟨rqst, -, rfl, hrespond⟩ := vcacheFlushTag_ok hcache hreach.packets hline hrun
    refine hs.send fun b hb => ?_
    rw [hrespond]
    exact ⟨Bank.flushLine_coherent hb, Bank.flushLine_view hb⟩

theorem read32_preserves (hreach : CachesReached mc p) {c : Coord} :
    Preserves (SameView mc hw s₀) (read32 mc hw ⟨c.x, c.y, 0⟩) := by
  refine .bind (transmit_preserves fun s pkt hpkt hs => hs.send fun b hb => ?_) fun rqst => ?_
  · obtain ⟨-, hrespond⟩ := sendReadRqst_zero_ok hw hreach.packets hpkt
    rw [hrespond]
    exact ⟨Bank.load_coherent hb, Bank.load_view hreach.block_pos hb⟩
  · intro s r t hrun hs
    simp only [recvReadRsp] at hrun
    split at hrun
    · cases hrun
      exact hs
    · cases hrun
      exact hs.drain _

theorem podFlushVcache_preserves (hreach : hasCache mc = true → CachesReached mc p) :
    Preserves (SameView mc hw s₀) (podFlushVcache mc hw p) := by
  rw [podFlushVcache]
  split
  · next hcache =>
    have hreach := hreach hcache
    refine .bind (podApplyToVcache_preserves fun tag htag => flushTag_preserves hcache hreach htag)
      fun _ => .bind_fromOption fun drams hdrams => .forM fun c hc => ?_
    refine .bind_fromExcept fun cache hid => .bind_fromExcept fun way_addr hnpa => ?_
    simp only [vcacheWayNpa, hreach.ids c ⟨drams, hdrams, hc⟩ cache hid, bind_eq_ok,
      Except.ok.injEq, pure, Except.pure] at hnpa
    obtain ⟨_, rfl, epa, -, rfl⟩ := hnpa
    exact .bind (read32_preserves hreach) fun _ => .pure _
  · exact .pure _

theorem flushTags_settled (hcache : hasCache mc = true) (hreach : CachesReached mc p)
    (hcoh : ∀ c, (s.settled mc hw c).Coherent (shape mc)) {u : Unit}
    (h : Returns (podApplyToVcache mc p (vcacheFlushTag mc hw)) s u t) {c : Coord}
    (hc : CacheOf mc.config p c) :
    t.settled mc hw c = (s.settled mc hw c).flushed (shape mc) := by
  obtain ⟨hsame, hclean⟩ := flushTags_ok hcache hreach hcoh h
  refine Bank.eq_flushed hreach.block_pos (hsame.coherent c) (hclean c hc) (hsame.view c) ?_
  refine podApplyToVcache_keeps (P := fun t => ∀ set way,
    ((t.settled mc hw c).lines set way).map Line.clean =
      ((s.settled mc hw c).lines set way).map Line.clean) h (fun _ _ => rfl) ?_
  intro tag s' t' htag hf hs set way
  obtain ⟨c', set', way', -, hline⟩ := hreach.line_of_tag htag
  obtain ⟨rqst, -, rfl, hrespond⟩ := vcacheFlushTag_ok hcache hreach.packets hline hf
  rw [settled_send]
  split
  · rw [hrespond, Bank.flushLine_clean]
    exact hs set way
  · exact hs set way

theorem podFlushVcache_settled (hreach : hasCache mc = true → CachesReached mc p)
    (hcoh : ∀ c, (s.settled mc hw c).Coherent (shape mc)) {u : Unit}
    (h : Returns (podFlushVcache mc hw p) s u t) {c : Coord} (hc : CacheOf mc.config p c) :
    t.settled mc hw c = afterFlush mc hw s c := by
  rw [podFlushVcache] at h
  split at h
  · next hcache =>
    have hreach := hreach hcache
    obtain ⟨_, s₁, htags, h⟩ := returns_bind.mp h
    obtain ⟨drams, s₂, hret, hwait⟩ := returns_bind.mp h
    obtain ⟨hdrams, rfl⟩ := returns_fromOption.mp hret
    have hflushed := fun c hc => flushTags_settled (c := c) hcache hreach hcoh htags hc
    have hloop := forM_returns (P := fun before t => ∀ c, CacheOf mc.config p c →
      t.settled mc hw c = if c ∈ before then afterFlush mc hw s c
        else (s.settled mc hw c).flushed (shape mc)) hwait hflushed ?_
    · obtain ⟨drams', hdrams', hmem⟩ := hc
      cases hdrams.symm.trans hdrams'
      rw [hloop c ⟨drams, hdrams, hmem⟩, if_pos hmem]
    · intro before c' s' t' hc' hf hs c hc
      obtain ⟨rqst, hdst, rfl, hrespond⟩ := wait_turn hreach ⟨drams, hdrams, hc'⟩ hf
      rw [settled_drain, settled_send, hs c hc]
      by_cases he : c = c'
      · subst he
        rw [if_pos hdst.symm, hrespond, if_pos (List.mem_append_right before List.mem_cons_self)]
        split
        · -- a cache that was read before has the line
          have hcoh' := (flushTags_ok hcache hreach hcoh htags).1.coherent c
          rw [hflushed c hc] at hcoh'
          exact Bank.load_again hcoh' fun b => hw.victim b 0
        · rfl
      · have hne : c ≠ destination rqst := fun h => he (h.trans hdst)
        simp only [if_neg hne, List.mem_append, List.mem_singleton, he, or_false]
  · next hcache =>
    obtain ⟨-, rfl⟩ := returns_pure.mp h
    have hempty := (bounded_of_coherent (hcoh c)).empty hcache
    rw [afterFlush, Bank.flushed_of_empty hempty, Bank.load_of_no_ways (if_neg hcache)]

end Commands

structure Left (mc : Manycore) (hw : Hardware) (p : Coord) (s : System) (stop : Stop)
    (t : System) : Prop where
  coherent : ∀ c, CacheOf mc.config p c → (afterFlush mc hw s c).Coherent (shape mc)
  view : ∀ c, CacheOf mc.config p c →
    (afterFlush mc hw s c).view (shape mc) = (s.settled mc hw c).view (shape mc)
  lines : ∀ c, CacheOf mc.config p c → ∀ set way, (t.settled mc hw c).lines set way =
    if (⟨way, set, c⟩ : LineId) ∈ stop.zeroed then none
    else (afterFlush mc hw s c).lines set way
  memory : ∀ npa : Npa, CacheOf mc.config p ⟨npa.x, npa.y⟩ →
    (t.settled mc hw ⟨npa.x, npa.y⟩).memory npa.epa.toNat =
      applyLog (s.seen mc hw) ((stop.completed ++ stop.begun).flatMap (jobLog mc p s.host)) npa
  frame : ∀ c, ¬ CacheOf mc.config p c →
    (t.settled mc hw c).view (shape mc) = (s.settled mc hw c).view (shape mc)

section Behind

variable {mc : Manycore} {hw : Hardware} {p : Coord} {s t : System} {e : Errno} {stop : Stop}
variable {completed begun : List DmaJob}

theorem left_of_writes {t₁ : System} (hreach : hasCache mc = true → CachesReached mc p)
    (hs : Ready mc hw s) (hflush : Returns (podFlushVcache mc hw p) s () t₁)
    (hwrite : Overwritten mc p t₁ ((completed ++ begun).flatMap (jobLog mc p t₁.host)) t) :
    Left mc hw p s ⟨completed, begun, []⟩ t := by
  have hflushed := podFlushVcache_ok hreach hs.idle hs.coherent hflush
  have hsettled := fun c hc => podFlushVcache_settled (c := c) hreach hs.coherent hflush hc
  have hidle : ∀ c, CacheOf mc.config p c → t.inFlight c = [] := by
    intro c hc
    rw [hwrite.inFlight]
    exact hflushed.idle c hc
  refine ⟨fun c hc => ?_, fun c hc => ?_, fun c hc set way => ?_, fun npa hc => ?_, fun c hc => ?_⟩
  · rw [← hsettled c hc]
    exact hflushed.coherent c
  · rw [← hsettled c hc]
    exact hflushed.view c
  · rw [settled_of_idle (hidle c hc), hwrite.lines, ← settled_of_idle (hflushed.idle c hc),
      hsettled c hc]
    exact (if_neg List.not_mem_nil).symm
  · have hmemory : memoryOf t npa = applyLog (memoryOf t₁)
        ((completed ++ begun).flatMap (jobLog mc p t₁.host)) npa := congrFun hwrite.memory npa
    rw [settled_of_idle (hidle _ hc)]
    refine hmemory.trans ?_
    rw [hflushed.host]
    exact applyLog_congr _ (hflushed.memory_seen hc)
  · rw [settled_congr (hwrite.frame c hc) (congrFun hwrite.inFlight c)]
    exact hflushed.view c

theorem Left.invalidateLine {drams : List Coord} {zeroed : List LineId} {line : LineId}
    {s' : System} (hreach : CachesReached mc p) (hdrams : podForeachDram mc.config p = some drams)
    (hline : line ∈ podLines mc drams) (hf : Returns (invalidateLine mc hw line) s' () t)
    (h : Left mc hw p s ⟨completed, begun, zeroed⟩ s') :
    Left mc hw p s ⟨completed, begun, zeroed ++ [line]⟩ t := by
  obtain ⟨hway, hset, hmem⟩ := mem_podLines.mp hline
  obtain ⟨cache, tag, hid, hnpa, -, hf⟩ := tagTurn_returns hf ⟨drams, hdrams, hmem⟩ hset hway
  obtain ⟨rqst, hdst, rfl, hrespond⟩ := write32_zero_ok hreach.packets
    (hreach.lineTag ⟨drams, hdrams, hmem⟩ hid hset hway hnpa) hf
  refine ⟨h.coherent, h.view, fun c hc set way => ?_, fun npa hc => ?_, fun c hc => ?_⟩
  · have hmem_iff : (⟨way, set, c⟩ : LineId) ∈ zeroed ++ [line] ↔
        (⟨way, set, c⟩ : LineId) ∈ zeroed ∨ (⟨way, set, c⟩ : LineId) = line := by
      rw [List.mem_append, List.mem_singleton]
    rw [settled_send, hrespond, hdst]
    by_cases hslot : (⟨way, set, c⟩ : LineId) = line
    · subst hslot
      rw [if_pos rfl, Bank.dropLine_self]
      exact (if_pos (hmem_iff.mpr (Or.inr rfl))).symm
    · have hkept : (if c = line.cache then (s'.settled mc hw c).dropLine line.set line.way
          else s'.settled mc hw c).lines set way = (s'.settled mc hw c).lines set way := by
        split
        · next he =>
          refine Bank.dropLine_other ?_
          rintro ⟨rfl, rfl⟩
          subst he
          exact hslot rfl
        · rfl
      rw [hkept, h.lines c hc]
      simp only [hmem_iff, hslot, or_false]
  · rw [← h.memory npa hc, settled_send, hrespond]
    split <;> rfl
  · have hne : c ≠ line.cache := fun he => hc (he ▸ ⟨drams, hdrams, hmem⟩)
    rw [settled_send, hdst, if_neg hne]
    exact h.frame c hc

theorem Left.distinct (h : Left mc hw p s stop t) {c : Coord} (hc : CacheOf mc.config p c) :
    (t.settled mc hw c).Distinct (shape mc) := by
  refine (h.coherent c hc).distinct.of_lines ?_
  intro set way l hl
  rw [h.lines c hc] at hl
  split at hl
  · cases hl
  · exact hl

theorem Left.seen_of_held (h : Left mc hw p s stop t) {npa : Npa}
    (hc : CacheOf mc.config p ⟨npa.x, npa.y⟩) (hheld : Held mc hw s stop.zeroed npa) :
    t.seen mc hw npa = s.seen mc hw npa := by
  obtain ⟨way, l, hl, htag, hkept⟩ := hheld
  have hline := h.lines _ hc ((shape mc).setOf npa.epa.toNat) way
  rw [if_neg hkept, hl] at hline
  have hview := congrFun (h.view _ hc) npa.epa.toNat
  rw [Bank.view_of_line (h.coherent _ hc).distinct hl htag] at hview
  exact (Bank.view_of_line (h.distinct hc) hline htag).trans hview

theorem Left.seen_of_not_held (h : Left mc hw p s stop t) {npa : Npa}
    (hc : CacheOf mc.config p ⟨npa.x, npa.y⟩) (hheld : ¬ Held mc hw s stop.zeroed npa) :
    t.seen mc hw npa = applyLog (s.seen mc hw)
      ((stop.completed ++ stop.begun).flatMap (jobLog mc p s.host)) npa := by
  refine (Bank.view_of_no_line (h.distinct hc) ?_).trans (h.memory npa hc)
  intro way l hl htag
  rw [h.lines _ hc] at hl
  split at hl
  · cases hl
  · next hkept => exact hheld ⟨way, l, hl, htag, hkept⟩

theorem Left.seen_of_not_cache (h : Left mc hw p s stop t) {npa : Npa}
    (hc : ¬ CacheOf mc.config p ⟨npa.x, npa.y⟩) : t.seen mc hw npa = s.seen mc hw npa :=
  congrFun (h.frame _ hc) npa.epa.toNat

theorem Left.showsCompleted_iff (h : Left mc hw p s stop t)
    (hjobs : ∀ job ∈ stop.completed, DramJob mc p job) :
    ShowsCompleted mc hw p s stop t ↔ Harmless mc hw p s stop := by
  constructor
  · intro hshows
    refine ⟨fun npa hc hheld => ?_, fun npa hc hheld => ?_⟩
    · rw [← h.seen_of_held hc hheld]
      exact (congrFun hshows npa).symm
    · rw [← h.seen_of_not_held hc hheld]
      exact congrFun hshows npa
  · intro hharmless
    funext npa
    by_cases hc : CacheOf mc.config p ⟨npa.x, npa.y⟩
    · by_cases hheld : Held mc hw s stop.zeroed npa
      · exact (h.seen_of_held hc hheld).trans (hharmless.held npa hc hheld).symm
      · exact (h.seen_of_not_held hc hheld).trans (hharmless.begun npa hc hheld)
    · rw [applyLog_of_not_mem _ (not_mem_jobLogs hjobs hc)]
      exact h.seen_of_not_cache hc

end Behind

section Failure

variable {mc : Manycore} {hw : Hardware} {pods : List Pod} {podId : ℤ} {p : Coord}
variable {jobs : List DmaJob} {s t : System} {e : Errno} {stop : Stop}

theorem harmless_nothing : Harmless mc hw p s ⟨[], [], []⟩ :=
  ⟨fun _ _ _ => rfl, fun _ _ _ => rfl⟩

theorem dramJob_shorter {job : DmaJob} (h : DramJob mc p job) {off : ℕ} (hoff : off < job.size) :
    DramJob mc p { job with size := off } :=
  ⟨fun k hk => h.dram k (hk.trans hoff), fun k hk => h.cache k (hk.trans hoff)⟩

theorem podInvalidateVcache_fails {drams : List Coord}
    (hdrams : hasCache mc = true → podForeachDram mc.config p = some drams)
    (h : Fails (podInvalidateVcache mc hw p) s e t) :
    hasCache mc = true ∧ ∃ zeroed line rest, podLines mc drams = zeroed ++ line :: rest ∧
      Returns (forM zeroed (invalidateLine mc hw)) s () t ∧
      Fails (invalidateLine mc hw line) t e t := by
  by_cases hcache : hasCache mc = true
  · rw [podInvalidateVcache, podApplyToVcache_eq hcache (hdrams hcache)] at h
    obtain ⟨zeroed, line, rest, u, hlines, hzeroed, hline⟩ := forM_fails h
    obtain rfl := tagTurn_fails (fun tag h => write32_fails h) hline
    exact ⟨hcache, zeroed, line, rest, hlines, hzeroed, hline⟩
  · rw [podInvalidateVcache, podApplyToVcache, if_neg hcache] at h
    exact absurd h not_fails_pure

theorem podFlushVcache_drams {u : Unit} (hcache : hasCache mc = true)
    (h : Returns (podFlushVcache mc hw p) s u t) :
    ∃ drams, podForeachDram mc.config p = some drams := by
  rw [podFlushVcache, if_pos hcache] at h
  obtain ⟨_, _, -, h⟩ := returns_bind.mp h
  obtain ⟨drams, _, hret, -⟩ := returns_bind.mp h
  exact ⟨drams, (returns_fromOption.mp hret).1⟩

/-- A transfer that fails stops in one of four places. -/
theorem exists_stop (hp : ∀ pod, checkPodId pods podId = .ok pod → pod.podCoord = p)
    (h : Fails (podDmaToDevice mc hw pods podId jobs) s e t) :
    ∃ stop, StopsAt mc hw pods podId p jobs s e t stop := by
  rcases fails_bind.mp h with h | ⟨pod, s', hret, h⟩
  · obtain ⟨herr, rfl⟩ := fails_fromExcept.mp h
    refine ⟨_, .rejected (Or.inl fun pod hok => ?_) rfl⟩
    cases herr.symm.trans hok
  obtain ⟨hpod, rfl⟩ := returns_fromExcept.mp hret
  obtain rfl := hp pod hpod
  split at h
  · next hdma =>
    cases h
    exact ⟨_, .rejected (Or.inr (Bool.not_eq_true' _ ▸ hdma)) rfl⟩
  rcases fails_bind.mp h with h | ⟨_, t₁, hflush, h⟩
  · exact ⟨_, .flush h⟩
  rcases fails_bind.mp h with h | ⟨_, t₂, hwrites, h⟩
  · obtain ⟨completed, job, rest, t₂, hsplit, hcompleted, hjob⟩ := forM_fails h
    obtain ⟨off, hoff, hbegun⟩ := writeJob_fails hjob
    exact ⟨_, .job hsplit hflush hcompleted hjob hoff hbegun⟩
  · obtain ⟨drams, hdrams⟩ : ∃ drams, hasCache mc = true →
        podForeachDram mc.config pod.podCoord = some drams := by
      by_cases hcache : hasCache mc = true
      · obtain ⟨drams, hdrams⟩ := podFlushVcache_drams hcache hflush
        exact ⟨drams, fun _ => hdrams⟩
      · exact ⟨[], fun hyes => absurd hyes hcache⟩
    obtain ⟨hcache, zeroed, line, rest, hlines, hzeroed, hline⟩ :=
      podInvalidateVcache_fails hdrams h
    exact ⟨_, .invalidate hcache hflush hwrites (hdrams hcache) hlines hzeroed hline⟩

/-- A stop comes before the end of the flush, or it leaves what was written. -/
theorem StopsAt.shows_or_left (hreach : hasCache mc = true → CachesReached mc p)
    (hjobs : ∀ job ∈ jobs, DramJob mc p job) (hs : Ready mc hw s)
    (h : StopsAt mc hw pods podId p jobs s e t stop) :
    (stop = ⟨[], [], []⟩ ∧ t.seen mc hw = s.seen mc hw) ∨
      (Left mc hw p s stop t ∧ ∀ job ∈ stop.completed, DramJob mc p job) := by
  cases h with
  | rejected hwhy hsame =>
    rw [hsame]
    exact Or.inl ⟨rfl, rfl⟩
  | flush hfail =>
    refine Or.inl ⟨rfl, ?_⟩
    have hsame : SameView mc hw s t :=
      podFlushVcache_preserves hreach s _ t hfail ⟨hs.coherent, fun _ => rfl, rfl⟩
    funext npa
    exact congrFun (hsame.view _) npa.epa.toNat
  | job hsplit hflush hcompleted hfail hoff hbegun =>
    subst hsplit
    have hdone := fun job hjob => hjobs job (List.mem_append_left _ hjob)
    have hfirst := writes_ok hdone hcompleted
    have hjob := hjobs _ (List.mem_append_right _ List.mem_cons_self)
    have hnext := evaWriteDma_ok (dramJob_shorter hjob hoff) hbegun
    rw [hfirst.host] at hnext
    refine Or.inr ⟨left_of_writes hreach hs hflush ?_, hdone⟩
    rw [List.flatMap_append, List.flatMap_singleton]
    exact hfirst.trans hnext
  | invalidate hcache hflush hwrites hdrams hlines hzeroed hfail =>
    have hwritten := writes_ok hjobs hwrites
    rw [← List.append_nil jobs] at hwritten
    have hleft : Left mc hw p s ⟨jobs, [], []⟩ _ := left_of_writes hreach hs hflush hwritten
    refine Or.inr ⟨?_, hjobs⟩
    refine forM_returns (P := fun zeroed t => Left mc hw p s ⟨jobs, [], zeroed⟩ t) hzeroed hleft ?_
    intro before line s' t' hline hf hbefore
    have hmem : line ∈ podLines mc _ := hlines ▸ List.mem_append_left _ hline
    exact hbefore.invalidateLine (hreach hcache) hdrams hmem hf

end Failure

def failingAt (n : ℕ) : Hardware :=
  { prompt with dma := fun time => if time = n then .error .fail else .ok () }

def threeBytes : List DmaJob := [oneByte 0x80000000, oneByte 0x80000100, oneByte 0x80000080]

/-- After every failure the device shows the jobs of a prefix of the list. -/
def FailuresCoherent (mc : Manycore) (pods : List Pod) : Prop :=
  ∀ hw podId p jobs s e t, (∀ pod, checkPodId pods podId = .ok pod → pod.podCoord = p) →
    (hasCache mc = true → CachesReached mc p) → (∀ job ∈ jobs, DramJob mc p job) →
    Ready mc hw s → Fails (podDmaToDevice mc hw pods podId jobs) s e t →
    ∃ completed, completed <+: jobs ∧
      t.seen mc hw = applyLog (s.seen mc hw) (completed.flatMap (jobLog mc p s.host))

def differs (mc : Manycore) (hw : Hardware) (jobs completed : List DmaJob) (s t : System) : Bool :=
  jobs.any fun job => t.seen mc hw (jobPlace mc ⟨0, 0⟩ job 0) !=
    applyLog (s.seen mc hw) (completed.flatMap (jobLog mc ⟨0, 0⟩ s.host)) (jobPlace mc ⟨0, 0⟩ job 0)

theorem ne_of_differs {mc : Manycore} {hw : Hardware} {jobs completed : List DmaJob} {s t : System}
    (h : differs mc hw jobs completed s t = true) :
    t.seen mc hw ≠ applyLog (s.seen mc hw) (completed.flatMap (jobLog mc ⟨0, 0⟩ s.host)) := by
  intro he
  obtain ⟨job, -, hne⟩ := List.any_eq_true.mp h
  rw [bne_iff_ne, he] at hne
  exact hne rfl

theorem oneLine_reached : CachesReached ⟨oneLine.config, true⟩ ⟨0, 0⟩ := by
  have h : Regular oneLine.config :=
    ⟨by decide, by decide, forall_pod (by decide), forall_pod (by decide)⟩
  exact ⟨⟨⟨7, rfl⟩, ⟨0, rfl⟩, by decide⟩, ⟨by decide, by decide⟩,
    idsLeadBack_of_regular h (by decide) (by decide) (by decide)⟩

theorem oneLine_pod {pod : Pod} (h : checkPodId (deviceInit oneLine.config) 0 = .ok pod) :
    pod.podCoord = ⟨0, 0⟩ := by
  have hfirst : checkPodId (deviceInit oneLine.config) 0 = .ok ⟨⟨0, 0⟩, none⟩ := by decide
  cases h.symm.trans hfirst
  rfl

theorem threeBytes_dram : ∀ job ∈ threeBytes, DramJob ⟨oneLine.config, true⟩ ⟨0, 0⟩ job := by
  intro job hjob
  simp only [threeBytes, List.mem_cons, List.not_mem_nil, or_false] at hjob
  rcases hjob with rfl | rfl | rfl
  · exact dramJob_oneByte (by decide : 2 ^ 31 ≤ (0x80000000 : UInt32).toNat) rfl ⟨_, rfl, by decide⟩
  · exact dramJob_oneByte (by decide : 2 ^ 31 ≤ (0x80000100 : UInt32).toNat) rfl ⟨_, rfl, by decide⟩
  · exact dramJob_oneByte (by decide : 2 ^ 31 ≤ (0x80000080 : UInt32).toNat) rfl ⟨_, rfl, by decide⟩

theorem threeBytes_fails : ∃ e t, Fails (podDmaToDevice ⟨oneLine.config, true⟩ (failingAt 8)
      (deviceInit oneLine.config) 0 threeBytes) (dirtySystem ⟨16, 7⟩ 0 0) e t ∧
    (threeBytes.inits.all fun completed => differs ⟨oneLine.config, true⟩ (failingAt 8) threeBytes
      completed (dirtySystem ⟨16, 7⟩ 0 0) t) = true :=
  exists_fails _ (by decide +kernel)

end DmaFailure
