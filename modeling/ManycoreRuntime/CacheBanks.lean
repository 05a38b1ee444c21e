import ManycoreRuntime.Vcache
import ManycoreRuntime.WriteBackCache
import ManycoreRuntime.WriteMem

/-! # The banks behind the caches

Every cache has a bank of DRAM. Requests reach a cache in the order in which they were sent, at any
time later; the response to a load comes after all requests before it. A transfer by DMA goes past
the network and past the cache. -/
namespace CacheBanks

open BitField
open Coordinate (Coord Errno)
open Configuration (Manycore popcount)
open DramTranslation (shl_eq_ok)
open EvaToNpa (Npa)
open Fallible (bind_eq_ok)
open Packets
open Vcache
open WriteBackCache (Shape Bank)

/-- What the platform answers to the commands of the host, by the number of commands before, and
what the hardware is free to choose: how many requests of those in flight arrive at a cache after a
command, which way a load replaces, and what the other requests do. -/
structure Hardware where
  transmit : ℕ → Except Errno Unit
  receive : ℕ → Except Errno Unit
  dma : ℕ → Except Errno Unit
  arrivals : ℕ → Coord → ℕ
  victim : Bank UInt8 → ℕ → ℕ
  other : RequestPacket → Bank UInt8 → Bank UInt8

/-- The banks, the requests on their way to each cache, the first one first, and the memory of the
host. -/
structure System where
  time : ℕ
  bank : Coord → Bank UInt8
  inFlight : Coord → List RequestPacket
  host : ℕ → UInt8

/-- Without the feature there are no ways. -/
def shape (mc : Manycore) : Shape where
  block := mc.config.vcacheBlockSize.toNat
  sets := (vcacheNumSets mc).toNat
  ways := if hasCache mc then (vcacheNumWays mc).toNat else 0

def IsTagEpa (epa : ℕ) : Prop := vcacheEpaTag.toNat ≤ epa ∧ epa < vcacheEpaWhDst.toNat

instance (epa : ℕ) : Decidable (IsTagEpa epa) := inferInstanceAs (Decidable (_ ∧ _))

/-- The number of the line whose tag is at an address: all sets of the first way come first. -/
def tagLine (mc : Manycore) (epa : ℕ) : ℕ := (epa - vcacheEpaTag.toNat) / (shape mc).block

def destination (rqst : RequestPacket) : Coord := ⟨rqst.xDst.toUInt32, rqst.yDst.toUInt32⟩

section Hardware

variable (mc : Manycore) (hw : Hardware)

def respond (b : Bank UInt8) (rqst : RequestPacket) : Bank UInt8 :=
  let S := shape mc
  let epa := (rqst.addr <<< 2).toNat
  let line := tagLine mc epa
  match rqst.op with
  | .cacheOp =>
    if IsTagEpa epa ∧ rqst.regId = cacheOpTagfl then b.flushLine S (line % S.sets) (line / S.sets)
    else hw.other rqst b
  | .remoteSw =>
    -- a tag without the valid bit
    if IsTagEpa epa ∧ rqst.payload &&& vcacheValid = 0 then
      b.dropLine (line % S.sets) (line / S.sets)
    else hw.other rqst b
  | .remoteLoad =>
    if epa < vcacheEpaTag.toNat then b.load S (hw.victim b epa) epa else hw.other rqst b
  | .remoteStore => hw.other rqst b

namespace System

variable (s : System)

/-- A bank once all requests on their way to it have arrived. -/
def settled (c : Coord) : Bank UInt8 := (s.inFlight c).foldl (respond mc hw) (s.bank c)

def seen (npa : Npa) : UInt8 :=
  (s.settled mc hw ⟨npa.x, npa.y⟩).view (shape mc) npa.epa.toNat

def arrive : System where
  time := s.time
  bank c := ((s.inFlight c).take (hw.arrivals s.time c)).foldl (respond mc hw) (s.bank c)
  inFlight c := (s.inFlight c).drop (hw.arrivals s.time c)
  host := s.host

def send (rqst : RequestPacket) : System :=
  let dst := destination rqst
  arrive mc hw { s with
    time := s.time + 1
    inFlight := Function.update s.inFlight dst (s.inFlight dst ++ [rqst]) }

def drain (c : Coord) : System :=
  { s with
    time := s.time + 1
    bank := Function.update s.bank c (s.settled mc hw c)
    inFlight := Function.update s.inFlight c [] }

end System

end Hardware

section Proof

variable {mc : Manycore} {hw : Hardware} {s : System} {c c' : Coord} {rqst : RequestPacket}

/-- Time passes without a change to what the requests find. -/
theorem settled_arrive (s : System) (c : Coord) :
    (s.arrive mc hw).settled mc hw c = s.settled mc hw c := by
  simp only [System.settled, System.arrive]
  rw [← List.foldl_append, List.take_append_drop]

theorem settled_send (s : System) (rqst : RequestPacket) (c : Coord) :
    (s.send mc hw rqst).settled mc hw c =
      if c = destination rqst then respond mc hw (s.settled mc hw c) rqst
      else s.settled mc hw c := by
  rw [System.send, settled_arrive]
  simp only [System.settled]
  split
  · next hc =>
    subst hc
    rw [Function.update_self, List.foldl_append]
    rfl
  · next hc => rw [Function.update_of_ne hc]

theorem settled_drain (s : System) (c c' : Coord) :
    (s.drain mc hw c).settled mc hw c' = s.settled mc hw c' := by
  by_cases hc : c' = c
  · subst hc
    simp only [System.settled, System.drain, Function.update_self]
    rfl
  · simp only [System.settled, System.drain, Function.update_of_ne hc]

theorem settled_of_idle (h : s.inFlight c = []) : s.settled mc hw c = s.bank c := by
  rw [System.settled, h]
  rfl

theorem inFlight_send_ne (h : s.inFlight c = []) (hc : c ≠ destination rqst) :
    (s.send mc hw rqst).inFlight c = [] := by
  simp only [System.send, System.arrive, Function.update_of_ne hc, h, List.drop_nil]

theorem inFlight_drain_self : (s.drain mc hw c).inFlight c = [] := Function.update_self ..

theorem inFlight_drain (h : s.inFlight c = []) : (s.drain mc hw c').inFlight c = [] := by
  by_cases hc : c = c'
  · subst hc
    exact inFlight_drain_self
  · simp only [System.drain, Function.update_of_ne hc, h]

end Proof

/-- Blocks and sets are powers of two, and the tags of all lines lie below the address of the
wormhole destination. -/
structure TagsFit (mc : Manycore) : Prop where
  block : ∃ b, mc.config.vcacheBlockSize.toNat = 2 ^ b
  sets : ∃ t, mc.config.vcacheSets.toNat = 2 ^ t
  room : mc.config.vcacheBlockSize.toNat *
    (mc.config.vcacheSets.toNat * mc.config.vcacheWays.toNat) ≤ 2 ^ 28

structure LineTag (mc : Manycore) (c : Coord) (set way : ℕ) (tag : Npa) : Prop where
  cache : (⟨tag.x, tag.y⟩ : Coord) = c
  isTag : IsTagEpa tag.epa.toNat
  set : tagLine mc tag.epa.toNat % (shape mc).sets = set
  way : tagLine mc tag.epa.toNat / (shape mc).sets = way
  word : tag.epa.toNat % 4 = 0

section Tags

variable {mc : Manycore}

theorem popcount_of_mask {x : UInt32} {n : ℕ} (h : x.toNat = 2 ^ n) :
    popcount (x - 1) = n ∧ n < 32 := by
  have hn : n < 32 := by
    by_contra hn
    have hle : 2 ^ 32 ≤ 2 ^ n := Nat.pow_le_pow_right (by decide) (by omega)
    have := x.toNat_lt
    omega
  have hpos := Nat.two_pow_pos n
  have hmask : (x - 1).toNat = 2 ^ n - 1 := by
    rw [UInt32.toNat_sub_of_le, h]
    · rfl
    · rw [UInt32.le_iff_toNat_le, h]
      exact hpos
  have hcount : ∀ n < 32, (List.range 32).countP (fun i => decide (i < n)) = n := by decide
  refine ⟨?_, hn⟩
  simp only [popcount, hmask, Nat.testBit_two_pow_sub_one, hcount n hn]

theorem tag_fields {b t set way : ℕ} (hset : set < 2 ^ t) (hway : way * 2 ^ (t + b) < 2 ^ 29)
    (htb : t + b ≤ 29) :
    (2 ^ 29 ||| way * 2 ^ (t + b)) ||| set * 2 ^ b =
      2 ^ 29 + 2 ^ b * (2 ^ t * way + set) := by
  have hlow : set * 2 ^ b < 2 ^ (t + b) := by
    have := field_room b hset
    have := Nat.two_pow_pos b
    omega
  have htop : 2 ^ 29 ||| way * 2 ^ (t + b) = (way + 2 ^ (29 - (t + b))) * 2 ^ (t + b) := by
    have hor := or_fields 1 hway
    rw [Nat.one_mul] at hor
    rw [Nat.or_comm, hor, Nat.add_mul, ← pow_add, Nat.sub_add_cancel htb]
  rw [htop, Nat.or_comm, or_fields _ hlow, Nat.add_mul, ← pow_add, Nat.sub_add_cancel htb, pow_add]
  ring

theorem vcacheWayAddr_ok {b t set way : ℕ} {epa : UInt32}
    (hb : mc.config.vcacheBlockSize.toNat = 2 ^ b) (ht : mc.config.vcacheSets.toNat = 2 ^ t)
    (hset : set < 2 ^ t) (hroom : 2 ^ b * (2 ^ t * (way + 1)) ≤ 2 ^ 29)
    (h : vcacheWayAddr mc (UInt32.ofNat set) (UInt32.ofNat way) = .ok epa) :
    epa.toNat = 2 ^ 29 + 2 ^ b * (2 ^ t * way + set) := by
  obtain ⟨hbits, hb32⟩ := popcount_of_mask hb
  obtain ⟨hsets, ht32⟩ := popcount_of_mask ht
  have hsetShift : (vcacheSetShift mc).toNat = b := by
    rw [vcacheSetShift, hbits]
    exact UInt32.toNat_ofNat_of_lt' (by simp only [UInt32.size]; omega)
  have hwayShift : (vcacheWayShift mc).toNat = t + b := by
    rw [vcacheWayShift, UInt32.toNat_add, hsetShift, hsets,
      UInt32.toNat_ofNat_of_lt' (by simp only [UInt32.size]; omega)]
    omega
  have hpow : 2 ^ b * (2 ^ t * (way + 1)) = way * 2 ^ (t + b) + 2 ^ (t + b) := by
    rw [pow_add]
    ring
  have htb : t + b ≤ 29 := by
    rw [← Nat.pow_le_pow_iff_right (by decide : 1 < 2)]
    omega
  have hway : way * 2 ^ (t + b) < 2 ^ 29 := by
    have := Nat.two_pow_pos (t + b)
    omega
  have hlow : set * 2 ^ b < 2 ^ (t + b) := by
    have := field_room b hset
    have := Nat.two_pow_pos b
    omega
  have hle : 2 ^ (t + b) ≤ 2 ^ 29 := Nat.pow_le_pow_right (by decide) htb
  have hwaylt : way < 2 ^ 32 := by
    have := Nat.le_mul_of_pos_right way (Nat.two_pow_pos (t + b))
    omega
  have hsetlt : set < 2 ^ 32 := by
    have := Nat.le_mul_of_pos_right set (Nat.two_pow_pos b)
    omega
  simp only [vcacheWayAddr, bind_eq_ok, shl_eq_ok, pure, Except.pure, Except.ok.injEq] at h
  obtain ⟨_, ⟨hlt, rfl⟩, _, ⟨hlt', rfl⟩, rfl⟩ := h
  have htag : vcacheEpaTag.toNat = 2 ^ 29 := rfl
  rw [UInt32.toNat_or, UInt32.toNat_or, shiftLeft_toNat hlt, shiftLeft_toNat hlt', hwayShift,
    hsetShift, UInt32.toNat_ofNat_of_lt' hwaylt, UInt32.toNat_ofNat_of_lt' hsetlt,
    Nat.mod_eq_of_lt (by omega), Nat.mod_eq_of_lt (by omega), htag,
    tag_fields hset hway (by omega)]

theorem lineTag_of_wayNpa (h : TagsFit mc) {c : Coord} {cache : UInt32} {set way : ℕ} {tag : Npa}
    (hc : PodGeometry.dram mc.config cache = .ok c) (hset : set < (vcacheNumSets mc).toNat)
    (hway : way < (vcacheNumWays mc).toNat)
    (htag : vcacheWayNpa mc cache (UInt32.ofNat set) (UInt32.ofNat way) = .ok tag) :
    LineTag mc c set way tag := by
  obtain ⟨b, hb⟩ := h.block
  obtain ⟨t, ht⟩ := h.sets
  have hroom := h.room
  rw [hb, ht] at hroom
  rw [vcacheNumSets, ht] at hset
  have hfits : 2 ^ b * (2 ^ t * (way + 1)) ≤ 2 ^ 28 :=
    (Nat.mul_le_mul_left _ (Nat.mul_le_mul_left _ (Nat.succ_le_of_lt hway))).trans hroom
  simp only [vcacheWayNpa, bind_eq_ok, hc, Except.ok.injEq, pure, Except.pure] at htag
  obtain ⟨_, rfl, epa, hepa, rfl⟩ := htag
  have hval := vcacheWayAddr_ok hb ht hset (hfits.trans (by decide)) hepa
  have hline : tagLine mc epa.toNat = 2 ^ t * way + set := by
    have hbase : vcacheEpaTag.toNat = 2 ^ 29 := rfl
    rw [tagLine, hval, hbase, Nat.add_sub_cancel_left, shape, hb,
      Nat.mul_div_cancel_left _ (Nat.two_pow_pos b)]
  have hsets : (shape mc).sets = 2 ^ t := ht
  refine ⟨rfl, ?_, ?_, ?_, ?_⟩
  · have hnext : 2 ^ b * (2 ^ t * way + set) < 2 ^ b * (2 ^ t * (way + 1)) := by
      refine Nat.mul_lt_mul_of_pos_left ?_ (Nat.two_pow_pos b)
      rw [Nat.mul_succ]
      omega
    show 2 ^ 29 ≤ epa.toNat ∧ epa.toNat < 2 ^ 29 + 2 ^ 28
    omega
  · rw [hline, hsets, Nat.mul_add_mod, Nat.mod_eq_of_lt hset]
  · rw [hline, hsets, Nat.mul_add_div (Nat.two_pow_pos t), Nat.div_eq_of_lt hset, Nat.add_zero]
  · have hword : 2 ^ b % 4 = 0 := by
      rw [← hb, Configuration.Config.vcacheBlockSize, UInt32.toNat_mul]
      simp only [UInt32.reduceToNat]
      omega
    show epa.toNat % 4 = 0
    rw [hval, Nat.add_mod, Nat.mul_mod, hword, Nat.zero_mul]
    rfl

end Tags

end CacheBanks
