import ManycoreRuntime.EvaRanges

/-! # Segments of a translation

A translation returns how many bytes follow the address without a break. The words of these bytes
translate one after the other, whichever region of the map the address is in. -/
namespace EvaSegments

open BitField (clog2_two_pow field_room)
open Coordinate (Coord Errno)
open Configuration (Manycore)
open DramTranslation (addrBits fields_bits)
open EvaRanges (advance advance_toNat defaultEvaToNpa_segment defaultEvaToNpa_word)
open EvaToNpa
open Machines (Machine)
open TileTranslation (isDram_iff tileSegment)
open WriteMem (addEpa)

/-- Stripes hold a power of two of bytes, at least a word and at most what a bank of memory
holds. -/
structure StripeFits (mc : Manycore) : Prop where
  stripe : ∃ s ≥ 2, mc.config.vcacheStripeSize.toNat = 2 ^ s
  range : mc.config.vcacheStripeSize.toNat ≤ 2 ^ addrBits mc

/-- The words of a segment of `sz` bytes that begins at `eva` follow each other at `npa`. -/
structure Contiguous (mc : Manycore) (origin src : Coord) (eva : UInt32) (npa : Npa) (sz : ℕ) :
    Prop where
  pos : 1 ≤ sz
  noWrap : ∀ k < sz, 4 ∣ k → eva.toNat + k < 2 ^ 32
  follows : ∀ k < sz, 4 ∣ k → ∃ npa',
    defaultEvaToNpa mc origin src (advance eva k) = .ok (npa', sz - k) ∧ npa'.x = npa.x ∧
      npa'.y = npa.y ∧ npa'.epa.toNat = npa.epa.toNat + k

section Segments

variable {mc : Manycore} {origin src : Coord} {eva : UInt32} {npa : Npa} {sz : ℕ}

theorem add_lt_word {a : UInt32} {s k : ℕ} (hs : s ≤ 32) (hk : a.toNat % 2 ^ s + k < 2 ^ s) :
    a.toNat + k < 2 ^ 32 := by
  have hblock : a.toNat / 2 ^ s < 2 ^ (32 - s) := by
    rw [Nat.div_lt_iff_lt_mul (Nat.two_pow_pos s), ← pow_add, Nat.sub_add_cancel hs]
    exact a.toNat_lt
  have hroom := field_room s hblock
  rw [Nat.sub_add_cancel hs] at hroom
  have hsplit := Nat.div_add_mod' a.toNat (2 ^ s)
  omega

theorem segment_room (ht : defaultEvaToNpa mc origin src eva = .ok (npa, sz)) :
    1 ≤ sz ∧ ∀ k < sz, eva.toNat + k < 2 ^ 32 ∧ npa.epa.toNat + k < 2 ^ 32 := by
  rcases Nat.lt_or_ge eva.toNat (2 ^ 31) with hd | hd
  · obtain ⟨htile, hepa, hsz⟩ := defaultEvaToNpa_segment hd ht
    rw [hepa]
    unfold TileTranslation.IsTileEpa at htile
    unfold tileSegment at hsz
    split at hsz
    · exact ⟨by omega, fun k hk => ⟨by omega, by omega⟩⟩
    · exact ⟨by omega, fun k hk => ⟨by omega, by omega⟩⟩
  · rw [defaultEvaToNpa, if_pos ((isDram_iff _).mpr hd)] at ht
    obtain ⟨hs, hsz, hmod⟩ := DramTranslation.evaToNpaDram_segment (fields_bits mc) ht
    have hlow := Nat.mod_lt eva.toNat
      (Nat.two_pow_pos (defaultGetDramStripeSizeLog mc).toNat)
    refine ⟨by omega, fun k hk => ⟨add_lt_word hs.le ?_, add_lt_word hs.le ?_⟩⟩
    · omega
    · omega

theorem StripeFits.stripe_le (h : StripeFits mc) :
    (defaultGetDramStripeSizeLog mc).toNat ≤ addrBits mc := by
  obtain ⟨s, -, hs⟩ := h.stripe
  have hrange := h.range
  rw [hs] at hrange
  rw [defaultGetDramStripeSizeLog, clog2_two_pow hs]
  exact (Nat.pow_le_pow_iff_right Nat.one_lt_two).mp hrange

end Segments

theorem translation_contiguous (mc : Manycore) (h : StripeFits mc) (origin src : Coord)
    {eva : UInt32} {npa : Npa} {sz : ℕ}
    (ht : defaultEvaToNpa mc origin src eva = .ok (npa, sz)) :
    Contiguous mc origin src eva npa sz := by
  obtain ⟨hpos, hroom⟩ := segment_room ht
  refine ⟨hpos, fun k hk _ => (hroom k hk).1, fun k hk hword => ?_⟩
  obtain ⟨hwrap, hepa⟩ := hroom k hk
  refine ⟨addEpa npa k, ?_, rfl, rfl, ?_⟩
  · exact defaultEvaToNpa_word (fields_bits mc) (fun _ => h.stripe_le) (advance_toNat hwrap)
      (Nat.mod_eq_zero_of_dvd hword) hk ht
  · exact advance_toNat hepa

/-- The last word but one of a stripe, the last word of a tile's data memory as a tile of its
group sees it, and a register. -/
theorem translation_contiguous_x16y8 :
    let mc : Manycore := ⟨({} : Machine).config, true⟩
    Contiguous mc ⟨16, 8⟩ ⟨17, 9⟩ 0x80000078 ⟨16, 7, 0x78⟩ 8 ∧
    Contiguous mc ⟨16, 8⟩ ⟨17, 9⟩ 0x20040ffc ⟨17, 8, 0xffc⟩ 4 ∧
    Contiguous mc ⟨16, 8⟩ ⟨17, 9⟩ 0x20000 ⟨17, 9, 0x20000⟩ 4 := by
  intro mc
  have hfits : StripeFits mc := ⟨⟨7, by decide, by decide⟩, by decide⟩
  refine ⟨?_, ?_, ?_⟩
  · exact translation_contiguous mc hfits _ _ (by decide)
  · exact translation_contiguous mc hfits _ _ (by decide)
  · exact translation_contiguous mc hfits _ _ (by decide)

end EvaSegments
