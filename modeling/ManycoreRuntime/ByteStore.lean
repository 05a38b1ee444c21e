import Mathlib.Algebra.Group.Nat.Defs
import Mathlib.Data.List.Nodup
import Mathlib.Logic.Function.Basic

/-! # Words, bytes and logs of writes

The four little-endian bytes of a 32-bit word, and the memory that a log of writes leaves. -/
namespace ByteStore

def packWord (b : ℕ → UInt8) : UInt32 :=
  UInt32.ofNat ((b 0).toNat + 2 ^ 8 * (b 1).toNat + 2 ^ 16 * (b 2).toNat + 2 ^ 24 * (b 3).toNat)

def byteOf (w : UInt32) (j : ℕ) : UInt8 := UInt8.ofNat (w.toNat / 2 ^ (8 * j))

theorem byteOf_packWord (b : ℕ → UInt8) {j : ℕ} (h : j < 4) : byteOf (packWord b) j = b j := by
  have h0 := (b 0).toNat_lt
  have h1 := (b 1).toNat_lt
  have h2 := (b 2).toNat_lt
  have h3 := (b 3).toNat_lt
  have hw : (packWord b).toNat =
      (b 0).toNat + 2 ^ 8 * (b 1).toNat + 2 ^ 16 * (b 2).toNat + 2 ^ 24 * (b 3).toNat :=
    UInt32.toNat_ofNat_of_lt' (by simp only [UInt32.size]; omega)
  rw [byteOf, hw, ← UInt8.toNat_inj, UInt8.toNat_ofNat']
  match j, h with
  | 0, _ | 1, _ | 2, _ | 3, _ => omega

section Log

variable {κ ν : Type} [DecidableEq κ]

/-- The memory after the writes of a log, the first one first. -/
def applyLog (m : κ → ν) (log : List (κ × ν)) : κ → ν :=
  log.foldl (fun m w => Function.update m w.1 w.2) m

theorem applyLog_append (m : κ → ν) (log log' : List (κ × ν)) :
    applyLog m (log ++ log') = applyLog (applyLog m log) log' :=
  List.foldl_append

theorem applyLog_of_not_mem (m : κ → ν) {log : List (κ × ν)} {a : κ}
    (h : a ∉ log.map Prod.fst) : applyLog m log a = m a := by
  induction log generalizing m with
  | nil => rfl
  | cons w log ih =>
    rw [List.map_cons, List.mem_cons, not_or] at h
    show applyLog (Function.update m w.1 w.2) log a = m a
    rw [ih _ h.2, Function.update_of_ne h.1]

theorem applyLog_of_mem (m : κ → ν) {log : List (κ × ν)} (hnd : (log.map Prod.fst).Nodup)
    {w : κ × ν} (h : w ∈ log) : applyLog m log w.1 = w.2 := by
  induction log generalizing m with
  | nil => cases h
  | cons u log ih =>
    obtain ⟨hu, hnd⟩ := List.nodup_cons.mp hnd
    show applyLog (Function.update m u.1 u.2) log w.1 = w.2
    rcases List.mem_cons.mp h with rfl | h
    · rw [applyLog_of_not_mem _ hu, Function.update_self]
    · exact ih _ hnd h

/-- A location holds what was written to it, if every write to it wrote the same. -/
theorem applyLog_of_agree (m : κ → ν) {log : List (κ × ν)} {a : κ} {v : ν} (hmem : (a, v) ∈ log)
    (h : ∀ w ∈ log, w.1 = a → w.2 = v) : applyLog m log a = v := by
  induction log generalizing m with
  | nil => cases hmem
  | cons u log ih =>
    have hrest : ∀ w ∈ log, w.1 = a → w.2 = v := fun w hw => h w (List.mem_cons_of_mem u hw)
    show applyLog (Function.update m u.1 u.2) log a = v
    by_cases hlog : (a, v) ∈ log
    · exact ih _ hlog hrest
    · obtain rfl := (List.mem_cons.mp hmem).resolve_right hlog
      have hnot : a ∉ log.map Prod.fst := by
        intro hin
        obtain ⟨w, hw, hwa⟩ := List.mem_map.mp hin
        have hwv := hrest w hw hwa
        exact hlog (hwa ▸ hwv ▸ hw)
      rw [applyLog_of_not_mem _ hnot, Function.update_self]

theorem eq_applyLog {m m' : κ → ν} {log : List (κ × ν)} (hnd : (log.map Prod.fst).Nodup)
    (hin : ∀ w ∈ log, m' w.1 = w.2) (hout : ∀ a ∉ log.map Prod.fst, m' a = m a) :
    m' = applyLog m log := by
  funext a
  by_cases ha : a ∈ log.map Prod.fst
  · obtain ⟨w, hw, rfl⟩ := List.mem_map.mp ha
    rw [hin w hw, applyLog_of_mem m hnd hw]
  · rw [hout a ha, applyLog_of_not_mem m ha]

theorem applyLog_congr {m m' : κ → ν} (log : List (κ × ν)) {a : κ} (h : m a = m' a) :
    applyLog m log a = applyLog m' log a := by
  induction log generalizing m m' with
  | nil => exact h
  | cons w log ih =>
    refine ih ?_
    show Function.update m w.1 w.2 a = Function.update m' w.1 w.2 a
    by_cases hw : a = w.1
    · subst hw
      rw [Function.update_self, Function.update_self]
    · rw [Function.update_of_ne hw, Function.update_of_ne hw, h]

end Log

end ByteStore
