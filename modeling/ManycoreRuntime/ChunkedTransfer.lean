import Mathlib.Data.Nat.Notation
import Mathlib.Order.Basic

/-! # Transfers in chunks

A range of addresses is transferred in chunks. Each turn of the loop translates the current
address, which yields a location and the size of the segment that begins there, and transfers as
much of the range as the segment holds. -/
namespace ChunkedTransfer

section Loop

variable {Addr Loc State Err : Type} (translate : Addr → Except Err (Loc × ℕ))
  (advance : Addr → ℕ → Addr)
  (transfer : Loc → ℕ → ℕ → State → Option (Except Err Unit × State))

/-- The loop from address `a` on, with `sz` units left and `off` units done, for at most `fuel`
turns. A transfer gets its location, the units that are done and its size. -/
def transferFrom : ℕ → Addr → ℕ → ℕ → State → Option (Except Err Unit × State)
  | 0, _, _, sz, s => if sz = 0 then some (.ok (), s) else none
  | fuel + 1, a, off, sz, s =>
    if sz = 0 then some (.ok (), s)
    else
      match translate a with
      | .error e => some (.error e, s)
      | .ok (loc, size) =>
        let xfer := min sz size
        match transfer loc off xfer s with
        | none => none
        | some (.error e, s) => some (.error e, s)
        | some (.ok _, s) => transferFrom fuel (advance a xfer) (off + xfer) (sz - xfer) s

variable {translate advance transfer}

/-- An empty range takes no turn. -/
example (a : Addr) (off : ℕ) (s : State) :
    transferFrom translate advance transfer 0 a off 0 s = some (.ok (), s) := by
  rw [transferFrom, if_pos rfl]

theorem transferFrom_terminates (hpos : ∀ a loc size, translate a = .ok (loc, size) → 0 < size)
    (htransfer : ∀ loc off xfer s, ∃ r, transfer loc off xfer s = some r) {fuel sz : ℕ}
    (hfuel : sz ≤ fuel) (a : Addr) (off : ℕ) (s : State) :
    ∃ r, transferFrom translate advance transfer fuel a off sz s = some r := by
  induction fuel generalizing a off sz s with
  | zero =>
    rw [transferFrom, if_pos (Nat.le_zero.mp hfuel)]
    exact ⟨_, rfl⟩
  | succ fuel ih =>
    rw [transferFrom]
    split
    · exact ⟨_, rfl⟩
    · next hsz =>
      split
      · exact ⟨_, rfl⟩
      · next loc size ht =>
        have hsize := hpos _ _ _ ht
        obtain ⟨r, hr⟩ := htransfer loc off (min sz size) s
        obtain ⟨result, t⟩ := r
        simp only [hr]
        cases result with
        | error e => exact ⟨_, rfl⟩
        | ok u =>
          refine ih ?_ _ _ _
          have : 0 < min sz size := Nat.lt_min.mpr ⟨Nat.pos_of_ne_zero hsz, hsize⟩
          omega

theorem transferFrom_congr {transfer' : Loc → ℕ → ℕ → State → Option (Except Err Unit × State)}
    {Q : ℕ → Prop}
    (heq : ∀ loc off xfer s, Q off → transfer loc off xfer s = transfer' loc off xfer s)
    (hnext : ∀ loc off xfer s t, Q off → transfer loc off xfer s = some (.ok (), t) →
      Q (off + xfer)) {fuel off : ℕ} (hoff : Q off) (a : Addr) (sz : ℕ) (s : State) :
    transferFrom translate advance transfer fuel a off sz s =
      transferFrom translate advance transfer' fuel a off sz s := by
  induction fuel generalizing a off sz s with
  | zero => rfl
  | succ fuel ih =>
    rw [transferFrom, transferFrom]
    split
    · rfl
    · cases translate a with
      | error e => rfl
      | ok chunk =>
        obtain ⟨loc, size⟩ := chunk
        simp only [← heq loc off _ s hoff]
        split
        · rfl
        · rfl
        · next t hx => exact ih (hnext _ _ _ _ _ hoff hx) _ _ _

theorem transferFrom_keeps {start : Addr} {total : ℕ} {P : ℕ → State → Prop}
    (hadd : ∀ i j, advance (advance start i) j = advance start (i + j))
    (hstep : ∀ off loc size s t, off < total → translate (advance start off) = .ok (loc, size) →
      transfer loc off (min (total - off) size) s = some (.ok (), t) → P off s →
      P (off + min (total - off) size) t)
    {fuel off : ℕ} {s t : State} (hoff : off ≤ total) (h : P off s)
    (hrun : transferFrom translate advance transfer fuel (advance start off) off (total - off) s =
      some (.ok (), t)) : P total t := by
  induction fuel generalizing off s with
  | zero =>
    rw [transferFrom] at hrun
    split at hrun
    · next hsz =>
      cases hrun
      have he : off = total := Nat.le_antisymm hoff (Nat.sub_eq_zero_iff_le.mp hsz)
      exact he ▸ h
    · cases hrun
  | succ fuel ih =>
    rw [transferFrom] at hrun
    split at hrun
    · next hsz =>
      cases hrun
      have he : off = total := Nat.le_antisymm hoff (Nat.sub_eq_zero_iff_le.mp hsz)
      exact he ▸ h
    · next hsz =>
      split at hrun
      · cases hrun
      · next loc size ht =>
        simp only at hrun
        split at hrun
        · cases hrun
        · cases hrun
        · next u hx =>
          have hlt : off < total := Nat.lt_of_sub_ne_zero hsz
          refine ih ?_ (hstep off loc size s u hlt ht hx h) ?_
          · have := Nat.min_le_left (total - off) size
            omega
          · rw [hadd] at hrun
            rw [← Nat.sub_sub]
            exact hrun

theorem transferFrom_success {start : Addr} {total fuel : ℕ} {P : ℕ → State → Prop} {s t : State}
    (hrun : transferFrom translate advance transfer fuel start 0 total s = some (.ok (), t))
    (hzero : advance start 0 = start)
    (hadd : ∀ i j, advance (advance start i) j = advance start (i + j))
    (hstep : ∀ off loc size s t, off < total → translate (advance start off) = .ok (loc, size) →
      transfer loc off (min (total - off) size) s = some (.ok (), t) → P off s →
      P (off + min (total - off) size) t)
    (h : P 0 s) : P total t := by
  rw [← hzero] at hrun
  exact transferFrom_keeps hadd hstep (Nat.zero_le total) h hrun

/-- What a run leaves, with or without an error: the whole range after a success, and otherwise
what is left by the chunk that fails. -/
theorem transferFrom_outcome {start : Addr} {total : ℕ} {P : ℕ → State → Prop}
    {Q : State → Prop} (hadd : ∀ i j, advance (advance start i) j = advance start (i + j))
    (hstop : ∀ off s, off < total → P off s → Q s)
    (hstep : ∀ off loc size s r t, off < total →
      translate (advance start off) = .ok (loc, size) →
      transfer loc off (min (total - off) size) s = some (r, t) → P off s →
      (r = .ok () → P (off + min (total - off) size) t) ∧ Q t)
    {fuel off : ℕ} {s t : State} {r : Except Err Unit} (hoff : off ≤ total) (h : P off s)
    (hrun : transferFrom translate advance transfer fuel (advance start off) off (total - off) s =
      some (r, t)) : r = .ok () ∧ P total t ∨ r ≠ .ok () ∧ Q t := by
  have hend : ∀ off u, off ≤ total → total - off = 0 → P off u → P total u := by
    intro off u hoff hsz hu
    have he : off = total := Nat.le_antisymm hoff (Nat.sub_eq_zero_iff_le.mp hsz)
    exact he ▸ hu
  induction fuel generalizing off s with
  | zero =>
    rw [transferFrom] at hrun
    split at hrun
    · next hsz =>
      cases hrun
      exact Or.inl ⟨rfl, hend _ _ hoff hsz h⟩
    · cases hrun
  | succ fuel ih =>
    rw [transferFrom] at hrun
    split at hrun
    · next hsz =>
      cases hrun
      exact Or.inl ⟨rfl, hend _ _ hoff hsz h⟩
    · next hsz =>
      have hlt : off < total := Nat.lt_of_sub_ne_zero hsz
      split at hrun
      · cases hrun
        exact Or.inr ⟨by simp, hstop off _ hlt h⟩
      · next loc size ht =>
        simp only at hrun
        split at hrun
        · cases hrun
        · next hx =>
          cases hrun
          exact Or.inr ⟨by simp, (hstep off loc size _ _ _ hlt ht hx h).2⟩
        · next u hx =>
          have hle : off + min (total - off) size ≤ total := by
            have := Nat.min_le_left (total - off) size
            omega
          rw [hadd, Nat.sub_sub] at hrun
          exact ih hle ((hstep off loc size _ _ _ hlt ht hx h).1 rfl) hrun

theorem translate_of_success {fuel off sz : ℕ} {a : Addr} {s t : State} (hsz : sz ≠ 0)
    (h : transferFrom translate advance transfer fuel a off sz s = some (.ok (), t)) :
    ∃ loc size, translate a = .ok (loc, size) := by
  cases fuel with
  | zero =>
    rw [transferFrom, if_neg hsz] at h
    cases h
  | succ fuel =>
    rw [transferFrom, if_neg hsz] at h
    split at h
    · cases h
    · next loc size ht => exact ⟨loc, size, ht⟩

/-- A run that ends, with or without an error, adds no more to the state than the size of its
range, if no call adds more than the size of its chunk. -/
theorem transferFrom_adds {Adds : ℕ → State → State → Prop} (hrefl : ∀ s, Adds 0 s s)
    (hmono : ∀ m n s t, m ≤ n → Adds m s t → Adds n s t)
    (htrans : ∀ m n s t u, Adds m s t → Adds n t u → Adds (m + n) s u)
    (hstep : ∀ loc off xfer s r t, transfer loc off xfer s = some (r, t) → Adds xfer s t)
    {fuel off sz : ℕ} {a : Addr} {s t : State} {r : Except Err Unit}
    (hrun : transferFrom translate advance transfer fuel a off sz s = some (r, t)) :
    Adds sz s t := by
  have hnone : ∀ n s, Adds n s s := fun n s => hmono 0 n s s (Nat.zero_le n) (hrefl s)
  induction fuel generalizing a off sz s with
  | zero =>
    rw [transferFrom] at hrun
    split at hrun <;> cases hrun
    exact hnone sz _
  | succ fuel ih =>
    rw [transferFrom] at hrun
    split at hrun
    · cases hrun
      exact hnone sz _
    · split at hrun
      · cases hrun
        exact hnone sz _
      · next loc size ht =>
        have hxfer : min sz size ≤ sz := Nat.min_le_left sz size
        simp only at hrun
        split at hrun
        · cases hrun
        · next hx =>
          cases hrun
          exact hmono _ _ _ _ hxfer (hstep _ _ _ _ _ _ hx)
        · next u hx =>
          have hadds := htrans _ _ _ _ _ (hstep _ _ _ _ _ _ hx) (ih hrun)
          rwa [Nat.add_sub_cancel' hxfer] at hadds

theorem transferFrom_more_fuel {fuel fuel' off sz : ℕ} {a : Addr} {s : State}
    {r : Except Err Unit × State} (hfuel : fuel ≤ fuel')
    (hrun : transferFrom translate advance transfer fuel a off sz s = some r) :
    transferFrom translate advance transfer fuel' a off sz s = some r := by
  induction fuel generalizing fuel' a off sz s with
  | zero =>
    rw [transferFrom] at hrun
    split at hrun
    · next hsz =>
      subst hsz
      cases fuel' <;> exact hrun
    · cases hrun
  | succ fuel ih =>
    obtain ⟨n, rfl⟩ := Nat.exists_eq_add_of_le hfuel
    rw [Nat.add_right_comm]
    rw [transferFrom] at hrun ⊢
    split at hrun
    · next hsz => rw [if_pos hsz, hrun]
    · next hsz =>
      rw [if_neg hsz]
      split at hrun
      · exact hrun
      · simp only at hrun ⊢
        split at hrun
        · cases hrun
        · exact hrun
        · exact ih (Nat.le_add_right fuel n) hrun

theorem transferFrom_fails (hpos : ∀ a loc size, translate a = .ok (loc, size) → 0 < size)
    (hfail : ∀ loc off xfer s e t, transfer loc off xfer s = some (.error e, t) → t = s)
    {fuel off sz : ℕ} {a : Addr} {s t : State} {e : Err}
    (hrun : transferFrom translate advance transfer fuel a off sz s = some (.error e, t)) :
    ∃ n < sz, transferFrom translate advance transfer n a off n s = some (.ok (), t) := by
  induction fuel generalizing a off sz s with
  | zero =>
    rw [transferFrom] at hrun
    split at hrun <;> cases hrun
  | succ fuel ih =>
    rw [transferFrom] at hrun
    split at hrun
    · cases hrun
    · next hsz =>
      split at hrun
      · cases hrun
        exact ⟨0, Nat.pos_of_ne_zero hsz, rfl⟩
      · next loc size ht =>
        simp only at hrun
        split at hrun
        · cases hrun
        · next hx =>
          cases hrun
          obtain rfl := hfail _ _ _ _ _ _ hx
          exact ⟨0, Nat.pos_of_ne_zero hsz, rfl⟩
        · next s' hx =>
          obtain ⟨n, hn, hshort⟩ := ih hrun
          have hsize := hpos _ _ _ ht
          -- what is left after the first call shows that it took its whole segment
          have hmin : min sz size = size := by omega
          rw [hmin] at hn hx hshort
          refine ⟨size + n, by omega, ?_⟩
          obtain ⟨k, hk⟩ : ∃ k, size + n = k + 1 := ⟨size + n - 1, by omega⟩
          rw [hk, transferFrom, if_neg (Nat.succ_ne_zero k), ht, ← hk]
          have hfirst : min (size + n) size = size := Nat.min_eq_right (Nat.le_add_right size n)
          simp only [hfirst, hx, Nat.add_sub_cancel_left]
          exact transferFrom_more_fuel (by omega) hshort

structure Call (Addr Loc State : Type) where
  addr : Addr
  loc : Loc
  off : ℕ
  xfer : ℕ
  state : State

variable (translate advance transfer)

/-- The calls that the loop makes, up to the one that fails. -/
def callsFrom : ℕ → Addr → ℕ → ℕ → State → List (Call Addr Loc State)
  | 0, _, _, _, _ => []
  | fuel + 1, a, off, sz, s =>
    if sz = 0 then []
    else
      match translate a with
      | .error _ => []
      | .ok (loc, size) =>
        let xfer := min sz size
        ⟨a, loc, off, xfer, s⟩ ::
          match transfer loc off xfer s with
          | some (.ok _, s) => callsFrom fuel (advance a xfer) (off + xfer) (sz - xfer) s
          | _ => []

variable {translate advance transfer}

theorem exists_call_of_none (hpos : ∀ a loc size, translate a = .ok (loc, size) → 0 < size)
    {fuel sz : ℕ} (hfuel : sz ≤ fuel) {a : Addr} {off : ℕ} {s : State}
    (h : transferFrom translate advance transfer fuel a off sz s = none) :
    ∃ c ∈ callsFrom translate advance transfer fuel a off sz s,
      transfer c.loc c.off c.xfer c.state = none := by
  induction fuel generalizing a off sz s with
  | zero =>
    rw [transferFrom, if_pos (Nat.le_zero.mp hfuel)] at h
    cases h
  | succ fuel ih =>
    rw [transferFrom] at h
    split at h
    · cases h
    · next hsz =>
      split at h
      · cases h
      · next loc size ht =>
        rw [callsFrom, if_neg hsz]
        simp only [ht] at h ⊢
        split at h
        · next hx => exact ⟨_, List.mem_cons_self, hx⟩
        · cases h
        · next t hx =>
          have hsize := hpos _ _ _ ht
          have hxfer : 0 < min sz size := Nat.lt_min.mpr ⟨Nat.pos_of_ne_zero hsz, hsize⟩
          obtain ⟨c, hc, hnone⟩ := ih (by omega) h
          refine ⟨c, List.mem_cons_of_mem _ ?_, hnone⟩
          simp only [hx]
          exact hc

section Boundary

variable {start : Addr} {total n : ℕ}

/-- A run stops before offset `n`, or it goes on from there after what its chunks keep. -/
theorem transferFrom_boundary {P : ℕ → State → Prop}
    (hadd : ∀ i j, advance (advance start i) j = advance start (i + j)) (hn : n ≤ total)
    (hend : ∀ off loc size, off < n → translate (advance start off) = .ok (loc, size) →
      0 < size ∧ off + size ≤ n)
    (hstep : ∀ off loc size s t, off < n → translate (advance start off) = .ok (loc, size) →
      transfer loc off size s = some (.ok (), t) → P off s → P (off + size) t)
    {fuel off : ℕ} {s : State} (hoff : off ≤ n) (hfuel : total - off ≤ fuel) (h : P off s) :
    ((∀ t, transferFrom translate advance transfer fuel (advance start off) off (total - off) s ≠
        some (.ok (), t)) ∧
      ∀ c ∈ callsFrom translate advance transfer fuel (advance start off) off (total - off) s,
        ∃ i < n, c.addr = advance start i) ∨
    ∃ fuel' t, total - n ≤ fuel' ∧ P n t ∧
      transferFrom translate advance transfer fuel (advance start off) off (total - off) s =
        transferFrom translate advance transfer fuel' (advance start n) n (total - n) t ∧
      ∀ c ∈ callsFrom translate advance transfer fuel (advance start off) off (total - off) s,
        (∃ i < n, c.addr = advance start i) ∨
        c ∈ callsFrom translate advance transfer fuel' (advance start n) n (total - n) t := by
  induction fuel generalizing off s with
  | zero =>
    have he : off = n := by omega
    subst he
    exact Or.inr ⟨0, s, hfuel, h, rfl, fun c hc => Or.inr hc⟩
  | succ fuel ih =>
    by_cases he : off = n
    · subst he
      exact Or.inr ⟨fuel + 1, s, hfuel, h, rfl, fun c hc => Or.inr hc⟩
    have hlt : off < n := Nat.lt_of_le_of_ne hoff he
    have hsz : total - off ≠ 0 := by omega
    rw [transferFrom, callsFrom, if_neg hsz, if_neg hsz]
    cases ht : translate (advance start off) with
    | error e =>
      refine Or.inl ⟨fun t hx => ?_, fun c hc => ?_⟩
      · cases hx
      · cases hc
    | ok chunk =>
      obtain ⟨loc, size⟩ := chunk
      obtain ⟨hpos, hsize⟩ := hend off loc size hlt ht
      have hxfer : min (total - off) size = size := by omega
      simp only [hxfer]
      cases hx : transfer loc off size s with
      | none =>
        refine Or.inl ⟨fun t hx => ?_, fun c hc => ?_⟩
        · cases hx
        · rw [List.mem_singleton.mp hc]
          exact ⟨off, hlt, rfl⟩
      | some r =>
        obtain ⟨result, t⟩ := r
        cases result with
        | error e =>
          refine Or.inl ⟨fun t hx => ?_, fun c hc => ?_⟩
          · cases hx
          · rw [List.mem_singleton.mp hc]
            exact ⟨off, hlt, rfl⟩
        | ok u =>
          simp only [hadd, Nat.sub_sub]
          rcases ih hsize (by omega) (hstep off loc size s t hlt ht hx h) with
            ⟨hfail, hcalls⟩ | ⟨fuel', t', hfuel', hP, hrun, hcalls⟩
          · refine Or.inl ⟨hfail, fun c hc => ?_⟩
            rcases List.mem_cons.mp hc with rfl | hc
            · exact ⟨off, hlt, rfl⟩
            · exact hcalls c hc
          · refine Or.inr ⟨fuel', t', hfuel', hP, hrun, fun c hc => ?_⟩
            rcases List.mem_cons.mp hc with rfl | hc
            · exact Or.inl ⟨off, hlt, rfl⟩
            · exact hcalls c hc

theorem callsFrom_boundary {Q : ℕ → Prop}
    (hadd : ∀ i j, advance (advance start i) j = advance start (i + j)) (hn : n ≤ total)
    (hstep : ∀ off s, off < n → Q off → ∃ loc size t,
      translate (advance start off) = .ok (loc, size) ∧ 0 < size ∧ off + size ≤ n ∧
      transfer loc off size s = some (.ok (), t) ∧ Q (off + size))
    {fuel off : ℕ} {s : State} (hoff : off ≤ n) (hfuel : total - off ≤ fuel) (h : Q off) :
    ∃ fuel' t, total - n ≤ fuel' ∧
      ∀ c ∈ callsFrom translate advance transfer fuel' (advance start n) n (total - n) t,
        c ∈ callsFrom translate advance transfer fuel (advance start off) off (total - off) s := by
  induction fuel generalizing off s with
  | zero =>
    have he : off = n := by omega
    subst he
    exact ⟨0, s, hfuel, fun c hc => hc⟩
  | succ fuel ih =>
    by_cases he : off = n
    · subst he
      exact ⟨fuel + 1, s, hfuel, fun c hc => hc⟩
    have hlt : off < n := Nat.lt_of_le_of_ne hoff he
    obtain ⟨loc, size, t, ht, hpos, hsize, hx, hQ⟩ := hstep off s hlt h
    obtain ⟨fuel', t', hfuel', hcalls⟩ := ih (s := t) hsize (by omega) hQ
    refine ⟨fuel', t', hfuel', fun c hc => ?_⟩
    have hsz : total - off ≠ 0 := by omega
    have hxfer : min (total - off) size = size := by omega
    rw [callsFrom, if_neg hsz]
    simp only [ht, hxfer, hx, hadd, Nat.sub_sub]
    exact List.mem_cons_of_mem _ (hcalls c hc)

end Boundary

end Loop

end ChunkedTransfer
