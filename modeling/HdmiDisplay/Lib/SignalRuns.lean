/-
# Maximal runs of a signal

A signal over the clock cycles is a predicate `p` on `ℕ`.  A maximal run of it is a nonempty
interval of cycles in which `p` holds throughout and beyond which it fails; its end is one past its
last cycle, or `⊤` when the signal holds for ever.  Different runs are separated by a cycle in
which `p` fails, and a signal that is registered once more has the same runs one cycle later.  The
streak at a time is what has passed of the run that is under way.
-/
import Mathlib.Data.ENat.Basic
import Mathlib.Data.Nat.Count
import Mathlib.Data.Set.Function

namespace SignalRuns

/-- The cycles from `a` up to and without `b` are a maximal run of `p`. -/
structure IsRun (p : ℕ → Prop) (a : ℕ) (b : ℕ∞) : Prop where
  nonempty : (a : ℕ∞) < b
  mem : ∀ n, a ≤ n → (n : ℕ∞) < b → p n
  left : ∀ k, a = k + 1 → ¬p k
  right : ∀ n : ℕ, b = n → ¬p n

/-- The interval of a run, one cycle later. -/
def later (r : ℕ × ℕ∞) : ℕ × ℕ∞ := (r.1 + 1, r.2 + 1)

variable {p q : ℕ → Prop} {a a' n : ℕ} {b b' : ℕ∞}

lemma add_one_injective : Function.Injective (· + 1 : ℕ∞ → ℕ∞) :=
  ENat.add_left_injective_of_ne_top ENat.one_ne_top

lemma later_injective : Function.Injective later := by
  rintro ⟨a, b⟩ ⟨a', b'⟩ h
  simp only [later, Prod.mk.injEq, Nat.add_right_cancel_iff] at h
  obtain ⟨ha, hb⟩ := h
  rw [ha, add_one_injective hb]

namespace IsRun

/-- A run starts in a cycle in which the signal holds. -/
lemma start (h : IsRun p a b) : p a := h.mem a le_rfl h.nonempty

/-- A run with an end, by its cycles. -/
lemma of_lt {m : ℕ} (ha : a < m) (hmem : ∀ n, a ≤ n → n < m → p n) (hleft : ∀ k, a = k + 1 → ¬p k)
    (hright : ¬p m) : IsRun p a m := by
  refine ⟨Nat.cast_lt.mpr ha, ?_, hleft, ?_⟩
  · intro n han hn
    exact hmem n han (Nat.cast_lt.mp hn)
  · intro n hn
    rwa [← Nat.cast_injective hn]

/-- A later run starts after a gap. -/
lemma lt_of_lt (h : IsRun p a b) (h' : IsRun p a' b') (hlt : a < a') : b < a' := by
  obtain ⟨k, rfl⟩ := Nat.exists_eq_add_of_lt hlt
  by_contra hle
  have hk : ((a + k : ℕ) : ℕ∞) < b :=
    lt_of_lt_of_le (Nat.cast_lt.mpr (Nat.lt_succ_self _)) (not_lt.mp hle)
  exact h'.left (a + k) rfl (h.mem (a + k) (Nat.le_add_right a k) hk)

/-- The registered signal has the same run one cycle later. -/
lemma later_iff (hq : ∀ n, q (n + 1) ↔ p n) (hq₀ : ¬q 0) :
    IsRun q (a + 1) (b + 1) ↔ IsRun p a b := by
  constructor
  · intro h
    refine ⟨?_, ?_, ?_, ?_⟩
    · exact (ENat.add_lt_add_iff_right ENat.one_ne_top).mp h.nonempty
    · intro n ha hb
      refine (hq n).mp (h.mem (n + 1) (Nat.succ_le_succ ha) ?_)
      exact (ENat.add_lt_add_iff_right ENat.one_ne_top).mpr hb
    · intro k hk
      rw [← hq k]
      exact h.left (k + 1) (by rw [hk])
    · intro n hn
      rw [← hq n]
      exact h.right (n + 1) (by rw [hn]; rfl)
  · intro h
    refine ⟨?_, ?_, ?_, ?_⟩
    · exact (ENat.add_lt_add_iff_right ENat.one_ne_top).mpr h.nonempty
    · intro n ha hb
      obtain ⟨m, rfl⟩ : ∃ m, n = m + 1 := Nat.exists_eq_succ_of_ne_zero (by rintro rfl; simp at ha)
      refine (hq m).mpr (h.mem m (Nat.succ_le_succ_iff.mp ha) ?_)
      exact (ENat.add_lt_add_iff_right ENat.one_ne_top).mp hb
    · intro k hk
      cases k with
      | zero => exact hq₀
      | succ k =>
        rw [hq k]
        exact h.left k (Nat.succ_injective hk)
    · intro n hn
      cases n with
      | zero => exact absurd hn (by simp)
      | succ n =>
        rw [hq n]
        exact h.right n (add_one_injective hn)

end IsRun

/-- A cycle after which the signal fails is the last one of a run. -/
lemma exists_run_to (h : p n) (h' : ¬p (n + 1)) : ∃ a ≤ n, IsRun p a (n + 1 : ℕ) := by
  obtain ⟨a, ha, hmem, hleft⟩ : ∃ a ≤ n, (∀ i, a ≤ i → i ≤ n → p i) ∧ ∀ k, a = k + 1 → ¬p k := by
    -- the first cycle, found by going back from `n` until the signal fails
    clear h'
    induction n with
    | zero =>
      refine ⟨0, le_rfl, ?_, nofun⟩
      intro i _ hi
      rwa [Nat.le_zero.mp hi]
    | succ n ih =>
      by_cases hprev : p n
      · obtain ⟨a, ha, hmem, hleft⟩ := ih hprev
        refine ⟨a, Nat.le_succ_of_le ha, ?_, hleft⟩
        intro i hai hi
        rcases Nat.le_succ_iff.mp hi with hle | rfl
        · exact hmem i hai hle
        · exact h
      · refine ⟨n + 1, le_rfl, ?_, ?_⟩
        · intro i hai hi
          rwa [le_antisymm hi hai]
        · intro k hk
          rwa [← Nat.succ_injective hk]
  exact ⟨a, ha, .of_lt (Nat.lt_succ_of_le ha) (fun i hai hi => hmem i hai (Nat.lt_succ_iff.mp hi))
    hleft h'⟩

/-- **Registering a signal** moves its runs by one cycle, and neither splits nor merges any. -/
theorem bijOn_later (hq : ∀ n, q (n + 1) ↔ p n) (hq₀ : ¬q 0) :
    Set.BijOn later {r | IsRun p r.1 r.2} {r | IsRun q r.1 r.2} := by
  refine ⟨fun r hr => (IsRun.later_iff hq hq₀).mpr hr, later_injective.injOn, ?_⟩
  rintro ⟨a, b⟩ h
  obtain ⟨k, rfl⟩ : ∃ k, a = k + 1 := by
    refine Nat.exists_eq_succ_of_ne_zero ?_
    rintro rfl
    exact hq₀ (IsRun.start h)
  obtain ⟨c, rfl⟩ : ∃ c, b = c + 1 := by
    refine ⟨b - 1, (tsub_add_cancel_of_le ?_).symm⟩
    exact (Order.one_le_iff_pos.mpr (lt_of_le_of_lt bot_le (IsRun.nonempty h)))
  exact ⟨(k, c), (IsRun.later_iff hq hq₀).mp h, rfl⟩

/-! ### Streaks -/

section Streak

variable (p) [DecidablePred p]

/-- The number of cycles before the cycle `n` in which the signal has held without a break. -/
def streak : ℕ → ℕ
  | 0 => 0
  | n + 1 => if p n then streak n + 1 else 0

variable {p}

lemma streak_succ_of_pos (h : p n) : streak p (n + 1) = streak p n + 1 := if_pos h

lemma streak_succ_of_neg (h : ¬p n) : streak p (n + 1) = 0 := if_neg h

/-- A streak has length `k` at least exactly if the signal has held in the last `k` cycles. -/
theorem le_streak_iff {k : ℕ} : k ≤ streak p n ↔ k ≤ n ∧ ∀ i < n, n ≤ i + k → p i := by
  induction n generalizing k with
  | zero => simp [streak]
  | succ n ih =>
    by_cases h : p n
    · rw [streak_succ_of_pos h]
      cases k with
      | zero =>
        simp only [Nat.zero_le, true_and, true_iff]
        intro i hi hni
        omega
      | succ k =>
        rw [Nat.succ_le_succ_iff, Nat.succ_le_succ_iff, ih]
        -- the last `k + 1` cycles are the cycle `n` and the `k` cycles before it
        refine and_congr_right fun _ => ?_
        constructor
        · intro hlast i hi hni
          rcases Nat.lt_succ_iff_lt_or_eq.mp hi with hlt | rfl
          · exact hlast i hlt (by omega)
          · exact h
        · intro hlast i hi hni
          exact hlast i (by omega) (by omega)
    · rw [streak_succ_of_neg h, Nat.le_zero]
      constructor
      · rintro rfl
        exact ⟨Nat.zero_le _, fun i hi hni => by omega⟩
      · rintro ⟨-, hlast⟩
        by_contra hk
        exact h (hlast n (Nat.lt_succ_self n) (by omega))

end Streak

end SignalRuns
