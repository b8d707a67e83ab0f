/-
# The running disparity

`Cnt` is book-keeping: after every clock it is the disparity of what has been sent since the last
blanking or reset clock.  It is also the feedback that keeps this disparity small, and the bound
is inductive only together with the parity of `Cnt` and with the sign rule of `draw_spec`.
-/
import HdmiDisplay.Tmds.Symbol
import Mathlib.Algebra.BigOperators.Group.Finset.Basic
import Mathlib.Algebra.Ring.Parity
import Mathlib.Order.Interval.Finset.Nat

namespace HdmiDisplay.Tmds

open BitSeq Clocked
open scoped BigOperators

/-! ### The invariant of `Cnt` -/

/-- `Cnt` is even and stays within eight of zero. -/
structure CntBounded (cnt : ℤ) : Prop where
  even : Even cnt
  ge : -8 ≤ cnt
  le : cnt ≤ 8

lemma cntBounded_zero : CntBounded 0 := ⟨Even.zero, by omega, by omega⟩

/-- The disparity of a data symbol is even and at most ten in size; at most eight when its bits
`8` and `9` differ. -/
lemma disparity_dataSymbol_bounds (d : BitVec 8) (q9 : Bool) :
    Even (disparity (dataSymbol d q9).getLsbD 10) ∧
      -10 ≤ disparity (dataSymbol d q9).getLsbD 10 ∧
      disparity (dataSymbol d q9).getLsbD 10 ≤ 10 ∧
      (q9 = !qm8 d → -8 ≤ disparity (dataSymbol d q9).getLsbD 10 ∧
        disparity (dataSymbol d q9).getLsbD 10 ≤ 8) := by
  have h := (disparity_dataSymbol d q9).1
  have h8 : ones (dataSymbol d q9).getLsbD 8 ≤ 8 := ones_le _ _
  have hb8 := Bool.toNat_le (qm8 d)
  have hb9 := Bool.toNat_le q9
  refine ⟨?_, by omega, by omega, ?_⟩
  · rw [Int.even_iff]
    omega
  · rintro rfl
    have hsum : (qm8 d).toNat + (!qm8 d).toNat = 1 := by cases qm8 d <;> rfl
    omega

/-- A drawing period keeps the invariant. -/
lemma CntBounded.draw {cnt : ℤ} (h : CntBounded cnt) (d : BitVec 8) :
    CntBounded (draw cnt d).cnt := by
  obtain ⟨q9, hdraw⟩ := draw_spec cnt d
  obtain ⟨heven, hge, hle, hneutral⟩ := disparity_dataSymbol_bounds d q9
  obtain ⟨hcnt, hcnt_ge, hcnt_le⟩ := h
  refine ⟨hdraw.cnt_eq ▸ hcnt.add heven, ?_, ?_⟩
  all_goals
    rw [hdraw.cnt_eq]
    rw [Int.even_iff] at hcnt
    rcases lt_trichotomy cnt 0 with hneg | rfl | hpos
    · have := hdraw.of_neg hneg
      omega
    · have := hneutral (hdraw.neutral rfl)
      omega
    · have := hdraw.of_pos hpos
      omega

/-- Every clock keeps the invariant. -/
lemma cntBounded_step (s : State) (x : Input) (h : CntBounded s.cnt) :
    CntBounded (step s x).cnt := by
  rcases step_cases s x with ⟨-, hs⟩ | ⟨-, hs⟩ | ⟨-, -, hs⟩
  · rw [hs]
    exact cntBounded_zero
  · rw [hs]
    exact h.draw x.d
  · rw [hs]
    exact cntBounded_zero

/-- `Cnt` is bounded in every run. -/
theorem cntBounded_state (q₀ : BitVec 10) (x : ℕ → Input) (n : ℕ) :
    CntBounded ((encoder q₀).state x n).cnt :=
  Machine.invariant (fun s : State => CntBounded s.cnt) cntBounded_zero cntBounded_step x n

/-! ### The disparity sent since the last blanking or reset clock -/

/-- The clocks, among the first `n`, from which on only bytes have been sent. -/
def activeClocks (x : ℕ → Input) (n : ℕ) : Finset ℕ :=
  (Finset.range n).filter fun i => ∀ j ∈ Finset.Ico i n, (x j).IsData

/-- The disparity of the symbols sent since the last blanking or reset clock. -/
def sentDisparity (q₀ : BitVec 10) (x : ℕ → Input) (n : ℕ) : ℤ :=
  ∑ i ∈ activeClocks x n, disparity ((encoder q₀).state x (i + 1)).qOut.getLsbD 10

variable {x : ℕ → Input} {n : ℕ}

lemma activeClocks_succ_of_isData (h : (x n).IsData) :
    activeClocks x (n + 1) = insert n (activeClocks x n) := by
  ext i
  simp only [activeClocks, Finset.mem_filter, Finset.mem_range, Finset.mem_Ico,
    Finset.mem_insert]
  constructor
  · rintro ⟨hi, hdata⟩
    rcases Nat.lt_or_eq_of_le (Nat.lt_succ_iff.mp hi) with hlt | rfl
    · exact Or.inr ⟨hlt, fun j hj => hdata j ⟨hj.1, by omega⟩⟩
    · exact Or.inl rfl
  · rintro (rfl | ⟨hi, hdata⟩)
    · refine ⟨by omega, ?_⟩
      intro j hj
      rwa [show j = i by omega]
    · refine ⟨by omega, ?_⟩
      intro j hj
      rcases Nat.lt_or_eq_of_le (Nat.lt_succ_iff.mp hj.2) with hlt | rfl
      · exact hdata j ⟨hj.1, hlt⟩
      · exact h

lemma activeClocks_succ_of_not_isData (h : ¬(x n).IsData) : activeClocks x (n + 1) = ∅ := by
  refine Finset.filter_eq_empty_iff.mpr fun i hi hdata => h (hdata n ?_)
  exact Finset.mem_Ico.mpr ⟨Nat.lt_succ_iff.mp (Finset.mem_range.mp hi), Nat.lt_succ_self n⟩

lemma not_mem_activeClocks_self : n ∉ activeClocks x n := by
  simp [activeClocks]

/-- **`Cnt` is the disparity sent since the last blanking or reset clock.** -/
theorem cnt_eq_sentDisparity (q₀ : BitVec 10) (x : ℕ → Input) (n : ℕ) :
    ((encoder q₀).state x n).cnt = sentDisparity q₀ x n := by
  induction n with
  | zero => rfl
  | succ n ih =>
    rcases step_cases ((encoder q₀).state x n) (x n) with ⟨hr, hs⟩ | ⟨hdata, hs⟩ | ⟨-, hde, hs⟩
    -- in reset `Cnt` and the sum both begin anew
    · have hnot : ¬(x n).IsData := fun h => by simp [h.1] at hr
      rw [sentDisparity, activeClocks_succ_of_not_isData hnot, Finset.sum_empty]
      exact congrArg State.cnt hs
    · obtain ⟨q9, hdraw⟩ := draw_spec ((encoder q₀).state x n).cnt (x n).d
      have hsym : ((encoder q₀).state x (n + 1)).qOut = dataSymbol (x n).d q9 :=
        (congrArg State.qOut hs).trans hdraw.qOut_eq
      have hcnt : ((encoder q₀).state x (n + 1)).cnt
          = ((encoder q₀).state x n).cnt + disparity (dataSymbol (x n).d q9).getLsbD 10 :=
        (congrArg State.cnt hs).trans hdraw.cnt_eq
      rw [sentDisparity, activeClocks_succ_of_isData hdata,
        Finset.sum_insert not_mem_activeClocks_self, hsym, ← sentDisparity, ← ih, hcnt]
      exact add_comm _ _
    -- and so they do in a blanking clock
    · have hnot : ¬(x n).IsData := fun h => by simp [h.2] at hde
      rw [sentDisparity, activeClocks_succ_of_not_isData hnot, Finset.sum_empty]
      exact congrArg State.cnt hs

/-- **DC balance.**  After every clock of every run `Cnt` is the disparity of the symbols sent
since the last blanking or reset clock, it is even, and it lies between `-8` and `8`; so it never
leaves its declared range, and the disparity sent stays within eight of zero. -/
theorem dc_balance (q₀ : BitVec 10) (x : ℕ → Input) (n : ℕ) :
    ((encoder q₀).state x n).cnt = sentDisparity q₀ x n ∧
      Even ((encoder q₀).state x n).cnt ∧
      (-8 ≤ ((encoder q₀).state x n).cnt ∧ ((encoder q₀).state x n).cnt ≤ 8) ∧
      (-32 ≤ ((encoder q₀).state x n).cnt ∧ ((encoder q₀).state x n).cnt ≤ 31) ∧
      |sentDisparity q₀ x n| ≤ 8 := by
  obtain ⟨heven, hge, hle⟩ := cntBounded_state q₀ x n
  have hsum := cnt_eq_sentDisparity q₀ x n
  refine ⟨hsum, heven, ⟨hge, hle⟩, ⟨by omega, by omega⟩, ?_⟩
  rw [← hsum]
  exact abs_le.mpr ⟨hge, hle⟩

end HdmiDisplay.Tmds
