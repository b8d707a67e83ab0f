/-
# The running digital sum

The sum of the bits of the stream, a one counting `1` and a zero `-1`, within a data period.  At
the symbol boundaries it is `Cnt`, which stays within eight of zero; inside a symbol it can go
further, but not by more than four, since the sign rule of `draw_spec` also limits how many of the
first eight bits can have the sign of `Cnt`.
-/
import HdmiDisplay.Tmds.RunLength

namespace HdmiDisplay.Tmds

open BitSeq Clocked

/-- A data period of `k` clocks from the clock `t` on: they all send bytes, and the clock before the
first one, if there is one, was a blanking or reset clock. -/
structure DataPeriod (x : ℕ → Input) (t k : ℕ) : Prop where
  start : t = 0 ∨ ∃ m, t = m + 1 ∧ ¬(x m).IsData
  data : ∀ m < k, (x (t + m)).IsData

/-- The sum of the first `j` bits that are sent from the clock `t` on. -/
def runningSum (q₀ : BitVec 10) (x : ℕ → Input) (t j : ℕ) : ℤ :=
  disparity (fun i => laneBits q₀ x (10 * t + i)) j

/-- Within a symbol the sum stays within twelve of zero. -/
lemma Draws.prefix_bounds {cnt : ℤ} {d : BitVec 8} {s : State} {q9 : Bool}
    (h : Draws cnt d s q9) (hcnt : CntBounded cnt) {j : ℕ} (hj : j ≤ 10) :
    -12 ≤ cnt + disparity (dataSymbol d q9).getLsbD j ∧
      cnt + disparity (dataSymbol d q9).getLsbD j ≤ 12 := by
  obtain ⟨-, hge, hle⟩ := hcnt
  have hall := disparity_bounds (dataSymbol d q9).getLsbD j
  rcases lt_trichotomy cnt 0 with hneg | rfl | hpos
  · have hsum := ones_add_zeros (dataSymbol d q9).getLsbD 8
    have hones := (h.of_neg hneg).2
    have hlow : -(4 : ℕ) ≤ disparity (dataSymbol d q9).getLsbD j :=
      le_disparity_of_zeros_le (m := 8) (r := 2) (by omega) (by omega) hj
    omega
  · omega
  · have hhigh : disparity (dataSymbol d q9).getLsbD j ≤ (4 : ℕ) :=
      disparity_le_of_ones_le (m := 8) (r := 2) (h.of_pos hpos).2 (by omega) hj
    omega

variable {q₀ : BitVec 10} {x : ℕ → Input} {t k : ℕ}

/-- The bits of a whole symbol after the sum over `m` symbols. -/
lemma runningSum_add (m : ℕ) {j : ℕ} (hj : j ≤ 10) :
    runningSum q₀ x t (10 * m + j)
      = runningSum q₀ x t (10 * m) + disparity (sentSymbol q₀ x (t + m)).getLsbD j := by
  have hbits : disparity (fun i => laneBits q₀ x (10 * t + (10 * m + i))) j
      = disparity (sentSymbol q₀ x (t + m)).getLsbD j := by
    refine disparity_congr ?_
    intro i hi
    rw [← laneBits_mul_add (t + m) (by omega)]
    congr 1
    omega
  rw [runningSum, disparity_add, hbits, runningSum]

/-- A data period starts with `Cnt = 0`. -/
lemma DataPeriod.cntAt_start (h : DataPeriod x t k) : cntAt q₀ x t = 0 := by
  rcases h.start with rfl | ⟨m, rfl, hnot⟩
  · rfl
  · rcases step_cases ((encoder q₀).state x m) (x m) with ⟨-, hs⟩ | ⟨hdata, -⟩ | ⟨-, -, hs⟩
    · exact congrArg State.cnt hs
    · exact absurd hdata hnot
    · exact congrArg State.cnt hs

/-- At the symbol boundaries of a data period the sum is `Cnt`. -/
lemma DataPeriod.runningSum_eq (h : DataPeriod x t k) {m : ℕ} (hm : m ≤ k) :
    runningSum q₀ x t (10 * m) = cntAt q₀ x (t + m) := by
  induction m with
  | zero => exact h.cntAt_start.symm
  | succ m ih =>
    obtain ⟨s, q9, hdraw, hcnt, hsym⟩ := sent_of_isData q₀ (h.data m hm)
    have hq : sentSymbol q₀ x (t + m) = dataSymbol (x (t + m)).d q9 := hsym.symm.trans hdraw.qOut_eq
    calc runningSum q₀ x t (10 * m + 10)
        = cntAt q₀ x (t + m) + disparity (dataSymbol (x (t + m)).d q9).getLsbD 10 := by
          rw [runningSum_add m le_rfl, ih (Nat.le_of_succ_le hm), hq]
      _ = cntAt q₀ x (t + (m + 1)) := by rw [← hdraw.cnt_eq, hcnt, Nat.add_assoc]

/-- **Running digital sum.**  In every data period of every run, the sum over the serial stream
since the first bit of the period stays between `-12` and `12` at every bit. -/
theorem running_sum_le (q₀ : BitVec 10) (x : ℕ → Input) (t k : ℕ) (h : DataPeriod x t k) (j : ℕ)
    (hj : j ≤ 10 * k) : -12 ≤ runningSum q₀ x t j ∧ runningSum q₀ x t j ≤ 12 := by
  obtain ⟨m, i, hi, rfl⟩ : ∃ m i, i < 10 ∧ j = 10 * m + i :=
    ⟨j / 10, j % 10, Nat.mod_lt j (by omega), (Nat.div_add_mod j 10).symm⟩
  rcases Nat.lt_or_ge m k with hlt | hge
  · obtain ⟨s, q9, hdraw, -, hsym⟩ := sent_of_isData q₀ (h.data m hlt)
    have hq : sentSymbol q₀ x (t + m) = dataSymbol (x (t + m)).d q9 := hsym.symm.trans hdraw.qOut_eq
    rw [runningSum_add m hi.le, h.runningSum_eq hlt.le, hq]
    exact hdraw.prefix_bounds (cntBounded_state q₀ x (t + m)) hi.le
  · -- the end of the period is a symbol boundary
    obtain ⟨rfl, rfl⟩ : i = 0 ∧ m = k := by omega
    obtain ⟨-, hcnt_ge, hcnt_le⟩ := cntBounded_state q₀ x (t + m)
    rw [Nat.add_zero, h.runningSum_eq le_rfl, cntAt]
    omega

/-- The clocks that send these bytes, and zeros after them. -/
def byteClocks (bytes : List (BitVec 8)) (m : ℕ) : Input := ⟨false, bytes.getD m 0#8, 0b00#2, true⟩

lemma dataPeriod_byteClocks (bytes : List (BitVec 8)) (k : ℕ) : DataPeriod (byteClocks bytes) 0 k :=
  ⟨Or.inl rfl, fun _ _ => ⟨rfl, rfl⟩⟩

/-- Both bounds are reached: the bytes `01`, `11` take the sum to `12`, and `00`, `10` to `-12`. -/
theorem running_sum_sharp :
    (runningSum 0#10 (byteClocks [0x01#8, 0x11#8]) 0 14 = 12 ∧
      ∀ j ≤ 20, runningSum 0#10 (byteClocks [0x01#8, 0x11#8]) 0 j ≤ 12) ∧
    runningSum 0#10 (byteClocks [0x00#8, 0x10#8]) 0 14 = -12 ∧
      ∀ j ≤ 20, -12 ≤ runningSum 0#10 (byteClocks [0x00#8, 0x10#8]) 0 j := by
  refine ⟨⟨by decide, ?_⟩, by decide, ?_⟩
  · intro j hj
    exact (running_sum_le 0#10 _ 0 2 (dataPeriod_byteClocks _ 2) j hj).2
  · intro j hj
    exact (running_sum_le 0#10 _ 0 2 (dataPeriod_byteClocks _ 2) j hj).1

end HdmiDisplay.Tmds
