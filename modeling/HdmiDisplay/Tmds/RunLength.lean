/-
# Runs of equal bits

The encoder can send the constant symbols `0000000000` and `1111111111`, so that the length of a
run of equal bits is not bounded by looking at one symbol.  A run of 23 bits contains a whole
symbol, which is then constant and changes `Cnt` by ten; before it `Cnt` is too close to zero for
nine more equal bits to have been sent, and after it the sign rule limits the equal bits to come.
-/
import HdmiDisplay.Tmds.Disparity
import HdmiDisplay.Tmds.Serial

namespace HdmiDisplay.Tmds

open BitSeq Clocked

variable {q₀ : BitVec 10} {x : ℕ → Input}

/-- `Cnt` before the clock `m`. -/
def cntAt (q₀ : BitVec 10) (x : ℕ → Input) (m : ℕ) : ℤ := ((encoder q₀).state x m).cnt

/-- A data clock sends a data symbol whose disparity it adds to `Cnt`. -/
lemma sent_of_isData (q₀ : BitVec 10) {m : ℕ} (h : (x m).IsData) :
    ∃ s q9, Draws (cntAt q₀ x m) (x m).d s q9 ∧ s.cnt = cntAt q₀ x (m + 1) ∧
      s.qOut = sentSymbol q₀ x m := by
  obtain ⟨q9, hdraw⟩ := draw_spec (cntAt q₀ x m) (x m).d
  have hs := step_data h ((encoder q₀).state x m)
  exact ⟨_, q9, hdraw, (congrArg State.cnt hs).symm, (congrArg State.qOut hs).symm⟩

/-- Without reset a clock sends a control token, or a data symbol whose disparity it adds to
`Cnt`. -/
lemma sent_of_no_reset (q₀ : BitVec 10) {m : ℕ} (h : (x m).reset = false) :
    (∃ c, sentSymbol q₀ x m = controlToken c) ∨
      ∃ s q9, Draws (cntAt q₀ x m) (x m).d s q9 ∧ s.cnt = cntAt q₀ x (m + 1) ∧
        s.qOut = sentSymbol q₀ x m := by
  cases hde : (x m).de with
  | false =>
    left
    exact ⟨(x m).c1c0, congrArg State.qOut (step_blank h hde ((encoder q₀).state x m))⟩
  | true =>
    right
    exact sent_of_isData q₀ ⟨h, hde⟩

/-- A symbol with two equal bits `1` and `2` is a data symbol. -/
lemma draws_of_equal {m : ℕ} (h : (x m).reset = false)
    (heq : (sentSymbol q₀ x m).getLsbD 1 = (sentSymbol q₀ x m).getLsbD 2) :
    (cntAt q₀ x (m + 1) = cntAt q₀ x m + disparity (sentSymbol q₀ x m).getLsbD 10) ∧
      (0 < cntAt q₀ x m → ones (sentSymbol q₀ x m).getLsbD 8 ≤ 4) ∧
      (cntAt q₀ x m < 0 → 4 ≤ ones (sentSymbol q₀ x m).getLsbD 8) := by
  rcases sent_of_no_reset q₀ h with ⟨c, hc⟩ | ⟨s, q9, hdraw, hcnt, hsym⟩
  · rw [hc] at heq
    exact absurd heq ((controlToken_shape c).2 1 le_rfl (by omega))
  · have hq : sentSymbol q₀ x m = dataSymbol (x m).d q9 := hsym.symm.trans hdraw.qOut_eq
    rw [hq, ← hcnt]
    exact ⟨hdraw.cnt_eq, fun hpos => (hdraw.of_pos hpos).2, fun hneg => (hdraw.of_neg hneg).2⟩

/-! ### Constant stretches of a symbol -/

variable {b : Bool} {q : BitVec 10}

lemma disparity_of_constant (h : ∀ i < 10, q.getLsbD i = b) :
    disparity q.getLsbD 10 = if b = true then 10 else -10 := by
  cases b with
  | true =>
    rw [disparity_eq, ones_eq_of_true h]
    rfl
  | false =>
    rw [disparity_eq, ones_eq_zero_of_false h]
    rfl

/-- Nine equal bits at the end of a symbol leave a disparity of at least eight. -/
lemma disparity_of_constant_tail (h : ∀ i, 1 ≤ i → i < 10 → q.getLsbD i = b) :
    if b = true then 8 ≤ disparity q.getLsbD 10 else disparity q.getLsbD 10 ≤ -8 := by
  have hfront := ones_succ_front q.getLsbD 9
  have hbit := Bool.toNat_le (q.getLsbD 0)
  have htail : ∀ i < 9, q.getLsbD (i + 1) = b := fun i hi => h (i + 1) (by omega) (by omega)
  cases b with
  | true =>
    rw [ones_eq_of_true htail] at hfront
    rw [if_pos rfl, disparity_eq, hfront]
    omega
  | false =>
    rw [ones_eq_zero_of_false htail] at hfront
    rw [if_neg Bool.false_ne_true, disparity_eq, hfront]
    omega

/-- Five equal bits at the front of a symbol are the majority of its low byte. -/
lemma ones_of_constant_front (h : ∀ i < 5, q.getLsbD i = b) :
    if b = true then 5 ≤ ones q.getLsbD 8 else ones q.getLsbD 8 ≤ 3 := by
  cases b with
  | true => exact le_ones_of_true (by omega) h
  | false =>
    have hle := ones_le_of_false (m := 8) (by omega) h
    rw [if_neg Bool.false_ne_true]
    omega

/-! ### The bound -/

/-- **Run length.**  In every run of the encoder that starts with `Cnt = 0` and has reset low, the
serial stream contains at most 22 equal bits in a row. -/
theorem run_length_le (q₀ : BitVec 10) (x : ℕ → Input) (hreset : ∀ m, (x m).reset = false)
    (p n : ℕ) (b : Bool) (hrun : ConstantOn (laneBits q₀ x) p n b) : n ≤ 22 := by
  by_contra hlong
  -- the first whole symbol of the run is sent at the clock `m`, after `o` bits of the run
  obtain ⟨m, o, hpo, ho⟩ : ∃ m o, p + o = 10 * m ∧ o ≤ 9 :=
    ⟨(p + 9) / 10, 10 * ((p + 9) / 10) - p, by omega, by omega⟩
  have hbit : ∀ k i, i < 10 → p ≤ 10 * k + i → 10 * k + i < p + 23 →
      (sentSymbol q₀ x k).getLsbD i = b := by
    intro k i hi hlo hhi
    rw [← laneBits_mul_add k hi, ← hrun (10 * k + i - p) (by omega)]
    congr 1
    omega
  have hmid : ∀ i < 10, (sentSymbol q₀ x m).getLsbD i = b :=
    fun i hi => hbit m i hi (by omega) (by omega)
  obtain ⟨hcnt, -, -⟩ := draws_of_equal (hreset m)
    ((hmid 1 (by omega)).trans (hmid 2 (by omega)).symm)
  rw [disparity_of_constant hmid] at hcnt
  obtain ⟨-, hge, hle⟩ := cntBounded_state q₀ x m
  obtain ⟨-, hge', hle'⟩ := cntBounded_state q₀ x (m + 1)
  rw [← cntAt] at hge hle hge' hle'
  rcases Nat.lt_or_ge o 9 with hlt | hnine
  · -- at least five bits of the next symbol belong to the run
    have hnext : ∀ i < 5, (sentSymbol q₀ x (m + 1)).getLsbD i = b :=
      fun i hi => hbit (m + 1) i (by omega) (by omega) (by omega)
    obtain ⟨-, hpos, hneg⟩ := draws_of_equal (hreset (m + 1))
      ((hnext 1 (by omega)).trans (hnext 2 (by omega)).symm)
    have hones := ones_of_constant_front hnext
    cases b with
    | true =>
      simp only [if_true] at hcnt hones
      have := hpos (by omega)
      omega
    | false =>
      simp only [Bool.false_eq_true, if_false] at hcnt hones
      have := hneg (by omega)
      omega
  · -- nine bits of the symbol before belong to the run
    obtain ⟨k, rfl⟩ : ∃ k, m = k + 1 := ⟨m - 1, by omega⟩
    have htail : ∀ i, 1 ≤ i → i < 10 → (sentSymbol q₀ x k).getLsbD i = b :=
      fun i h1 hi => hbit k i hi (by omega) (by omega)
    obtain ⟨hprev, -, -⟩ := draws_of_equal (hreset k)
      ((htail 1 le_rfl (by omega)).trans (htail 2 (by omega) (by omega)).symm)
    have hdisp := disparity_of_constant_tail htail
    obtain ⟨-, hgek, hlek⟩ := cntBounded_state q₀ x k
    rw [← cntAt] at hgek hlek
    cases b with
    | true =>
      simp only [if_true] at hcnt hdisp
      omega
    | false =>
      simp only [Bool.false_eq_true, if_false] at hcnt hdisp
      omega

/-- The bound is reached: the bytes `00`, `05`, `00`, `11` send 22 ones in a row. -/
theorem run_length_sharp : ∃ (x : ℕ → Input) (p : ℕ), ConstantOn (laneBits 0#10 x) p 22 true ∧
    ∀ n, ConstantOn (laneBits 0#10 x) p n true → n ≤ 22 := by
  refine ⟨fun m => ⟨false, [0x00#8, 0x05#8, 0x00#8, 0x11#8].getD m 0x00#8, 0b00#2, true⟩, 12, ?_,
    fun n h => run_length_le 0#10 _ (fun _ => rfl) 12 n true h⟩
  unfold ConstantOn
  decide

end HdmiDisplay.Tmds
