/-
# The symbols of the encoder

A drawing period sends one of two symbols for a byte: the word `q_m` as it is, with `q_out(9) = 0`,
or with its low byte inverted, with `q_out(9) = 1`.  All six branches of the drawing period choose
between these two, and each updates `Cnt` by the disparity of the symbol it sends; this is
`draw_spec`, and nothing below it looks at the branches again.  Control tokens and data symbols are
told apart by their transitions: a data symbol has at most five, a control token at least seven.
-/
import HdmiDisplay.Tmds.Encoder

namespace HdmiDisplay.Tmds

open BitSeq

/-! ### The bits of a symbol -/

variable {q9 q8 : Bool} {q d : BitVec 8} {i : ℕ}

lemma symbol_getLsbD_low (hi : i < 8) : (symbol q9 q8 q).getLsbD i = q.getLsbD i := by
  simp only [symbol, BitVec.getLsbD_cons]
  rw [if_neg (by omega), if_neg (by omega)]

lemma symbol_getLsbD_eight : (symbol q9 q8 q).getLsbD 8 = q8 := by
  rw [symbol, BitVec.getLsbD_cons, if_neg (by omega), BitVec.getLsbD_cons, if_pos rfl]

lemma symbol_getLsbD_nine : (symbol q9 q8 q).getLsbD 9 = q9 := by
  rw [symbol, BitVec.getLsbD_cons, if_pos rfl]

lemma not_getLsbD (hi : i < 8) : (~~~q).getLsbD i = !q.getLsbD i := by
  simp [hi]

lemma ones_symbol_low : ones (symbol q9 q8 q).getLsbD 8 = ones q.getLsbD 8 :=
  ones_congr fun _ hi => symbol_getLsbD_low hi

lemma ones_not_low (q : BitVec 8) : ones (~~~q).getLsbD 8 = 8 - ones q.getLsbD 8 := by
  have h : ones (~~~q).getLsbD 8 = zeros q.getLsbD 8 := by
    rw [← ones_not]
    exact ones_congr fun _ hi => not_getLsbD hi
  have hsum := ones_add_zeros q.getLsbD 8
  omega

/-- The disparity of a symbol, from the ones of its low byte and its bits `8` and `9`. -/
lemma disparity_symbol (q9 q8 : Bool) (q : BitVec 8) :
    disparity (symbol q9 q8 q).getLsbD 10
      = 2 * ((ones q.getLsbD 8 : ℤ) + q8.toNat + q9.toNat) - 10 := by
  rw [disparity_eq, ones_succ, ones_succ, ones_symbol_low, symbol_getLsbD_eight,
    symbol_getLsbD_nine]
  push_cast
  omega

/-! ### The word `q_m` -/

/-- The bits `7 downto 0` of `q_m`. -/
def qmLow (d : BitVec 8) : BitVec 8 := (qm d).setWidth 8

/-- The bit `8` of `q_m`: whether the XOR branch was taken. -/
def qm8 (d : BitVec 8) : Bool := (qm d).getLsbD 8

lemma qm8_eq (d : BitVec 8) : qm8 d = !decide (xnorBranch d) := by
  rw [qm8, qm]
  split
  · next h => rw [BitVec.getLsbD_cons, if_pos rfl, decide_eq_true h, Bool.not_true]
  · next h => rw [BitVec.getLsbD_cons, if_pos rfl, decide_eq_false h, Bool.not_false]

lemma qmLow_eq (d : BitVec 8) :
    qmLow d = if xnorBranch d then qmBits (fun a b => !(a ^^ b)) d
      else qmBits (fun a b => a ^^ b) d := by
  rw [qmLow, qm]
  split
  · exact BitVec.setWidth_cons
  · exact BitVec.setWidth_cons

/-- The bit `i` of the low byte of `q_m`, in both branches at once. -/
lemma qmLow_getLsbD (hi : i < 8) :
    (qmLow d).getLsbD i = qmChain (fun a b => a ^^ b ^^ !qm8 d) d i := by
  have hcongr : ∀ {op op' : Bool → Bool → Bool}, (∀ a b, op a b = op' a b) →
      qmChain op d i = qmChain op' d i := by
    intro op op' h
    rw [show op = op' from funext fun a => funext fun b => h a b]
  rw [qmLow_eq, qm8_eq]
  split
  · rw [qmBits, getLsbD_toWord _ hi]
    exact hcongr fun a b => by simp [*]
  · rw [qmBits, getLsbD_toWord _ hi]
    exact hcongr fun a b => by simp [*]

lemma qmLow_getLsbD_zero (d : BitVec 8) : (qmLow d).getLsbD 0 = d.getLsbD 0 := by
  rw [qmLow_getLsbD (by omega)]
  rfl

lemma qmLow_getLsbD_succ (hi : i + 1 < 8) :
    (qmLow d).getLsbD (i + 1) = ((qmLow d).getLsbD i ^^ d.getLsbD (i + 1) ^^ !qm8 d) := by
  rw [qmLow_getLsbD hi, qmLow_getLsbD (by omega)]
  rfl

/-- Transition minimisation: `q_m` has at most three transitions among its low eight bits. -/
lemma transitions_qmLow_le (d : BitVec 8) : transitions (qmLow d).getLsbD 7 ≤ 3 := by
  -- a pair of neighbours of `q_m` differs exactly when the next bit of `D` is a one (XOR branch)
  -- or a zero (XNOR branch), so that the transitions count the ones or zeros of `D(7 downto 1)`
  have hpair : ∀ n, n + 1 ≤ 8 → transitions (qmLow d).getLsbD n
      = ones (fun i => d.getLsbD (i + 1) ^^ !qm8 d) n := by
    intro n
    induction n with
    | zero => intro _; rfl
    | succ n ih =>
      intro hn
      rw [transitions_succ, ones_succ, ih (by omega), qmLow_getLsbD_succ (by omega)]
      cases (qmLow d).getLsbD n <;> simp
  rw [hpair 7 le_rfl, qm8_eq]
  have hcount := getNbrOfOnes_eq d
  rw [ones_succ_front] at hcount
  by_cases hx : xnorBranch d
  · have hz := ones_add_zeros (fun i => d.getLsbD (i + 1)) 7
    rw [← ones_not] at hz
    rcases hx with h | ⟨h, h0⟩
    · have := Bool.toNat_le (d.getLsbD 0)
      simp only [xnorBranch, h, true_or, decide_true, Bool.not_true, Bool.not_false, Bool.xor_true]
      omega
    · rw [h0] at hcount
      simp only [xnorBranch, h, h0, and_self, or_true, decide_true, Bool.not_true, Bool.not_false,
        Bool.xor_true]
      simp only [Bool.toNat_false] at hcount
      omega
  · have hn : getNbrOfOnes d ≤ 4 ∧ (getNbrOfOnes d = 4 → d.getLsbD 0 = true) := by
      simp only [xnorBranch, not_or, not_lt, not_and, Bool.not_eq_false] at hx
      exact hx
    simp only [hx, decide_false, Bool.not_false, Bool.not_true, Bool.xor_false]
    rcases Nat.lt_or_ge (getNbrOfOnes d) 4 with h | h
    · omega
    · rw [hn.2 (le_antisymm hn.1 h), Bool.toNat_true] at hcount
      omega

/-! ### What a drawing period sends -/

/-- The symbol for the byte `d`, with `q_out(9) = q9`: the low byte of `q_m` is inverted exactly
when `q9` is set. -/
def dataSymbol (d : BitVec 8) (q9 : Bool) : BitVec 10 :=
  symbol q9 (qm8 d) (if q9 = true then ~~~qmLow d else qmLow d)

lemma dataSymbol_getLsbD_low (hi : i < 8) :
    (dataSymbol d q9).getLsbD i = ((qmLow d).getLsbD i ^^ q9) := by
  rw [dataSymbol, symbol_getLsbD_low hi]
  cases q9 with
  | true => simp [hi]
  | false => simp

lemma dataSymbol_getLsbD_eight : (dataSymbol d q9).getLsbD 8 = qm8 d := symbol_getLsbD_eight

lemma dataSymbol_getLsbD_nine : (dataSymbol d q9).getLsbD 9 = q9 := symbol_getLsbD_nine

/-- The specification of the drawing period: it sends a data symbol of its byte and adds the
disparity of that symbol to `Cnt`.  The choice of `q9` never drives a non-zero `Cnt` further from
zero, and leaves at most half of the low byte with the majority sign. -/
structure Draws (cnt : ℤ) (d : BitVec 8) (s : State) (q9 : Bool) : Prop where
  qOut_eq : s.qOut = dataSymbol d q9
  cnt_eq : s.cnt = cnt + disparity (dataSymbol d q9).getLsbD 10
  neutral : cnt = 0 → q9 = !qm8 d
  of_pos : 0 < cnt → disparity (dataSymbol d q9).getLsbD 10 ≤ 0 ∧
    ones (dataSymbol d q9).getLsbD 8 ≤ 4
  of_neg : cnt < 0 → 0 ≤ disparity (dataSymbol d q9).getLsbD 10 ∧
    4 ≤ ones (dataSymbol d q9).getLsbD 8

/-- The disparity and the ones of a data symbol, by its bits `8` and `9`. -/
lemma disparity_dataSymbol (d : BitVec 8) (q9 : Bool) :
    disparity (dataSymbol d q9).getLsbD 10
        = 2 * ((ones (dataSymbol d q9).getLsbD 8 : ℤ) + (qm8 d).toNat + q9.toNat) - 10 ∧
      ones (dataSymbol d q9).getLsbD 8
        = if q9 = true then 8 - ones (qmLow d).getLsbD 8 else ones (qmLow d).getLsbD 8 := by
  have hlow : ones (dataSymbol d q9).getLsbD 8
      = ones (if q9 = true then ~~~qmLow d else qmLow d).getLsbD 8 := ones_symbol_low
  constructor
  · rw [hlow, dataSymbol, disparity_symbol]
  · rw [hlow]
    cases q9 with
    | true => rw [if_pos rfl, if_pos rfl, ones_not_low]
    | false => simp

/-- All branches of the drawing period send a data symbol and account for its disparity. -/
theorem draw_spec (cnt : ℤ) (d : BitVec 8) : ∃ q9, Draws cnt d (draw cnt d) q9 := by
  have hle : ones (qmLow d).getLsbD 8 ≤ 8 := ones_le _ _
  obtain ⟨hf, hf8⟩ := disparity_dataSymbol d false
  obtain ⟨ht, ht8⟩ := disparity_dataSymbol d true
  simp only [Bool.false_eq_true, if_false, if_true] at hf8 ht8
  rw [hf8, Bool.toNat_false] at hf
  rw [ht8, Bool.toNat_true] at ht
  have hdraw : draw cnt d = drawQm cnt (qm8 d) (qmLow d) (ones (qmLow d).getLsbD 8 : ℕ) := by
    rw [draw, getNbrOfOnes_eq]
    rfl
  have hplain : symbol false (qm8 d) (qmLow d) = dataSymbol d false := rfl
  have hinv : symbol true (qm8 d) (~~~qmLow d) = dataSymbol d true := rfl
  rw [hdraw, drawQm]
  generalize ones (qmLow d).getLsbD 8 = n at *
  -- each branch sends the symbol that its `q_out(9)` announces; what is left is arithmetic
  cases h8 : qm8 d with
  | true =>
    rw [h8] at hf ht hplain hinv
    simp only [Bool.toNat_true, if_true, Bool.true_eq_false, if_false] at hf ht ⊢
    split_ifs with h₁ h₂
    · exact ⟨false, hplain, by dsimp only; omega, fun _ => by rw [h8]; rfl, by omega, by omega⟩
    · exact ⟨true, hinv, by dsimp only; omega, by omega, by omega, by omega⟩
    · exact ⟨false, hplain, by dsimp only; omega, by omega, by omega, by omega⟩
  | false =>
    rw [h8] at hf ht hplain hinv
    simp only [Bool.toNat_false, if_true, Bool.false_eq_true, if_false] at hf ht ⊢
    split_ifs with h₁ h₂
    · exact ⟨true, hinv, by dsimp only; omega, fun _ => by rw [h8]; rfl, by omega, by omega⟩
    · exact ⟨true, hinv, by dsimp only; omega, by omega, by omega, by omega⟩
    · exact ⟨false, hplain, by dsimp only; omega, by omega, by omega, by omega⟩

/-! ### Transitions tell data from control -/

/-- A data symbol has at most five transitions. -/
lemma transitions_dataSymbol_le (d : BitVec 8) (q9 : Bool) :
    transitions (dataSymbol d q9).getLsbD 9 ≤ 5 := by
  have hlow : transitions (dataSymbol d q9).getLsbD 7 = transitions (qmLow d).getLsbD 7 := by
    have hcongr : transitions (dataSymbol d q9).getLsbD 7
        = transitions (fun i => (qmLow d).getLsbD i ^^ q9) 7 :=
      transitions_congr fun i hi => dataSymbol_getLsbD_low (by omega)
    rw [hcongr]
    cases q9 with
    | false => simp
    | true => simpa using transitions_not (qmLow d).getLsbD 7
  have h3 := transitions_qmLow_le d
  rw [transitions_succ, transitions_succ, hlow]
  have h7 := Bool.toNat_le ((dataSymbol d q9).getLsbD 7 ^^ (dataSymbol d q9).getLsbD (7 + 1))
  have h8 := Bool.toNat_le ((dataSymbol d q9).getLsbD 8 ^^ (dataSymbol d q9).getLsbD (8 + 1))
  omega

/-- The shape of a control token: its first two bits are equal, and from there on its bits
alternate up to the bit `8`. -/
lemma controlToken_shape (c : BitVec 2) :
    (controlToken c).getLsbD 0 = (controlToken c).getLsbD 1 ∧
      ∀ i, 1 ≤ i → i < 8 → (controlToken c).getLsbD i ≠ (controlToken c).getLsbD (i + 1) := by
  have h : ∀ c : BitVec 2, (controlToken c).getLsbD 0 = (controlToken c).getLsbD 1 ∧
      ∀ i < 8, 1 ≤ i → (controlToken c).getLsbD i ≠ (controlToken c).getLsbD (i + 1) := by decide
  exact ⟨(h c).1, fun i h1 h8 => (h c).2 i h8 h1⟩

lemma transitions_controlToken_ge (c : BitVec 2) :
    7 ≤ transitions (controlToken c).getLsbD 9 := by
  revert c
  decide

/-- No data symbol is a control token. -/
theorem dataSymbol_ne_controlToken (d : BitVec 8) (q9 : Bool) (c : BitVec 2) :
    dataSymbol d q9 ≠ controlToken c := by
  intro h
  have hle := transitions_dataSymbol_le d q9
  have hge := transitions_controlToken_ge c
  rw [h] at hle
  omega

end HdmiDisplay.Tmds
