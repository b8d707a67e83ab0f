/-
# The receiver of one lane

The receiver of the DVI link undoes a symbol on its own, without the state of the encoder: the four
control tokens stand for their control pairs, and every other symbol for a byte, after undoing the
inversion announced by bit `9` and the chain announced by bit `8`.  Since no data symbol is a
control token, the receiver gives back what the encoder was fed, at every clock of every run.
-/
import HdmiDisplay.Tmds.Symbol

namespace HdmiDisplay.Tmds

open BitSeq

/-- What a receiver makes of a symbol. -/
inductive Decoded where
  /-- A control pair, in a blanking period. -/
  | control (c1c0 : BitVec 2)
  /-- A byte, in a drawing period. -/
  | data (d : BitVec 8)
deriving DecidableEq, Repr

/-- Whether a symbol was decoded as data. -/
def Decoded.isData : Decoded → Bool
  | .control _ => false
  | .data _ => true

/-- The low byte of a symbol after undoing the inversion: the `v` of the receiver. -/
def uninvert (q : BitVec 10) : BitVec 8 :=
  if q.getLsbD 9 = true then ~~~q.setWidth 8 else q.setWidth 8

/-- The bit `i` of the byte that a data symbol stands for: `D(0) = v(0)`, and
`D(i) = v(i) xor v(i-1)`, or `xnor` when `q(8) = '0'`. -/
def unchain (v : BitVec 8) (q8 : Bool) : ℕ → Bool
  | 0 => v.getLsbD 0
  | i + 1 =>
      if q8 = true then v.getLsbD (i + 1) ^^ v.getLsbD i
      else !(v.getLsbD (i + 1) ^^ v.getLsbD i)

/-- The receiver of one lane. -/
def decode (q : BitVec 10) : Decoded :=
  if q = 0b1101010100#10 then .control 0b00#2
  else if q = 0b0010101011#10 then .control 0b01#2
  else if q = 0b0101010100#10 then .control 0b10#2
  else if q = 0b1010101011#10 then .control 0b11#2
  else .data (toWord (unchain (uninvert q) (q.getLsbD 8)) 8)

@[simp] lemma decode_controlToken (c : BitVec 2) : decode (controlToken c) = .control c := by
  revert c
  decide

/-- A symbol that is no control token is decoded as data. -/
lemma decode_of_ne_controlToken {q : BitVec 10} (h : ∀ c, q ≠ controlToken c) :
    decode q = .data (toWord (unchain (uninvert q) (q.getLsbD 8)) 8) := by
  have h0 : q ≠ 0b1101010100#10 := h 0b00#2
  have h1 : q ≠ 0b0010101011#10 := h 0b01#2
  have h2 : q ≠ 0b0101010100#10 := h 0b10#2
  have h3 : q ≠ 0b1010101011#10 := h 0b11#2
  rw [decode, if_neg h0, if_neg h1, if_neg h2, if_neg h3]

/-- Undoing the inversion recovers the word `q_m`. -/
lemma uninvert_dataSymbol_getLsbD (d : BitVec 8) (q9 : Bool) {i : ℕ} (hi : i < 8) :
    (uninvert (dataSymbol d q9)).getLsbD i = (qmLow d).getLsbD i := by
  have hlow : ((dataSymbol d q9).setWidth 8).getLsbD i = ((qmLow d).getLsbD i ^^ q9) := by
    rw [BitVec.getLsbD_setWidth, dataSymbol_getLsbD_low hi]
    simp [hi]
  rw [uninvert, dataSymbol_getLsbD_nine]
  cases q9 with
  | true =>
    rw [if_pos rfl, not_getLsbD hi, hlow]
    simp
  | false => simpa using hlow

/-- Undoing the chain recovers the byte, bit by bit. -/
lemma unchain_dataSymbol (d : BitVec 8) (q9 : Bool) {i : ℕ} (hi : i < 8) :
    unchain (uninvert (dataSymbol d q9)) (qm8 d) i = d.getLsbD i := by
  cases i with
  | zero => rw [unchain, uninvert_dataSymbol_getLsbD d q9 hi, qmLow_getLsbD_zero]
  | succ i =>
    rw [unchain, uninvert_dataSymbol_getLsbD d q9 hi,
      uninvert_dataSymbol_getLsbD d q9 (by omega), qmLow_getLsbD_succ hi]
    cases qm8 d <;> cases (qmLow d).getLsbD i <;> simp

/-- **Round trip of a data symbol**, for both choices of the inversion. -/
theorem decode_dataSymbol (d : BitVec 8) (q9 : Bool) : decode (dataSymbol d q9) = .data d := by
  have hword : toWord (unchain (uninvert (dataSymbol d q9)) (qm8 d)) 8 = d := by
    refine BitVec.eq_of_getLsbD_eq ?_
    intro i hi
    rw [getLsbD_toWord _ hi, unchain_dataSymbol d q9 hi]
  rw [decode_of_ne_controlToken (dataSymbol_ne_controlToken d q9), dataSymbol_getLsbD_eight, hword]

/-- **Round trip of a clock.**  From any registers, what the encoder sends at a clock without
reset decodes to what it was fed. -/
theorem decode_step (s : State) {x : Input} (h : x.reset = false) :
    decode (step s x).qOut = if x.de = true then .data x.d else .control x.c1c0 := by
  cases hde : x.de with
  | true =>
    obtain ⟨q9, hdraw⟩ := draw_spec s.cnt x.d
    rw [step_data ⟨h, hde⟩, hdraw.qOut_eq, decode_dataSymbol, if_pos rfl]
  | false =>
    rw [step_blank h hde, decode_controlToken, if_neg Bool.false_ne_true]

/-- What a drawing period sends is never a control token. -/
lemma draw_ne_controlToken (cnt : ℤ) (d : BitVec 8) (c : BitVec 2) :
    (draw cnt d).qOut ≠ controlToken c := by
  obtain ⟨q9, hdraw⟩ := draw_spec cnt d
  rw [hdraw.qOut_eq]
  exact dataSymbol_ne_controlToken d q9 c

end HdmiDisplay.Tmds
