/-
# The TMDS encoder

The process of `TMDS_encoder.vhd`, clock by clock.  A `std_logic` is a `Bool`, and a
`std_logic_vector(n-1 downto 0)` is a `BitVec n` whose bit `i` is the element `i` of the vector, so
that a string literal of the source is the binary literal with the same digits.  The signal `Cnt`
is an unbounded integer here; that it never leaves its declared range `-32 to 31` is proved in
`HdmiDisplay.Tmds.Disparity`.
-/
import HdmiDisplay.Lib.Clocked
import HdmiDisplay.Lib.BitSeq
import Mathlib.Tactic.Linarith

namespace HdmiDisplay.Tmds

open Clocked

/-- The function `getNbrOfOnes`: the loop runs over `data'range`, which is `w-1 downto 0`. -/
def getNbrOfOnes {w : ℕ} (data : BitVec w) : ℕ :=
  (List.range w).reverse.foldl
    (fun count i => if data.getLsbD i = true then count + 1 else count) 0

/-- The loop `for i in 1 to 7` that builds `q_m`, with the operator `op` of its branch: the bit
`i` of `q_m` is `q_m(i-1) op D(i)`, and its bit `0` is `D(0)`. -/
def qmChain (op : Bool → Bool → Bool) (d : BitVec 8) : ℕ → Bool
  | 0 => d.getLsbD 0
  | i + 1 => op (qmChain op d i) (d.getLsbD (i + 1))

/-- The bits `7 downto 0` of `q_m`. -/
def qmBits (op : Bool → Bool → Bool) (d : BitVec 8) : BitVec 8 :=
  BitSeq.toWord (qmChain op d) 8

/-- The condition under which the XNOR branch is taken. -/
def xnorBranch (d : BitVec 8) : Prop :=
  4 < getNbrOfOnes d ∨ (getNbrOfOnes d = 4 ∧ d.getLsbD 0 = false)

instance (d : BitVec 8) : Decidable (xnorBranch d) := inferInstanceAs (Decidable (_ ∨ _))

/-- The bits `8 downto 0` of the variable `q_m`; its bit `9` is never written and never read. -/
def qm (d : BitVec 8) : BitVec 9 :=
  if xnorBranch d then
    BitVec.cons false (qmBits (fun a b => !(a ^^ b)) d)
  else
    BitVec.cons true (qmBits (fun a b => a ^^ b) d)

/-- The registers of the encoder. -/
structure State where
  /-- The running disparity, `Cnt`. -/
  cnt : ℤ
  /-- The symbol on the output port, `q_out`. -/
  qOut : BitVec 10
deriving DecidableEq, Repr

/-- The input ports of the encoder, sampled at a rising edge of `clk`. -/
structure Input where
  /-- The synchronous reset, active high. -/
  reset : Bool
  /-- The byte to send in a drawing period. -/
  d : BitVec 8
  /-- The control pair to send in a blanking period. -/
  c1c0 : BitVec 2
  /-- The data enable. -/
  de : Bool
deriving DecidableEq, Repr

/-- The symbol of a blanking period. -/
def controlToken (c1c0 : BitVec 2) : BitVec 10 :=
  if c1c0 = 0b00#2 then 0b1101010100#10
  else if c1c0 = 0b01#2 then 0b0010101011#10
  else if c1c0 = 0b10#2 then 0b0101010100#10
  else if c1c0 = 0b11#2 then 0b1010101011#10
  else 0b1101010100#10

/-- `q_out(9) & q_out(8) & q_out(7 downto 0)`. -/
def symbol (q9 q8 : Bool) (q : BitVec 8) : BitVec 10 := BitVec.cons q9 (BitVec.cons q8 q)

/-- The drawing period: the assignments to `Cnt` and `q_out` for the word `q_m = q8 & q`, with
`n1 = N_1_q_m`. -/
def drawQm (cnt : ℤ) (q8 : Bool) (q : BitVec 8) (n1 : ℤ) : State :=
  if cnt = 0 ∨ n1 = 4 then
    if q8 = true then ⟨cnt + n1 - (8 - n1), symbol (!q8) q8 q⟩
    else ⟨cnt + (8 - n1) - n1, symbol (!q8) q8 (~~~q)⟩
  else if (0 < cnt ∧ 4 < n1) ∨ (cnt < 0 ∧ n1 < 4) then
    if q8 = true then ⟨cnt + 2 + (8 - n1) - n1, symbol true q8 (~~~q)⟩
    else ⟨cnt + (8 - n1) - n1, symbol true q8 (~~~q)⟩
  else
    if q8 = false then ⟨cnt - 2 + n1 - (8 - n1), symbol false q8 q⟩
    else ⟨cnt + n1 - (8 - n1), symbol false q8 q⟩

/-- The drawing period for the byte `d`. -/
def draw (cnt : ℤ) (d : BitVec 8) : State :=
  drawQm cnt ((qm d).getLsbD 8) ((qm d).setWidth 8) (getNbrOfOnes ((qm d).setWidth 8))

/-- The process at a rising edge of `clk`. -/
def step (s : State) (x : Input) : State :=
  if x.reset = true then ⟨0, 0#10⟩
  else if x.de = true then draw s.cnt x.d
  else ⟨0, controlToken x.c1c0⟩

/-- The encoder at power-up: `Cnt` is initialised to `0`, `q_out` is not initialised. -/
def encoder (q₀ : BitVec 10) : Machine Input State := ⟨⟨0, q₀⟩, step⟩

/-! ### The three kinds of clocks -/

/-- A clock that sends a byte. -/
def Input.IsData (x : Input) : Prop := x.reset = false ∧ x.de = true

instance (x : Input) : Decidable x.IsData := inferInstanceAs (Decidable (_ ∧ _))

lemma step_reset {x : Input} (h : x.reset = true) (s : State) : step s x = ⟨0, 0#10⟩ := by
  simp [step, h]

lemma step_data {x : Input} (h : x.IsData) (s : State) : step s x = draw s.cnt x.d := by
  simp [step, h.1, h.2]

lemma step_blank {x : Input} (h : x.reset = false) (hde : x.de = false) (s : State) :
    step s x = ⟨0, controlToken x.c1c0⟩ := by
  simp [step, h, hde]

/-- What a clock can do: it resets, it sends a byte, or it sends a control token. -/
lemma step_cases (s : State) (x : Input) :
    (x.reset = true ∧ step s x = ⟨0, 0#10⟩) ∨
      (x.IsData ∧ step s x = draw s.cnt x.d) ∨
      (x.reset = false ∧ x.de = false ∧ step s x = ⟨0, controlToken x.c1c0⟩) := by
  cases hr : x.reset with
  | true => exact Or.inl ⟨rfl, step_reset hr s⟩
  | false =>
    cases hde : x.de with
    | true => exact Or.inr (Or.inl ⟨⟨hr, hde⟩, step_data ⟨hr, hde⟩ s⟩)
    | false => exact Or.inr (Or.inr ⟨rfl, rfl, step_blank hr hde s⟩)

/-! ### Counting ones -/

/-- `getNbrOfOnes` counts the ones of its argument. -/
lemma getNbrOfOnes_eq {w : ℕ} (data : BitVec w) :
    getNbrOfOnes data = BitSeq.ones data.getLsbD w := by
  have key : ∀ n count, (List.range n).reverse.foldl
      (fun count i => if data.getLsbD i = true then count + 1 else count) count
        = count + BitSeq.ones data.getLsbD n := by
    intro n
    induction n with
    | zero => simp
    | succ n ih =>
      intro count
      rw [List.range_succ, List.reverse_append, List.reverse_singleton, List.singleton_append,
        List.foldl_cons, ih, BitSeq.ones_succ]
      cases data.getLsbD n
      · simp
      · simp only [if_true, Bool.toNat_true]
        omega
  rw [getNbrOfOnes, key w 0, Nat.zero_add]

end HdmiDisplay.Tmds
