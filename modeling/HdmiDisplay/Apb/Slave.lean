/-
# The APB slave

The process of `top.vhd` on `master_pclk`.  It registers the bus of the processor: a write to
address `0` becomes a pixel for the frame buffer, a write to any other address a low cycle of the
frame sync, and the answer to the master is the negated fill flag of the frame buffer.  All outputs
are registered, so that they are one cycle behind the bus.
-/
import HdmiDisplay.Lib.ApbProtocol
import HdmiDisplay.Lib.Clocked

namespace HdmiDisplay.Apb

open ApbProtocol Clocked

/-- The signals that the process samples: those of the master, its reset, which is active low, and
the fill flag of the frame buffer. -/
structure Input extends Signals (BitVec 8) (BitVec 32) where
  masterPrst : Bool
  debugFifoFull : Bool
deriving DecidableEq, Repr

/-- The registers of the process. -/
structure State where
  masterPready1 : Bool
  mcuVinData : BitVec 16
  mcuVsN : Bool
  mcuDe : Bool
deriving DecidableEq, Repr

/-- `pwdata(23 downto 19) & pwdata(15 downto 10) & pwdata(7 downto 3)`. -/
def rgb565 (pwdata : BitVec 32) : BitVec 16 :=
  pwdata.extractLsb 23 19 ++ pwdata.extractLsb 15 10 ++ pwdata.extractLsb 7 3

/-- The process at a rising edge of `master_pclk`. -/
def step (s : State) (x : Input) : State :=
  if x.masterPrst = false then ⟨false, 0, true, false⟩
  else if x.psel = true ∧ x.penable = true ∧ x.pwrite = true then
    if x.paddr = 0 then ⟨!x.debugFifoFull, rgb565 x.pwdata, true, true⟩
    else ⟨!x.debugFifoFull, s.mcuVinData, false, false⟩
  else ⟨!x.debugFifoFull, s.mcuVinData, true, false⟩

/-- The process from the release of `master_prst`, which has reset all registers. -/
def released : Machine Input State := ⟨⟨false, 0, true, false⟩, step⟩

/-! ### Kinds of access cycles -/

/-- An access cycle of a write to address `0`. -/
def PixelWrite (x : Signals (BitVec 8) (BitVec 32)) : Prop :=
  x.Access ∧ x.pwrite = true ∧ x.paddr = 0

/-- An access cycle of a write to another address. -/
def FrameWrite (x : Signals (BitVec 8) (BitVec 32)) : Prop :=
  x.Access ∧ x.pwrite = true ∧ x.paddr ≠ 0

instance (x : Signals (BitVec 8) (BitVec 32)) : Decidable (PixelWrite x) :=
  inferInstanceAs (Decidable (_ ∧ _))

instance (x : Signals (BitVec 8) (BitVec 32)) : Decidable (FrameWrite x) :=
  inferInstanceAs (Decidable (_ ∧ _))

lemma kind_pixelWrite : Kind PixelWrite := kind_write (· = 0)

lemma kind_frameWrite : Kind FrameWrite := kind_write (· ≠ 0)

lemma PixelWrite.not_frameWrite {x : Signals (BitVec 8) (BitVec 32)} (h : PixelWrite x) :
    ¬FrameWrite x := by
  rintro ⟨-, -, haddr⟩
  exact haddr h.2.2

section Step

variable (s : State) {x : Input} (hprst : x.masterPrst = true)
include hprst

/-- What a clock without reset does, by the kind of the cycle. -/
lemma step_cases :
    PixelWrite x.toSignals ∧ step s x = ⟨!x.debugFifoFull, rgb565 x.pwdata, true, true⟩ ∨
      FrameWrite x.toSignals ∧ step s x = ⟨!x.debugFifoFull, s.mcuVinData, false, false⟩ ∨
      ¬PixelWrite x.toSignals ∧ ¬FrameWrite x.toSignals ∧
        step s x = ⟨!x.debugFifoFull, s.mcuVinData, true, false⟩ := by
  have hrun : ¬x.masterPrst = false := by simp [hprst]
  rw [step, if_neg hrun]
  by_cases hwrite : x.psel = true ∧ x.penable = true ∧ x.pwrite = true
  · rw [if_pos hwrite]
    obtain ⟨hsel, henable, hpwrite⟩ := hwrite
    by_cases haddr : x.paddr = 0
    · exact Or.inl ⟨⟨⟨hsel, henable⟩, hpwrite, haddr⟩, if_pos haddr⟩
    · exact Or.inr (Or.inl ⟨⟨⟨hsel, henable⟩, hpwrite, haddr⟩, if_neg haddr⟩)
  · rw [if_neg hwrite]
    refine Or.inr (Or.inr ⟨?_, ?_, rfl⟩)
    · rintro ⟨⟨hsel, henable⟩, hpwrite, -⟩
      exact hwrite ⟨hsel, henable, hpwrite⟩
    · rintro ⟨⟨hsel, henable⟩, hpwrite, -⟩
      exact hwrite ⟨hsel, henable, hpwrite⟩

lemma step_masterPready1 : (step s x).masterPready1 = !x.debugFifoFull := by
  rcases step_cases s hprst with ⟨-, h⟩ | ⟨-, h⟩ | ⟨-, -, h⟩ <;> rw [h]

lemma step_mcuDe : (step s x).mcuDe = true ↔ PixelWrite x.toSignals := by
  rcases step_cases s hprst with ⟨hpixel, h⟩ | ⟨hframe, h⟩ | ⟨hpixel, -, h⟩
  · simp [h, hpixel]
  · simpa [h] using fun hpixel : PixelWrite x.toSignals => hpixel.not_frameWrite hframe
  · simp [h, hpixel]

lemma step_mcuVsN : (step s x).mcuVsN = false ↔ FrameWrite x.toSignals := by
  rcases step_cases s hprst with ⟨hpixel, h⟩ | ⟨hframe, h⟩ | ⟨-, hframe, h⟩
  · simp [h, hpixel.not_frameWrite]
  · simp [h, hframe]
  · simp [h, hframe]

lemma step_mcuVinData (hpixel : PixelWrite x.toSignals) :
    (step s x).mcuVinData = rgb565 x.pwdata := by
  rcases step_cases s hprst with ⟨-, h⟩ | ⟨hframe, -⟩ | ⟨hnot, -, -⟩
  · rw [h]
  · exact absurd hframe hpixel.not_frameWrite
  · exact absurd hpixel hnot

end Step

/-! ### Runs with a compliant master -/

/-- A run from the release of the reset with a master that follows the protocol. -/
structure Run where
  x : ℕ → Input
  masterPrst : ∀ n, (x n).masterPrst = true
  compliant : Compliant (fun n => (x n).toSignals) fun n => (released.state x n).masterPready1

namespace Run

variable (r : Run) (n : ℕ)

/-- The signals of the master in cycle `n`. -/
def bus : Signals (BitVec 8) (BitVec 32) := (r.x n).toSignals

/-- The registers of the slave in cycle `n`. -/
def regs : State := released.state r.x n

/-- The answer of the slave in cycle `n`. -/
def ready : Bool := (r.regs n).masterPready1

lemma bus_compliant : Compliant r.bus r.ready := r.compliant

lemma mcuDe_zero : (r.regs 0).mcuDe = false := rfl

lemma mcuDe_succ : (r.regs (n + 1)).mcuDe = true ↔ PixelWrite (r.bus n) :=
  step_mcuDe _ (r.masterPrst n)

lemma mcuVsN_zero : (r.regs 0).mcuVsN = true := rfl

lemma mcuVsN_succ : (r.regs (n + 1)).mcuVsN = false ↔ FrameWrite (r.bus n) :=
  step_mcuVsN _ (r.masterPrst n)

lemma mcuVinData_succ (hpixel : PixelWrite (r.bus n)) :
    (r.regs (n + 1)).mcuVinData = rgb565 (r.bus n).pwdata :=
  step_mcuVinData _ (r.masterPrst n) hpixel

end Run

end HdmiDisplay.Apb
