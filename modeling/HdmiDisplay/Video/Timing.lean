/-
# The video timing generator

The process and the output assignments of `video_timing_generator.vhd`.  The registers are bit
vectors of the generic widths, `to_unsigned` truncates to the width, and the comparison of an
`unsigned` with a natural number compares values, as in `numeric_std`.
-/
import HdmiDisplay.Lib.Clocked
import HdmiDisplay.Lib.RasterScan
import Mathlib.Data.PNat.Basic

namespace HdmiDisplay.Video

open Clocked

/-- The eight timing generics, all `positive`. -/
@[ext]
structure Mode where
  hActive : ℕ+
  hFrontPorch : ℕ+
  hSync : ℕ+
  hBackPorch : ℕ+
  vActive : ℕ+
  vFrontPorch : ℕ+
  vSync : ℕ+
  vBackPorch : ℕ+
deriving DecidableEq, Repr

/-- The generics of `VideoTimingGenerator`: a mode and the widths of the two counters. -/
structure Generics extends Mode where
  hBits : ℕ+
  vBits : ℕ+
deriving DecidableEq, Repr

/-- The default values of the timing generics. -/
def defaultMode : Mode := ⟨640, 16, 96, 48, 480, 10, 2, 33⟩

/-- The default generics, of the entity as of its component declaration in `top`. -/
def defaultGenerics : Generics := ⟨defaultMode, 10, 10⟩

/-- The clocks of a line. -/
def Mode.hTotal (g : Mode) : ℕ := g.hActive + g.hFrontPorch + g.hSync + g.hBackPorch

/-- The lines of a frame. -/
def Mode.vTotal (g : Mode) : ℕ := g.vActive + g.vFrontPorch + g.vSync + g.vBackPorch

/-- `to_unsigned(arg, size)` for a natural argument. -/
def toUnsigned (arg : ℕ) (size : ℕ+) : BitVec size := BitVec.ofNat size arg

/-- The registers `pos_x_temp` and `pos_y_temp`. -/
structure State (g : Generics) where
  posXTemp : BitVec g.hBits
  posYTemp : BitVec g.vBits
deriving DecidableEq, Repr

/-- The process at a rising edge of `clk`. -/
def step (g : Generics) (s : State g) (reset : Bool) : State g :=
  if reset = true then ⟨0, 0⟩
  else if s.posXTemp
      = toUnsigned (g.hFrontPorch + g.hActive + g.hSync + g.hBackPorch - 1) g.hBits then
    if s.posYTemp
        = toUnsigned (g.vFrontPorch + g.vActive + g.vSync + g.vBackPorch - 1) g.vBits then ⟨0, 0⟩
    else ⟨0, s.posYTemp + 1⟩
  else ⟨s.posXTemp + 1, s.posYTemp⟩

/-- The generator from power-up, where both counters are initialised to zero. -/
def timing (g : Generics) : Machine Bool (State g) := ⟨⟨0, 0⟩, step g⟩

/-! ### The output ports -/

variable {g : Generics}

/-- The output `DE`. -/
def State.de (s : State g) : Bool :=
  decide (s.posXTemp.toNat < g.hActive ∧ s.posYTemp.toNat < g.vActive)

/-- The output `C1_C0(0)`, the horizontal sync, active low. -/
def State.hSyncN (s : State g) : Bool :=
  !decide ((g.hActive + g.hFrontPorch : ℕ) ≤ s.posXTemp.toNat ∧
    s.posXTemp.toNat < g.hActive + g.hFrontPorch + g.hSync)

/-- The output `C1_C0(1)`, the vertical sync, active low. -/
def State.vSyncN (s : State g) : Bool :=
  !decide ((g.vActive + g.vFrontPorch : ℕ) ≤ s.posYTemp.toNat ∧
    s.posYTemp.toNat < g.vActive + g.vFrontPorch + g.vSync)

/-- The pair `C1_C0` with the bits `C1_C0(1)` and `C1_C0(0)`. -/
def syncPair (c1 c0 : Bool) : BitVec 2 := BitVec.ofBool c1 ++ BitVec.ofBool c0

/-- The output `C1_C0`. -/
def State.c1c0 (s : State g) : BitVec 2 := syncPair s.vSyncN s.hSyncN

/-- The output ports, with the positions as numbers. -/
structure Outputs where
  posX : ℕ
  posY : ℕ
  de : Bool
  c1c0 : BitVec 2
deriving DecidableEq, Repr

/-- The output ports in a state. -/
def State.outputs (s : State g) : Outputs := ⟨s.posXTemp.toNat, s.posYTemp.toNat, s.de, s.c1c0⟩

@[simp] lemma syncPair_getLsbD_zero (c1 c0 : Bool) : (syncPair c1 c0).getLsbD 0 = c0 := by
  cases c1 <;> cases c0 <;> rfl

@[simp] lemma syncPair_getLsbD_one (c1 c0 : Bool) : (syncPair c1 c0).getLsbD 1 = c1 := by
  cases c1 <;> cases c0 <;> rfl

lemma c1c0_getLsbD_zero (s : State g) : s.c1c0.getLsbD 0 = s.hSyncN := syncPair_getLsbD_zero _ _

lemma c1c0_getLsbD_one (s : State g) : s.c1c0.getLsbD 1 = s.vSyncN := syncPair_getLsbD_one _ _

end HdmiDisplay.Video
