/-
# Recovery of the counters

From registers outside the frame the tests of the process, which compare for equality, are never
met, and the counters come back only by overflow: the column runs up to the end of its register and
wraps, and only then does the line advance, once per line, until it wraps as well.  The number of
clocks that this takes is a rank, which every clock lowers by one; when it is zero, both counters
are in the frame and follow the scan from there.
-/
import HdmiDisplay.Video.Raster

namespace HdmiDisplay.Video

open Clocked RasterScan

/-- Both counters are in the frame. -/
structure InFrame {g : Generics} (s : State g) : Prop where
  x : s.posXTemp.toNat < g.hTotal
  y : s.posYTemp.toNat < g.vTotal

/-- The clocks until the column `x` and the line `y` have both come back into the frame. -/
def Generics.clocksLeft (g : Generics) (x y : ℕ) : ℕ :=
  if x < g.hTotal then
    if y < g.vTotal then 0 else g.hTotal - x + (2 ^ (g.vBits : ℕ) - 1 - y) * g.hTotal
  else 2 ^ (g.hBits : ℕ) - x + if y < g.vTotal then 0 else (2 ^ (g.vBits : ℕ) - y) * g.hTotal

/-- The clocks until both counters have come back into the frame. -/
def State.clocksLeft {g : Generics} (s : State g) : ℕ :=
  g.clocksLeft s.posXTemp.toNat s.posYTemp.toNat

variable {g : Generics} {s : State g}

lemma clocksLeft_le (s : State g) :
    s.clocksLeft ≤ 2 ^ (g.hBits : ℕ) + 2 ^ (g.vBits : ℕ) * g.hTotal := by
  have hrows : ∀ r ≤ 2 ^ (g.vBits : ℕ), r * g.hTotal ≤ 2 ^ (g.vBits : ℕ) * g.hTotal :=
    fun r hr => Nat.mul_le_mul_right _ hr
  rw [State.clocksLeft, Generics.clocksLeft]
  split
  · split
    · exact Nat.zero_le _
    · -- the line that is under way is one of the rows
      have hy := s.posYTemp.isLt
      have hrow := hrows (2 ^ (g.vBits : ℕ) - 1 - s.posYTemp.toNat + 1) (by omega)
      rw [Nat.succ_mul] at hrow
      omega
  · split
    · omega
    · have hrow := hrows (2 ^ (g.vBits : ℕ) - s.posYTemp.toNat) (Nat.sub_le _ _)
      omega

lemma clocksLeft_eq_zero_iff (s : State g) : s.clocksLeft = 0 ↔ InFrame s := by
  have hlt := s.posXTemp.isLt
  rw [State.clocksLeft, Generics.clocksLeft]
  constructor
  · intro hzero
    split at hzero
    · next hx =>
      split at hzero
      · next hy => exact ⟨hx, hy⟩
      · omega
    · omega
  · rintro ⟨hx, hy⟩
    rw [if_pos hx, if_pos hy]

section Step

variable {x y : ℕ}

lemma clocksLeft_inFrame (hx : x < g.hTotal) (hy : y < g.vTotal) : g.clocksLeft x y = 0 := by
  rw [Generics.clocksLeft, if_pos hx, if_pos hy]

/-- In a column of the frame, with the line outside. -/
lemma clocksLeft_column (hx : x < g.hTotal) (hy : g.vTotal ≤ y) :
    g.clocksLeft x y = g.hTotal - x + (2 ^ (g.vBits : ℕ) - 1 - y) * g.hTotal := by
  rw [Generics.clocksLeft, if_pos hx, if_neg (Nat.not_lt.mpr hy)]

/-- In a column outside the frame, which is the same for all lines but for what they add. -/
lemma clocksLeft_outside (hx : g.hTotal ≤ x) (y : ℕ) :
    ∃ r, g.clocksLeft x y = 2 ^ (g.hBits : ℕ) - x + r ∧
      (∀ x' ≥ g.hTotal, g.clocksLeft x' y = 2 ^ (g.hBits : ℕ) - x' + r) ∧
      (y < 2 ^ (g.vBits : ℕ) → g.clocksLeft 0 y = r) := by
  refine ⟨if y < g.vTotal then 0 else (2 ^ (g.vBits : ℕ) - y) * g.hTotal, ?_, ?_, ?_⟩
  · rw [Generics.clocksLeft, if_neg (Nat.not_lt.mpr hx)]
  · intro x' hx'
    rw [Generics.clocksLeft, if_neg (Nat.not_lt.mpr hx')]
  · intro hylt
    rcases Nat.lt_or_ge y g.vTotal with hy | hy
    · rw [clocksLeft_inFrame (hTotal_pos _) hy, if_pos hy]
    · have hrows : 2 ^ (g.vBits : ℕ) - y = 2 ^ (g.vBits : ℕ) - 1 - y + 1 := by omega
      rw [clocksLeft_column (hTotal_pos _) hy, if_neg (Nat.not_lt.mpr hy), hrows, Nat.succ_mul]
      omega

/-- The last column of a line outside the frame: the next line is nearer to the overflow. -/
lemma clocksLeft_nextLine (hy : g.vTotal ≤ y) (hylt : y < 2 ^ (g.vBits : ℕ)) :
    g.clocksLeft 0 ((y + 1) % 2 ^ (g.vBits : ℕ)) = (2 ^ (g.vBits : ℕ) - 1 - y) * g.hTotal := by
  rcases Nat.lt_or_ge (y + 1) (2 ^ (g.vBits : ℕ)) with hlt | hge
  · have hrows : 2 ^ (g.vBits : ℕ) - 1 - y = 2 ^ (g.vBits : ℕ) - 1 - (y + 1) + 1 := by omega
    rw [Nat.mod_eq_of_lt hlt, clocksLeft_column (hTotal_pos _) (Nat.le_succ_of_le hy), hrows,
      Nat.succ_mul, Nat.sub_zero, Nat.add_comm]
  · -- the line overflows to the first one of the frame
    have heq : y + 1 = 2 ^ (g.vBits : ℕ) := by omega
    have hrows : 2 ^ (g.vBits : ℕ) - 1 - y = 0 := by omega
    rw [heq, Nat.mod_self, clocksLeft_inFrame (hTotal_pos _) (vTotal_pos _), hrows, Nat.zero_mul]

end Step

/-- Every clock lowers the rank. -/
lemma clocksLeft_step (hfit : g.Fits) (s : State g) :
    (step g s false).clocksLeft ≤ s.clocksLeft - 1 := by
  have hxlt := s.posXTemp.isLt
  have hylt := s.posYTemp.isLt
  have hhfit := hfit.h
  rw [State.clocksLeft, State.clocksLeft, step_posXTemp hfit, step_posYTemp hfit]
  rcases Nat.lt_or_ge s.posXTemp.toNat g.hTotal with hx | hx
  · by_cases hend : s.posXTemp.toNat + 1 = g.hTotal
    · rw [if_pos hend, if_pos hend]
      by_cases hyend : s.posYTemp.toNat + 1 = g.vTotal
      · rw [if_pos hyend, clocksLeft_inFrame (hTotal_pos _) (vTotal_pos _)]
        exact Nat.zero_le _
      · rw [if_neg hyend]
        rcases Nat.lt_or_ge s.posYTemp.toNat g.vTotal with hy | hy
        · have hnext : s.posYTemp.toNat + 1 < g.vTotal := by omega
          have hvfit := hfit.v
          rw [Nat.mod_eq_of_lt (by omega), clocksLeft_inFrame (hTotal_pos _) hnext]
          exact Nat.zero_le _
        · rw [clocksLeft_nextLine hy hylt, clocksLeft_column hx hy]
          omega
    · have hnext : s.posXTemp.toNat + 1 < g.hTotal := by omega
      rw [if_neg hend, if_neg hend, Nat.mod_eq_of_lt (by omega)]
      rcases Nat.lt_or_ge s.posYTemp.toNat g.vTotal with hy | hy
      · rw [clocksLeft_inFrame hnext hy]
        exact Nat.zero_le _
      · rw [clocksLeft_column hnext hy, clocksLeft_column hx hy]
        omega
  · have hend : s.posXTemp.toNat + 1 ≠ g.hTotal := by omega
    obtain ⟨r, hr, hright, hwrap⟩ := clocksLeft_outside hx s.posYTemp.toNat
    rw [if_neg hend, if_neg hend, hr]
    rcases Nat.lt_or_ge (s.posXTemp.toNat + 1) (2 ^ (g.hBits : ℕ)) with hlt | hge
    · rw [Nat.mod_eq_of_lt hlt, hright _ (Nat.le_succ_of_le hx)]
      omega
    · -- the column overflows to the start of a line
      have heq : s.posXTemp.toNat + 1 = 2 ^ (g.hBits : ℕ) := by omega
      rw [heq, Nat.mod_self, hwrap hylt]
      omega

/-! ### The counters in the frame -/

/-- Counters in the frame stand at a cell of the scan. -/
lemma InFrame.tracks (h : InFrame s) : ∃ p, Tracks p s :=
  ⟨g.hTotal * s.posYTemp.toNat + s.posXTemp.toNat, (col_mul_add _ h.x).symm,
    (row_mul_add h.y h.x).symm⟩

lemma Tracks.inFrame {n : ℕ} (h : Tracks n s) : InFrame s := by
  refine ⟨?_, ?_⟩
  · rw [h.x]
    exact col_lt (hTotal_pos _) n
  · rw [h.y]
    exact row_lt (vTotal_pos _) n

/-- **Self-recovery of the raster.**  From any registers, without reset, after some number of
clocks below the bound both counters are in the frame for ever, and the outputs are those of the
raster from some cell on. -/
theorem raster_recovery (g : Generics) (hfit : g.Fits) (s : State g) :
    ∃ k ≤ 2 ^ (g.hBits : ℕ) + 2 ^ (g.vBits : ℕ) * g.hTotal,
      (∀ n, InFrame (((timing g).startAt s).state (fun _ => false) (k + n))) ∧
      ∃ p, ∀ n, (((timing g).startAt s).state (fun _ => false) (k + n)).outputs
        = g.raster (p + n) := by
  -- the rank goes down by one with every clock and ends in the frame
  have hzero : InFrame (((timing g).startAt s).state (fun _ => false) s.clocksLeft) := by
    have hleft := Machine.countdown (M := (timing g).startAt s) State.clocksLeft
      (x := fun _ => false) (fun _ => clocksLeft_step hfit) s.clocksLeft
    rw [← clocksLeft_eq_zero_iff, ← Nat.le_zero]
    exact hleft.trans (Nat.le_of_eq (Nat.sub_self _))
  obtain ⟨p, hp⟩ := hzero.tracks
  have htracks : ∀ n, Tracks (p + n)
      (((timing g).startAt s).state (fun _ => false) (s.clocksLeft + n)) :=
    fun n => tracks_add hfit rfl hp fun _ _ => rfl
  exact ⟨s.clocksLeft, clocksLeft_le s, fun n => (htracks n).inFrame, p,
    fun n => (htracks n).outputs_eq⟩

/-- With the default generics, from the largest numbers that the registers can hold. -/
theorem raster_recovery_overflow :
    ∃ k ≤ 2 ^ 10 + 2 ^ 10 * 800, ∃ p, ∀ n, (((timing defaultGenerics).startAt
      ⟨1023#10, 1023#10⟩).state (fun _ => false) (k + n)).outputs = defaultMode.raster (p + n) := by
  obtain ⟨k, hk, -, hraster⟩ :=
    raster_recovery defaultGenerics ⟨by decide, by decide⟩ ⟨1023#10, 1023#10⟩
  exact ⟨k, hk, hraster⟩

end HdmiDisplay.Video
