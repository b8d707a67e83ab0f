/-
# The power-on reset of the memory

The process of `top.vhd` that holds the memory controller and the frame buffer in reset until the
lock of the HyperRAM clock has been stable.  The counter saturates: it is the length of the streak
of lock samples, up to the largest number of the register, and the reset is left one sample later.
-/
import HdmiDisplay.Lib.Clocked
import HdmiDisplay.Lib.SignalRuns

namespace HdmiDisplay.Top

open Clocked SignalRuns

/-- The registers `por_cnt` and `por_resetn`. -/
structure PorState where
  porCnt : BitVec 16
  porResetn : Bool
deriving DecidableEq, Repr

/-- The process at a rising edge of `clk`. -/
def porStep (s : PorState) (pllvrHyperramLock : Bool) : PorState :=
  if pllvrHyperramLock = false then ⟨0#16, false⟩
  else if s.porCnt < 0xFFFF#16 then ⟨s.porCnt + 1#16, false⟩
  -- `por_cnt` keeps its value
  else { s with porResetn := true }

/-- The process from power-up, with the initial values of the signals. -/
def powerOnReset : Machine Bool PorState := ⟨⟨0#16, false⟩, porStep⟩

/-- The port `rst_n` of the memory controller. -/
def PorState.rstN (s : PorState) : Bool := s.porResetn

/-- The port `I_rst_n` of the frame buffer. -/
def PorState.iRstN (s : PorState) : Bool := s.porResetn

/-- What a clock does. -/
lemma porStep_cases (s : PorState) (l : Bool) :
    (l = false ∧ porStep s l = ⟨0#16, false⟩) ∨
    (l = true ∧ s.porCnt.toNat < 65535 ∧ porStep s l = ⟨s.porCnt + 1#16, false⟩) ∨
    (l = true ∧ s.porCnt.toNat = 65535 ∧ porStep s l = { s with porResetn := true }) := by
  have hfull : s.porCnt < 0xFFFF#16 ↔ s.porCnt.toNat < 65535 := BitVec.lt_def
  have hlt := s.porCnt.isLt
  cases l with
  | false => exact Or.inl ⟨rfl, rfl⟩
  | true =>
    by_cases hcnt : s.porCnt.toNat < 65535
    · refine Or.inr (Or.inl ⟨rfl, hcnt, ?_⟩)
      rw [porStep, if_neg (by simp), if_pos (hfull.mpr hcnt)]
    · refine Or.inr (Or.inr ⟨rfl, by omega, ?_⟩)
      rw [porStep, if_neg (by simp), if_neg fun h => hcnt (hfull.mp h)]

/-- The counter saturates. -/
lemma porStep_porCnt (s : PorState) (l : Bool) :
    (porStep s l).porCnt.toNat = if l = true then min (s.porCnt.toNat + 1) 65535 else 0 := by
  rcases porStep_cases s l with ⟨rfl, hs⟩ | ⟨rfl, hcnt, hs⟩ | ⟨rfl, hcnt, hs⟩
  · rw [hs]
    rfl
  · rw [hs, if_pos rfl, BitVec.toNat_add, BitVec.toNat_ofNat]
    omega
  · rw [hs, if_pos rfl]
    dsimp only
    omega

/-- The reset is left if the counter has been full. -/
lemma porStep_porResetn (s : PorState) (l : Bool) :
    (porStep s l).porResetn = true ↔ l = true ∧ s.porCnt.toNat = 65535 := by
  rcases porStep_cases s l with ⟨rfl, hs⟩ | ⟨rfl, hcnt, hs⟩ | ⟨rfl, hcnt, hs⟩
  · simp [hs]
  · simp [hs, hcnt.ne]
  · simp [hs, hcnt]

/-- The registers after a streak of `k` lock samples. -/
structure AfterStreak (k : ℕ) (s : PorState) : Prop where
  porCnt : s.porCnt.toNat = min k 65535
  porResetn : s.porResetn = true ↔ 65536 ≤ k

lemma AfterStreak.step {k : ℕ} {s : PorState} (h : AfterStreak k s) (l : Bool) :
    AfterStreak (if l = true then k + 1 else 0) (porStep s l) := by
  refine ⟨?_, ?_⟩
  · rw [porStep_porCnt, h.porCnt]
    split
    · omega
    · rfl
  · rw [porStep_porResetn, h.porCnt]
    split
    · next hl =>
      rw [and_iff_right hl]
      omega
    · next hl => simp [hl]

/-- The counter and the reset tell the streak of lock samples. -/
lemma afterStreak_state (lock : ℕ → Bool) (n : ℕ) :
    AfterStreak (streak (lock · = true) n) (powerOnReset.state lock n) := by
  refine Machine.invariant_at (fun n s => AfterStreak (streak (lock · = true) n) s) ?_ ?_ n
  · exact ⟨rfl, iff_of_false (by simp [powerOnReset]) (by simp [streak])⟩
  · intro n s h
    exact h.step (lock n)

/-- **Power-on reset.**  For all samples of the lock, after every clock: the reset is left exactly
if there have been 65536 samples and the last 65536 of them have been `1`; after a sample of `0`
the memory controller and the frame buffer are in reset; and the counter saturates instead of
wrapping. -/
theorem power_on_reset (lock : ℕ → Bool) (n : ℕ) :
    ((powerOnReset.state lock n).porResetn = true ↔
      65536 ≤ n ∧ ∀ i < n, n ≤ i + 65536 → lock i = true) ∧
    (lock n = false → (powerOnReset.state lock (n + 1)).rstN = false ∧
      (powerOnReset.state lock (n + 1)).iRstN = false) ∧
    (powerOnReset.state lock (n + 1)).porCnt.toNat =
      if lock n = true then min ((powerOnReset.state lock n).porCnt.toNat + 1) 65535 else 0 := by
  refine ⟨?_, ?_, ?_⟩
  · rw [(afterStreak_state lock n).porResetn, le_streak_iff]
  · intro hlost
    have hreset : (powerOnReset.state lock (n + 1)).porResetn = false := by
      rw [← Bool.not_eq_true, Machine.state_succ]
      intro hleft
      have hlock := ((porStep_porResetn _ _).mp hleft).1
      simp [hlost] at hlock
    exact ⟨hreset, hreset⟩
  · exact porStep_porCnt _ _

end HdmiDisplay.Top
