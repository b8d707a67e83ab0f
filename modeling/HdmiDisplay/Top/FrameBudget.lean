/-
# The frame budget

What a frame amounts to, wherever it is taken to begin: during `hTotal * vTotal` consecutive clocks
without reset the generator goes once through all cells of the frame, so that the active clocks and
the clocks of the two syncs are counted as areas.  In `top` the active clocks are as many as the
pixels that `setScreenColor` writes for a frame.
-/
import HdmiDisplay.Shell.Commands
import HdmiDisplay.Top.VideoMode

namespace HdmiDisplay.Top

open Clocked RasterScan Video Shell

/-- Reset is low between the `k` states from the clock `t` on. -/
def Window (reset : ℕ → Bool) (t k : ℕ) : Prop := ∀ i, i + 1 < k → reset (t + i) = false

/-! ### The areas of a frame -/

section Areas

variable (g : Mode) (n : ℕ)

lemma count_active :
    Nat.count (fun i => g.active (n + i)) (g.hTotal * g.vTotal) = g.hActive * g.vActive := by
  have hb : (g.hActive : ℕ) ≤ g.hTotal := by
    rw [Mode.hTotal]
    omega
  have hd : (g.vActive : ℕ) ≤ g.vTotal := by
    rw [Mode.vTotal]
    omega
  have hrectangle := count_rectangle (hTotal_pos g) (a := 0) (c := 0) hb hd n
  simp only [Nat.zero_le, true_and, Nat.sub_zero] at hrectangle
  exact hrectangle

/-- The horizontal sync is an area over the whole height of the frame. -/
lemma count_inHSync :
    Nat.count (fun i => g.inHSync (n + i)) (g.hTotal * g.vTotal) = g.hSync * g.vTotal := by
  have hb : (g.hActive + g.hFrontPorch + g.hSync : ℕ) ≤ g.hTotal := by
    rw [Mode.hTotal]
    omega
  have hrectangle := count_rectangle (hTotal_pos g) (a := g.hActive + g.hFrontPorch) (c := 0) hb
    (Nat.le_refl g.vTotal) n
  simp only [Nat.zero_le, row_lt (vTotal_pos g), and_true, Nat.sub_zero,
    Nat.add_sub_cancel_left] at hrectangle
  exact hrectangle

/-- The vertical sync is an area over the whole width of the frame. -/
lemma count_inVSync :
    Nat.count (fun i => g.inVSync (n + i)) (g.hTotal * g.vTotal) = g.vSync * g.hTotal := by
  have hd : (g.vActive + g.vFrontPorch + g.vSync : ℕ) ≤ g.vTotal := by
    rw [Mode.vTotal]
    omega
  have hrectangle := count_rectangle (hTotal_pos g) (a := 0) (c := g.vActive + g.vFrontPorch)
    (Nat.le_refl g.hTotal) hd n
  simp only [Nat.zero_le, col_lt (hTotal_pos g), and_true, true_and, Nat.sub_zero,
    Nat.add_sub_cancel_left] at hrectangle
  exact hrectangle.trans (Nat.mul_comm _ _)

end Areas

/-! ### The counts of a window -/

section Counts

variable {g : Generics} {reset : ℕ → Bool} {t : ℕ}

/-- A test of the outputs that tells the cells of an area is met, during a window, as often as the
area has cells. -/
lemma count_window (hfit : g.Fits) (hwin : Window reset t (g.hTotal * g.vTotal))
    (p : State g → Prop) [DecidablePred p] (q : ℕ → Prop) [DecidablePred q]
    (hpq : ∀ n s, Tracks n s → (p s ↔ q n)) {k : ℕ}
    (hk : ∀ n, Nat.count (fun i => q (n + i)) (g.hTotal * g.vTotal) = k) :
    Nat.count (fun i => p ((timing g).state reset (t + i))) (g.hTotal * g.vTotal) = k := by
  obtain ⟨n, hn⟩ := exists_tracks hfit reset t
  rw [← hk n]
  refine count_congr ?_
  intro i hi
  exact hpq _ _ (tracks_add hfit rfl hn fun j hj => hwin j (by omega))

lemma count_de (hfit : g.Fits) (hwin : Window reset t (g.hTotal * g.vTotal)) :
    Nat.count (fun i => ((timing g).state reset (t + i)).de = true) (g.hTotal * g.vTotal)
      = g.hActive * g.vActive := by
  refine count_window hfit hwin (fun s => s.de = true) g.active ?_ (count_active g.toMode)
  intro n s h
  rw [h.de_eq, decide_eq_true_eq]

lemma count_hSync (hfit : g.Fits) (hwin : Window reset t (g.hTotal * g.vTotal)) :
    Nat.count (fun i => ((timing g).state reset (t + i)).c1c0.getLsbD 0 = false)
      (g.hTotal * g.vTotal) = g.hSync * g.vTotal := by
  refine count_window hfit hwin (fun s => s.c1c0.getLsbD 0 = false) g.inHSync ?_
    (count_inHSync g.toMode)
  intro n s h
  rw [c1c0_getLsbD_zero, h.hSyncN_eq, Bool.not_eq_false', decide_eq_true_eq]

lemma count_vSync (hfit : g.Fits) (hwin : Window reset t (g.hTotal * g.vTotal)) :
    Nat.count (fun i => ((timing g).state reset (t + i)).c1c0.getLsbD 1 = false)
      (g.hTotal * g.vTotal) = g.vSync * g.hTotal := by
  refine count_window hfit hwin (fun s => s.c1c0.getLsbD 1 = false) g.inVSync ?_
    (count_inVSync g.toMode)
  intro n s h
  rw [c1c0_getLsbD_one, h.vSyncN_eq, Bool.not_eq_false', decide_eq_true_eq]

end Counts

/-- **Frame budget.**  In every run, during `hTotal * vTotal` consecutive clocks without reset,
wherever they begin, `DE` is `1` on exactly `hActive * vActive` clocks, `C1_C0(0)` is `0` on exactly
`hSync * vTotal` and `C1_C0(1)` on exactly `vSync * hTotal`.  In `top` the data enable is `1` on as
many clocks as `setScreenColor` writes pixels. -/
theorem frame_budget :
    (∀ (g : Generics) (reset : ℕ → Bool) (t : ℕ),
      g.Fits → Window reset t (g.hTotal * g.vTotal) →
        Nat.count (fun i => ((timing g).state reset (t + i)).de = true) (g.hTotal * g.vTotal)
            = g.hActive * g.vActive ∧
          Nat.count (fun i => ((timing g).state reset (t + i)).c1c0.getLsbD 0 = false)
            (g.hTotal * g.vTotal) = g.hSync * g.vTotal ∧
          Nat.count (fun i => ((timing g).state reset (t + i)).c1c0.getLsbD 1 = false)
            (g.hTotal * g.vTotal) = g.vSync * g.hTotal) ∧
    (∀ (top : Mode) (reset : ℕ → Bool) (t : ℕ) (rgbValue : BitVec 32),
      Window reset t (800 * 525) →
        Nat.count (fun i => (videoSignals top reset (t + i)).de = true) (800 * 525) = 640 * 480 ∧
          (setScreenColor rgbValue).countP Effect.isPixelWrite = 640 * 480) := by
  refine ⟨?_, ?_⟩
  · intro g reset t hfit hwin
    exact ⟨count_de hfit hwin, count_hSync hfit hwin, count_vSync hfit hwin⟩
  · intro top reset t rgbValue hwin
    have hde := count_de (g := videoTimingGenerics top) defaultGenerics_fits hwin
    exact ⟨hde, countP_setScreenColor rgbValue⟩

/-- From the middle of a frame that a reset has begun, with the default generics and in `top`. -/
theorem frame_budget_middle :
    Nat.count (fun i => ((timing defaultGenerics).state (fun k => decide (k < 7)) (100000 + i)).de
        = true) (800 * 525) = 640 * 480 ∧
      Nat.count (fun i => (videoSignals mode720x400 (fun k => decide (k < 7)) (100000 + i)).de
        = true) (800 * 525) = 640 * 480 := by
  have hlow : Window (fun k => decide (k < 7)) 100000 (800 * 525) := by
    intro i _
    rw [decide_eq_false_iff_not]
    omega
  exact ⟨(frame_budget.1 defaultGenerics _ 100000 defaultGenerics_fits hlow).1,
    (frame_budget.2 mode720x400 _ 100000 0#32 hlow).1⟩

end HdmiDisplay.Top
