/-
# The edges of a line

Where in the line the data enable and the horizontal sync of a raster change: the data enable falls
after the last active clock and rises at the start of a line, the sync starts after the front porch.
Each edge determines the position in the line, and every edge comes back frame after frame.
-/
import HdmiDisplay.Video.Raster
import Mathlib.Data.Nat.ModEq

namespace HdmiDisplay.Video

open RasterScan

variable {g : Mode} {n k : ℕ}

lemma hActive_lt_hTotal : (g.hActive : ℕ) < g.hTotal := by
  have hpos := g.hSync.pos
  rw [Mode.hTotal]
  omega

lemma x_succ (n : ℕ) : g.x (n + 1) = if g.x n + 1 = g.hTotal then 0 else g.x n + 1 :=
  col_succ (hTotal_pos g) n

lemma y_succ (n : ℕ) : g.y (n + 1) = if g.x n + 1 = g.hTotal then
    (if g.y n + 1 = g.vTotal then 0 else g.y n + 1) else g.y n :=
  row_succ (hTotal_pos g) (vTotal_pos g) n

lemma x_add (hk : g.x n + k < g.hTotal) : g.x (n + k) = g.x n + k :=
  (scan_add (h := g.vTotal) hk).1

lemma x_mul_add (r : ℕ) {c : ℕ} (hc : c < g.hTotal) : g.x (g.hTotal * r + c) = c :=
  col_mul_add r hc

/-- The data enable falls after the last active clock of a line. -/
lemma x_of_active_fall (h : g.active n) (h' : ¬g.active (n + 1)) : g.x n + 1 = g.hActive := by
  obtain ⟨hx, hy⟩ := h
  have hlt : (g.hActive : ℕ) < g.hTotal := hActive_lt_hTotal
  by_contra hne
  have hend : g.x n + 1 ≠ g.hTotal := by omega
  apply h'
  rw [Mode.active, x_succ, y_succ, if_neg hend, if_neg hend]
  exact ⟨by omega, hy⟩

/-- The data enable rises at the start of a line. -/
lemma x_of_active_rise (h : ¬g.active n) (h' : g.active (n + 1)) : g.x (n + 1) = 0 := by
  rw [Mode.active, x_succ, y_succ] at h'
  rw [x_succ]
  by_cases hend : g.x n + 1 = g.hTotal
  · rw [if_pos hend]
  · rw [if_neg hend, if_neg hend] at h'
    exact absurd ⟨by omega, h'.2⟩ h

/-- The horizontal sync starts after the front porch. -/
lemma x_of_hSync_start (h : ¬g.inHSync n) (h' : g.inHSync (n + 1)) :
    g.x n + 1 = g.hActive + g.hFrontPorch := by
  have hpos := g.hActive.pos
  obtain ⟨hlow, hhigh⟩ := h'
  rw [x_succ] at hlow hhigh
  by_cases hend : g.x n + 1 = g.hTotal
  · rw [if_pos hend] at hlow
    omega
  · rw [if_neg hend] at hlow hhigh
    by_contra hne
    exact h ⟨by omega, by omega⟩

/-- The first line of every frame is active. -/
lemma active_frame (q : ℕ) {c : ℕ} (hc : c < g.hTotal) :
    g.active (g.hTotal * (g.vTotal * q) + c) ↔ c < g.hActive := by
  have hy : g.y (g.hTotal * (g.vTotal * q) + c) = 0 :=
    (row_mul_add_mod _ hc).trans (Nat.mul_mod_right _ _)
  rw [Mode.active, x_mul_add _ hc, hy]
  exact and_iff_left g.vActive.pos

/-- The data enable falls again and again. -/
lemma exists_active_fall (g : Mode) (T : ℕ) : ∃ n ≥ T, g.active n ∧ ¬g.active (n + 1) := by
  have hpos := g.hActive.pos
  have hlt : (g.hActive : ℕ) < g.hTotal := hActive_lt_hTotal
  refine ⟨g.hTotal * (g.vTotal * T) + (g.hActive - 1), ?_, ?_, ?_⟩
  · have hframe : T ≤ g.hTotal * (g.vTotal * T) := by
      rw [← Nat.mul_assoc]
      exact Nat.le_mul_of_pos_left _ (Nat.mul_pos (hTotal_pos g) (vTotal_pos g))
    omega
  · exact (active_frame T (by omega)).mpr (by omega)
  · rw [Nat.add_assoc, active_frame T (by omega)]
    omega

/-- A line starts after the end of another. -/
lemma x_eq_zero_iff : g.x (n + 1) = 0 ↔ g.x n + 1 = g.hTotal := by
  rw [x_succ]
  split <;> simp [*]

/-- The data enable rises again and again. -/
lemma exists_active_rise (g : Mode) (T : ℕ) : ∃ n ≥ T, ¬g.active n ∧ g.active (n + 1) := by
  have hlt : (g.hActive : ℕ) < g.hTotal := hActive_lt_hTotal
  have hframe : T < g.hTotal * (g.vTotal * (T + 1)) := by
    rw [← Nat.mul_assoc]
    exact Nat.le_mul_of_pos_left (T + 1) (Nat.mul_pos (hTotal_pos g) (vTotal_pos g))
  obtain ⟨n, hn⟩ : ∃ n, n + 1 = g.hTotal * (g.vTotal * (T + 1)) + 0 :=
    ⟨_, Nat.succ_pred_eq_of_pos (by omega)⟩
  refine ⟨n, by omega, ?_, ?_⟩
  · rintro ⟨hx, -⟩
    have hend := x_eq_zero_iff.mp (hn ▸ x_mul_add (g := g) _ (hTotal_pos g))
    omega
  · rw [hn, active_frame (T + 1) (hTotal_pos g)]
    exact g.hActive.pos

/-- The horizontal sync starts again and again. -/
lemma exists_hSync_start (g : Mode) (T : ℕ) : ∃ n ≥ T, ¬g.inHSync n ∧ g.inHSync (n + 1) := by
  have hact := g.hActive.pos
  have hsync := g.hSync.pos
  have hback := g.hBackPorch.pos
  have htot : g.hTotal = g.hActive + g.hFrontPorch + g.hSync + g.hBackPorch := rfl
  refine ⟨g.hTotal * T + (g.hActive + g.hFrontPorch - 1), ?_, ?_, ?_⟩
  · have hle := Nat.le_mul_of_pos_left T (hTotal_pos g)
    omega
  · rw [Mode.inHSync, x_mul_add T (by omega)]
    omega
  · rw [Mode.inHSync, Nat.add_assoc, x_mul_add T (by omega)]
    omega

/-- An event that comes back, always at one position of the line, comes back after whole lines. -/
lemma modEq_of_event {E : ℕ → Prop} {c d e J : ℕ} (hc : ∀ n, E n → g.x n + 1 = c)
    (hE : ∀ T, ∃ n ≥ T, E n) (h : ∀ j ≥ J, E (j + e) → E (j + d)) :
    d ≡ e [MOD g.hTotal] := by
  obtain ⟨n, hn, hEn⟩ := hE (J + e)
  obtain ⟨j, rfl⟩ : ∃ j, n = j + e := ⟨n - e, by omega⟩
  have hd := hc _ (h j (by omega) hEn)
  have he := hc _ hEn
  have hmod : j + d ≡ j + e [MOD g.hTotal] := Nat.succ_injective (hd.trans he.symm)
  exact Nat.ModEq.add_left_cancel' j hmod

end HdmiDisplay.Video
