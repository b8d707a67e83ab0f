/-
# Row-major scans

The cell of a rectangle that a row-major scan visits at time `n`: its column is `n mod w`, its row
`(n div w) mod h`.  The successor laws say how a pair of counters follows the scan: the column
wraps at the end of a row, and the row advances, or wraps, exactly there.  Over `w * h` consecutive
times each cell is visited once, wherever they begin.
-/
import Mathlib.Data.Nat.Count
import Mathlib.Order.Basic
import Mathlib.Tactic.Common

namespace RasterScan

/-- The column visited at time `n` when a row has `w` cells. -/
def col (w n : ℕ) : ℕ := n % w

/-- The row visited at time `n` when there are `h` rows of `w` cells. -/
def row (w h n : ℕ) : ℕ := n / w % h

variable {w h n : ℕ}

@[simp] lemma col_zero (w : ℕ) : col w 0 = 0 := Nat.zero_mod w

@[simp] lemma row_zero (w h : ℕ) : row w h 0 = 0 := by rw [row, Nat.zero_div, Nat.zero_mod]

lemma col_lt (hw : 0 < w) (n : ℕ) : col w n < w := Nat.mod_lt n hw

lemma row_lt (hh : 0 < h) (n : ℕ) : row w h n < h := Nat.mod_lt _ hh

/-- Counting modulo `w` by hand. -/
lemma succ_mod (hw : 0 < w) (n : ℕ) : (n + 1) % w = if n % w + 1 = w then 0 else n % w + 1 := by
  have hlt := Nat.mod_lt n hw
  have hsum : (n + 1) % w = (n % w + 1) % w := by rw [Nat.mod_add_mod]
  rw [hsum]
  split
  · next hend => rw [hend, Nat.mod_self]
  · next hend => exact Nat.mod_eq_of_lt (by omega)

/-- The quotient by `w` advances when the remainder wraps. -/
lemma succ_div (hw : 0 < w) (n : ℕ) :
    (n + 1) / w = if n % w + 1 = w then n / w + 1 else n / w := by
  have hlt := Nat.mod_lt n hw
  have hn := Nat.div_add_mod n w
  split
  · next hend =>
    rw [show n + 1 = w * (n / w + 1) by rw [Nat.mul_add]; omega, Nat.mul_div_cancel_left _ hw]
  · next hend =>
    have hsmall : n % w + 1 < w := by omega
    rw [show n + 1 = w * (n / w) + (n % w + 1) by omega, Nat.mul_add_div hw,
      Nat.div_eq_of_lt hsmall, Nat.add_zero]

lemma col_succ (hw : 0 < w) (n : ℕ) :
    col w (n + 1) = if col w n + 1 = w then 0 else col w n + 1 := succ_mod hw n

lemma row_succ (hw : 0 < w) (hh : 0 < h) (n : ℕ) :
    row w h (n + 1) = if col w n + 1 = w then (if row w h n + 1 = h then 0 else row w h n + 1)
      else row w h n := by
  have hdiv : row w h (n + 1) = (if col w n + 1 = w then n / w + 1 else n / w) % h :=
    congrArg (· % h) (succ_div hw n)
  rw [hdiv]
  by_cases hend : col w n + 1 = w
  · rw [if_pos hend, if_pos hend]
    exact succ_mod hh (n / w)
  · rw [if_neg hend, if_neg hend]
    rfl

/-- The scan is in row `r mod h` during the times `w * r, …, w * r + w - 1`. -/
lemma col_mul_add {c : ℕ} (r : ℕ) (hc : c < w) : col w (w * r + c) = c := by
  rw [col, Nat.mul_add_mod, Nat.mod_eq_of_lt hc]

lemma row_mul_add_mod {c : ℕ} (r : ℕ) (hc : c < w) : row w h (w * r + c) = r % h := by
  have hw : 0 < w := by omega
  rw [row, Nat.mul_add_div hw, Nat.div_eq_of_lt hc, Nat.add_zero]

lemma row_mul_add {r c : ℕ} (hr : r < h) (hc : c < w) : row w h (w * r + c) = r := by
  rw [row_mul_add_mod r hc, Nat.mod_eq_of_lt hr]

/-- The scan does not leave a row before its end. -/
lemma scan_add {k : ℕ} (hk : col w n + k < w) :
    col w (n + k) = col w n + k ∧ row w h (n + k) = row w h n := by
  have hn : w * (n / w) + col w n = n := Nat.div_add_mod n w
  have hnk : n + k = w * (n / w) + (col w n + k) := by omega
  rw [hnk]
  exact ⟨col_mul_add _ hk, row_mul_add_mod _ hk⟩

/-! ### Counting over a whole scan -/

section Count

variable {p q : ℕ → Prop} [DecidablePred p] [DecidablePred q]

lemma count_congr {k : ℕ} (hpq : ∀ i < k, (p i ↔ q i)) : Nat.count p k = Nat.count q k :=
  Nat.le_antisymm (Nat.count_mono_left fun i hi => (hpq i hi).mp)
    (Nat.count_mono_left fun i hi => (hpq i hi).mpr)

lemma count_interval {a b k : ℕ} (hb : b ≤ k) :
    Nat.count (fun i => a ≤ i ∧ i < b) k = b - a := by
  have hmin : ∀ k, Nat.count (fun i => a ≤ i ∧ i < b) k = min k b - a := by
    intro k
    induction k with
    | zero => simp
    | succ k ih =>
      rw [Nat.count_succ, ih]
      split <;> omega
  rw [hmin, Nat.min_eq_right hb]

/-- A window of one period has the same count wherever it starts. -/
lemma count_of_periodic {a : ℕ} (hp : ∀ i, p (i + a) ↔ p i) (n : ℕ) :
    Nat.count (fun i => p (n + i)) a = Nat.count p a := by
  -- the times before `n + a`, split after the first `n` and after the first `a` of them
  have hfront := Nat.count_add p n a
  have hback := Nat.count_add' p n a
  have hshift : Nat.count (fun i => p (i + a)) n = Nat.count p n := count_congr fun i _ => hp i
  omega

lemma col_add_period (w h n : ℕ) : col w (n + w * h) = col w n := Nat.add_mul_mod_self_left n w h

lemma row_add_period (hw : 0 < w) (h n : ℕ) : row w h (n + w * h) = row w h n := by
  rw [row, row, Nat.add_mul_div_left n h hw, Nat.add_mod_right]

/-- A row counts once if it is one of those that count. -/
lemma count_row {r : ℕ} (hr : r < h) :
    Nat.count (fun c => p (col w (w * r + c)) ∧ q (row w h (w * r + c))) w
      = if q r then Nat.count p w else 0 := by
  have hcell : ∀ c < w, (p (col w (w * r + c)) ∧ q (row w h (w * r + c)) ↔ p c ∧ q r) := by
    intro c hc
    rw [col_mul_add r hc, row_mul_add hr hc]
  rw [count_congr hcell]
  by_cases hq : q r
  · simp [hq]
  · simp [hq]

lemma count_rows {k : ℕ} (hk : k ≤ h) :
    Nat.count (fun n => p (col w n) ∧ q (row w h n)) (w * k) = Nat.count p w * Nat.count q k := by
  induction k with
  | zero => simp
  | succ k ih =>
    rw [Nat.mul_succ, Nat.count_add, ih (Nat.le_of_succ_le hk), count_row hk, Nat.count_succ,
      Nat.mul_add]
    split
    · rw [Nat.mul_one]
    · rw [Nat.mul_zero]

/-- During `w * h` consecutive times, from any time on, each cell is visited once: a condition on
the column and one on the row count as a product. -/
theorem count_scan (hw : 0 < w) (p q : ℕ → Prop) [DecidablePred p] [DecidablePred q] (n : ℕ) :
    Nat.count (fun i => p (col w (n + i)) ∧ q (row w h (n + i))) (w * h)
      = Nat.count p w * Nat.count q h := by
  have hperiod : ∀ i, p (col w (i + w * h)) ∧ q (row w h (i + w * h))
      ↔ p (col w i) ∧ q (row w h i) := by
    intro i
    rw [col_add_period, row_add_period hw]
  rw [count_of_periodic (p := fun i => p (col w i) ∧ q (row w h i)) hperiod n]
  exact count_rows (Nat.le_refl h)

/-- During `w * h` consecutive times a rectangle is visited as often as it has cells. -/
theorem count_rectangle (hw : 0 < w) {a b c d : ℕ} (hb : b ≤ w) (hd : d ≤ h) (n : ℕ) :
    Nat.count (fun i => (a ≤ col w (n + i) ∧ col w (n + i) < b) ∧
      c ≤ row w h (n + i) ∧ row w h (n + i) < d) (w * h) = (b - a) * (d - c) := by
  rw [count_scan hw (fun i => a ≤ i ∧ i < b) (fun i => c ≤ i ∧ i < d) n, count_interval hb,
    count_interval hd]

end Count

end RasterScan
