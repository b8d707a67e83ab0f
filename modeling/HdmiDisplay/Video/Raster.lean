/-
# The raster of the timing generator

What the generator is for: `n` clocks after its reset it stands at the cell of a row-major scan of
the frame that is visited at time `n`, and its outputs are those of that cell.  The registers track
the scan as long as the totals fit their widths, totals of exactly `2 ^ hBits` and `2 ^ vBits`
included, where the compare values are the largest numbers of the registers.
-/
import HdmiDisplay.Video.Timing

namespace HdmiDisplay.Video

open Clocked RasterScan

/-! ### The raster of a mode -/

section Mode

variable (g : Mode)

lemma hTotal_pos : 0 < g.hTotal := by
  have := g.hActive.pos
  rw [Mode.hTotal]
  omega

lemma vTotal_pos : 0 < g.vTotal := by
  have := g.vActive.pos
  rw [Mode.vTotal]
  omega

/-- The position in the line, `n` clocks after the reset. -/
def Mode.x (n : ℕ) : ℕ := col g.hTotal n

/-- The line of the frame, `n` clocks after the reset. -/
def Mode.y (n : ℕ) : ℕ := row g.hTotal g.vTotal n

/-- The scan is in the active part of the frame. -/
def Mode.active (n : ℕ) : Prop := g.x n < g.hActive ∧ g.y n < g.vActive

/-- The scan is in the horizontal sync. -/
def Mode.inHSync (n : ℕ) : Prop :=
  (g.hActive + g.hFrontPorch : ℕ) ≤ g.x n ∧ g.x n < g.hActive + g.hFrontPorch + g.hSync

/-- The scan is in the vertical sync. -/
def Mode.inVSync (n : ℕ) : Prop :=
  (g.vActive + g.vFrontPorch : ℕ) ≤ g.y n ∧ g.y n < g.vActive + g.vFrontPorch + g.vSync

instance (n : ℕ) : Decidable (g.active n) := inferInstanceAs (Decidable (_ ∧ _))

instance (n : ℕ) : Decidable (g.inHSync n) := inferInstanceAs (Decidable (_ ∧ _))

instance (n : ℕ) : Decidable (g.inVSync n) := inferInstanceAs (Decidable (_ ∧ _))

/-- The outputs of the raster with the values of `g`, `n` clocks after the reset. -/
def Mode.raster (n : ℕ) : Outputs where
  posX := g.x n
  posY := g.y n
  de := decide (g.active n)
  c1c0 := syncPair (!decide (g.inVSync n)) (!decide (g.inHSync n))

/-- No cell is both active and in a sync. -/
lemma not_sync_of_active {n : ℕ} (h : g.active n) : ¬g.inHSync n ∧ ¬g.inVSync n := by
  obtain ⟨hx, hy⟩ := h
  constructor
  · rintro ⟨hsync, -⟩
    omega
  · rintro ⟨hsync, -⟩
    omega

end Mode

/-! ### The registers track the scan -/

/-- The totals of the mode fit the widths of the counters. -/
structure Generics.Fits (g : Generics) : Prop where
  h : g.hTotal ≤ 2 ^ (g.hBits : ℕ)
  v : g.vTotal ≤ 2 ^ (g.vBits : ℕ)

lemma defaultGenerics_fits : defaultGenerics.Fits := ⟨by decide, by decide⟩

/-- The registers stand at the cell visited at time `n`. -/
structure Tracks {g : Generics} (n : ℕ) (s : State g) : Prop where
  x : s.posXTemp.toNat = g.x n
  y : s.posYTemp.toNat = g.y n

variable {g : Generics} {s : State g} {n t : ℕ} {reset : ℕ → Bool}

/-- A compare value below `2 ^ size` is not truncated. -/
lemma eq_toUnsigned_iff {size : ℕ+} {x : BitVec size} {k : ℕ} (hk : k < 2 ^ (size : ℕ)) :
    x = toUnsigned k size ↔ x.toNat = k := by
  rw [toUnsigned, ← BitVec.toNat_inj, BitVec.toNat_ofNat, Nat.mod_eq_of_lt hk]

/-- The addition of the process, which wraps at the width of the register. -/
lemma toNat_add_one {size : ℕ+} (x : BitVec size) :
    (x + 1).toNat = (x.toNat + 1) % 2 ^ (size : ℕ) := by
  have hone : (1#(size : ℕ)).toNat = 1 := BitVec.toNat_one size.pos
  exact (BitVec.toNat_add x 1).trans (by rw [← hone]; rfl)

lemma tracks_reset (s : State g) : Tracks 0 (step g s true) := by
  rw [step, if_pos rfl]
  exact ⟨(col_zero _).symm, (row_zero _ _).symm⟩

lemma tracks_start : Tracks 0 (timing g).start := ⟨(col_zero _).symm, (row_zero _ _).symm⟩

section Fits

variable (hfit : g.Fits)
include hfit

/-- The end of a line, as the process tests it. -/
lemma posXTemp_eq_iff (s : State g) :
    s.posXTemp = toUnsigned (g.hFrontPorch + g.hActive + g.hSync + g.hBackPorch - 1) g.hBits
      ↔ s.posXTemp.toNat + 1 = g.hTotal := by
  have hpos := hTotal_pos g.toMode
  have hle := hfit.h
  rw [Mode.hTotal] at hpos hle
  rw [eq_toUnsigned_iff (by omega), Mode.hTotal]
  omega

/-- The end of a frame, as the process tests it. -/
lemma posYTemp_eq_iff (s : State g) :
    s.posYTemp = toUnsigned (g.vFrontPorch + g.vActive + g.vSync + g.vBackPorch - 1) g.vBits
      ↔ s.posYTemp.toNat + 1 = g.vTotal := by
  have hpos := vTotal_pos g.toMode
  have hle := hfit.v
  rw [Mode.vTotal] at hpos hle
  rw [eq_toUnsigned_iff (by omega), Mode.vTotal]
  omega

/-- What a clock without reset does to the column, from any registers. -/
lemma step_posXTemp (s : State g) : (step g s false).posXTemp.toNat =
    if s.posXTemp.toNat + 1 = g.hTotal then 0
    else (s.posXTemp.toNat + 1) % 2 ^ (g.hBits : ℕ) := by
  rw [step, if_neg Bool.false_ne_true]
  by_cases hx : s.posXTemp.toNat + 1 = g.hTotal
  · rw [if_pos hx, if_pos ((posXTemp_eq_iff hfit s).mpr hx)]
    split <;> rfl
  · rw [if_neg hx, if_neg fun he => hx ((posXTemp_eq_iff hfit s).mp he)]
    exact toNat_add_one _

/-- What a clock without reset does to the line, from any registers. -/
lemma step_posYTemp (s : State g) : (step g s false).posYTemp.toNat =
    if s.posXTemp.toNat + 1 = g.hTotal then
      (if s.posYTemp.toNat + 1 = g.vTotal then 0
      else (s.posYTemp.toNat + 1) % 2 ^ (g.vBits : ℕ))
    else s.posYTemp.toNat := by
  rw [step, if_neg Bool.false_ne_true]
  by_cases hx : s.posXTemp.toNat + 1 = g.hTotal
  · rw [if_pos hx, if_pos ((posXTemp_eq_iff hfit s).mpr hx)]
    by_cases hy : s.posYTemp.toNat + 1 = g.vTotal
    · rw [if_pos hy, if_pos ((posYTemp_eq_iff hfit s).mpr hy)]
      rfl
    · rw [if_neg hy, if_neg fun he => hy ((posYTemp_eq_iff hfit s).mp he)]
      exact toNat_add_one _
  · rw [if_neg hx, if_neg fun he => hx ((posXTemp_eq_iff hfit s).mp he)]

/-- Inside a line the addition to `pos_x_temp` does not wrap. -/
lemma posXTemp_add_lt (h : Tracks n s) (hend : g.x n + 1 ≠ g.hTotal) :
    s.posXTemp.toNat + 1 < 2 ^ (g.hBits : ℕ) := by
  have hlt : g.x n < g.hTotal := col_lt (hTotal_pos _) n
  have hle := hfit.h
  rw [h.x]
  omega

/-- Inside a frame the addition to `pos_y_temp` does not wrap. -/
lemma posYTemp_add_lt (h : Tracks n s) (hend : g.y n + 1 ≠ g.vTotal) :
    s.posYTemp.toNat + 1 < 2 ^ (g.vBits : ℕ) := by
  have hlt : g.y n < g.vTotal := row_lt (vTotal_pos _) n
  have hle := hfit.v
  rw [h.y]
  omega

/-- A clock without reset moves on to the next cell. -/
lemma tracks_succ (h : Tracks n s) : Tracks (n + 1) (step g s false) := by
  have hcol : g.x (n + 1) = if g.x n + 1 = g.hTotal then 0 else g.x n + 1 :=
    col_succ (hTotal_pos _) n
  have hrow : g.y (n + 1) = if g.x n + 1 = g.hTotal then
      (if g.y n + 1 = g.vTotal then 0 else g.y n + 1) else g.y n :=
    row_succ (hTotal_pos _) (vTotal_pos _) n
  constructor
  · rw [step_posXTemp hfit, hcol, ← h.x]
    split
    · rfl
    · next hx => exact Nat.mod_eq_of_lt (posXTemp_add_lt hfit h (h.x ▸ hx))
  · rw [step_posYTemp hfit, hrow, ← h.x, ← h.y]
    split
    · split
      · rfl
      · next hy => exact Nat.mod_eq_of_lt (posYTemp_add_lt hfit h (h.y ▸ hy))
    · rfl

end Fits

/-! ### Runs -/

/-- The clock edge `t` is the first one after power-up or after a clock with reset, and reset is
low at the `n` clock edges from `t` on. -/
structure RunsFrom (reset : ℕ → Bool) (t n : ℕ) : Prop where
  start : t = 0 ∨ ∃ k, t = k + 1 ∧ reset k = true
  low : ∀ i, t ≤ i → i < t + n → reset i = false

/-- From a cell of the scan the registers go on with the scan as long as reset is low, whatever they
were at power-up. -/
lemma tracks_add (hfit : g.Fits) {M : Machine Bool (State g)} (hM : M.step = step g)
    (h : Tracks n (M.state reset t)) {k : ℕ} (hlow : ∀ i < k, reset (t + i) = false) :
    Tracks (n + k) (M.state reset (t + k)) := by
  induction k with
  | zero => exact h
  | succ k ih =>
    have hprev := ih fun i hi => hlow i (Nat.lt_succ_of_lt hi)
    rw [← Nat.add_assoc, ← Nat.add_assoc, Machine.state_succ, hM, hlow k (Nat.lt_succ_self k)]
    exact tracks_succ hfit hprev

/-- From power-up on the registers always stand at some cell. -/
lemma exists_tracks (hfit : g.Fits) (reset : ℕ → Bool) (t : ℕ) :
    ∃ n, Tracks n ((timing g).state reset t) := by
  refine Machine.invariant (fun s => ∃ n, Tracks n s) ⟨0, tracks_start⟩ ?_ reset t
  rintro s r ⟨n, hn⟩
  cases r with
  | true => exact ⟨0, tracks_reset s⟩
  | false => exact ⟨n + 1, tracks_succ hfit hn⟩

/-- **Refinement of the scan.**  `n` clocks after the reset the registers stand at the cell that
the scan visits at time `n`. -/
theorem tracks_state (hfit : g.Fits) (h : RunsFrom reset t n) :
    Tracks n ((timing g).state reset (t + n)) := by
  obtain ⟨hstart, hlow⟩ := h
  have hfirst : Tracks 0 ((timing g).state reset t) := by
    rcases hstart with rfl | ⟨k, rfl, hk⟩
    · exact tracks_start
    · rw [Machine.state_succ, hk]
      exact tracks_reset ((timing g).state reset k)
  have hrun := tracks_add hfit rfl hfirst fun i hi =>
    hlow (t + i) (Nat.le_add_right t i) (Nat.add_lt_add_left hi t)
  rwa [Nat.zero_add] at hrun

lemma Tracks.de_eq (h : Tracks n s) : s.de = decide (g.active n) := by
  rw [State.de, h.x, h.y]
  rfl

lemma Tracks.hSyncN_eq (h : Tracks n s) : s.hSyncN = !decide (g.inHSync n) := by
  rw [State.hSyncN, h.x]
  rfl

lemma Tracks.vSyncN_eq (h : Tracks n s) : s.vSyncN = !decide (g.inVSync n) := by
  rw [State.vSyncN, h.y]
  rfl

/-- The outputs of a state that stands at a cell are those of the raster there. -/
lemma Tracks.outputs_eq (h : Tracks n s) : s.outputs = g.raster n := by
  rw [State.outputs, State.c1c0, h.x, h.y, h.de_eq, h.hSyncN_eq, h.vSyncN_eq]
  rfl

/-- **Raster refinement.**  For all generics whose totals fit the widths, `n` clocks after the
last clock with reset, or after power-up, the position is `n` in the row-major scan of the frame,
the additions that the process makes do not wrap, `DE` and the two syncs are those of the position,
and `DE` is never active during a sync. -/
theorem raster_refinement (g : Generics) (hfit : g.Fits) (reset : ℕ → Bool) (t n : ℕ)
    (hrun : RunsFrom reset t n) :
    let s := (timing g).state reset (t + n)
    (s.posXTemp.toNat = n % g.hTotal ∧ s.posYTemp.toNat = n / g.hTotal % g.vTotal) ∧
      (n % g.hTotal + 1 ≠ g.hTotal → s.posXTemp.toNat + 1 < 2 ^ (g.hBits : ℕ)) ∧
      (n / g.hTotal % g.vTotal + 1 ≠ g.vTotal → s.posYTemp.toNat + 1 < 2 ^ (g.vBits : ℕ)) ∧
      (s.de = true ↔ n % g.hTotal < g.hActive ∧ n / g.hTotal % g.vTotal < g.vActive) ∧
      (s.c1c0.getLsbD 0 = false ↔ (g.hActive + g.hFrontPorch : ℕ) ≤ n % g.hTotal ∧
        n % g.hTotal < g.hActive + g.hFrontPorch + g.hSync) ∧
      (s.c1c0.getLsbD 1 = false ↔ (g.vActive + g.vFrontPorch : ℕ) ≤ n / g.hTotal % g.vTotal ∧
        n / g.hTotal % g.vTotal < g.vActive + g.vFrontPorch + g.vSync) ∧
      (s.de = true → s.c1c0.getLsbD 0 = true ∧ s.c1c0.getLsbD 1 = true) := by
  intro s
  have h : Tracks n s := tracks_state hfit hrun
  rw [c1c0_getLsbD_zero, c1c0_getLsbD_one, h.de_eq, h.hSyncN_eq, h.vSyncN_eq]
  simp only [decide_eq_true_eq, Bool.not_eq_false', Bool.not_eq_true', decide_eq_false_iff_not]
  exact ⟨⟨h.x, h.y⟩, posXTemp_add_lt hfit h, posYTemp_add_lt hfit h, Iff.rfl, Iff.rfl, Iff.rfl,
    not_sync_of_active g.toMode⟩

/-- With the default generics, two lines and five clocks after power-up. -/
theorem raster_refinement_third_line :
    let s := (timing defaultGenerics).state (fun _ => false) (0 + 1605)
    s.posXTemp.toNat = 5 ∧ s.posYTemp.toNat = 2 :=
  (raster_refinement defaultGenerics ⟨by decide, by decide⟩ (fun _ => false) 0 1605
    ⟨Or.inl rfl, fun _ _ _ => rfl⟩).1

end HdmiDisplay.Video
