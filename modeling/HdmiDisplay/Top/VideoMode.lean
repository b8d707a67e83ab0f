/-
# The video mode of the top level

`top.vhd` declares the eight timing generics of a video mode and instantiates the timing generator
with a port map only.  The instance therefore runs with the default values of the component
declaration, whatever the generics of `top` are; the two agree for one mode.
-/
import HdmiDisplay.Video.Raster

namespace HdmiDisplay.Top

open Clocked RasterScan Video

/-- The generics of the instance `videoTiming`: its instantiation has no generic map. -/
def videoTimingGenerics (_top : Mode) : Generics := defaultGenerics

/-- The instance `videoTiming` in a `top` with the generics `top`. -/
def videoTiming (top : Mode) : Machine Bool (State (videoTimingGenerics top)) :=
  timing (videoTimingGenerics top)

/-- The signals `pos_x`, `pos_y`, `DE` and `C1_C0` of `top`, after `n` clocks. -/
def videoSignals (top : Mode) (reset : ℕ → Bool) (n : ℕ) : Outputs :=
  ((videoTiming top).state reset n).outputs

/-- The signals are those of the raster with the default generics. -/
lemma videoSignals_eq (top : Mode) {reset : ℕ → Bool} {t n : ℕ} (h : RunsFrom reset t n) :
    videoSignals top reset (t + n) = defaultMode.raster n :=
  (tracks_state defaultGenerics_fits h).outputs_eq

/-! ### A raster determines its mode -/

section Raster

variable {g m : Mode}

/-- A counter modulo a positive number determines its modulus. -/
lemma eq_of_mod_eq {a b : ℕ} (h : ∀ n, n % a = n % b) : a = b := by
  refine Nat.dvd_antisymm (Nat.dvd_of_mod_eq_zero ?_) (Nat.dvd_of_mod_eq_zero ?_)
  · rw [h b, Nat.mod_self]
  · rw [← h a, Nat.mod_self]

lemma raster_x {n : ℕ} (h : g.raster n = m.raster n) : g.x n = m.x n := congrArg Outputs.posX h

lemma raster_y {n : ℕ} (h : g.raster n = m.raster n) : g.y n = m.y n := congrArg Outputs.posY h

lemma raster_active {n : ℕ} (h : g.raster n = m.raster n) : g.active n ↔ m.active n :=
  decide_eq_decide.mp (congrArg Outputs.de h)

lemma raster_hSync {n k : ℕ} (h : (g.raster n).c1c0 = (m.raster k).c1c0) :
    g.inHSync n ↔ m.inHSync k := by
  have hc : (g.raster n).c1c0.getLsbD 0 = (m.raster k).c1c0.getLsbD 0 := by rw [h]
  simp only [Mode.raster, syncPair_getLsbD_zero] at hc
  simpa using hc

lemma raster_vSync {n k : ℕ} (h : (g.raster n).c1c0 = (m.raster k).c1c0) :
    g.inVSync n ↔ m.inVSync k := by
  have hc : (g.raster n).c1c0.getLsbD 1 = (m.raster k).c1c0.getLsbD 1 := by rw [h]
  simp only [Mode.raster, syncPair_getLsbD_one] at hc
  simpa using hc

/-- Two intervals that contain the same numbers have the same ends. -/
lemma interval_ext {a b c d k : ℕ} (hab : a < b) (hb : b ≤ k) (hcd : c < d) (hd : d ≤ k)
    (h : ∀ i < k, (a ≤ i ∧ i < b ↔ c ≤ i ∧ i < d)) : a = c ∧ b = d := by
  have h₁ := h a (by omega)
  have h₂ := h c (by omega)
  have h₃ := h (b - 1) (by omega)
  have h₄ := h (d - 1) (by omega)
  omega

/-- The four values of a dimension, from where its active part and its sync lie. -/
lemma dimension_ext {a f w b a' f' w' b' : ℕ+} (htot : (a + f + w + b : ℕ) = a' + f' + w' + b')
    (hact : ∀ i < (a + f + w + b : ℕ), (i < (a : ℕ) ↔ i < (a' : ℕ)))
    (hsync : ∀ i < (a + f + w + b : ℕ),
      ((a + f : ℕ) ≤ i ∧ i < (a + f + w : ℕ) ↔ (a' + f' : ℕ) ≤ i ∧ i < (a' + f' + w' : ℕ))) :
    a = a' ∧ f = f' ∧ w = w' ∧ b = b' := by
  have ha := a.pos
  have ha' := a'.pos
  have hw := w.pos
  have hw' := w'.pos
  obtain ⟨-, hactive⟩ := interval_ext ha (by omega) ha' (by omega)
    fun i hi => and_congr_right fun _ => hact i hi
  obtain ⟨hstart, hend⟩ := interval_ext (by omega) (by omega) (by omega) (by omega) hsync
  refine ⟨PNat.eq hactive, PNat.eq ?_, PNat.eq ?_, PNat.eq ?_⟩
  · omega
  · omega
  · omega

lemma x_lineStart (r : ℕ) : g.x (g.hTotal * r) = 0 := col_mul_add r (hTotal_pos g)

lemma y_lineStart {r : ℕ} (hr : r < g.vTotal) : g.y (g.hTotal * r) = r :=
  row_mul_add hr (hTotal_pos g)

lemma x_firstLine {c : ℕ} (hc : c < g.hTotal) : g.x c = c := Nat.mod_eq_of_lt hc

lemma y_firstLine {c : ℕ} (hc : c < g.hTotal) : g.y c = 0 := by
  rw [Mode.y, row, Nat.div_eq_of_lt hc, Nat.zero_mod]

section Same

variable (h : ∀ n, g.raster n = m.raster n)
include h

lemma hTotal_eq : g.hTotal = m.hTotal := eq_of_mod_eq fun n => raster_x (h n)

lemma vTotal_eq : g.vTotal = m.vTotal := by
  refine eq_of_mod_eq ?_
  intro r
  have hy := raster_y (h (g.hTotal * r))
  rw [Mode.y, Mode.y, row, row, ← hTotal_eq h, Nat.mul_div_cancel_left _ (hTotal_pos g)] at hy
  exact hy

/-- The first line shows the horizontal values. -/
lemma horizontal_eq : g.hActive = m.hActive ∧ g.hFrontPorch = m.hFrontPorch ∧
    g.hSync = m.hSync ∧ g.hBackPorch = m.hBackPorch := by
  have htot := hTotal_eq h
  have hx : ∀ c < g.hTotal, g.x c = c ∧ m.x c = c := fun c hc =>
    ⟨x_firstLine hc, x_firstLine (htot ▸ hc)⟩
  refine dimension_ext htot ?_ ?_
  · intro c hc
    have hiff := raster_active (h c)
    rw [Mode.active, Mode.active, (hx c hc).1, (hx c hc).2, y_firstLine hc,
      y_firstLine (htot ▸ hc)] at hiff
    simpa only [g.vActive.pos, m.vActive.pos, and_true] using hiff
  · intro c hc
    have hiff := raster_hSync (congrArg Outputs.c1c0 (h c))
    rwa [Mode.inHSync, Mode.inHSync, (hx c hc).1, (hx c hc).2] at hiff

/-- The first clocks of the lines show the vertical values. -/
lemma vertical_eq : g.vActive = m.vActive ∧ g.vFrontPorch = m.vFrontPorch ∧
    g.vSync = m.vSync ∧ g.vBackPorch = m.vBackPorch := by
  have htot := vTotal_eq h
  have hx : ∀ r, m.x (g.hTotal * r) = 0 := fun r => hTotal_eq h ▸ x_lineStart r
  have hy : ∀ r < g.vTotal, g.y (g.hTotal * r) = r ∧ m.y (g.hTotal * r) = r := fun r hr =>
    ⟨y_lineStart hr, hTotal_eq h ▸ y_lineStart (htot ▸ hr)⟩
  refine dimension_ext htot ?_ ?_
  · intro r hr
    have hiff := raster_active (h (g.hTotal * r))
    rw [Mode.active, Mode.active, x_lineStart, hx, (hy r hr).1, (hy r hr).2] at hiff
    simpa only [g.hActive.pos, m.hActive.pos, true_and] using hiff
  · intro r hr
    have hiff := raster_vSync (congrArg Outputs.c1c0 (h (g.hTotal * r)))
    rwa [Mode.inVSync, Mode.inVSync, (hy r hr).1, (hy r hr).2] at hiff

end Same

/-- **A raster determines its mode.** -/
theorem mode_eq_of_raster_eq (h : ∀ n, g.raster n = m.raster n) : g = m := by
  obtain ⟨h₁, h₂, h₃, h₄⟩ := horizontal_eq h
  obtain ⟨v₁, v₂, v₃, v₄⟩ := vertical_eq h
  exact Mode.ext h₁ h₂ h₃ h₄ v₁ v₂ v₃ v₄

end Raster

/-! ### The generics of `top` -/

/-- **The generics of `top` and its video mode.**  The signals of `top` are those of the raster
with its own generics, in every run, exactly when the generics have their default values. -/
theorem video_mode_iff (top : Mode) :
    (∀ reset t n, RunsFrom reset t n → videoSignals top reset (t + n) = top.raster n) ↔
      top = defaultMode := by
  constructor
  · intro h
    refine mode_eq_of_raster_eq ?_
    intro n
    have hrun : RunsFrom (fun _ => false) 0 n := ⟨Or.inl rfl, fun _ _ _ => rfl⟩
    rw [← h _ 0 n hrun, videoSignals_eq top hrun]
  · rintro rfl reset t n hrun
    exact videoSignals_eq defaultMode hrun

/-- The mode with 720 by 400 pixels; the width of its vertical sync is the default one. -/
def mode720x400 : Mode :=
  { defaultMode with hActive := 720, hFrontPorch := 18, hSync := 108, hBackPorch := 54,
                     vActive := 400, vFrontPorch := 12, vBackPorch := 35 }

/-- With the generics of 720 by 400 pixels, whose totals are below 1024, the signals of `top`
leave the raster: the data enable drops in the middle of the first line. -/
theorem video_mode_720x400 :
    (mode720x400.hTotal ≤ 1024 ∧ mode720x400.vTotal ≤ 1024) ∧
      RunsFrom (fun _ => false) 0 640 ∧
      (videoSignals mode720x400 (fun _ => false) (0 + 640)).de = false ∧
      videoSignals mode720x400 (fun _ => false) (0 + 640) ≠ mode720x400.raster 640 := by
  have hrun : RunsFrom (fun _ => false) 0 640 := ⟨Or.inl rfl, fun _ _ _ => rfl⟩
  rw [videoSignals_eq mode720x400 hrun]
  exact ⟨by decide, hrun, by decide, by decide⟩

end HdmiDisplay.Top
