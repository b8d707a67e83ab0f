/-
# Data enable and syncs on the wire

The two paths from the timing generator to the encoders of `top.vhd`.  The data enable goes through
the frame buffer, which hands it on two clocks later together with the pixel; the control pair is
wired to the blue encoder directly.  So the syncs run ahead of the data by two clocks: the front
porch of every line of the transmitted stream is two symbols short and the back porch two symbols
long.
-/
import HdmiDisplay.Video.Line
import HdmiDisplay.Top.VideoMode
import HdmiDisplay.Top.Lanes

namespace HdmiDisplay.Top

open Clocked Video
open Tmds (Decoded decode)

/-! ### Porches of a stream of symbols -/

/-- A control symbol with the horizontal sync low. -/
def HSyncLow : Decoded → Prop
  | .control c1c0 => c1c0.getLsbD 0 = false
  | .data _ => False

/-- A control symbol with the horizontal sync high. -/
def HSyncHigh : Decoded → Prop
  | .control c1c0 => c1c0.getLsbD 0 = true
  | .data _ => False

/-- The data symbol `a` is followed by exactly `k` control symbols before an hsync-low one. -/
structure FrontPorch (s : ℕ → Decoded) (k a : ℕ) : Prop where
  data : (s a).isData = true
  porch : ∀ i < k, HSyncHigh (s (a + 1 + i))
  sync : HSyncLow (s (a + 1 + k))

/-- The hsync-low symbol `b` is followed by exactly `k` control symbols before a data symbol. -/
structure BackPorch (s : ℕ → Decoded) (k b : ℕ) : Prop where
  sync : HSyncLow (s b)
  porch : ∀ i < k, HSyncHigh (s (b + 1 + i))
  data : (s (b + 1 + k)).isData = true

/-- From the symbol `T` on, every line has a front porch of `k` symbols after its data. -/
def FrontPorches (s : ℕ → Decoded) (k T : ℕ) : Prop :=
  ∀ a ≥ T, (s a).isData = true → (s (a + 1)).isData = false → FrontPorch s k a

/-- From the symbol `T` on, every line has a back porch of `k` symbols before its data. -/
def BackPorches (s : ℕ → Decoded) (k T : ℕ) : Prop :=
  ∀ a ≥ T, (s a).isData = false → (s (a + 1)).isData = true → ∃ b, b + k = a ∧ BackPorch s k b

section Porch

variable {s : ℕ → Decoded} {k l a b : ℕ}

lemma not_hSyncHigh_of_hSyncLow {d : Decoded} (h : HSyncLow d) : ¬HSyncHigh d := by
  cases d with
  | control c1c0 =>
    rw [HSyncLow] at h
    rw [HSyncHigh, h]
    exact Bool.false_ne_true
  | data d => exact id

/-- The length of a front porch is determined by the stream. -/
lemma FrontPorch.unique (h : FrontPorch s k a) (h' : FrontPorch s l a) : k = l := by
  rcases lt_trichotomy k l with hlt | heq | hgt
  · exact absurd (h'.porch k hlt) (not_hSyncHigh_of_hSyncLow h.sync)
  · exact heq
  · exact absurd (h.porch l hgt) (not_hSyncHigh_of_hSyncLow h'.sync)

/-- The length of a back porch is determined by the stream. -/
lemma BackPorch.unique (h : BackPorch s k a) (h' : BackPorch s l b) (hab : a + k = b + l) :
    k = l := by
  rcases lt_trichotomy k l with hlt | heq | hgt
  · refine absurd (h'.porch (l - k - 1) (by omega)) ?_
    rw [show b + 1 + (l - k - 1) = a by omega]
    exact not_hSyncHigh_of_hSyncLow h.sync
  · exact heq
  · refine absurd (h.porch (k - l - 1) (by omega)) ?_
    rw [show a + 1 + (k - l - 1) = b by omega]
    exact not_hSyncHigh_of_hSyncLow h'.sync

end Porch

/-! ### The pixel domain -/

/-- A run of the pixel domain of a `top` with the generics `top`: its inputs, the outputs of the
frame buffer, and the clock `t` from which reset is low and the frame buffer keeps its timing. -/
structure PixelRun (top : Mode) where
  reset : ℕ → Bool
  voutDen : ℕ → Bool
  voutData : ℕ → BitVec 16
  t : ℕ
  runs : ∀ n, RunsFrom reset t n
  /-- `O_vout0_den` is `I_vout0_vs_n and I_vout0_de` of two clocks before. -/
  voutDen_add_two : ∀ n ≥ t, voutDen (n + 2)
    = ((videoSignals top reset n).c1c0.getLsbD 1 && (videoSignals top reset n).de)

namespace PixelRun

variable {top : Mode} (r : PixelRun top)

/-- The signals that the encoders sample at the clock edge `n`. -/
def laneInput (n : ℕ) : LaneInput :=
  ⟨r.reset n, r.voutDen n, r.voutData n, (videoSignals top r.reset n).c1c0⟩

/-- What a receiver makes of the symbol that the blue encoder registers at the clock edge `n`. -/
def sent (qr qg qb : BitVec 10) (n : ℕ) : Decoded :=
  decode ((lanes qr qg qb).state r.laneInput (n + 1)).blue.qOut

/-- From the clock `T` on, the encoders see the data enable and the control pair of the timing
generator with the delay `d`. -/
def CommonDelay (d T : ℕ) : Prop :=
  ∀ n ≥ T, (r.laneInput (n + d)).voutDen = (videoSignals top r.reset n).de ∧
    (r.laneInput (n + d)).c1c0 = (videoSignals top r.reset n).c1c0

end PixelRun

/-! ### Data two clocks behind the syncs -/

/-- From the clock `t` on, the control pair of `x` is that of the raster and its data enable is
two clocks behind. -/
structure TwoBehind (g : Mode) (t : ℕ) (x : ℕ → LaneInput) : Prop where
  reset : ∀ m, (x (t + m)).reset = false
  voutDen : ∀ m, (x (t + 2 + m)).voutDen = decide (g.active m)
  c1c0 : ∀ m, (x (t + m)).c1c0 = (g.raster m).c1c0

variable {top : Mode}

lemma PixelRun.reset_add (r : PixelRun top) (m : ℕ) : r.reset (r.t + m) = false :=
  (r.runs (m + 1)).low (r.t + m) (by omega) (by omega)

lemma PixelRun.videoSignals_eq (r : PixelRun top) (m : ℕ) :
    videoSignals top r.reset (r.t + m) = defaultMode.raster m :=
  Top.videoSignals_eq top (r.runs m)

/-- The data enable of the generator is never active in the vertical sync, which the frame buffer
also looks at. -/
lemma raster_vSyncN_and_de (g : Mode) (m : ℕ) :
    ((g.raster m).c1c0.getLsbD 1 && (g.raster m).de) = decide (g.active m) := by
  rw [Mode.raster, syncPair_getLsbD_one]
  by_cases hact : g.active m
  · simp [hact, (not_sync_of_active g hact).2]
  · simp [hact]

lemma PixelRun.twoBehind (r : PixelRun top) : TwoBehind defaultMode r.t r.laneInput where
  reset := r.reset_add
  voutDen m := by
    have hden := r.voutDen_add_two (r.t + m) (Nat.le_add_right _ _)
    rw [r.videoSignals_eq, raster_vSyncN_and_de] at hden
    rw [Nat.add_right_comm]
    exact hden
  c1c0 m := congrArg Outputs.c1c0 (r.videoSignals_eq m)

/-- From the clock `t` on, `s` is a stream of symbols whose data is that of the raster and whose
syncs are those of the raster two symbols later. -/
structure Skewed (g : Mode) (t : ℕ) (s : ℕ → Decoded) : Prop where
  isData_iff : ∀ m, (s (t + m)).isData = true ↔ g.active m
  hSyncLow_iff : ∀ m, HSyncLow (s (t + m)) ↔ ¬g.active m ∧ g.inHSync (m + 2)
  hSyncHigh_iff : ∀ m, HSyncHigh (s (t + m)) ↔ ¬g.active m ∧ ¬g.inHSync (m + 2)

namespace TwoBehind

variable {g : Mode} {t : ℕ} {x : ℕ → LaneInput}

/-- What the receiver of the blue lane sees of such inputs. -/
lemma decode_blue (h : TwoBehind g t x) (qr qg qb : BitVec 10) (m : ℕ) :
    decode ((lanes qr qg qb).state x (t + 2 + m + 1)).blue.qOut =
      if g.active m then .data (blueD (x (t + 2 + m)).voutData)
      else .control (g.raster (m + 2)).c1c0 := by
  have hclock : t + 2 + m = t + (m + 2) := by omega
  have hreset : (x (t + 2 + m)).reset = false := hclock ▸ h.reset (m + 2)
  have hc : (x (t + 2 + m)).c1c0 = (g.raster (m + 2)).c1c0 := hclock ▸ h.c1c0 (m + 2)
  calc decode ((lanes qr qg qb).state x (t + 2 + m + 1)).blue.qOut
      = if (x (t + 2 + m)).voutDen = true then .data (blueD (x (t + 2 + m)).voutData)
        else .control (x (t + 2 + m)).c1c0 :=
        Tmds.decode_step _ (x := blueInput (x (t + 2 + m))) hreset
    _ = _ := by simp only [h.voutDen, hc, decide_eq_true_eq]

/-- The blue lane carries the data two symbols behind the syncs. -/
lemma skewed (h : TwoBehind g t x) (qr qg qb : BitVec 10) :
    Skewed g (t + 2) fun n => decode ((lanes qr qg qb).state x (n + 1)).blue.qOut := by
  refine ⟨?_, ?_, ?_⟩
  all_goals
    intro m
    rw [h.decode_blue]
    by_cases hact : g.active m
  · simp [hact, Decoded.isData]
  · simp [hact, Decoded.isData]
  · simp [hact, HSyncLow]
  · simp [hact, HSyncLow, Mode.raster, -BitVec.getLsbD_eq_getElem]
  · simp [hact, HSyncHigh]
  · simp [hact, HSyncHigh, Mode.raster, -BitVec.getLsbD_eq_getElem]

end TwoBehind

namespace Skewed

variable {g : Mode} {t : ℕ} {s : ℕ → Decoded}

/-- The first hsync-low symbol comes two symbols early after the data. -/
lemma frontPorches (h : Skewed g t s) {k : ℕ} (hk : k + 2 = g.hFrontPorch) :
    FrontPorches s k t := by
  intro a ha hdata hnext
  obtain ⟨m, rfl⟩ := Nat.exists_eq_add_of_le ha
  have hact : g.active m := (h.isData_iff m).mp hdata
  have hnot : ¬g.active (m + 1) := by
    rw [← h.isData_iff, ← Nat.add_assoc, hnext]
    exact Bool.false_ne_true
  have hx : g.x m + 1 = g.hActive := x_of_active_fall hact hnot
  have hsync := g.hSync.pos
  have hback := g.hBackPorch.pos
  -- the positions after the data, up to the start of the sync
  have hpos : ∀ i ≤ (g.hFrontPorch : ℕ), g.x (m + 1 + i) = g.hActive + i := by
    intro i hi
    rw [Nat.add_assoc, x_add (by rw [Mode.hTotal]; omega)]
    omega
  refine ⟨hdata, ?_, ?_⟩
  · intro i hi
    have hclock : t + m + 1 + i = t + (m + 1 + i) := by omega
    rw [hclock, h.hSyncHigh_iff, Mode.active, Mode.inHSync, Nat.add_assoc (m + 1),
      hpos i (by omega), hpos (i + 2) (by omega)]
    omega
  · have hclock : t + m + 1 + k = t + (m + 1 + k) := by omega
    rw [hclock, h.hSyncLow_iff, Mode.active, Mode.inHSync, Nat.add_assoc (m + 1),
      hpos k (by omega), hpos (k + 2) (by omega)]
    omega

/-- The last hsync-low symbol comes two symbols early before the data. -/
lemma backPorches (h : Skewed g t s) (hfront : 2 ≤ (g.hFrontPorch : ℕ)) {k : ℕ}
    (hk : k = g.hBackPorch + 2) : BackPorches s k t := by
  intro a ha hnodata hdata
  obtain ⟨m, rfl⟩ := Nat.exists_eq_add_of_le ha
  have hnot : ¬g.active m := by
    rw [← h.isData_iff, hnodata]
    exact Bool.false_ne_true
  have hend : g.x m + 1 = g.hTotal :=
    x_eq_zero_iff.mp (x_of_active_rise hnot ((h.isData_iff (m + 1)).mp hdata))
  have hact := g.hActive.pos
  have hsync := g.hSync.pos
  have htot : g.hTotal = g.hActive + g.hFrontPorch + g.hSync + g.hBackPorch := rfl
  -- `q` is the line that ends at `m`
  obtain ⟨q, hq⟩ : ∃ q, m + 1 = g.hTotal * q + g.hTotal := by
    have hdiv : g.hTotal * (m / g.hTotal) + g.x m = m := Nat.div_add_mod m g.hTotal
    exact ⟨m / g.hTotal, by omega⟩
  have hpos : ∀ c < g.hTotal, g.x (g.hTotal * q + c) = c := fun c hc => x_mul_add q hc
  have hwrap : ∀ c < g.hTotal, g.x (g.hTotal * q + (g.hTotal + c)) = c := by
    intro c hc
    rw [← Nat.add_assoc, ← Nat.mul_succ]
    exact x_mul_add (q + 1) hc
  obtain ⟨c, hc⟩ : ∃ c : ℕ, c + 3 = g.hActive + g.hFrontPorch + g.hSync :=
    ⟨g.hActive + g.hFrontPorch + g.hSync - 3, by omega⟩
  refine ⟨t + (g.hTotal * q + c), by omega, ?_, ?_, ?_⟩
  · rw [h.hSyncLow_iff, Mode.active, Mode.inHSync, Nat.add_assoc (g.hTotal * q),
      hpos c (by omega), hpos (c + 2) (by omega)]
    omega
  · intro i hi
    have hclock : t + (g.hTotal * q + c) + 1 + i = t + (g.hTotal * q + (c + 1 + i)) := by omega
    rw [hclock, h.hSyncHigh_iff, Mode.active, Mode.inHSync, Nat.add_assoc (g.hTotal * q),
      hpos (c + 1 + i) (by omega)]
    by_cases hline : c + 1 + i + 2 < g.hTotal
    · rw [hpos _ hline]
      omega
    · -- the last two positions of the porch belong to the next line
      obtain ⟨j, hj⟩ := Nat.exists_eq_add_of_le (Nat.le_of_not_lt hline)
      rw [hj, hwrap j (by omega)]
      omega
  · have hclock : t + (g.hTotal * q + c) + 1 + k = t + m + 1 := by omega
    rw [hclock]
    exact hdata

/-- The data of such a stream ends again and again. -/
lemma exists_data_end (h : Skewed g t s) (T : ℕ) :
    ∃ a ≥ t, T ≤ a ∧ (s a).isData = true ∧ (s (a + 1)).isData = false := by
  obtain ⟨m, hm, hact, hnot⟩ := exists_active_fall g T
  refine ⟨t + m, by omega, by omega, (h.isData_iff m).mpr hact, ?_⟩
  rw [Nat.add_assoc, ← Bool.not_eq_true, h.isData_iff]
  exact hnot

/-- The data of such a stream starts again and again. -/
lemma exists_data_start (h : Skewed g t s) (T : ℕ) :
    ∃ a ≥ t, T ≤ a ∧ (s a).isData = false ∧ (s (a + 1)).isData = true := by
  obtain ⟨m, hm, hnot, hact⟩ := exists_active_rise g T
  refine ⟨t + m, by omega, by omega, ?_, (h.isData_iff (m + 1)).mpr hact⟩
  rw [← Bool.not_eq_true, h.isData_iff]
  exact hnot

end Skewed

/-! ### No common delay -/

namespace PixelRun

variable (r : PixelRun top)

/-- The data enable is late by two clocks, up to whole lines, and the syncs by none. -/
lemma not_commonDelay (d T : ℕ) : ¬r.CommonDelay d T := by
  intro hcommon
  have hbehind := r.twoBehind
  have hactive : ∀ j ≥ T, defaultMode.active (j + d) ↔ defaultMode.active (j + 2) := by
    intro j hj
    have hden := (hcommon (r.t + (j + 2)) (by omega)).1
    rw [r.videoSignals_eq, show r.t + (j + 2) + d = r.t + 2 + (j + d) by omega,
      hbehind.voutDen] at hden
    exact decide_eq_decide.mp hden
  have hsync : ∀ j ≥ T, defaultMode.inHSync (j + d) ↔ defaultMode.inHSync j := by
    intro j hj
    have hc := (hcommon (r.t + j) (by omega)).2
    rw [r.videoSignals_eq, Nat.add_assoc, hbehind.c1c0] at hc
    exact raster_hSync hc
  -- an event that comes once per line fixes the delay up to whole lines: one event of each signal
  have hdata : d ≡ 2 [MOD defaultMode.hTotal] :=
    modEq_of_event (fun n hn => x_of_active_fall hn.1 hn.2) (exists_active_fall defaultMode)
      fun j hj hfall => ⟨(hactive j hj).mpr hfall.1, fun hact => hfall.2 <| by
        rw [Nat.add_right_comm] at hact ⊢
        exact (hactive (j + 1) (by omega)).mp hact⟩
  have hsyncs : d ≡ 0 [MOD defaultMode.hTotal] :=
    modEq_of_event (fun n hn => x_of_hSync_start hn.1 hn.2) (exists_hSync_start defaultMode)
      fun j hj hstart => ⟨fun hin => hstart.1 ((hsync j hj).mp hin), by
        rw [Nat.add_right_comm]
        exact (hsync (j + 1) (by omega)).mpr hstart.2⟩
  exact absurd (hdata.symm.trans hsyncs) (by decide)

end PixelRun

/-- **The syncs run ahead of the data on the wire.**  In no run of the pixel domain do the
encoders see the data enable and the control pair of the generator with one delay; on every line of
the transmitted stream the front porch has 14 symbols and the back porch 50, and not the 16 and 48
of the generator. -/
theorem wire_porches (top : Mode) (r : PixelRun top) (qr qg qb : BitVec 10) :
    (¬∃ d T, r.CommonDelay d T) ∧
      (¬∃ T, FrontPorches (r.sent qr qg qb) (videoTimingGenerics top).hFrontPorch T) ∧
      (¬∃ T, BackPorches (r.sent qr qg qb) (videoTimingGenerics top).hBackPorch T) ∧
      FrontPorches (r.sent qr qg qb) 14 (r.t + 2) ∧
      BackPorches (r.sent qr qg qb) 50 (r.t + 2) := by
  have hskew : Skewed defaultMode (r.t + 2) (r.sent qr qg qb) := r.twoBehind.skewed qr qg qb
  have hfront := hskew.frontPorches (k := 14) rfl
  have hback := hskew.backPorches (k := 50) (by decide) rfl
  refine ⟨?_, ?_, ?_, hfront, hback⟩
  · rintro ⟨d, T, hcommon⟩
    exact r.not_commonDelay d T hcommon
  · rintro ⟨T, hgen⟩
    obtain ⟨a, ha, hT, hdata, hnodata⟩ := hskew.exists_data_end T
    exact absurd ((hgen a hT hdata hnodata).unique (hfront a ha hdata hnodata))
      (show (defaultMode.hFrontPorch : ℕ) ≠ 14 by decide)
  · rintro ⟨T, hgen⟩
    obtain ⟨a, ha, hT, hnodata, hdata⟩ := hskew.exists_data_start T
    obtain ⟨b, hb, hporch⟩ := hgen a hT hnodata hdata
    obtain ⟨b', hb', hporch'⟩ := hback a ha hnodata hdata
    exact absurd (hporch.unique hporch' (hb.trans hb'.symm))
      (show (defaultMode.hBackPorch : ℕ) ≠ 50 by decide)

/-- A signal two clocks later, low at first. -/
def twoLater (a : ℕ → Bool) : ℕ → Bool
  | 0 => false
  | 1 => false
  | n + 2 => a n

/-- The run with the default generics that starts at power-up, with white pixels. -/
def powerUpRun : PixelRun defaultMode where
  reset _ := false
  voutDen := twoLater fun n => (videoSignals defaultMode (fun _ => false) n).c1c0.getLsbD 1 &&
    (videoSignals defaultMode (fun _ => false) n).de
  voutData _ := 0xFFFF#16
  t := 0
  runs _ := ⟨Or.inl rfl, fun _ _ _ => rfl⟩
  voutDen_add_two _ _ := rfl

/-- In the run from power-up there is no common delay, and the last data symbol of the first line is
followed by 14 control symbols before the sync, and not by 16. -/
theorem wire_porches_powerUp :
    (¬∃ d T, powerUpRun.CommonDelay d T) ∧
      FrontPorch (powerUpRun.sent 0#10 0#10 0#10) 14 (0 + 2 + 639) ∧
      ¬FrontPorch (powerUpRun.sent 0#10 0#10 0#10) defaultMode.hFrontPorch (0 + 2 + 639) := by
  have hskew : Skewed defaultMode (0 + 2) (powerUpRun.sent 0#10 0#10 0#10) :=
    powerUpRun.twoBehind.skewed 0#10 0#10 0#10
  have hdata : (powerUpRun.sent 0#10 0#10 0#10 (0 + 2 + 639)).isData = true :=
    (hskew.isData_iff 639).mpr (by decide)
  have hnodata : (powerUpRun.sent 0#10 0#10 0#10 (0 + 2 + 639 + 1)).isData = false := by
    rw [Nat.add_assoc, ← Bool.not_eq_true, hskew.isData_iff]
    decide
  have hporch := hskew.frontPorches (k := 14) rfl _ (Nat.le_add_right _ _) hdata hnodata
  refine ⟨?_, hporch, ?_⟩
  · rintro ⟨d, T, hcommon⟩
    exact powerUpRun.not_commonDelay d T hcommon
  · intro hgen
    exact absurd (hgen.unique hporch) (by decide)

end HdmiDisplay.Top
