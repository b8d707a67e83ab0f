/-
# Framing by the frame sync

The low cycles of `mcu_vs_n` are the frame writes of the processor, one cycle later: each transfer,
however long the slave makes it wait, is one low run, and two transfers are kept apart by the setup
cycle of the second.  Pixels therefore stay on their side of every frame sync.
-/
import HdmiDisplay.Apb.Slave

namespace HdmiDisplay.Apb

open ApbProtocol SignalRuns

namespace Run

variable (r : Run)

/-- The transfers that write to a non-zero address, with the interval of their access cycles. -/
def frameTransfers : Set (ℕ × ℕ∞) := {t | Transfer r.bus r.ready t.1 t.2 ∧ FrameWrite (r.bus t.1)}

/-- The maximal low runs of `mcu_vs_n`. -/
def lowRuns : Set (ℕ × ℕ∞) := {l | IsRun (fun n => (r.regs n).mcuVsN = false) l.1 l.2}

/-- The frame to which the transfer in cycle `n` belongs: how many frame transfers have had their
setup cycle before. -/
def frameOfTransfer (n : ℕ) : ℕ :=
  Nat.count (fun i => (r.bus i).Setup ∧ FrameWrite (r.bus (i + 1))) n

/-- The frame to which the pixel port belongs in cycle `n`: how often `mcu_vs_n` has fallen. -/
def frameOfPixel (n : ℕ) : ℕ :=
  Nat.count (fun i => (r.regs i).mcuVsN = true ∧ (r.regs (i + 1)).mcuVsN = false) n

lemma frameTransfers_eq :
    r.frameTransfers = {t | IsRun (fun n => FrameWrite (r.bus n)) t.1 t.2} :=
  Set.ext fun _ => transfer_iff_isRun r.bus_compliant kind_frameWrite

lemma bijOn_lowRuns : Set.BijOn later r.frameTransfers r.lowRuns := by
  rw [frameTransfers_eq]
  refine bijOn_later (fun n => r.mcuVsN_succ n) ?_
  rw [mcuVsN_zero]
  rintro ⟨⟩

/-- The frame sync falls one cycle after the setup cycle of a frame transfer. -/
lemma mcuVsN_falls_iff (n : ℕ) :
    (r.regs (n + 1)).mcuVsN = true ∧ (r.regs (n + 1 + 1)).mcuVsN = false ↔
      (r.bus n).Setup ∧ FrameWrite (r.bus (n + 1)) := by
  rw [mcuVsN_succ, ← Bool.not_eq_false, mcuVsN_succ]
  constructor
  · rintro ⟨hbefore, hframe⟩
    refine ⟨?_, hframe⟩
    rcases r.bus_compliant.access_succ n hframe.1 with hsetup | ⟨haccess, -⟩
    · exact hsetup
    · -- the cycle before would belong to the same transfer
      have hsame := r.bus_compliant.same n hframe.1
      refine absurd ⟨haccess, ?_, ?_⟩ hbefore
      · exact hsame.pwrite.trans hframe.2.1
      · rw [hsame.paddr]
        exact hframe.2.2
  · rintro ⟨hsetup, hframe⟩
    exact ⟨fun hbefore => hsetup.not_access hbefore.1, hframe⟩

/-- The pixel port is in the frame of the access cycle before. -/
lemma frameOfPixel_succ (n : ℕ) : r.frameOfPixel (n + 1) = r.frameOfTransfer n := by
  have hzero : ¬((r.regs 0).mcuVsN = true ∧ (r.regs (0 + 1)).mcuVsN = false) := by
    rintro ⟨-, hlow⟩
    exact r.bus_compliant.access_zero ((r.mcuVsN_succ 0).mp hlow).1
  rw [frameOfPixel, frameOfTransfer, Nat.count_succ', if_neg hzero, Nat.add_zero]
  congr 1
  funext i
  exact propext (r.mcuVsN_falls_iff i)

/-- A pixel is the conversion of the write in the cycle before. -/
lemma pixel_of_mcuDe {n : ℕ} (h : (r.regs n).mcuDe = true) : ∃ k, n = k + 1 ∧
    PixelWrite (r.bus k) ∧ (r.regs n).mcuVinData = rgb565 (r.bus k).pwdata := by
  cases n with
  | zero => exact absurd h (r.mcuDe_zero ▸ Bool.false_ne_true)
  | succ k =>
    have hpixel := (r.mcuDe_succ k).mp h
    exact ⟨k, rfl, hpixel, r.mcuVinData_succ k hpixel⟩

/-- The pixel enable is low during the frame sync. -/
lemma mcuDe_of_mcuVsN {n : ℕ} (h : (r.regs n).mcuVsN = false) : (r.regs n).mcuDe = false := by
  by_contra hde
  obtain ⟨k, rfl, hpixel, -⟩ := r.pixel_of_mcuDe (Bool.eq_true_of_not_eq_false hde)
  exact hpixel.not_frameWrite ((r.mcuVsN_succ k).mp h)

end Run

/-- **Frame-sync framing.**  In every run with a compliant master and every behaviour of the frame
buffer, the maximal low runs of `mcu_vs_n` are the transfers that write to a non-zero address, one
cycle later, in the same order and with a gap between any two; `mcu_de` is low during the sync; and
every cycle with `mcu_de` high carries the conversion of the write to address `0` in the cycle
before, in the frame of that write. -/
theorem frame_sync_framing (r : Run) :
    Set.BijOn later r.frameTransfers r.lowRuns ∧
      (∀ t ∈ r.frameTransfers, ∀ t' ∈ r.frameTransfers, t.1 < t'.1 →
        (later t).2 < (later t').1) ∧
      (∀ n, (r.regs n).mcuVsN = false → (r.regs n).mcuDe = false) ∧
      (∀ n, (r.regs n).mcuDe = true → ∃ k, n = k + 1 ∧ PixelWrite (r.bus k) ∧
        (r.regs n).mcuVinData = rgb565 (r.bus k).pwdata ∧
        r.frameOfPixel n = r.frameOfTransfer k) := by
  refine ⟨r.bijOn_lowRuns, ?_, fun n => r.mcuDe_of_mcuVsN, ?_⟩
  · intro t ht t' ht' hlt
    have hrun := r.bijOn_lowRuns.mapsTo ht
    have hrun' := r.bijOn_lowRuns.mapsTo ht'
    exact IsRun.lt_of_lt hrun hrun' (Nat.succ_lt_succ hlt)
  · intro n hde
    obtain ⟨k, rfl, hpixel, hdata⟩ := r.pixel_of_mcuDe hde
    exact ⟨k, rfl, hpixel, hdata, r.frameOfPixel_succ k⟩

/-! ### Two frame writes and a pixel -/

/-- The signals of a write of the colour `F8FCF8`. -/
def writeRequest (psel penable : Bool) (paddr : BitVec 8) : Signals (BitVec 8) (BitVec 32) :=
  ⟨psel, penable, true, paddr, 0x00F8FCF8#32⟩

/-- Two frame writes, the first of which waits for a cycle, and a pixel write, without pause. -/
def syncInput : ℕ → Input
  | 0 => ⟨writeRequest true false 4, true, true⟩
  | 1 => ⟨writeRequest true true 4, true, false⟩
  | 2 => ⟨writeRequest true true 4, true, false⟩
  | 3 => ⟨writeRequest true false 4, true, false⟩
  | 4 => ⟨writeRequest true true 4, true, false⟩
  | 5 => ⟨writeRequest true false 0, true, false⟩
  | 6 => ⟨writeRequest true true 0, true, false⟩
  | _ + 7 => ⟨writeRequest false false 0, true, false⟩

lemma not_access_syncInput (n : ℕ) : ¬(syncInput (n + 7)).Access :=
  fun h => Bool.false_ne_true h.1

/-- The run with these inputs. -/
def syncRun : Run where
  x := syncInput
  masterPrst n := by rcases n with _ | _ | _ | _ | _ | _ | _ | n <;> rfl
  compliant := by
    have hfirst : ∀ n < 6, (syncInput (n + 1)).Access →
        ((syncInput n).Setup ∨ (syncInput n).Access ∧
          (released.state syncInput n).masterPready1 = false) ∧
        (syncInput n).pwrite = (syncInput (n + 1)).pwrite ∧
        (syncInput n).paddr = (syncInput (n + 1)).paddr ∧
        (syncInput n).pwdata = (syncInput (n + 1)).pwdata := by decide
    have hwait : ∀ n < 7, (syncInput n).Access →
        (released.state syncInput n).masterPready1 = false → (syncInput (n + 1)).Access := by
      decide
    have hsmall : ∀ n, (syncInput n).Access → n < 7 := by
      intro n haccess
      by_contra hge
      obtain ⟨k, rfl⟩ := Nat.exists_eq_add_of_le' (Nat.not_lt.mp hge)
      exact not_access_syncInput k haccess
    refine ⟨by decide, ?_, ?_, ?_⟩
    · intro n haccess
      exact (hfirst n (Nat.lt_of_succ_lt_succ (hsmall _ haccess)) haccess).1
    · intro n haccess
      obtain ⟨-, hpwrite, hpaddr, hpwdata⟩ :=
        hfirst n (Nat.lt_of_succ_lt_succ (hsmall _ haccess)) haccess
      exact ⟨hpwrite, hpaddr, hpwdata⟩
    · intro n haccess hready
      exact hwait n (hsmall n haccess) haccess hready

lemma frameTransfers_syncRun :
    (1, 3) ∈ syncRun.frameTransfers ∧ (4, 5) ∈ syncRun.frameTransfers := by
  have hwrite : ∀ n < 7, FrameWrite (syncRun.bus n) ↔ n = 1 ∨ n = 2 ∨ n = 4 := by decide
  -- the access cycles between two cycles that are none
  have hrun : ∀ a b : ℕ, a < b → b < 7 → (∀ n, a ≤ n → n < b → n = 1 ∨ n = 2 ∨ n = 4) →
      (∀ k, a = k + 1 → ¬(k = 1 ∨ k = 2 ∨ k = 4)) → ¬(b = 1 ∨ b = 2 ∨ b = 4) →
      (a, (b : ℕ∞)) ∈ syncRun.frameTransfers := by
    intro a b hab hb hmem hleft hright
    rw [Run.frameTransfers_eq]
    refine IsRun.of_lt hab ?_ ?_ ?_
    · intro n ha hn
      exact (hwrite n (by omega)).mpr (hmem n ha hn)
    · intro k hk
      exact (hwrite k (by omega)).not.mpr (hleft k hk)
    · exact (hwrite b hb).not.mpr hright
  exact ⟨hrun 1 3 (by omega) (by omega) (by omega) (by omega) (by omega),
    hrun 4 5 (by omega) (by omega) (by omega) (by omega) (by omega)⟩

/-- The frame write that waits is one low run, the next one is another, and the pixel belongs to the
second frame. -/
theorem frame_sync_framing_syncRun :
    later (1, 3) ∈ syncRun.lowRuns ∧ later (4, 5) ∈ syncRun.lowRuns ∧
      (later (1, 3)).2 < (later (4, 5)).1 ∧ (syncRun.regs 7).mcuDe = true ∧
      (syncRun.regs 7).mcuVinData = 0xFFFF#16 ∧ syncRun.frameOfPixel 7 = 2 := by
  obtain ⟨hbij, hgap, -, hpixel⟩ := frame_sync_framing syncRun
  obtain ⟨hfirst, hsecond⟩ := frameTransfers_syncRun
  have hde : (syncRun.regs 7).mcuDe = true := by decide
  obtain ⟨k, hk, -, hdata, hframe⟩ := hpixel 7 hde
  obtain rfl : k = 6 := by omega
  have hcount : syncRun.frameOfTransfer 6 = 2 := by decide
  exact ⟨hbij.mapsTo hfirst, hbij.mapsTo hsecond, hgap _ hfirst _ hsecond (by decide), hde,
    hdata.trans (by decide), hframe.trans hcount⟩

end HdmiDisplay.Apb
