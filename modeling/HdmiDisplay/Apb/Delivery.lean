/-
# Delivery of the pixels

What the frame buffer takes over from the slave, compared with the transfers that the processor
completes.  The slave presents a pixel after every access cycle of a write to address `0`, wait
states included, and the frame buffer takes a presented pixel exactly when it is not full one cycle
later; the answer to the master looks at the fill flag one cycle earlier.  So a pixel write is
delivered as often as the buffer is not full in the cycles `t₀ + 2, …, t₁ + 2`, where `t₀, …, t₁`
are its access cycles.
-/
import HdmiDisplay.Apb.Slave

namespace HdmiDisplay.Apb

open ApbProtocol SignalRuns

namespace Run

variable (r : Run)

/-- The number of the transfer in cycle `n`: how many have been completed before. -/
def transferNo (n : ℕ) : ℕ := Nat.count (fun i => (r.bus i).Access ∧ r.ready i = true) n

/-- The frame buffer writes the pixel presented in cycle `n` to its FIFO in the next cycle. -/
def Accepts (n : ℕ) : Prop :=
  (r.regs n).mcuDe = true ∧ (r.regs n).mcuVsN = true ∧ (r.x (n + 1)).debugFifoFull = false

instance (n : ℕ) : Decidable (r.Accepts n) := inferInstanceAs (Decidable (_ ∧ _))

/-- The pixels accepted by the frame buffer among those presented up to cycle `n`, each with the
number of the transfer it was captured from. -/
def accepted : ℕ → List (ℕ × BitVec 16)
  | 0 => []
  | n + 1 => accepted n ++
      if r.Accepts (n + 1) then [(r.transferNo n, (r.regs (n + 1)).mcuVinData)] else []

/-- The write transfers to address `0` completed before cycle `n`, as numbered pixels. -/
def completed : ℕ → List (ℕ × BitVec 16)
  | 0 => []
  | n + 1 => completed n ++
      if PixelWrite (r.bus n) ∧ r.ready n = true
      then [(r.transferNo n, rgb565 (r.bus n).pwdata)] else []

/-- Whenever no pixel write is under way, the accepted pixels are the completed pixel writes, in
order, without loss and without duplication. -/
def ExactlyOnce : Prop := ∀ n, ¬PixelWrite (r.bus n) → r.accepted n = r.completed n

/-- In how many of the `n` cycles from `a + 2` on the frame buffer is not full. -/
def freeCycles (a n : ℕ) : ℕ := Nat.count (fun i => (r.x (a + 2 + i)).debugFifoFull = false) n

lemma accepts_succ_iff (n : ℕ) :
    r.Accepts (n + 1) ↔ PixelWrite (r.bus n) ∧ (r.x (n + 2)).debugFifoFull = false := by
  rw [Accepts, mcuDe_succ, ← Bool.not_eq_false, mcuVsN_succ]
  constructor
  · rintro ⟨hpixel, -, hfree⟩
    exact ⟨hpixel, hfree⟩
  · rintro ⟨hpixel, hfree⟩
    exact ⟨hpixel, hpixel.not_frameWrite, hfree⟩

lemma accepted_succ_of_pixel {n : ℕ} (h : PixelWrite (r.bus n)) :
    r.accepted (n + 1) = r.accepted n ++
      if (r.x (n + 2)).debugFifoFull = false then [(r.transferNo n, rgb565 (r.bus n).pwdata)]
      else [] := by
  rw [accepted, r.mcuVinData_succ n h]
  simp only [accepts_succ_iff, h, true_and]

lemma accepted_succ_of_not_pixel {n : ℕ} (h : ¬PixelWrite (r.bus n)) :
    r.accepted (n + 1) = r.accepted n := by
  rw [accepted, if_neg (fun hacc => h ((r.accepts_succ_iff n).mp hacc).1), List.append_nil]

lemma completed_succ_of_not_pixel {n : ℕ} (h : ¬PixelWrite (r.bus n)) :
    r.completed (n + 1) = r.completed n := by
  rw [completed, if_neg (fun hdone => h hdone.1), List.append_nil]

lemma completed_succ_of_wait {n : ℕ} (h : r.ready n = false) :
    r.completed (n + 1) = r.completed n := by
  rw [completed, if_neg, List.append_nil]
  rintro ⟨-, hready⟩
  exact absurd hready (h ▸ Bool.false_ne_true)

/-! ### One pixel write -/

section PixelRun

variable {r} {a : ℕ} {b : ℕ∞} (h : IsRun (fun n => PixelWrite (r.bus n)) a b)
include h

lemma pixelTransfer : Transfer r.bus r.ready a b :=
  transfer_of_isRun r.bus_compliant kind_pixelWrite h

/-- A pixel write keeps its number while it waits. -/
lemma transferNo_add {j : ℕ} (hj : ((a + j : ℕ) : ℕ∞) < b) :
    r.transferNo (a + j) = r.transferNo a := by
  induction j with
  | zero => rfl
  | succ j ih =>
    have hwait := (pixelTransfer h).wait (a + j) (Nat.le_add_right a j) hj
    have hcount : r.transferNo (a + j + 1) = r.transferNo (a + j) := by
      rw [transferNo, Nat.count_succ, if_neg, Nat.add_zero, transferNo]
      rintro ⟨-, hready⟩
      exact absurd hready (hwait ▸ Bool.false_ne_true)
    exact hcount.trans (ih (lt_trans (Nat.cast_lt.mpr (Nat.lt_succ_self _)) hj))

/-- The pixel of a write is accepted once for every free cycle. -/
lemma accepted_add {j : ℕ} (hj : ((a + j : ℕ) : ℕ∞) ≤ b) :
    r.accepted (a + j) = r.accepted a ++
      List.replicate (r.freeCycles a j) (r.transferNo a, rgb565 (r.bus a).pwdata) := by
  induction j with
  | zero => rw [freeCycles, Nat.count_zero, List.replicate_zero, List.append_nil, Nat.add_zero]
  | succ j ih =>
    have hlt : ((a + j : ℕ) : ℕ∞) < b :=
      lt_of_lt_of_le (Nat.cast_lt.mpr (Nat.lt_succ_self _)) hj
    have hpixel : PixelWrite (r.bus (a + j)) := h.mem _ (Nat.le_add_right a j) hlt
    have hdata := ((pixelTransfer h).same r.bus_compliant (Nat.le_add_right a j) hlt).pwdata
    have hcycle : a + j + 2 = a + 2 + j := Nat.add_right_comm a j 2
    rw [← Nat.add_assoc, r.accepted_succ_of_pixel hpixel, ih hlt.le, List.append_assoc,
      transferNo_add h hlt, ← hdata, hcycle, freeCycles, freeCycles, Nat.count_succ]
    -- the fill flag of the second cycle after decides whether the pixel is taken
    by_cases hfree : (r.x (a + 2 + j)).debugFifoFull = false
    · rw [if_pos hfree, if_pos hfree, List.replicate_succ']
    · rw [if_neg hfree, if_neg hfree, List.append_nil]
      rfl

/-- Nothing is completed while a write waits. -/
lemma completed_add {j : ℕ} (hj : ((a + j : ℕ) : ℕ∞) < b) :
    r.completed (a + j) = r.completed a := by
  induction j with
  | zero => rfl
  | succ j ih =>
    have hwait := (pixelTransfer h).wait (a + j) (Nat.le_add_right a j) hj
    rw [← Nat.add_assoc, r.completed_succ_of_wait hwait]
    exact ih (lt_trans (Nat.cast_lt.mpr (Nat.lt_succ_self _)) hj)

end PixelRun

variable {r} {a b : ℕ}

/-- A completed pixel write completes one pixel. -/
lemma completed_end (h : IsRun (fun n => PixelWrite (r.bus n)) a b) :
    r.completed b = r.completed a ++ [(r.transferNo a, rgb565 (r.bus a).pwdata)] := by
  obtain ⟨j, rfl⟩ := Nat.exists_eq_add_of_lt (Nat.cast_lt.mp h.nonempty)
  have hlt : ((a + j : ℕ) : ℕ∞) < (a + j + 1 : ℕ) := Nat.cast_lt.mpr (Nat.lt_succ_self _)
  have hpixel : PixelWrite (r.bus (a + j)) := h.mem _ (Nat.le_add_right a j) hlt
  have hready : r.ready (a + j) = true := (pixelTransfer h).done (a + j) rfl
  have hdata := ((pixelTransfer h).same r.bus_compliant (Nat.le_add_right a j) hlt).pwdata
  rw [completed, if_pos ⟨hpixel, hready⟩, completed_add h hlt, transferNo_add h hlt, ← hdata]

/-- Over a pixel write, delivery stays exact if and only if one of its cycles is free. -/
lemma delivery_step (h : IsRun (fun n => PixelWrite (r.bus n)) a b)
    (hstart : r.accepted a = r.completed a) :
    r.accepted b = r.completed b ↔ r.freeCycles a (b - a) = 1 := by
  have hle : a ≤ b := (Nat.cast_lt.mp h.nonempty).le
  have hacc := accepted_add h (j := b - a) (Nat.cast_le.mpr (Nat.add_sub_of_le hle).le)
  rw [Nat.add_sub_of_le hle] at hacc
  rw [hacc, completed_end h, hstart, List.append_right_inj]
  constructor
  · intro hrep
    have hlen := congrArg List.length hrep
    rwa [List.length_replicate] at hlen
  · intro hone
    rw [hone, List.replicate_one]

/-- Before a pixel write there is a setup cycle, in which nothing is presented or completed. -/
lemma pixelRun_start (h : IsRun (fun n => PixelWrite (r.bus n)) a b) :
    ∃ k, a = k + 1 ∧ ¬PixelWrite (r.bus k) ∧ r.accepted a = r.accepted k ∧
      r.completed a = r.completed k := by
  obtain ⟨k, rfl, hsetup⟩ := (pixelTransfer h).setup
  have hnot : ¬PixelWrite (r.bus k) := fun hpixel => hsetup.not_access hpixel.1
  exact ⟨k, rfl, hnot, r.accepted_succ_of_not_pixel hnot, r.completed_succ_of_not_pixel hnot⟩

end Run

/-- **Delivery of the pixels.**  In a run with a compliant master the accepted pixels are the
completed pixel writes, each exactly once and in order, if and only if for every pixel write with
access cycles `a, …, b - 1` the frame buffer is not full in exactly one of `a + 2, …, b + 1`. -/
theorem exactlyOnce_iff (r : Run) :
    r.ExactlyOnce ↔ ∀ a b : ℕ, IsRun (fun n => PixelWrite (r.bus n)) a b →
      r.freeCycles a (b - a) = 1 := by
  constructor
  · intro honce a b hrun
    -- exactly once up to the setup cycle and up to the end, so the write itself is taken once
    obtain ⟨k, -, hnot, hacc, hcomp⟩ := Run.pixelRun_start hrun
    refine (Run.delivery_step hrun ?_).mp (honce b (hrun.right b rfl))
    rw [hacc, hcomp]
    exact honce k hnot
  · intro hfree n
    induction n using Nat.strong_induction_on with
    | _ n ih =>
      intro hnot
      cases n with
      | zero => rfl
      | succ n =>
        by_cases hpixel : PixelWrite (r.bus n)
        · -- the cycle ends a pixel write: go back to its setup cycle
          obtain ⟨a, ha, hrun⟩ := exists_run_to (p := fun n => PixelWrite (r.bus n)) hpixel hnot
          obtain ⟨k, rfl, hstart, hacc, hcomp⟩ := Run.pixelRun_start hrun
          refine (Run.delivery_step hrun ?_).mpr (hfree _ _ hrun)
          rw [hacc, hcomp]
          exact ih k (lt_trans ha n.lt_succ_self) hstart
        · rw [r.accepted_succ_of_not_pixel hpixel, r.completed_succ_of_not_pixel hpixel]
          exact ih n n.lt_succ_self hpixel

/-! ### A write with a wait state -/

/-- The signals of a write to address `0`. -/
def pixelRequest (psel penable : Bool) : Signals (BitVec 8) (BitVec 32) :=
  ⟨psel, penable, true, 0, 0x00F8FCF8#32⟩

/-- One pixel write; the frame buffer is full during its setup cycle and free afterwards. -/
def waitInput : ℕ → Input
  | 0 => ⟨pixelRequest true false, true, true⟩
  | 1 => ⟨pixelRequest true true, true, false⟩
  | 2 => ⟨pixelRequest true true, true, false⟩
  | _ + 3 => ⟨pixelRequest false false, true, false⟩

/-- The run with these inputs: the master waits once, as the slave asks it to. -/
def waitRun : Run where
  x := waitInput
  masterPrst n := by rcases n with _ | _ | _ | n <;> rfl
  compliant := by
    refine ⟨by decide, ?_, ?_, ?_⟩
    · intro n haccess
      rcases n with _ | _ | n
      · exact Or.inl (by decide)
      · exact Or.inr (by decide)
      · exact absurd haccess.1 Bool.false_ne_true
    · intro n haccess
      rcases n with _ | _ | n
      · exact ⟨rfl, rfl, rfl⟩
      · exact ⟨rfl, rfl, rfl⟩
      · exact absurd haccess.1 Bool.false_ne_true
    · intro n haccess hwait
      rcases n with _ | _ | _ | n
      · exact absurd haccess (by decide)
      · decide
      · exact absurd hwait (by decide)
      · exact absurd haccess.1 Bool.false_ne_true

/-- The pixel of a write with one wait state is delivered twice. -/
theorem exactlyOnce_waitRun : ¬waitRun.ExactlyOnce ∧
    (waitRun.accepted 3).map Prod.snd = [0xFFFF#16, 0xFFFF#16] ∧
    (waitRun.completed 3).map Prod.snd = [0xFFFF#16] := by
  refine ⟨?_, by decide, by decide⟩
  intro honce
  exact absurd (honce 3 (by decide)) (by decide)

end HdmiDisplay.Apb
