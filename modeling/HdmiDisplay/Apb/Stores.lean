/-
# Stores as frames

What the frame buffer sees at its input port of a whole sequence of writes: each write to a
non-zero address is a new frame and each write to address `0` a pixel, in the order of the writes,
as long as each pixel is taken once.
-/
import HdmiDisplay.Apb.Framing
import HdmiDisplay.Apb.Delivery

namespace HdmiDisplay.Apb

open ApbProtocol Clocked SignalRuns

/-- What happens at the input port of the frame buffer. -/
inductive PortEvent where
  | frame
  | pixel (data : BitVec 16)
deriving DecidableEq, Repr

/-- What a write is for the frame buffer. -/
def portEvent (write : BitVec 8 × BitVec 32) : PortEvent :=
  if write.1 = 0 then .pixel (rgb565 write.2) else .frame

namespace Run

variable (r : Run)

/-- The write transfers that are completed before cycle `n`. -/
def writes : ℕ → List (BitVec 8 × BitVec 32)
  | 0 => []
  | n + 1 => writes n ++
      if (r.bus n).Access ∧ (r.bus n).pwrite = true ∧ r.ready n = true
      then [((r.bus n).paddr, (r.bus n).pwdata)] else []

/-- The falling edges of the frame sync and the accepted pixels up to cycle `n`. -/
def events : ℕ → List PortEvent
  | 0 => []
  | n + 1 => events n ++
      (if (r.regs n).mcuVsN = true ∧ (r.regs (n + 1)).mcuVsN = false then [.frame] else []) ++
      if r.Accepts (n + 1) then [.pixel (r.regs (n + 1)).mcuVinData] else []

/-- No write is under way. -/
def Quiet (n : ℕ) : Prop := ¬PixelWrite (r.bus n) ∧ ¬FrameWrite (r.bus n)

variable {r} {n a b : ℕ}

lemma events_succ_of_pixel (h : PixelWrite (r.bus n)) : r.events (n + 1) = r.events n ++
    if (r.x (n + 2)).debugFifoFull = false then [.pixel (rgb565 (r.bus n).pwdata)] else [] := by
  rw [events, if_neg, List.append_nil, r.mcuVinData_succ n h]
  · simp only [accepts_succ_iff, h, true_and]
  · rintro ⟨-, hlow⟩
    exact h.not_frameWrite ((r.mcuVsN_succ n).mp hlow)

lemma events_succ_of_not_pixel (h : ¬PixelWrite (r.bus n)) : r.events (n + 1) = r.events n ++
    if (r.regs n).mcuVsN = true ∧ (r.regs (n + 1)).mcuVsN = false then [.frame] else [] := by
  have hnot : ¬r.Accepts (n + 1) := fun haccepts => h ((r.accepts_succ_iff n).mp haccepts).1
  rw [events, if_neg hnot, List.append_nil]

lemma events_succ_of_quiet (h : r.Quiet n) : r.events (n + 1) = r.events n := by
  rw [events_succ_of_not_pixel h.1, if_neg, List.append_nil]
  rintro ⟨-, hlow⟩
  exact h.2 ((r.mcuVsN_succ n).mp hlow)

lemma writes_succ_of_quiet (h : r.Quiet n) : r.writes (n + 1) = r.writes n := by
  rw [writes, if_neg, List.append_nil]
  rintro ⟨haccess, hwrite, -⟩
  by_cases haddr : (r.bus n).paddr = 0
  · exact h.1 ⟨haccess, hwrite, haddr⟩
  · exact h.2 ⟨haccess, hwrite, haddr⟩

/-- Before a write there is a setup cycle. -/
lemma quiet_of_setup (h : (r.bus n).Setup) : r.Quiet n :=
  ⟨fun hpixel => h.not_access hpixel.1, fun hframe => h.not_access hframe.1⟩

/-- A completed transfer that writes is one write. -/
lemma writes_end (h : Transfer r.bus r.ready a b) (hwrite : (r.bus a).pwrite = true) :
    r.writes b = r.writes a ++ [((r.bus a).paddr, (r.bus a).pwdata)] := by
  have hwait : ∀ j, ((a + j : ℕ) : ℕ∞) < b → r.writes (a + j) = r.writes a := by
    intro j hj
    induction j with
    | zero => rfl
    | succ j ih =>
      have hready := h.wait (a + j) (Nat.le_add_right a j) hj
      rw [← Nat.add_assoc, writes, if_neg, List.append_nil]
      · exact ih (lt_trans (Nat.cast_lt.mpr (Nat.lt_succ_self _)) hj)
      · rintro ⟨-, -, hdone⟩
        exact absurd hdone (hready ▸ Bool.false_ne_true)
  obtain ⟨j, rfl⟩ := Nat.exists_eq_add_of_lt (Nat.cast_lt.mp h.nonempty)
  have hlt : ((a + j : ℕ) : ℕ∞) < (a + j + 1 : ℕ) := Nat.cast_lt.mpr (Nat.lt_succ_self _)
  have hsame := h.same r.bus_compliant (Nat.le_add_right a j) hlt
  have haccess := h.access (a + j) (Nat.le_add_right a j) hlt
  have hlast : (r.bus (a + j)).Access ∧ (r.bus (a + j)).pwrite = true ∧ r.ready (a + j) = true :=
    ⟨haccess, hsame.pwrite ▸ hwrite, h.done (a + j) rfl⟩
  rw [writes, if_pos hlast, hwait j hlt, ← hsame.paddr, ← hsame.pwdata]

/-- A pixel write is a pixel for every free cycle. -/
lemma events_pixelRun (h : IsRun (fun n => PixelWrite (r.bus n)) a b) :
    r.events b = r.events a ++
      List.replicate (r.freeCycles a (b - a)) (.pixel (rgb565 (r.bus a).pwdata)) := by
  have hadd : ∀ j, ((a + j : ℕ) : ℕ∞) ≤ b → r.events (a + j) = r.events a ++
      List.replicate (r.freeCycles a j) (.pixel (rgb565 (r.bus a).pwdata)) := by
    intro j hj
    induction j with
    | zero => rw [freeCycles, Nat.count_zero, List.replicate_zero, List.append_nil, Nat.add_zero]
    | succ j ih =>
      have hlt : ((a + j : ℕ) : ℕ∞) < b :=
        lt_of_lt_of_le (Nat.cast_lt.mpr (Nat.lt_succ_self _)) hj
      have hpixel : PixelWrite (r.bus (a + j)) := h.mem _ (Nat.le_add_right a j) hlt
      have hdata := ((pixelTransfer h).same r.bus_compliant (Nat.le_add_right a j) hlt).pwdata
      have hcycle : a + j + 2 = a + 2 + j := Nat.add_right_comm a j 2
      rw [← Nat.add_assoc, events_succ_of_pixel hpixel, ih hlt.le, List.append_assoc, ← hdata,
        hcycle, freeCycles, freeCycles, Nat.count_succ]
      by_cases hfree : (r.x (a + 2 + j)).debugFifoFull = false
      · rw [if_pos hfree, if_pos hfree, List.replicate_succ']
      · rw [if_neg hfree, if_neg hfree, List.append_nil]
        rfl
  have hle : a ≤ b := (Nat.cast_lt.mp h.nonempty).le
  have hend := hadd (b - a) (Nat.cast_le.mpr (Nat.add_sub_of_le hle).le)
  rwa [Nat.add_sub_of_le hle] at hend

/-- A frame write is one frame, however long it waits. -/
lemma events_frameRun (h : IsRun (fun n => FrameWrite (r.bus n)) a b) :
    r.events b = r.events a ++ [.frame] := by
  have htransfer := transfer_of_isRun r.bus_compliant kind_frameWrite h
  have hframe : ∀ j, ((a + j : ℕ) : ℕ∞) < b → FrameWrite (r.bus (a + j)) := fun j hj =>
    h.mem _ (Nat.le_add_right a j) hj
  have hnot : ∀ j, ((a + j : ℕ) : ℕ∞) < b → ¬PixelWrite (r.bus (a + j)) := fun j hj hpixel =>
    hpixel.not_frameWrite (hframe j hj)
  obtain ⟨k, rfl, hsetup⟩ := htransfer.setup
  have hadd : ∀ j, ((k + 1 + j : ℕ) : ℕ∞) < b →
      r.events (k + 1 + j + 1) = r.events (k + 1) ++ [.frame] := by
    intro j hj
    induction j with
    | zero =>
      have hfalls := (r.mcuVsN_falls_iff k).mpr ⟨hsetup, hframe 0 hj⟩
      rw [Nat.add_zero, events_succ_of_not_pixel (hnot 0 hj), if_pos hfalls]
    | succ j ih =>
      -- the sync is low already
      have hlt := lt_trans (Nat.cast_lt.mpr (Nat.lt_succ_self (k + 1 + j))) hj
      have hlow := (r.mcuVsN_succ (k + 1 + j)).mpr (hframe j hlt)
      have hnext : ¬PixelWrite (r.bus (k + 1 + j + 1)) := hnot (j + 1) hj
      rw [← Nat.add_assoc, events_succ_of_not_pixel hnext, if_neg, List.append_nil, ih hlt]
      rintro ⟨hhigh, -⟩
      exact absurd hhigh (hlow ▸ Bool.false_ne_true)
  obtain ⟨j, rfl⟩ := Nat.exists_eq_add_of_lt (Nat.cast_lt.mp h.nonempty)
  exact hadd j (Nat.cast_lt.mpr (Nat.lt_succ_self _))

/-- **Stores as frames.**  If each pixel write is taken once, the frame buffer sees the writes, in
their order. -/
lemma events_eq (hfree : ∀ a b : ℕ, IsRun (fun n => PixelWrite (r.bus n)) a b →
    r.freeCycles a (b - a) = 1) (hn : r.Quiet n) : r.events n = (r.writes n).map portEvent := by
  induction n using Nat.strong_induction_on with
  | _ n ih =>
    cases n with
    | zero => rfl
    | succ n =>
      by_cases hpixel : PixelWrite (r.bus n)
      -- the pixel write that ends here, and the run before its setup
      · obtain ⟨a, ha, hrun⟩ := exists_run_to (p := fun n => PixelWrite (r.bus n)) hpixel hn.1
        obtain ⟨k, rfl, hsetup⟩ := (pixelTransfer hrun).setup
        have hquiet := quiet_of_setup hsetup
        have hwrite := writes_end (pixelTransfer hrun) hrun.start.2.1
        have hevent : portEvent ((r.bus (k + 1)).paddr, (r.bus (k + 1)).pwdata) =
            .pixel (rgb565 (r.bus (k + 1)).pwdata) := if_pos hrun.start.2.2
        rw [events_pixelRun hrun, hfree _ _ hrun, hwrite, List.map_append, List.map_singleton,
          hevent, List.replicate_one, events_succ_of_quiet hquiet, writes_succ_of_quiet hquiet,
          ih k (lt_trans ha n.lt_succ_self) hquiet]
      by_cases hframe : FrameWrite (r.bus n)
      -- the frame write that ends here
      · obtain ⟨a, ha, hrun⟩ := exists_run_to (p := fun n => FrameWrite (r.bus n)) hframe hn.2
        have htransfer := transfer_of_isRun r.bus_compliant kind_frameWrite hrun
        obtain ⟨k, rfl, hsetup⟩ := htransfer.setup
        have hquiet := quiet_of_setup hsetup
        have hwrite := writes_end htransfer hrun.start.2.1
        have hevent : portEvent ((r.bus (k + 1)).paddr, (r.bus (k + 1)).pwdata) = .frame :=
          if_neg hrun.start.2.2
        rw [events_frameRun hrun, hwrite, List.map_append, List.map_singleton, hevent,
          events_succ_of_quiet hquiet, writes_succ_of_quiet hquiet,
          ih k (lt_trans ha n.lt_succ_self) hquiet]
      · rw [events_succ_of_quiet ⟨hpixel, hframe⟩, writes_succ_of_quiet ⟨hpixel, hframe⟩]
        exact ih n n.lt_succ_self ⟨hpixel, hframe⟩

end Run

/-! ### Writes without pause -/

/-- The signals of a master that performs the writes of a list one after the other. -/
def writing (ws : List (BitVec 8 × BitVec 32)) (n : ℕ) : Signals (BitVec 8) (BitVec 32) :=
  ws[n / 2]?.elim ⟨false, false, false, 0, 0⟩ fun w => ⟨true, n % 2 = 1, true, w.1, w.2⟩

variable {ws : List (BitVec 8 × BitVec 32)} {n : ℕ}

lemma writing_of_lt (h : n / 2 < ws.length) :
    writing ws n = ⟨true, n % 2 = 1, true, (ws[n / 2]).1, (ws[n / 2]).2⟩ := by
  rw [writing, List.getElem?_eq_getElem h, Option.elim_some]

lemma access_writing : (writing ws n).Access ↔ n / 2 < ws.length ∧ n % 2 = 1 := by
  by_cases h : n / 2 < ws.length
  · rw [writing_of_lt h, Signals.Access, and_iff_right h]
    exact ⟨fun ⟨_, hodd⟩ => of_decide_eq_true hodd, fun hodd => ⟨rfl, decide_eq_true hodd⟩⟩
  · rw [writing, List.getElem?_eq_none (not_lt.mp h)]
    exact iff_of_false (fun haccess => Bool.false_ne_true haccess.1) fun hlt => h hlt.1

/-- The inputs of the slave, with a frame buffer that is never full. -/
def writingInput (ws : List (BitVec 8 × BitVec 32)) (n : ℕ) : Input := ⟨writing ws n, true, false⟩

lemma ready_writing (ws : List (BitVec 8 × BitVec 32)) (n : ℕ) :
    (released.state (writingInput ws) (n + 1)).masterPready1 = true :=
  step_masterPready1 _ (x := writingInput ws n) rfl

lemma compliant_writing (ws : List (BitVec 8 × BitVec 32)) :
    Compliant (writing ws) fun n => (released.state (writingInput ws) n).masterPready1 := by
  have hnext : ∀ n, (writing ws (n + 1)).Access → n % 2 = 0 ∧ (n + 1) / 2 = n / 2 ∧
      n / 2 < ws.length := by
    intro n haccess
    have hodd := access_writing.mp haccess
    omega
  refine ⟨?_, ?_, ?_, ?_⟩
  · rw [access_writing]
    omega
  · intro n haccess
    -- the cycle before an access is the setup of the same write
    obtain ⟨heven, -, hlt⟩ := hnext n haccess
    refine Or.inl ?_
    rw [writing_of_lt hlt]
    exact ⟨rfl, decide_eq_false (by omega)⟩
  · intro n haccess
    obtain ⟨-, hsame, hlt⟩ := hnext n haccess
    have hlt' : (n + 1) / 2 < ws.length := hsame ▸ hlt
    rw [writing_of_lt hlt, writing_of_lt hlt']
    simp only [hsame]
    exact ⟨rfl, rfl, rfl⟩
  · intro n haccess hwait
    cases n with
    | zero => exact absurd (access_writing.mp haccess).2 (by omega)
    | succ n => exact absurd ((ready_writing ws n).symm.trans hwait) (Bool.false_ne_true ·.symm)

/-- The run of these writes. -/
def Run.ofWrites (ws : List (BitVec 8 × BitVec 32)) : Run where
  x := writingInput ws
  masterPrst _ := rfl
  compliant := compliant_writing ws

namespace Run

lemma bus_ofWrites : (ofWrites ws).bus n = writing ws n := rfl

lemma ready_ofWrites : (ofWrites ws).ready (n + 1) = true := ready_writing ws n

lemma quiet_ofWrites (h : ¬(n / 2 < ws.length ∧ n % 2 = 1)) : (ofWrites ws).Quiet n :=
  ⟨fun hpixel => h (access_writing.mp hpixel.1), fun hframe => h (access_writing.mp hframe.1)⟩

/-- Each write takes two cycles. -/
lemma writes_ofWrites : (ofWrites ws).writes (2 * ws.length) = ws := by
  have htake : ∀ n ≤ ws.length, (ofWrites ws).writes (2 * n) = ws.take n := by
    intro n hn
    induction n with
    | zero => rfl
    | succ n ih =>
      have hsetup : (ofWrites ws).Quiet (2 * n) := quiet_ofWrites (by omega)
      have hhalf : (2 * n + 1) / 2 = n := by omega
      have hlt : (2 * n + 1) / 2 < ws.length := by omega
      have haccess : (writing ws (2 * n + 1)).Access := access_writing.mpr ⟨hlt, by omega⟩
      rw [Nat.mul_succ, writes, writes_succ_of_quiet hsetup, ih (by omega), bus_ofWrites,
        if_pos ⟨haccess, by rw [writing_of_lt hlt], ready_ofWrites⟩, writing_of_lt hlt,
        List.take_succ_eq_append_getElem hn]
      simp only [hhalf]
  rw [htake _ (Nat.le_refl _), List.take_length]

/-- Each pixel is taken once. -/
lemma freeCycles_ofWrites {a b : ℕ}
    (h : IsRun (fun n => PixelWrite ((ofWrites ws).bus n)) a b) :
    (ofWrites ws).freeCycles a (b - a) = 1 := by
  have hlt : a < b := Nat.cast_lt.mp h.nonempty
  have hodd := (access_writing.mp h.start.1).2
  -- an access cycle is odd, and the one after it is not
  have hle : b ≤ a + 1 := by
    by_contra hgt
    have hnext := h.mem (a + 1) (Nat.le_succ a) (Nat.cast_lt.mpr (not_le.mp hgt))
    have heven := (access_writing.mp hnext.1).2
    omega
  obtain rfl : b = a + 1 := by omega
  have hfree : ((ofWrites ws).x (a + 2 + 0)).debugFifoFull = false := rfl
  rw [Nat.add_sub_cancel_left, freeCycles, Nat.count_succ, Nat.count_zero, if_pos hfree]

end Run

end HdmiDisplay.Apb
