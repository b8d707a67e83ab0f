/-
# From the shell to the monitor

The way of a colour from the line that is typed to the three lanes: the stores of the command are
transfers of the bus, the slave makes frames of them for the frame buffer, and what the frame buffer
gives out is encoded.  The frame buffer itself is a component of its own, of which it is only taken
that while it shows a frame it gives out pixels of this frame.
-/
import HdmiDisplay.Apb.Stores
import HdmiDisplay.Shell.Session
import HdmiDisplay.Top.Lanes
import Mathlib.Tactic.IntervalCases

namespace HdmiDisplay.Top

open Apb Shell

/-- The write transfers of the bus for what a command does; the bus takes the low byte of the
address. -/
def transfer : Effect → Option (BitVec 8 × BitVec 32)
  | .write address data => some (address.setWidth 8, data)
  | .rtKprintf _ => none

/-- The pixels before the first frame sync, and those behind each frame sync. -/
def split : List PortEvent → List (BitVec 16) × List (List (BitVec 16))
  | [] => ([], [])
  | .frame :: es => ([], (split es).1 :: (split es).2)
  | .pixel data :: es => (data :: (split es).1, (split es).2)

/-- The frames that the frame buffer gets. -/
def frames (es : List PortEvent) : List (List (BitVec 16)) := (split es).2

/-- The three bytes that the monitor gets for a colour. -/
def shown (c : BitVec 32) : BitVec 8 × BitVec 8 × BitVec 8 :=
  ((c >>> 16).setWidth 8 &&& 0xF8#8, (c >>> 8).setWidth 8 &&& 0xFC#8, c.setWidth 8 &&& 0xF8#8)

variable {c : BitVec 32} {cs : List (BitVec 32)}

/-! ### The bits of a colour -/

lemma getLsbD_rgb565 (c : BitVec 32) (i : ℕ) : (rgb565 c).getLsbD i =
    if i < 5 then (c.extractLsb 7 3).getLsbD i
    else if i - 5 < 6 then (c.extractLsb 15 10).getLsbD (i - 5)
    else (c.extractLsb 23 19).getLsbD (i - 5 - 6) := by
  refine BitVec.getLsbD_append.trans (if_congr Iff.rfl rfl ?_)
  exact BitVec.getLsbD_append

lemma getLsbD_redD (voutData : BitVec 16) (i : ℕ) : (redD voutData).getLsbD i =
    if i < 3 then (0#3).getLsbD i else (voutData.extractLsb 15 11).getLsbD (i - 3) :=
  BitVec.getLsbD_append

lemma getLsbD_greenD (voutData : BitVec 16) (i : ℕ) : (greenD voutData).getLsbD i =
    if i < 2 then (0#2).getLsbD i else (voutData.extractLsb 10 5).getLsbD (i - 2) :=
  BitVec.getLsbD_append

lemma getLsbD_blueD (voutData : BitVec 16) (i : ℕ) : (blueD voutData).getLsbD i =
    if i < 3 then (0#3).getLsbD i else (voutData.extractLsb 4 0).getLsbD (i - 3) :=
  BitVec.getLsbD_append

lemma shown_eq (c : BitVec 32) :
    shown c = (redD (rgb565 c), greenD (rgb565 c), blueD (rgb565 c)) := by
  refine Prod.ext ?_ (Prod.ext ?_ ?_)
  · refine BitVec.eq_of_getLsbD_eq fun i hi => ?_
    rw [shown, getLsbD_redD, BitVec.getLsbD_extractLsb, getLsbD_rgb565]
    interval_cases i <;> simp
  · refine BitVec.eq_of_getLsbD_eq fun i hi => ?_
    rw [shown, getLsbD_greenD, BitVec.getLsbD_extractLsb, getLsbD_rgb565]
    interval_cases i <;> simp
  · refine BitVec.eq_of_getLsbD_eq fun i hi => ?_
    rw [shown, getLsbD_blueD, BitVec.getLsbD_extractLsb, getLsbD_rgb565]
    interval_cases i <;> simp

/-! ### The frames of colours -/

/-- Only stores are transfers. -/
lemma filterMap_transfer (es : List Effect) :
    es.filterMap transfer = (stores es).filterMap transfer := by
  rw [stores, List.filterMap_filter]
  refine List.filterMap_congr fun e _ => ?_
  cases e <;> rfl

lemma portEvents_setScreenColor (c : BitVec 32) :
    ((setScreenColor c).filterMap transfer).map portEvent =
      .frame :: List.replicate (640 * 480) (.pixel (rgb565 c)) := by
  have hsync : transfer (.write (apb2Master1Base + 0x04#32) 0#32) = some (0x04#8, 0#32) := rfl
  have hpixel : transfer (.write (apb2Master1Base + 0x00#32) c) = some (0x00#8, c) := rfl
  rw [setScreenColor_eq, List.filterMap_cons_some hsync, List.filterMap_replicate_of_some hpixel,
    List.map_cons, List.map_replicate]
  rfl

lemma split_pixels (n : ℕ) (p : BitVec 16) (ps : List PortEvent) :
    split (List.replicate n (.pixel p) ++ ps) =
      (List.replicate n p ++ (split ps).1, (split ps).2) := by
  induction n with
  | zero => rfl
  | succ n ih => rw [List.replicate_succ, List.cons_append, split, ih]; rfl

/-- The stores of colours are frames of these colours. -/
lemma split_colours (cs : List (BitVec 32)) :
    split (((cs.flatMap setScreenColor).filterMap transfer).map portEvent) =
      ([], cs.map fun c => List.replicate (640 * 480) (rgb565 c)) := by
  induction cs with
  | nil => rfl
  | cons c cs ih =>
    rw [List.flatMap_cons, List.filterMap_append, List.map_append, portEvents_setScreenColor,
      List.cons_append, split, split_pixels, ih, List.append_nil, List.map_cons]

/-! ### The way of a session -/

variable {table : List Syscall} {chs : List Char} {e : Editor} {ess : List (List Effect)}
  {r : Run} {n : ℕ}

/-- The frame buffer gets the frames of the colours. -/
lemma frames_session
    (hess : stores ess.flatten = cs.flatMap setScreenColor) (hn : r.Quiet n)
    (hfree : ∀ a b : ℕ, SignalRuns.IsRun (fun n => PixelWrite (r.bus n)) a b →
      r.freeCycles a (b - a) = 1)
    (hwrites : r.writes n = ess.flatten.filterMap transfer) :
    frames (r.events n) = cs.map fun c => List.replicate (640 * 480) (rgb565 c) := by
  rw [frames, r.events_eq hfree hn, hwrites, filterMap_transfer, hess, split_colours]

/-- A monitor gets the bytes of the colour. -/
lemma decode_shown {x : LaneInput} (s : Lanes) (hreset : x.reset = false) (hden : x.voutDen = true)
    (hdata : x.voutData = rgb565 c) : let t := s.step x
    Tmds.decode t.red.qOut = .data (shown c).1 ∧ Tmds.decode t.green.qOut = .data (shown c).2.1 ∧
      Tmds.decode t.blue.qOut = .data (shown c).2.2 := by
  have hred := Tmds.decode_step s.red (x := redInput x) hreset
  have hgreen := Tmds.decode_step s.green (x := greenInput x) hreset
  have hblue := Tmds.decode_step s.blue (x := blueInput x) hreset
  -- a data period in all three lanes
  have hde : (redInput x).de = true ∧ (greenInput x).de = true ∧ (blueInput x).de = true :=
    ⟨hden, hden, hden⟩
  rw [if_pos hde.1] at hred
  rw [if_pos hde.2.1] at hgreen
  rw [if_pos hde.2.2] at hblue
  rw [shown_eq, ← hdata]
  exact ⟨hred, hgreen, hblue⟩

/-- **From the shell to the monitor.**  Whatever is typed, as long as the line stays shorter than
the array and the game is not started: if the bus carries out the stores of the shell and each pixel
is taken once, the frame buffer gets one frame of `640 * 480` equal pixels for each colour of the
lines that are entered, in their order; and while it shows one of these frames, all that a monitor
decodes in data periods is this colour, without the low bits of its bytes. -/
theorem display (ht : IsMainTable table)
    (h : Transition.trace (Editor.step table) Editor.init chs = some (e, ess))
    (hpong : ∀ line ∈ entered table Editor.init chs, firstWord line ≠ "pong".toList)
    (hn : r.Quiet n) (hfree : ∀ a b : ℕ, SignalRuns.IsRun (fun n => PixelWrite (r.bus n)) a b →
      r.freeCycles a (b - a) = 1) (hwrites : r.writes n = ess.flatten.filterMap transfer) :
    (∃ s, Transition.trace (FinshShell.step table) FinshShell.init chs = some (s, ess)) ∧
    ∃ css, List.Forall₂ Paints (entered table Editor.init chs) css ∧
      frames (r.events n) = css.flatten.map (fun c => List.replicate (640 * 480) (rgb565 c)) ∧
      ∀ f ∈ frames (r.events n), ∃ c ∈ css.flatten,
        ∀ (qr qg qb : BitVec 10) (x : ℕ → LaneInput) (i : ℕ), (x i).reset = false →
          (x i).voutDen = true → (x i).voutData ∈ f → let s := (lanes qr qg qb).state x (i + 1)
          Tmds.decode s.red.qOut = .data (shown c).1 ∧
            Tmds.decode s.green.qOut = .data (shown c).2.1 ∧
            Tmds.decode s.blue.qOut = .data (shown c).2.2 := by
  obtain ⟨css, hcss, hess⟩ := ht.exists_paints h hpong
  have hframes := frames_session hess hn hfree hwrites
  refine ⟨⟨_, (Editor.trace_eq fits_nil h).1⟩, css, hcss, hframes, ?_⟩
  intro f hf
  rw [hframes] at hf
  obtain ⟨c, hc, rfl⟩ := List.mem_map.mp hf
  refine ⟨c, hc, ?_⟩
  intro qr qg qb x i hreset hden hdata
  exact decode_shown _ hreset hden (List.eq_of_mem_replicate hdata)

/-- `setColor ff00ff`, carried out without pause, and a pixel of its frame -/
theorem display_ff00ff : (∃ s ess, Transition.trace (FinshShell.step (mainTable fun _ => []))
      FinshShell.init "setColor ff00ff\r".toList = some (s, ess)) ∧
    ∃ r : Run, ∃ n, frames (r.events n) = [List.replicate (640 * 480) 0xF81F#16] ∧
      let s := (lanes 0#10 0#10 0#10).state (fun _ => ⟨false, true, 0xF81F#16, 0b11#2⟩) 3
      Tmds.decode s.red.qOut = .data 0xF8#8 ∧ Tmds.decode s.green.qOut = .data 0x00#8 ∧
        Tmds.decode s.blue.qOut = .data 0xF8#8 := by
  have h : ∃ e ess, Transition.trace (Editor.step (mainTable fun _ => [])) Editor.init
      "setColor ff00ff\r".toList = some (e, ess) := ⟨_, _, rfl⟩
  obtain ⟨e, ess, h⟩ := h
  have hquiet : (Run.ofWrites (ess.flatten.filterMap transfer)).Quiet
      (2 * (ess.flatten.filterMap transfer).length) := Run.quiet_ofWrites (by omega)
  obtain ⟨⟨s, hs⟩, css, hcss, hframes, hshow⟩ :=
    display (isMainTable_mainTable _) h (firstWord_ff00ff _) hquiet
      (fun _ _ => Run.freeCycles_ofWrites) Run.writes_ofWrites
  rw [flatten_ff00ff hcss, List.map_singleton] at hframes
  have hpixel : rgb565 0xff00ff#32 = 0xF81F#16 := by decide
  rw [hpixel] at hframes
  refine ⟨⟨s, ess, hs⟩, _, _, hframes, ?_⟩
  obtain ⟨c, hc, hdecode⟩ := hshow _ (hframes ▸ List.mem_singleton_self _)
  rw [flatten_ff00ff hcss, List.mem_singleton] at hc
  rw [hc] at hdecode
  exact hdecode _ _ _ _ 2 rfl rfl (List.mem_replicate.mpr ⟨by decide, rfl⟩)

end HdmiDisplay.Top
