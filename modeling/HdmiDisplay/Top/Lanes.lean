/-
# The three lanes

The encoder instances `red_TMDS`, `green_TMDS` and `blue_TMDS` of `top.vhd`, with the assignments
that spread a 16-bit pixel of the frame buffer over the three lanes.  All three share the data
enable `vout_den`; the control pair is sent on the blue lane only.
-/
import HdmiDisplay.Tmds.Decode

namespace HdmiDisplay.Top

open Clocked

/-- `vout_data(15 downto 11) & "000"`. -/
def redD (voutData : BitVec 16) : BitVec 8 := voutData.extractLsb 15 11 ++ 0b000#3

/-- `vout_data(10 downto 5) & "00"`. -/
def greenD (voutData : BitVec 16) : BitVec 8 := voutData.extractLsb 10 5 ++ 0b00#2

/-- `vout_data(4 downto 0) & "000"`. -/
def blueD (voutData : BitVec 16) : BitVec 8 := voutData.extractLsb 4 0 ++ 0b000#3

/-- The signals of `top` that the encoders sample at a pixel clock. -/
structure LaneInput where
  /-- The reset of the pixel domain. -/
  reset : Bool
  /-- The data enable of the frame buffer, `vout_den`. -/
  voutDen : Bool
  /-- The pixel of the frame buffer, `vout_data`. -/
  voutData : BitVec 16
  /-- The control pair of the timing generator, `C1_C0`. -/
  c1c0 : BitVec 2
deriving DecidableEq, Repr

/-- The port map of `red_TMDS`. -/
def redInput (x : LaneInput) : Tmds.Input := ⟨x.reset, redD x.voutData, 0b00#2, x.voutDen⟩

/-- The port map of `green_TMDS`. -/
def greenInput (x : LaneInput) : Tmds.Input := ⟨x.reset, greenD x.voutData, 0b00#2, x.voutDen⟩

/-- The port map of `blue_TMDS`. -/
def blueInput (x : LaneInput) : Tmds.Input := ⟨x.reset, blueD x.voutData, x.c1c0, x.voutDen⟩

/-- The registers of the three encoders. -/
structure Lanes where
  /-- The encoder `red_TMDS`. -/
  red : Tmds.State
  /-- The encoder `green_TMDS`. -/
  green : Tmds.State
  /-- The encoder `blue_TMDS`. -/
  blue : Tmds.State
deriving DecidableEq, Repr

/-- The three encoders at a pixel clock. -/
def Lanes.step (s : Lanes) (x : LaneInput) : Lanes :=
  ⟨Tmds.step s.red (redInput x), Tmds.step s.green (greenInput x),
    Tmds.step s.blue (blueInput x)⟩

/-- The three encoders from power-up, where every `Cnt` is `0` and no `q_out` is initialised. -/
def lanes (qr qg qb : BitVec 10) : Machine LaneInput Lanes :=
  ⟨⟨⟨0, qr⟩, ⟨0, qg⟩, ⟨0, qb⟩⟩, Lanes.step⟩

/-- **Link round trip.**  In every run that starts with `Cnt = 0` and has reset low, after every
clock the receivers of the three lanes agree on whether the clock was a data clock; after a data
clock they give back the three bytes of the pixel, and after a blanking clock the blue one gives
back the control pair and the others `"00"`.  No byte that could be sent next, on any lane, would
look like a control token. -/
theorem link_round_trip (qr qg qb : BitVec 10) (x : ℕ → LaneInput) (n : ℕ)
    (hreset : ∀ i ≤ n, (x i).reset = false) :
    let s := (lanes qr qg qb).state x (n + 1)
    ((Tmds.decode s.red.qOut).isData = (x n).voutDen ∧
        (Tmds.decode s.green.qOut).isData = (x n).voutDen ∧
        (Tmds.decode s.blue.qOut).isData = (x n).voutDen) ∧
      ((x n).voutDen = true →
        Tmds.decode s.red.qOut = .data (redD (x n).voutData) ∧
          Tmds.decode s.green.qOut = .data (greenD (x n).voutData) ∧
          Tmds.decode s.blue.qOut = .data (blueD (x n).voutData)) ∧
      ((x n).voutDen = false →
        Tmds.decode s.red.qOut = .control 0b00#2 ∧
          Tmds.decode s.green.qOut = .control 0b00#2 ∧
          Tmds.decode s.blue.qOut = .control (x n).c1c0) ∧
      (∀ d c, (Tmds.draw s.red.cnt d).qOut ≠ Tmds.controlToken c ∧
        (Tmds.draw s.green.cnt d).qOut ≠ Tmds.controlToken c ∧
        (Tmds.draw s.blue.cnt d).qOut ≠ Tmds.controlToken c) := by
  intro s
  have hlast := hreset n le_rfl
  have hred : Tmds.decode s.red.qOut
      = if (x n).voutDen = true then .data (redD (x n).voutData) else .control 0b00#2 :=
    Tmds.decode_step _ (x := redInput (x n)) hlast
  have hgreen : Tmds.decode s.green.qOut
      = if (x n).voutDen = true then .data (greenD (x n).voutData) else .control 0b00#2 :=
    Tmds.decode_step _ (x := greenInput (x n)) hlast
  have hblue : Tmds.decode s.blue.qOut
      = if (x n).voutDen = true then .data (blueD (x n).voutData) else .control (x n).c1c0 :=
    Tmds.decode_step _ (x := blueInput (x n)) hlast
  rw [hred, hgreen, hblue]
  refine ⟨?_, ?_, ?_, ?_⟩
  · cases (x n).voutDen <;> exact ⟨rfl, rfl, rfl⟩
  · intro h
    simp [h]
  · intro h
    simp [h]
  · intro d c
    exact ⟨Tmds.draw_ne_controlToken _ d c, Tmds.draw_ne_controlToken _ d c,
      Tmds.draw_ne_controlToken _ d c⟩

/-- A magenta pixel, sent at every clock, comes back on all three lanes. -/
theorem link_round_trip_magenta :
    let s := (lanes 0#10 0#10 0#10).state (fun _ => ⟨false, true, 0xF81F#16, 0b11#2⟩) 3
    Tmds.decode s.red.qOut = .data 0xF8#8 ∧ Tmds.decode s.green.qOut = .data 0x00#8 ∧
      Tmds.decode s.blue.qOut = .data 0xF8#8 :=
  (link_round_trip 0#10 0#10 0#10 (fun _ => ⟨false, true, 0xF81F#16, 0b11#2⟩) 2
    fun _ _ => rfl).2.1 rfl

end HdmiDisplay.Top
