/-
# The colour commands of the shell

The functions of `main.cpp` behind the command `setColor`, as the list of what they do to the
outside: the stores to the APB slave and the texts that are printed.  `setColorCmd` checks the
length of its argument only; what the characters are is left to `strtol`, whose end pointer is not
looked at.
-/
import HdmiDisplay.Lib.Strtol

namespace HdmiDisplay.Shell

open Strtol

/-- `APB2PERIPH_BASE`. -/
def apb2PeriphBase : BitVec 32 := 0x40000000#32 + 0x02000#32

/-- `APB2MASTER1_BASE`. -/
def apb2Master1Base : BitVec 32 := apb2PeriphBase + 0x400#32

/-- What a command does to the outside. -/
inductive Effect where
  /-- A volatile store, which the bus turns into an APB write. -/
  | write (address data : BitVec 32)
  /-- `rt_kprintf`. -/
  | rtKprintf (text : String)
deriving DecidableEq, Repr

/-- `setScreenColor`. -/
def setScreenColor (rgbValue : BitVec 32) : List Effect :=
  .write (apb2Master1Base + 0x04#32) 0#32 ::
    (List.range (640 * 480)).map fun _ => .write (apb2Master1Base + 0x00#32) rgbValue

/-- The smallest `long`, which has 32 bits on the processor. -/
def longMin : ℤ := -2 ^ 31

/-- The largest `long`. -/
def longMax : ℤ := 2 ^ 31 - 1

/-- `setColor`: the `long` is converted to `uint32_t` by the call. -/
def setColor (rgbHexBuffer : List Char) : List Effect :=
  setScreenColor (BitVec.ofInt 32 (strtol longMin longMax 16 rgbHexBuffer).1)

/-- `setColorCmd`, with `argc` being the length of `argv`. -/
def setColorCmd (argv : List (List Char)) : List Effect :=
  match argv with
  | _ :: arg :: _ =>
      if arg.length ≠ 6 then [.rtKprintf "Error: Provide 6 hex characters <RRGGBB>\n"]
      -- whatever the six characters are
      else setColor arg
  | _ => [.rtKprintf "Usage: setColor <RRGGBB>\n"]

/-- `setAnimationCmd`: the colours go from red over green and blue back to red. -/
def setAnimationCmd (_argv : List (List Char)) : List Effect :=
  (List.range 255).flatMap (fun i =>
    setScreenColor (BitVec.ofNat 32 (255 - i) <<< 16 ||| BitVec.ofNat 32 i <<< 8 ||| 0)) ++
  (List.range 255).flatMap (fun i =>
    setScreenColor (0 ||| BitVec.ofNat 32 (255 - i) <<< 8 ||| BitVec.ofNat 32 i)) ++
  (List.range 255).flatMap fun i =>
    setScreenColor (BitVec.ofNat 32 i <<< 16 ||| 0 ||| BitVec.ofNat 32 (255 - i))

/-- `clear`. -/
def clear (_argv : List (List Char)) : List Effect := [.rtKprintf "\x1b[1;1H\x1b[2J"]

/-! ### What the functions store -/

/-- A store to the APB slave. -/
def Effect.isWrite : Effect → Bool
  | .write _ _ => true
  | .rtKprintf _ => false

/-- A store to the offset `0`. -/
def Effect.isPixelWrite : Effect → Bool
  | .write address _ => address = apb2Master1Base + 0x00#32
  | .rtKprintf _ => false

lemma setScreenColor_eq (rgbValue : BitVec 32) :
    setScreenColor rgbValue = .write (apb2Master1Base + 0x04#32) 0#32 ::
      List.replicate (640 * 480) (.write (apb2Master1Base + 0x00#32) rgbValue) := by
  rw [setScreenColor, List.map_const', List.length_range]

lemma isWrite_setScreenColor (rgbValue : BitVec 32) :
    ∀ e ∈ setScreenColor rgbValue, e.isWrite = true := by
  intro e he
  rw [setScreenColor_eq] at he
  rcases List.mem_cons.mp he with rfl | he
  · rfl
  · rw [List.eq_of_mem_replicate he]
    rfl

/-- A frame has `640 * 480` pixels. -/
lemma countP_setScreenColor (rgbValue : BitVec 32) :
    (setScreenColor rgbValue).countP Effect.isPixelWrite = 640 * 480 := by
  have hsync : (Effect.write (apb2Master1Base + 0x04#32) 0#32).isPixelWrite = false := by decide
  have hpixel : (Effect.write (apb2Master1Base + 0x00#32) rgbValue).isPixelWrite = true :=
    by simp [Effect.isPixelWrite]
  rw [setScreenColor_eq, List.countP_cons_of_neg (by simp [hsync]), List.countP_replicate,
    if_pos hpixel]

/-! ### Colours -/

/-- A hexadecimal digit, in either case. -/
def IsHexDigit (c : Char) : Prop :=
  ('0' ≤ c ∧ c ≤ '9') ∨ ('a' ≤ c ∧ c ≤ 'f') ∨ ('A' ≤ c ∧ c ≤ 'F')

instance (c : Char) : Decidable (IsHexDigit c) := inferInstanceAs (Decidable (_ ∨ _))

/-- A string of exactly six hexadecimal digits. -/
def IsColour (arg : List Char) : Prop := arg.length = 6 ∧ ∀ c ∈ arg, IsHexDigit c

instance (arg : List Char) : Decidable (IsColour arg) := inferInstanceAs (Decidable (_ ∧ _))

/-- The number that hexadecimal digits denote. -/
def colourValue (arg : List Char) : ℕ := Nat.ofDigits 16 (arg.filterMap (digit 16)).reverse

/-- The hexadecimal digits are the digits of base 16. -/
lemma isHexDigit_iff {c : Char} : IsHexDigit c ↔ (digit 16 c).isSome := by
  have hge : ∀ d : Char, d ≤ c ↔ d.toNat ≤ c.toNat := fun _ => Iff.rfl
  have hle : ∀ d : Char, c ≤ d ↔ c.toNat ≤ d.toNat := fun _ => Iff.rfl
  simp only [IsHexDigit, digit, digitVal, hge, hle, Char.reduceToNat]
  split_ifs with h₁ h₂ h₃
  all_goals
    simp
    omega

/-- Six digits denote a number of 24 bits. -/
lemma colourValue_lt {arg : List Char} (h : IsColour arg) : colourValue arg < 2 ^ 24 := by
  have hlen : (arg.filterMap (digit 16)).length ≤ 6 := h.1 ▸ List.length_filterMap_le _ _
  rw [colourValue, ← value_eq_ofDigits]
  calc value 16 (arg.filterMap (digit 16)) < 16 ^ (arg.filterMap (digit 16)).length := by
        refine value_lt (by omega) ?_
        intro d hd
        obtain ⟨c, -, hc⟩ := List.mem_filterMap.mp hd
        exact digit_lt hc
    _ ≤ 16 ^ 6 := Nat.pow_le_pow_right (by omega) hlen

/-- `strtol` reads six hexadecimal digits as the number that they denote. -/
lemma strtol_of_isColour {arg : List Char} (h : IsColour arg) :
    strtol longMin longMax 16 arg = ((colourValue arg : ℤ), []) := by
  have hne : arg ≠ [] := by
    rintro rfl
    exact absurd h.1 (by simp)
  have hdigits : ∀ c ∈ arg, (digit 16 c).isSome := fun c hc => isHexDigit_iff.mp (h.2 c hc)
  have hvalue : value 16 (arg.filterMap (digit 16)) = colourValue arg := value_eq_ofDigits 16 _
  have hlt := colourValue_lt h
  rw [← hvalue]
  refine strtol_of_digits hne hdigits (by decide) ?_
  rw [hvalue, longMax]
  omega

lemma setColor_of_isColour {arg : List Char} (h : IsColour arg) :
    setColor arg = setScreenColor (BitVec.ofNat 32 (colourValue arg)) := by
  rw [setColor, strtol_of_isColour h, BitVec.ofInt_natCast]

/-! ### The command -/

/-- What `setColorCmd` is to do with the argument `arg`: exactly for six hexadecimal digits it
writes to the APB slave, namely a frame sync and a frame of the colour; for all other strings it
reports the error only. -/
structure AcceptsExactlyColours (effects : List Effect) (arg : List Char) : Prop where
  writes_iff : (∃ e ∈ effects, e.isWrite = true) ↔ IsColour arg
  colour : IsColour arg → colourValue arg < 2 ^ 24 ∧
    effects = .write (apb2Master1Base + 0x04#32) 0#32 :: List.replicate (640 * 480)
      (.write (apb2Master1Base + 0x00#32) (BitVec.ofNat 32 (colourValue arg)))
  error : ¬IsColour arg → effects = [.rtKprintf "Error: Provide 6 hex characters <RRGGBB>\n"]

lemma setColorCmd_of_length_ne (name : List Char) {arg : List Char} (rest : List (List Char))
    (h : arg.length ≠ 6) : setColorCmd (name :: arg :: rest)
      = [.rtKprintf "Error: Provide 6 hex characters <RRGGBB>\n"] := if_pos h

lemma setColorCmd_of_length_eq (name : List Char) {arg : List Char} (rest : List (List Char))
    (h : arg.length = 6) : setColorCmd (name :: arg :: rest) = setColor arg :=
  if_neg (not_not_intro h)

/-- A string of six characters always repaints the screen. -/
lemma exists_write_of_length_eq (name : List Char) {arg : List Char} (rest : List (List Char))
    (h : arg.length = 6) : ∃ e ∈ setColorCmd (name :: arg :: rest), e.isWrite = true := by
  rw [setColorCmd_of_length_eq name rest h]
  exact ⟨_, List.mem_cons_self, rfl⟩

/-- **The colours that `setColor` accepts.**  For every argument vector with an argument,
`setColorCmd` accepts exactly the colours if and only if the argument does not have six characters,
or has six hexadecimal digits. -/
theorem setColorCmd_iff (name arg : List Char) (rest : List (List Char)) :
    AcceptsExactlyColours (setColorCmd (name :: arg :: rest)) arg ↔
      arg.length ≠ 6 ∨ ∀ c ∈ arg, IsHexDigit c := by
  constructor
  · intro h
    by_cases hlen : arg.length = 6
    · exact Or.inr (h.writes_iff.mp (exists_write_of_length_eq name rest hlen)).2
    · exact Or.inl hlen
  · intro h
    by_cases hcolour : IsColour arg
    · have heffects : setColorCmd (name :: arg :: rest)
          = setScreenColor (BitVec.ofNat 32 (colourValue arg)) := by
        rw [setColorCmd_of_length_eq name rest hcolour.1, setColor_of_isColour hcolour]
      refine ⟨iff_of_true (exists_write_of_length_eq name rest hcolour.1) hcolour, ?_, ?_⟩
      · intro _
        exact ⟨colourValue_lt hcolour, heffects.trans (setScreenColor_eq _)⟩
      · exact fun hnot => absurd hcolour hnot
    · have hlen : arg.length ≠ 6 := fun hlen => hcolour ⟨hlen, h.resolve_left (not_not_intro hlen)⟩
      rw [setColorCmd_of_length_ne name rest hlen]
      refine ⟨iff_of_false (by simp [Effect.isWrite]) hcolour, ?_, fun _ => rfl⟩
      exact fun hyes => absurd hyes hcolour

/-- Six characters that are no digits paint the screen black. -/
theorem setColorCmd_GGGGGG :
    ¬AcceptsExactlyColours (setColorCmd [['s', 'e', 't', 'C', 'o', 'l', 'o', 'r'],
      ['G', 'G', 'G', 'G', 'G', 'G']]) ['G', 'G', 'G', 'G', 'G', 'G'] ∧
    setColorCmd [['s', 'e', 't', 'C', 'o', 'l', 'o', 'r'], ['G', 'G', 'G', 'G', 'G', 'G']]
      = setScreenColor 0x000000#32 := by
  have hnot : ¬IsHexDigit 'G' := by decide
  constructor
  · intro h
    have hcolour := h.writes_iff.mp (exists_write_of_length_eq _ _ rfl)
    exact hnot (hcolour.2 'G' (by simp))
  · rw [setColorCmd_of_length_eq _ _ rfl, setColor]
    congr 1

end HdmiDisplay.Shell
