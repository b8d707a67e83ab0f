/-
# The screen of a terminal

The characters that a terminal receives move its cursor and write to its screen, whose lines have a
width.  A text with a cursor is shown as the last line where a program prints it there and keeps the
cursor of the terminal where that of the text is; the rules say what a program has to print for each
change of the text.
-/
import HdmiDisplay.Lib.Zipper
import Mathlib.Data.List.GetD
import Mathlib.Logic.Function.Basic

/-- The cells by line and column, the cursor, and the characters of a control sequence.  There is
always one more line, as on a terminal that scrolls. -/
structure Screen (width : ℕ) where
  cell : ℕ → ℕ → Char
  line : ℕ
  col : ℕ
  control : Option (List Char)

namespace Screen

variable {width : ℕ}

/-- The screen is blank. -/
def blank : Screen width := ⟨fun _ _ => ' ', 0, 0, none⟩

/-- The characters that are shown. -/
def IsPrintable (c : Char) : Prop := 32 ≤ c.toNat ∧ c.toNat < 127

instance (c : Char) : Decidable (IsPrintable c) := inferInstanceAs (Decidable (_ ∧ _))

/-- A control sequence is complete: the cursor returns to the first cell, or the screen is erased.
-/
def execute (t : Screen width) (s : List Char) : Screen width :=
  if s = "[1;1H".toList then { t with line := 0, col := 0 }
  else if s = "[2J".toList then { t with cell := fun _ _ => ' ' }
  else t

/-- A character is shown under the cursor.  Behind the last column the cursor goes on to the next
line. -/
def putChar (t : Screen width) (c : Char) : Screen width :=
  let cell := Function.update t.cell t.line (Function.update (t.cell t.line) t.col c)
  if t.col + 1 < width then { t with cell := cell, col := t.col + 1 }
  else { t with cell := cell, line := t.line + 1, col := 0 }

/-- A character is received. -/
def put (t : Screen width) (c : Char) : Screen width :=
  match t.control with
  | some s =>
      if c = ';' ∨ c.isDigit ∨ c = '[' ∧ s = [] then { t with control := some (s ++ [c]) }
      else { t with control := none }.execute (s ++ [c])
  | none =>
      if c = '\x08' then { t with col := t.col - 1 }
      else if c = '\r' then { t with col := 0 }
      else if c = '\n' then { t with line := t.line + 1 }
      else if c = '\x1b' then { t with control := some [] }
      else if IsPrintable c then t.putChar c
      else t

/-- Characters are received. -/
def puts (t : Screen width) (s : List Char) : Screen width := s.foldl put t

/-- The last line shows a text and nothing else, and the cursor of the text. -/
structure Shows (t : Screen width) (z : Zipper Char) : Prop where
  control : t.control = none
  col : t.col = z.cursor
  cell : ∀ i, t.cell t.line i = z.text.getD i ' '
  below : ∀ l i, t.line < l → t.cell l i = ' '

/-- The cursor is at the beginning of a blank line, and all lines below are blank. -/
def Open (t : Screen width) : Prop := t.Shows ⟨[], []⟩

/-- The cursor is behind the text of the last line. -/
def Behind (t : Screen width) : Prop := ∃ b, t.Shows ⟨b, []⟩

/-- Output of whole lines. -/
def Lines (width : ℕ) (s : List Char) : Prop := ∀ t : Screen width, t.Open → (t.puts s).Open

/-- Output that goes on behind the text of the last line. -/
def Continues (width : ℕ) (s : List Char) : Prop :=
  ∀ t : Screen width, t.Behind → (t.puts s).Behind

/-- Output that goes on and then ends the line. -/
def Ends (width : ℕ) (s : List Char) : Prop := ∀ t : Screen width, t.Behind → (t.puts s).Open

variable {t : Screen width} {s s' a b : List Char} {c : Char} {n : ℕ} {z : Zipper Char}

@[simp] lemma puts_nil (t : Screen width) : t.puts [] = t := rfl

@[simp] lemma puts_cons (t : Screen width) (c : Char) (s : List Char) :
    t.puts (c :: s) = (t.put c).puts s := rfl

lemma puts_append (t : Screen width) (s s' : List Char) :
    t.puts (s ++ s') = (t.puts s).puts s' := List.foldl_append

/-! ### Single characters -/

lemma put_backspace (h : t.control = none) : t.put '\x08' = { t with col := t.col - 1 } := by
  rw [put, h]
  exact if_pos rfl

lemma put_of_isPrintable (h : t.control = none) (hc : IsPrintable c) : t.put c = t.putChar c := by
  have hne : ∀ d : Char, d.toNat < 32 → c ≠ d := by
    rintro d hd rfl
    exact absurd hc.1 (by omega)
  rw [put, h]
  dsimp only
  rw [if_neg (hne _ (by decide)), if_neg (hne _ (by decide)), if_neg (hne _ (by decide)),
    if_neg (hne _ (by decide)), if_pos hc]

/-- A character is written over the one under the cursor. -/
lemma Shows.write (h : t.Shows ⟨b, a⟩) (hc : IsPrintable c) (hwidth : b.length + 1 < width) :
    (t.put c).Shows ⟨c :: b, a.tail⟩ := by
  have hcol : t.col = b.length := h.col
  rw [put_of_isPrintable h.control hc, putChar, if_pos (hcol ▸ hwidth)]
  refine ⟨h.control, congrArg (· + 1) hcol, ?_, ?_⟩
  · intro i
    have hcell : t.cell t.line i = (b.reverse ++ a).getD i ' ' := h.cell i
    have htext : Zipper.text ⟨c :: b, a.tail⟩ = b.reverse ++ c :: a.tail := by
      rw [Zipper.text, List.reverse_cons, List.append_assoc, List.singleton_append]
    rw [htext]
    change Function.update t.cell t.line (Function.update (t.cell t.line) t.col c) t.line i = _
    rw [Function.update_self, hcol]
    rcases Nat.lt_trichotomy i b.length with hi | rfl | hi
    · rw [Function.update_of_ne (by omega), hcell, List.getD_append _ _ _ _ (by simpa using hi),
        List.getD_append _ _ _ _ (by simpa using hi)]
    · rw [Function.update_self, List.getD_append_right _ _ _ _ (by simp), List.length_reverse,
        Nat.sub_self]
      rfl
    · obtain ⟨k, rfl⟩ := Nat.exists_eq_add_of_lt hi
      have hsub : b.length + k + 1 - b.length = k + 1 := by omega
      rw [Function.update_of_ne (by omega), hcell,
        List.getD_append_right _ _ _ _ (by simp; omega),
        List.getD_append_right _ _ _ _ (by simp; omega), List.length_reverse, hsub,
        List.getD_cons_succ]
      cases a <;> rfl
  · intro l i hl
    have hne : l ≠ t.line := Nat.ne_of_gt hl
    change Function.update t.cell t.line _ l i = ' '
    rw [Function.update_of_ne hne]
    exact h.below l i hl

/-- The cursor moves to the left. -/
lemma Shows.left (h : t.Shows ⟨c :: b, a⟩) : (t.put '\x08').Shows ⟨b, c :: a⟩ := by
  rw [put_backspace h.control]
  refine ⟨h.control, ?_, ?_, h.below⟩
  · have hcol : t.col = b.length + 1 := h.col
    exact congrArg (· - 1) hcol
  · have htext : Zipper.text ⟨b, c :: a⟩ = Zipper.text ⟨c :: b, a⟩ := by
      rw [Zipper.text, Zipper.text, List.reverse_cons, List.append_assoc, List.singleton_append]
    rw [htext]
    exact h.cell

/-- A blank at the end is not seen. -/
lemma Shows.of_blank (h : t.Shows ⟨b, a ++ [' ']⟩) : t.Shows ⟨b, a⟩ := by
  refine ⟨h.control, h.col, fun i => ?_, h.below⟩
  have htext : Zipper.text ⟨b, a ++ [' ']⟩ = Zipper.text ⟨b, a⟩ ++ [' '] := by
    rw [Zipper.text, Zipper.text, List.append_assoc]
  rw [h.cell, htext]
  rcases Nat.lt_or_ge i (Zipper.text ⟨b, a⟩).length with hi | hi
  · exact List.getD_append _ _ _ _ hi
  · rw [List.getD_append_right _ _ _ _ hi, List.getD_eq_default _ _ hi]
    cases i - (Zipper.text ⟨b, a⟩).length <;> rfl

/-! ### Several characters -/

lemma Shows.writes (h : t.Shows ⟨b, a⟩) (hs : ∀ c ∈ s, IsPrintable c)
    (hwidth : b.length + s.length < width) :
    (t.puts s).Shows ⟨s.reverse ++ b, a.drop s.length⟩ := by
  induction s generalizing t a b with
  | nil => exact h
  | cons c s ih =>
    rw [List.length_cons] at hwidth
    have hrest := ih (h.write (hs c List.mem_cons_self) (by omega))
      (fun d hd => hs d (List.mem_cons_of_mem c hd)) (by rw [List.length_cons]; omega)
    rw [List.drop_tail] at hrest
    rw [List.reverse_cons, List.append_assoc]
    exact hrest

lemma Shows.lefts (s : List Char) (h : t.Shows ⟨s ++ b, a⟩) (hn : n = s.length) :
    (t.puts (List.replicate n '\x08')).Shows ⟨b, s.reverse ++ a⟩ := by
  subst hn
  induction s generalizing t a with
  | nil => exact h
  | cons c s ih =>
    rw [List.length_cons, List.replicate_succ, List.reverse_cons, List.append_assoc]
    exact ih h.left

/-! ### The changes of a text -/

/-- What is printed for an inserted character. -/
lemma Shows.insert (h : t.Shows z) (hc : IsPrintable c) (hz : ∀ d ∈ z.after, IsPrintable d)
    (hwidth : z.text.length + 1 < width) :
    (t.puts (c :: z.after ++ List.replicate z.after.length '\x08')).Shows (z.insert c) := by
  obtain ⟨b, a⟩ := z
  have hlength : (Zipper.text ⟨b, a⟩).length = b.length + a.length := Zipper.length_text _
  have hafter : (c :: b).length + a.length < width := by
    rw [List.length_cons]
    omega
  have hwrite := (h.write hc (by omega)).writes hz hafter
  have hdrop : a.tail.drop a.length = [] := List.drop_of_length_le (by simp)
  rw [hdrop] at hwrite
  have hback := hwrite.lefts a.reverse List.length_reverse.symm
  rw [List.reverse_reverse, List.append_nil] at hback
  rw [List.cons_append, puts_cons, puts_append]
  exact hback

/-- What is printed for a deleted character. -/
lemma Shows.backspace (h : t.Shows ⟨c :: b, a⟩) (ha : ∀ d ∈ a, IsPrintable d)
    (hwidth : b.length + a.length + 2 < width) :
    (t.puts ('\x08' :: a ++ [' ', ' ', '\x08'] ++ List.replicate (a.length + 1) '\x08')).Shows
      ⟨b, a⟩ := by
  have hblank : IsPrintable ' ' := by decide
  have hlength : (a.reverse ++ b).length = b.length + a.length := by
    rw [List.length_append, List.length_reverse, Nat.add_comm]
  have hrest := h.left.writes ha (by omega)
  have hwrite := (hrest.write hblank (by omega)).write hblank (by rw [List.length_cons]; omega)
  have hdrop : (((c :: a).drop a.length).tail).tail = [] := by
    rw [← List.length_eq_zero_iff, List.length_tail, List.length_tail, List.length_drop,
      List.length_cons]
    omega
  rw [hdrop] at hwrite
  have hback := hwrite.left.lefts (' ' :: a.reverse) (n := a.length + 1)
    (by rw [List.length_cons, List.length_reverse])
  rw [List.reverse_cons, List.reverse_reverse] at hback
  simp only [List.cons_append, puts_cons, puts_append, puts_nil]
  exact hback.of_blank.of_blank

/-- What is printed for a character that is deleted at the end. -/
lemma Shows.backspace_nil (h : t.Shows ⟨c :: b, []⟩) (hwidth : b.length + 1 < width) :
    (t.puts ['\x08', ' ', '\x08']).Shows ⟨b, []⟩ := by
  have hwrite := (h.left.write (c := ' ') (by decide) hwidth).left
  exact hwrite.of_blank

/-! ### Lines -/

lemma Open.behind (h : t.Open) : t.Behind := ⟨[], h⟩

/-- A new line begins. -/
lemma Shows.newline (h : t.Shows z) : (t.puts ['\r', '\n']).Open := by
  have hput : t.puts ['\r', '\n'] = { t with col := 0, line := t.line + 1 } := by
    rw [puts_cons, puts_cons, puts_nil, put, h.control]
    simp only [put, h.control]
    rfl
  rw [hput]
  exact ⟨h.control, rfl, fun i => h.below _ _ (Nat.lt_succ_self _),
    fun l i hl => h.below _ _ (Nat.lt_of_succ_lt hl)⟩

/-- A character goes on behind the text, perhaps in the next line. -/
lemma Behind.put (h : t.Behind) (hc : IsPrintable c) : (t.put c).Behind := by
  obtain ⟨b, h⟩ := h
  by_cases hwidth : b.length + 1 < width
  · exact ⟨c :: b, h.write hc hwidth⟩
  · have hcol : t.col = b.length := h.col
    rw [put_of_isPrintable h.control hc, putChar, if_neg (hcol ▸ hwidth)]
    refine ⟨[], h.control, rfl, ?_, ?_⟩
    · intro i
      exact (congrFun (Function.update_of_ne (Nat.succ_ne_self _) ..) i).trans
        (h.below _ i (Nat.lt_succ_self _))
    · intro l i hl
      exact (congrFun (Function.update_of_ne (Nat.ne_of_gt (Nat.lt_of_succ_lt hl)) ..) i).trans
        (h.below l i (Nat.lt_of_succ_lt hl))

lemma continues_nil : Continues width [] := fun _ h => h

lemma Continues.append (h : Continues width s) (h' : Continues width s') :
    Continues width (s ++ s') := by
  intro t ht
  rw [puts_append]
  exact h' _ (h t ht)

lemma continues_of_isPrintable (hs : ∀ c ∈ s, IsPrintable c) : Continues width s := by
  induction s with
  | nil => exact continues_nil
  | cons c s ih =>
    intro t ht
    exact ih (fun d hd => hs d (List.mem_cons_of_mem c hd)) _ (ht.put (hs c List.mem_cons_self))

lemma ends_newline : Ends width ['\r', '\n'] := fun _ ⟨_, h⟩ => h.newline

lemma Continues.ends (h : Continues width s) (h' : Ends width s') : Ends width (s ++ s') := by
  intro t ht
  rw [puts_append]
  exact h' _ (h t ht)

lemma Ends.lines (h : Ends width s) : Lines width s := fun t ht => h t ht.behind

lemma lines_nil : Lines width [] := fun _ h => h

lemma Lines.append (h : Lines width s) (h' : Lines width s') : Lines width (s ++ s') := by
  intro t ht
  rw [puts_append]
  exact h' _ (h t ht)

/-- The screen is erased. -/
lemma lines_erase : Lines width "\x1b[1;1H\x1b[2J".toList := by
  intro t ht
  have hput : t.puts "\x1b[1;1H\x1b[2J".toList = blank := by
    obtain ⟨cell, line, col, control⟩ := t
    obtain rfl : control = none := ht.control
    rfl
  rw [hput]
  exact ⟨rfl, rfl, fun _ => rfl, fun _ _ _ => rfl⟩

lemma open_blank : (blank : Screen width).Open := ⟨rfl, rfl, fun _ => rfl, fun _ _ _ => rfl⟩

end Screen
