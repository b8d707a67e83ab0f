/-
# The line editor

`finsh_thread_entry` of `shell.c`: the keys that the shell reads edit a line in an array of
`FINSH_CMD_SIZE` characters, and the return key executes it.  The functions return `none` where
they would leave the array.  The array holds a text with a cursor, in front of null characters, and
every key does to the text what it stands for, as long as the text is shorter than the array.
-/
import HdmiDisplay.Lib.Transition
import HdmiDisplay.Lib.Zipper
import HdmiDisplay.Rtos.KService
import HdmiDisplay.Shell.Completion

namespace HdmiDisplay.Shell

open Rtos (rtMemmove)

/-- `FINSH_CMD_SIZE`. -/
def finshCmdSize : ℕ := 80

/-- `enum input_stat`. -/
inductive InputStat where
  | waitNormal
  | waitSpecKey
  | waitFuncKey
deriving DecidableEq, Repr

/-- `struct finsh_shell`. -/
structure FinshShell where
  stat : InputStat
  echoMode : Bool
  line : List Char
  linePosition : ℕ
  lineCurpos : ℕ

/-- `finsh_get_prompt`. -/
def finshGetPrompt : List Char := "msh >".toList

/-- `rt_kprintf` of characters. -/
def print (text : List Char) : Effect := .rtKprintf (String.ofList text)

/-- The cursor of the terminal moves to the left. -/
def printBackspace : Effect := print ['\x08']

namespace FinshShell

/-- The shell when it begins. -/
def init : FinshShell where
  stat := .waitNormal
  echoMode := true
  line := List.replicate finshCmdSize nul
  linePosition := 0
  lineCurpos := 0

/-- The left key. -/
def leftKey (s : FinshShell) : FinshShell × List Effect :=
  if s.lineCurpos ≠ 0 then ({ s with lineCurpos := s.lineCurpos - 1 }, [printBackspace])
  else (s, [])

/-- The right key. -/
def rightKey (s : FinshShell) : Option (FinshShell × List Effect) :=
  if s.lineCurpos < s.linePosition then
    s.line[s.lineCurpos]?.map fun c =>
      ({ s with lineCurpos := (s.lineCurpos + 1) % 2 ^ 16 }, [print [c]])
  else some (s, [])

/-- The tab key, with `shell_auto_complete`. -/
def tabKey (table : List Syscall) (s : FinshShell) : Option (FinshShell × List Effect) :=
  (cString s.line 0).bind fun text =>
    let r := mshAutoComplete table text
    if r.2.all (fun c => c.2 ≤ finshCmdSize) then
      let line := r.2.elim s.line fun c => rtStrncpy s.line 0 c.1 c.2
      (cString line 0).map fun text =>
        ({ s with
            line := line
            linePosition := text.length % 2 ^ 16
            lineCurpos := text.length % 2 ^ 16 },
          List.replicate s.lineCurpos printBackspace ++ [print ['\n']] ++ r.1 ++
            [print (finshGetPrompt ++ text)])
    else none

/-- The backspace key.  The positions have 16 bits. -/
def backspaceKey (s : FinshShell) : Option (FinshShell × List Effect) :=
  if s.lineCurpos = 0 then some (s, [])
  else
    let position := (s.linePosition + (2 ^ 16 - 1)) % 2 ^ 16
    let curpos := (s.lineCurpos + (2 ^ 16 - 1)) % 2 ^ 16
    if position < finshCmdSize then
      if curpos < position then
        let line := rtMemmove s.line curpos (curpos + 1) (position - curpos)
        let line := line.set position nul
        (cString line curpos).map fun text =>
          ({ s with line := line, linePosition := position, lineCurpos := curpos },
            print ('\x08' :: text ++ [' ', ' ', '\x08']) ::
              List.replicate (position - curpos + 1) printBackspace)
      else
        some ({ s with
            line := s.line.set position nul, linePosition := position, lineCurpos := curpos },
          [print ['\x08', ' ', '\x08']])
    else none

/-- The return key. -/
def returnKey (table : List Syscall) (s : FinshShell) : Option (FinshShell × List Effect) :=
  if s.linePosition ≤ finshCmdSize then
    (mshExec table s.line s.linePosition).map fun es =>
      ({ s with line := List.replicate finshCmdSize nul, linePosition := 0, lineCurpos := 0 },
        (if s.echoMode then [print ['\n']] else []) ++ es ++ [print finshGetPrompt])
  else none

/-- A normal character. -/
def normalKey (s : FinshShell) (ch : Char) : Option (FinshShell × List Effect) :=
  -- A large line is discarded.
  let position := if finshCmdSize ≤ s.linePosition then 0 else s.linePosition
  let r :=
    if s.lineCurpos < position then
      let line := rtMemmove s.line (s.lineCurpos + 1) s.lineCurpos (position - s.lineCurpos)
      let line := line.set s.lineCurpos ch
      let back := List.replicate (position - s.lineCurpos) printBackspace
      if s.echoMode then (cString line s.lineCurpos).map fun text => (line, print text :: back)
      else some (line, back)
    else some (s.line.set position ch, if s.echoMode then [print [ch]] else [])
  r.map fun r =>
    if finshCmdSize ≤ position + 1 then
      ({ s with line := r.1, linePosition := 0, lineCurpos := 0 }, r.2)
    else
      ({ s with
          line := r.1
          linePosition := position + 1
          lineCurpos := (s.lineCurpos + 1) % 2 ^ 16 }, r.2)

/-- A character that is not part of an escape sequence. -/
def key (table : List Syscall) (s : FinshShell) (ch : Char) : Option (FinshShell × List Effect) :=
  if ch = nul ∨ ch = '\xff' then some (s, [])
  else if ch = '\t' then s.tabKey table
  else if ch = '\x7f' ∨ ch = '\x08' then s.backspaceKey
  else if ch = '\r' ∨ ch = '\n' then s.returnKey table
  else s.normalKey ch

/-- The body of the loop of `finsh_thread_entry`. -/
def step (table : List Syscall) (s : FinshShell) (ch : Char) :
    Option (FinshShell × List Effect) :=
  if ch = '\x1b' then some ({ s with stat := .waitSpecKey }, [])
  else
    match s.stat with
    | .waitSpecKey =>
        if ch = '[' then some ({ s with stat := .waitFuncKey }, [])
        else { s with stat := .waitNormal }.key table ch
    | .waitFuncKey =>
        let s := { s with stat := .waitNormal }
        if ch = 'A' then some (s, [])
        else if ch = 'B' then some (s, [])
        else if ch = 'D' then some s.leftKey
        else if ch = 'C' then s.rightKey
        else s.key table ch
    | .waitNormal => s.key table ch

end FinshShell

/-! ### The editor -/

/-- What the characters stand for. -/
inductive Key where
  | ignored
  | insert (ch : Char)
  | backspace
  | left
  | right
  | tab
  | enter
deriving DecidableEq, Repr

/-- A character that is not part of an escape sequence. -/
def decodeKey (ch : Char) : Key :=
  if ch = nul ∨ ch = '\xff' then .ignored
  else if ch = '\t' then .tab
  else if ch = '\x7f' ∨ ch = '\x08' then .backspace
  else if ch = '\r' ∨ ch = '\n' then .enter
  else .insert ch

/-- The characters with the escape sequences. -/
def decode (stat : InputStat) (ch : Char) : InputStat × Key :=
  if ch = '\x1b' then (.waitSpecKey, .ignored)
  else
    match stat with
    | .waitSpecKey => if ch = '[' then (.waitFuncKey, .ignored) else (.waitNormal, decodeKey ch)
    | .waitFuncKey =>
        if ch = 'A' ∨ ch = 'B' then (.waitNormal, .ignored)
        else if ch = 'D' then (.waitNormal, .left)
        else if ch = 'C' then (.waitNormal, .right)
        else (.waitNormal, decodeKey ch)
    | .waitNormal => (.waitNormal, decodeKey ch)

/-- What a key does to the text. -/
def Key.edit (table : List Syscall) (z : Zipper Char) : Key → Zipper Char
  | ignored => z
  | insert ch => z.insert ch
  | backspace => z.backspace
  | left => z.left
  | right => z.right
  | tab => Zipper.ofList (complete table z.text)
  | enter => ⟨[], []⟩

/-- What a key prints and executes. -/
def Key.effects (table : List Syscall) (z : Zipper Char) : Key → List Effect
  | ignored => []
  | insert ch =>
      if z.after = [] then [print [ch]]
      else print (ch :: z.after) :: List.replicate z.after.length printBackspace
  | backspace =>
      if z.before = [] then []
      else if z.after = [] then [print ['\x08', ' ', '\x08']]
      else print ('\x08' :: z.after ++ [' ', ' ', '\x08']) ::
        List.replicate (z.after.length + 1) printBackspace
  | left => if z.before = [] then [] else [printBackspace]
  | right => z.after.head?.elim [] fun ch => [print [ch]]
  | tab => List.replicate z.cursor printBackspace ++ [print ['\n']] ++
      (mshAutoComplete table z.text).1 ++ [print (finshGetPrompt ++ complete table z.text)]
  | enter => [print ['\n']] ++ runCommand table z.text ++ [print finshGetPrompt]

/-- The text that is edited, and the part of an escape sequence that was read. -/
structure Editor where
  stat : InputStat
  zip : Zipper Char

namespace Editor

/-- The editor when it begins. -/
def init : Editor := ⟨.waitNormal, ⟨[], []⟩⟩

/-- A character is read, if the text stays shorter than the array. -/
def step (table : List Syscall) (e : Editor) (ch : Char) : Option (Editor × List Effect) :=
  let r := decode e.stat ch
  let z := r.2.edit table e.zip
  if z.text.length < finshCmdSize then some (⟨r.1, z⟩, r.2.effects table e.zip) else none

end Editor

/-! ### The array -/

/-- The shell whose array holds the text of an editor. -/
def Editor.shell (e : Editor) : FinshShell where
  stat := e.stat
  echoMode := true
  line := e.zip.text ++ List.replicate (finshCmdSize - e.zip.text.length) nul
  linePosition := e.zip.text.length
  lineCurpos := e.zip.cursor

/-- The text is shorter than the array and has no null character. -/
structure Fits (z : Zipper Char) : Prop where
  length : z.text.length < finshCmdSize
  nul_notMem : nul ∉ z.text

variable {table : List Syscall} {stat : InputStat} {z z' : Zipper Char} {ch : Char}

/-- There is a null character behind the text. -/
lemma Fits.line_eq (stat : InputStat) (h : Fits z) :
    (Editor.shell ⟨stat, z⟩).line = z.before.reverse ++ z.after ++
      nul :: List.replicate (finshCmdSize - z.text.length - 1) nul := by
  have hlength := h.length
  rw [← List.replicate_succ, Nat.sub_add_cancel (by omega)]
  rfl

lemma Fits.cString_eq (stat : InputStat) (h : Fits z) :
    cString (Editor.shell ⟨stat, z⟩).line z.cursor = some z.after := by
  have hafter : nul ∉ z.after := fun hmem => h.nul_notMem (List.mem_append_right _ hmem)
  have hstring := cString_append z.before.reverse
    (t := nul :: List.replicate (finshCmdSize - z.text.length - 1) nul) hafter rfl
  rwa [← h.line_eq stat, List.length_reverse] at hstring

/-- The cursor alone moves. -/
lemma shell_eq_of_text (h : z'.text = z.text) : Editor.shell ⟨stat, z'⟩ =
    { Editor.shell ⟨stat, z⟩ with lineCurpos := z'.cursor } := by
  rw [Editor.shell, h]
  rfl

lemma leftKey_eq (table : List Syscall) (stat : InputStat) (z : Zipper Char) :
    (Editor.shell ⟨stat, z⟩).leftKey =
      (Editor.shell ⟨stat, z.left⟩, Key.left.effects table z) := by
  rw [shell_eq_of_text (Zipper.text_left z), Zipper.cursor_left]
  obtain ⟨before, after⟩ := z
  cases before <;> rfl

lemma rightKey_eq (table : List Syscall) (stat : InputStat) (h : Fits z) :
    (Editor.shell ⟨stat, z⟩).rightKey =
      some (Editor.shell ⟨stat, z.right⟩, Key.right.effects table z) := by
  have hline := h.line_eq stat
  have hlength := h.length
  rw [shell_eq_of_text (Zipper.text_right z)]
  obtain ⟨before, after⟩ := z
  cases after with
  | nil =>
    refine if_neg ?_
    rw [Editor.shell, Zipper.length_text]
    exact lt_irrefl _
  | cons c after =>
    have hcur : (Editor.shell ⟨stat, ⟨before, c :: after⟩⟩).line[before.length]? = some c := by
      rw [hline, List.append_assoc, List.getElem?_append_right (by simp)]
      simp
    have hmod : (before.length + 1) % 2 ^ 16 = before.length + 1 := by
      rw [Zipper.length_text, finshCmdSize] at hlength
      exact Nat.mod_eq_of_lt (by dsimp only at hlength; omega)
    rw [FinshShell.rightKey, if_pos]
    · change Option.map _ (Editor.shell ⟨stat, ⟨before, c :: after⟩⟩).line[before.length]? = _
      rw [hcur]
      simp only [Editor.shell, Zipper.cursor, hmod]
      rfl
    · rw [Editor.shell, Zipper.length_text, List.length_cons]
      exact Nat.lt_add_of_pos_right (Nat.succ_pos _)

lemma returnKey_eq (table : List Syscall) (stat : InputStat) (h : Fits z) :
    (Editor.shell ⟨stat, z⟩).returnKey table =
      some (Editor.shell ⟨stat, ⟨[], []⟩⟩, Key.enter.effects table z) := by
  have hlength := h.length
  have htail : (List.replicate (finshCmdSize - z.text.length) nul).head? = some nul := by
    obtain ⟨n, hn⟩ := Nat.exists_eq_add_of_lt hlength
    rw [hn, Nat.add_assoc, Nat.add_sub_cancel_left]
    rfl
  have hexec := mshExec_eq_runCommand table h.nul_notMem htail
  rw [FinshShell.returnKey, if_pos (by exact hlength.le)]
  change Option.map _ (mshExec table (z.text ++ _) z.text.length) = _
  rw [hexec]
  rfl

lemma length_line (e : Editor) (h : e.zip.text.length < finshCmdSize) :
    e.shell.line.length = finshCmdSize := by
  rw [Editor.shell, List.length_append, List.length_replicate]
  omega

/-- A position that is not zero is lowered. -/
lemma pred_mod {n : ℕ} (h : n < finshCmdSize) : (n + 1 + (2 ^ 16 - 1)) % 2 ^ 16 = n := by
  rw [finshCmdSize] at h
  omega

lemma Fits.backspace (h : Fits z) : Fits z.backspace := by
  refine ⟨lt_of_le_of_lt ?_ h.length, fun hmem => h.nul_notMem (Zipper.mem_text_backspace hmem)⟩
  rw [Zipper.length_text, Zipper.length_text, Zipper.backspace, List.length_tail]
  exact Nat.add_le_add_right (Nat.sub_le _ _) _

lemma backspaceKey_eq (table : List Syscall) (stat : InputStat) (h : Fits z) :
    (Editor.shell ⟨stat, z⟩).backspaceKey =
      some (Editor.shell ⟨stat, z.backspace⟩, Key.backspace.effects table z) := by
  obtain ⟨before, after⟩ := z
  cases before with
  | nil => rfl
  | cons b before =>
    have hlength := h.length
    have hlen : (Zipper.text ⟨b :: before, after⟩).length = before.length + after.length + 1 := by
      rw [Zipper.length_text]
      dsimp only
      rw [List.length_cons]
      omega
    have hline' := h.backspace.line_eq stat
    have hlen' : (Zipper.text (Zipper.backspace ⟨b :: before, after⟩)).length =
        before.length + after.length := Zipper.length_text _
    -- The array after the deletion has one more null character.
    have hafter : before.reverse ++ after ++ nul :: nul ::
        List.replicate (finshCmdSize - (before.length + after.length + 1) - 1) nul =
        (Editor.shell ⟨stat, Zipper.backspace ⟨b :: before, after⟩⟩).line := by
      rw [hline', hlen', ← List.replicate_succ]
      congr 3
      omega
    have hbefore : (Editor.shell ⟨stat, ⟨b :: before, after⟩⟩).line =
        before.reverse ++ b :: after ++ nul ::
          List.replicate (finshCmdSize - (before.length + after.length + 1) - 1) nul := by
      rw [h.line_eq, hlen, List.reverse_cons]
      simp
    have hmove := Zipper.set_move_down before.reverse after
      (nul :: List.replicate (finshCmdSize - (before.length + after.length + 1) - 1) nul) nul b
    rw [← hbefore, hafter, List.length_reverse] at hmove
    have hshell : { Editor.shell ⟨stat, ⟨b :: before, after⟩⟩ with
        line := (Editor.shell ⟨stat, Zipper.backspace ⟨b :: before, after⟩⟩).line
        linePosition := before.length + after.length
        lineCurpos := before.length } =
        Editor.shell ⟨stat, Zipper.backspace ⟨b :: before, after⟩⟩ := by
      rw [← hlen']
      rfl
    have hposition := pred_mod (n := before.length + after.length) (by omega)
    have hcurpos := pred_mod (n := before.length) (by omega)
    have hcur : (Editor.shell ⟨stat, ⟨b :: before, after⟩⟩).lineCurpos = before.length + 1 := rfl
    have hpos : (Editor.shell ⟨stat, ⟨b :: before, after⟩⟩).linePosition =
        before.length + after.length + 1 := hlen
    rw [FinshShell.backspaceKey, hcur, hpos, if_neg (Nat.succ_ne_zero _)]
    simp only [hposition, hcurpos]
    rw [if_pos (by omega)]
    -- at the end of the line the source moves nothing, and neither does a move of no characters
    cases after with
    | nil =>
      rw [List.length_nil, Block.move_zero] at hmove
      rw [if_neg (by simp), List.length_nil, hmove]
      exact congrArg some (Prod.ext hshell rfl)
    | cons a after =>
      have hn : before.length + (a :: after).length - before.length = (a :: after).length := by
        omega
      have hlen₁ := length_line ⟨stat, ⟨b :: before, a :: after⟩⟩ hlength
      have hcString : cString (Editor.shell ⟨stat, Zipper.backspace ⟨b :: before, a :: after⟩⟩).line
          before.length = some (a :: after) := h.backspace.cString_eq stat
      rw [if_pos (by simp), hn, Rtos.rtMemmove_eq (by omega) (by omega), hmove, hcString]
      exact congrArg some (Prod.ext hshell rfl)

/-- The text with a character more still fits. -/
lemma Fits.insert (h : Fits z) (hlen : (z.insert ch).text.length < finshCmdSize) (hch : ch ≠ nul) :
    Fits (z.insert ch) := by
  refine ⟨hlen, ?_⟩
  rw [Zipper.text_insert]
  intro hmem
  rcases List.mem_append.mp hmem with hmem | hmem
  · exact h.nul_notMem (List.mem_append_left _ hmem)
  · rcases List.mem_cons.mp hmem with hmem | hmem
    · exact hch hmem.symm
    · exact h.nul_notMem (List.mem_append_right _ hmem)

lemma normalKey_eq (table : List Syscall) (stat : InputStat) (h : Fits z)
    (hlen : (z.insert ch).text.length < finshCmdSize) (hch : ch ≠ nul) :
    (Editor.shell ⟨stat, z⟩).normalKey ch =
      some (Editor.shell ⟨stat, z.insert ch⟩, (Key.insert ch).effects table z) := by
  have hinsert := h.insert hlen hch
  rw [Zipper.length_text_insert] at hlen
  have hsize : finshCmdSize = 80 := rfl
  have hline := hinsert.line_eq stat
  rw [Zipper.length_text_insert] at hline
  obtain ⟨before, after⟩ := z
  have hlength : (Zipper.text ⟨before, after⟩).length = before.length + after.length :=
    Zipper.length_text _
  have hafter : before.reverse ++ ch :: after ++
      nul :: List.replicate (finshCmdSize - (before.length + after.length + 1) - 1) nul =
      (Editor.shell ⟨stat, Zipper.insert ⟨before, after⟩ ch⟩).line := by
    rw [hline, hlength, Zipper.insert, List.reverse_cons]
    simp
  have hbefore : (Editor.shell ⟨stat, ⟨before, after⟩⟩).line = before.reverse ++ after ++ nul ::
      nul :: List.replicate (finshCmdSize - (before.length + after.length + 1) - 1) nul := by
    have hn : finshCmdSize - (before.length + after.length) - 1 =
        finshCmdSize - (before.length + after.length + 1) - 1 + 1 := by omega
    rw [h.line_eq, hlength, hn, List.replicate_succ]
  have hmove := Zipper.set_move_up before.reverse after
    (nul :: List.replicate (finshCmdSize - (before.length + after.length + 1) - 1) nul) ch nul
  rw [← hbefore, hafter, List.length_reverse] at hmove
  have hshell : { Editor.shell ⟨stat, ⟨before, after⟩⟩ with
      line := (Editor.shell ⟨stat, Zipper.insert ⟨before, after⟩ ch⟩).line
      linePosition := before.length + after.length + 1
      lineCurpos := before.length + 1 } =
      Editor.shell ⟨stat, Zipper.insert ⟨before, after⟩ ch⟩ := by
    rw [← hlength, ← Zipper.length_text_insert]
    rfl
  have hmod : (before.length + 1) % 2 ^ 16 = before.length + 1 := Nat.mod_eq_of_lt (by omega)
  have hcur : (Editor.shell ⟨stat, ⟨before, after⟩⟩).lineCurpos = before.length := rfl
  have hpos : (Editor.shell ⟨stat, ⟨before, after⟩⟩).linePosition = before.length + after.length :=
    hlength
  have hecho : (Editor.shell ⟨stat, ⟨before, after⟩⟩).echoMode = true := rfl
  rw [FinshShell.normalKey, hcur, hpos, hecho]
  simp only [if_neg (show ¬finshCmdSize ≤ before.length + after.length by omega), if_true,
    if_neg (show ¬finshCmdSize ≤ before.length + after.length + 1 by omega), hmod]
  cases after with
  | nil =>
    rw [List.length_nil, Block.move_zero] at hmove
    rw [if_neg (by simp)]
    simp only [List.length_nil, Nat.add_zero, hmove]
    exact congrArg some (Prod.ext hshell rfl)
  | cons a after =>
    have hn : before.length + (a :: after).length - before.length = (a :: after).length := by omega
    have hlen₁ := length_line ⟨stat, ⟨before, a :: after⟩⟩ h.length
    -- the character and the rest are printed up to the null character behind them
    have hafter' : nul ∉ ch :: a :: after := by
      intro hmem
      refine hinsert.nul_notMem ?_
      rw [Zipper.text_insert]
      exact List.mem_append_right _ hmem
    have hcString := cString_append before.reverse (t := nul ::
      List.replicate (finshCmdSize - (before.length + (a :: after).length + 1) - 1) nul) hafter' rfl
    rw [hafter, List.length_reverse] at hcString
    rw [if_pos (by simp), hn, Rtos.rtMemmove_eq (by omega) (by omega), hmove, hcString]
    exact congrArg some (Prod.ext hshell rfl)

/-- The whole completion is copied. -/
lemma rtStrncpy_eq {buffer src : List Char} {n : ℕ} (hsrc : n ≤ src.length) (d : ℕ)
    (hd : d + n ≤ buffer.length) :
    rtStrncpy buffer d src n = buffer.take d ++ src.take n ++ buffer.drop (d + n) := by
  induction n generalizing buffer src d with
  | zero => rw [rtStrncpy, List.take_zero, List.append_nil, Nat.add_zero, List.take_append_drop]
  | succ n ih =>
    cases src with
    | nil => exact absurd hsrc (by simp)
    | cons c src =>
      have hlt : d < buffer.length := by omega
      have htake : (buffer.set d c).take (d + 1) = buffer.take d ++ [c] := by
        rw [List.take_add_one, List.getElem?_set_self hlt, List.take_set,
          List.set_eq_of_length_le (List.length_take_le _ _)]
        rfl
      rw [rtStrncpy, ih (by simpa using hsrc) (d + 1) (by rw [List.length_set]; omega), htake,
        List.drop_set_of_lt (by omega), List.take_succ_cons, Nat.add_assoc, Nat.add_comm 1 n]
      simp

lemma Fits.complete (h : Fits z) (hlen : (complete table z.text).length < finshCmdSize) :
    Fits (Zipper.ofList (complete table z.text)) := by
  refine ⟨by rwa [Zipper.text_ofList], ?_⟩
  rw [Zipper.text_ofList]
  exact nul_notMem_complete h.nul_notMem

/-- The whole array as a string. -/
lemma Fits.cString_zero (stat : InputStat) (h : Fits z) :
    cString (Editor.shell ⟨stat, z⟩).line 0 = some z.text := by
  have hstring := cString_append []
    (t := nul :: List.replicate (finshCmdSize - z.text.length - 1) nul) h.nul_notMem rfl
  rw [List.nil_append] at hstring
  rw [h.line_eq]
  exact hstring

lemma tabKey_eq (table : List Syscall) (stat : InputStat) (h : Fits z)
    (hlen : (complete table z.text).length < finshCmdSize) :
    (Editor.shell ⟨stat, z⟩).tabKey table =
      some (Editor.shell ⟨stat, Zipper.ofList (complete table z.text)⟩,
        Key.tab.effects table z) := by
  have hfits := h.complete hlen
  have hsize : finshCmdSize = 80 := rfl
  have hshell : { Editor.shell ⟨stat, z⟩ with
      line := (Editor.shell ⟨stat, Zipper.ofList (complete table z.text)⟩).line
      linePosition := (complete table z.text).length % 2 ^ 16
      lineCurpos := (complete table z.text).length % 2 ^ 16 } =
      Editor.shell ⟨stat, Zipper.ofList (complete table z.text)⟩ := by
    rw [Nat.mod_eq_of_lt (by omega), Editor.shell, Editor.shell, Zipper.text_ofList,
      Zipper.cursor_ofList]
  have hnew : (mshAutoComplete table z.text).2.all (fun c => c.2 ≤ finshCmdSize) = true ∧
      ((mshAutoComplete table z.text).2.elim (Editor.shell ⟨stat, z⟩).line fun c =>
        rtStrncpy (Editor.shell ⟨stat, z⟩).line 0 c.1 c.2) =
      (Editor.shell ⟨stat, Zipper.ofList (complete table z.text)⟩).line := by
    cases hr : (mshAutoComplete table z.text).2 with
    | none =>
      have hcomplete : complete table z.text = z.text := by rw [complete, hr]; rfl
      refine ⟨rfl, ?_⟩
      rw [hcomplete, Editor.shell, Editor.shell, Zipper.text_ofList]
      rfl
    | some r =>
      obtain ⟨hmem, hle, hcomplete⟩ := mshAutoComplete_eq_some hr
      have hn : (complete table z.text).length = r.2 := by
        rw [hcomplete, List.length_take, Nat.min_eq_left hle]
      have hext := (complete_extends table z.text).length_le
      have hlen₁ := length_line ⟨stat, z⟩ h.length
      have hpad : finshCmdSize - z.text.length - ((complete table z.text).length - z.text.length) =
          finshCmdSize - (complete table z.text).length := by omega
      refine ⟨?_, ?_⟩
      · change decide (r.2 ≤ finshCmdSize) = true
        exact decide_eq_true (by omega)
      -- the completion overwrites the line, and behind it the array is null as before
      · change rtStrncpy _ 0 r.1 r.2 = _
        rw [rtStrncpy_eq hle 0 (by omega), ← hcomplete, ← hn, Editor.shell, Editor.shell,
          Zipper.text_ofList, List.take_zero, List.nil_append, Nat.zero_add, List.drop_append,
          List.drop_of_length_le hext, List.nil_append, List.drop_replicate, hpad]
  have hcString := hfits.cString_zero stat
  rw [Zipper.text_ofList] at hcString
  rw [FinshShell.tabKey, h.cString_zero, Option.bind_some]
  simp only [hnew.1, if_true, hnew.2, hcString, Option.map_some]
  exact congrArg some (Prod.ext hshell rfl)

/-! ### Runs -/

/-- A key that is not part of an escape sequence. -/
lemma key_eq (table : List Syscall) (stat : InputStat) (h : Fits z)
    (hlen : ((decodeKey ch).edit table z).text.length < finshCmdSize) :
    (Editor.shell ⟨stat, z⟩).key table ch =
      some (Editor.shell ⟨stat, (decodeKey ch).edit table z⟩, (decodeKey ch).effects table z) := by
  rw [FinshShell.key]
  unfold decodeKey at hlen ⊢
  split_ifs at hlen ⊢ with hnul htab hback hreturn
  · rfl
  · exact tabKey_eq table stat h (by rwa [Key.edit, Zipper.text_ofList] at hlen)
  · exact backspaceKey_eq table stat h
  · exact returnKey_eq table stat h
  · exact normalKey_eq table stat h hlen fun hch => hnul (Or.inl hch)

lemma Fits.edit {k : Key} (h : Fits z) (hk : k ≠ .insert nul)
    (hlen : (k.edit table z).text.length < finshCmdSize) : Fits (k.edit table z) := by
  cases k with
  | ignored => exact h
  | insert ch => exact h.insert hlen fun hch => hk (by rw [hch])
  | backspace => exact h.backspace
  | left => exact ⟨hlen, by rw [Key.edit, Zipper.text_left]; exact h.nul_notMem⟩
  | right => exact ⟨hlen, by rw [Key.edit, Zipper.text_right]; exact h.nul_notMem⟩
  | tab => exact h.complete (by rwa [Key.edit, Zipper.text_ofList] at hlen)
  | enter => exact ⟨hlen, List.not_mem_nil⟩

lemma decodeKey_ne (ch : Char) : decodeKey ch ≠ .insert nul := by
  unfold decodeKey
  split_ifs with hnul
  all_goals first | exact Key.noConfusion | skip
  exact fun h => hnul (Or.inl (Key.insert.inj h))

lemma decode_ne (stat : InputStat) (ch : Char) : (decode stat ch).2 ≠ .insert nul := by
  have hch := decodeKey_ne ch
  unfold decode
  cases stat
  all_goals
    dsimp only
    split_ifs
  all_goals first | exact hch | exact Key.noConfusion

lemma step_eq (table : List Syscall) {e : Editor} (h : Fits e.zip)
    (hlen : ((decode e.stat ch).2.edit table e.zip).text.length < finshCmdSize) :
    e.shell.step table ch =
      some (Editor.shell ⟨(decode e.stat ch).1, (decode e.stat ch).2.edit table e.zip⟩,
        (decode e.stat ch).2.effects table e.zip) := by
  obtain ⟨stat, z⟩ := e
  by_cases hesc : ch = '\x1b'
  · have hd : decode stat ch = (.waitSpecKey, .ignored) := if_pos hesc
    rw [hd]
    exact if_pos hesc
  cases stat with
  | waitNormal =>
    have hd : decode .waitNormal ch = (.waitNormal, decodeKey ch) := if_neg hesc
    rw [hd] at hlen ⊢
    exact (if_neg hesc).trans (key_eq table .waitNormal h hlen)
  | waitSpecKey =>
    by_cases hspec : ch = '['
    · have hd : decode .waitSpecKey ch = (.waitFuncKey, .ignored) :=
        (if_neg hesc).trans (if_pos hspec)
      rw [hd]
      exact (if_neg hesc).trans (if_pos hspec)
    · have hd : decode .waitSpecKey ch = (.waitNormal, decodeKey ch) :=
        (if_neg hesc).trans (if_neg hspec)
      rw [hd] at hlen ⊢
      exact (if_neg hesc).trans ((if_neg hspec).trans (key_eq table .waitNormal h hlen))
  | waitFuncKey =>
    by_cases hud : ch = 'A' ∨ ch = 'B'
    · have hd : decode .waitFuncKey ch = (.waitNormal, .ignored) := (if_neg hesc).trans (if_pos hud)
      rw [hd]
      rcases hud with rfl | rfl <;> rfl
    have hup : ch ≠ 'A' := fun h => hud (Or.inl h)
    have hdown : ch ≠ 'B' := fun h => hud (Or.inr h)
    -- up and down are swallowed, and any other character ends the sequence as a key
    have hstep : ∀ r, (if ch = 'D' then some (Editor.shell ⟨.waitNormal, z⟩).leftKey
        else if ch = 'C' then (Editor.shell ⟨.waitNormal, z⟩).rightKey
        else (Editor.shell ⟨.waitNormal, z⟩).key table ch) = r →
        (Editor.shell ⟨.waitFuncKey, z⟩).step table ch = r := by
      intro r hr
      exact (if_neg hesc).trans ((if_neg hup).trans ((if_neg hdown).trans hr))
    by_cases hleft : ch = 'D'
    · have hd : decode .waitFuncKey ch = (.waitNormal, .left) :=
        (if_neg hesc).trans ((if_neg hud).trans (if_pos hleft))
      rw [hd]
      exact hstep _ ((if_pos hleft).trans (congrArg some (leftKey_eq table .waitNormal z)))
    by_cases hright : ch = 'C'
    · have hd : decode .waitFuncKey ch = (.waitNormal, .right) :=
        (if_neg hesc).trans ((if_neg hud).trans ((if_neg hleft).trans (if_pos hright)))
      rw [hd]
      exact hstep _ ((if_neg hleft).trans ((if_pos hright).trans (rightKey_eq table .waitNormal h)))
    · have hd : decode .waitFuncKey ch = (.waitNormal, decodeKey ch) :=
        (if_neg hesc).trans ((if_neg hud).trans ((if_neg hleft).trans (if_neg hright)))
      rw [hd] at hlen ⊢
      exact hstep _ ((if_neg hleft).trans ((if_neg hright).trans (key_eq table .waitNormal h hlen)))

variable {e e' : Editor} {es : List Effect} {chs : List Char} {ess : List (List Effect)}

lemma Editor.step_eq_some (he : e.step table ch = some (e', es)) (h : Fits e.zip) :
    e.shell.step table ch = some (e'.shell, es) ∧ Fits e'.zip := by
  rw [Editor.step, Option.ite_none_right_eq_some, Option.some_inj] at he
  obtain ⟨hlen, heq⟩ := he
  obtain ⟨rfl, rfl⟩ := Prod.mk.inj heq
  exact ⟨step_eq table h hlen, h.edit (decode_ne e.stat ch) hlen⟩

lemma fits_nil : Fits ⟨[], []⟩ := ⟨by decide, List.not_mem_nil⟩

lemma Editor.trace_eq (h : Fits e.zip)
    (hrun : Transition.trace (Editor.step table) e chs = some (e', ess)) :
    Transition.trace (FinshShell.step table) e.shell chs = some (e'.shell, ess) ∧ Fits e'.zip := by
  induction chs generalizing e ess with
  | nil =>
    rw [Transition.trace_nil, Option.some_inj] at hrun
    obtain ⟨rfl, rfl⟩ := Prod.mk.inj hrun
    exact ⟨Transition.trace_nil, h⟩
  | cons ch chs ih =>
    obtain ⟨e₁, es, ess', hstep, hrest, rfl⟩ := Transition.trace_cons.mp hrun
    obtain ⟨hshell, h₁⟩ := Editor.step_eq_some hstep h
    obtain ⟨hrun', h'⟩ := ih h₁ hrest
    exact ⟨Transition.trace_cons.mpr ⟨_, _, _, hshell, hrun', rfl⟩, h'⟩

/-- **The line editor.**  For every table of commands and every sequence of characters, with any
editing in between, as long as the text stays shorter than the array: the shell prints and executes
what the editor of a text with a cursor does, never leaves its array, and the array holds the text.
-/
theorem line_editor
    (h : Transition.trace (Editor.step table) Editor.init chs = some (e, ess)) :
    ∃ s, Transition.trace (FinshShell.step table) FinshShell.init chs = some (s, ess) ∧
      s.line = e.zip.text ++ List.replicate (finshCmdSize - e.zip.text.length) nul ∧
      s.linePosition = e.zip.text.length ∧ s.lineCurpos = e.zip.cursor ∧ s.stat = e.stat := by
  obtain ⟨hrun, -⟩ := Editor.trace_eq fits_nil h
  exact ⟨e.shell, hrun, rfl, rfl, rfl, rfl⟩

/-- `ab`, the cursor is moved between the two, and `c` is typed there. -/
theorem line_editor_insert :
    ∃ s ess, Transition.trace (FinshShell.step []) FinshShell.init "ab\x1b[Dc".toList =
      some (s, ess) ∧ s.line.take 4 = "acb".toList ++ [nul] := by
  have h : ∃ ess, Transition.trace (Editor.step []) Editor.init "ab\x1b[Dc".toList =
      some (⟨.waitNormal, ⟨['c', 'a'], ['b']⟩⟩, ess) := ⟨_, rfl⟩
  obtain ⟨ess, h⟩ := h
  obtain ⟨s, hrun, hline, -⟩ := line_editor h
  exact ⟨s, _, hrun, by rw [hline]; rfl⟩

end HdmiDisplay.Shell
