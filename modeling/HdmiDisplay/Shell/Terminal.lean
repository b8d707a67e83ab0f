/-
# The terminal of the shell

What the shell prints, as the characters that `rt_hw_console_output` sends to the
terminal.  Whatever is typed, the last line of the screen is the prompt and the line that is edited,
with the cursor where the shell inserts the next character, if the terminal is wide enough for the
longest line.
-/
import HdmiDisplay.Lib.Screen
import HdmiDisplay.Shell.LineEditor

namespace HdmiDisplay.Shell

open Screen

/-- `RT_CONSOLEBUF_SIZE`. -/
def rtConsolebufSize : ℕ := 128

/-- `rt_hw_console_output`. -/
def rtHwConsoleOutput (str : List Char) : List Char :=
  str.flatMap fun c => if c = '\n' then ['\r', c] else [c]

/-- The characters that are sent.  `rt_vsnprintf` is told one character less than the buffer of
`rt_kprintf` has, and ends the text with a null character. -/
def Effect.output : Effect → List Char
  | write _ _ => []
  | rtKprintf text => rtHwConsoleOutput (text.toList.take (rtConsolebufSize - 2))

/-- The characters of all effects. -/
def output (es : List Effect) : List Char := es.flatMap Effect.output

/-- Commands with printable names that fit into the buffer of `rt_kprintf`, which print whole lines
or erase the screen. -/
structure IsTerminalTable (width : ℕ) (table : List Syscall) : Prop where
  name : ∀ index ∈ table, ∀ c ∈ index.name, IsPrintable c
  length : ∀ index ∈ table, index.name.length < rtConsolebufSize
  func : ∀ index ∈ table, ∀ argv, Lines width (output (index.func argv))

/-- A character that is inserted can be shown. -/
def IsTyped : Key → Prop
  | .insert ch => IsPrintable ch
  | _ => True

instance : (k : Key) → Decidable (IsTyped k)
  | .insert ch => inferInstanceAs (Decidable (IsPrintable ch))
  | .ignored | .backspace | .left | .right | .tab | .enter => inferInstanceAs (Decidable True)

/-- What a keyboard sends: escape sequences, and keys whose characters can be shown. -/
def IsInput (ch : Char) : Prop := ch ≠ '\x1b' → IsTyped (decodeKey ch)

instance (ch : Char) : Decidable (IsInput ch) := inferInstanceAs (Decidable (_ → _))

/-- The text with the prompt in front. -/
def prompted (z : Zipper Char) : Zipper Char := ⟨z.before ++ finshGetPrompt.reverse, z.after⟩

variable {width : ℕ} {table : List Syscall} {es es' : List Effect} {s line : List Char}
  {text : String} {t : Screen width} {z : Zipper Char} {k : Key}

/-! ### The output of effects -/

lemma output_append (es es' : List Effect) : output (es ++ es') = output es ++ output es' :=
  List.flatMap_append

lemma output_cons (e : Effect) (es : List Effect) : output (e :: es) = e.output ++ output es := rfl

lemma output_singleton (e : Effect) : output [e] = e.output := List.append_nil _

lemma rtHwConsoleOutput_eq (h : '\n' ∉ s) : rtHwConsoleOutput s = s := by
  induction s with
  | nil => rfl
  | cons c s ih =>
    rw [List.mem_cons, not_or] at h
    rw [rtHwConsoleOutput, List.flatMap_cons, if_neg (Ne.symm h.1)]
    exact congrArg (c :: ·) (ih h.2)

/-- A short text without new lines is sent as it is. -/
lemma output_print (h : '\n' ∉ s) (hlen : s.length ≤ rtConsolebufSize - 2) :
    (print s).output = s := by
  rw [print, Effect.output, String.toList_ofList, List.take_of_length_le hlen,
    rtHwConsoleOutput_eq h]

lemma output_replicate (n : ℕ) :
    output (List.replicate n printBackspace) = List.replicate n '\x08' := by
  induction n with
  | zero => rfl
  | succ n ih =>
    rw [List.replicate_succ, List.replicate_succ, output_cons, ih]
    rfl

/-- What holds of the output of each effect and of texts that are put together. -/
lemma output_induction {P : List Char → Prop} (hnil : P [])
    (happend : ∀ s s', P s → P s' → P (s ++ s')) (h : ∀ e ∈ es, P e.output) : P (output es) := by
  induction es with
  | nil => exact hnil
  | cons e es ih =>
    rw [output_cons]
    exact happend _ _ (h e List.mem_cons_self) (ih fun e' he' => h e' (List.mem_cons_of_mem e he'))

lemma newline_notMem (h : ∀ c ∈ s, IsPrintable c) : '\n' ∉ s := by
  intro hmem
  exact absurd (h _ hmem) (by decide)

lemma nul_notMem_of_isPrintable (h : ∀ c ∈ s, IsPrintable c) : nul ∉ s := by
  intro hmem
  exact absurd (h _ hmem) (by decide)

/-- A text of printable characters, even if it is cut off. -/
lemma continues_output (h : ∀ c ∈ s, IsPrintable c) :
    Continues width (Effect.rtKprintf (String.ofList s)).output := by
  have htake : ∀ c ∈ s.take (rtConsolebufSize - 2), IsPrintable c :=
    fun c hc => h c (List.mem_of_mem_take hc)
  rw [Effect.output, String.toList_ofList, rtHwConsoleOutput_eq (newline_notMem htake)]
  exact continues_of_isPrintable htake

/-- A text that ends in a new line, and is not cut off. -/
lemma ends_output (hlast : text.toList.getLast? = some '\n')
    (hlen : text.toList.length ≤ rtConsolebufSize - 2)
    (h : ∀ c ∈ text.toList.dropLast, IsPrintable c) :
    Ends width (Effect.rtKprintf text).output := by
  obtain ⟨s, hs⟩ := List.getLast?_eq_some_iff.mp hlast
  rw [hs, List.dropLast_concat] at h
  have hsend : (Effect.rtKprintf text).output = s ++ ['\r', '\n'] := by
    rw [Effect.output, List.take_of_length_le hlen, hs, rtHwConsoleOutput, List.flatMap_append]
    exact congrArg (· ++ ['\r', '\n']) (rtHwConsoleOutput_eq (newline_notMem h))
  rw [hsend]
  exact (continues_of_isPrintable h).ends ends_newline

lemma ends_output_concat (h : ∀ c ∈ s, IsPrintable c) (hlen : s.length < rtConsolebufSize - 2) :
    Ends width (Effect.rtKprintf (String.ofList (s ++ ['\n']))).output := by
  refine ends_output ?_ ?_ ?_
  · rw [String.toList_ofList, List.getLast?_concat]
  · rw [String.toList_ofList, List.length_append]
    exact hlen
  · rw [String.toList_ofList, List.dropLast_concat]
    exact h

/-- A line, and another one in several pieces. -/
lemma lines_pieces {e : Effect} (he : Lines width e.output)
    (h : ∀ e ∈ es, Continues width e.output) :
    Lines width (output (e :: es ++ [.rtKprintf "\n"])) := by
  have hend : Ends width (Effect.rtKprintf "\n").output := ends_output rfl (by decide) nofun
  have hpieces : Continues width (output es) :=
    output_induction continues_nil (fun _ _ => Continues.append) h
  rw [List.cons_append, output_cons, output_append, output_singleton]
  exact he.append (hpieces.ends hend).lines

/-! ### The commands -/

/-- A text with a blank behind it. -/
lemma continues_output_blank (h : ∀ c ∈ s, IsPrintable c) :
    Continues width (Effect.rtKprintf (String.ofList (s ++ [' ']))).output := by
  refine continues_output fun c hc => ?_
  rcases List.mem_append.mp hc with hc | hc
  · exact h c hc
  · rw [List.mem_singleton.mp hc]
    decide

lemma lines_tooManyArgs {argv : List (List Char)} (h : ∀ arg ∈ argv, ∀ c ∈ arg, IsPrintable c) :
    Lines width (output (tooManyArgs argv)) := by
  refine lines_pieces (ends_output rfl (by decide) (forall_mem_of_all rfl)).lines fun e he => ?_
  obtain ⟨arg, harg, rfl⟩ := List.mem_map.mp he
  exact continues_output_blank (h arg harg)

lemma mshGetCmd_eq_some {cmd : List Char} {n : ℕ} {func : List (List Char) → List Effect}
    (h : mshGetCmd table cmd n = some func) : ∃ index ∈ table, index.func = func := by
  obtain ⟨index, hfind, rfl⟩ := Option.map_eq_some_iff.mp h
  exact ⟨index, List.mem_of_find?_eq_some hfind, rfl⟩

lemma IsTerminalTable.lines_runCommand (h : IsTerminalTable width table)
    (hline : ∀ c ∈ line, IsPrintable c) (hlen : line.length < finshCmdSize) :
    Lines width (output (runCommand table line)) := by
  obtain ⟨args, hargs⟩ := exists_isLine line
  have harg : ∀ arg ∈ args.take finshArgMax, ∀ c ∈ arg, IsPrintable c :=
    fun arg hmem c hc => hline c (hargs.subset arg (List.mem_of_mem_take hmem) hc)
  rcases hargs.runCommand_cases table (nul_notMem_of_isPrintable hline) with
    ⟨-, hrun⟩ | ⟨-, hrun⟩ | ⟨func, es, hfunc, hrun, hes, -⟩
  · rw [hrun]
    exact lines_nil
  · -- the message is the first word of the line and these characters
    set cmd := line.dropWhile isBlank
    set word := cmd.takeWhile fun c => c ≠ ' ' && c ≠ nul
    have hsub : word.Sublist line :=
      (List.takeWhile_prefix _).sublist.trans (line.dropWhile_sublist isBlank)
    have hword : word.length < 80 := hsub.length_le.trans_lt hlen
    have hsplit : word ++ ": command not found.\n".toList =
        (word ++ ": command not found.".toList) ++ ['\n'] := by
      rw [List.append_assoc]
      rfl
    rw [hrun, output_singleton, hsplit]
    refine (ends_output_concat (fun c hc => ?_) ?_).lines
    · have hrest : ∀ c ∈ ": command not found.".toList, IsPrintable c := forall_mem_of_all rfl
      rcases List.mem_append.mp hc with hc | hc
      · exact hline c (hsub.subset hc)
      · exact hrest c hc
    · rw [List.length_append]
      change word.length + 20 < 126
      omega
  · obtain ⟨index, hindex, rfl⟩ := mshGetCmd_eq_some hfunc
    rw [hrun, output_append]
    refine Lines.append ?_ (h.func index hindex _)
    rcases hes with rfl | rfl
    · exact lines_nil
    · exact lines_tooManyArgs harg

lemma IsTerminalTable.isPrintable_drop (h : IsTerminalTable width table) {index : Syscall}
    (hindex : index ∈ table) (n : ℕ) : ∀ c ∈ index.name.drop n, IsPrintable c :=
  fun c hc => h.name index hindex c (List.mem_of_mem_drop hc)

lemma IsTerminalTable.isPrintable_candidate (h : IsTerminalTable width table) {name : List Char}
    (hname : name ∈ candidates table line) : ∀ c ∈ name, IsPrintable c := by
  obtain ⟨⟨index, hindex, heq⟩, -⟩ := mem_candidates.mp hname
  exact fun c hc => h.name index hindex c (heq ▸ List.mem_append_right _ hc)

/-- The name of a command is printed with its new line. -/
lemma IsTerminalTable.length_candidate (h : IsTerminalTable width table) {name : List Char}
    (hname : name ∈ candidates table line) : name.length < rtConsolebufSize - 2 := by
  obtain ⟨⟨index, hindex, heq⟩, -⟩ := mem_candidates.mp hname
  have hlength : index.name.length < 128 := h.length index hindex
  have hsum : index.name.length = 6 + name.length := heq ▸ List.length_append
  change name.length < 126
  omega

lemma IsTerminalTable.isPrintable_complete (h : IsTerminalTable width table)
    (hline : ∀ c ∈ line, IsPrintable c) : ∀ c ∈ complete table line, IsPrintable c := by
  cases hr : (mshAutoComplete table line).2 with
  | none =>
    rw [complete, hr]
    exact hline
  | some r =>
    obtain ⟨hmem, -, hcomplete⟩ := mshAutoComplete_eq_some hr
    rw [hcomplete]
    exact fun c hc => h.isPrintable_candidate hmem c (List.mem_of_mem_take hc)

lemma IsTerminalTable.lines_mshAutoComplete (h : IsTerminalTable width table)
    (line : List Char) : Lines width (output (mshAutoComplete table line).1) := by
  by_cases hne : line = []
  · rw [mshAutoComplete, if_pos hne]
    refine lines_pieces (ends_output rfl (by decide) (forall_mem_of_all rfl)).lines fun e he => ?_
    obtain ⟨index, hindex, rfl⟩ := List.mem_map.mp he
    exact continues_output_blank (h.isPrintable_drop (List.mem_of_mem_filter hindex) 6)
  · rw [mshAutoComplete_of_ne_nil hne, (findCandidates_found table hne).printed]
    refine output_induction lines_nil (fun _ _ => Lines.append) fun e he => ?_
    obtain ⟨name, hname, rfl⟩ := List.mem_map.mp he
    exact (ends_output_concat (h.isPrintable_candidate hname) (h.length_candidate hname)).lines

/-! ### The keys -/

/-- A line that is edited: it is shorter than the array, and can be shown. -/
structure IsEdited (z : Zipper Char) : Prop where
  length : z.text.length < finshCmdSize
  isPrintable : ∀ c ∈ z.text, IsPrintable c

lemma IsEdited.after (h : IsEdited z) : ∀ c ∈ z.after, IsPrintable c :=
  fun c hc => h.isPrintable c (List.mem_append_right _ hc)

lemma IsEdited.length_after (h : IsEdited z) : z.after.length < finshCmdSize := by
  have hlength := h.length
  rw [Zipper.length_text] at hlength
  omega

lemma IsTerminalTable.isEdited (ht : IsTerminalTable width table) (h : IsEdited z) (hk : IsTyped k)
    (hlen : (k.edit table z).text.length < finshCmdSize) : IsEdited (k.edit table z) := by
  refine ⟨hlen, fun c hc => ?_⟩
  cases k with
  | ignored => exact h.isPrintable c hc
  | insert ch =>
    rw [Key.edit, Zipper.text_insert] at hc
    rcases List.mem_append.mp hc with hc | hc
    · exact h.isPrintable c (List.mem_append_left _ hc)
    · rcases List.mem_cons.mp hc with rfl | hc
      · exact hk
      · exact h.after c hc
  | backspace => exact h.isPrintable c (Zipper.mem_text_backspace hc)
  | left => exact h.isPrintable c (Zipper.text_left z ▸ hc)
  | right => exact h.isPrintable c (Zipper.text_right z ▸ hc)
  | tab =>
    rw [Key.edit, Zipper.text_ofList] at hc
    exact ht.isPrintable_complete h.isPrintable c hc
  | enter => exact absurd hc List.not_mem_nil

/-- The prompt and a text are printed on a new line. -/
lemma shows_prompt (ht : t.Open) (hwidth : finshGetPrompt.length + finshCmdSize < width)
    (h : ∀ c ∈ s, IsPrintable c) (hlen : s.length < finshCmdSize) :
    (t.puts (print (finshGetPrompt ++ s)).output).Shows (prompted (Zipper.ofList s)) := by
  have hprompt : ∀ c ∈ finshGetPrompt, IsPrintable c := forall_mem_of_all rfl
  have hall : ∀ c ∈ finshGetPrompt ++ s, IsPrintable c := by
    intro c hc
    rcases List.mem_append.mp hc with hc | hc
    · exact hprompt c hc
    · exact h c hc
  have hsize : (finshGetPrompt ++ s).length ≤ rtConsolebufSize - 2 := by
    rw [List.length_append]
    change 5 + s.length ≤ 126
    change s.length < 80 at hlen
    omega
  have hfits : ([] : List Char).length + (finshGetPrompt ++ s).length < width := by
    rw [List.length_append, List.length_nil]
    omega
  have hwrite := ht.writes hall hfits
  rw [List.drop_nil, List.reverse_append, List.append_nil] at hwrite
  rw [output_print (newline_notMem hall) hsize]
  exact hwrite

/-- The prompt and the line leave two columns free. -/
lemma IsEdited.length_prompted (h : IsEdited z)
    (hwidth : finshGetPrompt.length + finshCmdSize < width) :
    (prompted z).before.length + z.after.length + 1 < width := by
  have hlength := h.length
  rw [Zipper.length_text] at hlength
  rw [prompted, List.length_append, List.length_reverse]
  omega

/-- The screen shows the edited text after a key if it did before. -/
lemma IsTerminalTable.shows_key (ht : IsTerminalTable width table)
    (hwidth : finshGetPrompt.length + finshCmdSize < width) (hz : IsEdited z) (hk : IsTyped k)
    (hlen : (k.edit table z).text.length < finshCmdSize) (h : t.Shows (prompted z)) :
    (t.puts (output (k.effects table z))).Shows (prompted (k.edit table z)) := by
  obtain ⟨b, a⟩ := z
  have hfits : (b ++ finshGetPrompt.reverse).length + a.length + 1 < width :=
    hz.length_prompted hwidth
  have ha : ∀ c ∈ a, IsPrintable c := hz.after
  have hsize : a.length < 80 := hz.length_after
  cases k with
  | ignored => exact h
  | insert ch =>
    have hch : IsPrintable ch := hk
    have hprint : output ((Key.insert ch).effects table ⟨b, a⟩) =
        ch :: a ++ List.replicate a.length '\x08' := by
      have hall : ∀ c ∈ ch :: a, IsPrintable c := by
        intro c hc
        rcases List.mem_cons.mp hc with rfl | hc
        · exact hch
        · exact ha c hc
      have htext : (print (ch :: a)).output = ch :: a := by
        refine output_print (newline_notMem hall) ?_
        change a.length + 1 ≤ 126
        omega
      cases a with
      | nil => rw [Key.effects, if_pos rfl, output_cons, htext]; rfl
      | cons c a =>
        rw [Key.effects, if_neg (List.cons_ne_nil c a), output_cons, htext, output_replicate]
    rw [hprint]
    exact h.insert hch ha ((congrArg (· + 1) (Zipper.length_text _)).trans_lt hfits)
  | backspace =>
    cases b with
    | nil => exact h
    | cons c b =>
      have hfits' : (b ++ finshGetPrompt.reverse).length + a.length + 2 < width := by
        rw [List.cons_append, List.length_cons] at hfits
        omega
      cases a with
      | nil => exact h.backspace_nil (b := b ++ finshGetPrompt.reverse) (by omega)
      | cons d a =>
        have hprint : (print ('\x08' :: d :: a ++ [' ', ' ', '\x08'])).output =
            '\x08' :: d :: a ++ [' ', ' ', '\x08'] := by
          refine output_print ?_ ?_
          · intro hmem
            rcases List.mem_append.mp hmem with hmem | hmem
            · rcases List.mem_cons.mp hmem with hmem | hmem
              · exact absurd hmem (by decide)
              · exact newline_notMem ha hmem
            · exact absurd hmem (by decide)
          · simp only [List.length_append, List.length_cons, List.length_nil] at hsize ⊢
            change _ ≤ 126
            omega
        rw [Key.effects, if_neg (List.cons_ne_nil c b), if_neg (List.cons_ne_nil d a), output_cons,
          hprint, output_replicate]
        exact h.backspace ha hfits'
  | left =>
    cases b with
    | nil => exact h
    | cons c b => exact h.left
  | right =>
    cases a with
    | nil => exact h
    | cons c a =>
      have hc : IsPrintable c := ha c List.mem_cons_self
      have hprint : (print [c]).output = [c] := by
        refine output_print (newline_notMem fun d hd => ?_) (Nat.le_add_left 1 125)
        rwa [List.mem_singleton.mp hd]
      have heffects : Key.right.effects table ⟨b, c :: a⟩ = [print [c]] := rfl
      rw [heffects, output_singleton, hprint]
      rw [List.length_cons] at hfits
      exact h.write (b := b ++ finshGetPrompt.reverse) hc (by omega)
  | tab =>
    -- The cursor moves to the prompt before the new line.
    have hback := h.lefts (n := b.length) b rfl
    have hopen := ht.lines_mshAutoComplete (Zipper.text ⟨b, a⟩) _ hback.newline
    rw [Key.edit, Zipper.text_ofList] at hlen
    have hshows := shows_prompt hopen hwidth (ht.isPrintable_complete hz.isPrintable) hlen
    rw [Key.effects, output_append, output_append, output_append, output_replicate,
      output_singleton, output_singleton, puts_append, puts_append, puts_append]
    exact hshows
  | enter =>
    have hopen := ht.lines_runCommand hz.isPrintable hz.length _ h.newline
    have hshows := shows_prompt (s := []) hopen hwidth (by simp) (by decide)
    rw [List.append_nil] at hshows
    rw [Key.effects, output_append, output_append, output_singleton, output_singleton, puts_append,
      puts_append]
    exact hshows

/-! ### Runs -/

variable {e e' : Editor} {ess : List (List Effect)} {chs : List Char}

lemma isTyped_decode {ch : Char} (h : IsInput ch) (stat : InputStat) :
    IsTyped (decode stat ch).2 := by
  by_cases hesc : ch = '\x1b'
  · have hd : decode stat ch = (.waitSpecKey, .ignored) := if_pos hesc
    rw [hd]
    exact trivial
  have hkey := h hesc
  unfold decode
  rw [if_neg hesc]
  cases stat with
  | waitNormal => exact hkey
  | waitSpecKey =>
    dsimp only
    split_ifs <;> first | exact hkey | exact trivial
  | waitFuncKey =>
    dsimp only
    split_ifs <;> first | exact hkey | exact trivial

lemma IsTerminalTable.shows_trace (ht : IsTerminalTable width table)
    (hwidth : finshGetPrompt.length + finshCmdSize < width) (hz : IsEdited e.zip)
    (h : t.Shows (prompted e.zip)) (hchs : ∀ ch ∈ chs, IsInput ch)
    (hrun : Transition.trace (Editor.step table) e chs = some (e', ess)) :
    (t.puts (output ess.flatten)).Shows (prompted e'.zip) := by
  induction chs generalizing e t ess with
  | nil =>
    rw [Transition.trace_nil, Option.some_inj] at hrun
    obtain ⟨rfl, rfl⟩ := Prod.mk.inj hrun
    exact h
  | cons ch chs ih =>
    obtain ⟨e₁, es, ess', hstep, hrest, rfl⟩ := Transition.trace_cons.mp hrun
    rw [Editor.step, Option.ite_none_right_eq_some, Option.some_inj] at hstep
    obtain ⟨hlen, heq⟩ := hstep
    obtain ⟨rfl, rfl⟩ := Prod.mk.inj heq
    have hk := isTyped_decode (hchs ch List.mem_cons_self) e.stat
    have h₁ := ht.shows_key hwidth hz hk hlen h
    rw [List.flatten_cons, output_append, puts_append]
    exact ih (ht.isEdited hz hk hlen) h₁ (fun d hd => hchs d (List.mem_cons_of_mem ch hd)) hrest

/-- **The terminal.**  For every table of commands that print whole lines and everything that is
typed, as long as the line stays shorter than the array, on a terminal that is wider than the prompt
and the array the last line is the prompt and the line in the array of the shell, with the cursor at
the position where the shell edits it. -/
theorem terminal (hwidth : finshGetPrompt.length + finshCmdSize < width)
    (ht : IsTerminalTable width table) (hopen : t.Open) (hchs : ∀ ch ∈ chs, IsInput ch)
    (h : Transition.trace (Editor.step table) Editor.init chs = some (e, ess)) :
    ∃ s, Transition.trace (FinshShell.step table) FinshShell.init chs = some (s, ess) ∧
      (t.puts (output (print finshGetPrompt :: ess.flatten))).Shows
        ⟨(finshGetPrompt ++ s.line.take s.lineCurpos).reverse,
          (s.line.take s.linePosition).drop s.lineCurpos⟩ := by
  obtain ⟨hrun, -⟩ := Editor.trace_eq fits_nil h
  have hprompt := shows_prompt (s := []) hopen hwidth (by simp) (by decide)
  rw [List.append_nil] at hprompt
  have hnil : IsEdited Editor.init.zip := ⟨by decide, nofun⟩
  have hshows := ht.shows_trace hwidth hnil hprompt hchs h
  refine ⟨e.shell, hrun, ?_⟩
  have hline : e.shell.line.take e.shell.linePosition = e.zip.before.reverse ++ e.zip.after :=
    List.take_left
  have htake : e.shell.line.take e.shell.lineCurpos = e.zip.before.reverse := by
    have hcursor : e.shell.lineCurpos = e.zip.before.reverse.length := List.length_reverse.symm
    rw [hcursor, Editor.shell, Zipper.text, List.append_assoc, List.take_left]
  have hdrop : (e.shell.line.take e.shell.linePosition).drop e.shell.lineCurpos = e.zip.after := by
    have hcursor : e.shell.lineCurpos = e.zip.before.reverse.length := List.length_reverse.symm
    rw [hline, hcursor, List.drop_left]
  rw [output_cons, puts_append, hdrop, htake, List.reverse_append, List.reverse_reverse]
  exact hshows

/-- Stores are not seen on the terminal. -/
lemma output_eq_nil (h : ∀ e ∈ es, e.isWrite = true) : output es = [] := by
  refine List.flatMap_eq_nil_iff.mpr fun e he => ?_
  cases e with
  | write address data => rfl
  | rtKprintf text => exact absurd (h _ he) (by simp [Effect.isWrite])

lemma lines_setColorCmd (argv : List (List Char)) : Lines width (output (setColorCmd argv)) := by
  unfold setColorCmd
  split
  · split_ifs
    · rw [output_singleton]
      exact (ends_output rfl (by decide) (forall_mem_of_all rfl)).lines
    · rw [setColor, output_eq_nil (isWrite_setScreenColor _)]
      exact lines_nil
  · rw [output_singleton]
    exact (ends_output rfl (by decide) (forall_mem_of_all rfl)).lines

lemma lines_setAnimationCmd (argv : List (List Char)) :
    Lines width (output (setAnimationCmd argv)) := by
  rw [output_eq_nil]
  · exact lines_nil
  · simp only [setAnimationCmd, List.mem_append, List.mem_flatMap]
    rintro e ((⟨i, -, he⟩ | ⟨i, -, he⟩) | ⟨i, -, he⟩)
    all_goals exact isWrite_setScreenColor _ e he

lemma lines_clear (argv : List (List Char)) : Lines width (output (clear argv)) := lines_erase

/-- The commands of the program print whole lines, if the game does. -/
lemma isTerminalTable_mainTable {pong : List (List Char) → List Effect}
    (hpong : ∀ argv, Lines width (output (pong argv))) :
    IsTerminalTable width (mainTable pong) := by
  refine ⟨?_, ?_, ?_⟩
  all_goals
    simp only [mainTable, mainCommands, List.forall_mem_cons]
  · exact ⟨forall_mem_of_all rfl, forall_mem_of_all rfl, forall_mem_of_all rfl,
      forall_mem_of_all rfl, forall_mem_of_all rfl, nofun⟩
  · exact ⟨by decide, by decide, by decide, by decide, by decide, nofun⟩
  · exact ⟨hpong, lines_clear, lines_setAnimationCmd, lines_setColorCmd, lines_setAnimationCmd,
      nofun⟩

/-- `setC` is typed and completed. -/
theorem terminal_setC : ∃ ess, ((blank : Screen 86).puts
    (output (print finshGetPrompt :: ess))).Shows ⟨"msh >setColor".toList.reverse, []⟩ := by
  have h : ∃ ess, Transition.trace (Editor.step (mainTable fun _ => [])) Editor.init
      "setC\t".toList = some (⟨.waitNormal, Zipper.ofList "setColor".toList⟩, ess) := ⟨_, rfl⟩
  obtain ⟨ess, h⟩ := h
  obtain ⟨s, hrun, hshows⟩ := terminal (t := (blank : Screen 86)) (by decide)
    (isTerminalTable_mainTable fun _ => lines_nil) open_blank (forall_mem_of_all rfl) h
  obtain ⟨rfl, -⟩ := Prod.mk.inj
    (Option.some_inj.mp ((Editor.trace_eq fits_nil h).1.symm.trans hrun))
  exact ⟨ess.flatten, hshows⟩

end HdmiDisplay.Shell
