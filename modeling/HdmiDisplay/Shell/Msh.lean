/-
# The command line

`msh_exec` of `msh.c`, which looks up the first word of a line among the exported commands, splits
the line in place and calls the command.  A string in the buffer ends with the first null
character; the functions return `none` where they would read behind the end of the buffer.  Lines
are described by a grammar; the splitting of a line is the only reading that the grammar allows.
-/
import HdmiDisplay.Shell.Commands
import Mathlib.Data.List.TakeWhile

namespace HdmiDisplay.Shell

/-- The null character. -/
def nul : Char := Char.ofNat 0

/-- Blanks and tabs. -/
def isBlank (c : Char) : Bool := c = ' ' || c = '\t'

/-- `FINSH_ARG_MAX`. -/
def finshArgMax : ℕ := 8

/-- An entry of the table of the exported functions. -/
structure Syscall where
  name : List Char
  func : List (List Char) → List Effect
  nul_notMem : nul ∉ name

/-- The string at an index of a buffer. -/
def cString (buffer : List Char) (i : ℕ) : Option (List Char) :=
  if nul ∈ buffer.drop i then some ((buffer.drop i).takeWhile (· ≠ nul)) else none

/-- The loop of `msh_split` that skips a string: how many characters are behind the opening quote,
up to the closing quote or the end. -/
def skipString : List Char → ℕ
  | [] => 0
  | '"' :: _ => 0
  | '\\' :: '"' :: s => 2 + skipString s
  | _ :: s => 1 + skipString s

/-- The loop of `msh_split`, with `slots` entries of `argv` left, after the characters `done`.  It
returns the pointers in `argv`, the buffer and whether there are too many arguments. -/
def mshSplitFrom (slots : ℕ) (argv : List ℕ) (done rest : List Char) : List ℕ × List Char × Bool :=
  if rest = [] then (argv, done, false)
  else
    let done := done ++ List.replicate (rest.takeWhile isBlank).length nul
    let rest := rest.dropWhile isBlank
    match slots with
    | 0 => (argv, done ++ rest, true)
    | slots + 1 =>
        match rest with
        | [] => (argv, done, false)
        | '"' :: rest =>
            let done := done ++ ['"']
            let argv := argv ++ [done.length]
            match rest.drop (skipString rest) with
            | [] => (argv, done ++ rest, false)
            | _ :: rest' =>
                mshSplitFrom slots argv (done ++ rest.take (skipString rest) ++ [nul]) rest'
        | _ =>
            mshSplitFrom slots (argv ++ [done.length]) (done ++ rest.takeWhile fun c => !isBlank c)
              (rest.dropWhile fun c => !isBlank c)

/-- What `msh_split` prints for too many arguments. -/
def tooManyArgs (argv : List (List Char)) : List Effect :=
  .rtKprintf "Too many args ! We only Use:\n" ::
    argv.map (fun arg => .rtKprintf (String.ofList (arg ++ [' ']))) ++ [.rtKprintf "\n"]

/-- `msh_split`: the strings that `argv` points to, and what is printed. -/
def mshSplit (line : List Char) (length : ℕ) : Option (List (List Char) × List Effect) :=
  let r := mshSplitFrom finshArgMax [] [] (line.take length)
  (r.1.mapM (cString (r.2.1 ++ line.drop length))).map fun argv =>
    (argv, if r.2.2 then tooManyArgs argv else [])

/-- `msh_get_cmd`. -/
def mshGetCmd (table : List Syscall) (cmd : List Char) (size : ℕ) :
    Option (List (List Char) → List Effect) :=
  let isCmd := fun index : Syscall =>
    index.name.take 6 = "__cmd_".toList ∧ (index.name.drop 6).take size = cmd.take size ∧
      index.name.length = 6 + size
  (table.find? fun index => isCmd index).map fun index => index.func

/-- `_msh_exec_cmd`: the effects of the command, or that there is none. -/
def mshExecCmd (table : List Syscall) (line : List Char) (length : ℕ) :
    Option (Option (List Effect)) :=
  let size := ((line.take length).takeWhile fun c => !isBlank c).length
  if size = 0 then some none
  else
    match mshGetCmd table line size with
    | none => some none
    | some func =>
        (mshSplit line length).map fun r => if r.1 = [] then none else some (r.2 ++ func r.1)

/-- The message of `msh_exec`, for a line that it cuts off at the first blank. -/
def commandNotFound (line : List Char) : Option (List Effect) :=
  if ' ' ∈ line ∨ nul ∈ line then
    some [.rtKprintf (String.ofList ((line.takeWhile fun c => c ≠ ' ' && c ≠ nul) ++
      ": command not found.\n".toList))]
  else none

/-- `msh_exec`. -/
def mshExec (table : List Syscall) (line : List Char) (length : ℕ) : Option (List Effect) :=
  let strip := ((line.take length).takeWhile isBlank).length
  let line := line.drop strip
  let length := length - strip
  if length = 0 then some []
  else (mshExecCmd table line length).bind fun r => r.elim (commandNotFound line) some

/-! ### The grammar of lines -/

/-- Text between quotes, where a backslash keeps a quote. -/
inductive IsString : List Char → Prop
  | nil : IsString []
  | escape {s : List Char} : IsString s → IsString ('\\' :: '"' :: s)
  | char {c : Char} {s : List Char} : c ≠ '"' → (c = '\\' → s.head? ≠ some '"') → IsString s →
      IsString (c :: s)

/-- A line with its arguments: words and strings, the last of which may be left open. -/
inductive IsLine : List (List Char) → List Char → Prop
  | blanks {b : List Char} : (∀ c ∈ b, isBlank c = true) → IsLine [] b
  | word {b w rest : List Char} {args : List (List Char)} : (∀ c ∈ b, isBlank c = true) →
      w ≠ [] → w.head? ≠ some '"' → (∀ c ∈ w, isBlank c = false) →
      (∀ c ∈ rest.head?, isBlank c = true) → IsLine args rest →
      IsLine (w :: args) (b ++ w ++ rest)
  | string {b s rest : List Char} {args : List (List Char)} : (∀ c ∈ b, isBlank c = true) →
      IsString s → s.getLast? ≠ some '\\' → IsLine args rest →
      IsLine (s :: args) (b ++ '"' :: s ++ '"' :: rest)
  | opened {b s : List Char} : (∀ c ∈ b, isBlank c = true) → IsString s →
      IsLine [s] (b ++ '"' :: s)

variable {s t b line rest done tail : List Char} {args : List (List Char)}

/-! ### Strings in a buffer -/

lemma forall_mem_of_all {p : Char → Prop} [DecidablePred p] (h : s.all (fun c => p c) = true) :
    ∀ c ∈ s, p c := by
  simpa only [List.all_eq_true, decide_eq_true_eq] using h

lemma takeWhile_append_of_head {p : Char → Bool} (hs : ∀ c ∈ s, p c = true)
    (ht : ∀ c ∈ t.head?, p c = false) : (s ++ t).takeWhile p = s := by
  rw [List.takeWhile_append_of_pos hs]
  cases t with
  | nil => simp
  | cons c t => rw [List.takeWhile_cons_of_neg (by simp [ht c rfl]), List.append_nil]

lemma dropWhile_append_of_head {p : Char → Bool} (hs : ∀ c ∈ s, p c = true)
    (ht : ∀ c ∈ t.head?, p c = false) : (s ++ t).dropWhile p = t := by
  rw [List.dropWhile_append_of_pos hs]
  cases t with
  | nil => rfl
  | cons c t => rw [List.dropWhile_cons_of_neg (by simp [ht c rfl])]

lemma cString_append (done : List Char) (hs : nul ∉ s) (ht : t.head? = some nul) :
    cString (done ++ s ++ t) done.length = some s := by
  have hmem : nul ∈ t := List.mem_of_mem_head? ht
  rw [cString, List.append_assoc, List.drop_left, if_pos (List.mem_append_right s hmem)]
  rw [takeWhile_append_of_head]
  · intro c hc
    simpa using ne_of_mem_of_not_mem hc hs
  · rintro c hc
    obtain rfl : nul = c := Option.some_inj.mp (ht.symm.trans hc)
    simp

/-! ### Strings between quotes -/

lemma skipString_of_isString (h : IsString s) : skipString s = s.length := by
  induction h with
  | nil => rfl
  | @escape s _ ih =>
    rw [skipString, ih, List.length_cons, List.length_cons]
    omega
  | @char c s hc hbackslash _ ih =>
    have hskip : skipString (c :: s) = 1 + skipString s := by
      rw [skipString]
      · exact hc
      · rintro s' rfl rfl
        exact hbackslash rfl rfl
    rw [hskip, ih, List.length_cons, Nat.add_comm]

lemma skipString_append (h : IsString s) (hlast : s.getLast? ≠ some '\\') (rest : List Char) :
    skipString (s ++ '"' :: rest) = s.length := by
  induction h with
  | nil => rfl
  | @escape s _ ih =>
    have hs : s.getLast? ≠ some '\\' := by
      intro hs
      rw [List.getLast?_cons_cons, List.getLast?_cons, hs] at hlast
      exact hlast rfl
    rw [List.cons_append, List.cons_append, skipString, ih hs, List.length_cons, List.length_cons]
    omega
  | @char c s hc hbackslash _ ih =>
    have hs : s.getLast? ≠ some '\\' := by
      intro hs
      rw [List.getLast?_cons, hs] at hlast
      exact hlast rfl
    have hskip : skipString (c :: (s ++ '"' :: rest)) = 1 + skipString (s ++ '"' :: rest) := by
      rw [skipString]
      · exact hc
      · rintro s' rfl heq
        cases s with
        | nil => exact hlast rfl
        | cons d s =>
          rw [List.cons_append, List.cons.injEq] at heq
          exact hbackslash rfl (by rw [List.head?_cons, heq.1])
    rw [List.cons_append, hskip, ih hs, List.length_cons, Nat.add_comm]

/-- Behind an opening quote there is a string, up to the closing quote or the end. -/
lemma exists_isString (t : List Char) : ∃ s, IsString s ∧
    (t = s ∨ ∃ rest, t = s ++ '"' :: rest ∧ s.getLast? ≠ some '\\') := by
  fun_induction skipString t with
  | case1 => exact ⟨[], .nil, Or.inl rfl⟩
  | case2 rest => exact ⟨[], .nil, Or.inr ⟨rest, rfl, by simp⟩⟩
  | case3 t ih =>
    obtain ⟨s, hs, rfl | ⟨rest, rfl, hlast⟩⟩ := ih
    · exact ⟨_, .escape hs, Or.inl rfl⟩
    · refine ⟨_, .escape hs, Or.inr ⟨rest, rfl, ?_⟩⟩
      rw [List.getLast?_cons_cons, List.getLast?_cons]
      cases h : s.getLast? with
      | none => simp
      | some c => simpa [h] using hlast
  | case4 c t hquote hescape ih =>
    have hc : c ≠ '"' := fun h => hquote h
    obtain ⟨s, hs, h⟩ := ih
    have hbackslash : c = '\\' → s.head? ≠ some '"' := by
      intro hc' hhead
      obtain ⟨s', rfl⟩ : ∃ s', s = '"' :: s' := by
        cases s with
        | nil => simp at hhead
        | cons d s => exact ⟨s, by simpa using hhead⟩
      rcases h with rfl | ⟨rest, rfl, -⟩
      · exact hescape _ hc' rfl
      · exact hescape _ hc' rfl
    refine ⟨c :: s, .char hc hbackslash hs, ?_⟩
    rcases h with rfl | ⟨rest, rfl, hlast⟩
    · exact Or.inl rfl
    · refine Or.inr ⟨rest, rfl, ?_⟩
      cases s with
      | nil =>
        intro h
        exact hescape _ (by simpa using h) rfl
      | cons d s => rwa [List.getLast?_cons_cons]

/-! ### The splitting -/

lemma mshSplitFrom_nil (slots : ℕ) (argv : List ℕ) (done : List Char) :
    mshSplitFrom slots argv done [] = (argv, done, false) := by
  rw [mshSplitFrom]
  exact if_pos rfl

section Forms

variable {w : List Char} {slots : ℕ} {argv : List ℕ} (hb : ∀ c ∈ b, isBlank c = true)

include hb

lemma mshSplitFrom_zero (argv : List ℕ) (done : List Char)
    (ht : ∀ c ∈ t.head?, isBlank c = false) (hne : b ++ t ≠ []) :
    mshSplitFrom 0 argv done (b ++ t) = (argv, done ++ List.replicate b.length nul ++ t, true) := by
  rw [mshSplitFrom, if_neg hne]
  simp only [takeWhile_append_of_head hb ht, dropWhile_append_of_head hb ht]

lemma mshSplitFrom_of_blanks :
    mshSplitFrom (slots + 1) argv done b = (argv, done ++ List.replicate b.length nul, false) := by
  cases b with
  | nil => rw [mshSplitFrom_nil, List.length_nil, List.replicate_zero, List.append_nil]
  | cons c b =>
    have h := takeWhile_append_of_head (t := []) hb (by simp)
    have h' := dropWhile_append_of_head (t := []) hb (by simp)
    rw [List.append_nil] at h h'
    rw [mshSplitFrom, if_neg (List.cons_ne_nil c b)]
    simp only [h, h']

lemma mshSplitFrom_word (hne : w ≠ []) (hquote : w.head? ≠ some '"')
    (hw : ∀ c ∈ w, isBlank c = false) (hr : ∀ c ∈ rest.head?, isBlank c = true) :
    mshSplitFrom (slots + 1) argv done (b ++ w ++ rest) =
      mshSplitFrom slots (argv ++ [done.length + b.length])
        (done ++ List.replicate b.length nul ++ w) rest := by
  obtain ⟨c, w, rfl⟩ := List.exists_cons_of_ne_nil hne
  have hc : isBlank c = false := hw c List.mem_cons_self
  have hq : c ≠ '"' := fun h => hquote (by rw [List.head?_cons, h])
  have hw' : ∀ d ∈ c :: w, (!isBlank d) = true := fun d hd => by simp [hw d hd]
  have hr' : ∀ d ∈ rest.head?, (!isBlank d) = false := fun d hd => by simp [hr d hd]
  have htake := takeWhile_append_of_head (t := c :: (w ++ rest)) hb (by simpa using hc)
  have hdrop := dropWhile_append_of_head (t := c :: (w ++ rest)) hb (by simpa using hc)
  rw [List.append_assoc, List.cons_append, mshSplitFrom, if_neg (by simp)]
  simp only [htake, hdrop]
  split
  next h => exact absurd h (List.cons_ne_nil _ _)
  next h => exact absurd (List.cons.inj h).1 hq
  next =>
    rw [← List.cons_append, takeWhile_append_of_head hw' hr', dropWhile_append_of_head hw' hr',
      List.length_append, List.length_replicate]

lemma mshSplitFrom_string (hs : IsString s) (hlast : s.getLast? ≠ some '\\') :
    mshSplitFrom (slots + 1) argv done (b ++ '"' :: s ++ '"' :: rest) =
      mshSplitFrom slots (argv ++ [done.length + b.length + 1])
        (done ++ List.replicate b.length nul ++ '"' :: s ++ [nul]) rest := by
  have hquote : isBlank '"' = false := by decide
  have htake := takeWhile_append_of_head (t := '"' :: (s ++ '"' :: rest)) hb (by simpa using hquote)
  have hdrop := dropWhile_append_of_head (t := '"' :: (s ++ '"' :: rest)) hb (by simpa using hquote)
  have hskip := skipString_append hs hlast rest
  rw [List.append_assoc, List.cons_append, mshSplitFrom, if_neg (by simp)]
  simp only [htake, hdrop, hskip, List.drop_left, List.take_left]
  simp [Nat.add_assoc]

lemma mshSplitFrom_opened (hs : IsString s) :
    mshSplitFrom (slots + 1) argv done (b ++ '"' :: s) =
      (argv ++ [done.length + b.length + 1], done ++ List.replicate b.length nul ++ '"' :: s,
        false) := by
  have hquote : isBlank '"' = false := by decide
  have htake := takeWhile_append_of_head (t := '"' :: s) hb (by simpa using hquote)
  have hdrop := dropWhile_append_of_head (t := '"' :: s) hb (by simpa using hquote)
  have hskip := skipString_of_isString hs
  rw [mshSplitFrom, if_neg (by simp)]
  simp only [htake, hdrop, hskip, List.drop_length]
  simp [Nat.add_assoc]

end Forms

/-- What `msh_split` leaves of a line behind the characters `done`. -/
structure Splits (slots : ℕ) (done line : List Char) (args : List (List Char)) (offsets : List ℕ)
    (buffer : List Char) (many : Bool) : Prop where
  head : (∀ c ∈ line.head?, isBlank c = true) → ∀ c ∈ buffer.head?, c = nul
  strings : ∀ tail, tail.head? = some nul →
    offsets.mapM (cString (done ++ buffer ++ tail)) = some (args.take slots)
  many_of_lt : slots < args.length → many = true
  eq_false_of_lt : args.length < slots → many = false
  eq_false_of_le : (∀ c ∈ line.getLast?, isBlank c = false) → args.length ≤ slots → many = false

/-- With no entries left, what follows is too much. -/
lemma exists_splits_zero (argv : List ℕ) (done : List Char) (h : line = [] → args = [])
    (h' : args = [] → ∀ c ∈ line, isBlank c = true) : ∃ offsets buffer many,
    mshSplitFrom 0 argv done line = (argv ++ offsets, done ++ buffer, many) ∧
    Splits 0 done line args offsets buffer many := by
  cases line with
  | nil =>
    refine ⟨[], [], false, ?_, ?_⟩
    · rw [mshSplitFrom_nil, List.append_nil, List.append_nil]
    · rw [h rfl]
      exact ⟨by simp, fun _ _ => rfl, nofun, fun _ => rfl, fun _ _ => rfl⟩
  | cons c line =>
    have hb : ∀ d ∈ (c :: line).takeWhile isBlank, isBlank d = true :=
      fun d hd => List.mem_takeWhile_imp hd
    have ht : ∀ d ∈ ((c :: line).dropWhile isBlank).head?, isBlank d = false := by
      intro d hd
      have h := List.head?_dropWhile_not isBlank (c :: line)
      rw [Option.mem_def.mp hd] at h
      exact h
    have hsplit := mshSplitFrom_zero hb argv done ht (by
      rw [List.takeWhile_append_dropWhile]
      exact List.cons_ne_nil c line)
    rw [List.takeWhile_append_dropWhile, List.append_assoc] at hsplit
    refine ⟨[], _, true, by rw [hsplit, List.append_nil], ?_⟩
    refine ⟨?_, fun _ _ => by simp, fun _ => rfl, nofun, ?_⟩
    · intro hc
      rw [List.takeWhile_cons_of_pos (hc c rfl), List.length_cons, List.replicate_succ]
      rintro d ⟨⟩
      rfl
    · intro hlast hargs
      have hnil : args = [] := List.length_eq_zero_iff.mp (Nat.le_zero.mp hargs)
      have hmem := List.getLast_mem (List.cons_ne_nil c line)
      have hblank := h' hnil _ hmem
      rw [hlast _ (List.getLast?_eq_some_getLast (List.cons_ne_nil c line))] at hblank
      exact absurd hblank Bool.false_ne_true

/-- Where the line begins with a blank, so does what is left with a null character. -/
lemma head_eq_nul {c : Char} (ht : isBlank c = false)
    (h : ∀ d ∈ (b ++ c :: t).head?, isBlank d = true) :
    ∀ d ∈ (List.replicate b.length nul ++ s).head?, d = nul := by
  cases b with
  | nil =>
    rw [h c rfl] at ht
    exact absurd ht (by decide)
  | cons d b =>
    rintro _ ⟨⟩
    rfl

/-- The splitting of a line yields the arguments that the grammar gives it. -/
lemma IsLine.exists_splits (h : IsLine args line) (hnul : nul ∉ line) (slots : ℕ) (argv : List ℕ)
    (done : List Char) : ∃ offsets buffer many,
    mshSplitFrom slots argv done line = (argv ++ offsets, done ++ buffer, many) ∧
    Splits slots done line args offsets buffer many := by
  induction h generalizing slots argv done with
  | @blanks b hb =>
    cases slots with
    | zero => exact exists_splits_zero argv done (fun _ => rfl) fun _ => hb
    | succ slots =>
      refine ⟨[], _, false, by rw [mshSplitFrom_of_blanks hb, List.append_nil], ?_⟩
      refine ⟨?_, fun _ _ => rfl, nofun, fun _ => rfl, fun _ _ => rfl⟩
      intro _ c hc
      exact List.eq_of_mem_replicate (List.mem_of_mem_head? hc)
  | @word b w rest args hb hne hquote hw hr _ ih =>
    cases slots with
    | zero => exact exists_splits_zero argv done (by simp [hne]) (by simp)
    | succ slots =>
      obtain ⟨offsets, buffer, many, heq, hsplits⟩ := ih (by simp_all) slots
        (argv ++ [done.length + b.length]) (done ++ List.replicate b.length nul ++ w)
      refine ⟨(done.length + b.length) :: offsets, List.replicate b.length nul ++ w ++ buffer, many,
        ?_, ?_⟩
      · rw [mshSplitFrom_word hb hne hquote hw hr, heq]
        simp
      -- the word ends at the blank that follows, which has become a null character
      · have hbuffer : ∀ tail, tail.head? = some nul → (buffer ++ tail).head? = some nul := by
          intro tail htail
          cases hbuf : buffer with
          | nil => exact htail
          | cons c buffer => rw [hsplits.head hr c (by rw [hbuf]; rfl)]; rfl
        refine ⟨?_, ?_, ?_, ?_, ?_⟩
        · intro hblank c hc
          obtain ⟨d, w, rfl⟩ := List.exists_cons_of_ne_nil hne
          rw [List.append_assoc] at hc hblank
          exact head_eq_nul (hw d List.mem_cons_self) hblank c hc
        · intro tail htail
          have hword : nul ∉ w := by simp_all
          have hfirst := cString_append (done ++ List.replicate b.length nul) hword
            (hbuffer tail htail)
          have hrest := hsplits.strings tail htail
          simp only [List.append_assoc, List.length_append, List.length_replicate] at hfirst hrest ⊢
          rw [List.mapM_cons, hfirst, hrest]
          rfl
        · intro hlt
          exact hsplits.many_of_lt (by simpa using hlt)
        · intro hlt
          exact hsplits.eq_false_of_lt (by simpa using hlt)
        · intro hlast hle
          refine hsplits.eq_false_of_le ?_ (by simpa using hle)
          intro c hc
          refine hlast c ?_
          rw [Option.mem_def, List.getLast?_append, Option.mem_def.mp hc]
          rfl
  | @string b s rest args hb hs hlast _ ih =>
    cases slots with
    | zero => exact exists_splits_zero argv done (by simp) (by simp)
    | succ slots =>
      obtain ⟨offsets, buffer, many, heq, hsplits⟩ := ih (by simp_all) slots
        (argv ++ [done.length + b.length + 1])
        (done ++ List.replicate b.length nul ++ '"' :: s ++ [nul])
      refine ⟨(done.length + b.length + 1) :: offsets,
        List.replicate b.length nul ++ '"' :: s ++ nul :: buffer, many, ?_, ?_⟩
      · rw [mshSplitFrom_string hb hs hlast, heq]
        simp
      · refine ⟨?_, ?_, ?_, ?_, ?_⟩
        · intro hblank c hc
          rw [List.append_assoc] at hc hblank
          exact head_eq_nul (by decide : isBlank '"' = false) hblank c hc
        · intro tail htail
          have hword : nul ∉ s := by simp_all
          have hfirst := cString_append (done ++ List.replicate b.length nul ++ ['"'])
            (t := nul :: (buffer ++ tail)) hword rfl
          have hrest := hsplits.strings tail htail
          simp only [List.append_assoc, List.length_append, List.length_replicate, List.cons_append,
            List.nil_append, List.length_cons, List.length_nil] at hfirst hrest ⊢
          rw [List.mapM_cons, Nat.add_assoc, hfirst, hrest]
          rfl
        · intro hlt
          exact hsplits.many_of_lt (by simpa using hlt)
        · intro hlt
          exact hsplits.eq_false_of_lt (by simpa using hlt)
        · intro hblank hle
          refine hsplits.eq_false_of_le ?_ (by simpa using hle)
          intro c hc
          refine hblank c ?_
          rw [Option.mem_def, List.getLast?_append, List.getLast?_cons, Option.mem_def.mp hc]
          rfl
  | @opened b s hb hs =>
    cases slots with
    | zero => exact exists_splits_zero argv done (by simp) (by simp)
    | succ slots =>
      refine ⟨[done.length + b.length + 1], List.replicate b.length nul ++ '"' :: s, false, ?_, ?_⟩
      · rw [mshSplitFrom_opened hb hs, List.append_assoc]
      · refine ⟨?_, ?_, by simp, fun _ => rfl, fun _ _ => rfl⟩
        · intro hblank c hc
          exact head_eq_nul (by decide : isBlank '"' = false) hblank c hc
        · intro tail htail
          have hword : nul ∉ s := by simp_all
          have hfirst := cString_append (done ++ List.replicate b.length nul ++ ['"'])
            hword htail
          simp only [List.append_assoc, List.length_append, List.length_replicate, List.cons_append,
            List.nil_append, List.length_cons, List.length_nil] at hfirst ⊢
          rw [List.mapM_cons, Nat.add_assoc, hfirst, List.take_succ_cons, List.take_nil]
          rfl

/-- Every line can be read. -/
lemma exists_isLine (line : List Char) : ∃ args, IsLine args line := by
  induction h : line.length using Nat.strong_induction_on generalizing line with
  | _ n ih =>
    subst h
    have hline := List.takeWhile_append_dropWhile (p := isBlank) (l := line)
    have hb : ∀ d ∈ line.takeWhile isBlank, isBlank d = true :=
      fun d hd => List.mem_takeWhile_imp hd
    have hhead := List.head?_dropWhile_not isBlank line
    cases ht : line.dropWhile isBlank with
    | nil =>
      rw [ht, List.append_nil] at hline
      exact ⟨[], hline ▸ .blanks hb⟩
    | cons c t =>
      rw [ht] at hline hhead
      have hc : isBlank c = false := hhead
      have hlen : t.length < line.length := by
        rw [← hline, List.length_append, List.length_cons]
        omega
      -- a string up to its quote, or else a word up to a blank
      by_cases hquote : c = '"'
      · subst hquote
        obtain ⟨s, hs, rfl | ⟨rest, rfl, hlast⟩⟩ := exists_isString t
        · exact ⟨[t], hline ▸ .opened hb hs⟩
        · rw [List.length_append, List.length_cons] at hlen
          obtain ⟨args, hargs⟩ := ih rest.length (by omega) rest rfl
          refine ⟨s :: args, ?_⟩
          rw [← hline, ← List.cons_append, ← List.append_assoc]
          exact .string hb hs hlast hargs
      · have hword := List.takeWhile_append_dropWhile (p := fun c => !isBlank c) (l := c :: t)
        have hw : ∀ d ∈ (c :: t).takeWhile fun c => !isBlank c, isBlank d = false := by
          intro d hd
          simpa using List.mem_takeWhile_imp hd
        have hr : ∀ d ∈ ((c :: t).dropWhile fun c => !isBlank c).head?, isBlank d = true := by
          intro d hd
          have h := List.head?_dropWhile_not (fun c => !isBlank c) (c :: t)
          rw [Option.mem_def.mp hd] at h
          simpa using h
        rw [List.takeWhile_cons_of_pos (by simp [hc])] at hword hw
        rw [List.dropWhile_cons_of_pos (by simp [hc])] at hword hr
        have hle := (t.dropWhile_suffix fun c => !isBlank c).length_le
        obtain ⟨args, hargs⟩ := ih _ (by omega) (t.dropWhile fun c => !isBlank c) rfl
        refine ⟨(c :: t.takeWhile fun c => !isBlank c) :: args, ?_⟩
        rw [← hline, ← hword, ← List.append_assoc]
        refine .word hb (List.cons_ne_nil _ _) ?_ hw hr hargs
        simpa using hquote

/-- The reading of a line is the only one. -/
lemma IsLine.unique {args' : List (List Char)} (h : IsLine args line) (h' : IsLine args' line)
    (hnul : nul ∉ line) : args = args' := by
  -- with entries enough for both readings the splitting yields both in full
  obtain ⟨offsets, buffer, many, heq, hsplits⟩ :=
    h.exists_splits hnul (args.length + args'.length) [] []
  obtain ⟨offsets', buffer', many', heq', hsplits'⟩ :=
    h'.exists_splits hnul (args.length + args'.length) [] []
  simp only [heq, List.nil_append, Prod.mk.injEq] at heq'
  obtain ⟨rfl, rfl, -⟩ := heq'
  have hstrings := hsplits.strings [nul] rfl
  rw [hsplits'.strings [nul] rfl, Option.some_inj, List.take_of_length_le (by omega),
    List.take_of_length_le (by omega)] at hstrings
  exact hstrings.symm

lemma IsLine.mshSplit_eq (h : IsLine args line) (hnul : nul ∉ line) (ht : tail.head? = some nul) :
    ∃ es, mshSplit (line ++ tail) line.length = some (args.take finshArgMax, es) ∧
      (finshArgMax < args.length → es = tooManyArgs (args.take finshArgMax)) ∧
      (args.length < finshArgMax → es = []) ∧
      ((∀ c ∈ line.getLast?, isBlank c = false) → args.length ≤ finshArgMax → es = []) := by
  obtain ⟨offsets, buffer, many, heq, hsplits⟩ := h.exists_splits hnul finshArgMax [] []
  have hstrings := hsplits.strings tail ht
  simp only [List.nil_append] at heq hstrings
  refine ⟨if many then tooManyArgs (args.take finshArgMax) else [], ?_, ?_, ?_, ?_⟩
  · rw [mshSplit, List.take_left, List.drop_left, heq]
    simp only [hstrings, Option.map_some]
  · intro hlt
    exact if_pos (hsplits.many_of_lt hlt)
  · intro hlt
    exact if_neg (by simp [hsplits.eq_false_of_lt hlt])
  · intro hlast hle
    exact if_neg (by simp [hsplits.eq_false_of_le hlast hle])

/-- **The splitting of a line.**  Every line can be read in exactly one way, and `msh_split`, which
puts null characters into the buffer and pointers to it into `argv`, yields the first eight
arguments of it.  It complains about too many arguments if there are more, and if there are fewer,
or eight and no blank behind them, it does not. -/
theorem msh_split (hnul : nul ∉ line) (ht : tail.head? = some nul) : (∃! args, IsLine args line) ∧
    ∀ args, IsLine args line →
      ∃ es, mshSplit (line ++ tail) line.length = some (args.take finshArgMax, es) ∧
        (finshArgMax < args.length → es = tooManyArgs (args.take finshArgMax)) ∧
        (args.length < finshArgMax → es = []) ∧
        ((∀ c ∈ line.getLast?, isBlank c = false) → args.length ≤ finshArgMax → es = []) := by
  obtain ⟨args, h⟩ := exists_isLine line
  exact ⟨⟨args, h, fun _ h' => h'.unique h hnul⟩, fun _ h' => h'.mshSplit_eq hnul ht⟩

/-- `setColor "a b` -/
theorem msh_split_opened : ∃ es, mshSplit ("setColor \"a b".toList ++ [nul]) 13 =
    some (["setColor".toList, "a b".toList], es) := by
  have hnul : nul ∉ "setColor \"a b".toList := by decide
  have ht : [nul].head? = some nul := rfl
  have hstring : IsString "a b".toList :=
    .char (by decide) (by decide)
      (.char (by decide) (by decide) (.char (by decide) (by decide) .nil))
  have hhead : ∀ c ∈ ([' '] ++ '"' :: "a b".toList).head?, isBlank c = true := by
    rintro c ⟨⟩
    rfl
  -- a word, and a string that is not closed
  have hline : IsLine ["setColor".toList, "a b".toList]
      ([] ++ "setColor".toList ++ ([' '] ++ '"' :: "a b".toList)) :=
    .word nofun (by simp) (by decide) (forall_mem_of_all rfl) hhead
      (.opened (forall_mem_of_all rfl) hstring)
  obtain ⟨es, hes, -⟩ := (msh_split hnul ht).2 _ hline
  exact ⟨es, hes⟩

/-! ### The execution of a line -/

/-- What a line does. -/
def runCommand (table : List Syscall) (line : List Char) : List Effect :=
  (mshExec table (line ++ [nul]) line.length).getD []

variable {table : List Syscall}

lemma mshSplit_congr (hnul : nul ∉ line) (ht : tail.head? = some nul) :
    mshSplit (line ++ tail) line.length = mshSplit (line ++ [nul]) line.length ∧
      (mshSplit (line ++ tail) line.length).isSome := by
  obtain ⟨args, h⟩ := exists_isLine line
  obtain ⟨offsets, buffer, many, heq, hsplits⟩ := h.exists_splits hnul finshArgMax [] []
  simp only [List.nil_append] at heq
  have hsplit : ∀ t : List Char, t.head? = some nul → mshSplit (line ++ t) line.length =
      some (args.take finshArgMax,
        if many then tooManyArgs (args.take finshArgMax) else []) := by
    intro t ht
    have hstrings := hsplits.strings t ht
    rw [List.nil_append] at hstrings
    rw [mshSplit, List.take_left, List.drop_left, heq]
    simp only [hstrings, Option.map_some]
  rw [hsplit tail ht, hsplit [nul] rfl]
  exact ⟨rfl, rfl⟩

lemma mshGetCmd_append {size : ℕ} (h : size ≤ line.length) (t : List Char) :
    mshGetCmd table (line ++ t) size = mshGetCmd table line size := by
  rw [mshGetCmd, mshGetCmd, List.take_append_of_le_length h]

lemma mshExecCmd_congr (table : List Syscall) (hnul : nul ∉ line) (ht : tail.head? = some nul) :
    mshExecCmd table (line ++ tail) line.length = mshExecCmd table (line ++ [nul]) line.length ∧
      (mshExecCmd table (line ++ tail) line.length).isSome := by
  obtain ⟨hcongr, hsome⟩ := mshSplit_congr hnul ht
  have hsize : (line.takeWhile fun c => !isBlank c).length ≤ line.length :=
    (List.takeWhile_prefix _).length_le
  simp only [mshExecCmd, List.take_left, mshGetCmd_append hsize, hcongr, true_and]
  split_ifs
  · rfl
  · cases mshGetCmd table line (line.takeWhile fun c => !isBlank c).length with
    | none => rfl
    | some func => rw [← hcongr, Option.isSome_map, hsome]

lemma commandNotFound_congr (line : List Char) (ht : tail.head? = some nul) :
    commandNotFound (line ++ tail) = commandNotFound (line ++ [nul]) ∧
      (commandNotFound (line ++ tail)).isSome := by
  have htake : ∀ t : List Char, t.head? = some nul →
      (line ++ t).takeWhile (fun c => c ≠ ' ' && c ≠ nul) =
        line.takeWhile fun c => c ≠ ' ' && c ≠ nul := by
    intro t h
    obtain ⟨c, t, rfl⟩ : ∃ c u, t = c :: u := List.exists_cons_of_ne_nil (by rintro rfl; cases h)
    obtain rfl : c = nul := Option.some_inj.mp h
    rw [List.takeWhile_append, List.takeWhile_cons_of_neg (by simp), List.append_nil]
    split
    next hlen => exact ((List.takeWhile_prefix _).eq_of_length hlen).symm
    next => rfl
  have hmem : ∀ t : List Char, t.head? = some nul → ' ' ∈ line ++ t ∨ nul ∈ line ++ t :=
    fun t h => Or.inr (List.mem_append_right _ (List.mem_of_mem_head? h))
  rw [commandNotFound, commandNotFound, if_pos (hmem tail ht), if_pos (hmem [nul] rfl),
    htake tail ht, htake [nul] rfl]
  exact ⟨rfl, rfl⟩

/-- Blanks in front are skipped. -/
lemma mshExec_append (line t : List Char) : mshExec table (line ++ t) line.length =
    if line.dropWhile isBlank = [] then some []
    else (mshExecCmd table (line.dropWhile isBlank ++ t) (line.dropWhile isBlank).length).bind
      fun r => r.elim (commandNotFound (line.dropWhile isBlank ++ t)) some := by
  have hline := List.takeWhile_append_dropWhile (p := isBlank) (l := line)
  have hlen := congrArg List.length hline
  rw [List.length_append] at hlen
  have hdrop : (line ++ t).drop (line.takeWhile isBlank).length = line.dropWhile isBlank ++ t := by
    have h := congrArg (fun l => (l ++ t).drop (line.takeWhile isBlank).length) hline
    rw [← h, List.append_assoc, List.drop_left]
  have hsub : line.length - (line.takeWhile isBlank).length = (line.dropWhile isBlank).length := by
    omega
  rw [mshExec, List.take_left]
  simp only [hdrop, hsub, List.length_eq_zero_iff]

/-- What is behind the null character does not matter. -/
lemma mshExec_eq_runCommand (table : List Syscall) (hnul : nul ∉ line)
    (ht : tail.head? = some nul) :
    mshExec table (line ++ tail) line.length = some (runCommand table line) := by
  have hcmd : nul ∉ line.dropWhile isBlank :=
    fun h => hnul ((line.dropWhile_sublist isBlank).subset h)
  obtain ⟨hexec, hsome⟩ := mshExecCmd_congr table hcmd ht
  obtain ⟨hnot, hsome'⟩ := commandNotFound_congr (line.dropWhile isBlank) ht
  have hcongr : mshExec table (line ++ tail) line.length =
      mshExec table (line ++ [nul]) line.length := by
    rw [mshExec_append, mshExec_append, hexec, hnot]
  have hdefined : (mshExec table (line ++ tail) line.length).isSome := by
    rw [mshExec_append]
    split_ifs
    · rfl
    · obtain ⟨r, hr⟩ := Option.isSome_iff_exists.mp hsome
      rw [hr, Option.bind_some]
      cases r with
      | none => exact hsome'
      | some es => rfl
  obtain ⟨es, hes⟩ := Option.isSome_iff_exists.mp hdefined
  rw [runCommand, ← hcongr, hes, Option.getD_some]

/-- Blanks in front do not change the arguments. -/
lemma IsLine.dropWhile (h : IsLine args line) : IsLine args (line.dropWhile isBlank) := by
  have hquote : isBlank '"' = false := by decide
  cases h with
  | @blanks b hb =>
    rw [List.dropWhile_eq_nil_iff.mpr hb]
    exact .blanks nofun
  | @word b w rest args hb hne hq hw hr hrest =>
    have hhead : ∀ c ∈ (w ++ rest).head?, isBlank c = false := by
      obtain ⟨c, w, rfl⟩ := List.exists_cons_of_ne_nil hne
      rintro _ ⟨⟩
      exact hw c List.mem_cons_self
    rw [List.append_assoc, dropWhile_append_of_head hb hhead]
    exact .word (b := []) nofun hne hq hw hr hrest
  | @string b s rest args hb hs hlast hrest =>
    rw [List.append_assoc, dropWhile_append_of_head hb (by simpa using hquote)]
    exact .string (b := []) nofun hs hlast hrest
  | @opened b s hb hs =>
    rw [dropWhile_append_of_head hb (by simpa using hquote)]
    exact .opened (b := []) nofun hs

/-- The arguments are parts of the line. -/
lemma IsLine.subset (h : IsLine args line) : ∀ arg ∈ args, arg ⊆ line := by
  induction h with
  | blanks => exact nofun
  | word _ _ _ _ _ _ ih =>
    intro arg harg
    rcases List.mem_cons.mp harg with rfl | harg
    · exact List.Subset.trans (List.subset_append_right _ _) (List.subset_append_left _ _)
    · exact List.Subset.trans (ih arg harg) (List.subset_append_right _ _)
  | string _ _ _ _ ih =>
    intro arg harg c hc
    rcases List.mem_cons.mp harg with rfl | harg
    · simp [hc]
    · simp [ih arg harg hc]
  | opened =>
    intro arg harg c hc
    rw [List.mem_singleton.mp harg] at hc
    simp [hc]

/-- A line without arguments is blank. -/
lemma IsLine.isBlank_of_nil (h : IsLine [] line) : ∀ c ∈ line, isBlank c = true := by
  cases h with
  | blanks hb => exact hb

lemma mshSplit_printed {argv : List (List Char)} {es : List Effect} {n : ℕ}
    (h : mshSplit line n = some (argv, es)) : es = [] ∨ es = tooManyArgs argv := by
  obtain ⟨argv', -, heq⟩ := Option.map_eq_some_iff.mp h
  obtain ⟨rfl, rfl⟩ := Prod.mk.inj heq
  split_ifs
  · exact Or.inr rfl
  · exact Or.inl rfl

/-- What a line does: nothing, the message, or the command of its first word. -/
lemma IsLine.runCommand_cases (table : List Syscall) (h : IsLine args line) (hnul : nul ∉ line) :
    let cmd := line.dropWhile isBlank
    let word := cmd.takeWhile fun c => !isBlank c
    (cmd = [] ∧ runCommand table line = []) ∨
    (mshGetCmd table word word.length = none ∧ runCommand table line =
      [.rtKprintf (String.ofList ((cmd.takeWhile fun c => c ≠ ' ' && c ≠ nul) ++
        ": command not found.\n".toList))]) ∨
    ∃ func es, mshGetCmd table word word.length = some func ∧
      runCommand table line = es ++ func (args.take finshArgMax) ∧
      (es = [] ∨ es = tooManyArgs (args.take finshArgMax)) ∧
      (args.length < finshArgMax → es = []) := by
  intro cmd word
  have hcmd : nul ∉ cmd := fun hmem => hnul ((line.dropWhile_sublist isBlank).subset hmem)
  have hrun : mshExec table (line ++ [nul]) line.length = some (runCommand table line) :=
    mshExec_eq_runCommand table hnul rfl
  rw [mshExec_append] at hrun
  by_cases hnil : cmd = []
  · rw [if_pos hnil, Option.some_inj] at hrun
    exact Or.inl ⟨hnil, hrun.symm⟩
  rw [if_neg hnil] at hrun
  obtain ⟨c, t, hc⟩ := List.exists_cons_of_ne_nil hnil
  have hblank : isBlank c = false := by
    have h := List.head?_dropWhile_not isBlank line
    rwa [show line.dropWhile isBlank = c :: t from hc] at h
  have hsize : ((cmd ++ [nul]).take cmd.length).takeWhile (fun c => !isBlank c) = word := by
    rw [List.take_left]
  -- behind the blanks there is a word
  have hne : word.length ≠ 0 := by
    have : word = c :: t.takeWhile fun c => !isBlank c := by
      change cmd.takeWhile _ = _
      rw [hc, List.takeWhile_cons_of_pos (by simp [hblank])]
    rw [this]
    exact Nat.succ_ne_zero _
  have hget : mshGetCmd table (cmd ++ [nul]) word.length = mshGetCmd table word word.length := by
    have hprefix : word <+: cmd := List.takeWhile_prefix _
    obtain ⟨u, hu⟩ := hprefix
    rw [← hu, List.append_assoc, mshGetCmd_append le_rfl]
  have hexec : mshExecCmd table (cmd ++ [nul]) cmd.length =
      match mshGetCmd table word word.length with
      | none => some none
      | some func => (mshSplit (cmd ++ [nul]) cmd.length).map fun r =>
          if r.1 = [] then none else some (r.2 ++ func r.1) := by
    rw [mshExecCmd]
    simp only [hsize, if_neg hne, hget]
  rw [hexec] at hrun
  cases hfunc : mshGetCmd table word word.length with
  | none =>
    rw [hfunc] at hrun
    have hmem : ' ' ∈ cmd ++ [nul] ∨ nul ∈ cmd ++ [nul] := Or.inr (by simp)
    have htake : (cmd ++ [nul]).takeWhile (fun c => c ≠ ' ' && c ≠ nul) =
        cmd.takeWhile fun c => c ≠ ' ' && c ≠ nul := by
      rw [List.takeWhile_append, List.takeWhile_cons_of_neg (by simp), List.append_nil]
      split
      next hlen => exact ((List.takeWhile_prefix _).eq_of_length hlen).symm
      next => rfl
    refine Or.inr (Or.inl ⟨rfl, ?_⟩)
    change commandNotFound (cmd ++ [nul]) = _ at hrun
    rw [commandNotFound, if_pos hmem, htake, Option.some_inj] at hrun
    exact hrun.symm
  | some func =>
    rw [hfunc] at hrun
    have hhead : [nul].head? = some nul := rfl
    obtain ⟨es, hsplit, -, hfew, -⟩ := h.dropWhile.mshSplit_eq hcmd hhead
    -- a line without arguments would be blank
    have hargs : args.take finshArgMax ≠ [] := by
      intro hargs
      have hline : IsLine args cmd := h.dropWhile
      rw [show args = [] by simpa [finshArgMax] using hargs] at hline
      have hall := hline.isBlank_of_nil c (hc ▸ List.mem_cons_self)
      exact Bool.false_ne_true (hblank.symm.trans hall)
    rw [hsplit] at hrun
    dsimp only [Option.map_some, Option.bind_some] at hrun
    rw [if_neg hargs, Option.elim_some, Option.some_inj] at hrun
    exact Or.inr (Or.inr ⟨func, es, rfl, hrun.symm, mshSplit_printed hsplit, hfew⟩)

end HdmiDisplay.Shell
