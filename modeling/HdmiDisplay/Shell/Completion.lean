/-
# Completion of commands

`msh_auto_complete` of `msh.c`, which lists the commands that extend the line and replaces the line
by the longest text that all of them extend.
-/
import HdmiDisplay.Shell.Msh

namespace HdmiDisplay.Shell

/-- `str_common`. -/
def strCommon : List Char → List Char → ℕ
  | c :: s, d :: t => if c = d then strCommon s t + 1 else 0
  | _, _ => 0

/-- `rt_strncpy`, to an index of a buffer. -/
def rtStrncpy (buffer : List Char) (dst : ℕ) : List Char → ℕ → List Char
  | _, 0 => buffer
  | [], n + 1 => rtStrncpy (buffer.set dst nul) (dst + 1) [] n
  | c :: src, n + 1 => rtStrncpy (buffer.set dst c) (dst + 1) src n

/-- `msh_help`. -/
def mshHelp (table : List Syscall) : List Effect :=
  .rtKprintf "RT-Thread shell commands:\n" ::
    (table.filter fun index => index.name.take 6 = "__cmd_".toList).map
      (fun index => .rtKprintf (String.ofList (index.name.drop 6 ++ [' ']))) ++ [.rtKprintf "\n"]

/-- The variables of `msh_auto_complete`, and what is printed. -/
structure Candidates where
  namePtr : Option (List Char)
  minLength : ℕ
  printed : List Effect

/-- The command of a name, if it extends the line. -/
def candidate (line : List Char) (index : Syscall) : Option (List Char) :=
  if index.name.take 6 = "__cmd_".toList ∧ line = (index.name.drop 6).take line.length then
    some (index.name.drop 6)
  else none

/-- The body of the loop, for a command that extends the line. -/
def Candidates.add (s : Candidates) (cmdName : List Char) : Candidates :=
  let s := if s.minLength = 0 then
    { s with namePtr := some cmdName, minLength := cmdName.length } else s
  let length := strCommon (s.namePtr.getD []) cmdName
  let s := if length < s.minLength then { s with minLength := length } else s
  { s with printed := s.printed ++ [.rtKprintf (String.ofList (cmdName ++ ['\n']))] }

/-- The loop. -/
def findCandidates (table : List Syscall) (line : List Char) : Candidates :=
  table.foldl (fun (s : Candidates) index => (candidate line index).elim s s.add)
    { namePtr := none, minLength := 0, printed := [] }

/-- `msh_auto_complete`: what is printed and what the line is replaced by. -/
def mshAutoComplete (table : List Syscall) (line : List Char) :
    List Effect × Option (List Char × ℕ) :=
  if line = [] then (mshHelp table, none)
  else
    let s := findCandidates table line
    (s.printed, s.namePtr.map fun name => (name, s.minLength))

/-- The line after the completion. -/
def complete (table : List Syscall) (line : List Char) : List Char :=
  (mshAutoComplete table line).2.elim line fun r => r.1.take r.2

/-- The commands that extend the line. -/
def candidates (table : List Syscall) (line : List Char) : List (List Char) :=
  table.filterMap (candidate line)

variable {s t p line : List Char} {names : List (List Char)} {table : List Syscall}

/-! ### Common parts -/

lemma take_strCommon (s t : List Char) : s.take (strCommon s t) <+: t := by
  fun_induction strCommon s t with
  | case1 s c t ih =>
    rw [List.take_succ_cons]
    exact (List.prefix_cons_inj c).mpr ih
  | case2 c s d t h => exact List.nil_prefix
  | case3 s t h => exact List.nil_prefix

lemma length_le_strCommon (hs : p <+: s) (ht : p <+: t) : p.length ≤ strCommon s t := by
  fun_induction strCommon s t generalizing p with
  | case1 s c t ih =>
    cases p with
    | nil => exact Nat.zero_le _
    | cons d p =>
      have hsp := (List.cons_prefix_cons.mp hs).2
      have htp := (List.cons_prefix_cons.mp ht).2
      exact Nat.succ_le_succ (ih hsp htp)
  | case2 c s d t h =>
    cases p with
    | nil => exact Nat.zero_le _
    | cons e p =>
      have hs' := (List.cons_prefix_cons.mp hs).1
      have ht' := (List.cons_prefix_cons.mp ht).1
      exact absurd (hs'.symm.trans ht') h
  | case3 s t h =>
    cases p with
    | nil => exact Nat.zero_le _
    | cons e p =>
      obtain ⟨s, rfl⟩ := hs
      obtain ⟨t, rfl⟩ := ht
      exact absurd rfl (h e _ e _ rfl)

lemma strCommon_self (s : List Char) : strCommon s s = s.length := by
  induction s with
  | nil => rfl
  | cons c s ih => rw [strCommon, if_pos rfl, ih, List.length_cons]

/-- The longest text that all names extend. -/
structure IsCommon (names : List (List Char)) (s : List Char) : Prop where
  extend : ∀ name ∈ names, s <+: name
  greatest : ∀ p, (∀ name ∈ names, p <+: name) → p <+: s

/-! ### The loop -/

/-- What the loop has found after some commands. -/
structure Candidates.Found (s : Candidates) (names : List (List Char)) : Prop where
  printed : s.printed = names.map fun name => .rtKprintf (String.ofList (name ++ ['\n']))
  none : names = [] → s.namePtr = none ∧ s.minLength = 0
  some : names ≠ [] → ∃ name, s.namePtr = some name ∧ name ∈ names ∧ s.minLength ≤ name.length ∧
    IsCommon names (name.take s.minLength)

lemma IsCommon.min {name : List Char} {n : ℕ} (h : IsCommon names (name.take n))
    (hmem : name ∈ names) : IsCommon (names ++ [s]) (name.take (min (strCommon name s) n)) := by
  constructor
  · intro t ht
    rcases List.mem_append.mp ht with ht | ht
    · exact ((List.take_prefix_take_left (Nat.min_le_right _ _)).trans (h.extend t ht))
    · rw [List.mem_singleton.mp ht]
      exact ((List.take_prefix_take_left (Nat.min_le_left _ _)).trans (take_strCommon name s))
  · intro p hp
    have hname : p <+: name := hp name (List.mem_append_left _ hmem)
    have hs : p <+: s := hp s (List.mem_append_right _ (List.mem_singleton_self s))
    have hn := h.greatest p fun t ht => hp t (List.mem_append_left _ ht)
    refine List.prefix_take_iff.mpr ⟨hname, le_min (length_le_strCommon hname hs) ?_⟩
    exact hn.length_le.trans (List.length_take_le _ _)

/-- A name is never mistaken for the first one: what was found already extends the line. -/
lemma Candidates.Found.add {c : Candidates} (h : c.Found names) (hne : line ≠ [])
    (hnames : ∀ name ∈ names, line <+: name) : (c.add s).Found (names ++ [s]) := by
  have hprinted : (c.add s).printed =
      c.printed ++ [.rtKprintf (String.ofList (s ++ ['\n']))] := by
    rw [Candidates.add]
    dsimp only
    split_ifs <;> rfl
  refine ⟨?_, fun hnil => absurd hnil (by simp), fun _ => ?_⟩
  · rw [hprinted, h.printed, List.map_append]
    rfl
  by_cases hnil : names = []
  · -- The first name is compared with itself.
    obtain ⟨-, hzero⟩ := h.none hnil
    have hmin : (c.add s).minLength = s.length := by
      rw [Candidates.add, if_pos hzero, Option.getD_some, strCommon_self]
      exact congrArg Candidates.minLength (if_neg (lt_irrefl _))
    refine ⟨s, ?_, by simp, hmin.le, ?_⟩
    · rw [Candidates.add, if_pos hzero]
      dsimp only
      split_ifs <;> rfl
    · rw [hmin, List.take_length, hnil, List.nil_append]
      exact ⟨fun t ht => (List.mem_singleton.mp ht) ▸ List.prefix_rfl,
        fun p hp => hp s (List.mem_singleton_self s)⟩
  · obtain ⟨name, hptr, hmem, hle, hcommon⟩ := h.some hnil
    have hpos : c.minLength ≠ 0 := by
      have hline := (hcommon.greatest line hnames).length_le
      have hlen : 0 < line.length := List.length_pos_iff.mpr hne
      have := hline.trans (List.length_take_le _ _)
      omega
    have hmin : (c.add s).minLength = min (strCommon name s) c.minLength := by
      rw [Candidates.add, if_neg hpos, hptr, Option.getD_some]
      rcases lt_or_ge (strCommon name s) c.minLength with hlt | hge
      · rw [if_pos hlt, min_eq_left hlt.le]
      · rw [if_neg hge.not_gt, min_eq_right hge]
    refine ⟨name, ?_, List.mem_append_left _ hmem, ?_, ?_⟩
    · rw [Candidates.add, if_neg hpos]
      dsimp only
      split_ifs <;> exact hptr
    · omega
    · rw [hmin]
      exact hcommon.min hmem

/-- What the loop has found at its end. -/
lemma foldl_found (table : List Syscall) (hne : line ≠ []) (c : Candidates) (h : c.Found names)
    (hnames : ∀ name ∈ names, line <+: name) :
    (table.foldl (fun (s : Candidates) index => (candidate line index).elim s s.add) c).Found
      (names ++ candidates table line) := by
  induction table generalizing c names with
  | nil => rwa [candidates, List.filterMap_nil, List.append_nil]
  | cons index table ih =>
    rw [List.foldl_cons, candidates]
    cases hindex : candidate line index with
    | none =>
      rw [List.filterMap_cons_none hindex]
      exact ih c h hnames
    | some name =>
      have hextend : line <+: name := by
        rw [candidate] at hindex
        split_ifs at hindex with hcond
        rw [Option.some_inj] at hindex
        exact hindex ▸ List.prefix_iff_eq_take.mpr hcond.2
      rw [List.filterMap_cons_some hindex, ← List.singleton_append, ← List.append_assoc]
      refine ih (c.add name) (h.add hne hnames) ?_
      intro t ht
      rcases List.mem_append.mp ht with ht | ht
      · exact hnames t ht
      · exact List.mem_singleton.mp ht ▸ hextend

lemma mem_candidates {name : List Char} : name ∈ candidates table line ↔
    (∃ index ∈ table, index.name = "__cmd_".toList ++ name) ∧ line <+: name := by
  rw [candidates, List.mem_filterMap]
  constructor
  · rintro ⟨index, hmem, hindex⟩
    rw [candidate] at hindex
    split_ifs at hindex with hcond
    rw [Option.some_inj] at hindex
    subst hindex
    refine ⟨⟨index, hmem, ?_⟩, List.prefix_iff_eq_take.mpr hcond.2⟩
    rw [← hcond.1, List.take_append_drop]
  · rintro ⟨⟨index, hmem, hname⟩, hline⟩
    have htake : index.name.take 6 = "__cmd_".toList := by
      rw [hname]
      exact List.take_left' rfl
    have hdrop : index.name.drop 6 = name := by
      rw [hname]
      exact List.drop_left' rfl
    refine ⟨index, hmem, ?_⟩
    rw [candidate, htake, hdrop, if_pos ⟨rfl, List.prefix_iff_eq_take.mp hline⟩]

lemma findCandidates_found (table : List Syscall) (hne : line ≠ []) :
    (findCandidates table line).Found (candidates table line) := by
  have hstart : Candidates.Found { namePtr := none, minLength := 0, printed := [] } [] :=
    ⟨rfl, fun _ => ⟨rfl, rfl⟩, fun h => absurd rfl h⟩
  have h := foldl_found table hne _ hstart nofun
  rwa [List.nil_append] at h

lemma mshAutoComplete_of_ne_nil (hne : line ≠ []) : mshAutoComplete table line =
    ((findCandidates table line).printed, (findCandidates table line).namePtr.map fun name =>
      (name, (findCandidates table line).minLength)) :=
  if_neg hne

/-- What is printed for a line: the help, or the commands that extend it. -/
lemma mem_mshAutoComplete {e : Effect} (he : e ∈ (mshAutoComplete table line).1) :
    e = .rtKprintf "RT-Thread shell commands:\n" ∨ e = .rtKprintf "\n" ∨
    (∃ index ∈ table, e = .rtKprintf (String.ofList (index.name.drop 6 ++ [' ']))) ∨
    ∃ name ∈ candidates table line, e = .rtKprintf (String.ofList (name ++ ['\n'])) := by
  by_cases hne : line = []
  · rw [mshAutoComplete, if_pos hne, mshHelp, List.cons_append, List.mem_cons, List.mem_append,
      List.mem_map, List.mem_singleton] at he
    rcases he with rfl | ⟨index, hindex, rfl⟩ | rfl
    · exact Or.inl rfl
    · exact Or.inr (Or.inr (Or.inl ⟨index, (List.mem_filter.mp hindex).1, rfl⟩))
    · exact Or.inr (Or.inl rfl)
  · rw [mshAutoComplete_of_ne_nil hne, (findCandidates_found table hne).printed, List.mem_map] at he
    obtain ⟨name, hname, rfl⟩ := he
    exact Or.inr (Or.inr (Or.inr ⟨name, hname, rfl⟩))

/-- The characters that are copied to the line are those of a command that extends it. -/
lemma mshAutoComplete_eq_some {name : List Char} {n : ℕ}
    (h : (mshAutoComplete table line).2 = some (name, n)) :
    name ∈ candidates table line ∧ n ≤ name.length ∧ complete table line = name.take n := by
  have hcomplete : complete table line = name.take n := by rw [complete, h]; rfl
  have hne : line ≠ [] := by
    rintro rfl
    exact Option.some_ne_none _ h.symm
  have hfound := findCandidates_found table hne
  rw [mshAutoComplete_of_ne_nil hne] at h
  obtain ⟨name', hptr, hpair⟩ := Option.map_eq_some_iff.mp h
  obtain ⟨rfl, rfl⟩ := Prod.mk.inj hpair
  have hsome : candidates table line ≠ [] := by
    intro hnil
    rw [(hfound.none hnil).1] at hptr
    exact Option.some_ne_none _ hptr.symm
  obtain ⟨name, hptr', hmem, hle, -⟩ := hfound.some hsome
  obtain rfl : name = name' := Option.some_inj.mp (hptr'.symm.trans hptr)
  exact ⟨hmem, hle, hcomplete⟩

lemma nul_notMem_complete (hnul : nul ∉ line) : nul ∉ complete table line := by
  cases h : (mshAutoComplete table line).2 with
  | none =>
    rw [complete, h]
    exact hnul
  | some r =>
    obtain ⟨hmem, -, hcomplete⟩ := mshAutoComplete_eq_some h
    obtain ⟨⟨index, -, hname⟩, -⟩ := mem_candidates.mp hmem
    have hindex := index.nul_notMem
    rw [hname] at hindex
    rw [hcomplete]
    exact fun hmem => hindex (List.mem_append_right _ (List.mem_of_mem_take hmem))

lemma complete_of_candidates_eq_nil (h : candidates table line = []) :
    complete table line = line := by
  cases hr : (mshAutoComplete table line).2 with
  | none => rw [complete, hr]; rfl
  | some r => exact absurd (mshAutoComplete_eq_some hr).1 (by simp [h])

lemma isCommon_complete (hne : line ≠ []) (h : candidates table line ≠ []) :
    IsCommon (candidates table line) (complete table line) := by
  obtain ⟨name, hptr, -, -, hcommon⟩ := (findCandidates_found table hne).some h
  rw [complete, mshAutoComplete_of_ne_nil hne, hptr]
  exact hcommon

lemma complete_extends (table : List Syscall) (line : List Char) :
    line <+: complete table line := by
  by_cases hne : line = []
  · subst hne
    exact List.nil_prefix
  by_cases h : candidates table line = []
  · exact ⟨[], by rw [List.append_nil, complete_of_candidates_eq_nil h]⟩
  · exact (isCommon_complete hne h).greatest line fun name hname => (mem_candidates.mp hname).2

/-- **The completion.**  For every table of commands and every line that is not empty,
`msh_auto_complete` lists the commands that extend the line, in the order of the table; the line
that it leaves is the longest text that all of them extend, and the same line if there are none. -/
theorem auto_complete (hne : line ≠ []) :
    (mshAutoComplete table line).1 =
      (candidates table line).map (fun name => .rtKprintf (String.ofList (name ++ ['\n']))) ∧
    (candidates table line = [] → complete table line = line) ∧
    (candidates table line ≠ [] → IsCommon (candidates table line) (complete table line)) ∧
    line <+: complete table line ∧
    ∀ name, name ∈ candidates table line ↔
      (∃ index ∈ table, index.name = "__cmd_".toList ++ name) ∧ line <+: name := by
  refine ⟨?_, complete_of_candidates_eq_nil, isCommon_complete hne, complete_extends table line,
    fun name => mem_candidates⟩
  rw [mshAutoComplete_of_ne_nil hne]
  exact (findCandidates_found table hne).printed

/-- The commands that `main.cpp` exports after the game. -/
def mainCommands : List Syscall :=
  [⟨"__cmd_clear".toList, clear, by decide⟩,
    ⟨"__cmd_setAnimationCmd".toList, setAnimationCmd, by decide⟩,
    ⟨"__cmd_setColor".toList, setColorCmd, by decide⟩,
    ⟨"__cmd_setAnimation".toList, setAnimationCmd, by decide⟩]

/-- The commands that `main.cpp` exports.  The game does not return to the shell before it ends, and
takes the characters that are typed in the meantime. -/
def mainTable (pong : List (List Char) → List Effect) : List Syscall :=
  ⟨"__cmd_pong".toList, pong, by decide⟩ :: mainCommands

/-- `setA` is completed to `setAnimation`, which `setAnimationCmd` extends as well. -/
theorem auto_complete_setA :
    IsCommon (candidates (mainTable fun _ => []) "setA".toList)
      (complete (mainTable fun _ => []) "setA".toList) ∧
    complete (mainTable fun _ => []) "setA".toList = "setAnimation".toList :=
  ⟨(auto_complete (by decide)).2.2.1 (by decide), by decide⟩

end HdmiDisplay.Shell
