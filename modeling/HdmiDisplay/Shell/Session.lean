/-
# Sessions of the shell

What reaches the APB slave while somebody types: the stores of all keys of a session in which the
game is not started.  Only the lines that are entered store anything, and with the commands of
`main.cpp` the stores are whole frames, each of one colour.
-/
import HdmiDisplay.Shell.LineEditor

namespace HdmiDisplay.Shell

open Strtol

/-- The stores among effects. -/
def stores (es : List Effect) : List Effect := es.filter Effect.isWrite

/-- The lines that are entered. -/
def entered (table : List Syscall) : Editor → List Char → List (List Char)
  | _, [] => []
  | e, ch :: chs =>
      (if (decode e.stat ch).2 = .enter then [e.zip.text] else []) ++
        (e.step table ch).elim [] fun r => entered table r.1 chs

/-- A table with the commands of `main.cpp`, whose other commands, but for the game, store nothing;
those of the kernel print. -/
structure IsMainTable (table : List Syscall) : Prop where
  nodup : (table.map Syscall.name).Nodup
  subset : mainCommands ⊆ table
  others : ∀ index ∈ table, index.name ≠ "__cmd_pong".toList →
    (∀ main ∈ mainCommands, main.name ≠ index.name) →
      ∀ argv, ∀ e ∈ index.func argv, e.isWrite = false

/-- The first word of a line. -/
def firstWord (line : List Char) : List Char :=
  (line.dropWhile isBlank).takeWhile fun c => !isBlank c

/-- The colours of the animation. -/
def animation : List (BitVec 32) :=
  (List.range 255).map (fun i =>
    BitVec.ofNat 32 (255 - i) <<< 16 ||| BitVec.ofNat 32 i <<< 8 ||| 0) ++
  (List.range 255).map (fun i => 0 ||| BitVec.ofNat 32 (255 - i) <<< 8 ||| BitVec.ofNat 32 i) ++
  (List.range 255).map fun i => BitVec.ofNat 32 i <<< 16 ||| 0 ||| BitVec.ofNat 32 (255 - i)

/-- The colours that the screen gets from a command. -/
def colours (word : List Char) (args : List (List Char)) : List (BitVec 32) :=
  if word = "setColor".toList then
    match args with
    | _ :: arg :: _ =>
        if arg.length = 6 then [BitVec.ofInt 32 (strtol longMin longMax 16 arg).1] else []
    | _ => []
  else if word = "setAnimation".toList ∨ word = "setAnimationCmd".toList then animation
  else []

/-- The colours that the screen gets from a line, of which eight arguments are used. -/
def Paints (line : List Char) (cs : List (BitVec 32)) : Prop :=
  ∃ args, IsLine args line ∧ cs = colours (firstWord line) (args.take finshArgMax)

variable {table : List Syscall} {es es' : List Effect} {line word : List Char}
  {args : List (List Char)} {z : Zipper Char} {k : Key} {e e' : Editor} {ch : Char}
  {chs : List Char} {ess : List (List Effect)}

/-! ### The stores of a line -/

lemma stores_append (es es' : List Effect) : stores (es ++ es') = stores es ++ stores es' :=
  List.filter_append es es'

lemma stores_eq_nil (h : ∀ e ∈ es, e.isWrite = false) : stores es = [] :=
  List.filter_eq_nil_iff.mpr fun e he => by simp [h e he]

lemma stores_eq_self (h : ∀ e ∈ es, e.isWrite = true) : stores es = es :=
  List.filter_eq_self.mpr h

lemma stores_frames (cs : List (BitVec 32)) :
    stores (cs.flatMap setScreenColor) = cs.flatMap setScreenColor := by
  refine stores_eq_self fun e he => ?_
  obtain ⟨c, -, he⟩ := List.mem_flatMap.mp he
  exact isWrite_setScreenColor c e he

lemma stores_tooManyArgs (argv : List (List Char)) : stores (tooManyArgs argv) = [] := by
  refine stores_eq_nil fun e he => ?_
  rw [tooManyArgs, List.cons_append, List.mem_cons, List.mem_append, List.mem_map,
    List.mem_singleton] at he
  rcases he with rfl | ⟨arg, -, rfl⟩ | rfl <;> rfl

lemma setAnimationCmd_eq (argv : List (List Char)) :
    setAnimationCmd argv = animation.flatMap setScreenColor := by
  rw [animation, List.flatMap_append, List.flatMap_append, List.flatMap_map, List.flatMap_map,
    List.flatMap_map]
  rfl

/-- `msh_get_cmd` looks for the whole name. -/
lemma mshGetCmd_eq (table : List Syscall) (word : List Char) :
    mshGetCmd table word word.length =
      (table.find? fun index => index.name = "__cmd_".toList ++ word).map
        fun index => index.func := by
  have hcmd : ∀ index : Syscall, (index.name.take 6 = "__cmd_".toList ∧
      (index.name.drop 6).take word.length = word.take word.length ∧
      index.name.length = 6 + word.length) ↔ index.name = "__cmd_".toList ++ word := by
    intro index
    constructor
    · rintro ⟨htake, hdrop, hlen⟩
      rw [List.take_length, List.take_of_length_le (by rw [List.length_drop]; omega)] at hdrop
      rw [← htake, ← hdrop, List.take_append_drop]
    · intro hname
      rw [hname]
      refine ⟨List.take_left' rfl, ?_, List.length_append⟩
      exact congrArg (List.take word.length) (List.drop_left' rfl)
  rw [mshGetCmd]
  simp only [hcmd]

lemma stores_setAnimationCmd (argv : List (List Char)) :
    stores (setAnimationCmd argv) = animation.flatMap setScreenColor := by
  rw [setAnimationCmd_eq, stores_frames]

lemma stores_setColorCmd (argv : List (List Char)) : stores (setColorCmd argv) =
    (colours "setColor".toList argv).flatMap setScreenColor := by
  rcases argv with _ | ⟨name, _ | ⟨arg, rest⟩⟩
  · rfl
  · rfl
  have hcolours : colours "setColor".toList (name :: arg :: rest) = if arg.length = 6 then
      [BitVec.ofInt 32 (strtol longMin longMax 16 arg).1] else [] := if_pos rfl
  rw [hcolours]
  by_cases hlen : arg.length = 6
  · rw [setColorCmd_of_length_eq name rest hlen, setColor, if_pos hlen, List.flatMap_singleton]
    exact stores_eq_self (isWrite_setScreenColor _)
  · rw [setColorCmd_of_length_ne name rest hlen, if_neg hlen]
    rfl

lemma isMainTable_mainTable (pong : List (List Char) → List Effect) :
    IsMainTable (mainTable pong) := by
  have hnodup : ((mainTable fun _ => []).map Syscall.name).Nodup := by decide
  refine ⟨hnodup, List.subset_cons_self _ _, ?_⟩
  intro index hindex hpong hmain
  rcases List.mem_cons.mp hindex with rfl | hindex
  · exact absurd rfl hpong
  · exact absurd rfl (hmain index hindex)

/-- Without a command of `main.cpp` there are no colours. -/
lemma colours_eq_nil (h : ∀ main ∈ mainCommands, main.name ≠ "__cmd_".toList ++ word)
    (args : List (List Char)) : colours word args = [] := by
  have hne : ∀ s : List Char, (∃ main ∈ mainCommands, main.name = "__cmd_".toList ++ s) →
      word ≠ s := by
    rintro s ⟨main, hmem, hname⟩ rfl
    exact h main hmem hname
  have hcolor := hne "setColor".toList ⟨_, .tail _ (.tail _ (.head _)), rfl⟩
  have hcmd := hne "setAnimationCmd".toList ⟨_, .tail _ (.head _), rfl⟩
  have halias := hne "setAnimation".toList ⟨_, .tail _ (.tail _ (.tail _ (.head _))), rfl⟩
  unfold colours
  rw [if_neg hcolor, if_neg (not_or.mpr ⟨halias, hcmd⟩)]

/-- The stores of the commands of `main.cpp`. -/
lemma stores_mainCommands (args : List (List Char)) : ∀ main ∈ mainCommands,
    main.name = "__cmd_".toList ++ word →
      stores (main.func args) = (colours word args).flatMap setScreenColor := by
  have hword : ∀ s : List Char, "__cmd_".toList ++ s = "__cmd_".toList ++ word → word = s :=
    fun s hs => (List.append_cancel_left hs).symm
  refine List.forall_mem_cons.mpr ⟨fun hname => ?_, List.forall_mem_cons.mpr ⟨fun hname => ?_,
    List.forall_mem_cons.mpr ⟨fun hname => ?_, List.forall_mem_singleton.mpr fun hname => ?_⟩⟩⟩
  -- it prints, and stores nothing
  · rw [hword "clear".toList hname]
    rfl
  · rw [hword "setAnimationCmd".toList hname]
    exact stores_setAnimationCmd args
  · rw [hword "setColor".toList hname]
    exact stores_setColorCmd args
  · rw [hword "setAnimation".toList hname]
    exact stores_setAnimationCmd args

/-- The stores of the command that `msh_get_cmd` finds. -/
lemma IsMainTable.stores_func {func : List (List Char) → List Effect} (ht : IsMainTable table)
    (h : mshGetCmd table word word.length = some func) (hpong : word ≠ "pong".toList)
    (args : List (List Char)) :
    stores (func args) = (colours word args).flatMap setScreenColor := by
  rw [mshGetCmd_eq] at h
  obtain ⟨index, hfind, rfl⟩ := Option.map_eq_some_iff.mp h
  have hindex := List.mem_of_find?_eq_some hfind
  have hname : index.name = "__cmd_".toList ++ word := by
    simpa only [decide_eq_true_eq] using List.find?_some hfind
  by_cases hmain : ∃ main ∈ mainCommands, main.name = index.name
  · -- no other entry has this name
    obtain ⟨main, hmem, heq⟩ := hmain
    obtain rfl := List.inj_on_of_nodup_map ht.nodup (ht.subset hmem) hindex heq
    exact stores_mainCommands args main hmem hname
  · push Not at hmain
    have hother : index.name ≠ "__cmd_pong".toList := by
      intro heq
      exact hpong (List.append_cancel_left (hname.symm.trans heq))
    rw [stores_eq_nil (ht.others index hindex hother hmain args),
      colours_eq_nil (fun main hmem => hname ▸ hmain main hmem)]
    rfl

lemma IsMainTable.colours_of_eq_none (ht : IsMainTable table)
    (h : mshGetCmd table word word.length = none) (args : List (List Char)) :
    colours word args = [] := by
  refine colours_eq_nil (fun main hmem hname => ?_) args
  rw [mshGetCmd_eq, Option.map_eq_none_iff, List.find?_eq_none] at h
  exact h main (ht.subset hmem) (decide_eq_true hname)

/-- A line paints the colours of its command. -/
lemma IsMainTable.stores_runCommand (ht : IsMainTable table) (hnul : nul ∉ line)
    (hpong : firstWord line ≠ "pong".toList) : ∃ cs, Paints line cs ∧
      stores (runCommand table line) = cs.flatMap setScreenColor := by
  obtain ⟨args, hargs⟩ := exists_isLine line
  refine ⟨_, ⟨args, hargs, rfl⟩, ?_⟩
  rcases hargs.runCommand_cases table hnul with
    ⟨hcmd, hrun⟩ | ⟨hget, hrun⟩ | ⟨func, es, hget, hrun, hes, -⟩
  · rw [hrun, firstWord, hcmd]
    rfl
  · rw [hrun, firstWord, ht.colours_of_eq_none hget]
    rfl
  · have hprinted : stores es = [] := by
      rcases hes with rfl | rfl
      · rfl
      · exact stores_tooManyArgs _
    rw [hrun, stores_append, hprinted, List.nil_append]
    exact ht.stores_func hget hpong _

lemma Paints.unique {cs cs' : List (BitVec 32)} (h : Paints line cs) (h' : Paints line cs')
    (hnul : nul ∉ line) : cs = cs' := by
  obtain ⟨args, hargs, rfl⟩ := h
  obtain ⟨args', hargs', rfl⟩ := h'
  rw [hargs.unique hargs' hnul]

/-- `setColor` with six hexadecimal digits, and further arguments. -/
lemma paints_setColor {b arg rest : List Char} (hb : ∀ c ∈ b, isBlank c = true)
    (hr : ∀ c ∈ rest.head?, isBlank c = true) (hargs : IsLine (arg :: args) rest)
    (harg : IsColour arg) :
    Paints (b ++ "setColor".toList ++ rest) [BitVec.ofNat 32 (colourValue arg)] := by
  have hword : ∀ c ∈ "setColor".toList, isBlank c = false := forall_mem_of_all rfl
  refine ⟨"setColor".toList :: arg :: args, .word hb (by decide) (by decide) hword hr hargs, ?_⟩
  have hfirst : firstWord (b ++ "setColor".toList ++ rest) = "setColor".toList := by
    rw [firstWord, List.append_assoc, dropWhile_append_of_head hb]
    · refine takeWhile_append_of_head (forall_mem_of_all rfl) fun c hc => ?_
      rw [hr c hc]
      rfl
    · rintro c ⟨⟩
      decide
  have hvalue : BitVec.ofInt 32 (strtol longMin longMax 16 arg).1 =
      BitVec.ofNat 32 (colourValue arg) := by
    rw [strtol_of_isColour harg, BitVec.ofInt_natCast]
  rw [hfirst, ← hvalue]
  exact (if_pos harg.1).symm

/-! ### Runs -/

lemma stores_replicate (n : ℕ) : stores (List.replicate n printBackspace) = [] := by
  refine stores_eq_nil fun e he => ?_
  rw [List.eq_of_mem_replicate he]
  rfl

/-- Only the return key stores. -/
lemma stores_effects_of_ne (hk : k ≠ .enter) : stores (k.effects table z) = [] := by
  cases k with
  | ignored => rfl
  | insert ch =>
    rw [Key.effects]
    split_ifs
    · rfl
    · exact stores_replicate _
  | backspace =>
    rw [Key.effects]
    split_ifs
    · rfl
    · rfl
    · exact stores_replicate _
  | left =>
    rw [Key.effects]
    split_ifs <;> rfl
  | right =>
    rw [Key.effects]
    cases z.after <;> rfl
  | tab =>
    have hlist : stores (mshAutoComplete table z.text).1 = [] := by
      refine stores_eq_nil fun e he => ?_
      rcases mem_mshAutoComplete he with rfl | rfl | ⟨index, -, rfl⟩ | ⟨name, -, rfl⟩ <;> rfl
    rw [Key.effects, stores_append, stores_append, stores_append, stores_replicate, hlist]
    rfl
  | enter => exact absurd rfl hk

lemma stores_effects_enter (table : List Syscall) (z : Zipper Char) :
    stores (Key.enter.effects table z) = stores (runCommand table z.text) := by
  rw [Key.effects, stores_append, stores_append]
  exact List.append_nil _

lemma stores_trace (h : Fits e.zip)
    (hrun : Transition.trace (Editor.step table) e chs = some (e', ess)) :
    stores ess.flatten =
      (entered table e chs).flatMap (fun line => stores (runCommand table line)) ∧
    ∀ line ∈ entered table e chs, nul ∉ line := by
  induction chs generalizing e ess with
  | nil =>
    rw [Transition.trace_nil, Option.some_inj] at hrun
    obtain ⟨rfl, rfl⟩ := Prod.mk.inj hrun
    exact ⟨rfl, nofun⟩
  | cons ch chs ih =>
    obtain ⟨e₁, es, ess', hstep, hrest, rfl⟩ := Transition.trace_cons.mp hrun
    obtain ⟨-, h₁⟩ := Editor.step_eq_some hstep h
    obtain ⟨hstores, hnul⟩ := ih h₁ hrest
    have heffects : es = (decode e.stat ch).2.effects table e.zip := by
      rw [Editor.step, Option.ite_none_right_eq_some, Option.some_inj] at hstep
      exact (Prod.mk.inj hstep.2).2.symm
    rw [entered, hstep, Option.elim_some, List.flatten_cons, stores_append, hstores, heffects]
    by_cases hk : (decode e.stat ch).2 = .enter
    · rw [if_pos hk, hk, stores_effects_enter]
      exact ⟨rfl, List.forall_mem_cons.mpr ⟨h.nul_notMem, hnul⟩⟩
    · rw [if_neg hk, stores_effects_of_ne hk]
      exact ⟨rfl, hnul⟩

/-- The colours of the lines that are entered. -/
lemma IsMainTable.exists_paints (ht : IsMainTable table)
    (h : Transition.trace (Editor.step table) Editor.init chs = some (e, ess))
    (hpong : ∀ line ∈ entered table Editor.init chs, firstWord line ≠ "pong".toList) :
    ∃ css, List.Forall₂ Paints (entered table Editor.init chs) css ∧
      stores ess.flatten = css.flatten.flatMap setScreenColor := by
  obtain ⟨hstores, hnul⟩ := stores_trace fits_nil h
  rw [hstores]
  generalize entered table Editor.init chs = lines at hnul hpong ⊢
  clear h hstores
  induction lines with
  | nil => exact ⟨[], .nil, rfl⟩
  | cons line lines ih =>
    obtain ⟨cs, hcs, heq⟩ := ht.stores_runCommand (hnul line List.mem_cons_self)
      (hpong line List.mem_cons_self)
    obtain ⟨css, hcss, heqs⟩ := ih (fun l hl => hnul l (List.mem_cons_of_mem line hl))
      fun l hl => hpong l (List.mem_cons_of_mem line hl)
    refine ⟨cs :: css, .cons hcs hcss, ?_⟩
    rw [List.flatMap_cons, List.flatten_cons, List.flatMap_append, heq, heqs]

/-- **The sessions of the shell.**  Whatever is typed, as long as the line stays shorter than the
array and the game is not started: what the shell stores to the APB slave are whole frames of one
colour, namely for the lines that are entered, one after the other, the colours of their commands.
-/
theorem session (ht : IsMainTable table)
    (h : Transition.trace (Editor.step table) Editor.init chs = some (e, ess))
    (hpong : ∀ line ∈ entered table Editor.init chs, firstWord line ≠ "pong".toList) :
    ∃ s, Transition.trace (FinshShell.step table) FinshShell.init chs = some (s, ess) ∧
      ∃ css, List.Forall₂ Paints (entered table Editor.init chs) css ∧
        stores ess.flatten = css.flatten.flatMap setScreenColor := by
  obtain ⟨hrun, -⟩ := Editor.trace_eq fits_nil h
  exact ⟨_, hrun, ht.exists_paints h hpong⟩

lemma entered_ff00ff (pong : List (List Char) → List Effect) :
    entered (mainTable pong) Editor.init "setColor ff00ff\r".toList =
      ["setColor ff00ff".toList] := rfl

lemma firstWord_ff00ff (pong : List (List Char) → List Effect) :
    ∀ line ∈ entered (mainTable pong) Editor.init "setColor ff00ff\r".toList,
      firstWord line ≠ "pong".toList := by
  rw [entered_ff00ff]
  decide

/-- The colours of `setColor ff00ff`. -/
lemma flatten_ff00ff {pong : List (List Char) → List Effect} {css : List (List (BitVec 32))}
    (h : List.Forall₂ Paints
      (entered (mainTable pong) Editor.init "setColor ff00ff\r".toList) css) :
    css.flatten = [0xff00ff#32] := by
  rw [entered_ff00ff] at h
  obtain ⟨cs, css, hcs, hnil, rfl⟩ := List.forall₂_cons_left_iff.mp h
  obtain rfl := List.forall₂_nil_left_iff.mp hnil
  have hargs : IsLine ["ff00ff".toList] ([' '] ++ "ff00ff".toList ++ []) :=
    .word (forall_mem_of_all rfl) (by decide) (by decide) (forall_mem_of_all rfl) nofun
      (.blanks nofun)
  have hr : ∀ c ∈ ([' '] ++ "ff00ff".toList ++ []).head?, isBlank c = true := by
    rintro c ⟨⟩
    rfl
  have harg : IsColour "ff00ff".toList := ⟨rfl, forall_mem_of_all rfl⟩
  have hpaints := paints_setColor (b := []) nofun hr hargs harg
  have hvalue : BitVec.ofNat 32 (colourValue "ff00ff".toList) = 0xff00ff#32 := by decide
  rw [hcs.unique hpaints (by decide), hvalue, List.flatten_singleton]

/-- `setColor ff00ff` -/
theorem session_ff00ff : ∃ s ess, Transition.trace (FinshShell.step (mainTable fun _ => []))
      FinshShell.init "setColor ff00ff\r".toList = some (s, ess) ∧
    stores ess.flatten = setScreenColor 0xff00ff#32 := by
  have h : ∃ e ess, Transition.trace (Editor.step (mainTable fun _ => [])) Editor.init
      "setColor ff00ff\r".toList = some (e, ess) := ⟨_, _, rfl⟩
  obtain ⟨e, ess, h⟩ := h
  obtain ⟨s, hrun, css, hcss, hstores⟩ :=
    session (isMainTable_mainTable _) h (firstWord_ff00ff _)
  refine ⟨s, ess, hrun, ?_⟩
  rw [hstores, flatten_ff00ff hcss, List.flatMap_singleton]

end HdmiDisplay.Shell
