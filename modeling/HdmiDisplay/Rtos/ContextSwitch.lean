/-
# Context switches

The functions of `context_gcc.S`, which leave the switch to the exception PendSV, and
`rt_hw_stack_init`.  Addresses are those of words.  The processor pushes half of the registers of
the interrupted thread to its stack on entry of an exception and pops them on return; the handler
does so with the other half, and exchanges the stack pointers in between.  Threads and interrupts
execute, and ask for switches, in any order: between a request and the exception the thread that is
switched from can go on, and other threads can be asked for.
-/
import HdmiDisplay.Lib.Transition
import Mathlib.Data.BitVec
import Mathlib.Data.Fin.VecNotation
import Mathlib.Data.Fintype.Basic
import Mathlib.Logic.Function.Basic

namespace HdmiDisplay.Rtos

/-- Words. -/
abbrev Word := BitVec 32

/-- The registers of a thread: those that the processor saves, `r0` to `r3`, `r12`, `lr`, `pc` and
`psr`, those that the handler saves, `r4` to `r11`, and the stack pointer. -/
@[ext]
structure Regs where
  low : Fin 8 → Word
  high : Fin 8 → Word
  psp : ℕ

/-- The stacks of the threads, which do not overlap and have room for the registers. -/
structure Stacks (T : Type*) where
  base : T → ℕ
  top : T → ℕ
  room : ∀ t, base t + 16 ≤ top t / 2 * 2
  disjoint : ∀ t u, t ≠ u → top t ≤ base u ∨ top u ≤ base t

/-- The registers and the memory, with the `sp` of the threads, `rt_current_thread` and the
variables of the switch; `initialized` holds the threads that `rt_thread_init` was called for. -/
structure Cpu (T : Type*) where
  regs : Regs
  mem : ℕ → Word
  sp : T → ℕ
  current : Option T
  flag : Bool
  fromThread : Option T
  toThread : Option T
  pendSV : Bool
  initialized : T → Bool

/-- Eight words are stored. -/
def store (mem : ℕ → Word) (a : ℕ) (v : Fin 8 → Word) (x : ℕ) : Word :=
  if h : a ≤ x ∧ x - a < 8 then v ⟨x - a, h.2⟩ else mem x

/-- Eight words are loaded. -/
def load (mem : ℕ → Word) (a : ℕ) (i : Fin 8) : Word := mem (a + i)

/-- The registers that are saved at an address. -/
def savedRegs (mem : ℕ → Word) (sp : ℕ) : Regs where
  high := load mem sp
  low := load mem (sp + 8)
  psp := sp + 16

/-- The registers are saved below the stack pointer. -/
def pushRegs (mem : ℕ → Word) (r : Regs) : ℕ → Word :=
  store (store mem (r.psp - 8) r.low) (r.psp - 16) r.high

/-- The stack of a thread holds an address. -/
def Stacks.Holds {T : Type*} (k : Stacks T) (t : T) (x : ℕ) : Prop := k.base t ≤ x ∧ x < k.top t

instance {T : Type*} (k : Stacks T) (t : T) (x : ℕ) : Decidable (k.Holds t x) :=
  inferInstanceAs (Decidable (_ ∧ _))

namespace Cpu

variable {T : Type*} [DecidableEq T]

/-- `rt_hw_context_switch` and `rt_hw_context_switch_interrupt`, which are the same. -/
def rtHwContextSwitch (s : Cpu T) (t u : T) : Cpu T :=
  let s := if s.flag then s else { s with flag := true, fromThread := some t }
  { s with toThread := some u, pendSV := true }

/-- The end of `rt_schedule`, with the thread that it chooses. -/
def rtSchedule (s : Cpu T) (u : T) : Cpu T :=
  match s.current with
  | none => s
  | some t => if u ≠ t then { s.rtHwContextSwitch t u with current := some u } else s

/-- The end of `rt_system_scheduler_start`, with `rt_hw_context_switch_to`. -/
def rtHwContextSwitchTo (s : Cpu T) (u : T) : Cpu T :=
  { s with current := some u, toThread := some u, fromThread := none, flag := true, pendSV := true }

/-- `PendSV_Handler`, with the exception entry before it and the return after it.  The processor
uses the stack of a thread from the first switch on. -/
def pendSVHandler (s : Cpu T) : Cpu T :=
  let s := { s with pendSV := false }
  if s.flag then
    let s := { s with flag := false }
    let s :=
      match s.fromThread with
      | none => s
      | some t =>
          { s with mem := pushRegs s.mem s.regs, sp := Function.update s.sp t (s.regs.psp - 16) }
    match s.toThread with
    | none => s
    | some t => { s with regs := savedRegs s.mem (s.sp t) }
  else { s with mem := store s.mem (s.regs.psp - 8) s.regs.low }

/-- `rt_hw_stack_init` in `rt_thread_init`, which fills the stack before. -/
def rtHwStackInit (s : Cpu T) (k : Stacks T) (t : T) (tentry parameter texit : Word) : Cpu T :=
  let sp := k.top t / 2 * 2 - 16
  let low : Fin 8 → Word := ![parameter, 0, 0, 0, 0, texit, tentry, 0x01000000]
  let mem := fun x => if k.Holds t x then 0x23232323 else s.mem x
  let mem := store (store mem sp fun _ => 0xdeadbeef) (sp + 8) low
  { s with mem := mem, sp := Function.update s.sp t sp
           initialized := Function.update s.initialized t true }

/-- The thread whose registers are those of the processor. -/
def owner (s : Cpu T) : Option T := if s.flag then s.fromThread else s.current

/-- What happens: instructions of the thread that has the processor, which change registers or
memory, instructions of an interrupt, the calls and the exception. -/
inductive Event (T : Type*) where
  | compute (r : Regs)
  | write (x : ℕ) (v : Word)
  | interrupt (x : ℕ) (v : Word)
  | init (t : T) (tentry parameter texit : Word)
  | start (t : T)
  | schedule (t : T)
  | pendSV

/-- What a thread with the processor may do, and the order of the calls.  The stack pointer of a
thread stays in its stack, with room for the registers below, and no thread or interrupt writes to
the stack of another thread. -/
def Allowed [Fintype T] (k : Stacks T) (s : Cpu T) : Event T → Prop
  | .compute r => ∃ t, s.owner = some t ∧ k.base t + 16 ≤ r.psp ∧ r.psp ≤ k.top t
  | .write x _ => s.owner ≠ none ∧ ∀ t, k.Holds t x → s.owner = some t
  | .interrupt x _ => ∀ t, k.Holds t x → s.owner = some t ∧ x < s.regs.psp
  | .init t .. => s.owner ≠ some t
  | .start t => s.current = none ∧ s.initialized t = true
  | .schedule t => s.initialized t = true
  | .pendSV => s.pendSV = true

instance [Fintype T] (k : Stacks T) (s : Cpu T) : ∀ e : Event T, Decidable (Allowed k s e)
  | .compute r => inferInstanceAs (Decidable (∃ t, _ ∧ k.base t + 16 ≤ r.psp ∧ r.psp ≤ k.top t))
  | .write x _ => inferInstanceAs (Decidable (_ ∧ ∀ t, k.Holds t x → _))
  | .interrupt x _ => inferInstanceAs (Decidable (∀ t, k.Holds t x → _))
  | .init t .. => inferInstanceAs (Decidable (s.owner ≠ some t))
  | .start t => inferInstanceAs (Decidable (_ ∧ s.initialized t = true))
  | .schedule t => inferInstanceAs (Decidable (s.initialized t = true))
  | .pendSV => inferInstanceAs (Decidable (s.pendSV = true))

/-- The state after an event. -/
def next (k : Stacks T) (s : Cpu T) : Event T → Cpu T
  | .compute r => { s with regs := r }
  | .write x v | .interrupt x v => { s with mem := Function.update s.mem x v }
  | .init t tentry parameter texit => s.rtHwStackInit k t tentry parameter texit
  | .start t => s.rtHwContextSwitchTo t
  | .schedule t => s.rtSchedule t
  | .pendSV => s.pendSVHandler

/-- A step of a run. -/
def step [Fintype T] (k : Stacks T) (s : Cpu T) (e : Event T) : Option (Cpu T) :=
  if Allowed k s e then some (s.next k e) else none

/-- The state before any thread is initialized. -/
def boot (r : Regs) (mem : ℕ → Word) (sp : T → ℕ) : Cpu T where
  regs := r
  mem := mem
  sp := sp
  current := none
  flag := false
  fromThread := none
  toThread := none
  pendSV := false
  initialized := fun _ => false

/-- The registers with which a thread goes on when it has the processor. -/
def context (s : Cpu T) (t : T) : Regs :=
  if s.owner = some t then s.regs else savedRegs s.mem (s.sp t)

/-- An event is an instruction of the thread, or initializes it again. -/
def owns (t : T) (s : Cpu T) : Event T → Bool
  | .compute _ | .write .. => s.owner = some t
  | .init u .. => u = t
  | _ => false

/-- Of a thread that has the processor the stack pointer is that of the processor, the frames of the
others are in their stacks, and a switch that is pending leads to `rt_current_thread`. -/
structure Inv (k : Stacks T) (s : Cpu T) : Prop where
  pending : s.pendSV = s.flag
  target : s.flag = true → s.toThread = s.current ∧ s.current ≠ none
  current : ∀ t, s.current = some t → s.initialized t = true
  owner : ∀ t, s.owner = some t → s.initialized t = true
  running : ∀ t, s.owner = some t → k.base t + 16 ≤ s.regs.psp ∧ s.regs.psp ≤ k.top t
  waiting : ∀ t, s.initialized t = true → s.owner ≠ some t →
    k.base t ≤ s.sp t ∧ s.sp t + 16 ≤ k.top t

/-- A thread goes on with the same registers and the same stack. -/
structure Same (k : Stacks T) (s s' : Cpu T) (t : T) : Prop where
  context : s'.context t = s.context t
  stack : ∀ x, (s.context t).psp ≤ x → x < k.top t → s'.mem x = s.mem x

end Cpu

/-! ### The frame on the stack -/

section Frame

variable {mem mem' : ℕ → Word} {r : Regs} {a x sp : ℕ} {v : Fin 8 → Word}

lemma store_of_not (h : x < a ∨ a + 8 ≤ x) : store mem a v x = mem x :=
  dif_neg fun hx => by omega

lemma load_store : load (store mem a v) a = v := by
  funext i
  have hi : a ≤ a + i ∧ a + i - a < 8 := by omega
  rw [load, store, dif_pos hi]
  congr 1
  ext
  simp

lemma load_store_of_disjoint {b : ℕ} (h : b + 8 ≤ a ∨ a + 8 ≤ b) :
    load (store mem a v) b = load mem b := by
  funext i
  exact store_of_not (by omega)

lemma pushRegs_of_not (hr : 16 ≤ r.psp) (h : x < r.psp - 16 ∨ r.psp ≤ x) :
    pushRegs mem r x = mem x := by
  rw [pushRegs, store_of_not (by omega), store_of_not (by omega)]

/-- What is popped is what was pushed. -/
lemma savedRegs_pushRegs (h : 16 ≤ r.psp) : savedRegs (pushRegs mem r) (r.psp - 16) = r := by
  ext1
  · change load (pushRegs mem r) (r.psp - 16 + 8) = r.low
    rw [show r.psp - 16 + 8 = r.psp - 8 by omega, pushRegs,
      load_store_of_disjoint (by omega), load_store]
  · exact load_store
  · change r.psp - 16 + 16 = r.psp
    omega

lemma savedRegs_congr (h : ∀ x, sp ≤ x → x < sp + 16 → mem' x = mem x) :
    savedRegs mem' sp = savedRegs mem sp := by
  ext1
  · funext i
    exact h _ (by omega) (by omega)
  · funext i
    exact h _ (by omega) (by omega)
  · rfl

end Frame

namespace Cpu

variable {T : Type*} [DecidableEq T] {k : Stacks T} {s s' s'' : Cpu T} {t u : T}

lemma Same.refl : Same k s s t := ⟨rfl, fun _ _ _ => rfl⟩

lemma Same.trans (h : Same k s s' t) (h' : Same k s' s'' t) : Same k s s'' t := by
  refine ⟨h'.context.trans h.context, ?_⟩
  intro x hx hx'
  rw [h'.stack x (h.context ▸ hx) hx', h.stack x hx hx']

omit [DecidableEq T] in
lemma not_holds_of_ne (k : Stacks T) (h : t ≠ u) {x : ℕ} (hx : k.Holds t x) : ¬k.Holds u x := by
  intro hu
  have := k.disjoint t u h
  have := hx.1
  have := hx.2
  have := hu.1
  have := hu.2
  omega

/-- A thread without the processor is not affected by what leaves its stack and its `sp`. -/
lemma Same.of_waiting (hsp : k.base t ≤ s.sp t ∧ s.sp t + 16 ≤ k.top t)
    (h : s.owner ≠ some t) (h' : s'.owner ≠ some t) (hsp' : s'.sp t = s.sp t)
    (hmem : ∀ x, k.Holds t x → s'.mem x = s.mem x) : Same k s s' t := by
  have hs : s.context t = savedRegs s.mem (s.sp t) := if_neg h
  have hs' : s'.context t = savedRegs s'.mem (s.sp t) := hsp' ▸ if_neg h'
  constructor
  · rw [hs, hs']
    exact savedRegs_congr fun x hx hx' => hmem x ⟨by omega, by omega⟩
  · intro x hx hx'
    rw [hs] at hx
    have : s.sp t + 16 ≤ x := hx
    exact hmem x ⟨by omega, hx'⟩

/-! ### The request and the exception -/

/-- What a request of a switch changes. -/
lemma rtSchedule_cases (s : Cpu T) (u : T) : s.rtSchedule u = s ∨
    s.current ≠ none ∧ s.rtSchedule u = { s with
      current := some u, flag := true, fromThread := s.owner, toThread := some u
      pendSV := true } := by
  obtain ⟨_, _, _, current, flag, _, _, _, _⟩ := s
  cases current with
  | none => exact Or.inl rfl
  | some t =>
    by_cases hu : u = t
    · exact Or.inl (if_neg (not_not.mpr hu))
    · refine Or.inr ⟨Option.some_ne_none t, (if_pos hu).trans ?_⟩
      cases flag <;> rfl

/-- The state after the registers of the thread that has the processor are saved. -/
def saved (s : Cpu T) : Cpu T :=
  match s.owner with
  | none => s
  | some t =>
      { s with mem := pushRegs s.mem s.regs, sp := Function.update s.sp t (s.regs.psp - 16) }

lemma saved_initialized (s : Cpu T) : s.saved.initialized = s.initialized := by
  rw [saved]
  split <;> rfl

lemma saved_current (s : Cpu T) : s.saved.current = s.current := by
  rw [saved]
  split <;> rfl

lemma pendSVHandler_eq (h : s.Inv k) (hp : s.pendSV = true) : ∃ u, s.current = some u ∧
    s.pendSVHandler = { s.saved with
      flag := false, pendSV := false, regs := savedRegs s.saved.mem (s.saved.sp u) } := by
  have hflag : s.flag = true := h.pending ▸ hp
  obtain ⟨hto, hcurrent⟩ := h.target hflag
  obtain ⟨u, hu⟩ := Option.ne_none_iff_exists'.mp hcurrent
  refine ⟨u, hu, ?_⟩
  obtain ⟨_, _, _, _, _, fromThread, _, _, _⟩ := s
  replace hto := hto.trans hu
  subst hflag hto hu
  cases fromThread <;> rfl

/-- With the registers of the thread that has the processor, all contexts are in memory. -/
lemma saved_same (h : s.Inv k) (ht : s.initialized t = true) :
    (k.base t ≤ s.saved.sp t ∧ s.saved.sp t + 16 ≤ k.top t) ∧
    savedRegs s.saved.mem (s.saved.sp t) = s.context t ∧
    ∀ x, (s.context t).psp ≤ x → x < k.top t → s.saved.mem x = s.mem x := by
  cases ho : s.owner with
  | none =>
    have hne : s.owner ≠ some t := by simp [ho]
    have hs : s.saved = s := by rw [saved, ho]
    have hcontext : s.context t = savedRegs s.mem (s.sp t) := if_neg hne
    rw [hs, hcontext]
    exact ⟨h.waiting t ht hne, rfl, fun _ _ _ => rfl⟩
  | some u =>
    obtain ⟨hbase, htop⟩ := h.running u ho
    have hmem : s.saved.mem = pushRegs s.mem s.regs := by rw [saved, ho]
    have hsp : s.saved.sp = Function.update s.sp u (s.regs.psp - 16) := by rw [saved, ho]
    by_cases hu : t = u
    · subst hu
      have hcontext : s.context t = s.regs := if_pos ho
      rw [hmem, hsp, Function.update_self, hcontext]
      refine ⟨by omega, savedRegs_pushRegs (by omega), ?_⟩
      intro x hx _
      exact pushRegs_of_not (by omega) (Or.inr hx)
    · have hne : s.owner ≠ some t := by simpa [ho] using Ne.symm hu
      have hcontext : s.context t = savedRegs s.mem (s.sp t) := if_neg hne
      have hwait := h.waiting t ht hne
      -- The frame of the other thread is in another stack.
      have hout : ∀ x, k.Holds t x → pushRegs s.mem s.regs x = s.mem x := by
        intro x hx
        refine pushRegs_of_not (by omega) ?_
        have hxu : ¬(k.base u ≤ x ∧ x < k.top u) := not_holds_of_ne k hu hx
        omega
      rw [hmem, hsp, Function.update_of_ne hu, hcontext]
      refine ⟨hwait, savedRegs_congr fun x hx hx' => hout x ⟨by omega, by omega⟩, ?_⟩
      intro x hx hx'
      have : s.sp t + 16 ≤ x := hx
      exact hout x ⟨by omega, hx'⟩

/-! ### Events -/

lemma rtHwStackInit_sp (s : Cpu T) (k : Stacks T) (t : T) (tentry parameter texit : Word) :
    (s.rtHwStackInit k t tentry parameter texit).sp t = k.top t / 2 * 2 - 16 :=
  Function.update_self ..

/-- The frame of a thread that was initialized. -/
lemma rtHwStackInit_context (h : s.owner ≠ some t) (tentry parameter texit : Word) :
    (s.rtHwStackInit k t tentry parameter texit).context t =
      { low := ![parameter, 0, 0, 0, 0, texit, tentry, 0x01000000]
        high := fun _ => 0xdeadbeef
        psp := k.top t / 2 * 2 - 16 + 16 } := by
  have howner : (s.rtHwStackInit k t tentry parameter texit).owner ≠ some t := h
  rw [context, if_neg howner, rtHwStackInit_sp]
  ext1
  · exact load_store
  · exact (load_store_of_disjoint (by omega)).trans load_store
  · rfl

omit [DecidableEq T] in
/-- The owner and the registers stay, and so do the frames of the others. -/
lemma Inv.of_frame (h : s.Inv k) (howner : s'.owner = s.owner) (hregs : s'.regs.psp = s.regs.psp)
    (hsp : s'.sp = s.sp) (hinit : s'.initialized = s.initialized) (hpending : s'.pendSV = s'.flag)
    (htarget : s'.flag = true → s'.toThread = s'.current ∧ s'.current ≠ none)
    (hcurrent : ∀ t, s'.current = some t → s.initialized t = true) : s'.Inv k := by
  refine ⟨hpending, htarget, hinit ▸ hcurrent, ?_, ?_, ?_⟩
  · rw [howner, hinit]
    exact h.owner
  · rw [howner, hregs]
    exact h.running
  · rw [howner, hinit, hsp]
    exact h.waiting

lemma Inv.rtSchedule (h : s.Inv k) (hu : s.initialized u = true) : (s.rtSchedule u).Inv k := by
  rcases rtSchedule_cases s u with heq | ⟨hcurrent, heq⟩
  · rw [heq]
    exact h
  · rw [heq]
    refine h.of_frame rfl rfl rfl rfl rfl (fun _ => ⟨rfl, Option.some_ne_none u⟩) ?_
    intro t ht
    rwa [← Option.some_inj.mp ht]

omit [DecidableEq T] in
lemma rtHwContextSwitchTo_owner (h : s.Inv k) (hnone : s.current = none) (u : T) :
    (s.rtHwContextSwitchTo u).owner = s.owner := by
  have hflag : s.flag = false := by
    cases hf : s.flag with
    | false => rfl
    | true => exact absurd hnone (h.target hf).2
  rw [Cpu.owner, Cpu.owner, hflag]
  exact hnone.symm

omit [DecidableEq T] in
lemma Inv.rtHwContextSwitchTo (h : s.Inv k) (hnone : s.current = none)
    (hu : s.initialized u = true) : (s.rtHwContextSwitchTo u).Inv k := by
  refine h.of_frame (rtHwContextSwitchTo_owner h hnone u) rfl rfl rfl rfl
    (fun _ => ⟨rfl, Option.some_ne_none u⟩) ?_
  intro t ht
  rwa [← Option.some_inj.mp ht]

lemma Inv.rtHwStackInit (h : s.Inv k) (hu : s.owner ≠ some u) (tentry parameter texit : Word) :
    (s.rtHwStackInit k u tentry parameter texit).Inv k := by
  have hmono : ∀ t, s.initialized t = true → Function.update s.initialized u true t = true := by
    intro t ht
    by_cases htu : t = u
    · rw [htu, Function.update_self]
    · rwa [Function.update_of_ne htu]
  refine ⟨h.pending, h.target, fun t ht => hmono t (h.current t ht),
    fun t ht => hmono t (h.owner t ht), h.running, ?_⟩
  intro t ht hne
  by_cases htu : t = u
  · subst htu
    rw [rtHwStackInit_sp]
    have := k.room t
    omega
  · have hsp : (s.rtHwStackInit k u tentry parameter texit).sp t = s.sp t :=
      Function.update_of_ne htu ..
    have hinit : s.initialized t = true := Function.update_of_ne htu true s.initialized ▸ ht
    rw [hsp]
    exact h.waiting t hinit hne

lemma Inv.pendSVHandler (h : s.Inv k) (hp : s.pendSV = true) : s.pendSVHandler.Inv k := by
  obtain ⟨u, hu, heq⟩ := pendSVHandler_eq h hp
  have hinit := saved_initialized s
  have hcurrent := (saved_current s).trans hu
  have hframe := saved_same h (h.current u hu)
  rw [heq]
  refine ⟨rfl, nofun, ?_, ?_, ?_, ?_⟩
  · intro t ht
    exact hinit ▸ h.current t (saved_current s ▸ ht)
  · intro t ht
    exact hinit ▸ h.current t (saved_current s ▸ ht)
  · intro t ht
    -- the stack pointer is again above the frame
    obtain rfl : u = t := Option.some_inj.mp (hcurrent.symm.trans ht)
    exact ⟨Nat.add_le_add_right hframe.1.1 16, hframe.1.2⟩
  · intro t ht _
    exact (saved_same h (hinit ▸ ht)).1

variable [Fintype T] {e : Event T}

lemma Inv.step (h : s.Inv k) (he : s.step k e = some s') : s'.Inv k := by
  rw [Cpu.step, Option.ite_none_right_eq_some, Option.some_inj] at he
  obtain ⟨hallowed, rfl⟩ := he
  cases e with
  | compute r =>
    obtain ⟨t, ht, hr⟩ := hallowed
    refine ⟨h.pending, h.target, h.current, h.owner, ?_, h.waiting⟩
    intro u hu
    obtain rfl : t = u := Option.some_inj.mp (ht.symm.trans hu)
    exact hr
  | write x v => exact ⟨h.pending, h.target, h.current, h.owner, h.running, h.waiting⟩
  | interrupt x v => exact ⟨h.pending, h.target, h.current, h.owner, h.running, h.waiting⟩
  | init t tentry parameter texit => exact h.rtHwStackInit hallowed tentry parameter texit
  | start t => exact h.rtHwContextSwitchTo hallowed.1 hallowed.2
  | schedule t => exact h.rtSchedule hallowed
  | pendSV => exact h.pendSVHandler hallowed

lemma Inv.same (h : s.Inv k) (he : s.step k e = some s') (ht : s.initialized t = true)
    (hown : owns t s e = false) : Same k s s' t := by
  rw [Cpu.step, Option.ite_none_right_eq_some, Option.some_inj] at he
  obtain ⟨hallowed, rfl⟩ := he
  cases e with
  | compute r =>
    have hne : s.owner ≠ some t := of_decide_eq_false hown
    exact Same.of_waiting (h.waiting t ht hne) hne hne rfl fun _ _ => rfl
  | write x v =>
    have hne : s.owner ≠ some t := of_decide_eq_false hown
    refine Same.of_waiting (h.waiting t ht hne) hne hne rfl ?_
    intro y hy
    refine Function.update_of_ne ?_ ..
    -- a thread writes to no stack but its own
    rintro rfl
    exact hne (hallowed.2 t hy)
  | interrupt x v =>
    by_cases ho : s.owner = some t
    · -- Above the stack pointer of the interrupted thread the stack is left.
      have hcontext : s.context t = s.regs := if_pos ho
      refine ⟨(if_pos ho).trans hcontext.symm, ?_⟩
      intro y hy hy'
      rw [hcontext] at hy
      refine Function.update_of_ne ?_ ..
      rintro rfl
      have := h.running t ho
      have := (hallowed t ⟨by omega, hy'⟩).2
      omega
    · refine Same.of_waiting (h.waiting t ht ho) ho ho rfl ?_
      intro y hy
      refine Function.update_of_ne ?_ ..
      rintro rfl
      exact ho (hallowed t hy).1
  | init u tentry parameter texit =>
    have htu : t ≠ u := fun h => of_decide_eq_false hown h.symm
    have hsp : (s.rtHwStackInit k u tentry parameter texit).sp t = s.sp t :=
      Function.update_of_ne htu ..
    have hmem : ∀ x, k.Holds t x →
        (s.rtHwStackInit k u tentry parameter texit).mem x = s.mem x := by
      intro x hx
      have hxu := not_holds_of_ne k htu hx
      have hout : ¬(k.base u ≤ x ∧ x < k.top u) := hxu
      have := k.room u
      refine (store_of_not (by omega)).trans ((store_of_not (by omega)).trans (if_neg hxu))
    by_cases ho : s.owner = some t
    · have hcontext : s.context t = s.regs := if_pos ho
      refine ⟨(if_pos ho).trans hcontext.symm, ?_⟩
      intro x hx hx'
      rw [hcontext] at hx
      have := h.running t ho
      exact hmem x ⟨by omega, hx'⟩
    · exact Same.of_waiting (h.waiting t ht ho) ho ho hsp hmem
  | start u =>
    have howner := rtHwContextSwitchTo_owner h hallowed.1 u
    refine ⟨?_, fun _ _ _ => rfl⟩
    rw [context, context, next, howner]
    rfl
  | schedule u =>
    rcases rtSchedule_cases s u with heq | ⟨-, heq⟩
    · rw [next, heq]
      exact Same.refl
    · rw [next, heq]
      exact ⟨rfl, fun _ _ _ => rfl⟩
  | pendSV =>
    obtain ⟨u, hu, heq⟩ := pendSVHandler_eq h hallowed
    obtain ⟨-, hframe, hstack⟩ := saved_same h ht
    -- with or without the processor before, the context is the frame that is saved
    have howner : s.pendSVHandler.owner = some u := by
      rw [heq]
      exact (saved_current s).trans hu
    have hcontext : s.pendSVHandler.context t = savedRegs s.saved.mem (s.saved.sp t) := by
      rw [context, howner]
      by_cases htu : u = t
      · rw [if_pos (htu ▸ rfl), heq, htu]
      · rw [if_neg (by simpa using htu), heq]
    refine ⟨hcontext.trans hframe, ?_⟩
    rw [next, heq]
    exact hstack

/-! ### Runs -/

variable {r : Regs} {mem : ℕ → Word} {sp : T → ℕ} {es : List (Event T)}

omit [DecidableEq T] [Fintype T] in
lemma boot_inv (k : Stacks T) (r : Regs) (mem : ℕ → Word) (sp : T → ℕ) :
    (boot r mem sp).Inv k := by
  refine ⟨rfl, nofun, nofun, nofun, nofun, nofun⟩

lemma reachable_inv (h : Transition.Reachable (step k) (boot r mem sp) s) : s.Inv k :=
  h.invariant (Inv k) (boot_inv k r mem sp) fun _ _ _ hs he => hs.step he

lemma initialized_mono (h : s.Inv k) (he : s.step k e = some s') (ht : s.initialized t = true) :
    s'.initialized t = true := by
  rw [Cpu.step, Option.ite_none_right_eq_some, Option.some_inj] at he
  obtain ⟨hallowed, rfl⟩ := he
  cases e with
  | compute r => exact ht
  | write x v => exact ht
  | interrupt x v => exact ht
  | init u tentry parameter texit =>
    by_cases htu : t = u
    · rw [htu]
      exact Function.update_self ..
    · exact (Function.update_of_ne htu ..).trans ht
  | start u => exact ht
  | schedule u =>
    rcases rtSchedule_cases s u with heq | ⟨-, heq⟩
    · rw [next, heq]
      exact ht
    · rw [next, heq]
      exact ht
  | pendSV =>
    obtain ⟨u, -, heq⟩ := pendSVHandler_eq h hallowed
    rw [next, heq]
    exact saved_initialized s ▸ ht

/-- Whatever the others do, the registers and the stack of a thread stay. -/
lemma Inv.same_run (h : s.Inv k) (hrun : Transition.run (Cpu.step k) s es = some s')
    (ht : s.initialized t = true) (hes : Transition.helps (Cpu.step k) (owns t) s es = 0) :
    Same k s s' t := by
  induction es generalizing s with
  | nil =>
    rw [Transition.run_nil, Option.some_inj] at hrun
    exact hrun ▸ Same.refl
  | cons e es ih =>
    obtain ⟨u, hu, hrest⟩ := Transition.run_cons.mp hrun
    rw [Transition.helps, hu, Option.elim_some, Nat.add_eq_zero_iff, Bool.toNat_eq_zero] at hes
    have hfirst := h.same hu ht hes.1
    exact hfirst.trans (ih (h.step hu) hrest (initialized_mono h hu ht) hes.2)

/-- **A thread that is switched from goes on where it was stopped.**  In every order of
instructions, interrupts, requests and switches, until it executes or is initialized again a thread
keeps the registers with which it goes on and its stack above them; a thread that was just
initialized begins at its function.  A switch that was asked for stays pending, and gives the
processor to `rt_current_thread`. -/
theorem context_switch (h : Transition.Reachable (step k) (boot r mem sp) s) :
    (∀ t es s', s.initialized t = true → Transition.run (step k) s es = some s' →
      Transition.helps (step k) (owns t) s es = 0 →
      s'.context t = s.context t ∧
      ∀ x, (s.context t).psp ≤ x → x < k.top t → s'.mem x = s.mem x) ∧
    (∀ t tentry parameter texit, s.owner ≠ some t →
      let r := (s.rtHwStackInit k t tentry parameter texit).context t
      r.low 0 = parameter ∧ r.low 5 = texit ∧ r.low 6 = tentry ∧ r.psp = k.top t / 2 * 2) ∧
    (s.owner ≠ s.current → s.pendSV = true) ∧
    (s.pendSV = true → s.pendSVHandler.owner = s.current) := by
  have hinv := reachable_inv h
  refine ⟨?_, ?_, ?_, ?_⟩
  · intro t es s' ht hrun hes
    have hsame := hinv.same_run hrun ht hes
    exact ⟨hsame.context, hsame.stack⟩
  · intro t tentry parameter texit ho
    have hcontext := rtHwStackInit_context (k := k) ho tentry parameter texit
    have hlow := congrArg Regs.low hcontext
    have hpsp := congrArg Regs.psp hcontext
    have := k.room t
    refine ⟨by rw [hlow]; rfl, by rw [hlow]; rfl, by rw [hlow]; rfl, ?_⟩
    rw [hpsp]
    exact Nat.sub_add_cancel (by omega)
  · intro hne
    rw [hinv.pending]
    cases hf : s.flag with
    | true => rfl
    | false => exact absurd (by rw [owner, hf, if_neg Bool.false_ne_true]) hne
  · intro hp
    obtain ⟨u, hu, heq⟩ := pendSVHandler_eq hinv hp
    rw [heq]
    exact saved_current s

/-- Two threads with stacks of 64 words. -/
def twoStacks : Stacks Bool where
  base t := if t then 64 else 0
  top t := if t then 128 else 64
  room := by decide
  disjoint := by decide

/-- One thread is started and asks for the other. -/
def twoBoot : List (Event Bool) :=
  [.init false 0x100 1 0x300, .init true 0x200 2 0x300, .start false, .pendSV,
    .compute ⟨fun _ => 5, fun _ => 6, 40⟩, .write 40 7, .schedule true]

/-- The other thread executes and asks for the first. -/
def twoSwitches : List (Event Bool) :=
  [.interrupt 39 8, .pendSV, .compute ⟨fun _ => 9, fun _ => 9, 100⟩, .write 110 9, .schedule false,
    .pendSV]

theorem context_switch_back : ∃ s s' : Cpu Bool,
    Transition.run (step twoStacks) (boot ⟨0, 0, 0⟩ 0 0) twoBoot = some s ∧
    Transition.run (step twoStacks) s twoSwitches = some s' ∧ s'.owner = some false ∧
    s'.regs = ⟨fun _ => 5, fun _ => 6, 40⟩ ∧ s'.mem 40 = 7 := by
  have hboot : ∃ s, Transition.run (step twoStacks) (boot ⟨0, 0, 0⟩ 0 0) twoBoot = some s ∧
      s.context false = ⟨fun _ => 5, fun _ => 6, 40⟩ ∧ s.mem 40 = 7 ∧ s.initialized false = true ∧
      Transition.helps (step twoStacks) (owns false) s twoSwitches = 0 ∧
      ∃ s', Transition.run (step twoStacks) s twoSwitches = some s' ∧ s'.owner = some false :=
    ⟨_, rfl, rfl, rfl, rfl, rfl, _, rfl, rfl⟩
  obtain ⟨s, hs, hcontext, hmem, hinit, helps, s', hs', howner⟩ := hboot
  obtain ⟨hsame, hstack⟩ := (context_switch (Transition.Reachable.start.run hs)).1 false twoSwitches
    s' hinit hs' helps
  refine ⟨s, s', hs, hs', howner, ?_, ?_⟩
  · rw [← hcontext, ← hsame, context, if_pos howner]
  · rw [← hmem]
    exact hstack 40 (by rw [hcontext]) (by decide)

end Cpu

end HdmiDisplay.Rtos
