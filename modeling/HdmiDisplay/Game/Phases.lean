/-
# The phases of a game

Where the two threads stand relative to each other.  The game thread's object is in the kernel only
while the shell is inside `Game::start`, and from its start to its exit the shell does not run:
first because the game thread is ready and of a higher priority, then because it has suspended the
shell before it sleeps for the first time, and last because it does not sleep any more after it has
resumed the shell.
-/
import HdmiDisplay.Game.Threads

namespace HdmiDisplay.Game

open Rtos Rtos.Kernel

/-- The game thread is ready, or sleeps behind one of its delays and will be woken up. -/
def Awake (k : Kernel Tid) (game : GamePc) : Prop :=
  k.Is .game .ready false ∨
    k.Is .game .suspend true ∧ (game = .checkRunning ∨ game = .testRunning)

/-- The program counters between the suspension of the shell and its resumption. -/
def GamePc.inGame : GamePc → Bool
  | .findShell | .suspendShell | .schedule | .exitThread => false
  | _ => true

/-- The phases, with what each says about the kernel and the two program counters. -/
inductive Phase (k : Kernel Tid) (shell : ShellPc) (game : GamePc) (shellThread : Bool) : Prop
  /-- The game thread has never been started, or has exited and is detached. -/
  | absent (hgame : k.Is .game .init false ∨ k.Is .game .close false)
      (hobject : k.objects .game = false) (hshell : k.Is .shell .ready false)
      (hpc : shell ≠ .startupThread)
  /-- Between `rt_thread_init` and `rt_thread_startup`. -/
  | created (hgame : k.Is .game .init false) (hobject : k.objects .game = true)
      (hshell : k.Is .shell .ready false) (hpc : shell = .startupThread) (hgpc : game = .findShell)
  /-- The game thread has been started and has not suspended the shell yet. -/
  | starting (hgame : k.Is .game .ready false) (hobject : k.objects .game = true)
      (hshell : k.Is .shell .ready false) (hpc : shell = .started)
      (hgpc : game = .findShell ∨ game = .suspendShell ∧ shellThread = true)
  /-- The shell is suspended. -/
  | playing (hgame : Awake k game) (hobject : k.objects .game = true)
      (hshell : k.Is .shell .suspend false) (hpc : shell = .started)
      (hgpc : game.inGame = true) (hthread : shellThread = true)
  /-- The shell is ready again and the game thread has not exited yet. -/
  | leaving (hgame : k.Is .game .ready false) (hobject : k.objects .game = true)
      (hshell : k.Is .shell .ready false) (hpc : shell = .started)
      (hgpc : game = .schedule ∨ game = .exitThread)

/-- What the threads other than the game and the shell do. -/
structure Others (k : Kernel Tid) : Prop where
  main : k.Is .main .ready false ∨ k.Is .main .suspend true
  idle : k.Is .idle .ready false
  object : k.objects .shell = true

/-- What holds in every reachable state. -/
structure Inv (s : State) : Prop where
  strict : s.kernel.StrictPriority
  others : Others s.kernel
  phase : Phase s.kernel s.shell s.game s.shellThread

lemma inv_afterStartup : Inv afterStartup where
  strict := ⟨rfl, by intro t; cases t <;> decide⟩
  others := ⟨Or.inl ⟨rfl, rfl⟩, ⟨rfl, rfl⟩, rfl⟩
  phase := .absent (Or.inl ⟨rfl, rfl⟩) rfl ⟨rfl, rfl⟩ (by simp [afterStartup])

section Kernel

variable {k k' : Kernel Tid} {t : Tid} {st : Stat} {tm : Bool} {shell : ShellPc} {game : GamePc}
  {shellThread : Bool}

/-- Two kernels in which a thread has the same state. -/
def SameThread (k k' : Kernel Tid) (t : Tid) : Prop :=
  k'.stat t = k.stat t ∧ k'.timer t = k.timer t ∧ k'.objects t = k.objects t

lemma SameThread.is (h : SameThread k k' t) (hk : k.Is t st tm) : k'.Is t st tm :=
  ⟨h.1.trans hk.stat, h.2.1.trans hk.timer⟩

lemma sameThread_put {u : Tid} (h : u ≠ t) : SameThread k (k.put t st tm) u :=
  ⟨Function.update_of_ne h .., Function.update_of_ne h .., rfl⟩

lemma sameThread_init {u : Tid} (h : u ≠ t) : SameThread k (k.rtThreadInit t) u :=
  ⟨Function.update_of_ne h .., Function.update_of_ne h .., Function.update_of_ne h ..⟩

lemma sameThread_exit {u : Tid} (h : u ≠ k.current) : SameThread k k.rtThreadExit u :=
  ⟨Function.update_of_ne h .., Function.update_of_ne h .., Function.update_of_ne h ..⟩

lemma Others.congr (h : Others k) (hm : SameThread k k' .main) (hi : SameThread k k' .idle)
    (hs : k'.objects .shell = k.objects .shell) : Others k' :=
  ⟨h.main.imp hm.is hm.is, hi.is h.idle, hs.trans h.object⟩

/-- A phase depends on the state of the game and of the shell only. -/
lemma Phase.congr (h : Phase k shell game shellThread) (hg : SameThread k k' .game)
    (hs : SameThread k k' .shell) : Phase k' shell game shellThread := by
  cases h with
  | absent hgame hobject hshell hpc =>
    exact .absent (hgame.imp hg.is hg.is) (hg.2.2.trans hobject) (hs.is hshell) hpc
  | created hgame hobject hshell hpc hgpc =>
    exact .created (hg.is hgame) (hg.2.2.trans hobject) (hs.is hshell) hpc hgpc
  | starting hgame hobject hshell hpc hgpc =>
    exact .starting (hg.is hgame) (hg.2.2.trans hobject) (hs.is hshell) hpc hgpc
  | playing hgame hobject hshell hpc hgpc hthread =>
    exact .playing (hgame.imp hg.is (And.imp_left hg.is)) (hg.2.2.trans hobject) (hs.is hshell) hpc
      hgpc hthread
  | leaving hgame hobject hshell hpc hgpc =>
    exact .leaving (hg.is hgame) (hg.2.2.trans hobject) (hs.is hshell) hpc hgpc

/-- After `rt_schedule` the priorities are respected, the idle thread being ready. -/
lemma Others.strict (h : Others k) : k.rtSchedule.StrictPriority :=
  strictPriority_rtSchedule h.idle.stat

lemma Others.schedule (h : Others k) : Others k.rtSchedule :=
  h.congr ⟨rfl, rfl, rfl⟩ ⟨rfl, rfl, rfl⟩ rfl

lemma Phase.schedule (h : Phase k shell game shellThread) :
    Phase k.rtSchedule shell game shellThread := h.congr ⟨rfl, rfl, rfl⟩ ⟨rfl, rfl, rfl⟩

/-- A change of the game or of the shell leaves the others alone. -/
lemma Others.put (h : Others k) (ht : t = .game ∨ t = .shell) : Others (k.put t st tm) := by
  refine h.congr (sameThread_put ?_) (sameThread_put ?_) rfl
  · rcases ht with rfl | rfl <;> simp
  · rcases ht with rfl | rfl <;> simp

/-- A change of the main thread leaves the game and the shell alone. -/
lemma Phase.putMain (h : Phase k shell game shellThread) :
    Phase (k.put .main st tm) shell game shellThread :=
  h.congr (sameThread_put (by simp)) (sameThread_put (by simp))

end Kernel

/-! ### Who can run -/

/-- The game thread has been started and has not exited. -/
def Alive (k : Kernel Tid) : Prop := k.stat .game = .ready ∨ k.stat .game = .suspend

section Phase

variable {k : Kernel Tid} {shell : ShellPc} {game : GamePc} {shellThread : Bool}

/-- The shell is ready, or the game has suspended it. -/
lemma Phase.shell_is (h : Phase k shell game shellThread) :
    k.Is .shell .ready false ∨ k.Is .shell .suspend false ∧ game.inGame = true := by
  cases h with
  | absent _ _ hshell => exact Or.inl hshell
  | created _ _ hshell => exact Or.inl hshell
  | starting _ _ hshell => exact Or.inl hshell
  | leaving _ _ hshell => exact Or.inl hshell
  | playing _ _ hshell _ hgpc => exact Or.inr ⟨hshell, hgpc⟩

/-- The game thread is ready, or asleep behind one of its delays with the shell suspended, or it
cannot run. -/
lemma Phase.game_is (h : Phase k shell game shellThread) :
    k.Is .game .ready false ∨
      (k.Is .game .suspend true ∧ (game = .checkRunning ∨ game = .testRunning) ∧
        k.Is .shell .suspend false) ∨
      ¬Alive k ∧ k.timer .game = false := by
  have hdead : ∀ {st : Stat}, k.Is .game st false → st ≠ .ready → st ≠ .suspend →
      ¬Alive k ∧ k.timer .game = false := by
    intro st his hready hsuspend
    refine ⟨?_, his.timer⟩
    rw [Alive, his.stat]
    rintro (heq | heq)
    · exact hready heq
    · exact hsuspend heq
  cases h with
  | absent hgame =>
    rcases hgame with hgame | hgame
    · exact Or.inr (Or.inr (hdead hgame (by simp) (by simp)))
    · exact Or.inr (Or.inr (hdead hgame (by simp) (by simp)))
  | created hgame => exact Or.inr (Or.inr (hdead hgame (by simp) (by simp)))
  | starting hgame => exact Or.inl hgame
  | leaving hgame => exact Or.inl hgame
  | playing hgame _ hshell =>
    rcases hgame with hgame | ⟨hgame, hpc⟩
    · exact Or.inl hgame
    · exact Or.inr (Or.inl ⟨hgame, hpc, hshell⟩)

end Phase

section Current

variable {s : State} (h : Inv s)
include h

/-- A suspended shell does not run. -/
lemma Inv.current_ne_of_suspend (hshell : s.kernel.Is .shell .suspend false) :
    s.kernel.current ≠ .shell := by
  intro hcur
  have hready := h.strict.ready
  rw [hcur, hshell.stat] at hready
  exact absurd hready (by simp)

/-- While the game thread is alive the shell is not the current thread. -/
lemma Inv.current_ne_shell (halive : Alive s.kernel) : s.kernel.current ≠ .shell := by
  rcases h.phase.game_is with hgame | ⟨-, -, hshell⟩ | ⟨hdead, -⟩
  · exact h.strict.current_ne hgame.stat (by decide)
  · exact h.current_ne_of_suspend hshell
  · exact absurd halive hdead

/-- The shell runs before the start of the game thread or after its exit. -/
lemma Inv.phase_of_shell (hcur : s.kernel.current = .shell) :
    s.kernel.Is .shell .ready false ∧
      ((s.kernel.Is .game .init false ∨ s.kernel.Is .game .close false) ∧
          s.kernel.objects .game = false ∧ s.shell ≠ .startupThread ∨
        s.kernel.objects .game = true ∧ s.shell = .startupThread ∧ s.game = .findShell) := by
  have hdead : ¬Alive s.kernel := fun halive => h.current_ne_shell halive hcur
  cases h.phase with
  | absent hgame hobject hshell hpc => exact ⟨hshell, Or.inl ⟨hgame, hobject, hpc⟩⟩
  | created _ hobject hshell hpc hgpc => exact ⟨hshell, Or.inr ⟨hobject, hpc, hgpc⟩⟩
  | starting hgame => exact absurd (Or.inl hgame.stat) hdead
  | leaving hgame => exact absurd (Or.inl hgame.stat) hdead
  | playing _ _ hshell => exact absurd hcur (h.current_ne_of_suspend hshell)

end Current

/-! ### The invariant is preserved -/

section Step

variable {s : State}

/-- The kernel has just called `rt_schedule`. -/
lemma inv_of_schedule {k : Kernel Tid} (hk : s.kernel = k.rtSchedule) (hothers : Others k)
    (hphase : Phase k s.shell s.game s.shellThread) : Inv s :=
  ⟨hk ▸ hothers.strict, hk ▸ hothers.schedule, hk ▸ hphase.schedule⟩

variable (h : Inv s)
include h

/-- The main thread goes to sleep. -/
lemma Inv.mainStep (hcur : s.kernel.current = .main) :
    Inv { s with kernel := s.kernel.rtThreadSleep } := by
  have hsleep := rtThreadSleep_eq h.strict.ready
  rw [hcur] at hsleep
  have hothers : Others (s.kernel.put .main .suspend true) :=
    ⟨Or.inr put_is_self, (sameThread_put (by simp)).is h.others.idle, h.others.object⟩
  exact inv_of_schedule hsleep hothers h.phase.putMain

/-- A timer wakes the main thread or the game thread, as no other sleeps. -/
lemma Inv.timeout {t : Tid} (htimer : s.kernel.timer t = true) :
    Inv { s with kernel := s.kernel.rtThreadTimeout t } := by
  have hno : ∀ {st : Stat}, ¬s.kernel.Is t st false := fun his =>
    absurd htimer (his.timer ▸ Bool.false_ne_true)
  cases t with
  | main =>
    have hothers : Others (s.kernel.put .main .ready false) :=
      ⟨Or.inl put_is_self, (sameThread_put (by simp)).is h.others.idle, h.others.object⟩
    exact inv_of_schedule rfl hothers h.phase.putMain
  | game =>
    -- the game thread has its timer running only while it plays
    refine inv_of_schedule rfl (h.others.put (Or.inl rfl)) ?_
    cases h.phase with
    | absent hgame => exact (hgame.elim hno hno).elim
    | created hgame => exact (hno hgame).elim
    | starting hgame => exact (hno hgame).elim
    | leaving hgame => exact (hno hgame).elim
    | playing hgame hobject hshell hpc hgpc hthread =>
      exact .playing (Or.inl put_is_self) hobject ((sameThread_put (by simp)).is hshell) hpc hgpc
        hthread
  | shell =>
    rcases h.phase.shell_is with hshell | ⟨hshell, -⟩
    · exact (hno hshell).elim
    · exact (hno hshell).elim
  | idle => exact (hno h.others.idle).elim

/-- The shell runs commands and starts the game. -/
lemma Inv.shellStep (hcur : s.kernel.current = .shell) (pong : Bool) :
    Inv (shellStep s pong) := by
  obtain ⟨hshell, ⟨hgame, hobject, hpc⟩ | ⟨hobject, hpc, hgpc⟩⟩ := h.phase_of_shell hcur
  · -- there is no game thread, until `initThread` makes one
    have hstay : ∀ pc, pc ≠ .startupThread → Phase s.kernel pc s.game s.shellThread :=
      fun pc => .absent hgame hobject hshell
    rw [Game.shellStep]
    cases hsh : s.shell with
    | waitChar =>
      dsimp only
      split
      · exact ⟨h.strict, h.others, hstay .readChar (by simp)⟩
      · exact h
    | readChar => exact ⟨h.strict, h.others, hstay .handleChar (by simp)⟩
    | handleChar =>
      cases pong
      · exact ⟨h.strict, h.others, hstay .waitChar (by simp)⟩
      · exact ⟨h.strict, h.others, hstay .initThread (by simp)⟩
    | initThread =>
      have hstrict : (s.kernel.put .game .init false).StrictPriority :=
        strictPriority_put h.strict (by simp [hcur]) (by simp)
      refine ⟨⟨hstrict.ready, hstrict.lt⟩, ?_, ?_⟩
      · exact h.others.congr (sameThread_init (by simp)) (sameThread_init (by simp)) rfl
      · exact .created rtThreadInit_is rtThreadInit_objects
          ((sameThread_init (by simp)).is hshell) rfl rfl
    | startupThread => exact absurd hsh hpc
    | started => exact ⟨h.strict, h.others, hstay .waitChar (by simp)⟩
  · -- the new thread is started, and takes over at once
    rw [Game.shellStep, hpc, rtThreadStartup_eq]
    refine inv_of_schedule rfl (h.others.put (Or.inl rfl)) ?_
    exact .starting put_is_self hobject ((sameThread_put (by simp)).is hshell) rfl (Or.inl hgpc)

/-- The game thread, while it is the current one, sleeps. -/
lemma Inv.gameSleep (hcur : s.kernel.current = .game) (hobject : s.kernel.objects .game = true)
    (hshell : s.kernel.Is .shell .suspend false) (hpc : s.shell = .started) {pc : GamePc}
    (hgpc : pc.inGame = true) (hdelay : pc = .checkRunning ∨ pc = .testRunning)
    (hthread : s.shellThread = true) :
    Inv { s with kernel := s.kernel.rtThreadSleep, game := pc } := by
  have hsleep := rtThreadSleep_eq h.strict.ready
  rw [hcur] at hsleep
  refine inv_of_schedule hsleep (h.others.put (Or.inl rfl)) ?_
  exact .playing (Or.inr ⟨put_is_self, hdelay⟩) hobject ((sameThread_put (by simp)).is hshell) hpc
    hgpc hthread

/-- The game thread goes from phase to phase. -/
lemma Inv.gameStep (hcur : s.kernel.current = .game) : Inv (gameStep s) := by
  have hready : s.kernel.stat .game = .ready := hcur ▸ h.strict.ready
  have hne : Tid.shell ≠ s.kernel.current := by simp [hcur]
  have hbelow : Threads.priority s.kernel.current < Threads.priority Tid.shell := by
    rw [hcur]
    decide
  cases h.phase with
  | absent hgame =>
    rcases hgame with hgame | hgame
    · simp [hgame.stat] at hready
    · simp [hgame.stat] at hready
  | created hgame => simp [hgame.stat] at hready
  | starting hgame hobject hshell hpc hgpc =>
    rcases hgpc with hgpc | ⟨hgpc, hthread⟩
    · rw [Game.gameStep, hgpc]
      exact ⟨h.strict, h.others, .starting hgame hobject hshell hpc
        (Or.inr ⟨rfl, h.others.object⟩)⟩
    · -- the shell is suspended before the game thread sleeps
      rw [Game.gameStep, hgpc]
      dsimp only
      rw [if_pos hthread, rtThreadSuspend_eq hshell.stat]
      refine ⟨strictPriority_put h.strict hne (by simp), h.others.put (Or.inr rfl), ?_⟩
      exact .playing (Or.inl ((sameThread_put (by simp)).is hgame)) hobject put_is_self hpc
        rfl hthread
  | playing hgame hobject hshell hpc hgpc hthread =>
    -- the thread runs, so that it is not asleep
    have hawake : s.kernel.Is .game .ready false := by
      rcases hgame with hgame | ⟨hgame, -⟩
      · exact hgame
      · simp [hgame.stat] at hready
    have hstay : ∀ pc : GamePc, pc.inGame = true → Phase s.kernel s.shell pc s.shellThread :=
      fun pc hpc' => .playing (Or.inl hawake) hobject hshell hpc hpc' hthread
    rw [Game.gameStep]
    cases hgm : s.game with
    | setRunning => exact ⟨h.strict, h.others, hstay _ rfl⟩
    | testRunning =>
      dsimp only
      exact ⟨h.strict, h.others, hstay _ (by split <;> rfl)⟩
    | pollRx =>
      dsimp only
      exact ⟨h.strict, h.others, hstay _ (by split <;> rfl)⟩
    | delay5 => exact h.gameSleep hcur hobject hshell hpc rfl (Or.inl rfl) hthread
    | checkRunning =>
      dsimp only
      exact ⟨h.strict, h.others, hstay _ (by split <;> rfl)⟩
    | receiveChar =>
      dsimp only
      split
      · exact ⟨h.strict, h.others, hstay _ rfl⟩
      · exact h
    | handleKey key => exact ⟨h.strict, h.others, hstay _ rfl⟩
    | delay25 => exact h.gameSleep hcur hobject hshell hpc rfl (Or.inr rfl) hthread
    | resumeShell =>
      dsimp only
      rw [if_pos hthread, rtThreadResume_eq hshell.stat]
      refine ⟨strictPriority_put h.strict hne fun _ => hbelow, h.others.put (Or.inr rfl), ?_⟩
      exact .leaving ((sameThread_put (by simp)).is hawake) hobject put_is_self hpc (Or.inl rfl)
    | findShell | suspendShell | schedule | exitThread =>
      rw [hgm] at hgpc
      exact absurd hgpc Bool.false_ne_true
  | leaving hgame hobject hshell hpc hgpc =>
    rcases hgpc with hgpc | hgpc
    · rw [Game.gameStep, hgpc]
      exact inv_of_schedule rfl h.others (.leaving hgame hobject hshell hpc (Or.inr rfl))
    · rw [Game.gameStep, hgpc]
      have hmain : Tid.main ≠ s.kernel.current := by simp [hcur]
      have hidle : Tid.idle ≠ s.kernel.current := by simp [hcur]
      have hothers : Others s.kernel.rtThreadExit :=
        h.others.congr (sameThread_exit hmain) (sameThread_exit hidle) (sameThread_exit hne).2.2
      refine ⟨strictPriority_rtThreadExit hothers.idle.stat, hothers, ?_⟩
      refine .absent (Or.inr ?_) ?_ ((sameThread_exit hne).is hshell) (by simp [hpc])
      · exact hcur ▸ rtThreadExit_is
      · exact hcur ▸ rtThreadExit_objects

/-- Every event preserves the invariant. -/
theorem Inv.step {e : Event} {s' : State} (hstep : Game.step s e = some s') : Inv s' := by
  rcases step_cases hstep with ⟨-, ⟨hcur, rfl⟩ | ⟨hcur, rfl⟩ | ⟨pong, hcur, rfl⟩ | ⟨-, rfl⟩⟩ |
    ⟨t, -, htimer, rfl⟩ | ⟨c, overwrite, -, rfl⟩
  · exact h.mainStep hcur
  · exact h.gameStep hcur
  · exact h.shellStep hcur pong
  · exact h
  · exact h.timeout htimer
  · exact ⟨h.strict, h.others, h.phase⟩

end Step

lemma inv_of_reachable {s : State} (h : Reachable s) : Inv s :=
  h.invariant Inv inv_afterStartup fun _ _ _ hinv hstep => hinv.step hstep

end HdmiDisplay.Game
