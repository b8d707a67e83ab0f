/-
# The shell, the game and the main thread

The threads of the program on the processor, after start-up: the shell, which reads characters from
the UART and runs commands, among them `pong`; the game thread of `Game.cpp`; the main thread, which
only sleeps; and the kernel's idle thread.  Each thread has a program counter over the statements of
its source, and the current thread executes one of them at a time; between any two of them a timer
may fire or the UART may receive a character.
-/
import HdmiDisplay.Game.Uart
import HdmiDisplay.Lib.Transition
import HdmiDisplay.Rtos.Kernel

namespace HdmiDisplay.Game

open Rtos

/-- The threads. -/
inductive Tid where
  | main
  | game
  | shell
  | idle
deriving DecidableEq, Repr

/-- `RT_THREAD_PRIORITY_MAX` of `rtconfig.h`. -/
def rtThreadPriorityMax : ℕ := 8

/-- `RT_MAIN_THREAD_PRIORITY`. -/
def rtMainThreadPriority : ℕ := rtThreadPriorityMax / 3

/-- `Game::THREAD_PRIORITY`. -/
def gameThreadPriority : ℕ := 3

/-- `FINSH_THREAD_PRIORITY`. -/
def finshThreadPriority : ℕ := rtThreadPriorityMax / 8 * 5 + 1

def Tid.priority : Tid → ℕ
  | .main => rtMainThreadPriority
  | .game => gameThreadPriority
  | .shell => finshThreadPriority
  | .idle => rtThreadPriorityMax - 1

instance : Threads Tid where
  priority := Tid.priority
  order := [.main, .game, .shell, .idle]
  sorted := by decide
  mem_order t := by cases t <;> decide

/-- Where the shell is: in `UART_ReceiveChar`, handling a character, or in `Game::start` after the
line `pong`. -/
inductive ShellPc where
  /-- `while(!(UARTx->STATE & UART_STATE_RXBF))`. -/
  | waitChar
  /-- `return (char)(UARTx->DATA)`. -/
  | readChar
  /-- The rest of the loop of `finsh_thread_entry`, with any command other than `pong`. -/
  | handleChar
  /-- `rt_thread_init(&thread_, ..)`. -/
  | initThread
  /-- `rt_thread_startup(&thread_)`. -/
  | startupThread
  /-- Behind `rt_thread_startup`. -/
  | started
deriving DecidableEq, Repr

/-- Where the game thread is, in `processThread` and the functions it calls. -/
inductive GamePc where
  /-- `rt_thread_find(FINSH_THREAD_NAME)`. -/
  | findShell
  /-- `rt_thread_suspend(shellThread)`. -/
  | suspendShell
  /-- `game->isRunning_ = true`. -/
  | setRunning
  /-- `while(game->isRunning_)`. -/
  | testRunning
  /-- `while (UART_GetRxBufferFull(UART0) != SET)`. -/
  | pollRx
  /-- `rt_thread_mdelay(5)`. -/
  | delay5
  /-- `if (!isRunning_) return`. -/
  | checkRunning
  /-- `UART_ReceiveChar(UART0)`. -/
  | receiveChar
  /-- What `processInputs` does with a key. -/
  | handleKey (key : Char)
  /-- `rt_thread_mdelay(25)`. -/
  | delay25
  /-- Behind the loop: `rt_thread_resume(shellThread)`. -/
  | resumeShell
  /-- `rt_schedule()`. -/
  | schedule
  /-- The return from `processThread`, to `rt_thread_exit`. -/
  | exitThread
deriving DecidableEq, Repr

/-- The state of the program. -/
structure State where
  kernel : Kernel Tid
  uart : Uart Tid
  shell : ShellPc
  game : GamePc
  /-- The member `isRunning_`. -/
  isRunning : Bool
  /-- Whether the local variable `shellThread` of `processThread` is not `RT_NULL`. -/
  shellThread : Bool
  /-- Log: how many characters had been received when `processThread` last started to run. -/
  startedAt : ℕ
  /-- Log: how many characters had been received when `processInputs` last read a `'q'`. -/
  quitAt : ℕ

/-- A step of the shell; `pong` says whether the character that is handled ends the line `pong`. -/
def shellStep (s : State) (pong : Bool) : State :=
  match s.shell with
  | .waitChar => if s.uart.rxBufferFull = true then { s with shell := .readChar } else s
  | .readChar => { s with uart := s.uart.receiveChar .shell, shell := .handleChar }
  | .handleChar => { s with shell := if pong = true then .initThread else .waitChar }
  | .initThread =>
      -- the new stack of the thread makes it start at its entry
      { s with kernel := s.kernel.rtThreadInit .game, game := .findShell, shell := .startupThread }
  | .startupThread => { s with kernel := s.kernel.rtThreadStartup .game, shell := .started }
  | .started => { s with shell := .waitChar }

/-- A step of the game thread. -/
def gameStep (s : State) : State :=
  match s.game with
  | .findShell =>
      { s with shellThread := s.kernel.objects .shell, startedAt := s.uart.received,
               game := .suspendShell }
  | .suspendShell =>
      { s with kernel := if s.shellThread = true then s.kernel.rtThreadSuspend .shell else s.kernel,
               game := .setRunning }
  | .setRunning => { s with isRunning := true, game := .testRunning }
  | .testRunning => { s with game := if s.isRunning = true then .pollRx else .resumeShell }
  | .pollRx => { s with game := if s.uart.rxBufferFull = true then .receiveChar else .delay5 }
  | .delay5 => { s with kernel := s.kernel.rtThreadSleep, game := .checkRunning }
  | .checkRunning => { s with game := if s.isRunning = true then .pollRx else .delay25 }
  | .receiveChar =>
      if s.uart.rxBufferFull = true then
        { s with uart := s.uart.receiveChar .game, game := .handleKey s.uart.data,
                 quitAt := if s.uart.data = 'q' then s.uart.received else s.quitAt }
      else s
  | .handleKey key =>
      { s with isRunning := if key = 'q' then false else s.isRunning, game := .delay25 }
  | .delay25 => { s with kernel := s.kernel.rtThreadSleep, game := .testRunning }
  | .resumeShell =>
      if s.shellThread = true then
        { s with kernel := s.kernel.rtThreadResume .shell, game := .schedule }
      else { s with game := .exitThread }
  | .schedule => { s with kernel := s.kernel.rtSchedule, game := .exitThread }
  | .exitThread => { s with kernel := s.kernel.rtThreadExit }

/-- What can happen. -/
inductive Event where
  /-- The current thread executes a statement. -/
  | exec (pong : Bool)
  /-- The timer of a sleeping thread fires. -/
  | timeout (t : Tid)
  /-- The UART receives a character. -/
  | receive (c : Char) (overwrite : Bool)
deriving DecidableEq, Repr

/-- The state after an event. -/
def step (s : State) : Event → Option State
  | .exec pong =>
      match s.kernel.current with
      | .main => some { s with kernel := s.kernel.rtThreadSleep }
      | .game => some (gameStep s)
      | .shell => some (shellStep s pong)
      | .idle => some s
  | .timeout t =>
      if s.kernel.timer t = true then some { s with kernel := s.kernel.rtThreadTimeout t } else none
  | .receive c overwrite => some { s with uart := s.uart.receive c overwrite }

/-- What an event does, by the thread that runs. -/
lemma step_cases {s s' : State} {e : Event} (h : step s e = some s') :
    (∃ pong, e = .exec pong) ∧
        (s.kernel.current = .main ∧ s' = { s with kernel := s.kernel.rtThreadSleep } ∨
          s.kernel.current = .game ∧ s' = gameStep s ∨
          (∃ pong, s.kernel.current = .shell ∧ s' = shellStep s pong) ∨
          s.kernel.current = .idle ∧ s' = s) ∨
      (∃ t, e = .timeout t ∧ s.kernel.timer t = true ∧
        s' = { s with kernel := s.kernel.rtThreadTimeout t }) ∨
      ∃ c overwrite, e = .receive c overwrite ∧
        s' = { s with uart := s.uart.receive c overwrite } := by
  cases e with
  | exec pong =>
    refine Or.inl ⟨⟨pong, rfl⟩, ?_⟩
    rw [step] at h
    cases hcur : s.kernel.current with
    | main =>
      rw [hcur, Option.some_inj] at h
      exact Or.inl ⟨rfl, h.symm⟩
    | game =>
      rw [hcur, Option.some_inj] at h
      exact Or.inr (Or.inl ⟨rfl, h.symm⟩)
    | shell =>
      rw [hcur, Option.some_inj] at h
      exact Or.inr (Or.inr (Or.inl ⟨pong, rfl, h.symm⟩))
    | idle =>
      rw [hcur, Option.some_inj] at h
      exact Or.inr (Or.inr (Or.inr ⟨rfl, h.symm⟩))
  | timeout t =>
    rw [step] at h
    by_cases htimer : s.kernel.timer t = true
    · rw [if_pos htimer, Option.some_inj] at h
      exact Or.inr (Or.inl ⟨t, rfl, htimer, h.symm⟩)
    · rw [if_neg htimer] at h
      exact absurd h nofun
  | receive c overwrite =>
    rw [step, Option.some_inj] at h
    exact Or.inr (Or.inr ⟨c, overwrite, rfl, h.symm⟩)

/-- The state after start-up: the main thread runs, the shell is ready, and the game thread has
never been started, its object being in the zero-initialised memory. -/
def afterStartup : State where
  kernel :=
    { stat := fun t => if t = .game then .init else .ready
      timer := fun _ => false
      objects := fun t => t ≠ .game
      current := .main }
  uart := .empty
  shell := .waitChar
  game := .exitThread
  isRunning := false
  shellThread := false
  startedAt := 0
  quitAt := 0

/-- The reachable states. -/
abbrev Reachable : State → Prop := Transition.Reachable step afterStartup

end HdmiDisplay.Game
