/-
# The hand-over between the shell and the game

What the phases and the log of the characters come to, for every sequence of commands, characters
and wake-ups: the game's thread object is initialised only when it is not in the kernel, the shell
executes nothing from the start of the game thread to its exit, the characters of that time are the
game's until it has read a `'q'`, and after the `'q'` the game comes to its end and leaves the shell
ready.
-/
import HdmiDisplay.Game.Characters

namespace HdmiDisplay.Game

open Rtos Rtos.Kernel Transition

/-- The program counters in and before the loop of `processThread`. -/
def GamePc.inLoop : GamePc → Bool
  | .findShell | .resumeShell | .schedule | .exitThread => false
  | _ => true

/-- `processThread` has first run and has not left its loop. -/
def InLoop (s : State) : Prop := s.kernel.objects .game = true ∧ s.game.inLoop = true

/-- `processThread` has left its loop and has not exited. -/
def LeftLoop (s : State) : Prop :=
  s.kernel.objects .game = true ∧
    (s.game = .resumeShell ∨ s.game = .schedule ∨ s.game = .exitThread)

/-- The game thread has exited and the shell is ready. -/
def HandedBack (s : State) : Prop :=
  s.kernel.Is .game .close false ∧ s.kernel.objects .game = false ∧
    s.kernel.Is .shell .ready false

instance (s : State) : Decidable (InLoop s) := inferInstanceAs (Decidable (_ ∧ _))

instance (s : State) : Decidable (LeftLoop s) := inferInstanceAs (Decidable (_ ∧ _))

instance (s : State) : Decidable (HasQuit s) := inferInstanceAs (Decidable (_ ∧ _))

lemma InLoop.begun {s : State} (h : InLoop s) : Begun s := by
  refine ⟨h.1, ?_⟩
  intro hpc
  have hloop := h.2
  rw [hpc] at hloop
  exact absurd hloop Bool.false_ne_true

lemma LeftLoop.hasQuit {s : State} (h : LeftLoop s) : HasQuit s := by
  obtain ⟨hobject, hpc | hpc | hpc⟩ := h <;> exact ⟨hobject, by rw [hpc]; rfl⟩

/-- Between its first statement and its exit the game thread is alive. -/
lemma Begun.alive {s : State} (h : Begun s) (hinv : Inv s) : Alive s.kernel := by
  obtain ⟨hobject, hpc⟩ := h
  cases hinv.phase with
  | absent _ hno => exact absurd hobject (hno ▸ Bool.false_ne_true)
  | created _ _ _ _ hgpc => exact absurd hgpc hpc
  | starting hgame => exact Or.inl hgame.stat
  | leaving hgame => exact Or.inl hgame.stat
  | playing hgame => exact hgame.imp (fun his => his.stat) fun his => his.1.stat

/-! ### After the `'q'` -/

/-- The events of the game thread: its statements and its wake-ups. -/
def gameEvent (s : State) : Event → Bool
  | .exec _ => s.kernel.current = .game
  | .timeout t => t = .game
  | .receive _ _ => false

/-- How many events of the game thread are left, but for the exit, after it has read a `'q'`. -/
def GamePc.eventsLeft : GamePc → Stat → ℕ
  | .handleKey _, _ => 6
  | .delay25, _ => 5
  | .testRunning, .suspend => 4
  | .testRunning, _ => 3
  | .resumeShell, _ => 2
  | .schedule, _ => 1
  | _, _ => 0

def eventsLeft (s : State) : ℕ := s.game.eventsLeft (s.kernel.stat .game)

section Progress

variable {s : State}

lemma eventsLeft_le (s : State) : eventsLeft s ≤ 6 := by
  have hle : ∀ (pc : GamePc) (stat : Stat), pc.eventsLeft stat ≤ 6 := by
    intro pc stat
    cases pc with
    | handleKey key => exact Nat.le_refl 6
    | _ => cases stat <;> decide
  exact hle _ _

lemma eventsLeft_testRunning_le (stat : Stat) : GamePc.eventsLeft .testRunning stat ≤ 4 := by
  cases stat <;> decide

/-- A sleeping game thread is behind one of its delays. -/
lemma Inv.asleep (hinv : Inv s) (htimer : s.kernel.timer .game = true) :
    s.kernel.stat .game = .suspend ∧ (s.game = .checkRunning ∨ s.game = .testRunning) := by
  rcases hinv.phase.game_is with hgame | ⟨hgame, hpc, -⟩ | ⟨-, hno⟩
  · simp [hgame.timer] at htimer
  · exact ⟨hgame.stat, hpc⟩
  · simp [hno] at htimer

/-- The game thread does not exit with the shell suspended. -/
lemma Inv.shell_of_exit (hinv : Inv s) (hpc : s.game = .exitThread) :
    s.kernel.Is .shell .ready false := by
  rcases hinv.phase.shell_is with hshell | ⟨-, hgpc⟩
  · exact hshell
  · rw [hpc] at hgpc
    exact absurd hgpc Bool.false_ne_true

/-- A step of the game thread after the `'q'`. -/
lemma eventsLeft_gameStep (hinv : Inv s) (hquit : HasQuit s) (hcur : s.kernel.current = .game) :
    HandedBack (gameStep s) ∨
      HasQuit (gameStep s) ∧ eventsLeft (gameStep s) + 1 ≤ eventsLeft s := by
  obtain ⟨hobject, hpc'⟩ := hquit
  have hready : s.kernel.stat .game = .ready := hcur ▸ hinv.strict.ready
  rw [gameStep, eventsLeft.eq_def s, hready]
  cases hpc : s.game with
  | handleKey key =>
    rw [hpc] at hpc'
    -- the game ends, and the loop is left at its next test
    have hkey : key = 'q' := of_decide_eq_true hpc'
    rw [hkey]
    exact Or.inr ⟨⟨hobject, rfl⟩, Nat.le_refl 6⟩
  | delay25 =>
    rw [hpc] at hpc'
    refine Or.inr ⟨⟨?_, hpc'⟩, Nat.succ_le_succ (eventsLeft_testRunning_le _)⟩
    exact (congrFun rtThreadSleep_objects _).trans hobject
  | testRunning =>
    rw [hpc] at hpc'
    have hrun : s.isRunning = false := (Bool.not_eq_true' _).mp hpc'
    dsimp only
    rw [hrun]
    exact Or.inr ⟨⟨hobject, rfl⟩, Nat.le_refl 3⟩
  | resumeShell =>
    dsimp only
    split
    · refine Or.inr ⟨⟨?_, rfl⟩, Nat.le_refl 2⟩
      exact (congrFun rtThreadResume_objects _).trans hobject
    · exact Or.inr ⟨⟨hobject, rfl⟩, Nat.le_succ 1⟩
  | schedule => exact Or.inr ⟨⟨hobject, rfl⟩, Nat.le_refl 1⟩
  | exitThread =>
    -- the exit is the last event, and the shell is ready by then
    have hne : Tid.shell ≠ s.kernel.current := by simp [hcur]
    refine Or.inl ⟨?_, ?_, (sameThread_exit hne).is (hinv.shell_of_exit hpc)⟩
    · exact hcur ▸ rtThreadExit_is
    · exact hcur ▸ rtThreadExit_objects
  | findShell | suspendShell | setRunning | pollRx | delay5 | checkRunning | receiveChar =>
    rw [hpc] at hpc'
    exact absurd hpc' Bool.false_ne_true

/-- A kernel step that does not concern the game thread. -/
lemma eventsLeft_kernel {k : Kernel Tid} (hk : SameThread s.kernel k .game) (hquit : HasQuit s) :
    HasQuit { s with kernel := k } ∧ eventsLeft { s with kernel := k } = eventsLeft s :=
  ⟨⟨hk.2.2.trans hquit.1, hquit.2⟩, congrArg s.game.eventsLeft hk.1⟩

/-- The wake-up of the game thread after the `'q'`. -/
lemma eventsLeft_timeout (hinv : Inv s) (hquit : HasQuit s)
    (htimer : s.kernel.timer .game = true) :
    HasQuit { s with kernel := s.kernel.rtThreadTimeout .game } ∧
      eventsLeft { s with kernel := s.kernel.rtThreadTimeout .game } + 1 ≤ eventsLeft s := by
  obtain ⟨hasleep, hpc | hpc⟩ := hinv.asleep htimer
  · have hq := hquit.2
    rw [hpc] at hq
    exact absurd hq Bool.false_ne_true
  · have hawake : (s.kernel.rtThreadTimeout .game).stat .game = .ready :=
      rtThreadTimeout_is.stat
    -- awake there is one event less to come than asleep
    have hafter : eventsLeft { s with kernel := s.kernel.rtThreadTimeout .game } = 3 := by
      rw [eventsLeft, hawake, hpc]
      rfl
    have hbefore : eventsLeft s = 4 := by
      rw [eventsLeft, hasleep, hpc]
      rfl
    exact ⟨hquit, by omega⟩

/-- Every event of the game thread after the `'q'` brings its exit nearer, and no other event
delays it. -/
lemma eventsLeft_step {e : Event} {s' : State} (hinv : Inv s) (hquit : HasQuit s)
    (hstep : step s e = some s') :
    HandedBack s' ∨ HasQuit s' ∧ eventsLeft s' + (gameEvent s e).toNat ≤ eventsLeft s := by
  rcases step_cases hstep with ⟨⟨pong, rfl⟩, ⟨hcur, rfl⟩ | ⟨hcur, rfl⟩ | ⟨pong', hcur, rfl⟩ |
    ⟨hcur, rfl⟩⟩ | ⟨t, rfl, htimer, rfl⟩ | ⟨c, overwrite, rfl, rfl⟩
  · -- the main thread goes back to sleep
    have hsleep := rtThreadSleep_eq hinv.strict.ready
    rw [hcur] at hsleep
    rw [hsleep]
    have hsame : SameThread s.kernel (s.kernel.put .main .suspend true) .game :=
      sameThread_put (by simp)
    obtain ⟨hquit', hleft⟩ :=
      eventsLeft_kernel (k := (s.kernel.put .main .suspend true).rtSchedule) hsame hquit
    refine Or.inr ⟨hquit', ?_⟩
    rw [gameEvent, hcur, hleft]
    exact Nat.le_refl _
  · rcases eventsLeft_gameStep hinv hquit hcur with hback | ⟨hquit', hleft⟩
    · exact Or.inl hback
    · refine Or.inr ⟨hquit', ?_⟩
      rw [gameEvent, hcur]
      exact hleft
  · exact absurd hcur (hinv.current_ne_shell (hquit.begun.alive hinv))
  · refine Or.inr ⟨hquit, ?_⟩
    rw [gameEvent, hcur]
    exact Nat.le_refl _
  · -- a timer runs out, which helps if it is that of the game thread
    by_cases hgame : t = .game
    · subst hgame
      exact Or.inr (eventsLeft_timeout hinv hquit htimer)
    · obtain ⟨hquit', hleft⟩ := eventsLeft_kernel (k := s.kernel.rtThreadTimeout t)
        (sameThread_put (Ne.symm hgame)) hquit
      refine Or.inr ⟨hquit', ?_⟩
      rw [gameEvent, hleft, decide_eq_false hgame]
      exact Nat.le_refl _
  · exact Or.inr ⟨hquit, Nat.le_refl _⟩

/-- **The end of a game.**  After a `'q'`, a run with seven events of the game thread passes
through a state in which the game thread has exited and the shell is ready. -/
theorem handedBack_of_hasQuit (hinv : Inv s) (hquit : HasQuit s) {es : List Event} {s' : State}
    (hrun : run step s es = some s') (hmany : 7 ≤ helps step gameEvent s es) :
    ∃ es₁ u, es₁ <+: es ∧ run step s es₁ = some u ∧ HandedBack u := by
  refine passes_of_rank gameEvent (fun s => Inv s ∧ HasQuit s) HandedBack eventsLeft ?_
    ⟨hinv, hquit⟩ hrun (Nat.lt_of_le_of_lt (eventsLeft_le s) hmany)
  rintro u e u' ⟨hinv, hquit⟩ hstep
  rcases eventsLeft_step hinv hquit hstep with hback | ⟨hquit', hleft⟩
  · exact Or.inl hback
  · exact Or.inr ⟨⟨hinv.step hstep, hquit'⟩, hleft⟩

end Progress

/-! ### The hand-over -/

section Parts

variable {s : State}

/-- `Game::start` finds the thread object outside the kernel. -/
lemma Inv.no_object_of_initThread (hinv : Inv s) (hpc : s.shell = .initThread) :
    s.kernel.objects .game = false ∧
      (s.kernel.stat .game = .init ∨ s.kernel.stat .game = .close) := by
  cases hinv.phase with
  | absent hgame hobject =>
    exact ⟨hobject, hgame.imp (fun his => his.stat) fun his => his.stat⟩
  | created _ _ _ hpc' => simp [hpc] at hpc'
  | starting _ _ _ hpc' => simp [hpc] at hpc'
  | leaving _ _ _ hpc' => simp [hpc] at hpc'
  | playing _ _ _ hpc' => simp [hpc] at hpc'

/-- While the game thread can go on it is ready or its timer runs. -/
lemma Alive.awake (halive : Alive s.kernel) (hinv : Inv s) : Awake s.kernel s.game := by
  rcases hinv.phase.game_is with hgame | ⟨hgame, hpc, -⟩ | ⟨hdead, -⟩
  · exact Or.inl hgame
  · exact Or.inr ⟨hgame, hpc⟩
  · exact absurd halive hdead

/-- What has become, behind the loop, of a character received during the game. -/
lemma CharInv.fate (hchar : CharInv s) (hquit : HasQuit s) {k : ℕ} (hk : s.startedAt ≤ k)
    (hk' : k < s.uart.received) :
    (k < s.quitAt → (Tid.game, k) ∈ s.uart.reads ∨ k ∈ s.uart.lost) ∧
      (s.quitAt ≤ k → (∀ t, (t, k) ∉ s.uart.reads) ∧
        (k ∈ s.uart.lost ∨ s.uart.rxBufferFull = true ∧ s.uart.number = k)) := by
  have hfate := hchar.accounted.fate k hk'
  constructor
  · intro hbefore
    rcases hfate with ⟨t, hread⟩ | hlost | ⟨hfull, hnumber⟩
    · exact Or.inl (hchar.begun hquit.begun t k hread hk ▸ hread)
    · exact Or.inr hlost
    · exact absurd (hnumber ▸ hchar.le_number hquit hfull) (Nat.not_le.mpr hbefore)
  · intro hafter
    have hunread : ∀ t, (t, k) ∉ s.uart.reads := fun t hread =>
      absurd (hchar.reads_lt hquit t k hread) (Nat.not_lt.mpr hafter)
    refine ⟨hunread, ?_⟩
    rcases hfate with ⟨t, hread⟩ | hlost | hstands
    · exact absurd hread (hunread t)
    · exact Or.inl hlost
    · exact Or.inr hstands

end Parts

/-- **The hand-over.**  In every reachable state: `rt_thread_init` is only called on a thread
object outside the kernel; between the start of `processThread` and the end of its loop the shell
does not run and only the game thread reads characters received in that time; behind the loop, each
of them has been read by the game thread or lost if it was received before the `'q'` was read, and
is unread, in the register or lost, if it was received after that; and after the `'q'` the shell
does not run until the game thread has exited, which it comes to do, leaving the shell ready. -/
theorem hand_over (s : State) (h : Reachable s) :
    (s.shell = .initThread → s.kernel.objects .game = false ∧
      (s.kernel.stat .game = .init ∨ s.kernel.stat .game = .close)) ∧
    (InLoop s → s.kernel.current ≠ .shell ∧
      ∀ t k, (t, k) ∈ s.uart.reads → s.startedAt ≤ k → t = .game) ∧
    (LeftLoop s → ∀ k, s.startedAt ≤ k → k < s.uart.received →
      (k < s.quitAt → (Tid.game, k) ∈ s.uart.reads ∨ k ∈ s.uart.lost) ∧
      (s.quitAt ≤ k → (∀ t, (t, k) ∉ s.uart.reads) ∧
        (k ∈ s.uart.lost ∨ s.uart.rxBufferFull = true ∧ s.uart.number = k))) ∧
    (HasQuit s → s.kernel.current ≠ .shell ∧ Awake s.kernel s.game ∧
      ∀ es s', run step s es = some s' → 7 ≤ helps step gameEvent s es →
        ∃ es₁ u, es₁ <+: es ∧ run step s es₁ = some u ∧ HandedBack u) := by
  have hinv := inv_of_reachable h
  have hchar := charInv_of_reachable h
  refine ⟨hinv.no_object_of_initThread, ?_, ?_, ?_⟩
  · intro hloop
    exact ⟨hinv.current_ne_shell (hloop.begun.alive hinv), hchar.begun hloop.begun⟩
  · intro hleft k
    exact hchar.fate hleft.hasQuit
  · intro hquit
    have halive := hquit.begun.alive hinv
    refine ⟨hinv.current_ne_shell halive, halive.awake hinv, ?_⟩
    intro es s'
    exact handedBack_of_hasQuit hinv hquit

/-! ### A character behind the `'q'` -/

/-- A game in which `'q'` is pressed, up to the delay behind it. -/
def quitRun : List Event :=
  [.exec false, .receive '\r' false, .exec false, .exec false, .exec true, .exec false, .exec false,
    .exec false, .exec false, .exec false, .exec false, .receive 'q' false, .exec false, .exec false,
    .exec false, .exec false]

/-- The rest of the game, up to the end of the loop. -/
def wakeRun : List Event := [.timeout .game, .exec false]

/-- The exit of the game thread, after which the shell goes on and reads a character. -/
def exitRun : List Event :=
  [.exec false, .exec false, .exec false, .exec false, .exec false, .exec false]

/-- A game in which two characters arrive before the first one is read. -/
def overrunRun : List Event :=
  quitRun.take 11 ++ [.receive 'w' false, .receive 's' false]

/-- What holds after a run from start-up holds in a reachable state. -/
lemma exists_reachable {P : State → Prop} [DecidablePred P] (es : List Event)
    (h : ((run step afterStartup es).any fun s => decide (P s)) = true) :
    ∃ s, Reachable s ∧ P s := by
  obtain ⟨s, hs, hP⟩ := (Option.any_eq_true _ _).mp h
  exact ⟨s, Transition.Reachable.start.run hs, of_decide_eq_true hP⟩

/-- A character that is received in the delay behind the `'q'`, with `processThread` still in its
loop, is read by the shell; and one that finds the register full is read by nobody. -/
theorem late_character :
    (∃ s s' u, Reachable s ∧ InLoop s ∧ step s (.receive 'x' false) = some s' ∧ InLoop s' ∧
      run step s' (wakeRun ++ exitRun) = some u ∧ (Tid.shell, s.uart.received) ∈ u.uart.reads) ∧
    ∃ s, Reachable s ∧ InLoop s ∧ s.startedAt ≤ 2 ∧ 2 ∈ s.uart.lost := by
  constructor
  · have hcheck : ((run step afterStartup quitRun).any fun s => decide (InLoop s) &&
        (step s (.receive 'x' false)).any fun s' => decide (InLoop s') &&
          (run step s' (wakeRun ++ exitRun)).any fun u =>
            decide ((Tid.shell, s.uart.received) ∈ u.uart.reads)) = true := by decide
    obtain ⟨s, hs, hcheck⟩ := Option.any_eq_true _ _ |>.mp hcheck
    rw [Bool.and_eq_true, decide_eq_true_iff] at hcheck
    obtain ⟨s', hs', hcheck'⟩ := Option.any_eq_true _ _ |>.mp hcheck.2
    rw [Bool.and_eq_true, decide_eq_true_iff] at hcheck'
    obtain ⟨u, hu, hread⟩ := Option.any_eq_true _ _ |>.mp hcheck'.2
    exact ⟨s, s', u, Transition.Reachable.start.run hs, hcheck.1, hs', hcheck'.1, hu,
      of_decide_eq_true hread⟩
  · exact exists_reachable overrunRun
      (P := fun s => InLoop s ∧ s.startedAt ≤ 2 ∧ 2 ∈ s.uart.lost) (by decide)

/-- In that game: the thread object is outside the kernel when it is initialised; the shell does not
run while the keys are read; behind the loop nobody has read the late character yet; and after the
`'q'` the game comes to its end. -/
theorem hand_over_late :
    (∃ s, Reachable s ∧ s.shell = .initThread ∧ s.kernel.objects .game = false) ∧
    (∃ s, Reachable s ∧ InLoop s ∧ s.kernel.current ≠ .shell) ∧
    (∃ s, Reachable s ∧ LeftLoop s ∧ ∀ t, (t, 2) ∉ s.uart.reads) ∧
    ∃ s es₁ u, Reachable s ∧ HasQuit s ∧ run step s es₁ = some u ∧ HandedBack u := by
  refine ⟨?_, ?_, ?_, ?_⟩
  · obtain ⟨s, hreach, hpc⟩ : ∃ s, Reachable s ∧ s.shell = .initThread :=
      exists_reachable (quitRun.take 5) (by decide)
    exact ⟨s, hreach, hpc, ((hand_over s hreach).1 hpc).1⟩
  · obtain ⟨s, hreach, hloop⟩ : ∃ s, Reachable s ∧ InLoop s :=
      exists_reachable quitRun (by decide)
    exact ⟨s, hreach, hloop, ((hand_over s hreach).2.1 hloop).1⟩
  · obtain ⟨s, hreach, hleft, hstarted, hreceived, hquit⟩ : ∃ s, Reachable s ∧ LeftLoop s ∧
        s.startedAt ≤ 2 ∧ 2 < s.uart.received ∧ s.quitAt ≤ 2 :=
      exists_reachable (quitRun ++ .receive 'x' false :: wakeRun) (by decide)
    exact ⟨s, hreach, hleft, (((hand_over s hreach).2.2.1 hleft 2 hstarted hreceived).2 hquit).1⟩
  · -- the seven events of the game thread from the `'q'` on
    obtain ⟨s, hreach, hquit, hmany, hrun⟩ : ∃ s, Reachable s ∧ HasQuit s ∧
        7 ≤ helps step gameEvent s (quitRun.drop 14 ++ wakeRun ++ exitRun) ∧
        (run step s (quitRun.drop 14 ++ wakeRun ++ exitRun)).isSome = true :=
      exists_reachable (quitRun.take 14) (by decide)
    obtain ⟨s', hs'⟩ := Option.isSome_iff_exists.mp hrun
    obtain ⟨es₁, u, -, hu, hback⟩ := ((hand_over s hreach).2.2.2 hquit).2.2 _ s' hs' hmany
    exact ⟨s, es₁, u, hreach, hquit, hu, hback⟩

end HdmiDisplay.Game
