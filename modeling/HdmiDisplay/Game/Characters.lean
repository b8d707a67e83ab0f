/-
# Who reads the characters

The characters of the UART during a game.  From the first statement of `processThread` on, only the
game thread reads; after it has read a `'q'` it reads nothing any more, so that a character which
arrives later stays in the register, for the shell, unless it is lost.
-/
import HdmiDisplay.Game.Phases

namespace HdmiDisplay.Game

open Rtos Rtos.Kernel

/-- The program counters of `processInputs`. -/
def GamePc.inProcessInputs : GamePc → Bool
  | .pollRx | .delay5 | .checkRunning | .receiveChar | .handleKey _ => true
  | _ => false

/-- At this point, with this value of `isRunning_`, a `'q'` has been read. -/
def GamePc.hasQuit : GamePc → Bool → Bool
  | .handleKey key, _ => key = 'q'
  | .delay25, isRunning | .testRunning, isRunning => !isRunning
  | .resumeShell, _ | .schedule, _ | .exitThread, _ => true
  | _, _ => false

/-- `processThread` has executed a statement and has not exited. -/
def Begun (s : State) : Prop := s.kernel.objects .game = true ∧ s.game ≠ .findShell

/-- The game thread has read a `'q'` and has not exited. -/
def HasQuit (s : State) : Prop :=
  s.kernel.objects .game = true ∧ s.game.hasQuit s.isRunning = true

/-- What holds about the characters in every reachable state. -/
structure CharInv (s : State) : Prop where
  accounted : s.uart.Accounted
  running : s.kernel.objects .game = true → s.game.inProcessInputs = true → s.isRunning = true
  begun : Begun s → ∀ t k, (t, k) ∈ s.uart.reads → s.startedAt ≤ k → t = .game
  quitAt_le : HasQuit s → s.quitAt ≤ s.uart.received
  reads_lt : HasQuit s → ∀ t k, (t, k) ∈ s.uart.reads → k < s.quitAt
  le_number : HasQuit s → s.uart.rxBufferFull = true → s.quitAt ≤ s.uart.number

lemma HasQuit.begun {s : State} (h : HasQuit s) : Begun s := by
  refine ⟨h.1, ?_⟩
  intro hpc
  have hquit := h.2
  rw [hpc] at hquit
  exact absurd hquit Bool.false_ne_true

lemma charInv_afterStartup : CharInv afterStartup where
  accounted := Uart.accounted_empty
  running := fun h => absurd h Bool.false_ne_true
  begun := fun h => absurd h.1 Bool.false_ne_true
  quitAt_le := fun h => absurd h.1 Bool.false_ne_true
  reads_lt := fun h => absurd h.1 Bool.false_ne_true
  le_number := fun h => absurd h.1 Bool.false_ne_true

section Step

variable {s s' : State}

/-- Without the game thread's object there is nothing to say but for the UART. -/
lemma charInv_of_no_object (haccounted : s.uart.Accounted)
    (hobject : s.kernel.objects .game = false) : CharInv s := by
  have hno : ¬s.kernel.objects .game = true := by rw [hobject]; exact Bool.false_ne_true
  exact ⟨haccounted, fun h => (hno h).elim, fun h => (hno h.1).elim, fun h => (hno h.1).elim,
    fun h => (hno h.1).elim, fun h => (hno h.1).elim⟩

/-- Before its first statement the game thread has neither begun nor quit. -/
lemma charInv_of_findShell (haccounted : s.uart.Accounted) (hpc : s.game = .findShell) :
    CharInv s := by
  have hno : ¬HasQuit s := fun h => h.begun.2 hpc
  refine ⟨haccounted, ?_, fun h => absurd hpc h.2, fun h => (hno h).elim, fun h => (hno h).elim,
    fun h => (hno h).elim⟩
  intro _ h
  rw [hpc] at h
  exact absurd h Bool.false_ne_true

variable (h : CharInv s)
include h

/-- A step that leaves the UART and the log alone. -/
lemma CharInv.move (hobject : s'.kernel.objects = s.kernel.objects) (huart : s'.uart = s.uart)
    (hstarted : s'.startedAt = s.startedAt) (hquitAt : s'.quitAt = s.quitAt)
    (hpc : s.game ≠ .findShell)
    (hrunning : s.kernel.objects .game = true → s'.game.inProcessInputs = true →
      s'.isRunning = true)
    (hquit : s.kernel.objects .game = true → s'.game.hasQuit s'.isRunning = true →
      s.game.hasQuit s.isRunning = true) : CharInv s' := by
  have hback : HasQuit s' → HasQuit s := by
    rintro ⟨hobject', hquit'⟩
    rw [hobject] at hobject'
    exact ⟨hobject', hquit hobject' hquit'⟩
  refine ⟨huart ▸ h.accounted, fun hobject' => hrunning (hobject ▸ hobject'), ?_, ?_, ?_, ?_⟩
  · intro hbegun
    rw [huart, hstarted]
    exact h.begun ⟨hobject ▸ hbegun.1, hpc⟩
  · intro hq
    rw [huart, hquitAt]
    exact h.quitAt_le (hback hq)
  · intro hq
    rw [huart, hquitAt]
    exact h.reads_lt (hback hq)
  · intro hq
    rw [huart, hquitAt]
    exact h.le_number (hback hq)

/-- A step of the kernel alone. -/
lemma CharInv.kernel {k : Kernel Tid} (hobject : k.objects = s.kernel.objects) :
    CharInv { s with kernel := k } := by
  have hback : HasQuit { s with kernel := k } → HasQuit s := by
    rintro ⟨hobject', hquit'⟩
    exact ⟨hobject ▸ hobject', hquit'⟩
  exact ⟨h.accounted, fun hobject' => h.running (hobject ▸ hobject'),
    fun hbegun => h.begun ⟨hobject ▸ hbegun.1, hbegun.2⟩, fun hq => h.quitAt_le (hback hq),
    fun hq => h.reads_lt (hback hq), fun hq => h.le_number (hback hq)⟩

/-- The UART receives a character. -/
lemma CharInv.receive (c : Char) (overwrite : Bool) :
    CharInv { s with uart := s.uart.receive c overwrite } := by
  obtain ⟨hreads, hreceived, -, hcases⟩ := Uart.receive_cases s.uart c overwrite
  refine ⟨h.accounted.receive, h.running, ?_, ?_, ?_, ?_⟩
  · intro hbegun
    dsimp only
    rw [hreads]
    exact h.begun hbegun
  · intro hq
    dsimp only
    rw [hreceived]
    exact Nat.le_succ_of_le (h.quitAt_le hq)
  · intro hq
    dsimp only
    rw [hreads]
    exact h.reads_lt hq
  · intro hq _
    dsimp only
    rcases hcases with ⟨hn, -⟩ | ⟨hn, -⟩ | ⟨hn, -, hfull⟩
    · exact hn ▸ h.quitAt_le hq
    · exact hn ▸ h.quitAt_le hq
    · exact hn ▸ h.le_number hq hfull

/-- The shell reads the UART only while there is no game. -/
lemma CharInv.shellStep (hinv : Inv s) (hcur : s.kernel.current = .shell) (pong : Bool) :
    CharInv (shellStep s pong) := by
  rw [Game.shellStep]
  obtain ⟨-, ⟨-, hobject, hpc⟩ | ⟨-, hpc, hgpc⟩⟩ := hinv.phase_of_shell hcur
  · cases hsh : s.shell with
    | waitChar =>
      dsimp only
      split
      · exact charInv_of_no_object h.accounted hobject
      · exact h
    | readChar => exact charInv_of_no_object h.accounted.receiveChar hobject
    | handleChar => exact charInv_of_no_object h.accounted hobject
    | initThread => exact charInv_of_findShell h.accounted rfl
    | startupThread => exact absurd hsh hpc
    | started => exact charInv_of_no_object h.accounted hobject
  · rw [hpc]
    exact charInv_of_findShell h.accounted hgpc

/-- The game thread reads a character. -/
lemma CharInv.gameReceive (hpc : s.game = .receiveChar) (hfull : s.uart.rxBufferFull = true) :
    CharInv { s with uart := s.uart.receiveChar .game, game := .handleKey s.uart.data,
                     quitAt := if s.uart.data = 'q' then s.uart.received else s.quitAt } := by
  have hreceive : s.uart.receiveChar .game
      = { s.uart with rxBufferFull := false, reads := (.game, s.uart.number) :: s.uart.reads } :=
    if_pos hfull
  have haccounted := h.accounted.receiveChar (t := .game)
  rw [hreceive] at haccounted ⊢
  have hkey : ∀ {key : Char}, (GamePc.handleKey key).hasQuit s.isRunning = true → key = 'q' :=
    fun hq => of_decide_eq_true hq
  refine ⟨haccounted, ?_, ?_, ?_, ?_, fun _ hfull => Bool.false_ne_true.elim hfull⟩
  · intro hobject _
    exact h.running hobject (by rw [hpc]; rfl)
  · intro hbegun t k hk hle
    rcases List.mem_cons.mp hk with heq | hold
    · exact (Prod.mk.inj heq).1
    · exact h.begun ⟨hbegun.1, by simp [hpc]⟩ t k hold hle
  · intro hq
    dsimp only
    exact Nat.le_of_eq (if_pos (hkey hq.2))
  · intro hq t k hk
    dsimp only
    rw [if_pos (hkey hq.2)]
    exact haccounted.reads_lt t k hk

/-- `processThread` starts to run: no character received from now on has been read. -/
lemma CharInv.gameFind :
    CharInv { s with shellThread := s.kernel.objects .shell, startedAt := s.uart.received,
                     game := .suspendShell } := by
  have hquit : ¬GamePc.suspendShell.hasQuit s.isRunning = true := Bool.false_ne_true
  refine ⟨h.accounted, fun _ => Bool.false_ne_true.elim, ?_, fun hq => absurd hq.2 hquit,
    fun hq => absurd hq.2 hquit, fun hq => absurd hq.2 hquit⟩
  intro _ t k hk hle
  exact absurd (h.accounted.reads_lt t k hk) (Nat.not_lt.mpr hle)

/-- The game thread goes through `processThread`. -/
lemma CharInv.gameStep (hcur : s.kernel.current = .game) : CharInv (gameStep s) := by
  -- the points of the program at which a premise of the invariant fails
  have hno {b : Prop} : s.kernel.objects .game = true → false = true → b :=
    fun _ => Bool.false_ne_true.elim
  have hrun (hin : s.game.inProcessInputs = true) (hobject : s.kernel.objects .game = true) :
      s.isRunning = true := h.running hobject hin
  rw [Game.gameStep]
  cases hpc : s.game with
  | findShell => exact h.gameFind
  | suspendShell =>
    refine h.move ?_ rfl rfl rfl (by simp [hpc]) hno hno
    dsimp only
    split
    · exact rtThreadSuspend_objects
    · rfl
  | setRunning => exact h.move rfl rfl rfl rfl (by simp [hpc]) hno hno
  | testRunning =>
    dsimp only
    by_cases hrunning : s.isRunning = true
    · rw [if_pos hrunning]
      exact h.move rfl rfl rfl rfl (by simp [hpc]) (fun _ _ => hrunning) hno
    · rw [if_neg hrunning]
      refine h.move rfl rfl rfl rfl (by simp [hpc]) hno ?_
      intro _ _
      rw [Bool.not_eq_true] at hrunning
      rw [hpc, hrunning]
      rfl
  | pollRx =>
    have hrun := hrun (by rw [hpc]; rfl)
    dsimp only
    split
    · exact h.move rfl rfl rfl rfl (by simp [hpc]) (fun hobject _ => hrun hobject) hno
    · exact h.move rfl rfl rfl rfl (by simp [hpc]) (fun hobject _ => hrun hobject) hno
  | delay5 =>
    have hrun := hrun (by rw [hpc]; rfl)
    exact h.move rtThreadSleep_objects rfl rfl rfl (by simp [hpc])
      (fun hobject _ => hrun hobject) hno
  | checkRunning =>
    have hrun := hrun (by rw [hpc]; rfl)
    dsimp only
    split
    · exact h.move rfl rfl rfl rfl (by simp [hpc]) (fun hobject _ => hrun hobject) hno
    · -- `stop` is only called after a key has been read
      refine h.move rfl rfl rfl rfl (by simp [hpc]) hno ?_
      intro hobject _
      exact absurd (hrun hobject) ‹_›
  | receiveChar =>
    dsimp only
    split
    · exact h.gameReceive hpc ‹_›
    · exact h
  | handleKey key =>
    have hrun := hrun (by rw [hpc]; rfl)
    refine h.move rfl rfl rfl rfl (by simp [hpc]) hno ?_
    intro hobject hq
    by_cases hkey : key = 'q'
    · rw [hpc, hkey]
      rfl
    · dsimp only at hq
      rw [if_neg hkey, hrun hobject] at hq
      exact absurd hq Bool.false_ne_true
  | delay25 =>
    refine h.move rtThreadSleep_objects rfl rfl rfl (by simp [hpc]) hno ?_
    intro _ hq
    rw [hpc]
    exact hq
  | resumeShell =>
    have hquit : s.game.hasQuit s.isRunning = true := by rw [hpc]; rfl
    dsimp only
    split
    · exact h.move rtThreadResume_objects rfl rfl rfl (by simp [hpc]) hno fun _ _ => hquit
    · exact h.move rfl rfl rfl rfl (by simp [hpc]) hno fun _ _ => hquit
  | schedule =>
    have hquit : s.game.hasQuit s.isRunning = true := by rw [hpc]; rfl
    exact h.move rfl rfl rfl rfl (by simp [hpc]) hno fun _ _ => hquit
  | exitThread => exact charInv_of_no_object h.accounted (hcur ▸ rtThreadExit_objects)

/-- Every event preserves what holds about the characters. -/
theorem CharInv.step (hinv : Inv s) {e : Event} (hstep : Game.step s e = some s') :
    CharInv s' := by
  rcases step_cases hstep with ⟨-, ⟨-, rfl⟩ | ⟨hcur, rfl⟩ | ⟨pong, hcur, rfl⟩ | ⟨-, rfl⟩⟩ |
    ⟨t, -, -, rfl⟩ | ⟨c, overwrite, -, rfl⟩
  · exact h.kernel rtThreadSleep_objects
  · exact h.gameStep hcur
  · exact h.shellStep hinv hcur pong
  · exact h
  · exact h.kernel rtThreadTimeout_objects
  · exact h.receive c overwrite

end Step

lemma charInv_of_reachable {s : State} (h : Reachable s) : CharInv s := by
  have hboth : Inv s ∧ CharInv s :=
    h.invariant (fun s => Inv s ∧ CharInv s) ⟨inv_afterStartup, charInv_afterStartup⟩
      fun _ _ _ hinv hstep => ⟨hinv.1.step hstep, hinv.2.step hinv.1 hstep⟩
  exact hboth.2

end HdmiDisplay.Game
