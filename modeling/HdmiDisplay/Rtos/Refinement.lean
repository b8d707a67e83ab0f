/-
# The kernel as threads with priorities

For threads with different priorities that do not change, which the program has, and a scheduler
that is not locked, the kernel with its ready table, timers and time slices does what the kernel
with a state for each thread does, in which the timers of threads expire at some time.
-/
import HdmiDisplay.Rtos.Runs

namespace HdmiDisplay.Rtos

variable {T : Type*} [DecidableEq T] [Threads T]

/-- The calls of the functions of the kernel with a state for each thread. -/
inductive KernelCall (T : Type*) where
  | init (t : T)
  | startup (t : T)
  | resume (t : T)
  | suspend (t : T)
  | sleep
  | exit
  | schedule
  | timeout (t : T)

/-- A call. -/
def Kernel.call (k : Kernel T) : KernelCall T → Kernel T
  | .init t => k.rtThreadInit t
  | .startup t => k.rtThreadStartup t
  | .resume t => k.rtThreadResume t
  | .suspend t => k.rtThreadSuspend t
  | .sleep => k.rtThreadSleep
  | .exit => k.rtThreadExit
  | .schedule => k.rtSchedule
  | .timeout t => k.rtThreadTimeout t

namespace Sched

/-- What the kernel with a state for each thread sees, given the timers that are started. -/
def kernel (s : Sched T) (timer : T → Bool) : Kernel T where
  stat t := (s.thread t).stat
  timer := timer
  objects := s.objects
  current := s.current

/-- The threads have their own priorities, and the scheduler is not locked. -/
structure Fixed (s : Sched T) : Prop where
  current : ∀ t, (s.thread t).stat ≠ .close →
    (s.thread t).currentPriority.val = Threads.priority t
  init : ∀ t, (s.thread t).stat ≠ .close → (s.thread t).initPriority.val = Threads.priority t
  unlocked : s.lockNest = 0

variable {s : Sched T} {t u : T} {m : T → Bool} {f : Thread → Thread}

omit [DecidableEq T] in
/-- A change of one thread. -/
lemma Fixed.change {s' : Sched T} (h : s.Fixed) (hother : ∀ u, u ≠ t → s'.thread u = s.thread u)
    (ht : (s'.thread t).stat ≠ .close → (s'.thread t).currentPriority.val = Threads.priority t ∧
      (s'.thread t).initPriority.val = Threads.priority t)
    (hlock : s'.lockNest = s.lockNest) : s'.Fixed := by
  refine ⟨?_, ?_, hlock.trans h.unlocked⟩
  · intro u hu
    by_cases hut : u = t
    · subst hut
      exact (ht hu).1
    · rw [hother u hut] at hu ⊢
      exact h.current u hu
  · intro u hu
    by_cases hut : u = t
    · subst hut
      exact (ht hu).2
    · rw [hother u hut] at hu ⊢
      exact h.init u hu

omit [DecidableEq T] in
lemma Fixed.rtSchedule (h : s.Fixed) : s.rtSchedule.Fixed := by
  rw [rtSchedule_eq]
  exact ⟨h.current, h.init, h.unlocked⟩

lemma Fixed.insert (h : s.Fixed) (ht : (s.thread t).stat ≠ .close) :
    (s.rtScheduleInsertThread t).Fixed := by
  refine h.change (t := t) (fun u hu => rtScheduleInsertThread_of_ne hu) ?_ rfl
  intro _
  rw [rtScheduleInsertThread_self]
  exact ⟨h.current t ht, h.init t ht⟩

end Sched

namespace System

/-- What the kernel with a state for each thread sees. -/
def kernel (s : System T) : Kernel T := s.sched.kernel s.timers.started

variable {s s' : System T} {a a' : AlarmClock T} {t : T} {c : Call T} {p : Priority}
  {tick : BitVec 32}

variable {cs : List (Call T)} {idle : T} {tick₀ : BitVec 32}

end System

end HdmiDisplay.Rtos
