/-
# The kernel's threads

The thread functions of `thread.c` and `scheduler.c`, for any set of threads with different
priorities.  A thread is in the ready table exactly while its `stat` is `READY`; its timer, when
started, calls `rt_thread_timeout`; the object list is kept as a membership test.  The assertions of
the functions are empty, as in a build without `RT_DEBUG`.  The scheduler rule that the rest relies
on, that the current thread is the ready thread of the highest priority, is not assumed but kept by
these functions.
-/
import Mathlib.Data.List.Basic
import Mathlib.Logic.Function.Basic

namespace HdmiDisplay.Rtos

/-- The values of `stat`, with `RUNNING` left out, which the scheduler never sets. -/
inductive Stat where
  | init
  | ready
  | suspend
  | close
deriving DecidableEq, Repr

/-- Threads with different priorities, a smaller number being a higher priority, and the order of
the ready table. -/
class Threads (T : Type*) where
  priority : T → ℕ
  order : List T
  sorted : order.Pairwise fun s t => priority s < priority t
  mem_order : ∀ t, t ∈ order

/-- The kernel's view of the threads. -/
structure Kernel (T : Type*) where
  stat : T → Stat
  timer : T → Bool
  objects : T → Bool
  current : T

variable {T : Type*} [DecidableEq T] [Threads T]

namespace Kernel

/-- A thread's `stat` and whether its timer is started. -/
def put (k : Kernel T) (t : T) (stat : Stat) (timer : Bool) : Kernel T :=
  { k with stat := Function.update k.stat t stat, timer := Function.update k.timer t timer }

/-- `rt_timer_start` on the timer of a thread. -/
def rtTimerStart (k : Kernel T) (t : T) : Kernel T :=
  { k with timer := Function.update k.timer t true }

/-- The first thread of the ready table. -/
def highestReady (k : Kernel T) : Option T := Threads.order.find? fun t => k.stat t = .ready

/-- `rt_schedule`. -/
def rtSchedule (k : Kernel T) : Kernel T := { k with current := k.highestReady.getD k.current }

/-- `rt_thread_init`, whose object must not be in the object list yet. -/
def rtThreadInit (k : Kernel T) (t : T) : Kernel T :=
  { k.put t .init false with objects := Function.update k.objects t true }

/-- `rt_thread_resume`. -/
def rtThreadResume (k : Kernel T) (t : T) : Kernel T :=
  if k.stat t = .suspend then k.put t .ready false else k

/-- `rt_thread_suspend`. -/
def rtThreadSuspend (k : Kernel T) (t : T) : Kernel T :=
  if k.stat t = .ready then k.put t .suspend false else k

/-- `rt_thread_startup`. -/
def rtThreadStartup (k : Kernel T) (t : T) : Kernel T :=
  ((k.put t .suspend (k.timer t)).rtThreadResume t).rtSchedule

/-- `rt_thread_sleep`, called by the current thread. -/
def rtThreadSleep (k : Kernel T) : Kernel T :=
  ((k.rtThreadSuspend k.current).rtTimerStart k.current).rtSchedule

/-- `rt_thread_timeout`, called by the timer of the thread, which stops. -/
def rtThreadTimeout (k : Kernel T) (t : T) : Kernel T := (k.put t .ready false).rtSchedule

/-- `rt_thread_exit` of a static thread object, called by the current thread. -/
def rtThreadExit (k : Kernel T) : Kernel T :=
  rtSchedule { k.put k.current .close false with
    objects := Function.update k.objects k.current false }

/-! ### What the functions do to the threads -/

/-- The thread `t` has this `stat`, and its timer is started or not. -/
structure Is (k : Kernel T) (t : T) (stat : Stat) (timer : Bool) : Prop where
  stat : k.stat t = stat
  timer : k.timer t = timer

variable {k k' : Kernel T} {s t : T} {st st' : Stat} {tm tm' : Bool}

omit [Threads T] in
lemma put_is_self : (k.put t st tm).Is t st tm := ⟨Function.update_self .., Function.update_self ..⟩

omit [Threads T] in
@[simp] lemma rtThreadSuspend_objects : (k.rtThreadSuspend t).objects = k.objects := by
  rw [rtThreadSuspend]
  split <;> rfl

omit [Threads T] in
@[simp] lemma rtThreadResume_objects : (k.rtThreadResume t).objects = k.objects := by
  rw [rtThreadResume]
  split <;> rfl

@[simp] lemma rtThreadSleep_objects : k.rtThreadSleep.objects = k.objects :=
  rtThreadSuspend_objects

@[simp] lemma rtThreadTimeout_objects : (k.rtThreadTimeout t).objects = k.objects := rfl

omit [DecidableEq T] in
lemma rtSchedule_is : k.rtSchedule.Is s st tm ↔ k.Is s st tm :=
  ⟨fun ⟨hstat, htimer⟩ => ⟨hstat, htimer⟩, fun ⟨hstat, htimer⟩ => ⟨hstat, htimer⟩⟩

omit [Threads T] in
lemma rtThreadSuspend_eq (h : k.stat t = .ready) : k.rtThreadSuspend t = k.put t .suspend false :=
  if_pos h

omit [Threads T] in
lemma rtThreadResume_eq (h : k.stat t = .suspend) : k.rtThreadResume t = k.put t .ready false :=
  if_pos h

/-- A thread that starts becomes ready. -/
lemma rtThreadStartup_eq : k.rtThreadStartup t = (k.put t .ready false).rtSchedule := by
  have hsuspend : (k.put t .suspend (k.timer t)).stat t = .suspend := put_is_self.stat
  rw [rtThreadStartup, rtThreadResume_eq hsuspend]
  simp only [put, Function.update_idem]

/-- A ready thread that sleeps becomes suspended, with its timer started. -/
lemma rtThreadSleep_eq (h : k.stat k.current = .ready) :
    k.rtThreadSleep = (k.put k.current .suspend true).rtSchedule := by
  rw [rtThreadSleep, rtThreadSuspend_eq h]
  simp only [put, rtTimerStart, Function.update_idem]

omit [Threads T] in
lemma rtThreadInit_is : (k.rtThreadInit t).Is t .init false :=
  ⟨Function.update_self .., Function.update_self ..⟩

omit [Threads T] in
lemma rtThreadInit_objects : (k.rtThreadInit t).objects t = true := Function.update_self ..

lemma rtThreadTimeout_is : (k.rtThreadTimeout t).Is t .ready false := rtSchedule_is.mpr put_is_self

lemma rtThreadExit_is : k.rtThreadExit.Is k.current .close false :=
  ⟨Function.update_self .., Function.update_self ..⟩

lemma rtThreadExit_objects : k.rtThreadExit.objects k.current = false := Function.update_self ..

/-! ### Strict priorities -/

/-- The current thread is the ready thread of the highest priority. -/
structure StrictPriority (k : Kernel T) : Prop where
  ready : k.stat k.current = .ready
  lt : ∀ t, k.stat t = .ready → t ≠ k.current → Threads.priority k.current < Threads.priority t

omit [DecidableEq T] in
/-- **The scheduler** picks the ready thread of the highest priority. -/
theorem strictPriority_rtSchedule (h : k.stat t = .ready) : k.rtSchedule.StrictPriority := by
  obtain ⟨c, hc⟩ : ∃ c, k.highestReady = some c := by
    rw [← Option.isSome_iff_exists, highestReady, List.find?_isSome]
    exact ⟨t, Threads.mem_order t, decide_eq_true h⟩
  have hcurrent : k.rtSchedule.current = c := by rw [rtSchedule, hc, Option.getD_some]
  rw [highestReady, List.find?_eq_some_iff_append] at hc
  obtain ⟨hready, before, after, horder, hbefore⟩ := hc
  refine ⟨by rw [hcurrent]; exact of_decide_eq_true hready, ?_⟩
  intro u hu hne
  rw [hcurrent] at hne ⊢
  have hsorted := Threads.sorted (T := T)
  rw [horder, List.pairwise_append, List.pairwise_cons] at hsorted
  have hmem := Threads.mem_order u
  rw [horder, List.mem_append, List.mem_cons] at hmem
  rcases hmem with hu' | rfl | hu'
  · have hnot := hbefore u hu'
    rw [Bool.not_eq_true', decide_eq_false_iff_not] at hnot
    exact absurd hu hnot
  · exact absurd rfl hne
  · exact hsorted.2.1.1 u hu'

/-- The exit of a thread ends with `rt_schedule`. -/
lemma strictPriority_rtThreadExit (h : k.rtThreadExit.stat t = .ready) :
    k.rtThreadExit.StrictPriority := strictPriority_rtSchedule h

omit [Threads T] in
/-- Only the threads that a change makes ready can compete with the current thread. -/
lemma strictPriority_put [Threads T] (h : k.StrictPriority) (hne : t ≠ k.current)
    (hst : st = .ready → Threads.priority k.current < Threads.priority t) :
    (k.put t st tm).StrictPriority := by
  refine ⟨(Function.update_of_ne hne.symm ..).trans h.ready, ?_⟩
  intro u hu hu'
  by_cases hut : u = t
  · subst hut
    exact hst ((Function.update_self ..).symm.trans hu)
  · exact h.lt u ((Function.update_of_ne hut ..).symm.trans hu) hu'

omit [DecidableEq T] in
/-- A thread does not run while another one of a higher priority is ready. -/
lemma StrictPriority.current_ne (h : k.StrictPriority) (ht : k.stat t = .ready)
    (hlt : Threads.priority t < Threads.priority s) : k.current ≠ s := by
  rintro rfl
  by_cases heq : t = k.current
  · exact absurd hlt (heq ▸ Nat.lt_irrefl _)
  · exact absurd hlt (Nat.lt_asymm (h.lt t ht heq))

end Kernel

end HdmiDisplay.Rtos
