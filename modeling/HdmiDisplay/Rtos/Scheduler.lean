/-
# The scheduler

The functions of `thread.c`, `scheduler.c` and `clock.c` with all that they read and write: the
ready table with its lists and its word of bits, the priorities and time slices of the threads, the
timers with their ticks, and the lock of the scheduler.  The state is one after
`rt_system_scheduler_start`. Of a thread, what is not used by these functions is left out: its
stack, entry function, cleanup function and error number.  The functions run with interrupts
disabled, and the interrupt of the clock comes between them.
-/
import HdmiDisplay.Rtos.Kernel
import HdmiDisplay.Rtos.ReadyTable
import HdmiDisplay.Rtos.Timer

namespace HdmiDisplay.Rtos

/-- `struct rt_thread`, without the timer of the thread, which is among the timers. -/
structure Thread where
  stat : Stat
  initPriority : Priority
  currentPriority : Priority
  numberMask : BitVec 32
  initTick : BitVec 32
  remainingTick : BitVec 32
deriving DecidableEq, Repr

/-- What `rt_thread_startup` sets before it resumes a thread. -/
def Thread.startup (u : Thread) : Thread :=
  { u with
    currentPriority := u.initPriority
    numberMask := Rtos.numberMask u.initPriority
    stat := .suspend }

/-- The threads and the data of the scheduler. -/
structure Sched (T : Type*) where
  thread : T → Thread
  ready : ReadyTable T
  objects : T → Bool
  current : T
  lockNest : BitVec 16

/-- The scheduler and the timers of the threads. -/
structure System (T : Type*) where
  sched : Sched T
  timers : Timers T

variable {T : Type*} [DecidableEq T]

namespace Sched

/-- A change of one thread. -/
def modify (s : Sched T) (t : T) (f : Thread → Thread) : Sched T :=
  { s with thread := Function.update s.thread t (f (s.thread t)) }

/-- `rt_schedule_insert_thread`. -/
def rtScheduleInsertThread (s : Sched T) (t : T) : Sched T :=
  let s := s.modify t fun u => { u with stat := .ready }
  { s with ready := s.ready.insert (s.thread t).currentPriority (s.thread t).numberMask t }

/-- `rt_schedule_remove_thread`. -/
def rtScheduleRemoveThread (s : Sched T) (t : T) : Sched T :=
  { s with ready := s.ready.remove (s.thread t).currentPriority (s.thread t).numberMask t }

/-- `rt_schedule`, without the switch of the context.  With no ready thread the source reads outside
of the table.  Here the current thread stays, and no run goes on from there: in a run `rt_schedule`
finds a thread. -/
def rtSchedule (s : Sched T) : Sched T :=
  if s.lockNest = 0 then { s with current := s.ready.toThread.getD s.current } else s

/-- `rt_schedule` finds a ready thread, where it looks for one. -/
def Schedules (s : Sched T) : Prop := s.lockNest = 0 → s.ready.toThread.isSome

omit [DecidableEq T] in
instance (s : Sched T) : Decidable s.Schedules := inferInstanceAs (Decidable (_ → _))

/-- `rt_thread_yield`. -/
def rtThreadYield (s : Sched T) : Sched T :=
  let t := s.current
  let p := (s.thread t).currentPriority
  if (s.thread t).stat = .ready ∧ 1 < (s.ready.list p).length then
    rtSchedule { s with ready := s.ready.yield p t }
  else s

/-- `rt_thread_timeout`. -/
def rtThreadTimeout (s : Sched T) (t : T) : Sched T := (s.rtScheduleInsertThread t).rtSchedule

/-- `rt_thread_control` with `RT_THREAD_CTRL_CHANGE_PRIORITY`. -/
def changePriority (s : Sched T) (t : T) (p : Priority) : Sched T :=
  let change (s : Sched T) : Sched T :=
    s.modify t fun u => { u with currentPriority := p, numberMask := numberMask p }
  if (s.thread t).stat = .ready then
    (change (s.rtScheduleRemoveThread t)).rtScheduleInsertThread t
  else change s

/-- `rt_enter_critical`.  The counter has 16 bits, and wraps around. -/
def rtEnterCritical (s : Sched T) : Sched T := { s with lockNest := s.lockNest + 1 }

/-- `rt_exit_critical`.  The counter has a sign. -/
def rtExitCritical (s : Sched T) : Sched T :=
  let n := s.lockNest - 1
  if n.toInt ≤ 0 then rtSchedule { s with lockNest := 0 } else { s with lockNest := n }

/-- The time slice of the current thread, in `rt_tick_increase`. -/
def timeSlice (s : Sched T) : Sched T :=
  let t := s.current
  let s := s.modify t fun u => { u with remainingTick := u.remainingTick - 1 }
  if (s.thread t).remainingTick = 0 then
    (s.modify t fun u => { u with remainingTick := u.initTick }).rtThreadYield
  else s

/-! ### The ready table holds the ready threads -/

/-- The lists of the ready table are those of the ready threads of each priority, and a thread that
is or will be in them has the bit of its priority. -/
structure Inv (s : Sched T) : Prop where
  table : s.ready.Consistent
  mem : ∀ t p, t ∈ s.ready.list p ↔ (s.thread t).stat = .ready ∧ (s.thread t).currentPriority = p
  mask : ∀ t, (s.thread t).stat = .ready ∨ (s.thread t).stat = .suspend →
    (s.thread t).numberMask = numberMask (s.thread t).currentPriority

variable {s : Sched T} {t u : T} {p : Priority} {f : Thread → Thread}

@[simp] lemma modify_thread_self : (s.modify t f).thread t = f (s.thread t) :=
  Function.update_self ..

lemma modify_thread_of_ne (h : u ≠ t) : (s.modify t f).thread u = s.thread u :=
  Function.update_of_ne h ..

omit [DecidableEq T] in
lemma rtSchedule_eq : s.rtSchedule = { s with current := s.rtSchedule.current } := by
  rw [rtSchedule]
  split <;> rfl

omit [DecidableEq T] in
@[simp] lemma rtSchedule_thread : s.rtSchedule.thread = s.thread := by
  rw [rtSchedule_eq]

@[simp] lemma rtScheduleInsertThread_self :
    (s.rtScheduleInsertThread t).thread t = { s.thread t with stat := .ready } :=
  Function.update_self ..

lemma rtScheduleInsertThread_of_ne (h : u ≠ t) :
    (s.rtScheduleInsertThread t).thread u = s.thread u := Function.update_of_ne h ..

lemma rtThreadTimeout_of_ne (h : u ≠ t) : (s.rtThreadTimeout t).thread u = s.thread u := by
  rw [rtThreadTimeout, rtSchedule_thread, rtScheduleInsertThread_of_ne h]

/-- The others whose timers expire are suspended still. -/
lemma rtThreadTimeout_suspended {l : List T} (ht : t ∉ l)
    (hstat : ∀ u ∈ l, (s.thread u).stat = .suspend) :
    ∀ u ∈ l, ((s.rtThreadTimeout t).thread u).stat = .suspend := by
  intro u hu
  have hut : u ≠ t := by
    rintro rfl
    exact ht hu
  rw [rtThreadTimeout_of_ne hut]
  exact hstat u hu

@[simp] lemma rtThreadYield_thread : s.rtThreadYield.thread = s.thread := by
  rw [rtThreadYield]
  split
  · exact rtSchedule_thread
  · rfl

/-- The time slices are all that an interrupt changes in the threads themselves. -/
lemma timeSlice_thread : (s.timeSlice.thread u).stat = (s.thread u).stat ∧
    (s.timeSlice.thread u).currentPriority = (s.thread u).currentPriority ∧
    (s.timeSlice.thread u).initPriority = (s.thread u).initPriority := by
  rw [timeSlice]
  by_cases hu : u = s.current
  · subst hu
    split <;> simp
  · split <;> simp [modify_thread_of_ne hu]

lemma changePriority_of_ne (h : u ≠ t) : (s.changePriority t p).thread u = s.thread u := by
  rw [changePriority]
  split
  · exact (rtScheduleInsertThread_of_ne h).trans (modify_thread_of_ne h)
  · exact modify_thread_of_ne h

lemma changePriority_stat : ((s.changePriority t p).thread u).stat = (s.thread u).stat := by
  by_cases hu : u = t
  · subst hu
    rw [changePriority]
    split
    · next hready => rw [rtScheduleInsertThread_self, hready]
    · rw [modify_thread_self]
  · rw [changePriority_of_ne hu]

omit [DecidableEq T] in
@[simp] lemma rtExitCritical_thread : s.rtExitCritical.thread = s.thread := by
  rw [rtExitCritical]
  split
  · exact rtSchedule_thread
  · rfl

/-- A thread that is not in the table, before and after a change. -/
lemma Inv.modify (h : s.Inv) (hready : (s.thread t).stat ≠ .ready)
    (hready' : (f (s.thread t)).stat ≠ .ready)
    (hmask : (f (s.thread t)).stat = .suspend →
      (f (s.thread t)).numberMask = numberMask (f (s.thread t)).currentPriority) :
    (s.modify t f).Inv := by
  refine ⟨h.table, ?_, ?_⟩
  · intro u p
    by_cases hu : u = t
    · subst hu
      rw [modify_thread_self]
      exact iff_of_false (fun hmem => hready ((h.mem u p).mp hmem).1) (fun hst => hready' hst.1)
    · rw [modify_thread_of_ne hu]
      exact h.mem u p
  · intro u hst
    by_cases hu : u = t
    · subst hu
      rw [modify_thread_self] at hst ⊢
      exact hmask (hst.resolve_left hready')
    · rw [modify_thread_of_ne hu] at hst ⊢
      exact h.mask u hst

/-- A change of a thread that leaves its state and its priority as they are. -/
lemma Inv.modify_slice (h : s.Inv) (hstat : (f (s.thread t)).stat = (s.thread t).stat)
    (hpriority : (f (s.thread t)).currentPriority = (s.thread t).currentPriority)
    (hmask : (f (s.thread t)).numberMask = (s.thread t).numberMask) : (s.modify t f).Inv := by
  refine ⟨h.table, ?_, ?_⟩
  · intro u p
    by_cases hu : u = t
    · subst hu
      rw [modify_thread_self, hstat, hpriority]
      exact h.mem u p
    · rw [modify_thread_of_ne hu]
      exact h.mem u p
  · intro u hst
    by_cases hu : u = t
    · subst hu
      rw [modify_thread_self, hstat] at hst
      rw [modify_thread_self, hmask, hpriority]
      exact h.mask u hst
    · rw [modify_thread_of_ne hu] at hst ⊢
      exact h.mask u hst

lemma Inv.insert (h : s.Inv) (hready : (s.thread t).stat ≠ .ready)
    (hmask : (s.thread t).numberMask = numberMask (s.thread t).currentPriority) :
    (s.rtScheduleInsertThread t).Inv := by
  have hnot : ∀ p, t ∉ s.ready.list p := fun p hmem => hready ((h.mem t p).mp hmem).1
  have htable : (s.rtScheduleInsertThread t).ready =
      s.ready.insert (s.thread t).currentPriority (numberMask (s.thread t).currentPriority) t := by
    simp only [rtScheduleInsertThread, modify_thread_self, hmask]
    rfl
  refine ⟨?_, ?_, ?_⟩
  · rw [htable]
    exact h.table.insert (hnot _)
  · intro u p
    rw [htable]
    by_cases hp : p = (s.thread t).currentPriority
    · subst hp
      rw [ReadyTable.insert_list_self, List.mem_append, List.mem_singleton]
      by_cases hu : u = t
      · subst hu
        rw [rtScheduleInsertThread_self]
        exact iff_of_true (Or.inr rfl) ⟨rfl, rfl⟩
      · rw [rtScheduleInsertThread_of_ne hu, or_iff_left hu]
        exact h.mem u _
    · rw [ReadyTable.insert_list_of_ne hp]
      by_cases hu : u = t
      · subst hu
        rw [rtScheduleInsertThread_self]
        exact iff_of_false (hnot p) (fun hst => hp hst.2.symm)
      · rw [rtScheduleInsertThread_of_ne hu]
        exact h.mem u p
  · intro u hst
    by_cases hu : u = t
    · subst hu
      rw [rtScheduleInsertThread_self]
      exact hmask
    · rw [rtScheduleInsertThread_of_ne hu] at hst ⊢
      exact h.mask u hst

/-- A thread is taken off the table and is not ready any more. -/
lemma Inv.remove (h : s.Inv) (hready' : (f (s.thread t)).stat ≠ .ready)
    (hready : (s.thread t).stat = .ready)
    (hmask : (f (s.thread t)).stat = .suspend →
      (f (s.thread t)).numberMask = numberMask (f (s.thread t)).currentPriority) :
    ((s.rtScheduleRemoveThread t).modify t f).Inv := by
  have htable : ((s.rtScheduleRemoveThread t).modify t f).ready =
      s.ready.remove (s.thread t).currentPriority (numberMask (s.thread t).currentPriority) t := by
    rw [← h.mask t (Or.inl hready)]
    rfl
  have hremove : (s.rtScheduleRemoveThread t).thread = s.thread := rfl
  refine ⟨?_, ?_, ?_⟩
  · rw [htable]
    exact h.table.remove
  · intro u p
    rw [htable]
    by_cases hu : u = t
    · subst hu
      rw [modify_thread_self, hremove]
      -- it was in its list once
      refine iff_of_false ?_ (fun hst => hready' hst.1)
      by_cases hp : p = (s.thread u).currentPriority
      · subst hp
        rw [ReadyTable.remove_list_self]
        exact (h.table.nodup _).not_mem_erase
      · rw [ReadyTable.remove_list_of_ne hp]
        exact fun hmem => hp ((h.mem u p).mp hmem).2.symm
    · rw [modify_thread_of_ne hu, hremove, ← h.mem u p]
      by_cases hp : p = (s.thread t).currentPriority
      · subst hp
        rw [ReadyTable.remove_list_self, List.mem_erase_of_ne hu]
      · rw [ReadyTable.remove_list_of_ne hp]
  · intro u hst
    by_cases hu : u = t
    · subst hu
      rw [modify_thread_self, hremove] at hst ⊢
      exact hmask (hst.resolve_left hready')
    · rw [modify_thread_of_ne hu, hremove] at hst ⊢
      exact h.mask u hst

omit [DecidableEq T] in
lemma Inv.rtSchedule (h : s.Inv) : s.rtSchedule.Inv := by
  rw [rtSchedule_eq]
  exact ⟨h.table, h.mem, h.mask⟩

lemma Inv.rtThreadTimeout (h : s.Inv) (hstat : (s.thread t).stat = .suspend) :
    (s.rtThreadTimeout t).Inv :=
  (h.insert (by simp [hstat]) (h.mask t (Or.inr hstat))).rtSchedule

lemma Inv.rtThreadYield (h : s.Inv) : s.rtThreadYield.Inv := by
  rw [Sched.rtThreadYield]
  split
  · next hyield =>
    have hmem : s.current ∈ s.ready.list (s.thread s.current).currentPriority :=
      (h.mem _ _).mpr ⟨hyield.1, rfl⟩
    refine Inv.rtSchedule ⟨h.table.yield hmem, ?_, h.mask⟩
    intro u p
    rw [← h.mem u p]
    exact ReadyTable.mem_yield hmem
  · exact h

lemma Inv.timeSlice (h : s.Inv) : s.timeSlice.Inv := by
  rw [Sched.timeSlice]
  split
  · exact ((h.modify_slice rfl rfl rfl).modify_slice rfl rfl rfl).rtThreadYield
  · exact h.modify_slice rfl rfl rfl

/-- The state of the thread plays no part where it becomes ready anyway. -/
lemma modify_insert {g : Thread → Thread}
    (h : ∀ u, { g u with stat := .ready } = { f u with stat := .ready }) :
    (s.modify t g).rtScheduleInsertThread t = (s.modify t f).rtScheduleInsertThread t := by
  have hset := h (s.thread t)
  simp only [Thread.mk.injEq, true_and] at hset
  simp [rtScheduleInsertThread, Sched.modify, hset]

/-- A ready thread leaves its list, and comes to the end of that of its new priority. -/
lemma changePriority_of_ready (h : (s.thread t).stat = .ready) : s.changePriority t p =
    ((s.rtScheduleRemoveThread t).modify t fun u =>
      { u with stat := .suspend, currentPriority := p, numberMask := numberMask p
      }).rtScheduleInsertThread t := by
  rw [changePriority]
  exact (if_pos h).trans (modify_insert fun _ => rfl)

lemma changePriority_of_not_ready (h : (s.thread t).stat ≠ .ready) : s.changePriority t p =
    s.modify t fun u => { u with currentPriority := p, numberMask := numberMask p } := if_neg h

lemma Inv.changePriority (h : s.Inv) : (s.changePriority t p).Inv := by
  by_cases hready : (s.thread t).stat = .ready
  · have hremove : ((s.rtScheduleRemoveThread t).modify t fun u =>
        { u with stat := .suspend, currentPriority := p, numberMask := numberMask p }).Inv :=
      h.remove (by simp) hready fun _ => rfl
    rw [changePriority_of_ready hready]
    exact hremove.insert (by simp) (by simp)
  · rw [changePriority_of_not_ready hready]
    exact h.modify hready hready fun _ => rfl

omit [DecidableEq T] in
lemma Inv.rtEnterCritical (h : s.Inv) : s.rtEnterCritical.Inv := ⟨h.table, h.mem, h.mask⟩

omit [DecidableEq T] in
lemma Inv.rtExitCritical (h : s.Inv) : s.rtExitCritical.Inv := by
  rw [Sched.rtExitCritical]
  split
  · exact Inv.rtSchedule ⟨h.table, h.mem, h.mask⟩
  · exact ⟨h.table, h.mem, h.mask⟩

/-- The thread that `rt_schedule` chooses is ready, and is the first one of its priority; all ready
threads of other priorities have a lower one. -/
structure First (s : Sched T) (t : T) : Prop where
  ready : (s.thread t).stat = .ready
  first : (s.ready.list (s.thread t).currentPriority).head? = some t
  le : ∀ u, (s.thread u).stat = .ready →
    (s.thread t).currentPriority ≤ (s.thread u).currentPriority

omit [DecidableEq T] in
lemma Inv.toThread_iff (h : s.Inv) : s.ready.toThread = some t ↔ s.First t := by
  rw [h.table.toThread_eq]
  constructor
  · rintro ⟨p, hhead, hempty⟩
    obtain ⟨hstat, rfl⟩ := (h.mem t p).mp (List.mem_of_head? hhead)
    refine ⟨hstat, hhead, ?_⟩
    intro u hu
    by_contra hlt
    have hmem := (h.mem u _).mpr ⟨hu, rfl⟩
    rw [hempty _ (not_le.mp hlt)] at hmem
    exact List.not_mem_nil hmem
  · intro hfirst
    refine ⟨_, hfirst.first, ?_⟩
    intro q hq
    refine List.eq_nil_iff_forall_not_mem.mpr ?_
    intro u hu
    obtain ⟨hstat, rfl⟩ := (h.mem u q).mp hu
    exact absurd (hfirst.le u hstat) (not_le.mpr hq)

omit [DecidableEq T] in
/-- With a ready thread, there is one to choose. -/
lemma Inv.exists_first (h : s.Inv) (ht : (s.thread t).stat = .ready) : ∃ u, s.First u := by
  have hne : s.ready.toThread ≠ none := by
    intro hnone
    have hempty := h.table.toThread_eq_none hnone (s.thread t).currentPriority
    exact List.not_mem_nil (hempty ▸ (h.mem t _).mpr ⟨ht, rfl⟩)
  obtain ⟨u, hu⟩ := Option.ne_none_iff_exists'.mp hne
  exact ⟨u, h.toThread_iff.mp hu⟩

omit [DecidableEq T] in
/-- **`rt_schedule`** makes the first thread of the highest priority the current one. -/
lemma Inv.rtSchedule_first (h : s.Inv) (hlock : s.lockNest = 0) (ht : (s.thread t).stat = .ready) :
    s.rtSchedule.First s.rtSchedule.current := by
  obtain ⟨u, hu⟩ := h.exists_first ht
  have hcurrent : s.rtSchedule.current = u := by
    rw [Sched.rtSchedule, if_pos hlock, h.toThread_iff.mpr hu, Option.getD_some]
  rw [hcurrent, rtSchedule_eq]
  exact ⟨hu.ready, hu.first, hu.le⟩

end Sched

namespace System

/-- `rt_schedule`. -/
def rtSchedule (s : System T) : System T := { s with sched := s.sched.rtSchedule }

/-- `rt_thread_init`. -/
def rtThreadInit (s : System T) (t : T) (priority : Priority) (tick : BitVec 32) : System T where
  sched :=
    { s.sched.modify t fun _ =>
        { stat := .init, initPriority := priority, currentPriority := priority, numberMask := 0,
          initTick := tick, remainingTick := tick } with
      objects := Function.update s.sched.objects t true }
  timers := s.timers.rtTimerInit t 0 false

/-- `rt_thread_resume`. -/
def rtThreadResume (s : System T) (t : T) : System T × RtErr :=
  if (s.sched.thread t).stat ≠ .suspend then (s, .error)
  else
    ({ sched := s.sched.rtScheduleInsertThread t, timers := (s.timers.rtTimerStop t).1 }, .eok)

/-- `rt_thread_suspend`. -/
def rtThreadSuspend (s : System T) (t : T) : System T × RtErr :=
  if (s.sched.thread t).stat ≠ .ready then (s, .error)
  else
    ({ sched := (s.sched.rtScheduleRemoveThread t).modify t fun u => { u with stat := .suspend },
       timers := (s.timers.rtTimerStop t).1 }, .eok)

/-- `rt_thread_startup`. -/
def rtThreadStartup (s : System T) (t : T) : System T :=
  (rtThreadResume { s with sched := s.sched.modify t Thread.startup } t).1.rtSchedule

/-- `rt_thread_sleep`, up to the point where the thread stops. -/
def rtThreadSleep (s : System T) (tick : BitVec 32) : System T :=
  let t := s.sched.current
  let s := (s.rtThreadSuspend t).1
  let timers := (s.timers.rtTimerControl t (.setTime tick)).rtTimerStart t
  rtSchedule { s with timers := timers }

/-- `rt_thread_exit` of a static thread object. -/
def rtThreadExit (s : System T) : System T :=
  let t := s.sched.current
  let sched := (s.sched.rtScheduleRemoveThread t).modify t fun u => { u with stat := .close }
  rtSchedule
    { sched := { sched with objects := Function.update sched.objects t false }
      timers := s.timers.rtTimerDetach t }

/-- `rt_tick_increase`. -/
def rtTickIncrease (s : System T) : Option (System T) :=
  (s.timers.tickIncrease Sched.rtThreadTimeout s.sched.timeSlice).map fun r =>
    { sched := r.2, timers := r.1 }

end System

end HdmiDisplay.Rtos
