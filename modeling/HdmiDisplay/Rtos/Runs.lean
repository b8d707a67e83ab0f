/-
# Runs of the kernel

The calls of the kernel's functions by the running threads, in any order, with the interrupt of the
clock between them.  In every state the ready table holds the ready threads, so that `rt_schedule`
gives the processor to the first thread of the highest priority, and only suspended threads have a
timer that is started.  A thread that sleeps is suspended for the ticks it asked for and ready after
them.
-/
import HdmiDisplay.Lib.Transition
import HdmiDisplay.Rtos.Expiry
import HdmiDisplay.Rtos.Scheduler

namespace HdmiDisplay.Rtos.System

variable {T : Type*} [DecidableEq T]

/-- The calls.  Those without a thread are made by the current one, or by the interrupt. -/
inductive Call (T : Type*) where
  | init (t : T) (priority : Priority) (tick : BitVec 32)
  | startup (t : T)
  | resume (t : T)
  | suspend (t : T)
  | changePriority (t : T) (priority : Priority)
  | sleep (tick : BitVec 32)
  | yield
  | exit
  | schedule
  | enterCritical
  | exitCritical
  | tickIncrease
deriving DecidableEq, Repr

/-- The thread that a call of the others starts, wakes up or suspends. -/
def Call.names : Call T → Option T
  | init t _ _ | startup t | resume t | suspend t => some t
  | _ => none

/-- When a call is made.  That a thread is started up once after it was initialized, and that a
timer runs for less than half of the ticks, is what assertions ask for.  Three things are assumed
and not asserted: a thread is not initialized while it is in use, one that sleeps or ends is ready,
and `rt_schedule` finds a ready thread, as it does while the idle thread is ready.  The other calls
of `rt_schedule` come after a thread was put into the table. -/
def Allowed (s : System T) : Call T → Prop
  | .init t _ _ => (s.sched.thread t).stat = .init ∨ (s.sched.thread t).stat = .close
  | .startup t => (s.sched.thread t).stat = .init
  | .sleep tick => (s.sched.thread s.sched.current).stat = .ready ∧ tick < rtTickMax / 2 ∧
    (s.rtThreadSleep tick).sched.Schedules
  | .exit => (s.sched.thread s.sched.current).stat = .ready ∧ s.rtThreadExit.sched.Schedules
  | .schedule => s.sched.Schedules
  | .exitCritical => s.sched.rtExitCritical.Schedules
  | _ => True

instance (s : System T) : ∀ c : Call T, Decidable (Allowed s c)
  | .init .. => inferInstanceAs (Decidable (_ ∨ _))
  | .startup _ => inferInstanceAs (Decidable (_ = _))
  | .sleep _ => inferInstanceAs (Decidable (_ ∧ _ ∧ _))
  | .exit => inferInstanceAs (Decidable (_ ∧ _))
  | .schedule | .exitCritical => inferInstanceAs (Decidable (Sched.Schedules _))
  | .resume _ | .suspend _ | .changePriority .. | .yield | .enterCritical
  | .tickIncrease => isTrue trivial

/-- A call. -/
def call (s : System T) : Call T → Option (System T)
  | .init t priority tick => some (s.rtThreadInit t priority tick)
  | .startup t => some (s.rtThreadStartup t)
  | .resume t => some (s.rtThreadResume t).1
  | .suspend t => some (s.rtThreadSuspend t).1
  | .changePriority t p => some { s with sched := s.sched.changePriority t p }
  | .sleep tick => some (s.rtThreadSleep tick)
  | .yield => some { s with sched := s.sched.rtThreadYield }
  | .exit => some s.rtThreadExit
  | .schedule => some s.rtSchedule
  | .enterCritical => some { s with sched := s.sched.rtEnterCritical }
  | .exitCritical => some { s with sched := s.sched.rtExitCritical }
  | .tickIncrease => s.rtTickIncrease

/-- A step of a run. -/
def step (s : System T) (c : Call T) : Option (System T) := if Allowed s c then s.call c else none

/-- No thread is initialized yet. -/
def boot (idle : T) (tick : BitVec 32) : System T where
  sched :=
    { thread := fun _ =>
        { stat := .close, initPriority := 7, currentPriority := 7,
          numberMask := 0, initTick := 0, remainingTick := 0 }
      ready := { list := fun _ => [], group := 0 }
      objects := fun _ => false
      current := idle
      lockNest := 0 }
  timers :=
    { timer := fun _ =>
        { initTick := 0, timeoutTick := 0, periodic := false, activated := false }
      list := []
      tick := tick }

/-- The ready table holds the ready threads, and the timers, an alarm clock whose alarms do not
repeat, are started for suspended threads only. -/
structure Inv (s : System T) (a : AlarmClock T) : Prop where
  sched : s.sched.Inv
  timers : s.timers.Shows a
  repeats : ∀ t, a.repeats t = false
  waiting : ∀ t, s.timers.started t = true → (s.sched.thread t).stat = .suspend

variable {s s' : System T} {a a' : AlarmClock T} {t u : T} {c : Call T} {p : Priority}
  {tick : BitVec 32}

omit [DecidableEq T] in
lemma boot_inv (idle : T) (tick : BitVec 32) :
    ((boot idle tick).Inv (boot idle tick).timers.clock) := by
  have hfresh : (boot idle tick).timers.Fresh :=
    ⟨rfl, fun _ => rfl, fun _ => ⟨(by decide : (0 : BitVec 32) < rtTickMax / 2), nofun⟩⟩
  refine ⟨⟨⟨?_, ?_, ?_⟩, ?_, ?_⟩, hfresh.shows, fun _ => rfl, nofun⟩
  · intro p
    simp [boot]
  · intro i _
    simp [boot]
  · intro p
    exact List.nodup_nil
  · intro t p
    simp [boot]
  · intro t h
    simp [boot] at h

/-! ### One call -/

/-- A thread is in the state that it was in, and its alarms are those that it had. -/
structure Same (s s' : System T) (a a' : AlarmClock T) (u : T) : Prop where
  stat : (s'.sched.thread u).stat = (s.sched.thread u).stat
  entries : a'.entries u = a.entries u
  now : a'.now = a.now

omit [DecidableEq T] in
lemma Inv.not_started (h : s.Inv a) (ht : (s.sched.thread t).stat ≠ .suspend) :
    s.timers.started t = false := by
  by_contra hne
  exact ht (h.waiting t ((Bool.not_eq_false _).mp hne))

/-- The timers of the threads that remain as they were. -/
lemma Inv.waiting_of_update (h : s.Inv a) {thread : T → Thread} {started : T → Bool} {b : Bool}
    (hstarted : started = Function.update s.timers.started t b)
    (ht : b = true → (thread t).stat = .suspend) (hother : ∀ u, u ≠ t → thread u = s.sched.thread u)
    (u : T) (hu : started u = true) : (thread u).stat = .suspend := by
  by_cases hut : u = t
  · subst hut
    rw [hstarted, Function.update_self] at hu
    exact ht hu
  · rw [hstarted, Function.update_of_ne hut] at hu
    rw [hother u hut]
    exact h.waiting u hu

lemma Inv.init (h : s.Inv a) (hc : Allowed s (.init t p tick)) :
    ∃ a', (s.rtThreadInit t p tick).Inv a' ∧
      ∀ u ≠ t, Same s (s.rtThreadInit t p tick) a a' u := by
  have hready : (s.sched.thread t).stat ≠ .ready := by rcases hc with h | h <;> simp [h]
  have hsuspend : (s.sched.thread t).stat ≠ .suspend := by rcases hc with h | h <;> simp [h]
  have hsched := h.sched.modify (f := fun _ =>
    { stat := .init, initPriority := p, currentPriority := p, numberMask := 0,
      initTick := tick, remainingTick := tick }) hready (by simp) (by simp)
  refine ⟨_, ⟨⟨hsched.table, hsched.mem, hsched.mask⟩,
    h.timers.init (h.not_started hsuspend) (by decide) (by simp), ?_, ?_⟩, ?_⟩
  · intro u
    by_cases hu : u = t
    · subst hu
      exact Function.update_self ..
    · exact (Function.update_of_ne hu ..).trans (h.repeats u)
  · exact h.waiting_of_update Timers.rtTimerInit_started (by simp)
      fun u hu => Function.update_of_ne hu ..
  · intro u hu
    exact ⟨congrArg Thread.stat (Function.update_of_ne hu ..), rfl, rfl⟩

lemma Inv.resume (h : s.Inv a) : ∃ a', (s.rtThreadResume t).1.Inv a' ∧
    ∀ u ≠ t, Same s (s.rtThreadResume t).1 a a' u := by
  rw [rtThreadResume]
  split
  · exact ⟨a, h, fun u _ => ⟨rfl, rfl, rfl⟩⟩
  · next hstat =>
    rw [not_not] at hstat
    have hmask := h.sched.mask t (Or.inr hstat)
    refine ⟨a.cancel t,
      ⟨h.sched.insert (by simp [hstat]) hmask, h.timers.stop t, h.repeats, ?_⟩, ?_⟩
    · exact h.waiting_of_update Timers.rtTimerStop_started (by simp)
        fun u hu => Sched.rtScheduleInsertThread_of_ne hu
    · intro u hu
      refine ⟨?_, AlarmClock.entries_cancel_of_ne hu.symm, rfl⟩
      exact congrArg Thread.stat (Sched.rtScheduleInsertThread_of_ne hu)

lemma Inv.suspend_ready (h : s.Inv a) (hready : (s.sched.thread t).stat = .ready) :
    (s.rtThreadSuspend t).1.Inv (a.cancel t) ∧
      ((s.rtThreadSuspend t).1.sched.thread t).stat = .suspend ∧
      ∀ u ≠ t, Same s (s.rtThreadSuspend t).1 a (a.cancel t) u := by
  have hmask := h.sched.mask t (Or.inl hready)
  have hsched := h.sched.remove (f := fun u => { u with stat := .suspend }) (by simp) hready
    fun _ => hmask
  rw [rtThreadSuspend, if_neg (by simp [hready])]
  refine ⟨⟨hsched, h.timers.stop t, h.repeats, ?_⟩, by simp, ?_⟩
  · exact h.waiting_of_update Timers.rtTimerStop_started (by simp)
      fun u hu => Function.update_of_ne hu ..
  · intro u hu
    refine ⟨?_, AlarmClock.entries_cancel_of_ne hu.symm, rfl⟩
    exact congrArg Thread.stat (Function.update_of_ne hu ..)

lemma Inv.suspend (h : s.Inv a) : ∃ a', (s.rtThreadSuspend t).1.Inv a' ∧
    ∀ u ≠ t, Same s (s.rtThreadSuspend t).1 a a' u := by
  by_cases hready : (s.sched.thread t).stat = .ready
  · obtain ⟨hinv, -, hsame⟩ := h.suspend_ready hready
    exact ⟨_, hinv, hsame⟩
  · rw [rtThreadSuspend, if_pos hready]
    exact ⟨a, h, fun u _ => ⟨rfl, rfl, rfl⟩⟩

omit [DecidableEq T] in
lemma Inv.schedule (h : s.Inv a) : s.rtSchedule.Inv a := by
  refine ⟨h.sched.rtSchedule, h.timers, h.repeats, ?_⟩
  intro u hu
  rw [rtSchedule, Sched.rtSchedule_thread]
  exact h.waiting u hu

lemma Inv.startup (h : s.Inv a) (hc : Allowed s (.startup t)) :
    ∃ a', (s.rtThreadStartup t).Inv a' ∧ ∀ u ≠ t, Same s (s.rtThreadStartup t) a a' u := by
  have hinit : (s.sched.thread t).stat = .init := hc
  have hsuspended : System.Inv { s with sched := s.sched.modify t Thread.startup } a := by
    have hsched := h.sched.modify (t := t) (f := Thread.startup) (by simp [hinit])
      (by simp [Thread.startup]) fun _ => rfl
    refine ⟨hsched, h.timers, h.repeats, ?_⟩
    intro u hu
    by_cases hut : u = t
    · subst hut
      rw [Sched.modify_thread_self]
      rfl
    · rw [Sched.modify_thread_of_ne hut]
      exact h.waiting u hu
  obtain ⟨a', hresume, hsame⟩ := hsuspended.resume (t := t)
  refine ⟨a', hresume.schedule, ?_⟩
  intro u hu
  obtain ⟨hstat, hentries, hnow⟩ := hsame u hu
  refine ⟨?_, hentries, hnow⟩
  rw [rtThreadStartup, rtSchedule, Sched.rtSchedule_thread, hstat, Sched.modify_thread_of_ne hu]

/-- A thread that goes to sleep is suspended, with an alarm after the ticks that it asks for. -/
lemma Inv.sleep (h : s.Inv a) (hc : Allowed s (.sleep tick)) :
    ∃ a', (s.rtThreadSleep tick).Inv a' ∧
      (∀ u ≠ s.sched.current, Same s (s.rtThreadSleep tick) a a' u) ∧
      ((s.rtThreadSleep tick).sched.thread s.sched.current).stat = .suspend ∧
      a'.entries s.sched.current = [(s.sched.current, a'.now + tick.toNat)] := by
  obtain ⟨hready, htick, -⟩ := hc
  obtain ⟨hinv, hstat, hsame⟩ := h.suspend_ready hready
  set t := s.sched.current
  set r := (s.rtThreadSuspend t).1
  have hperiodic : (r.timers.timer t).periodic = false :=
    (congrFun hinv.timers.repeats t).trans (h.repeats t)
  have hvalid : Timers.Valid ((r.timers.rtTimerControl t (.setTime tick)).timer t) := by
    have hself : (r.timers.rtTimerControl t (.setTime tick)).timer t =
        { r.timers.timer t with initTick := tick } := Function.update_self ..
    rw [hself]
    exact ⟨htick, fun hp => absurd (hperiodic.symm.trans hp) Bool.false_ne_true⟩
  have htimers := (hinv.timers.control hvalid).start t
  have hstarted : ((r.timers.rtTimerControl t (.setTime tick)).rtTimerStart t).started =
      Function.update r.timers.started t true := by
    rw [Timers.rtTimerStart_started, Timers.rtTimerControl_started]
  have hslept : (s.rtThreadSleep tick).sched.thread = r.sched.thread := Sched.rtSchedule_thread
  have hasleep : System.Inv { r with
      timers := (r.timers.rtTimerControl t (.setTime tick)).rtTimerStart t } _ :=
    ⟨hinv.sched, htimers, hinv.repeats,
      hinv.waiting_of_update hstarted (fun _ => hstat) fun u _ => rfl⟩
  refine ⟨_, hasleep.schedule, ?_, ?_, ?_⟩
  · intro u hu
    obtain ⟨hstat', hentries, hnow⟩ := hsame u hu
    refine ⟨?_, (AlarmClock.entries_set_of_ne hu.symm).trans hentries, hnow⟩
    rw [hslept, hstat']
  · rw [hslept]
    exact hstat
  · rw [AlarmClock.entries_set_self]
    exact congrArg (fun d => [(t, a.now + d)]) (Function.update_self ..)

lemma Inv.exit (h : s.Inv a) (hc : Allowed s .exit) : ∃ a', s.rtThreadExit.Inv a' ∧
    ∀ u ≠ s.sched.current, Same s s.rtThreadExit a a' u := by
  have hready := hc.1
  have hsched := h.sched.remove (f := fun u => { u with stat := .close }) (by simp) hready (by simp)
  set t := s.sched.current
  have hexit : s.rtThreadExit.sched.thread =
      ((s.sched.rtScheduleRemoveThread t).modify t fun u => { u with stat := .close }).thread :=
    Sched.rtSchedule_thread
  refine ⟨a.cancel t, ⟨Sched.Inv.rtSchedule ⟨hsched.table, hsched.mem, hsched.mask⟩,
    h.timers.detach t, h.repeats, ?_⟩, ?_⟩
  · refine h.waiting_of_update Timers.rtTimerDetach_started (by simp) ?_
    intro u hu
    rw [hexit]
    exact Sched.modify_thread_of_ne hu
  · intro u hu
    refine ⟨?_, AlarmClock.entries_cancel_of_ne hu.symm, rfl⟩
    rw [hexit]
    exact congrArg Thread.stat (Sched.modify_thread_of_ne hu)

/-- The threads whose timers expire become ready. -/
lemma timeout_foldl {s : Sched T} {l : List T} (h : s.Inv) (hl : l.Nodup)
    (hstat : ∀ t ∈ l, (s.thread t).stat = .suspend) :
    (l.foldl Sched.rtThreadTimeout s).Inv ∧ ∀ u, ((l.foldl Sched.rtThreadTimeout s).thread u).stat =
      if u ∈ l then .ready else (s.thread u).stat := by
  induction l generalizing s with
  | nil => exact ⟨h, fun u => (if_neg List.not_mem_nil).symm⟩
  | cons t l ih =>
    obtain ⟨ht, hl⟩ := List.nodup_cons.mp hl
    have hself : ((s.rtThreadTimeout t).thread t).stat = .ready := by
      rw [Sched.rtThreadTimeout, Sched.rtSchedule_thread, Sched.rtScheduleInsertThread_self]
    have hrest := Sched.rtThreadTimeout_suspended ht fun u hu => hstat u (List.mem_cons_of_mem t hu)
    obtain ⟨hinv, hstats⟩ := ih (h.rtThreadTimeout (hstat t List.mem_cons_self)) hl hrest
    refine ⟨hinv, ?_⟩
    intro u
    rw [List.foldl_cons, hstats u]
    by_cases hu : u = t
    · subst hu
      rw [if_neg ht, if_pos List.mem_cons_self, hself]
    · rw [Sched.rtThreadTimeout_of_ne hu]
      simp [hu]

omit [DecidableEq T] in
/-- The timers in the list are those that expire at the next interrupt and those that do not. -/
lemma Inv.list_eq (h : s.Inv a) : s.timers.list =
    a.due.map Prod.fst ++ (a.queue.filter fun e => a.now + 1 < e.2).map Prod.fst := by
  rw [h.timers.rep.list, ← List.map_append, AlarmClock.due_append]

omit [DecidableEq T] in
/-- The timers that are started after an interrupt are those that were and did not expire. -/
lemma Inv.started_advance {timers : Timers T} (h : s.Inv a) (htimers : timers.Shows a.advance)
    (u : T) : timers.started u = true ↔ s.timers.started u = true ∧ u ∉ a.due.map Prod.fst := by
  have hagain : a.again = [] := by
    simp [AlarmClock.again, h.repeats]
  have hqueue : a.advance.queue = a.queue.filter fun e => a.now + 1 < e.2 := by
    rw [AlarmClock.queue_advance, hagain, StableQueue.enqueueAll_nil]
  have hnodup := h.timers.rep.nodup
  rw [h.list_eq] at hnodup
  have hafter : timers.started u = true ↔ u ∈ timers.list := htimers.rep.activated u
  have hbefore : s.timers.started u = true ↔ u ∈ s.timers.list := h.timers.rep.activated u
  rw [hafter, hbefore, htimers.rep.list, hqueue, h.list_eq, List.mem_append]
  constructor
  · intro hu
    exact ⟨Or.inr hu, fun hdue => (List.nodup_append.mp hnodup).2.2 u hdue u hu rfl⟩
  · rintro ⟨hu, hnot⟩
    exact hu.resolve_left hnot

/-- **The interrupt of the clock** makes the threads ready whose timers expire. -/
lemma Inv.tickIncrease (h : s.Inv a) : ∃ s', s.rtTickIncrease = some s' ∧ s'.Inv a.advance ∧
    s'.sched = (a.due.map Prod.fst).foldl Sched.rtThreadTimeout s.sched.timeSlice ∧
    (a.due.map Prod.fst).Nodup ∧
    (∀ u ∈ a.due.map Prod.fst, (s.sched.thread u).stat = .suspend) ∧
    ∀ u, (s.sched.thread u).stat = .suspend → (s'.sched.thread u).stat =
      if u ∈ a.due.map Prod.fst then .ready else .suspend := by
  obtain ⟨timers, htick, hshows⟩ := h.timers.tickIncrease (f := Sched.rtThreadTimeout)
    (w := s.sched.timeSlice)
  have hdue : (a.due.map Prod.fst).Nodup := by
    have hnodup := h.timers.rep.nodup
    rw [h.list_eq] at hnodup
    exact (List.nodup_append.mp hnodup).1
  -- only suspended threads have a timer that is started
  have hsuspended : ∀ t ∈ a.due.map Prod.fst, (s.sched.thread t).stat = .suspend := by
    intro t ht
    refine h.waiting t ((h.timers.rep.activated t).mpr ?_)
    rw [h.list_eq]
    exact List.mem_append_left _ ht
  obtain ⟨hinv, hstats⟩ := timeout_foldl h.sched.timeSlice hdue
    fun t ht => Sched.timeSlice_thread.1.trans (hsuspended t ht)
  have hstat : ∀ u, (s.sched.thread u).stat = .suspend →
      (((a.due.map Prod.fst).foldl Sched.rtThreadTimeout s.sched.timeSlice).thread u).stat =
        if u ∈ a.due.map Prod.fst then .ready else .suspend := by
    intro u hu
    rw [hstats u, Sched.timeSlice_thread.1, hu]
  refine ⟨⟨_, timers⟩, ?_, ⟨hinv, hshows, h.repeats, ?_⟩, rfl, hdue, hsuspended, hstat⟩
  · rw [rtTickIncrease, htick, Option.map_some]
  · intro u hu
    obtain ⟨hu, hnot⟩ := (h.started_advance hshows u).mp hu
    rw [hstat u (h.waiting u hu), if_neg hnot]

/-- A new priority leaves a thread in the state that it was in. -/
lemma Inv.changePriority (h : s.Inv a) :
    System.Inv { s with sched := s.sched.changePriority t p } a ∧
      ∀ u, Same s { s with sched := s.sched.changePriority t p } a a u := by
  have hstat : ∀ u, ((s.sched.changePriority t p).thread u).stat = (s.sched.thread u).stat :=
    fun u => Sched.changePriority_stat
  refine ⟨⟨h.sched.changePriority, h.timers, h.repeats, ?_⟩, fun u => ⟨hstat u, rfl, rfl⟩⟩
  intro u hu
  rw [hstat]
  exact h.waiting u hu

omit [DecidableEq T] in
/-- A change of the scheduler alone that leaves the threads as they are. -/
lemma Inv.of_thread_eq {sched : Sched T} (h : s.Inv a) (hinv : sched.Inv)
    (hthread : sched.thread = s.sched.thread) : System.Inv { s with sched := sched } a := by
  refine ⟨hinv, h.timers, h.repeats, ?_⟩
  intro u hu
  simp only [hthread]
  exact h.waiting u hu

lemma step_eq : s.step c = some s' ↔ Allowed s c ∧ s.call c = some s' := by
  rw [step]
  split
  · next hc => exact (and_iff_right hc).symm
  · next hc => exact iff_of_false (by simp) fun h => hc h.1

/-- **One step** keeps the invariant, and leaves a suspended thread alone unless it is called by its
name or the clock ticks. -/
theorem Inv.step (h : s.Inv a) (hs : s.step c = some s') : ∃ a', s'.Inv a' ∧
    (c = .tickIncrease → a' = a.advance) ∧ (c ≠ .tickIncrease → ∀ u, c.names ≠ some u →
      (s.sched.thread u).stat = .suspend → Same s s' a a' u) := by
  obtain ⟨hc, hcall⟩ := step_eq.mp hs
  cases c with
  | init t p tick =>
    obtain rfl := Option.some_inj.mp hcall
    obtain ⟨a', hinv, hsame⟩ := h.init hc
    exact ⟨a', hinv, by simp, fun _ u hu _ => hsame u fun hut => hu (congrArg some hut.symm)⟩
  | startup t =>
    obtain rfl := Option.some_inj.mp hcall
    obtain ⟨a', hinv, hsame⟩ := h.startup hc
    exact ⟨a', hinv, by simp, fun _ u hu _ => hsame u fun hut => hu (congrArg some hut.symm)⟩
  | resume t =>
    obtain rfl := Option.some_inj.mp hcall
    obtain ⟨a', hinv, hsame⟩ := h.resume (t := t)
    exact ⟨a', hinv, by simp, fun _ u hu _ => hsame u fun hut => hu (congrArg some hut.symm)⟩
  | suspend t =>
    obtain rfl := Option.some_inj.mp hcall
    obtain ⟨a', hinv, hsame⟩ := h.suspend (t := t)
    exact ⟨a', hinv, by simp, fun _ u hu _ => hsame u fun hut => hu (congrArg some hut.symm)⟩
  | changePriority t p =>
    obtain rfl := Option.some_inj.mp hcall
    obtain ⟨hinv, hsame⟩ := h.changePriority (t := t) (p := p)
    exact ⟨a, hinv, by simp, fun _ u _ _ => hsame u⟩
  | sleep tick =>
    obtain rfl := Option.some_inj.mp hcall
    obtain ⟨a', hinv, hsame, -⟩ := h.sleep hc
    refine ⟨a', hinv, by simp, fun _ u _ hu => hsame u ?_⟩
    rintro rfl
    exact absurd (hu.symm.trans hc.1) (by simp)
  | exit =>
    obtain rfl := Option.some_inj.mp hcall
    obtain ⟨a', hinv, hsame⟩ := h.exit hc
    refine ⟨a', hinv, by simp, fun _ u _ hu => hsame u ?_⟩
    rintro rfl
    exact absurd (hu.symm.trans hc.1) (by simp)
  | yield =>
    obtain rfl := Option.some_inj.mp hcall
    refine ⟨a, h.of_thread_eq h.sched.rtThreadYield (by simp), by simp, fun _ u _ _ => ?_⟩
    exact ⟨by simp, rfl, rfl⟩
  | schedule =>
    obtain rfl := Option.some_inj.mp hcall
    refine ⟨a, h.schedule, by simp, fun _ u _ _ => ?_⟩
    exact ⟨by simp [rtSchedule], rfl, rfl⟩
  | enterCritical =>
    obtain rfl := Option.some_inj.mp hcall
    exact ⟨a, h.of_thread_eq h.sched.rtEnterCritical rfl, by simp, fun _ u _ _ => ⟨rfl, rfl, rfl⟩⟩
  | exitCritical =>
    obtain rfl := Option.some_inj.mp hcall
    refine ⟨a, h.of_thread_eq h.sched.rtExitCritical (by simp), by simp, fun _ u _ _ => ?_⟩
    exact ⟨by simp, rfl, rfl⟩
  | tickIncrease =>
    obtain ⟨r, hr, hinv, -⟩ := h.tickIncrease
    obtain rfl := Option.some_inj.mp (hr.symm.trans hcall)
    exact ⟨a.advance, hinv, fun _ => rfl, fun hne => absurd rfl hne⟩

/-! ### Runs -/

variable {s₁ : System T} {idle : T} {tick₀ : BitVec 32} {cs : List (Call T)}

lemma reachable_inv (h : Transition.Reachable step (boot idle tick₀) s) : ∃ a, s.Inv a := by
  refine h.invariant (fun s => ∃ a, s.Inv a) ⟨_, boot_inv idle tick₀⟩ ?_
  rintro s c s' ⟨a, ha⟩ hs
  obtain ⟨a', ha', -⟩ := ha.step hs
  exact ⟨a', ha'⟩

/-- How many interrupts of the clock there are. -/
def ticks (cs : List (Call T)) : ℕ := cs.countP (· = .tickIncrease)

end HdmiDisplay.Rtos.System
