/-
# When timers expire

The calls of the functions of timers and the interrupts of the clock, in any order, do to the timers
what they would do to an alarm clock that counts the ticks without bound.
-/
import HdmiDisplay.Lib.Transition
import HdmiDisplay.Rtos.Timer

namespace HdmiDisplay.Rtos.Timers

variable {I W : Type*} [DecidableEq I] {s : Timers I} {now : ℕ} {q : List (I × ℕ)} {i : I}
  {f : W → I → W} {w : W}

/-! ### The timers as an alarm clock -/

/-- The calls of the functions of timers, and the interrupt of the clock. -/
inductive Call (I : Type*) where
  | start (i : I)
  | stop (i : I)
  | detach (i : I)
  | control (i : I) (cmd : TimerCtrl)
  | tickIncrease

/-- The callers give valid delays to the timers. -/
def Allowed (s : Timers I) : Call I → Prop
  | .control i cmd => Valid ((s.rtTimerControl i cmd).timer i)
  | _ => True

/-- One call, and the timers whose functions it calls, in this order. -/
def step (s : Timers I) : Call I → Option (Timers I × List I)
  | .start i => some (s.rtTimerStart i, [])
  | .stop i => some ((s.rtTimerStop i).1, [])
  | .detach i => some (s.rtTimerDetach i, [])
  | .control i cmd => some (s.rtTimerControl i cmd, [])
  | .tickIncrease => s.tickIncrease (fun is i => is ++ [i]) []

/-- What a call does to an alarm clock. -/
def Call.alarm : Call I → AlarmClock.Call I
  | start i => .set i
  | stop i | detach i => .cancel i
  | control i (.setTime tick) => .delay i tick.toNat
  | control i .setOneshot => .repeats i false
  | control i .setPeriodic => .repeats i true
  | tickIncrease => .advance

/-- The timers do what the alarm clock does. -/
structure Shows (s : Timers I) (a : AlarmClock I) : Prop where
  delay : s.delay = a.delay
  repeats : s.repeats = a.repeats
  rep : Rep s a.now a.queue
  ahead : ∀ e ∈ a.queue, a.now ≤ e.2

variable {a : AlarmClock I} {c : Call I}

lemma Shows.start (h : s.Shows a) (i : I) : (s.rtTimerStart i).Shows (a.set i) := by
  have hrep := h.rep.start i
  have hinit : (s.timer i).initTick.toNat = a.delay i := congrFun h.delay i
  rw [hinit] at hrep
  refine ⟨rtTimerStart_delay.trans h.delay, rtTimerStart_repeats.trans h.repeats, ?_, ?_⟩
  · rw [AlarmClock.queue_set]
    exact hrep
  · intro e he
    rw [AlarmClock.queue_set] at he
    rcases StableQueue.mem_enqueue.mp he with rfl | he
    · exact Nat.le_add_right ..
    · exact h.ahead e (List.mem_filter.mp he).1

lemma Shows.detach (h : s.Shows a) (i : I) : (s.rtTimerDetach i).Shows (a.cancel i) := by
  refine ⟨rtTimerDetach_delay.trans h.delay, rtTimerDetach_repeats.trans h.repeats, ?_, ?_⟩
  · rw [AlarmClock.queue_cancel]
    exact h.rep.detach i
  · intro e he
    rw [AlarmClock.queue_cancel] at he
    exact h.ahead e (List.mem_filter.mp he).1

/-- A timer that is not started has no effect on the list. -/
lemma Shows.stop (h : s.Shows a) (i : I) : (s.rtTimerStop i).1.Shows (a.cancel i) := by
  rw [rtTimerStop]
  split
  · next hi =>
    have hmem : i ∉ s.list := fun hmem => absurd ((h.rep.activated i).mpr hmem) (by simp [hi])
    have hqueue : (a.cancel i).queue = a.queue := by
      rw [AlarmClock.queue_cancel, List.filter_eq_self]
      intro e he
      refine decide_eq_true ?_
      rintro rfl
      exact hmem (h.rep.list ▸ List.mem_map_of_mem he)
    refine ⟨h.delay, h.repeats, ?_, ?_⟩
    · rw [hqueue]
      exact h.rep
    · rw [hqueue]
      exact h.ahead
  · exact h.detach i

lemma Rep.control {cmd : TimerCtrl} (h : Rep s now q)
    (hvalid : Valid ((s.rtTimerControl i cmd).timer i)) : Rep (s.rtTimerControl i cmd) now q := by
  have hother : ∀ j, j ≠ i → (s.rtTimerControl i cmd).timer j = s.timer j := by
    intro j hj
    cases cmd <;> exact Function.update_of_ne hj ..
  have hself : ((s.rtTimerControl i cmd).timer i).activated = (s.timer i).activated ∧
      ((s.rtTimerControl i cmd).timer i).timeoutTick = (s.timer i).timeoutTick := by
    cases cmd <;> simp [rtTimerControl, modify]
  have htick : (s.rtTimerControl i cmd).tick = s.tick := by cases cmd <;> rfl
  have hlist : (s.rtTimerControl i cmd).list = s.list := by cases cmd <;> rfl
  refine ⟨htick.trans h.tick, hlist.trans h.list, hlist ▸ h.nodup, ?_, ?_, h.near, ?_⟩
  · intro j
    rw [hlist, ← h.activated]
    by_cases hj : j = i
    · rw [hj, hself.1]
    · rw [hother j hj]
  · intro e he
    rw [← h.timeout e he]
    by_cases hj : e.1 = i
    · rw [hj, hself.2]
    · rw [hother e.1 hj]
  · intro j
    by_cases hj : j = i
    · rw [hj]
      exact hvalid
    · rw [hother j hj]
      exact h.valid j

lemma Shows.control {cmd : TimerCtrl} (h : s.Shows a)
    (hvalid : Valid ((s.rtTimerControl i cmd).timer i)) :
    (s.rtTimerControl i cmd).Shows (a.step (Call.control i cmd).alarm).1 := by
  have hrep := h.rep.control hvalid
  have hdelay : Function.update s.delay i (s.timer i).initTick.toNat = a.delay :=
    (Function.update_eq_self ..).trans h.delay
  have hrepeats : Function.update s.repeats i (s.timer i).periodic = a.repeats :=
    (Function.update_eq_self ..).trans h.repeats
  cases cmd with
  | setTime tick =>
    refine ⟨?_, ?_, hrep, h.ahead⟩
    · rw [rtTimerControl, delay_modify, h.delay]
      rfl
    · rw [rtTimerControl, repeats_modify]
      exact hrepeats
  | setOneshot =>
    refine ⟨?_, ?_, hrep, h.ahead⟩
    · rw [rtTimerControl, delay_modify]
      exact hdelay
    · rw [rtTimerControl, repeats_modify, h.repeats]
      rfl
  | setPeriodic =>
    refine ⟨?_, ?_, hrep, h.ahead⟩
    · rw [rtTimerControl, delay_modify]
      exact hdelay
    · rw [rtTimerControl, repeats_modify, h.repeats]
      rfl

/-- A timer that is not started is initialized. -/
lemma Shows.init {time : BitVec 32} {periodic : Bool} (h : s.Shows a)
    (hi : (s.timer i).activated = false) (htime : time < rtTickMax / 2)
    (hpos : periodic = true → time ≠ 0) :
    (s.rtTimerInit i time periodic).Shows { a with
      delay := Function.update a.delay i time.toNat
      repeats := Function.update a.repeats i periodic } := by
  have hnot : i ∉ s.list := fun hmem => by simp [(h.rep.activated i).mpr hmem] at hi
  have hself : (s.rtTimerInit i time periodic).timer i =
      { initTick := time, timeoutTick := 0, periodic := periodic, activated := false } :=
    Function.update_self ..
  have hother : ∀ j, j ≠ i → (s.rtTimerInit i time periodic).timer j = s.timer j :=
    fun j hj => Function.update_of_ne hj ..
  refine ⟨?_, ?_, ⟨h.rep.tick, h.rep.list, h.rep.nodup, ?_, ?_, h.rep.near, ?_⟩, h.ahead⟩
  · rw [rtTimerInit, delay_modify, h.delay]
  · rw [rtTimerInit, repeats_modify, h.repeats]
  · intro j
    by_cases hj : j = i
    · subst hj
      rw [hself]
      exact iff_of_false Bool.false_ne_true hnot
    · rw [hother j hj]
      exact h.rep.activated j
  · intro e he
    have hne : e.1 ≠ i := by
      rintro rfl
      exact hnot (h.rep.list ▸ List.mem_map_of_mem he)
    rw [hother e.1 hne]
    exact h.rep.timeout e he
  · intro j
    by_cases hj : j = i
    · subst hj
      rw [hself]
      exact ⟨htime, hpos⟩
    · rw [hother j hj]
      exact h.rep.valid j

omit [DecidableEq I] in
lemma foldl_snoc (l is : List I) : l.foldl (fun is i => is ++ [i]) is = is ++ l := by
  induction l generalizing is with
  | nil => exact (List.append_nil is).symm
  | cons i l ih => rw [List.foldl_cons, ih, List.append_assoc, List.singleton_append]

/-- **The interrupt of the clock.**  The functions of the timers that are due are called, each once
and in their order, and the loop ends. -/
lemma Shows.tickIncrease (h : s.Shows a) : ∃ s',
    s.tickIncrease f w = some (s', (a.due.map Prod.fst).foldl f w) ∧ s'.Shows a.advance := by
  have hsplit := AlarmClock.due_append (a := a)
  -- before the loop the times that are due are one tick back at most
  have hnear : ∀ e ∈ a.queue, a.now + 1 ≤ e.2 + 1 ∧
      e.2 < a.now + 1 + (rtTickMax / 2).toNat := by
    intro e he
    have hahead := h.ahead e he
    have hbound := (h.rep.near e he).2
    omega
  have hrep : Rep { s with tick := s.tick + 1 } (a.now + 1) a.queue := by
    refine ⟨?_, h.rep.list, h.rep.nodup, h.rep.activated, h.rep.timeout, hnear, h.rep.valid⟩
    rw [BitVec.ofNat_add, ← h.rep.tick]
    rfl
  rw [← hsplit] at hrep
  have hdue : ∀ e ∈ a.due, e.2 ≤ a.now + 1 := by
    intro e he
    exact of_decide_eq_true (List.mem_filter.mp (StableQueue.mem_ofList.mp he)).2
  have hlater : ∀ e ∈ a.queue.filter (fun e => a.now + 1 < e.2), a.now + 1 < e.2 := by
    intro e he
    exact of_decide_eq_true (List.mem_filter.mp he).2
  have hlength : a.due.length < s.list.length + 1 := by
    rw [h.rep.list, List.length_map, ← hsplit, List.length_append]
    omega
  obtain ⟨s', hcheck, hs', hdelay, hrepeats⟩ := check_due (f := f) (w := w) hrep hdue hlater hlength
  have hagain : (a.due.filter fun e => Timers.repeats { s with tick := s.tick + 1 } e.1).map
      (fun e => (e.1, a.now + 1 + Timers.delay { s with tick := s.tick + 1 } e.1)) = a.again := by
    have hd : Timers.delay { s with tick := s.tick + 1 } = a.delay := h.delay
    have hr : Timers.repeats { s with tick := s.tick + 1 } = a.repeats := h.repeats
    rw [hd, hr, AlarmClock.again]
  rw [hagain, ← AlarmClock.queue_advance] at hs'
  refine ⟨s', hcheck, hdelay.trans h.delay, hrepeats.trans h.repeats, hs', ?_⟩
  intro e he
  rw [AlarmClock.queue_advance] at he
  rcases StableQueue.mem_enqueueAll.mp he with he | he
  · exact Nat.le_of_lt (hlater e he)
  · obtain ⟨e', -, rfl⟩ := List.mem_map.mp he
    exact Nat.le_add_right ..

/-- **One call.**  The timers go on doing what the alarm clock does. -/
lemma Shows.step (h : s.Shows a) (hc : Allowed s c) : ∃ s',
    s.step c = some (s', (a.step c.alarm).2) ∧ s'.Shows (a.step c.alarm).1 := by
  cases c with
  | start i => exact ⟨_, rfl, h.start i⟩
  | stop i => exact ⟨_, rfl, h.stop i⟩
  | detach i => exact ⟨_, rfl, h.detach i⟩
  | control i cmd =>
    refine ⟨s.rtTimerControl i cmd, ?_, h.control hc⟩
    cases cmd <;> rfl
  | tickIncrease =>
    obtain ⟨s', hs', hshows⟩ := h.tickIncrease (f := fun is i => is ++ [i]) (w := [])
    rw [foldl_snoc, List.nil_append] at hs'
    exact ⟨s', hs', hshows⟩

/-- A run in which the callers give valid delays to the timers. -/
def AllowedRun : Timers I → List (Call I) → Prop
  | _, [] => True
  | s, c :: cs => Allowed s c ∧ (s.step c).elim True fun r => AllowedRun r.1 cs

instance : DecidablePred Valid := fun _ => inferInstanceAs (Decidable (_ ∧ _))

instance : Decidable (Allowed s c) :=
  match c with
  | .control i cmd => inferInstanceAs (Decidable (Valid ((s.rtTimerControl i cmd).timer i)))
  | .start _ | .stop _ | .detach _ | .tickIncrease => isTrue trivial

instance decidableAllowedRun : ∀ (cs : List (Call I)) (s : Timers I), Decidable (AllowedRun s cs)
  | [], _ => isTrue trivial
  | c :: cs, s =>
      match h : s.step c with
      | none => decidable_of_iff (Allowed s c) (by simp [AllowedRun, h])
      | some r =>
          have := decidableAllowedRun cs r.1
          decidable_of_iff (Allowed s c ∧ AllowedRun r.1 cs) (by simp [AllowedRun, h])

/-- No timer is started yet. -/
structure Fresh (s : Timers I) : Prop where
  list : s.list = []
  activated : ∀ i, (s.timer i).activated = false
  valid : ∀ i, Valid (s.timer i)

/-- The alarm clock with the settings and the time of the timers, and no alarm pending. -/
def clock (s : Timers I) : AlarmClock I :=
  { now := s.tick.toNat, delay := s.delay, repeats := s.repeats, pending := [] }

variable {cs cs' : List (Call I)}

omit [DecidableEq I] in
lemma Fresh.shows (h : s.Fresh) : s.Shows s.clock := by
  have hqueue : ∀ e, e ∉ s.clock.queue := fun _ => List.not_mem_nil
  refine ⟨rfl, rfl, ?_, fun e he => absurd he (hqueue e)⟩
  refine ⟨?_, h.list, h.list ▸ List.nodup_nil, ?_, fun e he => absurd he (hqueue e),
    fun e he => absurd he (hqueue e), h.valid⟩
  · rw [clock, BitVec.ofNat_toNat, BitVec.setWidth_eq]
  · intro i
    rw [h.list]
    exact iff_of_false (by simp [h.activated i]) List.not_mem_nil

lemma Shows.trace (h : s.Shows a) (hcs : AllowedRun s cs) : ∃ s' a',
    Transition.trace Timers.step s cs = some (s', a.rung (cs.map Call.alarm)) ∧ s'.Shows a' := by
  induction cs generalizing s a with
  | nil => exact ⟨s, a, rfl, h⟩
  | cons c cs ih =>
    obtain ⟨s₁, hs₁, hshows⟩ := h.step hcs.1
    have hrest := hcs.2
    rw [hs₁] at hrest
    obtain ⟨s', a', htrace, hs'⟩ := ih hshows hrest
    exact ⟨s', a', Transition.trace_cons.mpr ⟨s₁, _, _, hs₁, htrace, rfl⟩, hs'⟩

/-- **The timers are an alarm clock.**  In every run, also one in which `rt_tick` wraps around, each
interrupt of the clock calls the functions of the timers whose time has come, by their times and for
one time in the order in which they were started, and of no others. -/
theorem alarm_clock (h : s.Fresh) (hcs : AllowedRun s cs) : ∃ s',
    Transition.trace step s cs = some (s', s.clock.rung (cs.map Call.alarm)) := by
  obtain ⟨s', a', htrace, -⟩ := h.shows.trace hcs
  exact ⟨s', htrace⟩

/-- Two timers that are started in the last ticks before the counter of the ticks wraps around. -/
def wrapping : Timers Bool where
  timer i := { initTick := if i then 2 else 3, timeoutTick := 0, periodic := i, activated := false }
  list := []
  tick := 0xFFFFFFFE

theorem alarm_clock_wrapping : ∃ s', Transition.trace step wrapping
    [.start false, .start true, .tickIncrease, .tickIncrease, .tickIncrease, .tickIncrease] =
      some (s', [[], [], [], [true], [false], [true]]) :=
  alarm_clock ⟨rfl, fun _ => rfl, by decide⟩ (by decide)

lemma AllowedRun.left (h : AllowedRun s (cs ++ cs')) : AllowedRun s cs := by
  induction cs generalizing s with
  | nil => trivial
  | cons c cs ih =>
    refine ⟨h.1, ?_⟩
    have hnext := h.2
    cases hu : s.step c with
    | none => trivial
    | some r =>
      rw [hu] at hnext
      exact ih hnext

lemma AllowedRun.right {s₁ : Timers I} {os : List (List I)} (h : AllowedRun s (cs ++ cs'))
    (hs₁ : Transition.trace step s cs = some (s₁, os)) : AllowedRun s₁ cs' := by
  induction cs generalizing s os with
  | nil =>
    rw [Transition.trace_nil, Option.some_inj, Prod.mk.injEq] at hs₁
    exact hs₁.1 ▸ h
  | cons c cs ih =>
    obtain ⟨u, o, os', hu, hrest, -⟩ := Transition.trace_cons.mp hs₁
    have hnext := h.2
    rw [hu] at hnext
    exact ih hnext hrest

/-- The number of interrupts of the clock. -/
def ticks (cs : List (Call I)) : ℕ := AlarmClock.ticks (cs.map Call.alarm)

/-- **When a timer expires.**  From the call that starts it on, and as long as no call is about it,
a timer that is periodic expires after every `delay` interrupts of the clock, and one that is not
expires once, after `delay` of them or, if it has none, at the next one; neither other timers nor
the end of the range of the ticks make a difference. -/
theorem expiry_count (h : s.Fresh) (hcs : AllowedRun s (cs ++ .start i :: cs'))
    (hother : ∀ c ∈ cs', c.alarm.about ≠ some i) : ∃ s₁ os s' os',
      Transition.trace step s cs = some (s₁, os) ∧
      Transition.trace step s₁ (.start i :: cs') = some (s', os') ∧
      os'.flatten.count i = if s₁.repeats i then ticks cs' / s₁.delay i
        else if max 1 (s₁.delay i) ≤ ticks cs' then 1 else 0 := by
  obtain ⟨s₁, a₁, htrace, hshows⟩ := h.shows.trace hcs.left
  have hright : AllowedRun (s₁.rtTimerStart i) cs' := (hcs.right htrace).2
  obtain ⟨s', a', htrace', -⟩ := (hshows.start i).trace hright
  refine ⟨s₁, _, s', _, htrace, Transition.trace_cons.mpr ⟨_, _, _, rfl, htrace', rfl⟩, ?_⟩
  have hpos : a₁.repeats i = true → 0 < s₁.delay i := by
    intro hi
    rw [← hshows.repeats] at hi
    exact Nat.pos_of_ne_zero fun hzero =>
      (hshows.rep.valid i).2 hi (BitVec.eq_of_toNat_eq hzero)
  have hcalls : ∀ c ∈ cs'.map Call.alarm, c.about ≠ some i := by
    intro c hc
    obtain ⟨c, hmem, rfl⟩ := List.mem_map.mp hc
    exact hother c hmem
  rw [List.flatten_cons, List.nil_append,
    AlarmClock.count_rung_set (congrFun hshows.delay i).symm hpos hcalls, ← hshows.repeats, ticks]

theorem expiry_count_wrapping : ∃ s₁ os s' os',
    Transition.trace step wrapping [.start false, .tickIncrease] = some (s₁, os) ∧
    Transition.trace step s₁ [.start true, .tickIncrease, .stop false, .tickIncrease,
      .tickIncrease, .tickIncrease, .tickIncrease] = some (s', os') ∧
    os'.flatten.count true = if s₁.repeats true then 5 / s₁.delay true
      else if max 1 (s₁.delay true) ≤ 5 then 1 else 0 :=
  expiry_count ⟨rfl, fun _ => rfl, by decide⟩ (by decide) (by decide)

end HdmiDisplay.Rtos.Timers
