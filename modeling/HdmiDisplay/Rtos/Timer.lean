/-
# The kernel's timers

The functions of `timer.c` and `rt_tick_increase` of `clock.c` for the hard timers, which are the
only ones in this configuration, with one row of the skip list.  The list `rt_timer_list` is the
list of its timers, and the ticks are unsigned numbers of 32 bits that wrap around.  The assertions
are empty in this configuration; what they ask of a delay is part of `Valid`.  A timeout function
may do anything to the rest of the kernel but does not call the functions of timers, as
`rt_thread_timeout` does not.
-/
import HdmiDisplay.Lib.AlarmClock

namespace HdmiDisplay.Rtos

/-- The maximum number of ticks. -/
def rtTickMax : BitVec 32 := 0xFFFFFFFF

/-- `struct rt_timer`, with the flags `RT_TIMER_FLAG_PERIODIC` and `RT_TIMER_FLAG_ACTIVATED`. -/
structure Timer where
  initTick : BitVec 32
  timeoutTick : BitVec 32
  periodic : Bool
  activated : Bool
deriving DecidableEq, Repr

/-- The timers, `rt_timer_list` and `rt_tick`. -/
structure Timers (I : Type*) where
  timer : I → Timer
  list : List I
  tick : BitVec 32

/-- The commands of `rt_timer_control` that change a timer. -/
inductive TimerCtrl where
  | setTime (tick : BitVec 32)
  | setOneshot
  | setPeriodic
deriving DecidableEq, Repr

/-- The result of a call. -/
inductive RtErr where
  | eok
  | error
deriving DecidableEq, Repr

namespace Timers

variable {I W : Type*} [DecidableEq I]

/-- A change of one timer. -/
def modify (s : Timers I) (i : I) (f : Timer → Timer) : Timers I :=
  { s with timer := Function.update s.timer i (f (s.timer i)) }

/-- `_rt_timer_remove`. -/
def remove (s : Timers I) (i : I) : Timers I := { s with list := s.list.erase i }

/-- The insertion into the list by `rt_timer_start`, behind the timers with the same timeout. -/
def insertTimer (timeoutTick : I → BitVec 32) (i : I) : List I → List I
  | [] => [i]
  | t :: ts =>
      if timeoutTick t - timeoutTick i = 0 then t :: insertTimer timeoutTick i ts
      else if timeoutTick t - timeoutTick i < rtTickMax / 2 then i :: t :: ts
      else t :: insertTimer timeoutTick i ts

/-- `rt_timer_init`. -/
def rtTimerInit (s : Timers I) (i : I) (time : BitVec 32) (periodic : Bool) : Timers I :=
  s.modify i fun _ =>
    { initTick := time, timeoutTick := 0, periodic := periodic, activated := false }

/-- `rt_timer_start`. -/
def rtTimerStart (s : Timers I) (i : I) : Timers I :=
  let s := (s.remove i).modify i fun t => { t with activated := false }
  let s := s.modify i fun t => { t with timeoutTick := s.tick + t.initTick }
  let s := { s with list := insertTimer (fun t => (s.timer t).timeoutTick) i s.list }
  s.modify i fun t => { t with activated := true }

/-- `rt_timer_stop`. -/
def rtTimerStop (s : Timers I) (i : I) : Timers I × RtErr :=
  if (s.timer i).activated = false then (s, .error)
  else ((s.remove i).modify i fun t => { t with activated := false }, .eok)

/-- `rt_timer_detach`, without the object. -/
def rtTimerDetach (s : Timers I) (i : I) : Timers I :=
  (s.remove i).modify i fun t => { t with activated := false }

/-- `rt_timer_control`. -/
def rtTimerControl (s : Timers I) (i : I) : TimerCtrl → Timers I
  | .setTime tick => s.modify i fun t => { t with initTick := tick }
  | .setOneshot => s.modify i fun t => { t with periodic := false }
  | .setPeriodic => s.modify i fun t => { t with periodic := true }

/-- The loop of `rt_timer_check`, for a number of rounds. -/
def check (timeoutFunc : W → I → W) : ℕ → Timers I → W → Option (Timers I × W)
  | 0, _, _ => none
  | n + 1, s, w =>
      match s.list with
      | [] => some (s, w)
      | t :: _ =>
          if s.tick - (s.timer t).timeoutTick < rtTickMax / 2 then
            let s := s.remove t
            let s := if (s.timer t).periodic then s
              else s.modify t fun t => { t with activated := false }
            let w := timeoutFunc w t
            if (s.timer t).periodic ∧ (s.timer t).activated then
              check timeoutFunc n
                ((s.modify t fun t => { t with activated := false }).rtTimerStart t) w
            else check timeoutFunc n s w
          else some (s, w)

/-- `rt_timer_check`.  Each round takes a timer off the list or is the last one. -/
def rtTimerCheck (timeoutFunc : W → I → W) (s : Timers I) (w : W) : Option (Timers I × W) :=
  check timeoutFunc (s.list.length + 1) s w

/-- What `rt_tick_increase` does to the timers. -/
def tickIncrease (timeoutFunc : W → I → W) (s : Timers I) (w : W) : Option (Timers I × W) :=
  rtTimerCheck timeoutFunc { s with tick := s.tick + 1 } w

/-! ### The list of the timers as a queue of times -/

/-- The delay of a timer is what the assertion of `rt_timer_start` asks for.  That a periodic timer
has one is an assumption: nothing asserts it, and without it `rt_timer_check` would not end. -/
def Valid (t : Timer) : Prop := t.initTick < rtTickMax / 2 ∧ (t.periodic = true → t.initTick ≠ 0)

/-- The timers stand for a queue of timers with the times, counted without bound, at which they
expire.  No time is more than a tick ago, nor half the range of the ticks ahead. -/
structure Rep (s : Timers I) (now : ℕ) (q : List (I × ℕ)) : Prop where
  tick : s.tick = BitVec.ofNat 32 now
  list : s.list = q.map Prod.fst
  nodup : s.list.Nodup
  activated : ∀ i, (s.timer i).activated = true ↔ i ∈ s.list
  timeout : ∀ e ∈ q, (s.timer e.1).timeoutTick = BitVec.ofNat 32 e.2
  near : ∀ e ∈ q, now ≤ e.2 + 1 ∧ e.2 < now + (rtTickMax / 2).toNat
  valid : ∀ i, Valid (s.timer i)

variable {s : Timers I} {now : ℕ} {q : List (I × ℕ)} {i : I}

lemma rtTickMax_half : (rtTickMax / 2).toNat = 2147483647 := rfl

omit [DecidableEq I] in
/-- The comparison of two ticks, which wrap around, is the one of the times. -/
lemma insertTimer_map {f : I → BitVec 32} {d : ℕ} (hi : f i = BitVec.ofNat 32 d)
    (hq : ∀ e ∈ q, f e.1 = BitVec.ofNat 32 e.2 ∧ e.2 < d + (rtTickMax / 2).toNat ∧
      d ≤ e.2 + (rtTickMax / 2).toNat) :
    insertTimer f i (q.map Prod.fst) =
      (StableQueue.enqueue Prod.snd (i, d) q).map Prod.fst := by
  induction q with
  | nil => rfl
  | cons e q ih =>
    obtain ⟨hf, hahead, hbehind⟩ := hq e List.mem_cons_self
    have hrest := ih fun e' he' => hq e' (List.mem_cons_of_mem e he')
    rw [rtTickMax_half] at hahead hbehind
    have hzero : f e.1 - f i = 0 ↔ e.2 = d := by
      rw [hf, hi]
      exact WrappingCounter.sub_eq_zero_iff (by omega) (by omega)
    have hlt : f e.1 - f i < rtTickMax / 2 ↔ d ≤ e.2 := by
      rw [hf, hi, BitVec.lt_def, rtTickMax_half]
      exact WrappingCounter.toNat_sub_lt_iff (by omega) (by omega) (by omega)
    rw [List.map_cons, insertTimer, StableQueue.enqueue]
    by_cases hle : e.2 ≤ d
    · rw [if_pos hle, List.map_cons, hrest]
      rcases Nat.lt_or_ge e.2 d with hless | hge
      · rw [if_neg (mt hzero.mp (by omega)), if_neg (mt hlt.mp (by omega))]
      · rw [if_pos (hzero.mpr (by omega))]
    · rw [if_neg hle, if_neg (mt hzero.mp (by omega)), if_pos (hlt.mpr (by omega))]
      rfl

lemma rtTimerStart_list : (s.rtTimerStart i).list =
    insertTimer (fun t => ((s.rtTimerStart i).timer t).timeoutTick) i (s.list.erase i) := by
  rw [rtTimerStart]
  simp only [modify, remove, Function.update_idem, Function.update_self]
  congr 1
  funext t
  by_cases h : t = i
  · subst h
    simp only [Function.update_self]
  · simp only [Function.update_of_ne h]

lemma rtTimerStart_timer_self : (s.rtTimerStart i).timer i =
    { s.timer i with timeoutTick := s.tick + (s.timer i).initTick, activated := true } := by
  simp only [rtTimerStart, modify, remove, Function.update_self]

lemma rtTimerStart_timer_of_ne {j : I} (h : j ≠ i) :
    (s.rtTimerStart i).timer j = s.timer j := by
  simp only [rtTimerStart, modify, remove, Function.update_of_ne h]

lemma rtTimerDetach_timer_self :
    (s.rtTimerDetach i).timer i = { s.timer i with activated := false } := Function.update_self ..

lemma rtTimerDetach_timer_of_ne {j : I} (h : j ≠ i) :
    (s.rtTimerDetach i).timer j = s.timer j := Function.update_of_ne h ..

/-- Whether the timers are started. -/
def started (s : Timers I) (i : I) : Bool := (s.timer i).activated

lemma started_modify {f : Timer → Timer} :
    (s.modify i f).started = Function.update s.started i (f (s.timer i)).activated :=
  Function.comp_update Timer.activated ..

lemma rtTimerDetach_started : (s.rtTimerDetach i).started = Function.update s.started i false :=
  started_modify

lemma rtTimerStop_started : (s.rtTimerStop i).1.started = Function.update s.started i false := by
  rw [rtTimerStop]
  split
  · next hi =>
    have hstarted : s.started i = false := hi
    rw [← hstarted, Function.update_eq_self]
  · exact rtTimerDetach_started

lemma rtTimerControl_started {cmd : TimerCtrl} : (s.rtTimerControl i cmd).started = s.started := by
  have hsame : Function.update s.started i (s.timer i).activated = s.started :=
    Function.update_eq_self ..
  cases cmd <;> rw [rtTimerControl, started_modify, hsame]

lemma rtTimerInit_started {time : BitVec 32} {periodic : Bool} :
    (s.rtTimerInit i time periodic).started = Function.update s.started i false := started_modify

lemma rtTimerStart_started : (s.rtTimerStart i).started = Function.update s.started i true := by
  funext j
  by_cases hj : j = i
  · subst hj
    rw [started, rtTimerStart_timer_self, Function.update_self]
  · rw [started, rtTimerStart_timer_of_ne hj, Function.update_of_ne hj, started]

/-- The list without a timer. -/
lemma Rep.erase (h : Rep s now q) : s.list.erase i = (q.filter fun e => e.1 ≠ i).map Prod.fst := by
  rw [h.nodup.erase_eq_filter, h.list, List.filter_map]
  congr 2
  funext e
  simp [bne, beq_eq_decide]

lemma Rep.detach (h : Rep s now q) (i : I) :
    Rep (s.rtTimerDetach i) now (q.filter fun e => e.1 ≠ i) := by
  have hlist : (s.rtTimerDetach i).list = s.list.erase i := rfl
  refine ⟨h.tick, h.erase, h.nodup.erase i, ?_, ?_, ?_, ?_⟩
  · intro j
    rw [hlist]
    by_cases hj : j = i
    · subst hj
      rw [rtTimerDetach_timer_self]
      exact ⟨fun h => absurd h Bool.false_ne_true, fun hmem => absurd hmem h.nodup.not_mem_erase⟩
    · rw [rtTimerDetach_timer_of_ne hj, h.activated, List.mem_erase_of_ne hj]
  · intro e he
    rw [List.mem_filter, decide_eq_true_eq] at he
    rw [rtTimerDetach_timer_of_ne he.2, h.timeout e he.1]
  · intro e he
    exact h.near e (List.mem_filter.mp he).1
  · intro j
    by_cases hj : j = i
    · subst hj
      rw [rtTimerDetach_timer_self]
      exact h.valid j
    · rw [rtTimerDetach_timer_of_ne hj]
      exact h.valid j

lemma Rep.start (h : Rep s now q) (i : I) :
    Rep (s.rtTimerStart i) now (StableQueue.enqueue Prod.snd (i, now + (s.timer i).initTick.toNat)
      (q.filter fun e => e.1 ≠ i)) := by
  have hinit : (s.timer i).initTick.toNat < (rtTickMax / 2).toNat := BitVec.lt_def.mp (h.valid i).1
  have htick : (s.rtTimerStart i).tick = BitVec.ofNat 32 now := h.tick
  have htimeout : s.tick + (s.timer i).initTick =
      BitVec.ofNat 32 (now + (s.timer i).initTick.toNat) := by
    rw [h.tick, BitVec.ofNat_add, BitVec.ofNat_toNat, BitVec.setWidth_eq]
  have hlist : (s.rtTimerStart i).list = (StableQueue.enqueue Prod.snd
      (i, now + (s.timer i).initTick.toNat) (q.filter fun e => e.1 ≠ i)).map Prod.fst := by
    rw [rtTimerStart_list, h.erase]
    refine insertTimer_map ?_ ?_
    · rw [rtTimerStart_timer_self]
      exact htimeout
    · intro e he
      rw [List.mem_filter, decide_eq_true_eq] at he
      obtain ⟨hbehind, hahead⟩ := h.near e he.1
      refine ⟨?_, by omega, by omega⟩
      rw [rtTimerStart_timer_of_ne he.2, h.timeout e he.1]
  have hperm : (s.rtTimerStart i).list.Perm (i :: s.list.erase i) := by
    rw [hlist, h.erase]
    exact StableQueue.enqueue_perm.map _
  refine ⟨htick, hlist, ?_, ?_, ?_, ?_, ?_⟩
  · exact hperm.nodup_iff.mpr (List.nodup_cons.mpr ⟨h.nodup.not_mem_erase, h.nodup.erase i⟩)
  · intro j
    rw [hperm.mem_iff, List.mem_cons]
    by_cases hj : j = i
    · subst hj
      rw [rtTimerStart_timer_self]
      exact iff_of_true rfl (Or.inl rfl)
    · rw [rtTimerStart_timer_of_ne hj, h.activated, List.mem_erase_of_ne hj]
      exact (or_iff_right hj).symm
  · intro e he
    rcases StableQueue.mem_enqueue.mp he with rfl | he
    · rw [rtTimerStart_timer_self]
      exact htimeout
    · rw [List.mem_filter, decide_eq_true_eq] at he
      rw [rtTimerStart_timer_of_ne he.2, h.timeout e he.1]
  · intro e he
    rcases StableQueue.mem_enqueue.mp he with rfl | he
    · simp only
      omega
    · exact h.near e (List.mem_filter.mp he).1
  · intro j
    by_cases hj : j = i
    · subst hj
      rw [rtTimerStart_timer_self]
      exact h.valid j
    · rw [rtTimerStart_timer_of_ne hj]
      exact h.valid j

/-! ### The loop of `rt_timer_check` -/

/-- The settings of the timers. -/
def delay (s : Timers I) (i : I) : ℕ := (s.timer i).initTick.toNat

/-- Whether the timers are periodic. -/
def repeats (s : Timers I) (i : I) : Bool := (s.timer i).periodic

/-- What becomes of a timer that expires. -/
def expire (s : Timers I) (i : I) : Timers I :=
  if s.repeats i then (s.rtTimerDetach i).rtTimerStart i else s.rtTimerDetach i

lemma delay_modify {f : Timer → Timer} :
    (s.modify i f).delay = Function.update s.delay i (f (s.timer i)).initTick.toNat :=
  Function.comp_update (fun t : Timer => t.initTick.toNat) ..

lemma repeats_modify {f : Timer → Timer} :
    (s.modify i f).repeats = Function.update s.repeats i (f (s.timer i)).periodic :=
  Function.comp_update Timer.periodic ..

@[simp] lemma rtTimerDetach_delay : (s.rtTimerDetach i).delay = s.delay :=
  delay_modify.trans (Function.update_eq_self ..)

@[simp] lemma rtTimerDetach_repeats : (s.rtTimerDetach i).repeats = s.repeats :=
  repeats_modify.trans (Function.update_eq_self ..)

@[simp] lemma rtTimerStart_delay : (s.rtTimerStart i).delay = s.delay := by
  funext j
  by_cases hj : j = i
  · subst hj
    rw [delay, rtTimerStart_timer_self, delay]
  · rw [delay, rtTimerStart_timer_of_ne hj, delay]

@[simp] lemma rtTimerStart_repeats : (s.rtTimerStart i).repeats = s.repeats := by
  funext j
  by_cases hj : j = i
  · subst hj
    rw [repeats, rtTimerStart_timer_self, repeats]
  · rw [repeats, rtTimerStart_timer_of_ne hj, repeats]

@[simp] lemma expire_delay : (s.expire i).delay = s.delay := by
  rw [expire]
  split <;> simp

@[simp] lemma expire_repeats : (s.expire i).repeats = s.repeats := by
  rw [expire]
  split <;> simp

variable {f : W → I → W} {w : W} {n : ℕ}

/-- A timer at the front of the list whose time has come is taken off. -/
lemma check_of_le {e : I × ℕ} (h : Rep s now (e :: q)) (he : e.2 ≤ now) :
    check f (n + 1) s w = check f n (s.expire e.1) (f w e.1) := by
  obtain ⟨i, d⟩ := e
  have hlist : s.list = i :: q.map Prod.fst := h.list
  have hnear := (h.near (i, d) List.mem_cons_self).1
  have hdue : s.tick - (s.timer i).timeoutTick < rtTickMax / 2 := by
    rw [h.tick, h.timeout (i, d) List.mem_cons_self, BitVec.lt_def, rtTickMax_half]
    exact (WrappingCounter.toNat_sub_lt_iff (by omega) (by omega) (by omega)).mpr he
  -- so that the function does not stop the timer before it is started again
  have hactive : (s.timer i).activated = true :=
    (h.activated i).mpr (hlist ▸ List.mem_cons_self)
  rw [check, hlist]
  simp only [if_pos hdue]
  cases hi : (s.timer i).periodic with
  | true =>
    have hexpire : s.expire i = (s.rtTimerDetach i).rtTimerStart i := if_pos hi
    rw [hexpire]
    simp [remove, hi, hactive, rtTimerDetach]
  | false =>
    have hexpire : s.expire i = s.rtTimerDetach i := if_neg (by simpa [repeats] using hi)
    rw [hexpire]
    simp [remove, hi, modify, rtTimerDetach]

/-- A timer at the front of the list whose time has not come ends the loop. -/
lemma check_of_lt {e : I × ℕ} (h : Rep s now (e :: q)) (he : now < e.2) :
    check f (n + 1) s w = some (s, w) := by
  obtain ⟨i, d⟩ := e
  have hlist : s.list = i :: q.map Prod.fst := h.list
  have hnear := (h.near (i, d) List.mem_cons_self).2
  rw [rtTickMax_half] at hnear
  have hdue : ¬s.tick - (s.timer i).timeoutTick < rtTickMax / 2 := by
    rw [h.tick, h.timeout (i, d) List.mem_cons_self, BitVec.lt_def, rtTickMax_half,
      WrappingCounter.toNat_sub_lt_iff (by omega) (by omega) (by omega)]
    exact Nat.not_le.mpr he
  rw [check, hlist]
  simp only [if_neg hdue]

lemma Rep.expire {e : I × ℕ} (h : Rep s now (e :: q)) :
    Rep (s.expire e.1) now (if s.repeats e.1 then
      StableQueue.enqueue Prod.snd (e.1, now + s.delay e.1) q else q) := by
  have hnodup := h.nodup
  rw [h.list, List.map_cons, List.nodup_cons] at hnodup
  have hfilter : q.filter (fun e' => e'.1 ≠ e.1) = q := by
    refine List.filter_eq_self.mpr ?_
    intro e' he'
    refine decide_eq_true ?_
    intro heq
    exact hnodup.1 (heq ▸ List.mem_map_of_mem he')
  have hdetach := h.detach e.1
  rw [List.filter_cons_of_neg (by simp), hfilter] at hdetach
  rw [Timers.expire]
  split
  · have hstart := hdetach.start e.1
    rw [hfilter, rtTimerDetach_timer_self] at hstart
    exact hstart
  · exact hdetach

/-- **The loop.**  It calls the functions of the timers that are due, in their order, and starts
those that are periodic again. -/
lemma check_due {due : List (I × ℕ)} (h : Rep s now (due ++ q)) (hdue : ∀ e ∈ due, e.2 ≤ now)
    (hq : ∀ e ∈ q, now < e.2) (hn : due.length < n) :
    ∃ s', check f n s w = some (s', (due.map Prod.fst).foldl f w) ∧
      Rep s' now (StableQueue.enqueueAll Prod.snd q
        ((due.filter fun e => s.repeats e.1).map fun e => (e.1, now + s.delay e.1))) ∧
      s'.delay = s.delay ∧ s'.repeats = s.repeats := by
  induction due generalizing s q w n with
  | nil =>
    obtain ⟨m, rfl⟩ := Nat.exists_eq_succ_of_ne_zero (Nat.ne_of_gt hn)
    refine ⟨s, ?_, h, rfl, rfl⟩
    cases q with
    | nil => rw [check, h.list]; rfl
    | cons e q => exact check_of_lt h (hq e List.mem_cons_self)
  | cons e due ih =>
    obtain ⟨m, rfl⟩ := Nat.exists_eq_succ_of_ne_zero (Nat.ne_of_gt (Nat.zero_lt_of_lt hn))
    have he := hdue e List.mem_cons_self
    have hdue' : ∀ e ∈ due, e.2 ≤ now := fun e' he' => hdue e' (List.mem_cons_of_mem e he')
    have hm : due.length < m := Nat.lt_of_succ_lt_succ hn
    rw [List.cons_append] at h
    have hexpire := h.expire
    rw [check_of_le h he]
    cases hi : s.repeats e.1 with
    | false =>
      rw [hi, if_neg Bool.false_ne_true] at hexpire
      have hnext := ih (w := f w e.1) hexpire hdue' hq hm
      rw [expire_delay, expire_repeats] at hnext
      rw [List.filter_cons_of_neg (by simp [hi]), List.map_cons, List.foldl_cons]
      exact hnext
    -- started again it is behind those that are due, so it does not expire once more
    | true =>
      have hpos : 0 < s.delay e.1 := Nat.pos_of_ne_zero fun hzero =>
        (h.valid e.1).2 hi (BitVec.eq_of_toNat_eq hzero)
      have hpass : ∀ e' ∈ due, e'.2 ≤ now + s.delay e.1 := fun e' he' =>
        (hdue' e' he').trans (Nat.le_add_right ..)
      rw [hi, if_pos rfl, StableQueue.enqueue_append hpass] at hexpire
      have hlater : ∀ e' ∈ StableQueue.enqueue Prod.snd (e.1, now + s.delay e.1) q,
          now < e'.2 := by
        intro e' he'
        rcases StableQueue.mem_enqueue.mp he' with rfl | he'
        · exact Nat.lt_add_of_pos_right hpos
        · exact hq e' he'
      have hnext := ih (w := f w e.1) hexpire hdue' hlater hm
      rw [expire_delay, expire_repeats] at hnext
      rw [List.filter_cons_of_pos (by simp [hi]), List.map_cons, List.map_cons, List.foldl_cons]
      exact hnext

end Timers

end HdmiDisplay.Rtos
