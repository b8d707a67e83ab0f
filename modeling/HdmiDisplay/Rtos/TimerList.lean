/-
# The list of the timers

The functions of `timer.c` with the links of `rt_timer_list`, along which `rt_timer_start` searches
for the position of a timer, and the temporary list of `rt_timer_check`.  They do what the functions
do that have a list in place of the links.
-/
import HdmiDisplay.Rtos.Expiry
import HdmiDisplay.Rtos.RtList
import Mathlib.Data.Fintype.Card

namespace HdmiDisplay.Rtos

/-- `rt_timer_list` and the variable `list` of `rt_timer_check`. -/
inductive TimerHead where
  | rtTimerList
  | list
deriving DecidableEq, Repr

/-- The timers with the links of their nodes `row`, and `rt_tick`. -/
structure LinkedTimers (I : Type*) where
  timer : I → Timer
  links : Links (TimerHead ⊕ I)
  tick : BitVec 32

namespace LinkedTimers

variable {I W : Type*} [DecidableEq I]

/-- A change of one timer. -/
def modify (s : LinkedTimers I) (i : I) (f : Timer → Timer) : LinkedTimers I :=
  { s with timer := Function.update s.timer i (f (s.timer i)) }

/-- `_rt_timer_remove`. -/
def remove (s : LinkedTimers I) (i : I) : LinkedTimers I :=
  { s with links := rtListRemove s.links (.inr i) }

/-- The loop of `rt_timer_start`, for a number of rounds: the node behind which the timer comes.
Behind a node that is not the last one there is a timer. -/
def rowHead (s : LinkedTimers I) (i : I) : ℕ → TimerHead ⊕ I → Option (TimerHead ⊕ I)
  | 0, _ => none
  | n + 1, row =>
      if row ≠ s.links.prev (.inl .rtTimerList) then
        match s.links.next row with
        | .inl _ => none
        | .inr t =>
            if (s.timer t).timeoutTick - (s.timer i).timeoutTick = 0 then s.rowHead i n (.inr t)
            else if (s.timer t).timeoutTick - (s.timer i).timeoutTick < rtTickMax / 2 then some row
            else s.rowHead i n (.inr t)
      else some row

/-- `rt_timer_start`, with a number of rounds for its loop. -/
def rtTimerStart (rounds : ℕ) (s : LinkedTimers I) (i : I) : Option (LinkedTimers I) :=
  let s := (s.remove i).modify i fun t => { t with activated := false }
  let s := s.modify i fun t => { t with timeoutTick := s.tick + t.initTick }
  (s.rowHead i rounds (.inl .rtTimerList)).map fun row =>
    { s with links := rtListInsertAfter s.links row (.inr i) }.modify i fun t =>
      { t with activated := true }

/-- `rt_timer_stop`. -/
def rtTimerStop (s : LinkedTimers I) (i : I) : LinkedTimers I × RtErr :=
  if (s.timer i).activated = false then (s, .error)
  else ((s.remove i).modify i fun t => { t with activated := false }, .eok)

/-- `rt_timer_detach`, without the object. -/
def rtTimerDetach (s : LinkedTimers I) (i : I) : LinkedTimers I :=
  (s.remove i).modify i fun t => { t with activated := false }

/-- `rt_timer_control`. -/
def rtTimerControl (s : LinkedTimers I) (i : I) : TimerCtrl → LinkedTimers I
  | .setTime tick => s.modify i fun t => { t with initTick := tick }
  | .setOneshot => s.modify i fun t => { t with periodic := false }
  | .setPeriodic => s.modify i fun t => { t with periodic := true }

/-- The loop of `rt_timer_check`, for a number of rounds. -/
def check (timeoutFunc : W → I → W) (rounds : ℕ) :
    ℕ → LinkedTimers I → W → Option (LinkedTimers I × W)
  | 0, _, _ => none
  | n + 1, s, w =>
      if rtListIsempty s.links (.inl .rtTimerList) then some (s, w)
      else
        match s.links.next (.inl .rtTimerList) with
        | .inl _ => none
        | .inr t =>
            if s.tick - (s.timer t).timeoutTick < rtTickMax / 2 then
              let s := s.remove t
              let s := if (s.timer t).periodic then s
                else s.modify t fun t => { t with activated := false }
              let s := { s with links := rtListInsertAfter s.links (.inl .list) (.inr t) }
              let w := timeoutFunc w t
              if rtListIsempty s.links (.inl .list) then check timeoutFunc rounds n s w
              else
                let s := s.remove t
                if (s.timer t).periodic ∧ (s.timer t).activated then
                  ((s.modify t fun t => { t with activated := false }).rtTimerStart rounds t).bind
                    fun s => check timeoutFunc rounds n s w
                else check timeoutFunc rounds n s w
            else some (s, w)

/-- What `rt_tick_increase` does to the timers. -/
def tickIncrease (timeoutFunc : W → I → W) (rounds : ℕ) (s : LinkedTimers I) (w : W) :
    Option (LinkedTimers I × W) :=
  check timeoutFunc rounds rounds
    { s with tick := s.tick + 1, links := rtListInit s.links (.inl .list) } w

/-- One call, and the timers whose functions it calls, in this order. -/
def step (rounds : ℕ) (s : LinkedTimers I) : Timers.Call I → Option (LinkedTimers I × List I)
  | .start i => (s.rtTimerStart rounds i).map fun s => (s, [])
  | .stop i => some ((s.rtTimerStop i).1, [])
  | .detach i => some (s.rtTimerDetach i, [])
  | .control i cmd => some (s.rtTimerControl i cmd, [])
  | .tickIncrease => s.tickIncrease (fun is i => is ++ [i]) rounds []

/-! ### The links form the list -/

/-- The list of the timers, and a temporary list. -/
def lists (xs ys : List I) : TimerHead → List I
  | .rtTimerList => xs
  | .list => ys

/-- The links form the list of the timers. -/
structure Holds (s : LinkedTimers I) (s' : Timers I) : Prop where
  timer : s.timer = s'.timer
  links : s.links.Holds (lists s'.list [])
  tick : s.tick = s'.tick

variable {s : LinkedTimers I} {s' : Timers I} {i : I} {xs ys zs : List I} {f : Timer → Timer}
  {n rounds : ℕ}

omit [DecidableEq I] in
@[simp] lemma update_lists_rtTimerList (zs : List I) :
    Function.update (lists xs ys) .rtTimerList zs = lists zs ys := by
  funext l
  cases l <;> rfl

omit [DecidableEq I] in
@[simp] lemma update_lists_list (zs : List I) :
    Function.update (lists xs ys) .list zs = lists xs zs := by
  funext l
  cases l <;> rfl

omit [DecidableEq I] in
lemma notMem_lists (hxs : i ∉ xs) (hys : i ∉ ys) : ∀ l, i ∉ lists xs ys l := by
  intro l
  cases l
  · exact hxs
  · exact hys

lemma Holds.modify (h : s.Holds s') (i : I) (f : Timer → Timer) :
    (s.modify i f).Holds (s'.modify i f) := by
  refine ⟨?_, h.links, h.tick⟩
  rw [LinkedTimers.modify, Timers.modify, h.timer]

omit [DecidableEq I] in
lemma Holds.nodup (h : s.Holds s') : s'.list.Nodup :=
  (List.nodup_cons.mp (h.links.ring .rtTimerList).nodup).2.of_map _

lemma Holds.remove (h : s.Holds s') (i : I) : (s.remove i).Holds (s'.remove i) := by
  refine ⟨h.timer, ?_, h.tick⟩
  rw [LinkedTimers.remove, rtListRemove_eq]
  by_cases hi : i ∈ s'.list
  · have hremove := h.links.remove_mem (l := .rtTimerList) hi
    rwa [update_lists_rtTimerList] at hremove
  · rw [h.links.remove_free (notMem_lists hi List.not_mem_nil), Timers.remove,
      List.erase_of_not_mem hi]
    exact h.links

/-- The position that the loop finds. -/
lemma Holds.rowHead (h : s.Holds s') (hlist : s'.list = xs ++ ys) (hn : ys.length < n) :
    ∃ us vs, xs ++ ys = us ++ vs ∧
      s.rowHead i n (Links.Holds.node .rtTimerList xs) =
        some (Links.Holds.node .rtTimerList us) ∧
      us ++ i :: vs = xs ++ Timers.insertTimer (fun t => (s'.timer t).timeoutTick) i ys := by
  induction ys generalizing xs n with
  | nil =>
    obtain ⟨k, rfl⟩ := Nat.exists_eq_add_of_lt hn
    refine ⟨xs, [], rfl, ?_, rfl⟩
    -- the last node before the header ends the loop
    have hprev := h.links.prev_header .rtTimerList
    rw [show lists s'.list [] TimerHead.rtTimerList = xs by rw [← List.append_nil xs]; exact hlist]
      at hprev
    rw [List.length_nil, Nat.zero_add, LinkedTimers.rowHead, if_neg (not_not_intro hprev.symm)]
  | cons y ys ih =>
    obtain ⟨k, rfl⟩ := Nat.exists_eq_add_of_lt hn
    have hlists : lists s'.list [] TimerHead.rtTimerList = xs ++ y :: ys := hlist
    have hrest : ∃ us vs, xs ++ y :: ys = us ++ vs ∧
        s.rowHead i ((y :: ys).length + k) (.inr y) = some (Links.Holds.node .rtTimerList us) ∧
        us ++ i :: vs =
          xs ++ y :: Timers.insertTimer (fun t => (s'.timer t).timeoutTick) i ys := by
      have hmore : s'.list = (xs ++ [y]) ++ ys := by
        rw [hlist, List.append_assoc, List.singleton_append]
      have hnext := ih hmore (n := (y :: ys).length + k) (by rw [List.length_cons]; omega)
      rwa [Links.Holds.node_concat, List.append_assoc, List.singleton_append, List.append_assoc,
        List.singleton_append] at hnext
    rw [LinkedTimers.rowHead, if_pos (h.links.node_ne_prev hlists), h.links.next_node hlists,
      h.timer, Timers.insertTimer]
    dsimp only
    -- timers of the same time stay in the order of their starts, so the loop passes them
    by_cases hzero : (s'.timer y).timeoutTick - (s'.timer i).timeoutTick = 0
    · rwa [if_pos hzero, if_pos hzero]
    by_cases hlt : (s'.timer y).timeoutTick - (s'.timer i).timeoutTick < rtTickMax / 2
    · rw [if_neg hzero, if_pos hlt, if_neg hzero, if_pos hlt]
      exact ⟨xs, y :: ys, rfl, rfl, rfl⟩
    · rwa [if_neg hzero, if_neg hlt, if_neg hzero, if_neg hlt]

/-- A timer is put behind the node that the loop finds. -/
lemma Holds.insertTimer (h : s.Holds s') (hi : i ∉ s'.list) (hn : s'.list.length < n) :
    ∃ row, s.rowHead i n (.inl .rtTimerList) = some row ∧
      Holds { s with links := rtListInsertAfter s.links row (.inr i) }
        { s' with list := Timers.insertTimer (fun t => (s'.timer t).timeoutTick) i s'.list } := by
  have hall : s'.list = [] ++ s'.list := rfl
  obtain ⟨us, vs, hlist, hrow, hinsert⟩ := h.rowHead (i := i) hall hn
  refine ⟨_, hrow, h.timer, ?_, h.tick⟩
  have hlists : lists s'.list [] TimerHead.rtTimerList = us ++ vs := hlist
  have hlinks := h.links.insertAfter_node (notMem_lists hi List.not_mem_nil) hlists
  rwa [update_lists_rtTimerList, hinsert] at hlinks

lemma Holds.rtTimerStart (h : s.Holds s') (i : I) (hn : s'.list.length < rounds) :
    ∃ t, s.rtTimerStart rounds i = some t ∧ t.Holds (s'.rtTimerStart i) := by
  have hremove := (h.remove i).modify i fun t => { t with activated := false }
  have hset := hremove.modify i fun t => { t with timeoutTick := s'.tick + t.initTick }
  have hlen : (s'.list.erase i).length < rounds :=
    Nat.lt_of_le_of_lt List.erase_sublist.length_le hn
  obtain ⟨row, hrow, hinsert⟩ := hset.insertTimer h.nodup.not_mem_erase hlen
  refine ⟨_, ?_, hinsert.modify i fun t => { t with activated := true }⟩
  rw [← h.tick] at hrow ⊢
  exact Option.map_eq_some_iff.mpr ⟨row, hrow, rfl⟩

lemma Holds.rtTimerStop (h : s.Holds s') (i : I) :
    (s.rtTimerStop i).1.Holds (s'.rtTimerStop i).1 ∧
      (s.rtTimerStop i).2 = (s'.rtTimerStop i).2 := by
  rw [LinkedTimers.rtTimerStop, Timers.rtTimerStop, h.timer]
  split
  · exact ⟨h, rfl⟩
  · exact ⟨(h.remove i).modify i fun t => { t with activated := false }, rfl⟩

lemma Holds.rtTimerDetach (h : s.Holds s') (i : I) :
    (s.rtTimerDetach i).Holds (s'.rtTimerDetach i) :=
  (h.remove i).modify i fun t => { t with activated := false }

lemma Holds.rtTimerControl (h : s.Holds s') (i : I) (cmd : TimerCtrl) :
    (s.rtTimerControl i cmd).Holds (s'.rtTimerControl i cmd) := by
  cases cmd with
  | setTime tick => exact h.modify i fun t => { t with initTick := tick }
  | setOneshot => exact h.modify i fun t => { t with periodic := false }
  | setPeriodic => exact h.modify i fun t => { t with periodic := true }

lemma Holds.isempty (h : s.Holds s') :
    rtListIsempty s.links (.inl .rtTimerList) = true ↔ s'.list = [] := by
  rw [rtListIsempty_iff (h.links.ring .rtTimerList), List.map_eq_nil_iff, lists]

/-- A timer on the temporary list is the only one there, and is taken off. -/
lemma Holds.temporary (h : s.Holds s') (hi : i ∉ s'.list) :
    rtListIsempty (rtListInsertAfter s.links (.inl .list) (.inr i)) (.inl .list) = false ∧
      Holds { s with
        links := rtListRemove (rtListInsertAfter s.links (.inl .list) (.inr i)) (.inr i) } s' := by
  have hinsert := h.links.insertAfter (notMem_lists hi List.not_mem_nil) .list
  rw [update_lists_list, ← rtListInsertAfter_eq] at hinsert
  refine ⟨?_, h.timer, ?_, h.tick⟩
  · rw [← Bool.not_eq_true, rtListIsempty_iff (hinsert.ring .list)]
    exact List.cons_ne_nil _ _
  · have hremove := hinsert.remove_mem (l := .list) List.mem_cons_self
    rwa [update_lists_list, lists, List.erase_cons_head, ← rtListRemove_eq] at hremove

/-- A timer that expires is taken off the list. -/
lemma Holds.takeOff (h : s.Holds s') (i : I) :
    Holds (if ((s.remove i).timer i).periodic = true then s.remove i
        else (s.remove i).modify i fun t => { t with activated := false })
      (if ((s'.remove i).timer i).periodic = true then s'.remove i
        else (s'.remove i).modify i fun t => { t with activated := false }) ∧
    i ∉ (if ((s'.remove i).timer i).periodic = true then s'.remove i
        else (s'.remove i).modify i fun t => { t with activated := false }).list := by
  have hremove := h.remove i
  rw [hremove.timer]
  split
  · exact ⟨hremove, h.nodup.not_mem_erase⟩
  · exact ⟨hremove.modify i fun t => { t with activated := false }, h.nodup.not_mem_erase⟩

lemma Holds.init (h : s.Holds s') :
    Holds { s with tick := s.tick + 1, links := rtListInit s.links (.inl .list) }
      { s' with tick := s'.tick + 1 } := by
  refine ⟨h.timer, ?_, congrArg (· + 1) h.tick⟩
  obtain ⟨hnext, hprev⟩ := (h.links.ring .list).path
  rw [rtListInit, setPrev, setNext, Function.update_eq_self_iff.mpr hnext.symm,
    Function.update_eq_self_iff.mpr hprev.symm]
  exact h.links

/-- The timers, none of which is linked yet. -/
def ofTimers (s : Timers I) : LinkedTimers I := ⟨s.timer, Links.alone, s.tick⟩

omit [DecidableEq I] in
lemma holds_ofTimers (h : s'.Fresh) : (ofTimers s').Holds s' := by
  refine ⟨rfl, ?_, rfl⟩
  have hlists : lists s'.list [] = fun _ => [] := by
    funext l
    cases l
    · exact h.list
    · rfl
  rw [hlists]
  exact Links.holds_alone

section Runs

variable [Fintype I] {timeoutFunc : W → I → W} {w w' : W} {t' : Timers I} {m : ℕ}
  {c : Timers.Call I} {cs : List (Timers.Call I)} {is : List I} {fired : List (List I)}

omit [DecidableEq I] in
lemma Holds.length_lt (h : s.Holds s') (hrounds : Fintype.card I < rounds) :
    s'.list.length < rounds := Nat.lt_of_le_of_lt h.nodup.length_le_card hrounds

/-- Each round of the loop of `rt_timer_check` does the same. -/
lemma Holds.check (h : s.Holds s') (hrounds : Fintype.card I < rounds)
    (hcheck : Timers.check timeoutFunc n s' w = some (t', w')) (hm : n ≤ m) :
    ∃ t, LinkedTimers.check timeoutFunc rounds m s w = some (t, w') ∧ t.Holds t' := by
  induction n generalizing s s' w m with
  | zero => exact absurd hcheck (Option.some_ne_none _).symm
  | succ n ih =>
    obtain ⟨m, rfl⟩ := Nat.exists_eq_add_of_lt hm
    rw [Timers.check] at hcheck
    rw [LinkedTimers.check]
    cases hlist : s'.list with
    | nil =>
      rw [hlist, Option.some_inj, Prod.mk.injEq] at hcheck
      obtain ⟨rfl, rfl⟩ := hcheck
      rw [if_pos (h.isempty.mpr hlist)]
      exact ⟨s, rfl, h⟩
    | cons i is =>
      have hlists : lists s'.list [] TimerHead.rtTimerList = [] ++ i :: is := hlist
      have hnext : s.links.next (.inl .rtTimerList) = .inr i := h.links.next_node hlists
      rw [hlist] at hcheck
      rw [if_neg (mt h.isempty.mp (hlist ▸ List.cons_ne_nil i is)), hnext]
      dsimp only at hcheck ⊢
      rw [h.timer, h.tick]
      by_cases hdue : s'.tick - (s'.timer i).timeoutTick < rtTickMax / 2
      · rw [if_pos hdue] at hcheck ⊢
        -- the timer is on the temporary list while its function is called
        obtain ⟨hoff, hfree⟩ := h.takeOff i
        generalize (if ((s.remove i).timer i).periodic = true then s.remove i
          else (s.remove i).modify i fun t => { t with activated := false }) = s₁ at hoff ⊢
        generalize (if ((s'.remove i).timer i).periodic = true then s'.remove i
          else (s'.remove i).modify i fun t => { t with activated := false }) = s₁'
          at hoff hfree hcheck
        obtain ⟨htemp, hback⟩ := hoff.temporary hfree
        rw [htemp, if_neg Bool.false_ne_true, LinkedTimers.remove, hoff.timer]
        -- the function may have stopped the timer or made it one-shot
        by_cases hagain : (s₁'.timer i).periodic = true ∧ (s₁'.timer i).activated = true
        · rw [if_pos hagain] at hcheck ⊢
          obtain ⟨u, hu, hstart⟩ :=
            (hback.modify i fun t => { t with activated := false }).rtTimerStart i
              (hback.length_lt hrounds)
          rw [hoff.timer] at hu
          rw [hu, Option.bind_some]
          exact ih hstart hcheck (by omega)
        · rw [if_neg hagain] at hcheck ⊢
          rw [hoff.timer] at hback
          exact ih hback hcheck (by omega)
      · rw [if_neg hdue] at hcheck ⊢
        rw [Option.some_inj, Prod.mk.injEq] at hcheck
        obtain ⟨rfl, rfl⟩ := hcheck
        exact ⟨s, rfl, h⟩

lemma Holds.step (h : s.Holds s') (hrounds : Fintype.card I < rounds)
    (hstep : s'.step c = some (t', is)) :
    ∃ t, s.step rounds c = some (t, is) ∧ t.Holds t' := by
  cases c with
  | start i =>
    obtain ⟨rfl, rfl⟩ := Prod.mk.inj (Option.some.inj hstep)
    obtain ⟨t, ht, hholds⟩ := h.rtTimerStart i (h.length_lt hrounds)
    exact ⟨t, Option.map_eq_some_iff.mpr ⟨t, ht, rfl⟩, hholds⟩
  | stop i =>
    obtain ⟨rfl, rfl⟩ := Prod.mk.inj (Option.some.inj hstep)
    exact ⟨_, rfl, (h.rtTimerStop i).1⟩
  | detach i =>
    obtain ⟨rfl, rfl⟩ := Prod.mk.inj (Option.some.inj hstep)
    exact ⟨_, rfl, h.rtTimerDetach i⟩
  | control i cmd =>
    obtain ⟨rfl, rfl⟩ := Prod.mk.inj (Option.some.inj hstep)
    exact ⟨_, rfl, h.rtTimerControl i cmd⟩
  | tickIncrease =>
    exact h.init.check hrounds hstep (h.length_lt hrounds)

lemma Holds.trace (h : s.Holds s') (hrounds : Fintype.card I < rounds)
    (htrace : Transition.trace Timers.step s' cs = some (t', fired)) :
    ∃ t, Transition.trace (LinkedTimers.step rounds) s cs = some (t, fired) ∧ t.Holds t' := by
  induction cs generalizing s s' fired with
  | nil =>
    obtain ⟨rfl, rfl⟩ := Prod.mk.inj (Option.some.inj htrace)
    exact ⟨s, rfl, h⟩
  | cons c cs ih =>
    obtain ⟨s₁', is, fired', hstep, hrest, rfl⟩ := Transition.trace_cons.mp htrace
    obtain ⟨s₁, hs₁, h₁⟩ := h.step hrounds hstep
    obtain ⟨t, ht, hholds⟩ := ih h₁ hrest
    exact ⟨t, Transition.trace_cons.mpr ⟨s₁, is, fired', hs₁, ht, rfl⟩, hholds⟩

/-- **The list of the timers.**  In every run the loops of `rt_timer_start` and `rt_timer_check` end
after no more rounds than there are timers, and one, and the links do what the list does: each
interrupt of the clock calls the same functions, and from `rt_timer_list` the timers are linked in
the order of the list and back. -/
theorem timer_list (hrounds : Fintype.card I < rounds) (h : s'.Fresh)
    (hcs : Timers.AllowedRun s' cs) : ∃ t t' fired,
    Transition.trace Timers.step s' cs = some (t', fired) ∧
    Transition.trace (step rounds) (ofTimers s') cs = some (t, fired) ∧
    t.timer = t'.timer ∧ t.tick = t'.tick ∧
    t.links.Path (.inl .rtTimerList) (t'.list.map .inr) (.inl .rtTimerList) := by
  obtain ⟨t', a', htrace, -⟩ := h.shows.trace hcs
  obtain ⟨t, ht, hholds⟩ := (holds_ofTimers h).trace hrounds htrace
  exact ⟨t, t', _, htrace, ht, hholds.timer, hholds.tick, (hholds.links.ring .rtTimerList).path⟩

/-- A timer that is periodic is the only one on the list after the other one has expired. -/
theorem timer_list_wrapping : ∃ t,
    Transition.trace (step 3) (ofTimers Timers.wrapping)
      [.start false, .start true, .tickIncrease, .tickIncrease, .tickIncrease] =
        some (t, [[], [], [], [true], [false]]) ∧
    t.links.Path (.inl .rtTimerList) [.inr true] (.inl .rtTimerList) := by
  have htrace : ∃ t' : Timers Bool, Transition.trace Timers.step Timers.wrapping
      [.start false, .start true, .tickIncrease, .tickIncrease, .tickIncrease] =
        some (t', [[], [], [], [true], [false]]) ∧ t'.list = [true] := ⟨_, rfl, rfl⟩
  have hfresh : Timers.wrapping.Fresh := ⟨rfl, fun _ => rfl, by decide⟩
  have hallowed : Timers.AllowedRun Timers.wrapping
      [.start false, .start true, .tickIncrease, .tickIncrease, .tickIncrease] := by decide
  have hrounds : Fintype.card Bool < 3 := by decide
  obtain ⟨t, t', fired, htimers, ht, -, -, hpath⟩ := timer_list hrounds hfresh hallowed
  obtain ⟨u', hu', hlist⟩ := htrace
  obtain ⟨rfl, rfl⟩ := Prod.mk.inj (Option.some.inj (htimers.symm.trans hu'))
  rw [hlist] at hpath
  exact ⟨t, ht, hpath⟩

end Runs

end LinkedTimers

end HdmiDisplay.Rtos
