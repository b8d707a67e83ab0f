/-
# Threads of one priority

Threads of one priority take turns.  A thread that is ready, with no ready thread of a higher
priority, comes to run after as many interrupts of the clock as the threads ahead of it in its list
have left of their time slices, at most; whatever the threads do meanwhile that run before it, and
also if others of its priority become ready.
-/
import HdmiDisplay.Lib.Turns
import HdmiDisplay.Rtos.Runs

namespace HdmiDisplay.Rtos

variable {T : Type*} [DecidableEq T]

namespace Sched

/-- After how many interrupts the time slice of a thread ends.  The counter has 32 bits and is
counted down before it is compared with zero. -/
def slice (s : Sched T) (t : T) : ℕ := ((s.thread t).remainingTick - 1).toNat + 1

/-- How many interrupts a thread has to wait for at most. -/
def wait (s : Sched T) (t : T) : ℕ :=
  Turns.wait s.slice t (s.ready.list (s.thread t).currentPriority)

/-- No ready thread has a higher priority than this one. -/
def Top (s : Sched T) (p : Priority) : Prop :=
  ∀ u, (s.thread u).stat = .ready → p ≤ (s.thread u).currentPriority

omit [DecidableEq T] in
instance [Fintype T] (s : Sched T) (p : Priority) : Decidable (s.Top p) :=
  inferInstanceAs (Decidable (∀ _, _ → _))

/-- A thread is ready, and the thread that runs has been chosen among those of its priority. -/
structure Turn (s : Sched T) (t : T) : Prop where
  unlocked : s.lockNest = 0
  ready : (s.thread t).stat = .ready
  first : s.First s.current
  same : (s.thread s.current).currentPriority = (s.thread t).currentPriority

/-- A thread is in the list of its priority, and those ahead of it have `n` interrupts left at
most. -/
structure Queued (s : Sched T) (t : T) (p : Priority) (n : ℕ) : Prop where
  inv : s.Inv
  unlocked : s.lockNest = 0
  ready : (s.thread t).stat = .ready
  priority : (s.thread t).currentPriority = p
  wait : Turns.wait s.slice t (s.ready.list p) ≤ n

/-- And the thread that runs is the first one, unless one of a higher priority has become ready. -/
structure Waits (s : Sched T) (t : T) (p : Priority) (n : ℕ) : Prop extends s.Queued t p n where
  first : s.Top p → s.First s.current

variable {s s' : Sched T} {t u : T} {p q : Priority} {n : ℕ} {f : Thread → Thread}

omit [DecidableEq T] in
lemma slice_congr (h : (s'.thread u).remainingTick = (s.thread u).remainingTick) :
    s'.slice u = s.slice u := by
  rw [slice, h, slice]

/-- A counter that is not at its end yet. -/
lemma count_down {b : BitVec 32} (h : b - 1 ≠ 0) : (b - 1 - 1).toNat + 1 = (b - 1).toNat := by
  bv_omega

/-! ### What becomes of a thread in its list -/

lemma Queued.mem (h : s.Queued t p n) : t ∈ s.ready.list p :=
  (h.inv.mem t p).mpr ⟨h.ready, h.priority⟩

lemma Queued.rtSchedule (h : s.Queued t p n) : s.rtSchedule.Waits t p n := by
  have hfirst := h.inv.rtSchedule_first h.unlocked h.ready
  have hinv := h.inv.rtSchedule
  rw [rtSchedule_eq] at hfirst hinv ⊢
  exact ⟨⟨hinv, h.unlocked, h.ready, h.priority, h.wait⟩, fun _ => hfirst⟩

/-- Another thread changes that is not in a list. -/
lemma Queued.modify (h : s.Queued t p n) (hu : (s.thread u).stat ≠ .ready)
    (hinv : (s.modify u f).Inv) : (s.modify u f).Queued t p n := by
  have hother : ∀ v, (s.thread v).stat = .ready → (s.modify u f).thread v = s.thread v := by
    intro v hv
    refine modify_thread_of_ne ?_
    rintro rfl
    exact hu hv
  have ht := hother t h.ready
  refine ⟨hinv, h.unlocked, ht ▸ h.ready, ht ▸ h.priority, ?_⟩
  refine le_trans (le_of_eq (Turns.wait_congr ?_)) h.wait
  intro v hv _
  exact slice_congr (congrArg Thread.remainingTick (hother v ((h.inv.mem v p).mp hv).1))

/-- Another thread comes to the end of a list. -/
lemma Queued.insert (h : s.Queued t p n) (hu : (s.thread u).stat ≠ .ready)
    (hinv : (s.rtScheduleInsertThread u).Inv) : (s.rtScheduleInsertThread u).Queued t p n := by
  have hne : t ≠ u := by
    rintro rfl
    exact hu h.ready
  have ht : (s.rtScheduleInsertThread u).thread t = s.thread t := rtScheduleInsertThread_of_ne hne
  refine ⟨hinv, h.unlocked, ht ▸ h.ready, ht ▸ h.priority, ?_⟩
  have hslice : (s.rtScheduleInsertThread u).slice = s.slice := by
    funext v
    refine slice_congr ?_
    by_cases hv : v = u
    · subst hv
      rw [rtScheduleInsertThread_self]
    · rw [rtScheduleInsertThread_of_ne hv]
  rw [hslice, rtScheduleInsertThread]
  refine le_trans (le_of_eq ?_) h.wait
  by_cases hp : p = ((s.modify u fun u => { u with stat := .ready }).thread u).currentPriority
  · subst hp
    exact (congrArg _ ReadyTable.insert_list_self).trans (Turns.wait_append h.mem _)
  · exact congrArg _ (ReadyTable.insert_list_of_ne hp)

/-- Another thread leaves its list. -/
lemma Queued.remove (h : s.Queued t p n) (hne : t ≠ u)
    (hf : ∀ v, (f v).remainingTick = v.remainingTick)
    (hinv : ((s.rtScheduleRemoveThread u).modify u f).Inv) :
    ((s.rtScheduleRemoveThread u).modify u f).Queued t p n := by
  have ht : ((s.rtScheduleRemoveThread u).modify u f).thread t = s.thread t :=
    modify_thread_of_ne hne
  refine ⟨hinv, h.unlocked, ht ▸ h.ready, ht ▸ h.priority, ?_⟩
  have hslice : ((s.rtScheduleRemoveThread u).modify u f).slice = s.slice := by
    funext v
    refine slice_congr ?_
    by_cases hv : v = u
    · subst hv
      rw [modify_thread_self, hf]
      rfl
    · rw [modify_thread_of_ne hv]
      rfl
  rw [hslice]
  refine le_trans ?_ h.wait
  by_cases hp : p = (s.thread u).currentPriority
  · subst hp
    refine le_trans (le_of_eq (congrArg _ ReadyTable.remove_list_self)) ?_
    exact Turns.wait_erase_le hne.symm
  · exact le_of_eq (congrArg _ (ReadyTable.remove_list_of_ne hp))

lemma Queued.objects {objects : T → Bool} (h : s.Queued t p n) :
    Queued { s with objects := objects } t p n :=
  ⟨⟨h.inv.table, h.inv.mem, h.inv.mask⟩, h.unlocked, h.ready, h.priority, h.wait⟩

omit [DecidableEq T] in
lemma Turn.top (h : s.Turn t) : s.Top (s.thread t).currentPriority := fun u hu =>
  h.same ▸ h.first.le u hu

lemma Turn.waits (h : s.Turn t) (hinv : s.Inv) :
    s.Waits t (s.thread t).currentPriority (s.wait t) :=
  ⟨⟨hinv, h.unlocked, h.ready, rfl, le_rfl⟩, fun _ => h.first⟩

/-! ### The thread that runs -/

/-- The thread that runs is at the head of the list. -/
lemma Waits.head (h : s.Waits t p n) (htop : s.Top p) :
    (s.thread s.current).currentPriority = p ∧ ∃ us, s.ready.list p = s.current :: us := by
  have hfirst := h.first htop
  have hpriority : (s.thread s.current).currentPriority = p :=
    le_antisymm (h.priority ▸ hfirst.le t h.ready) (htop _ hfirst.ready)
  have hhead := hfirst.first
  rw [hpriority] at hhead
  exact ⟨hpriority, List.head?_eq_some_iff.mp hhead⟩

/-- It is still the first one where its own state and the first place of the list are as they
were. -/
lemma Waits.first_of (h : s.Waits t p n) (htop : s.Top p) (hcurrent : s'.current = s.current)
    (hstat : (s'.thread s.current).stat = (s.thread s.current).stat)
    (hpriority : (s'.thread s.current).currentPriority = (s.thread s.current).currentPriority)
    (hhead : (s'.ready.list p).head? = (s.ready.list p).head?) (htop' : s'.Top p) :
    s'.First s'.current := by
  have hfirst := h.first htop
  obtain ⟨hp, -⟩ := h.head htop
  -- its priority is that of the list, and no ready thread has a higher one
  rw [hcurrent]
  refine ⟨hstat.trans hfirst.ready, ?_, ?_⟩
  · rw [hpriority, hp, hhead, ← hp]
    exact hfirst.first
  · intro v hv
    rw [hpriority, hp]
    exact htop' v hv

lemma Waits.modify (h : s.Waits t p n) (htop : s.Top p) (hu : (s.thread u).stat ≠ .ready)
    (hinv : (s.modify u f).Inv) : (s.modify u f).Waits t p n := by
  have hcurrent : (s.modify u f).thread s.current = s.thread s.current := by
    refine modify_thread_of_ne ?_
    intro hc
    exact hu (hc ▸ (h.first htop).ready)
  exact ⟨h.toQueued.modify hu hinv, h.first_of htop rfl (congrArg Thread.stat hcurrent)
    (congrArg Thread.currentPriority hcurrent) rfl⟩

lemma Waits.insert (h : s.Waits t p n) (htop : s.Top p) (hu : (s.thread u).stat ≠ .ready)
    (hinv : (s.rtScheduleInsertThread u).Inv) : (s.rtScheduleInsertThread u).Waits t p n := by
  have hcurrent : (s.rtScheduleInsertThread u).thread s.current = s.thread s.current := by
    refine rtScheduleInsertThread_of_ne ?_
    intro hc
    exact hu (hc ▸ (h.first htop).ready)
  refine ⟨h.toQueued.insert hu hinv, h.first_of htop rfl (congrArg Thread.stat hcurrent)
    (congrArg Thread.currentPriority hcurrent) ?_⟩
  by_cases hp : p = ((s.modify u fun u => { u with stat := .ready }).thread u).currentPriority
  · subst hp
    refine (congrArg List.head? ReadyTable.insert_list_self).trans ?_
    exact List.head?_append_of_ne_nil _ (List.ne_nil_of_mem h.mem)
  · exact congrArg List.head? (ReadyTable.insert_list_of_ne hp)

lemma Top.remove (h : s.Top p) (hf : (f (s.thread u)).stat ≠ .ready) :
    ((s.rtScheduleRemoveThread u).modify u f).Top p := by
  intro v hv
  by_cases hvu : v = u
  · subst hvu
    rw [modify_thread_self] at hv
    exact absurd hv hf
  · rw [modify_thread_of_ne hvu] at hv ⊢
    exact h v hv

lemma Waits.remove (h : s.Waits t p n) (htop : s.Top p) (hne : t ≠ u) (hcurrent : s.current ≠ u)
    (hf : ∀ v, (f v).remainingTick = v.remainingTick)
    (hinv : ((s.rtScheduleRemoveThread u).modify u f).Inv) :
    ((s.rtScheduleRemoveThread u).modify u f).Waits t p n := by
  have hthread : ((s.rtScheduleRemoveThread u).modify u f).thread s.current =
      s.thread s.current := modify_thread_of_ne hcurrent
  refine ⟨h.toQueued.remove hne hf hinv, h.first_of htop rfl (congrArg Thread.stat hthread)
    (congrArg Thread.currentPriority hthread) ?_⟩
  by_cases hp : p = (s.thread u).currentPriority
  · subst hp
    refine (congrArg List.head? ReadyTable.remove_list_self).trans ?_
    obtain ⟨-, us, hlist⟩ := h.head htop
    rw [hlist, List.erase_cons_tail (by simpa using hcurrent), List.head?_cons, List.head?_cons]
  · exact congrArg List.head? (ReadyTable.remove_list_of_ne hp)

/-! ### The functions of the kernel -/

lemma Queued.rtThreadTimeout (h : s.Queued t p n) (hu : (s.thread u).stat = .suspend) :
    (s.rtThreadTimeout u).Waits t p n :=
  (h.insert (by simp [hu]) (h.inv.insert (by simp [hu]) (h.inv.mask u (Or.inr hu)))).rtSchedule

/-- The threads whose timers expire come to the ends of their lists. -/
lemma Waits.timeouts {l : List T} (h : s.Waits t p n) (hl : l.Nodup)
    (hsuspended : ∀ u ∈ l, (s.thread u).stat = .suspend) :
    (l.foldl Sched.rtThreadTimeout s).Waits t p n := by
  induction l generalizing s with
  | nil => exact h
  | cons u l ih =>
    obtain ⟨hu, hl⟩ := List.nodup_cons.mp hl
    refine ih (h.rtThreadTimeout (hsuspended u List.mem_cons_self)) hl ?_
    exact rtThreadTimeout_suspended hu fun v hv => hsuspended v (List.mem_cons_of_mem u hv)

lemma Waits.changePriority (h : s.Waits t p n) (htop : s.Top p) (hne : t ≠ u)
    (hcurrent : s.current ≠ u) : (s.changePriority u q).Waits t p n := by
  by_cases hready : (s.thread u).stat = .ready
  · let f : Thread → Thread := fun u =>
      { u with stat := .suspend, currentPriority := q, numberMask := numberMask q }
    have hinv : ((s.rtScheduleRemoveThread u).modify u f).Inv :=
      h.inv.remove (by simp [f]) hready fun _ => rfl
    -- suspended in between, since it is in no list then
    have hremove := h.remove htop hne hcurrent (f := f) (fun _ => rfl) hinv
    rw [changePriority_of_ready hready]
    exact hremove.insert (htop.remove (by simp [f])) (by simp) (hinv.insert (by simp) (by simp [f]))
  · rw [changePriority_of_not_ready hready]
    exact h.modify htop hready (h.inv.modify hready hready fun _ => rfl)

/-- The first thread gives way to the next ones. -/
lemma rtThreadYield_waits {us : List T} (hinv : s.Inv) (hlock : s.lockNest = 0)
    (hready : (s.thread s.current).stat = .ready)
    (hlist : s.ready.list (s.thread s.current).currentPriority = s.current :: us) (ht : t ∈ us)
    (hwait : Turns.wait s.slice t us ≤ n) :
    s.rtThreadYield.Waits t (s.thread s.current).currentPriority n := by
  have hmem : t ∈ s.ready.list (s.thread s.current).currentPriority :=
    hlist ▸ List.mem_cons_of_mem _ ht
  obtain ⟨htready, htpriority⟩ := (hinv.mem t _).mp hmem
  have hlength : 1 < (s.ready.list (s.thread s.current).currentPriority).length := by
    rw [hlist, List.length_cons]
    exact Nat.succ_lt_succ (List.length_pos_of_mem ht)
  have hcurrent : s.current ∈ s.ready.list (s.thread s.current).currentPriority :=
    hlist ▸ List.mem_cons_self
  have hyield : Sched.Inv { s with
      ready := s.ready.yield (s.thread s.current).currentPriority s.current } :=
    ⟨hinv.table.yield hcurrent, fun u p => (ReadyTable.mem_yield hcurrent).trans (hinv.mem u p),
      hinv.mask⟩
  rw [rtThreadYield, if_pos ⟨hready, hlength⟩]
  refine Queued.rtSchedule ⟨hyield, hlock, htready, htpriority, ?_⟩
  have hafter : (s.ready.yield (s.thread s.current).currentPriority s.current).list
      (s.thread s.current).currentPriority = us ++ [s.current] := by
    rw [ReadyTable.yield, if_pos hlength, hlist, List.erase_cons_head]
    exact Function.update_self ..
  exact (congrArg _ hafter).trans_le ((Turns.wait_append ht _).trans_le hwait)

/-- What is ahead of the thread that waits: the one that runs, and others. -/
lemma Waits.ahead (h : s.Waits t p n) (htop : s.Top p) (hne : s.current ≠ t) :
    ∃ us, s.ready.list p = s.current :: us ∧ t ∈ us ∧ s.current ∉ us ∧
      s.slice s.current + Turns.wait s.slice t us ≤ n := by
  obtain ⟨-, us, hlist⟩ := h.head htop
  have hwait := h.wait
  have hmem := h.mem
  have hnodup := h.inv.table.nodup p
  rw [hlist] at hwait hmem hnodup
  rw [Turns.wait_cons hne] at hwait
  exact ⟨us, hlist, (List.mem_cons.mp hmem).resolve_left hne.symm, (List.nodup_cons.mp hnodup).1,
    hwait⟩

lemma Waits.rtThreadYield (h : s.Waits t p n) (htop : s.Top p) (hne : s.current ≠ t) :
    s.rtThreadYield.Waits t p n := by
  obtain ⟨us, hlist, ht, -, hwait⟩ := h.ahead htop hne
  obtain ⟨rfl, -⟩ := h.head htop
  exact rtThreadYield_waits h.inv h.unlocked (h.first htop).ready hlist ht
    (le_trans (Nat.le_add_left ..) hwait)

/-- An interrupt takes one from the time slice of the thread that runs, and at its end the next
thread has its turn. -/
lemma Waits.timeSlice (h : s.Waits t p n) (htop : s.Top p) (hne : s.current ≠ t) :
    s.timeSlice.Waits t p (n - 1) := by
  obtain ⟨us, hlist, ht, hnot, hwait⟩ := h.ahead htop hne
  obtain ⟨hp, -⟩ := h.head htop
  have hone : 1 ≤ s.slice s.current := Nat.le_add_left ..
  have hothers : ∀ s₁ : Sched T, (∀ v ≠ s.current, s₁.thread v = s.thread v) →
      Turns.wait s₁.slice t us = Turns.wait s.slice t us := by
    intro s₁ hs₁
    refine Turns.wait_congr fun v hv _ => slice_congr ?_
    rw [hs₁ v (fun hvc => hnot (hvc ▸ hv))]
  rw [Sched.timeSlice]
  split
  · next hend =>
    -- the slice is renewed, for the time when the thread is at the head again
    set s₁ := (s.modify s.current fun u => { u with remainingTick := u.remainingTick - 1 }).modify
      s.current fun u => { u with remainingTick := u.initTick } with hs₁
    have hinv : s₁.Inv := (h.inv.modify_slice rfl rfl rfl).modify_slice rfl rfl rfl
    have hself : (s₁.thread s₁.current).stat = .ready ∧
        (s₁.thread s₁.current).currentPriority = p := by
      have hc : s₁.current = s.current := rfl
      rw [hc, hs₁, modify_thread_self, modify_thread_self]
      exact ⟨(h.first htop).ready, hp⟩
    have hother : ∀ v ≠ s.current, s₁.thread v = s.thread v := fun v hv =>
      (modify_thread_of_ne hv).trans (modify_thread_of_ne hv)
    have hle : Turns.wait s₁.slice t us ≤ n - 1 := by
      rw [hothers s₁ hother]
      omega
    have hlist₁ : s₁.ready.list (s₁.thread s₁.current).currentPriority = s₁.current :: us := by
      rw [hself.2]
      exact hlist
    exact hself.2 ▸ rtThreadYield_waits hinv h.unlocked hself.1 hlist₁ ht hle
  · next hmore =>
    set s₁ := s.modify s.current fun u => { u with remainingTick := u.remainingTick - 1 } with hs₁
    have hother : ∀ v ≠ s.current, s₁.thread v = s.thread v := fun v hv => modify_thread_of_ne hv
    have hthread := hother t (Ne.symm hne)
    have hslice : s₁.slice s.current + 1 = s.slice s.current := by
      rw [hs₁, modify_thread_self] at hmore
      rw [slice, hs₁, modify_thread_self, slice, count_down hmore]
    refine ⟨⟨h.inv.modify_slice rfl rfl rfl, h.unlocked, hthread ▸ h.ready,
      hthread ▸ h.priority, ?_⟩, h.first_of htop rfl ?_ ?_ rfl⟩
    · have hlist₁ : s₁.ready.list p = s.current :: us := hlist
      rw [hlist₁, Turns.wait_cons hne, hothers s₁ hother]
      omega
    · rw [hs₁, modify_thread_self]
    · rw [hs₁, modify_thread_self]

end Sched

namespace System

/-- A call does not suspend the thread that waits or the one that runs, does not change their
priorities, and does not lock the scheduler. -/
def Call.Spares (s : System T) (t : T) : Call T → Prop
  | .suspend u | .changePriority u _ => t ≠ u ∧ s.sched.current ≠ u
  | .enterCritical => False
  | _ => True

/-- A step after which there is still no ready thread of a higher priority. -/
structure Undisturbed (t : T) (p : Priority) (s : System T) (c : Call T) (s' : System T) :
    Prop where
  spares : c.Spares s t
  top : s'.sched.Top p

variable {s s' : System T} {a : AlarmClock T} {t : T} {p : Priority} {n : ℕ} {c : Call T}

/-- **One step** of the threads that take turns. -/
lemma Inv.step_waits (h : s.Inv a) (hw : s.sched.Waits t p n) (htop : s.sched.Top p)
    (hne : s.sched.current ≠ t) (hs : System.step s c = some s') (hc : c.Spares s t) :
    s'.sched.Waits t p (n - (decide (c = .tickIncrease)).toNat) := by
  obtain ⟨hallowed, hcall⟩ := step_eq.mp hs
  have hrunning : (s.sched.thread s.sched.current).stat = .ready := (hw.first htop).ready
  cases c with
  | init u q tick =>
    obtain rfl := Option.some_inj.mp hcall
    have hready : (s.sched.thread u).stat ≠ .ready := by rcases hallowed with h | h <;> simp [h]
    -- a thread that is initialized is in no list
    have hmodify := hw.modify htop hready (h.sched.modify (f := fun _ =>
      { stat := .init, initPriority := q, currentPriority := q, numberMask := 0,
        initTick := tick, remainingTick := tick }) hready (by simp) (by simp))
    refine ⟨hmodify.toQueued.objects, fun htop' => ?_⟩
    obtain ⟨hready, hfirst, hle⟩ := hmodify.first htop'
    exact ⟨hready, hfirst, hle⟩
  | startup u =>
    obtain rfl := Option.some_inj.mp hcall
    have hinit : (s.sched.thread u).stat = .init := hallowed
    have hsuspend : (s.sched.modify u Thread.startup).Inv :=
      h.sched.modify (by simp [hinit]) (by simp [Thread.startup]) fun _ => rfl
    have hinv := hsuspend.insert (t := u) (by simp [Thread.startup]) (by simp [Thread.startup])
    have hinsert := (hw.toQueued.modify (by simp [hinit]) hsuspend).insert
      (by simp [Thread.startup]) hinv
    have hresume : (s.rtThreadStartup u).sched =
        ((s.sched.modify u Thread.startup).rtScheduleInsertThread u).rtSchedule := by
      rw [rtThreadStartup, rtThreadResume, if_neg (by simp [Thread.startup])]
      rfl
    rw [hresume]
    exact hinsert.rtSchedule
  | resume u =>
    obtain rfl := Option.some_inj.mp hcall
    rw [rtThreadResume]
    split
    · exact hw
    · next hstat =>
      rw [not_not] at hstat
      exact hw.insert htop (by simp [hstat])
        (h.sched.insert (by simp [hstat]) (h.sched.mask u (Or.inr hstat)))
  | suspend u =>
    obtain rfl := Option.some_inj.mp hcall
    rw [rtThreadSuspend]
    split
    · exact hw
    · next hready =>
      rw [not_not] at hready
      -- it may have been ahead
      exact hw.remove htop hc.1 hc.2 (f := fun u => { u with stat := .suspend }) (fun _ => rfl)
        (h.sched.remove (by simp) hready fun _ => h.sched.mask u (Or.inl hready))
  | changePriority u q =>
    obtain rfl := Option.some_inj.mp hcall
    exact hw.changePriority htop hc.1 hc.2
  | sleep tick =>
    obtain rfl := Option.some_inj.mp hcall
    have hremove := hw.toQueued.remove (u := s.sched.current) (Ne.symm hne)
      (f := fun u => { u with stat := .suspend }) (fun _ => rfl)
      (h.sched.remove (by simp) hrunning fun _ => h.sched.mask _ (Or.inl hrunning))
    have hsleep : (s.rtThreadSleep tick).sched =
        ((s.sched.rtScheduleRemoveThread s.sched.current).modify s.sched.current
          fun u => { u with stat := .suspend }).rtSchedule := by
      rw [rtThreadSleep, rtThreadSuspend, if_neg (by simp [hrunning])]
      rfl
    rw [hsleep]
    exact hremove.rtSchedule
  | exit =>
    obtain rfl := Option.some_inj.mp hcall
    have hremove := hw.toQueued.remove (u := s.sched.current) (Ne.symm hne)
      (f := fun u => { u with stat := .close }) (fun _ => rfl)
      (h.sched.remove (by simp) hrunning (by simp))
    exact hremove.objects.rtSchedule
  | yield =>
    obtain rfl := Option.some_inj.mp hcall
    exact hw.rtThreadYield htop hne
  | schedule =>
    obtain rfl := Option.some_inj.mp hcall
    exact hw.toQueued.rtSchedule
  | enterCritical => exact absurd hc not_false
  | exitCritical =>
    obtain rfl := Option.some_inj.mp hcall
    -- the scheduler is not locked, and the function is an `rt_schedule`
    have hunlocked : s.sched.rtExitCritical = s.sched.rtSchedule := by
      rw [Sched.rtExitCritical, if_pos (by simp [hw.unlocked]), ← hw.unlocked]
    exact hunlocked ▸ hw.toQueued.rtSchedule
  | tickIncrease =>
    obtain ⟨r, hr, -, hsched, hnodup, hsuspended, -⟩ := h.tickIncrease
    obtain rfl := Option.some_inj.mp (hr.symm.trans hcall)
    -- the time slice first, and the timers after it
    rw [hsched]
    exact (hw.timeSlice htop hne).timeouts hnodup
      fun u hu => Sched.timeSlice_thread.1.trans (hsuspended u hu)

/-- A thread that waits while another one runs. -/
structure Pending (t : T) (p : Priority) (s : System T) : Prop where
  inv : ∃ a, s.Inv a
  waits : s.sched.Waits t p (s.sched.wait t)
  top : s.sched.Top p
  waiting : s.sched.current ≠ t

lemma Pending.pos (h : Pending t p s) : 0 < s.sched.wait t := by
  obtain ⟨us, -, -, -, hwait⟩ := h.waits.ahead h.top h.waiting
  have hone : 1 ≤ s.sched.slice s.sched.current := Nat.le_add_left ..
  omega

lemma Pending.step (h : Pending t p s) (hs : System.step s c = some s')
    (hc : Undisturbed t p s c s') (hne : s'.sched.current ≠ t) :
    Pending t p s' ∧ s'.sched.wait t ≤ s.sched.wait t - (decide (c = .tickIncrease)).toNat := by
  obtain ⟨a, hinv⟩ := h.inv
  obtain ⟨a', hinv', -⟩ := hinv.step hs
  have hwaits := hinv.step_waits h.waits h.top h.waiting hs hc.spares
  have hwait : Turns.wait s'.sched.slice t (s'.sched.ready.list p) = s'.sched.wait t := by
    rw [Sched.wait, hwaits.priority]
  refine ⟨⟨⟨a', hinv'⟩, ⟨⟨hwaits.inv, hwaits.unlocked, hwaits.ready, hwaits.priority, hwait.le⟩,
    hwaits.first⟩, hc.top, hne⟩, ?_⟩
  exact hwait ▸ hwaits.wait

/-! ### Runs -/

variable {idle : T} {tick₀ : BitVec 32} {cs : List (Call T)}

end System

end HdmiDisplay.Rtos
