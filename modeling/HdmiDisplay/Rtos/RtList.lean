/-
# The lists of the kernel

The functions of `rtservice.h` for lists, which are rings of nodes with links in both directions,
and the ready table with such lists.  The headers and the threads are the nodes; that the table of
lists is what the kernel computes with its links is a refinement.
-/
import HdmiDisplay.Lib.Ring
import HdmiDisplay.Lib.Transition
import HdmiDisplay.Rtos.ReadyTable

namespace HdmiDisplay.Rtos

section Links

variable {α : Type*} [DecidableEq α]

/-- `a->next = b`. -/
def setNext (s : Links α) (a b : α) : Links α := { s with next := Function.update s.next a b }

/-- `a->prev = b`. -/
def setPrev (s : Links α) (a b : α) : Links α := { s with prev := Function.update s.prev a b }

/-- `rt_list_init`. -/
def rtListInit (s : Links α) (l : α) : Links α := setNext (setPrev s l l) l l

/-- `rt_list_insert_after`. -/
def rtListInsertAfter (s : Links α) (l n : α) : Links α :=
  let s := setPrev s (s.next l) n
  let s := setNext s n (s.next l)
  let s := setNext s l n
  setPrev s n l

/-- `rt_list_insert_before`. -/
def rtListInsertBefore (s : Links α) (l n : α) : Links α :=
  let s := setNext s (s.prev l) n
  let s := setPrev s n (s.prev l)
  let s := setPrev s l n
  setNext s n l

/-- `rt_list_remove`. -/
def rtListRemove (s : Links α) (n : α) : Links α :=
  let s := setPrev s (s.next n) (s.prev n)
  let s := setNext s (s.prev n) (s.next n)
  let s := setPrev s n n
  setNext s n n

/-- `rt_list_isempty`. -/
def rtListIsempty (s : Links α) (l : α) : Bool := s.next l = l

variable {s : Links α} {l : α} {xs : List α}

lemma rtListInsertAfter_eq (s : Links α) (l n : α) : rtListInsertAfter s l n = s.insertAfter l n :=
  rfl

lemma rtListInsertBefore_eq (s : Links α) (l n : α) :
    rtListInsertBefore s l n = s.insertBefore l n := rfl

/-- The link to the previous node is still there when it is read the second time. -/
lemma rtListRemove_eq (s : Links α) (n : α) : rtListRemove s n = s.remove n := by
  have hprev : (setPrev s (s.next n) (s.prev n)).prev n = s.prev n := by
    by_cases h : n = s.next n
    · exact (congrArg _ h).trans (Function.update_self ..)
    · exact Function.update_of_ne h ..
  rw [rtListRemove, hprev]
  rfl

lemma rtListIsempty_iff (h : s.IsRing l xs) : rtListIsempty s l = true ↔ xs = [] := by
  rw [rtListIsempty, decide_eq_true_eq]
  exact h.next_eq_iff

end Links

/-! ### The ready table -/

/-- `rt_thread_priority_table`, with the nodes `tlist` of the threads, and
`rt_thread_ready_priority_group`. -/
structure LinkedTable (T : Type*) where
  links : Links (Priority ⊕ T)
  group : BitVec 32

/-- The calls that change the table, for a thread with a priority.  Its `number_mask` is the bit of
the priority. -/
inductive TableCall (T : Type*) where
  | insert (p : Priority) (t : T)
  | remove (p : Priority) (t : T)
  | yield (p : Priority) (t : T)

variable {T : Type*} [DecidableEq T]

namespace LinkedTable

/-- The table after `rt_system_scheduler_init`, and threads that are in no list. -/
def init : LinkedTable T := ⟨Links.alone, 0⟩

/-- What `rt_schedule_insert_thread` does to the table. -/
def insert (r : LinkedTable T) (p : Priority) (mask : BitVec 32) (t : T) : LinkedTable T where
  links := rtListInsertBefore r.links (.inl p) (.inr t)
  group := r.group ||| mask

/-- `rt_schedule_remove_thread`. -/
def remove (r : LinkedTable T) (p : Priority) (mask : BitVec 32) (t : T) : LinkedTable T :=
  let links := rtListRemove r.links (.inr t)
  { links, group := if rtListIsempty links (.inl p) then r.group &&& ~~~mask else r.group }

/-- What `rt_thread_yield` does to the table. -/
def yield (r : LinkedTable T) (p : Priority) (t : T) : LinkedTable T :=
  if r.links.next (.inr t) ≠ r.links.prev (.inr t) then
    let links := rtListRemove r.links (.inr t)
    { r with links := rtListInsertBefore links (.inl p) (.inr t) }
  else r

/-- `to_thread` of `rt_schedule`, unless the table is empty. -/
def toThread (r : LinkedTable T) : Option T :=
  let highestReadyPriority : BitVec 32 := BitVec.ofNat 32 (rtFfs r.group) - 1
  if h : highestReadyPriority.toNat < rtThreadPriorityMax then
    (r.links.next (.inl ⟨highestReadyPriority.toNat, h⟩)).getRight?
  else none

/-- A call. -/
def call (r : LinkedTable T) : TableCall T → LinkedTable T
  | .insert p t => r.insert p (numberMask p) t
  | .remove p t => r.remove p (numberMask p) t
  | .yield p t => r.yield p t

end LinkedTable

namespace ReadyTable

/-- The table without threads. -/
def empty : ReadyTable T := ⟨fun _ => [], 0⟩

/-- A call, for a thread that is in no list or in the one of the priority. -/
def call (r : ReadyTable T) : TableCall T → Option (ReadyTable T)
  | .insert p t => if ∀ q, t ∉ r.list q then some (r.insert p (numberMask p) t) else none
  | .remove p t => if t ∈ r.list p then some (r.remove p (numberMask p) t) else none
  | .yield p t => if t ∈ r.list p then some (r.yield p t) else none

variable {r r' : ReadyTable T} {c : TableCall T} {cs : List (TableCall T)}

omit [DecidableEq T] in
lemma consistent_empty : (empty : ReadyTable T).Consistent := by
  refine ⟨fun p => ?_, fun i _ => ?_, fun p => List.nodup_nil⟩
  · simp [empty]
  · simp [empty]

lemma call_insert {p : Priority} {t : T} : r.call (.insert p t) = some r' ↔
    (∀ q, t ∉ r.list q) ∧ r.insert p (numberMask p) t = r' := by
  rw [call, Option.ite_none_right_eq_some, Option.some_inj]

lemma call_remove {p : Priority} {t : T} : r.call (.remove p t) = some r' ↔
    t ∈ r.list p ∧ r.remove p (numberMask p) t = r' := by
  rw [call, Option.ite_none_right_eq_some, Option.some_inj]

lemma call_yield {p : Priority} {t : T} : r.call (.yield p t) = some r' ↔
    t ∈ r.list p ∧ r.yield p t = r' := by
  rw [call, Option.ite_none_right_eq_some, Option.some_inj]

/-- A call keeps the bits of the lists that are not empty. -/
lemma Consistent.call (h : r.Consistent) (hc : r.call c = some r') : r'.Consistent := by
  cases c with
  | insert p t =>
    obtain ⟨hfree, rfl⟩ := call_insert.mp hc
    exact h.insert (hfree p)
  | remove p t =>
    obtain ⟨-, rfl⟩ := call_remove.mp hc
    exact h.remove
  | yield p t =>
    obtain ⟨hmem, rfl⟩ := call_yield.mp hc
    exact h.yield hmem

end ReadyTable

namespace LinkedTable

/-- The links form the lists of a table. -/
structure Holds (r : LinkedTable T) (r' : ReadyTable T) : Prop where
  links : r.links.Holds r'.list
  group : r.group = r'.group

variable {r : LinkedTable T} {r' : ReadyTable T} {p : Priority} {mask : BitVec 32} {t : T}
  {c : TableCall T} {cs : List (TableCall T)}

omit [DecidableEq T] in
lemma holds_init : (init : LinkedTable T).Holds ReadyTable.empty := ⟨Links.holds_alone, rfl⟩

lemma Holds.isempty (h : r.Holds r') (p : Priority) :
    rtListIsempty r.links (.inl p) = true ↔ r'.list p = [] := by
  rw [rtListIsempty_iff (h.links.ring p), List.map_eq_nil_iff]

lemma Holds.insert (h : r.Holds r') (ht : ∀ q, t ∉ r'.list q) :
    (r.insert p mask t).Holds (r'.insert p mask t) :=
  ⟨h.links.insertBefore ht p, congrArg (· ||| mask) h.group⟩

lemma Holds.remove (h : r.Holds r') (ht : t ∈ r'.list p) :
    (r.remove p mask t).Holds (r'.remove p mask t) := by
  have hlinks : (rtListRemove r.links (.inr t)).Holds (r'.remove p mask t).list := by
    rw [rtListRemove_eq]
    exact h.links.remove_mem ht
  have hempty : rtListIsempty (rtListRemove r.links (.inr t)) (.inl p) = true ↔
      (r'.list p).erase t = [] := by
    rw [rtListIsempty_iff (hlinks.ring p), List.map_eq_nil_iff, ReadyTable.remove_list_self]
  refine ⟨hlinks, ?_⟩
  rw [LinkedTable.remove, ReadyTable.remove]
  dsimp only
  rw [h.group]
  exact if_congr hempty rfl rfl

omit [DecidableEq T] in
/-- The neighbours of a thread in its list differ if it is not the only one. -/
lemma Holds.next_ne_prev_iff (h : r.Holds r') (ht : t ∈ r'.list p) :
    r.links.next (.inr t) ≠ r.links.prev (.inr t) ↔ 1 < (r'.list p).length := by
  obtain ⟨xs, ys, hl⟩ := List.append_of_mem ht
  have hring := h.links.ring p
  rw [hl, List.map_append, List.map_cons] at hring
  rw [Ne, hring.rotate.next_eq_prev_iff, hl]
  simp only [List.length_append, List.length_cons, List.length_map]
  omega

lemma Holds.yield (h : r.Holds r') (ht : t ∈ r'.list p) : (r.yield p t).Holds (r'.yield p t) := by
  rw [LinkedTable.yield, ReadyTable.yield]
  by_cases hlen : 1 < (r'.list p).length
  · rw [if_pos hlen, if_pos ((h.next_ne_prev_iff ht).mpr hlen)]
    have hremove := h.links.remove_mem ht
    have hfree : ∀ q, t ∉ Function.update r'.list p ((r'.list p).erase t) q := by
      intro q hmem
      by_cases hq : q = p
      · subst hq
        rw [Function.update_self] at hmem
        have hnodup := (List.nodup_cons.mp (h.links.ring q).nodup).2
        exact (hnodup.of_map _).not_mem_erase hmem
      · rw [Function.update_of_ne hq] at hmem
        exact hq (h.links.apart t q p hmem ht)
    have hlinks := hremove.insertBefore hfree p
    rw [Function.update_self, Function.update_idem, ← rtListRemove_eq,
      ← rtListInsertBefore_eq] at hlinks
    exact ⟨hlinks, h.group⟩
  · rw [if_neg hlen, if_neg fun hne => hlen ((h.next_ne_prev_iff ht).mp hne)]
    exact h

omit [DecidableEq T] in
lemma Holds.toThread (h : r.Holds r') : r.toThread = r'.toThread := by
  rw [LinkedTable.toThread, ReadyTable.toThread, ReadyTable.highestReadyPriority, h.group]
  split_ifs with hp
  · rw [(h.links.ring ⟨_, hp⟩).next_header]
    cases r'.list ⟨_, hp⟩ <;> rfl
  · rfl

lemma Holds.call {r'' : ReadyTable T} (h : r.Holds r') (hc : r'.call c = some r'') :
    (r.call c).Holds r'' := by
  cases c with
  | insert p t =>
    obtain ⟨hfree, rfl⟩ := ReadyTable.call_insert.mp hc
    exact h.insert hfree
  | remove p t =>
    obtain ⟨hmem, rfl⟩ := ReadyTable.call_remove.mp hc
    exact h.remove hmem
  | yield p t =>
    obtain ⟨hmem, rfl⟩ := ReadyTable.call_yield.mp hc
    exact h.yield hmem

lemma Holds.run {r'' : ReadyTable T} (h : r.Holds r') (hconsistent : r'.Consistent)
    (hrun : Transition.run ReadyTable.call r' cs = some r'') :
    (cs.foldl LinkedTable.call r).Holds r'' ∧ r''.Consistent := by
  induction cs generalizing r r' with
  | nil =>
    rw [Transition.run_nil, Option.some_inj] at hrun
    exact hrun ▸ ⟨h, hconsistent⟩
  | cons c cs ih =>
    obtain ⟨r₁, hc, hrest⟩ := Transition.run_cons.mp hrun
    exact ih (h.call hc) (hconsistent.call hc) hrest

/-- **The lists of the ready table.**  In every sequence of calls that put threads into the table
which are in no list, and take out or yield threads that are in the list of the priority, the links
form the lists: from each header the threads are linked in the order of its list and back, the bit
of a priority is set if and only if its list is not empty, which is what `rt_list_isempty` says too,
and `rt_schedule` takes the first thread of the first list that is not empty. -/
theorem ready_list {r' : ReadyTable T}
    (hrun : Transition.run ReadyTable.call ReadyTable.empty cs = some r') :
    let r := cs.foldl call init
    (∀ p, r.links.Path (.inl p) ((r'.list p).map .inr) (.inl p)) ∧
    (∀ p, rtListIsempty r.links (.inl p) = true ↔ r'.list p = []) ∧
    (∀ p, r.group.getLsbD p.val = true ↔ r'.list p ≠ []) ∧
    r.group = r'.group ∧ r'.Consistent ∧ r.toThread = r'.toThread ∧
    ∀ t, r.toThread = some t ↔ ∃ p, (r'.list p).head? = some t ∧ ∀ q < p, r'.list q = [] := by
  obtain ⟨h, hconsistent⟩ := holds_init.run ReadyTable.consistent_empty hrun
  refine ⟨fun p => (h.links.ring p).path, h.isempty, ?_, h.group, hconsistent, h.toThread, ?_⟩
  · intro p
    rw [h.group]
    exact hconsistent.group p
  · intro t
    rw [h.toThread]
    exact hconsistent.toThread_eq

/-- Of two threads of the lowest priority the first one yields. -/
theorem ready_list_yield :
    let r := [TableCall.insert 7 false, .insert 7 true, .yield 7 false].foldl call init
    r.links.Path (.inl 7) [.inr true, .inr false] (.inl 7) ∧ r.group.getLsbD 7 = true ∧
      r.toThread = some true := by
  have hrun : ∃ r' : ReadyTable Bool, Transition.run ReadyTable.call ReadyTable.empty
      [.insert 7 false, .insert 7 true, .yield 7 false] = some r' ∧
      r'.list 7 = [true, false] ∧ r'.toThread = some true := ⟨_, rfl, rfl, by decide⟩
  obtain ⟨r', hrun, hlist, hthread⟩ := hrun
  obtain ⟨hpath, -, hgroup, -, -, htoThread, -⟩ := ready_list hrun
  have hseven := hpath 7
  rw [hlist] at hseven
  exact ⟨hseven, (hgroup 7).mpr (by simp [hlist]), htoThread.trans hthread⟩

end LinkedTable

end HdmiDisplay.Rtos
