/-
# Alarm clocks

An alarm is set for a number of ticks and rings when its time has come; one that repeats is then set
again.  The clock keeps the pending alarms in the order in which they were set.  A queue keeps them
in the order in which they will ring: by their times, and for one time in the order in which they
were set, which is what inserting each one behind those that are not later gives.  Counters of
finitely many bits can stand for the times as long as those that meet are close enough to each
other.
-/
import Mathlib.Data.List.Basic
import Mathlib.Data.BitVec
import Mathlib.Logic.Function.Basic

/-! ### Queues in the order of a key -/

namespace StableQueue

variable {α κ : Type*} [LinearOrder κ] (key : α → κ)

/-- `a` is inserted behind the entries that are not later. -/
def enqueue (a : α) : List α → List α
  | [] => [a]
  | b :: q => if key b ≤ key a then b :: enqueue a q else a :: b :: q

/-- All entries of `l` are inserted, one after the other. -/
def enqueueAll (q l : List α) : List α := l.foldl (fun q a => enqueue key a q) q

/-- No entry is later than one behind it. -/
def Sorted (q : List α) : Prop := q.Pairwise fun a b => key a ≤ key b

variable {key} {a b : α} {q l : List α}

lemma enqueue_perm : (enqueue key a q).Perm (a :: q) := by
  induction q with
  | nil => exact List.Perm.refl _
  | cons b q ih =>
    rw [enqueue]
    split
    · exact (ih.cons b).trans (List.Perm.swap a b q)
    · exact List.Perm.refl _

lemma mem_enqueue : b ∈ enqueue key a q ↔ b = a ∨ b ∈ q :=
  enqueue_perm.mem_iff.trans List.mem_cons

lemma Sorted.enqueue (h : Sorted key q) (a : α) : Sorted key (enqueue key a q) := by
  induction q with
  | nil => exact List.pairwise_singleton _ a
  | cons b q ih =>
    obtain ⟨hb, hq⟩ := List.pairwise_cons.mp h
    rw [StableQueue.enqueue]
    split
    · next hle =>
      refine List.pairwise_cons.mpr ⟨?_, ih hq⟩
      intro c hc
      rcases mem_enqueue.mp hc with rfl | hc
      · exact hle
      · exact hb c hc
    · next hlt =>
      have hab := (not_le.mp hlt).le
      refine List.pairwise_cons.mpr ⟨?_, h⟩
      intro c hc
      rcases List.mem_cons.mp hc with rfl | hc
      · exact hab
      · exact hab.trans (hb c hc)

/-- An entry passes all those that are not later. -/
lemma enqueue_append (h : ∀ b ∈ l, key b ≤ key a) :
    enqueue key a (l ++ q) = l ++ enqueue key a q := by
  induction l with
  | nil => rfl
  | cons b l ih =>
    rw [List.cons_append, enqueue, if_pos (h b List.mem_cons_self),
      ih fun c hc => h c (List.mem_cons_of_mem b hc), List.cons_append]

/-- An entry that is earlier than all comes to the front. -/
lemma enqueue_of_lt (h : ∀ b ∈ q, key a < key b) : enqueue key a q = a :: q := by
  cases q with
  | nil => rfl
  | cons b q => rw [enqueue, if_neg (not_le.mpr (h b List.mem_cons_self))]

lemma filter_enqueue_of_pos (p : α → Bool) (h : Sorted key q) (ha : p a = true) :
    (enqueue key a q).filter p = enqueue key a (q.filter p) := by
  induction q with
  | nil => exact List.filter_cons_of_pos ha
  | cons b q ih =>
    obtain ⟨hb, hq⟩ := List.pairwise_cons.mp h
    rw [enqueue]
    split
    · next hle =>
      by_cases hpb : p b = true
      · rw [List.filter_cons_of_pos hpb, List.filter_cons_of_pos hpb, ih hq, enqueue, if_pos hle]
      · rw [List.filter_cons_of_neg hpb, List.filter_cons_of_neg hpb, ih hq]
    · next hlt =>
      -- all that follow are later than `a`
      have hall : ∀ c ∈ (b :: q).filter p, key a < key c := by
        intro c hc
        rcases List.mem_cons.mp (List.mem_filter.mp hc).1 with rfl | hc
        · exact not_le.mp hlt
        · exact (not_le.mp hlt).trans_le (hb c hc)
      rw [List.filter_cons_of_pos ha, enqueue_of_lt hall]

lemma filter_enqueue_of_neg (p : α → Bool) (ha : ¬p a = true) :
    (enqueue key a q).filter p = q.filter p := by
  induction q with
  | nil => exact List.filter_cons_of_neg ha
  | cons b q ih =>
    rw [enqueue]
    split
    · rw [List.filter_cons, List.filter_cons, ih]
    · rw [List.filter_cons_of_neg ha]

variable (key) in
@[simp] lemma enqueueAll_nil : enqueueAll key q [] = q := rfl

lemma enqueueAll_append : enqueueAll key q (l ++ [a]) = enqueue key a (enqueueAll key q l) :=
  List.foldl_concat ..

lemma mem_enqueueAll : a ∈ enqueueAll key q l ↔ a ∈ q ∨ a ∈ l := by
  induction l using List.reverseRecOn with
  | nil => simp
  | append_singleton l b ih => rw [enqueueAll_append, mem_enqueue, ih, List.mem_append,
      List.mem_singleton, or_comm, or_assoc]

lemma Sorted.enqueueAll (h : Sorted key q) (l : List α) : Sorted key (enqueueAll key q l) := by
  induction l generalizing q with
  | nil => exact h
  | cons a l ih => exact ih (h.enqueue a)

/-- The queue of the entries of `l`, entered in this order. -/
def ofList (key : α → κ) (l : List α) : List α := enqueueAll key [] l

lemma sorted_ofList (l : List α) : Sorted key (ofList key l) := Sorted.enqueueAll .nil l

lemma ofList_append {l' : List α} : ofList key (l ++ l') = enqueueAll key (ofList key l) l' :=
  List.foldl_append ..

lemma ofList_concat : ofList key (l ++ [a]) = enqueue key a (ofList key l) := enqueueAll_append

lemma ofList_perm : (ofList key l).Perm l := by
  induction l using List.reverseRecOn with
  | nil => exact List.Perm.refl _
  | append_singleton l a ih =>
    rw [ofList_concat]
    exact enqueue_perm.trans ((ih.cons a).trans (List.perm_append_singleton a l).symm)

lemma mem_ofList : a ∈ ofList key l ↔ a ∈ l := ofList_perm.mem_iff

/-- **Stability.**  Entries that leave a queue do not change the order of those that stay. -/
theorem filter_ofList (p : α → Bool) (l : List α) :
    (ofList key l).filter p = ofList key (l.filter p) := by
  induction l using List.reverseRecOn with
  | nil => rfl
  | append_singleton l a ih =>
    rw [ofList_concat, List.filter_append]
    by_cases ha : p a = true
    · rw [filter_enqueue_of_pos p (sorted_ofList l) ha, ih, List.filter_cons_of_pos ha,
        List.filter_nil, ofList_concat]
    · rw [filter_enqueue_of_neg p ha, ih, List.filter_cons_of_neg ha, List.filter_nil,
        List.append_nil]

/-- A sorted queue begins with the entries that are not later than `k`. -/
lemma Sorted.filter_append_filter (h : Sorted key q) (k : κ) :
    q.filter (fun a => key a ≤ k) ++ q.filter (fun a => k < key a) = q := by
  induction q with
  | nil => rfl
  | cons a q ih =>
    obtain ⟨ha, hq⟩ := List.pairwise_cons.mp h
    by_cases hle : key a ≤ k
    · rw [List.filter_cons_of_pos (by simpa using hle),
        List.filter_cons_of_neg (by simpa using hle),
        List.cons_append, ih hq]
    · have hlt := not_le.mp hle
      have hnone : q.filter (fun a => key a ≤ k) = [] := by
        refine List.filter_eq_nil_iff.mpr ?_
        intro b hb
        simpa using hlt.trans_le (ha b hb)
      have hall : q.filter (fun a => k < key a) = q := by
        refine List.filter_eq_self.mpr ?_
        intro b hb
        simpa using hlt.trans_le (ha b hb)
      rw [List.filter_cons_of_neg (by simpa using hlt),
        List.filter_cons_of_pos (by simpa using hlt),
        hnone, hall, List.nil_append]

end StableQueue

/-! ### Counters that wrap around -/

namespace WrappingCounter

variable {w a b h : ℕ}

lemma toNat_sub_of_le (hle : b ≤ a) (hlt : a < b + 2 ^ w) :
    (BitVec.ofNat w a - BitVec.ofNat w b).toNat = a - b := by
  have hdiff : BitVec.ofNat w a - BitVec.ofNat w b = BitVec.ofNat w (a - b) := by
    rw [sub_eq_iff_eq_add, ← BitVec.ofNat_add, Nat.sub_add_cancel hle]
  rw [hdiff, BitVec.toNat_ofNat, Nat.mod_eq_of_lt (by omega)]

lemma toNat_sub_of_lt (hlt : a < b) (hle : b ≤ a + 2 ^ w) :
    (BitVec.ofNat w a - BitVec.ofNat w b).toNat = a + 2 ^ w - b := by
  have hwrap : BitVec.ofNat w a = BitVec.ofNat w (a + 2 ^ w) := by
    rw [← BitVec.toNat_inj, BitVec.toNat_ofNat, BitVec.toNat_ofNat, Nat.add_mod_right]
  rw [hwrap, toNat_sub_of_le hle (by omega)]

/-- **The window.**  The difference of two counters is in the lower part of their range exactly if
the first one is not behind, if they are close enough for that. -/
theorem toNat_sub_lt_iff (hwindow : h ≤ 2 ^ w) (hahead : a < b + h) (hbehind : b + h ≤ a + 2 ^ w) :
    (BitVec.ofNat w a - BitVec.ofNat w b).toNat < h ↔ b ≤ a := by
  rcases Nat.lt_or_ge a b with hlt | hle
  · rw [toNat_sub_of_lt hlt (by omega)]
    omega
  · rw [toNat_sub_of_le hle (by omega)]
    omega

lemma sub_eq_zero_iff (hahead : a < b + 2 ^ w) (hbehind : b < a + 2 ^ w) :
    BitVec.ofNat w a - BitVec.ofNat w b = 0 ↔ a = b := by
  have hzero : BitVec.toNat (0 : BitVec w) = 0 := Nat.zero_mod _
  rw [← BitVec.toNat_inj, hzero]
  rcases Nat.lt_or_ge a b with hlt | hle
  · rw [toNat_sub_of_lt hlt (by omega)]
    omega
  · rw [toNat_sub_of_le hle hahead]
    omega

end WrappingCounter

/-! ### The clock -/

/-- The time, the settings of each alarm, and the pending alarms with the times at which they ring,
in the order in which they were set. -/
structure AlarmClock (I : Type*) where
  now : ℕ
  delay : I → ℕ
  repeats : I → Bool
  pending : List (I × ℕ)

namespace AlarmClock

open StableQueue

variable {I : Type*} [DecidableEq I]

/-- What is done to a clock. -/
inductive Call (I : Type*) where
  | set (i : I)
  | cancel (i : I)
  | delay (i : I) (d : ℕ)
  | repeats (i : I) (b : Bool)
  | advance

/-- The alarm that a call is about. -/
def Call.about : Call I → Option I
  | set i | cancel i | delay i _ | repeats i _ => some i
  | advance => none

/-- The alarm is no longer pending. -/
def cancel (a : AlarmClock I) (i : I) : AlarmClock I :=
  { a with pending := a.pending.filter fun e => e.1 ≠ i }

/-- The alarm becomes the last one that was set. -/
def set (a : AlarmClock I) (i : I) : AlarmClock I :=
  { a with pending := (a.cancel i).pending ++ [(i, a.now + a.delay i)] }

/-- The alarms that ring at the next tick, in their order. -/
def due (a : AlarmClock I) : List (I × ℕ) :=
  ofList Prod.snd (a.pending.filter fun e => e.2 ≤ a.now + 1)

/-- The alarms that are set again at the next tick. -/
def again (a : AlarmClock I) : List (I × ℕ) :=
  (a.due.filter fun e => a.repeats e.1).map fun e => (e.1, a.now + 1 + a.delay e.1)

/-- The next tick. -/
def advance (a : AlarmClock I) : AlarmClock I :=
  { a with
    now := a.now + 1
    pending := (a.pending.filter fun e => a.now + 1 < e.2) ++ a.again }

/-- One call, and the alarms that ring. -/
def step (a : AlarmClock I) : Call I → AlarmClock I × List I
  | .set i => (a.set i, [])
  | .cancel i => (a.cancel i, [])
  | .delay i d => ({ a with delay := Function.update a.delay i d }, [])
  | .repeats i b => ({ a with repeats := Function.update a.repeats i b }, [])
  | .advance => (a.advance, a.due.map Prod.fst)

/-- The alarms that ring at each call of a list. -/
def rung : AlarmClock I → List (Call I) → List (List I)
  | _, [] => []
  | a, c :: cs => (a.step c).2 :: (a.step c).1.rung cs

/-- How many ticks pass during a list of calls. -/
def ticks (cs : List (Call I)) : ℕ := cs.countP fun c => c.about.isNone

/-- The pending alarms in the order in which they will ring. -/
def queue (a : AlarmClock I) : List (I × ℕ) := ofList Prod.snd a.pending

variable {a : AlarmClock I} {i j : I} {cs : List (Call I)}

lemma queue_cancel : (a.cancel i).queue = a.queue.filter fun e => e.1 ≠ i :=
  (filter_ofList _ _).symm

lemma queue_set :
    (a.set i).queue =
      enqueue Prod.snd (i, a.now + a.delay i) (a.queue.filter fun e => e.1 ≠ i) := by
  rw [queue, set, ofList_concat, ← queue_cancel, queue]

omit [DecidableEq I] in
/-- The alarms that are due are the front of the queue. -/
lemma due_append : a.due ++ a.queue.filter (fun e => a.now + 1 < e.2) = a.queue := by
  rw [due, ← filter_ofList]
  exact (sorted_ofList a.pending).filter_append_filter (a.now + 1)

omit [DecidableEq I] in
lemma queue_advance : a.advance.queue =
    enqueueAll Prod.snd (a.queue.filter fun e => a.now + 1 < e.2) a.again := by
  rw [queue, advance, ofList_append, ← filter_ofList, queue]

/-! ### When an alarm rings -/

/-- The entries of an alarm. -/
def entries (a : AlarmClock I) (i : I) : List (I × ℕ) := a.pending.filter fun e => e.1 = i

lemma entries_cancel_of_ne (h : j ≠ i) : (a.cancel j).entries i = a.entries i := by
  rw [entries, cancel, List.filter_filter, entries]
  congr 1
  funext e
  by_cases he : e.1 = i
  · simp [he, h.symm]
  · simp [he]

lemma entries_cancel_self : (a.cancel i).entries i = [] := by
  rw [entries, cancel, List.filter_filter, List.filter_eq_nil_iff]
  intro e _
  simp

lemma entries_set_self : (a.set i).entries i = [(i, a.now + a.delay i)] := by
  have hcancel : (a.cancel i).pending.filter (fun e => e.1 = i) = [] := entries_cancel_self
  rw [entries, set, List.filter_append, hcancel, List.nil_append,
    List.filter_cons_of_pos (by simp), List.filter_nil]

lemma entries_set_of_ne (h : j ≠ i) : (a.set j).entries i = a.entries i := by
  have hcancel : (a.cancel j).pending.filter (fun e => e.1 = i) = a.entries i :=
    entries_cancel_of_ne h
  rw [entries, set, List.filter_append, hcancel, List.filter_cons_of_neg (by simpa using h)]
  exact List.append_nil _

lemma filter_due : a.due.filter (fun e => e.1 = i) =
    ofList Prod.snd ((a.entries i).filter fun e => e.2 ≤ a.now + 1) := by
  rw [due, filter_ofList, List.filter_comm, entries]

lemma count_due : (a.due.map Prod.fst).count i =
    ((a.entries i).filter fun e => e.2 ≤ a.now + 1).length := by
  have hlength : (a.due.filter fun e => e.1 = i).length =
      ((a.entries i).filter fun e => e.2 ≤ a.now + 1).length := by
    rw [filter_due]
    exact ofList_perm.length_eq
  rw [← hlength, List.count, List.countP_map, List.countP_eq_length_filter]
  rfl

lemma filter_again : a.again.filter (fun e => e.1 = i) =
    ((a.due.filter fun e => e.1 = i).filter fun e => a.repeats e.1).map
      fun e => (e.1, a.now + 1 + a.delay e.1) := by
  rw [again, List.filter_map, List.filter_comm]
  rfl

lemma entries_advance : a.advance.entries i =
    ((a.entries i).filter fun e => a.now + 1 < e.2) ++ a.again.filter fun e => e.1 = i := by
  rw [entries, advance, List.filter_append, List.filter_comm, entries]

/-- An alarm whose time has not come stays pending. -/
lemma entries_advance_of_lt {t : ℕ} (h : a.entries i = [(i, t)]) (ht : a.now + 1 < t) :
    a.advance.entries i = [(i, t)] ∧ (a.due.map Prod.fst).count i = 0 := by
  have hdue : (a.entries i).filter (fun e => e.2 ≤ a.now + 1) = [] := by
    rw [h, List.filter_cons_of_neg (by simpa using ht), List.filter_nil]
  refine ⟨?_, by rw [count_due, hdue, List.length_nil]⟩
  rw [entries_advance, filter_again, filter_due, hdue, h,
    List.filter_cons_of_pos (by simpa using ht)]
  rfl

/-- An alarm rings when its time has come, and is set again if it repeats. -/
lemma entries_advance_of_le {t : ℕ} (h : a.entries i = [(i, t)]) (ht : t ≤ a.now + 1) :
    a.advance.entries i = (if a.repeats i then [(i, a.now + 1 + a.delay i)] else []) ∧
      (a.due.map Prod.fst).count i = 1 := by
  have hdue : (a.entries i).filter (fun e => e.2 ≤ a.now + 1) = [(i, t)] := by
    rw [h, List.filter_cons_of_pos (by simpa using ht), List.filter_nil]
  refine ⟨?_, by rw [count_due, hdue, List.length_singleton]⟩
  have hagain : a.again.filter (fun e => e.1 = i) =
      if a.repeats i then [(i, a.now + 1 + a.delay i)] else [] := by
    rw [filter_again, filter_due, hdue]
    cases hi : a.repeats i <;> simp [ofList, enqueueAll, enqueue, hi]
  rw [entries_advance, hagain, h, List.filter_cons_of_neg (by simpa using ht), List.filter_nil,
    List.nil_append]

lemma entries_advance_nil (h : a.entries i = []) :
    a.advance.entries i = [] ∧ (a.due.map Prod.fst).count i = 0 := by
  have hdue : (a.entries i).filter (fun e => e.2 ≤ a.now + 1) = [] := by rw [h, List.filter_nil]
  refine ⟨?_, by rw [count_due, hdue, List.length_nil]⟩
  rw [entries_advance, filter_again, filter_due, hdue, h]
  rfl

omit [DecidableEq I] in
lemma eq_advance {c : Call I} (hc : c.about.isNone = true) : c = .advance := by
  cases c with
  | advance => rfl
  | _ => exact absurd hc Bool.false_ne_true

/-- A call about another alarm changes nothing for this one. -/
lemma step_of_about_ne {c : Call I} (hc : c.about ≠ some i) (ht : c.about.isNone = false) :
    (a.step c).1.entries i = a.entries i ∧ (a.step c).1.now = a.now ∧
      (a.step c).1.delay i = a.delay i ∧ (a.step c).1.repeats i = a.repeats i ∧
      (a.step c).2 = [] := by
  cases c with
  | set j =>
    have hj : j ≠ i := fun h => hc (congrArg some h)
    exact ⟨entries_set_of_ne hj, rfl, rfl, rfl, rfl⟩
  | cancel j =>
    have hj : j ≠ i := fun h => hc (congrArg some h)
    exact ⟨entries_cancel_of_ne hj, rfl, rfl, rfl, rfl⟩
  | delay j d =>
    have hj : i ≠ j := fun h => hc (congrArg some h.symm)
    exact ⟨rfl, rfl, Function.update_of_ne hj .., rfl, rfl⟩
  | repeats j b =>
    have hj : i ≠ j := fun h => hc (congrArg some h.symm)
    exact ⟨rfl, rfl, rfl, Function.update_of_ne hj .., rfl⟩
  | advance => exact absurd ht (by simp [Call.about])

omit [DecidableEq I] in
lemma ticks_cons {c : Call I} : ticks (c :: cs) = ticks cs + if c.about.isNone then 1 else 0 :=
  List.countP_cons ..

lemma count_rung_cons {c : Call I} : (a.rung (c :: cs)).flatten.count i =
    (a.step c).2.count i + ((a.step c).1.rung cs).flatten.count i := by
  rw [rung, List.flatten_cons, List.count_append]

/-- An alarm that is not pending does not ring. -/
lemma count_rung_of_nil (h : a.entries i = []) (hcs : ∀ c ∈ cs, c.about ≠ some i) :
    (a.rung cs).flatten.count i = 0 := by
  induction cs generalizing a with
  | nil => rfl
  | cons c cs ih =>
    have hrest : ∀ c ∈ cs, c.about ≠ some i := fun c' hc' => hcs c' (List.mem_cons_of_mem c hc')
    rw [count_rung_cons]
    cases hc : c.about.isNone with
    | true =>
      obtain rfl := eq_advance hc
      obtain ⟨hentries, hcount⟩ := entries_advance_nil h
      rw [step, hcount, ih hentries hrest]
    | false =>
      obtain ⟨hentries, -, -, -, hrung⟩ := step_of_about_ne (hcs c List.mem_cons_self) hc
      rw [hrung, ih (hentries.trans h) hrest, List.count_nil]

/-- An alarm rings once, at the first tick at which its time has come. -/
lemma count_rung_once {t : ℕ} (h : a.entries i = [(i, t)]) (hi : a.repeats i = false)
    (hcs : ∀ c ∈ cs, c.about ≠ some i) :
    (a.rung cs).flatten.count i = if 0 < ticks cs ∧ t ≤ a.now + ticks cs then 1 else 0 := by
  induction cs generalizing a with
  | nil => rfl
  | cons c cs ih =>
    have hrest : ∀ c ∈ cs, c.about ≠ some i := fun c' hc' => hcs c' (List.mem_cons_of_mem c hc')
    rw [count_rung_cons, ticks_cons]
    cases hc : c.about.isNone with
    | true =>
      obtain rfl := eq_advance hc
      rcases Nat.lt_or_ge (a.now + 1) t with hlt | hle
      · obtain ⟨hentries, hcount⟩ := entries_advance_of_lt h hlt
        have hnow : a.advance.now = a.now + 1 := rfl
        rw [step, hcount, ih hentries hi hrest, hnow, Nat.zero_add]
        refine if_congr ?_ rfl rfl
        simp only [if_true]
        omega
      · obtain ⟨hentries, hcount⟩ := entries_advance_of_le h hle
        rw [hi, if_neg Bool.false_ne_true] at hentries
        rw [step, hcount, count_rung_of_nil hentries hrest, if_pos]
        simp only [if_true]
        omega
    | false =>
      obtain ⟨hentries, hnow, -, hrepeats, hrung⟩ :=
        step_of_about_ne (hcs c List.mem_cons_self) hc
      rw [hrung, ih (hentries.trans h) (hrepeats.trans hi) hrest, hnow, List.count_nil,
        Nat.zero_add, if_neg Bool.false_ne_true, Nat.add_zero]

/-- An alarm that repeats rings at intervals of its delay. -/
lemma count_rung_repeats {t d : ℕ} (h : a.entries i = [(i, t)]) (hi : a.repeats i = true)
    (hd : a.delay i = d) (hlt : a.now < t) (hle : t ≤ a.now + d)
    (hcs : ∀ c ∈ cs, c.about ≠ some i) :
    (a.rung cs).flatten.count i = (a.now + ticks cs + d - t) / d := by
  induction cs generalizing a t with
  | nil => exact (Nat.div_eq_of_lt (by rw [ticks, List.countP_nil]; omega)).symm
  | cons c cs ih =>
    have hrest : ∀ c ∈ cs, c.about ≠ some i := fun c' hc' => hcs c' (List.mem_cons_of_mem c hc')
    rw [count_rung_cons, ticks_cons]
    cases hc : c.about.isNone with
    | true =>
      obtain rfl := eq_advance hc
      have hnow : a.advance.now = a.now + 1 := rfl
      rw [if_pos rfl]
      rcases Nat.lt_or_ge (a.now + 1) t with hless | hge
      · obtain ⟨hentries, hcount⟩ := entries_advance_of_lt h hless
        rw [step, hcount, ih hentries hi hd (by omega) (by omega) hrest, hnow, Nat.zero_add]
        congr 1
        omega
      · obtain ⟨hentries, hcount⟩ := entries_advance_of_le h hge
        rw [hi, if_pos rfl, hd] at hentries
        have hsum : a.now + (ticks cs + 1) + d - t =
            a.now + 1 + ticks cs + d - (a.now + 1 + d) + d := by
          omega
        rw [step, hcount, ih hentries hi hd (by omega) (by omega) hrest, hnow, hsum,
          Nat.add_div_right _ (by omega), Nat.add_comm]
    | false =>
      obtain ⟨hentries, hnow, hdelay, hrepeats, hrung⟩ :=
        step_of_about_ne (hcs c List.mem_cons_self) hc
      rw [hrung, ih (hentries.trans h) (hrepeats.trans hi) (hdelay.trans hd) (by omega) (by omega)
        hrest, hnow, List.count_nil, Nat.zero_add, if_neg Bool.false_ne_true, Nat.add_zero]

/-- **When an alarm rings.**  From the tick at which it is set: an alarm that repeats rings after
every `d` ticks, and one that does not rings once, after `d` ticks or, for no delay, one. -/
theorem count_rung_set {d : ℕ} (hd : a.delay i = d) (hpos : a.repeats i = true → 0 < d)
    (hcs : ∀ c ∈ cs, c.about ≠ some i) :
    ((a.set i).rung cs).flatten.count i =
      if a.repeats i then ticks cs / d else if max 1 d ≤ ticks cs then 1 else 0 := by
  have hentries : (a.set i).entries i = [(i, a.now + d)] := by rw [entries_set_self, hd]
  cases hi : a.repeats i with
  | true =>
    have hpos := hpos hi
    have hnow : (a.set i).now = a.now := rfl
    rw [count_rung_repeats hentries hi hd (by omega) (by omega) hcs, if_pos rfl, hnow]
    congr 1
    omega
  | false =>
    have hnow : (a.set i).now = a.now := rfl
    rw [count_rung_once hentries hi hcs, if_neg Bool.false_ne_true, hnow]
    refine if_congr ?_ rfl rfl
    omega

end AlarmClock
