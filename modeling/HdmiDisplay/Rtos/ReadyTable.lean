/-
# The ready table

The lists of the ready threads, one for each priority, the word that has a bit for each priority
whose list is not empty, and the search for the lowest bit of it by the table of `kservice.c`, which
this configuration uses.
-/
import Mathlib.Data.BitVec
import Mathlib.Data.List.Basic
import Mathlib.Logic.Function.Basic
import Mathlib.Tactic.Common

namespace HdmiDisplay.Rtos

/-- `RT_THREAD_PRIORITY_MAX`. -/
abbrev rtThreadPriorityMax : ℕ := 8

/-- The priorities, a smaller number being a higher priority. -/
abbrev Priority := Fin rtThreadPriorityMax

/-! ### The lowest bit of a word -/

/-- The sixteen entries of a row of `__lowest_bit_bitmap`, which only differ in the first one. -/
def lowestBitRow (first : ℕ) : List ℕ := [first, 0, 1, 0, 2, 0, 1, 0, 3, 0, 1, 0, 2, 0, 1, 0]

/-- `__lowest_bit_bitmap`. -/
def lowestBitBitmap : List ℕ :=
  lowestBitRow 0 ++ lowestBitRow 4 ++ lowestBitRow 5 ++ lowestBitRow 4 ++
  lowestBitRow 6 ++ lowestBitRow 4 ++ lowestBitRow 5 ++ lowestBitRow 4 ++
  lowestBitRow 7 ++ lowestBitRow 4 ++ lowestBitRow 5 ++ lowestBitRow 4 ++
  lowestBitRow 6 ++ lowestBitRow 4 ++ lowestBitRow 5 ++ lowestBitRow 4

/-- The entry of `__lowest_bit_bitmap` for the bits of `value` that `mask` selects. -/
def lowestBit (value mask : BitVec 32) (shift : ℕ) : ℕ :=
  lowestBitBitmap.getD ((value &&& mask) >>> shift).toNat 0

/-- `__rt_ffs`. -/
def rtFfs (value : BitVec 32) : ℕ :=
  if value = 0 then 0
  else if value &&& 0xff ≠ 0 then lowestBit value 0xff 0 + 1
  else if value &&& 0xff00 ≠ 0 then lowestBit value 0xff00 8 + 9
  else if value &&& 0xff0000 ≠ 0 then lowestBit value 0xff0000 16 + 17
  else lowestBit value 0xff000000 24 + 25

/-- Bit `n` is the lowest one that is set. -/
def IsLowest (value : BitVec 32) (n : ℕ) : Prop :=
  value.getLsbD n = true ∧ ∀ j < n, value.getLsbD j = false

lemma IsLowest.unique {value : BitVec 32} {m n : ℕ} (hm : IsLowest value m)
    (hn : IsLowest value n) : m = n := by
  rcases Nat.lt_trichotomy m n with h | h | h
  · exact absurd hm.1 (by simp [hn.2 m h])
  · exact h
  · exact absurd hn.1 (by simp [hm.2 n h])

/-- The table gives the lowest bit of each byte. -/
lemma lowestBitBitmap_zipIdx : ∀ e ∈ lowestBitBitmap.zipIdx, e.2 ≠ 0 →
    e.2.testBit e.1 = true ∧ ∀ j < e.1, e.2.testBit j = false := by
  decide +kernel

lemma lowestBitBitmap_spec {b : ℕ} (hlt : b < 256) (hne : b ≠ 0) :
    b.testBit (lowestBitBitmap.getD b 0) = true ∧
      ∀ j < lowestBitBitmap.getD b 0, b.testBit j = false := by
  have hlength : lowestBitBitmap.length = 256 := by decide +kernel
  have hmem : (lowestBitBitmap.getD b 0, b) ∈ lowestBitBitmap.zipIdx := by
    rw [List.mem_zipIdx_iff_getElem?, List.getD_eq_getElem?_getD,
      List.getElem?_eq_getElem (hlength ▸ hlt), Option.getD_some]
  exact lowestBitBitmap_zipIdx _ hmem hne

variable {value : BitVec 32}

lemma getLsbD_ff (j : ℕ) : (0xff#32).getLsbD j = decide (j < 8) := by
  have hbits : (0xff#32).getLsbD j = (decide (j < 32) && decide (j < 8)) := by
    rw [BitVec.getLsbD_ofNat]
    exact congrArg _ (Nat.testBit_two_pow_sub_one 8 j)
  rw [hbits]
  grind

/-- The bits of the byte that begins at the bit `shift`. -/
lemma testBit_byte (shift j : ℕ) :
    ((value &&& (0xff#32 <<< shift)) >>> shift).toNat.testBit j =
      (decide (j < 8) && value.getLsbD (shift + j)) := by
  rw [BitVec.testBit_toNat, BitVec.getLsbD_ushiftRight, BitVec.getLsbD_and,
    BitVec.getLsbD_shiftLeft,
    Nat.add_sub_cancel_left, getLsbD_ff]
  grind

/-- Below the byte that comes after bytes that are zero, all bits are clear. -/
lemma low_of_and_eq_zero (shift : ℕ) (hlow : ∀ j < shift, value.getLsbD j = false)
    (h : value &&& (0xff#32 <<< shift) = 0#32) : ∀ j < shift + 8, value.getLsbD j = false := by
  intro j hj
  rcases Nat.lt_or_ge j shift with hless | hge
  · exact hlow j hless
  · have hbit : ((value &&& (0xff#32 <<< shift)) >>> shift).toNat.testBit (j - shift) =
        (decide (j - shift < 8) && value.getLsbD (shift + (j - shift))) := testBit_byte ..
    rw [h, decide_eq_true (by omega), Bool.true_and, Nat.add_sub_cancel' hge] at hbit
    rw [← hbit]
    simp

/-- The lowest bit is in the first byte that is not zero. -/
lemma isLowest_byte (shift : ℕ) (hlow : ∀ j < shift, value.getLsbD j = false)
    (h : value &&& (0xff#32 <<< shift) ≠ 0#32) :
    IsLowest value (shift + lowestBit value (0xff#32 <<< shift) shift) := by
  have hbits (j : ℕ) : ((value &&& (0xff#32 <<< shift)) >>> shift).toNat.testBit j =
      (decide (j < 8) && value.getLsbD (shift + j)) := testBit_byte ..
  have hlt : ((value &&& (0xff#32 <<< shift)) >>> shift).toNat < 256 := by
    refine Nat.lt_pow_two_of_testBit (n := 8) _ ?_
    intro j hj
    rw [hbits, decide_eq_false (Nat.not_lt.mpr hj), Bool.false_and]
  have hne : ((value &&& (0xff#32 <<< shift)) >>> shift).toNat ≠ 0 := by
    intro hzero
    refine h (BitVec.eq_of_getLsbD_eq ?_)
    intro j _
    rw [BitVec.getLsbD_and, BitVec.getLsbD_shiftLeft, BitVec.getLsbD_zero, getLsbD_ff]
    rcases Nat.lt_or_ge j shift with hj | hj
    · rw [hlow j hj, Bool.false_and]
    · have hbit := hbits (j - shift)
      rw [hzero, Nat.zero_testBit, Nat.add_sub_cancel' hj] at hbit
      grind
  obtain ⟨hset, hclear⟩ := lowestBitBitmap_spec hlt hne
  rw [hbits, Bool.and_eq_true, decide_eq_true_eq] at hset
  refine ⟨hset.2, ?_⟩
  intro j hj
  rcases Nat.lt_or_ge j shift with hless | hge
  · exact hlow j hless
  · have hlt8 : lowestBit value (0xff#32 <<< shift) shift < 8 := hset.1
    have hclear := hclear (j - shift) (Nat.sub_lt_left_of_lt_add hge hj)
    rw [hbits, decide_eq_true (by omega), Bool.true_and, Nat.add_sub_cancel' hge] at hclear
    exact hclear

/-- **The search** finds the lowest bit, and counts the bits from one. -/
theorem rtFfs_eq (h : value ≠ 0) : ∃ n, rtFfs value = n + 1 ∧ IsLowest value n := by
  have hnone : ∀ j < 0, value.getLsbD j = false := fun j hj => absurd hj (Nat.not_lt_zero j)
  rw [rtFfs, if_neg h]
  split
  · next h₀ =>
    have hbyte : IsLowest value (0 + lowestBit value 0xff 0) := isLowest_byte 0 hnone h₀
    exact ⟨_, by rw [Nat.zero_add], hbyte⟩
  · next h₀ =>
    have hlow₀ := low_of_and_eq_zero 0 hnone (not_not.mp h₀)
    split
    · next h₁ =>
      have hbyte : IsLowest value (8 + lowestBit value 0xff00 8) := isLowest_byte 8 hlow₀ h₁
      exact ⟨_, by omega, hbyte⟩
    · next h₁ =>
      have hlow₁ := low_of_and_eq_zero 8 hlow₀ (not_not.mp h₁)
      split
      · next h₂ =>
        have hbyte : IsLowest value (16 + lowestBit value 0xff0000 16) := isLowest_byte 16 hlow₁ h₂
        exact ⟨_, by omega, hbyte⟩
      · next h₂ =>
        have hlow₂ := low_of_and_eq_zero 16 hlow₁ (not_not.mp h₂)
        have hbyte : IsLowest value (24 + lowestBit value 0xff000000 24) := by
          refine isLowest_byte 24 hlow₂ ?_
          intro h₃
          refine h (BitVec.eq_of_getLsbD_eq ?_)
          intro j hj
          rw [low_of_and_eq_zero 24 hlow₂ h₃ j hj]
          simp
        exact ⟨_, by omega, hbyte⟩

/-! ### The table -/

/-- `rt_thread_priority_table` and `rt_thread_ready_priority_group`. -/
structure ReadyTable (T : Type*) where
  list : Priority → List T
  group : BitVec 32

/-- `number_mask` of a thread of this priority. -/
def numberMask (p : Priority) : BitVec 32 := 1#32 <<< p.val

namespace ReadyTable

variable {T : Type*} [DecidableEq T]

/-- What `rt_schedule_insert_thread` does to the table. -/
def insert (r : ReadyTable T) (p : Priority) (mask : BitVec 32) (t : T) : ReadyTable T where
  list := Function.update r.list p (r.list p ++ [t])
  group := r.group ||| mask

/-- `rt_schedule_remove_thread`. -/
def remove (r : ReadyTable T) (p : Priority) (mask : BitVec 32) (t : T) : ReadyTable T where
  list := Function.update r.list p ((r.list p).erase t)
  group := if (r.list p).erase t = [] then r.group &&& ~~~mask else r.group

/-- What `rt_thread_yield` does to the table.  The neighbours of a thread in its list, which is a
ring with the head of the list, differ if it is not the only one. -/
def yield (r : ReadyTable T) (p : Priority) (t : T) : ReadyTable T :=
  if 1 < (r.list p).length then
    { r with list := Function.update r.list p ((r.list p).erase t ++ [t]) }
  else r

/-- `highest_ready_priority` of `rt_schedule`. -/
def highestReadyPriority (r : ReadyTable T) : BitVec 32 := BitVec.ofNat 32 (rtFfs r.group) - 1

/-- `to_thread` of `rt_schedule`, unless the table is empty. -/
def toThread (r : ReadyTable T) : Option T :=
  if h : r.highestReadyPriority.toNat < rtThreadPriorityMax then
    (r.list ⟨r.highestReadyPriority.toNat, h⟩).head?
  else none

/-- The bits of the group are those of the lists that are not empty. -/
structure Consistent (r : ReadyTable T) : Prop where
  group : ∀ p : Priority, r.group.getLsbD p.val = true ↔ r.list p ≠ []
  above : ∀ i ≥ rtThreadPriorityMax, r.group.getLsbD i = false
  nodup : ∀ p, (r.list p).Nodup

lemma numberMask_getLsbD {p : Priority} {i : ℕ} :
    (numberMask p).getLsbD i = decide (p.val = i) := by
  have hp : p.val < 8 := p.isLt
  simp only [numberMask, BitVec.getLsbD_shiftLeft, BitVec.getLsbD_one]
  grind

variable {r : ReadyTable T} {p q : Priority} {t : T}

omit [DecidableEq T] in
lemma insert_list_of_ne {mask : BitVec 32} (h : q ≠ p) : (r.insert p mask t).list q = r.list q :=
  Function.update_of_ne h ..

omit [DecidableEq T] in
lemma insert_list_self {mask : BitVec 32} : (r.insert p mask t).list p = r.list p ++ [t] :=
  Function.update_self ..

lemma remove_list_of_ne {mask : BitVec 32} (h : q ≠ p) : (r.remove p mask t).list q = r.list q :=
  Function.update_of_ne h ..

lemma remove_list_self {mask : BitVec 32} : (r.remove p mask t).list p = (r.list p).erase t :=
  Function.update_self ..

omit [DecidableEq T] in
lemma Consistent.insert (h : r.Consistent) (ht : t ∉ r.list p) :
    (r.insert p (numberMask p) t).Consistent := by
  refine ⟨?_, ?_, ?_⟩
  · intro q
    rw [ReadyTable.insert, BitVec.getLsbD_or, Bool.or_eq_true, numberMask_getLsbD,
      decide_eq_true_eq,
      h.group]
    by_cases hqp : q = p
    · subst hqp
      simp
    · simp [Function.update_of_ne hqp, Fin.val_ne_of_ne (Ne.symm hqp)]
  · intro i hi
    rw [ReadyTable.insert, BitVec.getLsbD_or, h.above i hi, numberMask_getLsbD]
    have hp := p.isLt
    simp only [Bool.false_or, decide_eq_false_iff_not]
    omega
  · intro q
    by_cases hqp : q = p
    · subst hqp
      rw [insert_list_self]
      exact (List.nodup_append_comm).mpr (List.nodup_cons.mpr ⟨ht, h.nodup q⟩)
    · rw [insert_list_of_ne hqp]
      exact h.nodup q

lemma Consistent.remove (h : r.Consistent) : (r.remove p (numberMask p) t).Consistent := by
  refine ⟨?_, ?_, ?_⟩
  · intro q
    by_cases hqp : q = p
    · subst hqp
      have hgroup := h.group q
      rw [remove_list_self]
      simp only [ReadyTable.remove]
      split
      · next hempty => simp [numberMask_getLsbD, hempty]
      · next hne =>
        refine iff_of_true (hgroup.mpr ?_) hne
        intro hnil
        rw [hnil] at hne
        exact hne rfl
    · rw [remove_list_of_ne hqp, ← h.group]
      simp only [ReadyTable.remove]
      split
      · simp [numberMask_getLsbD, Fin.val_ne_of_ne (Ne.symm hqp)]
        have hq : q.val < 8 := q.isLt
        omega
      · rfl
  · intro i hi
    simp only [ReadyTable.remove]
    split
    · rw [BitVec.getLsbD_and, h.above i hi, Bool.false_and]
    · exact h.above i hi
  · intro q
    by_cases hqp : q = p
    · subst hqp
      rw [remove_list_self]
      exact (h.nodup q).erase t
    · rw [remove_list_of_ne hqp]
      exact h.nodup q

lemma mem_yield {u : T} (ht : t ∈ r.list p) : u ∈ (r.yield p t).list q ↔ u ∈ r.list q := by
  rw [ReadyTable.yield]
  split
  · by_cases hqp : q = p
    · subst hqp
      simp only [Function.update_self]
      rw [← (List.perm_cons_erase ht).mem_iff.symm.eq, List.mem_append, List.mem_singleton,
        List.mem_cons, or_comm]
    · simp only [Function.update_of_ne hqp]
  · rfl

lemma Consistent.yield (h : r.Consistent) (ht : t ∈ r.list p) : (r.yield p t).Consistent := by
  rw [ReadyTable.yield]
  split
  · refine ⟨?_, h.above, ?_⟩
    · intro q
      rw [h.group]
      by_cases hqp : q = p
      · subst hqp
        simp [List.ne_nil_of_mem ht]
      · simp [Function.update_of_ne hqp]
    · intro q
      by_cases hqp : q = p
      · subst hqp
        simp only [Function.update_self]
        exact (List.nodup_append_comm).mpr
          (List.nodup_cons.mpr ⟨(h.nodup q).not_mem_erase, (h.nodup q).erase t⟩)
      · simp only [Function.update_of_ne hqp]
        exact h.nodup q
  · exact h

omit [DecidableEq T] in
/-- The search gives the first list that is not empty. -/
lemma Consistent.toThread_of_lowest (h : r.Consistent) (hp : r.list p ≠ [])
    (hq : ∀ q < p, r.list q = []) : r.toThread = (r.list p).head? := by
  have hbit : r.group.getLsbD p.val = true := (h.group p).mpr hp
  have hne : r.group ≠ 0 := by
    intro hzero
    simp [hzero] at hbit
  obtain ⟨n, hn, hlow⟩ := rtFfs_eq hne
  have hlowest : IsLowest r.group p.val := by
    refine ⟨hbit, ?_⟩
    intro j hj
    have hgroup := h.group ⟨j, hj.trans p.isLt⟩
    rw [hq ⟨j, hj.trans p.isLt⟩ hj] at hgroup
    simpa using hgroup
  obtain rfl := hlow.unique hlowest
  have hpriority : r.highestReadyPriority.toNat = p.val := by
    have hp8 : p.val < 8 := p.isLt
    rw [highestReadyPriority, hn, BitVec.ofNat_add]
    simp
    omega
  rw [toThread, dif_pos (hpriority ▸ p.isLt)]
  congr 2
  exact Fin.ext hpriority

omit [DecidableEq T] in
/-- With no bit set the search gives a number that is not a priority. -/
lemma toThread_of_group_eq_zero (h : r.group = 0) : r.toThread = none := by
  have hpriority : ¬r.highestReadyPriority.toNat < rtThreadPriorityMax := by
    rw [highestReadyPriority, h]
    decide
  exact dif_neg hpriority

omit [DecidableEq T] in
lemma Consistent.exists_lowest (h : r.Consistent) (hne : r.group ≠ 0) :
    ∃ p, r.list p ≠ [] ∧ ∀ q < p, r.list q = [] := by
  obtain ⟨n, -, hset, hclear⟩ := rtFfs_eq hne
  have hn : n < rtThreadPriorityMax := by
    by_contra hge
    rw [h.above n (Nat.not_lt.mp hge)] at hset
    exact absurd hset Bool.false_ne_true
  refine ⟨⟨n, hn⟩, (h.group ⟨n, hn⟩).mp hset, ?_⟩
  intro q hq
  have hgroup := h.group q
  rw [hclear q hq] at hgroup
  simpa using hgroup

omit [DecidableEq T] in
/-- **The choice.**  The thread that `rt_schedule` switches to is the first one in the first list
that is not empty. -/
theorem Consistent.toThread_eq (h : r.Consistent) :
    r.toThread = some t ↔ ∃ p, (r.list p).head? = some t ∧ ∀ q < p, r.list q = [] := by
  constructor
  · intro ht
    have hne : r.group ≠ 0 := by
      intro hzero
      rw [toThread_of_group_eq_zero hzero] at ht
      exact absurd ht (by simp)
    obtain ⟨p, hp, hempty⟩ := h.exists_lowest hne
    rw [h.toThread_of_lowest hp hempty] at ht
    exact ⟨p, ht, hempty⟩
  · rintro ⟨p, hp, hempty⟩
    have hne : r.list p ≠ [] := by
      intro hnil
      rw [hnil] at hp
      exact absurd hp (by simp)
    rw [h.toThread_of_lowest hne hempty, hp]

omit [DecidableEq T] in
lemma Consistent.toThread_eq_none (h : r.Consistent) (hnone : r.toThread = none) :
    ∀ p, r.list p = [] := by
  by_contra hne
  have hgroup : r.group ≠ 0 := by
    intro hzero
    refine hne ?_
    intro p
    by_contra hp
    have hbit := (h.group p).mpr hp
    simp [hzero] at hbit
  obtain ⟨p, hp, hempty⟩ := h.exists_lowest hgroup
  rw [h.toThread_of_lowest hp hempty] at hnone
  exact hp (List.head?_eq_none_iff.mp hnone)

end ReadyTable

end HdmiDisplay.Rtos
