/-
# Turns in a queue

How long a member of a queue waits for its turn: the times of the members ahead of it.  Members that
come to the end of the queue do not make the wait longer, and members that leave the queue, or go to
its end, make it shorter by their time.
-/
import Mathlib.Tactic.Common

namespace Turns

variable {α : Type*} [DecidableEq α]

/-- The times of the members that are ahead of a member. -/
def wait (f : α → ℕ) (a : α) : List α → ℕ
  | [] => 0
  | b :: l => if b = a then 0 else f b + wait f a l

variable {f g : α → ℕ} {a b : α} {l : List α}

lemma wait_cons (h : b ≠ a) : wait f a (b :: l) = f b + wait f a l := if_neg h

/-- Nobody is ahead of the first member. -/
lemma wait_cons_self : wait f a (a :: l) = 0 := if_pos rfl

lemma wait_append (h : a ∈ l) (l' : List α) : wait f a (l ++ l') = wait f a l := by
  induction l with
  | nil => exact absurd h List.not_mem_nil
  | cons b l ih =>
    by_cases hb : b = a
    · subst hb
      rw [List.cons_append, wait_cons_self, wait_cons_self]
    · rw [List.cons_append, wait_cons hb, wait_cons hb,
        ih ((List.mem_cons.mp h).resolve_left (Ne.symm hb))]

lemma wait_erase_le (h : b ≠ a) : wait f a (l.erase b) ≤ wait f a l := by
  induction l with
  | nil => exact Nat.le_refl _
  | cons c l ih =>
    by_cases hc : c = b
    · subst hc
      rw [List.erase_cons_head, wait_cons h]
      exact Nat.le_add_left ..
    · rw [List.erase_cons_tail (by simpa using hc)]
      by_cases hca : c = a
      · subst hca
        exact Nat.le_of_eq (wait_cons_self.trans wait_cons_self.symm)
      · rw [wait_cons hca, wait_cons hca]
        exact Nat.add_le_add_left ih _

/-- The time of the member itself and of those behind it do not count. -/
lemma wait_congr (h : ∀ b ∈ l, b ≠ a → f b = g b) : wait f a l = wait g a l := by
  induction l with
  | nil => rfl
  | cons b l ih =>
    by_cases hb : b = a
    · subst hb
      rw [wait_cons_self, wait_cons_self]
    · rw [wait_cons hb, wait_cons hb, h b List.mem_cons_self hb,
        ih fun c hc => h c (List.mem_cons_of_mem b hc)]

end Turns
