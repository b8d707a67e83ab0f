/-
# Blocks of a list

A block of a list, the `n` elements from an index on, can be replaced by copies of an element or by
another block of the list.  A program that stores to an array in some order is compared with these.
-/
import Mathlib.Tactic.Common

namespace Block

variable {α : Type*} {m : List α} {a : α} {d s n i : ℕ}

/-- The block at `d` is replaced by copies of `a`. -/
def fill (m : List α) (d : ℕ) (a : α) (n : ℕ) : List α :=
  m.take d ++ List.replicate n a ++ m.drop (d + n)

/-- The block at `d` is replaced by the block at `s`. -/
def move (m : List α) (d s n : ℕ) : List α := m.take d ++ (m.drop s).take n ++ m.drop (d + n)

lemma length_fill (h : d + n ≤ m.length) : (fill m d a n).length = m.length := by
  simp only [fill, List.length_append, List.length_take, List.length_replicate, List.length_drop]
  omega

lemma length_move (hd : d + n ≤ m.length) (hs : s + n ≤ m.length) :
    (move m d s n).length = m.length := by
  simp only [move, List.length_append, List.length_take, List.length_drop]
  omega

lemma getElem?_fill (h : d + n ≤ m.length) :
    (fill m d a n)[i]? = if d ≤ i ∧ i < d + n then some a else m[i]? := by
  rw [fill, List.append_assoc, List.getElem?_append, List.getElem?_append, List.length_take,
    List.length_replicate, Nat.min_eq_left (by omega)]
  split_ifs with h₁ h₂ h₃ h₄ h₅
  all_goals first | omega | skip
  · exact List.getElem?_take_of_lt h₁
  · exact List.getElem?_replicate_of_lt h₃
  · rw [List.getElem?_drop]
    congr 1
    omega

lemma getElem?_move (hd : d + n ≤ m.length) (hs : s + n ≤ m.length) :
    (move m d s n)[i]? = if d ≤ i ∧ i < d + n then m[s + (i - d)]? else m[i]? := by
  have hlen : ((m.drop s).take n).length = n := by
    simp only [List.length_take, List.length_drop]
    omega
  rw [move, List.append_assoc, List.getElem?_append, List.getElem?_append, List.length_take,
    hlen, Nat.min_eq_left (by omega)]
  split_ifs with h₁ h₂ h₃ h₄ h₅
  all_goals first | omega | skip
  · exact List.getElem?_take_of_lt h₁
  · rw [List.getElem?_take_of_lt h₃, List.getElem?_drop]
  · rw [List.getElem?_drop]
    congr 1
    omega

@[simp] lemma fill_zero (m : List α) (d : ℕ) (a : α) : fill m d a 0 = m := by
  simp [fill]

@[simp] lemma move_zero (m : List α) (d s : ℕ) : move m d s 0 = m := by
  simp [move]

/-- Blocks side by side. -/
lemma fill_fill {k : ℕ} (h : d + n + k ≤ m.length) :
    fill (fill m d a n) (d + n) a k = fill m d a (n + k) := by
  refine List.ext_getElem? fun i => ?_
  rw [getElem?_fill (by rw [length_fill (by omega)]; omega), getElem?_fill (by omega),
    getElem?_fill (by omega)]
  split_ifs
  all_goals first | rfl | omega

/-- The lower part of a block is moved before the upper part, which it does not overwrite. -/
lemma move_move_above {k : ℕ} (hd : d + n + k ≤ m.length) (hs : s + n + k ≤ m.length)
    (h : d ≤ s ∨ s + n + k ≤ d) :
    move (move m d s n) (d + n) (s + n) k = move m d s (n + k) := by
  have hlen : (move m d s n).length = m.length := length_move (by omega) (by omega)
  refine List.ext_getElem? fun i => ?_
  rw [getElem?_move (by omega) (by omega), getElem?_move (by omega) (by omega),
    getElem?_move (by omega) (by omega), getElem?_move (by omega) (by omega)]
  split_ifs
  all_goals first | rfl | omega | congr 1; omega

/-- The upper part of a block is moved before the lower part, which it does not overwrite. -/
lemma move_move_below {k : ℕ} (hd : d + n + k ≤ m.length) (hs : s + n + k ≤ m.length)
    (h : s ≤ d) : move (move m (d + n) (s + n) k) d s n = move m d s (n + k) := by
  have hlen : (move m (d + n) (s + n) k).length = m.length := length_move (by omega) (by omega)
  refine List.ext_getElem? fun i => ?_
  rw [getElem?_move (by omega) (by omega), getElem?_move (by omega) (by omega),
    getElem?_move (by omega) (by omega), getElem?_move (by omega) (by omega)]
  split_ifs
  all_goals first | rfl | omega | congr 1; omega

/-- One element is stored. -/
lemma fill_one (h : d < m.length) : fill m d a 1 = m.set d a := by
  refine List.ext_getElem? fun i => ?_
  rw [getElem?_fill (by omega), List.getElem?_set]
  split_ifs
  all_goals first | rfl | omega

/-- One element is copied. -/
lemma move_one [Inhabited α] (hd : d < m.length) (hs : s < m.length) :
    move m d s 1 = m.set d (m.getD s default) := by
  refine List.ext_getElem? fun i => ?_
  rw [getElem?_move (by omega) (by omega), List.getElem?_set, List.getD_eq_getElem?_getD]
  split_ifs with h₁ h₂ h₃
  all_goals first | rfl | omega | skip
  have hi : i - d = 0 := by omega
  rw [hi, Nat.add_zero, List.getElem?_eq_getElem hs, Option.getD_some]

end Block
