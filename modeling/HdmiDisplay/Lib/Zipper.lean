/-
# Texts with a cursor

A text that is edited at a cursor, as the part before the cursor, whose nearest element comes
first, and the part behind it.  An array holds such a text in front of padding; inserting and
deleting at the cursor are moves of a block of the array by one.
-/
import HdmiDisplay.Lib.Block

/-- A text with a cursor. -/
structure Zipper (α : Type*) where
  before : List α
  after : List α
deriving DecidableEq, Repr

namespace Zipper

variable {α : Type*} (z : Zipper α) (a : α)

/-- The text. -/
def text : List α := z.before.reverse ++ z.after

/-- The position of the cursor in the text. -/
def cursor : ℕ := z.before.length

/-- The text `s`, with the cursor at its end. -/
def ofList (s : List α) : Zipper α := ⟨s.reverse, []⟩

/-- An element is inserted before the cursor. -/
def insert : Zipper α := ⟨a :: z.before, z.after⟩

/-- The element before the cursor is deleted. -/
def backspace : Zipper α := ⟨z.before.tail, z.after⟩

/-- The cursor moves to the left. -/
def left : Zipper α :=
  match z.before with
  | [] => z
  | a :: s => ⟨s, a :: z.after⟩

/-- The cursor moves to the right. -/
def right : Zipper α :=
  match z.after with
  | [] => z
  | a :: s => ⟨a :: z.before, s⟩

variable {z a} {s t : List α} {l p : List α}

@[simp] lemma text_ofList (s : List α) : (ofList s).text = s := by
  rw [ofList, text, List.reverse_reverse, List.append_nil]

@[simp] lemma cursor_ofList (s : List α) : (ofList s).cursor = s.length := List.length_reverse

lemma length_text (z : Zipper α) : z.text.length = z.before.length + z.after.length := by
  rw [text, List.length_append, List.length_reverse]

lemma text_insert (z : Zipper α) (a : α) :
    (z.insert a).text = z.before.reverse ++ a :: z.after := by
  rw [insert, text, List.reverse_cons, List.append_assoc, List.singleton_append]

lemma length_text_insert (z : Zipper α) (a : α) :
    (z.insert a).text.length = z.text.length + 1 := by
  rw [text_insert, length_text, List.length_append, List.length_reverse, List.length_cons]
  omega

@[simp] lemma text_left (z : Zipper α) : z.left.text = z.text := by
  obtain ⟨before, after⟩ := z
  cases before with
  | nil => rfl
  | cons a s => rw [left, text, text, List.reverse_cons, List.append_assoc]; rfl

@[simp] lemma text_right (z : Zipper α) : z.right.text = z.text := by
  obtain ⟨before, after⟩ := z
  cases after with
  | nil => rfl
  | cons a s => rw [right, text, text, List.reverse_cons, List.append_assoc]; rfl

lemma cursor_left (z : Zipper α) : z.left.cursor = z.cursor - 1 := by
  obtain ⟨before, after⟩ := z
  cases before <;> rfl

lemma mem_text_backspace (h : a ∈ z.backspace.text) : a ∈ z.text := by
  obtain ⟨before, after⟩ := z
  rcases List.mem_append.mp h with h | h
  · exact List.mem_append_left _
      (List.mem_reverse.mpr (List.mem_of_mem_tail (List.mem_reverse.mp h)))
  · exact List.mem_append_right _ h

/-! ### Blocks of an array -/

/-- Behind a block that is moved up there is room for an element. -/
lemma set_move_up (s t p : List α) (a b : α) :
    (Block.move (s ++ t ++ b :: p) (s.length + 1) s.length t.length).set s.length a =
      s ++ a :: t ++ p := by
  refine List.ext_getElem? fun i => ?_
  have hlen : (s ++ t ++ b :: p).length = s.length + t.length + p.length + 1 := by
    simp only [List.length_append, List.length_cons]
    omega
  rw [List.getElem?_set, Block.length_move (by omega) (by omega),
    Block.getElem?_move (by omega) (by omega)]
  simp only [List.getElem?_append, List.getElem?_cons, List.length_append, List.length_cons]
  split_ifs
  all_goals first | rfl | omega | congr 1; omega

/-- A block that is moved down takes the place of an element. -/
lemma set_move_down (s t p : List α) (a b : α) :
    (Block.move (s ++ b :: t ++ p) s.length (s.length + 1) t.length).set (s.length + t.length) a =
      s ++ t ++ a :: p := by
  refine List.ext_getElem? fun i => ?_
  have hlen : (s ++ b :: t ++ p).length = s.length + t.length + p.length + 1 := by
    simp only [List.length_append, List.length_cons]
    omega
  rw [List.getElem?_set, Block.length_move (by omega) (by omega),
    Block.getElem?_move (by omega) (by omega)]
  simp only [List.getElem?_append, List.getElem?_cons, List.length_append, List.length_cons]
  split_ifs
  all_goals first | rfl | omega | congr 1; omega

end Zipper
