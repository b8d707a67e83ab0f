/-
# Bit sequences and streams of symbols

Counting on sequences of bits: how many ones and zeros the first `n` bits have, their difference
(the *disparity*), and how many times two neighbouring bits differ.  A word `x : BitVec w` is read
as the sequence `x.getLsbD`, least significant bit first, and a sequence of words is read as one
stream of bits, every word being sent least significant bit first.
-/
import Mathlib.Algebra.Order.Ring.Int
import Mathlib.Data.Nat.Count
import Mathlib.Tactic.Common

namespace BitSeq

/-- The number of ones among the first `n` bits. -/
def ones (f : ℕ → Bool) (n : ℕ) : ℕ := Nat.count (fun i => f i = true) n

/-- The number of zeros among the first `n` bits. -/
def zeros (f : ℕ → Bool) (n : ℕ) : ℕ := Nat.count (fun i => f i = false) n

/-- The number of ones minus the number of zeros among the first `n` bits. -/
def disparity (f : ℕ → Bool) (n : ℕ) : ℤ := (ones f n : ℤ) - zeros f n

/-- The number of neighbouring pairs of different bits among the first `n + 1` bits. -/
def transitions (f : ℕ → Bool) (n : ℕ) : ℕ := Nat.count (fun i => f i ≠ f (i + 1)) n

variable {f g : ℕ → Bool} {n : ℕ}

@[simp] lemma ones_zero (f : ℕ → Bool) : ones f 0 = 0 := Nat.count_zero _

lemma ones_succ (f : ℕ → Bool) (n : ℕ) : ones f (n + 1) = ones f n + (f n).toNat := by
  cases h : f n <;> simp [ones, Nat.count_succ, h]

lemma ones_succ_front (f : ℕ → Bool) (n : ℕ) :
    ones f (n + 1) = ones (fun i => f (i + 1)) n + (f 0).toNat := by
  cases h : f 0 <;> simp [ones, Nat.count_succ', h]

lemma zeros_succ (f : ℕ → Bool) (n : ℕ) : zeros f (n + 1) = zeros f n + (!f n).toNat := by
  cases h : f n <;> simp [zeros, Nat.count_succ, h]

lemma transitions_succ (f : ℕ → Bool) (n : ℕ) :
    transitions f (n + 1) = transitions f n + (f n ^^ f (n + 1)).toNat := by
  cases h : f n <;> cases h' : f (n + 1) <;> simp [transitions, Nat.count_succ, h, h']

/-- Every bit is a one or a zero. -/
lemma ones_add_zeros (f : ℕ → Bool) (n : ℕ) : ones f n + zeros f n = n := by
  induction n with
  | zero => rfl
  | succ n ih =>
    rw [ones_succ, zeros_succ]
    cases f n <;> simp <;> omega

lemma ones_le (f : ℕ → Bool) (n : ℕ) : ones f n ≤ n := Nat.count_le _

lemma ones_congr (h : ∀ i < n, f i = g i) : ones f n = ones g n := by
  induction n with
  | zero => rfl
  | succ n ih =>
    rw [ones_succ, ones_succ, ih fun i hi => h i (Nat.lt_succ_of_lt hi), h n (Nat.lt_succ_self n)]

lemma transitions_congr (h : ∀ i ≤ n, f i = g i) : transitions f n = transitions g n := by
  induction n with
  | zero => rfl
  | succ n ih =>
    rw [transitions_succ, transitions_succ, ih fun i hi => h i (Nat.le_succ_of_le hi),
      h n (Nat.le_succ n), h (n + 1) le_rfl]

/-- Inverting every bit exchanges ones and zeros. -/
lemma ones_not (f : ℕ → Bool) (n : ℕ) : ones (fun i => !f i) n = zeros f n := by
  simp [ones, zeros]

/-- Inverting every bit keeps the transitions where they are. -/
lemma transitions_not (f : ℕ → Bool) (n : ℕ) :
    transitions (fun i => !f i) n = transitions f n := by
  induction n with
  | zero => rfl
  | succ n ih => rw [transitions_succ, transitions_succ, ih, Bool.not_xor_not]

lemma disparity_eq (f : ℕ → Bool) (n : ℕ) : disparity f n = 2 * (ones f n : ℤ) - n := by
  have h := ones_add_zeros f n
  rw [disparity]
  omega

lemma disparity_congr (h : ∀ i < n, f i = g i) : disparity f n = disparity g n := by
  rw [disparity_eq, disparity_eq, ones_congr h]

lemma ones_eq_zero_of_false (h : ∀ i < n, f i = false) : ones f n = 0 := by
  rw [ones_congr (g := fun _ => false) h]
  simp [ones]

lemma ones_eq_of_true (h : ∀ i < n, f i = true) : ones f n = n := by
  rw [ones_congr (g := fun _ => true) h]
  simp [ones]

/-- `n` bits at the front of a sequence that are all ones are among its ones. -/
lemma le_ones_of_true {m : ℕ} (hmn : n ≤ m) (h : ∀ i < n, f i = true) : n ≤ ones f m := by
  calc n = ones f n := (ones_eq_of_true h).symm
    _ ≤ ones f m := Nat.count_monotone _ hmn

lemma ones_le_of_false {m : ℕ} (hmn : n ≤ m) (h : ∀ i < n, f i = false) : ones f m + n ≤ m := by
  have hz : n ≤ ones (fun i => !f i) m := le_ones_of_true hmn fun i hi => by simp [h i hi]
  rw [ones_not] at hz
  have hm := ones_add_zeros f m
  omega

/-! ### Prefixes -/

/-- The disparity of a stretch is that of its front and that of the rest. -/
lemma disparity_add (f : ℕ → Bool) (m n : ℕ) :
    disparity f (m + n) = disparity f m + disparity (fun i => f (m + i)) n := by
  simp only [disparity, ones, zeros, Nat.count_add]
  push_cast
  omega

/-- Prefixes are as balanced as they are short. -/
lemma disparity_bounds (f : ℕ → Bool) (n : ℕ) : -(n : ℤ) ≤ disparity f n ∧ disparity f n ≤ n := by
  have hle := ones_le f n
  rw [disparity_eq]
  omega

/-- A prefix has no more ones than the whole. -/
lemma disparity_le_ones {m : ℕ} (hnm : n ≤ m) : disparity f n ≤ ones f m := by
  have hmono : ones f n ≤ ones f m := Nat.count_monotone _ hnm
  rw [disparity]
  omega

/-- Few ones among the first `m` bits keep the disparity of all prefixes low, some bits beyond the
first `m` included. -/
lemma disparity_le_of_ones_le {m r a : ℕ} (hones : ones f m ≤ a) (hsmall : a + r ≤ m)
    (hn : n ≤ m + r) : disparity f n ≤ a := by
  rcases Nat.le_total n m with hle | hge
  · have hprefix : disparity f n ≤ ones f m := disparity_le_ones hle
    omega
  · obtain ⟨i, rfl⟩ := Nat.exists_eq_add_of_le hge
    have hrest := (disparity_bounds (fun i => f (m + i)) i).2
    rw [disparity_add, disparity_eq f m]
    omega

lemma disparity_not (f : ℕ → Bool) (n : ℕ) : disparity (fun i => !f i) n = -disparity f n := by
  have hsum := ones_add_zeros f n
  rw [disparity_eq, disparity_eq, ones_not]
  omega

/-- Few zeros among the first `m` bits keep the disparity of all prefixes high. -/
lemma le_disparity_of_zeros_le {m r a : ℕ} (hzeros : zeros f m ≤ a) (hsmall : a + r ≤ m)
    (hn : n ≤ m + r) : -(a : ℤ) ≤ disparity f n := by
  rw [← ones_not] at hzeros
  have hle := disparity_le_of_ones_le hzeros hsmall hn
  rw [disparity_not] at hle
  omega

/-! ### Words -/

/-- The word made of the first `w` bits, the first one least significant. -/
def toWord (f : ℕ → Bool) : (w : ℕ) → BitVec w
  | 0 => 0#0
  | w + 1 => BitVec.cons (f w) (toWord f w)

lemma getLsbD_toWord (f : ℕ → Bool) {w i : ℕ} (hi : i < w) : (toWord f w).getLsbD i = f i := by
  induction w with
  | zero => omega
  | succ w ih =>
    rw [toWord, BitVec.getLsbD_cons]
    split
    · next h => rw [h]
    · next h => exact ih (by omega)

/-! ### Streams of symbols -/

variable {w : ℕ}

/-- The stream of bits made of the words `q 0`, `q 1`, …, each sent least significant bit first. -/
def serial (q : ℕ → BitVec w) (p : ℕ) : Bool := (q (p / w)).getLsbD (p % w)

lemma serial_mul_add (q : ℕ → BitVec w) (m : ℕ) {i : ℕ} (hi : i < w) :
    serial q (w * m + i) = (q m).getLsbD i := by
  have hw : 0 < w := by omega
  rw [serial, Nat.mul_add_div hw, Nat.div_eq_of_lt hi, Nat.mul_add_mod, Nat.mod_eq_of_lt hi,
    Nat.add_zero]

/-- The `n` bits from the position `p` on are all equal to `b`. -/
def ConstantOn (s : ℕ → Bool) (p n : ℕ) (b : Bool) : Prop := ∀ i < n, s (p + i) = b

end BitSeq
