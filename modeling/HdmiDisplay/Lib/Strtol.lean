/-
# Reading integers from strings

The function `strtol` of the C standard, for a `long` with the values from `lo` to `hi` and a base
between 2 and 36.  A string is the list of its characters before the terminating null character.
The function skips white space, then takes an optional sign, in base 16 an optional prefix `0x`, and
as many digits as follow; where there are none it converts nothing and returns zero.  The second
component of its result is the string that it stores the end pointer to.
-/
import Mathlib.Data.Nat.Digits.Defs

namespace Strtol

/-- `isspace`, in the locale of the standard. -/
def isSpace (c : Char) : Bool := c = ' ' || (9 ≤ c.toNat && c.toNat ≤ 13)

/-- The value of a character as a digit, in bases up to 36. -/
def digitVal (c : Char) : Option ℕ :=
  if '0' ≤ c ∧ c ≤ '9' then some (c.toNat - 48)
  else if 'a' ≤ c ∧ c ≤ 'z' then some (c.toNat - 87)
  else if 'A' ≤ c ∧ c ≤ 'Z' then some (c.toNat - 55)
  else none

/-- The value of a character as a digit in base `base`. -/
def digit (base : ℕ) (c : Char) : Option ℕ := (digitVal c).filter fun d => d < base

/-- The sign at the front of a string, if any: whether it is a minus, and the rest. -/
def takeSign : List Char → Bool × List Char
  | '-' :: s => (true, s)
  | '+' :: s => (false, s)
  | s => (false, s)

/-- The string behind the prefix of base 16, which only counts as one if a digit follows. -/
def dropPrefix (base : ℕ) (s : List Char) : List Char :=
  match s with
  | '0' :: x :: c :: t =>
      if base = 16 ∧ (x = 'x' ∨ x = 'X') ∧ (digit 16 c).isSome then c :: t else s
  | _ => s

/-- The values of the digits at the front of a string, and the rest. -/
def takeDigits (base : ℕ) : List Char → List ℕ × List Char
  | [] => ([], [])
  | c :: s =>
      match digit base c with
      | some d => ((d :: (takeDigits base s).1), (takeDigits base s).2)
      | none => ([], c :: s)

/-- The number with these digits, the most significant one first. -/
def value (base : ℕ) (ds : List ℕ) : ℕ := ds.foldl (fun n d => n * base + d) 0

/-- A value outside of the range is replaced by the end of the range. -/
def toRange (lo hi n : ℤ) : ℤ := if n < lo then lo else if hi < n then hi else n

/-- `strtol`. -/
def strtol (lo hi : ℤ) (base : ℕ) (s : List Char) : ℤ × List Char :=
  let signed := takeSign (s.dropWhile isSpace)
  let digits := takeDigits base (dropPrefix base signed.2)
  if digits.1 = [] then (0, s)
  else
    (toRange lo hi (if signed.1 then -(value base digits.1 : ℤ) else value base digits.1), digits.2)

/-! ### Strings of digits -/

variable {base : ℕ} {c : Char} {s : List Char}

lemma value_eq_ofDigits (base : ℕ) (ds : List ℕ) :
    value base ds = Nat.ofDigits base ds.reverse := by
  rw [value, Nat.ofDigits_eq_foldr, List.foldr_reverse]
  congr 1
  funext n d
  rw [Nat.cast_id, Nat.mul_comm, Nat.add_comm]

/-- A number is below the power of its base that its digits suggest. -/
lemma value_lt {ds : List ℕ} (hbase : 1 < base) (h : ∀ d ∈ ds, d < base) :
    value base ds < base ^ ds.length := by
  rw [value_eq_ofDigits, ← List.length_reverse]
  exact Nat.ofDigits_lt_base_pow_length hbase fun d hd => h d (List.mem_reverse.mp hd)

lemma digit_lt {d : ℕ} (h : digit base c = some d) : d < base :=
  of_decide_eq_true (Option.filter_eq_some_iff.mp h).2

/-- Digits are letters and decimal digits. -/
lemma toNat_of_digit (h : (digit base c).isSome) : 48 ≤ c.toNat := by
  have hval : (digitVal c).isSome := by
    obtain ⟨d, hd⟩ := Option.isSome_iff_exists.mp h
    rw [(Option.filter_eq_some_iff.mp hd).1]
    rfl
  rw [digitVal] at hval
  split_ifs at hval with h₁ h₂ h₃
  · exact h₁.1
  · exact le_trans (by decide) h₂.1
  · exact le_trans (by decide) h₃.1
  · exact absurd hval (by simp)

lemma isSpace_of_digit (h : (digit base c).isSome) : isSpace c = false := by
  have hlow := toNat_of_digit h
  have hblank : c ≠ ' ' := by
    rintro rfl
    exact absurd hlow (by decide)
  simp [isSpace, hblank]
  omega

/-- White space, a sign and a prefix are no digits, so that digits come to the conversion. -/
lemma takeSign_of_digits (h : ∀ c ∈ s, (digit base c).isSome) :
    takeSign (s.dropWhile isSpace) = (false, s) := by
  cases s with
  | nil => rfl
  | cons c s =>
    have hc := h c List.mem_cons_self
    have hlow := toNat_of_digit hc
    rw [List.dropWhile_cons_of_neg (by simp [isSpace_of_digit hc]), takeSign]
    · rintro t ⟨⟩
      exact absurd hlow (by decide)
    · rintro t ⟨⟩
      exact absurd hlow (by decide)

lemma dropPrefix_of_digits (h : ∀ c ∈ s, (digit base c).isSome) : dropPrefix base s = s := by
  unfold dropPrefix
  split
  · next x c t =>
    refine if_neg ?_
    rintro ⟨rfl, rfl | rfl, -⟩
    · exact absurd (h 'x' (by simp)) (by decide)
    · exact absurd (h 'X' (by simp)) (by decide)
  · rfl

lemma takeDigits_of_digits (h : ∀ c ∈ s, (digit base c).isSome) :
    takeDigits base s = (s.filterMap (digit base), []) := by
  induction s with
  | nil => rfl
  | cons c s ih =>
    obtain ⟨d, hd⟩ := Option.isSome_iff_exists.mp (h c List.mem_cons_self)
    rw [takeDigits, hd, ih fun c hc => h c (List.mem_cons_of_mem _ hc), List.filterMap_cons_some hd]

/-- **A string of digits** is converted as a whole, to the number that it denotes. -/
theorem strtol_of_digits {lo hi : ℤ} (hne : s ≠ []) (h : ∀ c ∈ s, (digit base c).isSome)
    (hlo : lo ≤ 0) (hhi : value base (s.filterMap (digit base)) ≤ hi) :
    strtol lo hi base s = ((value base (s.filterMap (digit base)) : ℤ), []) := by
  have hsome : s.filterMap (digit base) ≠ [] := by
    obtain ⟨c, t, rfl⟩ := List.exists_cons_of_ne_nil hne
    obtain ⟨d, hd⟩ := Option.isSome_iff_exists.mp (h c List.mem_cons_self)
    rw [List.filterMap_cons_some hd]
    exact List.cons_ne_nil _ _
  rw [strtol, takeSign_of_digits h, dropPrefix_of_digits h, takeDigits_of_digits h]
  dsimp only
  rw [if_neg hsome, if_neg Bool.false_ne_true, toRange, if_neg (by omega), if_neg (by omega)]

end Strtol
