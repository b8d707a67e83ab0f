/-
# The serial stream of a lane and its alignment

`Serializer.vhd` connects the bit `i` of the symbol to the input `Di` of the `OSER10` primitive,
which is taken to send ten bits per pixel clock, `D0` first.  A receiver does not know where the
symbols begin in this stream.  It finds out from two adjacent control tokens: they have so many
transitions, at such places, that they cannot appear off the symbol boundaries, whatever the
encoder was fed.
-/
import HdmiDisplay.Tmds.Decode

namespace HdmiDisplay.Tmds

open BitSeq Clocked

/-- The port map of the serializer: the input `Di` of `OSER10` is `data_in(i)`. -/
def serializerPort (dataIn : BitVec 10) (i : ℕ) : Bool := dataIn.getLsbD i

/-- The output of `OSER10` whose inputs during the pixel clock `m` are `ports m`. -/
def oser10 (ports : ℕ → ℕ → Bool) (p : ℕ) : Bool := ports (p / 10) (p % 10)

/-- The symbol sent at the clock `m`. -/
def sentSymbol (q₀ : BitVec 10) (x : ℕ → Input) (m : ℕ) : BitVec 10 :=
  ((encoder q₀).state x (m + 1)).qOut

/-- The bit stream of a lane. -/
def laneBits (q₀ : BitVec 10) (x : ℕ → Input) : ℕ → Bool :=
  oser10 fun m => serializerPort (sentSymbol q₀ x m)

variable {q₀ : BitVec 10} {x : ℕ → Input}

lemma laneBits_eq_serial : laneBits q₀ x = serial (sentSymbol q₀ x) := rfl

lemma laneBits_mul_add (m : ℕ) {i : ℕ} (hi : i < 10) :
    laneBits q₀ x (10 * m + i) = (sentSymbol q₀ x m).getLsbD i := by
  rw [laneBits_eq_serial, serial_mul_add _ _ hi]

/-- Every clock sends a control token or a symbol with at most five transitions. -/
lemma sentSymbol_cases (q₀ : BitVec 10) (x : ℕ → Input) (m : ℕ) :
    (∃ c, sentSymbol q₀ x m = controlToken c) ∨
      transitions (sentSymbol q₀ x m).getLsbD 9 ≤ 5 := by
  have hsym : sentSymbol q₀ x m = (step ((encoder q₀).state x m) (x m)).qOut := rfl
  rcases step_cases ((encoder q₀).state x m) (x m) with ⟨-, hs⟩ | ⟨-, hs⟩ | ⟨-, -, hs⟩
  · right
    rw [hsym, hs]
    decide
  · right
    obtain ⟨q9, hdraw⟩ := draw_spec ((encoder q₀).state x m).cnt (x m).d
    rw [hsym, hs, hdraw.qOut_eq]
    exact transitions_dataSymbol_le _ _
  · left
    exact ⟨(x m).c1c0, by rw [hsym, hs]⟩

/-! ### Control tokens in a stream -/

/-- The ten bits of the stream from the position `p` on are a control token. -/
def TokenAt (s : ℕ → Bool) (p : ℕ) : Prop :=
  ∃ c : BitVec 2, ∀ i < 10, s (p + i) = (controlToken c).getLsbD i

variable {s : ℕ → Bool} {p : ℕ}

lemma TokenAt.front (h : TokenAt s p) : s p = s (p + 1) := by
  obtain ⟨c, hc⟩ := h
  have h0 := hc 0 (by omega)
  rw [Nat.add_zero] at h0
  rw [h0, hc 1 (by omega)]
  exact (controlToken_shape c).1

lemma TokenAt.alternates (h : TokenAt s p) {i : ℕ} (h1 : 1 ≤ i) (h8 : i < 8) :
    s (p + i) ≠ s (p + i + 1) := by
  obtain ⟨c, hc⟩ := h
  rw [hc i (by omega), Nat.add_assoc, hc (i + 1) (by omega)]
  exact (controlToken_shape c).2 i h1 h8

/-- Between two adjacent tokens all pairs alternate, but for the pairs `0`, `8`, `9` and `10`. -/
lemma alternates_of_adjacent (h : TokenAt s p) (h' : TokenAt s (p + 10)) {j : ℕ}
    (hj : 1 ≤ j ∧ j < 8 ∨ 11 ≤ j ∧ j < 18) : s (p + j) ≠ s (p + j + 1) := by
  rcases hj with ⟨h1, h8⟩ | ⟨h11, h18⟩
  · exact h.alternates h1 h8
  · have hstep := h'.alternates (i := j - 10) (by omega) (by omega)
    rwa [show p + 10 + (j - 10) = p + j by omega] at hstep

/-- A symbol that lies inside two adjacent tokens, off their boundary, has at least six
transitions: at most three of its nine pairs are among the pairs `8`, `9` and `10`. -/
lemma six_le_transitions_of_adjacent (h : TokenAt s p) (h' : TokenAt s (p + 10)) {o : ℕ}
    (ho : 1 ≤ o) (ho' : o ≤ 9) : 6 ≤ transitions (fun i => s (p + o + i)) 9 := by
  have hmono : Nat.count (fun i => 1 ≤ o + i ∧ o + i < 8 ∨ 11 ≤ o + i ∧ o + i < 18) 9
      ≤ transitions (fun i => s (p + o + i)) 9 := by
    refine Nat.count_mono_left ?_
    intro i _ hi
    show s (p + o + i) ≠ s (p + o + (i + 1))
    rw [← Nat.add_assoc (p + o) i 1, Nat.add_assoc p o i]
    exact alternates_of_adjacent h h' hi
  refine le_trans ?_ hmono
  have hall : ∀ o ≤ 9, 1 ≤ o →
      6 ≤ Nat.count (fun i => 1 ≤ o + i ∧ o + i < 8 ∨ 11 ≤ o + i ∧ o + i < 18) 9 := by decide
  exact hall o ho' ho

/-- **Alignment.**  In the stream of a lane, two adjacent control tokens stand on a symbol
boundary. -/
theorem aligned_of_adjacent (h : TokenAt (laneBits q₀ x) p)
    (h' : TokenAt (laneBits q₀ x) (p + 10)) : p % 10 = 0 := by
  by_contra hne
  -- the symbol of the next clock starts `o` bits after `p` and lies inside the two tokens
  obtain ⟨o, ho, ho', hpo⟩ : ∃ o, 1 ≤ o ∧ o ≤ 9 ∧ p + o = 10 * (p / 10 + 1) :=
    ⟨10 - p % 10, by omega, by omega, by omega⟩
  have hbit : ∀ i < 10, laneBits q₀ x (p + o + i) = (sentSymbol q₀ x (p / 10 + 1)).getLsbD i := by
    intro i hi
    rw [hpo, laneBits_mul_add _ hi]
  have hsix := six_le_transitions_of_adjacent h h' ho ho'
  rw [transitions_congr fun i hi => hbit i (by omega)] at hsix
  rcases sentSymbol_cases q₀ x (p / 10 + 1) with ⟨c, hc⟩ | hfive
  · -- a token in between starts with a pair of equal bits, which fits only at the pair `8` or `9`,
    -- and then it alternates at the pair `10`, where the second token does not
    have hmid : TokenAt (laneBits q₀ x) (p + o) := ⟨c, fun i hi => by rw [hbit i hi, hc]⟩
    have ho8 : 8 ≤ o := by
      by_contra hlt
      exact h.alternates ho (by omega) hmid.front
    have hten := hmid.alternates (i := 10 - o) (by omega) (by omega)
    rw [show p + o + (10 - o) = p + 10 by omega] at hten
    exact hten h'.front
  · omega

/-! ### The receiver's lock -/

/-- The ten bits of the stream from the position `p` on, as a symbol. -/
def window (s : ℕ → Bool) (p : ℕ) : BitVec 10 := toWord (fun i => s (p + i)) 10

/-- A receiver that starts at the bit `start` locks at `p`: there it sees the first pair of
adjacent control tokens. -/
def LocksAt (s : ℕ → Bool) (start p : ℕ) : Prop :=
  (start ≤ p ∧ TokenAt s p ∧ TokenAt s (p + 10)) ∧
    ∀ r, start ≤ r → r < p → ¬(TokenAt s r ∧ TokenAt s (r + 10))

/-- On the symbol boundaries a window of the stream is the symbol sent. -/
lemma window_laneBits (m : ℕ) : window (laneBits q₀ x) (10 * m) = sentSymbol q₀ x m := by
  refine BitVec.eq_of_getLsbD_eq ?_
  intro i hi
  rw [window, getLsbD_toWord _ hi, laneBits_mul_add _ hi]

/-- **Self-alignment of the serial stream.**  In every run of the encoder, two adjacent control
tokens in the serial stream stand on a symbol boundary; so a receiver that locks to the first such
pair, from any bit on, reads the symbols that were sent, and decodes every later clock without
reset to what the encoder was fed. -/
theorem self_alignment (q₀ : BitVec 10) (x : ℕ → Input) :
    (∀ p, TokenAt (laneBits q₀ x) p → TokenAt (laneBits q₀ x) (p + 10) → p % 10 = 0) ∧
      ∀ start p, LocksAt (laneBits q₀ x) start p → ∀ k,
        window (laneBits q₀ x) (p + 10 * k) = sentSymbol q₀ x (p / 10 + k) ∧
          ((x (p / 10 + k)).reset = false →
            decode (window (laneBits q₀ x) (p + 10 * k))
              = if (x (p / 10 + k)).de = true then .data (x (p / 10 + k)).d
                else .control (x (p / 10 + k)).c1c0) := by
  refine ⟨fun p h h' => aligned_of_adjacent h h', ?_⟩
  rintro start p ⟨⟨-, h, h'⟩, -⟩ k
  have hp : p + 10 * k = 10 * (p / 10 + k) := by
    have := aligned_of_adjacent h h'
    omega
  have hwindow : window (laneBits q₀ x) (p + 10 * k) = sentSymbol q₀ x (p / 10 + k) := by
    rw [hp, window_laneBits]
  refine ⟨hwindow, ?_⟩
  intro hreset
  rw [hwindow]
  exact decode_step _ hreset

/-- Two data symbols, and then blanks whose control pair counts up: a receiver that starts inside
the first symbol locks to the first blank, and reads the control pairs from then on. -/
theorem self_alignment_blanking :
    let s := laneBits 0#10 fun i => ⟨false, 0x5A#8, BitVec.ofNat 2 i, decide (i < 2)⟩
    LocksAt s 3 20 ∧ ∀ k, decode (window s (20 + 10 * k)) = .control (BitVec.ofNat 2 (2 + k)) := by
  intro s
  obtain ⟨haligned, hreceiver⟩ := self_alignment 0#10
    fun i => ⟨false, 0x5A#8, BitVec.ofNat 2 i, decide (i < 2)⟩
  have htoken : TokenAt s 20 := ⟨0b10#2, by decide⟩
  have htoken' : TokenAt s (20 + 10) := ⟨0b11#2, by decide⟩
  have hdata : ¬TokenAt s 10 := by
    rintro ⟨c, hc⟩
    revert c
    decide
  have hlock : LocksAt s 3 20 := by
    refine ⟨⟨by decide, htoken, htoken'⟩, ?_⟩
    rintro r hr hlt ⟨h, h'⟩
    -- only the second data symbol stands on a boundary
    have hmod : r % 10 = 0 := haligned r h h'
    obtain rfl : r = 10 := by omega
    exact hdata h
  refine ⟨hlock, ?_⟩
  intro k
  have hblank : ¬decide (20 / 10 + k < 2) = true := by
    rw [decide_eq_true_eq]
    omega
  exact ((hreceiver 3 20 hlock k).2 rfl).trans (if_neg hblank)

end HdmiDisplay.Tmds
