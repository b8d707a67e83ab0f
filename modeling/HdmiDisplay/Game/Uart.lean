/-
# The receiver of the UART

The receive register of `UART0` with its full flag, as `gw1ns4c_uart.c` sees them, and a log of what
became of the characters.  The register holds one character: one that is received while the register
is full is lost, or replaces the one in the register, which is lost then.  The log numbers the
characters in the order of their reception.
-/
import Mathlib.Data.List.Basic

namespace HdmiDisplay.Game

/-- The receive register, and the log of the characters received from power-up, `received` of them
so far. -/
structure Uart (T : Type*) where
  rxBufferFull : Bool
  data : Char
  /-- The number of the character in `data`. -/
  number : ℕ
  received : ℕ
  /-- Which thread has read which character. -/
  reads : List (T × ℕ)
  /-- The characters lost to an overrun. -/
  lost : List ℕ

namespace Uart

variable {T : Type*}

/-- Nothing has been received. -/
def empty : Uart T := ⟨false, default, 0, 0, [], []⟩

/-- A character is received; in a full register it may or may not overwrite the old one. -/
def receive (u : Uart T) (c : Char) (overwrite : Bool) : Uart T :=
  if u.rxBufferFull = false then
    { u with rxBufferFull := true, data := c, number := u.received, received := u.received + 1 }
  else if overwrite = true then
    { u with data := c, number := u.received, received := u.received + 1,
             lost := u.number :: u.lost }
  else { u with received := u.received + 1, lost := u.received :: u.lost }

/-- The thread `t` reads `DATA`, which clears the full flag. -/
def receiveChar (u : Uart T) (t : T) : Uart T :=
  if u.rxBufferFull = true then
    { u with rxBufferFull := false, reads := (t, u.number) :: u.reads }
  else u

/-- Every character received so far has been read, is lost, or stands in the register. -/
structure Accounted (u : Uart T) : Prop where
  number_lt : u.rxBufferFull = true → u.number < u.received
  reads_lt : ∀ t k, (t, k) ∈ u.reads → k < u.received
  fate : ∀ k < u.received,
    (∃ t, (t, k) ∈ u.reads) ∨ k ∈ u.lost ∨ u.rxBufferFull = true ∧ u.number = k

variable {u : Uart T} {c : Char} {overwrite : Bool} {t : T}

lemma accounted_empty : (empty : Uart T).Accounted := by
  refine ⟨nofun, nofun, fun k hk => absurd hk (Nat.not_lt_zero k)⟩

/-- What a reception does to the log. -/
lemma receive_cases (u : Uart T) (c : Char) (overwrite : Bool) :
    (u.receive c overwrite).reads = u.reads ∧
      (u.receive c overwrite).received = u.received + 1 ∧
      (u.receive c overwrite).rxBufferFull = true ∧
      ((u.receive c overwrite).number = u.received ∧ (u.receive c overwrite).lost = u.lost ∧
          u.rxBufferFull = false ∨
        (u.receive c overwrite).number = u.received ∧
          (u.receive c overwrite).lost = u.number :: u.lost ∧ u.rxBufferFull = true ∨
        (u.receive c overwrite).number = u.number ∧
          (u.receive c overwrite).lost = u.received :: u.lost ∧ u.rxBufferFull = true) := by
  rw [receive]
  cases u.rxBufferFull <;> cases overwrite <;> simp

lemma Accounted.receive (h : u.Accounted) : (u.receive c overwrite).Accounted := by
  obtain ⟨hreads, hreceived, hfull, hcases⟩ := receive_cases u c overwrite
  refine ⟨?_, ?_, ?_⟩
  · intro _
    rw [hreceived]
    rcases hcases with ⟨hn, -⟩ | ⟨hn, -⟩ | ⟨hn, -, hf⟩
    · rw [hn]
      exact Nat.lt_succ_self _
    · rw [hn]
      exact Nat.lt_succ_self _
    · rw [hn]
      exact Nat.lt_succ_of_lt (h.number_lt hf)
  · intro t k hk
    rw [hreceived]
    exact Nat.lt_succ_of_lt (h.reads_lt t k (hreads ▸ hk))
  · intro k hk
    rw [hreads, hfull]
    rw [hreceived] at hk
    rcases Nat.lt_succ_iff_lt_or_eq.mp hk with hold | rfl
    · rcases h.fate k hold with hread | hlost | ⟨hf, hnumber⟩
      · exact Or.inl hread
      · rcases hcases with ⟨-, hl, -⟩ | ⟨-, hl, -⟩ | ⟨-, hl, -⟩ <;> rw [hl] <;> simp [hlost]
      · -- the old character stands in the register, so that it is full
        rcases hcases with ⟨-, -, hf'⟩ | ⟨-, hl, -⟩ | ⟨hn, -, -⟩
        · exact absurd hf (hf' ▸ Bool.false_ne_true)
        · exact Or.inr (Or.inl (by rw [hl, hnumber]; exact List.mem_cons_self))
        · exact Or.inr (Or.inr ⟨rfl, hn.trans hnumber⟩)
    · -- the new character
      rcases hcases with ⟨hn, -⟩ | ⟨hn, -⟩ | ⟨-, hl, -⟩
      · exact Or.inr (Or.inr ⟨rfl, hn⟩)
      · exact Or.inr (Or.inr ⟨rfl, hn⟩)
      · exact Or.inr (Or.inl (by rw [hl]; exact List.mem_cons_self))

lemma Accounted.receiveChar (h : u.Accounted) : (u.receiveChar t).Accounted := by
  rw [Uart.receiveChar]
  by_cases hfull : u.rxBufferFull = true
  · rw [if_pos hfull]
    refine ⟨nofun, ?_, ?_⟩
    · intro t' k hk
      rcases List.mem_cons.mp hk with heq | hold
      · rw [(Prod.mk.inj heq).2]
        exact h.number_lt hfull
      · exact h.reads_lt t' k hold
    · intro k hk
      rcases h.fate k hk with ⟨t', hread⟩ | hlost | ⟨-, rfl⟩
      · exact Or.inl ⟨t', List.mem_cons_of_mem _ hread⟩
      · exact Or.inr (Or.inl hlost)
      · exact Or.inl ⟨t, List.mem_cons_self⟩
  · rw [if_neg hfull]
    exact h

end Uart

end HdmiDisplay.Game
