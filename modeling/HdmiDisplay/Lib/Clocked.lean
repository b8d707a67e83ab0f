/-
# Clocked machines

A synchronous component is a collection of registers which is replaced, at every clock edge, by a
function of itself and of the inputs sampled at that edge.  Inputs are sequences indexed by the
clock edges, so that a run of any length is a stretch of `ℕ → ι`; `M.state x n` is the content of
the registers after the first `n` edges.  An invariant, which may mention the time, holds after
every edge, and a rank that every edge lowers has come down to zero after a known number of edges.
-/
import Mathlib.Tactic.Common

namespace Clocked

/-- A clocked machine: the registers at power-up, and their next value at a clock edge. -/
structure Machine (ι σ : Type*) where
  /-- The registers before the first clock edge. -/
  start : σ
  /-- The registers after a clock edge. -/
  step : σ → ι → σ

namespace Machine

variable {ι σ : Type*}

/-- The registers after `n` clock edges, the inputs sampled at the edge `i` being `x i`. -/
def state (M : Machine ι σ) (x : ℕ → ι) : ℕ → σ
  | 0 => M.start
  | n + 1 => M.step (M.state x n) (x n)

variable (M : Machine ι σ)

lemma state_succ (x : ℕ → ι) (n : ℕ) : M.state x (n + 1) = M.step (M.state x n) (x n) := rfl

/-- The machine with other registers at power-up. -/
def startAt (s : σ) : Machine ι σ := ⟨s, M.step⟩

variable {M}

/-- **The invariant rule with time.**  What holds at power-up and is preserved by every edge of
the run holds after every edge. -/
theorem invariant_at (Inv : ℕ → σ → Prop) {x : ℕ → ι} (h₀ : Inv 0 M.start)
    (hs : ∀ n s, Inv n s → Inv (n + 1) (M.step s (x n))) (n : ℕ) : Inv n (M.state x n) := by
  induction n with
  | zero => exact h₀
  | succ n ih => exact hs n _ ih

/-- **The invariant rule** for a machine with arbitrary inputs. -/
theorem invariant (Inv : σ → Prop) (h₀ : Inv M.start) (hs : ∀ s i, Inv s → Inv (M.step s i))
    (x : ℕ → ι) (n : ℕ) : Inv (M.state x n) :=
  invariant_at (fun _ => Inv) h₀ (fun n s => hs s (x n)) n

/-- **The countdown rule.**  A rank that every edge of the run lowers, as long as it is not zero, is
zero after as many edges as it was at power-up. -/
theorem countdown (rank : σ → ℕ) {x : ℕ → ι} (hs : ∀ n s, rank (M.step s (x n)) ≤ rank s - 1)
    (n : ℕ) : rank (M.state x n) ≤ rank M.start - n := by
  refine invariant_at (fun n s => rank s ≤ rank M.start - n) (Nat.le_refl _) ?_ n
  intro n s ih
  have hstep := hs n s
  omega

end Machine

end Clocked
