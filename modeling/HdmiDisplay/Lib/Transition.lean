/-
# Transition systems with events

A system whose state changes by events; the step function is partial, an event that cannot happen
in a state having no successor there.  The rules are the ones for safety, an invariant of all
reachable states, and for progress: a rank that every event of some kind lowers and no event raises
bounds the number of such events before a goal is passed.
-/
import Mathlib.Tactic.Common

namespace Transition

variable {σ ε : Type*} (step : σ → ε → Option σ)

/-- The state after a list of events. -/
def run : σ → List ε → Option σ
  | s, [] => some s
  | s, e :: es => (step s e).bind fun s' => run s' es

/-- The states that can be reached from `s₀`. -/
inductive Reachable (s₀ : σ) : σ → Prop
  | start : Reachable s₀ s₀
  | next {s s' : σ} (e : ε) : Reachable s₀ s → step s e = some s' → Reachable s₀ s'

/-- How many events of a run are of the kind `helpful`. -/
def helps (helpful : σ → ε → Bool) : σ → List ε → ℕ
  | _, [] => 0
  | s, e :: es => (helpful s e).toNat + (step s e).elim 0 fun s' => helps helpful s' es

/-- All steps of a run have a property. -/
def Along (P : σ → ε → σ → Prop) : σ → List ε → Prop
  | _, [] => True
  | s, e :: es => (step s e).elim True fun s' => P s e s' ∧ Along P s' es

/-- The state after a list of events of a system whose events have outputs, and the outputs. -/
def trace {ω : Type*} (step : σ → ε → Option (σ × ω)) : σ → List ε → Option (σ × List ω)
  | s, [] => some (s, [])
  | s, e :: es => (step s e).bind fun r => (trace step r.1 es).map fun u => (u.1, r.2 :: u.2)

variable {step} {s₀ s t : σ} {e : ε} {es : List ε}

@[simp] lemma run_nil : run step s [] = some s := rfl

lemma run_cons : run step s (e :: es) = some t ↔ ∃ s', step s e = some s' ∧
    run step s' es = some t := Option.bind_eq_some_iff

section Outputs

variable {ω : Type*} {step : σ → ε → Option (σ × ω)} {os : List ω}

@[simp] lemma trace_nil : trace step s [] = some (s, []) := rfl

lemma trace_cons : trace step s (e :: es) = some (t, os) ↔ ∃ s' o os', step s e = some (s', o) ∧
    trace step s' es = some (t, os') ∧ os = o :: os' := by
  rw [trace]
  constructor
  · intro h
    obtain ⟨⟨s', o⟩, hs', h⟩ := Option.bind_eq_some_iff.mp h
    obtain ⟨⟨u, os'⟩, hu, h⟩ := Option.map_eq_some_iff.mp h
    obtain ⟨rfl, rfl⟩ := Prod.mk.inj h
    exact ⟨s', o, os', hs', hu, rfl⟩
  · rintro ⟨s', o, os', hs', hu, rfl⟩
    rw [hs', Option.bind_some, hu, Option.map_some]

end Outputs

lemma Reachable.run (h : Reachable step s₀ s) (hrun : run step s es = some t) :
    Reachable step s₀ t := by
  induction es generalizing s with
  | nil =>
    rw [run_nil, Option.some_inj] at hrun
    exact hrun ▸ h
  | cons e es ih =>
    obtain ⟨u, hu, hrest⟩ := run_cons.mp hrun
    exact ih (h.next e hu) hrest

/-- **The invariant rule.** -/
theorem Reachable.invariant (Inv : σ → Prop) (h₀ : Inv s₀)
    (hs : ∀ s e s', Inv s → step s e = some s' → Inv s') (h : Reachable step s₀ s) : Inv s := by
  induction h with
  | start => exact h₀
  | next e _ hstep ih => exact hs _ e _ ih hstep

lemma along_cons {P : σ → ε → σ → Prop} {s' : σ} (h : step s e = some s') :
    Along step P s (e :: es) ↔ P s e s' ∧ Along step P s' es := by
  rw [Along, h, Option.elim_some]

/-- **The progress rule.**  In a run from a pending state with more helpful events than its rank,
whose steps are of a certain kind, the goal is passed. -/
theorem passes_of_rank_along (helpful : σ → ε → Bool) (P : σ → ε → σ → Prop)
    (Pending Goal : σ → Prop) (rank : σ → ℕ)
    (hs : ∀ s e s', Pending s → step s e = some s' → P s e s' →
      Goal s' ∨ Pending s' ∧ rank s' + (helpful s e).toNat ≤ rank s)
    (h : Pending s) (hrun : run step s es = some t) (halong : Along step P s es)
    (hmany : rank s < helps step helpful s es) :
    ∃ es₁ u, es₁ <+: es ∧ run step s es₁ = some u ∧ Goal u := by
  induction es generalizing s with
  | nil => exact absurd hmany (Nat.not_lt_zero _)
  | cons e es ih =>
    obtain ⟨s', hs', hrest⟩ := run_cons.mp hrun
    obtain ⟨hP, halong'⟩ := (along_cons hs').mp halong
    rcases hs s e s' h hs' hP with hgoal | ⟨hpending, hrank⟩
    · refine ⟨[e], s', ⟨es, rfl⟩, ?_, hgoal⟩
      exact run_cons.mpr ⟨s', hs', rfl⟩
    · rw [helps, hs', Option.elim_some] at hmany
      obtain ⟨es₁, u, hprefix, hu, hgoal⟩ := ih hpending hrest halong' (by omega)
      refine ⟨e :: es₁, u, ?_, run_cons.mpr ⟨s', hs', hu⟩, hgoal⟩
      exact (List.prefix_cons_inj e).mpr hprefix

lemma along_of_forall {P : σ → ε → σ → Prop} (h : ∀ s e s', P s e s') : Along step P s es := by
  induction es generalizing s with
  | nil => trivial
  | cons e es ih =>
    rw [Along]
    cases step s e with
    | none => trivial
    | some s' => exact ⟨h s e s', ih⟩

/-- The progress rule for all steps. -/
theorem passes_of_rank (helpful : σ → ε → Bool) (Pending Goal : σ → Prop) (rank : σ → ℕ)
    (hs : ∀ s e s', Pending s → step s e = some s' →
      Goal s' ∨ Pending s' ∧ rank s' + (helpful s e).toNat ≤ rank s)
    (h : Pending s) (hrun : run step s es = some t) (hmany : rank s < helps step helpful s es) :
    ∃ es₁ u, es₁ <+: es ∧ run step s es₁ = some u ∧ Goal u :=
  passes_of_rank_along helpful (fun _ _ _ => True) Pending Goal rank
    (fun s e s' hpending hstep _ => hs s e s' hpending hstep) h hrun
    (along_of_forall fun _ _ _ => trivial) hmany

end Transition
