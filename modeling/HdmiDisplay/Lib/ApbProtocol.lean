/-
# The protocol of a peripheral bus

The master's side of an APB connection, for any types of addresses and data.  A transfer is a setup
cycle followed by access cycles with the same signals, up to one in which the slave is ready; the
slave's answer `ready` may depend on the whole past.  The main fact relates a transfer, which is a
notion of the protocol, to the signals alone: on a compliant bus the access phases of the transfers
of one kind (the writes to some addresses, say) are the maximal runs of the access cycles of that
kind, so that no cycle count or answer of the slave is needed to find them.
-/
import HdmiDisplay.Lib.SignalRuns

namespace ApbProtocol

open SignalRuns

/-- The signals that a master drives in a clock cycle. -/
structure Signals (α δ : Type*) where
  psel : Bool
  penable : Bool
  pwrite : Bool
  paddr : α
  pwdata : δ
deriving DecidableEq, Repr

variable {α δ : Type*}

namespace Signals

/-- A setup cycle. -/
def Setup (x : Signals α δ) : Prop := x.psel = true ∧ x.penable = false

/-- An access cycle. -/
def Access (x : Signals α δ) : Prop := x.psel = true ∧ x.penable = true

instance (x : Signals α δ) : Decidable x.Setup := inferInstanceAs (Decidable (_ ∧ _))

instance (x : Signals α δ) : Decidable x.Access := inferInstanceAs (Decidable (_ ∧ _))

lemma Setup.not_access {x : Signals α δ} (h : x.Setup) : ¬x.Access := by
  rintro ⟨-, henable⟩
  exact absurd henable (h.2 ▸ Bool.false_ne_true)

/-- The signals that a master holds during a transfer. -/
structure Same (x y : Signals α δ) : Prop where
  pwrite : x.pwrite = y.pwrite
  paddr : x.paddr = y.paddr
  pwdata : x.pwdata = y.pwdata

end Signals

open Signals

/-- The master follows the protocol: an access cycle continues a setup cycle, or an access cycle in
which the slave was not ready, and holds the signals; a transfer is not abandoned.  Between the
transfers there are setup and idle cycles in any number. -/
structure Compliant (x : ℕ → Signals α δ) (ready : ℕ → Bool) : Prop where
  access_zero : ¬(x 0).Access
  access_succ : ∀ n, (x (n + 1)).Access → (x n).Setup ∨ (x n).Access ∧ ready n = false
  same : ∀ n, (x (n + 1)).Access → Same (x n) (x (n + 1))
  wait : ∀ n, (x n).Access → ready n = false → (x (n + 1)).Access

/-- A transfer with the access cycles from `a` up to and without `b`. -/
structure Transfer (x : ℕ → Signals α δ) (ready : ℕ → Bool) (a : ℕ) (b : ℕ∞) : Prop where
  setup : ∃ k, a = k + 1 ∧ (x k).Setup
  nonempty : (a : ℕ∞) < b
  access : ∀ n, a ≤ n → (n : ℕ∞) < b → (x n).Access
  wait : ∀ n, a ≤ n → ((n + 1 : ℕ) : ℕ∞) < b → ready n = false
  done : ∀ n : ℕ, b = (n + 1 : ℕ) → ready n = true

/-- A kind of transfers: a property of access cycles that the held signals decide. -/
structure Kind (P : Signals α δ → Prop) : Prop where
  access : ∀ x, P x → x.Access
  same : ∀ x y, Same x y → y.Access → P x → P y

/-- The kind of the transfers that write to an address in `s`. -/
lemma kind_write (s : α → Prop) :
    Kind fun x : Signals α δ => x.Access ∧ x.pwrite = true ∧ s x.paddr := by
  refine ⟨fun x hx => hx.1, ?_⟩
  rintro x y hsame hy ⟨-, hwrite, haddr⟩
  exact ⟨hy, hsame.pwrite ▸ hwrite, hsame.paddr ▸ haddr⟩

variable {x : ℕ → Signals α δ} {ready : ℕ → Bool} {P : Signals α δ → Prop} {a : ℕ} {b : ℕ∞}

namespace Transfer

/-- The signals are held throughout a transfer. -/
lemma same (h : Transfer x ready a b) (hc : Compliant x ready) {n : ℕ} (ha : a ≤ n)
    (hb : (n : ℕ∞) < b) : Same (x a) (x n) := by
  induction n, ha using Nat.le_induction with
  | base => exact ⟨rfl, rfl, rfl⟩
  | succ n ha ih =>
    have hprev := ih (lt_trans (Nat.cast_lt.mpr n.lt_succ_self) hb)
    have hstep := hc.same n (h.access (n + 1) (Nat.le_succ_of_le ha) hb)
    exact ⟨hprev.pwrite.trans hstep.pwrite, hprev.paddr.trans hstep.paddr,
      hprev.pwdata.trans hstep.pwdata⟩

/-- The cycle after a transfer is no access cycle. -/
lemma not_access_end (h : Transfer x ready a b) (hc : Compliant x ready) {n : ℕ} (hb : b = n) :
    ¬(x n).Access := by
  have hpos : a < n := Nat.cast_lt.mp (hb ▸ h.nonempty)
  obtain ⟨m, rfl⟩ := Nat.exists_eq_succ_of_ne_zero (Nat.ne_zero_of_lt hpos)
  have hlast : (x m).Access :=
    h.access m (Nat.lt_succ_iff.mp hpos) (hb ▸ Nat.cast_lt.mpr m.lt_succ_self)
  intro hnext
  rcases hc.access_succ m hnext with hsetup | ⟨-, hwait⟩
  · exact hsetup.not_access hlast
  · exact absurd (h.done m hb) (hwait ▸ Bool.false_ne_true)

/-- The access cycles of a transfer of some kind are a run of that kind. -/
lemma isRun (h : Transfer x ready a b) (hc : Compliant x ready) (hP : Kind P) (ha : P (x a)) :
    IsRun (fun n => P (x n)) a b where
  nonempty := h.nonempty
  mem n hn hb := hP.same _ _ (h.same hc hn hb) (h.access n hn hb) ha
  left k hk hPk := by
    obtain ⟨k', hk', hsetup⟩ := h.setup
    obtain rfl : k = k' := Nat.succ_injective (hk.symm.trans hk')
    exact hsetup.not_access (hP.access _ hPk)
  right n hb hPn := h.not_access_end hc hb (hP.access _ hPn)

end Transfer

/-- A run of access cycles of some kind is a transfer. -/
lemma transfer_of_isRun (hc : Compliant x ready) (hP : Kind P)
    (h : IsRun (fun n => P (x n)) a b) : Transfer x ready a b := by
  have haccess : ∀ n, a ≤ n → (n : ℕ∞) < b → (x n).Access := fun n ha hb =>
    hP.access _ (h.mem n ha hb)
  refine ⟨?_, h.nonempty, haccess, ?_, ?_⟩
  · cases a with
    | zero => exact absurd (haccess 0 le_rfl h.nonempty) hc.access_zero
    | succ k =>
      have hfirst := haccess (k + 1) le_rfl h.nonempty
      refine ⟨k, rfl, (hc.access_succ k hfirst).resolve_right ?_⟩
      rintro ⟨hprev, -⟩
      -- an earlier access cycle would be of the same kind
      have hsame := hc.same k hfirst
      refine h.left k rfl (hP.same _ _ ⟨?_, ?_, ?_⟩ hprev h.start)
      · exact hsame.pwrite.symm
      · exact hsame.paddr.symm
      · exact hsame.pwdata.symm
  · intro n ha hb
    have hn : (x n).Access := haccess n ha (lt_trans (Nat.cast_lt.mpr n.lt_succ_self) hb)
    rcases hc.access_succ n (haccess (n + 1) (Nat.le_succ_of_le ha) hb) with hsetup | ⟨-, hwait⟩
    · exact absurd hn hsetup.not_access
    · exact hwait
  · intro n hb
    have hlt : a < n + 1 := Nat.cast_lt.mp (hb ▸ h.nonempty)
    have hn : P (x n) :=
      h.mem n (Nat.lt_succ_iff.mp hlt) (hb ▸ Nat.cast_lt.mpr n.lt_succ_self)
    by_contra hwait
    have hnext := hc.wait n (hP.access _ hn) (Bool.not_eq_true _ ▸ hwait)
    exact h.right (n + 1) hb (hP.same _ _ (hc.same n hnext) hnext hn)

/-- **Transfers are runs.**  On a compliant bus the transfers of some kind are the maximal runs of
the access cycles of that kind. -/
theorem transfer_iff_isRun (hc : Compliant x ready) (hP : Kind P) :
    Transfer x ready a b ∧ P (x a) ↔ IsRun (fun n => P (x n)) a b := by
  constructor
  · rintro ⟨h, ha⟩
    exact h.isRun hc hP ha
  · intro h
    exact ⟨transfer_of_isRun hc hP h, h.start⟩

end ApbProtocol
