/-
# Rings of nodes

Nodes with links in both directions that form rings.  A ring with a header holds the list of the
other nodes; linking a node in behind the header or in front of it, and taking a node out, are the
operations of the list at its ends, and a ring can be read from each of its nodes.
-/
import Mathlib.Data.List.Basic
import Mathlib.Data.List.Nodup
import Mathlib.Logic.Function.Basic
import Mathlib.Tactic.Common

/-- Nodes that are linked to a next and a previous one. -/
structure Links (α : Type*) where
  next : α → α
  prev : α → α

namespace Links

variable {α : Type*}

/-- Two nodes are linked with each other. -/
def Linked (s : Links α) (a b : α) : Prop := s.next a = b ∧ s.prev b = a

/-- The way from a node over others to a node. -/
def Path (s : Links α) : α → List α → α → Prop
  | a, [], b => s.Linked a b
  | a, x :: xs, b => s.Linked a x ∧ s.Path x xs b

/-- A header and the nodes behind it, and back to it. -/
structure IsRing (s : Links α) (l : α) (xs : List α) : Prop where
  nodup : (l :: xs).Nodup
  path : s.Path l xs l

/-- The links in the other direction. -/
def swap (s : Links α) : Links α := ⟨s.prev, s.next⟩

variable {s s' : Links α} {a b l n x : α} {xs ys : List α}

lemma swap_linked : s.swap.Linked a b ↔ s.Linked b a := and_comm

lemma path_append : s.Path a (xs ++ x :: ys) b ↔ s.Path a xs x ∧ s.Path x ys b := by
  induction xs generalizing a with
  | nil => exact Iff.rfl
  | cons c xs ih => rw [List.cons_append, Path, Path, ih, and_assoc]

lemma swap_path : s.swap.Path b xs.reverse a ↔ s.Path a xs b := by
  induction xs generalizing a with
  | nil => exact swap_linked
  | cons c xs ih =>
    rw [List.reverse_cons, path_append, ih, Path, and_comm]
    exact and_congr_left' swap_linked

/-- A way is kept where its links are. -/
lemma Path.congr (h : s.Path a xs b) (hnext : ∀ c ∈ a :: xs, s'.next c = s.next c)
    (hprev : ∀ c ∈ xs ++ [b], s'.prev c = s.prev c) : s'.Path a xs b := by
  induction xs generalizing a with
  | nil =>
    exact ⟨(hnext a List.mem_cons_self).trans h.1, (hprev b (List.mem_singleton_self b)).trans h.2⟩
  | cons c xs ih =>
    refine ⟨⟨(hnext a List.mem_cons_self).trans h.1.1, ?_⟩, ?_⟩
    · exact (hprev c List.mem_cons_self).trans h.1.2
    exact ih h.2 (fun d hd => hnext d (List.mem_cons_of_mem a hd))
      fun d hd => hprev d (List.mem_cons_of_mem c hd)

namespace IsRing

lemma swap (h : s.IsRing l xs) : s.swap.IsRing l xs.reverse := by
  refine ⟨?_, swap_path.mpr h.path⟩
  rw [List.nodup_cons, List.mem_reverse, List.nodup_reverse, ← List.nodup_cons]
  exact h.nodup

/-- A ring from one of its nodes. -/
lemma rotate (h : s.IsRing l (xs ++ x :: ys)) : s.IsRing x (ys ++ l :: xs) := by
  refine ⟨?_, ?_⟩
  · have hperm : ((x :: ys) ++ (l :: xs)).Perm ((l :: xs) ++ (x :: ys)) := List.perm_append_comm
    exact hperm.nodup_iff.mpr h.nodup
  · obtain ⟨hxs, hys⟩ := path_append.mp h.path
    exact path_append.mpr ⟨hys, hxs⟩

/-- A ring whose nodes keep their links. -/
lemma congr (h : s.IsRing l xs) (hnext : ∀ c ∈ l :: xs, s'.next c = s.next c)
    (hprev : ∀ c ∈ l :: xs, s'.prev c = s.prev c) : s'.IsRing l xs := by
  refine ⟨h.nodup, h.path.congr hnext fun c hc => hprev c ?_⟩
  rw [List.mem_append, List.mem_singleton] at hc
  exact List.mem_cons.mpr hc.symm

lemma next_header (h : s.IsRing l xs) : s.next l = xs.headD l := by
  cases xs with
  | nil => exact h.path.1
  | cons x xs => exact h.path.1.1

lemma prev_header (h : s.IsRing l xs) : s.prev l = xs.getLastD l := by
  have hswap := h.swap.next_header
  rw [List.headD_eq_head?_getD, List.head?_reverse] at hswap
  rw [List.getLastD_eq_getLast?]
  exact hswap

lemma next_eq_iff (h : s.IsRing l xs) : s.next l = l ↔ xs = [] := by
  cases xs with
  | nil => exact iff_of_true h.path.1 rfl
  | cons x xs =>
    refine iff_of_false ?_ (List.cons_ne_nil x xs)
    rw [h.path.1.1]
    rintro rfl
    exact (List.nodup_cons.mp h.nodup).1 List.mem_cons_self

/-- The neighbours of a node differ if there are two other nodes. -/
lemma next_eq_prev_iff (h : s.IsRing l xs) : s.next l = s.prev l ↔ xs.length ≤ 1 := by
  rw [h.next_header, h.prev_header]
  rcases xs with _ | ⟨x, xs⟩
  · exact iff_of_true rfl (Nat.zero_le 1)
  rcases List.eq_nil_or_concat xs with rfl | ⟨ys, y, rfl⟩
  · exact iff_of_true rfl (Nat.le_refl 1)
  · have hx := (List.nodup_cons.mp (List.nodup_cons.mp h.nodup).2).1
    rw [List.concat_eq_append] at hx ⊢
    have hlast : (x :: (ys ++ [y])).getLastD l = y := by
      rw [← List.cons_append, List.getLastD_concat]
    rw [List.headD_cons, hlast]
    refine iff_of_false ?_ (by simp)
    rintro rfl
    exact hx (by simp)

/-- Every node of the ring is linked with nodes of it. -/
lemma next_mem (h : s.IsRing l xs) (hx : x ∈ l :: xs) : s.next x ∈ l :: xs := by
  rcases List.mem_cons.mp hx with rfl | hx
  · rw [h.next_header]
    cases xs with
    | nil => exact List.mem_cons_self
    | cons y ys => exact List.mem_cons_of_mem _ List.mem_cons_self
  · obtain ⟨ys, zs, rfl⟩ := List.append_of_mem hx
    rw [h.rotate.next_header]
    cases zs with
    | nil => exact List.mem_cons_self
    | cons z zs => simp

lemma prev_mem (h : s.IsRing l xs) (hx : x ∈ l :: xs) : s.prev x ∈ l :: xs := by
  have hmem : s.prev x ∈ l :: xs.reverse := h.swap.next_mem (by simpa using hx)
  simpa using hmem

end IsRing

/-! ### Linking -/

variable [DecidableEq α]

/-- A node is linked with a node behind it. -/
def link (s : Links α) (a b : α) : Links α where
  next := Function.update s.next a b
  prev := Function.update s.prev b a

/-- A node is put behind another one. -/
def insertAfter (s : Links α) (l n : α) : Links α := (s.link n (s.next l)).link l n

/-- A node is put in front of another one. -/
def insertBefore (s : Links α) (l n : α) : Links α := (s.link (s.prev l) n).link n l

/-- A node is taken out. -/
def remove (s : Links α) (n : α) : Links α := (s.link (s.prev n) (s.next n)).link n n

lemma link_linked (s : Links α) (a b : α) : (s.link a b).Linked a b :=
  ⟨Function.update_self .., Function.update_self ..⟩

lemma link_next_of_ne (h : x ≠ a) : (s.link a b).next x = s.next x := Function.update_of_ne h ..

lemma link_prev_of_ne (h : x ≠ b) : (s.link a b).prev x = s.prev x := Function.update_of_ne h ..

lemma insertBefore_eq_swap (s : Links α) (l n : α) :
    s.insertBefore l n = (s.swap.insertAfter l n).swap := by
  rw [insertBefore, insertAfter, swap, swap, link, link, link, link]

namespace IsRing

/-- A node that is put behind the header comes first. -/
lemma insertAfter (h : s.IsRing l xs) (hn : n ∉ l :: xs) :
    (s.insertAfter l n).IsRing l (n :: xs) := by
  rw [List.mem_cons, not_or] at hn
  obtain ⟨hl, hxs⟩ := List.nodup_cons.mp h.nodup
  refine ⟨List.nodup_cons.mpr ⟨?_, List.nodup_cons.mpr ⟨hn.2, hxs⟩⟩, link_linked _ l n, ?_⟩
  · rw [List.mem_cons, not_or]
    exact ⟨Ne.symm hn.1, hl⟩
  have hfirst : (s.insertAfter l n).Linked n (s.next l) := by
    have hne : s.next l ≠ n := by
      intro heq
      have hmem := h.next_mem List.mem_cons_self
      rw [heq, List.mem_cons] at hmem
      exact hmem.elim hn.1 hn.2
    refine ⟨?_, ?_⟩
    · rw [Links.insertAfter, link_next_of_ne hn.1]
      exact (link_linked s n _).1
    · rw [Links.insertAfter, link_prev_of_ne hne]
      exact (link_linked s n _).2
  rw [h.next_header] at hfirst
  cases xs with
  | nil => exact hfirst
  | cons x xs =>
    rw [List.nodup_cons] at hxs
    rw [List.mem_cons, not_or] at hn hl
    refine ⟨hfirst, h.path.2.congr ?_ ?_⟩
    · intro c hc
      have hcl : c ≠ l := by
        rintro rfl
        exact (List.mem_cons.mp hc).elim hl.1 hl.2
      have hcn : c ≠ n := by
        rintro rfl
        exact (List.mem_cons.mp hc).elim hn.2.1 hn.2.2
      rw [Links.insertAfter, link_next_of_ne hcl, link_next_of_ne hcn]
    · intro c hc
      rw [List.mem_append, List.mem_singleton] at hc
      have hcn : c ≠ n := by
        rintro rfl
        exact hc.elim hn.2.2 hn.1
      have hcx : c ≠ x := by
        rintro rfl
        exact hc.elim hxs.1 (Ne.symm hl.1)
      rw [Links.insertAfter, link_prev_of_ne hcn, h.path.1.1, link_prev_of_ne hcx]

/-- A node that is put in front of the header comes last. -/
lemma insertBefore (h : s.IsRing l xs) (hn : n ∉ l :: xs) :
    (s.insertBefore l n).IsRing l (xs ++ [n]) := by
  have hswap := (h.swap.insertAfter (n := n) (by simpa using hn)).swap
  rwa [List.reverse_cons, List.reverse_reverse, ← insertBefore_eq_swap] at hswap

/-- A header that is taken out leaves the ring of the other nodes, and is a ring by itself. -/
lemma remove (h : s.IsRing n (x :: xs)) :
    (s.remove n).IsRing x xs ∧ (s.remove n).IsRing n [] := by
  obtain ⟨hn, hnodup⟩ := List.nodup_cons.mp h.nodup
  refine ⟨⟨hnodup, ?_⟩, ⟨List.nodup_singleton n, link_linked _ n n⟩⟩
  have hnext : s.next n = x := h.path.1.1
  have hprev : s.prev n = (x :: xs).getLastD n := h.prev_header
  have hne : ∀ c ∈ x :: xs, c ≠ n := by
    rintro c hc rfl
    exact hn hc
  rcases List.eq_nil_or_concat xs with rfl | ⟨ys, y, rfl⟩
  · have hx := hne x List.mem_cons_self
    have hlast : s.prev n = x := hprev
    rw [Path, Linked, Links.remove, link_next_of_ne hx, link_prev_of_ne hx, hnext, hlast]
    exact link_linked s x x
  · have hlast : s.prev n = y := by
      rw [hprev, List.concat_eq_append, List.getLastD_eq_getLast?, List.getLast?_cons,
        List.getLast?_concat]
      rfl
    rw [List.concat_eq_append] at hne hnodup h ⊢
    have hpath := path_append.mp h.path.2
    have hys : y ∉ x :: ys := by
      have hperm : (x :: (ys ++ [y])).Nodup := hnodup
      rw [← List.cons_append, List.nodup_append] at hperm
      exact fun hmem => hperm.2.2 y hmem y (List.mem_singleton_self y) rfl
    refine path_append.mpr ⟨hpath.1.congr ?_ ?_, ?_⟩
    · intro c hc
      have hcy : c ≠ y := fun heq => hys (heq ▸ hc)
      have hcn : c ≠ n := hne c (by rw [← List.cons_append]; exact List.mem_append_left _ hc)
      rw [Links.remove, link_next_of_ne hcn, hlast, link_next_of_ne hcy]
    · intro c hc
      have hcx : c ≠ x := fun heq => (List.nodup_cons.mp hnodup).1 (heq ▸ hc)
      have hcn : c ≠ n := hne c (List.mem_cons_of_mem x hc)
      rw [Links.remove, link_prev_of_ne hcn, hnext, link_prev_of_ne hcx]
    · have hy : y ≠ n := hne y (by simp)
      have hx : x ≠ n := hne x List.mem_cons_self
      rw [Path, Linked, Links.remove, link_next_of_ne hy, link_prev_of_ne hx, hnext, hlast]
      exact link_linked s y x

/-- A node that is taken out of a ring. -/
lemma remove_mem (h : s.IsRing l (xs ++ n :: ys)) :
    (s.remove n).IsRing l (xs ++ ys) ∧ (s.remove n).IsRing n [] := by
  have hrot := h.rotate
  cases ys with
  | nil =>
    obtain ⟨hring, hself⟩ := hrot.remove
    rw [List.append_nil]
    exact ⟨hring, hself⟩
  | cons y ys =>
    obtain ⟨hring, hself⟩ := hrot.remove
    exact ⟨hring.rotate, hself⟩

/-- A node that is put behind another one. -/
lemma insertAfter_mem (h : s.IsRing l (xs ++ x :: ys)) (hn : n ∉ l :: (xs ++ x :: ys)) :
    (s.insertAfter x n).IsRing l (xs ++ x :: n :: ys) := by
  have hrot := h.rotate.insertAfter (n := n) (by simp at hn ⊢; tauto)
  exact hrot.rotate

/-! ### Rings that are apart -/

section Frame

variable {c : α} {zs : List α} (h : s.IsRing l xs) (hc : s.IsRing c zs)
  (hapart : ∀ d ∈ l :: xs, d ∉ c :: zs)

include hc

lemma of_link (ha : a ∉ c :: zs) (hb : b ∉ c :: zs) : (s.link a b).IsRing c zs :=
  hc.congr (fun _ hd => link_next_of_ne fun heq => ha (heq ▸ hd))
    fun _ hd => link_prev_of_ne fun heq => hb (heq ▸ hd)

include h hapart

lemma frame_insertAfter (hx : x ∈ l :: xs) (hn : n ∉ c :: zs) : (s.insertAfter x n).IsRing c zs :=
  (hc.of_link hn (hapart _ (h.next_mem hx))).of_link (hapart x hx) hn

lemma frame_insertBefore (hx : x ∈ l :: xs) (hn : n ∉ c :: zs) :
    (s.insertBefore x n).IsRing c zs :=
  (hc.of_link (hapart _ (h.prev_mem hx)) hn).of_link hn (hapart x hx)

lemma frame_remove (hx : x ∈ l :: xs) : (s.remove x).IsRing c zs :=
  (hc.of_link (hapart _ (h.prev_mem hx)) (hapart _ (h.next_mem hx))).of_link (hapart x hx)
    (hapart x hx)

end Frame

end IsRing

/-! ### Many lists -/

section Lists

variable {H N : Type*} [DecidableEq H] [DecidableEq N] {s : Links (H ⊕ N)} {lists : H → List N}
  {l : H} {m n : N} {xs ys : List N}

/-- Each header has the ring of its list; a node is in one list or by itself. -/
structure Holds (s : Links (H ⊕ N)) (lists : H → List N) : Prop where
  ring : ∀ l, s.IsRing (.inl l) ((lists l).map .inr)
  apart : ∀ n l l', n ∈ lists l → n ∈ lists l' → l = l'
  free : ∀ n, (∀ l, n ∉ lists l) → s.IsRing (.inr n) []

/-- The links where each header and each node is by itself. -/
def alone : Links (H ⊕ N) := ⟨id, id⟩

omit [DecidableEq H] [DecidableEq N] in
lemma holds_alone : (alone : Links (H ⊕ N)).Holds fun _ => [] :=
  ⟨fun _ => ⟨List.nodup_singleton _, rfl, rfl⟩, fun _ _ _ h => absurd h List.not_mem_nil,
    fun _ _ => ⟨List.nodup_singleton _, rfl, rfl⟩⟩

namespace Holds

omit [DecidableEq H] [DecidableEq N] in
lemma notMem_ring (hn : ∀ l, n ∉ lists l) (l : H) :
    (Sum.inr n : H ⊕ N) ∉ Sum.inl l :: (lists l).map Sum.inr := by
  rw [List.mem_cons, List.mem_map]
  rintro (h | ⟨m, hm, h⟩)
  · cases h
  · cases h
    exact hn l hm

omit [DecidableEq H] [DecidableEq N] in
/-- The rings of two lists have no node in common. -/
lemma ring_apart (h : s.Holds lists) {l' : H} (hne : l' ≠ l) :
    ∀ d ∈ (Sum.inl l :: (lists l).map Sum.inr : List (H ⊕ N)),
      d ∉ Sum.inl l' :: (lists l').map Sum.inr := by
  intro d hd hd'
  rw [List.mem_cons, List.mem_map] at hd hd'
  rcases hd with rfl | ⟨m, hm, rfl⟩ <;> rcases hd' with heq | ⟨m', hm', heq⟩
  · cases heq
    exact hne rfl
  · cases heq
  · cases heq
  · cases heq
    exact hne (h.apart _ _ _ hm' hm)

omit [DecidableEq H] [DecidableEq N] in
/-- A node that is in no list is apart from all rings of lists. -/
lemma ring_apart_free (hn : ∀ l, n ∉ lists l) (l : H) :
    ∀ d ∈ (Sum.inl l :: (lists l).map Sum.inr : List (H ⊕ N)), d ∉ [Sum.inr n] := by
  intro d hd hmem
  rw [List.mem_singleton.mp hmem] at hd
  exact notMem_ring hn l hd

omit [DecidableEq N] in
/-- A node comes into the list of a header, and the other rings stay as they are. -/
lemma insert {s' : Links (H ⊕ N)} (h : s.Holds lists) (hn : ∀ l, n ∉ lists l)
    (hxs : ∀ m, m ∈ xs ↔ m = n ∨ m ∈ lists l) (hring : s'.IsRing (.inl l) (xs.map .inr))
    (hframe : ∀ c zs, s.IsRing c zs →
      (∀ d ∈ (Sum.inl l :: (lists l).map Sum.inr : List (H ⊕ N)), d ∉ c :: zs) →
      Sum.inr n ∉ c :: zs → s'.IsRing c zs) : s'.Holds (Function.update lists l xs) := by
  have hlist : ∀ m l', m ∈ Function.update lists l xs l' → (m = n ∧ l' = l) ∨ m ∈ lists l' := by
    intro m l' hm
    by_cases hl : l' = l
    · subst hl
      rw [Function.update_self, hxs] at hm
      exact hm.imp_left fun heq => ⟨heq, rfl⟩
    · rw [Function.update_of_ne hl] at hm
      exact Or.inr hm
  refine ⟨fun l' => ?_, ?_, ?_⟩
  · by_cases hl : l' = l
    · subst hl
      rwa [Function.update_self]
    · rw [Function.update_of_ne hl]
      exact hframe _ _ (h.ring l') (h.ring_apart hl) (notMem_ring hn l')
  · intro m l₁ l₂ h₁ h₂
    rcases hlist m l₁ h₁ with ⟨heq₁, hl₁⟩ | hm₁ <;> rcases hlist m l₂ h₂ with ⟨heq₂, hl₂⟩ | hm₂
    · rw [hl₁, hl₂]
    · exact absurd (heq₁ ▸ hm₂) (hn l₂)
    · exact absurd (heq₂ ▸ hm₁) (hn l₁)
    · exact h.apart m l₁ l₂ hm₁ hm₂
  · intro m hm
    have hne : m ≠ n := by
      rintro rfl
      exact hm l (by rw [Function.update_self]; exact (hxs m).mpr (Or.inl rfl))
    have hfree : ∀ l', m ∉ lists l' := by
      intro l' hmem
      refine hm l' ?_
      by_cases hl : l' = l
      · subst hl
        rw [Function.update_self]
        exact (hxs m).mpr (Or.inr hmem)
      · rwa [Function.update_of_ne hl]
    refine hframe _ _ (h.free m hfree) (ring_apart_free hfree l) ?_
    rw [List.mem_singleton]
    exact fun heq => hne (Sum.inr.inj heq).symm

omit [DecidableEq N] in
/-- A node leaves the list of a header, and the other rings stay as they are. -/
lemma erase {s' : Links (H ⊕ N)} (h : s.Holds lists) (hn : n ∈ lists l)
    (hxs : ∀ m, m ∈ xs ↔ m ≠ n ∧ m ∈ lists l) (hring : s'.IsRing (.inl l) (xs.map .inr))
    (hself : s'.IsRing (.inr n) [])
    (hframe : ∀ c zs, s.IsRing c zs →
      (∀ d ∈ (Sum.inl l :: (lists l).map Sum.inr : List (H ⊕ N)), d ∉ c :: zs) →
      s'.IsRing c zs) : s'.Holds (Function.update lists l xs) := by
  have hlist : ∀ m l', m ∈ Function.update lists l xs l' → m ∈ lists l' := by
    intro m l' hm
    by_cases hl : l' = l
    · subst hl
      rw [Function.update_self, hxs] at hm
      exact hm.2
    · rwa [Function.update_of_ne hl] at hm
  refine ⟨fun l' => ?_, fun m l₁ l₂ h₁ h₂ => h.apart m l₁ l₂ (hlist m l₁ h₁) (hlist m l₂ h₂), ?_⟩
  · by_cases hl : l' = l
    · subst hl
      rwa [Function.update_self]
    · rw [Function.update_of_ne hl]
      exact hframe _ _ (h.ring l') (h.ring_apart hl)
  · intro m hm
    by_cases hne : m = n
    · rwa [hne]
    have hfree : ∀ l', m ∉ lists l' := by
      intro l' hmem
      refine hm l' ?_
      by_cases hl : l' = l
      · subst hl
        rw [Function.update_self]
        exact (hxs m).mpr ⟨hne, hmem⟩
      · rwa [Function.update_of_ne hl]
    exact hframe _ _ (h.free m hfree) (ring_apart_free hfree l)

/-! ### The operations -/

lemma insertBefore (h : s.Holds lists) (hn : ∀ l, n ∉ lists l) (l : H) :
    (s.insertBefore (.inl l) (.inr n)).Holds (Function.update lists l (lists l ++ [n])) := by
  refine h.insert hn (fun m => ?_) ?_ fun c zs hc hapart hmem =>
    (h.ring l).frame_insertBefore hc hapart List.mem_cons_self hmem
  · rw [List.mem_append, List.mem_singleton, or_comm]
  · rw [List.map_append]
    exact (h.ring l).insertBefore (notMem_ring hn l)

lemma insertAfter (h : s.Holds lists) (hn : ∀ l, n ∉ lists l) (l : H) :
    (s.insertAfter (.inl l) (.inr n)).Holds (Function.update lists l (n :: lists l)) :=
  h.insert hn (fun _ => List.mem_cons) ((h.ring l).insertAfter (notMem_ring hn l))
    fun _ _ hc hapart hmem => (h.ring l).frame_insertAfter hc hapart List.mem_cons_self hmem

lemma insertAfter_mem (h : s.Holds lists) (hn : ∀ l, n ∉ lists l) (hl : lists l = xs ++ m :: ys) :
    (s.insertAfter (.inr m) (.inr n)).Holds
      (Function.update lists l (xs ++ m :: n :: ys)) := by
  have hring := h.ring l
  have hmem := notMem_ring hn l
  rw [hl, List.map_append, List.map_cons] at hring hmem
  refine h.insert hn (fun k => ?_) ?_ fun c zs hc hapart hn' =>
    (h.ring l).frame_insertAfter hc hapart ?_ hn'
  · rw [hl]
    simp only [List.mem_append, List.mem_cons]
    tauto
  · rw [List.map_append, List.map_cons, List.map_cons]
    exact hring.insertAfter_mem hmem
  · rw [hl]
    simp

lemma remove (h : s.Holds lists) (hl : lists l = xs ++ n :: ys) :
    (s.remove (.inr n)).Holds (Function.update lists l (xs ++ ys)) := by
  have hring := h.ring l
  rw [hl, List.map_append, List.map_cons] at hring
  obtain ⟨hrest, hself⟩ := hring.remove_mem
  rw [← List.map_append] at hrest
  have hnodup : (xs ++ n :: ys).Nodup := by
    have hall := (List.nodup_cons.mp (h.ring l).nodup).2
    rw [hl] at hall
    exact hall.of_map _
  have hnot : n ∉ xs ++ ys := (List.nodup_cons.mp (List.perm_middle.nodup_iff.mp hnodup)).1
  refine h.erase (by rw [hl]; simp) (fun k => ?_) hrest hself fun c zs hc hapart =>
    (h.ring l).frame_remove hc hapart (by rw [hl]; simp)
  rw [hl, List.perm_middle.mem_iff, List.mem_cons]
  constructor
  · intro hk
    exact ⟨fun heq => hnot (heq ▸ hk), Or.inr hk⟩
  · rintro ⟨hne, hk⟩
    exact hk.resolve_left hne

lemma remove_mem (h : s.Holds lists) (hn : n ∈ lists l) :
    (s.remove (.inr n)).Holds (Function.update lists l ((lists l).erase n)) := by
  obtain ⟨xs, ys, hl⟩ := List.append_of_mem hn
  have hnot : n ∉ xs := by
    have hall := (List.nodup_cons.mp (h.ring l).nodup).2
    rw [hl] at hall
    have hnodup : (xs ++ n :: ys).Nodup := hall.of_map _
    exact fun hmem => List.disjoint_of_nodup_append hnodup hmem List.mem_cons_self
  rw [hl, List.erase_append_right _ hnot, List.erase_cons_head]
  exact h.remove hl

/-- Taking out a node that is in no list changes nothing. -/
lemma remove_free (h : s.Holds lists) (hn : ∀ l, n ∉ lists l) : s.remove (.inr n) = s := by
  obtain ⟨hnext, hprev⟩ := (h.free n hn).path
  rw [Links.remove, hnext, hprev, link, link]
  obtain ⟨next, prev⟩ := s
  simp only [Function.update_idem]
  congr 1
  · exact Function.update_eq_self_iff.mpr hnext.symm
  · exact Function.update_eq_self_iff.mpr hprev.symm

/-! ### Positions in a list -/

/-- The last node of a part at the begin of a list, or the header. -/
def node (l : H) (xs : List N) : H ⊕ N := xs.getLast?.elim (.inl l) .inr

omit [DecidableEq H] [DecidableEq N] in
@[simp] lemma node_concat (l : H) (xs : List N) (n : N) : node l (xs ++ [n]) = .inr n := by
  rw [node, List.getLast?_concat]
  rfl

omit [DecidableEq H] [DecidableEq N] in
lemma prev_header (h : s.Holds lists) (l : H) : s.prev (.inl l) = node l (lists l) := by
  rw [(h.ring l).prev_header, List.getLastD_eq_getLast?, List.getLast?_map, node]
  cases (lists l).getLast? <;> rfl

omit [DecidableEq H] [DecidableEq N] in
/-- The next node is the first one of the other part. -/
lemma next_node (h : s.Holds lists) (hl : lists l = xs ++ n :: ys) :
    s.next (node l xs) = .inr n := by
  have hring := h.ring l
  rcases List.eq_nil_or_concat xs with rfl | ⟨zs, z, rfl⟩
  · rw [hl, List.nil_append, List.map_cons] at hring
    exact hring.path.1.1
  · rw [hl, List.concat_eq_append, List.append_assoc, List.singleton_append, List.map_append,
      List.map_cons, List.map_cons] at hring
    rw [List.concat_eq_append, node_concat]
    exact hring.rotate.path.1.1

omit [DecidableEq H] [DecidableEq N] in
/-- The header is linked back from the last node only. -/
lemma node_ne_prev (h : s.Holds lists) (hl : lists l = xs ++ n :: ys) :
    node l xs ≠ s.prev (.inl l) := by
  have hnodup : (xs ++ n :: ys).Nodup := by
    have hall := (List.nodup_cons.mp (h.ring l).nodup).2
    rw [hl] at hall
    exact hall.of_map _
  obtain ⟨zs, z, hz⟩ : ∃ zs z, n :: ys = zs ++ [z] :=
    ⟨_, _, (List.dropLast_concat_getLast (List.cons_ne_nil n ys)).symm⟩
  rw [h.prev_header, hl, hz, ← List.append_assoc, node_concat]
  rcases List.eq_nil_or_concat xs with rfl | ⟨ws, w, rfl⟩
  · exact Sum.inl_ne_inr
  · rw [List.concat_eq_append, node_concat]
    intro heq
    have hw : w = z := Sum.inr.inj heq
    refine List.disjoint_of_nodup_append hnodup (a := w) (by simp) ?_
    rw [hz, hw]
    simp

lemma insertAfter_node (h : s.Holds lists) (hn : ∀ l, n ∉ lists l) (hl : lists l = xs ++ ys) :
    (s.insertAfter (node l xs) (.inr n)).Holds (Function.update lists l (xs ++ n :: ys)) := by
  rcases List.eq_nil_or_concat xs with rfl | ⟨zs, z, rfl⟩
  · have hinsert := h.insertAfter hn l
    rwa [hl] at hinsert
  · rw [List.concat_eq_append, List.append_assoc, List.singleton_append] at hl
    rw [List.concat_eq_append, node_concat, List.append_assoc, List.singleton_append]
    exact h.insertAfter_mem hn hl

end Holds

end Lists

end Links
