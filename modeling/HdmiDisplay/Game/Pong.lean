/-
# The paddles of the game

`Pong::processGameInput` moves one of two paddles by a step that is held in a `uint16_t`, and clamps
the sum as an `int`.  A step down is therefore added as `2 ^ 16 - PLAYER_STEP`, and the clamp turns
the sum into the largest position.  The pointer to the paddle is set for four characters only; any
other character has it dereferenced while it is null.
-/
import Mathlib.Data.List.Induction
import Mathlib.Order.MinMax
import Mathlib.Tactic.Common

namespace HdmiDisplay.Game

/-- The members at which the pointer `player` can point. -/
inductive Player where
  | p1
  | p2
deriving DecidableEq, Repr

/-- The members `P1Pos_` and `P2Pos_`. -/
structure Pong where
  p1Pos : BitVec 16
  p2Pos : BitVec 16
deriving DecidableEq, Repr

namespace Pong

/-- `PLAYER_STEP`. -/
def playerStep : BitVec 16 := 25#16

/-- `BAR_LENGTH`. -/
def barLength : BitVec 16 := 75#16

/-- `SCREEN_HEIGHT`. -/
def screenHeight : BitVec 16 := 480#16

/-- `MAX_POS`. -/
def maxPos : BitVec 16 := screenHeight - barLength

/-- `MIN_POS`. -/
def minPos : BitVec 16 := 0#16

/-- The members of a new game. -/
def init : Pong := ⟨0#16, 0#16⟩

/-- `*player`. -/
def pos (s : Pong) : Player → BitVec 16
  | .p1 => s.p1Pos
  | .p2 => s.p2Pos

/-- The assignment to `*player`. -/
def setPos (s : Pong) (player : Player) (value : BitVec 16) : Pong :=
  match player with
  | .p1 => { s with p1Pos := value }
  | .p2 => { s with p2Pos := value }

/-- `std::clamp<int>`. -/
def clamp (v lo hi : ℤ) : ℤ := if v < lo then lo else if hi < v then hi else v

/-- The variables `player` and `step` after the `switch`. -/
def select (c : Char) : Option Player × BitVec 16 :=
  match c with
  | 'w' => (some .p1, playerStep)
  | 's' => (some .p1, -playerStep)
  | 'i' => (some .p2, playerStep)
  | 'k' => (some .p2, -playerStep)
  -- there is no `default`: the pointer stays null
  | _ => (none, 0#16)

/-- The new value of `*player`: both operands of the sum are promoted to `int`. -/
def moved (position step : BitVec 16) : BitVec 16 :=
  BitVec.ofInt 16 (clamp (position.toNat + step.toNat) minPos.toNat maxPos.toNat)

/-- `Pong::processGameInput`; a dereference of the null pointer has no result. -/
def processGameInput (s : Pong) (c : Char) : Option Pong :=
  match select c with
  | (none, _) => none
  | (some player, step) => some (s.setPos player (moved (s.pos player) step))

/-- The calls of `Pong::processGameInput` with the characters of a list. -/
def run (s : Pong) : List Char → Option Pong
  | [] => some s
  | c :: cs => (processGameInput s c).bind fun t => run t cs

variable {s t : Pong} {p q : Player} {c : Char}

@[simp] lemma pos_setPos_self (s : Pong) (p : Player) (x : BitVec 16) :
    (s.setPos p x).pos p = x := by
  cases p <;> rfl

lemma pos_setPos_of_ne (s : Pong) (x : BitVec 16) (h : p ≠ q) : (s.setPos q x).pos p = s.pos p := by
  cases p <;> cases q
  all_goals first | rfl | exact absurd rfl h

/-! ### The keys -/

/-- The direction in which a key is meant to move its paddle. -/
inductive Dir where
  | up
  | down
deriving DecidableEq, Repr

/-- A key of the game. -/
structure Key where
  player : Player
  dir : Dir
deriving DecidableEq, Repr

/-- The character of a key. -/
def Key.char : Key → Char
  | ⟨.p1, .up⟩ => 'w'
  | ⟨.p1, .down⟩ => 's'
  | ⟨.p2, .up⟩ => 'i'
  | ⟨.p2, .down⟩ => 'k'

/-- The value of `step` for a direction. -/
def Dir.step : Dir → BitVec 16
  | .up => playerStep
  | .down => -playerStep

/-- The keys of a player, in their order. -/
def own (p : Player) (ks : List Key) : List Dir := (ks.filter (·.player = p)).map Key.dir

lemma select_char (k : Key) : select k.char = (some k.player, k.dir.step) := by
  obtain ⟨p, d⟩ := k
  cases p <;> cases d <;> rfl

lemma processGameInput_char (s : Pong) (k : Key) : processGameInput s k.char
    = some (s.setPos k.player (moved (s.pos k.player) k.dir.step)) := by
  rw [processGameInput, select_char]

lemma own_cons_self (k : Key) (ks : List Key) :
    own k.player (k :: ks) = k.dir :: own k.player ks := by
  simp [own]

lemma own_cons_of_ne {k : Key} (h : p ≠ k.player) (ks : List Key) :
    own p (k :: ks) = own p ks := by
  simp [own, h.symm]

/-- **Independence of the players.**  The keys are processed, and the position of each player is
moved by the keys of the player only, in their order. -/
lemma run_keys (s : Pong) (ks : List Key) : ∃ t, run s (ks.map Key.char) = some t ∧
    ∀ p, t.pos p = (own p ks).foldl (fun x d => moved x d.step) (s.pos p) := by
  induction ks generalizing s with
  | nil => exact ⟨s, rfl, fun _ => rfl⟩
  | cons k ks ih =>
    obtain ⟨t, hrun, hpos⟩ := ih (s.setPos k.player (moved (s.pos k.player) k.dir.step))
    refine ⟨t, ?_, ?_⟩
    · rw [List.map_cons, run, processGameInput_char]
      exact hrun
    · intro p
      rw [hpos p]
      by_cases hp : p = k.player
      · subst hp
        rw [own_cons_self, List.foldl_cons, pos_setPos_self]
      · rw [own_cons_of_ne hp, pos_setPos_of_ne s _ hp]

/-! ### The saturating positions -/

/-- The saturating step that a key is meant to be. -/
def Dir.saturate (d : Dir) (x : ℤ) : ℤ :=
  match d with
  | .up => min (x + playerStep.toNat) maxPos.toNat
  | .down => max (x - playerStep.toNat) minPos.toNat

/-- The saturating position after the keys of a player. -/
def saturated (ds : List Dir) : ℤ := ds.foldl (fun x d => d.saturate x) 0

@[simp] lemma maxPos_toNat : maxPos.toNat = 405 := rfl

@[simp] lemma saturate_up (x : ℤ) : Dir.up.saturate x = min (x + 25) 405 := rfl

@[simp] lemma saturate_down (x : ℤ) : Dir.down.saturate x = max (x - 25) 0 := rfl

lemma saturated_append_singleton (ds : List Dir) (d : Dir) :
    saturated (ds ++ [d]) = d.saturate (saturated ds) := by
  simp [saturated]

lemma saturated_nonneg (ds : List Dir) : 0 ≤ saturated ds := by
  induction ds using List.reverseRecOn with
  | nil => exact Int.le_refl 0
  | append_singleton ds d ih =>
    rw [saturated_append_singleton]
    cases d with
    | up =>
      rw [saturate_up]
      omega
    | down => exact le_max_right _ _

lemma saturated_le (ds : List Dir) : saturated ds ≤ maxPos.toNat := by
  induction ds using List.reverseRecOn with
  | nil => exact Int.natCast_nonneg _
  | append_singleton ds d ih =>
    rw [saturated_append_singleton]
    cases d with
    | up => exact min_le_right _ _
    | down =>
      rw [saturate_down]
      rw [maxPos_toNat] at ih ⊢
      omega

/-- Reading the keys back from the last one, with `lead` more keys up than down to begin with, there
come to be 17 more keys up than down before there is one more down than up. -/
def Regains (lead : ℕ) (ds : List Dir) : Prop :=
  ∃ tail, tail <:+ ds ∧ tail.count .up + lead = tail.count .down + 17 ∧
    ∀ t, t <:+ tail → t.count .down ≤ t.count .up + lead

lemma regains_full (ds : List Dir) : Regains 17 ds := by
  refine ⟨[], List.nil_suffix, rfl, ?_⟩
  intro t ht
  simp [List.suffix_nil.mp ht]

lemma not_regains_nil {lead : ℕ} (h : lead < 17) : ¬Regains lead [] := by
  rintro ⟨tail, htail, hcount, -⟩
  rw [List.suffix_nil.mp htail, List.count_nil, List.count_nil] at hcount
  omega

/-- The last key changes the lead of the others. -/
lemma regains_append_singleton {lead lead' : ℕ} (h : lead < 17) (ds : List Dir) (d : Dir)
    (hd : [d].count .up + lead = [d].count .down + lead') :
    Regains lead (ds ++ [d]) ↔ Regains lead' ds := by
  constructor
  · rintro ⟨tail, htail, hcount, hback⟩
    rcases List.suffix_concat_iff.mp htail with rfl | ⟨t, rfl, ht⟩
    · -- with less than the full lead some keys have to be read
      rw [List.count_nil, List.count_nil] at hcount
      omega
    · refine ⟨t, ht, ?_, ?_⟩
      · rw [List.count_append, List.count_append] at hcount
        omega
      · intro u hu
        have hle := hback (u ++ [d]) ((List.suffix_append_inj_of_length_eq rfl).mpr ⟨hu, rfl⟩)
        rw [List.count_append, List.count_append] at hle
        omega
  · rintro ⟨t, ht, hcount, hback⟩
    refine ⟨t ++ [d], (List.suffix_append_inj_of_length_eq rfl).mpr ⟨ht, rfl⟩, ?_, ?_⟩
    · rw [List.count_append, List.count_append]
      omega
    · intro u hu
      rcases List.suffix_concat_iff.mp hu with rfl | ⟨v, rfl, hv⟩
      · simp
      · have hle := hback v hv
        rw [List.count_append, List.count_append]
        omega

lemma regains_up {lead : ℕ} (h : lead < 17) (ds : List Dir) :
    Regains lead (ds ++ [.up]) ↔ Regains (lead + 1) ds := by
  refine regains_append_singleton h ds .up ?_
  simp [Nat.add_comm]

lemma regains_down {lead : ℕ} (h : lead + 1 < 17) (ds : List Dir) :
    Regains (lead + 1) (ds ++ [.down]) ↔ Regains lead ds := by
  refine regains_append_singleton h ds .down ?_
  simp [Nat.add_comm]

lemma not_regains_down (ds : List Dir) : ¬Regains 0 (ds ++ [.down]) := by
  rintro ⟨tail, htail, hcount, hback⟩
  rcases List.suffix_concat_iff.mp htail with rfl | ⟨t, rfl, -⟩
  · simp at hcount
  · have hle := hback [.down] (List.suffix_append _ _)
    simp at hle

/-- With a lead of 17 keys up every position comes to be the largest one; with a smaller lead it is
so as far as the keys before have gone up. -/
lemma le_saturated_iff (ds : List Dir) {lead : ℕ} (h : lead ≤ 17) :
    (405 - 25 * lead : ℤ) ≤ saturated ds ↔ Regains lead ds := by
  induction ds using List.reverseRecOn generalizing lead with
  | nil =>
    rcases Nat.lt_or_eq_of_le h with hlt | rfl
    · refine iff_of_false ?_ (not_regains_nil hlt)
      simp only [saturated, List.foldl_nil]
      omega
    · exact iff_of_true (by simp [saturated]) (regains_full [])
  | append_singleton ds d ih =>
    have hnonneg := saturated_nonneg (ds ++ [d])
    have hle := saturated_le ds
    rw [maxPos_toNat] at hle
    rcases Nat.lt_or_eq_of_le h with hlt | rfl
    · -- the key before has to leave the position 25 lower, or 25 higher
      rw [saturated_append_singleton]
      cases d with
      | up =>
        rw [regains_up hlt, ← ih hlt, saturate_up]
        omega
      | down =>
        rw [saturate_down]
        cases lead with
        | zero =>
          refine iff_of_false ?_ (not_regains_down ds)
          omega
        | succ lead =>
          rw [regains_down hlt, ← ih (Nat.le_of_succ_le h)]
          omega
    · exact iff_of_true (by omega) (regains_full _)

lemma saturated_eq_maxPos_iff (ds : List Dir) : saturated ds = maxPos.toNat ↔ Regains 0 ds := by
  have hle := saturated_le ds
  rw [← le_saturated_iff ds (Nat.zero_le 17)]
  rw [maxPos_toNat] at hle ⊢
  omega

/-! ### The positions that are reached -/

/-- The position that the code computes from the keys of a player. -/
def reached (ds : List Dir) : BitVec 16 := ds.foldl (fun x d => moved x d.step) 0#16

lemma reached_append_singleton (ds : List Dir) (d : Dir) :
    reached (ds ++ [d]) = moved (reached ds) d.step := by
  simp [reached]

/-- The clamp keeps the position in its interval, so that the conversion back is exact; the sum is
never below the interval. -/
lemma toNat_moved (x step : BitVec 16) :
    (moved x step).toNat = min (x.toNat + step.toNat) 405 := by
  have hmin : minPos.toNat = 0 := rfl
  rw [moved, BitVec.toNat_ofInt, clamp, hmin, maxPos_toNat]
  split_ifs <;> omega

/-- A step up saturates. -/
lemma toNat_moved_up (x : BitVec 16) : (moved x Dir.up.step).toNat = min (x.toNat + 25) 405 :=
  toNat_moved x _

/-- A step down is `65511`, which takes every position to the largest one. -/
lemma moved_down (x : BitVec 16) : moved x Dir.down.step = maxPos := by
  have hstep : Dir.down.step.toNat = 65511 := rfl
  rw [← BitVec.toNat_inj, toNat_moved, hstep]
  exact Nat.min_eq_right (by omega)

lemma toNat_reached_le (ds : List Dir) : (reached ds).toNat ≤ maxPos.toNat := by
  induction ds using List.reverseRecOn with
  | nil => exact Nat.zero_le _
  | append_singleton ds d ih =>
    rw [reached_append_singleton, toNat_moved]
    exact Nat.min_le_right _ _

/-- Without a key down the position saturates as it is meant to. -/
lemma reached_of_up {ds : List Dir} (h : ∀ d ∈ ds, d = .up) :
    ((reached ds).toNat : ℤ) = saturated ds := by
  induction ds using List.reverseRecOn with
  | nil => rfl
  | append_singleton ds d ih =>
    have hd : d = .up := h d (by simp)
    have hprev := ih fun e he => h e (by simp [he])
    rw [reached_append_singleton, saturated_append_singleton, hd, toNat_moved_up, saturate_up,
      ← hprev]
    omega

/-- From the first key down on, the position is the largest one. -/
lemma reached_of_down {ds : List Dir} (h : Dir.down ∈ ds) : reached ds = maxPos := by
  induction ds using List.reverseRecOn with
  | nil => simp at h
  | append_singleton ds d ih =>
    rw [reached_append_singleton]
    cases d with
    | down => exact moved_down _
    | up =>
      -- the clamp keeps the position where it is
      have hds : Dir.down ∈ ds := by simpa using h
      rw [ih hds]
      rfl

/-- The position is the saturating one exactly if no key down has come, or the keys have regained
the largest position. -/
lemma reached_iff (ds : List Dir) :
    ((reached ds).toNat : ℤ) = saturated ds ↔ (∀ d ∈ ds, d = .up) ∨ Regains 0 ds := by
  by_cases hdown : Dir.down ∈ ds
  · have hnot : ¬∀ d ∈ ds, d = .up := fun h => absurd (h _ hdown) (by simp)
    rw [reached_of_down hdown, or_iff_right hnot, ← saturated_eq_maxPos_iff]
    exact eq_comm
  · have hup : ∀ d ∈ ds, d = .up := by
      intro d hd
      cases d with
      | up => rfl
      | down => exact absurd hd hdown
    exact iff_of_true (reached_of_up hup) (Or.inl hup)

/-! ### The movement of the paddles -/

/-- The game of a new object after the keys, its positions being the saturating ones. -/
def Saturates (ks : List Key) : Prop := ∃ t, run init (ks.map Key.char) = some t ∧
  ∀ p, ((t.pos p).toNat : ℤ) = saturated (own p ks)

/-- A new game after some keys. -/
lemma run_init (ks : List Key) :
    ∃ t, run init (ks.map Key.char) = some t ∧ ∀ p, t.pos p = reached (own p ks) := by
  obtain ⟨t, hrun, hpos⟩ := run_keys init ks
  refine ⟨t, hrun, ?_⟩
  intro p
  rw [hpos p]
  cases p <;> rfl

lemma saturates_iff (ks : List Key) :
    Saturates ks ↔ ∀ p, (∀ d ∈ own p ks, d = .up) ∨ Regains 0 (own p ks) := by
  obtain ⟨t, hrun, hpos⟩ := run_init ks
  rw [Saturates, hrun]
  simp [hpos, reached_iff]

lemma mem_own {p : Player} {d : Dir} {ks : List Key} : d ∈ own p ks ↔ ⟨p, d⟩ ∈ ks := by
  simp only [own, List.mem_map, List.mem_filter, decide_eq_true_eq]
  constructor
  · rintro ⟨k, ⟨hk, rfl⟩, rfl⟩
    exact hk
  · intro h
    exact ⟨⟨p, d⟩, ⟨h, rfl⟩, rfl⟩

/-- Right after a key down the positions are not the saturating ones. -/
lemma not_saturates_of_down (ks : List Key) (p : Player) :
    ¬Saturates (ks ++ [⟨p, .down⟩]) := by
  have hown : own p (ks ++ [⟨p, .down⟩]) = own p ks ++ [.down] := by simp [own]
  rw [saturates_iff]
  intro h
  rcases h p with hup | hregains
  · exact absurd (hup .down (by simp [hown])) (by simp)
  · rw [hown] at hregains
    exact not_regains_down _ hregains

/-- **Paddle movement.**  For every sequence of keys given to a new game: the positions are the
saturating ones, of the keys of each player, exactly if each player has no key down, or has keys
that regain the largest position; they are so after each key of the sequence exactly if there is no
key down at all.  In any case the positions are in range, and each depends on the keys of its
player only. -/
theorem paddle_movement (ks : List Key) :
    (Saturates ks ↔ ∀ p, (∀ k ∈ ks, k.player = p → k.dir = .up) ∨ Regains 0 (own p ks)) ∧
    ((∀ pre, pre <+: ks → Saturates pre) ↔ ∀ k ∈ ks, k.dir = .up) ∧
    ∃ t, run init (ks.map Key.char) = some t ∧ ∀ p,
      (minPos.toNat ≤ (t.pos p).toNat ∧ (t.pos p).toNat ≤ maxPos.toNat) ∧
      ∀ ls u, own p ls = own p ks → run init (ls.map Key.char) = some u → u.pos p = t.pos p := by
  refine ⟨?_, ?_, ?_⟩
  · rw [saturates_iff]
    refine forall_congr' fun p => or_congr_left ?_
    constructor
    · rintro h ⟨q, d⟩ hk rfl
      exact h d (mem_own.mpr hk)
    · intro h d hd
      exact h _ (mem_own.mp hd) rfl
  · constructor
    · rintro h ⟨p, d⟩ hk
      cases d with
      | up => rfl
      | down =>
        -- right after the key down
        obtain ⟨pre, post, rfl⟩ := List.append_of_mem hk
        refine absurd (h (pre ++ [⟨p, .down⟩]) ?_) (not_saturates_of_down pre p)
        exact ⟨post, by simp⟩
    · intro h pre hpre
      rw [saturates_iff]
      intro p
      refine Or.inl fun d hd => ?_
      exact h _ (hpre.subset (mem_own.mp hd))
  · obtain ⟨t, hrun, hpos⟩ := run_init ks
    refine ⟨t, hrun, fun p => ⟨⟨Nat.zero_le _, ?_⟩, ?_⟩⟩
    · rw [hpos p]
      exact toNat_reached_le _
    · intro ls u hown hrun'
      obtain ⟨u', hrun'', hpos'⟩ := run_init ls
      obtain rfl : u = u' := Option.some_inj.mp (hrun'.symm.trans hrun'')
      rw [hpos p, hpos' p, hown]

/-- One key down takes the paddle of a new game from one end to the other. -/
theorem paddle_movement_down : run init ['s'] = some ⟨405#16, 0#16⟩ ∧
    saturated (own .p1 [⟨.p1, .down⟩]) = 0 ∧ ¬Saturates [⟨.p1, .down⟩] := by
  refine ⟨by decide, by decide, ?_⟩
  exact not_saturates_of_down [] .p1

/-! ### Other characters -/

/-- No call in the run of `cs` dereferences the null pointer, and the characters that are not keys
leave both positions as they are. -/
def Robust (s : Pong) (cs : List Char) : Prop :=
  ∀ pre c, pre ++ [c] <+: cs → ∀ t, run s pre = some t →
    ∃ u, processGameInput t c = some u ∧
      (c ∉ ['w', 's', 'i', 'k'] → u.p1Pos = t.p1Pos ∧ u.p2Pos = t.p2Pos)

lemma mem_keys_iff : c ∈ ['w', 's', 'i', 'k'] ↔ ∃ k : Key, k.char = c := by
  constructor
  · intro h
    simp only [List.mem_cons, List.not_mem_nil, or_false] at h
    rcases h with rfl | rfl | rfl | rfl
    · exact ⟨⟨.p1, .up⟩, rfl⟩
    · exact ⟨⟨.p1, .down⟩, rfl⟩
    · exact ⟨⟨.p2, .up⟩, rfl⟩
    · exact ⟨⟨.p2, .down⟩, rfl⟩
  · rintro ⟨⟨p, d⟩, rfl⟩
    cases p <;> cases d <;> decide

/-- With any other character the pointer stays null. -/
lemma processGameInput_eq_none (s : Pong) (h : c ∉ ['w', 's', 'i', 'k']) :
    processGameInput s c = none := by
  simp only [List.mem_cons, List.not_mem_nil, or_false, not_or] at h
  obtain ⟨hw, hs, hi, hk⟩ := h
  have hselect : select c = (none, 0#16) := by
    rw [select]
    · exact hw
    · exact hs
    · exact hi
    · exact hk
  rw [processGameInput, hselect]

/-- The keys are processed from any state. -/
lemma exists_run {cs : List Char} (h : ∀ c ∈ cs, c ∈ ['w', 's', 'i', 'k']) (s : Pong) :
    ∃ t, run s cs = some t := by
  induction cs generalizing s with
  | nil => exact ⟨s, rfl⟩
  | cons c cs ih =>
    obtain ⟨k, rfl⟩ := mem_keys_iff.mp (h c (by simp))
    rw [run, processGameInput_char]
    exact ih (fun d hd => h d (by simp [hd])) _

/-- **Input robustness.**  From every state, for every sequence of characters: no call dereferences
the null pointer, and the characters that are not keys are ignored, exactly if all characters are
keys. -/
theorem robust_iff (s : Pong) (cs : List Char) :
    Robust s cs ↔ ∀ c ∈ cs, c ∈ ['w', 's', 'i', 'k'] := by
  constructor
  · intro h
    induction cs using List.reverseRecOn with
    | nil => simp
    | append_singleton cs c ih =>
      have hkeys := ih fun pre d hpre => h pre d (hpre.trans (List.prefix_append _ _))
      -- the keys before `c` have a result, so that `c` is processed as well
      obtain ⟨t, hrun⟩ := exists_run hkeys s
      obtain ⟨u, hu, -⟩ := h cs c (List.prefix_refl _) t hrun
      have hc : c ∈ ['w', 's', 'i', 'k'] := by
        by_contra hnot
        rw [processGameInput_eq_none t hnot] at hu
        simp at hu
      intro d hd
      rcases List.mem_append.mp hd with hd | hd
      · exact hkeys d hd
      · rwa [List.mem_singleton.mp hd]
  · intro h pre c hpre t _
    obtain ⟨k, rfl⟩ := mem_keys_iff.mp (h c (hpre.subset (by simp)))
    refine ⟨_, processGameInput_char t k, ?_⟩
    intro hnot
    exact absurd (mem_keys_iff.mpr ⟨k, rfl⟩) hnot

/-- The key that ends the game. -/
theorem robust_quit : processGameInput init 'q' = none ∧ ¬Robust init ['q'] := by
  have hnone : processGameInput init 'q' = none := by decide
  refine ⟨hnone, ?_⟩
  intro h
  obtain ⟨u, hu, -⟩ := h [] 'q' (List.prefix_refl _) init rfl
  rw [hnone] at hu
  simp at hu

end Pong

end HdmiDisplay.Game
