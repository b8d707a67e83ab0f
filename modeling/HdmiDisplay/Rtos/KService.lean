/-
# Memory functions of the kernel

`rt_memset`, `rt_memcpy` and `rt_memmove` of `kservice.c`, on the list of the bytes of the memory,
whose indices are the addresses.  The first two store words of four bytes where the addresses are
aligned, four of them in each round of a first loop.
-/
import HdmiDisplay.Lib.Block
import Mathlib.Data.BitVec
import Mathlib.Data.List.GetD

namespace HdmiDisplay.Rtos

/-- Bytes. -/
abbrev Byte := BitVec 8

/-- The bytes of a word, the least significant one first. -/
def bytes (w : BitVec 32) : List Byte :=
  [w.extractLsb' 0 8, w.extractLsb' 8 8, w.extractLsb' 16 8, w.extractLsb' 24 8]

/-- A word is stored. -/
def storeWord (m : List Byte) (a : ℕ) (w : BitVec 32) : List Byte :=
  m.take a ++ bytes w ++ m.drop (a + 4)

/-- A word is loaded. -/
def loadWord (m : List Byte) (a : ℕ) : BitVec 32 :=
  m.getD (a + 3) 0 ++ m.getD (a + 2) 0 ++ m.getD (a + 1) 0 ++ m.getD a 0

/-! ### `rt_memset` -/

/-- The first loop, with the address and the count that it leaves. -/
def setBlocks (m : List Byte) (a : ℕ) (buffer : BitVec 32) (count : ℕ) : List Byte × ℕ × ℕ :=
  if 16 ≤ count then
    let m := storeWord m a buffer
    let m := storeWord m (a + 4) buffer
    let m := storeWord m (a + 8) buffer
    let m := storeWord m (a + 12) buffer
    setBlocks m (a + 16) buffer (count - 16)
  else (m, a, count)

/-- The second loop. -/
def setWords (m : List Byte) (a : ℕ) (buffer : BitVec 32) (count : ℕ) : List Byte × ℕ × ℕ :=
  if 4 ≤ count then setWords (storeWord m a buffer) (a + 4) buffer (count - 4) else (m, a, count)

/-- The last loop. -/
def setBytes (m : List Byte) (a : ℕ) (d : Byte) : ℕ → List Byte
  | 0 => m
  | count + 1 => setBytes (m.set a d) (a + 1) d count

/-- `rt_memset`. -/
def rtMemset (m : List Byte) (s : ℕ) (c : BitVec 32) (count : ℕ) : List Byte :=
  let d := c &&& 0xff
  if 4 ≤ count ∧ s % 4 = 0 then
    let buffer := d <<< 8 ||| d
    let buffer := buffer ||| buffer <<< 16
    let r := setBlocks m s buffer count
    let r := setWords r.1 r.2.1 buffer r.2.2
    setBytes r.1 r.2.1 (d.setWidth 8) r.2.2
  else setBytes m s (d.setWidth 8) count

/-! ### `rt_memcpy` -/

/-- The first loop, with the addresses and the count that it leaves. -/
def copyBlocks (m : List Byte) (d s len : ℕ) : List Byte × ℕ × ℕ × ℕ :=
  if 16 ≤ len then
    let m := storeWord m d (loadWord m s)
    let m := storeWord m (d + 4) (loadWord m (s + 4))
    let m := storeWord m (d + 8) (loadWord m (s + 8))
    let m := storeWord m (d + 12) (loadWord m (s + 12))
    copyBlocks m (d + 16) (s + 16) (len - 16)
  else (m, d, s, len)

/-- The second loop. -/
def copyWords (m : List Byte) (d s len : ℕ) : List Byte × ℕ × ℕ × ℕ :=
  if 4 ≤ len then copyWords (storeWord m d (loadWord m s)) (d + 4) (s + 4) (len - 4)
  else (m, d, s, len)

/-- The loop that copies single elements, from the first on. -/
def copyUp {α : Type*} [Inhabited α] (m : List α) (d s : ℕ) : ℕ → List α
  | 0 => m
  | n + 1 => copyUp (m.set d (m.getD s default)) (d + 1) (s + 1) n

/-- `rt_memcpy`. -/
def rtMemcpy (m : List Byte) (dst src count : ℕ) : List Byte :=
  if 16 ≤ count ∧ src % 4 = 0 ∧ dst % 4 = 0 then
    let r := copyBlocks m dst src count
    let r := copyWords r.1 r.2.1 r.2.2.1 r.2.2.2
    copyUp r.1 r.2.1 r.2.2.1 r.2.2.2
  else copyUp m dst src count

/-! ### `rt_memmove` -/

/-- The loop that copies single elements, from the last on. -/
def copyDown {α : Type*} [Inhabited α] (m : List α) (d s : ℕ) : ℕ → List α
  | 0 => m
  | n + 1 => copyDown (m.set (d + n) (m.getD (s + n) default)) d s n

/-- `rt_memmove`, also of an array of other elements. -/
def rtMemmove {α : Type*} [Inhabited α] (m : List α) (dest src n : ℕ) : List α :=
  if src < dest ∧ dest < src + n then copyDown m dest src n else copyUp m dest src n

/-! ### Words -/

variable {m : List Byte} {a d s n count : ℕ} {c : BitVec 32}

lemma and_255 (c : BitVec 32) : c &&& 0xff = (c.setWidth 8).setWidth 32 := by
  apply BitVec.eq_of_toNat_eq
  rw [BitVec.toNat_and, BitVec.toNat_setWidth, BitVec.toNat_setWidth]
  have hmod : c.toNat &&& 255 = c.toNat % 2 ^ 8 := Nat.and_two_pow_sub_one_eq_mod c.toNat 8
  have hlit : (0xff : BitVec 32).toNat = 255 := rfl
  rw [hlit, hmod]
  omega

/-- The word that `rt_memset` stores holds the byte four times. -/
lemma bytes_buffer : ∀ d : Byte,
    bytes (d.setWidth 32 <<< 8 ||| d.setWidth 32 |||
      (d.setWidth 32 <<< 8 ||| d.setWidth 32) <<< 16) = List.replicate 4 d := by
  decide +kernel

lemma bytes_append (b₀ b₁ b₂ b₃ : Byte) : bytes (b₃ ++ b₂ ++ b₁ ++ b₀) = [b₀, b₁, b₂, b₃] := by
  have h₀ : (b₃ ++ b₂ ++ b₁ ++ b₀).extractLsb' 0 8 = b₀ := by
    rw [BitVec.extractLsb'_append_eq_of_add_le (by decide)]
    exact BitVec.extractLsb'_eq_self
  have h₁ : (b₃ ++ b₂ ++ b₁ ++ b₀).extractLsb' 8 8 = b₁ := by
    rw [BitVec.extractLsb'_append_eq_of_le (by decide),
      BitVec.extractLsb'_append_eq_of_add_le (by decide)]
    exact BitVec.extractLsb'_eq_self
  have h₂ : (b₃ ++ b₂ ++ b₁ ++ b₀).extractLsb' 16 8 = b₂ := by
    rw [BitVec.extractLsb'_append_eq_of_le (by decide),
      BitVec.extractLsb'_append_eq_of_le (by decide),
      BitVec.extractLsb'_append_eq_of_add_le (by decide)]
    exact BitVec.extractLsb'_eq_self
  have h₃ : (b₃ ++ b₂ ++ b₁ ++ b₀).extractLsb' 24 8 = b₃ := by
    rw [BitVec.extractLsb'_append_eq_of_le (by decide),
      BitVec.extractLsb'_append_eq_of_le (by decide),
      BitVec.extractLsb'_append_eq_of_le (by decide)]
    exact BitVec.extractLsb'_eq_self
  simp only [bytes, List.cons.injEq]
  exact ⟨h₀, h₁, h₂, h₃, trivial⟩

lemma storeWord_eq_fill {w : BitVec 32} {b : Byte} (h : bytes w = List.replicate 4 b)
    (m : List Byte)
    (a : ℕ) : storeWord m a w = Block.fill m a b 4 := by
  rw [storeWord, h, Block.fill]

lemma storeWord_loadWord (m : List Byte) (d : ℕ) (hs : s + 4 ≤ m.length) :
    storeWord m d (loadWord m s) = Block.move m d s 4 := by
  have hbytes : bytes (loadWord m s) = (m.drop s).take 4 := by
    rw [loadWord, bytes_append, List.drop_eq_getElem_cons (by omega), List.take_succ_cons,
      List.drop_eq_getElem_cons (by omega), List.take_succ_cons,
      List.drop_eq_getElem_cons (by omega), List.take_succ_cons,
      List.drop_eq_getElem_cons (by omega), List.take_succ_cons, List.take_zero,
      List.getD_eq_getElem _ _ (by omega), List.getD_eq_getElem _ _ (by omega),
      List.getD_eq_getElem _ _ (by omega), List.getD_eq_getElem _ _ (by omega)]
  rw [storeWord, hbytes, Block.move]

/-! ### The loops -/

lemma setBytes_eq (d : Byte) (h : a + count ≤ m.length) :
    setBytes m a d count = Block.fill m a d count := by
  induction count generalizing m a with
  | zero => rw [setBytes, Block.fill_zero]
  | succ n ih =>
    rw [setBytes, ih (by rw [List.length_set]; omega), ← Block.fill_one (by omega),
      Block.fill_fill (by omega), Nat.add_comm 1 n]

lemma setWords_eq {w : BitVec 32} {b : Byte} (hw : bytes w = List.replicate 4 b)
    (h : a + count ≤ m.length) : ∃ n, n ≤ count ∧
      setWords m a w count = (Block.fill m a b n, a + n, count - n) := by
  fun_induction setWords m a w count with
  | case1 m a count h4 ih =>
    rw [storeWord_eq_fill hw] at ih ⊢
    obtain ⟨n, hn, heq⟩ := ih (by rw [Block.length_fill (by omega)]; omega)
    refine ⟨4 + n, by omega, ?_⟩
    rw [heq, Block.fill_fill (by omega), Nat.add_assoc, Nat.sub_add_eq]
  | case2 m a count h4 => exact ⟨0, Nat.zero_le _, by rw [Block.fill_zero]; rfl⟩

lemma setBlocks_eq {w : BitVec 32} {b : Byte} (hw : bytes w = List.replicate 4 b)
    (h : a + count ≤ m.length) : ∃ n, n ≤ count ∧
      setBlocks m a w count = (Block.fill m a b n, a + n, count - n) := by
  fun_induction setBlocks m a w count with
  | case1 m a count h16 m₁ m₂ m₃ m₄ ih =>
    have h₂ : m₂ = Block.fill m a b 8 := by
      rw [← Block.fill_fill (n := 4) (k := 4) (by omega), ← storeWord_eq_fill hw,
        ← storeWord_eq_fill hw]
    have h₃ : m₃ = Block.fill m a b 12 := by
      rw [← Block.fill_fill (n := 8) (k := 4) (by omega), ← h₂, ← storeWord_eq_fill hw]
    have hm : m₄ = Block.fill m a b 16 := by
      rw [← Block.fill_fill (n := 12) (k := 4) (by omega), ← h₃, ← storeWord_eq_fill hw]
    rw [hm] at ih ⊢
    obtain ⟨n, hn, heq⟩ := ih (by rw [Block.length_fill (by omega)]; omega)
    refine ⟨16 + n, by omega, ?_⟩
    rw [heq, Block.fill_fill (by omega), Nat.add_assoc, Nat.sub_add_eq]
  | case2 m a count h16 => exact ⟨0, Nat.zero_le _, by rw [Block.fill_zero]; rfl⟩

/-- `rt_memset` fills the block, whatever its alignment. -/
lemma rtMemset_eq (h : s + count ≤ m.length) :
    rtMemset m s c count = Block.fill m s (c.setWidth 8) count := by
  have hlow : (c &&& 0xff).setWidth 8 = c.setWidth 8 := by
    rw [and_255]
    exact BitVec.setWidth_setWidth_of_le (c.setWidth 8) (by decide) |>.trans (BitVec.setWidth_eq _)
  have hbuffer := bytes_buffer (c.setWidth 8)
  rw [← and_255] at hbuffer
  rw [rtMemset]
  split
  -- sixteen bytes a round, then four, then single ones
  · obtain ⟨n, hn, hblocks⟩ := setBlocks_eq hbuffer h
    have hlen : (Block.fill m s (c.setWidth 8) n).length = m.length := Block.length_fill (by omega)
    have hrest : s + n + (count - n) ≤ (Block.fill m s (c.setWidth 8) n).length := by omega
    obtain ⟨k, hk, hwords⟩ := setWords_eq hbuffer hrest
    simp only [hblocks, hwords, hlow]
    rw [Block.fill_fill (by omega), Nat.add_assoc,
      setBytes_eq _ (by rw [Block.length_fill (by omega)]; omega),
      Block.fill_fill (by omega)]
    congr 1
    omega
  · rw [hlow, setBytes_eq _ h]

lemma copyUp_eq {α : Type*} [Inhabited α] {m : List α} (hd : d + n ≤ m.length)
    (hs : s + n ≤ m.length) (h : d ≤ s ∨ s + n ≤ d) : copyUp m d s n = Block.move m d s n := by
  induction n generalizing m d s with
  | zero => rw [copyUp, Block.move_zero]
  | succ n ih =>
    rw [copyUp, ih (by rw [List.length_set]; omega) (by rw [List.length_set]; omega) (by omega),
      ← Block.move_one (by omega) (by omega),
      Block.move_move_above (by omega) (by omega) (by omega),
      Nat.add_comm 1 n]

lemma copyDown_eq {α : Type*} [Inhabited α] {m : List α} (hd : d + n ≤ m.length)
    (hs : s + n ≤ m.length) (h : s ≤ d) : copyDown m d s n = Block.move m d s n := by
  induction n generalizing m with
  | zero => rw [copyDown, Block.move_zero]
  | succ n ih =>
    rw [copyDown, ih (by rw [List.length_set]; omega) (by rw [List.length_set]; omega),
      ← Block.move_one (by omega) (by omega), Block.move_move_below (by omega) (by omega) h]

/-- `rt_memmove` moves the block, whether the two blocks overlap or not. -/
lemma rtMemmove_eq {α : Type*} [Inhabited α] {m : List α} (hd : d + n ≤ m.length)
    (hs : s + n ≤ m.length) : rtMemmove m d s n = Block.move m d s n := by
  rw [rtMemmove]
  split_ifs with h
  -- the destination begins inside of the source
  · exact copyDown_eq hd hs (by omega)
  · exact copyUp_eq hd hs (by omega)

lemma copyWords_eq (hd : d + count ≤ m.length) (hs : s + count ≤ m.length)
    (h : d ≤ s ∨ s + count ≤ d) : ∃ n, n ≤ count ∧
      copyWords m d s count = (Block.move m d s n, d + n, s + n, count - n) := by
  fun_induction copyWords m d s count with
  | case1 m d s count h4 ih =>
    rw [storeWord_loadWord _ _ (by omega)] at ih ⊢
    have hlen : (Block.move m d s 4).length = m.length := Block.length_move (by omega) (by omega)
    obtain ⟨n, hn, heq⟩ := ih (by omega) (by omega) (by omega)
    refine ⟨4 + n, by omega, ?_⟩
    rw [heq, Block.move_move_above (by omega) (by omega) (by omega), Nat.add_assoc, Nat.add_assoc,
      Nat.sub_add_eq]
  | case2 m d s count h4 => exact ⟨0, Nat.zero_le _, by rw [Block.move_zero]; rfl⟩

lemma copyBlocks_eq (hd : d + count ≤ m.length) (hs : s + count ≤ m.length)
    (h : d ≤ s ∨ s + count ≤ d) : ∃ n, n ≤ count ∧
      copyBlocks m d s count = (Block.move m d s n, d + n, s + n, count - n) := by
  fun_induction copyBlocks m d s count with
  | case1 m d s count h16 m₁ m₂ m₃ m₄ ih =>
    have hlen : ∀ n, n ≤ 16 → (Block.move m d s n).length = m.length :=
      fun n hn => Block.length_move (by omega) (by omega)
    have h₁ : m₁ = Block.move m d s 4 := storeWord_loadWord _ _ (by omega)
    have h₂ : m₂ = Block.move m d s 8 := by
      have hlen₁ : m₁.length = m.length := h₁ ▸ hlen 4 (by omega)
      rw [← Block.move_move_above (n := 4) (k := 4) (by omega) (by omega) (by omega), ← h₁,
        ← storeWord_loadWord _ _ (by omega)]
    have h₃ : m₃ = Block.move m d s 12 := by
      have hlen₂ : m₂.length = m.length := h₂ ▸ hlen 8 (by omega)
      rw [← Block.move_move_above (n := 8) (k := 4) (by omega) (by omega) (by omega), ← h₂,
        ← storeWord_loadWord _ _ (by omega)]
    have hm : m₄ = Block.move m d s 16 := by
      have hlen₃ : m₃.length = m.length := h₃ ▸ hlen 12 (by omega)
      rw [← Block.move_move_above (n := 12) (k := 4) (by omega) (by omega) (by omega), ← h₃,
        ← storeWord_loadWord _ _ (by omega)]
    have := hlen 16 (by omega)
    rw [hm] at ih ⊢
    obtain ⟨n, hn, heq⟩ := ih (by omega) (by omega) (by omega)
    refine ⟨16 + n, by omega, ?_⟩
    rw [heq, Block.move_move_above (by omega) (by omega) (by omega), Nat.add_assoc, Nat.add_assoc,
      Nat.sub_add_eq]
  | case2 m d s count h16 => exact ⟨0, Nat.zero_le _, by rw [Block.move_zero]; rfl⟩

/-- `rt_memcpy` moves the block, whatever the alignments, unless it overwrites what is still to be
copied. -/
lemma rtMemcpy_eq (hd : d + count ≤ m.length) (hs : s + count ≤ m.length)
    (h : d ≤ s ∨ s + count ≤ d) : rtMemcpy m d s count = Block.move m d s count := by
  rw [rtMemcpy]
  split
  -- each loop goes on where the one before has stopped
  · obtain ⟨n, hn, hblocks⟩ := copyBlocks_eq hd hs h
    have hlen : (Block.move m d s n).length = m.length := Block.length_move (by omega) (by omega)
    have hdst : d + n + (count - n) ≤ (Block.move m d s n).length := by omega
    have hsrc : s + n + (count - n) ≤ (Block.move m d s n).length := by omega
    obtain ⟨k, hk, hwords⟩ := copyWords_eq hdst hsrc (by omega)
    have hlen' : (Block.move m d s (n + k)).length = m.length :=
      Block.length_move (by omega) (by omega)
    simp only [hblocks, hwords]
    rw [Block.move_move_above (by omega) (by omega) (by omega), Nat.add_assoc, Nat.add_assoc,
      copyUp_eq (by omega) (by omega) (by omega),
      Block.move_move_above (by omega) (by omega) (by omega)]
    congr 1
    omega
  · exact copyUp_eq hd hs h

/-- **The memory functions.**  For every alignment and count, `rt_memset` fills a block of the
memory, `rt_memmove` moves one to a place that may overlap with it, and `rt_memcpy` does the same
unless the destination begins inside of the source; all other bytes stay. -/
theorem memory_functions (hd : d + count ≤ m.length) (hs : s + count ≤ m.length) (c : BitVec 32)
    (i : ℕ) :
    (rtMemset m d c count)[i]? =
      (if d ≤ i ∧ i < d + count then some (c.setWidth 8) else m[i]?) ∧
    (rtMemmove m d s count)[i]? =
      (if d ≤ i ∧ i < d + count then m[s + (i - d)]? else m[i]?) ∧
    (d ≤ s ∨ s + count ≤ d → rtMemcpy m d s count = rtMemmove m d s count) := by
  refine ⟨?_, ?_, ?_⟩
  · rw [rtMemset_eq hd]
    exact Block.getElem?_fill hd
  · rw [rtMemmove_eq hd hs]
    exact Block.getElem?_move hd hs
  · intro h
    rw [rtMemcpy_eq hd hs h, rtMemmove_eq hd hs]

/-- Twenty bytes are moved up by four; 23 bytes, which are a round of the first loop, one of the
second and three bytes, are set and copied on an aligned address, and set on one that is not. -/
theorem memory_functions_overlap : let m := (List.range 56).map (BitVec.ofNat 8)
    (rtMemmove m 4 0 20)[23]? = some 19#8 ∧ (rtMemset m 4 0x1AB 23)[26]? = some 0xAB#8 ∧
    (rtMemset m 4 0x1AB 23)[27]? = some 27#8 ∧ (rtMemset m 5 0x1AB 23)[27]? = some 0xAB#8 ∧
    (rtMemcpy m 32 4 23)[54]? = some 26#8 := by
  intro m
  have hmove : (rtMemmove m 4 0 20)[23]? = some 19#8 :=
    (memory_functions (by decide) (by decide) 0 23).2.1
  have hset : (rtMemset m 4 0x1AB 23)[26]? = some 0xAB#8 :=
    (memory_functions (s := 0) (by decide) (by decide) 0x1AB 26).1
  have hbehind : (rtMemset m 4 0x1AB 23)[27]? = some 27#8 :=
    (memory_functions (s := 0) (by decide) (by decide) 0x1AB 27).1
  have hmisaligned : (rtMemset m 5 0x1AB 23)[27]? = some 0xAB#8 :=
    (memory_functions (s := 0) (by decide) (by decide) 0x1AB 27).1
  have hmoved : (rtMemmove m 32 4 23)[54]? = some 26#8 :=
    (memory_functions (by decide) (by decide) 0 54).2.1
  have hcopy : rtMemcpy m 32 4 23 = rtMemmove m 32 4 23 :=
    (memory_functions (by decide) (by decide) 0 54).2.2 (by decide)
  refine ⟨hmove, hset, hbehind, hmisaligned, ?_⟩
  rw [hcopy]
  exact hmoved

end HdmiDisplay.Rtos
