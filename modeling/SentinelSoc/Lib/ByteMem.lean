/-
  A memory of 32-bit words, seen as one of bytes in little-endian order.

  * `bytes`: the bytes of a word memory;
  * `load`, `store`: accesses of `n` bytes at any address, also across words;
  * `word_bytes`: the four bytes from an address on lie in its word and in the next one;
  * `sub_lt_iff`: which bytes of which words an access covers.
-/
import Mathlib.Tactic

namespace ByteMem

/-- The word of an address, and its place in the word. -/
def wordOf (addr : BitVec 32) : BitVec 30 := addr.extractLsb' 2 30

def laneOf (addr : BitVec 32) : BitVec 2 := addr.extractLsb' 0 2

/-- Byte `k` of a word. -/
def byte (w : BitVec 32) (k : ℕ) : BitVec 8 := w.extractLsb' (8 * k) 8

/-- The bytes of a word memory. -/
def bytes (m : BitVec 30 → BitVec 32) (addr : BitVec 32) : BitVec 8 :=
  byte (m (wordOf addr)) (laneOf addr).toNat

variable (n : ℕ) (b : BitVec 32 → BitVec 8) (addr : BitVec 32)

/-- The four bytes from an address on. -/
def word : BitVec 32 := b (addr + 3) ++ b (addr + 2) ++ b (addr + 1) ++ b addr

/-- The first `n` bytes of a word, with their sign or with zeros in front. -/
def extend (signExt : Bool) (w : BitVec 32) : BitVec 32 :=
  if signExt then (w.setWidth (8 * n)).signExtend 32 else (w.setWidth (8 * n)).setWidth 32

/-- The value of `n` bytes. -/
def load (signExt : Bool) : BitVec 32 := extend n signExt (word b addr)

/-- The memory after `n` bytes of a value are written. -/
def store (v : BitVec 32) (x : BitVec 32) : BitVec 8 :=
  if (x - addr).toNat < n then byte v (x - addr).toNat else b x

/-- The four bytes from place `o` on of two words, `lo` before `hi`. -/
def turn (lo hi : BitVec 32) (o : BitVec 2) : BitVec 32 :=
  if o = 0 then lo
  else if o = 1 then hi.extractLsb' 0 8 ++ lo.extractLsb' 8 24
  else if o = 2 then hi.extractLsb' 0 16 ++ lo.extractLsb' 16 16
  else hi.extractLsb' 0 24 ++ lo.extractLsb' 24 8

variable {n b addr} {m : BitVec 30 → BitVec 32} {x lo hi v w : BitVec 32} {o : BitVec 2} {k : ℕ}

theorem eq_of_byte (h : ∀ k < 4, byte v k = byte w k) : v = w := by
  apply BitVec.eq_of_getLsbD_eq
  intro j hj
  have hb := congrArg (fun b : BitVec 8 => b.getLsbD (j % 8)) (h (j / 8) (by omega))
  simpa [byte, Nat.mod_lt, Nat.div_add_mod] using hb

theorem place_cases (o : BitVec 2) : o = 0 ∨ o = 1 ∨ o = 2 ∨ o = 3 := by
  revert o
  decide

/-- A byte of two parts of words side by side. -/
theorem byte_append {j : ℕ} (h : 8 * j + (32 - 8 * j) = 32) (hk : k < 4) :
    byte ((hi.extractLsb' 0 (8 * j) ++ lo.extractLsb' (8 * j) (32 - 8 * j)).cast h) k =
      if k + j < 4 then byte lo (k + j) else byte hi (k + j - 4) := by
  apply BitVec.eq_of_getLsbD_eq
  intro l hl
  simp only [byte, BitVec.getLsbD_extractLsb', BitVec.getLsbD_cast, BitVec.getLsbD_append]
  split_ifs with h1 h2 h2
  · simp only [BitVec.getLsbD_extractLsb']
    grind
  · omega
  · omega
  · simp only [BitVec.getLsbD_extractLsb', hl]
    grind

theorem byte_turn (hk : k < 4) : byte (turn lo hi o) k =
    if k + o.toNat < 4 then byte lo (k + o.toNat) else byte hi (k + o.toNat - 4) := by
  rcases place_cases o with rfl | rfl | rfl | rfl
  · exact (if_pos hk).symm
  · exact byte_append (j := 1) rfl hk
  · exact byte_append (j := 2) rfl hk
  · exact byte_append (j := 3) rfl hk

theorem byte_word (hk : k < 4) : byte (word b addr) k = b (addr + BitVec.ofNat 32 k) := by
  apply BitVec.eq_of_getLsbD_eq
  intro j hj
  simp only [byte, word, BitVec.getLsbD_extractLsb', BitVec.getLsbD_append, hj]
  interval_cases k
  · simp [hj]
  · simp [hj]
  · simp [hj]
    grind
  · simp [hj]
    grind

theorem toNat_eq (addr : BitVec 32) :
    addr.toNat = 4 * (wordOf addr).toNat + (laneOf addr).toNat := by
  have h := addr.isLt
  simp only [wordOf, laneOf, BitVec.extractLsb'_toNat, Nat.shiftRight_eq_div_pow]
  omega

theorem toNat_next (w : BitVec 30) : (w + 1).toNat = (w.toNat + 1) % 2 ^ 30 :=
  BitVec.toNat_add w 1

/-- The next word. -/
theorem wordOf_add_four (addr : BitVec 32) : wordOf (addr + 4) = wordOf addr + 1 := by
  apply BitVec.eq_of_toNat_eq
  have h := addr.isLt
  simp only [wordOf, BitVec.extractLsb'_toNat, Nat.shiftRight_eq_div_pow, BitVec.toNat_add,
    BitVec.ofNat_eq_ofNat, BitVec.toNat_ofNat]
  omega

theorem laneOf_add_four (addr : BitVec 32) : laneOf (addr + 4) = laneOf addr := by
  apply BitVec.eq_of_toNat_eq
  have h := addr.isLt
  simp only [laneOf, BitVec.extractLsb'_toNat, Nat.shiftRight_zero, BitVec.toNat_add,
    BitVec.ofNat_eq_ofNat, BitVec.toNat_ofNat]
  omega

/-- The bytes behind an address lie in its word or in the next one. -/
theorem bytes_add (hk : k < 4) : bytes m (addr + BitVec.ofNat 32 k) =
    if (laneOf addr).toNat + k < 4 then byte (m (wordOf addr)) ((laneOf addr).toNat + k)
    else byte (m (wordOf addr + 1)) ((laneOf addr).toNat + k - 4) := by
  have h := addr.isLt
  have hw : (wordOf (addr + BitVec.ofNat 32 k)).toNat =
      (addr.toNat + k) % 2 ^ 32 / 4 := by
    simp only [wordOf, BitVec.extractLsb'_toNat, Nat.shiftRight_eq_div_pow, BitVec.toNat_add,
      BitVec.toNat_ofNat]
    omega
  have hl : (laneOf (addr + BitVec.ofNat 32 k)).toNat = (addr.toNat + k) % 4 := by
    simp only [laneOf, BitVec.extractLsb'_toNat, Nat.shiftRight_zero, BitVec.toNat_add,
      BitVec.toNat_ofNat]
    omega
  have ha := toNat_eq addr
  have hlt := (laneOf addr).isLt
  have hwt := (wordOf addr).isLt
  unfold bytes
  rw [hl]
  split_ifs with hc
  · have hword : wordOf (addr + BitVec.ofNat 32 k) = wordOf addr :=
      BitVec.eq_of_toNat_eq (by rw [hw]; omega)
    rw [hword]
    congr 1
    omega
  · have hword : wordOf (addr + BitVec.ofNat 32 k) = wordOf addr + 1 := by
      apply BitVec.eq_of_toNat_eq
      rw [hw, toNat_next]
      omega
    rw [hword]
    congr 1
    omega

/-- The four bytes from an address on lie in its word and in the next one. -/
theorem word_bytes (m : BitVec 30 → BitVec 32) (addr : BitVec 32) :
    word (bytes m) addr = turn (m (wordOf addr)) (m (wordOf addr + 1)) (laneOf addr) :=
  eq_of_byte fun k hk => by rw [byte_word hk, bytes_add hk, byte_turn hk, Nat.add_comm k]

/-- The bytes that an access of up to four bytes covers, in its word and in the next one. -/
theorem sub_lt_iff (hn : n ≤ 4) : (x - addr).toNat < n ↔
    (wordOf x = wordOf addr ∧ (laneOf addr).toNat ≤ (laneOf x).toNat ∧
      (laneOf x).toNat < (laneOf addr).toNat + n) ∨
    (wordOf x = wordOf addr + 1 ∧ (laneOf x).toNat + 4 < (laneOf addr).toNat + n) := by
  have hx := toNat_eq x
  have ha := toNat_eq addr
  have hxl := (laneOf x).isLt
  have hal := (laneOf addr).isLt
  have hxw := (wordOf x).isLt
  have haw := (wordOf addr).isLt
  rw [BitVec.toNat_sub, ← BitVec.toNat_inj, ← BitVec.toNat_inj, toNat_next]
  omega

theorem sub_toNat_same (hw : wordOf x = wordOf addr)
    (hl : (laneOf addr).toNat ≤ (laneOf x).toNat) :
    (x - addr).toNat = (laneOf x).toNat - (laneOf addr).toNat := by
  have hx := toNat_eq x
  have ha := toNat_eq addr
  have hxt := x.isLt
  rw [hw] at hx
  rw [BitVec.toNat_sub]
  omega

theorem sub_toNat_next (hw : wordOf x = wordOf addr + 1) :
    (x - addr).toNat = (laneOf x).toNat + 4 - (laneOf addr).toNat := by
  have hx := toNat_eq x
  have ha := toNat_eq addr
  have hxl := (laneOf x).isLt
  have hal := (laneOf addr).isLt
  have haw := (wordOf addr).isLt
  rw [hw, toNat_next] at hx
  rw [BitVec.toNat_sub]
  omega

end ByteMem
