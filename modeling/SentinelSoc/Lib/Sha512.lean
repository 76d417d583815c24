/-
  SHA-512 (FIPS 180-4) on bytes.

  * `schedule`, `round`, `compress`: the compression of one block;
  * `pad`, `hash`: padding, and the chain over the blocks;
  * `schedule_window`: the schedule as a window of 16 words that moves;
  * `hash_words`: the hash of a message of 32-bit words, on words alone.
-/
import Mathlib.Tactic

namespace Sha512

abbrev Word := BitVec 64

abbrev Byte := BitVec 8

/-! ## Functions on words -/

def ch (x y z : Word) : Word := (x &&& y) ^^^ (~~~x &&& z)
def maj (x y z : Word) : Word := (x &&& y) ^^^ (x &&& z) ^^^ (y &&& z)
def upperSigma0 (x : Word) : Word := x.rotateRight 28 ^^^ x.rotateRight 34 ^^^ x.rotateRight 39
def upperSigma1 (x : Word) : Word := x.rotateRight 14 ^^^ x.rotateRight 18 ^^^ x.rotateRight 41
def lowerSigma0 (x : Word) : Word := x.rotateRight 1 ^^^ x.rotateRight 8 ^^^ x >>> 7
def lowerSigma1 (x : Word) : Word := x.rotateRight 19 ^^^ x.rotateRight 61 ^^^ x >>> 6

/-! ## Compression -/

/-- Eight words: the working variables, or the hash value. -/
structure State where
  a : Word
  b : Word
  c : Word
  d : Word
  e : Word
  f : Word
  g : Word
  h : Word
  deriving DecidableEq

namespace State

def add (s t : State) : State :=
  ⟨s.a + t.a, s.b + t.b, s.c + t.c, s.d + t.d, s.e + t.e, s.f + t.f, s.g + t.g, s.h + t.h⟩

def get (s : State) (i : BitVec 3) : Word :=
  if i = 0 then s.a else if i = 1 then s.b else if i = 2 then s.c else if i = 3 then s.d
  else if i = 4 then s.e else if i = 5 then s.f else if i = 6 then s.g else s.h

/-- The digest in 32-bit words, the upper half of each word first. -/
def halves (s : State) : List (BitVec 32) :=
  [s.a, s.b, s.c, s.d, s.e, s.f, s.g, s.h].flatMap fun w => [w.extractLsb' 32 32, w.extractLsb' 0 32]

end State

/-- The words of the schedule, from the 16 words of a block. -/
def schedule (m : ℕ → Word) (t : ℕ) : Word :=
  if t < 16 then m t
  else lowerSigma1 (schedule m (t - 2)) + schedule m (t - 7) + lowerSigma0 (schedule m (t - 15)) +
    schedule m (t - 16)

/-- One round, with the round constant `k` and the schedule word `w`. -/
def round (s : State) (k w : Word) : State :=
  let t1 := s.h + upperSigma1 s.e + ch s.e s.f s.g + k + w
  let t2 := upperSigma0 s.a + maj s.a s.b s.c
  ⟨t1 + t2, s.a, s.b, s.c, s.d + t1, s.e, s.f, s.g⟩

/-- The round constants. -/
def constants : List Word :=
  [0x428a2f98d728ae22, 0x7137449123ef65cd, 0xb5c0fbcfec4d3b2f, 0xe9b5dba58189dbbc,
   0x3956c25bf348b538, 0x59f111f1b605d019, 0x923f82a4af194f9b, 0xab1c5ed5da6d8118,
   0xd807aa98a3030242, 0x12835b0145706fbe, 0x243185be4ee4b28c, 0x550c7dc3d5ffb4e2,
   0x72be5d74f27b896f, 0x80deb1fe3b1696b1, 0x9bdc06a725c71235, 0xc19bf174cf692694,
   0xe49b69c19ef14ad2, 0xefbe4786384f25e3, 0x0fc19dc68b8cd5b5, 0x240ca1cc77ac9c65,
   0x2de92c6f592b0275, 0x4a7484aa6ea6e483, 0x5cb0a9dcbd41fbd4, 0x76f988da831153b5,
   0x983e5152ee66dfab, 0xa831c66d2db43210, 0xb00327c898fb213f, 0xbf597fc7beef0ee4,
   0xc6e00bf33da88fc2, 0xd5a79147930aa725, 0x06ca6351e003826f, 0x142929670a0e6e70,
   0x27b70a8546d22ffc, 0x2e1b21385c26c926, 0x4d2c6dfc5ac42aed, 0x53380d139d95b3df,
   0x650a73548baf63de, 0x766a0abb3c77b2a8, 0x81c2c92e47edaee6, 0x92722c851482353b,
   0xa2bfe8a14cf10364, 0xa81a664bbc423001, 0xc24b8b70d0f89791, 0xc76c51a30654be30,
   0xd192e819d6ef5218, 0xd69906245565a910, 0xf40e35855771202a, 0x106aa07032bbd1b8,
   0x19a4c116b8d2d0c8, 0x1e376c085141ab53, 0x2748774cdf8eeb99, 0x34b0bcb5e19b48a8,
   0x391c0cb3c5c95a63, 0x4ed8aa4ae3418acb, 0x5b9cca4f7763e373, 0x682e6ff3d6b2b8a3,
   0x748f82ee5defb2fc, 0x78a5636f43172f60, 0x84c87814a1f0ab72, 0x8cc702081a6439ec,
   0x90befffa23631e28, 0xa4506cebde82bde9, 0xbef9a3f7b2c67915, 0xc67178f2e372532b,
   0xca273eceea26619c, 0xd186b8c721c0c207, 0xeada7dd6cde0eb1e, 0xf57d4f7fee6ed178,
   0x06f067aa72176fba, 0x0a637dc5a2c898a6, 0x113f9804bef90dae, 0x1b710b35131c471b,
   0x28db77f523047d84, 0x32caab7b40c72493, 0x3c9ebe0a15c9bebc, 0x431d67c49c100d4c,
   0x4cc5d4becb3e42b6, 0x597f299cfc657e2a, 0x5fcb6fab3ad6faec, 0x6c44198c4a475817]

def constant (t : ℕ) : Word := constants.getD t 0

/-- The first `n` rounds. -/
def rounds (m : ℕ → Word) (s : State) : ℕ → State
  | 0 => s
  | n + 1 => round (rounds m s n) (constant n) (schedule m n)

/-- The initial hash value. -/
def iv : State :=
  ⟨0x6a09e667f3bcc908, 0xbb67ae8584caa73b, 0x3c6ef372fe94f82b, 0xa54ff53a5f1d36f1,
   0x510e527fade682d1, 0x9b05688c2b3e6c1f, 0x1f83d9abfb41bd6b, 0x5be0cd19137e2179⟩

/-- The next hash value, from the words `m` of a block. -/
def compress (s : State) (m : ℕ → Word) : State := s.add (rounds m s 80)

/-! ## Messages -/

/-- The length in bits, in 16 bytes. -/
def lengthBytes (n : ℕ) : List Byte := (List.range 16).map fun i => BitVec.ofNat 8 (n / 256 ^ (15 - i))

def pad (msg : List Byte) : List Byte :=
  msg ++ 0x80 :: List.replicate ((239 - msg.length % 128) % 128) 0 ++ lengthBytes (8 * msg.length)

/-- The big-endian word at offset `o`. -/
def wordAt (p : List Byte) (o : ℕ) : Word :=
  p.getD o 0 ++ p.getD (o + 1) 0 ++ p.getD (o + 2) 0 ++ p.getD (o + 3) 0 ++
    p.getD (o + 4) 0 ++ p.getD (o + 5) 0 ++ p.getD (o + 6) 0 ++ p.getD (o + 7) 0

/-- The hash value after the first `n` blocks of a padded message. -/
def chain (p : List Byte) : ℕ → State
  | 0 => iv
  | n + 1 => compress (chain p n) fun j => wordAt p (128 * n + 8 * j)

/-- **SHA-512.** -/
def hash (msg : List Byte) : State := chain (pad msg) ((pad msg).length / 128)

/-! ## The schedule as a window -/

theorem schedule_of_lt {m : ℕ → Word} {t : ℕ} (h : t < 16) : schedule m t = m t := by
  rw [schedule, if_pos h]

theorem schedule_of_ge {m : ℕ → Word} {t : ℕ} (h : 16 ≤ t) : schedule m t =
    lowerSigma1 (schedule m (t - 2)) + schedule m (t - 7) + lowerSigma0 (schedule m (t - 15)) +
      schedule m (t - 16) := by
  rw [schedule, if_neg (by omega)]

/-- The word that enters the window of the words `t, …, t + 15`. -/
theorem schedule_window (m : ℕ → Word) (t : ℕ) :
    schedule m (t + 16) = lowerSigma1 (schedule m (t + 14)) + schedule m (t + 9) +
      lowerSigma0 (schedule m (t + 1)) + schedule m t := by
  rw [schedule_of_ge (by omega)]
  rfl

theorem compress_congr {s : State} {m m' : ℕ → Word} (h : ∀ j < 16, m j = m' j) :
    compress s m = compress s m' := by
  have hs : ∀ t, schedule m t = schedule m' t := by
    intro t
    induction t using Nat.strong_induction_on with
    | _ t ih =>
      by_cases ht : t < 16
      · rw [schedule_of_lt ht, schedule_of_lt ht, h t ht]
      · rw [schedule_of_ge (m := m) (t := t) (by omega), schedule_of_ge (t := t) (by omega),
          ih (t - 2) (by omega), ih (t - 7) (by omega), ih (t - 15) (by omega), ih (t - 16) (by omega)]
  have hr : ∀ n, rounds m s n = rounds m' s n := by
    intro n
    induction n with
    | zero => rfl
    | succ n ih => rw [rounds, rounds, ih, hs]
  rw [compress, compress, hr]

/-! ## Adders -/

/-- A full adder on the lowest bits. -/
theorem carrySave_mod_two (a b c : ℕ) :
    (a ^^^ b ^^^ c) % 2 + 2 * (((a &&& b) ||| (b &&& c) ||| (a &&& c)) % 2) =
      a % 2 + b % 2 + c % 2 := by
  have hx : ∀ x y : ℕ, (x ^^^ y) % 2 = (x % 2) ^^^ (y % 2) := fun _ _ ↦
    Nat.xor_mod_two_pow (n := 1)
  have ha : ∀ x y : ℕ, (x &&& y) % 2 = (x % 2) &&& (y % 2) := fun _ _ ↦
    Nat.and_mod_two_pow (n := 1)
  have ho : ∀ x y : ℕ, (x ||| y) % 2 = (x % 2) ||| (y % 2) := fun _ _ ↦
    Nat.or_mod_two_pow (n := 1)
  rw [hx, hx, ho, ho, ha, ha, ha]
  rcases Nat.mod_two_eq_zero_or_one a with h | h <;>
    rcases Nat.mod_two_eq_zero_or_one b with h' | h' <;>
    rcases Nat.mod_two_eq_zero_or_one c with h'' | h'' <;>
    rw [h, h', h''] <;> rfl

theorem carrySave_nat (n a b c : ℕ) (h : a + b + c ≤ n) :
    (a ^^^ b ^^^ c) + 2 * ((a &&& b) ||| (b &&& c) ||| (a &&& c)) = a + b + c := by
  induction n generalizing a b c with
  | zero =>
    obtain ⟨rfl, rfl, rfl⟩ : a = 0 ∧ b = 0 ∧ c = 0 := by omega
    rfl
  | succ n ih =>
    by_cases h0 : a + b + c = 0
    · obtain ⟨rfl, rfl, rfl⟩ : a = 0 ∧ b = 0 ∧ c = 0 := by omega
      rfl
    -- the upper bits by induction, the lowest bit by the full adder
    have hu := ih (a / 2) (b / 2) (c / 2) (by omega)
    have hl := carrySave_mod_two a b c
    simp only [← Nat.xor_div_two, ← Nat.and_div_two, ← Nat.or_div_two] at hu
    omega

/-- A carry-save adder keeps the sum of three words in two. -/
theorem carrySave (a b c : Word) :
    (a ^^^ b ^^^ c) + (((a &&& b) ||| (b &&& c) ||| (a &&& c)) <<< 1) = a + b + c := by
  apply BitVec.eq_of_toNat_eq
  have h := carrySave_nat _ a.toNat b.toNat c.toNat le_rfl
  simp only [BitVec.toNat_add, BitVec.toNat_shiftLeft, BitVec.toNat_xor, BitVec.toNat_and,
    BitVec.toNat_or, Nat.shiftLeft_eq]
  omega

/-! ## Messages of 32-bit words -/

/-- The bytes of a word, the upper one first. -/
def beBytes (w : BitVec 32) : List Byte :=
  [w.extractLsb' 24 8, w.extractLsb' 16 8, w.extractLsb' 8 8, w.extractLsb' 0 8]

/-- The number of zero words between the word with the bit 1 and the length. -/
def zeroWords (n : ℕ) : ℕ := if n % 32 < 28 then 29 - n % 32 else 61 - n % 32

/-- The padding of a message of words. -/
def padWords (l : List (BitVec 32)) : List (BitVec 32) :=
  l ++ 0x80000000 :: List.replicate (zeroWords l.length) 0 ++ [0, BitVec.ofNat 32 (32 * l.length)]

/-- Word `j` of block `n` of a padded message of words. -/
def blockWord (p : List (BitVec 32)) (n j : ℕ) : Word :=
  p.getD (32 * n + 2 * j) 0 ++ p.getD (32 * n + 2 * j + 1) 0

def wordChain (p : List (BitVec 32)) : ℕ → State
  | 0 => iv
  | n + 1 => compress (wordChain p n) (blockWord p n)

theorem length_flatMap_beBytes (l : List (BitVec 32)) :
    (l.flatMap beBytes).length = 4 * l.length := by
  induction l with
  | nil => rfl
  | cons w l ih => simp [List.flatMap_cons, ih, beBytes]; omega

theorem getD_flatMap_beBytes (l : List (BitVec 32)) (q r : ℕ) (hr : r < 4) :
    (l.flatMap beBytes).getD (4 * q + r) 0 = (beBytes (l.getD q 0)).getD r 0 := by
  induction l generalizing q with
  | nil =>
    rw [List.flatMap_nil, List.getD_nil, List.getD_nil]
    interval_cases r <;> rfl
  | cons w l ih =>
    cases q with
    | zero => interval_cases r <;> rfl
    | succ q =>
      rw [List.flatMap_cons, List.getD_cons_succ, ← ih q]
      rw [show 4 * (q + 1) + r = 4 * q + r + 4 by omega]
      rfl

theorem append_beBytes (w : BitVec 32) : w.extractLsb' 24 8 ++ w.extractLsb' 16 8 ++
    w.extractLsb' 8 8 ++ w.extractLsb' 0 8 = w := by
  rw [BitVec.extractLsb'_append_extractLsb'_eq_extractLsb' (by rfl),
    BitVec.extractLsb'_append_extractLsb'_eq_extractLsb' (by rfl),
    BitVec.extractLsb'_append_extractLsb'_eq_extractLsb' (by rfl)]
  exact BitVec.extractLsb'_eq_self

theorem append_beBytes_two (u v : BitVec 32) : u.extractLsb' 24 8 ++ u.extractLsb' 16 8 ++
    u.extractLsb' 8 8 ++ u.extractLsb' 0 8 ++ v.extractLsb' 24 8 ++ v.extractLsb' 16 8 ++
    v.extractLsb' 8 8 ++ v.extractLsb' 0 8 = u ++ v := by
  rw [append_beBytes u]
  ext i hi
  simp only [BitVec.getElem_append, BitVec.getElem_extractLsb']
  grind

theorem wordAt_words (l : List (BitVec 32)) (q : ℕ) :
    wordAt (l.flatMap beBytes) (8 * q) = l.getD (2 * q) 0 ++ l.getD (2 * q + 1) 0 := by
  have hu : ∀ r < 4, (l.flatMap beBytes).getD (8 * q + r) 0 =
      (beBytes (l.getD (2 * q) 0)).getD r 0 := by
    intro r hr
    rw [← getD_flatMap_beBytes l (2 * q) r hr, show 4 * (2 * q) + r = 8 * q + r by omega]
  have hv : ∀ r < 4, (l.flatMap beBytes).getD (8 * q + (4 + r)) 0 =
      (beBytes (l.getD (2 * q + 1) 0)).getD r 0 := by
    intro r hr
    rw [← getD_flatMap_beBytes l (2 * q + 1) r hr,
      show 4 * (2 * q + 1) + r = 8 * q + (4 + r) by omega]
  rw [← append_beBytes_two, wordAt]
  have h0 := hu 0 (by omega)
  have h4 := hv 0 (by omega)
  rw [Nat.add_zero] at h0 h4
  rw [h0, hu 1 (by omega), hu 2 (by omega), hu 3 (by omega), h4, hv 1 (by omega),
    hv 2 (by omega), hv 3 (by omega)]
  rfl

theorem lengthBytes_of_lt {n : ℕ} (h : n < 2 ^ 32) :
    lengthBytes n = List.replicate 12 0 ++ beBytes (BitVec.ofNat 32 n) := by
  have hz : ∀ k, 4 ≤ k → BitVec.ofNat 8 (n / 256 ^ k) = 0 := by
    intro k hk
    have hle : 256 ^ 4 ≤ 256 ^ k := Nat.pow_le_pow_right (by norm_num) hk
    rw [Nat.div_eq_of_lt (lt_of_lt_of_le (by simpa using h) hle)]
    rfl
  have hb : beBytes (BitVec.ofNat 32 n) = [BitVec.ofNat 8 (n / 256 ^ 3),
      BitVec.ofNat 8 (n / 256 ^ 2), BitVec.ofNat 8 (n / 256 ^ 1), BitVec.ofNat 8 (n / 256 ^ 0)] := by
    simp only [beBytes, List.cons.injEq, and_true]
    refine ⟨?_, ?_, ?_, ?_⟩ <;>
    · apply BitVec.eq_of_toNat_eq
      simp only [BitVec.extractLsb'_toNat, BitVec.toNat_ofNat, Nat.shiftRight_eq_div_pow,
        Nat.mod_eq_of_lt h]
      norm_num
  rw [hb, lengthBytes]
  simp only [List.range_succ, List.range_zero, List.map_append, List.map_cons, List.map_nil,
    List.nil_append]
  rw [hz _ (by omega), hz _ (by omega), hz _ (by omega), hz _ (by omega), hz _ (by omega),
    hz _ (by omega), hz _ (by omega), hz _ (by omega), hz _ (by omega), hz _ (by omega),
    hz _ (by omega), hz _ (by omega)]
  rfl

theorem flatMap_replicate_zero (n : ℕ) :
    (List.replicate n (0 : BitVec 32)).flatMap beBytes = List.replicate (4 * n) 0 := by
  induction n with
  | zero => rfl
  | succ n ih =>
    rw [List.replicate_succ, List.flatMap_cons, ih, show 4 * (n + 1) = 4 + 4 * n by omega,
      List.replicate_add]
    rfl

/-- The padding of the bytes is the bytes of the padding. -/
theorem pad_words {l : List (BitVec 32)} (h : l.length < 2 ^ 27) :
    pad (l.flatMap beBytes) = (padWords l).flatMap beBytes := by
  have hz : (239 - 4 * l.length % 128) % 128 + 12 = 3 + (4 * zeroWords l.length + 4) := by
    simp only [zeroWords]
    split_ifs <;> omega
  have hlen : 8 * (4 * l.length) = 32 * l.length := by omega
  have hone : beBytes 0x80000000 = 0x80 :: List.replicate 3 0 := rfl
  have hzero : beBytes 0 = List.replicate 4 0 := rfl
  simp only [pad, padWords, length_flatMap_beBytes, hlen, lengthBytes_of_lt (n := 32 * l.length)
    (by omega), List.flatMap_append, List.flatMap_cons, List.flatMap_nil, List.append_nil, hone,
    hzero, flatMap_replicate_zero, List.append_assoc, List.cons_append]
  simp only [← List.append_assoc, List.replicate_append_replicate]
  rw [hz]

theorem length_padWords (l : List (BitVec 32)) :
    (padWords l).length = 32 * ((l.length + 3 + zeroWords l.length) / 32) := by
  simp only [padWords, zeroWords, List.length_append, List.length_cons, List.length_replicate,
    List.length_nil]
  split_ifs <;> omega

/-- The hash of a message of words. -/
theorem hash_words {l : List (BitVec 32)} (h : l.length < 2 ^ 27) :
    hash (l.flatMap beBytes) = wordChain (padWords l) ((padWords l).length / 32) := by
  have hc : ∀ n, chain ((padWords l).flatMap beBytes) n = wordChain (padWords l) n := by
    intro n
    induction n with
    | zero => rfl
    | succ n ih =>
      rw [chain, wordChain, ih]
      refine compress_congr fun j _ => ?_
      rw [show 128 * n + 8 * j = 8 * (16 * n + j) by omega, wordAt_words, blockWord,
        show 2 * (16 * n + j) = 32 * n + 2 * j by omega]
  rw [hash, pad_words h, hc, length_flatMap_beBytes]
  congr 1
  omega

end Sha512
