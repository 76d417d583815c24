/-
  Long division, bit by bit from the top of the dividend.

  * `quot`: the quotient of the first `k` bits; all ones if the divisor is 0;
  * `quot_succ`, `rem_succ`: how the next bit of the dividend changes the quotient and
    the remainder.
-/
import Mathlib.Tactic

namespace LongDivision

variable (d k n : ℕ) (b : Bool)

/-- The quotient of `n`, the first `k` bits of a dividend, by `d`. Without a divisor every
    comparison succeeds. -/
def quot : ℕ := if d = 0 then 2 ^ k - 1 else n / d

/-- The next partial remainder before the subtraction. -/
def shifted : ℕ := 2 * (n % d) + b.toNat

/-- The next bit of the quotient. -/
def fits : Bool := decide (d ≤ shifted d n b)

variable {d k n b}

theorem quot_zero : quot d 0 0 = 0 := by
  unfold quot
  split_ifs <;> simp

theorem quot_succ : quot d (k + 1) (2 * n + b.toNat) = 2 * quot d k n + (fits d n b).toNat := by
  have hb := Bool.toNat_le b
  unfold quot fits shifted
  split_ifs with hd
  · subst hd
    have := Nat.one_le_two_pow (n := k)
    rw [decide_eq_true (Nat.zero_le _), pow_succ, Bool.toNat_true]
    omega
  · have hd : 0 < d := Nat.pos_of_ne_zero hd
    have hn := Nat.div_add_mod n d
    have hlt := Nat.mod_lt n hd
    have h2 : 2 * n + b.toNat = 2 * (n % d) + b.toNat + d * (2 * (n / d)) := by
      rw [← mul_assoc, mul_comm d 2, mul_assoc]
      omega
    rw [h2, Nat.add_mul_div_left _ _ hd]
    by_cases h : d ≤ 2 * (n % d) + b.toNat
    · rw [decide_eq_true h, Bool.toNat_true, Nat.div_eq_of_lt_le (k := 1) (by omega) (by omega)]
      omega
    · rw [decide_eq_false h, Bool.toNat_false, Nat.div_eq_of_lt (by omega)]
      omega

theorem rem_succ : (2 * n + b.toNat) % d =
    if fits d n b then shifted d n b - d else shifted d n b := by
  have hb := Bool.toNat_le b
  unfold fits shifted
  rcases Nat.eq_zero_or_pos d with rfl | hd
  · simp
  · have hlt := Nat.mod_lt n hd
    have hmod : (2 * n + b.toNat) % d = (2 * (n % d) + b.toNat) % d := by
      rw [Nat.add_mod, Nat.mul_mod, Nat.add_mod (2 * (n % d)), Nat.mul_mod 2 (n % d),
        Nat.mod_mod]
    rw [hmod]
    by_cases h : d ≤ 2 * (n % d) + b.toNat
    · rw [if_pos (decide_eq_true h), Nat.mod_eq_sub_mod h, Nat.mod_eq_of_lt (by omega)]
    · rw [if_neg (by simpa using h), Nat.mod_eq_of_lt (by omega)]

/-- The first bits of a number, and the next one. -/
theorem div_two_pow_succ (n c : ℕ) :
    n / 2 ^ c = 2 * (n / 2 ^ (c + 1)) + (n.testBit c).toNat := by
  rw [Nat.testBit_eq_decide_div_mod_eq, pow_succ, ← Nat.div_div_eq_div_mul]
  have := Nat.mod_lt (n / 2 ^ c) (by decide : 0 < 2)
  have := Nat.div_add_mod (n / 2 ^ c) 2
  by_cases h : n / 2 ^ c % 2 = 1
  · rw [decide_eq_true h, Bool.toNat_true]
    omega
  · rw [decide_eq_false h, Bool.toNat_false]
    omega

end LongDivision
