/-
  Inverses and square roots modulo a prime by exponentiation.

  * `mul_pow_sub_two`: Fermat's inverse;
  * `candidate_sq`: for `p % 8 = 5`, the power `(p + 3) / 8` of a square is a root of it or of
    its negation;
  * `correct_sq`: a square root of `-1` repairs the second case.
-/
import Mathlib.NumberTheory.LegendreSymbol.Basic

namespace Roots

variable {p : ℕ} [Fact p.Prime]

theorem mul_pow_sub_two {v : ZMod p} (hv : v ≠ 0) : v * v ^ (p - 2) = 1 := by
  have h2 : 2 ≤ p := (Fact.out : p.Prime).two_le
  rw [← pow_succ', show p - 2 + 1 = p - 1 by omega]
  exact ZMod.pow_card_sub_one_eq_one hv

/-- The candidate for the root of `w ^ 2`. -/
theorem candidate_sq (hp : p % 8 = 5) {w : ZMod p} (hw : w ≠ 0) :
    ((w ^ 2) ^ ((p + 3) / 8)) ^ 2 = w ^ 2 ∨ ((w ^ 2) ^ ((p + 3) / 8)) ^ 2 = -w ^ 2 := by
  have hexp : 2 * ((p + 3) / 8 * 2) = p / 2 + 2 := by omega
  have hcand : ((w ^ 2) ^ ((p + 3) / 8)) ^ 2 = w ^ (p / 2) * w ^ 2 := by
    rw [← pow_mul, ← pow_mul, ← pow_add, hexp]
  rw [hcand]
  rcases ZMod.pow_div_two_eq_neg_one_or_one p hw with h | h
  · left
    rw [h, one_mul]
  · right
    rw [h, neg_one_mul]

theorem correct_sq {c i a : ZMod p} (hi : i ^ 2 = -1) (h : c ^ 2 = -a) : (c * i) ^ 2 = a := by
  rw [mul_pow, hi, h]
  ring

end Roots
