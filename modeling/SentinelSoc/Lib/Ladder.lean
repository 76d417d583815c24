/-
  Left-to-right square-and-multiply, with the operations of any monoid or none.

  * `step`: one bit of the exponent;
  * `Powers`: a family that the two operations compute;
  * `step_power`: a step moves from the bits above `n` to the bits from `n` on;
  * `power`: the family that the bits of the exponent define, with no law assumed;
    `power_rel`: what the operations keep, it keeps.
-/
import Mathlib.Tactic

namespace Ladder

variable {M : Type*}

/-- Square, and multiply if the bit is set. -/
def step (square mul : M → M) (bit : Bool) (acc : M) : M :=
  if bit then mul (square acc) else square acc

/-- `pw k` are the powers of the base that the operations belong to. -/
structure Powers (square mul : M → M) (pw : ℕ → M) : Prop where
  square : ∀ k, square (pw k) = pw (2 * k)
  mul : ∀ k, mul (pw (2 * k)) = pw (2 * k + 1)

/-- The bits from `n` on are those above it and bit `n`. -/
theorem div_two_pow (e n : ℕ) : e / 2 ^ n = 2 * (e / 2 ^ (n + 1)) + (e.testBit n).toNat := by
  have hbit : (e.testBit n).toNat = e / 2 ^ n % 2 := by
    rw [Nat.testBit_eq_decide_div_mod_eq]
    rcases Nat.mod_two_eq_zero_or_one (e / 2 ^ n) with h | h <;> simp [h]
  have hdiv : e / 2 ^ (n + 1) = e / 2 ^ n / 2 := by rw [pow_succ, Nat.div_div_eq_div_mul]
  omega

theorem step_power {square mul : M → M} {pw : ℕ → M} (h : Powers square mul pw) (e n : ℕ) :
    step square mul (e.testBit n) (pw (e / 2 ^ (n + 1))) = pw (e / 2 ^ n) := by
  rw [div_two_pow e n, step, h.square]
  cases e.testBit n with
  | false => rfl
  | true => exact h.mul _

/-- The powers of a monoid. -/
theorem powers_pow [Monoid M] (x : M) : Powers (fun a => a * a) (fun a => a * x) (x ^ ·) where
  square k := by rw [← pow_add, two_mul]
  mul k := (pow_succ x (2 * k)).symm

/-- The bits below `n`, from the top one down. -/
def bits (square mul : M → M) (e : ℕ) : ℕ → M → M
  | 0, acc => acc
  | n + 1, acc => bits square mul e n (step square mul (e.testBit n) acc)

theorem bits_power {square mul : M → M} {pw : ℕ → M} (h : Powers square mul pw) (e n : ℕ) :
    bits square mul e n (pw (e / 2 ^ n)) = pw e := by
  induction n with
  | zero => rw [bits, pow_zero, Nat.div_one]
  | succ n ih => rw [bits, step_power h, ih]

/-! ## Powers by double-and-add -/

section Power

variable (square mul : M → M) (one : M)

/-- The power by the bits of the exponent. -/
def power (k : ℕ) : M :=
  if h : k = 0 then one else step square mul (k.testBit 0) (power (k / 2))
termination_by k
decreasing_by omega

variable {square mul one}

@[simp] theorem power_zero : power square mul one 0 = one := by
  rw [power, dif_pos rfl]

theorem power_of_ne_zero {k : ℕ} (h : k ≠ 0) :
    power square mul one k = step square mul (k.testBit 0) (power square mul one (k / 2)) := by
  rw [power, dif_neg h]

/-- The first doublings, before any bit is set, do nothing. -/
theorem powers_power (hone : square one = one) :
    Powers square mul (power square mul one) where
  square k := by
    rcases Nat.eq_zero_or_pos k with rfl | hk
    · rw [mul_zero, power_zero, hone]
    · rw [power_of_ne_zero (k := 2 * k) (by omega), Nat.testBit_zero, decide_eq_false (by omega),
        step, if_neg (by simp), show 2 * k / 2 = k by omega]
  mul k := by
    have hbit : (2 * k + 1).testBit 0 = true := by
      rw [Nat.testBit_zero]
      exact decide_eq_true (by omega)
    rw [power_of_ne_zero (k := 2 * k + 1) (by omega), hbit, step, if_pos rfl,
      show (2 * k + 1) / 2 = k by omega]
    rcases Nat.eq_zero_or_pos k with rfl | hk
    · rw [mul_zero, power_zero, hone]
    · rw [power_of_ne_zero (k := 2 * k) (by omega), Nat.testBit_zero, decide_eq_false (by omega),
        step, if_neg (by simp), show 2 * k / 2 = k by omega]

/-- The bits define no family but the one that the operations compute. -/
theorem Powers.power_eq {pw : ℕ → M} (h : Powers square mul pw) (k : ℕ) :
    power square mul (pw 0) k = pw k := by
  induction k using Nat.strong_induction_on with
  | _ k ih =>
    rcases Nat.eq_zero_or_pos k with rfl | hk
    · exact power_zero
    · have hstep := step_power h k 0
      rw [zero_add, pow_one, pow_zero, Nat.div_one] at hstep
      rw [power_of_ne_zero hk.ne', ih (k / 2) (by omega), hstep]

/-- A relation that the operations keep. -/
theorem power_rel {N : Type*} {square' mul' : N → N} {one' : N} {R : M → N → Prop}
    (hone : R one one') (hsquare : ∀ a b, R a b → R (square a) (square' b))
    (hmul : ∀ a b, R a b → R (mul a) (mul' b)) (k : ℕ) :
    R (power square mul one k) (power square' mul' one' k) := by
  induction k using Nat.strong_induction_on with
  | _ k ih =>
    rcases Nat.eq_zero_or_pos k with rfl | hk
    · rw [power_zero, power_zero]
      exact hone
    · rw [power_of_ne_zero hk.ne', power_of_ne_zero hk.ne', step, step]
      have hrec := hsquare _ _ (ih (k / 2) (by omega))
      split_ifs
      · exact hmul _ _ hrec
      · exact hrec

end Power

end Ladder
