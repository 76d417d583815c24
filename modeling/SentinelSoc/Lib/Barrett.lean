/-
  Barrett reduction of a two-word number in one word (base `B`).

  * `quotient`: the estimate of `x / m` from the two words of `μ = B ^ 2 / m`, without the
    low partial product;
  * `quotient_mul_le`, `lt_quotient_add_four`: it is at most three too small;
  * `sub_quotient_mul`: the remainder that it leaves, computed modulo `B` throughout;
  * `condSub`: three conditional subtractions are enough for it.
-/
import Mathlib.Tactic

namespace Barrett

/-- The estimate of the quotient of `hi * B + lo`, from `μ = muHi * B + muLo`. -/
def quotient (B lo hi muHi muLo : ℕ) : ℕ := hi * muHi + hi * muLo / B + lo * muHi / B

/-- Subtract `m` where this is possible. -/
def condSub (m r : ℕ) : ℕ := if m ≤ r then r - m else r

variable {B m lo hi muHi muLo : ℕ}

/-- What the estimate drops is below `3 * B ^ 2`. -/
theorem quotient_bounds (hi muHi : ℕ) (hB : 0 < B) (hlo : lo < B) (hmu : muLo < B) :
    quotient B lo hi muHi muLo * B ^ 2 ≤ (hi * B + lo) * (muHi * B + muLo) ∧
      (hi * B + lo) * (muHi * B + muLo) < (quotient B lo hi muHi muLo + 3) * B ^ 2 := by
  have h₁ := Nat.div_add_mod (hi * muLo) B
  have h₂ := Nat.div_add_mod (lo * muHi) B
  have hm₁ := Nat.mod_lt (hi * muLo) hB
  have hm₂ := Nat.mod_lt (lo * muHi) hB
  have hll : lo * muLo < B * B := Nat.mul_lt_mul'' hlo hmu
  have hprod : (hi * B + lo) * (muHi * B + muLo) =
      quotient B lo hi muHi muLo * B ^ 2 +
        ((hi * muLo % B) * B + (lo * muHi % B) * B + lo * muLo) := by
    unfold quotient
    calc (hi * B + lo) * (muHi * B + muLo)
        = hi * muHi * B ^ 2 + hi * muLo * B + lo * muHi * B + lo * muLo := by ring
      _ = hi * muHi * B ^ 2 + (B * (hi * muLo / B) + hi * muLo % B) * B +
            (B * (lo * muHi / B) + lo * muHi % B) * B + lo * muLo := by rw [h₁, h₂]
      _ = _ := by ring
  refine ⟨hprod ▸ Nat.le_add_right _ _, ?_⟩
  have hr₁ : (hi * muLo % B) * B < B * B := Nat.mul_lt_mul_of_pos_right hm₁ hB
  have hr₂ : (lo * muHi % B) * B < B * B := Nat.mul_lt_mul_of_pos_right hm₂ hB
  rw [hprod, add_mul, sq]
  omega

theorem quotient_mul_le (hi : ℕ) (hB : 0 < B) (hlo : lo < B) (hmuLo : muLo < B)
    (hmu : muHi * B + muLo = B ^ 2 / m) :
    quotient B lo hi muHi muLo * m ≤ hi * B + lo := by
  have hq := (quotient_bounds hi muHi hB hlo hmuLo).1
  have hm : (muHi * B + muLo) * m ≤ B ^ 2 := hmu ▸ Nat.div_mul_le_self _ _
  have hB2 : 0 < B ^ 2 := by positivity
  refine Nat.le_of_mul_le_mul_right ?_ hB2
  calc quotient B lo hi muHi muLo * m * B ^ 2
      = quotient B lo hi muHi muLo * B ^ 2 * m := by ring
    _ ≤ (hi * B + lo) * (muHi * B + muLo) * m := Nat.mul_le_mul_right m hq
    _ = (hi * B + lo) * ((muHi * B + muLo) * m) := by ring
    _ ≤ (hi * B + lo) * B ^ 2 := Nat.mul_le_mul_left _ hm

theorem lt_quotient_add_four (hB : 0 < B) (hlo : lo < B) (hhi : hi < B) (hmuLo : muLo < B)
    (hm : 0 < m) (hmu : muHi * B + muLo = B ^ 2 / m) :
    hi * B + lo < (quotient B lo hi muHi muLo + 4) * m := by
  have hq := (quotient_bounds hi muHi hB hlo hmuLo).2
  have hx : hi * B + lo < B ^ 2 := by
    calc hi * B + lo < hi * B + B := by omega
      _ = (hi + 1) * B := by ring
      _ ≤ B * B := Nat.mul_le_mul_right B hhi
      _ = B ^ 2 := (sq B).symm
  have hB2 : 0 < B ^ 2 := by positivity
  have hdiv := Nat.div_add_mod (B ^ 2) m
  have hmod := Nat.mod_lt (B ^ 2) hm
  rw [← hmu] at hdiv
  refine lt_of_mul_lt_mul_right (a := B ^ 2) ?_ (Nat.zero_le _)
  calc (hi * B + lo) * B ^ 2
      = (hi * B + lo) * (muHi * B + muLo) * m + (hi * B + lo) * (B ^ 2 % m) := by
        conv_lhs => rw [← hdiv]
        ring
    _ ≤ (hi * B + lo) * (muHi * B + muLo) * m + B ^ 2 * m :=
        Nat.add_le_add_left (Nat.mul_le_mul hx.le hmod.le) _
    _ < (quotient B lo hi muHi muLo + 3) * B ^ 2 * m + B ^ 2 * m :=
        Nat.add_lt_add_right (Nat.mul_lt_mul_of_pos_right hq hm) _
    _ = (quotient B lo hi muHi muLo + 4) * m * B ^ 2 := by ring

/-- **The remainder of the estimate.**  It is below `4 * m`; where this fits one word, the low
    words of `x` and of the product determine it. -/
theorem sub_quotient_mul {q : ℕ} (h4 : 4 * m ≤ B) (hle : q * m ≤ hi * B + lo)
    (hlt : hi * B + lo < (q + 4) * m) :
    (lo + (B - q * m % B)) % B = hi * B + lo - q * m := by
  have hr : hi * B + lo - q * m < B := by
    have : (q + 4) * m = q * m + 4 * m := by ring
    omega
  have hB : 0 < B := by omega
  have hmod := Nat.mod_lt (q * m) hB
  have hdiv := Nat.div_add_mod (q * m) B
  have key : lo + (B - q * m % B) + B * hi = (hi * B + lo - q * m) + B * (q * m / B + 1) := by
    rw [Nat.mul_add, mul_comm B hi]
    omega
  rw [← Nat.add_mul_mod_self_left _ B hi, key, Nat.add_mul_mod_self_left, Nat.mod_eq_of_lt hr]

/-! ## The conditional subtractions -/

theorem condSub_lt {r k : ℕ} (h : r < (k + 2) * m) : condSub m r < (k + 1) * m := by
  have e : (k + 2) * m = (k + 1) * m + m := by ring
  have e' : (k + 1) * m = k * m + m := by ring
  unfold condSub
  split_ifs <;> omega

theorem condSub_mod (m r : ℕ) : condSub m r % m = r % m := by
  unfold condSub
  split_ifs with h
  · rw [← Nat.mod_eq_sub_mod h]
  · rfl

/-- Three conditional subtractions reduce what is below `4 * m`. -/
theorem condSub_three {r : ℕ} (h : r < 4 * m) :
    condSub m (condSub m (condSub m r)) = r % m := by
  have h₃ : condSub m r < 3 * m := condSub_lt (k := 2) h
  have h₂ : condSub m (condSub m r) < 2 * m := condSub_lt (k := 1) h₃
  have h₁ : condSub m (condSub m (condSub m r)) < 1 * m := condSub_lt (k := 0) h₂
  rw [one_mul] at h₁
  rw [← Nat.mod_eq_of_lt h₁, condSub_mod, condSub_mod, condSub_mod]

/-- **Barrett reduction.** -/
theorem reduce (hm : 0 < m) (hlo : lo < B) (hhi : hi < B) (hmuLo : muLo < B) (h4 : 4 * m ≤ B)
    (hmu : muHi * B + muLo = B ^ 2 / m) :
    condSub m (condSub m (condSub m
        ((lo + (B - quotient B lo hi muHi muLo * m % B)) % B))) = (hi * B + lo) % m := by
  have hB : 0 < B := by omega
  have hle := quotient_mul_le hi hB hlo hmuLo hmu
  have hlt := lt_quotient_add_four hB hlo hhi hmuLo hm hmu
  have hr : hi * B + lo - quotient B lo hi muHi muLo * m < 4 * m := by
    have : (quotient B lo hi muHi muLo + 4) * m =
        quotient B lo hi muHi muLo * m + 4 * m := by ring
    omega
  rw [sub_quotient_mul h4 hle hlt, condSub_three hr]
  rw [mul_comm (quotient B lo hi muHi muLo) m] at hle ⊢
  exact Nat.sub_mul_mod hle

end Barrett
