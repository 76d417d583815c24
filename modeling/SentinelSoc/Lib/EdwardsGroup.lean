/-
  The points of a twisted Edwards curve are a group.

  * `Point.turn`: the sum with a point of order 4, which exchanges the coordinates; what is shown
    for the first coordinate of every sum then holds of the second (`add_turn`);
  * `Point.add_assoc`: associativity;
  * `smul_eq_nsmul`: double-and-add computes the multiples of the group.
-/
import SentinelSoc.Lib.Edwards

namespace Edwards

variable {F : Type*} [Field F] {E : Curve F}

namespace Point

variable (P Q R : Point E)

theorem add_comm : P.add Q = Q.add P := by
  ext
  · rw [add_x, add_x]
    ring
  · rw [add_y, add_y]
    ring

theorem add_neutral : P.add neutral = P := by
  ext
  · simp [neutral]
  · simp [neutral]

theorem neutral_add : neutral.add P = P := by
  rw [add_comm, add_neutral]

/-- The negative. -/
def neg : Point E := ⟨-P.x, P.y, by simpa [Curve.On] using P.on⟩

theorem neg_add : P.neg.add P = neutral := by
  have hx := P.denomX P
  have hy := P.neg.denomY P
  have hon := P.on
  unfold Curve.On at hon
  ext
  · rw [add_x]
    simp only [neg, neutral]
    rw [show -P.x * P.y + P.x * P.y = 0 by ring, zero_div]
  · rw [add_y]
    simp only [neg] at hy
    simp only [neg, neutral]
    rw [div_eq_one_iff_eq hy]
    linear_combination hon

/-! ## The quarter turn -/

/-- The sum with `(i, 0)`. -/
def turn : Point E where
  x := E.i * P.y
  y := E.i * P.x
  on := by
    have hi := E.i_sq
    have hon := P.on
    unfold Curve.On at hon ⊢
    linear_combination hon + (P.x ^ 2 - P.y ^ 2 - E.d * P.x ^ 2 * P.y ^ 2 * (E.i ^ 2 - 1)) * hi

theorem add_turn : P.add Q.turn = (P.add Q).turn := by
  have hi := E.i_sq
  ext
  · simp only [add_x, turn, add_y]
    rw [show 1 + E.d * P.x * (E.i * Q.y) * P.y * (E.i * Q.x) =
      1 - E.d * P.x * Q.x * P.y * Q.y by linear_combination E.d * P.x * Q.x * P.y * Q.y * hi]
    ring
  · simp only [add_y, turn, add_x]
    rw [show 1 - E.d * P.x * (E.i * Q.y) * P.y * (E.i * Q.x) =
      1 + E.d * P.x * Q.x * P.y * Q.y by linear_combination -(E.d * P.x * Q.x * P.y * Q.y * hi)]
    ring

/-! ## Associativity -/

/-- The first coordinate of a sum with a sum, over one denominator. -/
theorem x_of_div {d a b u v x y : F} (hu : u ≠ 0) (hv : v ≠ 0) :
    (a / u * y + x * (b / v)) / (1 + d * (a / u) * x * (b / v) * y) =
      (a * v * y + x * b * u) / (u * v + d * a * b * x * y) := by
  have hn : a / u * y + x * (b / v) = (a * v * y + x * b * u) / (u * v) := by
    field_simp
  have hd : 1 + d * (a / u) * x * (b / v) * y = (u * v + d * a * b * x * y) / (u * v) := by
    field_simp
  rw [hn, hd, div_div_div_cancel_right₀ (mul_ne_zero hu hv)]

theorem denom_of_div {d a b u v x y : F} (hu : u ≠ 0) (hv : v ≠ 0)
    (h : 1 + d * (a / u) * x * (b / v) * y ≠ 0) : u * v + d * a * b * x * y ≠ 0 := by
  intro h0
  refine h ?_
  field_simp
  linear_combination h0

/-- The two first coordinates of the sum of three points, crosswise. -/
theorem cross_x {d x₁ y₁ x₂ y₂ x₃ y₃ : F} (h₁ : -x₁ ^ 2 + y₁ ^ 2 = 1 + d * x₁ ^ 2 * y₁ ^ 2)
    (h₂ : -x₂ ^ 2 + y₂ ^ 2 = 1 + d * x₂ ^ 2 * y₂ ^ 2)
    (h₃ : -x₃ ^ 2 + y₃ ^ 2 = 1 + d * x₃ ^ 2 * y₃ ^ 2) :
    ((x₁ * y₂ + x₂ * y₁) * (1 - d * x₁ * x₂ * y₁ * y₂) * y₃ +
          x₃ * (y₁ * y₂ + x₁ * x₂) * (1 + d * x₁ * x₂ * y₁ * y₂)) *
        ((1 + d * x₂ * x₃ * y₂ * y₃) * (1 - d * x₂ * x₃ * y₂ * y₃) +
          d * (x₂ * y₃ + x₃ * y₂) * (y₂ * y₃ + x₂ * x₃) * x₁ * y₁) =
      ((x₂ * y₃ + x₃ * y₂) * (1 - d * x₂ * x₃ * y₂ * y₃) * y₁ +
          x₁ * (y₂ * y₃ + x₂ * x₃) * (1 + d * x₂ * x₃ * y₂ * y₃)) *
        ((1 + d * x₁ * x₂ * y₁ * y₂) * (1 - d * x₁ * x₂ * y₁ * y₂) +
          d * (x₁ * y₂ + x₂ * y₁) * (y₁ * y₂ + x₁ * x₂) * x₃ * y₃) := by
  linear_combination
    d * x₂ * y₂ *
        (x₂ ^ 3 * x₃ * y₃ * (y₁ * y₃ - x₁ * x₃) + y₂ ^ 3 * x₃ * y₃ * (x₁ * y₃ - y₁ * x₃) +
          x₂ * y₂ * (y₃ ^ 2 - 1) * y₃ * (y₁ * x₂ + x₁ * y₂) -
          x₂ * y₂ * (x₃ ^ 2 + 1) * x₃ * (y₁ * y₂ + x₁ * x₂) +
          d * x₂ ^ 2 * y₂ ^ 2 * x₃ * y₃ * (y₁ * x₂ - x₁ * y₂) * y₃ +
          d * x₂ ^ 2 * y₂ ^ 2 * x₃ * y₃ * (y₁ * y₂ - x₁ * x₂) * x₃) * h₁ +
      d * x₂ * y₂ *
        (x₃ * y₃ * (x₁ ^ 3 + x₁) * (x₂ * x₃ + y₂ * y₃) +
          x₃ * y₃ * (y₁ ^ 3 - y₁) * (y₂ * x₃ + x₂ * y₃) -
          x₁ * y₁ * (x₃ ^ 3 + x₃) * (x₁ * x₂ + y₁ * y₂) -
          x₁ * y₁ * (y₃ ^ 3 - y₃) * (y₁ * x₂ + x₁ * y₂)) * h₂ +
      d * x₂ * y₂ *
        (x₂ * y₂ * (y₁ - y₁ ^ 3) * (y₂ * x₃ + x₂ * y₃) +
          x₂ * y₂ * (x₁ + x₁ ^ 3) * (y₂ * y₃ + x₂ * x₃) -
          x₁ * y₁ ^ 2 * (y₂ ^ 3 * x₃ + x₂ ^ 3 * y₃) +
          x₁ ^ 2 * y₁ * (y₂ ^ 3 * y₃ + x₂ ^ 3 * x₃) +
          d * x₁ * y₁ ^ 2 * x₂ ^ 2 * y₂ ^ 2 * (y₂ * x₃ - x₂ * y₃) +
          d * x₁ ^ 2 * y₁ * x₂ ^ 2 * y₂ ^ 2 * (x₂ * x₃ - y₂ * y₃)) * h₃

theorem add_assoc_x : ((P.add Q).add R).x = (P.add (Q.add R)).x := by
  have hPQ := P.denomX Q
  have hPQ' := P.denomY Q
  have hQR := Q.denomX R
  have hQR' := Q.denomY R
  have hl := (P.add Q).denomX R
  have hr := (Q.add R).denomX P
  rw [P.add_comm (Q.add R)]
  simp only [add_x, add_y] at hl hr ⊢
  rw [x_of_div hPQ hPQ', x_of_div hQR hQR', div_eq_div_iff (denom_of_div hPQ hPQ' hl)
    (denom_of_div hQR hQR' hr)]
  exact cross_x P.on Q.on R.on

/-- **Associativity.** -/
theorem add_assoc : (P.add Q).add R = P.add (Q.add R) := by
  ext
  · exact add_assoc_x P Q R
  · -- the second coordinate is the first one, turned
    have h := add_assoc_x P Q R.turn
    rw [add_turn, add_turn, add_turn] at h
    exact mul_left_cancel₀ E.i_ne_zero h

instance : Add (Point E) := ⟨add⟩

instance : Zero (Point E) := ⟨neutral⟩

instance : Neg (Point E) := ⟨neg⟩

instance : AddCommGroup (Point E) where
  add_assoc := add_assoc
  zero_add := neutral_add
  add_zero := add_neutral
  neg_add_cancel := neg_add
  add_comm := add_comm
  nsmul := nsmulRec
  zsmul := zsmulRec

theorem add_eq : P.add Q = P + Q := rfl

theorem neutral_eq : (neutral : Point E) = 0 := rfl

/-- **Double-and-add computes the multiples.** -/
theorem smul_eq_nsmul (n : ℕ) : P.smul n = n • P := by
  have hp : Ladder.Powers (fun Q : Point E => Q.add Q) (fun Q => Q.add P) (fun k => k • P) := by
    refine ⟨fun k => ?_, fun k => ?_⟩
    · rw [add_eq, two_mul, add_nsmul]
    · rw [add_eq, succ_nsmul]
  have h := hp.power_eq n
  rw [zero_nsmul] at h
  exact h

end Point

end Edwards
