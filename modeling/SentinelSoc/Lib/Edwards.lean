/-
  Twisted Edwards curves `-x² + y² = 1 + d x² y²` over a field in which `-1` is a square and
  `d` is not.

  * `denom_add_ne_zero`, `denom_sub_ne_zero`: the addition law is complete;
  * `Point`: the points, with `Point.add` and `Point.neutral`;
  * `Extended`: extended coordinates of a point, and the formulas by which they are added
    (`Represents.add`) and doubled (`Represents.double`);
  * `Point.smul`, `Extended.smul`: double-and-add on both (`Represents.smul`).
-/
import SentinelSoc.Lib.Ladder

namespace Edwards

/-- The parameters of a curve. -/
structure Curve (F : Type*) [Field F] where
  d : F
  i : F
  i_sq : i ^ 2 = -1
  not_isSquare_d : ¬ IsSquare d
  two_ne_zero : (2 : F) ≠ 0

variable {F : Type*} [Field F] {E : Curve F}

/-- The curve equation. -/
def Curve.On (E : Curve F) (x y : F) : Prop := -x ^ 2 + y ^ 2 = 1 + E.d * x ^ 2 * y ^ 2

/-! ## Completeness -/

theorem Curve.i_ne_zero (E : Curve F) : E.i ≠ 0 := by
  intro h
  have h1 := E.i_sq
  rw [h] at h1
  exact one_ne_zero (neg_eq_zero.1 (h1.symm.trans (by simp)))

section Completeness

variable {x₁ y₁ x₂ y₂ ε : F}

/-- Both signs of the square root of `d x₁² y₁² (i x₂ ± y₂)²`. -/
theorem square_of_denom (h₁ : E.On x₁ y₁) (h₂ : E.On x₂ y₂)
    (hε : E.d * x₁ * x₂ * y₁ * y₂ = ε) (hsq : ε ^ 2 = 1) (s : F) (hs : s ^ 2 = 1) :
    (E.i * x₁ + s * ε * y₁) ^ 2 = E.d * (x₁ * y₁ * (E.i * x₂ + s * y₂)) ^ 2 := by
  unfold Curve.On at h₁ h₂
  subst hε
  have key : E.d * x₁ ^ 2 * y₁ ^ 2 * (-x₂ ^ 2 + y₂ ^ 2) = -x₁ ^ 2 + y₁ ^ 2 := by
    linear_combination E.d * x₁ ^ 2 * y₁ ^ 2 * h₂ - h₁ + hsq
  have hcross : E.d * x₁ * x₂ * y₁ * y₂ * x₁ * y₁ = E.d * x₁ ^ 2 * y₁ ^ 2 * x₂ * y₂ := by ring
  linear_combination x₁ ^ 2 * E.i_sq + y₁ ^ 2 * s ^ 2 * hsq + y₁ ^ 2 * hs + 2 * E.i * s * hcross -
    E.d * x₁ ^ 2 * y₁ ^ 2 * x₂ ^ 2 * E.i_sq - E.d * x₁ ^ 2 * y₁ ^ 2 * y₂ ^ 2 * hs - key

/-- **Completeness**: `d x₁ x₂ y₁ y₂` is never a sign. -/
theorem denom_ne_sign (h₁ : E.On x₁ y₁) (h₂ : E.On x₂ y₂) :
    (E.d * x₁ * x₂ * y₁ * y₂) ^ 2 ≠ 1 := by
  intro hsq
  have hne : E.d * x₁ * x₂ * y₁ * y₂ ≠ 0 := by
    intro h
    rw [h] at hsq
    exact zero_ne_one ((zero_pow two_ne_zero).symm.trans hsq)
  obtain ⟨⟨⟨⟨-, hx₁⟩, hx₂⟩, hy₁⟩, hy₂⟩ := by simpa [mul_ne_zero_iff] using hne
  -- one of `i x₂ + y₂` and `i x₂ - y₂` is not zero, since their sum is not
  have hsum : E.i * x₂ + 1 * y₂ ≠ 0 ∨ E.i * x₂ + -1 * y₂ ≠ 0 := by
    by_contra hc
    push Not at hc
    have h2 : 2 * (E.i * x₂) = 0 := by linear_combination hc.1 + hc.2
    exact mul_ne_zero E.two_ne_zero (mul_ne_zero E.i_ne_zero hx₂) h2
  have hsquare : ∀ s : F, s ^ 2 = 1 → E.i * x₂ + s * y₂ ≠ 0 → IsSquare E.d := by
    intro s hs hs0
    have h := square_of_denom h₁ h₂ rfl hsq s hs
    have h0 : x₁ * y₁ * (E.i * x₂ + s * y₂) ≠ 0 := mul_ne_zero (mul_ne_zero hx₁ hy₁) hs0
    refine ⟨(E.i * x₁ + s * (E.d * x₁ * x₂ * y₁ * y₂) * y₁) / (x₁ * y₁ * (E.i * x₂ + s * y₂)), ?_⟩
    rw [← sq, div_pow, h, mul_div_cancel_right₀ _ (pow_ne_zero 2 h0)]
  rcases hsum with h | h
  · exact E.not_isSquare_d (hsquare 1 (by ring) h)
  · exact E.not_isSquare_d (hsquare (-1) (by ring) h)

theorem denom_add_ne_zero (h₁ : E.On x₁ y₁) (h₂ : E.On x₂ y₂) :
    1 + E.d * x₁ * x₂ * y₁ * y₂ ≠ 0 := by
  intro h
  refine denom_ne_sign h₁ h₂ ?_
  linear_combination (E.d * x₁ * x₂ * y₁ * y₂ - 1) * h

theorem denom_sub_ne_zero (h₁ : E.On x₁ y₁) (h₂ : E.On x₂ y₂) :
    1 - E.d * x₁ * x₂ * y₁ * y₂ ≠ 0 := by
  intro h
  refine denom_ne_sign h₁ h₂ ?_
  linear_combination -(E.d * x₁ * x₂ * y₁ * y₂ + 1) * h

end Completeness

/-! ## Points -/

theorem Curve.on_div {a b u v : F} (hu : u ≠ 0) (hv : v ≠ 0)
    (h : -(a ^ 2 * v ^ 2) + b ^ 2 * u ^ 2 = u ^ 2 * v ^ 2 + E.d * a ^ 2 * b ^ 2) :
    E.On (a / u) (b / v) := by
  unfold Curve.On
  field_simp
  linear_combination h

/-- A point of the curve. -/
@[ext] structure Point (E : Curve F) where
  x : F
  y : F
  on : E.On x y

namespace Point

variable (P Q : Point E)

/-- The neutral element. -/
def neutral : Point E := ⟨0, 1, by simp [Curve.On]⟩

theorem denomX : 1 + E.d * P.x * Q.x * P.y * Q.y ≠ 0 := denom_add_ne_zero P.on Q.on

theorem denomY : 1 - E.d * P.x * Q.x * P.y * Q.y ≠ 0 := denom_sub_ne_zero P.on Q.on

/-- The sum, by the complete addition law. -/
def add : Point E where
  x := (P.x * Q.y + Q.x * P.y) / (1 + E.d * P.x * Q.x * P.y * Q.y)
  y := (P.y * Q.y + P.x * Q.x) / (1 - E.d * P.x * Q.x * P.y * Q.y)
  on := by
    refine E.on_div (P.denomX Q) (P.denomY Q) ?_
    obtain ⟨x₁, y₁, e₁⟩ := P
    obtain ⟨x₂, y₂, e₂⟩ := Q
    unfold Curve.On at e₁ e₂
    have hdiff : (y₁ * y₂ + x₁ * x₂) ^ 2 - (x₁ * y₂ + x₂ * y₁) ^ 2 =
        (1 + E.d * x₁ ^ 2 * y₁ ^ 2) * (1 + E.d * x₂ ^ 2 * y₂ ^ 2) := by
      linear_combination (y₂ ^ 2 - x₂ ^ 2) * e₁ + (1 + E.d * x₁ ^ 2 * y₁ ^ 2) * e₂
    have hs₁ : (x₁ ^ 2 + y₁ ^ 2) ^ 2 =
        (1 + E.d * x₁ ^ 2 * y₁ ^ 2) ^ 2 + 4 * (x₁ * y₁) ^ 2 := by
      linear_combination (y₁ ^ 2 - x₁ ^ 2 + 1 + E.d * x₁ ^ 2 * y₁ ^ 2) * e₁
    have hs₂ : (x₂ ^ 2 + y₂ ^ 2) ^ 2 =
        (1 + E.d * x₂ ^ 2 * y₂ ^ 2) ^ 2 + 4 * (x₂ * y₂) ^ 2 := by
      linear_combination (y₂ ^ 2 - x₂ ^ 2 + 1 + E.d * x₂ ^ 2 * y₂ ^ 2) * e₂
    linear_combination (1 + (E.d * x₁ * x₂ * y₁ * y₂) ^ 2) * hdiff -
      E.d * (x₁ * y₁) ^ 2 * hs₂ - E.d * (x₂ * y₂) ^ 2 * hs₁

@[simp] theorem add_x : (P.add Q).x =
    (P.x * Q.y + Q.x * P.y) / (1 + E.d * P.x * Q.x * P.y * Q.y) := rfl

@[simp] theorem add_y : (P.add Q).y =
    (P.y * Q.y + P.x * Q.x) / (1 - E.d * P.x * Q.x * P.y * Q.y) := rfl

end Point

/-! ## Extended coordinates -/

/-- `(X : Y : Z : T)` stands for `x = X / Z` and `y = Y / Z`, with `T = X Y / Z`. -/
structure Extended (F : Type*) where
  x : F
  y : F
  z : F
  t : F

namespace Extended

/-- The coordinates of a point. -/
structure Represents (e : Extended F) (P : Point E) : Prop where
  z_ne_zero : e.z ≠ 0
  x_eq : e.x = P.x * e.z
  y_eq : e.y = P.y * e.z
  t_eq : e.x * e.y = e.z * e.t

theorem Represents.t {e : Extended F} {P : Point E} (h : Represents e P) :
    e.t = P.x * P.y * e.z := by
  refine mul_left_cancel₀ h.z_ne_zero ?_
  rw [← h.t_eq, h.x_eq, h.y_eq]
  ring

/-- The formulas from the four sums and differences. -/
theorem represents_of {P : Point E} {n m u v k : F} (hk : k ≠ 0) (hu : u ≠ 0) (hv : v ≠ 0)
    (hx : P.x = n / u) (hy : P.y = m / v) :
    Represents ⟨(k * n) * (k * v), (k * u) * (k * m), (k * v) * (k * u), (k * n) * (k * m)⟩ P where
  z_ne_zero := mul_ne_zero (mul_ne_zero hk hv) (mul_ne_zero hk hu)
  x_eq := by
    rw [hx]
    field_simp
  y_eq := by
    rw [hy]
    field_simp
  t_eq := by ring

variable (d : F) (e e' : Extended F)

/-- Addition: eight products and `2 d`. -/
def add : Extended F :=
  let a := (e.y - e.x) * (e'.y - e'.x)
  let b := (e.y + e.x) * (e'.y + e'.x)
  let c := e.t * (2 * d * e'.t)
  let z := e.z * (e'.z + e'.z)
  ⟨(b - a) * (z - c), (z + c) * (b + a), (z - c) * (z + c), (b - a) * (b + a)⟩

/-- Doubling: independent of `d` and of `T`. -/
def double : Extended F :=
  let a := e.x * e.x
  let b := e.y * e.y
  let c := e.z * e.z + e.z * e.z
  let f := (e.x + e.y) * (e.x + e.y) - (a + b)
  let g := b - a
  ⟨f * (c - g), g * (a + b), (c - g) * g, f * (a + b)⟩

variable {d e e'} {P Q : Point E}

/-- **The addition formulas add**, for every pair of points. -/
theorem Represents.add (h : Represents e P) (h' : Represents e' Q) :
    Represents (e.add E.d e') (P.add Q) := by
  have hk : 2 * (e.z * e'.z) ≠ 0 :=
    mul_ne_zero E.two_ne_zero (mul_ne_zero h.z_ne_zero h'.z_ne_zero)
  have key := represents_of hk (P.denomX Q) (P.denomY Q) (P.add_x Q) (P.add_y Q)
  convert key using 1
  simp only [Extended.add, h.x_eq, h.y_eq, h.t, h'.x_eq, h'.y_eq, h'.t, Extended.mk.injEq]
  refine ⟨?_, ?_, ?_, ?_⟩ <;> ring

/-- **The doubling formulas double.** -/
theorem Represents.double (h : Represents e P) : Represents e.double (P.add P) := by
  have hk : e.z ^ 2 ≠ 0 := pow_ne_zero 2 h.z_ne_zero
  have hon := P.on
  unfold Curve.On at hon
  -- the curve equation removes `d` from both denominators
  have hu : 1 + E.d * P.x * P.x * P.y * P.y = P.y ^ 2 - P.x ^ 2 := by linear_combination -hon
  have hv : 1 - E.d * P.x * P.x * P.y * P.y = 2 - (P.y ^ 2 - P.x ^ 2) := by linear_combination hon
  have key := represents_of hk (P.denomX P) (P.denomY P) (P.add_x P) (P.add_y P)
  rw [hu, hv] at key
  convert key using 1
  simp only [Extended.double, h.x_eq, h.y_eq, Extended.mk.injEq]
  refine ⟨?_, ?_, ?_, ?_⟩ <;> ring

/-- The coordinates of the neutral element. -/
def neutral : Extended F := ⟨0, 1, 1, 0⟩

theorem represents_neutral : Represents (neutral : Extended F) (Point.neutral : Point E) where
  z_ne_zero := one_ne_zero
  x_eq := by simp [neutral, Point.neutral]
  y_eq := by simp [neutral, Point.neutral]
  t_eq := by simp [neutral]

theorem double_neutral : (neutral : Extended F).double = neutral := by
  simp only [neutral, double, Extended.mk.injEq]
  refine ⟨?_, ?_, ?_, ?_⟩ <;> ring

/-- Two representations of one point have equal cross products, and conversely. -/
theorem Represents.eq_iff (h : Represents e P) (h' : Represents e' Q) :
    e.x * e'.z = e'.x * e.z ∧ e.y * e'.z = e'.y * e.z ↔ P = Q := by
  have hz : e.z * e'.z ≠ 0 := mul_ne_zero h.z_ne_zero h'.z_ne_zero
  have hx : e.x * e'.z = e'.x * e.z ↔ P.x = Q.x := by
    rw [h.x_eq, h'.x_eq, mul_assoc, mul_assoc, mul_comm e'.z]
    exact mul_left_inj' hz
  have hy : e.y * e'.z = e'.y * e.z ↔ P.y = Q.y := by
    rw [h.y_eq, h'.y_eq, mul_assoc, mul_assoc, mul_comm e'.z]
    exact mul_left_inj' hz
  rw [hx, hy, Point.ext_iff]

end Extended

/-! ## Double-and-add -/

/-- `[n]P` -/
def Point.smul (n : ℕ) (P : Point E) : Point E :=
  Ladder.power (fun Q => Q.add Q) (fun Q => Q.add P) Point.neutral n

/-- `[n]P` by the formulas. -/
def Extended.smul (d : F) (n : ℕ) (e : Extended F) : Extended F :=
  Ladder.power Extended.double (fun q => q.add d e) Extended.neutral n

theorem Extended.powers_smul (d : F) (e : Extended F) :
    Ladder.Powers Extended.double (fun q => q.add d e) (fun n => Extended.smul d n e) :=
  Ladder.powers_power Extended.double_neutral

/-- The loop over the bits below `m`. -/
theorem Extended.smul_eq_bits (d : F) (e : Extended F) {n m : ℕ} (h : n < 2 ^ m) :
    Extended.smul d n e = Ladder.bits Extended.double (fun q => q.add d e) n m neutral := by
  have hbits := Ladder.bits_power (Extended.powers_smul d e) n m
  have h0 : n / 2 ^ m = 0 := Nat.div_eq_of_lt h
  have hzero : Extended.smul d 0 e = neutral := Ladder.power_zero
  rw [h0, hzero] at hbits
  exact hbits.symm

theorem Extended.Represents.smul {e : Extended F} {P : Point E} (h : e.Represents P) (n : ℕ) :
    (Extended.smul E.d n e).Represents (P.smul n) :=
  Ladder.power_rel Extended.represents_neutral (fun _ _ hq => hq.double)
    (fun _ _ hq => hq.add h) n

end Edwards
