/-
  The multiplier: three or four products of half words.

  * `mac_eq`: the multiply-accumulate unit over the integers;
  * `MultAt`: what the intermediate register holds before each product;
  * `MultAt.result`: the last product completes the low or the high word.
-/
import SentinelSoc.Exec.ExBlock

namespace SentinelSoc

namespace ExBlock

variable {s : ExBlock} {x : ExIn}

/-! ## Half words -/

/-- A word as an integer. -/
def value (signed : Bool) (a : BitVec 32) : ℤ := if signed then a.toInt else (a.toNat : ℤ)

/-- The upper half of a word as an integer, `sign` its sign bit. -/
def highValue (sign : Bool) (a : BitVec 16) : ℤ := (BitVec.ofBool sign ++ a).toInt

theorem highValue_eq (sign : Bool) (a : BitVec 16) :
    highValue sign a = (a.toNat : ℤ) - if sign then 2 ^ 16 else 0 := by
  unfold highValue
  have h : (BitVec.ofBool sign ++ a).toNat = a.toNat + if sign then 2 ^ 16 else 0 := by
    rw [BitVec.toNat_append, ← Nat.shiftLeft_add_eq_or_of_lt a.isLt, Nat.shiftLeft_eq]
    cases sign <;> simp [add_comm]
  rw [BitVec.toInt_eq_toNat_cond, h]
  have := a.isLt
  cases sign
  · simp
    omega
  · simp
    omega

/-- A word in two halves, the sign with the upper one. -/
theorem value_eq (signed : Bool) (a : BitVec 32) :
    value signed a = highValue (signed && a.getLsbD 31) (a.extractLsb' 16 16) * 2 ^ 16 +
      (a.extractLsb' 0 16).toNat := by
  rw [highValue_eq, value, IbexAluIn.toInt_eq_sign]
  have h1 : (a.extractLsb' 16 16).toNat = a.toNat / 2 ^ 16 := by
    rw [BitVec.extractLsb'_toNat, Nat.shiftRight_eq_div_pow]
    have := a.isLt
    omega
  have h2 : (a.extractLsb' 0 16).toNat = a.toNat % 2 ^ 16 := by
    rw [BitVec.extractLsb'_toNat, Nat.shiftRight_zero]
  rw [h1, h2]
  cases signed <;> cases a.getLsbD 31 <;> simp <;> omega

/-! ## The unit -/

theorem mac_eq (sa : Bool) (a : BitVec 16) (sb : Bool) (b : BitVec 16) (v : ℤ) :
    mac sa a sb b (BitVec.ofInt 34 v) =
      BitVec.ofInt 34 (highValue sa a * highValue sb b + v) := by
  rw [BitVec.ofInt_add, BitVec.ofInt_mul]
  rfl

theorem ofInt_toNat (v : ℤ) : ((BitVec.ofInt 34 v).toNat : ℤ) = v % 2 ^ 34 := by
  rw [BitVec.toNat_ofInt]
  omega

theorem ofInt_low (v : ℤ) : (((BitVec.ofInt 34 v).extractLsb' 0 16).toNat : ℤ) = v % 2 ^ 16 := by
  have := ofInt_toNat v
  rw [BitVec.extractLsb'_toNat, Nat.shiftRight_zero]
  omega

theorem accumLow_eq {v : ℤ} (hs : s.imdVal0Q = BitVec.ofInt 34 v) (h0 : 0 ≤ v) (h1 : v < 2 ^ 32) :
    s.accumLow = BitVec.ofInt 34 (v / 2 ^ 16) := by
  have hv := ofInt_toNat v
  have hw := ofInt_toNat (v / 2 ^ 16)
  apply BitVec.eq_of_toNat_eq
  rw [accumLow, hs, BitVec.toNat_setWidth, BitVec.extractLsb'_toNat, Nat.shiftRight_eq_div_pow]
  omega

theorem accumHigh_eq {v : ℤ} (hs : s.imdVal0Q = BitVec.ofInt 34 v) (h0 : -2 ^ 33 ≤ v)
    (h1 : v < 2 ^ 33) (hm : x.signedMode = 0 → 0 ≤ v) :
    s.accumHigh x = BitVec.ofInt 34 (v / 2 ^ 16) := by
  have hv := ofInt_toNat v
  have hw := ofInt_toNat (v / 2 ^ 16)
  have hsign : s.imdVal0Q.getLsbD 33 = decide (v < 0) := by
    have : s.imdVal0Q.getLsbD 33 = s.imdVal0Q.msb := rfl
    rw [this, BitVec.msb_eq_decide, hs]
    congr 1
    rw [eq_iff_iff]
    omega
  have hlow : (s.imdVal0Q.extractLsb' 16 18).toNat = (v % 2 ^ 34 / 2 ^ 16).toNat := by
    rw [hs, BitVec.extractLsb'_toNat, Nat.shiftRight_eq_div_pow]
    omega
  apply BitVec.eq_of_toNat_eq
  rw [accumHigh, hsign, BitVec.toNat_append, ← Nat.shiftLeft_add_eq_or_of_lt (BitVec.isLt _),
    Nat.shiftLeft_eq, hlow]
  by_cases hneg : v < 0
  · have hmode : x.signedMode ≠ 0 := fun h => absurd (hm h) (not_le.2 hneg)
    rw [decide_eq_true hneg, if_pos (by simpa using hmode)]
    simp only [BitVec.toNat_allOnes]
    omega
  · rw [decide_eq_false hneg, Bool.and_false, if_neg Bool.false_ne_true]
    show 0 * 2 ^ 18 + _ = _
    omega

theorem ofInt_zero_append {v : ℤ} {a : BitVec 32} (h : (a.toNat : ℤ) = v) :
    0#2 ++ a = BitVec.ofInt 34 v := by
  have hv := ofInt_toNat v
  have := a.isLt
  apply BitVec.eq_of_toNat_eq
  rw [BitVec.toNat_append, ← Nat.shiftLeft_add_eq_or_of_lt a.isLt, Nat.shiftLeft_eq]
  simp only [BitVec.toNat_ofNat]
  omega

theorem macLow_eq {v w : ℤ} (hs : s.imdVal0Q = BitVec.ofInt 34 v)
    (hm : s.macRes x = BitVec.ofInt 34 w) :
    s.macLow x = BitVec.ofInt 34 (w % 2 ^ 16 * 2 ^ 16 + v % 2 ^ 16) := by
  refine ofInt_zero_append ?_
  have hv := ofInt_low v
  have hw := ofInt_low w
  rw [hs, hm, BitVec.toNat_append, ← Nat.shiftLeft_add_eq_or_of_lt (BitVec.isLt _),
    Nat.shiftLeft_eq]
  omega

/-! ## The products -/

/-- The four products, each with the upper part of those before it. -/
def product0 (x : ExIn) : ℤ := (aL x).toNat * (bL x).toNat

def product1 (x : ExIn) : ℤ := (aL x).toNat * highValue (signB x) (bH x) + product0 x / 2 ^ 16

def product2 (x : ExIn) : ℤ := highValue (signA x) (aH x) * (bL x).toNat + product1 x

def product3 (x : ExIn) : ℤ :=
  highValue (signA x) (aH x) * highValue (signB x) (bH x) + product2 x / 2 ^ 16

/-- The operands as integers. -/
def valueA (x : ExIn) : ℤ := value (x.signedMode.getLsbD 0) x.operandA

def valueB (x : ExIn) : ℤ := value (x.signedMode.getLsbD 1) x.operandB

theorem valueA_eq : valueA x = highValue (signA x) (aH x) * 2 ^ 16 + (aL x).toNat := value_eq _ _

theorem valueB_eq : valueB x = highValue (signB x) (bH x) * 2 ^ 16 + (bL x).toNat := value_eq _ _

theorem product3_eq : product3 x = valueA x * valueB x / 2 ^ 32 := by
  have h : valueA x * valueB x =
      highValue (signA x) (aH x) * highValue (signB x) (bH x) * 2 ^ 32 +
        ((aL x).toNat * highValue (signB x) (bH x) +
          highValue (signA x) (aH x) * (bL x).toNat) * 2 ^ 16 + product0 x := by
    rw [valueA_eq, valueB_eq, product0]
    ring
  rw [product3, product2, product1, h]
  omega

/-- The range of an upper half. -/
theorem highValue_range (sign : Bool) (a : BitVec 16) :
    (if sign then -2 ^ 16 else 0) ≤ highValue sign a ∧ highValue sign a < 2 ^ 16 := by
  rw [highValue_eq]
  have := a.isLt
  cases sign <;> simp <;> omega

/-- The range of a product of an upper half and a lower one. -/
theorem mul_range {h : ℤ} {lo : ℤ} (hlo : lo = -2 ^ 16 ∨ lo = 0) (h1 : lo ≤ h) (h2 : h < 2 ^ 16)
    (a : BitVec 16) :
    lo * (2 ^ 16 - 1) ≤ a.toNat * h ∧ a.toNat * h ≤ (2 ^ 16 - 1) * (2 ^ 16 - 1) := by
  have ha : (a.toNat : ℤ) ≤ 2 ^ 16 - 1 := by have := a.isLt; omega
  have h0 : (0 : ℤ) ≤ a.toNat := Int.natCast_nonneg _
  constructor
  · rcases hlo with rfl | rfl <;> nlinarith
  · nlinarith

theorem product0_range : 0 ≤ product0 x ∧ product0 x < 2 ^ 32 := by
  obtain ⟨h1, h2⟩ := mul_range (.inr rfl) (Int.natCast_nonneg (bL x).toNat)
    (by have := (bL x).isLt; omega) (aL x)
  rw [product0]
  omega

/-- The sum of the middle products fits the register, and is not negative without signs. -/
theorem product2_range : -2 ^ 33 ≤ product2 x ∧ product2 x < 2 ^ 33 ∧
    (x.signedMode = 0 → 0 ≤ product2 x) := by
  obtain ⟨h0, h0'⟩ := product0_range (x := x)
  obtain ⟨ha, ha'⟩ := highValue_range (signA x) (aH x)
  obtain ⟨hb, hb'⟩ := highValue_range (signB x) (bH x)
  have hsign : ∀ c : Bool, (if c then -2 ^ 16 else 0 : ℤ) = -2 ^ 16 ∨
      (if c then -2 ^ 16 else 0 : ℤ) = 0 := by decide
  obtain ⟨h1, h1'⟩ := mul_range (hsign _) hb hb' (aL x)
  obtain ⟨h2, h2'⟩ := mul_range (hsign _) ha ha' (bL x)
  rw [product2, product1, mul_comm (highValue (signA x) (aH x))]
  refine ⟨?_, by omega, fun hm => ?_⟩
  · split_ifs at h1 h2 <;> omega
  · have hsa : signA x = false := by rw [signA, hm]; rfl
    have hsb : signB x = false := by rw [signB, hm]; rfl
    simp only [hsa, hsb, Bool.false_eq_true, if_false] at h1 h2
    simp only [hsa, hsb]
    omega

/-! ## The steps -/

/-- What the intermediate register holds. -/
def MultAt (s : ExBlock) (x : ExIn) : Prop :=
  match s.multStateQ with
  | .albl => True
  | .albh => s.imdVal0Q = BitVec.ofInt 34 (product0 x)
  | .ahbl =>
    if x.operator = .mull then
      s.imdVal0Q = BitVec.ofInt 34 ((aL x).toNat * valueB x % 2 ^ 32)
    else s.imdVal0Q = BitVec.ofInt 34 (product1 x)
  | .ahbh => x.operator ≠ .mull ∧ s.imdVal0Q = BitVec.ofInt 34 (product2 x)

/-- The low word: the products that reach it. -/
theorem low_word (p q r : ℤ) : (q + p / 2 ^ 16) % 2 ^ 16 * 2 ^ 16 + p % 2 ^ 16 =
    (r * 2 ^ 32 + q * 2 ^ 16 + p) % 2 ^ 32 := by
  omega

theorem macResD_albl (hs : s.multStateQ = .albl) :
    s.macResD x = BitVec.ofInt 34 (product0 x) := by
  have h := mac_eq false (aL x) false (bL x) 0
  rw [highValue_eq, highValue_eq] at h
  simp only [Bool.false_eq_true, if_false, sub_zero, add_zero] at h
  rw [macResD, hs, macRes, hs]
  exact h

theorem macRes_albh (h : s.MultAt x) (hs : s.multStateQ = .albh) :
    s.macRes x = BitVec.ofInt 34 (product1 x) := by
  rw [MultAt, hs] at h
  obtain ⟨h0, h1⟩ := product0_range (x := x)
  have hm := mac_eq false (aL x) (signB x) (bH x) (product0 x / 2 ^ 16)
  rw [highValue_eq false] at hm
  simp only [Bool.false_eq_true, if_false, sub_zero] at hm
  rw [macRes, hs]
  dsimp only
  rw [accumLow_eq h h0 h1, hm, product1]

theorem macResD_albh (h : s.MultAt x) (hs : s.multStateQ = .albh) : s.macResD x =
    if x.operator = .mull then BitVec.ofInt 34 ((aL x).toNat * valueB x % 2 ^ 32)
    else BitVec.ofInt 34 (product1 x) := by
  have hm := macRes_albh h hs
  rw [MultAt, hs] at h
  rw [macResD, hs]
  dsimp only
  split_ifs
  · rw [macLow_eq h hm, product1, low_word _ _ 0, valueB_eq, product0]
    congr 2
    ring
  · exact hm

/-- The result of `mul`. -/
theorem macResD_mull (h : s.MultAt x) (hs : s.multStateQ = .ahbl) (ho : x.operator = .mull) :
    s.macResD x = BitVec.ofInt 34 (valueA x * valueB x % 2 ^ 32) := by
  rw [MultAt, hs] at h
  simp only [ho, if_true] at h
  have hm := mac_eq (signA x) (aH x) false (bL x) ((aL x).toNat * valueB x % 2 ^ 32 / 2 ^ 16)
  rw [highValue_eq false] at hm
  simp only [Bool.false_eq_true, if_false, sub_zero] at hm
  have hres : s.macRes x = BitVec.ofInt 34 (highValue (signA x) (aH x) * (bL x).toNat +
      (aL x).toNat * valueB x % 2 ^ 32 / 2 ^ 16) := by
    rw [macRes, hs, ho]
    dsimp only
    rw [if_pos rfl, accumLow_eq h (by omega) (by omega), hm]
  rw [macResD, hs, ho]
  dsimp only
  rw [if_pos rfl, macLow_eq h hres, low_word _ _ (highValue (signA x) (aH x) *
    highValue (signB x) (bH x))]
  congr 1
  have hAB : valueA x * valueB x =
      highValue (signA x) (aH x) * highValue (signB x) (bH x) * 2 ^ 32 +
        highValue (signA x) (aH x) * (bL x).toNat * 2 ^ 16 + (aL x).toNat * valueB x := by
    rw [valueA_eq, valueB_eq]
    ring
  omega

theorem macResD_ahbl (h : s.MultAt x) (hs : s.multStateQ = .ahbl) (ho : x.operator ≠ .mull) :
    s.macResD x = BitVec.ofInt 34 (product2 x) := by
  rw [MultAt, hs] at h
  simp only [ho, if_false] at h
  have hm := mac_eq (signA x) (aH x) false (bL x) (product1 x)
  rw [highValue_eq false] at hm
  simp only [Bool.false_eq_true, if_false, sub_zero] at hm
  rw [macResD, hs]
  dsimp only
  rw [if_neg ho, macRes, hs]
  dsimp only
  rw [if_neg ho, h, hm, product2]

/-- The result of the other products. -/
theorem macResD_ahbh (h : s.MultAt x) (hs : s.multStateQ = .ahbh) :
    s.macResD x = BitVec.ofInt 34 (valueA x * valueB x / 2 ^ 32) := by
  rw [MultAt, hs] at h
  obtain ⟨h0, h1, h2⟩ := product2_range (x := x)
  rw [macResD, hs, macRes, hs]
  dsimp only
  rw [accumHigh_eq h.2 h0 h1 h2, mac_eq, ← product3_eq, product3]

end ExBlock

end SentinelSoc
