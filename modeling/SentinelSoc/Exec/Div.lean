/-
  The divider: long division of the absolute values, and a change of sign.

  * `aluAdder_negate`, `aluAdder_sub`: what the ALU's adder does for it;
  * `DivAt`: what its registers hold in each state;
  * `DivAt.step`: every cycle keeps this;
  * `divResult`, `remResult`: the results, with those of a division by zero.
-/
import SentinelSoc.Exec.ExBlock
import SentinelSoc.Lib.LongDivision

namespace SentinelSoc

namespace ExBlock

open LongDivision

variable {s : ExBlock} {x : ExIn}

/-! ## The adder -/

theorem negate_adder (op : BitVec 32) :
    (((negate op).1.setWidth 34 + (negate op).2.setWidth 34 : BitVec 34).extractLsb' 1 32 :
      BitVec 32) = -op := by
  have h1 : (negate op).1.toNat = 1 := rfl
  have h2 : (negate op).2.toNat = 2 * (2 ^ 32 - 1 - op.toNat) + 1 := by
    rw [negate, IbexAluIn.toNat_append_bit, BitVec.toNat_not]
    rfl
  have := op.isLt
  apply BitVec.eq_of_toNat_eq
  rw [IbexAluIn.adderResult_toNat, h1, h2, BitVec.toNat_neg]
  omega

theorem aluAdder_eq (hm : x.multdivSel = true) : s.aluAdder x =
    ((s.aluOperands x).1.setWidth 34 + (s.aluOperands x).2.setWidth 34 : BitVec 34).extractLsb'
      1 32 := by
  rw [aluAdder, IbexAluIn.adderResult, IbexAluIn.adderResultExt, IbexAluIn.adderInA,
    IbexAluIn.adderInB]
  have h : (s.aluIn x).multdivSel = true := hm
  rw [h]
  rfl

theorem aluAdder_sub (hm : x.multdivSel = true) (hs : s.mdStateQ = .comp ∨ s.mdStateQ = .last) :
    s.aluAdder x = s.remainder - s.opDenominatorQ := by
  have ho : s.aluOperands x = (s.remainder ++ 1#1, ~~~s.opDenominatorQ ++ 1#1) := by
    rcases hs with hs | hs <;> rw [aluOperands, hs]
  have h1 := s.remainder.isLt
  have h2 := s.opDenominatorQ.isLt
  apply BitVec.eq_of_toNat_eq
  rw [aluAdder_eq hm, ho, IbexAluIn.adderResult_toNat, IbexAluIn.toNat_append_bit,
    IbexAluIn.toNat_append_bit, BitVec.toNat_not, BitVec.toNat_sub]
  simp only [BitVec.toNat_ofNat]
  omega

theorem isGreaterEqual_eq (hm : x.multdivSel = true)
    (hs : s.mdStateQ = .comp ∨ s.mdStateQ = .last) :
    s.isGreaterEqual x = decide (s.opDenominatorQ.toNat ≤ s.remainder.toNat) := by
  have h := IbexAluIn.greaterEqual_eq s.remainder s.opDenominatorQ false
  rw [isGreaterEqual, aluAdder_sub hm hs]
  simpa using h

/-! ## The registers -/

def absA (x : ExIn) : BitVec 32 := if divSignA x then -x.operandA else x.operandA

def absB (x : ExIn) : BitVec 32 := if divSignB x then -x.operandB else x.operandB

/-- The quotient and the remainder of the absolute values, of the first bits of the dividend down
    to bit `c`. -/
def quotDown (x : ExIn) (c : ℕ) : ℕ := quot (absB x).toNat (32 - c) ((absA x).toNat / 2 ^ c)

def remDown (x : ExIn) (c : ℕ) : ℕ := (absA x).toNat / 2 ^ c % (absB x).toNat

/-- The remainder with bit `c` of the dividend brought down. -/
def broughtDown (x : ExIn) (c : ℕ) : ℕ :=
  2 * remDown x (c + 1) + ((absA x).toNat.testBit c).toNat

/-- The divider is about to decide on bit `c` of the quotient. -/
structure Dividing (s : ExBlock) (x : ExIn) (c : ℕ) : Prop where
  counter : s.divCounterQ.toNat = c
  numerator : s.opNumeratorQ = absA x
  denominator : s.opDenominatorQ = absB x
  quotient : s.opQuotientQ.toNat = quotDown x (c + 1) * 2 ^ (c + 1)
  remainder : s.remainder.toNat = broughtDown x c

/-- The unsigned results. -/
def unsignedResult (x : ExIn) : BitVec 32 :=
  BitVec.ofNat 32 (if x.operator = .div then quotDown x 0 else remDown x 0)

/-- The result of a division: all ones without a divisor. -/
def divResult (x : ExIn) : BitVec 32 :=
  if x.operandB = 0 then BitVec.allOnes 32
  else if divSignA x ^^ divSignB x then -(absA x / absB x) else absA x / absB x

/-- The remainder: the dividend without a divisor. -/
def remResult (x : ExIn) : BitVec 32 :=
  if x.operandB = 0 then x.operandA
  else if divSignA x then -(absA x % absB x) else absA x % absB x

def quotientOrRem (x : ExIn) : BitVec 32 := if x.operator = .div then divResult x else remResult x

/-- Division by zero is recorded for the quotient. -/
def Recorded (s : ExBlock) (x : ExIn) : Prop :=
  x.operator = .div → s.divByZeroQ = decide (x.operandB = 0)

/-- What the registers hold in each state of a division. -/
def DivAt (s : ExBlock) (x : ExIn) : Prop :=
  match s.mdStateQ with
  | .idle => True
  | .absA => s.Recorded x
  | .absB => s.Recorded x ∧ s.opNumeratorQ = absA x ∧ s.opQuotientQ = 0
  | .comp => s.Recorded x ∧ 1 ≤ s.divCounterQ.toNat ∧ s.Dividing x s.divCounterQ.toNat
  | .last => s.Recorded x ∧ s.Dividing x 0
  | .changeSign => s.Recorded x ∧ s.remainder = unsignedResult x
  | .finish => s.remainder = quotientOrRem x

/-! ## One bit -/

variable {c : ℕ}

theorem remDown_top : remDown x 32 = 0 := by
  rw [remDown, Nat.div_eq_of_lt (absA x).isLt, Nat.zero_mod]

theorem quotDown_top : quotDown x 32 = 0 := by
  rw [quotDown, Nat.div_eq_of_lt (absA x).isLt, Nat.sub_self, quot_zero]

theorem remDown_step (x : ExIn) (c : ℕ) : remDown x c =
    if (absB x).toNat ≤ broughtDown x c then broughtDown x c - (absB x).toNat
    else broughtDown x c := by
  have hf : fits (absB x).toNat ((absA x).toNat / 2 ^ (c + 1)) ((absA x).toNat.testBit c) =
      decide ((absB x).toNat ≤ broughtDown x c) := rfl
  rw [remDown, div_two_pow_succ, rem_succ, hf]
  by_cases h : (absB x).toNat ≤ broughtDown x c
  · rw [if_pos h, if_pos (decide_eq_true h)]
    rfl
  · rw [if_neg h, if_neg (by simpa using h)]
    rfl

theorem quotDown_step (x : ExIn) (hc : c < 32) : quotDown x c =
    2 * quotDown x (c + 1) + (decide ((absB x).toNat ≤ broughtDown x c)).toNat := by
  rw [quotDown, div_two_pow_succ, show 32 - c = 32 - (c + 1) + 1 by omega, quot_succ]
  rfl

theorem remDown_lt (x : ExIn) (c : ℕ) : remDown x c * 2 ^ c < 2 ^ 32 := by
  have h1 : remDown x c ≤ (absA x).toNat / 2 ^ c := Nat.mod_le _ _
  calc remDown x c * 2 ^ c ≤ (absA x).toNat / 2 ^ c * 2 ^ c := Nat.mul_le_mul_right _ h1
    _ ≤ (absA x).toNat := Nat.div_mul_le_self _ _
    _ < 2 ^ 32 := (absA x).isLt

theorem quotDown_lt (x : ExIn) (c : ℕ) : quotDown x c < 2 ^ (32 - c) := by
  unfold quotDown quot
  split_ifs
  · have := Nat.one_le_two_pow (n := 32 - c)
    omega
  · refine lt_of_le_of_lt (Nat.div_le_self _ _) ?_
    rcases le_or_gt c 32 with hc | hc
    · rw [Nat.div_lt_iff_lt_mul (by positivity), ← pow_add, Nat.sub_add_cancel hc]
      exact (absA x).isLt
    · rw [Nat.div_eq_of_lt ((absA x).isLt.trans (Nat.pow_lt_pow_right (by decide) hc))]
      positivity

theorem Dividing.fits_eq (h : s.Dividing x c) (hm : x.multdivSel = true)
    (hs : s.mdStateQ = .comp ∨ s.mdStateQ = .last) :
    s.isGreaterEqual x = decide ((absB x).toNat ≤ broughtDown x c) := by
  rw [isGreaterEqual_eq hm hs, h.denominator, h.remainder]

theorem Dividing.nextRemainder_eq (h : s.Dividing x c) (hm : x.multdivSel = true)
    (hs : s.mdStateQ = .comp ∨ s.mdStateQ = .last) :
    (s.nextRemainder x).toNat = remDown x c := by
  have h1 := s.remainder.isLt
  have h2 := s.opDenominatorQ.isLt
  rw [nextRemainder, h.fits_eq hm hs, remDown_step x c, ← h.remainder, ← h.denominator]
  by_cases hle : s.opDenominatorQ.toNat ≤ s.remainder.toNat
  · rw [if_pos (decide_eq_true hle), if_pos hle, aluAdder_sub hm hs, BitVec.toNat_sub]
    omega
  · rw [if_neg (by simpa using hle), if_neg hle]

/-- The new bit goes where the quotient has none yet. -/
theorem Dividing.nextQuotient_eq (h : s.Dividing x c) (hm : x.multdivSel = true) (hc : c < 32)
    (hs : s.mdStateQ = .comp ∨ s.mdStateQ = .last) :
    (s.nextQuotient x).toNat = quotDown x c * 2 ^ c := by
  have hq := quotDown_step x hc
  rw [nextQuotient, h.fits_eq hm hs]
  have hshift : (s.oneShift).toNat = 2 ^ c := by
    rw [oneShift, h.counter, BitVec.toNat_shiftLeft, Nat.shiftLeft_eq]
    simpa using Nat.mod_eq_of_lt (Nat.pow_lt_pow_right (by decide : 1 < 2) hc)
  cases hf : decide ((absB x).toNat ≤ broughtDown x c) with
  | false =>
    rw [hf, Bool.toNat_false, Nat.add_zero] at hq
    rw [if_neg Bool.false_ne_true, h.quotient, hq, pow_succ]
    ring
  | true =>
    rw [hf, Bool.toNat_true] at hq
    have hor : quotDown x (c + 1) * 2 ^ (c + 1) ||| 2 ^ c =
        quotDown x (c + 1) * 2 ^ (c + 1) + 2 ^ c := by
      rw [← Nat.shiftLeft_eq, Nat.shiftLeft_add_eq_or_of_lt]
      exact Nat.pow_lt_pow_right (by decide) (Nat.lt_succ_self c)
    rw [if_pos rfl, BitVec.toNat_or, h.quotient, hshift, hor, hq, pow_succ]
    ring

/-! ## The states -/

theorem toNat_append_one (a : BitVec 32) (b : Bool) :
    (a ++ BitVec.ofBool b).toNat = 2 * a.toNat + b.toNat := by
  rw [IbexAluIn.toNat_append_bit, BitVec.toNat_ofBool]

theorem remainder_append (k : BitVec 2) (a : BitVec 32) :
    (k ++ a).extractLsb' 0 32 = a := BitVec.extractLsb'_append_eq_right

/-- The cycle is one of the division: the instruction is a division, and it goes on. -/
structure Divides (s : ExBlock) (x : ExIn) : Prop where
  sel : x.multdivSel = true
  div : x.divSel = true
  en : s.divEnInternal x = true

theorem Divides.imdVal0Q (h : s.Divides x) : (s.step x).imdVal0Q = s.opRemainderD x := by
  simp [ExBlock.step, h.sel, h.div, multdivEn, h.en]

theorem Divides.mdStateQ (h : s.Divides x) : (s.step x).mdStateQ = s.mdStateD x := by
  simp [ExBlock.step, h.en]

theorem Divides.divCounterQ (h : s.Divides x) : (s.step x).divCounterQ = s.divCounterD := by
  simp [ExBlock.step, h.en]

theorem Divides.opDenominatorQ (h : s.Divides x) (hs : s.mdStateQ ≠ .absB) :
    (s.step x).opDenominatorQ = s.opDenominatorQ := by
  rw [ExBlock.opDenominatorQ]
  simp only [ExBlock.step, h.sel, h.en, Bool.and_self, if_true, beq_iff_eq, hs, if_false]
  exact remainder_append _ _

theorem Divides.divByZeroQ (h : s.Divides x) (hs : s.mdStateQ ≠ .idle) :
    (s.step x).divByZeroQ = s.divByZeroQ := by
  simp [ExBlock.step, h.en, hs]

theorem Divides.recorded (h : s.Divides x) (hs : s.mdStateQ ≠ .idle) (hr : s.Recorded x) :
    (s.step x).Recorded x := fun ho => by
  rw [h.divByZeroQ hs]
  exact hr ho

/-- A bit of the quotient, and the next one of the dividend. -/
theorem Divides.comp (h : s.Divides x) (hs : s.mdStateQ = .comp)
    (hd : s.Dividing x s.divCounterQ.toNat) (hc : 1 ≤ s.divCounterQ.toNat) :
    (s.step x).Dividing x (s.divCounterQ.toNat - 1) := by
  have hlt := s.divCounterQ.isLt
  have hsub : (s.divCounterQ - 1).toNat = s.divCounterQ.toNat - 1 := by
    have h1 : (1 : BitVec 5).toNat = 1 := rfl
    rw [BitVec.toNat_sub, h1]
    omega
  have hcd : s.divCounterD = s.divCounterQ - 1 := by rw [divCounterD, hs]
  have hsucc : s.divCounterQ.toNat - 1 + 1 = s.divCounterQ.toNat := by omega
  have hrem := hd.nextRemainder_eq h.sel (.inl hs)
  refine ⟨?_, ?_, ?_, ?_, ?_⟩
  · rw [h.divCounterQ, hcd, hsub]
  · simp only [ExBlock.step, hs]
    simpa using hd.numerator
  · rw [h.opDenominatorQ (by rw [hs]; decide), hd.denominator]
  · have hq := hd.nextQuotient_eq h.sel (by omega) (.inl hs)
    simp only [ExBlock.step, h.en, hs, if_true]
    rw [hsucc, hq]
  · have hb : s.opNumeratorQ.getLsbD s.divCounterD.toNat =
        (absA x).toNat.testBit (s.divCounterQ.toNat - 1) := by
      rw [hcd, hsub, hd.numerator]
      rfl
    have hr : (s.step x).remainder.toNat = (2 * (s.nextRemainder x).toNat +
        ((absA x).toNat.testBit (s.divCounterQ.toNat - 1)).toNat) % 2 ^ 32 := by
      rw [ExBlock.remainder, h.imdVal0Q, opRemainderD, hs]
      dsimp only
      rw [hb, BitVec.extractLsb'_toNat, Nat.shiftRight_zero, BitVec.toNat_append,
        ← Nat.shiftLeft_add_eq_or_of_lt (BitVec.isLt _), toNat_append_one]
      simp only [BitVec.toNat_ofNat, Nat.shiftLeft_eq]
      omega
    have hlt := remDown_lt x s.divCounterQ.toNat
    have hpow : 2 ≤ 2 ^ s.divCounterQ.toNat := by
      calc 2 = 2 ^ 1 := rfl
        _ ≤ 2 ^ s.divCounterQ.toNat := Nat.pow_le_pow_right (by decide) hc
    have hle : remDown x s.divCounterQ.toNat * 2 ≤
        remDown x s.divCounterQ.toNat * 2 ^ s.divCounterQ.toNat := Nat.mul_le_mul_left _ hpow
    have hbit := Bool.toNat_le ((absA x).toNat.testBit (s.divCounterQ.toNat - 1))
    rw [hr, hrem, broughtDown, hsucc, Nat.mod_eq_of_lt (by omega)]

/-- The first bit of the dividend is brought down. -/
theorem Divides.absB (h : s.Divides x) (hs : s.mdStateQ = .absB) (hn : s.opNumeratorQ = absA x)
    (hq : s.opQuotientQ = 0) : (s.step x).Dividing x 31 := by
  have hcd : s.divCounterD = 31 := by rw [divCounterD, hs]
  refine ⟨?_, ?_, ?_, ?_, ?_⟩
  · rw [h.divCounterQ, hcd]
    rfl
  · simp only [ExBlock.step, hs]
    simpa using hn
  · rw [ExBlock.opDenominatorQ]
    simp only [ExBlock.step, h.sel, h.en, hs, Bool.and_self, if_true, beq_self_eq_true]
    rw [remainder_append]
    have hneg : s.aluAdder x = -x.operandB := by
      rw [aluAdder_eq h.sel, aluOperands, hs]
      exact negate_adder _
    rw [hneg]
    rfl
  · simp only [ExBlock.step, h.en, hs, if_true]
    rw [hq, quotDown_top]
    rfl
  · rw [ExBlock.remainder, h.imdVal0Q, opRemainderD, hs]
    dsimp only
    rw [broughtDown, remDown_top, hn, BitVec.extractLsb'_toNat, BitVec.toNat_setWidth,
      BitVec.toNat_ofBool]
    have hb := Bool.toNat_le ((absA x).getLsbD 31)
    rw [Nat.shiftRight_zero, Nat.mod_eq_of_lt (by omega), Nat.mod_eq_of_lt (by omega)]
    exact (Nat.zero_add _).symm

theorem Divides.absA (h : s.Divides x) (hs : s.mdStateQ = .absA) :
    (s.step x).opNumeratorQ = absA x ∧ (s.step x).opQuotientQ = 0 := by
  have hneg : s.aluAdder x = -x.operandA := by
    rw [aluAdder_eq h.sel, aluOperands, hs]
    exact negate_adder _
  constructor
  · simp only [ExBlock.step, h.en, hs, Bool.true_and, beq_self_eq_true, if_true]
    rw [hneg]
    rfl
  · simp [ExBlock.step, h.en, hs]

/-- The unsigned results. -/
theorem Divides.last (h : s.Divides x) (hs : s.mdStateQ = .last) (hd : s.Dividing x 0) :
    (s.step x).remainder = unsignedResult x := by
  have hq := hd.nextQuotient_eq h.sel (by decide) (.inr hs)
  have hr := hd.nextRemainder_eq h.sel (.inr hs)
  rw [ExBlock.remainder, h.imdVal0Q, opRemainderD, hs, unsignedResult]
  dsimp only
  apply BitVec.eq_of_toNat_eq
  split_ifs
  · rw [remainder_append, hq, BitVec.toNat_ofNat, pow_zero, mul_one,
      Nat.mod_eq_of_lt (quotDown_lt x 0)]
  · rw [remainder_append, hr, BitVec.toNat_ofNat, Nat.mod_eq_of_lt]
    simpa using remDown_lt x 0

theorem absB_eq_zero : (absB x).toNat = 0 ↔ x.operandB = 0 := by
  have hz : ∀ a : BitVec 32, a.toNat = 0 ↔ a = 0 := fun a =>
    ⟨fun h => BitVec.eq_of_toNat_eq h, fun h => by rw [h]; rfl⟩
  rw [hz, ExBlock.absB]
  split_ifs
  · exact BitVec.neg_eq_zero_iff
  · exact Iff.rfl

theorem unsignedResult_div (ho : x.operator = .div) : unsignedResult x =
    if x.operandB = 0 then BitVec.allOnes 32 else ExBlock.absA x / ExBlock.absB x := by
  rw [unsignedResult, if_pos ho, quotDown, pow_zero, Nat.div_one, quot]
  simp only [absB_eq_zero]
  split_ifs
  · rfl
  · rw [← BitVec.toNat_udiv, BitVec.ofNat_toNat, BitVec.setWidth_eq]

theorem unsignedResult_rem (ho : x.operator ≠ .div) : unsignedResult x =
    if x.operandB = 0 then ExBlock.absA x else ExBlock.absA x % ExBlock.absB x := by
  rw [unsignedResult, if_neg ho, remDown, pow_zero, Nat.div_one]
  split_ifs with hz
  · rw [absB_eq_zero.2 hz, Nat.mod_zero, BitVec.ofNat_toNat, BitVec.setWidth_eq]
  · rw [← BitVec.toNat_umod, BitVec.ofNat_toNat, BitVec.setWidth_eq]

/-- The signed results: a quotient by zero keeps its sign, and a remainder is the dividend again. -/
theorem signed_result (hr : s.Recorded x) (hu : s.remainder = unsignedResult x) :
    (if x.operator = .div then if s.divChangeSign x then -s.remainder else s.remainder
      else if remChangeSign x then -s.remainder else s.remainder) = quotientOrRem x := by
  rw [hu, quotientOrRem]
  by_cases ho : x.operator = .div
  · rw [if_pos ho, if_pos ho, divChangeSign, hr ho, divResult, unsignedResult_div ho]
    by_cases hz : x.operandB = 0
    · simp [hz]
    · simp only [if_neg hz, decide_eq_false hz, Bool.not_false, Bool.and_true]
  · rw [if_neg ho, if_neg ho, remChangeSign, remResult, unsignedResult_rem ho]
    by_cases hz : x.operandB = 0
    · rw [if_pos hz, if_pos hz, ExBlock.absA]
      split_ifs
      · exact BitVec.neg_neg
      · rfl
    · simp only [if_neg hz]

theorem Divides.changeSign (h : s.Divides x) (hs : s.mdStateQ = .changeSign) (hr : s.Recorded x)
    (hu : s.remainder = unsignedResult x) : (s.step x).remainder = quotientOrRem x := by
  have hneg : s.aluAdder x = -s.remainder := by
    rw [aluAdder_eq h.sel, aluOperands, hs]
    exact negate_adder _
  rw [← signed_result hr hu, ExBlock.remainder, h.imdVal0Q, opRemainderD, hs, hneg]
  dsimp only
  split_ifs
  · exact remainder_append _ _
  · rfl
  · exact remainder_append _ _
  · rfl

theorem equalToZero_eq (hm : x.multdivSel = true) (hs : s.mdStateQ = .idle) :
    s.equalToZero x = decide (x.operandB = 0) := by
  have hneg : s.aluAdder x = -x.operandB := by
    rw [aluAdder_eq hm, aluOperands, hs]
    exact negate_adder _
  rw [equalToZero, IbexAluIn.isEqual]
  show (s.aluAdder x == 0) = _
  rw [hneg, Bool.eq_iff_iff, beq_iff_eq, decide_eq_true_eq]
  exact BitVec.neg_eq_zero_iff

/-- A division by zero need not be carried out. -/
theorem Divides.idle (h : s.Divides x) (hs : s.mdStateQ = .idle) :
    (s.step x).Recorded x ∧
      ((s.step x).mdStateQ = .finish → (s.step x).remainder = quotientOrRem x) := by
  have hzero := equalToZero_eq h.sel hs
  refine ⟨fun ho => ?_, fun hf => ?_⟩
  · simp [ExBlock.step, h.en, hs, ho, hzero]
  · rw [h.mdStateQ, mdStateD, hs] at hf
    dsimp only at hf
    split_ifs at hf with hz
    rw [Bool.and_eq_true, hzero, decide_eq_true_eq] at hz
    rw [ExBlock.remainder, h.imdVal0Q, opRemainderD, hs, quotientOrRem, divResult, remResult,
      if_pos hz.2, if_pos hz.2]
    dsimp only
    split_ifs
    · decide
    · exact remainder_append _ _

/-- **A cycle of the divider**, whether it goes on or not. -/
theorem DivAt.step (hd : s.DivAt x) (h : s.Divides x) : (s.step x).DivAt x := by
  unfold DivAt at hd ⊢
  cases hs : s.mdStateQ with
  | idle =>
    obtain ⟨hr, hf⟩ := h.idle hs
    have hst := h.mdStateQ
    rw [mdStateD, hs] at hst
    dsimp only at hst
    split_ifs at hst
    · rw [hst]
      exact hf hst
    · rw [hst]
      exact hr
  | absA =>
    rw [hs] at hd
    have hst : (s.step x).mdStateQ = .absB := by rw [h.mdStateQ, mdStateD, hs]
    obtain ⟨h1, h2⟩ := h.absA hs
    rw [hst]
    exact ⟨h.recorded (by rw [hs]; decide) hd, h1, h2⟩
  | absB =>
    rw [hs] at hd
    obtain ⟨hr, hn, hq⟩ := hd
    have hst : (s.step x).mdStateQ = .comp := by rw [h.mdStateQ, mdStateD, hs]
    have hdv := h.absB hs hn hq
    rw [hst]
    dsimp only
    rw [hdv.counter]
    exact ⟨h.recorded (by rw [hs]; decide) hr, by decide, hdv⟩
  | comp =>
    rw [hs] at hd
    obtain ⟨hr, hc, hdv⟩ := hd
    have hnext := h.comp hs hdv hc
    have hst := h.mdStateQ
    rw [mdStateD, hs] at hst
    dsimp only at hst
    split_ifs at hst with h1
    · rw [hst]
      rw [h1] at hnext
      exact ⟨h.recorded (by rw [hs]; decide) hr, hnext⟩
    · rw [hst]
      dsimp only
      rw [hnext.counter]
      refine ⟨h.recorded (by rw [hs]; decide) hr, ?_, hnext⟩
      have : s.divCounterQ.toNat ≠ 1 := fun he => h1 (BitVec.eq_of_toNat_eq he)
      omega
  | last =>
    rw [hs] at hd
    have hst : (s.step x).mdStateQ = .changeSign := by rw [h.mdStateQ, mdStateD, hs]
    rw [hst]
    exact ⟨h.recorded (by rw [hs]; decide) hd.1, h.last hs hd.2⟩
  | changeSign =>
    rw [hs] at hd
    have hst : (s.step x).mdStateQ = .finish := by rw [h.mdStateQ, mdStateD, hs]
    rw [hst]
    exact h.changeSign hs hd.1 hd.2
  | finish =>
    have hst : (s.step x).mdStateQ = .idle := by rw [h.mdStateQ, mdStateD, hs]
    rw [hst]
    trivial

end ExBlock

end SentinelSoc
