/-
  The arithmetic logic unit (`ibex_alu.sv`), without the bit-manipulation extension.

  * `IbexAluIn.adderResultExt`, `isGreaterEqual`, `shiftResult`, `resultO`: the code, one adder
    for sums, differences and comparisons, one right shifter for all shifts;
  * `IbexAluOp.meaning`: what each operator is for;
  * `resultO_eq`, `comparison_eq`: the code computes it.
-/
import Mathlib.Tactic

namespace SentinelSoc

/-- `alu_op_e`, the operators of the base instruction set. -/
inductive IbexAluOp
  | add | sub
  | xor | or | and
  | sra | srl | sll
  | lt | ltu | ge | geu | eq | ne
  | slt | sltu
  deriving DecidableEq

/-! ## The code -/

structure IbexAluIn where
  operator : IbexAluOp
  operandA : BitVec 32
  operandB : BitVec 32
  instrFirstCycle : Bool
  multdivOperandA : BitVec 33
  multdivOperandB : BitVec 33
  multdivSel : Bool

namespace IbexAluIn

variable (x : IbexAluIn)

def adderOpBNegate : Bool :=
  match x.operator with
  | .sub | .eq | .ne | .ge | .geu | .lt | .ltu | .slt | .sltu => true
  | .add | .xor | .or | .and | .sra | .srl | .sll => false

def operandBNeg : BitVec 33 := (x.operandB ++ 0#1) ^^^ BitVec.allOnes 33

def adderInA : BitVec 33 := if x.multdivSel then x.multdivOperandA else x.operandA ++ 1#1

def adderInB : BitVec 33 :=
  if x.multdivSel then x.multdivOperandB
  else if x.adderOpBNegate then x.operandBNeg
  else x.operandB ++ 0#1

/-- Bit 0 of the operands makes the carry into bit 1. -/
def adderResultExt : BitVec 34 := x.adderInA.setWidth 34 + x.adderInB.setWidth 34

def adderResult : BitVec 32 := x.adderResultExt.extractLsb' 1 32

def cmpSigned : Bool :=
  match x.operator with
  | .ge | .lt | .slt => true
  | _ => false

def isEqual : Bool := x.adderResult == 0

def isGreaterEqual : Bool :=
  if x.operandA.getLsbD 31 ^^ x.operandB.getLsbD 31 then x.operandA.getLsbD 31 ^^ x.cmpSigned
  else !x.adderResult.getLsbD 31

/-- `comparison_result_o` -/
def cmpResult : Bool :=
  match x.operator with
  | .eq => x.isEqual
  | .ne => !x.isEqual
  | .ge | .geu => x.isGreaterEqual
  | .lt | .ltu | .slt | .sltu => !x.isGreaterEqual
  | .add | .sub | .xor | .or | .and | .sra | .srl | .sll => x.isEqual

def shiftAmtCompl : BitVec 6 := 32 - (x.operandB.extractLsb' 0 5).setWidth 6

def shiftAmt : BitVec 5 :=
  if x.instrFirstCycle then x.operandB.extractLsb' 0 5 else x.shiftAmtCompl.extractLsb' 0 5

def shiftLeft : Bool := x.operator == .sll

def shiftArith : Bool := x.operator == .sra

def shiftOperand : BitVec 32 := if x.shiftLeft then x.operandA.reverse else x.operandA

def shiftResultExt : BitVec 33 :=
  (BitVec.ofBool (x.shiftArith && x.shiftOperand.getLsbD 31) ++ x.shiftOperand).sshiftRight
    x.shiftAmt.toNat

/-- A left shift is a right shift of the reversed operand. -/
def shiftResult : BitVec 32 :=
  if x.shiftLeft then (x.shiftResultExt.extractLsb' 0 32).reverse
  else x.shiftResultExt.extractLsb' 0 32

def bwlogicResult : BitVec 32 :=
  match x.operator with
  | .or => x.operandA ||| x.operandB
  | .and => x.operandA &&& x.operandB
  | _ => x.operandA ^^^ x.operandB

def resultO : BitVec 32 :=
  match x.operator with
  | .xor | .or | .and => x.bwlogicResult
  | .add | .sub => x.adderResult
  | .sll | .srl | .sra => x.shiftResult
  | .eq | .ne | .ge | .geu | .lt | .ltu | .slt | .sltu => (BitVec.ofBool x.cmpResult).setWidth 32

end IbexAluIn

/-! ## The operators -/

/-- What a comparator decides. -/
def IbexAluOp.compares (a b : BitVec 32) : IbexAluOp → Option Bool
  | .eq => some (a == b)
  | .ne => some (a != b)
  | .lt | .slt => some (decide (a.toInt < b.toInt))
  | .ltu | .sltu => some (decide (a.toNat < b.toNat))
  | .ge => some (decide (b.toInt ≤ a.toInt))
  | .geu => some (decide (b.toNat ≤ a.toNat))
  | .add | .sub | .xor | .or | .and | .sra | .srl | .sll => none

/-- The result of an operator; a shift takes the low five bits of its second operand. -/
def IbexAluOp.meaning (a b : BitVec 32) (op : IbexAluOp) : BitVec 32 :=
  match op with
  | .add => a + b
  | .sub => a - b
  | .xor => a ^^^ b
  | .or => a ||| b
  | .and => a &&& b
  | .sra => a.sshiftRight (b.toNat % 32)
  | .srl => a >>> (b.toNat % 32)
  | .sll => a <<< (b.toNat % 32)
  | .lt | .ltu | .ge | .geu | .eq | .ne | .slt | .sltu =>
    if (op.compares a b).getD false then 1 else 0

def IbexAluOp.isShift : IbexAluOp → Bool
  | .sra | .srl | .sll => true
  | _ => false

namespace IbexAluIn

variable {x : IbexAluIn}

/-! ## The adder -/

/-- The adder of two operands, with a carry where both have their bit 0. -/
theorem adderResult_toNat (a b : BitVec 33) :
    (((a.setWidth 34 + b.setWidth 34 : BitVec 34).extractLsb' 1 32 : BitVec 32)).toNat =
      (a.toNat / 2 + b.toNat / 2 + (a.toNat % 2 + b.toNat % 2) / 2) % 2 ^ 32 := by
  have ha := a.isLt
  have hb := b.isLt
  simp only [BitVec.extractLsb'_toNat, BitVec.toNat_add, BitVec.toNat_setWidth,
    Nat.shiftRight_eq_div_pow]
  omega

theorem toNat_append_bit (a : BitVec 32) (c : BitVec 1) :
    (a ++ c).toNat = 2 * a.toNat + c.toNat := by
  rw [BitVec.toNat_append, ← Nat.shiftLeft_add_eq_or_of_lt c.isLt, Nat.shiftLeft_eq]
  omega

theorem adderResult_add (hm : x.multdivSel = false) (hn : x.adderOpBNegate = false) :
    x.adderResult = x.operandA + x.operandB := by
  apply BitVec.eq_of_toNat_eq
  rw [adderResult, adderResultExt, adderResult_toNat, adderInA, adderInB, hm, hn,
    if_neg Bool.false_ne_true, if_neg Bool.false_ne_true, if_neg Bool.false_ne_true,
    toNat_append_bit, toNat_append_bit, BitVec.toNat_add]
  simp only [BitVec.toNat_ofNat]
  omega

theorem adderResult_sub (hm : x.multdivSel = false) (hn : x.adderOpBNegate = true) :
    x.adderResult = x.operandA - x.operandB := by
  have hb : x.operandBNeg.toNat = 2 ^ 33 - 1 - 2 * x.operandB.toNat := by
    rw [operandBNeg, BitVec.xor_allOnes, BitVec.toNat_not, toNat_append_bit]
    rfl
  apply BitVec.eq_of_toNat_eq
  rw [adderResult, adderResultExt, adderResult_toNat, adderInA, adderInB, hm, hn,
    if_neg Bool.false_ne_true, if_neg Bool.false_ne_true, if_pos rfl, toNat_append_bit, hb,
    BitVec.toNat_sub]
  have h1 := x.operandA.isLt
  have h2 := x.operandB.isLt
  simp only [BitVec.toNat_ofNat]
  omega

/-! ## Comparisons -/

theorem isEqual_eq (hm : x.multdivSel = false) (hn : x.adderOpBNegate = true) :
    x.isEqual = (x.operandA == x.operandB) := by
  rw [isEqual, adderResult_sub hm hn, Bool.eq_iff_iff, beq_iff_eq, beq_iff_eq]
  exact BitVec.sub_eq_iff_eq_add.trans (by simp)

theorem getLsbD_sign (a : BitVec 32) : a.getLsbD 31 = decide (2 ^ 31 ≤ a.toNat) := by
  have h : a.getLsbD 31 = a.msb := rfl
  rw [h, BitVec.msb_eq_decide]

theorem toInt_eq_sign (a : BitVec 32) :
    a.toInt = if a.getLsbD 31 then (a.toNat : ℤ) - 2 ^ 32 else (a.toNat : ℤ) := by
  rw [getLsbD_sign, BitVec.toInt_eq_toNat_cond]
  simp only [decide_eq_true_eq]
  split_ifs
  · omega
  · rfl
  · rfl
  · omega

/-- Where the signs agree, that of the difference decides; where they do not, one of them does. -/
theorem greaterEqual_eq (a b : BitVec 32) (signed : Bool) :
    (if a.getLsbD 31 ^^ b.getLsbD 31 then a.getLsbD 31 ^^ signed else !(a - b).getLsbD 31) =
      if signed then decide (b.toInt ≤ a.toInt) else decide (b.toNat ≤ a.toNat) := by
  have h1 := a.isLt
  have h2 := b.isLt
  have hd : (a - b).getLsbD 31 = decide (2 ^ 31 ≤ (2 ^ 32 - b.toNat + a.toNat) % 2 ^ 32) := by
    rw [getLsbD_sign, BitVec.toNat_sub]
  rw [hd, toInt_eq_sign, toInt_eq_sign, getLsbD_sign, getLsbD_sign]
  by_cases ha : 2 ^ 31 ≤ a.toNat <;> by_cases hb : 2 ^ 31 ≤ b.toNat
  · rw [decide_eq_true ha, decide_eq_true hb, Bool.eq_iff_iff]
    cases signed <;> simp <;> omega
  · rw [decide_eq_true ha, decide_eq_false hb, Bool.eq_iff_iff]
    cases signed <;> simp <;> omega
  · rw [decide_eq_false ha, decide_eq_true hb, Bool.eq_iff_iff]
    cases signed <;> simp <;> omega
  · rw [decide_eq_false ha, decide_eq_false hb, Bool.eq_iff_iff]
    cases signed <;> simp <;> omega

theorem isGreaterEqual_eq (hm : x.multdivSel = false) (hn : x.adderOpBNegate = true) :
    x.isGreaterEqual =
      if x.cmpSigned then decide (x.operandB.toInt ≤ x.operandA.toInt)
      else decide (x.operandB.toNat ≤ x.operandA.toNat) := by
  rw [isGreaterEqual, adderResult_sub hm hn, greaterEqual_eq]

/-! ## Shifts -/

/-- A right shift of the reversed word, reversed, is a left shift. -/
theorem reverse_ushiftRight (a : BitVec 32) (n : ℕ) : (a.reverse >>> n).reverse = a <<< n := by
  apply BitVec.eq_of_getLsbD_eq
  intro k hk
  rw [BitVec.getLsbD_reverse, BitVec.getMsbD, BitVec.getLsbD_ushiftRight, BitVec.getLsbD_reverse,
    BitVec.getMsbD, BitVec.getLsbD_shiftLeft]
  by_cases hn : k < n
  · simp [hn, show ¬ n + (32 - 1 - k) < 32 by omega]
  · simp [hn, hk, show n + (32 - 1 - k) < 32 by omega,
      show 32 - 1 - (n + (32 - 1 - k)) = k - n by omega]

theorem ofBool_append_low (c : Bool) (a : BitVec 32) (k : ℕ) (hk : k < 32) :
    (BitVec.ofBool c ++ a).getLsbD k = a.getLsbD k := by
  rw [BitVec.getLsbD_append, if_pos hk]

/-- The 33rd bit fills up from the left. -/
theorem shiftResultExt_low {k : ℕ} (hk : k < 32) :
    x.shiftResultExt.getLsbD k =
      if x.shiftAmt.toNat + k < 32 then x.shiftOperand.getLsbD (x.shiftAmt.toNat + k)
      else x.shiftArith && x.shiftOperand.getLsbD 31 := by
  have hm : (BitVec.ofBool (x.shiftArith && x.shiftOperand.getLsbD 31) ++ x.shiftOperand).msb =
      (x.shiftArith && x.shiftOperand.getLsbD 31) := by
    show BitVec.getLsbD _ 32 = _
    rw [BitVec.getLsbD_append, if_neg (lt_irrefl 32), Nat.sub_self]
    exact BitVec.getLsbD_ofBool _ 0
  rw [shiftResultExt, BitVec.getLsbD_sshiftRight, hm]
  by_cases hn : x.shiftAmt.toNat + k < 32
  · rw [if_pos (by omega), if_pos hn, ofBool_append_low _ _ _ hn]
    simp
    omega
  · rw [if_neg hn]
    split_ifs with h
    · rw [BitVec.getLsbD_append, if_neg hn, show x.shiftAmt.toNat + k - 32 = 0 by omega]
      simp
      omega
    · simp
      omega

theorem shiftAmt_first (hf : x.instrFirstCycle = true) :
    x.shiftAmt.toNat = x.operandB.toNat % 32 := by
  rw [shiftAmt, hf, if_pos rfl, BitVec.extractLsb'_toNat]
  rfl

theorem shiftResult_sll (hf : x.instrFirstCycle = true) (ho : x.operator = .sll) :
    x.shiftResult = x.operandA <<< (x.operandB.toNat % 32) := by
  have hl : x.shiftLeft = true := by simp [shiftLeft, ho]
  have ha : x.shiftArith = false := by simp [shiftArith, ho]
  rw [shiftResult, hl, if_pos rfl, ← reverse_ushiftRight]
  congr 1
  apply BitVec.eq_of_getLsbD_eq
  intro k hk
  rw [BitVec.getLsbD_extractLsb', Nat.zero_add, shiftResultExt_low hk, ha, shiftAmt_first hf,
    shiftOperand, hl, BitVec.getLsbD_ushiftRight]
  simp only [hk, decide_true, Bool.true_and, if_true, Bool.false_and]
  split_ifs with h
  · rfl
  · exact (BitVec.getLsbD_of_ge _ _ (by omega)).symm

theorem shiftResult_srl (hf : x.instrFirstCycle = true) (ho : x.operator = .srl) :
    x.shiftResult = x.operandA >>> (x.operandB.toNat % 32) := by
  have hl : x.shiftLeft = false := by simp [shiftLeft, ho]
  have ha : x.shiftArith = false := by simp [shiftArith, ho]
  rw [shiftResult, hl, if_neg Bool.false_ne_true]
  apply BitVec.eq_of_getLsbD_eq
  intro k hk
  rw [BitVec.getLsbD_extractLsb', Nat.zero_add, shiftResultExt_low hk, ha, shiftAmt_first hf,
    shiftOperand, hl, BitVec.getLsbD_ushiftRight]
  simp only [hk, decide_true, Bool.true_and, Bool.false_eq_true, if_false, Bool.false_and]
  split_ifs with h
  · rfl
  · exact (BitVec.getLsbD_of_ge _ _ (by omega)).symm

theorem shiftResult_sra (hf : x.instrFirstCycle = true) (ho : x.operator = .sra) :
    x.shiftResult = x.operandA.sshiftRight (x.operandB.toNat % 32) := by
  have hl : x.shiftLeft = false := by simp [shiftLeft, ho]
  have ha : x.shiftArith = true := by simp [shiftArith, ho]
  rw [shiftResult, hl, if_neg Bool.false_ne_true]
  apply BitVec.eq_of_getLsbD_eq
  intro k hk
  rw [BitVec.getLsbD_extractLsb', Nat.zero_add, shiftResultExt_low hk, ha, shiftAmt_first hf,
    shiftOperand, hl, BitVec.getLsbD_sshiftRight]
  have hm : x.operandA.msb = x.operandA.getLsbD 31 := rfl
  rw [hm]
  simp [hk, show ¬ 32 ≤ k by omega]

/-! ## The results -/

/-- The operands and the operator of an instruction that does not multiply or divide; it computes
    in its first cycle. -/
structure Plain (x : IbexAluIn) : Prop where
  sel : x.multdivSel = false
  first : x.operator.isShift = true → x.instrFirstCycle = true

/-- **Comparisons.** Every comparator decides its relation. -/
theorem comparison_eq (h : x.Plain) {c : Bool}
    (hc : x.operator.compares x.operandA x.operandB = some c) : x.cmpResult = c := by
  have heq := isEqual_eq (x := x) h.sel
  have hge := isGreaterEqual_eq (x := x) h.sel
  unfold adderOpBNegate at heq hge
  unfold cmpSigned at hge
  unfold cmpResult
  cases ho : x.operator <;> rw [ho] at hc heq hge <;>
    simp only [IbexAluOp.compares, Option.some.injEq, reduceCtorEq] at hc
  all_goals subst hc
  case eq => exact heq rfl
  case ne => rw [heq rfl]; rfl
  case ge => exact hge rfl
  case geu => exact hge rfl
  all_goals
    rw [hge rfl]
    simp only [Bool.false_eq_true, if_true, if_false, ← decide_not, not_le]

/-- **The result** of every operator is what it is for. -/
theorem resultO_eq (h : x.Plain) :
    x.resultO = x.operator.meaning x.operandA x.operandB := by
  have hcmp := fun c => comparison_eq (c := c) h
  have hbit : ∀ c : Bool, (BitVec.ofBool c).setWidth 32 = if (some c).getD false then 1 else 0 := by
    decide
  unfold resultO IbexAluOp.meaning bwlogicResult
  cases ho : x.operator with
  | add => exact adderResult_add h.sel (by rw [adderOpBNegate, ho])
  | sub => exact adderResult_sub h.sel (by rw [adderOpBNegate, ho])
  | xor => rfl
  | or => rfl
  | and => rfl
  | sra => exact shiftResult_sra (h.first (by rw [ho]; rfl)) ho
  | srl => exact shiftResult_srl (h.first (by rw [ho]; rfl)) ho
  | sll => exact shiftResult_sll (h.first (by rw [ho]; rfl)) ho
  | _ =>
    rw [ho] at hcmp
    rw [hcmp _ rfl, hbit]
    rfl

end IbexAluIn

end SentinelSoc
