/-
  The arithmetic unit of the Ed25519 core (`alu.sv`, `pseudo_mersenne.sv`): the
  reducer modulo `p = 2^255 - 19` and the eight operations of the combinational
  ALU.

  * `pseudoMersenne` and `alu` follow the source signal by signal;
  * `pseudoMersenne_toNat`: the reducer computes the remainder for all 512-bit
    inputs;
  * `fadd`, `fsub`, `fmul` are the field operations as the microcode sees them,
    with the operand ranges in which they are exact modulo `p`.
-/
import Mathlib.Tactic

namespace SentinelSoc

/-- A register of the 256-bit datapath. -/
abbrev Word := BitVec 256

/-- `PRIME_P`. -/
def primeP : Word := 0x7FFFFFFFFFFFFFFFFFFFFFFFFFFFFFFFFFFFFFFFFFFFFFFFFFFFFFFFFFFFFFED

/-- `TWO_256_MINUS_P`. -/
def two256MinusP : Word := 0x8000000000000000000000000000000000000000000000000000000000000013

/-- The field prime `2^255 - 19`. -/
abbrev p : ℕ := 2 ^ 255 - 19

theorem primeP_toNat : primeP.toNat = p := rfl

theorem two256MinusP_toNat : two256MinusP.toNat = 2 ^ 256 - p := rfl

/-! ## The reducer -/

namespace PseudoMersenne

variable (dataIn : BitVec 512)

/-- Fold at `2^256` by 38. -/
def h1 : BitVec 256 := dataIn.extractLsb' 256 256

def l1 : BitVec 256 := dataIn.extractLsb' 0 256

def h1Times38 : BitVec 262 := (h1 dataIn).setWidth 262 * 38

def stage1Sum : BitVec 263 := (l1 dataIn).setWidth 263 + (h1Times38 dataIn).setWidth 263

/-- Fold at `2^255` by 19. -/
def h2 : BitVec 8 := (stage1Sum dataIn).extractLsb' 255 8

def l2 : BitVec 255 := (stage1Sum dataIn).extractLsb' 0 255

def h2Times19 : BitVec 13 := (h2 dataIn).setWidth 13 * 19

def stage2Sum : BitVec 256 := (l2 dataIn).setWidth 256 + (h2Times19 dataIn).setWidth 256

end PseudoMersenne

open PseudoMersenne in
/-- The module `pseudo_mersenne`: two folds, then one conditional subtraction. -/
def pseudoMersenne (dataIn : BitVec 512) : Word :=
  if primeP ≤ stage2Sum dataIn then stage2Sum dataIn - primeP else stage2Sum dataIn

/-- The folds lose no bit, and what is left is below `2p`. -/
theorem fold_bounds {x s₁ s₂ : ℕ} (hx : x / 2 ^ 256 < 2 ^ 256)
    (h₁ : s₁ = x % 2 ^ 256 + x / 2 ^ 256 * 38) (h₂ : s₂ = s₁ % 2 ^ 255 + s₁ / 2 ^ 255 * 19) :
    s₁ < 2 ^ 263 ∧ s₁ / 2 ^ 255 < 2 ^ 8 ∧ s₂ < 2 * p ∧ s₂ % p = x % p := by
  have e₁ : s₂ + p * (s₁ / 2 ^ 255) = s₁ := by unfold p; omega
  have e₂ : s₁ + p * (2 * (x / 2 ^ 256)) = x := by unfold p; omega
  refine ⟨by omega, by omega, by unfold p; omega, ?_⟩
  rw [← Nat.add_mul_mod_self_left s₂ p (s₁ / 2 ^ 255), e₁,
    ← Nat.add_mul_mod_self_left s₁ p (2 * (x / 2 ^ 256)), e₂]

theorem condSub_toNat {s : Word} (h : s.toNat < 2 * p) :
    (if primeP ≤ s then s - primeP else s).toNat = s.toNat % p := by
  split_ifs with hp
  · have hp' : p ≤ s.toNat := hp
    rw [BitVec.toNat_sub_of_le hp, primeP_toNat, Nat.mod_eq_sub_mod hp', Nat.mod_eq_of_lt (by omega)]
  · have hp' : ¬ p ≤ s.toNat := hp
    rw [Nat.mod_eq_of_lt (by omega)]

namespace PseudoMersenne

variable (dataIn : BitVec 512)

theorem h1_toNat : (h1 dataIn).toNat = dataIn.toNat / 2 ^ 256 := by
  have hx : dataIn.toNat / 2 ^ 256 < 2 ^ 256 := by
    have h := dataIn.isLt
    exact Nat.div_lt_of_lt_mul (by rw [← pow_add]; exact h)
  simpa [h1, Nat.shiftRight_eq_div_pow] using hx

theorem l1_toNat : (l1 dataIn).toNat = dataIn.toNat % 2 ^ 256 := by
  simp [l1]

/-! ### No declared width overflows -/

theorem h1Times38_toNat : (h1Times38 dataIn).toNat = (h1 dataIn).toNat * 38 := by
  have h := (h1 dataIn).isLt
  have h38 : (38 : BitVec 262).toNat = 38 := rfl
  rw [h1Times38, BitVec.toNat_mul, BitVec.toNat_setWidth, h38]
  omega

theorem stage1Sum_toNat :
    (stage1Sum dataIn).toNat = (l1 dataIn).toNat + (h1Times38 dataIn).toNat := by
  have hl := (l1 dataIn).isLt
  have hh := (h1Times38 dataIn).isLt
  simp only [stage1Sum, BitVec.toNat_add, BitVec.toNat_setWidth]
  omega

theorem h2_toNat : (h2 dataIn).toNat = (stage1Sum dataIn).toNat / 2 ^ 255 := by
  have h := (stage1Sum dataIn).isLt
  simp only [h2, BitVec.extractLsb'_toNat, Nat.shiftRight_eq_div_pow]
  omega

theorem l2_toNat : (l2 dataIn).toNat = (stage1Sum dataIn).toNat % 2 ^ 255 := by
  simp [l2]

theorem h2Times19_toNat : (h2Times19 dataIn).toNat = (h2 dataIn).toNat * 19 := by
  have h := (h2 dataIn).isLt
  have h19 : (19 : BitVec 13).toNat = 19 := rfl
  rw [h2Times19, BitVec.toNat_mul, BitVec.toNat_setWidth, h19]
  omega

theorem stage2Sum_toNat :
    (stage2Sum dataIn).toNat = (l2 dataIn).toNat + (h2Times19 dataIn).toNat := by
  have hl := (l2 dataIn).isLt
  have hh := (h2Times19 dataIn).isLt
  simp only [stage2Sum, BitVec.toNat_add, BitVec.toNat_setWidth]
  omega

/-- Both folds keep the remainder, and one subtraction is enough after them. -/
theorem stage2Sum_bounds : (stage2Sum dataIn).toNat < 2 * p ∧
    (stage2Sum dataIn).toNat % p = dataIn.toNat % p := by
  have hx : dataIn.toNat / 2 ^ 256 < 2 ^ 256 := by rw [← h1_toNat]; exact (h1 dataIn).isLt
  have h₁ : (stage1Sum dataIn).toNat =
      dataIn.toNat % 2 ^ 256 + dataIn.toNat / 2 ^ 256 * 38 := by
    rw [stage1Sum_toNat, h1Times38_toNat, l1_toNat, h1_toNat]
  have h₂ : (stage2Sum dataIn).toNat =
      (stage1Sum dataIn).toNat % 2 ^ 255 + (stage1Sum dataIn).toNat / 2 ^ 255 * 19 := by
    rw [stage2Sum_toNat, h2Times19_toNat, l2_toNat, h2_toNat]
  exact (fold_bounds hx h₁ h₂).2.2

end PseudoMersenne

/-- **The reducer computes the remainder modulo `p`.** -/
theorem pseudoMersenne_toNat (x : BitVec 512) : (pseudoMersenne x).toNat = x.toNat % p := by
  obtain ⟨hlt, hmod⟩ := PseudoMersenne.stage2Sum_bounds x
  rw [pseudoMersenne, condSub_toNat hlt, hmod]

open PseudoMersenne in
/-- **The reducer is exact on all 512-bit inputs.**  Products and sums fit their declared
    widths, what the folds leave is below `2p`, and the output is the remainder. -/
theorem pseudoMersenne_exact (x : BitVec 512) :
    (pseudoMersenne x).toNat = x.toNat % p ∧
      (h1Times38 x).toNat = (h1 x).toNat * 38 ∧
      (stage1Sum x).toNat = (l1 x).toNat + (h1Times38 x).toNat ∧
      (h2Times19 x).toNat = (h2 x).toNat * 19 ∧
      (stage2Sum x).toNat = (l2 x).toNat + (h2Times19 x).toNat ∧
      (stage2Sum x).toNat < 2 * p ∧
      pseudoMersenne x =
        if primeP ≤ stage2Sum x then stage2Sum x - primeP else stage2Sum x :=
  ⟨pseudoMersenne_toNat x, h1Times38_toNat x, stage1Sum_toNat x, h2Times19_toNat x,
    stage2Sum_toNat x, (stage2Sum_bounds x).1, rfl⟩

/-! ## The ALU -/

/-- `alu_op_t`. -/
inductive AluOp where
  | add | subCnd | mult | cmp | pass | subRaw | loadCompressed | condNegate
  deriving DecidableEq, Repr

/-- The outputs of the module `alu`. -/
structure AluOut where
  aluResult : Word
  cmpFlag : Bool
  cmpEq : Bool
  signBitOut : Bool

/-- The field addition of `OP_ADD` (`mod_p_en = 1`). -/
def fadd (srcA srcB : Word) : Word :=
  let sumFull : BitVec 257 := srcA.setWidth 257 + srcB.setWidth 257
  let carry := sumFull.getLsbD 256
  if carry || decide (primeP ≤ sumFull.setWidth 256) then sumFull.setWidth 256 - primeP
  else sumFull.setWidth 256

/-- The field subtraction of `OP_SUB_RAW` (`mod_p_en = 1`). -/
def fsub (srcA srcB : Word) : Word :=
  let subFull : BitVec 257 := srcA.setWidth 257 - srcB.setWidth 257
  if subFull.getLsbD 256 then subFull.setWidth 256 - two256MinusP else subFull.setWidth 256

/-- The 512-bit product of the multiplier. -/
def mulFull (a b : Word) : BitVec 512 := a.setWidth 512 * b.setWidth 512

/-- The field multiplication of `OP_MULT` (`mod_p_en = 1`). -/
def fmul (srcA srcB : Word) : Word := pseudoMersenne (mulFull srcA srcB)

/-- `OP_SUB_CND`. -/
def subCnd (srcA srcB : Word) : Word := if srcB ≤ srcA then srcA - srcB else srcA

/-- `OP_LOAD_COMPRESSED`: clear the sign bit of an encoding. -/
def loadCompressed (srcA : Word) : Word := (srcA.extractLsb' 0 255).setWidth 256

/-- `OP_COND_NEGATE`: negate on a parity mismatch. -/
def condNegate (srcA : Word) (targetSign : Bool) : Word :=
  if srcA.getLsbD 0 != targetSign then primeP - srcA else srcA

/-- The module `alu`. -/
def alu (srcA srcB : Word) (multProduct : BitVec 512) (aluOp : AluOp)
    (selHi modPEn targetSign : Bool) : AluOut :=
  let isolatedCmpFlag := decide (srcB ≤ srcA)
  let cmpEq := decide (srcA = srcB)
  -- the reducer's input is gated to zero unless its output is selected
  let pmInput := if modPEn && aluOp == .mult then multProduct else 0
  match aluOp with
  | .add => ⟨if modPEn then fadd srcA srcB else srcA + srcB, false, cmpEq, false⟩
  | .subCnd => ⟨subCnd srcA srcB, isolatedCmpFlag, cmpEq, false⟩
  | .mult =>
    ⟨if modPEn then pseudoMersenne pmInput
      else if selHi then multProduct.extractLsb' 256 256 else multProduct.extractLsb' 0 256,
      false, cmpEq, false⟩
  | .cmp => ⟨srcA, isolatedCmpFlag, cmpEq, false⟩
  | .pass => ⟨srcA, false, cmpEq, false⟩
  | .subRaw =>
    let subFull : BitVec 257 := srcA.setWidth 257 - srcB.setWidth 257
    ⟨if modPEn then fsub srcA srcB else subFull.setWidth 256, !modPEn && !subFull.getLsbD 256,
      cmpEq, false⟩
  | .loadCompressed => ⟨loadCompressed srcA, false, cmpEq, srcA.getLsbD 255⟩
  | .condNegate => ⟨condNegate srcA targetSign, false, cmpEq, false⟩

@[simp] theorem alu_cmpEq (a b : Word) (m : BitVec 512) (op : AluOp) (hi mp ts : Bool) :
    (alu a b m op hi mp ts).cmpEq = decide (a = b) := by
  cases op <;> rfl

/-! ## Ranges in which the field operations are exact -/

theorem mulFull_toNat (a b : Word) : (mulFull a b).toNat = a.toNat * b.toNat := by
  have h : a.toNat * b.toNat < 2 ^ 256 * 2 ^ 256 := Nat.mul_lt_mul'' a.isLt b.isLt
  have ha := Nat.mod_eq_of_lt (a.isLt.trans (Nat.pow_lt_pow_right (by omega) (by omega : 256 < 512)))
  have hb := Nat.mod_eq_of_lt (b.isLt.trans (Nat.pow_lt_pow_right (by omega) (by omega : 256 < 512)))
  rw [← pow_add] at h
  rw [mulFull, BitVec.toNat_mul, BitVec.toNat_setWidth, BitVec.toNat_setWidth, ha, hb,
    Nat.mod_eq_of_lt h]

theorem fmul_toNat (a b : Word) : (fmul a b).toNat = a.toNat * b.toNat % p := by
  rw [fmul, pseudoMersenne_toNat, mulFull_toNat]

/-- Bit 256 of a 257-bit result is its carry. -/
theorem getLsbD_carry (s : BitVec 257) : s.getLsbD 256 = decide (2 ^ 256 ≤ s.toNat) := by
  have := s.isLt
  rw [BitVec.getLsbD, Nat.testBit_eq_decide_div_mod_eq, decide_eq_decide]
  omega

theorem fadd_toNat {a b : Word} (h : a.toNat + b.toNat < 2 ^ 256 + p) :
    (fadd a b).toNat = if p ≤ a.toNat + b.toNat then a.toNat + b.toNat - p else a.toNat + b.toNat := by
  have ha := a.isLt
  have hb := b.isLt
  have hs : (a.setWidth 257 + b.setWidth 257).toNat = a.toNat + b.toNat := by
    rw [BitVec.toNat_add, BitVec.toNat_setWidth, BitVec.toNat_setWidth]; omega
  simp only [fadd, getLsbD_carry, hs, Bool.or_eq_true, decide_eq_true_eq, BitVec.le_def,
    BitVec.toNat_setWidth, primeP_toNat]
  unfold p at h ⊢
  split_ifs with h₁ h₂ h₂
  · rw [BitVec.toNat_sub, BitVec.toNat_setWidth, hs, primeP_toNat]; unfold p; omega
  · omega
  · omega
  · rw [BitVec.toNat_setWidth, hs]; omega

theorem fsub_toNat {a b : Word} (h : b.toNat ≤ a.toNat + p) :
    (fsub a b).toNat = if b.toNat ≤ a.toNat then a.toNat - b.toNat else a.toNat + p - b.toNat := by
  have ha := a.isLt
  have hb := b.isLt
  have hs : (a.setWidth 257 - b.setWidth 257).toNat = (2 ^ 257 - b.toNat + a.toNat) % 2 ^ 257 := by
    rw [BitVec.toNat_sub, BitVec.toNat_setWidth, BitVec.toNat_setWidth]; omega
  simp only [fsub, getLsbD_carry, hs, decide_eq_true_eq]
  unfold p at h ⊢
  split_ifs with h₁ h₂ h₂
  · omega
  · rw [BitVec.toNat_sub, BitVec.toNat_setWidth, hs, two256MinusP_toNat]; unfold p; omega
  · rw [BitVec.toNat_setWidth, hs]; omega
  · omega

end SentinelSoc
