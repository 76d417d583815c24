/-
  The reduction of the hash (sequence 0 of the microcode).

  * `muHi`, `muLo`, `curveL`: the words that the host loads for it;
  * `run_barrett`: what the ten rows compute, row by row on words;
  * `barrett_mod`: register 16 is the remainder modulo `L` for every 512-bit number.
-/
import SentinelSoc.Lib.Barrett
import SentinelSoc.Ed.Microcode

namespace SentinelSoc

/-! ## The constants of the host -/

/-- `MU_HI` -/
def muHi : Word := 0xf

/-- `MU_LO` -/
def muLo : Word := 0xffffffffffffffffffffffffffffffeb2106215d086329a7ed9ce5a30a2c131b

/-- `CURVE_L` -/
def curveL : Word := 0x1000000000000000000000000000000014def9dea2f79cd65812631a5cf5d3ed

/-- The order of the base point. -/
abbrev ell : ℕ := 2 ^ 252 + 27742317777372353535851937790883648493

theorem curveL_toNat : curveL.toNat = ell := rfl

/-- The two words of `mu` are the quotient of `2 ^ 512`. -/
theorem mu_eq : muHi.toNat * 2 ^ 256 + muLo.toNat = (2 ^ 256) ^ 2 / ell := by decide +kernel

/-! ## The rows on words -/

/-- `OP_MULT`, low half (`mod_p_en = 0`). -/
def mulLow (a b : Word) : Word := (mulFull a b).extractLsb' 0 256

/-- `OP_MULT`, high half (`mod_p_en = 0`). -/
def mulHigh (a b : Word) : Word := (mulFull a b).extractLsb' 256 256

/-- `OP_SUB_RAW` (`mod_p_en = 0`). -/
def subRaw (a b : Word) : Word := (a.setWidth 257 - b.setWidth 257 : BitVec 257).setWidth 256

theorem mulLow_toNat (a b : Word) : (mulLow a b).toNat = a.toNat * b.toNat % 2 ^ 256 := by
  rw [mulLow, BitVec.extractLsb'_toNat, mulFull_toNat, Nat.shiftRight_zero]

theorem mulHigh_toNat (a b : Word) : (mulHigh a b).toNat = a.toNat * b.toNat / 2 ^ 256 := by
  have h : a.toNat * b.toNat < 2 ^ 256 * 2 ^ 256 := Nat.mul_lt_mul'' a.isLt b.isLt
  rw [mulHigh, BitVec.extractLsb'_toNat, mulFull_toNat, Nat.shiftRight_eq_div_pow]
  exact Nat.mod_eq_of_lt (Nat.div_lt_of_lt_mul h)

theorem subRaw_toNat (a b : Word) :
    (subRaw a b).toNat = (a.toNat + (2 ^ 256 - b.toNat)) % 2 ^ 256 := by
  have ha := a.isLt
  have hb := b.isLt
  rw [subRaw, BitVec.toNat_setWidth, BitVec.toNat_sub, BitVec.toNat_setWidth,
    BitVec.toNat_setWidth]
  omega

theorem subCnd_toNat (a b : Word) : (subCnd a b).toNat = Barrett.condSub b.toNat a.toNat := by
  rw [subCnd, Barrett.condSub]
  by_cases h : b ≤ a
  · rw [if_pos h, if_pos (BitVec.le_def.1 h), BitVec.toNat_sub_of_le h]
  · rw [if_neg h, if_neg fun hle => h (BitVec.le_def.2 hle)]

/-- The quotient that the first five rows leave in register 9. -/
def barrettQuotient (lo hi muHi muLo : Word) : Word :=
  mulLow hi muHi + mulHigh hi muLo + mulHigh lo muHi

/-- The words in the registers of the sequence. -/
theorem run_barrett (d : Datapath) :
    (Datapath.run (Microcode.modPEn 0) d (Microcode.program 0)).regs 16 =
      let q := barrettQuotient (d.regs 8) (d.regs 9) (d.regs 10) (d.regs 12)
      let l := d.regs 11
      subCnd (subCnd (subCnd (subRaw (d.regs 8) (mulLow q l)) l) l) l := rfl

/-- The quotient is truncated to a word, and nothing else is lost of the estimate. -/
theorem barrettQuotient_toNat (lo hi muHi muLo : Word) :
    (barrettQuotient lo hi muHi muLo).toNat =
      Barrett.quotient (2 ^ 256) lo.toNat hi.toNat muHi.toNat muLo.toNat % 2 ^ 256 := by
  rw [barrettQuotient, Barrett.quotient, BitVec.toNat_add, BitVec.toNat_add, mulLow_toNat,
    mulHigh_toNat, mulHigh_toNat, Nat.mod_add_mod, Nat.add_assoc, Nat.mod_add_mod, Nat.add_assoc]

theorem barrett_toNat {d : Datapath} (hmuHi : d.regs 10 = muHi) (hl : d.regs 11 = curveL)
    (hmuLo : d.regs 12 = muLo) :
    ((Datapath.run (Microcode.modPEn 0) d (Microcode.program 0)).regs 16).toNat =
      ((d.regs 9).toNat * 2 ^ 256 + (d.regs 8).toNat) % ell := by
  have h4 : 4 * ell ≤ 2 ^ 256 := by decide
  have hred := Barrett.reduce (by decide) (d.regs 8).isLt (d.regs 9).isLt muLo.isLt h4 mu_eq
  rw [run_barrett, hmuHi, hl, hmuLo, ← hred]
  simp only [subCnd_toNat, subRaw_toNat, mulLow_toNat, barrettQuotient_toNat, curveL_toNat,
    Nat.mod_mul_mod]

/-- **Sequence 0 reduces every 512-bit number modulo `L`.** -/
theorem barrett_mod (d : Datapath) (hmuHi : d.regs 10 = muHi) (hl : d.regs 11 = curveL)
    (hmuLo : d.regs 12 = muLo) :
    let r := (Datapath.run (Microcode.modPEn 0) d (Microcode.program 0)).regs 16
    r.toNat = ((d.regs 9).toNat * 2 ^ 256 + (d.regs 8).toNat) % ell ∧ r.toNat < ell := by
  refine ⟨barrett_toNat hmuHi hl hmuLo, ?_⟩
  rw [barrett_toNat hmuHi hl hmuLo]
  exact Nat.mod_lt _ (by decide)

/-- The largest 512-bit number. -/
def allOnes : Datapath where
  regs r :=
    if r = 10 then muHi else if r = 11 then curveL else if r = 12 then muLo
    else BitVec.allOnes 256
  xSign := false

theorem barrett_mod_allOnes :
    ((Datapath.run (Microcode.modPEn 0) allOnes (Microcode.program 0)).regs 16).toNat =
      ((allOnes.regs 9).toNat * 2 ^ 256 + (allOnes.regs 8).toNat) % ell :=
  (barrett_mod allOnes (by decide) (by decide) (by decide)).1

end SentinelSoc
