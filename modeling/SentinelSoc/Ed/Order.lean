/-
  The order of the base point is the prime `L`.

  * `prime_ell`: `L` is prime, by Lucas's test;
  * `addOrderOf_basePoint`: `[L]G` is neutral, by the loop of the core itself;
  * `basePoint_smul_eq_iff`: a multiple of `G` determines the scalar modulo `L`.
-/
import SentinelSoc.Ed.Verify
import SentinelSoc.Lib.EdwardsGroup
import SentinelSoc.Lib.Lucas
import Mathlib.GroupTheory.OrderOfElement

namespace SentinelSoc

open Edwards

/-- `L`, the factors of `L - 1`, their predecessors' factors, and so on. -/
def primesOfL : List Lucas.Entry :=
  [⟨ell, 2,
      [2, 2, 3, 11, 198211423230930754013084525763697, 276602624281642239937218680557139826668747]⟩,
    ⟨276602624281642239937218680557139826668747, 2,
      [2, 7, 19757330305831588566944191468367130476339]⟩,
    ⟨19757330305831588566944191468367130476339, 2,
      [2, 269, 213441916511, 172054593956031949258510691]⟩,
    ⟨198211423230930754013084525763697, 5, [2, 2, 2, 2, 3, 23, 58964693, 3044861653679985063343]⟩,
    ⟨172054593956031949258510691, 2, [2, 5, 1361, 2851, 4434155615661930479]⟩,
    ⟨3044861653679985063343, 5, [2, 3, 11, 30703, 82163, 132667, 137849]⟩,
    ⟨4434155615661930479, 17, [2, 41, 43, 1257559732178653]⟩,
    ⟨1257559732178653, 2, [2, 2, 3, 7, 23, 531581, 1224481]⟩,
    ⟨213441916511, 13, [2, 5, 73, 292386187]⟩, ⟨292386187, 2, [2, 3, 3, 3, 3, 307, 5879]⟩,
    ⟨58964693, 2, [2, 2, 14741173]⟩, ⟨14741173, 2, [2, 2, 3, 3, 409477]⟩,
    ⟨1224481, 13, [2, 2, 2, 2, 2, 3, 5, 2551]⟩, ⟨531581, 2, [2, 2, 5, 7, 3797]⟩,
    ⟨409477, 2, [2, 2, 3, 34123]⟩, ⟨137849, 3, [2, 2, 2, 17231]⟩, ⟨132667, 5, [2, 3, 22111]⟩,
    ⟨82163, 2, [2, 41081]⟩, ⟨41081, 3, [2, 2, 2, 5, 13, 79]⟩, ⟨34123, 2, [2, 3, 11, 11, 47]⟩,
    ⟨30703, 3, [2, 3, 7, 17, 43]⟩, ⟨22111, 6, [2, 3, 5, 11, 67]⟩, ⟨17231, 13, [2, 5, 1723]⟩,
    ⟨5879, 11, [2, 2939]⟩, ⟨3797, 2, [2, 2, 13, 73]⟩, ⟨2939, 2, [2, 13, 113]⟩,
    ⟨2851, 2, [2, 3, 5, 5, 19]⟩, ⟨2551, 6, [2, 3, 5, 5, 17]⟩, ⟨1723, 3, [2, 3, 7, 41]⟩,
    ⟨1361, 3, [2, 2, 2, 2, 5, 17]⟩, ⟨307, 5, [2, 3, 3, 17]⟩, ⟨269, 2, [2, 2, 67]⟩,
    ⟨113, 3, [2, 2, 2, 2, 7]⟩, ⟨79, 3, [2, 3, 13]⟩, ⟨73, 5, [2, 2, 2, 3, 3]⟩,
    ⟨67, 2, [2, 3, 11]⟩, ⟨47, 5, [2, 23]⟩, ⟨43, 3, [2, 3, 7]⟩, ⟨41, 6, [2, 2, 2, 5]⟩,
    ⟨23, 5, [2, 11]⟩, ⟨19, 2, [2, 3, 3]⟩, ⟨17, 3, [2, 2, 2, 2]⟩, ⟨13, 2, [2, 2, 3]⟩,
    ⟨11, 2, [2, 5]⟩, ⟨7, 3, [2, 3]⟩, ⟨5, 2, [2, 2]⟩, ⟨3, 2, [2]⟩, ⟨2, 1, []⟩]

theorem valid_primesOfL : Lucas.valid primesOfL = true := by decide +kernel

theorem prime_ell : ell.Prime := Lucas.prime_of_valid valid_primesOfL _ (List.mem_cons_self ..)

instance : Fact ell.Prime := ⟨prime_ell⟩

/-- 253 rounds of the loop give the coordinates of the neutral element. -/
theorem ell_smul_basePoint : basePoint.smul ell = Point.neutral := by
  have hL : (Extended.smul curve.d ell baseCoords).Represents (basePoint.smul ell) :=
    baseCoords_represents.smul ell
  rw [Extended.smul_eq_bits curve.d baseCoords (by decide : ell < 2 ^ 253)] at hL
  refine (hL.eq_iff Extended.represents_neutral).1 ?_
  decide +kernel

theorem basePoint_ne_zero : basePoint ≠ 0 := by
  intro h
  have hy : basePoint.y = 1 := congrArg Point.y h
  revert hy
  decide +kernel

theorem addOrderOf_basePoint : addOrderOf basePoint = ell := by
  refine addOrderOf_eq_prime ?_ basePoint_ne_zero
  rw [← Point.smul_eq_nsmul, ell_smul_basePoint]
  rfl

/-- **A multiple of `G` determines the scalar modulo `L`.** -/
theorem basePoint_smul_eq_iff {m n : ℕ} :
    basePoint.smul m = basePoint.smul n ↔ m ≡ n [MOD ell] := by
  rw [Point.smul_eq_nsmul, Point.smul_eq_nsmul, nsmul_eq_nsmul_iff_modEq, addOrderOf_basePoint]

end SentinelSoc
