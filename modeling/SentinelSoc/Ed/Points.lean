/-
  Point doubling and point addition (sequences 1 and 2 of the microcode).

  * `Holds`: four registers hold a point in extended coordinates;
  * `pointDouble_holds`, `pointAdd_holds`: the sequences compute the double and the sum, with
    every row exact; `X ≤ Y + p` is what the first two rows of the addition need;
  * `point_sequences`: both, with the registers that they leave alone.
-/
import SentinelSoc.Ed.Field

namespace SentinelSoc

open Microcode Edwards

/-- Four registers from `r` on, as extended coordinates. -/
def coords {F : Type*} (v : BitVec 5 → F) (r : BitVec 5) : Extended F :=
  ⟨v r, v (r + 1), v (r + 2), v (r + 3)⟩

/-- The residues of the registers. -/
def residues (regs : BitVec 5 → Word) (r : BitVec 5) : ZMod p := fe (regs r)

/-- The registers from `r` on hold a point, in words below `2 ^ 255` (not necessarily below
    `p`). -/
structure Holds (regs : BitVec 5 → Word) (r : BitVec 5) (P : Point curve) : Prop where
  represents : (coords (residues regs) r).Represents P
  x_lt : (regs r).toNat < 2 ^ 255
  y_lt : (regs (r + 1)).toNat < 2 ^ 255
  z_lt : (regs (r + 2)).toNat < 2 ^ 255
  t_lt : (regs (r + 3)).toNat < 2 ^ 255

/-- The registers from `r` on hold a point, in reduced words. -/
structure HoldsReduced (regs : BitVec 5 → Word) (r : BitVec 5) (P : Point curve) : Prop where
  represents : (coords (residues regs) r).Represents P
  x_lt : (regs r).toNat < p
  y_lt : (regs (r + 1)).toNat < p
  z_lt : (regs (r + 2)).toNat < p
  t_lt : (regs (r + 3)).toNat < p

/-- Four registers from `r` on are below `n`. -/
structure Below (n : ℕ) (regs : BitVec 5 → Word) (r : BitVec 5) : Prop where
  x_lt : (regs r).toNat < n
  y_lt : (regs (r + 1)).toNat < n
  z_lt : (regs (r + 2)).toNat < n
  t_lt : (regs (r + 3)).toNat < n

theorem Holds.below {regs : BitVec 5 → Word} {r : BitVec 5} {P : Point curve}
    (h : Holds regs r P) : Below (2 ^ 255) regs r := ⟨h.x_lt, h.y_lt, h.z_lt, h.t_lt⟩

theorem Below.mono {n m : ℕ} {regs : BitVec 5 → Word} {r : BitVec 5} (h : Below n regs r)
    (hnm : n ≤ m) : Below m regs r :=
  ⟨h.x_lt.trans_le hnm, h.y_lt.trans_le hnm, h.z_lt.trans_le hnm, h.t_lt.trans_le hnm⟩

theorem Below.holdsReduced {regs : BitVec 5 → Word} {r : BitVec 5} {P : Point curve}
    (h : Below p regs r) (hP : (coords (residues regs) r).Represents P) : HoldsReduced regs r P :=
  ⟨hP, h.x_lt, h.y_lt, h.z_lt, h.t_lt⟩

theorem Ranges.Covers.lt {b : Ranges} {regs : BitVec 5 → Word} {r : BitVec 5} {n : ℕ}
    (h : b.Covers regs) (hn : 0 < n) (hr : b r = n - 1) : (regs r).toNat < n := by
  have hle := h r
  omega

/-! ## The base point -/

/-- `G_X` -/
def gX : Word := 0x216936d3cd6e53fec0a4e231fdd6dc5c692cc7609525a7b2c9562d608f25d51a

/-- `G_Y` -/
def gY : Word := 0x6666666666666666666666666666666666666666666666666666666666666658

/-- `G_T` -/
def gT : Word := 0x67875f0fd78b766566ea4e8e64abe37d20f09f80775152f56dde8ab3a5b7dda3

/-- The base point. -/
def basePoint : Point curve where
  x := fe gX
  y := fe gY
  on := by
    unfold Curve.On
    decide +kernel

/-! ## Doubling -/

/-- The registers of the point are below `2 ^ 255`, the others anything. -/
def pointRanges : Ranges := fun r => if r < 4 then 2 ^ 255 - 1 else 2 ^ 256 - 1

theorem pointRanges_covers {regs : BitVec 5 → Word} (h : Below (2 ^ 255) regs 0) :
    pointRanges.Covers regs := by
  intro r
  unfold pointRanges
  split_ifs with hr
  · have hx := h.x_lt
    have hy := h.y_lt
    have hz := h.z_lt
    have ht := h.t_lt
    have hcases : r = 0 ∨ r = 1 ∨ r = 2 ∨ r = 3 := by bv_omega
    rcases hcases with rfl | rfl | rfl | rfl
    · exact Nat.le_sub_one_of_lt hx
    · exact Nat.le_sub_one_of_lt hy
    · exact Nat.le_sub_one_of_lt hz
    · exact Nat.le_sub_one_of_lt ht
  · exact Nat.le_sub_one_of_lt (regs r).isLt

theorem fieldRun_pointDouble {F : Type*} [Field F] (v : BitVec 5 → F) :
    coords (fieldRun v (program 1)) 0 = (coords v 0).double := rfl

/-- Sequence 1 computes the doubling formulas, on any four words below `2 ^ 255`. -/
theorem pointDouble_coords {d : Datapath} (h : Below (2 ^ 255) d.regs 0) :
    d.Exact (program 1) ∧ Below p (Datapath.run true d (program 1)).regs 0 ∧
      coords (residues (Datapath.run true d (program 1)).regs) 0 =
        (coords (residues d.regs) 0).double := by
  have hcheck : pointRanges.check (program 1) = true := by decide +kernel
  obtain ⟨hex, hcov⟩ := Ranges.exact_of_check (pointRanges_covers h) hcheck
  have hlt : ∀ r, pointRanges.run (program 1) r = p - 1 →
      ((Datapath.run true d (program 1)).regs r).toNat < p := by
    intro r hr
    exact hcov.lt (by decide) hr
  have hcoords : coords (residues (Datapath.run true d (program 1)).regs) 0 =
      (coords (residues d.regs) 0).double := by
    rw [← fieldRun_pointDouble]
    exact congrArg (coords · 0) (Datapath.fe_run hex)
  refine ⟨hex, ⟨hlt 0 ?_, hlt 1 ?_, hlt 2 ?_, hlt 3 ?_⟩, hcoords⟩
  all_goals decide +kernel

/-- **Sequence 1 doubles.** -/
theorem pointDouble_holds {d : Datapath} {P : Point curve} (h : Holds d.regs 0 P) :
    d.Exact (program 1) ∧
      HoldsReduced (Datapath.run true d (program 1)).regs 0 (P.add P) := by
  obtain ⟨hex, hlt, hcoords⟩ := pointDouble_coords h.below
  refine ⟨hex, hlt.holdsReduced ?_⟩
  rw [hcoords]
  exact h.represents.double

/-! ## Addition -/

/-- The bounds of two points and of the two differences `Y - X`. -/
def sumRanges : Ranges := fun r => if r < 10 then 2 ^ 255 - 1 else 2 ^ 256 - 1

theorem fieldRun_pointAdd {F : Type*} [Field F] (v : BitVec 5 → F) {d : F} (hd : v 27 = 2 * d) :
    coords (fieldRun v (program 2)) 0 = (coords v 0).add d (coords v 4) := by
  have h : coords (fieldRun v (program 2)) 0 =
      let a := (v 1 - v 0) * (v 5 - v 4)
      let b := (v 1 + v 0) * (v 5 + v 4)
      let c := v 3 * (v 27 * v 7)
      let z := v 2 * (v 6 + v 6)
      ⟨(b - a) * (z - c), (z + c) * (b + a), (z - c) * (z + c), (b - a) * (b + a)⟩ := rfl
  rw [h, hd]
  rfl

/-- The first two rows, in the registers. -/
theorem run_differences (d : Datapath) : Datapath.run true d ((program 2).take 2) =
    ⟨Function.update (Function.update d.regs 8 (fsub (d.regs 1) (d.regs 0))) 9
      (fsub (d.regs 5) (d.regs 4)), d.xSign⟩ := rfl

theorem fsub_lt {a b : Word} (ha : a.toNat < 2 ^ 255) (h : b.toNat ≤ a.toNat + p) :
    (fsub a b).toNat < 2 ^ 255 := by
  have hp : p < 2 ^ 255 := by decide
  rw [fsub_toNat h]
  split_ifs <;> omega

theorem sumRanges_covers {d : Datapath} (hP : Below (2 ^ 255) d.regs 0)
    (hQ : Below (2 ^ 255) d.regs 4) (hx : (d.regs 0).toNat ≤ (d.regs 1).toNat + p)
    (hx' : (d.regs 4).toNat ≤ (d.regs 5).toNat + p) :
    sumRanges.Covers (Datapath.run true d ((program 2).take 2)).regs := by
  have h8 := fsub_lt hP.y_lt hx
  have h9 := fsub_lt hQ.y_lt hx'
  rw [run_differences]
  intro r
  unfold sumRanges
  split_ifs with hr
  · refine Nat.le_sub_one_of_lt ?_
    have hcases : r = 0 ∨ r = 1 ∨ r = 2 ∨ r = 3 ∨ r = 4 ∨ r = 5 ∨ r = 6 ∨ r = 7 ∨ r = 8 ∨ r = 9 := by
      bv_omega
    rcases hcases with rfl | rfl | rfl | rfl | rfl | rfl | rfl | rfl | rfl | rfl
    · exact hP.x_lt
    · exact hP.y_lt
    · exact hP.z_lt
    · exact hP.t_lt
    · exact hQ.x_lt
    · exact hQ.y_lt
    · exact hQ.z_lt
    · exact hQ.t_lt
    · exact h8
    · exact h9
  · exact Nat.le_sub_one_of_lt (BitVec.isLt _)

/-- Sequence 2 computes the addition formulas, where its first two rows are exact. -/
theorem pointAdd_coords {d : Datapath} (h27 : d.regs 27 = curve2D)
    (hP : Below (2 ^ 255) d.regs 0) (hQ : Below (2 ^ 255) d.regs 4)
    (hx : (d.regs 0).toNat ≤ (d.regs 1).toNat + p)
    (hx' : (d.regs 4).toNat ≤ (d.regs 5).toNat + p) :
    d.Exact (program 2) ∧ Below p (Datapath.run true d (program 2)).regs 0 ∧
      coords (residues (Datapath.run true d (program 2)).regs) 0 =
        (coords (residues d.regs) 0).add curve.d (coords (residues d.regs) 4) := by
  have hcheck : sumRanges.check ((program 2).drop 2) = true := by decide +kernel
  obtain ⟨hrest, hcov⟩ := Ranges.exact_of_check (sumRanges_covers hP hQ hx hx') hcheck
  have hfirst : d.Exact ((program 2).take 2) := ⟨fe_fsub hx, fe_fsub hx', trivial⟩
  have hex : d.Exact (program 2) := Datapath.exact_append hfirst hrest
  rw [← Datapath.run_append, List.take_append_drop] at hcov
  have hlt : ∀ r, sumRanges.run ((program 2).drop 2) r = p - 1 →
      ((Datapath.run true d (program 2)).regs r).toNat < p := by
    intro r hr
    exact hcov.lt (by decide) hr
  have hcoords : coords (residues (Datapath.run true d (program 2)).regs) 0 =
      (coords (residues d.regs) 0).add curve.d (coords (residues d.regs) 4) := by
    have h2d : residues d.regs 27 = 2 * curve.d := by
      rw [residues, h27]
      exact fe_curve2D
    rw [← fieldRun_pointAdd _ h2d]
    exact congrArg (coords · 0) (Datapath.fe_run hex)
  refine ⟨hex, ⟨hlt 0 ?_, hlt 1 ?_, hlt 2 ?_, hlt 3 ?_⟩, hcoords⟩
  all_goals decide +kernel

/-- **Sequence 2 adds**, where its first two rows are exact. -/
theorem pointAdd_holds {d : Datapath} {P Q : Point curve} (h27 : d.regs 27 = curve2D)
    (hP : Holds d.regs 0 P) (hQ : Holds d.regs 4 Q)
    (hx : (d.regs 0).toNat ≤ (d.regs 1).toNat + p)
    (hx' : (d.regs 4).toNat ≤ (d.regs 5).toNat + p) :
    d.Exact (program 2) ∧
      HoldsReduced (Datapath.run true d (program 2)).regs 0 (P.add Q) := by
  obtain ⟨hex, hlt, hcoords⟩ := pointAdd_coords h27 hP.below hQ.below hx hx'
  refine ⟨hex, hlt.holdsReduced ?_⟩
  rw [hcoords]
  exact hP.represents.add hQ.represents

/-- The registers that the point sequences leave alone. -/
theorem point_frame (d : Datapath) {r : BitVec 5} (hr : (4 ≤ r ∧ r < 8) ∨ 15 ≤ r) :
    (Datapath.run true d (program 1)).regs r = d.regs r ∧
      (Datapath.run true d (program 2)).regs r = d.regs r := by
  have key : ∀ r : BitVec 5, (4 ≤ r ∧ r < 8) ∨ 15 ≤ r →
      (∀ op ∈ program 1, r ≠ op.destSel) ∧ ∀ op ∈ program 2, r ≠ op.destSel := by decide
  exact ⟨Datapath.frame (key r hr).1, Datapath.frame (key r hr).2⟩

/-- **The point sequences**, on every pair of points.  Sequence 1 doubles whatever words hold the
    point; sequence 2 adds where neither `X` exceeds `Y` by more than `p`. -/
theorem point_sequences (d : Datapath) (P Q : Point curve) (h27 : d.regs 27 = curve2D)
    (hP : Holds d.regs 0 P) (hQ : Holds d.regs 4 Q) :
    (HoldsReduced (Datapath.run (modPEn 1) d (program 1)).regs 0 (P.add P) ∧
        d.Exact (program 1)) ∧
      ((d.regs 0).toNat ≤ (d.regs 1).toNat + p → (d.regs 4).toNat ≤ (d.regs 5).toNat + p →
        HoldsReduced (Datapath.run (modPEn 2) d (program 2)).regs 0 (P.add Q) ∧
          d.Exact (program 2)) ∧
      ∀ r : BitVec 5, (4 ≤ r ∧ r < 8) ∨ 15 ≤ r →
        (Datapath.run (modPEn 1) d (program 1)).regs r = d.regs r ∧
          (Datapath.run (modPEn 2) d (program 2)).regs r = d.regs r := by
  obtain ⟨hex, hdbl⟩ := pointDouble_holds hP
  refine ⟨⟨hdbl, hex⟩, fun hx hx' => ?_, fun r hr => point_frame d hr⟩
  obtain ⟨hex', hadd⟩ := pointAdd_holds h27 hP hQ hx hx'
  exact ⟨hadd, hex'⟩

/-- Registers that hold the base point twice. -/
def twoBasePoints : Datapath where
  regs r :=
    if r = 0 ∨ r = 4 then gX else if r = 1 ∨ r = 5 then gY else if r = 2 ∨ r = 6 then 1
    else if r = 3 ∨ r = 7 then gT else if r = 27 then curve2D else 0
  xSign := false

theorem twoBasePoints_holds : Holds twoBasePoints.regs 0 basePoint where
  represents := ⟨by decide +kernel, by decide +kernel, by decide +kernel, by decide +kernel⟩
  x_lt := by decide
  y_lt := by decide
  z_lt := by decide
  t_lt := by decide

theorem point_sequences_twoBasePoints :
    HoldsReduced (Datapath.run (modPEn 1) twoBasePoints (program 1)).regs 0
        (basePoint.add basePoint) ∧
      HoldsReduced (Datapath.run (modPEn 2) twoBasePoints (program 2)).regs 0
        (basePoint.add basePoint) := by
  have h4 : Holds twoBasePoints.regs 4 basePoint :=
    ⟨twoBasePoints_holds.represents, by decide, by decide, by decide, by decide⟩
  obtain ⟨hdbl, hadd, -⟩ :=
    point_sequences twoBasePoints basePoint basePoint rfl twoBasePoints_holds h4
  exact ⟨hdbl.1, (hadd (by decide) (by decide)).1⟩

/-- A point of order four. -/
def torsionPoint : Point curve where
  x := -fe sqrtM1
  y := 0
  on := by
    unfold Curve.On
    decide +kernel

/-- The point of order four with `X = p + 1` and `Y = 0`, and the neutral point. -/
def unreducedTorsion : Datapath where
  regs r :=
    if r = 0 then primeP + 1 else if r = 2 then sqrtM1 else if r = 5 ∨ r = 6 then 1
    else if r = 27 then curve2D else 0
  xSign := false

theorem unreducedTorsion_holds :
    Holds unreducedTorsion.regs 0 torsionPoint ∧ Holds unreducedTorsion.regs 4 Point.neutral := by
  refine ⟨⟨⟨?_, ?_, ?_, ?_⟩, ?_, ?_, ?_, ?_⟩, ⟨⟨?_, ?_, ?_, ?_⟩, ?_, ?_, ?_, ?_⟩⟩
  all_goals decide +kernel

/-- The first row of the addition is off by `2 ^ 256` there, and so is the sum. -/
theorem pointAdd_unreducedTorsion :
    unreducedTorsion.regs 27 = curve2D ∧ Holds unreducedTorsion.regs 0 torsionPoint ∧
      Holds unreducedTorsion.regs 4 Point.neutral ∧
      ¬ (coords (residues (Datapath.run (modPEn 2) unreducedTorsion (program 2)).regs) 0).Represents
        (torsionPoint.add Point.neutral) ∧
      ¬ unreducedTorsion.Exact (program 2) := by
  refine ⟨rfl, unreducedTorsion_holds.1, unreducedTorsion_holds.2, ?_, ?_⟩
  · intro h
    have hx := h.x_eq
    have hne : fe ((Datapath.run (modPEn 2) unreducedTorsion (program 2)).regs 0) ≠
        -fe sqrtM1 * fe ((Datapath.run (modPEn 2) unreducedTorsion (program 2)).regs 2) := by
      decide +kernel
    have hadd : (torsionPoint.add Point.neutral).x = -fe sqrtM1 := by
      simp [torsionPoint, Point.neutral]
    rw [hadd] at hx
    exact hne hx
  · intro h
    have hne : ¬ (MicroOp.row 1 0 .subRaw 8).Exact unreducedTorsion.regs false := by
      unfold MicroOp.Exact
      decide +kernel
    exact hne h.1

end SentinelSoc
