/-
  The microcode on residues modulo `p`.

  * `curve`: the curve of the words that the host loads;
  * `fe`: the residue of a word; `MicroOp.fieldValue`, `fieldRun`: the rows on residues;
  * `MicroOp.Exact`: the word that a row writes has the residue that the row computes;
    `Datapath.fe_run`: of a sequence of such rows, `fieldRun` gives the residues;
  * `Ranges.check`: bounds of the registers under which every row is exact, checked row by
    row (`Ranges.exact_of_check`).
-/
import Mathlib.NumberTheory.LegendreSymbol.Basic
import SentinelSoc.Lib.Edwards
import SentinelSoc.Ed.Microcode
import SentinelSoc.Ed.Prime

namespace SentinelSoc

/-! ## Residues of words -/

/-- The residue of a word. -/
def fe (w : Word) : ZMod p := (w.toNat : ZMod p)

theorem fe_eq_iff {a b : Word} : fe a = fe b ↔ a.toNat % p = b.toNat % p :=
  ZMod.natCast_eq_natCast_iff' _ _ _

/-- Words below `p` are equal if their residues are. -/
theorem eq_of_fe_eq {a b : Word} (ha : a.toNat < p) (hb : b.toNat < p) (h : fe a = fe b) :
    a = b := by
  rw [fe_eq_iff, Nat.mod_eq_of_lt ha, Nat.mod_eq_of_lt hb] at h
  exact BitVec.eq_of_toNat_eq h

theorem fe_fmul (a b : Word) : fe (fmul a b) = fe a * fe b := by
  rw [fe, fmul_toNat, ZMod.natCast_mod, Nat.cast_mul, fe, fe]

theorem fmul_lt (a b : Word) : (fmul a b).toNat < p := by
  rw [fmul_toNat]
  exact Nat.mod_lt _ (by decide)

theorem fe_fadd {a b : Word} (h : a.toNat + b.toNat < 2 ^ 256 + p) :
    fe (fadd a b) = fe a + fe b := by
  rw [fe, fadd_toNat h, fe, fe, ← Nat.cast_add]
  split_ifs with hp
  · rw [Nat.cast_sub hp, ZMod.natCast_self, sub_zero]
  · rfl

theorem fe_fsub {a b : Word} (h : b.toNat ≤ a.toNat + p) : fe (fsub a b) = fe a - fe b := by
  rw [fe, fsub_toNat h, fe, fe]
  split_ifs with hp
  · rw [Nat.cast_sub hp]
  · rw [Nat.cast_sub h, Nat.cast_add, ZMod.natCast_self, add_zero]

/-! ## The curve -/

/-- `CURVE_D` -/
def curveD : Word := 0x52036cee2b6ffe738cc740797779e89800700a4d4141d8ab75eb4dca135978a3

/-- `CURVE_2D` -/
def curve2D : Word := 0x2406d9dc56dffce7198e80f2eef3d13000e0149a8283b156ebd69b9426b2f159

/-- `SQRT_M1` -/
def sqrtM1 : Word := 0x2b8324804fc1df0b2b4d00993dfbd7a72f431806ad2fe478c4ee1b274a0ea0b0

theorem fe_curve2D : fe curve2D = 2 * fe curveD := by
  have h : curve2D.toNat % p = 2 * curveD.toNat % p := by decide +kernel
  have h2 := (ZMod.natCast_eq_natCast_iff' _ _ p).2 h
  rw [Nat.cast_mul] at h2
  exact h2

theorem fe_sqrtM1_sq : fe sqrtM1 ^ 2 = -1 := by
  have h : (sqrtM1.toNat * sqrtM1.toNat + 1) % p = 0 % p := by decide +kernel
  have h2 := (ZMod.natCast_eq_natCast_iff' _ _ p).2 h
  push_cast at h2
  rw [sq]
  exact eq_neg_of_add_eq_zero_left h2

theorem not_isSquare_curveD : ¬ IsSquare (fe curveD) := by
  have hd : fe curveD =
      37095705934669439343138083508754565189542113879843219016388785533085940283555 := rfl
  have h0 : fe curveD ≠ 0 := by rw [hd]; decide +kernel
  rw [ZMod.euler_criterion p h0, hd]
  norm_num
  reduce_mod_char
  decide +kernel

/-- The curve of the words that the host loads. -/
def curve : Edwards.Curve (ZMod p) where
  d := fe curveD
  i := fe sqrtM1
  i_sq := fe_sqrtM1_sq
  not_isSquare_d := not_isSquare_curveD
  two_ne_zero := by decide +kernel

/-! ## The rows on residues -/

namespace MicroOp

/-- The row on residues; the rows of the point sequences add, subtract, multiply and move. -/
def fieldValue {F : Type*} [Add F] [Sub F] [Mul F] (op : MicroOp) (v : BitVec 5 → F) : F :=
  match op.aluOp with
  | .add => v op.aSel + v op.bSel
  | .subRaw => v op.aSel - v op.bSel
  | .mult => v op.aSel * v op.bSel
  | .subCnd | .cmp | .pass | .loadCompressed | .condNegate => v op.aSel

/-- The word that the row writes has the residue that the row computes. -/
def Exact (op : MicroOp) (regs : BitVec 5 → Word) (x : Bool) : Prop :=
  fe (op.value true ⟨regs, x⟩) = op.fieldValue fun r => fe (regs r)

end MicroOp

/-- A sequence on residues. -/
def fieldRun {F : Type*} [Add F] [Sub F] [Mul F] (v : BitVec 5 → F) (ops : List MicroOp) :
    BitVec 5 → F :=
  ops.foldl (fun v op => Function.update v op.destSel (op.fieldValue v)) v

namespace Datapath

/-- No row of the sequence loses information. -/
def Exact : Datapath → List MicroOp → Prop
  | _, [] => True
  | d, op :: ops => op.Exact d.regs d.xSign ∧ Exact (d.exec true op) ops

theorem exact_append {d : Datapath} {ops ops' : List MicroOp} (h : d.Exact ops)
    (h' : (run true d ops).Exact ops') : d.Exact (ops ++ ops') := by
  induction ops generalizing d with
  | nil => exact h'
  | cons op ops ih => exact ⟨h.1, ih h.2 h'⟩

/-- **Exact rows compute on residues.** -/
theorem fe_run {d : Datapath} {ops : List MicroOp} (h : d.Exact ops) :
    (fun r => fe ((run true d ops).regs r)) = fieldRun (fun r => fe (d.regs r)) ops := by
  induction ops generalizing d with
  | nil => rfl
  | cons op ops ih =>
    rw [run_cons, ih h.2]
    have hv : fe (op.value true d) = op.fieldValue fun r => fe (d.regs r) := h.1
    have hregs : (fun r => fe ((d.exec true op).regs r)) =
        Function.update (fun r => fe (d.regs r)) op.destSel
          (op.fieldValue fun r => fe (d.regs r)) := by
      funext r
      rw [exec, ← hv]
      exact Function.apply_update (fun _ w => fe w) _ _ _ _
    rw [hregs]
    rfl

end Datapath

/-! ## Ranges -/

/-- Upper bounds of the registers. -/
abbrev Ranges := BitVec 5 → ℕ

namespace Ranges

variable {b : Ranges} {op : MicroOp} {ops : List MicroOp} {d : Datapath}

/-- The registers are within the bounds. -/
def Covers (b : Ranges) (regs : BitVec 5 → Word) : Prop := ∀ r, (regs r).toNat ≤ b r

/-- The bounds under which a row is exact. -/
def admits (b : Ranges) (op : MicroOp) : Bool :=
  match op.aluOp with
  | .add => decide (b op.aSel + b op.bSel < 2 ^ 256 + p)
  | .subRaw => decide (b op.bSel ≤ p)
  | .mult | .pass | .cmp => true
  | .subCnd | .loadCompressed | .condNegate => false

/-- The bound of what a row writes. -/
def result (b : Ranges) (op : MicroOp) : ℕ :=
  match op.aluOp with
  | .add => max (p - 1) (b op.aSel + b op.bSel - p)
  | .subRaw => max (p - 1) (b op.aSel)
  | .mult => p - 1
  | .subCnd | .cmp | .pass | .loadCompressed | .condNegate => b op.aSel

def exec (b : Ranges) (op : MicroOp) : Ranges := Function.update b op.destSel (b.result op)

/-- Every row of the sequence is exact within the bounds. -/
def check : Ranges → List MicroOp → Bool
  | _, [] => true
  | b, op :: ops => b.admits op && check (b.exec op) ops

theorem exact_of_admits {regs : BitVec 5 → Word} {x : Bool} (h : b.Covers regs)
    (ha : b.admits op = true) :
    op.Exact regs x ∧ (op.value true ⟨regs, x⟩).toNat ≤ b.result op := by
  have h₁ := h op.aSel
  have h₂ := h op.bSel
  have hp : 0 < p := by decide
  obtain ⟨a, c, aluOp, dest, selHi⟩ := op
  unfold admits at ha
  cases aluOp with
  | add =>
    have ha : b a + b c < 2 ^ 256 + p := of_decide_eq_true ha
    have hs : (regs a).toNat + (regs c).toNat < 2 ^ 256 + p := by
      dsimp only at h₁ h₂
      omega
    refine ⟨fe_fadd hs, ?_⟩
    change (fadd (regs a) (regs c)).toNat ≤ max (p - 1) (b a + b c - p)
    dsimp only at h₁ h₂
    rw [fadd_toNat hs]
    split_ifs <;> omega
  | subRaw =>
    have ha : b c ≤ p := of_decide_eq_true ha
    have hs : (regs c).toNat ≤ (regs a).toNat + p := by
      dsimp only at h₂
      omega
    refine ⟨fe_fsub hs, ?_⟩
    change (fsub (regs a) (regs c)).toNat ≤ max (p - 1) (b a)
    dsimp only at h₁ h₂
    rw [fsub_toNat hs]
    split_ifs <;> omega
  | mult =>
    refine ⟨fe_fmul _ _, ?_⟩
    exact Nat.le_sub_one_of_lt (fmul_lt _ _)
  | pass => exact ⟨rfl, h₁⟩
  | cmp => exact ⟨rfl, h₁⟩
  | subCnd => exact absurd ha (by simp)
  | loadCompressed => exact absurd ha (by simp)
  | condNegate => exact absurd ha (by simp)

/-- The bounds after a sequence. -/
def run (b : Ranges) (ops : List MicroOp) : Ranges := ops.foldl exec b

theorem covers_exec (h : b.Covers d.regs) (ha : b.admits op = true) :
    (b.exec op).Covers (d.exec true op).regs := by
  intro r
  by_cases hr : r = op.destSel
  · rw [hr, Datapath.exec_regs_dest, exec, Function.update_self]
    exact (exact_of_admits h ha).2
  · rw [Datapath.exec_regs_of_ne hr, exec, Function.update_of_ne hr]
    exact h r

/-- **A sequence that passes the check loses no information.** -/
theorem exact_of_check (h : b.Covers d.regs) (hc : b.check ops = true) :
    d.Exact ops ∧ (b.run ops).Covers (Datapath.run true d ops).regs := by
  induction ops generalizing b d with
  | nil => exact ⟨trivial, h⟩
  | cons op ops ih =>
    rw [check, Bool.and_eq_true] at hc
    obtain ⟨hex, hcov⟩ := ih (covers_exec h hc.1) hc.2
    exact ⟨⟨(exact_of_admits h hc.1).1, hex⟩, hcov⟩

end Ranges

end SentinelSoc
