/-
  The microcode of the Ed25519 core (the ROM in `micro_seq.sv`) and what it does
  to the register file.

  * `program`, `modPEn`: the rows of each sequence, in order; the row flagged
    `rom_is_last_step` is the last one;
  * `Datapath.exec`: one row, `Datapath.run`: a sequence;
  * `Datapath.frame`: registers that no row writes keep their word.
-/
import SentinelSoc.Ed.Alu

namespace SentinelSoc

/-- A row of the ROM. -/
structure MicroOp where
  aSel : BitVec 5
  bSel : BitVec 5
  aluOp : AluOp
  destSel : BitVec 5
  selHi : Bool
  deriving DecidableEq, Repr

namespace MicroOp

/-- A row with `sel_hi = 0`. -/
def row (a b : BitVec 5) (op : AluOp) (dest : BitVec 5) : MicroOp := ⟨a, b, op, dest, false⟩

/-- A row that takes the high half of the product. -/
def rowHi (a b : BitVec 5) (op : AluOp) (dest : BitVec 5) : MicroOp := ⟨a, b, op, dest, true⟩

end MicroOp

namespace Microcode

open MicroOp

/-- `BARRETT REDUCTION` -/
def barrett : List MicroOp :=
  [row 9 10 .mult 15, rowHi 9 12 .mult 13, row 15 13 .add 15, rowHi 8 10 .mult 13, row 15 13 .add 9,
    row 9 11 .mult 15, row 8 15 .subRaw 15, row 15 11 .subCnd 15, row 15 11 .subCnd 15,
    row 15 11 .subCnd 16]

/-- `POINT DOUBLING` -/
def pointDouble : List MicroOp :=
  [row 0 0 .mult 8, row 1 1 .mult 9, row 2 2 .mult 10, row 10 10 .add 10, row 0 1 .add 11,
    row 11 11 .mult 11, row 8 9 .add 12, row 11 12 .subRaw 11, row 9 8 .subRaw 13,
    row 10 13 .subRaw 14, row 11 14 .mult 0, row 13 12 .mult 1, row 11 12 .mult 3, row 14 13 .mult 2]

/-- `POINT ADDITION` -/
def pointAdd : List MicroOp :=
  [row 1 0 .subRaw 8, row 5 4 .subRaw 9, row 8 9 .mult 8, row 1 0 .add 9, row 5 4 .add 10,
    row 9 10 .mult 9, row 27 7 .mult 10, row 3 10 .mult 10, row 6 6 .add 11, row 2 11 .mult 11,
    row 9 8 .subRaw 12, row 9 8 .add 8, row 11 10 .subRaw 13, row 11 10 .add 14, row 12 13 .mult 0,
    row 14 8 .mult 1, row 12 8 .mult 3, row 13 14 .mult 2]

/-- `INIT NEUTRAL POINT` -/
def initNeutral : List MicroOp :=
  [row 24 0 .pass 0, row 25 0 .pass 1, row 25 0 .pass 2, row 24 0 .pass 3]

/-- `EXPORT SCALAR S` -/
def exportS : List MicroOp := [row 23 0 .pass 23]

/-- `SAVE P1` -/
def saveP1 : List MicroOp := [row 0 0 .pass 17, row 1 0 .pass 18, row 2 0 .pass 19]

/-- `CALC UV` -/
def calcUv : List MicroOp :=
  [row 8 8 .mult 9, row 9 25 .subRaw 15, row 26 9 .mult 9, row 9 25 .add 10]

/-- `INIT EXP ENGINE` -/
def initExp : List MicroOp := [row 10 0 .pass 12, row 25 0 .pass 11]

/-- `EXP SQUARE` -/
def expSquare : List MicroOp := [row 11 11 .mult 11]

/-- `EXP MULT BASE` -/
def expMult : List MicroOp := [row 11 12 .mult 11]

/-- `CALC XSQ` -/
def calcXsq : List MicroOp := [row 15 11 .mult 13]

/-- `LOAD PUBKEY TO PORT` -/
def loadPubkey : List MicroOp := [row 21 0 .loadCompressed 8]

/-- `LOAD R TO PORT` -/
def loadR : List MicroOp := [row 20 0 .loadCompressed 8]

/-- `INIT EXP ENGINE FOR XSQ` -/
def initExpXsq : List MicroOp := [row 13 0 .pass 12, row 25 0 .pass 11]

/-- `FUDGE CHECK` -/
def fudgeCheck : List MicroOp := [row 11 11 .mult 14, row 14 13 .cmp 14]

/-- `MULT SQRTM1` -/
def multSqrtM1 : List MicroOp := [row 11 28 .mult 11]

/-- `FIX X SIGN` -/
def fixSign : List MicroOp := [row 11 0 .condNegate 11]

/-- `PACK POINT` -/
def packPoint : List MicroOp :=
  [row 11 0 .pass 0, row 8 0 .pass 1, row 25 0 .pass 2, row 11 8 .mult 3]

/-- `SAVE R` -/
def saveR : List MicroOp := [row 0 0 .pass 20, row 1 0 .pass 21, row 2 0 .pass 22, row 3 0 .pass 23]

/-- `LOAD A TO BASE` -/
def loadABase : List MicroOp := [row 0 0 .pass 4, row 1 0 .pass 5, row 2 0 .pass 6, row 3 0 .pass 7]

/-- `LOAD R TO BASE` -/
def loadRBase : List MicroOp :=
  [row 20 0 .pass 4, row 21 0 .pass 5, row 22 0 .pass 6, row 23 0 .pass 7]

/-- `VERIFY X` -/
def verifyX : List MicroOp := [row 17 2 .mult 14, row 0 19 .mult 15, row 14 15 .cmp 14]

/-- `VERIFY Y` -/
def verifyY : List MicroOp := [row 18 2 .mult 14, row 1 19 .mult 15, row 14 15 .cmp 14]

/-- `EXPORT H SCALAR` -/
def exportH : List MicroOp := [row 16 0 .pass 16]

/-- The rows of a sequence. -/
def program (seqId : BitVec 5) : List MicroOp :=
  match seqId.toNat with
  | 0 => barrett
  | 1 => pointDouble
  | 2 => pointAdd
  | 3 => initNeutral
  | 4 => exportS
  | 5 => saveP1
  | 6 => calcUv
  | 7 => initExp
  | 8 => expSquare
  | 9 => expMult
  | 10 => calcXsq
  | 11 => loadPubkey
  | 12 => loadR
  | 13 => initExpXsq
  | 14 => fudgeCheck
  | 15 => multSqrtM1
  | 16 => fixSign
  | 17 => packPoint
  | 18 => saveR
  | 19 => loadABase
  | 20 => loadRBase
  | 21 => verifyX
  | 22 => verifyY
  | 23 => exportH
  | _ => []

/-- `mod_p_en` -/
def modPEn (seqId : BitVec 5) : Bool :=
  match seqId.toNat with
  | 1 | 2 | 6 | 8 | 9 | 10 | 14 | 15 | 17 | 21 | 22 => true
  | _ => false

/-- What the ROM drives for a value of `step_counter`. -/
def rom (seqId : BitVec 5) (stepCounter : BitVec 6) : MicroOp :=
  (program seqId).getD stepCounter.toNat (row 0 0 .pass 0)

/-- `rom_is_last_step` -/
def romIsLastStep (seqId : BitVec 5) (stepCounter : BitVec 6) : Bool :=
  decide ((program seqId).length ≤ stepCounter.toNat + 1)

end Microcode

/-! ## What the rows do -/

/-- The register file and the sign register. -/
structure Datapath where
  regs : BitVec 5 → Word
  xSign : Bool

namespace MicroOp

/-- The word that a row writes. -/
def value (op : MicroOp) (modPEn : Bool) (d : Datapath) : Word :=
  (alu (d.regs op.aSel) (d.regs op.bSel) (mulFull (d.regs op.aSel) (d.regs op.bSel)) op.aluOp
    op.selHi modPEn d.xSign).aluResult

end MicroOp

namespace Datapath

variable (modPEn : Bool) (d : Datapath)

/-- One row. -/
def exec (op : MicroOp) : Datapath where
  regs := Function.update d.regs op.destSel (op.value modPEn d)
  xSign := if op.aluOp = .loadCompressed then (d.regs op.aSel).getLsbD 255 else d.xSign

/-- A sequence. -/
def run (ops : List MicroOp) : Datapath := ops.foldl (exec modPEn) d

/-- The writes of a sequence, in order. -/
def writes : Datapath → List MicroOp → List (BitVec 5 × Word)
  | _, [] => []
  | d, op :: ops => (op.destSel, op.value modPEn d) :: writes (d.exec modPEn op) ops

variable {modPEn d}

@[simp] theorem run_nil : run modPEn d [] = d := rfl

@[simp] theorem run_cons (op : MicroOp) (ops : List MicroOp) :
    run modPEn d (op :: ops) = run modPEn (d.exec modPEn op) ops := rfl

theorem run_append (ops ops' : List MicroOp) :
    run modPEn d (ops ++ ops') = run modPEn (run modPEn d ops) ops' := List.foldl_append

theorem exec_regs_of_ne {op : MicroOp} {r : BitVec 5} (h : r ≠ op.destSel) :
    (d.exec modPEn op).regs r = d.regs r := Function.update_of_ne h _ _

theorem exec_regs_dest {op : MicroOp} :
    (d.exec modPEn op).regs op.destSel = op.value modPEn d := Function.update_self _ _ _

/-- **Registers that no row writes keep their word.** -/
theorem frame {ops : List MicroOp} {r : BitVec 5} (h : ∀ op ∈ ops, r ≠ op.destSel) :
    (run modPEn d ops).regs r = d.regs r := by
  induction ops generalizing d with
  | nil => rfl
  | cons op ops ih =>
    rw [run_cons, ih fun o ho => h o (List.mem_cons_of_mem _ ho),
      exec_regs_of_ne (h op List.mem_cons_self)]

end Datapath

end SentinelSoc
