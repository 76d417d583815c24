/-
  The instruction decoder (RV32I with the fast multiplier, no bit manipulation,
  no branch target ALU).

  * `Decoder.illegal`: the words that are not instructions;
  * `decode`: the control signals of a word, in the first cycle and after it.
-/
import SentinelSoc.Dift.Policy

namespace SentinelSoc

/-- `op_a_sel_e` -/
inductive OpASel
  | regA
  | fwd
  | currPc
  | imm
  deriving DecidableEq

/-- `op_b_sel_e` -/
inductive OpBSel
  | regB
  | imm
  deriving DecidableEq

/-- What the decoder drives, as far as control and tags depend on it. -/
structure Decoded where
  illegalInsn : Bool
  ebrkInsn : Bool
  mretInsn : Bool
  dretInsn : Bool
  ecallInsn : Bool
  wfiInsn : Bool
  jumpSet : Bool
  jumpInDec : Bool
  branchInDec : Bool
  rfWe : Bool
  rfRenA : Bool
  rfRenB : Bool
  opASel : OpASel
  opBSel : OpBSel
  multEn : Bool
  divEn : Bool
  /-- `mult_sel_o | div_sel_o` -/
  multdivSel : Bool
  csrAccess : Bool
  /-- `csr_op_o` is not a read. -/
  csrWr : Bool
  dataReq : Bool
  dataWe : Bool
  dataType : BitVec 2

namespace Decoder

open Instr

/-- The immediate field of a system instruction, or the address of a CSR. -/
def funct12 (w : BitVec 32) : BitVec 12 := w.extractLsb' 20 12

/-- `illegal_insn`, without the illegal compressed words. -/
def illegal (w : BitVec 32) : Bool :=
  match opcode w with
  | .jal | .lui | .auipc => false
  | .jalr => funct3 w != 0
  | .branch => funct3 w == 2 || funct3 w == 3
  | .store => funct3 w != 0 && funct3 w != 1 && funct3 w != 2
  | .load => funct3 w == 3 || funct3 w == 6 || funct3 w == 7
  | .opImm =>
    if funct3 w = 1 then funct7 w != 0
    else if funct3 w = 5 then funct7 w != 0 && funct7 w != 0x20
    else false
  | .op => funct7 w != 0 && funct7 w != 1 && (funct7 w != 0x20 || funct3 w != 0 && funct3 w != 5)
  | .miscMem => funct3 w != 0 && funct3 w != 1
  | .system =>
    if funct3 w = 0 then
      rs1 w != 0 || rd w != 0 || (funct12 w != 0 && funct12 w != 1 && funct12 w != 0x302 &&
        funct12 w != 0x7b2 && funct12 w != 0x105)
    else funct3 w == 4
  | .other => true

/-- A system instruction that is not about a CSR. -/
def sys (w : BitVec 32) (imm : BitVec 12) : Bool :=
  opcode w == .system && funct3 w == 0 && funct12 w == imm

/-- The operand multiplexers. -/
def opSel (w : BitVec 32) (firstCycle : Bool) : OpASel × OpBSel :=
  match opcode w with
  | .jal => (.currPc, .imm)
  | .jalr => (if firstCycle then .regA else .currPc, .imm)
  | .branch => if firstCycle then (.regA, .regB) else (.currPc, .imm)
  | .store => (.regA, if (funct3 w).getLsbD 2 then .regB else .imm)
  | .load => (.regA, .imm)
  | .lui => (.imm, .imm)
  | .auipc => (.currPc, .imm)
  | .opImm => (.regA, .imm)
  | .op => (.regA, .regB)
  | .miscMem => if funct3 w = 0 then (.regA, .imm) else if funct3 w = 1 then (.currPc, .imm)
      else (.imm, .imm)
  | .system => (if funct3 w = 0 then .regA else if (funct3 w).getLsbD 2 then .imm else .regA, .imm)
  | .other => (.imm, .imm)

/-- The register write enable of a legal word: a jump writes in its second cycle. -/
def rfWe (w : BitVec 32) (firstCycle : Bool) : Bool :=
  match opcode w with
  | .jal | .jalr => !firstCycle
  | .lui | .auipc | .opImm | .op => true
  | .system => funct3 w != 0
  | .branch | .store | .load | .miscMem | .other => false

def rfRenA (w : BitVec 32) : Bool :=
  match opcode w with
  | .jalr | .branch | .store | .load | .opImm | .op => true
  | .system => funct3 w != 0 && !(funct3 w).getLsbD 2
  | .jal | .lui | .auipc | .miscMem | .other => false

def rfRenB (w : BitVec 32) : Bool :=
  match opcode w with
  | .branch | .store | .op => true
  | _ => false

/-- `data_type_o`: word, half word or byte. -/
def dataType (w : BitVec 32) : BitVec 2 :=
  if opcode w = .store ∨ opcode w = .load then
    if (funct3 w).extractLsb' 0 2 = 0 then 2 else if (funct3 w).extractLsb' 0 2 = 1 then 1 else 0
  else 0

def multdivSel (w : BitVec 32) : Bool := opcode w == .op && funct7 w == 1

/-- A set or a clear with `x0` only reads. -/
def csrWr (w : BitVec 32) : Bool :=
  opcode w == .system && ((funct3 w).extractLsb' 0 2 == 1 ||
    ((funct3 w).extractLsb' 0 2 == 2 || (funct3 w).extractLsb' 0 2 == 3) && rs1 w != 0)

end Decoder

open Instr Decoder in
/-- `ibex_decoder` -/
def decode (w : BitVec 32) (illegalC firstCycle : Bool) : Decoded :=
  let bad := illegal w || illegalC
  let fencei := opcode w == .miscMem && funct3 w == 1
  let jump := opcode w == .jal || opcode w == .jalr || fencei
  { illegalInsn := bad
    ebrkInsn := sys w 1
    mretInsn := sys w 0x302
    dretInsn := sys w 0x7b2
    ecallInsn := sys w 0
    wfiInsn := sys w 0x105
    jumpSet := jump && firstCycle && !bad
    jumpInDec := jump && !bad
    branchInDec := opcode w == .branch && !bad
    rfWe := Decoder.rfWe w firstCycle && !bad
    rfRenA := Decoder.rfRenA w
    rfRenB := Decoder.rfRenB w
    opASel := (opSel w firstCycle).1
    opBSel := (opSel w firstCycle).2
    multEn := multdivSel w && !(funct3 w).getLsbD 2 && !bad
    divEn := multdivSel w && (funct3 w).getLsbD 2 && !bad
    multdivSel := multdivSel w
    csrAccess := opcode w == .system && funct3 w != 0 && !bad
    csrWr := Decoder.csrWr w
    dataReq := (opcode w == .store || opcode w == .load) && !bad
    dataWe := opcode w == .store && !bad
    dataType := Decoder.dataType w }

end SentinelSoc
