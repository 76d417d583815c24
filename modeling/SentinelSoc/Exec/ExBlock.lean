/-
  The execute stage: the fast multiplier and divider (`ibex_multdiv_fast.sv`) beside the
  ALU, whose adder the divider uses (`ibex_ex_block.sv`).

  * `ExBlock`: the registers, with the intermediate values that `ibex_id_stage.sv` keeps;
  * `ExIn.aluOperator`, `multdivOperator`: the operators of an instruction word, as
    `ibex_decoder.sv` has them;
  * `ExBlock.step`, `multdivResult`, `resultEx`, `exValid`: the code.
-/
import SentinelSoc.Core.Decoder
import SentinelSoc.Exec.Alu

namespace SentinelSoc

/-- `md_op_e` -/
inductive MdOp
  | mull
  | mulh
  | div
  | rem
  deriving DecidableEq

/-- `mult_fsm_e` -/
inductive MultFsm
  | albl
  | albh
  | ahbl
  | ahbh
  deriving DecidableEq

/-- `md_fsm_e` -/
inductive MdFsm
  | idle
  | absA
  | absB
  | comp
  | last
  | changeSign
  | finish
  deriving DecidableEq

structure ExBlock where
  multStateQ : MultFsm
  mdStateQ : MdFsm
  divCounterQ : BitVec 5
  opNumeratorQ : BitVec 32
  opQuotientQ : BitVec 32
  divByZeroQ : Bool
  /-- `imd_val_q` -/
  imdVal0Q : BitVec 34
  imdVal1Q : BitVec 34

/-- The inputs of one cycle: the instruction in ID with its operands, and whether it executes. -/
structure ExIn where
  instr : BitVec 32
  illegalC : Bool
  instrFirstCycle : Bool
  instrExecuting : Bool
  operandA : BitVec 32
  operandB : BitVec 32
  multdivReadyId : Bool
  dataIndTiming : Bool

/-! ## The operators of an instruction -/

namespace Decoder

open Instr

/-- `alu_operator_o` of the register-register instructions; `alu_op_e` has `SLTU` for all words
    that need no other. -/
def aluOperatorOp (w : BitVec 32) : IbexAluOp :=
  if w.getLsbD 26 then .sltu
  else if funct7 w = 0 then
    if funct3 w = 0 then .add
    else if funct3 w = 2 then .slt
    else if funct3 w = 3 then .sltu
    else if funct3 w = 4 then .xor
    else if funct3 w = 6 then .or
    else if funct3 w = 7 then .and
    else if funct3 w = 1 then .sll
    else .srl
  else if funct7 w = 0x20 then
    if funct3 w = 0 then .sub else if funct3 w = 5 then .sra else .sltu
  else if funct7 w = 1 then .add
  else .sltu

def aluOperatorOpImm (w : BitVec 32) : IbexAluOp :=
  if funct3 w = 0 then .add
  else if funct3 w = 2 then .slt
  else if funct3 w = 3 then .sltu
  else if funct3 w = 4 then .xor
  else if funct3 w = 6 then .or
  else if funct3 w = 7 then .and
  else if funct3 w = 1 then .sll
  else if w.extractLsb' 27 5 = 0 then .srl
  else if w.extractLsb' 27 5 = 8 then .sra
  else .sltu

def aluOperatorBranch (w : BitVec 32) : IbexAluOp :=
  if funct3 w = 0 then .eq
  else if funct3 w = 1 then .ne
  else if funct3 w = 4 then .lt
  else if funct3 w = 5 then .ge
  else if funct3 w = 6 then .ltu
  else if funct3 w = 7 then .geu
  else .sltu

/-- `alu_operator_o` -/
def aluOperator (w : BitVec 32) (firstCycle : Bool) : IbexAluOp :=
  match opcode w with
  | .jal | .jalr | .store | .load | .lui | .auipc => .add
  | .branch => if firstCycle then aluOperatorBranch w else .add
  | .opImm => aluOperatorOpImm w
  | .op => aluOperatorOp w
  | .miscMem => if funct3 w = 0 ∨ funct3 w = 1 then .add else .sltu
  | .system | .other => .sltu

/-- `multdiv_operator_o` and `multdiv_signed_mode_o` -/
def multdivOp (w : BitVec 32) : MdOp × BitVec 2 :=
  if opcode w = .op ∧ funct7 w = 1 then
    if funct3 w = 0 then (.mull, 0)
    else if funct3 w = 1 then (.mulh, 3)
    else if funct3 w = 2 then (.mulh, 1)
    else if funct3 w = 3 then (.mulh, 0)
    else if funct3 w = 4 then (.div, 3)
    else if funct3 w = 5 then (.div, 0)
    else if funct3 w = 6 then (.rem, 3)
    else (.rem, 0)
  else (.mull, 0)

end Decoder

namespace ExIn

variable (x : ExIn)

def dec : Decoded := decode x.instr x.illegalC x.instrFirstCycle

def operator : MdOp := (Decoder.multdivOp x.instr).1

def signedMode : BitVec 2 := (Decoder.multdivOp x.instr).2

def multEn : Bool := x.instrExecuting && x.dec.multEn

def divEn : Bool := x.instrExecuting && x.dec.divEn

def divSel : Bool := x.dec.multdivSel && (Instr.funct3 x.instr).getLsbD 2

def multdivSel : Bool := x.dec.multdivSel

end ExIn

namespace ExBlock

variable (s : ExBlock) (x : ExIn)

/-! ## The multiplier -/

/-- `{sign, op}` as a signed number, times another, plus the signed accumulator. -/
def mac (signA : Bool) (opA : BitVec 16) (signB : Bool) (opB : BitVec 16) (accum : BitVec 34) :
    BitVec 34 :=
  (BitVec.ofBool signA ++ opA).signExtend 34 * (BitVec.ofBool signB ++ opB).signExtend 34 + accum

def aL : BitVec 16 := x.operandA.extractLsb' 0 16
def aH : BitVec 16 := x.operandA.extractLsb' 16 16
def bL : BitVec 16 := x.operandB.extractLsb' 0 16
def bH : BitVec 16 := x.operandB.extractLsb' 16 16
def signA : Bool := x.signedMode.getLsbD 0 && x.operandA.getLsbD 31
def signB : Bool := x.signedMode.getLsbD 1 && x.operandB.getLsbD 31

/-- `{18'b0, imd_val_q_i[0][31:16]}` -/
def accumLow : BitVec 34 := (s.imdVal0Q.extractLsb' 16 16).setWidth 34

/-- `{{16{signed_mult & imd_val_q_i[0][33]}}, imd_val_q_i[0][33:16]}` -/
def accumHigh : BitVec 34 :=
  (if x.signedMode != 0 && s.imdVal0Q.getLsbD 33 then BitVec.allOnes 16 else 0) ++
    s.imdVal0Q.extractLsb' 16 18

def macRes : BitVec 34 :=
  match s.multStateQ with
  | .albl => mac false (aL x) false (bL x) 0
  | .albh => mac false (aL x) (signB x) (bH x) s.accumLow
  | .ahbl => mac (signA x) (aH x) false (bL x)
      (if x.operator = .mull then s.accumLow else s.imdVal0Q)
  | .ahbh => mac (signA x) (aH x) (signB x) (bH x) (s.accumHigh x)

/-- `{2'b0, mac_res[15:0], imd_val_q_i[0][15:0]}` -/
def macLow : BitVec 34 :=
  0#2 ++ ((s.macRes x).extractLsb' 0 16 ++ s.imdVal0Q.extractLsb' 0 16)

def macResD : BitVec 34 :=
  match s.multStateQ with
  | .albl | .ahbh => s.macRes x
  | .albh | .ahbl => if x.operator = .mull then s.macLow x else s.macRes x

def multStateD : MultFsm :=
  match s.multStateQ with
  | .albl => .albh
  | .albh => .ahbl
  | .ahbl => if x.operator = .mull then .albl else .ahbh
  | .ahbh => .albl

def multValid : Bool :=
  match s.multStateQ with
  | .albl | .albh => false
  | .ahbl => x.operator == .mull
  | .ahbh => true

def multHold : Bool := s.multValid x && !x.multdivReadyId

def multEnInternal : Bool := x.multEn && !s.multHold x

/-! ## The divider -/

def opDenominatorQ : BitVec 32 := s.imdVal1Q.extractLsb' 0 32

/-- `imd_val_q_i[0][31:0]` -/
def remainder : BitVec 32 := s.imdVal0Q.extractLsb' 0 32

/-- `{~op, 1'b1}` with `{32'h0, 1'b1}`: 0 - op -/
def negate (op : BitVec 32) : BitVec 33 × BitVec 33 := (1, ~~~op ++ 1#1)

/-- `alu_operand_a_o` and `alu_operand_b_o` -/
def aluOperands : BitVec 33 × BitVec 33 :=
  match s.mdStateQ with
  | .idle | .absB | .finish => negate x.operandB
  | .absA => negate x.operandA
  | .comp | .last => (s.remainder ++ 1#1, ~~~s.opDenominatorQ ++ 1#1)
  | .changeSign => negate s.remainder

def aluIn : IbexAluIn where
  operator := Decoder.aluOperator x.instr x.instrFirstCycle
  operandA := x.operandA
  operandB := x.operandB
  instrFirstCycle := x.instrFirstCycle
  multdivOperandA := (s.aluOperands x).1
  multdivOperandB := (s.aluOperands x).2
  multdivSel := x.multdivSel

/-- `alu_adder_i` -/
def aluAdder : BitVec 32 := (s.aluIn x).adderResult

def equalToZero : Bool := (s.aluIn x).isEqual

def isGreaterEqual : Bool :=
  if s.remainder.getLsbD 31 ^^ s.opDenominatorQ.getLsbD 31 then s.remainder.getLsbD 31
  else !(s.aluAdder x).getLsbD 31

def nextRemainder : BitVec 32 := if s.isGreaterEqual x then s.aluAdder x else s.remainder

/-- `one_shift` -/
def oneShift : BitVec 32 := 1#32 <<< s.divCounterQ.toNat

def nextQuotient : BitVec 32 :=
  if s.isGreaterEqual x then s.opQuotientQ ||| s.oneShift else s.opQuotientQ

def divSignA : Bool := x.operandA.getLsbD 31 && x.signedMode.getLsbD 0
def divSignB : Bool := x.operandB.getLsbD 31 && x.signedMode.getLsbD 1
def divChangeSign : Bool := (divSignA x ^^ divSignB x) && !s.divByZeroQ
def remChangeSign : Bool := divSignA x

def divCounterD : BitVec 5 :=
  match s.mdStateQ with
  | .idle | .absA | .absB => 31
  | .comp | .last | .changeSign | .finish => s.divCounterQ - 1

def opRemainderD : BitVec 34 :=
  match s.mdStateQ with
  | .idle => if x.operator = .div then BitVec.allOnes 34 else 0#2 ++ x.operandA
  | .absB => (BitVec.ofBool (s.opNumeratorQ.getLsbD 31)).setWidth 34
  | .comp => 0#1 ++ (s.nextRemainder x ++
      BitVec.ofBool (s.opNumeratorQ.getLsbD (s.divCounterD.toNat)))
  | .last => if x.operator = .div then 0#2 ++ s.nextQuotient x else 0#2 ++ s.nextRemainder x
  | .changeSign =>
    if x.operator = .div then
      if s.divChangeSign x then 0#2 ++ s.aluAdder x else s.imdVal0Q
    else if remChangeSign x then 0#2 ++ s.aluAdder x else s.imdVal0Q
  | .absA | .finish => s.imdVal0Q

def mdStateD : MdFsm :=
  match s.mdStateQ with
  | .idle => if !x.dataIndTiming && s.equalToZero x then .finish else .absA
  | .absA => .absB
  | .absB => .comp
  | .comp => if s.divCounterQ = 1 then .last else .comp
  | .last => .changeSign
  | .changeSign => .finish
  | .finish => .idle

def divValid : Bool := s.mdStateQ == .finish

def divHold : Bool := s.divValid && !x.multdivReadyId

def divEnInternal : Bool := x.divEn && !s.divHold x

/-! ## The stage -/

def multdivEn : Bool := s.multEnInternal x || s.divEnInternal x

def step : ExBlock where
  multStateQ := if s.multEnInternal x then s.multStateD x else s.multStateQ
  mdStateQ := if s.divEnInternal x then s.mdStateD x else s.mdStateQ
  divCounterQ := if s.divEnInternal x then s.divCounterD else s.divCounterQ
  opNumeratorQ :=
    if s.divEnInternal x && s.mdStateQ == .absA then
      if divSignA x then s.aluAdder x else x.operandA
    else s.opNumeratorQ
  opQuotientQ :=
    if s.divEnInternal x then
      match s.mdStateQ with
      | .absA => 0
      | .comp => s.nextQuotient x
      | .idle | .absB | .last | .changeSign | .finish => s.opQuotientQ
    else s.opQuotientQ
  divByZeroQ :=
    if s.divEnInternal x && s.mdStateQ == .idle && x.operator == .div then s.equalToZero x
    else s.divByZeroQ
  imdVal0Q :=
    if x.multdivSel && s.multdivEn x then if x.divSel then s.opRemainderD x else s.macResD x
    else s.imdVal0Q
  imdVal1Q :=
    if x.multdivSel && s.divEnInternal x then
      if s.mdStateQ == .absB then
        0#2 ++ (if divSignB x then s.aluAdder x else x.operandB)
      else 0#2 ++ s.opDenominatorQ
    else s.imdVal1Q

def reset : ExBlock := ⟨.albl, .idle, 0, 0, 0, false, 0, 0⟩

def multdivResult : BitVec 32 :=
  if x.divSel then s.remainder else (s.macResD x).extractLsb' 0 32

def resultEx : BitVec 32 := if x.multdivSel then s.multdivResult x else (s.aluIn x).resultO

def branchDecision : Bool := (s.aluIn x).cmpResult

/-- `ex_valid_o`; without bit manipulation the ALU needs one cycle. -/
def exValid : Bool := if x.multdivSel then s.multValid x || s.divValid else true

end ExBlock

end SentinelSoc
