/-
  The Ed25519 core cycle by cycle: the master state machine (`master_fsm.sv`), the
  sequencer (`micro_seq.sv`), the register file (`reg_file.sv`) and the datapath
  (`alu_top.sv`), wired as in `top_ed25519.sv`.

  * `MasterFsm.nextState`, `MasterFsm.step`: the state machine under given values of
    `seq_done`, `cmp_eq` and port A;
  * `EdTop.step`: one clock edge of the core.
-/
import SentinelSoc.Ed.Microcode
import SentinelSoc.Ed.Mult

namespace SentinelSoc

/-! ## The master state machine -/

/-- `state_t` of `master_fsm`. -/
inductive FsmState
  | idle
  | hashReduction | loadS | initP1 | s2Double | s2CheckBit | s2Add | s2Shift | s2SaveP1
  | decompStart | s3Uv | s3InvSetup | s3Xsq | s3SqrtSetup | s3FudgeCheck | s3FudgeMult
  | s3FixSign | s3Pack | s3SaveA | s3SaveR
  | expSquare | expCheckBit | expMult | expShift
  | s4LoadH | s4InitP2 | s4Double | s4CheckBit | s4AddA | s4Shift | s4LoadRBase | s4AddR
  | s5VerifyX | s5VerifyY
  | done
  deriving DecidableEq, Repr

/-- The states whose entry starts the sequencer. -/
def FsmState.triggers : FsmState → Bool
  | .hashReduction | .loadS | .initP1 | .s2Double | .s2Add | .s2SaveP1 | .decompStart | .s3Uv
  | .s3InvSetup | .s3Xsq | .s3SqrtSetup | .s3FudgeCheck | .s3FudgeMult | .s3FixSign | .s3Pack
  | .s3SaveA | .s3SaveR | .expSquare | .expMult | .s4LoadH | .s4InitP2 | .s4Double | .s4AddA
  | .s4LoadRBase | .s4AddR | .s5VerifyX | .s5VerifyY => true
  | .idle | .s2CheckBit | .s2Shift | .expCheckBit | .expShift | .s4CheckBit | .s4Shift
  | .done => false

/-- `EXP_P_MINUS_2` -/
def expPMinus2 : BitVec 255 := 0x7FFFFFFFFFFFFFFFFFFFFFFFFFFFFFFFFFFFFFFFFFFFFFFFFFFFFFFFFFFFFFEB

/-- `EXP_P_PLUS_3_OVER_8` -/
def expPPlus3Over8 : BitVec 252 := 0x0FFFFFFFFFFFFFFFFFFFFFFFFFFFFFFFFFFFFFFFFFFFFFFFFFFFFFFFFFFFFFFE

structure MasterFsm where
  state : FsmState
  returnState : FsmState
  startSeqReg : Bool
  bitCounter : BitVec 8
  scalarReg : Word
  targetExponent : Bool
  isDecompPubkey : Bool
  xEqFlag : Bool
  yEqFlag : Bool

namespace MasterFsm

def reset : MasterFsm where
  state := .idle
  returnState := .idle
  startSeqReg := false
  bitCounter := 0
  scalarReg := 0
  targetExponent := false
  isDecompPubkey := true
  xEqFlag := false
  yEqFlag := false

variable (f : MasterFsm)

def currentMsb : Bool := f.scalarReg.getLsbD 255

def currentExpBit : Bool :=
  if f.targetExponent then expPPlus3Over8.getLsbD f.bitCounter.toNat
  else expPMinus2.getLsbD f.bitCounter.toNat

def seqId : BitVec 5 :=
  match f.state with
  | .hashReduction => 0
  | .loadS => 4
  | .initP1 | .s4InitP2 => 3
  | .s2Double | .s4Double => 1
  | .s2Add | .s4AddA | .s4AddR => 2
  | .s2SaveP1 => 5
  | .decompStart => if f.isDecompPubkey then 11 else 12
  | .s3Uv => 6
  | .s3InvSetup => 7
  | .s3Xsq => 10
  | .s3SqrtSetup => 13
  | .s3FudgeCheck => 14
  | .s3FudgeMult => 15
  | .s3FixSign => 16
  | .s3Pack => 17
  | .s3SaveA => 19
  | .s3SaveR => 18
  | .expSquare => 8
  | .expMult => 9
  | .s4LoadH => 23
  | .s4LoadRBase => 20
  | .s5VerifyX => 21
  | .s5VerifyY => 22
  | .idle | .s2CheckBit | .s2Shift | .expCheckBit | .expShift | .s4CheckBit | .s4Shift | .done => 0

def nextState (startVerify seqDone cmpEq : Bool) : FsmState :=
  let after (s : FsmState) := if seqDone then s else f.state
  match f.state with
  | .idle => if startVerify then .hashReduction else .idle
  | .hashReduction => after .loadS
  | .loadS => after .initP1
  | .initP1 => after .s2Double
  | .s2Double => after .s2CheckBit
  | .s2CheckBit => if f.currentMsb then .s2Add else .s2Shift
  | .s2Add => after .s2Shift
  | .s2Shift => if f.bitCounter = 0 then .s2SaveP1 else .s2Double
  | .s2SaveP1 => after .decompStart
  | .decompStart => after .s3Uv
  | .s3Uv => after .s3InvSetup
  | .s3InvSetup => after .expSquare
  | .s3Xsq => after .s3SqrtSetup
  | .s3SqrtSetup => after .expSquare
  | .s3FudgeCheck => after (if cmpEq then .s3FixSign else .s3FudgeMult)
  | .s3FudgeMult => after .s3FixSign
  | .s3FixSign => after .s3Pack
  | .s3Pack => after (if f.isDecompPubkey then .s3SaveA else .s3SaveR)
  | .s3SaveA => after .decompStart
  | .s3SaveR => after .s4LoadH
  | .expSquare => after .expCheckBit
  | .expCheckBit => if f.currentExpBit then .expMult else .expShift
  | .expMult => after .expShift
  | .expShift => if f.bitCounter = 0 then f.returnState else .expSquare
  | .s4LoadH => after .s4InitP2
  | .s4InitP2 => after .s4Double
  | .s4Double => after .s4CheckBit
  | .s4CheckBit => if f.currentMsb then .s4AddA else .s4Shift
  | .s4AddA => after .s4Shift
  | .s4Shift => if f.bitCounter = 0 then .s4LoadRBase else .s4Double
  | .s4LoadRBase => after .s4AddR
  | .s4AddR => after .s5VerifyX
  | .s5VerifyX => after .s5VerifyY
  | .s5VerifyY => after .done
  | .done => .done

def verifyDone : Bool := f.state == .done

def signatureValid : Bool := f.state == .done && (f.xEqFlag && f.yEqFlag)

/-- The registers that the states load. -/
def shadow (seqDone cmpEq : Bool) (datapathReadData : Word) : MasterFsm :=
  match f.state with
  | .loadS | .s4LoadH =>
    if seqDone then { f with scalarReg := datapathReadData, bitCounter := 255 } else f
  | .s2Shift | .s4Shift => { f with scalarReg := f.scalarReg <<< 1, bitCounter := f.bitCounter - 1 }
  | .s2SaveP1 => if seqDone then { f with isDecompPubkey := true } else f
  | .s3SaveA => if seqDone then { f with isDecompPubkey := false } else f
  | .s3InvSetup =>
    if seqDone then { f with targetExponent := false, bitCounter := 254, returnState := .s3Xsq }
    else f
  | .s3SqrtSetup =>
    if seqDone then
      { f with targetExponent := true, bitCounter := 251, returnState := .s3FudgeCheck }
    else f
  | .expShift => { f with bitCounter := f.bitCounter - 1 }
  | .s5VerifyX => if seqDone then { f with xEqFlag := cmpEq } else f
  | .s5VerifyY => if seqDone then { f with yEqFlag := cmpEq } else f
  | _ => f

/-- One clock edge. -/
def step (startVerify seqDone cmpEq : Bool) (datapathReadData : Word) : MasterFsm :=
  let next := f.nextState startVerify seqDone cmpEq
  { f.shadow seqDone cmpEq datapathReadData with
    state := next
    startSeqReg := next != f.state && next.triggers }

end MasterFsm

/-! ## The sequencer -/

/-- `sub_step_t` -/
inductive SubStep
  | idle | start | waitDrop | exe | write
  deriving DecidableEq, Repr

structure MicroSeq where
  subStep : SubStep
  stepCounter : BitVec 6
  regWe : Bool
  seqDone : Bool

namespace MicroSeq

def reset : MicroSeq := ⟨.idle, 0, false, false⟩

/-- One clock edge, from what the ROM drives. -/
def step (q : MicroSeq) (startSeq multDone : Bool) (op : AluOp) (isLast : Bool) : MicroSeq :=
  match q.subStep with
  | .idle =>
    { q with
      regWe := false
      seqDone := false
      stepCounter := if startSeq then 0 else q.stepCounter
      subStep := if startSeq then .start else .idle }
  | .start => { q with regWe := false, subStep := if op = .mult then .waitDrop else .exe }
  | .waitDrop => { q with regWe := false, subStep := .exe }
  | .exe =>
    if op ≠ .mult ∨ multDone = true then { q with regWe := true, subStep := .write }
    else { q with regWe := false }
  | .write =>
    if isLast then { q with regWe := false, seqDone := true, subStep := .idle }
    else { q with regWe := false, stepCounter := q.stepCounter + 1, subStep := .start }

end MicroSeq

/-! ## The core -/

structure EdTop where
  fsm : MasterFsm
  seq : MicroSeq
  regs : BitVec 5 → Word
  xSign : Bool
  mult : Mult

/-- The inputs of one cycle. -/
structure EdIn where
  startVerify : Bool
  extData1 : Word
  extData2 : Word
  otpData : Word
  dataSel : BitVec 2
  extWe : Bool
  extDestSel : BitVec 5

namespace EdTop

/-- Reset does not touch the register file. -/
def reset (regs : BitVec 5 → Word) : EdTop := ⟨.reset, .reset, regs, false, .reset⟩

variable (s : EdTop) (i : EdIn)

/-- The row that the ROM drives. -/
def row : MicroOp := Microcode.rom s.fsm.seqId s.seq.stepCounter

def modPEn : Bool := Microcode.modPEn s.fsm.seqId

def srcA : Word := s.regs s.row.aSel

def srcB : Word := s.regs s.row.bSel

def alu : AluOut :=
  SentinelSoc.alu s.srcA s.srcB s.mult.p s.row.aluOp s.row.selHi s.modPEn s.xSign

def cmpEq : Bool := s.alu.cmpEq

def multKick : Bool := s.seq.subStep == .waitDrop

/-- `final_we`: the host writes only while the state machine is idle. -/
def finalWe : Bool := if s.fsm.state = .idle then i.extWe else s.seq.regWe

def finalDestSel : BitVec 5 := if s.fsm.state = .idle then i.extDestSel else s.row.destSel

def regWriteData : Word :=
  if i.dataSel = 0 then s.alu.aluResult
  else if i.dataSel = 1 then i.extData1
  else if i.dataSel = 2 then i.extData2
  else i.otpData

/-- The write of this cycle. -/
def regWrite : Option (BitVec 5 × Word) :=
  if s.finalWe i then some (s.finalDestSel i, s.regWriteData i) else none

/-- One clock edge. -/
def step : EdTop where
  fsm := s.fsm.step i.startVerify s.seq.seqDone s.cmpEq s.srcA
  seq := s.seq.step s.fsm.startSeqReg s.mult.done s.row.aluOp
    (Microcode.romIsLastStep s.fsm.seqId s.seq.stepCounter)
  regs := if s.finalWe i then Function.update s.regs (s.finalDestSel i) (s.regWriteData i) else s.regs
  xSign := if s.row.aluOp = .loadCompressed then s.alu.signBitOut else s.xSign
  mult := s.mult.step ⟨s.multKick, s.srcA, s.srcB⟩

end EdTop

end SentinelSoc
