/-
  The core, as far as control and tags go: the IF/ID registers, the ID stage with
  its state machine, the load/store unit, the writeback stage, the tag register
  file and the two policy registers. `wbs` is the parameter `WritebackStage`.

  * `PipeIn`: the instruction words, the memory, and what the data path decides;
  * the wires of the ID stage, in the order in which they depend on one another;
  * `Core.step`.
-/
import SentinelSoc.Core.Controller
import SentinelSoc.Core.Decoder
import SentinelSoc.Core.Lsu

namespace SentinelSoc

/-- `wb_instr_type_e` -/
inductive WbInstrType
  | load
  | store
  | other
  deriving DecidableEq

structure WbStage where
  wbValidQ : Bool
  wbInstrTypeQ : WbInstrType
  rfWeWbQ : Bool
  rfWaddrWbQ : BitVec 5
  rfWeTagWbQ : Bool
  rfWdataTagWbQ : Bool

structure Core where
  pcIfTagQ : Bool
  instrValidIdQ : Bool
  instrRdataId : BitVec 32
  instrFetchErrId : Bool
  illegalCInsnId : Bool
  pcIdTag : Bool
  /-- `id_fsm_q` is `MULTI_CYCLE`. -/
  multiCycleQ : Bool
  branchSetRawQ : Bool
  branchJumpSetDoneQ : Bool
  ctl : Controller
  lsu : Lsu
  wb : WbStage
  tagRf : BitVec 5 → Bool
  tpr : BitVec 32
  tcr : BitVec 32

/-- The inputs of one cycle. -/
structure PipeIn extends IrqIn where
  /-- The next instruction word, decompressed. -/
  ifInstrValid : Bool
  ifInstr : BitVec 32
  ifInstrErr : Bool
  ifIllegalC : Bool
  /-- What the data path decides. -/
  branchDecision : Bool
  multdivValid : Bool
  adderResult : BitVec 32
  csrWdata : BitVec 32
  illegalCsr : Bool
  userMode : Bool
  mstatusTw : Bool
  /-- The data memory. -/
  dataGnt : Bool
  dataRvalid : Bool
  dataErr : Bool
  dataRdataTag : Bool
  diftEn : Bool

/-- What the state machine of the ID stage drives. -/
structure IdFsmOut where
  multiCycleD : Bool
  rfWeRaw : Bool
  stallMultdiv : Bool
  stallJump : Bool
  stallBranch : Bool
  branchSetRawD : Bool
  jumpSetRaw : Bool

namespace Core

variable (wbs : Bool) (s : Core) (x : PipeIn)

/-! ## Decoding -/

def instrFirstCycle : Bool := s.instrValidIdQ && !s.multiCycleQ

def dec : Decoded := decode s.instrRdataId s.illegalCInsnId s.instrFirstCycle

def illegalCsrInsn : Bool := s.dec.csrAccess && x.illegalCsr

/-- `illegal_insn_o` -/
def illegalInsn : Bool :=
  s.instrValidIdQ && (s.dec.illegalInsn || s.illegalCsrInsn x ||
    s.dec.dretInsn && !s.ctl.debugModeQ ||
    x.userMode && (s.dec.mretInsn || x.mstatusTw && s.dec.wfiInsn))

def rfRenA : Bool :=
  s.instrValidIdQ && !s.instrFetchErrId && !s.illegalInsn x && s.dec.rfRenA

def rfRenB : Bool :=
  s.instrValidIdQ && !s.instrFetchErrId && !s.illegalInsn x && s.dec.rfRenB

/-! ## Operand tags -/

/-- A read port of the tag register file. -/
def tagOf (a : BitVec 5) : Bool := a != 0 && s.tagRf a

/-- `rf_write_wb_i` -/
def rfWriteWb : Bool := wbs && s.wb.wbValidQ && (s.wb.rfWeWbQ || s.wb.wbInstrTypeQ == .load)

/-- `rf_rd_a_wb_match` and `rf_rd_b_wb_match` for the register `a`. -/
def rdWbMatch (a : BitVec 5) : Bool := wbs && s.wb.rfWaddrWbQ == a && a != 0

/-- `operand_a_fw_id_tag` and `operand_b_fw_id_tag` for the register `a`. -/
def fwTag (a : BitVec 5) : Bool :=
  if s.rdWbMatch wbs a && s.rfWriteWb wbs then s.wb.rfWdataTagWbQ else s.tagOf a

def operandAFwIdTag : Bool := s.fwTag wbs (Instr.rs1 s.instrRdataId)

def operandBFwIdTag : Bool := s.fwTag wbs (Instr.rs2 s.instrRdataId)

def opASel : OpASel := if s.lsu.addrIncrReqO then .fwd else s.dec.opASel

def opBSel : OpBSel := if s.lsu.addrIncrReqO then .imm else s.dec.opBSel

def aluOperandATag : Bool :=
  match s.opASel with
  | .regA => s.operandAFwIdTag wbs
  | .currPc => s.pcIdTag
  | .fwd | .imm => false

def aluOperandBTag : Bool :=
  match s.opBSel with
  | .regB => s.operandBFwIdTag wbs
  | .imm => false

/-- `pc_set_tag_o` -/
def jumpTargetTag : Bool :=
  if s.dec.jumpInDec && Instr.opcode s.instrRdataId == .jalr then
    s.operandAFwIdTag wbs || s.pcIdTag
  else if s.dec.jumpInDec || s.dec.branchInDec then s.pcIdTag
  else false

def isStore : Bool := s.dec.dataReq && s.dec.dataWe

def lsuWdataTag : Bool := if s.isStore then s.operandBFwIdTag wbs || s.pcIdTag else false

/-! ## Taint checks -/

/-- `ibex_dift_logic` in the execution block. -/
def exDift : DiftOut :=
  diftLogic (modeTag s.instrRdataId s.tpr) (s.aluOperandATag wbs) (s.aluOperandBTag wbs)
    (diftTmu s.instrRdataId s.tcr) (Instr.opcode s.instrRdataId == .load)

def pcException : Bool := s.instrValidIdQ && s.tcr.getLsbD Tcr.executePc && s.pcIdTag

/-- `ex_tag_err_i` of the controller. -/
def exTagErr : Bool := (s.exDift wbs).exception || s.pcException

/-! ## Responses of the memory -/

/-- The inputs of the load/store unit. The read tag is gated by `dift_en_i`. -/
def lsuIn (lsuReq : Bool) : LsuIn where
  lsuReq := lsuReq
  lsuWe := s.dec.dataWe
  lsuType := s.dec.dataType
  adderResult := x.adderResult
  lsuWdataTag := s.lsuWdataTag wbs
  tcrLoadCheck := s.tcr.getLsbD Tcr.loadstoreCheckDa
  dataGnt := x.dataGnt
  dataRvalid := x.dataRvalid
  dataBusErr := x.dataErr
  dataPmpErr := false
  dataRdataTag := x.dataRdataTag && x.diftEn

/-- A response does not depend on the request of the same cycle. -/
def respIn : LsuIn := s.lsuIn wbs x false

def lsuRespValid : Bool := s.lsu.lsuRespValidO (s.respIn wbs x)

/-- `rf_we_lsu` -/
def rfWeLsu : Bool := s.lsu.rdataValidO (s.respIn wbs x)

def lsuRdataTag : Bool := s.lsu.rdataTagO (s.respIn wbs x)

def outstandingLoadWb : Bool := wbs && s.wb.wbValidQ && s.wb.wbInstrTypeQ == .load

def outstandingStoreWb : Bool := wbs && s.wb.wbValidQ && s.wb.wbInstrTypeQ == .store

def outstandingMemoryAccess : Bool :=
  (s.outstandingLoadWb wbs || s.outstandingStoreWb wbs) && !s.lsuRespValid wbs x

def wbDone : Bool := s.wb.wbInstrTypeQ == .other || s.lsuRespValid wbs x

def readyWb : Bool := if wbs then !s.wb.wbValidQ || s.wbDone wbs x else true

/-! ## Exceptions -/

def excIn : ExcIn where
  instrValid := s.instrValidIdQ
  instrFetchErr := s.instrFetchErrId
  illegalInsn := s.illegalInsn x
  ecallInsn := s.dec.ecallInsn
  ebrkInsn := s.dec.ebrkInsn
  mretInsn := s.dec.mretInsn
  dretInsn := s.dec.dretInsn
  wfiInsn := s.dec.wfiInsn
  loadErr := s.lsu.loadErrO (s.respIn wbs x)
  storeErr := s.lsu.storeErrO (s.respIn wbs x)
  exTagErr := s.exTagErr wbs

def tagErrD : Bool := s.ctl.tagErrD (s.excIn wbs x)

def wbException : Bool := s.ctl.wbException wbs (s.excIn wbs x)

def idException : Bool := s.ctl.idException wbs (s.excIn wbs x)

def flushId : Bool := s.ctl.flushId wbs (s.excIn wbs x) x.ebreakIntoDebug

/-! ## Execution -/

def instrKill : Bool :=
  s.instrFetchErrId || s.wbException wbs x || s.idException wbs x || !s.ctl.controllerRun

def stallLdHz : Bool :=
  s.outstandingLoadWb wbs &&
    (s.rdWbMatch wbs (Instr.rs1 s.instrRdataId) && s.rfRenA x ||
      s.rdWbMatch wbs (Instr.rs2 s.instrRdataId) && s.rfRenB x)

def instrExecutingSpec : Bool :=
  s.instrValidIdQ && !s.instrFetchErrId && s.ctl.controllerRun && !s.stallLdHz wbs x

/-- Without a writeback stage an exception in ID does not stop the instruction. -/
def instrExecuting : Bool :=
  if wbs then
    s.instrValidIdQ && !s.instrKill wbs x && !s.stallLdHz wbs x &&
      !s.outstandingMemoryAccess wbs x
  else s.instrExecutingSpec wbs x

def dataReqAllowed : Bool :=
  if wbs then !s.outstandingMemoryAccess wbs x else s.instrFirstCycle

def lsuReq : Bool := s.instrExecuting wbs x && (s.dataReqAllowed wbs x && s.dec.dataReq)

/-- The request of the load/store unit to the memory. -/
def dataReqO : Bool := s.lsu.dataReqO (s.lsuIn wbs x (s.lsuReq wbs x))

def lsuReqDone : Bool := s.lsu.lsuReqDoneO (s.lsuIn wbs x (s.lsuReq wbs x))

def stallMem : Bool :=
  s.instrValidIdQ &&
    if wbs then s.outstandingMemoryAccess wbs x || s.dec.dataReq && !s.lsuReqDone wbs x
    else s.dec.dataReq && (!s.lsuRespValid wbs x || s.instrFirstCycle)

def exValid : Bool := if s.dec.multdivSel then x.multdivValid else true

def multicycleDone : Bool :=
  if s.dec.dataReq then if wbs then !s.stallMem wbs x else s.lsuRespValid wbs x else s.exValid x

/-- `multdiv_en_dec` -/
def multdivEn : Bool := s.dec.multEn || s.dec.divEn

/-- The state machine of the ID stage. -/
def idFsm : IdFsmOut :=
  let idle : IdFsmOut := ⟨s.multiCycleQ, s.dec.rfWe, false, false, false, false, false⟩
  if s.instrExecutingSpec wbs x then
    if s.multiCycleQ then
      let rfWe := if s.multdivEn then s.dec.rfWe && s.exValid x else s.dec.rfWe
      if s.multicycleDone wbs x && s.readyWb wbs x then
        { idle with multiCycleD := false, rfWeRaw := rfWe }
      else
        { idle with
          rfWeRaw := rfWe
          stallMultdiv := s.multdivEn
          stallBranch := s.dec.branchInDec
          stallJump := s.dec.jumpInDec }
    else if s.dec.dataReq then
      { idle with multiCycleD := if wbs then !s.lsuReqDone wbs x else true }
    else if s.multdivEn then
      if s.exValid x then idle
      else { idle with multiCycleD := true, rfWeRaw := false, stallMultdiv := true }
    else if s.dec.branchInDec then
      { idle with
        multiCycleD := x.branchDecision
        stallBranch := x.branchDecision
        branchSetRawD := x.branchDecision }
    else if s.dec.jumpInDec then
      { idle with multiCycleD := true, stallJump := true, jumpSetRaw := s.dec.jumpSet }
    else { idle with multiCycleD := false }
  else idle

def stallId : Bool :=
  s.stallLdHz wbs x || s.stallMem wbs x || (s.idFsm wbs x).stallMultdiv ||
    (s.idFsm wbs x).stallJump || (s.idFsm wbs x).stallBranch

/-- The instruction leaves ID for writeback (`instr_done`, `en_wb_o`). -/
def instrDone : Bool := !s.stallId wbs x && !s.flushId wbs x && s.instrExecuting wbs x

def instrIdDone : Bool := s.instrDone wbs x && s.readyWb wbs x

def csrOpEn : Bool := s.dec.csrAccess && s.instrExecuting wbs x && s.instrIdDone wbs x

/-- Writes to most CSRs flush the pipeline, writes to `mscratch` and `mepc` do not. -/
def csrPipeFlush : Bool :=
  s.csrOpEn wbs x && s.dec.csrWr && Decoder.funct12 s.instrRdataId != 0x340 &&
    Decoder.funct12 s.instrRdataId != 0x341

def jumpSet : Bool := (s.idFsm wbs x).jumpSetRaw && !s.branchJumpSetDoneQ

def branchSet : Bool := s.branchSetRawQ && !s.branchJumpSetDoneQ

def ctlIn : ControllerIn where
  toExcIn := s.excIn wbs x
  toIrqIn := x.toIrqIn
  csrPipeFlush := s.csrPipeFlush wbs x
  branchSet := s.branchSet
  jumpSet := s.jumpSet wbs x
  stallId := s.stallId wbs x
  stallWb := wbs && s.instrDone wbs x && !s.readyWb wbs x
  readyWb := s.readyWb wbs x

def instrValidClear : Bool := s.ctl.instrValidClear wbs (s.ctlIn wbs x)

def pcSet : Bool := s.ctl.pcSet wbs (s.ctlIn wbs x)

/-- A new instruction enters ID. -/
def instrNewIdD : Bool := x.ifInstrValid && s.ctl.idInReady (s.ctlIn wbs x) && !s.pcSet wbs x

/-! ## Writeback -/

def instrTypeWb : WbInstrType :=
  if !s.dec.dataReq then .other else if s.dec.dataWe then .store else .load

/-- `rf_we_id_o` -/
def rfWeId : Bool := (s.idFsm wbs x).rfWeRaw && s.instrExecuting wbs x && !s.illegalCsrInsn x

/-- `riscv_load_propagation`: it reads the register port of the instruction in ID. -/
def loadProp : Bool × Bool :=
  loadPropagation (s.lsuRdataTag wbs x) (s.tagOf (Instr.rs1 s.instrRdataId)) (s.rfWeLsu wbs x) s.tpr

/-- With a writeback stage the tag of a load is not among the sources. -/
def rfWdataTagWb : Bool :=
  if wbs then s.wb.rfWdataTagWbQ && s.wb.wbValidQ
  else if (s.loadProp wbs x).2 then (s.loadProp wbs x).1 else (s.exDift wbs).resultTag

def rfWeTagWb : Bool :=
  if wbs then s.wb.rfWeTagWbQ && s.wb.wbValidQ else (s.loadProp wbs x).2 || s.dec.rfWe

def rfWaddrWb : BitVec 5 := if wbs then s.wb.rfWaddrWbQ else Instr.rd s.instrRdataId

/-! ## Alerts -/

def loadException : Bool :=
  loadCheck (s.lsuRdataTag wbs x) (s.tagOf (Instr.rs1 s.instrRdataId)) (s.rfWdataTagWb wbs x) s.tcr
    (s.rfWeLsu wbs x)

def diftExceptionO : Bool :=
  (s.loadException wbs x || s.lsu.tagErrO (s.respIn wbs x) || (s.exDift wbs).exception ||
    s.pcException) && x.diftEn

/-! ## The step -/

def wbStep : WbStage :=
  let wbValidD := s.instrDone wbs x && s.readyWb wbs x || s.wb.wbValidQ && !s.wbDone wbs x
  if s.instrDone wbs x then
    { wbValidQ := wbValidD
      wbInstrTypeQ := s.instrTypeWb
      rfWeWbQ := s.rfWeId wbs x
      rfWaddrWbQ := Instr.rd s.instrRdataId
      rfWeTagWbQ := s.dec.rfWe
      rfWdataTagWbQ := (s.exDift wbs).resultTag }
  else { s.wb with wbValidQ := wbValidD }

/-- A CSR write of the instruction in ID; in debug mode the policy registers are not written. -/
def policyWe (addr : BitVec 12) : Bool :=
  s.dec.csrWr && s.csrOpEn wbs x && !s.illegalCsrInsn x && !s.ctl.debugModeQ &&
    Decoder.funct12 s.instrRdataId == addr

def step : Core where
  pcIfTagQ :=
    if s.pcSet wbs x then s.ctl.pcMux (s.ctlIn wbs x) == .jump && s.jumpTargetTag wbs
    else s.pcIfTagQ
  instrValidIdQ := s.instrNewIdD wbs x || s.instrValidIdQ && !s.instrValidClear wbs x
  instrRdataId := if s.instrNewIdD wbs x then x.ifInstr else s.instrRdataId
  instrFetchErrId := if s.instrNewIdD wbs x then x.ifInstrErr else s.instrFetchErrId
  illegalCInsnId := if s.instrNewIdD wbs x then x.ifIllegalC else s.illegalCInsnId
  pcIdTag := if s.instrNewIdD wbs x then s.pcIfTagQ else s.pcIdTag
  multiCycleQ :=
    if s.instrValidClear wbs x then false
    else if s.instrExecuting wbs x then (s.idFsm wbs x).multiCycleD
    else s.multiCycleQ
  branchSetRawQ := (s.idFsm wbs x).branchSetRawD
  branchJumpSetDoneQ :=
    (s.branchSetRawQ || (s.idFsm wbs x).jumpSetRaw || s.branchJumpSetDoneQ) &&
      !s.instrValidClear wbs x
  ctl := s.ctl.step wbs (s.ctlIn wbs x)
  lsu := s.lsu.step (s.lsuIn wbs x (s.lsuReq wbs x))
  wb := s.wbStep wbs x
  tagRf := if s.rfWeTagWb wbs x then Function.update s.tagRf (s.rfWaddrWb wbs) (s.rfWdataTagWb wbs x)
    else s.tagRf
  tpr := if s.policyWe wbs x 0x7c3 then x.csrWdata else s.tpr
  tcr := if s.policyWe wbs x 0x7c2 then x.csrWdata else s.tcr

/-- The state after a reset; registers that have none keep what they hold. -/
def reset : Core :=
  { s with
    pcIfTagQ := false
    instrValidIdQ := false
    multiCycleQ := false
    branchSetRawQ := false
    branchJumpSetDoneQ := false
    ctl := .reset
    lsu := .reset
    wb := { s.wb with wbValidQ := false }
    tagRf := fun _ => false
    tpr := 0
    tcr := 0 }

end Core

/-- A cycle without a fetched word, in which the memory grants at once. -/
def PipeIn.quiet : PipeIn where
  instrExec := true
  irqNm := false
  irqPending := false
  irqEnabled := false
  debugReq := false
  debugSingleStep := false
  triggerMatch := false
  ebreakIntoDebug := false
  ifInstrValid := false
  ifInstr := 0
  ifInstrErr := false
  ifIllegalC := false
  branchDecision := false
  multdivValid := false
  adderResult := 0x20000
  csrWdata := 0
  illegalCsr := false
  userMode := false
  mstatusTw := false
  dataGnt := true
  dataRvalid := false
  dataErr := false
  dataRdataTag := false
  diftEn := true

/-- A cycle in which a word is fetched. -/
def PipeIn.fetch (w : BitVec 32) : PipeIn := { quiet with ifInstrValid := true, ifInstr := w }

/-- The core that is 0 before the reset. -/
def Core.blank : Core where
  pcIfTagQ := false
  instrValidIdQ := false
  instrRdataId := 0
  instrFetchErrId := false
  illegalCInsnId := false
  pcIdTag := false
  multiCycleQ := false
  branchSetRawQ := false
  branchJumpSetDoneQ := false
  ctl := .reset
  lsu := .reset
  wb := ⟨false, .other, false, 0, false, false⟩
  tagRf := fun _ => false
  tpr := 0
  tcr := 0

end SentinelSoc
