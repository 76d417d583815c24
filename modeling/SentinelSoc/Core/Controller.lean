/-
  The core controller: exceptions, interrupts, debug mode and pipeline flushes.

  * `ExcIn`: what the exceptions of a cycle depend on;
  * `Controller.idException`, `Controller.wbException`: the exceptions of the
    instruction in ID and of the one in writeback;
  * `Controller.step`: the state machine. `wbs` is the parameter `WritebackStage`.
-/
import Mathlib.Tactic

namespace SentinelSoc

/-- `ctrl_fsm_e` -/
inductive CtrlFsm
  | reset
  | bootSet
  | waitSleep
  | sleep
  | firstFetch
  | decode
  | flush
  | irqTaken
  | dbgTakenIf
  | dbgTakenId
  deriving DecidableEq

/-- `pc_sel_e`, without the branch predictor. -/
inductive PcSel
  | boot
  | jump
  | exc
  | eret
  | dret
  deriving DecidableEq

structure Controller where
  ctrlFsmCs : CtrlFsm
  nmiModeQ : Bool
  doSingleStepQ : Bool
  debugModeQ : Bool
  enterDebugModePrioQ : Bool
  loadErrQ : Bool
  storeErrQ : Bool
  excReqQ : Bool
  illegalInsnQ : Bool
  tagErrQ : Bool

/-- The inputs that decide on exceptions. -/
structure ExcIn where
  instrValid : Bool
  instrFetchErr : Bool
  illegalInsn : Bool
  ecallInsn : Bool
  ebrkInsn : Bool
  mretInsn : Bool
  dretInsn : Bool
  wfiInsn : Bool
  loadErr : Bool
  storeErr : Bool
  exTagErr : Bool

/-- Interrupt and debug requests. -/
structure IrqIn where
  instrExec : Bool
  irqNm : Bool
  irqPending : Bool
  /-- `csr_mstatus_mie_i`, or user mode. -/
  irqEnabled : Bool
  debugReq : Bool
  debugSingleStep : Bool
  triggerMatch : Bool
  ebreakIntoDebug : Bool

/-- The inputs of one cycle. -/
structure ControllerIn extends ExcIn, IrqIn where
  csrPipeFlush : Bool
  branchSet : Bool
  jumpSet : Bool
  stallId : Bool
  stallWb : Bool
  readyWb : Bool

namespace Controller

variable (wbs : Bool) (s : Controller)

def reset : Controller := ⟨.reset, false, false, false, false, false, false, false, false, false⟩

/-! ## Exceptions -/

def illegalInsnD (e : ExcIn) : Bool := e.illegalInsn && s.ctrlFsmCs != .flush

def tagErrD (e : ExcIn) : Bool := (e.exTagErr && e.instrValid) && s.ctrlFsmCs != .flush

def excReqD (e : ExcIn) : Bool :=
  (e.ecallInsn && e.instrValid || e.ebrkInsn && e.instrValid || s.illegalInsnD e ||
    e.instrFetchErr && e.instrValid || s.tagErrD e) && s.ctrlFsmCs != .flush

/-- Without a writeback stage errors of loads and stores are exceptions of the instruction in ID. -/
def wbException (e : ExcIn) : Bool :=
  wbs && (s.loadErrQ || s.storeErrQ || e.loadErr || e.storeErr)

def idException (e : ExcIn) : Bool := s.excReqD e && !s.wbException wbs e

def controllerRun : Bool := s.ctrlFsmCs == .decode

/-- `ebrk_insn_prio`: no exception of higher priority than the breakpoint. -/
def ebrkInsnPrio (e : ExcIn) : Bool :=
  !(wbs && (s.storeErrQ || s.loadErrQ)) && !(e.instrFetchErr && e.instrValid) && !s.illegalInsnQ &&
    !(e.ecallInsn && e.instrValid) && (e.ebrkInsn && e.instrValid)

/-- In `flush` an exception is taken, not a special instruction. -/
def takesExc : Bool := s.excReqQ || s.storeErrQ || s.loadErrQ

/-- In `flush` a breakpoint enters debug mode. -/
def ebrkToDebug (e : ExcIn) (ebreakIntoDebug : Bool) : Bool :=
  s.takesExc && s.ebrkInsnPrio wbs e && (s.debugModeQ || ebreakIntoDebug)

def flushId (e : ExcIn) (ebreakIntoDebug : Bool) : Bool :=
  match s.ctrlFsmCs with
  | .waitSleep | .sleep | .dbgTakenIf | .dbgTakenId => true
  | .flush => !s.ebrkToDebug wbs e ebreakIntoDebug
  | .reset | .bootSet | .firstFetch | .decode | .irqTaken => false

/-! ## Requests of debug mode and of interrupts -/

variable (x : ControllerIn)

def doSingleStepD : Bool :=
  if x.instrValid then !s.debugModeQ && x.debugSingleStep else s.doSingleStepQ

def enterDebugModePrioD : Bool := (x.debugReq || s.doSingleStepD x) && !s.debugModeQ

def enterDebugMode : Bool := s.enterDebugModePrioD x || x.triggerMatch && !s.debugModeQ

def handleIrq : Bool :=
  !s.debugModeQ && !x.debugSingleStep && !s.nmiModeQ && (x.irqNm || x.irqPending && x.irqEnabled)

/-! ## The state machine -/

def stall : Bool := x.stallId || x.stallWb

def idWbPending : Bool := x.instrValid || !x.readyWb

def specialReq : Bool :=
  x.mretInsn && x.instrValid || x.dretInsn && x.instrValid || s.excReqD x.toExcIn ||
    (x.storeErr || x.loadErr) || x.wfiInsn && x.instrValid || x.csrPipeFlush && x.instrValid

/-- The instruction in ID waits for the state `flush`. -/
def retainId : Bool := s.ctrlFsmCs == .decode && s.specialReq x

def haltIf : Bool :=
  !x.instrExec || match s.ctrlFsmCs with
  | .waitSleep | .sleep | .flush => true
  | .firstFetch => s.handleIrq x || s.enterDebugMode x
  | .decode => (s.enterDebugMode x || s.handleIrq x) &&
      (stall x || idWbPending x || !s.specialReq x)
  | .reset | .bootSet | .irqTaken | .dbgTakenIf | .dbgTakenId => false

def idInReady : Bool := !stall x && !s.haltIf x && !s.retainId x

def instrValidClear : Bool := !(stall x || s.retainId x) || s.flushId wbs x.toExcIn x.ebreakIntoDebug

def ctrlFsmNs : CtrlFsm :=
  match s.ctrlFsmCs with
  | .reset => .bootSet
  | .bootSet => .firstFetch
  | .waitSleep => .sleep
  | .sleep =>
    if x.irqNm || x.irqPending || x.debugReq || s.debugModeQ || x.debugSingleStep then .firstFetch
    else .sleep
  | .firstFetch =>
    if s.enterDebugMode x then .dbgTakenIf
    else if s.handleIrq x then .irqTaken
    else if s.idInReady x then .decode
    else .firstFetch
  | .decode =>
    if !stall x && !s.specialReq x && !idWbPending x && s.enterDebugMode x then .dbgTakenIf
    else if !stall x && !s.specialReq x && !idWbPending x && s.handleIrq x then .irqTaken
    else if s.specialReq x && (x.readyWb || s.wbException wbs x.toExcIn) then .flush
    else .decode
  | .irqTaken | .dbgTakenIf | .dbgTakenId => .decode
  | .flush =>
    if s.enterDebugModePrioQ && !(s.ebrkInsnPrio wbs x.toExcIn && x.ebreakIntoDebug) then
      .dbgTakenIf
    else if s.ebrkToDebug wbs x.toExcIn x.ebreakIntoDebug then .dbgTakenId
    else if !s.takesExc && !(x.mretInsn && x.instrValid) && !(x.dretInsn && x.instrValid) &&
        (x.wfiInsn && x.instrValid) then .waitSleep
    else .decode

def pcSet : Bool :=
  match s.ctrlFsmCs with
  | .reset | .bootSet | .dbgTakenIf | .dbgTakenId => true
  | .decode => x.branchSet || x.jumpSet
  | .irqTaken => s.handleIrq x
  | .flush =>
    if s.takesExc then !s.ebrkToDebug wbs x.toExcIn x.ebreakIntoDebug
    else x.mretInsn && x.instrValid || x.dretInsn && x.instrValid
  | .waitSleep | .sleep | .firstFetch => false

def pcMux : PcSel :=
  match s.ctrlFsmCs with
  | .decode => .jump
  | .irqTaken | .dbgTakenIf | .dbgTakenId => .exc
  | .flush =>
    if s.takesExc then .exc
    else if x.mretInsn && x.instrValid then .eret
    else if x.dretInsn && x.instrValid then .dret
    else .boot
  | .reset | .bootSet | .waitSleep | .sleep | .firstFetch => .boot

def nmiModeD : Bool :=
  match s.ctrlFsmCs with
  | .irqTaken => if s.handleIrq x && x.irqNm then true else s.nmiModeQ
  | .flush => if !s.takesExc && (x.mretInsn && x.instrValid) then false else s.nmiModeQ
  | _ => s.nmiModeQ

def debugModeD : Bool :=
  match s.ctrlFsmCs with
  | .dbgTakenIf | .dbgTakenId => true
  | .flush =>
    if !s.takesExc && !(x.mretInsn && x.instrValid) && (x.dretInsn && x.instrValid) then false
    else s.debugModeQ
  | _ => s.debugModeQ

def step : Controller where
  ctrlFsmCs := s.ctrlFsmNs wbs x
  nmiModeQ := s.nmiModeD x
  doSingleStepQ := s.doSingleStepD x
  debugModeQ := s.debugModeD x
  enterDebugModePrioQ := s.enterDebugModePrioD x
  loadErrQ := x.loadErr
  storeErrQ := x.storeErr
  excReqQ := s.excReqD x.toExcIn
  illegalInsnQ := s.illegalInsnD x.toExcIn
  tagErrQ := s.tagErrD x.toExcIn

end Controller

end SentinelSoc
