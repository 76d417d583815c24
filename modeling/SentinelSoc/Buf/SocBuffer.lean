/-
  The streaming buffer between the core and the accelerator (`soc_buffer.sv`).

  * `BufIn` holds the inputs of one cycle; a read of the block memory past its
    last word gives an unknown value, which is an input too;
  * `SocBuffer.step` is the clock edge: where the source assigns a register more
    than once, the last assignment wins.
-/
import SentinelSoc.Bus.Slaves

namespace SentinelSoc

/-- `buf_state_e` -/
inductive BufState
  | idle
  | filling
  | streaming
  | ctrlSend
  | waiting
  | capturing
  | error
  deriving DecidableEq

structure SocBuffer where
  stateQ : BufState
  fillPtr : BitVec 6
  streamPtr : BitVec 6
  capPtr : BitVec 4
  bufMem : BitVec 5 → BitVec 32
  accelOutRegs : BitVec 4 → BitVec 32
  softReset : Bool
  streamEnable : Bool
  abort : Bool
  blkSize : BitVec 6
  irqOnFull : Bool
  irqOnDone : Bool
  irqOnError : Bool
  irqFullPend : Bool
  irqDonePend : Bool
  irqErrorPend : Bool
  firstBlock : Bool
  lastBlock : Bool
  msgLength : BitVec 32
  rvalid : Bool
  rdata : BitVec 32

/-- The inputs of one cycle. -/
structure BufIn where
  obi : ObiReq
  accelData : BitVec 32
  accelDone : Bool
  /-- What a read of `buf_mem` past its end gives. -/
  unknown : BitVec 32

namespace SocBuffer

def bufCtrlOff : BitVec 12 := 0x000
def bufStatusOff : BitVec 12 := 0x004
def bufFillOff : BitVec 12 := 0x008
def bufBlkSizeOff : BitVec 12 := 0x00C
def irqEnOff : BitVec 12 := 0x010
def irqStatOff : BitVec 12 := 0x014
def accelCtrlOff : BitVec 12 := 0x018
def msgLenOff : BitVec 12 := 0x01C
def dataFifoBase : BitVec 12 := 0x100
def dataFifoTop : BitVec 12 := 0x17F
def accelOutBase : BitVec 12 := 0x200
def accelOutTop : BitVec 12 := 0x23F

variable (b : SocBuffer) (i : BufIn)

def reset : SocBuffer where
  stateQ := .idle
  fillPtr := 0
  streamPtr := 0
  capPtr := 0
  bufMem _ := 0
  accelOutRegs _ := 0
  softReset := false
  streamEnable := false
  abort := false
  blkSize := 32
  irqOnFull := false
  irqOnDone := false
  irqOnError := false
  irqFullPend := false
  irqDonePend := false
  irqErrorPend := false
  firstBlock := false
  lastBlock := false
  msgLength := 0
  rvalid := false
  rdata := 0

/-! ## Status and handshake -/

def bufEmpty : Bool := b.fillPtr == 0

def bufFull : Bool := b.fillPtr == b.blkSize

def bufStreaming : Bool := b.stateQ == .streaming || b.stateQ == .ctrlSend

def bufDone : Bool := b.stateQ == .capturing || i.accelDone

def bufError : Bool := b.stateQ == .error

def obiStall : Bool := b.stateQ == .streaming || b.stateQ == .ctrlSend || b.stateQ == .waiting

/-- `gnt_o` -/
def gnt : Bool := i.obi.req && !b.obiStall

/-- `addr_i[11:0]` -/
def offset : BitVec 12 := i.obi.addr.extractLsb' 0 12

/-- A granted write. -/
def granted : Bool := i.obi.req && b.gnt i && i.obi.we

/-- A granted write of the register at `off`. -/
def writes (off : BitVec 12) : Bool := b.granted i && offset i == off

/-- The same, of a register that looks at the lowest byte only. -/
def writesLow (off : BitVec 12) : Bool := b.writes i off && i.obi.be.getLsbD 0

/-- A granted write of the data FIFO. -/
def pushes : Bool :=
  b.granted i && decide (dataFifoBase ≤ offset i) && decide (offset i ≤ dataFifoTop)

/-! ## The state machine -/

def stateD : BufState :=
  match b.stateQ with
  | .idle => if b.streamEnable && !b.softReset then .filling else .idle
  | .filling =>
    if b.abort then .error
    else if b.softReset then .idle
    else if b.bufFull then .streaming
    else .filling
  | .streaming => if b.streamPtr == b.blkSize then .ctrlSend else .streaming
  | .ctrlSend => if b.streamPtr == 34 then .waiting else .ctrlSend
  | .waiting => if b.abort then .error else if i.accelDone then .capturing else .waiting
  | .capturing => if b.capPtr == 15 then .filling else .capturing
  | .error => if b.softReset then .idle else .error

/-- A word from the core enters the buffer. -/
def stores : Bool := b.stateQ == .filling && b.pushes i && decide (b.fillPtr < b.blkSize)

/-- The edge on which a full buffer starts to stream. -/
def startsStreaming : Bool := b.stateQ == .filling && b.stateD i == .streaming

def fillPtrD : BitVec 6 :=
  if b.startsStreaming i then 0
  else if b.stores i then b.fillPtr + 1
  else if b.softReset then 0
  else b.fillPtr

def streamPtrD : BitVec 6 :=
  if b.stateQ == .streaming && b.stateD i == .ctrlSend then 32
  else if b.startsStreaming i then 0
  else if b.stateQ == .ctrlSend && decide (b.streamPtr < 34) then b.streamPtr + 1
  else if b.stateQ == .streaming && decide (b.streamPtr < b.blkSize) then b.streamPtr + 1
  else if b.softReset then 0
  else b.streamPtr

def capPtrD : BitVec 4 :=
  if b.stateQ == .capturing && decide (b.capPtr < 15) then b.capPtr + 1
  else if b.stateQ == .waiting && b.stateD i == .capturing then 0
  else if b.softReset then 0
  else b.capPtr

/-- A write past the end of the block memory is lost. -/
def bufMemD : BitVec 5 → BitVec 32 :=
  if b.stores i && decide (b.fillPtr < 32) then
    Function.update b.bufMem (b.fillPtr.setWidth 5) i.obi.wdata
  else b.bufMem

def accelOutRegsD : BitVec 4 → BitVec 32 :=
  if b.stateQ == .capturing then Function.update b.accelOutRegs b.capPtr i.accelData
  else b.accelOutRegs

/-! ## Outputs -/

/-- `buf_mem[stream_ptr]` -/
def streamWord : BitVec 32 :=
  if b.streamPtr < 32 then b.bufMem (b.streamPtr.setWidth 5) else i.unknown

/-- `{30'h0, csr_last_block, csr_first_block}` -/
def flags : BitVec 32 :=
  (BitVec.ofBool b.lastBlock ++ BitVec.ofBool b.firstBlock : BitVec 2).setWidth 32

def accelValid : Bool := b.stateQ == .streaming || b.stateQ == .ctrlSend

def accelAddr : BitVec 6 :=
  match b.stateQ with
  | .streaming | .ctrlSend => b.streamPtr
  | .capturing => 34 + b.capPtr.setWidth 6
  | _ => 0

def accelData : BitVec 32 :=
  match b.stateQ with
  | .streaming => b.streamWord i
  | .ctrlSend => if b.streamPtr == 32 then b.flags else b.msgLength
  | _ => 0

def irq : Bool :=
  b.irqOnFull && b.irqFullPend || b.irqOnDone && b.irqDonePend || b.irqOnError && b.irqErrorPend

/-! ## Registers -/

/-- Bits given from the highest to the lowest, as a word. -/
def bits (l : List Bool) : BitVec 32 := BitVec.ofNat 32 (l.foldl (fun n c => 2 * n + c.toNat) 0)

def readWord : BitVec 32 :=
  if accelOutBase ≤ offset i ∧ offset i ≤ accelOutTop then
    b.accelOutRegs (i.obi.addr.extractLsb' 2 4)
  else if offset i = bufCtrlOff then bits [b.abort, b.streamEnable, b.softReset]
  else if offset i = bufStatusOff then
    bits [b.bufError, b.bufDone i, b.bufStreaming, b.bufFull, b.bufEmpty]
  else if offset i = bufFillOff then b.fillPtr.setWidth 32
  else if offset i = bufBlkSizeOff then b.blkSize.setWidth 32
  else if offset i = irqEnOff then bits [b.irqOnError, b.irqOnDone, b.irqOnFull]
  else if offset i = irqStatOff then bits [b.irqErrorPend, b.irqDonePend, b.irqFullPend]
  else if offset i = accelCtrlOff then bits [b.lastBlock, b.firstBlock]
  else if offset i = msgLenOff then b.msgLength
  else 0xDEADBEEF

/-- A pending bit: a write that clears it wins over its event. -/
def pendD (pend event : Bool) (k : ℕ) : Bool :=
  if b.writesLow i irqStatOff && i.obi.wdata.getLsbD k then false
  else if event then true
  else pend

/-- One clock edge. -/
def step : SocBuffer where
  stateQ := b.stateD i
  fillPtr := b.fillPtrD i
  streamPtr := b.streamPtrD i
  capPtr := b.capPtrD i
  bufMem := b.bufMemD i
  accelOutRegs := b.accelOutRegsD i
  softReset := b.writesLow i bufCtrlOff && i.obi.wdata.getLsbD 0
  streamEnable := if b.writesLow i bufCtrlOff then i.obi.wdata.getLsbD 1 else b.streamEnable
  abort := b.writesLow i bufCtrlOff && i.obi.wdata.getLsbD 2
  blkSize := if b.writesLow i bufBlkSizeOff then i.obi.wdata.extractLsb' 0 6 else b.blkSize
  irqOnFull := if b.writesLow i irqEnOff then i.obi.wdata.getLsbD 0 else b.irqOnFull
  irqOnDone := if b.writesLow i irqEnOff then i.obi.wdata.getLsbD 1 else b.irqOnDone
  irqOnError := if b.writesLow i irqEnOff then i.obi.wdata.getLsbD 2 else b.irqOnError
  irqFullPend := b.pendD i b.irqFullPend b.bufFull 0
  irqDonePend := b.pendD i b.irqDonePend i.accelDone 1
  irqErrorPend := b.pendD i b.irqErrorPend b.bufError 2
  firstBlock := if b.writesLow i accelCtrlOff then i.obi.wdata.getLsbD 0 else b.firstBlock
  lastBlock := if b.writesLow i accelCtrlOff then i.obi.wdata.getLsbD 1 else b.lastBlock
  msgLength := if b.writes i msgLenOff then i.obi.wdata else b.msgLength
  rvalid := i.obi.req && b.gnt i
  rdata := if i.obi.req && b.gnt i && !i.obi.we then b.readWord i else b.rdata

/-- The run from reset. -/
def run (i : ℕ → BufIn) : ℕ → SocBuffer := Sync.run step reset i

theorem run_succ {i : ℕ → BufIn} (t : ℕ) : run i (t + 1) = (run i t).step (i t) := rfl

end SocBuffer

end SentinelSoc
