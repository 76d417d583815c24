/-
  The secure-boot orchestrator (`top_most.sv`) with its SHA-512 and Ed25519 instances, and the
  read path of the one-time-programmable memory (`otp.sv`).

  * `TopCsr`: the registers behind the CSR port;
  * `Orch`: the main state machine; `Orch.advance` is one state of it, `Orch.step` adds the
    defaults and the abort branch;
  * `TopMost.step`: one clock edge of all of it.
-/
import SentinelSoc.Bus.Demux
import SentinelSoc.Sha.Engine
import SentinelSoc.Ed.Barrett
import SentinelSoc.Ed.Top
import SentinelSoc.Ed.Points

namespace SentinelSoc

/-- A word enters a shift register at the top. -/
def shiftWord (n : ℕ) (reg : BitVec (32 + n)) (w : BitVec 32) : BitVec (32 + n) :=
  w ++ reg.extractLsb' 32 n

/-- The read path of the memory: combinational. -/
def otpRdData (otpMem : BitVec 256) (bootActive rdEn : Bool) (rdAddr : BitVec 3) : BitVec 32 :=
  if bootActive && rdEn then otpMem.extractLsb' (rdAddr.toNat * 32) 32 else 0

/-! ## The main state machine -/

/-- `state_t` -/
inductive TopFsm
  | idle | shaCfgLen | shaCfgCtrl | shaPoll
  | feedR
  | otpReq | otpLatch | blkPollOtp
  | waitData | blkPoll
  | waitIntr | readHash | readHashLast
  | loadRegs | waitStart | edStart | edWait | done
  deriving DecidableEq, Repr

/-- The registers of the main state machine. -/
structure Orch where
  state : TopFsm
  shaLenReg : BitVec 32
  shaFed : BitVec 32
  blkPtr : BitVec 5
  otpIdx : BitVec 3
  rIdx : BitVec 3
  hashIdx : BitVec 4
  loadIdx : BitVec 5
  pubkeyReg : BitVec 256
  hashReg : BitVec 512
  startLatch : Bool
  bootQ : Bool
  shaAddr : BitVec 6
  shaWen : Bool
  shaWdata : BitVec 32
  edStart : Bool
  edExtWe : Bool
  edDest : BitVec 5
  edDsel : BitVec 2
  edDin : Word
  otpRdEn : Bool

/-- What the state machine sees in one cycle. -/
structure OrchIn where
  ctrlStart : Bool
  ctrlAbort : Bool
  ctrlSoftrst : Bool
  startVerify : Bool
  msgLenCsr : BitVec 32
  rReg : BitVec 256
  sReg : BitVec 256
  dataInReg : BitVec 32
  dataPending : Bool
  shaRdata : BitVec 32
  shaIntr : Bool
  otpData : BitVec 32
  edDone : Bool

namespace Orch

def reset : Orch where
  state := .idle
  shaLenReg := 0
  shaFed := 0
  blkPtr := 0
  otpIdx := 0
  rIdx := 0
  hashIdx := 0
  loadIdx := 0
  pubkeyReg := 0
  hashReg := 0
  startLatch := false
  bootQ := true
  shaAddr := 0
  shaWen := false
  shaWdata := 0
  edStart := false
  edExtWe := false
  edDest := 0
  edDsel := 0
  edDin := 0
  otpRdEn := false

variable (q : Orch) (x : OrchIn)

/-- A write to the SHA core, and the next state. -/
def feed (w : BitVec 32) (next : TopFsm) : Orch :=
  { q with
    shaAddr := q.blkPtr.setWidth 6
    shaWdata := w
    shaWen := true
    shaFed := q.shaFed + 1
    blkPtr := q.blkPtr + 1
    state := next }

/-- All words of the message are fed. -/
def lastWord : Bool := q.shaFed + 1 == q.shaLenReg

/-- Register and word that `ST_LOAD_REGS` writes, where it writes any. -/
def loadWord : Option (BitVec 5 × Word) :=
  match q.loadIdx.toNat with
  | 0 => some (24, 0)
  | 1 => some (25, 1)
  | 2 => some (26, curveD)
  | 3 => some (27, curve2D)
  | 4 => some (28, sqrtM1)
  | 5 => some (4, gX)
  | 6 => some (5, gY)
  | 7 => some (6, 1)
  | 8 => some (7, gT)
  | 9 => some (10, muHi)
  | 10 => some (11, curveL)
  | 11 => some (12, muLo)
  | 12 => some (23, x.sReg)
  | 13 => some (20, x.rReg)
  | 14 => some (21, q.pubkeyReg)
  | 15 => some (8, q.hashReg.extractLsb' 0 256)
  | 16 => some (9, q.hashReg.extractLsb' 256 256)
  | _ => none

/-- The registers that every cycle writes; the states below may write them again. -/
def defaults : Orch :=
  { q with
    shaWen := false
    edStart := false
    otpRdEn := false
    startLatch := q.startLatch || x.startVerify
    bootQ := q.bootQ && !x.edDone }

/-- `ST_LOAD_REGS` -/
def load : Orch :=
  { q with
    edExtWe := q.loadIdx != 17
    edDsel := 1
    loadIdx := q.loadIdx + 1
    edDest := ((q.loadWord x).map Prod.fst).getD q.edDest
    edDin := ((q.loadWord x).map Prod.snd).getD q.edDin
    state := if q.loadIdx = 17 then .waitStart else .loadRegs }

/-- The case of the current state. -/
def advance : Orch :=
  match q.state with
  | .idle =>
    if x.ctrlStart then
      { q with
        shaLenReg := x.msgLenCsr
        shaFed := 0
        blkPtr := 0
        otpIdx := 0
        rIdx := 0
        state := .shaCfgLen }
    else q
  | .shaCfgLen =>
    { q with shaAddr := 0x32, shaWdata := q.shaLenReg, shaWen := true, state := .shaCfgCtrl }
  | .shaCfgCtrl => { q with shaAddr := 0x20, shaWdata := 0x03, shaWen := true, state := .shaPoll }
  | .shaPoll =>
    { q with shaAddr := 0x21, state := if x.shaRdata.getLsbD 0 then .feedR else .shaPoll }
  | .feedR =>
    { q.feed (x.rReg.extractLsb' (q.rIdx.toNat * 32) 32) (if q.rIdx = 7 then .otpReq else .feedR)
      with rIdx := q.rIdx + 1 }
  | .otpReq => { q with otpRdEn := true, state := .otpLatch }
  | .otpLatch =>
    -- `blk_ptr` is 0 after 31, whether or not the source assigns it
    let full := q.blkPtr == 31
    let fed : Orch :=
      q.feed (byteSwap x.otpData)
        (if q.otpIdx = 7 then
          (if q.lastWord then .waitIntr else if full then .blkPoll else .waitData)
        else if full then .blkPollOtp else .otpReq)
    { fed with
      pubkeyReg := shiftWord 224 q.pubkeyReg (byteSwap x.otpData)
      otpIdx := if q.otpIdx = 7 then q.otpIdx else q.otpIdx + 1 }
  | .blkPollOtp =>
    { q with shaAddr := 0x21, state := if x.shaRdata.getLsbD 0 then .otpReq else .blkPollOtp }
  | .waitData =>
    if x.dataPending then
      q.feed (byteSwap x.dataInReg)
        (if q.lastWord then .waitIntr else if q.blkPtr = 31 then .blkPoll else .waitData)
    else q
  | .blkPoll =>
    { q with shaAddr := 0x21, state := if x.shaRdata.getLsbD 0 then .waitData else .blkPoll }
  | .waitIntr =>
    if x.shaIntr then { q with hashIdx := 0, shaAddr := 0x22, state := .readHash } else q
  | .readHash =>
    { q with
      hashReg := shiftWord 480 q.hashReg (byteSwap x.shaRdata)
      hashIdx := q.hashIdx + 1
      shaAddr := if q.hashIdx = 14 then 0x31 else 0x22 + (q.hashIdx.setWidth 6 + 1)
      state := if q.hashIdx = 14 then .readHashLast else .readHash }
  | .readHashLast =>
    { q with
      hashReg := shiftWord 480 q.hashReg (byteSwap x.shaRdata)
      loadIdx := 0
      state := .loadRegs }
  | .loadRegs => q.load x
  | .waitStart =>
    { q with
      edDsel := 0
      startLatch := false
      state := if q.startLatch then .edStart else .waitStart }
  | .edStart => { q with edStart := true, state := .edWait }
  | .edWait => { q with state := if x.edDone then .done else .edWait }
  | .done => q

/-- An abort walks back to the idle state and drops the counters. -/
def abort : Orch := { q with state := .idle, shaFed := 0, blkPtr := 0, otpIdx := 0, rIdx := 0 }

/-- One clock edge. -/
def step : Orch :=
  if x.ctrlSoftrst || x.ctrlAbort then (q.defaults x).abort else (q.defaults x).advance x

end Orch

/-! ## The CSR port -/

/-- The registers behind the CSR port. -/
structure TopCsr where
  csrRvalid : Bool
  csrRdata : BitVec 32
  rReg : BitVec 256
  sReg : BitVec 256
  msgLenCsr : BitVec 32
  dataInReg : BitVec 32
  dataPending : Bool

/-- The inputs of one cycle. -/
structure TopIn where
  csr : ObiReq
  startVerify : Bool
  otpData : BitVec 32

namespace TopIn

def ctrlOff : BitVec 12 := 0x000
def statusOff : BitVec 12 := 0x004
def msglenOff : BitVec 12 := 0x008
def rinOff : BitVec 12 := 0x00C
def sinOff : BitVec 12 := 0x010
def datainOff : BitVec 12 := 0x014

variable (x : TopIn)

/-- A CSR write to an offset. -/
def writes (off : BitVec 12) : Bool := x.csr.req && x.csr.we && x.csr.addr.extractLsb' 0 12 == off

def ctrlWr : Bool := x.writes ctrlOff
def msglenWr : Bool := x.writes msglenOff
def rinWr : Bool := x.writes rinOff
def sinWr : Bool := x.writes sinOff
def datainWr : Bool := x.writes datainOff

def ctrlStartW : Bool := x.ctrlWr && x.csr.wdata.getLsbD 0
def ctrlAbortW : Bool := x.ctrlWr && x.csr.wdata.getLsbD 1
def ctrlSoftrstW : Bool := x.ctrlWr && x.csr.wdata.getLsbD 2

end TopIn

structure TopMost where
  csr : TopCsr
  orch : Orch
  sha : ShaCore
  ed : EdTop

namespace TopMost

/-- The SHA core and the register file of the Ed25519 core keep some registers through a reset. -/
def reset (sha : ShaCore) (regs : BitVec 5 → Word) : TopMost where
  csr := ⟨false, 0, 0, 0, 0, 0, false⟩
  orch := .reset
  sha := sha.reset
  ed := .reset regs

variable (s : TopMost) (x : TopIn)

def edDone : Bool := s.ed.fsm.verifyDone

def verifyDoneO : Bool := s.edDone

def signatureValidO : Bool := s.ed.fsm.signatureValid

def bootActiveO : Bool := s.orch.bootQ && !s.edDone

def otpAddrO : BitVec 3 := s.orch.otpIdx

/-- `STATUS` -/
def busyBit : Bool := s.orch.state != .idle

def readyBit : Bool := s.orch.state == .waitData && !s.csr.dataPending

def doneBit : Bool := s.orch.state == .done

def status : BitVec 32 :=
  0#27 ++ BitVec.ofBool false ++ BitVec.ofBool s.signatureValidO ++ BitVec.ofBool s.doneBit ++
    BitVec.ofBool s.readyBit ++ BitVec.ofBool s.busyBit

def csrStep : TopCsr where
  csrRvalid := x.csr.req
  csrRdata :=
    if x.csr.req && !x.csr.we then
      (if x.csr.addr.extractLsb' 0 12 = TopIn.statusOff then s.status
      else if x.csr.addr.extractLsb' 0 12 = TopIn.msglenOff then s.csr.msgLenCsr
      else 0xDEADBEEF)
    else s.csr.csrRdata
  rReg := if x.rinWr then shiftWord 224 s.csr.rReg (byteSwap x.csr.wdata) else s.csr.rReg
  sReg := if x.sinWr then shiftWord 224 s.csr.sReg (byteSwap x.csr.wdata) else s.csr.sReg
  msgLenCsr := if x.msglenWr then x.csr.wdata else s.csr.msgLenCsr
  dataInReg := if x.datainWr then x.csr.wdata else s.csr.dataInReg
  dataPending :=
    if x.datainWr then true
    else if s.orch.state == .waitData && s.csr.dataPending then false
    else s.csr.dataPending

/-- The port of the SHA core. -/
def shaIn : ShaIn := ⟨s.orch.shaAddr, s.orch.shaWen, s.orch.shaWdata⟩

def shaRdata : BitVec 32 := s.sha.rdata s.orch.shaAddr

def orchIn : OrchIn where
  ctrlStart := x.ctrlStartW
  ctrlAbort := x.ctrlAbortW
  ctrlSoftrst := x.ctrlSoftrstW
  startVerify := x.startVerify
  msgLenCsr := s.csr.msgLenCsr
  rReg := s.csr.rReg
  sReg := s.csr.sReg
  dataInReg := s.csr.dataInReg
  dataPending := s.csr.dataPending
  shaRdata := s.shaRdata
  shaIntr := s.sha.intrO
  otpData := x.otpData
  edDone := s.edDone

/-- The ports of the Ed25519 core. -/
def edIn : EdIn where
  startVerify := s.orch.edStart
  extData1 := s.orch.edDin
  extData2 := 0
  otpData := 0
  dataSel := s.orch.edDsel
  extWe := s.orch.edExtWe
  extDestSel := s.orch.edDest

/-- One clock edge. -/
def step : TopMost where
  csr := s.csrStep x
  orch := s.orch.step (s.orchIn x)
  sha := s.sha.step s.shaIn
  ed := s.ed.step s.edIn

/-- A run from reset. -/
structure IsRun (r : ℕ → TopMost) (i : ℕ → TopIn) : Prop where
  reset : ∃ sha regs, r 0 = TopMost.reset sha regs
  step : ∀ t, r (t + 1) = (r t).step (i t)

end TopMost

end SentinelSoc
