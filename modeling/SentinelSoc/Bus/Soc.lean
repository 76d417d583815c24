/-
  The decoder with its slaves (`sentinel_soc_top.sv`).

  * `attachCtrl`, `attachIsram`: the decoder's inputs with a slave connected;
    `CtrlSys`, `IsramSys`, `BootSys`: the decoder with the control registers, with
    the ISRAM and with both, all other slaves being inputs;
  * `Soc`: the decoder with all slaves of the top, where each overflow wire
    settles on a solution of its equation if there is one.
-/
import SentinelSoc.Bus.Slaves

namespace SentinelSoc

/-! ## One or two slaves attached -/

/-- `soc_ctrl_regs` on the control port; its two bits gate the decoder. -/
def attachCtrl (c : CtrlRegs) (x : DecodeIn) : DecodeIn :=
  { x with ctrl := c.rsp, bootDone := c.bootDoneQ, ctrlIsramLock := c.isramLockQ }

/-- `soc_sram` on the ISRAM port. -/
def attachIsram {a : ℕ} (m : Sram a) (x : DecodeIn) : DecodeIn := { x with isram := m.rsp }

/-- The decoder and the control registers; `crypto_verified_i` is the wire of `fw_verified_i`. -/
structure CtrlSys where
  dec : AddrDecode
  ctrl : CtrlRegs

namespace CtrlSys

def reset : CtrlSys := ⟨AddrDecode.reset, CtrlRegs.reset⟩

/-- The decoder's inputs in this cycle. -/
def input (s : CtrlSys) (x : DecodeIn) : DecodeIn := attachCtrl s.ctrl x

def step (s : CtrlSys) (x : DecodeIn) : CtrlSys where
  dec := s.dec.step (s.input x)
  ctrl := s.ctrl.step (s.dec.ctrlReq (s.input x)) x.fwVerified

end CtrlSys

/-- The decoder and the ISRAM. -/
structure IsramSys (a : ℕ) where
  dec : AddrDecode
  isram : Sram a

namespace IsramSys

variable {a : ℕ}

def reset (mem : BitVec a → BitVec 32) : IsramSys a := ⟨AddrDecode.reset, Sram.reset mem⟩

def input (s : IsramSys a) (x : DecodeIn) : DecodeIn := attachIsram s.isram x

def step (s : IsramSys a) (x : DecodeIn) : IsramSys a where
  dec := s.dec.step (s.input x)
  isram := s.isram.step (s.dec.isramReq (s.input x))

end IsramSys

/-- The decoder, the control registers and the ISRAM. -/
structure BootSys (a : ℕ) where
  dec : AddrDecode
  ctrl : CtrlRegs
  isram : Sram a

namespace BootSys

variable {a : ℕ}

/-- Reset clears all registers; the ISRAM array keeps whatever it holds. -/
def reset (mem : BitVec a → BitVec 32) : BootSys a :=
  ⟨AddrDecode.reset, CtrlRegs.reset, Sram.reset mem⟩

def input (s : BootSys a) (x : DecodeIn) : DecodeIn := attachCtrl s.ctrl (attachIsram s.isram x)

def step (s : BootSys a) (x : DecodeIn) : BootSys a where
  dec := s.dec.step (s.input x)
  ctrl := s.ctrl.step (s.dec.ctrlReq (s.input x)) x.fwVerified
  isram := s.isram.step (s.dec.isramReq (s.input x))

end BootSys

/-! ## All slaves attached -/

/-- The inputs of one cycle: the core's, and what comes from blocks that are not modelled. The
    last two are the overflow wires in a cycle whose equations do not fix them. -/
structure SocIn extends CoreIn where
  fwVerified : Bool
  apbRsp : ApbRsp
  dbgRdata : BitVec 32
  buf : SlaveRsp
  sha : SlaveRsp
  plic : SlaveRsp
  dataFree : Bool
  fetchFree : Bool

/-- The state; the three memories have 1024 words. -/
structure Soc where
  dec : AddrDecode
  bootrom : Bootrom 10
  isram : Sram 10
  dsram : Sram 10
  ctrl : CtrlRegs
  apb : ObiToApb
  dbgRvalidQ : Bool

namespace Soc

def reset (rom isram dsram : BitVec 10 → BitVec 32) : Soc where
  dec := AddrDecode.reset
  bootrom := Bootrom.reset rom
  isram := Sram.reset isram
  dsram := Sram.reset dsram
  ctrl := CtrlRegs.reset
  apb := ObiToApb.reset
  dbgRvalidQ := false

/-- The decoder's inputs under given values of the overflow wires. -/
def inputAt (s : Soc) (i : SocIn) (dataOverflow fetchOverflow : Bool) : DecodeIn where
  toCoreIn := i.toCoreIn
  bootrom := s.bootrom.rsp
  isram := s.isram.rsp
  dsram := s.dsram.rsp
  ctrl := s.ctrl.rsp
  buf := i.buf
  sha := i.sha
  plic := i.plic
  apb := s.apb.rsp i.apbRsp
  dbg := dbgRspOf s.dbgRvalidQ i.dbgRdata
  ctrlIsramLock := s.ctrl.isramLockQ
  bootDone := s.ctrl.bootDoneQ
  fwVerified := i.fwVerified
  dataOverflow := dataOverflow
  fetchOverflow := fetchOverflow

/-- The overflow wire of the data demultiplexer. It does not hang on the fetch side
    (`dataDrive_inputAt`). -/
def dataOverflow (s : Soc) (i : SocIn) : Bool :=
  Sync.settle (fun ov => s.dec.dataDrive (s.inputAt i ov false)) i.dataFree

def fetchOverflow (s : Soc) (i : SocIn) : Bool :=
  Sync.settle (fun ov => s.dec.fetchDrive (s.inputAt i (s.dataOverflow i) ov)) i.fetchFree

/-- The decoder's inputs in this cycle. -/
def input (s : Soc) (i : SocIn) : DecodeIn := s.inputAt i (s.dataOverflow i) (s.fetchOverflow i)

def step (s : Soc) (i : SocIn) : Soc :=
  let x := s.input i
  { dec := s.dec.step x
    bootrom := s.bootrom.step (s.dec.bootromReq x)
    isram := s.isram.step (s.dec.isramReq x)
    dsram := s.dsram.step (s.dec.dsramReq x)
    ctrl := s.ctrl.step (s.dec.ctrlReq x) i.fwVerified
    apb := s.apb.step (s.dec.apbReq x) i.apbRsp
    dbgRvalidQ := (s.dec.dbgReq x).req }

variable {s : Soc} {i : SocIn}

@[simp] theorem input_toCoreIn : (s.input i).toCoreIn = i.toCoreIn := rfl

@[simp] theorem input_fwVerified : (s.input i).fwVerified = i.fwVerified := rfl

@[simp] theorem input_isram : (s.input i).isram = s.isram.rsp := rfl

theorem step_isram_rvalid :
    (s.step i).isram.rvalid = (s.dec.isramReq (s.input i)).req := by
  simp only [step, Sram.step_rvalid]

/-- The ISRAM grants at once: every request changes the owner. -/
theorem step_isramRespIsDataQ : (s.step i).dec.isramRespIsDataQ =
    if (s.dec.isramReq (s.input i)).req then s.dec.isramDataActive (s.input i)
    else s.dec.isramRespIsDataQ := by
  simp only [step, AddrDecode.step, input_isram, Sram.rsp_gnt, Bool.and_self]

end Soc

end SentinelSoc
