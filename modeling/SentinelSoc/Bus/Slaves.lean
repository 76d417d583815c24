/-
  The slaves behind the decoder: the control registers (`soc_ctrl_regs.sv`), the
  SRAMs (`soc_sram.sv`), the boot ROM (`soc_bootrom.sv`), the APB bridge
  (`obi_to_apb.sv`) and the grant and valid wires of the debug module
  (`sentinel_soc_top.sv`).

  Each has its registers as a structure, `rsp` for what it drives and `step` for
  the clock edge.
-/
import SentinelSoc.Bus.AddrDecode

namespace SentinelSoc

/-! ## Control registers -/

structure CtrlRegs where
  isramLockQ : Bool
  bootDoneQ : Bool
  rvalid : Bool
  rdata : BitVec 32

namespace CtrlRegs

def ctrl0Offset : BitVec 12 := 0x000
def status0Offset : BitVec 12 := 0x004
def bootStatusOffset : BitVec 12 := 0x008
def ctrl1Offset : BitVec 12 := 0x00C

/-- `addr_i[11:0]`. -/
def offset (addr : BitVec 32) : BitVec 12 := addr.extractLsb' 0 12

def reset : CtrlRegs := ⟨false, false, false, 0⟩

/-- Grants at once; no error conditions. -/
def rsp (c : CtrlRegs) : SlaveRsp := ⟨fun r => r.req, c.rvalid, c.rdata, false⟩

/-- A write that sets bit 0 of the register at `off`. -/
def sets (r : ObiReq) (off : BitVec 12) : Bool :=
  r.req && r.we && offset r.addr == off && r.be.getLsbD 0 && r.wdata.getLsbD 0

/-- The word that a read latches. -/
def readWord (c : CtrlRegs) (cryptoVerified : Bool) (addr : BitVec 32) : BitVec 32 :=
  if offset addr = ctrl0Offset then (BitVec.ofBool c.isramLockQ).setWidth 32
  else if offset addr = status0Offset then
    (BitVec.ofBool c.isramLockQ ++ BitVec.ofBool cryptoVerified).setWidth 32
  else if offset addr = bootStatusOffset then (BitVec.ofBool c.bootDoneQ).setWidth 32
  else if offset addr = ctrl1Offset then 0
  else 0xDEADBEEF

def step (c : CtrlRegs) (r : ObiReq) (cryptoVerified : Bool) : CtrlRegs where
  isramLockQ := if sets r ctrl0Offset then true else c.isramLockQ
  bootDoneQ := if sets r ctrl1Offset then true else c.bootDoneQ
  rvalid := r.req
  rdata := if r.req && !r.we then c.readWord cryptoVerified r.addr else c.rdata

variable {c : CtrlRegs} {r : ObiReq} {v : Bool}

@[simp] theorem rsp_gnt : c.rsp.gnt r = r.req := rfl

@[simp] theorem step_rvalid : (c.step r v).rvalid = r.req := rfl

/-- Both bits are sticky. -/
theorem step_isramLockQ (h : c.isramLockQ = true) : (c.step r v).isramLockQ = true := by
  simp [step, h]

theorem step_bootDoneQ (h : c.bootDoneQ = true) : (c.step r v).bootDoneQ = true := by
  simp [step, h]

theorem sets_of_not_write (h : (r.req && r.we) = false) (off : BitVec 12) :
    sets r off = false := by
  simp [sets, h]

/-- Only a write changes them. -/
theorem step_of_not_write (h : (r.req && r.we) = false) :
    (c.step r v).isramLockQ = c.isramLockQ ∧ (c.step r v).bootDoneQ = c.bootDoneQ := by
  simp [step, sets_of_not_write h]

end CtrlRegs

/-! ## SRAM -/

/-- An SRAM of `2 ^ a` words. -/
structure Sram (a : ℕ) where
  mem : BitVec a → BitVec 32
  rvalid : Bool
  rdata : BitVec 32

/-- `word_idx = addr_i[AddrBits+1:2]`. -/
def wordIdx (a : ℕ) (addr : BitVec 32) : BitVec a := addr.extractLsb' 2 a

/-- One byte lane: the new byte if its enable is set. -/
def lane (be : BitVec 4) (new old : BitVec 32) (k : ℕ) : BitVec 8 :=
  if be.getLsbD k then new.extractLsb' (8 * k) 8 else old.extractLsb' (8 * k) 8

/-- A word after a write with byte enables. -/
def writeWord (be : BitVec 4) (new old : BitVec 32) : BitVec 32 :=
  lane be new old 3 ++ lane be new old 2 ++ lane be new old 1 ++ lane be new old 0

namespace Sram

variable {a : ℕ}

/-- Reset does not touch the array. -/
def reset (mem : BitVec a → BitVec 32) : Sram a := ⟨mem, false, 0⟩

/-- Grants at once; no out-of-range checking. -/
def rsp (m : Sram a) : SlaveRsp := ⟨fun r => r.req, m.rvalid, m.rdata, false⟩

/-- The data of a request: what is read, and 0 for a write. -/
def answer (m : Sram a) (r : ObiReq) : BitVec 32 :=
  if r.we then 0 else m.mem (wordIdx a r.addr)

def step (m : Sram a) (r : ObiReq) : Sram a where
  mem := if r.req && r.we then
      Function.update m.mem (wordIdx a r.addr)
        (writeWord r.be r.wdata (m.mem (wordIdx a r.addr)))
    else m.mem
  rvalid := r.req
  rdata := if r.req then m.answer r else m.rdata

variable {m : Sram a} {r : ObiReq}

@[simp] theorem rsp_gnt : m.rsp.gnt r = r.req := rfl

@[simp] theorem rsp_rvalid : m.rsp.rvalid = m.rvalid := rfl

@[simp] theorem rsp_rdata : m.rsp.rdata = m.rdata := rfl

@[simp] theorem rsp_err : m.rsp.err = false := rfl

@[simp] theorem step_rvalid : (m.step r).rvalid = r.req := rfl

theorem step_rdata (h : r.req = true) : (m.step r).rdata = m.answer r := by
  simp [step, h]

theorem step_mem_of_not_we (h : r.we = false) : (m.step r).mem = m.mem := by
  simp [step, h]

end Sram

/-! ## Boot ROM -/

/-- A ROM of `2 ^ a` words, whose contents never change. -/
structure Bootrom (a : ℕ) where
  mem : BitVec a → BitVec 32
  rvalid : Bool
  rdata : BitVec 32

namespace Bootrom

variable {a : ℕ}

def reset (mem : BitVec a → BitVec 32) : Bootrom a := ⟨mem, false, 0⟩

def rsp (m : Bootrom a) : SlaveRsp := ⟨fun r => r.req, m.rvalid, m.rdata, false⟩

def step (m : Bootrom a) (r : ObiReq) : Bootrom a where
  mem := m.mem
  rvalid := r.req
  rdata := if r.req then m.mem (wordIdx a r.addr) else m.rdata

end Bootrom

/-! ## APB bridge -/

/-- What the APB side answers in a cycle. -/
structure ApbRsp where
  pready : Bool
  prdata : BitVec 32
  pslverr : Bool

/-- What the bridge drives on the APB side (`pprot` is constant). -/
structure ApbReq where
  psel : Bool
  penable : Bool
  paddr : BitVec 32
  pwrite : Bool
  pstrb : BitVec 4
  pwdata : BitVec 32
  deriving DecidableEq

/-- The registers of `obi_to_apb` (with the default `EnableSameCycleRsp = 0`). -/
structure ObiToApb where
  tsxnInProgress : Bool
  addrQ : BitVec 32
  wdataQ : BitVec 32
  weQ : Bool
  beQ : BitVec 4

namespace ObiToApb

def reset : ObiToApb := ⟨false, 0, 0, false, 0⟩

def rsp (b : ObiToApb) (p : ApbRsp) : SlaveRsp where
  gnt _ := !b.tsxnInProgress
  rvalid := p.pready && b.tsxnInProgress
  rdata := p.prdata
  err := p.pslverr

/-- The APB request: the latched one while a transaction is in progress. -/
def apbReq (b : ObiToApb) (r : ObiReq) : ApbReq :=
  let we := if b.tsxnInProgress then b.weQ else r.we
  let be := if b.tsxnInProgress then b.beQ else r.be
  { psel := r.req || b.tsxnInProgress
    penable := b.tsxnInProgress
    paddr := if b.tsxnInProgress then b.addrQ else r.addr
    pwrite := we
    pstrb := if we then be else 0
    pwdata := if b.tsxnInProgress then b.wdataQ else r.wdata }

def step (b : ObiToApb) (r : ObiReq) (p : ApbRsp) : ObiToApb :=
  let take := r.req && !b.tsxnInProgress
  { tsxnInProgress := if b.tsxnInProgress then !p.pready else r.req
    addrQ := if take then r.addr else b.addrQ
    wdataQ := if take then r.wdata else b.wdataQ
    weQ := if take then r.we else b.weQ
    beQ := if take then r.be else b.beQ }

end ObiToApb

/-! ## Debug module -/

/-- `dbg_gnt = 1` and `dbg_rvalid_q`; the word comes from the debug module. -/
def dbgRspOf (rvalidQ : Bool) (rdata : BitVec 32) : SlaveRsp := ⟨fun _ => true, rvalidQ, rdata, false⟩

end SentinelSoc
