/-
  The address decoder (`soc_addr_decode.sv`): the access-control model, the data
  and fetch decodes, one demultiplexer for each core port, and the arbiters in
  front of the slaves.

  * `DecodeIn` holds all inputs of one cycle, with the value of the overflow wire
    of each demultiplexer; a slave's grant may depend on the request it sees;
  * `dataMgrRsp` and `fetchMgrRsp` are the responses that the arbiters give the
    demultiplexers for any requests; `dataCntDown_eq` and `fetchCntDown_eq`: the
    wires `dataMgrReq` and `fetchMgrReq` solve the equations that tie the two;
  * `step` is the clock edge.
-/
import SentinelSoc.Bus.Demux

namespace SentinelSoc

/-! ## Inputs and registers -/

/-- What a slave drives. -/
structure SlaveRsp where
  gnt : ObiReq → Bool
  rvalid : Bool
  rdata : BitVec 32
  err : Bool

/-- `data_sel_e`. -/
inductive DataSel where
  | bootrom | isram | dsram | ctrl | buf | sha | plic | apb | dbg | err
  deriving DecidableEq

instance : Fintype DataSel where
  elems := {.bootrom, .isram, .dsram, .ctrl, .buf, .sha, .plic, .apb, .dbg, .err}
  complete p := by cases p <;> decide

/-- `fetch_sel_e`. -/
inductive FetchSel where
  | bootrom | isram | dbg
  deriving DecidableEq

instance : Fintype FetchSel where
  elems := {.bootrom, .isram, .dbg}
  complete p := by cases p <;> decide

/-- The core's side of the decoder: both ports, and the debug mode. -/
structure CoreIn where
  instrReq : Bool
  instrAddr : BitVec 32
  dataReq : Bool
  dataWe : Bool
  dataBe : BitVec 4
  dataAddr : BitVec 32
  dataWdata : BitVec 32
  dbgMode : Bool

/-- The inputs of one cycle. The debug module has no error output: its `err` is not read. -/
structure DecodeIn extends CoreIn where
  bootrom : SlaveRsp
  isram : SlaveRsp
  dsram : SlaveRsp
  ctrl : SlaveRsp
  buf : SlaveRsp
  sha : SlaveRsp
  plic : SlaveRsp
  apb : SlaveRsp
  dbg : SlaveRsp
  ctrlIsramLock : Bool
  bootDone : Bool
  fwVerified : Bool
  dataOverflow : Bool
  fetchOverflow : Bool

/-- The registers. `idx_width(NumMaxTrans) = 1` for the two transactions the SoC allows. -/
structure AddrDecode where
  data : Demux 1 DataSel
  fetch : Demux 1 FetchSel
  isramFetchBlockedQ : Bool
  isramRespIsDataQ : Bool
  errRvalidQ : Bool

/-! ## Decodes -/

def bootromBase : BitVec 32 := 0x00000000
def isramBase : BitVec 32 := 0x00010000
def dsramBase : BitVec 32 := 0x00020000
def ctrlBase : BitVec 32 := 0x00030000
def bufBase : BitVec 32 := 0x00040000
def shaBase : BitVec 32 := 0x00050000
def plicBase : BitVec 32 := 0x0C000000
def dbgBase : BitVec 32 := 0x1A110000
def apbBase : BitVec 32 := 0x10000000

/-- The mask of the 4 KB windows. -/
def mask4K : BitVec 32 := 0xFFFFF000
def plicMask : BitVec 32 := 0xFFC00000
def dbgMask : BitVec 32 := 0xFFFF0000
def apbMask : BitVec 32 := 0xF0000000

/-- `(addr & MASK) == BASE`. -/
def hit (addr mask base : BitVec 32) : Bool := addr &&& mask == base

namespace DecodeIn

/-- `data_req_s`. -/
def dataReqS (x : DecodeIn) : ObiReq := ⟨x.dataReq, x.dataAddr, x.dataWe, x.dataBe, x.dataWdata⟩

/-- `fetch_req_s`: a fetch is always a read. -/
def fetchReqS (x : DecodeIn) : ObiReq := ⟨x.instrReq, x.instrAddr, false, 0xF, 0⟩

/-- `priv_hit`. -/
def privHit (x : DecodeIn) : Bool :=
  hit x.dataAddr mask4K ctrlBase || hit x.dataAddr mask4K bufBase || hit x.dataAddr mask4K shaBase

def privWriteOk (x : DecodeIn) : Bool := !x.bootDone

def privReadOk (x : DecodeIn) : Bool := !x.bootDone || x.dbgMode

def privDenied (x : DecodeIn) : Bool :=
  x.privHit && (if x.dataWe then !x.privWriteOk else !x.privReadOk)

def dataSel (x : DecodeIn) : DataSel :=
  if hit x.dataAddr mask4K bootromBase then .err -- fetch-only
  else if hit x.dataAddr mask4K isramBase then .isram
  else if hit x.dataAddr mask4K dsramBase then .dsram
  else if x.privDenied then .err
  else if hit x.dataAddr mask4K ctrlBase then .ctrl
  else if hit x.dataAddr mask4K bufBase then .err -- unimplemented
  else if hit x.dataAddr mask4K shaBase then .err -- unimplemented
  else if hit x.dataAddr plicMask plicBase then .err -- unimplemented
  else if hit x.dataAddr dbgMask dbgBase then .err -- unimplemented
  else if hit x.dataAddr apbMask apbBase then .apb
  else .err

def fetchSel (x : DecodeIn) : FetchSel :=
  if hit x.instrAddr mask4K isramBase then .isram
  else if hit x.instrAddr dbgMask dbgBase then .dbg
  else .bootrom

end DecodeIn

/-! ## Arbiters

What the slaves are asked and what the demultiplexers are answered, from the requests `data` and
`fetch` at the manager ports concerned. -/

namespace AddrDecode

/-- `isram_req_o` and the other ISRAM outputs: the data port wins, its writes are gated by the lock
    and by debug mode; the fetch port is gated by `fw_verified_i`. -/
def isramArb (x : DecodeIn) (data fetch : ObiReq) : ObiReq :=
  if data.req then
    ⟨true, data.addr, data.we && !x.ctrlIsramLock && !x.dbgMode, data.be, data.wdata⟩
  else if fetch.req then
    if x.fwVerified then ⟨true, fetch.addr, false, 0xF, 0⟩ else ObiReq.idle
  else ObiReq.idle

/-- `data_mgr_rsp[SEL_ISRAM]`. The error is that of the live request; valid and data go to the
    port that was latched as the owner. -/
def isramDataRsp (s : AddrDecode) (x : DecodeIn) (data fetch : ObiReq) : ObiRsp :=
  let r : ObiRsp :=
    if data.req then
      { ObiRsp.idle with
        gnt := x.isram.gnt (isramArb x data fetch)
        err := x.isram.err || (data.we && (x.ctrlIsramLock || x.dbgMode)) }
    else ObiRsp.idle
  if s.isramRespIsDataQ then { r with rvalid := x.isram.rvalid, rdata := x.isram.rdata } else r

/-- `fetch_mgr_rsp[FSEL_ISRAM]`. The last assignment overwrites the answer to a blocked fetch. -/
def isramFetchRsp (s : AddrDecode) (x : DecodeIn) (data fetch : ObiReq) : ObiRsp :=
  let r : ObiRsp :=
    if data.req then ObiRsp.idle
    else if fetch.req then
      if x.fwVerified then { ObiRsp.idle with gnt := x.isram.gnt (isramArb x data fetch) }
      else ⟨true, s.isramFetchBlockedQ, 0xDEADBEEF, true⟩
    else ObiRsp.idle
  if s.isramRespIsDataQ then r
  else { r with rvalid := x.isram.rvalid, rdata := x.isram.rdata, err := x.isram.err }

/-- `dbg_req_o` and the other debug outputs: the data port wins. -/
def dbgArb (data fetch : ObiReq) : ObiReq :=
  if data.req then data
  else if fetch.req then ⟨true, fetch.addr, false, 0xF, 0⟩
  else ObiReq.idle

/-- The response of the debug module, passed on only while the port's request is live. -/
def dbgRsp (x : DecodeIn) (active : Bool) (req : ObiReq) : ObiRsp :=
  if active then ⟨x.dbg.gnt req, x.dbg.rvalid, x.dbg.rdata, false⟩ else ObiRsp.idle

/-- A slave behind the data port only. -/
def passRsp (slave : SlaveRsp) (req : ObiReq) : ObiRsp :=
  ⟨slave.gnt req, slave.rvalid, slave.rdata, slave.err⟩

/-- `data_mgr_rsp`, from `data_mgr_req` and `fetch_mgr_req`. -/
def dataMgrRsp (s : AddrDecode) (x : DecodeIn) (data : DataSel → ObiReq)
    (fetch : FetchSel → ObiReq) : DataSel → ObiRsp
  | .bootrom => ⟨false, false, 0, true⟩ -- not implemented
  | .isram => s.isramDataRsp x (data .isram) (fetch .isram)
  | .dsram => passRsp x.dsram (data .dsram)
  | .ctrl => passRsp x.ctrl (data .ctrl)
  | .buf => passRsp x.buf (data .buf)
  | .sha => passRsp x.sha (data .sha)
  | .plic => passRsp x.plic (data .plic)
  | .apb => passRsp x.apb (data .apb)
  | .dbg => dbgRsp x (data .dbg).req (dbgArb (data .dbg) (fetch .dbg))
  | .err => ⟨(data .err).req, s.errRvalidQ, 0xDEADBEEF, true⟩

/-- `bootrom_req_o`: the ROM is read-only. -/
def bootromArb (fetch : ObiReq) : ObiReq := { fetch with we := false, wdata := 0 }

/-- `fetch_mgr_rsp`. -/
def fetchMgrRsp (s : AddrDecode) (x : DecodeIn) (data : DataSel → ObiReq)
    (fetch : FetchSel → ObiReq) : FetchSel → ObiRsp
  | .bootrom => passRsp x.bootrom (bootromArb (fetch .bootrom))
  | .isram => s.isramFetchRsp x (data .isram) (fetch .isram)
  | .dbg => dbgRsp x ((fetch .dbg).req && !(data .dbg).req) (dbgArb (data .dbg) (fetch .dbg))

/-! ## Wires -/

/-- The requests that the data demultiplexer sends out if `down` is its `cnt_down`. -/
def dataReqAt (s : AddrDecode) (x : DecodeIn) (down : Bool) : DataSel → ObiReq :=
  s.data.mgrReq x.dataOverflow down x.dataSel x.dataReqS

/-- `cnt_down` of the data demultiplexer: the response at `select_q`. It hangs on no request but
    the one at `select_q` itself, and that one not on `cnt_down`. -/
def dataCntDown (s : AddrDecode) (x : DecodeIn) : Bool :=
  (s.dataMgrRsp x (s.dataReqAt x false) (fun _ => ObiReq.idle) s.data.selectQ).rvalid

/-- `data_mgr_req`. -/
def dataMgrReq (s : AddrDecode) (x : DecodeIn) : DataSel → ObiReq :=
  s.dataReqAt x (s.dataCntDown x)

def fetchReqAt (s : AddrDecode) (x : DecodeIn) (down : Bool) : FetchSel → ObiReq :=
  s.fetch.mgrReq x.fetchOverflow down x.fetchSel x.fetchReqS

def fetchCntDown (s : AddrDecode) (x : DecodeIn) : Bool :=
  (s.fetchMgrRsp x (s.dataMgrReq x) (s.fetchReqAt x false) s.fetch.selectQ).rvalid

/-- `fetch_mgr_req`. -/
def fetchMgrReq (s : AddrDecode) (x : DecodeIn) : FetchSel → ObiReq :=
  s.fetchReqAt x (s.fetchCntDown x)

/-- `data_mgr_rsp`. -/
def dataRsp (s : AddrDecode) (x : DecodeIn) : DataSel → ObiRsp :=
  s.dataMgrRsp x (s.dataMgrReq x) (s.fetchMgrReq x)

/-- `fetch_mgr_rsp`. -/
def fetchRsp (s : AddrDecode) (x : DecodeIn) : FetchSel → ObiRsp :=
  s.fetchMgrRsp x (s.dataMgrReq x) (s.fetchMgrReq x)

def dataCntUp (s : AddrDecode) (x : DecodeIn) : Bool :=
  s.data.cntUp x.dataOverflow (s.dataCntDown x) x.dataSel x.dataReqS (s.dataRsp x x.dataSel).gnt

def fetchCntUp (s : AddrDecode) (x : DecodeIn) : Bool :=
  s.fetch.cntUp x.fetchOverflow (s.fetchCntDown x) x.fetchSel x.fetchReqS
    (s.fetchRsp x x.fetchSel).gnt

/-- The overflow wires as the counters drive them. -/
def dataDrive (s : AddrDecode) (x : DecodeIn) : Bool :=
  s.data.overflow (s.dataCntUp x) (s.dataCntDown x)

def fetchDrive (s : AddrDecode) (x : DecodeIn) : Bool :=
  s.fetch.overflow (s.fetchCntUp x) (s.fetchCntDown x)

/-! ## Outputs -/

def dataGnt (s : AddrDecode) (x : DecodeIn) : Bool :=
  s.data.sbrGnt x.dataOverflow (s.dataCntDown x) x.dataSel (s.dataRsp x x.dataSel).gnt

def dataRvalid (s : AddrDecode) (x : DecodeIn) : Bool := (s.dataRsp x s.data.selectQ).rvalid
def dataRdata (s : AddrDecode) (x : DecodeIn) : BitVec 32 := (s.dataRsp x s.data.selectQ).rdata
def dataErr (s : AddrDecode) (x : DecodeIn) : Bool := (s.dataRsp x s.data.selectQ).err

def instrGnt (s : AddrDecode) (x : DecodeIn) : Bool :=
  s.fetch.sbrGnt x.fetchOverflow (s.fetchCntDown x) x.fetchSel (s.fetchRsp x x.fetchSel).gnt

def instrRvalid (s : AddrDecode) (x : DecodeIn) : Bool := (s.fetchRsp x s.fetch.selectQ).rvalid
def instrRdata (s : AddrDecode) (x : DecodeIn) : BitVec 32 := (s.fetchRsp x s.fetch.selectQ).rdata
def instrErr (s : AddrDecode) (x : DecodeIn) : Bool := (s.fetchRsp x s.fetch.selectQ).err

def bootromReq (s : AddrDecode) (x : DecodeIn) : ObiReq := bootromArb (s.fetchMgrReq x .bootrom)
def isramReq (s : AddrDecode) (x : DecodeIn) : ObiReq :=
  isramArb x (s.dataMgrReq x .isram) (s.fetchMgrReq x .isram)
def dsramReq (s : AddrDecode) (x : DecodeIn) : ObiReq := s.dataMgrReq x .dsram
def ctrlReq (s : AddrDecode) (x : DecodeIn) : ObiReq := s.dataMgrReq x .ctrl
def bufReq (s : AddrDecode) (x : DecodeIn) : ObiReq := s.dataMgrReq x .buf
def shaReq (s : AddrDecode) (x : DecodeIn) : ObiReq := s.dataMgrReq x .sha
def plicReq (s : AddrDecode) (x : DecodeIn) : ObiReq := s.dataMgrReq x .plic
def apbReq (s : AddrDecode) (x : DecodeIn) : ObiReq := s.dataMgrReq x .apb
def dbgReq (s : AddrDecode) (x : DecodeIn) : ObiReq :=
  dbgArb (s.dataMgrReq x .dbg) (s.fetchMgrReq x .dbg)

/-! ## Clock edge -/

def isramDataActive (s : AddrDecode) (x : DecodeIn) : Bool := (s.dataMgrReq x .isram).req

def isramFetchActive (s : AddrDecode) (x : DecodeIn) : Bool :=
  (s.fetchMgrReq x .isram).req && !s.isramDataActive x

def reset : AddrDecode where
  data := ⟨0, .bootrom⟩
  fetch := ⟨0, .bootrom⟩
  isramFetchBlockedQ := false
  isramRespIsDataQ := false
  errRvalidQ := false

def step (s : AddrDecode) (x : DecodeIn) : AddrDecode where
  data := s.data.step (s.dataCntUp x) (s.dataCntDown x) x.dataSel
  fetch := s.fetch.step (s.fetchCntUp x) (s.fetchCntDown x) x.fetchSel
  isramFetchBlockedQ := s.isramFetchActive x && !x.fwVerified
  isramRespIsDataQ :=
    if (s.isramReq x).req && x.isram.gnt (s.isramReq x) then s.isramDataActive x
    else s.isramRespIsDataQ
  errRvalidQ := (s.dataMgrReq x .err).req && (s.dataRsp x .err).gnt

/-! ## The wires solve their equations -/

variable {s : AddrDecode} {x : DecodeIn} {d d' : DataSel → ObiReq} {f f' : FetchSel → ObiReq}

theorem isramDataRsp_rvalid (r r' : ObiReq) :
    (s.isramDataRsp x r r').rvalid = (s.isramRespIsDataQ && x.isram.rvalid) := by
  unfold isramDataRsp
  cases s.isramRespIsDataQ <;> cases r.req <;> rfl

theorem isramDataRsp_rdata (h : s.isramRespIsDataQ = true) (r r' : ObiReq) :
    (s.isramDataRsp x r r').rdata = x.isram.rdata := by
  simp [isramDataRsp, h]

/-- The error bit is that of the live request, whoever owns the response. -/
theorem isramDataRsp_err (r r' : ObiReq) : (s.isramDataRsp x r r').err =
    (r.req && (x.isram.err || (r.we && (x.ctrlIsramLock || x.dbgMode)))) := by
  unfold isramDataRsp
  cases s.isramRespIsDataQ <;> cases r.req <;> rfl

/-- The answer to a blocked fetch comes out only while the port of the last owner is the data
    port, and a blocked fetch is live. -/
theorem isramFetchRsp_rvalid (r r' : ObiReq) : (s.isramFetchRsp x r r').rvalid =
    if s.isramRespIsDataQ then !r.req && r'.req && !x.fwVerified && s.isramFetchBlockedQ
    else x.isram.rvalid := by
  unfold isramFetchRsp
  cases s.isramRespIsDataQ <;> cases r.req <;> cases r'.req <;> cases x.fwVerified <;> rfl

theorem isramFetchRsp_gnt (r r' : ObiReq) : (s.isramFetchRsp x r r').gnt =
    (!r.req && r'.req && (!x.fwVerified || x.isram.gnt (isramArb x r r'))) := by
  unfold isramFetchRsp
  cases s.isramRespIsDataQ <;> cases r.req <;> cases r'.req <;> cases x.fwVerified <;> rfl

theorem isramFetchRsp_owned (h : s.isramRespIsDataQ = false) (r r' : ObiReq) :
    (s.isramFetchRsp x r r').rdata = x.isram.rdata ∧ (s.isramFetchRsp x r r').err = x.isram.err := by
  simp [isramFetchRsp, h]

theorem isramFetchRsp_blocked (h : s.isramRespIsDataQ = true) {r r' : ObiReq}
    (hr : r.req = false) (hr' : r'.req = true) (hf : x.fwVerified = false) :
    (s.isramFetchRsp x r r').rdata = 0xDEADBEEF ∧ (s.isramFetchRsp x r r').err = true := by
  simp [isramFetchRsp, h, hr, hr', hf]

theorem dataMgrRsp_rvalid_congr {port : DataSel} (h : d port = d' port) :
    (s.dataMgrRsp x d f port).rvalid = (s.dataMgrRsp x d' f' port).rvalid := by
  cases port <;> try rfl
  · simp only [dataMgrRsp, isramDataRsp_rvalid]
  · simp only [dataMgrRsp, dbgRsp, h]
    split_ifs <;> rfl

theorem fetchMgrRsp_rvalid_congr {port : FetchSel} (h : f port = f' port) :
    (s.fetchMgrRsp x d f port).rvalid = (s.fetchMgrRsp x d f' port).rvalid := by
  cases port <;> simp only [fetchMgrRsp, h, passRsp]

/-- **`cnt_down` is the response of `select_q`**, with the requests that come out in the end. -/
theorem dataCntDown_eq (s : AddrDecode) (x : DecodeIn) : s.dataCntDown x = s.dataRvalid x :=
  dataMgrRsp_rvalid_congr Demux.mgrReq_selectQ

theorem fetchCntDown_eq (s : AddrDecode) (x : DecodeIn) : s.fetchCntDown x = s.instrRvalid x :=
  fetchMgrRsp_rvalid_congr Demux.mgrReq_selectQ

theorem isramArb_req (r r' : ObiReq) :
    (isramArb x r r').req = (r.req || (r'.req && x.fwVerified)) := by
  unfold isramArb
  cases r.req <;> cases r'.req <;> cases x.fwVerified <;> rfl

theorem isramReq_req : (s.isramReq x).req =
    (s.isramDataActive x || ((s.fetchMgrReq x .isram).req && x.fwVerified)) := isramArb_req _ _

/-! ## What the demultiplexers send out -/

theorem dataMgrReq_of_ne {port : DataSel} (h : port ≠ x.dataSel) :
    s.dataMgrReq x port = ObiReq.idle := Demux.mgrReq_of_ne h

theorem dataMgrReq_of_req {port : DataSel} (h : (s.dataMgrReq x port).req = true) :
    port = x.dataSel ∧ s.dataMgrReq x port = x.dataReqS := (Demux.mgrReq_of_req h).2

theorem fetchMgrReq_of_req {port : FetchSel} (h : (s.fetchMgrReq x port).req = true) :
    port = x.fetchSel ∧ s.fetchMgrReq x port = x.fetchReqS := (Demux.mgrReq_of_req h).2

/-- A grant at the core's port is a request taken by the selected slave. -/
theorem dataCntUp_eq_gnt : s.dataCntUp x = (x.dataReq && s.dataGnt x) := by
  unfold dataCntUp dataGnt Demux.sbrGnt
  rw [Demux.cntUp_eq, Bool.and_assoc, Bool.and_left_comm]
  rfl

theorem fetchCntUp_eq_gnt : s.fetchCntUp x = (x.instrReq && s.instrGnt x) := by
  unfold fetchCntUp instrGnt Demux.sbrGnt
  rw [Demux.cntUp_eq, Bool.and_assoc, Bool.and_left_comm]
  rfl

/-- What a grant says about the request path. -/
theorem dataMgrReq_of_cntUp (h : s.dataCntUp x = true) :
    s.dataMgrReq x x.dataSel = x.dataReqS ∧ x.dataReq = true := by
  unfold dataCntUp Demux.cntUp at h
  rw [Bool.and_eq_true] at h
  have hr : (s.dataMgrReq x x.dataSel).req = true := h.1
  have he := (dataMgrReq_of_req hr).2
  exact ⟨he, by rw [he] at hr; exact hr⟩

theorem fetchMgrReq_of_cntUp (h : s.fetchCntUp x = true) :
    s.fetchMgrReq x x.fetchSel = x.fetchReqS ∧ x.instrReq = true := by
  unfold fetchCntUp Demux.cntUp at h
  rw [Bool.and_eq_true] at h
  have hr : (s.fetchMgrReq x x.fetchSel).req = true := h.1
  have he := (fetchMgrReq_of_req hr).2
  exact ⟨he, by rw [he] at hr; exact hr⟩

end AddrDecode

/-! ## The data decode -/

/-- The windows of one size do not overlap. -/
theorem hit_ne {addr mask base base' : BitVec 32} (h : hit addr mask base = true)
    (hne : base ≠ base') : hit addr mask base' = false := by
  unfold hit at *
  rw [beq_iff_eq] at h
  rw [h, beq_eq_false_iff_ne]
  exact hne

theorem DecodeIn.dataSel_of_denied {x : DecodeIn} (h : x.privDenied = true) : x.dataSel = .err := by
  have hp : x.privHit = true := by
    unfold privDenied at h
    rw [Bool.and_eq_true] at h
    exact h.1
  have hi : hit x.dataAddr mask4K isramBase = false ∧ hit x.dataAddr mask4K dsramBase = false := by
    simp only [privHit, Bool.or_eq_true] at hp
    rcases hp with (hp | hp) | hp <;> exact ⟨hit_ne hp (by decide), hit_ne hp (by decide)⟩
  simp [dataSel, hi.1, hi.2, h]

theorem ite_ne {α : Type*} {c : Prop} [Decidable c] {p q r : α} (hp : p ≠ r) (hq : q ≠ r) :
    (if c then p else q) ≠ r := by
  split_ifs <;> assumption

/-- The control registers are selected by their window, unless the access is denied. -/
theorem DecodeIn.dataSel_of_ctrl {x : DecodeIn} (h : hit x.dataAddr mask4K ctrlBase = true) :
    x.dataSel = if x.privDenied then .err else .ctrl := by
  simp [dataSel, h, hit_ne h (show ctrlBase ≠ bootromBase by decide),
    hit_ne h (show ctrlBase ≠ isramBase by decide), hit_ne h (show ctrlBase ≠ dsramBase by decide)]

theorem DecodeIn.dataSel_ne_ctrl {x : DecodeIn} (h : hit x.dataAddr mask4K ctrlBase = false) :
    x.dataSel ≠ .ctrl := by
  unfold dataSel
  rw [h, if_neg Bool.false_ne_true]
  refine ite_ne (by decide) <| ite_ne (by decide) <| ite_ne (by decide) <| ite_ne (by decide) <|
    ite_ne (by decide) <| ite_ne (by decide) <| ite_ne (by decide) <| ite_ne (by decide) <|
    ite_ne (by decide) (by decide)

theorem DecodeIn.dataSel_eq_ctrl {x : DecodeIn} (h : x.dataSel = .ctrl) :
    hit x.dataAddr mask4K ctrlBase = true ∧ x.privDenied = false := by
  cases hd : x.privDenied with
  | true => rw [dataSel_of_denied hd] at h; exact absurd h (by decide)
  | false =>
    refine ⟨?_, rfl⟩
    by_contra hc
    rw [Bool.not_eq_true] at hc
    have hi := dataSel_ne_ctrl hc
    exact hi h

/-- The buffer and SHA windows are not implemented: they lead to the error responder. -/
theorem DecodeIn.dataSel_of_unimplemented {x : DecodeIn}
    (h : hit x.dataAddr mask4K bufBase = true ∨ hit x.dataAddr mask4K shaBase = true) :
    x.dataSel = .err := by
  have hne : hit x.dataAddr mask4K isramBase = false ∧ hit x.dataAddr mask4K dsramBase = false ∧
      hit x.dataAddr mask4K ctrlBase = false := by
    rcases h with h | h <;>
      exact ⟨hit_ne h (by decide), hit_ne h (by decide), hit_ne h (by decide)⟩
  obtain ⟨h1, h2, h3⟩ := hne
  rcases h with h | h <;> simp [dataSel, h1, h2, h3, h]

/-- The data ports that the decode can select. -/
def DataSel.implemented : DataSel → Bool
  | .isram | .dsram | .ctrl | .apb | .err => true
  | _ => false

theorem DataSel.implemented_ite {c : Prop} [Decidable c] {p q : DataSel}
    (hp : p.implemented = true) (hq : q.implemented = true) :
    (if c then p else q).implemented = true := by
  split_ifs <;> assumption

theorem DecodeIn.dataSel_implemented (x : DecodeIn) : x.dataSel.implemented = true := by
  unfold dataSel
  repeat' apply DataSel.implemented_ite
  all_goals rfl

end SentinelSoc
