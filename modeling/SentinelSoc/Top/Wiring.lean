/-
  The chip around the core (`sentinel_soc_top.sv`): the bus, the secure-boot engine with its key
  memory, and the interrupt controller, as they are wired up.

  * the CSR port of the engine is on the window of the streaming buffer;
  * `SentinelSocTop.step`: one clock edge of all of it;
  * `CutOff`, `cut_off`: the decode of the data port never selects the engine or the interrupt
    controller, so no firmware is ever verified, no instruction of it reaches the core, and no
    external interrupt does.
-/
import SentinelSoc.Bus.Isram
import SentinelSoc.Crypto.TopMost
import SentinelSoc.Irq.Plic

namespace SentinelSoc

/-- `otpMem` is the key in the memory: its programming port is tied off. -/
structure SentinelSocTop where
  soc : Soc
  crypto : TopMost
  otpMem : BitVec 256
  plic : Plic

/-- The inputs of one cycle: the core's, the interrupt lines, what comes from blocks that are not
    modelled, and the wires that nothing drives (`sha_*` and `sha_start`). -/
structure SentinelSocIn extends CoreIn where
  irqSources : BitVec 12
  apbRsp : ApbRsp
  dbgRdata : BitVec 32
  sha : SlaveRsp
  shaStart : Bool
  dataFree : Bool
  fetchFree : Bool

namespace SentinelSocTop

variable (s : SentinelSocTop) (x : SentinelSocIn)

def reset (soc : Soc) (sha : ShaCore) (regs : BitVec 5 → Word) (otpMem : BitVec 256) :
    SentinelSocTop := ⟨soc, .reset sha regs, otpMem, .reset⟩

/-- The inputs of the bus, with what the registers of the interrupt controller answer. -/
def socInOf (plic : SlaveRsp) : SocIn where
  toCoreIn := x.toCoreIn
  fwVerified := s.crypto.signatureValidO
  apbRsp := x.apbRsp
  dbgRdata := x.dbgRdata
  buf := ⟨fun r => r.req, s.crypto.csr.csrRvalid, s.crypto.csr.csrRdata, false⟩
  sha := x.sha
  plic := plic
  dataFree := x.dataFree
  fetchFree := x.fetchFree

/-- The request to the interrupt controller does not hang on its answer. -/
def plicReq : ObiReq :=
  s.soc.dec.plicReq (s.soc.input (s.socInOf x ⟨fun r => r.req, s.plic.rvalid, 0, false⟩))

def socIn : SocIn :=
  let r := s.plic.regsRsp (s.plicReq x)
  s.socInOf x ⟨fun r => r.req, s.plic.rvalid, r.1, r.2⟩

/-- The decoder's inputs in this cycle. -/
def input : DecodeIn := s.soc.input (s.socIn x)

def otpRdata : BitVec 32 :=
  otpRdData s.otpMem s.crypto.bootActiveO s.crypto.orch.otpRdEn s.crypto.otpAddrO

def cryptoIn : TopIn := ⟨s.soc.dec.bufReq (s.input x), x.shaStart, s.otpRdata⟩

def step : SentinelSocTop where
  soc := s.soc.step (s.socIn x)
  crypto := s.crypto.step (s.cryptoIn x)
  otpMem := s.otpMem
  plic := s.plic.step ⟨s.soc.dec.plicReq (s.input x), x.irqSources⟩

def run (s : SentinelSocTop) (i : ℕ → SentinelSocIn) : ℕ → SentinelSocTop := Sync.run step s i

variable {s : SentinelSocTop} {x : SentinelSocIn} {i : ℕ → SentinelSocIn}

/-! ## Nothing is asked of the engine or the interrupt controller -/

theorem dataMgrReq_unimplemented (s : AddrDecode) (y : DecodeIn) {p : DataSel}
    (hp : p.implemented = false) : (s.dataMgrReq y p).req = false := by
  have hne : p ≠ y.dataSel := fun h => by
    rw [h, DecodeIn.dataSel_implemented] at hp
    exact absurd hp (by decide)
  rw [AddrDecode.dataMgrReq_of_ne hne]
  rfl

/-- The engine rests: nothing has started it. -/
structure Asleep (c : TopMost) : Prop where
  state : c.orch.state = .idle
  edStart : c.orch.edStart = false
  otpRdEn : c.orch.otpRdEn = false
  fsm : c.ed.fsm.state = .idle

theorem Asleep.step {c : TopMost} {y : TopIn} (h : Asleep c) (hr : y.csr.req = false) :
    Asleep (c.step y) := by
  have hw : ∀ off, y.writes off = false := fun off => by simp [TopIn.writes, hr]
  have hstart : y.ctrlStartW = false := by simp [TopIn.ctrlStartW, TopIn.ctrlWr, hw]
  have habort : y.ctrlAbortW = false := by simp [TopIn.ctrlAbortW, TopIn.ctrlWr, hw]
  have hsoft : y.ctrlSoftrstW = false := by simp [TopIn.ctrlSoftrstW, TopIn.ctrlWr, hw]
  have horch : (c.step y).orch = c.orch.defaults (c.orchIn y) := by
    simp [TopMost.step, Orch.step, TopMost.orchIn, habort, hsoft, Orch.advance, Orch.defaults,
      h.state, hstart]
  refine ⟨?_, ?_, ?_, ?_⟩
  · rw [horch]
    exact h.state
  · rw [horch]
    rfl
  · rw [horch]
    rfl
  · simp [TopMost.step, EdTop.step, MasterFsm.step, MasterFsm.nextState, h.fsm, TopMost.edIn,
      h.edStart]

/-- Where the chip stays. -/
structure Dormant (s : SentinelSocTop) : Prop where
  crypto : Asleep s.crypto
  ieQ : s.plic.ieQ = 0
  irq : s.plic.irq = false

/-- Without an enabled source the target has nothing. -/
theorem target_of_disabled {p : Plic} (h : p.ieQ = 0) : p.target.1 = false := by
  have hround : ∀ l : List (Fin 12), ∀ a : BitVec 2 × Bool × BitVec 4,
      l.foldl p.targetRound a = a := fun l => by
    induction l with
    | nil => exact fun a => rfl
    | cons k l ih => exact fun a => by rw [List.foldl_cons, Plic.targetRound, h]; simp [ih]
  rw [Plic.target, hround]

theorem dormant_reset (soc : Soc) (sha : ShaCore) (regs : BitVec 5 → Word)
    (otpMem : BitVec 256) : Dormant (reset soc sha regs otpMem) :=
  ⟨⟨rfl, rfl, rfl, rfl⟩, rfl, rfl⟩

theorem Dormant.step (h : Dormant s) (x : SentinelSocIn) : Dormant (s.step x) where
  crypto := h.crypto.step (dataMgrReq_unimplemented _ _ rfl)
  ieQ := by
    have hr : (s.soc.dec.plicReq (s.input x)).req = false := dataMgrReq_unimplemented _ _ rfl
    simp [SentinelSocTop.step, Plic.step, Plic.writes, hr, h.ieQ]
  irq := target_of_disabled h.ieQ

/-! ## Fetches -/

/-- The bus and the ISRAM of the chip. -/
def isramSys (s : SentinelSocTop) : IsramSys 10 := ⟨s.soc.dec, s.soc.isram⟩

theorem Asleep.verifyDoneO {c : TopMost} (h : Asleep c) : c.verifyDoneO = false := by
  simp [TopMost.verifyDoneO, TopMost.edDone, MasterFsm.verifyDone, h.fsm]

theorem Asleep.signatureValidO {c : TopMost} (h : Asleep c) : c.signatureValidO = false := by
  simp [TopMost.signatureValidO, MasterFsm.signatureValid, h.fsm]

/-- What the core never gets. -/
structure CutOff (s : SentinelSocTop) (x : SentinelSocIn) : Prop where
  /-- the engine is not started, and does not read its key -/
  engine : s.crypto.orch.state = .idle ∧ s.crypto.orch.otpRdEn = false
  /-- no firmware is verified -/
  unverified : s.crypto.verifyDoneO = false ∧ s.crypto.signatureValidO = false
  /-- every answer to a fetch from the ISRAM is an error -/
  firmware : s.soc.dec.fetch.selectQ = .isram → s.soc.dec.instrRvalid (s.input x) = true →
    s.soc.dec.instrErr (s.input x) = true
  /-- `irq_external_i` of the core -/
  interrupt : s.plic.irq = false

/-- **The chip never runs its firmware**, whatever the core asks for. -/
theorem cut_off (rom isram dsram : BitVec 10 → BitVec 32) (sha : ShaCore)
    (regs : BitVec 5 → Word) (otpMem : BitVec 256) (i : ℕ → SentinelSocIn) (t : ℕ) :
    CutOff (run (reset (.reset rom isram dsram) sha regs otpMem) i t) (i t) := by
  have hrun : ∀ t, Dormant (run (reset (.reset rom isram dsram) sha regs otpMem) i t) :=
    fun t => Sync.run_invariant (dormant_reset _ _ _ _) (fun _ x h => h.step x) t
  have ht := hrun t
  refine ⟨⟨ht.crypto.state, ht.crypto.otpRdEn⟩,
    ⟨ht.crypto.verifyDoneO, ht.crypto.signatureValidO⟩, fun hq hv => ?_, ht.irq⟩
  by_contra he
  rw [Bool.not_eq_true] at he
  obtain ⟨hrv, hown, -⟩ := IsramSys.response_of_rvalid
    (s := (run (reset (.reset rom isram dsram) sha regs otpMem) i t).isramSys)
    (x := (run (reset (.reset rom isram dsram) sha regs otpMem) i t).input (i t)) hq hv he
  cases t with
  | zero => exact absurd hrv Bool.false_ne_true
  | succ u =>
    -- an answer without an error was fetched while the firmware was verified
    obtain ⟨-, -, hw, -⟩ := IsramSys.fetch_of_response
      (s := (run (reset (.reset rom isram dsram) sha regs otpMem) i u).isramSys)
      (x := (run (reset (.reset rom isram dsram) sha regs otpMem) i u).input (i u)) hrv hown
    have hu := (hrun u).crypto.signatureValidO
    exact absurd (hw.symm.trans hu) (by decide)

end SentinelSocTop

end SentinelSoc
