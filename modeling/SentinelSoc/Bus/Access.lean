/-
  The access-control model of the privileged registers.

  * `CsrAccess`: what the decoder and the control registers do in one cycle,
    whatever the other slaves and the overflow wires do;
  * `csr_access`: it holds in every cycle of every run, every denied access is
    answered exactly once, and in the SoC it waits for nothing but an APB answer.
-/
import SentinelSoc.Bus.DataPort
import SentinelSoc.Bus.Isram

namespace SentinelSoc

/-- The access is to the control registers, or to the two windows that are not implemented. -/
def DecodeIn.hitCtrl (x : DecodeIn) : Bool := hit x.dataAddr mask4K ctrlBase

def DecodeIn.hitBufSha (x : DecodeIn) : Bool :=
  hit x.dataAddr mask4K bufBase || hit x.dataAddr mask4K shaBase

namespace CtrlSys

/-- A data request is granted in this cycle. -/
def dataGranted (s : CtrlSys) (x : DecodeIn) : Bool := x.dataReq && s.dec.dataGnt (s.input x)

/-- No slave of the data port is asked anything. -/
def NoSlave (s : CtrlSys) (x : DecodeIn) : Prop :=
  ∀ p, p ≠ .err → (s.dec.dataMgrReq (s.input x) p).req = false

/-- The access rules in one cycle. -/
structure CsrAccess (s : CtrlSys) (x : DecodeIn) : Prop where
  /-- the bits change, and a write is passed on, in the boot phase only -/
  write : ((s.step x).ctrl.isramLockQ ≠ s.ctrl.isramLockQ ∨
      (s.step x).ctrl.bootDoneQ ≠ s.ctrl.bootDoneQ ∨
      ((s.dec.ctrlReq (s.input x)).req && (s.dec.ctrlReq (s.input x)).we) = true) →
    s.ctrl.bootDoneQ = false
  buf : (s.dec.bufReq (s.input x)).req = false
  sha : (s.dec.shaReq (s.input x)).req = false
  /-- a granted read reaches the registers in the boot phase or in debug mode -/
  read : s.dataGranted x = true → x.hitCtrl = true → x.dataWe = false →
    ((s.dec.ctrlReq (s.input x)).req = true ↔ s.ctrl.bootDoneQ = false ∨ x.dbgMode = true)
  /-- a granted write of the boot phase outside debug mode reaches them unchanged -/
  allowed : s.dataGranted x = true → x.hitCtrl = true → x.dataWe = true →
    s.ctrl.bootDoneQ = false → x.dbgMode = false →
    s.dec.ctrlReq (s.input x) = x.dataReqS
  unimplemented : x.hitBufSha = true → s.NoSlave x
  denied : (s.input x).privDenied = true → s.NoSlave x

variable {s : CtrlSys} {x : DecodeIn}

theorem dataGranted_eq : s.dataGranted x = s.dec.dataCntUp (s.input x) := by
  rw [AddrDecode.dataCntUp_eq_gnt]
  rfl

theorem noSlave_of_err (h : (s.input x).dataSel = .err) : s.NoSlave x := fun p hp => by
  rw [AddrDecode.dataMgrReq_of_ne (by rw [h]; exact hp)]
  rfl

theorem ctrlReq_of_granted (hg : s.dataGranted x = true) (hs : (s.input x).dataSel = .ctrl) :
    s.dec.ctrlReq (s.input x) = x.dataReqS ∧ x.dataReq = true := by
  rw [dataGranted_eq] at hg
  obtain ⟨he, hr⟩ := AddrDecode.dataMgrReq_of_cntUp hg
  rw [hs] at he
  exact ⟨he, hr⟩

theorem csrAccess (s : CtrlSys) (x : DecodeIn) : s.CsrAccess x := by
  have hphase : ((s.dec.ctrlReq (s.input x)).req && (s.dec.ctrlReq (s.input x)).we) = true →
    s.ctrl.bootDoneQ = false := AddrDecode.ctrlReq_write
  have hne : ∀ p, p.implemented = false → (s.dec.dataMgrReq (s.input x) p).req = false := by
    intro p hp
    rw [AddrDecode.dataMgrReq_of_ne, ObiReq.idle_req]
    rintro rfl
    simp [(s.input x).dataSel_implemented] at hp
  refine ⟨fun h => ?write, hne _ rfl, hne _ rfl, fun hg hc hw => ?read,
    fun hg hc hw hb hm => ?allowed, fun h => ?unimplemented, fun h => ?denied⟩
  case write =>
    cases hw : (s.dec.ctrlReq (s.input x)).req && (s.dec.ctrlReq (s.input x)).we with
    | true => exact hphase hw
    | false =>
      obtain ⟨h1, h2⟩ := CtrlRegs.step_of_not_write (c := s.ctrl) (v := x.fwVerified) hw
      rcases h with h | h | h
      · exact absurd h1 h
      · exact absurd h2 h
      · rw [hw] at h
        exact absurd h Bool.false_ne_true
  case read =>
    have hsel := DecodeIn.dataSel_of_ctrl (x := s.input x) hc
    have hden : (s.input x).privDenied = !(!s.ctrl.bootDoneQ || x.dbgMode) := by
      have hh : (s.input x).privHit = true := by
        rw [DecodeIn.privHit, show hit (s.input x).dataAddr mask4K ctrlBase = true from hc]
        rfl
      have hw' : (s.input x).dataWe = false := hw
      rw [DecodeIn.privDenied, hh, hw', if_neg Bool.false_ne_true, Bool.true_and]
      rfl
    rw [hden] at hsel
    constructor
    · intro hr
      have hs := (AddrDecode.dataMgrReq_of_req hr).1
      by_contra hn
      rw [not_or, Bool.not_eq_false, Bool.not_eq_true] at hn
      rw [hn.1, hn.2] at hsel
      rw [hsel] at hs
      exact absurd hs (by decide)
    · intro h
      have hs : (s.input x).dataSel = .ctrl := by
        rw [hsel]
        rcases h with h | h <;> simp [h]
      obtain ⟨he, hr⟩ := ctrlReq_of_granted hg hs
      rw [he]
      exact hr
  case allowed =>
    have hsel := DecodeIn.dataSel_of_ctrl (x := s.input x) hc
    have hden : (s.input x).privDenied = false := by
      have hw' : (s.input x).dataWe = true := hw
      have hb' : (s.input x).bootDone = false := hb
      rw [DecodeIn.privDenied, hw', if_pos rfl, DecodeIn.privWriteOk, hb']
      exact Bool.and_false _
    rw [hden, if_neg Bool.false_ne_true] at hsel
    exact (ctrlReq_of_granted hg hsel).1
  case unimplemented =>
    rw [DecodeIn.hitBufSha, Bool.or_eq_true] at h
    exact noSlave_of_err (DecodeIn.dataSel_of_unimplemented h)
  case denied => exact noSlave_of_err (DecodeIn.dataSel_of_denied h)

/-! ## The error responder -/

/-- The error word at the data port. -/
def ErrWord (s : CtrlSys) (x : DecodeIn) : Prop :=
  s.dec.dataRvalid (s.input x) = true ∧ s.dec.dataErr (s.input x) = true ∧
    s.dec.dataRdata (s.input x) = 0xDEADBEEF

theorem selectQ_step : (s.step x).dec.data.selectQ =
    if s.dataGranted x then (s.input x).dataSel else s.dec.data.selectQ := by
  rw [dataGranted_eq]
  rfl

/-- The error responder answers exactly what was granted to it in the cycle before. -/
theorem errRvalidQ_step :
    (s.step x).dec.errRvalidQ = (s.dataGranted x && (s.input x).dataSel == .err) := by
  have hstep : (s.step x).dec.errRvalidQ = (s.dec.dataMgrReq (s.input x) .err).req :=
    Bool.and_self _
  rw [hstep, dataGranted_eq, AddrDecode.dataCntUp, Demux.cntUp]
  by_cases hs : (s.input x).dataSel = .err
  · rw [hs, beq_self_eq_true, Bool.and_true]
    have hg : (s.dec.dataRsp (s.input x) .err).gnt = (s.dec.dataMgrReq (s.input x) .err).req := rfl
    rw [hg, AddrDecode.dataMgrReq, AddrDecode.dataReqAt, hs, Bool.and_self]
  · rw [AddrDecode.dataMgrReq_of_ne (Ne.symm hs), beq_eq_false_iff_ne.2 hs, Bool.and_false]
    rfl

theorem errWord_of_granted (hg : s.dataGranted x = true) (hd : (s.input x).privDenied = true)
    (y : DecodeIn) : (s.step x).ErrWord y := by
  have hs := DecodeIn.dataSel_of_denied hd
  have hq : (s.step x).dec.data.selectQ = .err := by rw [selectQ_step, hg, if_pos rfl, hs]
  have hv : (s.step x).dec.errRvalidQ = true := by rw [errRvalidQ_step, hg, hs]; rfl
  rw [ErrWord, AddrDecode.dataRvalid, AddrDecode.dataErr, AddrDecode.dataRdata, hq]
  exact ⟨hv, rfl, rfl⟩

/-- After the answer the error responder is silent until the next grant. -/
theorem silent_after {x : ℕ → DecodeIn} {t u : ℕ}
    (hq : (Sync.run step reset x t).dec.data.selectQ = .err) (htu : t < u)
    (hno : ∀ v, t ≤ v → v < u → (Sync.run step reset x v).dataGranted (x v) = false) :
    (Sync.run step reset x u).dec.dataRvalid ((Sync.run step reset x u).input (x u)) = false := by
  have hsel : ∀ v, t ≤ v → v ≤ u → (Sync.run step reset x v).dec.data.selectQ = .err := by
    intro v hv
    induction v, hv using Nat.le_induction with
    | base => exact fun _ => hq
    | succ v hv ih =>
      intro hle
      rw [Sync.run_succ, selectQ_step, hno v hv (by omega), if_neg Bool.false_ne_true]
      exact ih (by omega)
  obtain ⟨w, rfl⟩ : ∃ w, u = w + 1 := ⟨u - 1, by omega⟩
  have hv : (Sync.run step reset x (w + 1)).dec.errRvalidQ = false := by
    rw [Sync.run_succ, errRvalidQ_step, hno w (by omega) (by omega), Bool.false_and]
  rw [AddrDecode.dataRvalid, hsel (w + 1) (by omega) le_rfl]
  exact hv

end CtrlSys

namespace Soc

variable {s : Soc} {i : SocIn}

/-- A denied access waits for nothing but the answer of the APB slave. -/
theorem DataInv.granted_of_denied (h : s.DataInv) (hd : (s.input i).privDenied = true)
    (hr : i.dataReq = true) :
    s.dataGranted i = true ∨ (s.apb.tsxnInProgress = true ∧ i.apbRsp.pready = false) := by
  have hs := DecodeIn.dataSel_of_denied hd
  have hcnt : s.dec.data.inFlight.toNat = s.dataBusy.toNat := h.inv.counted
  have hup : s.dataGranted i = s.dec.data.passes false (s.dataRvalid i) .err := by
    rw [dataGranted_eq, input, dataCntUp_inputAt h.selectable, h.dataOverflow, Slaves.cntUp_eq,
      h.dataCntDown_eq]
    have e1 : (s.dataIn i).select = .err := hs
    have e2 : (s.dataIn i).sbr.req = true := hr
    rw [e1, e2, Bool.and_true, show (s.dataIn i).gnt .err (s.dataIn i).sbr = true from hr,
      Bool.and_true]
    rfl
  rw [hup, Demux.passes]
  cases hb : s.dataBusy with
  | false =>
    have h0 : s.dec.data.inFlight = 0 := BitVec.eq_of_toNat_eq (by rw [hcnt, hb]; rfl)
    simp [h0]
  | true =>
    have h1 : s.dec.data.inFlight = 1 := BitVec.eq_of_toNat_eq (by rw [hcnt, hb]; rfl)
    rw [h1, h.dataRvalid_eq, hb, Bool.and_true]
    cases ha : (s.dataIn i).answers s.dec.data.selectQ with
    | true => simp
    | false =>
      refine .inr ?_
      rw [dataBusy] at hb
      revert ha hb
      cases s.dec.data.selectQ <;> simp [dataIn, dataOwes]
      exact fun h1 h2 => ⟨h1, h2⟩

end Soc

/-- **The access-control model.** In every run the access rules hold in every cycle; a granted
    denied access is answered once, in the next cycle, with the error word; and in the SoC it is
    granted at once unless the APB slave is busy. -/
theorem csr_access :
    (∀ (x : ℕ → DecodeIn) (t : ℕ), (Sync.run CtrlSys.step CtrlSys.reset x t).CsrAccess (x t)) ∧
    (∀ (x : ℕ → DecodeIn) (t : ℕ),
      (Sync.run CtrlSys.step CtrlSys.reset x t).dataGranted (x t) = true →
      ((Sync.run CtrlSys.step CtrlSys.reset x t).input (x t)).privDenied = true →
      (Sync.run CtrlSys.step CtrlSys.reset x (t + 1)).ErrWord (x (t + 1)) ∧
      ∀ u, t + 1 < u →
        (∀ v, t < v → v < u → (Sync.run CtrlSys.step CtrlSys.reset x v).dataGranted (x v) = false) →
        (Sync.run CtrlSys.step CtrlSys.reset x u).dec.dataRvalid
          ((Sync.run CtrlSys.step CtrlSys.reset x u).input (x u)) = false) ∧
    ∀ (rom isram dsram : BitVec 10 → BitVec 32) (j : ℕ → SocIn) (t : ℕ),
      ((Soc.run rom isram dsram j t).input (j t)).privDenied = true → (j t).dataReq = true →
      (Soc.run rom isram dsram j t).dataGranted (j t) = true ∨
        ((Soc.run rom isram dsram j t).apb.tsxnInProgress = true ∧
          (j t).apbRsp.pready = false) := by
  refine ⟨fun x t => CtrlSys.csrAccess _ _, fun x t hg hd => ⟨?_, fun u htu hno => ?_⟩,
    fun rom isram dsram j t hd hr => ?_⟩
  · rw [Sync.run_succ]
    exact CtrlSys.errWord_of_granted hg hd _
  · refine CtrlSys.silent_after (t := t + 1) ?_ htu fun v h1 h2 => hno v (by omega) h2
    rw [Sync.run_succ, CtrlSys.selectQ_step, hg, if_pos rfl, DecodeIn.dataSel_of_denied hd]
  · exact (Soc.dataInv_run rom isram dsram j t).granted_of_denied hd hr

/-- In the boot phase a granted read of the buffer window does not reach the buffer. -/
theorem bufRead_unimplemented :
    CtrlSys.reset.dataGranted { dataWrite 0x40000 0 with dataWe := false } = true ∧
    CtrlSys.reset.ctrl.bootDoneQ = false ∧
    (CtrlSys.reset.dec.bufReq
      (CtrlSys.reset.input { dataWrite 0x40000 0 with dataWe := false })).req = false := by
  decide +kernel

end SentinelSoc
