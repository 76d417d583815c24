/-
  The data port of the SoC.

  * `dataSlaves`: what each slave owes the data port; `dataSlaves_step`: the
    data side of the SoC is the demultiplexer of `Slaves`, cycle by cycle;
  * `dataInv_run`: its accounting holds in every run, and no cycle is crowded;
  * `data_inOrder`: every granted data request gets exactly one response, in
    order, from its own slave.
-/
import SentinelSoc.Lib.Port
import SentinelSoc.Bus.DemuxRuns
import SentinelSoc.Bus.Soc

namespace SentinelSoc

namespace Soc

/-! ## The slaves behind the data port -/

/-- Whether a slave owes the data port an answer: no slave ever owes two. -/
def dataOwes (s : Soc) : DataSel → Bool
  | .isram => s.dec.isramRespIsDataQ && s.isram.rvalid
  | .dsram => s.dsram.rvalid
  | .ctrl => s.ctrl.rvalid
  | .apb => s.apb.tsxnInProgress
  | .err => s.dec.errRvalidQ
  | _ => false

/-- The data side of the SoC. -/
def dataSlaves (s : Soc) : Slaves 1 DataSel := ⟨s.dec.data, fun p => (s.dataOwes p).toNat⟩

/-- What the slaves put in: all grant at once but the APB bridge while it is busy, and all answer
    at once but the APB slave. -/
def dataIn (s : Soc) (i : SocIn) : DemuxIn DataSel where
  select := (s.input i).dataSel
  sbr := (s.input i).dataReqS
  gnt
    | .bootrom, _ => false
    | .apb, _ => !s.apb.tsxnInProgress
    | .buf, r => i.buf.gnt r
    | .sha, r => i.sha.gnt r
    | .plic, r => i.plic.gnt r
    | _, r => r.req
  answers
    | .apb => i.apbRsp.pready
    | _ => true
  free := i.dataFree

variable {s : Soc} {i : SocIn} {o q : Bool}

/-- The select register holds an implemented port, or the boot ROM's from reset. -/
def Selectable (sel : DataSel) : Prop := sel = .bootrom ∨ sel.implemented = true

theorem dataSlaves_rvalid (p : DataSel) :
    s.dataSlaves.rvalid (s.dataIn i) p = ((s.dataIn i).answers p && s.dataOwes p) := by
  cases h : s.dataOwes p <;> simp [Slaves.rvalid, dataSlaves, h]

theorem dataMgrRsp_rvalid {p : DataSel} (hp : Selectable p) (d : DataSel → ObiReq)
    (f : FetchSel → ObiReq) : (s.dec.dataMgrRsp (s.inputAt i o q) d f p).rvalid =
      s.dataSlaves.rvalid (s.dataIn i) p := by
  rw [dataSlaves_rvalid]
  cases p <;> first | rfl | simp [Selectable, DataSel.implemented] at hp
  simp only [AddrDecode.dataMgrRsp, AddrDecode.isramDataRsp_rvalid]
  rfl

theorem dataMgrRsp_gnt (p : DataSel) (d : DataSel → ObiReq) (f : FetchSel → ObiReq) :
    (s.dec.dataMgrRsp (s.inputAt i o q) d f p).gnt = (s.dataIn i).gnt p (d p) := by
  cases p <;> try rfl
  · simp only [AddrDecode.dataMgrRsp, AddrDecode.isramDataRsp, AddrDecode.isramArb, dataIn]
    cases s.dec.isramRespIsDataQ <;> cases (d .isram).req <;> rfl
  · simp only [AddrDecode.dataMgrRsp, AddrDecode.dbgRsp, dataIn]
    cases (d .dbg).req <;> rfl

/-! ## The data side is the demultiplexer of `Slaves` -/

theorem dataCntDown_inputAt (h : Selectable s.dec.data.selectQ) :
    s.dec.dataCntDown (s.inputAt i o q) = s.dataSlaves.cntDown (s.dataIn i) :=
  dataMgrRsp_rvalid h _ _

theorem dataMgrReq_inputAt (h : Selectable s.dec.data.selectQ) (p : DataSel) :
    s.dec.dataMgrReq (s.inputAt i o q) p = s.dataSlaves.mgrReq (s.dataIn i) o p := by
  unfold AddrDecode.dataMgrReq
  rw [dataCntDown_inputAt h]
  rfl

theorem dataCntUp_inputAt (h : Selectable s.dec.data.selectQ) :
    s.dec.dataCntUp (s.inputAt i o q) = s.dataSlaves.cntUp (s.dataIn i) o := by
  unfold AddrDecode.dataCntUp AddrDecode.dataRsp
  rw [dataMgrRsp_gnt, dataMgrReq_inputAt h, dataCntDown_inputAt h]
  rfl

/-- The overflow wire of the data side hangs on nothing of the fetch side. -/
theorem dataDrive_inputAt (h : Selectable s.dec.data.selectQ) :
    s.dec.dataDrive (s.inputAt i o q) = s.dataSlaves.drive (s.dataIn i) o := by
  unfold AddrDecode.dataDrive
  rw [dataCntUp_inputAt h, dataCntDown_inputAt h]
  rfl

theorem dataOverflow_eq (h : Selectable s.dec.data.selectQ) :
    s.dataOverflow i = s.dataSlaves.overflow (s.dataIn i) := by
  unfold dataOverflow
  simp only [dataDrive_inputAt h]
  rfl

/-- What a slave owes after the cycle: the request it took, or the one it has not answered. -/
theorem dataOwes_step (p : DataSel) :
    (s.step i).dataOwes p =
      (((s.dec.dataMgrReq (s.input i) p).req &&
        (s.dataIn i).gnt p (s.dec.dataMgrReq (s.input i) p)) ||
      (s.dataOwes p && !(s.dataIn i).answers p)) := by
  have hidle : p.implemented = false → (s.dec.dataMgrReq (s.input i) p).req = false := fun hp => by
    rw [AddrDecode.dataMgrReq_of_ne, ObiReq.idle_req]
    rintro rfl
    simp [(s.input i).dataSel_implemented] at hp
  cases p
  case isram =>
    have e : (s.dec.dataMgrReq (s.input i) .isram).req = s.dec.isramDataActive (s.input i) := rfl
    simp only [dataOwes, step_isramRespIsDataQ, step_isram_rvalid,
      AddrDecode.isramReq_req, dataIn, e]
    cases s.dec.isramDataActive (s.input i) <;>
      cases (s.dec.fetchMgrReq (s.input i) .isram).req <;> cases (s.input i).fwVerified <;> simp
  case dsram => simp only [dataOwes, step, dataIn, Sram.step_rvalid, AddrDecode.dsramReq]; simp
  case ctrl => simp only [dataOwes, step, dataIn, CtrlRegs.step_rvalid, AddrDecode.ctrlReq]; simp
  case apb =>
    simp only [dataOwes, step, dataIn, ObiToApb.step, AddrDecode.apbReq]
    cases s.apb.tsxnInProgress <;> simp
  case err =>
    simp only [dataOwes, step, dataIn, AddrDecode.step, AddrDecode.dataRsp, AddrDecode.dataMgrRsp]
    simp
  all_goals simp [dataOwes, hidle rfl]

/-- A slave that does not answer grants nothing: only the APB bridge, while it is busy. -/
theorem gnt_of_owes (p : DataSel) (r : ObiReq) (h : s.dataOwes p = true)
    (ha : (s.dataIn i).answers p = false) : (s.dataIn i).gnt p r = false := by
  cases p <;> simp_all [dataOwes, dataIn]

/-- **The data side refines the demultiplexer with its slaves.** -/
theorem dataSlaves_step (h : Selectable s.dec.data.selectQ) :
    (s.step i).dataSlaves = s.dataSlaves.step (s.dataIn i) := by
  have hup : s.dec.dataCntUp (s.input i) =
      s.dataSlaves.cntUp (s.dataIn i) (s.dataSlaves.overflow (s.dataIn i)) := by
    rw [← dataOverflow_eq h]
    exact dataCntUp_inputAt h
  have hdown : s.dec.dataCntDown (s.input i) = s.dataSlaves.cntDown (s.dataIn i) :=
    dataCntDown_inputAt h
  have hreq : ∀ p, s.dec.dataMgrReq (s.input i) p =
      s.dataSlaves.mgrReq (s.dataIn i) (s.dataSlaves.overflow (s.dataIn i)) p := fun p => by
    rw [← dataOverflow_eq h]
    exact dataMgrReq_inputAt h p
  have hdemux : (s.step i).dataSlaves.demux = (s.dataSlaves.step (s.dataIn i)).demux := by
    simp only [dataSlaves, step, AddrDecode.step, Slaves.step, hup, hdown]
    rfl
  have howed : (s.step i).dataSlaves.owed = (s.dataSlaves.step (s.dataIn i)).owed := by
    funext p
    have hs := dataOwes_step (s := s) (i := i) p
    rw [hreq p] at hs
    simp only [Slaves.step, Slaves.gnt, dataSlaves_rvalid]
    simp only [dataSlaves] at hs ⊢
    rw [hs]
    have hg := gnt_of_owes (s := s) (i := i) p
      (s.dataSlaves.mgrReq (s.dataIn i) (s.dataSlaves.overflow (s.dataIn i)) p)
    simp only [dataSlaves] at hg
    revert hg
    cases s.dataOwes p <;> cases (s.dataIn i).answers p <;> simp
    intro hg
    simp [hg]
  exact Slaves.ext hdemux howed

/-! ## The accounting of the data side -/

/-- What every reachable state keeps on the data side. -/
structure DataInv (s : Soc) : Prop where
  selectable : Selectable s.dec.data.selectQ
  inv : s.dataSlaves.Inv 2

theorem DataInv.not_crowded (h : s.DataInv) : ¬ s.dataSlaves.Crowded 2 (s.dataIn i) := by
  rintro ⟨hout, hd, hsel, -, hg⟩
  rw [h.inv.outstanding_eq] at hout
  have ho : s.dataOwes s.dec.data.selectQ = true := by
    cases ho : s.dataOwes s.dec.data.selectQ with
    | true => rfl
    | false => simp [dataSlaves, ho] at hout
  have ha : (s.dataIn i).answers s.dec.data.selectQ = false := by
    have hr := dataSlaves_rvalid (s := s) (i := i) s.dec.data.selectQ
    rw [ho, Bool.and_true] at hr
    exact hr ▸ hd
  rw [hsel] at hg
  exact absurd hg (by rw [show s.dataSlaves.demux.selectQ = s.dec.data.selectQ from rfl,
    gnt_of_owes _ _ ho ha]; decide)

theorem DataInv.step (h : s.DataInv) : (s.step i).DataInv where
  selectable := by
    have hs := congrArg (fun d => d.demux.selectQ) (dataSlaves_step (i := i) h.selectable)
    simp only [dataSlaves, Slaves.step_selectQ] at hs
    rw [hs]
    split_ifs
    · exact .inr (s.input i).dataSel_implemented
    · exact h.selectable
  inv := by
    rw [dataSlaves_step h.selectable]
    exact h.inv.step (by decide) (by decide) h.not_crowded

theorem dataInv_reset (rom isram dsram : BitVec 10 → BitVec 32) :
    (reset rom isram dsram).DataInv where
  selectable := .inl rfl
  inv := by
    constructor
    · rfl
    · intro p _; cases p <;> rfl
    · exact Nat.zero_le _

theorem DataInv.dataOverflow (h : s.DataInv) : s.dataOverflow i = false := by
  rw [dataOverflow_eq h.selectable]
  exact h.inv.overflow_eq_false (by decide) h.not_crowded

/-! ## The data port -/

/-- A data request is granted in this cycle. -/
def dataGranted (s : Soc) (i : SocIn) : Bool := i.dataReq && s.dec.dataGnt (s.input i)

/-- `data_rvalid_o`. -/
def dataRvalid (s : Soc) (i : SocIn) : Bool := s.dec.dataRvalid (s.input i)

def dataRdata (s : Soc) (i : SocIn) : BitVec 32 := s.dec.dataRdata (s.input i)

def dataErr (s : Soc) (i : SocIn) : Bool := s.dec.dataErr (s.input i)

/-- A granted data request is unanswered. -/
def dataBusy (s : Soc) : Bool := s.dataOwes s.dec.data.selectQ

theorem dataGranted_eq : s.dataGranted i = s.dec.dataCntUp (s.input i) := by
  rw [AddrDecode.dataCntUp_eq_gnt, input_toCoreIn, dataGranted]

theorem DataInv.dataCntDown_eq (h : s.DataInv) :
    s.dataRvalid i = s.dataSlaves.cntDown (s.dataIn i) := by
  rw [dataRvalid, ← AddrDecode.dataCntDown_eq]
  exact dataCntDown_inputAt h.selectable

theorem DataInv.dataRvalid_eq (h : s.DataInv) :
    s.dataRvalid i = ((s.dataIn i).answers s.dec.data.selectQ && s.dataBusy) := by
  rw [h.dataCntDown_eq]
  exact dataSlaves_rvalid _

theorem DataInv.busy_step (h : s.DataInv) :
    (s.step i).dataBusy.toNat + (s.dataRvalid i).toNat =
      s.dataBusy.toNat + (s.dataGranted i).toNat := by
  have ho := h.inv.owed_step (x := s.dataIn i) (by decide)
  rw [← dataSlaves_step h.selectable, ← h.dataCntDown_eq, ← dataOverflow_eq h.selectable,
    ← dataCntUp_inputAt (q := s.fetchOverflow i) h.selectable] at ho
  rw [dataGranted_eq]
  exact ho

theorem data_selectQ_step : (s.step i).dec.data.selectQ =
    if s.dataGranted i then (s.input i).dataSel else s.dec.data.selectQ := by
  rw [dataGranted_eq]
  rfl

section Run

variable (rom isram dsram : BitVec 10 → BitVec 32) (j : ℕ → SocIn)

/-- The SoC in cycle `t` after reset. -/
def run (t : ℕ) : Soc := Sync.run step (reset rom isram dsram) j t

theorem run_succ (t : ℕ) : run rom isram dsram j (t + 1) = (run rom isram dsram j t).step (j t) :=
  rfl

theorem dataInv_run (t : ℕ) : (run rom isram dsram j t).DataInv :=
  Sync.run_invariant (dataInv_reset _ _ _) (fun _ _ h => h.step) t

theorem dataSingle : Port.Single (fun t => (run rom isram dsram j t).dataGranted (j t))
    (fun t => (run rom isram dsram j t).dataRvalid (j t))
    (fun t => (run rom isram dsram j t).dataBusy) := by
  have key := fun t => (dataInv_run rom isram dsram j t).busy_step (i := j t)
  have hle := fun t => (dataInv_run rom isram dsram j t).dataRvalid_eq (i := j t)
  constructor
  · rfl
  · intro t
    have hk := key t
    have hl := hle t
    rw [run_succ]
    revert hk hl
    cases (run rom isram dsram j t).dataBusy <;> cases (run rom isram dsram j t).dataRvalid (j t) <;>
      cases (run rom isram dsram j t).dataGranted (j t) <;>
        cases ((run rom isram dsram j t).step (j t)).dataBusy <;> simp
  · intro t hr
    rw [hle t, Bool.and_eq_true] at hr
    exact hr.2
  · intro t hg hb
    have hk := key t
    revert hk
    rw [hg, hb]
    cases (run rom isram dsram j t).dataRvalid (j t) <;>
      cases ((run rom isram dsram j t).step (j t)).dataBusy <;> simp

theorem run_of_granted {t : ℕ} (hg : (run rom isram dsram j t).dataGranted (j t) = true) :
    (run rom isram dsram j (t + 1)).dec.data.selectQ =
        ((run rom isram dsram j t).input (j t)).dataSel ∧
      (run rom isram dsram j (t + 1)).dataBusy = true := by
  constructor
  · rw [run_succ, data_selectQ_step, hg, if_pos rfl]
  · have := (dataSingle rom isram dsram j).next t
    simpa [hg] using this

end Run

/-! ## Responses -/

theorem dataRdata_eq {p : DataSel} (h : s.dec.data.selectQ = p) :
    s.dataRdata i = (s.dec.dataRsp (s.input i) p).rdata := by
  rw [← h]; rfl

theorem dataErr_eq {p : DataSel} (h : s.dec.data.selectQ = p) :
    s.dataErr i = (s.dec.dataRsp (s.input i) p).err := by
  rw [← h]; rfl

/-- What a granted data request leaves in its slave. -/
theorem isram_of_granted (hg : s.dataGranted i = true) (hs : (s.input i).dataSel = .isram) :
    (s.step i).isram.rdata = s.isram.answer (s.dec.isramReq (s.input i)) ∧
      (s.step i).dec.isramRespIsDataQ = true ∧
      (s.dec.isramReq (s.input i)).addr = i.dataAddr := by
  rw [dataGranted_eq] at hg
  obtain ⟨he, hr⟩ := AddrDecode.dataMgrReq_of_cntUp hg
  rw [hs] at he
  have ha : s.dec.isramDataActive (s.input i) = true := by
    rw [AddrDecode.isramDataActive, he]
    exact hr
  have hq : (s.dec.isramReq (s.input i)).req = true := by
    rw [AddrDecode.isramReq_req, ha, Bool.true_or]
  refine ⟨?_, by rw [step_isramRespIsDataQ, hq, ha, if_pos rfl], ?_⟩
  · simp only [step, Sram.step_rdata hq]
  · have hr' : (s.input i).dataReqS.req = true := hr
    rw [AddrDecode.isramReq, AddrDecode.isramArb, he, if_pos hr']
    rfl

theorem dsram_of_granted (hg : s.dataGranted i = true) (hs : (s.input i).dataSel = .dsram) :
    (s.step i).dsram.rdata = s.dsram.answer (s.input i).dataReqS := by
  rw [dataGranted_eq] at hg
  obtain ⟨he, hr⟩ := AddrDecode.dataMgrReq_of_cntUp hg
  rw [hs] at he
  simp only [step, AddrDecode.dsramReq, he]
  exact Sram.step_rdata hr

theorem ctrl_of_granted (hg : s.dataGranted i = true) (hs : (s.input i).dataSel = .ctrl)
    (hw : i.dataWe = false) :
    (s.step i).ctrl.rdata = s.ctrl.readWord i.fwVerified i.dataAddr := by
  rw [dataGranted_eq] at hg
  obtain ⟨he, hr⟩ := AddrDecode.dataMgrReq_of_cntUp hg
  rw [hs] at he
  have hr' : (s.input i).dataReqS.req = true := hr
  have hw' : (s.input i).dataReqS.we = false := hw
  simp only [step, AddrDecode.ctrlReq, he, CtrlRegs.step, hr', hw', Bool.not_false, Bool.and_self,
    if_true]
  rfl

/-- The APB bridge holds the request of `i`. -/
def ApbHolds (s : Soc) (i : SocIn) : Prop :=
  s.apb = ⟨true, i.dataAddr, i.dataWdata, i.dataWe, i.dataBe⟩

theorem apb_of_granted (hg : s.dataGranted i = true) (hs : (s.input i).dataSel = .apb) :
    (s.step i).ApbHolds i := by
  have hg' := hg
  rw [dataGranted_eq] at hg
  obtain ⟨he, hr⟩ := AddrDecode.dataMgrReq_of_cntUp hg
  have hgnt : (s.dataIn i).gnt .apb (s.dec.dataMgrReq (s.input i) .apb) = true := by
    unfold AddrDecode.dataCntUp Demux.cntUp at hg
    rw [Bool.and_eq_true] at hg
    rw [← dataMgrRsp_gnt (o := s.dataOverflow i) (q := s.fetchOverflow i) .apb
      (s.dec.dataMgrReq (s.input i)) (s.dec.fetchMgrReq (s.input i)), ← hs]
    exact hg.2
  rw [hs] at he
  have hidle : s.apb.tsxnInProgress = false := by simpa [dataIn] using hgnt
  have hr' : (s.input i).dataReqS.req = true := hr
  simp only [ApbHolds, step, AddrDecode.apbReq, he, ObiToApb.step, hidle, hr']
  rfl

/-- While the APB slave does not answer, the bridge keeps the request. -/
theorem ApbHolds.step {k : SocIn} (h : s.ApbHolds k) (hp : i.apbRsp.pready = false) :
    (s.step i).ApbHolds k := by
  unfold ApbHolds at h
  simp [ApbHolds, Soc.step, ObiToApb.step, h, hp]

/-- On the APB side the transaction is the request that the bridge holds. -/
theorem ApbHolds.apbReq {k : SocIn} (h : s.ApbHolds k) (q : ObiReq) :
    s.apb.apbReq q = ⟨true, true, k.dataAddr, k.dataWe, if k.dataWe then k.dataBe else 0,
      k.dataWdata⟩ := by
  unfold ApbHolds at h
  simp [ObiToApb.apbReq, h]

/-- The response of cycle `t'` is what the slave selected in cycle `t` returned for the request
    of that cycle, and no other request was granted in between. -/
structure DataAnswer (r : ℕ → Soc) (j : ℕ → SocIn) (t t' : ℕ) : Prop where
  alone : ∀ u, t < u → u < t' → (r u).dataGranted (j u) = false
  isram : ((r t).input (j t)).dataSel = .isram → t' = t + 1 ∧
    ((r t).dec.isramReq ((r t).input (j t))).addr = (j t).dataAddr ∧
    (r t').dataRdata (j t') = (r t).isram.answer ((r t).dec.isramReq ((r t).input (j t)))
  dsram : ((r t).input (j t)).dataSel = .dsram → t' = t + 1 ∧
    (r t').dataRdata (j t') = if (j t).dataWe then 0 else (r t).dsram.mem (wordIdx 10 (j t).dataAddr)
  ctrl : ((r t).input (j t)).dataSel = .ctrl → t' = t + 1 ∧
    (r t').dataRdata (j t') = (r t').ctrl.rdata ∧
    ((j t).dataWe = false →
      (r t').dataRdata (j t') = (r t).ctrl.readWord (j t).fwVerified (j t).dataAddr)
  apb : ((r t).input (j t)).dataSel = .apb → (j t').apbRsp.pready = true ∧
    (r t').dataRdata (j t') = (j t').apbRsp.prdata ∧ (r t').dataErr (j t') = (j t').apbRsp.pslverr ∧
    ∀ u, t < u → u ≤ t' → (r u).apb.apbReq ((r u).dec.apbReq ((r u).input (j u))) =
      ⟨true, true, (j t).dataAddr, (j t).dataWe, if (j t).dataWe then (j t).dataBe else 0,
        (j t).dataWdata⟩
  err : ((r t).input (j t)).dataSel = .err → t' = t + 1 ∧
    (r t').dataRdata (j t') = 0xDEADBEEF ∧ (r t').dataErr (j t') = true

section Run

variable {rom isram dsram : BitVec 10 → BitVec 32} {j : ℕ → SocIn}

/-- A slave other than the APB bridge answers in the next cycle. -/
theorem answer_next {t t' : ℕ} (hg : (run rom isram dsram j t).dataGranted (j t) = true)
    (hs : ((run rom isram dsram j t).input (j t)).dataSel ≠ .apb) (hlt : t < t')
    (hno : ∀ u, t < u → u < t' → (run rom isram dsram j u).dataRvalid (j u) = false) :
    t' = t + 1 := by
  by_contra hne
  have h1 := hno (t + 1) (by omega) (by omega)
  obtain ⟨hq, hb⟩ := run_of_granted rom isram dsram j hg
  rw [(dataInv_run rom isram dsram j (t + 1)).dataRvalid_eq, hb, Bool.and_true, hq] at h1
  revert h1 hs
  cases ((run rom isram dsram j t).input (j t)).dataSel <;> simp [dataIn]

theorem apb_keeps {t u : ℕ} (hg : (run rom isram dsram j t).dataGranted (j t) = true)
    (hs : ((run rom isram dsram j t).input (j t)).dataSel = .apb) (hlt : t + 1 ≤ u)
    (hno : ∀ v, t < v → v < u → (run rom isram dsram j v).dataRvalid (j v) = false) :
    (run rom isram dsram j u).dec.data.selectQ = .apb ∧
      (run rom isram dsram j u).ApbHolds (j t) := by
  induction u, hlt using Nat.le_induction with
  | base => exact ⟨by rw [(run_of_granted rom isram dsram j hg).1, hs], apb_of_granted hg hs⟩
  | succ u hlt ih =>
    obtain ⟨hq, hh⟩ := ih fun v h1 h2 => hno v h1 (by omega)
    obtain ⟨hb, hfree⟩ := (dataSingle rom isram dsram j).alone hg hno hlt (Nat.le_succ u)
    have hr := hno u (by omega) (by omega)
    rw [(dataInv_run rom isram dsram j u).dataRvalid_eq, hb, hq, Bool.and_true] at hr
    refine ⟨?_, hh.step hr⟩
    rw [run_succ, data_selectQ_step, hfree (Nat.lt_succ_self u), if_neg Bool.false_ne_true, hq]

theorem dataAnswer_of_first {t t' : ℕ} (hg : (run rom isram dsram j t).dataGranted (j t) = true)
    (hlt : t < t') (hr : (run rom isram dsram j t').dataRvalid (j t') = true)
    (hno : ∀ u, t < u → u < t' → (run rom isram dsram j u).dataRvalid (j u) = false ∧
      (run rom isram dsram j u).dataGranted (j u) = false) :
    DataAnswer (run rom isram dsram j) j t t' := by
  have hq := (run_of_granted rom isram dsram j hg).1
  have hno' := fun u h1 h2 => (hno u h1 h2).1
  refine ⟨fun u h1 h2 => (hno u h1 h2).2, fun hs => ?isram, fun hs => ?dsram, fun hs => ?ctrl,
    fun hs => ?apb, fun hs => ?err⟩
  case isram =>
    obtain rfl := answer_next hg (by simp [hs]) hlt hno'
    obtain ⟨h1, h2, h3⟩ := isram_of_granted hg hs
    refine ⟨rfl, h3, ?_⟩
    rw [dataRdata_eq (hq.trans hs), ← h1]
    exact AddrDecode.isramDataRsp_rdata h2 _ _
  case dsram =>
    obtain rfl := answer_next hg (by simp [hs]) hlt hno'
    refine ⟨rfl, ?_⟩
    rw [dataRdata_eq (hq.trans hs)]
    exact dsram_of_granted hg hs
  case ctrl =>
    obtain rfl := answer_next hg (by simp [hs]) hlt hno'
    rw [dataRdata_eq (hq.trans hs)]
    exact ⟨rfl, rfl, fun hw => ctrl_of_granted hg hs hw⟩
  case apb =>
    have hk := fun u (h1 : t + 1 ≤ u) (h2 : u ≤ t') =>
      apb_keeps hg hs h1 fun v h3 h4 => hno' v h3 (by omega)
    have hqa := (hk t' hlt le_rfl).1
    refine ⟨?_, by rw [dataRdata_eq hqa]; rfl, by rw [dataErr_eq hqa]; rfl,
      fun u h1 h2 => (hk u h1 h2).2.apbReq _⟩
    rw [(dataInv_run rom isram dsram j t').dataRvalid_eq, hqa, Bool.and_eq_true] at hr
    exact hr.1
  case err =>
    obtain rfl := answer_next hg (by simp [hs]) hlt hno'
    rw [dataRdata_eq (hq.trans hs), dataErr_eq (hq.trans hs)]
    exact ⟨rfl, rfl, rfl⟩

/-- An open request is answered: at once, or when the APB slave is ready. -/
theorem data_live (hfin : ∀ t, (run rom isram dsram j t).apb.tsxnInProgress = true →
      ∃ u, t ≤ u ∧ (j u).apbRsp.pready = true) (t : ℕ)
    (hb : (run rom isram dsram j t).dataBusy = true) :
    ∃ t', t ≤ t' ∧ (run rom isram dsram j t').dataRvalid (j t') = true := by
  by_contra! hno
  simp only [ne_eq, Bool.not_eq_true] at hno
  have hbusy : ∀ u, t ≤ u → (run rom isram dsram j u).dataBusy = true := fun u hu => by
    induction u, hu using Nat.le_induction with
    | base => exact hb
    | succ u hu ih =>
      have := (dataSingle rom isram dsram j).next u
      simpa [ih, hno u hu] using this
  have hslow : ∀ u, t ≤ u → (run rom isram dsram j u).dec.data.selectQ = .apb ∧
      (j u).apbRsp.pready = false := fun u hu => by
    have hr := hno u hu
    rw [(dataInv_run rom isram dsram j u).dataRvalid_eq, hbusy u hu, Bool.and_true] at hr
    revert hr
    cases (run rom isram dsram j u).dec.data.selectQ <;> simp [dataIn]
  have hin : (run rom isram dsram j t).apb.tsxnInProgress = true := by
    rw [dataBusy, (hslow t le_rfl).1] at hb
    exact hb
  obtain ⟨u, hu, hp⟩ := hfin t hin
  exact absurd hp (by simp [(hslow u hu).2])

variable (rom isram dsram j)

/-- **Every granted data request gets exactly one response, in order, from its own slave**, if
    the APB slave answers its requests at some time. -/
theorem data_inOrder (hfin : ∀ t, (run rom isram dsram j t).apb.tsxnInProgress = true →
      ∃ u, t ≤ u ∧ (j u).apbRsp.pready = true) :
    Port.InOrder (fun t => (run rom isram dsram j t).dataGranted (j t))
      (fun t => (run rom isram dsram j t).dataRvalid (j t))
      (DataAnswer (run rom isram dsram j) j) :=
  Port.inOrder_of_single (dataSingle rom isram dsram j) (data_live hfin)
    fun _ _ hg hlt hr hno => dataAnswer_of_first hg hlt hr hno

end Run

/-- An APB read, requested all the time, that the slave answers at once. -/
def apbReads : SocIn where
  instrReq := false
  instrAddr := 0
  dataReq := true
  dataWe := false
  dataBe := 0xF
  dataAddr := 0x10000004
  dataWdata := 0
  dbgMode := false
  fwVerified := false
  apbRsp := ⟨true, 7, false⟩
  dbgRdata := 0
  buf := ⟨fun _ => false, false, 0, false⟩
  sha := ⟨fun _ => false, false, 0, false⟩
  plic := ⟨fun _ => false, false, 0, false⟩
  dataFree := false
  fetchFree := false

theorem data_inOrder_apbReads : Port.InOrder
    (fun t => (run (fun _ => 0) (fun _ => 0) (fun _ => 0) (fun _ => apbReads) t).dataGranted apbReads)
    (fun t => (run (fun _ => 0) (fun _ => 0) (fun _ => 0) (fun _ => apbReads) t).dataRvalid apbReads)
    (DataAnswer (run (fun _ => 0) (fun _ => 0) (fun _ => 0) fun _ => apbReads) fun _ => apbReads) :=
  data_inOrder (fun _ => 0) (fun _ => 0) (fun _ => 0) (fun _ => apbReads)
    fun t _ => ⟨t, le_rfl, rfl⟩

end Soc

end SentinelSoc
