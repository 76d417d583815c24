/-
  The fetch port of the SoC.

  * `Served`: the condition under which the arbiters pass on the answers that
    they owe the fetch port: the answer to a blocked fetch and that of the debug
    module reach the port only while a further request of the same kind is live;
  * `fetchSlaves_step`: in a served cycle the fetch side of the SoC is the
    demultiplexer of `Slaves`;
  * `fetch_inOrder_iff`: every granted fetch gets its own response in the next
    cycle exactly when all cycles are served.
-/
import SentinelSoc.Bus.DataPort

namespace SentinelSoc

namespace Soc

variable {s : Soc} {i : SocIn} {o : Bool}

/-! ## The slaves behind the fetch port -/

/-- The decoder's inputs under a value of the fetch overflow wire. -/
def fetchAt (s : Soc) (i : SocIn) (o : Bool) : DecodeIn := s.inputAt i (s.dataOverflow i) o

theorem input_eq_fetchAt : s.input i = s.fetchAt i (s.fetchOverflow i) := rfl

/-- Whether a slave owes the fetch port an answer. -/
def fetchOwes (s : Soc) : FetchSel → Bool
  | .bootrom => s.bootrom.rvalid
  | .isram => (s.isram.rvalid && !s.dec.isramRespIsDataQ) || s.dec.isramFetchBlockedQ
  | .dbg => s.dbgRvalidQ

/-- The fetch side of the SoC. -/
def fetchSlaves (s : Soc) : Slaves 1 FetchSel := ⟨s.dec.fetch, fun p => (s.fetchOwes p).toNat⟩

/-- What the slaves put in: all grant at once but the ISRAM while the data port has it, and all
    answer at once. -/
def fetchIn (s : Soc) (i : SocIn) : DemuxIn FetchSel where
  select := (s.input i).fetchSel
  sbr := (s.input i).fetchReqS
  gnt
    | .isram, r => r.req && !s.dec.isramDataActive (s.input i)
    | _, r => r.req
  answers _ := true
  free := i.fetchFree

/-- An answer owed to the fetch port is passed on in this cycle. -/
structure Served (s : Soc) (i : SocIn) : Prop where
  blocked : s.dec.isramFetchBlockedQ = true → s.dec.isramRespIsDataQ = true ∧
    i.instrReq = true ∧ (s.input i).fetchSel = .isram ∧ i.fwVerified = false ∧
    s.dec.isramDataActive (s.input i) = false
  dbg : s.dbgRvalidQ = true → i.instrReq = true ∧ (s.input i).fetchSel = .dbg

theorem fetchSlaves_rvalid (p : FetchSel) :
    s.fetchSlaves.rvalid (s.fetchIn i) p = s.fetchOwes p := by
  cases h : s.fetchOwes p <;> simp [Slaves.rvalid, fetchSlaves, fetchIn, h]

/-- The data port never asks the debug module. -/
theorem data_dbg_idle (x : DecodeIn) : s.dec.dataMgrReq x .dbg = ObiReq.idle :=
  AddrDecode.dataMgrReq_of_ne fun h => by
    have := x.dataSel_implemented
    rw [← h] at this
    exact absurd this (by decide)

/-- A response at the fetch port is one that was owed. -/
theorem fetchOwes_of_rvalid {p : FetchSel} {d : DataSel → ObiReq} {f : FetchSel → ObiReq}
    (h : (s.dec.fetchMgrRsp (s.fetchAt i o) d f p).rvalid = true) : s.fetchOwes p = true := by
  cases p with
  | bootrom => exact h
  | isram =>
    rw [AddrDecode.fetchMgrRsp, AddrDecode.isramFetchRsp_rvalid] at h
    have hv : (s.fetchAt i o).isram.rvalid = s.isram.rvalid := rfl
    rw [hv] at h
    cases hr : s.dec.isramRespIsDataQ <;> simp_all [fetchOwes]
  | dbg =>
    simp only [AddrDecode.fetchMgrRsp, AddrDecode.dbgRsp] at h
    split_ifs at h
    · exact h
    · simp at h

theorem fetchMgrRsp_gnt (p : FetchSel) (f : FetchSel → ObiReq) :
    (s.dec.fetchMgrRsp (s.fetchAt i o) (s.dec.dataMgrReq (s.fetchAt i o)) f p).gnt =
      (s.fetchIn i).gnt p (f p) := by
  cases p with
  | bootrom => rfl
  | isram =>
    rw [AddrDecode.fetchMgrRsp, AddrDecode.isramFetchRsp_gnt]
    have hg : (s.fetchAt i o).isram.gnt = fun r => r.req := rfl
    have ha : (s.dec.dataMgrReq (s.fetchAt i o) .isram).req =
      s.dec.isramDataActive (s.input i) := rfl
    simp only [hg, AddrDecode.isramArb_req, ha, fetchIn]
    cases s.dec.isramDataActive (s.input i) <;> cases (f .isram).req <;>
      cases (s.fetchAt i o).fwVerified <;> rfl
  | dbg =>
    have hd : (s.dec.dataMgrReq (s.fetchAt i o) .dbg).req = false := by rw [data_dbg_idle]; rfl
    simp only [AddrDecode.fetchMgrRsp, AddrDecode.dbgRsp, hd, fetchIn]
    cases (f .dbg).req <;> rfl

/-- A request to the slave in use goes out if the overflow wire is low. -/
theorem fetchReqAt_live (h : s.dec.fetch.selectQ = (s.input i).fetchSel) (down : Bool) :
    s.dec.fetchReqAt (s.fetchAt i false) down (s.input i).fetchSel =
      (s.fetchAt i false).fetchReqS := by
  have hp : s.dec.fetch.passes false down (s.input i).fetchSel = true := by
    rw [← h, Demux.passes_selectQ]; rfl
  have hs : (s.fetchAt i false).fetchSel = (s.input i).fetchSel := rfl
  have ho : (s.fetchAt i false).fetchOverflow = false := rfl
  simp [AddrDecode.fetchReqAt, Demux.mgrReq, hs, ho, hp]

/-- In a served cycle every answer that is owed comes, if the overflow wire is low. -/
theorem Served.fetchCntDown (h : s.Served i) :
    s.dec.fetchCntDown (s.fetchAt i false) = s.fetchSlaves.cntDown (s.fetchIn i) := by
  rw [Slaves.cntDown, fetchSlaves_rvalid]
  show _ = s.fetchOwes s.dec.fetch.selectQ
  rw [Bool.eq_iff_iff]
  refine ⟨fetchOwes_of_rvalid, fun ho => ?_⟩
  unfold AddrDecode.fetchCntDown
  cases hq : s.dec.fetch.selectQ with
  | bootrom => rw [hq] at ho; exact ho
  | isram =>
    rw [hq] at ho
    have hv : (s.fetchAt i false).isram.rvalid = s.isram.rvalid := rfl
    rw [AddrDecode.fetchMgrRsp, AddrDecode.isramFetchRsp_rvalid, hv]
    cases hb : s.dec.isramFetchBlockedQ with
    | false =>
      simp only [fetchOwes, hb, Bool.or_false, Bool.and_eq_true, Bool.not_eq_true'] at ho
      simp [ho.1, ho.2]
    | true =>
      obtain ⟨h1, h2, h3, h4, h5⟩ := h.blocked hb
      have hl := fetchReqAt_live (i := i) (hq.trans h3.symm) false
      rw [h3] at hl
      have hr : (s.fetchAt i false).fetchReqS.req = true := h2
      have hf : (s.fetchAt i false).fwVerified = false := h4
      have hd : (s.dec.dataMgrReq (s.fetchAt i false) .isram).req = false := h5
      simp [h1, hl, hr, hf, hd]
  | dbg =>
    rw [hq] at ho
    obtain ⟨h1, h2⟩ := h.dbg ho
    have hl := fetchReqAt_live (i := i) (hq.trans h2.symm) false
    rw [h2] at hl
    have hr : (s.fetchAt i false).fetchReqS.req = true := h1
    have hd : (s.dec.dataMgrReq (s.fetchAt i false) .dbg).req = false := by rw [data_dbg_idle]; rfl
    simp only [AddrDecode.fetchMgrRsp, AddrDecode.dbgRsp, hl, hr, hd]
    exact ho

/-! ## The fetch side is the demultiplexer of `Slaves` in served cycles -/

/-- What every state keeps on the fetch side as long as all cycles are served. -/
abbrev FetchInv (s : Soc) : Prop := s.fetchSlaves.Inv 2

theorem fetch_not_crowded (h : s.FetchInv) : ¬ s.fetchSlaves.Crowded 2 (s.fetchIn i) := by
  rintro ⟨hout, hd, -⟩
  rw [Slaves.cntDown, fetchSlaves_rvalid] at hd
  have hd' : s.fetchOwes s.dec.fetch.selectQ = false := hd
  rw [h.outstanding_eq] at hout
  simp [fetchSlaves, hd'] at hout

theorem Served.fetchCntUp (h : s.Served i) :
    s.dec.fetchCntUp (s.fetchAt i false) = s.fetchSlaves.cntUp (s.fetchIn i) false := by
  unfold AddrDecode.fetchCntUp AddrDecode.fetchRsp
  rw [fetchMgrRsp_gnt, AddrDecode.fetchMgrReq, h.fetchCntDown]
  rfl

theorem Served.fetchOverflow (h : s.Served i) (hi : s.FetchInv) : s.fetchOverflow i = false := by
  refine Sync.settle_of_const ?_ ?_ _
  · have := hi.drive_eq_false (by decide) (fetch_not_crowded (i := i) hi) false
    rw [Slaves.drive, ← h.fetchCntUp, ← h.fetchCntDown] at this
    exact this
  · -- with the wire high nothing is counted up, and what is counted down was counted
    show s.dec.fetch.overflow _ _ = false
    have hup : s.dec.fetchCntUp (s.fetchAt i true) = false := Demux.cntUp_overflow
    have hpos : s.dec.fetchCntDown (s.fetchAt i true) = true →
        s.dec.fetch.inFlight.toNat = 1 := fun hd => by
      have ho := fetchOwes_of_rvalid hd
      have hc := hi.counted
      simp only [fetchSlaves, ho] at hc
      exact hc
    rw [Demux.overflow_eq (by decide)]
    split_ifs with hd
    · simp [hpos hd]
    · exact Bool.and_eq_false_iff.2 (.inl hup)

theorem Served.input_eq (h : s.Served i) (hi : s.FetchInv) : s.input i = s.fetchAt i false := by
  rw [input_eq_fetchAt, h.fetchOverflow hi]

/-- What a slave owes the fetch port after the cycle: the fetch it took. -/
theorem fetchOwes_step (p : FetchSel) : (s.step i).fetchOwes p =
    ((s.dec.fetchMgrReq (s.input i) p).req &&
      (s.fetchIn i).gnt p (s.dec.fetchMgrReq (s.input i) p)) := by
  cases p with
  | bootrom =>
    simp only [fetchOwes, step, Bootrom.step, AddrDecode.bootromReq, AddrDecode.bootromArb, fetchIn]
    simp
  | isram =>
    have hb : (s.step i).dec.isramFetchBlockedQ =
        ((s.dec.fetchMgrReq (s.input i) .isram).req && !s.dec.isramDataActive (s.input i) &&
          !i.fwVerified) := rfl
    simp only [fetchOwes, step_isramRespIsDataQ, step_isram_rvalid, AddrDecode.isramReq_req, hb,
      fetchIn, input_fwVerified]
    cases s.dec.isramDataActive (s.input i) <;>
      cases (s.dec.fetchMgrReq (s.input i) .isram).req <;> cases i.fwVerified <;> simp
  | dbg =>
    have hd : (s.dec.dataMgrReq (s.input i) .dbg).req = false := by rw [data_dbg_idle]; rfl
    simp only [fetchOwes, step, AddrDecode.dbgReq, AddrDecode.dbgArb, hd, fetchIn]
    cases (s.dec.fetchMgrReq (s.input i) .dbg).req <;> simp

/-- **The fetch side refines the demultiplexer with its slaves** in served cycles. -/
theorem fetchSlaves_step (h : s.Served i) (hi : s.FetchInv) :
    (s.step i).fetchSlaves = s.fetchSlaves.step (s.fetchIn i) := by
  have hov : s.fetchSlaves.overflow (s.fetchIn i) = false :=
    hi.overflow_eq_false (by decide) (fetch_not_crowded hi)
  have hx := h.input_eq hi
  have hdemux : (s.step i).fetchSlaves.demux = (s.fetchSlaves.step (s.fetchIn i)).demux := by
    have hup := h.fetchCntUp
    have hdown := h.fetchCntDown
    rw [← hx] at hup hdown
    rw [Slaves.step, hov, ← hup, ← hdown]
    rfl
  have howed : (s.step i).fetchSlaves.owed = (s.fetchSlaves.step (s.fetchIn i)).owed := by
    funext p
    have hs := fetchOwes_step (s := s) (i := i) p
    have hreq : s.dec.fetchMgrReq (s.input i) p = s.fetchSlaves.mgrReq (s.fetchIn i) false p := by
      rw [hx, AddrDecode.fetchMgrReq, h.fetchCntDown]
      rfl
    rw [hreq] at hs
    simp only [Slaves.step, Slaves.gnt, fetchSlaves_rvalid, hov]
    simp only [fetchSlaves] at hs ⊢
    rw [hs, Nat.add_sub_cancel_left]
  exact Slaves.ext hdemux howed

theorem fetchInv_step (h : s.Served i) (hi : s.FetchInv) : (s.step i).FetchInv := by
  rw [FetchInv, fetchSlaves_step h hi]
  exact hi.step (by decide) (by decide) (fetch_not_crowded hi)

theorem fetchInv_reset (rom isram dsram : BitVec 10 → BitVec 32) :
    (reset rom isram dsram).FetchInv := by
  constructor
  · rfl
  · intro p _; cases p <;> rfl
  · exact Nat.zero_le _

/-! ## The fetch port -/

/-- A fetch is granted in this cycle. -/
def fetchGranted (s : Soc) (i : SocIn) : Bool := i.instrReq && s.dec.instrGnt (s.input i)

/-- `instr_rvalid_o`. -/
def instrRvalid (s : Soc) (i : SocIn) : Bool := s.dec.instrRvalid (s.input i)

def instrRdata (s : Soc) (i : SocIn) : BitVec 32 := s.dec.instrRdata (s.input i)

def instrErr (s : Soc) (i : SocIn) : Bool := s.dec.instrErr (s.input i)

/-- A granted fetch is unanswered. -/
def fetchBusy (s : Soc) : Bool := s.fetchOwes s.dec.fetch.selectQ

theorem fetchGranted_eq : s.fetchGranted i = s.dec.fetchCntUp (s.input i) := by
  rw [AddrDecode.fetchCntUp_eq_gnt, input_toCoreIn, fetchGranted]

/-- A fetch that its slave takes is granted. -/
theorem fetchGranted_of_req {p : FetchSel} (hr : (s.dec.fetchMgrReq (s.input i) p).req = true)
    (hg : (s.fetchIn i).gnt p (s.dec.fetchMgrReq (s.input i) p) = true) :
    s.fetchGranted i = true ∧ (s.input i).fetchSel = p ∧ i.instrReq = true := by
  obtain ⟨rfl, he⟩ := AddrDecode.fetchMgrReq_of_req hr
  refine ⟨?_, rfl, by rw [he] at hr; exact hr⟩
  rw [fetchGranted_eq, AddrDecode.fetchCntUp, Demux.cntUp, Bool.and_eq_true]
  exact ⟨hr, (fetchMgrRsp_gnt (o := s.fetchOverflow i) _ _).trans hg⟩

theorem fetch_selectQ_step : (s.step i).dec.fetch.selectQ =
    if s.fetchGranted i then (s.input i).fetchSel else s.dec.fetch.selectQ := by
  rw [fetchGranted_eq]
  rfl

theorem Served.instrRvalid_eq (h : s.Served i) (hi : s.FetchInv) :
    s.instrRvalid i = s.fetchBusy := by
  rw [instrRvalid, ← AddrDecode.fetchCntDown_eq, h.input_eq hi, h.fetchCntDown, Slaves.cntDown,
    fetchSlaves_rvalid]
  rfl

theorem Served.busy_step (h : s.Served i) (hi : s.FetchInv) :
    (s.step i).fetchBusy.toNat + (s.instrRvalid i).toNat =
      s.fetchBusy.toNat + (s.fetchGranted i).toNat := by
  have ho := hi.owed_step (x := s.fetchIn i) (by decide)
  rw [← fetchSlaves_step h hi, hi.overflow_eq_false (by decide) (fetch_not_crowded hi),
    ← h.fetchCntUp, ← h.fetchCntDown, ← h.input_eq hi] at ho
  rw [fetchGranted_eq, instrRvalid, ← AddrDecode.fetchCntDown_eq]
  exact ho

/-! ## Responses -/

theorem instrRdata_eq {p : FetchSel} (h : s.dec.fetch.selectQ = p) :
    s.instrRdata i = (s.dec.fetchRsp (s.input i) p).rdata := by
  rw [← h]; rfl

theorem instrErr_eq {p : FetchSel} (h : s.dec.fetch.selectQ = p) :
    s.instrErr i = (s.dec.fetchRsp (s.input i) p).err := by
  rw [← h]; rfl

theorem fetchReq_of_granted {p : FetchSel} (hg : s.fetchGranted i = true)
    (hs : (s.input i).fetchSel = p) :
    s.dec.fetchMgrReq (s.input i) p = ⟨true, i.instrAddr, false, 0xF, 0⟩ ∧
      (s.fetchIn i).gnt p (s.dec.fetchMgrReq (s.input i) p) = true := by
  rw [fetchGranted_eq] at hg
  obtain ⟨he, hr⟩ := AddrDecode.fetchMgrReq_of_cntUp hg
  rw [AddrDecode.fetchCntUp, Demux.cntUp, Bool.and_eq_true] at hg
  have hgnt := (fetchMgrRsp_gnt (o := s.fetchOverflow i) _ _).symm.trans hg.2
  subst hs
  refine ⟨?_, hgnt⟩
  rw [he, DecodeIn.fetchReqS, hr]
  rfl

/-- What a granted fetch leaves in its slave. -/
theorem bootrom_of_granted (hg : s.fetchGranted i = true) (hs : (s.input i).fetchSel = .bootrom) :
    (s.step i).bootrom.rdata = s.bootrom.mem (wordIdx 10 i.instrAddr) := by
  simp [step, Bootrom.step, AddrDecode.bootromReq, AddrDecode.bootromArb,
    (fetchReq_of_granted hg hs).1]

theorem dbgReq_of_granted (hg : s.fetchGranted i = true) (hs : (s.input i).fetchSel = .dbg) :
    s.dec.dbgReq (s.input i) = ⟨true, i.instrAddr, false, 0xF, 0⟩ := by
  have hd : (s.dec.dataMgrReq (s.input i) .dbg).req = false := by rw [data_dbg_idle]; rfl
  simp [AddrDecode.dbgReq, AddrDecode.dbgArb, hd, (fetchReq_of_granted hg hs).1]

theorem isram_of_fetch (hg : s.fetchGranted i = true) (hs : (s.input i).fetchSel = .isram) :
    s.dec.isramDataActive (s.input i) = false ∧
      (s.step i).dec.isramFetchBlockedQ = !i.fwVerified := by
  obtain ⟨he, hgnt⟩ := fetchReq_of_granted hg hs
  have ha : s.dec.isramDataActive (s.input i) = false := by
    simpa [fetchIn, he] using hgnt
  refine ⟨ha, ?_⟩
  have hb : (s.step i).dec.isramFetchBlockedQ = (s.dec.isramFetchActive (s.input i) &&
    !i.fwVerified) := rfl
  rw [hb, AddrDecode.isramFetchActive, he, ha]
  simp

theorem isram_of_verified (hg : s.fetchGranted i = true) (hs : (s.input i).fetchSel = .isram)
    (hf : i.fwVerified = true) :
    (s.step i).isram.rdata = s.isram.mem (wordIdx 10 i.instrAddr) ∧
      (s.step i).dec.isramRespIsDataQ = false := by
  obtain ⟨he, -⟩ := fetchReq_of_granted hg hs
  have ha := (isram_of_fetch hg hs).1
  have ha' : (s.dec.dataMgrReq (s.input i) .isram).req = false := ha
  have hq : s.dec.isramReq (s.input i) = ⟨true, i.instrAddr, false, 0xF, 0⟩ := by
    simp [AddrDecode.isramReq, AddrDecode.isramArb, ha', he, hf]
  constructor
  · simp [step, hq, Sram.step, Sram.answer]
  · rw [step_isramRespIsDataQ, hq, ha, if_pos rfl]

/-- The response of cycle `t'` is what the slave selected in cycle `t` returned for the fetch of
    that cycle: its own word, and the error word if the fetch was blocked. All slaves return it in
    the next cycle. -/
structure FetchAnswer (r : ℕ → Soc) (j : ℕ → SocIn) (t t' : ℕ) : Prop where
  next : t' = t + 1
  bootrom : ((r t).input (j t)).fetchSel = .bootrom →
    (r t').instrRdata (j t') = (r t).bootrom.mem (wordIdx 10 (j t).instrAddr) ∧
      (r t').instrErr (j t') = false
  verified : ((r t).input (j t)).fetchSel = .isram → (j t).fwVerified = true →
    (r t').instrRdata (j t') = (r t).isram.mem (wordIdx 10 (j t).instrAddr) ∧
      (r t').instrErr (j t') = false
  blocked : ((r t).input (j t)).fetchSel = .isram → (j t).fwVerified = false →
    (r t').instrRdata (j t') = 0xDEADBEEF ∧ (r t').instrErr (j t') = true
  dbg : ((r t).input (j t)).fetchSel = .dbg →
    (r t).dec.dbgReq ((r t).input (j t)) = ⟨true, (j t).instrAddr, false, 0xF, 0⟩ ∧
      (r t').instrRdata (j t') = (j t').dbgRdata ∧ (r t').instrErr (j t') = false

section Run

variable (rom isram dsram : BitVec 10 → BitVec 32) (j : ℕ → SocIn)

theorem fetchInv_run (h : ∀ t, (run rom isram dsram j t).Served (j t)) (t : ℕ) :
    (run rom isram dsram j t).FetchInv :=
  Sync.run_invariant_of (C := Served) (fetchInv_reset _ _ _)
    (fun _ _ hi hs => fetchInv_step hs hi) t fun u _ => h u

theorem fetchSingle (h : ∀ t, (run rom isram dsram j t).Served (j t)) :
    Port.Single (fun t => (run rom isram dsram j t).fetchGranted (j t))
      (fun t => (run rom isram dsram j t).instrRvalid (j t))
      (fun t => (run rom isram dsram j t).fetchBusy) := by
  have hinv := fetchInv_run rom isram dsram j h
  have hle := fun t => (h t).instrRvalid_eq (hinv t)
  have key : ∀ t, (run rom isram dsram j (t + 1)).fetchBusy =
      (run rom isram dsram j t).fetchGranted (j t) := fun t => by
    have hk := (h t).busy_step (hinv t)
    rw [hle t] at hk
    rw [run_succ]
    revert hk
    cases (run rom isram dsram j t).fetchBusy <;>
      cases (run rom isram dsram j t).fetchGranted (j t) <;>
        cases ((run rom isram dsram j t).step (j t)).fetchBusy <;> simp
  refine ⟨rfl, fun t => ?_, fun t hr => hle t ▸ hr, fun t _ hb => (hle t).trans hb⟩
  rw [key t, hle t, Bool.and_not_self, Bool.or_false]

variable {rom isram dsram j}

theorem fetchAnswer_of_served (h : ∀ t, (run rom isram dsram j t).Served (j t)) {t : ℕ}
    (hg : (run rom isram dsram j t).fetchGranted (j t) = true) :
    FetchAnswer (run rom isram dsram j) j t (t + 1) := by
  have hq : (run rom isram dsram j (t + 1)).dec.fetch.selectQ =
      ((run rom isram dsram j t).input (j t)).fetchSel := by
    rw [run_succ, fetch_selectQ_step, hg, if_pos rfl]
  have hx := (h (t + 1)).input_eq (fetchInv_run rom isram dsram j h (t + 1))
  refine ⟨rfl, fun hs => ?bootrom, fun hs hf => ?verified, fun hs hf => ?blocked,
    fun hs => ?dbg⟩
  case bootrom =>
    rw [instrRdata_eq (hq.trans hs), instrErr_eq (hq.trans hs)]
    exact ⟨bootrom_of_granted hg hs, rfl⟩
  case verified =>
    obtain ⟨h1, h2⟩ := isram_of_verified hg hs hf
    rw [instrRdata_eq (hq.trans hs), instrErr_eq (hq.trans hs), ← h1]
    exact AddrDecode.isramFetchRsp_owned h2 _ _
  case blocked =>
    obtain ⟨h1, h2, h3, h4, h5⟩ := (h (t + 1)).blocked (by
      rw [run_succ, (isram_of_fetch hg hs).2, hf]; rfl)
    rw [instrRdata_eq (hq.trans hs), instrErr_eq (hq.trans hs)]
    have hlive := fetchReqAt_live ((hq.trans hs).trans h3.symm)
    rw [h3] at hlive
    refine AddrDecode.isramFetchRsp_blocked h1 h5 ?_ h4
    rw [hx, AddrDecode.fetchMgrReq, hlive]
    exact h2
  case dbg =>
    have hreq := dbgReq_of_granted hg hs
    obtain ⟨h1, h2⟩ := (h (t + 1)).dbg (by rw [run_succ, step, hreq])
    have hlive := fetchReqAt_live ((hq.trans hs).trans h2.symm)
    rw [h2] at hlive
    have hr : ((run rom isram dsram j (t + 1)).dec.fetchMgrReq
        ((run rom isram dsram j (t + 1)).input (j (t + 1))) .dbg).req = true := by
      rw [hx, AddrDecode.fetchMgrReq, hlive]
      exact h1
    have hd : ((run rom isram dsram j (t + 1)).dec.dataMgrReq
        ((run rom isram dsram j (t + 1)).input (j (t + 1))) .dbg).req = false := by
      rw [data_dbg_idle]; rfl
    refine ⟨hreq, ?_⟩
    rw [instrRdata_eq (hq.trans hs), instrErr_eq (hq.trans hs), AddrDecode.fetchRsp,
      AddrDecode.fetchMgrRsp, AddrDecode.dbgRsp, hr, hd]
    exact ⟨rfl, rfl⟩

/-- A response in the next cycle to every grant makes every cycle served. -/
theorem served_of_next (h : ∀ t, (run rom isram dsram j t).fetchGranted (j t) = true →
    (run rom isram dsram j (t + 1)).instrRvalid (j (t + 1)) = true) (t : ℕ) :
    (run rom isram dsram j t).Served (j t) := by
  cases t with
  | zero => exact ⟨fun hb => absurd hb Bool.false_ne_true, fun hb => absurd hb Bool.false_ne_true⟩
  | succ u =>
    generalize hs : run rom isram dsram j u = s at h
    have hstep : run rom isram dsram j (u + 1) = s.step (j u) := by rw [run_succ, hs]
    have hu := h u
    rw [hs, hstep] at hu
    rw [hstep]
    constructor
    · intro hb
      have hb' : ((s.dec.fetchMgrReq (s.input (j u)) .isram).req &&
        !s.dec.isramDataActive (s.input (j u)) && !(j u).fwVerified) = true := hb
      simp only [Bool.and_eq_true, Bool.not_eq_true'] at hb'
      obtain ⟨⟨h1, h2⟩, h3⟩ := hb'
      obtain ⟨hg, hsel, -⟩ := fetchGranted_of_req h1 (by simp [fetchIn, h1, h2])
      have hr := hu hg
      have hq : (s.step (j u)).dec.fetch.selectQ = .isram := by
        rw [fetch_selectQ_step, hg, if_pos rfl, hsel]
      have hv : ((s.step (j u)).input (j (u + 1))).isram.rvalid = false := by
        rw [input_isram, Sram.rsp_rvalid, step_isram_rvalid, AddrDecode.isramReq_req, h2,
          input_fwVerified, h3]
        simp
      rw [instrRvalid, AddrDecode.instrRvalid, hq, AddrDecode.fetchRsp, AddrDecode.fetchMgrRsp,
        AddrDecode.isramFetchRsp_rvalid, hv] at hr
      split_ifs at hr with hresp
      simp only [Bool.and_eq_true, Bool.not_eq_true'] at hr
      obtain ⟨⟨⟨h4, h5⟩, h6⟩, -⟩ := hr
      obtain ⟨h7, h8⟩ := AddrDecode.fetchMgrReq_of_req h5
      rw [h8] at h5
      exact ⟨hresp, h5, h7.symm, h6, h4⟩
    · intro hb
      have hd : ∀ x, (s.dec.dataMgrReq x .dbg).req = false := fun x => by rw [data_dbg_idle]; rfl
      have hf : (s.dec.fetchMgrReq (s.input (j u)) .dbg).req = true := by
        have hb' : (s.dec.dbgReq (s.input (j u))).req = true := hb
        cases hf : (s.dec.fetchMgrReq (s.input (j u)) .dbg).req with
        | true => rfl
        | false => simp [AddrDecode.dbgReq, AddrDecode.dbgArb, hd, hf] at hb'
      obtain ⟨hg, hsel, -⟩ := fetchGranted_of_req hf hf
      have hr := hu hg
      have hq : (s.step (j u)).dec.fetch.selectQ = .dbg := by
        rw [fetch_selectQ_step, hg, if_pos rfl, hsel]
      rw [instrRvalid, AddrDecode.instrRvalid, hq, AddrDecode.fetchRsp, AddrDecode.fetchMgrRsp,
        AddrDecode.dbgRsp] at hr
      split_ifs at hr with hlive
      · rw [Bool.and_eq_true] at hlive
        obtain ⟨h7, h8⟩ := AddrDecode.fetchMgrReq_of_req hlive.1
        have h9 := hlive.1
        rw [h8] at h9
        exact ⟨h9, h7.symm⟩
      · simp at hr

/-- **Every granted fetch gets its own response in the next cycle, exactly when all cycles are
    served.** -/
theorem fetch_inOrder_iff (rom isram dsram : BitVec 10 → BitVec 32) (j : ℕ → SocIn) :
    Port.InOrder (fun t => (run rom isram dsram j t).fetchGranted (j t))
        (fun t => (run rom isram dsram j t).instrRvalid (j t))
        (FetchAnswer (run rom isram dsram j) j) ↔
      ∀ t, (run rom isram dsram j t).Served (j t) := by
  constructor
  · intro h
    refine served_of_next fun t hg => ?_
    obtain ⟨t', ha, -⟩ := h.answered t hg
    obtain rfl := (h.own t t' ha).next
    exact ha.2.2.1
  · intro h
    have hs := fetchSingle rom isram dsram j h
    have hle := fun t => (h t).instrRvalid_eq (fetchInv_run rom isram dsram j h t)
    refine Port.inOrder_of_single hs (fun t hb => ⟨t, le_rfl, (hle t).trans hb⟩)
      fun t t' hg hlt hr hno => ?_
    have hnext : t' = t + 1 := by
      by_contra hne
      have h1 := (hno (t + 1) (by omega) (by omega)).1
      have h2 := hs.next t
      simp only [hg, Bool.true_or] at h2
      rw [hle, h2] at h1
      exact absurd h1 (by decide)
    subst hnext
    exact fetchAnswer_of_served h hg

end Run

/-- A core that does nothing. -/
def idleIn : SocIn := { apbReads with dataReq := false }

/-- One fetch from the ISRAM before the firmware is verified, and then nothing. -/
def oneFetch : ℕ → SocIn
  | 0 => { idleIn with instrReq := true, instrAddr := 0x10000 }
  | _ => idleIn

/-- The answer to the blocked fetch is lost. -/
structure Lost (s : Soc) : Prop where
  selectQ : s.dec.fetch.selectQ = .isram
  owner : s.dec.isramRespIsDataQ = false
  rvalid : s.isram.rvalid = false

theorem isramReq_idle : (s.dec.isramReq (s.input idleIn)).req = false := by
  have hd : s.dec.isramDataActive (s.input idleIn) = false := by
    by_contra hd
    rw [Bool.not_eq_false] at hd
    have he := (AddrDecode.dataMgrReq_of_req hd).2
    rw [AddrDecode.isramDataActive, he] at hd
    exact absurd hd Bool.false_ne_true
  have hf : (s.dec.fetchMgrReq (s.input idleIn) .isram).req = false := by
    by_contra hf
    rw [Bool.not_eq_false] at hf
    have he := (AddrDecode.fetchMgrReq_of_req hf).2
    rw [he] at hf
    exact absurd hf Bool.false_ne_true
  rw [AddrDecode.isramReq_req, hd, hf]
  rfl

theorem Lost.rvalid_idle (h : s.Lost) : s.instrRvalid idleIn = false := by
  rw [instrRvalid, AddrDecode.instrRvalid, h.selectQ, AddrDecode.fetchRsp, AddrDecode.fetchMgrRsp,
    AddrDecode.isramFetchRsp_rvalid, h.owner, if_neg Bool.false_ne_true]
  exact h.rvalid

theorem Lost.step (h : s.Lost) : (s.step idleIn).Lost where
  selectQ := by
    rw [fetch_selectQ_step, h.selectQ]
    exact if_neg Bool.false_ne_true
  owner := by rw [step_isramRespIsDataQ, isramReq_idle, h.owner]; rfl
  rvalid := by rw [step_isram_rvalid, isramReq_idle]

/-- The answer to the blocked fetch never comes. -/
theorem oneFetch_lost :
    (run (fun _ => 0) (fun _ => 0) (fun _ => 0) oneFetch 0).fetchGranted (oneFetch 0) = true ∧
      ∀ t, (run (fun _ => 0) (fun _ => 0) (fun _ => 0) oneFetch t).instrRvalid (oneFetch t) =
        false := by
  have hlost : ∀ t, (run (fun _ => 0) (fun _ => 0) (fun _ => 0) oneFetch (t + 1)).Lost := fun t => by
    induction t with
    | zero => exact ⟨by decide +kernel, by decide +kernel, by decide +kernel⟩
    | succ t ih => exact ih.step
  refine ⟨by decide +kernel, fun t => ?_⟩
  cases t with
  | zero => decide +kernel
  | succ t => exact (hlost t).rvalid_idle

end Soc

end SentinelSoc
