/-
  The ISRAM behind the decoder.

  * `lock_sticky`: the write lock stays, and neither with the lock nor in debug
    mode does the array change;
  * `boot_done_lock`: what the lock is when the boot phase ends decides whether
    the firmware can still be overwritten;
  * `fetched_verified`: a word that reaches the core from the ISRAM without an
    error was read by a fetch accepted while the firmware was verified;
  * `denied_err_iff`: which accesses of the data port get an error bit of their
    own, the bit being that of the request in the cycle of the response.
-/
import SentinelSoc.Bus.Soc

namespace SentinelSoc

namespace AddrDecode

variable {s : AddrDecode} {x : DecodeIn}

/-- The write gate. -/
theorem isramReq_we (h : (s.isramReq x).we = true) :
    x.ctrlIsramLock = false ∧ x.dbgMode = false := by
  unfold isramReq isramArb at h
  split_ifs at h
  · simp only [Bool.and_eq_true, Bool.not_eq_true'] at h
    exact ⟨h.1.2, h.2⟩
  · exact absurd h Bool.false_ne_true
  · exact absurd h Bool.false_ne_true

/-- The gate of the control registers: after the boot phase no write goes through. -/
theorem ctrlReq_write (h : ((s.ctrlReq x).req && (s.ctrlReq x).we) = true) : x.bootDone = false := by
  rw [Bool.and_eq_true] at h
  obtain ⟨hs, he⟩ := dataMgrReq_of_req h.1
  have hw : x.dataWe = true := by
    have hw := h.2
    rw [ctrlReq, he] at hw
    exact hw
  obtain ⟨hc, hd⟩ := DecodeIn.dataSel_eq_ctrl hs.symm
  simpa [DecodeIn.privDenied, DecodeIn.privHit, hc, hw, DecodeIn.privWriteOk] using hd

end AddrDecode

/-- A slave that does nothing. -/
def idleSlave : SlaveRsp := ⟨fun _ => false, false, 0, false⟩

/-- A cycle with one data write. -/
def dataWrite (addr wdata : BitVec 32) : DecodeIn where
  instrReq := false
  instrAddr := 0
  dataReq := true
  dataWe := true
  dataBe := 0xF
  dataAddr := addr
  dataWdata := wdata
  dbgMode := false
  bootrom := idleSlave
  isram := idleSlave
  dsram := idleSlave
  ctrl := idleSlave
  buf := idleSlave
  sha := idleSlave
  plic := idleSlave
  apb := idleSlave
  dbg := idleSlave
  ctrlIsramLock := false
  bootDone := false
  fwVerified := false
  dataOverflow := false
  fetchOverflow := false

namespace BootSys

variable {a : ℕ} {s : BootSys a} {x : DecodeIn}

theorem step_lock (h : s.ctrl.isramLockQ = true) : (s.step x).ctrl.isramLockQ = true :=
  CtrlRegs.step_isramLockQ h

theorem step_mem (h : s.ctrl.isramLockQ = true ∨ x.dbgMode = true) :
    (s.step x).isram.mem = s.isram.mem := by
  refine Sram.step_mem_of_not_we ?_
  by_contra hw
  rw [Bool.not_eq_false] at hw
  obtain ⟨h1, h2⟩ := AddrDecode.isramReq_we hw
  rcases h with h | h
  · exact absurd h1 (by rw [show (s.input x).ctrlIsramLock = s.ctrl.isramLockQ from rfl, h]; decide)
  · exact absurd h2 (by rw [show (s.input x).dbgMode = x.dbgMode from rfl, h]; decide)

/-- **The write lock is sticky and complete.** -/
theorem lock_sticky (mem : BitVec a → BitVec 32) (x : ℕ → DecodeIn) (t : ℕ) :
    ((Sync.run step (reset mem) x t).ctrl.isramLockQ = true → ∀ u, t ≤ u →
      (Sync.run step (reset mem) x u).ctrl.isramLockQ = true ∧
      (Sync.run step (reset mem) x (u + 1)).isram.mem = (Sync.run step (reset mem) x u).isram.mem) ∧
    ((x t).dbgMode = true → (Sync.run step (reset mem) x (t + 1)).isram.mem =
      (Sync.run step (reset mem) x t).isram.mem) := by
  refine ⟨fun h u hu => ?_, fun h => step_mem (.inr h)⟩
  have hl := Sync.run_stable (P := fun s : BootSys a => s.ctrl.isramLockQ = true)
    (fun _ _ h => step_lock h) hu h
  exact ⟨hl, step_mem (.inl hl)⟩

/-! ## The end of the boot phase -/

/-- After the boot phase the control registers keep their bits. -/
theorem step_booted (h : s.ctrl.bootDoneQ = true) :
    (s.step x).ctrl.isramLockQ = s.ctrl.isramLockQ ∧ (s.step x).ctrl.bootDoneQ = true := by
  refine ⟨(CtrlRegs.step_of_not_write ?_).1, CtrlRegs.step_bootDoneQ h⟩
  by_contra hw
  rw [Bool.not_eq_false] at hw
  exact absurd (AddrDecode.ctrlReq_write hw)
    (by rw [show (s.input x).bootDone = s.ctrl.bootDoneQ from rfl, h]; decide)

/-- **The lock that the boot phase leaves decides**: set, no ISRAM word changes until the next
    reset; not set, it never will be. -/
theorem boot_done_lock (mem : BitVec a → BitVec 32) (x : ℕ → DecodeIn) (t : ℕ)
    (h : (Sync.run step (reset mem) x t).ctrl.bootDoneQ = true) :
    ((Sync.run step (reset mem) x t).ctrl.isramLockQ = true → ∀ u, t ≤ u →
      (Sync.run step (reset mem) x u).isram.mem = (Sync.run step (reset mem) x t).isram.mem) ∧
    ((Sync.run step (reset mem) x t).ctrl.isramLockQ = false → ∀ u, t ≤ u →
      (Sync.run step (reset mem) x u).ctrl.isramLockQ = false) := by
  refine ⟨fun hl u hu => ?_, fun hl u hu => ?_⟩
  · exact Sync.run_frozen (P := fun s : BootSys a => s.ctrl.isramLockQ = true) (fun s => s.isram.mem)
      (fun _ _ h => step_lock h) (fun _ _ h => step_mem (.inl h)) hu hl
  · have hfrozen := Sync.run_frozen (P := fun s : BootSys a => s.ctrl.bootDoneQ = true)
      (fun s => s.ctrl.isramLockQ) (fun _ _ h => (step_booted h).2)
      (fun _ _ h => (step_booted h).1) hu h
    exact hfrozen.trans hl

/-- The lock and then the end of the boot phase, and ISRAM writes for ever after. -/
def lockedBoot : ℕ → DecodeIn
  | 0 => dataWrite 0x30000 1
  | 1 => dataWrite 0x3000C 1
  | _ => dataWrite 0x10000 0xABCD

theorem boot_done_lock_lockedBoot :
    (Sync.run step (reset (a := 10) fun _ => 0) lockedBoot 7).isram.mem =
      (Sync.run step (reset (a := 10) fun _ => 0) lockedBoot 2).isram.mem :=
  (boot_done_lock (a := 10) (fun _ => 0) lockedBoot 2 (by decide +kernel)).1 (by decide +kernel) 7
    (by decide)

/-- The end of the boot phase without the lock, and an ISRAM write. -/
def unlockedBoot : ℕ → DecodeIn
  | 0 => dataWrite 0x3000C 1
  | _ => dataWrite 0x10000 0xABCD

/-- The firmware is overwritten after the boot phase; in both cycles the overflow wire is what
    its counter drives. -/
theorem unlockedBoot_overwritten :
    (Sync.run step (reset (a := 10) fun _ => 0) unlockedBoot 1).ctrl.bootDoneQ = true ∧
    (Sync.run step (reset (a := 10) fun _ => 0) unlockedBoot 2).isram.mem 0 ≠
      (Sync.run step (reset (a := 10) fun _ => 0) unlockedBoot 1).isram.mem 0 ∧
    ∀ t < 2, (Sync.run step (reset (a := 10) fun _ => 0) unlockedBoot t).dec.dataDrive
      ((Sync.run step (reset (a := 10) fun _ => 0) unlockedBoot t).input (unlockedBoot t)) =
        false := by
  refine ⟨by decide +kernel, by decide +kernel, by decide +kernel⟩

end BootSys

/-! ## Fetches -/

namespace IsramSys

variable {a : ℕ} {s : IsramSys a} {x : DecodeIn}

/-- A fetch is accepted at the core's port. -/
def fetchGranted (s : IsramSys a) (x : DecodeIn) : Bool := x.instrReq && s.dec.instrGnt (s.input x)

theorem step_isram_rvalid : (s.step x).isram.rvalid = (s.dec.isramReq (s.input x)).req := by
  simp only [step, Sram.step_rvalid]

theorem step_owner : (s.step x).dec.isramRespIsDataQ =
    if (s.dec.isramReq (s.input x)).req then s.dec.isramDataActive (s.input x)
    else s.dec.isramRespIsDataQ := by
  have hg : (s.input x).isram = s.isram.rsp := rfl
  simp only [step, AddrDecode.step, hg, Sram.rsp_gnt, Bool.and_self]

/-- What an ISRAM answer to the fetch port says about the cycle before. -/
theorem fetch_of_response (hv : (s.step x).isram.rvalid = true)
    (ho : (s.step x).dec.isramRespIsDataQ = false) :
    s.fetchGranted x = true ∧ x.fetchSel = .isram ∧ x.fwVerified = true ∧
      s.dec.isramDataActive (s.input x) = false ∧
      (s.step x).isram.rdata = s.isram.mem (wordIdx a x.instrAddr) := by
  rw [step_isram_rvalid] at hv
  rw [step_owner, if_pos hv] at ho
  have hr := hv
  rw [AddrDecode.isramReq_req, ho, Bool.false_or, Bool.and_eq_true] at hr
  obtain ⟨hf, hw⟩ := hr
  obtain ⟨hsel, he⟩ := AddrDecode.fetchMgrReq_of_req hf
  have ho' : (s.dec.dataMgrReq (s.input x) .isram).req = false := ho
  have hq : s.dec.isramReq (s.input x) = ⟨true, x.instrAddr, false, 0xF, 0⟩ := by
    rw [AddrDecode.isramReq, AddrDecode.isramArb, ho', if_neg Bool.false_ne_true, if_pos hf,
      if_pos hw, he]
    rfl
  refine ⟨?_, hsel.symm, hw, ho, ?_⟩
  · have hup : s.dec.fetchCntUp (s.input x) = s.fetchGranted x := AddrDecode.fetchCntUp_eq_gnt
    rw [← hup, AddrDecode.fetchCntUp, Demux.cntUp, Bool.and_eq_true]
    have hf' : (s.dec.fetchMgrReq (s.input x) (s.input x).fetchSel).req = true := by
      rw [← hsel]; exact hf
    refine ⟨hf', ?_⟩
    rw [← hsel]
    have hg : (s.input x).isram = s.isram.rsp := rfl
    rw [AddrDecode.fetchRsp, AddrDecode.fetchMgrRsp, AddrDecode.isramFetchRsp_gnt, ho', hf, hg,
      Sram.rsp_gnt, AddrDecode.isramArb_req, hf, hw]
    simp
  · simp [step, hq, Sram.step, Sram.answer]

/-- A fetch answer without an error is an ISRAM answer owed to the fetch port. -/
theorem response_of_rvalid (hq : s.dec.fetch.selectQ = .isram)
    (hv : s.dec.instrRvalid (s.input x) = true) (he : s.dec.instrErr (s.input x) = false) :
    s.isram.rvalid = true ∧ s.dec.isramRespIsDataQ = false ∧
      s.dec.instrRdata (s.input x) = s.isram.rdata := by
  have hi : (s.input x).isram.rvalid = s.isram.rvalid := rfl
  rw [AddrDecode.instrRvalid, hq, AddrDecode.fetchRsp, AddrDecode.fetchMgrRsp,
    AddrDecode.isramFetchRsp_rvalid, hi] at hv
  rw [AddrDecode.instrErr, hq, AddrDecode.fetchRsp, AddrDecode.fetchMgrRsp] at he
  cases ho : s.dec.isramRespIsDataQ with
  | true =>
    -- then only the error word of a blocked fetch comes out
    rw [ho, if_pos rfl] at hv
    simp only [Bool.and_eq_true, Bool.not_eq_true'] at hv
    obtain ⟨⟨⟨h1, h2⟩, h3⟩, -⟩ := hv
    rw [(AddrDecode.isramFetchRsp_blocked ho h1 h2 h3).2] at he
    exact absurd he (by decide)
  | false =>
    rw [ho, if_neg Bool.false_ne_true] at hv
    refine ⟨hv, rfl, ?_⟩
    rw [AddrDecode.instrRdata, hq, AddrDecode.fetchRsp, AddrDecode.fetchMgrRsp,
      (AddrDecode.isramFetchRsp_owned ho _ _).1]
    rfl

/-- **No unverified instruction reaches the core.** A word delivered from the ISRAM without an
    error was read by the fetch accepted one cycle before, with the firmware verified; in the
    cycle after a read or write of the data port, or after a fetch accepted with the firmware
    not verified, whatever is delivered has the error set. -/
theorem fetched_verified (mem : BitVec a → BitVec 32) (x : ℕ → DecodeIn) (t : ℕ)
    (hq : (Sync.run step (reset mem) x t).dec.fetch.selectQ = .isram)
    (hv : (Sync.run step (reset mem) x t).dec.instrRvalid
      ((Sync.run step (reset mem) x t).input (x t)) = true) :
    ((Sync.run step (reset mem) x t).dec.instrErr
        ((Sync.run step (reset mem) x t).input (x t)) = false →
      ∃ u, t = u + 1 ∧ (Sync.run step (reset mem) x u).fetchGranted (x u) = true ∧
        (x u).fetchSel = .isram ∧ (x u).fwVerified = true ∧
        (Sync.run step (reset mem) x t).dec.instrRdata
            ((Sync.run step (reset mem) x t).input (x t)) =
          (Sync.run step (reset mem) x u).isram.mem (wordIdx a (x u).instrAddr)) ∧
    ∀ u, t = u + 1 →
      ((Sync.run step (reset mem) x u).dec.isramDataActive
          ((Sync.run step (reset mem) x u).input (x u)) = true ∨ (x u).fwVerified = false) →
      (Sync.run step (reset mem) x t).dec.instrErr
        ((Sync.run step (reset mem) x t).input (x t)) = true := by
  refine ⟨fun he => ?_, fun u hu hbad => ?_⟩
  · obtain ⟨h1, h2, h3⟩ := response_of_rvalid hq hv he
    cases t with
    | zero => exact absurd h1 Bool.false_ne_true
    | succ u =>
      obtain ⟨h4, h5, h6, -, h7⟩ := fetch_of_response h1 h2
      exact ⟨u, rfl, h4, h5, h6, h3.trans h7⟩
  · subst hu
    by_contra he
    rw [Bool.not_eq_true] at he
    obtain ⟨h1, h2, -⟩ := response_of_rvalid hq hv he
    obtain ⟨-, -, h6, h7, -⟩ := fetch_of_response h1 h2
    rcases hbad with hb | hb
    · rw [h7] at hb
      exact absurd hb Bool.false_ne_true
    · rw [h6] at hb
      exact absurd hb (by decide)

/-- A fetch from the ISRAM with the firmware verified. -/
def verifiedFetch : DecodeIn :=
  { dataWrite 0 0 with dataReq := false, instrReq := true, instrAddr := 0x10004, fwVerified := true }

theorem fetched_verified_fetch :
    ∃ u, 1 = u + 1 ∧
      (Sync.run step (reset (a := 10) fun _ => 0x13) (fun _ => verifiedFetch) u).fetchGranted
        verifiedFetch = true ∧
      verifiedFetch.fetchSel = .isram ∧ verifiedFetch.fwVerified = true ∧
      (Sync.run step (reset (a := 10) fun _ => 0x13) (fun _ => verifiedFetch) 1).dec.instrRdata
          ((Sync.run step (reset (a := 10) fun _ => 0x13) (fun _ => verifiedFetch) 1).input
            verifiedFetch) =
        (Sync.run step (reset (a := 10) fun _ => 0x13) (fun _ => verifiedFetch) u).isram.mem
          (wordIdx 10 verifiedFetch.instrAddr) :=
  (fetched_verified (a := 10) (fun _ => 0x13) (fun _ => verifiedFetch) 1 (by decide +kernel)
    (by decide +kernel)).1 (by decide +kernel)

/-! ## Denied writes -/

end IsramSys

/-- A write that the lock or debug mode keeps from the ISRAM. -/
def DecodeIn.denied (x : DecodeIn) : Bool := x.dataWe && (x.ctrlIsramLock || x.dbgMode)

/-- A denied write waits at the ISRAM arbiter, when the demultiplexer's port is the ISRAM's: the
    path is open unless the overflow wire closes it. -/
def DecodeIn.deniedWrite (x : DecodeIn) : Bool :=
  x.dataReq && x.dataSel == .isram && !x.dataOverflow && x.denied

namespace IsramSys

variable {a : ℕ} {s : IsramSys a} {x y : DecodeIn}

/-- The data port's access to the ISRAM is accepted. -/
def dataGranted (s : IsramSys a) (x : DecodeIn) : Bool :=
  x.dataReq && s.dec.dataGnt (s.input x) && x.dataSel == .isram

theorem dataGranted_facts (h : s.dataGranted x = true) :
    s.dec.dataCntUp (s.input x) = true ∧ x.dataSel = .isram ∧
      s.dec.isramDataActive (s.input x) = true := by
  unfold dataGranted at h
  rw [Bool.and_eq_true, beq_iff_eq] at h
  obtain ⟨hg, hsel⟩ := h
  have hup : s.dec.dataCntUp (s.input x) = true := by
    rw [AddrDecode.dataCntUp_eq_gnt]
    exact hg
  obtain ⟨he, hr⟩ := AddrDecode.dataMgrReq_of_cntUp hup
  have hsel' : (s.input x).dataSel = .isram := hsel
  refine ⟨hup, hsel, ?_⟩
  rw [AddrDecode.isramDataActive, ← hsel', he]
  exact hr

/-- The response of a granted access comes one cycle later, to the data port. -/
theorem step_of_dataGranted (h : s.dataGranted x = true) :
    (s.step x).isram.rvalid = true ∧ (s.step x).dec.isramRespIsDataQ = true ∧
      (s.step x).dec.data.selectQ = .isram := by
  obtain ⟨hup, hsel, ha⟩ := dataGranted_facts h
  have hr : (s.dec.isramReq (s.input x)).req = true := by
    rw [AddrDecode.isramReq_req, ha, Bool.true_or]
  refine ⟨by rw [step_isram_rvalid, hr], by rw [step_owner, if_pos hr, ha], ?_⟩
  change (s.dec.data.step (s.dec.dataCntUp (s.input x)) _ (s.input x).dataSel).selectQ = _
  rw [Demux.step_selectQ, hup, if_pos rfl]
  exact hsel

theorem dataRvalid_of_owed (hv : s.isram.rvalid = true) (ho : s.dec.isramRespIsDataQ = true)
    (hq : s.dec.data.selectQ = .isram) : s.dec.dataRvalid (s.input y) = true := by
  rw [AddrDecode.dataRvalid, hq, AddrDecode.dataRsp, AddrDecode.dataMgrRsp,
    AddrDecode.isramDataRsp_rvalid, ho, Bool.true_and]
  exact hv

/-- **The error bit of a response** is that of the request at the port in the same cycle. -/
theorem dataErr_eq (hq : s.dec.data.selectQ = .isram) :
    s.dec.dataErr (s.input y) = y.deniedWrite := by
  have hm : s.dec.dataMgrReq (s.input y) .isram =
      if !y.dataOverflow && y.dataSel == .isram then y.dataReqS else ObiReq.idle := by
    change s.dec.data.mgrReq y.dataOverflow _ y.dataSel y.dataReqS .isram = _
    by_cases hs : y.dataSel = .isram
    · rw [Demux.mgrReq, hs, ← hq, Demux.passes_selectQ]
    · rw [Demux.mgrReq_of_ne (Ne.symm hs)]
      simp [hs]
  have he : (s.input y).isram.err = false := rfl
  have hl : (s.input y).ctrlIsramLock = y.ctrlIsramLock := rfl
  have hd : (s.input y).dbgMode = y.dbgMode := rfl
  rw [AddrDecode.dataErr, hq, AddrDecode.dataRsp, AddrDecode.dataMgrRsp,
    AddrDecode.isramDataRsp_err, hm, he, hl, hd, Bool.false_or, DecodeIn.deniedWrite,
    DecodeIn.denied]
  cases y.dataOverflow <;> cases y.dataSel == .isram <;> simp [DecodeIn.dataReqS]

theorem step_mem_of_denied (hd : x.denied = true) : (s.step x).isram.mem = s.isram.mem := by
  refine Sram.step_mem_of_not_we ?_
  by_contra hw
  rw [Bool.not_eq_false] at hw
  obtain ⟨h1, h2⟩ := AddrDecode.isramReq_we hw
  have h1' : x.ctrlIsramLock = false := h1
  have h2' : x.dbgMode = false := h2
  rw [DecodeIn.denied, h1', h2'] at hd
  simp at hd

/-- The fetch port's access to the ISRAM, with the firmware verified, is answered without an
    error, whatever the data port asks for. -/
theorem fetch_of_granted (hg : s.fetchGranted x = true) (hs : x.fetchSel = .isram)
    (hv : x.fwVerified = true) :
    (s.step x).dec.instrRvalid ((s.step x).input y) = true ∧
      (s.step x).dec.instrErr ((s.step x).input y) = false := by
  have hup : s.dec.fetchCntUp (s.input x) = true := by
    rw [AddrDecode.fetchCntUp_eq_gnt]
    exact hg
  obtain ⟨he, hr⟩ := AddrDecode.fetchMgrReq_of_cntUp hup
  have hs' : (s.input x).fetchSel = .isram := hs
  have hfr : (s.dec.fetchMgrReq (s.input x) .isram).req = true := by
    rw [← hs', he]; exact hr
  -- the data port wins, so a granted fetch had the ISRAM to itself
  have hna : s.dec.isramDataActive (s.input x) = false := by
    have hgnt : (s.dec.fetchRsp (s.input x) .isram).gnt = true := by
      rw [AddrDecode.fetchCntUp, Demux.cntUp, Bool.and_eq_true, hs'] at hup
      exact hup.2
    rw [AddrDecode.fetchRsp, AddrDecode.fetchMgrRsp, AddrDecode.isramFetchRsp_gnt] at hgnt
    simp only [Bool.and_eq_true, Bool.not_eq_true'] at hgnt
    exact hgnt.1.1
  have hreq : (s.dec.isramReq (s.input x)).req = true := by
    have hv' : (s.input x).fwVerified = true := hv
    rw [AddrDecode.isramReq_req, hfr, hv', Bool.and_self, Bool.or_true]
  have ho : (s.step x).dec.isramRespIsDataQ = false := by
    rw [step_owner, if_pos hreq, hna]
  have hq : (s.step x).dec.fetch.selectQ = .isram := by
    change (s.dec.fetch.step (s.dec.fetchCntUp (s.input x)) _ (s.input x).fetchSel).selectQ = _
    rw [Demux.step_selectQ, hup, if_pos rfl, hs']
  constructor
  · rw [AddrDecode.instrRvalid, hq, AddrDecode.fetchRsp, AddrDecode.fetchMgrRsp,
      AddrDecode.isramFetchRsp_rvalid, ho, if_neg Bool.false_ne_true]
    exact step_isram_rvalid.trans hreq
  · rw [AddrDecode.instrErr, hq, AddrDecode.fetchRsp, AddrDecode.fetchMgrRsp,
      (AddrDecode.isramFetchRsp_owned ho _ _).2]
    rfl

/-- **When the error bit is the access's own.**  A denied write changes no word.  Its response,
    one cycle later, has the error set exactly if another denied write is at the port by then;
    that same write puts the error on the response of a permitted access.  Fetches are not
    affected. -/
theorem denied_err_iff (mem : BitVec a → BitVec 32) (x : ℕ → DecodeIn) (t : ℕ) :
    ((Sync.run step (reset mem) x t).dataGranted (x t) = true →
      (Sync.run step (reset mem) x (t + 1)).dec.dataRvalid
          ((Sync.run step (reset mem) x (t + 1)).input (x (t + 1))) = true ∧
        ((x t).denied = true → (Sync.run step (reset mem) x (t + 1)).isram.mem =
          (Sync.run step (reset mem) x t).isram.mem) ∧
        ((Sync.run step (reset mem) x (t + 1)).dec.dataErr
            ((Sync.run step (reset mem) x (t + 1)).input (x (t + 1))) = (x t).denied ↔
          (x (t + 1)).deniedWrite = (x t).denied)) ∧
    ((Sync.run step (reset mem) x t).fetchGranted (x t) = true → (x t).fetchSel = .isram →
      (x t).fwVerified = true →
        (Sync.run step (reset mem) x (t + 1)).dec.instrRvalid
            ((Sync.run step (reset mem) x (t + 1)).input (x (t + 1))) = true ∧
          (Sync.run step (reset mem) x (t + 1)).dec.instrErr
            ((Sync.run step (reset mem) x (t + 1)).input (x (t + 1))) = false) := by
  constructor
  · intro hg
    obtain ⟨hv, ho, hq⟩ := step_of_dataGranted hg
    refine ⟨dataRvalid_of_owed hv ho hq, fun hd => step_mem_of_denied hd, ?_⟩
    rw [Sync.run_succ, dataErr_eq hq]
  · intro hg hs hf
    exact fetch_of_granted hg hs hf

/-- A write to the locked ISRAM, and nothing after it. -/
def lockedWrite : ℕ → DecodeIn
  | 0 => { dataWrite 0x10000 0xDEADBEEF with ctrlIsramLock := true }
  | _ => { dataWrite 0 0 with dataReq := false, ctrlIsramLock := true }

/-- It is answered without an error. -/
theorem lockedWrite_silent :
    (Sync.run step (reset (a := 10) fun _ => 1) lockedWrite 0).dataGranted (lockedWrite 0) = true ∧
      (lockedWrite 0).denied = true ∧
      (Sync.run step (reset (a := 10) fun _ => 1) lockedWrite 1).dec.dataRvalid
        ((Sync.run step (reset (a := 10) fun _ => 1) lockedWrite 1).input (lockedWrite 1)) = true ∧
      (Sync.run step (reset (a := 10) fun _ => 1) lockedWrite 1).dec.dataErr
        ((Sync.run step (reset (a := 10) fun _ => 1) lockedWrite 1).input (lockedWrite 1)) =
          false ∧
      ∀ t < 2, (Sync.run step (reset (a := 10) fun _ => 1) lockedWrite t).dec.dataDrive
        ((Sync.run step (reset (a := 10) fun _ => 1) lockedWrite t).input (lockedWrite t)) =
          (lockedWrite t).dataOverflow := by
  refine ⟨by decide +kernel, by decide, by decide +kernel, by decide +kernel, by decide +kernel⟩

end IsramSys

end SentinelSoc
