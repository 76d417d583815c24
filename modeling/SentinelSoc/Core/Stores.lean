/-
  Stores with tainted operands: what stops them.

  * `Accessing`: the facts of a cycle in which the load/store unit works for the
    instruction in ID and is not done;
  * `Busy`: the invariant of the cycles between the first request and the last;
  * `store_stopped_iff`: a store is stopped exactly where the check looks at a tag that
    is set, and without a writeback stage not even there.
-/
import SentinelSoc.Core.Retire

namespace SentinelSoc

namespace Core

variable {wbs : Bool} {s : Core} {x : PipeIn}

/-! ## Loads and stores in ID -/

theorem access_opcode (h : s.dec.dataReq = true) :
    (Decoder.illegal s.instrRdataId || s.illegalCInsnId) = false ∧
      (Instr.opcode s.instrRdataId = .store ∨ Instr.opcode s.instrRdataId = .load) := by
  have h' : ((Instr.opcode s.instrRdataId == .store || Instr.opcode s.instrRdataId == .load) &&
      !(Decoder.illegal s.instrRdataId || s.illegalCInsnId)) = true := h
  rw [Bool.and_eq_true, Bool.not_eq_true', Bool.or_eq_true, beq_iff_eq, beq_iff_eq] at h'
  exact ⟨h'.2, h'.1⟩

/-- The decoder on a load or a store. -/
theorem access_dec (h : s.dec.dataReq = true) :
    s.dec.illegalInsn = false ∧ s.dec.ecallInsn = false ∧ s.dec.ebrkInsn = false ∧
      s.dec.mretInsn = false ∧ s.dec.dretInsn = false ∧ s.dec.wfiInsn = false ∧
      s.dec.csrAccess = false ∧ s.dec.rfRenA = true := by
  obtain ⟨hb, ho⟩ := access_opcode h
  rcases ho with ho | ho <;>
    simp [dec, decode, Decoder.sys, Decoder.rfRenA, hb, ho]

theorem access_legal (h : s.dec.dataReq = true) : s.illegalInsn x = false := by
  obtain ⟨hi, -, -, hm, hd, hw, hc, -⟩ := access_dec h
  simp [illegalInsn, illegalCsrInsn, hi, hm, hd, hw, hc]

/-- The operands of the adder are the base, or the last address, and an immediate. -/
theorem access_operands (wbs : Bool) (h : s.dec.dataReq = true) :
    s.aluOperandATag wbs = (if s.lsu.addrIncrReqO = true then false else s.operandAFwIdTag wbs) ∧
      s.aluOperandBTag wbs = false := by
  obtain ⟨hb, ho⟩ := access_opcode h
  have hopA : s.dec.opASel = .regA := by
    rcases ho with ho | ho <;> simp [dec, decode, Decoder.opSel, ho]
  have hopB : s.dec.opBSel = .imm := by
    rcases ho with ho | ho
    · have hl : Decoder.illegal s.instrRdataId = false := (Bool.or_eq_false_iff.1 hb).1
      have h2 : (Instr.funct3 s.instrRdataId).getLsbD 2 = false := by
        have hf : ∀ f : BitVec 3, (f != 0 && f != 1 && f != 2) = false → f.getLsbD 2 = false := by
          decide
        exact hf _ (by simpa [Decoder.illegal, ho] using hl)
      simp only [dec, decode, Decoder.opSel, ho, h2, Bool.false_eq_true, if_false]
    · simp [dec, decode, Decoder.opSel, ho]
  constructor
  · unfold aluOperandATag opASel
    rw [hopA]
    split_ifs <;> rfl
  · unfold aluOperandBTag opBSel
    rw [hopB]
    split_ifs <;> rfl

/-- The tag check of a load or a store with the tag of its base register. -/
def baseTagErr (s : Core) : Bool :=
  (diftLogic (modeTag s.instrRdataId s.tpr) (s.operandAFwIdTag true) false
    (diftTmu s.instrRdataId s.tcr) (Instr.opcode s.instrRdataId == .load)).exception ||
      s.pcException

theorem exTagErr_of_access (h : s.dec.dataReq = true) :
    s.exTagErr true = if s.lsu.addrIncrReqO = true then s.pcException else s.baseTagErr := by
  obtain ⟨ha, hb⟩ := access_operands true h
  rw [exTagErr, exDift, ha, hb]
  split_ifs
  · rw [diftLogic_clean, Bool.false_or]
  · rfl

theorem baseTagErr_of_exTagErr (h : s.dec.dataReq = true) (he : s.exTagErr true = true) :
    s.baseTagErr = true := by
  rw [exTagErr_of_access h] at he
  split_ifs at he
  · rw [baseTagErr, he, Bool.or_true]
  · exact he

theorem tagErrD_of_noBaseTagErr (h : s.dec.dataReq = true) (hb : s.baseTagErr = false) :
    s.tagErrD true x = false := by
  by_contra he
  rw [Bool.not_eq_false] at he
  simp only [tagErrD, Controller.tagErrD, Bool.and_eq_true] at he
  have hb' := baseTagErr_of_exTagErr h he.1.1
  exact absurd (hb.symm.trans hb') Bool.false_ne_true

/-- The only exception of its own that a load or a store has in ID is that of the tag check. -/
theorem access_excReqD (h : s.dec.dataReq = true) (hf : s.instrFetchErrId = false) :
    s.ctl.excReqD (s.excIn wbs x) = s.tagErrD wbs x := by
  obtain ⟨-, he, hb, -⟩ := access_dec h
  have hl := access_legal (x := x) h
  simp only [Controller.excReqD, Controller.illegalInsnD, tagErrD, Controller.tagErrD]
  simp [excIn, he, hb, hl, hf, Bool.and_assoc]

/-! ## An access under way -/

/-- The load/store unit works for the instruction in ID, which no exception stops, and is not
    done in this cycle. -/
structure Accessing (s : Core) (x : PipeIn) : Prop where
  valid : s.instrValidIdQ = true
  noFetchErr : s.instrFetchErrId = false
  dataReq : s.dec.dataReq = true
  decode : s.ctl.ctrlFsmCs = .decode
  noWbException : s.wbException true x = false
  noBaseTagErr : s.baseTagErr = false
  noOutstanding : s.outstandingMemoryAccess true x = false
  noHazard : s.stallLdHz true x = false
  notDone : s.lsuReqDone true x = false

/-- What holds between the first request of an access and its last grant. -/
structure Busy (s : Core) : Prop where
  valid : s.instrValidIdQ = true
  noFetchErr : s.instrFetchErrId = false
  dataReq : s.dec.dataReq = true
  decode : s.ctl.ctrlFsmCs = .decode
  noErr : s.ctl.loadErrQ = false ∧ s.ctl.storeErrQ = false
  noBaseTagErr : s.baseTagErr = false
  wb : s.wb.wbValidQ = false

/-- Between two requests the older instructions are gone, so nothing older raises an exception. -/
theorem Busy.noWbException (h : s.Busy) (hl : s.lsu.lsFsmCs ≠ .idle) :
    s.wbException true x = false := by
  have hi : (s.lsu.lsFsmCs == .idle) = false := beq_eq_false_iff_ne.2 hl
  simp [wbException, Controller.wbException, h.noErr, excIn, Lsu.loadErrO, Lsu.loadErr,
    Lsu.storeErrO, Lsu.storeErr, Lsu.lsuRespValidO, hi]

/-- A request that starts in this cycle. -/
theorem noBaseTagErr_of_lsuReq (h : s.lsuReq true x = true) (hl : s.lsu.lsFsmCs = .idle) :
    s.dec.dataReq = true ∧ s.baseTagErr = false := by
  simp only [lsuReq, Bool.and_eq_true] at h
  obtain ⟨hx, -, hd⟩ := h
  obtain ⟨hc, -, he⟩ := noException_of_instrExecuting hx
  have hs := instrExecutingSpec_iff.1 (spec_of_instrExecuting hx)
  have ha : s.lsu.addrIncrReqO = false := by rw [Lsu.addrIncrReqO, hl]
  rw [access_excReqD hd hs.2.1, tagErrD, Controller.tagErrD] at he
  have ht : s.exTagErr true = false := by simpa [excIn, hs.1, hc] using he
  rw [exTagErr_of_access hd, ha] at ht
  exact ⟨hd, by simpa using ht⟩

theorem accessing_of_not_done (hb : s.lsu.lsFsmCs ≠ .idle → s.Busy)
    (hn : (s.step true x).lsu.lsFsmCs ≠ .idle) : s.Accessing x := by
  have hn' : s.lsu.lsFsmNs (s.lsuIn true x (s.lsuReq true x)) ≠ .idle := hn
  have hdone : s.lsuReqDone true x = false := by
    simp [lsuReqDone, Lsu.lsuReqDoneO, hn']
  by_cases hl : s.lsu.lsFsmCs = .idle
  · have hr : s.lsuReq true x = true := by
      by_contra hr
      exact hn' (by simp [Lsu.lsFsmNs, hl, lsuIn, hr])
    obtain ⟨hd, ht⟩ := noBaseTagErr_of_lsuReq hr hl
    have hx : s.instrExecuting true x = true := by
      simp only [lsuReq, Bool.and_eq_true] at hr
      exact hr.1
    obtain ⟨hv, hf, hc, hz⟩ := instrExecutingSpec_iff.1 (spec_of_instrExecuting hx)
    have ho : s.outstandingMemoryAccess true x = false := by
      simp only [instrExecuting, ite_true, Bool.and_eq_true, Bool.not_eq_true'] at hx
      exact hx.2
    exact ⟨hv, hf, hd, hc, (noException_of_instrExecuting hx).2.1, ht, ho, hz, hdone⟩
  · have h := hb hl
    have ho : s.outstandingMemoryAccess true x = false := by
      simp [outstandingMemoryAccess, outstandingLoadWb, outstandingStoreWb, h.wb]
    have hz : s.stallLdHz true x = false := by simp [stallLdHz, outstandingLoadWb, h.wb]
    exact ⟨h.valid, h.noFetchErr, h.dataReq, h.decode, h.noWbException hl, h.noBaseTagErr, ho, hz,
      hdone⟩

namespace Accessing

theorem stallId (h : s.Accessing x) : s.stallId true x = true := by
  have hm : s.stallMem true x = true := by
    simp [stallMem, h.valid, h.dataReq, h.notDone]
  simp [Core.stallId, hm]

theorem instrDone (h : s.Accessing x) : s.instrDone true x = false := by
  simp [Core.instrDone, h.stallId]

theorem csrOpEn (h : s.Accessing x) : s.csrOpEn true x = false := by
  obtain ⟨-, -, -, -, -, -, hc, -⟩ := access_dec h.dataReq
  simp [Core.csrOpEn, hc]

theorem specialReq (h : s.Accessing x) : s.ctl.specialReq (s.ctlIn true x) = false := by
  obtain ⟨-, -, -, hm, hd, hw, -, -⟩ := access_dec h.dataReq
  have he : s.ctl.excReqD (s.ctlIn true x).toExcIn = false :=
    (access_excReqD h.dataReq h.noFetchErr).trans
      (tagErrD_of_noBaseTagErr h.dataReq h.noBaseTagErr)
  have hwb := h.noWbException
  simp only [wbException, Controller.wbException, Bool.true_and, Bool.or_eq_false_iff] at hwb
  have hc : s.csrPipeFlush true x = false := by simp [csrPipeFlush, h.csrOpEn]
  simp only [Controller.specialReq, he]
  simp [ctlIn, excIn, hm, hd, hw, hc]
  exact ⟨hwb.2, hwb.1.2⟩

/-- Neither the instruction nor the controller moves. -/
theorem decode_step (h : s.Accessing x) : (s.step true x).ctl.ctrlFsmCs = .decode := by
  change s.ctl.ctrlFsmNs true (s.ctlIn true x) = .decode
  have hst : Controller.stall (s.ctlIn true x) = true := by
    simp [Controller.stall, ctlIn, h.stallId]
  simp [Controller.ctrlFsmNs, h.decode, hst, h.specialReq]

theorem instr_step (h : s.Accessing x) : (s.step true x).instrValidIdQ = true ∧
    (s.step true x).instrRdataId = s.instrRdataId ∧
    (s.step true x).instrFetchErrId = s.instrFetchErrId ∧
    (s.step true x).illegalCInsnId = s.illegalCInsnId ∧ (s.step true x).pcIdTag = s.pcIdTag := by
  have hn : s.instrNewIdD true x = false := by
    simp [instrNewIdD, Controller.idInReady, Controller.stall, ctlIn, h.stallId]
  have hc := @instrValidClear_of_stall true s x h.decode h.stallId
  simp [Core.step, hn, hc, h.valid]

theorem wb_step (h : s.Accessing x) : (s.step true x).wb.wbValidQ = false := by
  have hr := readyWb_of_noOutstanding h.noOutstanding
  simp only [readyWb, ite_true, Bool.or_eq_true, Bool.not_eq_true'] at hr
  simp only [Core.step, wbStep, h.instrDone, Bool.false_and, Bool.false_or, Bool.false_eq_true,
    if_false]
  rcases hr with hv | hd
  · rw [hv, Bool.false_and]
  · rw [hd, Bool.not_true, Bool.and_false]

/-- The tag of the base register stays what it was. -/
theorem operandA_step (h : s.Accessing x) (hw : WbStage.Consistent s.wb) :
    (s.step true x).operandAFwIdTag true = s.operandAFwIdTag true := by
  obtain ⟨-, hi, -⟩ := h.instr_step
  have hr : s.rfRenA x = true := by
    obtain ⟨-, -, -, -, -, -, -, hra⟩ := access_dec h.dataReq
    simp [rfRenA, h.valid, h.noFetchErr, access_legal h.dataReq, hra]
  have ha : (s.outstandingLoadWb true && s.rdWbMatch true (Instr.rs1 s.instrRdataId)) = false := by
    have hz := h.noHazard
    simp only [stallLdHz, hr, Bool.and_true, Bool.and_or_distrib_left, Bool.or_eq_false_iff] at hz
    exact hz.1
  have hw' : WbStage.Consistent (s.step true x).wb := fun hv =>
    absurd (h.wb_step.symm.trans hv) Bool.false_ne_true
  rw [operandAFwIdTag, hi, fwTag_eq_drainedTag hw' (by simp [outstandingLoadWb, h.wb_step]),
    drainedTag_stall h.instrDone, operandAFwIdTag, fwTag_eq_drainedTag hw ha]

theorem baseTagErr_step (h : s.Accessing x) (hw : WbStage.Consistent s.wb) :
    (s.step true x).baseTagErr = false := by
  obtain ⟨hv, hi, -, -, hp⟩ := h.instr_step
  have hpol : (s.step true x).tpr = s.tpr ∧ (s.step true x).tcr = s.tcr := by
    simp [Core.step, policyWe, h.csrOpEn]
  have hb := h.noBaseTagErr
  rw [baseTagErr, pcException, h.valid] at hb
  rw [baseTagErr, pcException, h.operandA_step hw, hv, hi, hp, hpol.1, hpol.2]
  exact hb

theorem busy_step (h : s.Accessing x) (hw : WbStage.Consistent s.wb) : (s.step true x).Busy where
  valid := h.instr_step.1
  noFetchErr := h.instr_step.2.2.1.trans h.noFetchErr
  dataReq := by
    obtain ⟨-, hi, -, hc, -⟩ := h.instr_step
    have hd := h.dataReq
    simp only [dec, SentinelSoc.decode] at hd ⊢
    rw [hi, hc]
    exact hd
  decode := h.decode_step
  noErr := by
    have hwb := h.noWbException
    simp only [wbException, Controller.wbException, Bool.true_and, Bool.or_eq_false_iff] at hwb
    exact ⟨hwb.1.2, hwb.2⟩
  noBaseTagErr := h.baseTagErr_step hw
  wb := h.wb_step

end Accessing

/-! ## The invariant -/

theorem consistent_step (h : WbStage.Consistent s.wb) : WbStage.Consistent (s.step true x).wb := by
  by_cases hd : s.instrDone true x = true
  · have hx := instrExecuting_of_instrDone hd
    have hv := (instrExecutingSpec_iff.1 (spec_of_instrExecuting hx)).1
    have hl := legal_of_instrExecuting hx
    have hc : s.illegalCsrInsn x = false := by
      simp only [illegalInsn, hv, Bool.true_and, Bool.or_eq_false_iff] at hl
      exact hl.1.1.2
    intro _
    simp only [Core.step, wbStep, hd, ite_true, rfWeId, rfWeRaw_of_done hd, hx, hc, Bool.not_false,
      Bool.and_true, true_and]
    intro ht
    have hr : s.dec.dataReq = true := by
      by_contra hr
      rw [Bool.not_eq_true] at hr
      simp [instrTypeWb, hr] at ht
    rcases (access_opcode hr).2 with ho | ho <;> simp [dec, decode, Decoder.rfWe, ho]
  · rw [Bool.not_eq_true] at hd
    intro hv
    simp only [Core.step, wbStep, hd, Bool.false_and, Bool.false_or, Bool.false_eq_true, if_false,
      Bool.and_eq_true] at hv ⊢
    exact h hv.1

/-- The write enables agree, and an access under way meets no exception. -/
structure AccessInv (s : Core) : Prop where
  consistent : WbStage.Consistent s.wb
  busy : s.lsu.lsFsmCs ≠ .idle → s.Busy

theorem Drained.accessInv (h : s.Drained) : s.AccessInv where
  consistent hv := absurd (h.wb.symm.trans hv) Bool.false_ne_true
  busy hl := absurd h.lsu hl

theorem AccessInv.step (h : s.AccessInv) : (s.step true x).AccessInv where
  consistent := consistent_step h.consistent
  busy hn := (accessing_of_not_done h.busy hn).busy_step h.consistent

/-- While the load/store unit requests, no exception stops the instruction in ID. -/
theorem AccessInv.noException_of_dataReqO (h : s.AccessInv) (hr : s.dataReqO true x = true) :
    s.ctl.ctrlFsmCs = .decode ∧ s.wbException true x = false ∧ s.tagErrD true x = false := by
  by_cases hl : s.lsu.lsFsmCs = .idle
  · have hr' : s.lsuReq true x = true := by
      simpa [dataReqO, Lsu.dataReqO, hl, lsuIn] using hr
    obtain ⟨hd, hb⟩ := noBaseTagErr_of_lsuReq hr' hl
    simp only [lsuReq, Bool.and_eq_true] at hr'
    obtain ⟨hc, hw, -⟩ := noException_of_instrExecuting hr'.1
    exact ⟨hc, hw, tagErrD_of_noBaseTagErr hd hb⟩
  · have hb := h.busy hl
    exact ⟨hb.decode, hb.noWbException hl, tagErrD_of_noBaseTagErr hb.dataReq hb.noBaseTagErr⟩

/-! ## Stores -/

section Stores

variable (wbs : Bool) (s : Core) (x : PipeIn)

/-- A valid store in ID, its hazards resolved, whose base register or data register has a tag that
    the control register checks. -/
structure TaintedStore : Prop where
  valid : s.instrValidIdQ = true
  noFetchErr : s.instrFetchErrId = false
  store : s.isStore = true
  noHazard : s.stallLdHz wbs x = false
  tainted : s.operandAFwIdTag wbs = true ∧ s.tcr.getLsbD Tcr.loadstoreCheckDa = true ∨
    s.operandBFwIdTag wbs = true ∧ s.tcr.getLsbD Tcr.loadstoreCheckS = true

/-- An older exception, or the one that is being taken. -/
def Preempted : Prop := s.ctl.ctrlFsmCs = .flush ∨ s.wbException wbs x = true

/-- No request to the memory, and a tag exception of the instruction in ID unless an older
    exception comes first. -/
def Stopped : Prop :=
  s.dataReqO wbs x = false ∧
    (s.Preempted wbs x ∨ s.idException wbs x = true ∧ s.tagErrD wbs x = true)

/-- A tag is checked: that of the PC, that of the adder's first operand (the base), or the one that
    the policy makes of it. The tag of the data register is not among them. -/
def StoreChecked : Prop :=
  s.tcr.getLsbD Tcr.executePc = true ∧ s.pcIdTag = true ∨
    s.aluOperandATag wbs = true ∧ s.tcr.getLsbD Tcr.loadstoreCheckDa = true ∨
    (modeTag s.instrRdataId s.tpr).result (s.aluOperandATag wbs) false = true ∧
      s.tcr.getLsbD Tcr.loadstoreCheckD = true

/-- Without a writeback stage: the first cycle of the instruction, or an access that waits for a
    grant. -/
def Requests : Prop :=
  s.lsu.lsFsmCs = .idle ∧ s.ctl.ctrlFsmCs = .decode ∧ s.multiCycleQ = false ∨
    s.lsu.lsFsmCs = .waitGntMis ∨ s.lsu.lsFsmCs = .waitRvalidMis ∨ s.lsu.lsFsmCs = .waitGnt

end Stores

namespace TaintedStore

theorem dataReq (h : s.TaintedStore wbs x) : s.dec.dataReq = true := by
  have hs := h.store
  simp only [isStore, Bool.and_eq_true] at hs
  exact hs.1

theorem exTagErr_iff (h : s.TaintedStore wbs x) : s.exTagErr wbs = true ↔ s.StoreChecked wbs := by
  have ho : Instr.opcode s.instrRdataId = .store := by
    have hs := h.store
    have hw : (Instr.opcode s.instrRdataId == .store &&
        !(Decoder.illegal s.instrRdataId || s.illegalCInsnId)) = true := by
      simp only [isStore, Bool.and_eq_true] at hs
      exact hs.2
    simp only [Bool.and_eq_true, beq_iff_eq] at hw
    exact hw.1
  have hne : Instr.opcode s.instrRdataId ≠ .load := by simp [ho]
  have hc : diftTmu s.instrRdataId s.tcr = .loadstore s.tcr := by simp [diftTmu, ho]
  obtain ⟨-, hb⟩ := access_operands wbs h.dataReq
  rw [exTagErr, Bool.or_eq_true, exDift_exception, hc, hb, pcException, h.valid]
  simp only [StoreChecked, Checks.loadstore, Checks.of, Bool.and_eq_true, Bool.true_and,
    Bool.false_eq_true, false_and, false_or, hne, not_false_eq_true, true_and, ne_eq]
  tauto

theorem tagErrD_iff (h : s.TaintedStore wbs x) : s.tagErrD wbs x = true ↔
    s.StoreChecked wbs ∧ s.ctl.ctrlFsmCs ≠ .flush := by
  rw [← h.exTagErr_iff]
  simp [tagErrD, Controller.tagErrD, excIn, h.valid]

/-- The exception is requested exactly where the check looks at a tag that is set. -/
theorem excepted_iff (h : s.TaintedStore wbs x) :
    (s.Preempted wbs x ∨ s.idException wbs x = true ∧ s.tagErrD wbs x = true) ↔
      s.Preempted wbs x ∨ s.StoreChecked wbs := by
  have hid : s.idException wbs x = (s.tagErrD wbs x && !s.wbException wbs x) := by
    rw [← access_excReqD h.dataReq h.noFetchErr]
    rfl
  constructor
  · rintro (hp | ⟨-, ht⟩)
    · exact .inl hp
    · exact .inr (h.tagErrD_iff.1 ht).1
  · rintro (hp | hc)
    · exact .inl hp
    · by_cases hp : s.Preempted wbs x
      · exact .inl hp
      · have ht := h.tagErrD_iff.2 ⟨hc, fun hf => hp (.inl hf)⟩
        have hw : s.wbException wbs x = false := by
          by_contra hw
          exact hp (.inr (by simpa using hw))
        exact .inr ⟨by rw [hid, ht, hw]; rfl, ht⟩

/-- With a writeback stage the exception also stops the request. -/
theorem stopped_iff (h : s.TaintedStore true x) (hi : s.AccessInv) :
    s.Stopped true x ↔ s.Preempted true x ∨ s.StoreChecked true := by
  rw [← h.excepted_iff]
  refine ⟨fun hs => hs.2, fun he => ⟨?_, he⟩⟩
  by_contra hr
  obtain ⟨hc, hw, ht⟩ := hi.noException_of_dataReqO (by simpa using hr)
  rcases he with (hf | hw') | ⟨-, ht'⟩
  · exact absurd (hc.symm.trans hf) (by simp)
  · exact absurd (hw.symm.trans hw') Bool.false_ne_true
  · exact absurd (ht.symm.trans ht') Bool.false_ne_true

/-- Without one it does not. -/
theorem dataReqO_iff (h : s.TaintedStore false x) : s.dataReqO false x = true ↔ s.Requests := by
  have hr : s.lsuReq false x = true ↔ s.ctl.ctrlFsmCs = .decode ∧ s.multiCycleQ = false := by
    simp [lsuReq, instrExecuting, instrExecutingSpec, dataReqAllowed, instrFirstCycle, h.dataReq,
      h.valid, h.noFetchErr, h.noHazard, Controller.controllerRun]
  unfold dataReqO Lsu.dataReqO Requests
  cases hl : s.lsu.lsFsmCs <;> simp [lsuIn, hr]

/-- Without a writeback stage every store requests in its first cycle in `DECODE` with the
    load/store unit idle, whatever is checked. -/
theorem requested_first (h : s.TaintedStore false x) (hl : s.lsu.lsFsmCs = .idle)
    (hc : s.ctl.ctrlFsmCs = .decode) (hm : s.multiCycleQ = false) :
    s.dataReqO false x = true ∧ ¬ s.Stopped false x := by
  have hr := h.dataReqO_iff.2 (.inl ⟨hl, hc, hm⟩)
  exact ⟨hr, fun hs => absurd (hs.1.symm.trans hr) Bool.false_ne_true⟩

end TaintedStore

/-- **What stops a tainted store**: with a writeback stage an older exception, or a checked tag on
    its PC or its base; without one it is stopped at most after it has made its requests. -/
theorem store_stopped_iff (s : Core) (i : ℕ → PipeIn) (h : s.Drained) (t : ℕ) :
    ((Sync.run (step true) s i t).TaintedStore true (i t) →
      ((Sync.run (step true) s i t).Stopped true (i t) ↔
        (Sync.run (step true) s i t).Preempted true (i t) ∨
          (Sync.run (step true) s i t).StoreChecked true)) ∧
    ((Sync.run (step false) s i t).TaintedStore false (i t) →
      ((Sync.run (step false) s i t).Stopped false (i t) ↔
        ¬ (Sync.run (step false) s i t).Requests ∧
          ((Sync.run (step false) s i t).Preempted false (i t) ∨
            (Sync.run (step false) s i t).StoreChecked false))) := by
  have hinv : (Sync.run (step true) s i t).AccessInv :=
    Sync.run_invariant h.accessInv (fun _ _ h => h.step) t
  refine ⟨fun ht => ht.stopped_iff hinv, fun ht => ?_⟩
  rw [Stopped, ht.excepted_iff, ← ht.dataReqO_iff, Bool.not_eq_true]

/-- With the check of store data on, a tainted word is loaded into `x5`, and `sw x5, 0(x2)`
    comes. -/
def taintedData : ℕ → PipeIn
  | 3 => .fetch 0x7c309073
  | 4 => { PipeIn.quiet with csrWdata := 0x8020 }
  | 6 => .fetch 0x7c209073
  | 7 => { PipeIn.quiet with csrWdata := 0x80 }
  | 9 => .fetch 0x00012283
  | 11 => { PipeIn.fetch 0x00512023 with dataRvalid := true, dataRdataTag := true }
  | _ => .quiet

theorem taintedData_taintedStore :
    (Sync.run (step false) blank.reset taintedData 12).TaintedStore false (taintedData 12) where
  valid := by decide +kernel
  noFetchErr := by decide +kernel
  store := by decide +kernel
  noHazard := by decide +kernel
  tainted := .inr (by decide +kernel)

/-- The store of the tainted word is requested. -/
theorem taintedData_requested :
    (taintedData 12).diftEn = true ∧
      (Sync.run (step false) blank.reset taintedData 12).TaintedStore false (taintedData 12) ∧
      (Sync.run (step false) blank.reset taintedData 12).dataReqO false (taintedData 12) = true ∧
      ¬ (Sync.run (step false) blank.reset taintedData 12).Stopped false (taintedData 12) :=
  ⟨rfl, taintedData_taintedStore, taintedData_taintedStore.requested_first (by decide +kernel)
    (by decide +kernel) (by decide +kernel)⟩

/-- Only `x5` is tainted, and the data of stores is checked. -/
def taintedX5 : Core := { blank with tagRf := fun a => a == 5, tcr := 0x80 }

/-- `sw x5, 0(x2)` -/
def storeX5 : ℕ → PipeIn
  | 3 => .fetch 0x00512023
  | _ => .quiet

theorem storeX5_taintedStore :
    (Sync.run (step true) taintedX5 storeX5 4).TaintedStore true (storeX5 4) where
  valid := by decide +kernel
  noFetchErr := by decide +kernel
  store := by decide +kernel
  noHazard := by decide +kernel
  tainted := .inr (by decide +kernel)

/-- Neither configuration stops a store for the tag of its data. -/
theorem store_stopped_iff_taintedData :
    ¬ (Sync.run (step false) blank.reset taintedData 12).Stopped false (taintedData 12) ∧
      ¬ (Sync.run (step true) taintedX5 storeX5 4).Stopped true (storeX5 4) := by
  have h₀ := (store_stopped_iff blank.reset taintedData ⟨rfl, rfl, rfl⟩ 12).2 taintedData_taintedStore
  have h₁ := (store_stopped_iff taintedX5 storeX5 ⟨rfl, rfl, rfl⟩ 4).1 storeX5_taintedStore
  refine ⟨fun hs => (h₀.1 hs).1 (.inl (by decide +kernel)), fun hs => ?_⟩
  rcases h₁.1 hs with (hf | hw) | hc | hc | hc
  · exact absurd hf (by decide +kernel)
  · exact absurd hw (by decide +kernel)
  · exact absurd hc.2 (by decide +kernel)
  · exact absurd hc.1 (by decide +kernel)
  · exact absurd hc.1 (by decide +kernel)

end Core

end SentinelSoc
