/-
  The order in which taint takes effect: the pipeline with a writeback stage
  against the instructions one at a time.

  * `drainedTag`: the tag of a register once writeback has written;
  * `seqStep`: one instruction on the tags alone;
  * `retired_tags`: in every run of ALU, multiply, divide, upper-immediate and
    jump instructions every read sees the tag of the sequential execution.
-/
import SentinelSoc.Core.Taint

namespace SentinelSoc

namespace Core

variable {s : Core} {x : PipeIn}

/-! ## Drained tags -/

/-- The tag of register `a` once the instruction in writeback has written it. -/
def drainedTag (s : Core) (a : BitVec 5) : Bool :=
  if s.wb.wbValidQ = true ∧ s.wb.rfWeTagWbQ = true ∧ s.wb.rfWaddrWbQ = a ∧ a ≠ 0 then
    s.wb.rfWdataTagWbQ
  else s.tagOf a

/-- The write port of the tag registers. -/
theorem tagOf_write (wbs : Bool) (a : BitVec 5) : (s.step wbs x).tagOf a =
    if s.rfWeTagWb wbs x = true ∧ s.rfWaddrWb wbs = a ∧ a ≠ 0 then s.rfWdataTagWb wbs x
    else s.tagOf a := by
  by_cases ha : a = 0
  · simp [tagOf, ha]
  have hne : (a != 0) = true := bne_iff_ne.2 ha
  simp only [tagOf, Core.step, hne, Bool.true_and]
  by_cases hw : s.rfWeTagWb wbs x = true
  · rw [if_pos hw]
    by_cases hm : s.rfWaddrWb wbs = a
    · rw [← hm, Function.update_self, if_pos ⟨hw, rfl, by rwa [hm]⟩]
    · rw [Function.update_of_ne (Ne.symm hm), if_neg fun h => hm h.2.1]
  · rw [if_neg hw, if_neg fun h => hw h.1]

/-- What is in writeback in one cycle is in the register file in the next one. -/
theorem tagOf_step (a : BitVec 5) : (s.step true x).tagOf a = s.drainedTag a := by
  rw [tagOf_write, drainedTag]
  by_cases hw : s.wb.rfWeTagWbQ = true ∧ s.wb.wbValidQ = true
  · simp [rfWeTagWb, rfWdataTagWb, rfWaddrWb, hw.1, hw.2]
  · have hwe : ¬ s.rfWeTagWb true x = true := by simpa [rfWeTagWb] using hw
    rw [if_neg fun h => hwe h.1, if_neg fun h => hw ⟨h.2.1, h.1⟩]

/-- Writeback is done with all but an access whose response has not come. -/
theorem readyWb_of_noOutstanding (h : s.outstandingMemoryAccess true x = false) :
    s.readyWb true x = true := by
  simp only [outstandingMemoryAccess, outstandingLoadWb, outstandingStoreWb, Bool.true_and] at h
  simp only [readyWb, ite_true, wbDone]
  cases hv : s.wb.wbValidQ with
  | false => rfl
  | true =>
    rw [hv] at h
    cases ht : s.wb.wbInstrTypeQ <;> rw [ht] at h <;> simp_all

/-- The writeback stage takes what ID gives it. -/
theorem readyWb_of_instrDone (h : s.instrDone true x = true) : s.readyWb true x = true := by
  have he := instrExecuting_of_instrDone h
  simp only [instrExecuting, ite_true, Bool.and_eq_true, Bool.not_eq_true'] at he
  exact readyWb_of_noOutstanding he.2

/-- While no instruction leaves ID, writeback changes nothing in the end. -/
theorem drainedTag_stall (h : s.instrDone true x = false) (a : BitVec 5) :
    (s.step true x).drainedTag a = s.drainedTag a := by
  have hwb : (s.step true x).wb =
      { s.wb with wbValidQ := s.wb.wbValidQ && !s.wbDone true x } := by
    simp [Core.step, wbStep, h]
  rw [drainedTag, hwb, tagOf_step]
  split_ifs with hc
  · obtain ⟨hv, hwe, hwa, ha⟩ := hc
    have hv' : s.wb.wbValidQ = true := by
      simp only [Bool.and_eq_true] at hv
      exact hv.1
    rw [drainedTag, if_pos ⟨hv', hwe, hwa, ha⟩]
  · rfl

/-- An instruction that leaves ID gives its destination the tag of its result. -/
theorem drainedTag_done (h : s.instrDone true x = true) (a : BitVec 5) :
    (s.step true x).drainedTag a =
      if s.dec.rfWe = true ∧ Instr.rd s.instrRdataId = a ∧ a ≠ 0 then (s.exDift true).resultTag
      else s.drainedTag a := by
  have hwb : (s.step true x).wb.wbValidQ = true ∧ (s.step true x).wb.rfWeTagWbQ = s.dec.rfWe ∧
      (s.step true x).wb.rfWaddrWbQ = Instr.rd s.instrRdataId ∧
      (s.step true x).wb.rfWdataTagWbQ = (s.exDift true).resultTag := by
    simp [Core.step, wbStep, h, readyWb_of_instrDone h]
  obtain ⟨h1, h2, h3, h4⟩ := hwb
  rw [drainedTag, h1, h2, h3, h4, tagOf_step]
  simp only [true_and]

/-- The write enables of integer and tag agree, but for a load, which has none yet. -/
def WbStage.Consistent (w : WbStage) : Prop :=
  w.wbValidQ = true → w.rfWeWbQ = w.rfWeTagWbQ ∧ (w.wbInstrTypeQ = .load → w.rfWeTagWbQ = false)

/-- A register that no load in writeback is about to write is read with its drained tag. -/
theorem fwTag_eq_drainedTag (hw : WbStage.Consistent s.wb) {a : BitVec 5}
    (ha : (s.outstandingLoadWb true && s.rdWbMatch true a) = false) :
    s.fwTag true a = s.drainedTag a := by
  simp only [fwTag, drainedTag, rdWbMatch, rfWriteWb, outstandingLoadWb, Bool.true_and,
    Bool.and_eq_true, Bool.or_eq_true, beq_iff_eq, bne_iff_ne] at ha ⊢
  by_cases hv : s.wb.wbValidQ = true
  · obtain ⟨he, -⟩ := hw hv
    by_cases hm : s.wb.rfWaddrWbQ = a ∧ a ≠ 0
    · have ht : s.wb.wbInstrTypeQ ≠ .load := by
        intro ht
        simp [hv, ht, hm.1] at ha
        exact hm.2 ha
      simp [hv, hm.1, ht, he, and_comm]
    · rw [if_neg (fun h => hm h.1), if_neg (fun h => hm h.2.2)]
  · rw [if_neg (fun h => hv h.2.1), if_neg (fun h => hv h.1)]

/-! ## The instructions one at a time -/

/-- A read of the tags: `x0` has none. -/
def readTag (rf : BitVec 5 → Bool) (a : BitVec 5) : Bool := a != 0 && rf a

open Instr in
/-- The tags of the operands that the result is made of: registers, the PC (`pc`), immediates. -/
def operandTags (rf : BitVec 5 → Bool) (w : BitVec 32) (pc : Bool) : Bool × Bool :=
  match opcode w with
  | .op => (readTag rf (rs1 w), readTag rf (rs2 w))
  | .opImm => (readTag rf (rs1 w), false)
  | .auipc | .jal | .jalr => (pc, false)
  | _ => (false, false)

/-- One instruction, the word `i.1` whose PC has the tag `i.2`, under the propagation policy. -/
def seqStep (tpr : BitVec 32) (rf : BitVec 5 → Bool) (i : BitVec 32 × Bool) : BitVec 5 → Bool :=
  match modeTag i.1 tpr with
  | .old => rf
  | m => Function.update rf (Instr.rd i.1)
      (m.result (operandTags rf i.1 i.2).1 (operandTags rf i.1 i.2).2)

/-- A sequence of instructions, each run to its end before the next one starts. -/
def seqRun (tpr : BitVec 32) (rf : BitVec 5 → Bool) (is : List (BitVec 32 × Bool)) :
    BitVec 5 → Bool :=
  is.foldl (seqStep tpr) rf

/-- ALU, multiply, divide, upper-immediate and jump instructions. -/
def IsAlu (w : BitVec 32) : Prop :=
  Instr.opcode w = .op ∨ Instr.opcode w = .opImm ∨ Instr.opcode w = .lui ∨
    Instr.opcode w = .auipc ∨ Instr.opcode w = .jal ∨ Instr.opcode w = .jalr

/-- Such an instruction, whose class has the mode AND, OR or CLEAR. -/
def Covered (tpr w : BitVec 32) : Prop := IsAlu w ∧ modeTag w tpr ≠ .old

theorem seqStep_of_covered {tpr : BitVec 32} {rf : BitVec 5 → Bool} {i : BitVec 32 × Bool}
    (h : Covered tpr i.1) : seqStep tpr rf i = Function.update rf (Instr.rd i.1)
      ((modeTag i.1 tpr).result (operandTags rf i.1 i.2).1 (operandTags rf i.1 i.2).2) := by
  have hm := h.2
  unfold seqStep
  cases hc : modeTag i.1 tpr with
  | old => exact absurd hc hm
  | and => rfl
  | or => rfl
  | clear => rfl

@[simp] theorem readTag_zero (rf : BitVec 5 → Bool) : readTag rf 0 = false := rfl

theorem readTag_update (rf : BitVec 5 → Bool) (d : BitVec 5) (v : Bool) (a : BitVec 5) :
    readTag (Function.update rf d v) a = if d = a ∧ a ≠ 0 then v else readTag rf a := by
  by_cases ha : a = 0
  · simp [ha, readTag]
  have hne : (a != 0) = true := bne_iff_ne.2 ha
  simp only [readTag, hne, Bool.true_and]
  by_cases hd : d = a
  · rw [hd, Function.update_self, if_pos ⟨rfl, ha⟩]
  · rw [Function.update_of_ne (Ne.symm hd), if_neg (fun h => hd h.1)]

/-! ## What leaves ID -/

/-- The instruction in ID with the tag of its PC. -/
def inId (s : Core) : BitVec 32 × Bool := (s.instrRdataId, s.pcIdTag)

section Trace

variable (r : ℕ → Core) (i : ℕ → PipeIn)

/-- The instructions that have left ID for writeback before cycle `t`. -/
def retired : ℕ → List (BitVec 32 × Bool)
  | 0 => []
  | t + 1 => retired t ++ if (r t).instrDone true (i t) = true then [(r t).inId] else []

/-- The instructions that have entered ID before cycle `t`. -/
def entered : ℕ → List (BitVec 32 × Bool)
  | 0 => []
  | t + 1 => entered t ++
      if (r t).instrNewIdD true (i t) = true then [((i t).ifInstr, (r t).pcIfTagQ)] else []

end Trace

/-- The pipeline is empty. -/
structure Drained (s : Core) : Prop where
  id : s.instrValidIdQ = false
  wb : s.wb.wbValidQ = false
  lsu : s.lsu.lsFsmCs = .idle

/-- Only covered instructions are in the pipeline. -/
structure AluOnly (tpr : BitVec 32) (s : Core) : Prop where
  policy : s.tpr = tpr
  id : s.instrValidIdQ = true → Covered tpr s.instrRdataId
  lsu : s.lsu.lsFsmCs = .idle
  wb : s.wb.wbValidQ = true → s.wb.wbInstrTypeQ = .other ∧ s.wb.rfWeWbQ = s.wb.rfWeTagWbQ

theorem Drained.aluOnly (h : s.Drained) : s.AluOnly s.tpr where
  policy := rfl
  id hv := absurd (h.id.symm.trans hv) Bool.false_ne_true
  lsu := h.lsu
  wb hv := absurd (h.wb.symm.trans hv) Bool.false_ne_true

theorem Drained.drainedTag (h : s.Drained) (a : BitVec 5) :
    s.drainedTag a = readTag s.tagRf a := by
  rw [Core.drainedTag, if_neg (fun hc => by simp [h.wb] at hc)]
  rfl

/-! ## Covered instructions in ID -/

theorem IsAlu.decode {w : BitVec 32} (h : IsAlu w) (c f : Bool) :
    (SentinelSoc.decode w c f).dataReq = false ∧ (SentinelSoc.decode w c f).csrAccess = false ∧
      (SentinelSoc.decode w c f).branchInDec = false ∧ (SentinelSoc.decode w c f).mretInsn = false ∧
      (SentinelSoc.decode w c f).dretInsn = false ∧ (SentinelSoc.decode w c f).wfiInsn = false := by
  rcases h with h | h | h | h | h | h <;> simp [SentinelSoc.decode, Decoder.sys, h]

/-- What executes has no exception, neither its own nor an older one. -/
theorem noException_of_instrExecuting (h : s.instrExecuting true x = true) :
    s.ctl.ctrlFsmCs = .decode ∧ s.wbException true x = false ∧
      s.ctl.excReqD (s.excIn true x) = false := by
  have hc := (instrExecutingSpec_iff.1 (spec_of_instrExecuting h)).2.2.1
  simp only [instrExecuting, instrKill, ite_true, Bool.and_eq_true, Bool.not_eq_true',
    Bool.or_eq_false_iff] at h
  obtain ⟨⟨⟨-, ⟨⟨-, hw⟩, hi⟩, -⟩, -⟩, -⟩ := h
  refine ⟨hc, hw, ?_⟩
  have hw' : s.ctl.wbException true (s.excIn true x) = false := hw
  simpa [idException, Controller.idException, hw'] using hi

theorem legal_of_instrExecuting (h : s.instrExecuting true x = true) :
    s.illegalInsn x = false := by
  obtain ⟨hc, -, he⟩ := noException_of_instrExecuting h
  have hf : (s.ctl.ctrlFsmCs != .flush) = true := by rw [hc]; rfl
  simp only [Controller.excReqD, hf, Bool.and_true, Bool.or_eq_false_iff,
    Controller.illegalInsnD] at he
  exact he.1.1.2

theorem opcode_of_multdivEn (h : s.multdivEn = true) : Instr.opcode s.instrRdataId = .op := by
  simp only [multdivEn, dec, decode, Decoder.multdivSel, Bool.or_eq_true, Bool.and_eq_true,
    beq_iff_eq] at h
  rcases h with h | h <;> exact h.1.1.1

/-- An instruction that leaves ID has the write enable that the decoder gives it. -/
theorem rfWeRaw_of_done (h : s.instrDone true x = true) :
    (s.idFsm true x).rfWeRaw = s.dec.rfWe := by
  have hs := spec_of_instrExecuting (instrExecuting_of_instrDone h)
  have hmd : s.multdivEn = true → s.multicycleDone true x = s.exValid x := by
    intro hm
    have hd : s.dec.dataReq = false := by simp [dec, decode, opcode_of_multdivEn hm]
    simp [multicycleDone, hd]
  simp only [instrDone, stallId, Bool.and_eq_true, Bool.not_eq_true', Bool.or_eq_false_iff] at h
  obtain ⟨⟨⟨⟨⟨-, hm⟩, -⟩, -⟩, -⟩, -⟩ := h
  unfold idFsm at hm ⊢
  rw [if_pos hs] at hm ⊢
  split_ifs at hm ⊢ <;> simp_all

/-- A jump leaves ID in its second cycle. -/
theorem multiCycle_of_done (h : s.instrDone true x = true) (ha : IsAlu s.instrRdataId)
    (hj : s.dec.jumpInDec = true) : s.multiCycleQ = true := by
  have hs := spec_of_instrExecuting (instrExecuting_of_instrDone h)
  obtain ⟨hd, -, hb, -⟩ := ha.decode s.illegalCInsnId s.instrFirstCycle
  have hd' : s.dec.dataReq = false := hd
  have hb' : s.dec.branchInDec = false := hb
  have hm : s.multdivEn = false := by
    by_contra hm
    rw [Bool.not_eq_false] at hm
    simp [dec, decode, opcode_of_multdivEn hm] at hj
  by_contra hq
  simp only [instrDone, stallId, Bool.and_eq_true, Bool.not_eq_true', Bool.or_eq_false_iff] at h
  obtain ⟨⟨⟨⟨-, hst⟩, -⟩, -⟩, -⟩ := h
  simp [idFsm, hs, hq, hd', hm, hb', hj] at hst

theorem rfWe_of_done (h : s.instrDone true x = true) (ha : IsAlu s.instrRdataId) :
    s.dec.rfWe = true := by
  have hx := instrExecuting_of_instrDone h
  have hv := (instrExecutingSpec_iff.1 (spec_of_instrExecuting hx)).1
  have hl := legal_of_instrExecuting hx
  have hj := multiCycle_of_done h ha
  simp only [illegalInsn, hv, Bool.true_and, Bool.or_eq_false_iff] at hl
  have hbad : (Decoder.illegal s.instrRdataId || s.illegalCInsnId) = false := hl.1.1.1
  simp only [dec, decode, hbad, instrFirstCycle, hv] at hj ⊢
  rcases ha with ho | ho | ho | ho | ho | ho <;> simp_all [Decoder.rfWe]

namespace AluOnly

variable {tpr : BitVec 32} {rf : BitVec 5 → Bool}

/-- The operand multiplexers select what the instruction works on. -/
theorem operandTags (h : s.AluOnly tpr) (hd : s.instrDone true x = true)
    (hrf : ∀ a, s.fwTag true a = readTag rf a) :
    s.aluOperandATag true = (Core.operandTags rf s.instrRdataId s.pcIdTag).1 ∧
      s.aluOperandBTag true = (Core.operandTags rf s.instrRdataId s.pcIdTag).2 := by
  have hx := instrExecuting_of_instrDone hd
  have hv := (instrExecutingSpec_iff.1 (spec_of_instrExecuting hx)).1
  have ha := (h.id hv).1
  have hwe := rfWe_of_done hd ha
  have hi : s.lsu.addrIncrReqO = false := by rw [Lsu.addrIncrReqO, h.lsu]
  simp only [aluOperandATag, aluOperandBTag, opASel, opBSel, hi, Bool.false_eq_true, if_false,
    operandAFwIdTag, operandBFwIdTag, hrf]
  simp only [dec, decode] at hwe ⊢
  rcases ha with ho | ho | ho | ho | ho | ho <;>
    simp_all [Core.operandTags, Decoder.opSel, Decoder.rfWe]

/-- Reads are forwarded from writeback. -/
theorem fwTag (h : s.AluOnly tpr) (a : BitVec 5) : s.fwTag true a = s.drainedTag a := by
  refine fwTag_eq_drainedTag (fun hv => ⟨(h.wb hv).2, fun ht => ?_⟩) ?_
  · rw [(h.wb hv).1] at ht
    exact absurd ht (by simp)
  · by_cases hv : s.wb.wbValidQ = true
    · simp [outstandingLoadWb, (h.wb hv).1]
    · simp [outstandingLoadWb, hv]

/-- No access to memory and to CSRs. -/
theorem quiet (h : s.AluOnly tpr) : s.lsuReq true x = false ∧ s.csrOpEn true x = false := by
  by_cases hx : s.instrExecuting true x = true
  · have hv := (instrExecutingSpec_iff.1 (spec_of_instrExecuting hx)).1
    obtain ⟨hd, hc, -⟩ := (h.id hv).1.decode s.illegalCInsnId s.instrFirstCycle
    have hd' : s.dec.dataReq = false := hd
    have hc' : s.dec.csrAccess = false := hc
    simp [lsuReq, csrOpEn, hd', hc']
  · rw [Bool.not_eq_true] at hx
    simp [lsuReq, csrOpEn, hx]

theorem step (h : s.AluOnly tpr) (hi : x.ifInstrValid = true → Covered tpr x.ifInstr) :
    (s.step true x).AluOnly tpr where
  policy := by
    have hw : s.policyWe true x 0x7c3 = false := by simp [policyWe, h.quiet.2]
    simp only [Core.step, hw, Bool.false_eq_true, if_false]
    exact h.policy
  id hv := by
    simp only [Core.step, Bool.or_eq_true, Bool.and_eq_true] at hv ⊢
    by_cases hn : s.instrNewIdD true x = true
    · rw [if_pos hn]
      simp only [instrNewIdD, Bool.and_eq_true] at hn
      exact hi hn.1.1
    · rw [if_neg hn]
      exact h.id (hv.resolve_left hn).1
  lsu := by
    simp [Core.step, Lsu.step, Lsu.lsFsmNs, h.lsu, lsuIn, h.quiet.1]
  wb hv := by
    by_cases hd : s.instrDone true x = true
    · have hx := instrExecuting_of_instrDone hd
      have hid := (instrExecutingSpec_iff.1 (spec_of_instrExecuting hx)).1
      have ha := (h.id hid).1
      obtain ⟨hdr, hc, -⟩ := ha.decode s.illegalCInsnId s.instrFirstCycle
      have hdr' : s.dec.dataReq = false := hdr
      have hc' : s.dec.csrAccess = false := hc
      simp [Core.step, wbStep, hd, instrTypeWb, hdr', rfWeId, hx, illegalCsrInsn, hc',
        rfWeRaw_of_done hd]
    · rw [Bool.not_eq_true] at hd
      simp only [Core.step, wbStep, hd, Bool.false_and, Bool.false_or, Bool.and_eq_true,
        Bool.false_eq_true, if_false] at hv ⊢
      exact h.wb hv.1

/-- One cycle: an instruction that leaves ID acts as it does alone, otherwise nothing happens. -/
theorem drainedTag_step (h : s.AluOnly tpr) (hrf : ∀ a, s.drainedTag a = readTag rf a)
    (a : BitVec 5) : (s.step true x).drainedTag a = readTag (seqRun tpr rf
      (if s.instrDone true x = true then [s.inId] else [])) a := by
  by_cases hd : s.instrDone true x = true
  · have hx := instrExecuting_of_instrDone hd
    have hv := (instrExecutingSpec_iff.1 (spec_of_instrExecuting hx)).1
    obtain ⟨h1, h2⟩ := h.operandTags hd (fun b => (h.fwTag b).trans (hrf b))
    have hres : (s.exDift true).resultTag = (modeTag s.instrRdataId tpr).result
        (Core.operandTags rf s.instrRdataId s.pcIdTag).1
        (Core.operandTags rf s.instrRdataId s.pcIdTag).2 := by
      rw [exDift, diftLogic_resultTag, h1, h2, h.policy]
    rw [if_pos hd, seqRun, List.foldl_cons, List.foldl_nil,
      seqStep_of_covered (i := s.inId) (h.id hv), readTag_update, drainedTag_done hd,
      rfWe_of_done hd (h.id hv).1, hres, hrf a]
    by_cases hc : Instr.rd s.instrRdataId = a ∧ a ≠ 0
    · rw [if_pos ⟨rfl, hc⟩]
      exact (if_pos hc).symm
    · rw [if_neg (fun h => hc h.2)]
      exact (if_neg hc).symm
  · rw [Bool.not_eq_true] at hd
    rw [drainedTag_stall hd, hrf a, hd]
    rfl

/-- An instruction that leaves ID makes room, and nothing of it stays. -/
theorem instrValidClear (h : s.AluOnly tpr) (hd : s.instrDone true x = true) :
    s.instrValidClear true x = true := by
  have hx := instrExecuting_of_instrDone hd
  have hv := (instrExecutingSpec_iff.1 (spec_of_instrExecuting hx)).1
  obtain ⟨hc, hw, he⟩ := noException_of_instrExecuting hx
  obtain ⟨-, -, -, hm, hdr, hwf⟩ := (h.id hv).1.decode s.illegalCInsnId s.instrFirstCycle
  have hm' : s.dec.mretInsn = false := hm
  have hdr' : s.dec.dretInsn = false := hdr
  have hwf' : s.dec.wfiInsn = false := hwf
  have hst : s.stallId true x = false := by
    simp only [instrDone, Bool.and_eq_true, Bool.not_eq_true'] at hd
    exact hd.1.1
  have hcp : s.csrPipeFlush true x = false := by simp [csrPipeFlush, h.quiet.2]
  simp only [wbException, Controller.wbException, Bool.true_and, Bool.or_eq_false_iff] at hw
  have hsp : s.ctl.specialReq (s.ctlIn true x) = false := by
    have he' : s.ctl.excReqD (s.ctlIn true x).toExcIn = false := he
    simp only [Controller.specialReq, he']
    simp [ctlIn, excIn, hm', hdr', hwf', hcp]
    exact ⟨hw.2, hw.1.2⟩
  have hstall : Controller.stall (s.ctlIn true x) = false := by
    simp [Controller.stall, ctlIn, hst, readyWb_of_instrDone hd]
  simp [Core.instrValidClear, Controller.instrValidClear, Controller.retainId, hsp, hstall]

/-- What is in ID is the last of what entered; what retired entered before it. -/
theorem sublist_step {ret ent : List (BitVec 32 × Bool)} (h : s.AluOnly tpr)
    (hs : (ret ++ if s.instrValidIdQ = true then [s.inId] else []).Sublist ent) :
    ((ret ++ if s.instrDone true x = true then [s.inId] else []) ++
      if (s.step true x).instrValidIdQ = true then [(s.step true x).inId] else []).Sublist
    (ent ++ if s.instrNewIdD true x = true then [(x.ifInstr, s.pcIfTagQ)] else []) := by
  have hret : (ret ++ if s.instrDone true x = true then [s.inId] else []).Sublist ent := by
    refine List.Sublist.trans (List.Sublist.append_left ?_ ret) hs
    split_ifs with hd hv
    · exact List.Sublist.refl _
    · exact absurd (instrExecutingSpec_iff.1
        (spec_of_instrExecuting (instrExecuting_of_instrDone hd))).1 hv
    · exact List.nil_sublist _
    · exact List.nil_sublist _
  by_cases hn : s.instrNewIdD true x = true
  · have hid : (s.step true x).inId = (x.ifInstr, s.pcIfTagQ) := by simp [inId, Core.step, hn]
    have hv : (s.step true x).instrValidIdQ = true := by simp [Core.step, hn]
    rw [if_pos hn, if_pos hv, hid]
    exact hret.append (List.Sublist.refl _)
  · rw [if_neg hn, List.append_nil]
    by_cases hv : (s.step true x).instrValidIdQ = true
    · have hid : (s.step true x).inId = s.inId := by simp [inId, Core.step, hn]
      simp only [Core.step, hn, Bool.false_or, Bool.and_eq_true, Bool.not_eq_true'] at hv
      have hd : s.instrDone true x ≠ true := by
        intro hd
        rw [h.instrValidClear hd] at hv
        exact absurd hv.2 (by simp)
      rw [if_pos hv.1] at hs
      rw [if_neg hd, List.append_nil, hid]
      split_ifs
      · exact hs
      · rw [List.append_nil]
        exact (List.sublist_append_left _ _).trans hs
    · rw [if_neg hv, List.append_nil]
      exact hret

theorem run {i : ℕ → PipeIn} (h : s.AluOnly tpr)
    (hi : ∀ t, (i t).ifInstrValid = true → Covered tpr (i t).ifInstr) (t : ℕ) :
    (Sync.run (Core.step true) s i t).AluOnly tpr := by
  induction t with
  | zero => exact h
  | succ t ih => exact ih.step (hi t)

end AluOnly

/-! ## Runs -/

section Runs

variable {i : ℕ → PipeIn}

theorem drainedTag_run (h : s.Drained)
    (hi : ∀ t, (i t).ifInstrValid = true → Covered s.tpr (i t).ifInstr) (t : ℕ) :
    ∀ a, (Sync.run (step true) s i t).drainedTag a =
      readTag (seqRun s.tpr s.tagRf (retired (Sync.run (step true) s i) i t)) a := by
  induction t with
  | zero => exact h.drainedTag
  | succ t ih =>
    intro a
    rw [Sync.run_succ, (h.aluOnly.run hi t).drainedTag_step ih a, retired, seqRun, seqRun, seqRun,
      List.foldl_append]

theorem retired_sublist_aux (h : s.Drained)
    (hi : ∀ t, (i t).ifInstrValid = true → Covered s.tpr (i t).ifInstr) (t : ℕ) :
    (retired (Sync.run (step true) s i) i t ++
      if (Sync.run (step true) s i t).instrValidIdQ = true then
        [(Sync.run (step true) s i t).inId] else []).Sublist
    (entered (Sync.run (step true) s i) i t) := by
  induction t with
  | zero => simp [retired, entered, h.id]
  | succ t ih => exact (h.aluOnly.run hi t).sublist_step ih

/-- **The pipeline computes the tags of the sequential execution**: from an empty pipeline with
    any tags and any policy, under every timing, with `R t` the instructions that have left ID
    before cycle `t`, in fetch order and each at most once:
    * a read in cycle `t` sees the tags after `R t`;
    * the register file holds them one cycle later;
    * `x0` reads 0. -/
theorem retired_tags (s : Core) (i : ℕ → PipeIn) (h : s.Drained)
    (hi : ∀ t, (i t).ifInstrValid = true → Covered s.tpr (i t).ifInstr) (t : ℕ) :
    let r := Sync.run (step true) s i
    let rf := seqRun s.tpr s.tagRf (retired r i t)
    (retired r i t).Sublist (entered r i t) ∧
      (∀ a, (r t).fwTag true a = readTag rf a) ∧
      (∀ a, (r (t + 1)).tagOf a = readTag rf a) ∧
      (r t).fwTag true 0 = false := by
  intro r rf
  have hd := drainedTag_run h hi t
  have hf : ∀ a, (r t).fwTag true a = readTag rf a :=
    fun a => ((h.aluOnly.run hi t).fwTag a).trans (hd a)
  refine ⟨?_, hf, fun a => ?_, hf 0⟩
  · exact (List.sublist_append_left _ _).trans (retired_sublist_aux h hi t)
  · exact (tagOf_step a).trans (hd a)

end Runs

/-- Only `x1` is tainted, and every class has the mode OR. -/
def taintedX1 : Core := { blank with tagRf := fun a => a == 1, tpr := 0x2aaa }

/-- `add x5, x1, x2`, and `mul x6, x5, x5` which takes three cycles. -/
def dependentMul : ℕ → PipeIn
  | 3 => .fetch 0x002082b3
  | 4 => .fetch 0x02528333
  | 7 => { PipeIn.quiet with multdivValid := true }
  | _ => .quiet

theorem dependentMul_covered (t : ℕ) (h : (dependentMul t).ifInstrValid = true) :
    Covered taintedX1.tpr (dependentMul t).ifInstr := by
  unfold dependentMul at h ⊢
  split at h
  · exact ⟨.inl rfl, by decide⟩
  · exact ⟨.inl rfl, by decide⟩
  · exact absurd h (by decide)
  · exact absurd h (by decide)

theorem retired_tags_dependentMul :
    retired (Sync.run (step true) taintedX1 dependentMul) dependentMul 9 =
        [(0x002082b3, false), (0x02528333, false)] ∧
      (Sync.run (step true) taintedX1 dependentMul 10).tagOf 6 = true := by
  have h := retired_tags taintedX1 dependentMul ⟨rfl, rfl, rfl⟩ dependentMul_covered 9
  have hr : retired (Sync.run (step true) taintedX1 dependentMul) dependentMul 9 =
      [(0x002082b3, false), (0x02528333, false)] := by decide +kernel
  refine ⟨hr, (h.2.2.1 6).trans ?_⟩
  rw [hr]
  decide

end Core

end SentinelSoc
