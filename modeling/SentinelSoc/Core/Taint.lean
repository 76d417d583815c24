/-
  Where taint comes from.

  * `Untainted`: no register, PC or writeback tag is set; with a writeback stage
    every run from reset stays there, since the tag of a load reaches no register;
  * `load_tagged_iff`: when a load leaves the tag the policy gives it;
  * `bypassed_iff`: when `dift_en_i = 0` cuts all checks off.
-/
import SentinelSoc.Core.Pipeline

namespace SentinelSoc

namespace Core

variable {wbs : Bool} {s : Core} {x : PipeIn}

/-! ## What executing means -/

theorem instrExecutingSpec_iff : s.instrExecutingSpec wbs x = true ↔
    s.instrValidIdQ = true ∧ s.instrFetchErrId = false ∧ s.ctl.ctrlFsmCs = .decode ∧
      s.stallLdHz wbs x = false := by
  simp only [instrExecutingSpec, Controller.controllerRun, Bool.and_eq_true, Bool.not_eq_true',
    beq_iff_eq, and_assoc]

theorem spec_of_instrExecuting (h : s.instrExecuting wbs x = true) :
    s.instrExecutingSpec wbs x = true := by
  cases wbs with
  | false => exact h
  | true =>
    simp only [instrExecuting, instrKill, ite_true, Bool.and_eq_true, Bool.not_eq_true',
      Bool.or_eq_false_iff] at h
    obtain ⟨⟨⟨hv, ⟨⟨hf, -⟩, -⟩, hr⟩, hz⟩, -⟩ := h
    simp only [instrExecutingSpec, Bool.and_eq_true, Bool.not_eq_true']
    exact ⟨⟨⟨hv, hf⟩, by simpa using hr⟩, hz⟩

theorem instrExecuting_of_instrDone (h : s.instrDone wbs x = true) :
    s.instrExecuting wbs x = true := by
  simp only [instrDone, Bool.and_eq_true] at h
  exact h.2

/-- The state machine of the ID stage moves only on the speculative signal. -/
theorem idFsm_of_not_spec (h : s.instrExecutingSpec wbs x = false) :
    s.idFsm wbs x = ⟨s.multiCycleQ, s.dec.rfWe, false, false, false, false, false⟩ := by
  simp [idFsm, h]

theorem spec_of_jumpSet (h : s.jumpSet wbs x = true) : s.instrExecutingSpec wbs x = true := by
  by_contra hs
  rw [Bool.not_eq_true] at hs
  simp [jumpSet, idFsm_of_not_spec hs] at h

/-- A taken branch holds ID for a second cycle. -/
theorem stall_of_branchSetRawD (h : (s.idFsm wbs x).branchSetRawD = true) :
    s.instrExecutingSpec wbs x = true ∧ s.stallId wbs x = true := by
  have hs : s.instrExecutingSpec wbs x = true := by
    by_contra hs
    rw [Bool.not_eq_true] at hs
    simp [idFsm_of_not_spec hs] at h
  refine ⟨hs, ?_⟩
  suffices hb : (s.idFsm wbs x).stallBranch = true by simp [stallId, hb]
  unfold idFsm at h ⊢
  rw [if_pos hs] at h ⊢
  split_ifs at h ⊢
  all_goals simp_all

/-- In `decode` an instruction that stalls stays in ID. -/
theorem instrValidClear_of_stall (hc : s.ctl.ctrlFsmCs = .decode) (h : s.stallId wbs x = true) :
    s.instrValidClear wbs x = false := by
  simp [instrValidClear, Controller.instrValidClear, Controller.stall, ctlIn, h,
    Controller.flushId, hc]

/-! ## No taint with a writeback stage -/

/-- No tag is set. -/
structure Untainted (s : Core) : Prop where
  tagRf : ∀ a, s.tagRf a = false
  pcIfTag : s.pcIfTagQ = false
  pcIdTag : s.instrValidIdQ = true → s.pcIdTag = false
  wbTag : s.wb.wbValidQ = true → s.wb.rfWdataTagWbQ = false
  branch : s.branchSetRawQ = true → s.instrValidIdQ = true

theorem untainted_reset (s : Core) : s.reset.Untainted where
  tagRf _ := rfl
  pcIfTag := rfl
  pcIdTag h := absurd h Bool.false_ne_true
  wbTag h := absurd h Bool.false_ne_true
  branch h := absurd h Bool.false_ne_true

namespace Untainted

theorem fwTag (h : s.Untainted) (a : BitVec 5) : s.fwTag wbs a = false := by
  unfold Core.fwTag
  split_ifs with hm
  · simp only [rfWriteWb, Bool.and_eq_true] at hm
    exact h.wbTag hm.2.1.2
  · simp [tagOf, h.tagRf a]

theorem operands (wbs : Bool) (h : s.Untainted) (hv : s.instrValidIdQ = true) :
    s.aluOperandATag wbs = false ∧ s.aluOperandBTag wbs = false := by
  constructor
  · unfold aluOperandATag
    cases s.opASel with
    | regA => exact h.fwTag _
    | currPc => exact h.pcIdTag hv
    | fwd => rfl
    | imm => rfl
  · unfold aluOperandBTag
    cases s.opBSel with
    | regB => exact h.fwTag _
    | imm => rfl

theorem jumpTargetTag (h : s.Untainted) (hv : s.instrValidIdQ = true) :
    s.jumpTargetTag wbs = false := by
  simp [Core.jumpTargetTag, operandAFwIdTag, h.fwTag, h.pcIdTag hv]

theorem exTagErr (h : s.Untainted) (hv : s.instrValidIdQ = true) : s.exTagErr wbs = false := by
  obtain ⟨ha, hb⟩ := h.operands wbs hv
  simp [Core.exTagErr, exDift, ha, hb, diftLogic_clean, pcException, h.pcIdTag hv]

/-- The target of a jump is fetched with a clean PC. -/
theorem pcIf_step (h : s.Untainted) : (s.step true x).pcIfTagQ = false := by
  change (if s.pcSet true x = true then
    s.ctl.pcMux (s.ctlIn true x) == .jump && s.jumpTargetTag true else s.pcIfTagQ) = false
  split_ifs with hp
  · by_cases hc : s.ctl.ctrlFsmCs = .decode
    · have hv : s.instrValidIdQ = true := by
        simp only [pcSet, Controller.pcSet, hc, Bool.or_eq_true] at hp
        rcases hp with hb | hj
        · have hb' : s.branchSet = true := hb
          simp only [branchSet, Bool.and_eq_true] at hb'
          exact h.branch hb'.1
        · exact (instrExecutingSpec_iff.1 (spec_of_jumpSet (x := x) hj)).1
      rw [h.jumpTargetTag hv, Bool.and_false]
    · have hm : (s.ctl.pcMux (s.ctlIn true x) == .jump) = false := by
        rw [beq_eq_false_iff_ne]
        unfold Controller.pcMux
        cases hcs : s.ctl.ctrlFsmCs <;> simp_all
        split_ifs <;> simp
      rw [hm, Bool.false_and]
  · exact h.pcIfTag

/-- **With a writeback stage no step makes taint**, whatever tags the memory returns. -/
theorem step (h : s.Untainted) : (s.step true x).Untainted where
  tagRf a := by
    have hw : s.rfWdataTagWb true x = false := by
      by_cases hv : s.wb.wbValidQ = true
      · simp [rfWdataTagWb, h.wbTag hv]
      · simp [rfWdataTagWb, hv]
    simp only [Core.step, hw]
    split_ifs
    · by_cases ha : a = s.rfWaddrWb true
      · rw [ha, Function.update_self]
      · rw [Function.update_of_ne ha]
        exact h.tagRf a
    · exact h.tagRf a
  pcIfTag := h.pcIf_step
  pcIdTag hv := by
    simp only [Core.step] at hv ⊢
    split_ifs with hn
    · exact h.pcIfTag
    · simp only [hn, Bool.false_or, Bool.and_eq_true] at hv
      exact h.pcIdTag hv.1
  wbTag hv := by
    simp only [Core.step, wbStep] at hv ⊢
    split_ifs at hv ⊢ with hd
    · have hi := instrExecutingSpec_iff.1 (spec_of_instrExecuting (instrExecuting_of_instrDone hd))
      obtain ⟨ha, hb⟩ := h.operands true hi.1
      simp [exDift, ha, hb]
    · simp only [hd, Bool.false_and, Bool.false_or, Bool.and_eq_true] at hv
      exact h.wbTag hv.1
  branch hb := by
    obtain ⟨hs, hst⟩ := @stall_of_branchSetRawD true s x hb
    obtain ⟨hv, -, hc, -⟩ := instrExecutingSpec_iff.1 hs
    simp [Core.step, hv, instrValidClear_of_stall hc hst]

theorem run (s : Core) (i : ℕ → PipeIn) (t : ℕ) :
    (Sync.run (Core.step true) s.reset i t).Untainted :=
  Sync.run_invariant (untainted_reset s) (fun _ _ h => h.step) t

end Untainted

/-! ## Loads -/

/-- What the load/store unit sees in this cycle. -/
def lsuInput (s : Core) (x : PipeIn) : LsuIn := s.lsuIn true x (s.lsuReq true x)

/-- The load/store unit of a run, with the words of the access under way. -/
def watched (s : Core) (i : ℕ → PipeIn) : ℕ → Watched :=
  Sync.run Watched.step Watched.reset fun k => (Sync.run (step true) s.reset i k).lsuInput (i k)

/-- The tag of the words that the access under way has read, the last one in cycle `u`. -/
def wordsTag (s : Core) (i : ℕ → PipeIn) (u : ℕ) : Bool :=
  (watched s i u).wordsTag ((Sync.run (step true) s.reset i u).respIn true (i u))

section Loads

variable (r : ℕ → Core) (i : ℕ → PipeIn) (t u : ℕ)

/-- A load leaves ID in cycle `t`, and its last response arrives in cycle `u`, without an error. -/
structure LoadRetires : Prop where
  lt : t < u
  issued : (r t).instrDone true (i t) = true ∧ (r t).instrTypeWb = .load
  waits : ∀ v, t < v → v < u → (r v).lsuRespValid true (i v) = false
  answered : (r u).lsuRespValid true (i u) = true
  noErr : ((r u).excIn true (i u)).loadErr = false ∧ ((r u).excIn true (i u)).storeErr = false

variable (words : Bool)

/-- The tag that the policy gives the destination of the load: of the tag its own base register
    had when it left ID, and of the tag `words` of what it read. -/
def loadPolicy : Bool :=
  if Tpr.mode (r u).tpr Tpr.loadstore = .old then (r u).tagOf (Instr.rd (r t).instrRdataId)
  else loadTag (r u).tpr ((r t).operandAFwIdTag true) words

/-- The destination gets that tag, and an operand tag read from it is that tag, as long as no
    other instruction with this destination has come to writeback. -/
def LoadTagged : Prop :=
  (r (u + 1)).tagOf (Instr.rd (r t).instrRdataId) = loadPolicy r t u words ∧
    ∀ v, u < v →
      (∀ k, u < k → k ≤ v →
        ¬ ((r k).wb.wbValidQ = true ∧ (r k).wb.rfWaddrWbQ = Instr.rd (r t).instrRdataId)) →
      (r v).fwTag true (Instr.rd (r t).instrRdataId) = loadPolicy r t u words

/-- In a clean core the policy asks for a taint only of a tainted word in the mode OR. -/
theorem loadPolicy_of_untainted (ht : (r t).Untainted) (hu : (r u).Untainted) :
    loadPolicy r t u words = true ↔ Tpr.mode (r u).tpr Tpr.loadstore = .or ∧
      (r u).tpr.getLsbD Tpr.loadstoreEnSource = true ∧ words = true := by
  have hb : (r t).operandAFwIdTag true = false := ht.fwTag _
  have hd : (r u).tagOf (Instr.rd (r t).instrRdataId) = false := by simp [tagOf, hu.tagRf]
  unfold loadPolicy loadTag
  rw [hb, hd]
  cases Tpr.mode (r u).tpr Tpr.loadstore <;> simp [TagMode.result, and_comm]

end Loads

/-- **A load leaves the tag that the policy gives it exactly where that tag is 0 anyway**: no load
    taints a register. -/
theorem load_tagged_iff (s : Core) (i : ℕ → PipeIn) (t u : ℕ)
    (_h : LoadRetires (Sync.run (step true) s.reset i) i t u) :
    LoadTagged (Sync.run (step true) s.reset i) t u (wordsTag s i u) ↔
      ¬ (Tpr.mode (Sync.run (step true) s.reset i u).tpr Tpr.loadstore = .or ∧
        (Sync.run (step true) s.reset i u).tpr.getLsbD Tpr.loadstoreEnSource = true ∧
        wordsTag s i u = true) := by
  have hr := Untainted.run s i
  rw [← loadPolicy_of_untainted _ t u _ (hr t) (hr u), Bool.not_eq_true]
  constructor
  · rintro ⟨h1, -⟩
    rw [← h1]
    simp [tagOf, (hr (u + 1)).tagRf]
  · intro hp
    refine ⟨by simp [tagOf, (hr (u + 1)).tagRf, hp], fun v _ _ => ?_⟩
    rw [(hr v).fwTag, hp]

/-- `csrw tpr, x1` with the mode OR and the source enabled, then `lw x5, 0(x2)` of a tainted
    word. -/
def taintedLoad : ℕ → PipeIn
  | 3 => .fetch 0x7c309073
  | 4 => { PipeIn.quiet with csrWdata := 0x8020 }
  | 6 => .fetch 0x00012283
  | 8 => { PipeIn.quiet with dataRvalid := true, dataRdataTag := true }
  | _ => .quiet

theorem taintedLoad_retires : LoadRetires (Sync.run (step true) blank.reset taintedLoad)
    taintedLoad 7 8 where
  lt := by decide
  issued := by decide +kernel
  waits v hv hu := absurd hu (by omega)
  answered := by decide +kernel
  noErr := by decide +kernel

/-- The load of the tainted word leaves `x5` clean, where the policy asks for a taint. -/
theorem taintedLoad_clean :
    LoadRetires (Sync.run (step true) blank.reset taintedLoad) taintedLoad 7 8 ∧
      loadPolicy (Sync.run (step true) blank.reset taintedLoad) 7 8
        (wordsTag blank taintedLoad 8) = true ∧
      ¬ LoadTagged (Sync.run (step true) blank.reset taintedLoad) 7 8
        (wordsTag blank taintedLoad 8) := by
  have hp : loadPolicy (Sync.run (step true) blank.reset taintedLoad) 7 8
      (wordsTag blank taintedLoad 8) = true := by decide +kernel
  refine ⟨taintedLoad_retires, hp, fun h => ?_⟩
  have h1 := h.1
  rw [hp] at h1
  exact absurd h1 (by decide +kernel)

/-- In the same mode `lw x5, 0(x2)` with 1 in `x2`: a tainted first word and a clean second one. -/
def taintedFirst : ℕ → PipeIn
  | 3 => .fetch 0x7c309073
  | 4 => { PipeIn.quiet with csrWdata := 0x8020 }
  | 6 => .fetch 0x00012283
  | 7 => { PipeIn.quiet with adderResult := 1 }
  | 8 => { PipeIn.quiet with adderResult := 5, dataRvalid := true, dataRdataTag := true }
  | 9 => { PipeIn.quiet with dataRvalid := true }
  | _ => .quiet

theorem taintedFirst_retires : LoadRetires (Sync.run (step true) blank.reset taintedFirst)
    taintedFirst 8 9 where
  lt := by decide
  issued := by decide +kernel
  waits v hv hu := absurd hu (by omega)
  answered := by decide +kernel
  noErr := by decide +kernel

/-- The tag of the first word counts, and is lost too. -/
theorem load_tagged_iff_taintedFirst :
    ¬ LoadTagged (Sync.run (step true) blank.reset taintedFirst) 8 9
      (wordsTag blank taintedFirst 9) :=
  fun h => (load_tagged_iff blank taintedFirst 8 9 taintedFirst_retires).1 h (by decide +kernel)

/-! ## The enable pin -/

section DiftEn

variable (wbs : Bool) (s : Core) (x : PipeIn)

/-- No check has an effect: no tag exception, the responses of the load/store unit are those
    without `lsu_tag_err_o`, and there is no alert. -/
def Bypassed : Prop :=
  s.tagErrD wbs x = false ∧
    (s.lsu.rdataValidO (s.respIn wbs x) = s.lsu.rdataValid (s.respIn wbs x) false ∧
      s.lsu.loadErrO (s.respIn wbs x) = s.lsu.loadErr (s.respIn wbs x) false ∧
      s.lsu.storeErrO (s.respIn wbs x) = s.lsu.storeErr (s.respIn wbs x) false) ∧
    s.diftExceptionO wbs x = false

/-- A valid instruction in ID, outside `flush`, has a tag that the control register checks: on
    its PC, or, unless it is a load, on an operand or on its result. -/
def HeldTaint : Prop :=
  s.instrValidIdQ = true ∧ s.ctl.ctrlFsmCs ≠ .flush ∧
    (s.tcr.getLsbD Tcr.executePc = true ∧ s.pcIdTag = true ∨
      Instr.opcode s.instrRdataId ≠ .load ∧
        (s.aluOperandATag wbs = true ∧ (diftTmu s.instrRdataId s.tcr).s1 = true ∨
          s.aluOperandBTag wbs = true ∧ (diftTmu s.instrRdataId s.tcr).s2 = true ∨
          (modeTag s.instrRdataId s.tpr).result (s.aluOperandATag wbs) (s.aluOperandBTag wbs) =
            true ∧ (diftTmu s.instrRdataId s.tcr).d = true))

end DiftEn

theorem exDift_exception : (s.exDift wbs).exception = true ↔
    Instr.opcode s.instrRdataId ≠ .load ∧
      (s.aluOperandATag wbs = true ∧ (diftTmu s.instrRdataId s.tcr).s1 = true ∨
        s.aluOperandBTag wbs = true ∧ (diftTmu s.instrRdataId s.tcr).s2 = true ∨
        (modeTag s.instrRdataId s.tpr).result (s.aluOperandATag wbs) (s.aluOperandBTag wbs) =
          true ∧ (diftTmu s.instrRdataId s.tcr).d = true) := by
  simp [exDift, diftLogic, or_assoc]

theorem tagErrD_iff : s.tagErrD wbs x = true ↔ s.HeldTaint wbs := by
  simp only [tagErrD, Controller.tagErrD, excIn, exTagErr, pcException, HeldTaint,
    ← exDift_exception, Bool.and_eq_true, Bool.or_eq_true, bne_iff_ne]
  tauto

/-- The state machine of the load/store unit is clean in every run. -/
theorem lsu_clean (wbs : Bool) (s : Core) (i : ℕ → PipeIn) (t : ℕ) :
    (Sync.run (step wbs) s.reset i t).lsu.Clean :=
  Sync.run_invariant (P := fun s : Core => s.lsu.Clean) Lsu.clean_reset
    (fun _ _ h => Lsu.clean_step h) t

/-- **`dift_en_i = 0` bypasses the checks exactly where no checked tag is still held**: always
    with a writeback stage. -/
theorem bypassed_iff (s : Core) (i : ℕ → PipeIn) (t : ℕ) (h : (i t).diftEn = false) :
    (Bypassed true (Sync.run (step true) s.reset i t) (i t)) ∧
      (Bypassed false (Sync.run (step false) s.reset i t) (i t) ↔
        ¬ HeldTaint false (Sync.run (step false) s.reset i t)) := by
  have hresp (wbs : Bool) := Lsu.resp_of_clean_tag (lsu_clean wbs s i t)
    (x := (Sync.run (step wbs) s.reset i t).respIn wbs (i t)) (by simp [respIn, lsuIn, h])
  have halert (wbs : Bool) : (Sync.run (step wbs) s.reset i t).diftExceptionO wbs (i t) = false := by
    simp [diftExceptionO, h]
  have hu := Untainted.run s i t
  constructor
  · refine ⟨?_, hresp true, halert true⟩
    by_contra he
    rw [Bool.not_eq_false, tagErrD, Controller.tagErrD, Bool.and_eq_true, Bool.and_eq_true] at he
    have hv : (Sync.run (step true) s.reset i t).instrValidIdQ = true := he.1.2
    exact absurd he.1.1 (by rw [excIn]; simp [hu.exTagErr hv])
  · rw [← tagErrD_iff (x := i t), Bool.not_eq_true]
    exact ⟨fun hb => hb.1, fun hb => ⟨hb, hresp false, halert false⟩⟩

/-- With the check of integer operands on, a tainted word is loaded into `x5`; then the enable
    is taken away and `addi x6, x5, 0` comes. -/
def enableDropped : ℕ → PipeIn
  | 3 => .fetch 0x7c309073
  | 4 => { PipeIn.quiet with csrWdata := 0x8020 }
  | 6 => .fetch 0x7c209073
  | 7 => { PipeIn.quiet with csrWdata := 0x200 }
  | 9 => .fetch 0x00012283
  | 11 => { PipeIn.fetch 0x00028313 with dataRvalid := true, dataRdataTag := true }
  | 12 => { PipeIn.quiet with diftEn := false }
  | _ => .quiet

theorem enableDropped_traps : (enableDropped 12).diftEn = false ∧
    (Sync.run (step false) blank.reset enableDropped 12).tagErrD false (enableDropped 12) = true ∧
    ¬ Bypassed false (Sync.run (step false) blank.reset enableDropped 12) (enableDropped 12) := by
  have he : (Sync.run (step false) blank.reset enableDropped 12).tagErrD false
      (enableDropped 12) = true := by decide +kernel
  refine ⟨rfl, he, fun hb => ?_⟩
  exact absurd (hb.1.symm.trans he) Bool.false_ne_true

theorem bypassed_iff_enableDropped :
    Bypassed true (Sync.run (step true) blank.reset enableDropped 12) (enableDropped 12) :=
  (bypassed_iff blank enableDropped 12 rfl).1

end Core

end SentinelSoc
