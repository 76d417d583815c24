/-
  Loads and stores until their last response.

  * `WeHeld`: the load/store unit keeps the kind of the access in ID;
  * `Waiting`: the invariant of the cycles between the end of an access in ID and
    its last response;
  * `ownChecks_iff`: when the checks on that response are those of the access's own
    operands.
-/
import SentinelSoc.Core.Stores

namespace SentinelSoc

namespace Core

variable {s : Core} {x : PipeIn}

/-! ## The kind of an access -/

/-- Between the two halves of a split access the unit knows whether it is a store. -/
def WeHeld (s : Core) : Prop :=
  s.lsu.lsFsmCs = .waitRvalidMis ∨ s.lsu.lsFsmCs = .waitRvalidMisGntsDone →
    s.lsu.dataWeQ = s.dec.dataWe

/-- The invariant of a run; there is no PMP. -/
structure LsuInv (s : Core) : Prop where
  access : s.AccessInv
  weHeld : s.WeHeld
  noPmp : s.lsu.pmpErrQ = false

theorem lsu_step : (s.step true x).lsu = s.lsu.step (s.lsuIn true x (s.lsuReq true x)) := rfl

theorem pmpErrQ_step (h : s.lsu.pmpErrQ = false) : (s.step true x).lsu.pmpErrQ = false := by
  have hp : (s.lsuIn true x (s.lsuReq true x)).dataPmpErr = false := rfl
  rw [lsu_step]
  simp only [Lsu.step, Lsu.pmpErrD, hp, h, Bool.and_false]
  cases s.lsu.lsFsmCs <;> simp

theorem weHeld_step (h : s.LsuInv) : (s.step true x).WeHeld := by
  intro hn
  have hidle : (s.step true x).lsu.lsFsmCs ≠ .idle := by
    rcases hn with hn | hn <;> rw [hn] <;> simp
  have hacc := accessing_of_not_done h.access.busy hidle
  have hdec : (s.step true x).dec.dataWe = s.dec.dataWe := by
    obtain ⟨-, hr, -, hl, -⟩ := hacc.instr_step
    simp only [dec, SentinelSoc.decode, hr, hl]
  rw [hdec]
  exact Lsu.step_dataWeQ (x := s.lsuIn true x (s.lsuReq true x)) h.weHeld
    (hn.imp_right .inl)

theorem LsuInv.step (h : s.LsuInv) : (s.step true x).LsuInv where
  access := h.access.step
  weHeld := weHeld_step h
  noPmp := pmpErrQ_step h.noPmp

theorem lsuInv_run (s : Core) (i : ℕ → PipeIn) (t : ℕ) :
    (Sync.run (step true) s.reset i t).LsuInv := by
  have hd : s.reset.Drained := ⟨rfl, rfl, rfl⟩
  refine Sync.run_invariant ⟨hd.accessInv, ?_, rfl⟩ (fun _ _ h => h.step) t
  rintro (h | h) <;> exact absurd h (by simp [reset, Lsu.reset])

/-! ## Until the response -/

/-- An access has left ID and waits for its last response. -/
structure Waiting (ty : WbInstrType) (s : Core) : Prop where
  valid : s.wb.wbValidQ = true
  type : s.wb.wbInstrTypeQ = ty
  idle : s.lsu.lsFsmCs = .idle
  we : s.lsu.dataWeQ = (ty == .store)

theorem waiting_of_done (h : s.LsuInv) (hd : s.instrDone true x = true)
    (ht : s.instrTypeWb ≠ .other) : (s.step true x).Waiting s.instrTypeWb := by
  have hx := instrExecuting_of_instrDone hd
  have hv := (instrExecutingSpec_iff.1 (spec_of_instrExecuting hx)).1
  have hr : s.dec.dataReq = true := by
    by_contra hr
    exact ht (by simp [instrTypeWb, hr])
  have hwe : s.dec.dataWe = (s.instrTypeWb == .store) := by
    cases hw : s.dec.dataWe <;> simp [instrTypeWb, hr, hw]
  have hdone : s.lsuReqDone true x = true := by
    simp only [instrDone, stallId, stallMem, hv, hr, Bool.and_eq_true, Bool.not_eq_true',
      Bool.or_eq_false_iff, ite_true, Bool.true_and] at hd
    simpa using hd.1.1.1.1.1.2.2
  have hns : (s.step true x).lsu.lsFsmCs = .idle := by
    simp only [lsuReqDone, Lsu.lsuReqDoneO, Bool.and_eq_true, beq_iff_eq] at hdone
    exact hdone.2
  have hwb : (s.step true x).wb.wbValidQ = true ∧
      (s.step true x).wb.wbInstrTypeQ = s.instrTypeWb := by
    simp [Core.step, wbStep, hd, readyWb_of_instrDone hd]
  refine ⟨hwb.1, hwb.2, hns, ?_⟩
  rw [← hwe]
  exact Lsu.step_dataWeQ (x := s.lsuIn true x (s.lsuReq true x)) h.weHeld (.inr (.inr hdone))

/-- Nothing else reaches the load/store unit or the writeback stage. -/
theorem Waiting.step {ty : WbInstrType} (h : s.Waiting ty) (ht : ty ≠ .other)
    (hr : s.lsuRespValid true x = false) : (s.step true x).Waiting ty := by
  have ho : s.outstandingMemoryAccess true x = true := by
    have hty := h.type
    simp only [outstandingMemoryAccess, outstandingLoadWb, outstandingStoreWb, h.valid, hr]
    cases ty <;> simp_all
  have hx : s.instrExecuting true x = false := by simp [instrExecuting, ho]
  have hd : s.instrDone true x = false := by simp [instrDone, hx]
  have hq : s.lsuReq true x = false := by simp [lsuReq, hx]
  have hwd : s.wbDone true x = false := by
    have hty := h.type
    simp only [wbDone, hr, Bool.or_false, hty]
    exact beq_eq_false_iff_ne.2 ht
  have hwb : (s.step true x).wb = { s.wb with wbValidQ := true } := by
    simp [Core.step, wbStep, hd, h.valid, hwd]
  refine ⟨by rw [hwb], by rw [hwb]; exact h.type, ?_, ?_⟩
  · rw [lsu_step]
    simp [Lsu.step, Lsu.lsFsmNs, h.idle, lsuIn, hq]
  · rw [lsu_step]
    simp [Lsu.step, Lsu.ctrlUpdate, h.idle, lsuIn, hq, h.we]

/-! ## Responses -/

section Answers

variable (r : ℕ → Core) (i : ℕ → PipeIn) (t u : ℕ)

/-- A load or a store leaves ID in cycle `t`, and its last response arrives in cycle `u`; no half
    of it has a bus error. -/
structure AccessAnswered : Prop where
  lt : t < u
  issued : (r t).instrDone true (i t) = true ∧ (r t).instrTypeWb ≠ .other
  waits : ∀ v, t < v → v < u → (r v).lsuRespValid true (i v) = false
  answered : (r u).lsuRespValid true (i u) = true
  noBusErr : (r u).lsu.lsuErrQ = false ∧ (i u).dataErr = false

/-- The checks on the response are those of the access: the alert of a load looks at the tag
    `words` of what it read, at the one its base register had when it left ID and at the one written
    to its destination, and the load/store unit reports an error for a tagged base. -/
def OwnChecks (words : Bool) : Prop :=
  ((r t).instrTypeWb = .load →
    ((r u).loadException true (i u) = true ↔
      words = true ∧ (r u).tcr.getLsbD Tcr.loadstoreCheckS = true ∨
      (r t).operandAFwIdTag true = true ∧ (r u).tcr.getLsbD Tcr.loadstoreCheckSa = true ∨
      (r u).rfWdataTagWb true (i u) = true ∧ (r u).tcr.getLsbD Tcr.loadstoreCheckD = true)) ∧
  (((r u).excIn true (i u)).loadErr = true ∨ ((r u).excIn true (i u)).storeErr = true ↔
    (r t).operandAFwIdTag true = true ∧ (r u).tcr.getLsbD Tcr.loadstoreCheckDa = true)

/-- The tag that the last word comes with, as far as `dift_en_i` lets it in. -/
def lastTag : Bool := (i u).dataRdataTag && (i u).diftEn

end Answers

theorem waiting_run (s : Core) (i : ℕ → PipeIn) {t u : ℕ}
    (h : AccessAnswered (Sync.run (step true) s.reset i) i t u) :
    (Sync.run (step true) s.reset i u).Waiting (Sync.run (step true) s.reset i t).instrTypeWb := by
  have hlt := h.lt
  have hwait := h.waits
  have key : ∀ v, t + 1 ≤ v → v ≤ u →
      (Sync.run (step true) s.reset i v).Waiting (Sync.run (step true) s.reset i t).instrTypeWb := by
    intro v hv
    induction v, hv using Nat.le_induction with
    | base =>
      intro _
      exact waiting_of_done (lsuInv_run s i t) h.issued.1 h.issued.2
    | succ v hv ih =>
      intro hvu
      exact (ih (by omega)).step h.issued.2 (hwait v (by omega) (by omega))
  exact key u hlt le_rfl

/-- What a last response without a bus error does. -/
theorem Waiting.response {ty : WbInstrType} (h : s.Waiting ty) (hi : s.LsuInv)
    (hc : s.lsu.Clean) (hr : s.lsuRespValid true x = true)
    (he : s.lsu.lsuErrQ = false ∧ x.dataErr = false) :
    s.lsuRdataTag true x = (x.dataRdataTag && x.diftEn) ∧
      ((s.excIn true x).loadErr || (s.excIn true x).storeErr) =
        (x.dataRdataTag && x.diftEn && s.tcr.getLsbD Tcr.loadstoreCheckDa) ∧
      s.rfWeLsu true x = (ty != .store &&
        !(x.dataRdataTag && x.diftEn && s.tcr.getLsbD Tcr.loadstoreCheckDa)) := by
  have hv : x.dataRvalid = true := by
    simpa [lsuRespValid, Lsu.lsuRespValidO, respIn, lsuIn, hi.noPmp, h.idle] using hr
  have hT : s.lsuRdataTag true x = (x.dataRdataTag && x.diftEn) :=
    Lsu.rdataTagO_of_idle hc h.idle
  have hE : s.lsu.tagErrO (s.respIn true x) =
      (x.dataRdataTag && x.diftEn && s.tcr.getLsbD Tcr.loadstoreCheckDa) := by
    have hT' : s.lsu.rdataTagO (s.respIn true x) = (x.dataRdataTag && x.diftEn) := hT
    rw [Lsu.tagErrO, hT']
    simp [respIn, lsuIn, hv]
  refine ⟨hT, ?_, ?_⟩
  · change (s.lsu.loadErrO (s.respIn true x) || s.lsu.storeErrO (s.respIn true x)) = _
    rw [Lsu.loadErrO, Lsu.storeErrO, hE]
    simp only [Lsu.loadErr, Lsu.storeErr, Lsu.dataOrPmpErr, Lsu.lsuRespValidO, respIn, lsuIn,
      h.idle, hi.noPmp, he.1, he.2, hv]
    cases s.lsu.dataWeQ <;> simp
  · rw [rfWeLsu, Lsu.rdataValidO, hE]
    simp only [Lsu.rdataValid, Lsu.dataOrPmpErr, respIn, lsuIn, h.idle, hi.noPmp, he.1, he.2, hv,
      h.we]
    simp only [bne, Bool.or_false, Bool.false_or]
    cases ty == WbInstrType.store <;> simp

/-- **When the checks look at the access's own operands.**  The load/store unit must not take the
    tag of a loaded word for one of an address, and the tag of a first word must not get lost. -/
theorem ownChecks_iff (s : Core) (i : ℕ → PipeIn) (t u : ℕ)
    (h : AccessAnswered (Sync.run (step true) s.reset i) i t u) :
    OwnChecks (Sync.run (step true) s.reset i) i t u (wordsTag s i u) ↔
      ¬ (lastTag i u = true ∧
        (Sync.run (step true) s.reset i u).tcr.getLsbD Tcr.loadstoreCheckDa = true) ∧
      ((Sync.run (step true) s.reset i t).instrTypeWb = .load →
        (Sync.run (step true) s.reset i u).tcr.getLsbD Tcr.loadstoreCheckS = true →
          (watched s i u).split = true → (watched s i u).firstTag = true →
            lastTag i u = true) := by
  have hw := waiting_run s i h
  have hut := Untainted.run s i t
  have huu := Untainted.run s i u
  obtain ⟨hT, hE, hV⟩ := hw.response (lsuInv_run s i u) (lsu_clean true s i u) h.answered h.noBusErr
  -- in a run from reset no register has a tag
  have hbase : (Sync.run (step true) s.reset i t).operandAFwIdTag true = false := hut.fwTag _
  have hport : (Sync.run (step true) s.reset i u).tagOf
      (Instr.rs1 (Sync.run (step true) s.reset i u).instrRdataId) = false := by
    simp [tagOf, huu.tagRf]
  have hdest : (Sync.run (step true) s.reset i u).rfWdataTagWb true (i u) = false := by
    simp [rfWdataTagWb, huu.wbTag hw.valid]
  have hload : (Sync.run (step true) s.reset i u).loadException true (i u) =
      ((Sync.run (step true) s.reset i t).instrTypeWb != .store &&
        !(lastTag i u && (Sync.run (step true) s.reset i u).tcr.getLsbD Tcr.loadstoreCheckDa) &&
        (lastTag i u && (Sync.run (step true) s.reset i u).tcr.getLsbD Tcr.loadstoreCheckS)) := by
    rw [loadException, loadCheck, hT, hport, hdest, hV]
    simp [lastTag]
  have hwords : wordsTag s i u =
      ((watched s i u).split && (watched s i u).firstTag || lastTag i u) := by
    change (if (watched s i u).split = true then (watched s i u).firstTag || lastTag i u
      else lastTag i u) = _
    cases (watched s i u).split <;> simp
  rw [OwnChecks, ← Bool.or_eq_true, hE, hload, hwords, hbase, hdest]
  change _ ∧ (((lastTag i u && _) = true) ↔ _) ↔ _
  generalize (Sync.run (step true) s.reset i u).tcr.getLsbD Tcr.loadstoreCheckDa = da
  generalize (Sync.run (step true) s.reset i u).tcr.getLsbD Tcr.loadstoreCheckS = cs
  generalize lastTag i u = last
  cases last <;> cases da <;> cases cs <;>
    cases (Sync.run (step true) s.reset i t).instrTypeWb <;> simp

/-- With the check of addresses on, `lw x5, 0(x2)` of a tainted word. -/
def taintedWord : ℕ → PipeIn
  | 3 => .fetch 0x7c209073
  | 4 => { PipeIn.quiet with csrWdata := 0x40 }
  | 6 => .fetch 0x00012283
  | 8 => { PipeIn.quiet with dataRvalid := true, dataRdataTag := true }
  | _ => .quiet

theorem taintedWord_answered : AccessAnswered (Sync.run (step true) blank.reset taintedWord)
    taintedWord 7 8 where
  lt := by decide
  issued := by decide +kernel
  waits v hv hu := absurd hu (by omega)
  answered := by decide +kernel
  noBusErr := by decide +kernel

/-- The base register is clean, and the load fails all the same. -/
theorem taintedWord_fails :
    AccessAnswered (Sync.run (step true) blank.reset taintedWord) taintedWord 7 8 ∧
      (taintedWord 8).diftEn = true ∧
      ((Sync.run (step true) blank.reset taintedWord 8).excIn true (taintedWord 8)).loadErr = true ∧
      (Sync.run (step true) blank.reset taintedWord 7).operandAFwIdTag true = false ∧
      ∀ words, ¬ OwnChecks (Sync.run (step true) blank.reset taintedWord) taintedWord 7 8 words := by
  have he : ((Sync.run (step true) blank.reset taintedWord 8).excIn true
      (taintedWord 8)).loadErr = true := by decide +kernel
  have hb : (Sync.run (step true) blank.reset taintedWord 7).operandAFwIdTag true = false := by
    decide +kernel
  refine ⟨taintedWord_answered, rfl, he, hb, fun words h => ?_⟩
  have hbase := (h.2.1 (.inl he)).1
  exact absurd (hb.symm.trans hbase) Bool.false_ne_true

theorem ownChecks_iff_taintedWord :
    ¬ OwnChecks (Sync.run (step true) blank.reset taintedWord) taintedWord 7 8
      (wordsTag blank taintedWord 8) :=
  fun h => ((ownChecks_iff blank taintedWord 7 8 taintedWord_answered).1 h).1
    (by decide +kernel)

end Core

end SentinelSoc
