/-
  The alert that the policy is violated.

  * `AlertOk`: off while ID is empty and no data come, on while the instruction
    in ID has a tag that is checked;
  * `alertOk_iff`: the alert is never missed; without a writeback stage a word
    that has left ID can still raise it.
-/
import SentinelSoc.Core.Taint

namespace SentinelSoc

namespace Core

section Alerts

variable (wbs : Bool) (s : Core) (x : PipeIn)

/-- An operand of the word in the IF/ID registers, or its result, has a tag that is checked. -/
def CheckedTag : Prop :=
  s.aluOperandATag wbs = true ∧ (diftTmu s.instrRdataId s.tcr).s1 = true ∨
    s.aluOperandBTag wbs = true ∧ (diftTmu s.instrRdataId s.tcr).s2 = true ∨
    (s.exDift wbs).resultTag = true ∧ (diftTmu s.instrRdataId s.tcr).d = true

/-- The alert of one cycle is neither spurious nor missed, for an instruction in ID that is no
    load, whether or not it is stalled or killed. -/
structure AlertOk : Prop where
  notSpurious : s.instrValidIdQ = false → x.dataRvalid = false → s.diftExceptionO wbs x = false
  notMissed : s.instrValidIdQ = true → Instr.opcode s.instrRdataId ≠ .load →
    s.CheckedTag wbs ∨ s.pcIdTag = true ∧ s.tcr.getLsbD Tcr.executePc = true →
    s.diftExceptionO wbs x = true

/-- ID is empty, but the IF/ID registers still hold a word, not a load, with a checked tag. -/
def StaleTaint : Prop :=
  s.instrValidIdQ = false ∧ Instr.opcode s.instrRdataId ≠ .load ∧ s.CheckedTag wbs

end Alerts

variable {wbs : Bool} {s : Core} {x : PipeIn}

/-! ## One cycle -/

theorem exception_iff_checkedTag : (s.exDift wbs).exception = true ↔
    Instr.opcode s.instrRdataId ≠ .load ∧ s.CheckedTag wbs :=
  exDift_exception

/-- While ID is empty and no data come, only the word in the IF/ID registers is checked. -/
theorem diftExceptionO_of_empty (hv : s.instrValidIdQ = false) (hr : x.dataRvalid = false)
    (he : x.diftEn = true) : s.diftExceptionO wbs x = (s.exDift wbs).exception := by
  have hl : s.rfWeLsu wbs x = false := by
    simp [rfWeLsu, respIn, lsuIn, Lsu.rdataValidO, Lsu.rdataValid, hr]
  have ht : s.lsu.tagErrO (s.respIn wbs x) = false := by simp [respIn, lsuIn, Lsu.tagErrO, hr]
  simp [diftExceptionO, loadException, loadCheck, hl, ht, pcException, hv, he]

/-- The check is combinational: it fires in the cycle itself. -/
theorem diftExceptionO_of_valid (hv : s.instrValidIdQ = true) (he : x.diftEn = true)
    (hl : Instr.opcode s.instrRdataId ≠ .load)
    (hc : s.CheckedTag wbs ∨ s.pcIdTag = true ∧ s.tcr.getLsbD Tcr.executePc = true) :
    s.diftExceptionO wbs x = true := by
  rcases hc with hc | ⟨hp, hx⟩
  · simp [diftExceptionO, exception_iff_checkedTag.2 ⟨hl, hc⟩, he]
  · simp [diftExceptionO, pcException, hv, hp, hx, he]

theorem alertOk_iff_notStale (he : x.diftEn = true) :
    s.AlertOk wbs x ↔ (x.dataRvalid = false → ¬ s.StaleTaint wbs) := by
  constructor
  · rintro ⟨hs, -⟩ hr ⟨hv, hc⟩
    have h0 := hs hv hr
    rw [diftExceptionO_of_empty hv hr he, exception_iff_checkedTag.2 hc] at h0
    exact Bool.noConfusion h0
  · intro hs
    refine ⟨fun hv hr => ?_, fun hv hl hc => diftExceptionO_of_valid hv he hl hc⟩
    rw [diftExceptionO_of_empty hv hr he, ← Bool.not_eq_true, exception_iff_checkedTag]
    exact fun hc => hs hr ⟨hv, hc⟩

/-! ## With a writeback stage -/

/-- The control register is written by an instruction, and that has come with a clean PC. -/
def PcClean (s : Core) : Prop := s.tcr = 0 ∨ s.pcIdTag = false

theorem PcClean.step (h : s.PcClean) (hu : s.Untainted) : (s.step true x).PcClean := by
  have hp (hc : s.pcIdTag = false) : (s.step true x).pcIdTag = false := by
    simp only [Core.step]
    split_ifs
    · exact hu.pcIfTag
    · exact hc
  by_cases hw : s.policyWe true x 0x7c2 = true
  · simp only [policyWe, csrOpEn, Bool.and_eq_true] at hw
    have hx := hw.1.1.1.2.1.2
    have hv := (instrExecutingSpec_iff.1 (spec_of_instrExecuting hx)).1
    exact .inr (hp (hu.pcIdTag hv))
  · refine h.imp (fun ht => ?_) hp
    change (if s.policyWe true x 0x7c2 = true then x.csrWdata else s.tcr) = 0
    rw [if_neg hw, ht]

/-- A control register that is 0 checks nothing. -/
theorem diftTmu_zero (w : BitVec 32) : diftTmu w 0 = .none := by
  unfold diftTmu
  cases Instr.opcode w <;>
    simp [Checks.jump, Checks.branch, Checks.loadstore, Checks.integer, Checks.shift,
      Checks.logical, Checks.comparison, Checks.of, Checks.none]

theorem Untainted.notChecked (h : s.Untainted) (hp : s.PcClean) : ¬ s.CheckedTag wbs := by
  rcases hp with ht | hp
  · rw [CheckedTag, ht, diftTmu_zero]
    simp [Checks.none]
  · have ha : s.aluOperandATag wbs = false := by
      unfold aluOperandATag
      cases s.opASel with
      | regA => exact h.fwTag _
      | currPc => exact hp
      | fwd => rfl
      | imm => rfl
    have hb : s.aluOperandBTag wbs = false := by
      unfold aluOperandBTag
      cases s.opBSel with
      | regB => exact h.fwTag _
      | imm => rfl
    simp [CheckedTag, exDift, ha, hb]

theorem notChecked_run (s : Core) (i : ℕ → PipeIn) (t : ℕ) :
    ¬ (Sync.run (step true) s.reset i t).CheckedTag true := by
  have h : (Sync.run (step true) s.reset i t).Untainted ∧
      (Sync.run (step true) s.reset i t).PcClean :=
    Sync.run_invariant (P := fun c : Core => c.Untainted ∧ c.PcClean)
      ⟨untainted_reset s, .inl rfl⟩ (fun _ _ h => ⟨h.1.step, h.2.step h.1⟩) t
  exact h.1.notChecked h.2

/-! ## Every run -/

/-- **The alert is never missed, and spurious exactly where a word with a checked tag is left in an
    empty ID**: never with a writeback stage. -/
theorem alertOk_iff (s : Core) (i : ℕ → PipeIn) (h : ∀ t, (i t).diftEn = true) :
    (∀ t, (Sync.run (step true) s.reset i t).AlertOk true (i t)) ∧
      ((∀ t, (Sync.run (step false) s.reset i t).AlertOk false (i t)) ↔
        ∀ t, (i t).dataRvalid = false → ¬ (Sync.run (step false) s.reset i t).StaleTaint false) := by
  constructor
  · exact fun t => (alertOk_iff_notStale (h t)).2 fun _ hs => notChecked_run s i t hs.2.2
  · exact forall_congr' fun t => alertOk_iff_notStale (h t)

/-- With the check of integer operands on, `addi x6, x5, 0` of a tainted `x5` traps, and no
    other instruction comes. -/
def trapped : ℕ → PipeIn
  | 3 => .fetch 0x7c309073
  | 4 => { PipeIn.quiet with csrWdata := 0x8020 }
  | 6 => .fetch 0x7c209073
  | 7 => { PipeIn.quiet with csrWdata := 0x200 }
  | 9 => .fetch 0x00012283
  | 11 => { PipeIn.fetch 0x00028313 with dataRvalid := true, dataRdataTag := true }
  | _ => .quiet

theorem trapped_diftEn (t : ℕ) : (trapped t).diftEn = true := by
  unfold trapped
  split <;> rfl

/-- The alert goes on while ID is empty. -/
theorem trapped_alert : (∀ t, (trapped t).diftEn = true) ∧
    (Sync.run (step false) blank.reset trapped 14).instrValidIdQ = false ∧
    (trapped 14).dataRvalid = false ∧
    (Sync.run (step false) blank.reset trapped 14).diftExceptionO false (trapped 14) = true ∧
    ¬ (Sync.run (step false) blank.reset trapped 14).AlertOk false (trapped 14) := by
  have ha : (Sync.run (step false) blank.reset trapped 14).diftExceptionO false (trapped 14) =
      true := by decide +kernel
  have hv : (Sync.run (step false) blank.reset trapped 14).instrValidIdQ = false := by
    decide +kernel
  exact ⟨trapped_diftEn, hv, rfl, ha, fun h => absurd (h.notSpurious hv rfl) (by simp [ha])⟩

theorem alertOk_iff_trapped :
    (Sync.run (step true) blank.reset trapped 14).AlertOk true (trapped 14) :=
  (alertOk_iff blank trapped trapped_diftEn).1 14

end Core

end SentinelSoc
