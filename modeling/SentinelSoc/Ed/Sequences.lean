/-
  The core sequence by sequence.

  * `SeqState.next`: one step of the master state machine, with the whole sequence that it
    waits for;
  * `EdTop.simulates`: between two sequences, every run of the core follows `SeqState.next`;
  * `Steps`: sequences in given states; `EdTop.simulates_steps` carries them to the cycles.
-/
import SentinelSoc.Ed.Sequencer

namespace SentinelSoc

open Microcode

/-- A sequence of the ROM. -/
abbrev Datapath.sequence (d : Datapath) (seqId : BitVec 5) : Datapath :=
  Datapath.run (Microcode.modPEn seqId) d (program seqId)

namespace MasterFsm

variable (f : MasterFsm)

/-- The state machine on its entry to a state. -/
def enter (st : FsmState) : MasterFsm := { f with state := st, startSeqReg := st.triggers }

theorem step_eq_enter {f : MasterFsm} {sv sd ce : Bool} {rd : Word}
    (h : f.nextState sv sd ce ≠ f.state ∨ (f.nextState sv sd ce).triggers = false) :
    f.step sv sd ce rd = (f.shadow sd ce rd).enter (f.nextState sv sd ce) := by
  have hs : (f.nextState sv sd ce != f.state && (f.nextState sv sd ce).triggers) =
      (f.nextState sv sd ce).triggers := by
    rcases h with h | h
    · simp [h]
    · simp [h]
  rw [step, hs, enter]

end MasterFsm

/-- The core between two sequences. -/
structure SeqState where
  fsm : MasterFsm
  data : Datapath

namespace SeqState

variable (s : SeqState)

/-- The datapath after the sequence that the state machine waits for. -/
def executed : Datapath :=
  Datapath.run (Microcode.modPEn s.fsm.seqId) s.data (program s.fsm.seqId)

/-- The row whose operands the state machine sees when the sequence is done. -/
def lastRow : MicroOp := (program s.fsm.seqId).getLastD (.row 0 0 .pass 0)

/-- One step of the state machine. -/
def next : SeqState :=
  if s.fsm.state.triggers then
    { fsm := s.fsm.step false true
        (decide (s.executed.regs s.lastRow.aSel = s.executed.regs s.lastRow.bSel))
        (s.executed.regs s.lastRow.aSel)
      data := s.executed }
  else { fsm := s.fsm.step false false false 0, data := s.data }

end SeqState

/-- Steps that start in states which meet `C`. -/
def Steps (C : FsmState → Prop) : SeqState → SeqState → Prop :=
  Relation.ReflTransGen fun s s' => C s.fsm.state ∧ s.next = s'

namespace Steps

variable {C : FsmState → Prop} {s s' s'' : SeqState}

theorem refl (s : SeqState) : Steps C s s := Relation.ReflTransGen.refl

theorem head (hc : C s.fsm.state) (h : Steps C s.next s') : Steps C s s' :=
  Relation.ReflTransGen.head ⟨hc, rfl⟩ h

theorem mono {C' : FsmState → Prop} (hC : ∀ st, C st → C' st) (h : Steps C s s') :
    Steps C' s s' :=
  Relation.ReflTransGen.mono (fun _ _ hst => ⟨hC _ hst.1, hst.2⟩) _ _ h

theorem trans (h : Steps C s s') (h' : Steps C s' s'') : Steps C s s'' :=
  Relation.ReflTransGen.trans h h'

end Steps

namespace EdTop

/-- What the steps see of a cycle. -/
def abs (s : EdTop) : SeqState := ⟨s.fsm, ⟨s.regs, s.xSign⟩⟩

variable {r : ℕ → EdTop} {i : ℕ → EdIn} {t : ℕ}

/-- The host starts the state machine in the idle state only. -/
theorem step_startVerify {f : MasterFsm} (h : f.state ≠ .idle) (sv sd ce : Bool) (rd : Word) :
    f.step sv sd ce rd = f.step false sd ce rd := by
  have hn : f.nextState sv sd ce = f.nextState false sd ce := by
    cases hs : f.state <;> simp_all [MasterFsm.nextState]
  rw [MasterFsm.step, MasterFsm.step, hn]

/-- The start register is written, not read. -/
theorem step_startSeqReg (f : MasterFsm) (b sv sd ce : Bool) (rd : Word) :
    { f with startSeqReg := b }.step sv sd ce rd = f.step sv sd ce rd := by
  obtain ⟨st, ret, start, bc, sr, te, pk, xe, ye⟩ := f
  cases st <;> cases sd <;> rfl

/-- A state that needs no sequence looks at nothing but its own registers. -/
theorem step_of_not_triggers {f : MasterFsm} (h : f.state.triggers = false)
    (hi : f.state ≠ .idle) (sv sd sd' ce ce' : Bool) (rd rd' : Word) :
    f.step sv sd ce rd = f.step false sd' ce' rd' := by
  have hn : f.nextState sv sd ce = f.nextState false sd' ce' := by
    cases hs : f.state <;> simp_all [MasterFsm.nextState, FsmState.triggers]
  have hsh : f.shadow sd ce rd = f.shadow sd' ce' rd' := by
    cases hs : f.state <;> simp_all [MasterFsm.shadow, FsmState.triggers]
  rw [MasterFsm.step, MasterFsm.step, hn, hsh]

/-- Only a sequence of its own latches the sign. -/
theorem row_of_not_triggers {s : EdTop} (h : s.fsm.state.triggers = false) :
    s.row.aluOp ≠ .loadCompressed := by
  intro hl
  have h0 : s.fsm.seqId = 0 := by
    cases hs : s.fsm.state <;> simp_all [MasterFsm.seqId, FsmState.triggers]
  rw [EdTop.row] at hl
  have hmem := rom_load hl
  rw [h0] at hl hmem
  have key : ∀ op ∈ program 0, op.aluOp ≠ .loadCompressed := by decide
  exact key _ hmem hl

/-- **Between two sequences the core follows `SeqState.next`**, where the host leaves the datapath
    to it. -/
theorem simulates (hr : IsRun r i) (hb : Boundary (r t)) (hi : (r t).fsm.state ≠ .idle)
    (hsel : ∀ u, t ≤ u → (r u).fsm.state = (r t).fsm.state → (i u).dataSel = 0) :
    ∃ t', t < t' ∧ Boundary (r t') ∧ (r t').abs = (r t).abs.next ∧
      ∀ u, t ≤ u → u < t' → (r u).fsm.state = (r t).fsm.state := by
  rcases ht : (r t).fsm.state.triggers with _ | _
  · refine ⟨t + 1, by omega, ?_, ?_, ?_⟩
    · rw [hr]
      exact hb.step ht
    · have hx : (r (t + 1)).xSign = (r t).xSign := by
        rw [hr, step_xSign, if_neg (row_of_not_triggers ht)]
      have hw : (r t).finalWe (i t) = false := by rw [EdTop.finalWe, if_neg hi, hb.regWe]
      have hregs : (r (t + 1)).regs = (r t).regs := by simp [hr t, EdTop.step, hw]
      rw [abs, SeqState.next, if_neg (by simp [abs, ht]), hx, hregs, hr t]
      exact congrArg (SeqState.mk · _) (step_of_not_triggers ht hi _ _ _ _ _ _ _)
    · intro u hu hu'
      rw [show u = t by omega]
  · obtain ⟨t', ha, hb'⟩ := exists_activation hr hb ht
    have hstate : ∀ u, t ≤ u → u < t' + 1 → (r u).fsm.state = (r t).fsm.state := by
      intro u hu hu'
      rcases Nat.lt_or_eq_of_le hu with hlt | rfl
      · rw [ha.fsm u hlt (by omega)]
      · rfl
    have hlt := ha.lt
    refine ⟨t' + 1, by omega, hb', ?_, hstate⟩
    obtain ⟨-, hdata⟩ := ha.refines fun u hu hu' => hsel u (by omega) (hstate u hu.le (by omega))
    have hd' := hdata t' le_rfl (by omega)
    have hd := hdata (t' + 1) (by omega) le_rfl
    obtain ⟨op, hop, hsrc, hcmp⟩ := ha.ports
    have hlast : (r t).abs.lastRow = op := by
      rw [SeqState.lastRow, List.getLastD_eq_getLast?]
      exact congrArg (Option.getD · _) hop
    have hexec : (r t).abs.executed = ⟨(r t').regs, (r t').xSign⟩ := hd'.symm
    have hcmp' : (r t').cmpEq = decide ((r t').regs op.aSel = (r t').regs op.bSel) := by
      rw [Bool.eq_iff_iff, hcmp, decide_eq_true_eq]
    have hfsm : (r (t' + 1)).fsm = (r t).fsm.step false true
        (decide ((r t').regs op.aSel = (r t').regs op.bSel)) ((r t').regs op.aSel) := by
      have hdone : (r t').seq.seqDone = true := (ha.seqDone t' hlt.le (by omega)).2 rfl
      rw [hr]
      change (r t').fsm.step _ (r t').seq.seqDone (r t').cmpEq (r t').srcA = _
      rw [hdone, hcmp', hsrc, ha.fsm t' hlt le_rfl, step_startSeqReg]
      exact step_startVerify hi _ _ _ _
    rw [abs, SeqState.next, if_pos (by exact ht), hlast, hexec, hfsm, hd]
    exact congrArg (SeqState.mk _) hexec.symm.symm

/-- **Steps in the states `C` are cycles in the states `C`.** -/
theorem simulates_steps {C : FsmState → Prop} (hr : IsRun r i) (hC : ¬ C .idle) {s s' : SeqState}
    (h : Steps C s s') (hs : (r t).abs = s) (hb : Boundary (r t))
    (hsel : ∀ u, t ≤ u → C (r u).fsm.state → (i u).dataSel = 0) :
    ∃ t', t ≤ t' ∧ Boundary (r t') ∧ (r t').abs = s' ∧
      ∀ u, t ≤ u → u < t' → C (r u).fsm.state := by
  induction h using Relation.ReflTransGen.head_induction_on generalizing t with
  | refl => exact ⟨t, le_rfl, hb, hs, fun u hu hu' => by omega⟩
  | head hstep _ ih =>
    obtain ⟨hc, rfl⟩ := hstep
    have hct : C (r t).fsm.state := by
      rw [← hs] at hc
      exact hc
    have hi : (r t).fsm.state ≠ .idle := fun h => hC (h ▸ hct)
    obtain ⟨t₁, hlt, hb₁, hs₁, hst⟩ :=
      simulates hr hb hi fun u hu hst => hsel u hu (by rw [hst]; exact hct)
    obtain ⟨t', hle, hb', hs', hst'⟩ :=
      ih (hs₁.trans (by rw [hs])) hb₁ fun u hu => hsel u (by omega)
    refine ⟨t', by omega, hb', hs', ?_⟩
    intro u hu hu'
    rcases Nat.lt_or_ge u t₁ with hu₁ | hu₁
    · rw [hst u hu hu₁]
      exact hct
    · exact hst' u hu₁ hu'

end EdTop

end SentinelSoc
