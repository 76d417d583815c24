/-
  From cycles to microcode.

  * `Spell`: the cycles of a stretch of a run in which the master state machine
    stands still, and the writes they make;
  * `InRow`: where the sequencer is in a row; `row_run`: a row makes one write, that of
    its operation on the words that its registers hold;
  * `Boundary`: the cycles between two sequences; every cycle of a run is one or
    lies in an activation (`boundary_or_activation`);
  * `Activation`: the rows of a sequence, once and in order, ended by one cycle with
    `seq_done`; `sequencer_refines`: these are all that a run consists of.
-/
import Mathlib.Data.List.GetD
import SentinelSoc.Ed.Top

namespace SentinelSoc

open Microcode

/-! ## The ROM -/

namespace Microcode

variable {seqId : BitVec 5} {c : BitVec 6} {k : ℕ}

theorem program_length_le (seqId : BitVec 5) : (program seqId).length ≤ 18 := by
  revert seqId; decide

/-- A load is a sequence of its own, and does not overwrite what it loads. -/
theorem program_of_load {op : MicroOp} (h : op ∈ program seqId)
    (hl : op.aluOp = .loadCompressed) : program seqId = [op] ∧ op.aSel ≠ op.destSel := by
  have key : ∀ seqId : BitVec 5, ∀ op ∈ program seqId, op.aluOp = .loadCompressed →
      program seqId = [op] ∧ op.aSel ≠ op.destSel := by decide
  exact key seqId op h hl

theorem rom_eq (hc : c.toNat = k) (hk : k < (program seqId).length) :
    rom seqId c = (program seqId)[k] := by
  rw [rom, hc, List.getD_eq_getElem _ _ hk]

theorem romIsLastStep_eq (hc : c.toNat = k) :
    romIsLastStep seqId c = decide ((program seqId).length ≤ k + 1) := by
  rw [romIsLastStep, hc]

/-- The ROM drives a load in the sequence of that load only. -/
theorem rom_load (h : (rom seqId c).aluOp = .loadCompressed) : rom seqId c ∈ program seqId := by
  unfold rom at h ⊢
  by_cases hc : c.toNat < (program seqId).length
  · rw [List.getD_eq_getElem _ _ hc]
    exact List.getElem_mem hc
  · rw [List.getD_eq_default _ _ (by omega)] at h
    exact absurd h (by decide)

end Microcode

/-! ## The datapath in one cycle -/

theorem alu_of_ne_mult {a b : Word} {op : AluOp} {hi mp ts : Bool} (m m' : BitVec 512)
    (h : op ≠ .mult) : alu a b m op hi mp ts = alu a b m' op hi mp ts := by
  cases op with
  | mult => exact absurd rfl h
  | _ => simp only [alu]

theorem alu_sign_of_ne {a b : Word} {m : BitVec 512} {op : AluOp} {hi mp : Bool} (ts ts' : Bool)
    (h : op ≠ .condNegate) : alu a b m op hi mp ts = alu a b m op hi mp ts' := by
  cases op with
  | condNegate => exact absurd rfl h
  | _ => simp only [alu]

theorem alu_signBitOut {a b : Word} {m : BitVec 512} {hi mp ts : Bool} :
    (alu a b m .loadCompressed hi mp ts).signBitOut = a.getLsbD 255 := rfl

theorem Mult.Ready.p_eq {a b : Word} {m : Mult} (h : Mult.Ready a b m) : m.p = mulFull a b :=
  BitVec.eq_of_toNat_eq (h.product.trans (mulFull_toNat a b).symm)

/-! ## The master state machine waits -/

namespace MasterFsm

variable {f : MasterFsm} {sv ce : Bool} {rd : Word}

theorem nextState_wait (h : f.state.triggers = true) : f.nextState sv false ce = f.state := by
  cases hs : f.state <;> simp_all [nextState, FsmState.triggers]

theorem shadow_wait (h : f.state.triggers = true) : f.shadow false ce rd = f := by
  cases hs : f.state <;> simp_all [shadow, FsmState.triggers]

theorem step_wait (h : f.state.triggers = true) :
    f.step sv false ce rd = { f with startSeqReg := false } := by
  rw [step, nextState_wait h, shadow_wait h]
  simp

theorem program_ne_nil (h : f.state.triggers = true) : program f.seqId ≠ [] := by
  cases hs : f.state <;> cases hd : f.isDecompPubkey <;>
    simp_all [seqId, FsmState.triggers] <;> decide

/-- The state changes only to one that starts the sequencer, or needs none. -/
theorem step_startSeqReg (h : f.state.triggers = false ∨ f.nextState sv true ce ≠ f.state) {sd : Bool}
    (hd : sd = true ∨ f.state.triggers = false) :
    (f.step sv sd ce rd).startSeqReg = (f.step sv sd ce rd).state.triggers := by
  simp only [step]
  rcases hd with rfl | hd
  · rcases h with h | h
    · by_cases hn : f.nextState sv true ce = f.state
      · simp [hn, h]
      · simp [hn]
    · simp [h]
  · by_cases hn : f.nextState sv sd ce = f.state
    · simp [hn, hd]
    · simp [hn]

theorem nextState_done (h : f.state.triggers = true) : f.nextState sv true ce ≠ f.state := by
  cases hs : f.state <;> simp_all [nextState, FsmState.triggers] <;> split_ifs <;> simp

end MasterFsm

/-! ## Stretches of a run -/

namespace EdTop

section Runs

variable (r : ℕ → EdTop) (i : ℕ → EdIn)

/-- The writes of the `n` cycles from `t` on. -/
def writesFrom (t n : ℕ) : List (BitVec 5 × Word) :=
  (List.range n).filterMap fun k => (r (t + k)).regWrite (i (t + k))

/-- In the `n` cycles from `t` on the master state machine is in `f`, no sequence ends, and the
    register file is written as in `w`. -/
structure Spell (f : MasterFsm) (t n : ℕ) (w : List (BitVec 5 × Word)) : Prop where
  fsm : ∀ k < n, (r (t + k)).fsm = f
  busy : ∀ k < n, (r (t + k)).seq.seqDone = false
  writes : writesFrom r i t n = w

end Runs

variable {r : ℕ → EdTop} {i : ℕ → EdIn} {f : MasterFsm} {t n m k : ℕ}
variable {w w' : List (BitVec 5 × Word)}

theorem writesFrom_add (t n m : ℕ) :
    writesFrom r i t (n + m) = writesFrom r i t n ++ writesFrom r i (t + n) m := by
  simp only [writesFrom, List.range_add, List.filterMap_append, List.filterMap_map,
    Function.comp_def, Nat.add_assoc]

theorem Spell.one (hf : (r t).fsm = f) (hd : (r t).seq.seqDone = false) :
    Spell r i f t 1 ((r t).regWrite (i t)).toList where
  fsm k hk := by obtain rfl : k = 0 := by omega
                 exact hf
  busy k hk := by obtain rfl : k = 0 := by omega
                  exact hd
  writes := by
    rw [writesFrom, List.range_one, List.filterMap_cons, List.filterMap_nil, Nat.add_zero]
    cases (r t).regWrite (i t) <;> rfl

theorem Spell.append (h : Spell r i f t n w) (h' : Spell r i f (t + n) m w') :
    Spell r i f t (n + m) (w ++ w') where
  fsm k hk := by
    rcases Nat.lt_or_ge k n with hkn | hkn
    · exact h.fsm k hkn
    · have := h'.fsm (k - n) (by omega)
      rwa [show t + n + (k - n) = t + k by omega] at this
  busy k hk := by
    rcases Nat.lt_or_ge k n with hkn | hkn
    · exact h.busy k hkn
    · have := h'.busy (k - n) (by omega)
      rwa [show t + n + (k - n) = t + k by omega] at this
  writes := by rw [writesFrom_add, h.writes, h'.writes]

/-! ## One row -/

/-- The sequencer is in row `k`, in the sub-step `sub`, on the registers `regs`. -/
structure InRow (f : MasterFsm) (k : ℕ) (sub : SubStep) (regs : BitVec 5 → Word) (s : EdTop) :
    Prop where
  fsm : s.fsm = f
  subStep : s.seq.subStep = sub
  counter : s.seq.stepCounter.toNat = k
  regWe : s.seq.regWe = (sub == .write)
  seqDone : s.seq.seqDone = false
  regs : s.regs = regs

/-- The sequence has ended in row `k`. -/
structure Ended (f : MasterFsm) (k : ℕ) (regs : BitVec 5 → Word) (s : EdTop) : Prop where
  fsm : s.fsm = f
  subStep : s.seq.subStep = .idle
  counter : s.seq.stepCounter.toNat = k
  regWe : s.seq.regWe = false
  seqDone : s.seq.seqDone = true
  regs : s.regs = regs

namespace InRow

variable {s : EdTop} {x : EdIn} {sub : SubStep} {regs : BitVec 5 → Word}

/-- A state machine that waits in a state which the sequencer serves. -/
def Waits (f : MasterFsm) : Prop := f.state.triggers = true ∧ f.startSeqReg = false

theorem Waits.not_idle (hf : Waits f) : f.state ≠ .idle := by
  rintro h
  have := hf.1
  rw [h] at this
  exact absurd this (by decide)

theorem fsm_step (hf : Waits f) (h : InRow f k sub regs s) : (s.step x).fsm = f := by
  change s.fsm.step _ s.seq.seqDone _ _ = f
  rw [h.fsm, h.seqDone, MasterFsm.step_wait hf.1, ← hf.2]

theorem row_eq (h : InRow f k sub regs s) (hk : k < (program f.seqId).length) :
    s.row = (program f.seqId)[k] := by
  rw [EdTop.row, h.fsm, rom_eq h.counter hk]

/-- Only the last sub-step writes. -/
theorem quiet (hf : Waits f) (h : InRow f k sub regs s) (hs : sub ≠ .write) :
    s.regWrite x = none ∧ (s.step x).regs = regs := by
  have hw : s.finalWe x = false := by
    rw [EdTop.finalWe, h.fsm, if_neg hf.not_idle, h.regWe]
    exact beq_eq_false_iff_ne.2 hs
  simp [EdTop.regWrite, EdTop.step, hw, h.regs]

theorem spell_one {sub' : SubStep} (h : InRow f k sub' regs (r t)) :
    Spell r i f t 1 ((r t).regWrite (i t)).toList := Spell.one h.fsm h.seqDone

/-- The sign register in a cycle of a row: a load sets it, nothing else does. -/
theorem xSign_step (h : InRow f k sub regs s) (hk : k < (program f.seqId).length) :
    (s.step x).xSign =
      (Datapath.exec (Microcode.modPEn f.seqId) ⟨regs, s.xSign⟩ (program f.seqId)[k]).xSign := by
  simp only [EdTop.step, Datapath.exec, EdTop.alu, h.row_eq hk, EdTop.srcA, h.regs]
  by_cases hl : (program f.seqId)[k].aluOp = .loadCompressed
  · rw [if_pos hl, if_pos hl, hl, alu_signBitOut]
  · rw [if_neg hl, if_neg hl]

theorem step_start (hf : Waits f) (h : InRow f k .start regs s)
    (hk : k < (program f.seqId).length) :
    InRow f k (if (program f.seqId)[k].aluOp = .mult then .waitDrop else .exe) regs (s.step x) := by
  have hq : (s.step x).seq =
      { s.seq with
        regWe := false
        subStep := if (program f.seqId)[k].aluOp = .mult then .waitDrop else .exe } := by
    simp only [EdTop.step, MicroSeq.step, h.subStep, h.row_eq hk]
  refine ⟨h.fsm_step hf, by rw [hq], by rw [hq]; exact h.counter, ?_, by rw [hq]; exact h.seqDone,
    (h.quiet hf (by decide)).2⟩
  rw [hq]
  split_ifs <;> rfl

theorem step_waitDrop (hf : Waits f) (h : InRow f k .waitDrop regs s)
    (hk : k < (program f.seqId).length) :
    InRow f k .exe regs (s.step x) ∧
      Mult.After (regs (program f.seqId)[k].aSel) (regs (program f.seqId)[k].bSel) 0
        (s.step x).mult := by
  have hq : (s.step x).seq = { s.seq with regWe := false, subStep := .exe } := by
    simp only [EdTop.step, MicroSeq.step, h.subStep]
  refine ⟨⟨h.fsm_step hf, by rw [hq], by rw [hq]; exact h.counter, by rw [hq]; rfl,
    by rw [hq]; exact h.seqDone, (h.quiet hf (by decide)).2⟩, ?_⟩
  have hm : (s.step x).mult = Mult.load s.srcA s.srcB := by
    have hkick : s.multKick = true := by rw [EdTop.multKick, h.subStep]; rfl
    exact Mult.step_start hkick
  rw [hm, EdTop.srcA, EdTop.srcB, h.row_eq hk, h.regs, Mult.After, if_pos (by omega)]
  exact Mult.calc_load _ _

/-- The sequencer waits for the product. -/
theorem step_exe_wait (hf : Waits f) (h : InRow f k .exe regs s)
    (hk : k < (program f.seqId).length) (hop : (program f.seqId)[k].aluOp = .mult)
    (hm : s.mult.done = false) : InRow f k .exe regs (s.step x) := by
  have hq : (s.step x).seq = { s.seq with regWe := false } := by
    simp only [EdTop.step, MicroSeq.step, h.subStep, h.row_eq hk, hop, hm]
    simp
  exact ⟨h.fsm_step hf, by rw [hq]; exact h.subStep, by rw [hq]; exact h.counter, by rw [hq]; rfl,
    by rw [hq]; exact h.seqDone, (h.quiet hf (by decide)).2⟩

theorem step_exe (hf : Waits f) (h : InRow f k .exe regs s) (hk : k < (program f.seqId).length)
    (hop : (program f.seqId)[k].aluOp ≠ .mult ∨ s.mult.done = true) :
    InRow f k .write regs (s.step x) := by
  have hq : (s.step x).seq = { s.seq with regWe := true, subStep := .write } := by
    simp only [EdTop.step, MicroSeq.step, h.subStep, h.row_eq hk]
    rw [if_pos hop]
  exact ⟨h.fsm_step hf, by rw [hq], by rw [hq]; exact h.counter, by rw [hq]; rfl,
    by rw [hq]; exact h.seqDone, (h.quiet hf (by decide)).2⟩

/-- A cycle that does not start the multiplier. -/
theorem mult_step (h : InRow f k .exe regs s) {a b : Word} {j : ℕ} (hm : Mult.After a b j s.mult) :
    Mult.After a b (j + 1) (s.step x).mult := by
  have hkick : s.multKick = false := by rw [EdTop.multKick, h.subStep]; rfl
  exact Mult.step_after hm hkick

/-- What is on the ALU's output in the last sub-step. -/
theorem aluResult_eq (h : InRow f k .write regs s) (hk : k < (program f.seqId).length)
    (hm : (program f.seqId)[k].aluOp = .mult →
      s.mult.p = mulFull (regs (program f.seqId)[k].aSel) (regs (program f.seqId)[k].bSel))
    {x₀ : Bool} (hx : (program f.seqId)[k].aluOp ≠ .loadCompressed → s.xSign = x₀) :
    s.alu.aluResult = (program f.seqId)[k].value (Microcode.modPEn f.seqId) ⟨regs, x₀⟩ := by
  have hp : s.modPEn = Microcode.modPEn f.seqId := by rw [EdTop.modPEn, h.fsm]
  rw [EdTop.alu, EdTop.srcA, EdTop.srcB, h.row_eq hk, h.regs, hp, MicroOp.value]
  by_cases hop : (program f.seqId)[k].aluOp = .mult
  · rw [hm hop, hop]
    rfl
  · rw [alu_of_ne_mult _ (mulFull (regs (program f.seqId)[k].aSel)
      (regs (program f.seqId)[k].bSel)) hop]
    by_cases hl : (program f.seqId)[k].aluOp = .loadCompressed
    · rw [alu_sign_of_ne _ x₀ (by rw [hl]; decide)]
    · rw [hx hl]

theorem regWrite_eq (hf : Waits f) (h : InRow f k .write regs s)
    (hk : k < (program f.seqId).length) :
    s.regWrite x = some ((program f.seqId)[k].destSel, s.regWriteData x) ∧
      (s.step x).regs = Function.update regs (program f.seqId)[k].destSel (s.regWriteData x) := by
  have hw : s.finalWe x = true := by
    rw [EdTop.finalWe, h.fsm, if_neg hf.not_idle, h.regWe]
    rfl
  have hd : s.finalDestSel x = (program f.seqId)[k].destSel := by
    rw [EdTop.finalDestSel, h.fsm, if_neg hf.not_idle, h.row_eq hk]
  simp [EdTop.regWrite, EdTop.step, hw, hd, h.regs]

theorem step_write (hf : Waits f) (h : InRow f k .write regs s)
    (hk : k + 1 < (program f.seqId).length) : InRow f (k + 1) .start (s.step x).regs (s.step x) := by
  have hlast : romIsLastStep f.seqId s.seq.stepCounter = false := by
    rw [romIsLastStep_eq h.counter]
    exact decide_eq_false (by omega)
  have hq : (s.step x).seq =
      { s.seq with regWe := false, stepCounter := s.seq.stepCounter + 1, subStep := .start } := by
    simp only [EdTop.step, MicroSeq.step, h.subStep, h.fsm, hlast]
    simp
  refine ⟨h.fsm_step hf, by rw [hq], ?_, by rw [hq]; rfl, by rw [hq]; exact h.seqDone, rfl⟩
  have hlen := program_length_le f.seqId
  rw [hq, ← h.counter]
  exact BitVec.toNat_add_of_lt (show s.seq.stepCounter.toNat + 1 < 2 ^ 6 by rw [h.counter]; omega)

theorem step_write_last (hf : Waits f) (h : InRow f k .write regs s)
    (hk : k + 1 = (program f.seqId).length) : Ended f k (s.step x).regs (s.step x) := by
  have hlast : romIsLastStep f.seqId s.seq.stepCounter = true := by
    rw [romIsLastStep_eq h.counter]
    exact decide_eq_true (by omega)
  have hq : (s.step x).seq = { s.seq with regWe := false, seqDone := true, subStep := .idle } := by
    simp only [EdTop.step, MicroSeq.step, h.subStep, h.fsm, hlast]
    simp
  exact ⟨h.fsm_step hf, by rw [hq], by rw [hq]; exact h.counter, by rw [hq], by rw [hq], rfl⟩

end InRow

/-! ## Rows and sequences in a run -/

/-- A run of the core under the inputs `i`. -/
def IsRun (r : ℕ → EdTop) (i : ℕ → EdIn) : Prop := ∀ t, r (t + 1) = (r t).step (i t)

/-- Cycle `u` writes the result of `op` on the registers of that cycle, unless the host selects a
    word of its own. -/
structure WritesRow (r : ℕ → EdTop) (i : ℕ → EdIn) (f : MasterFsm) (op : MicroOp) (u : ℕ) :
    Prop where
  fsm : (r u).fsm = f
  busy : (r u).seq.seqDone = false
  write : (r u).regWrite (i u) = some (op.destSel, (r u).regWriteData (i u))
  result : (r u).alu.aluResult =
    op.value (Microcode.modPEn f.seqId) ⟨(r u).regs, (r u).xSign⟩

/-- The cycles from `t` until `t'` perform the rows `ops`, each once and in order, and write nothing
    else. -/
inductive Performs (r : ℕ → EdTop) (i : ℕ → EdIn) (f : MasterFsm) : ℕ → List MicroOp → ℕ → Prop
  | nil (t : ℕ) : Performs r i f t [] t
  | cons {t n t' : ℕ} {op : MicroOp} {ops : List MicroOp} (quiet : Spell r i f t n [])
      (write : WritesRow r i f op (t + n)) (rest : Performs r i f (t + n + 1) ops t') :
      Performs r i f t (op :: ops) t'

/-- The rows of a sequence are behind each other in one stretch, whose writes go to their
    destinations. -/
theorem Performs.spell {ops : List MicroOp} {t' : ℕ} (h : Performs r i f t ops t') :
    t ≤ t' ∧ ∃ w, Spell r i f t (t' - t) w ∧ w.map Prod.fst = ops.map MicroOp.destSel := by
  induction h with
  | nil t =>
    refine ⟨le_rfl, [], ⟨fun k hk => ?_, fun k hk => ?_, ?_⟩, rfl⟩
    · omega
    · omega
    · rw [Nat.sub_self]
      rfl
  | @cons t n t' op ops quiet write rest ih =>
    obtain ⟨hle, w, hsp, hw⟩ := ih
    have h1 := (quiet.append (Spell.one write.fsm write.busy)).append hsp
    rw [write.write, show n + 1 + (t' - (t + n + 1)) = t' - t by omega] at h1
    refine ⟨by omega, _, h1, ?_⟩
    rw [List.nil_append, Option.toList_some, List.singleton_append, List.map_cons, hw,
      List.map_cons]

section Rows

open InRow

variable {regs : BitVec 5 → Word} {x₀ : Bool}

/-- The row in progress. -/
abbrev rowOp (f : MasterFsm) (k : ℕ) (hk : k < (program f.seqId).length) : MicroOp :=
  (program f.seqId)[k]

/-- The datapath after the row. -/
abbrev rowOut (f : MasterFsm) (regs : BitVec 5 → Word) (x₀ : Bool) (op : MicroOp) : Datapath :=
  Datapath.exec (Microcode.modPEn f.seqId) ⟨regs, x₀⟩ op

/-- Sub-step `sub` of row `k` is reached, without a write, and the sign register is that of the
    row. -/
structure Reached (r : ℕ → EdTop) (i : ℕ → EdIn) (f : MasterFsm) (k : ℕ)
    (hk : k < (program f.seqId).length) (regs : BitVec 5 → Word) (x₀ : Bool) (t n : ℕ)
    (sub : SubStep) : Prop where
  spell : Spell r i f t n []
  inRow : InRow f k sub regs (r (t + n))
  xSign : (r (t + n)).xSign = (rowOut f regs x₀ (rowOp f k hk)).xSign

variable {hk : k < (program f.seqId).length} {sub sub' : SubStep}

/-- One more cycle that is not the last one of the row. -/
theorem Reached.next (hr : IsRun r i) (hf : Waits f) (h : Reached r i f k hk regs x₀ t n sub)
    (hs : sub ≠ .write) (h' : InRow f k sub' regs ((r (t + n)).step (i (t + n)))) :
    Reached r i f k hk regs x₀ t (n + 1) sub' where
  spell := by
    have h1 := h.spell.append (spell_one h.inRow)
    rwa [(h.inRow.quiet hf hs).1] at h1
  inRow := by rw [← Nat.add_assoc, hr]; exact h'
  xSign := by
    rw [← Nat.add_assoc, hr, h.inRow.xSign_step hk, h.xSign]
    simp only [Datapath.exec]
    split_ifs <;> rfl

/-- The first cycle of a row. -/
theorem reached_one (hr : IsRun r i) (hf : Waits f) (h : InRow f k .start regs (r t))
    (hk : k < (program f.seqId).length) :
    Reached r i f k hk regs (r t).xSign t 1
      (if (rowOp f k hk).aluOp = .mult then .waitDrop else .exe) where
  spell := by
    have h1 := spell_one (i := i) h
    rwa [(h.quiet hf (by decide)).1] at h1
  inRow := by rw [hr]; exact h.step_start hf hk
  xSign := by rw [hr, h.xSign_step hk]

/-- The product is waited for: eighteen cycles in `S_EXE`. -/
theorem reached_write_mult (hr : IsRun r i) (hf : Waits f) (h : InRow f k .start regs (r t))
    (hop : (rowOp f k hk).aluOp = .mult) :
    Reached r i f k hk regs (r t).xSign t 20 .write ∧
      (r (t + 20)).mult.p = mulFull (regs (rowOp f k hk).aSel) (regs (rowOp f k hk).bSel) := by
  have h₁ := reached_one hr hf h hk
  rw [if_pos hop] at h₁
  have hexe : ∀ j ≤ 17, Reached r i f k hk regs (r t).xSign t (2 + j) .exe ∧
      Mult.After (regs (rowOp f k hk).aSel) (regs (rowOp f k hk).bSel) j
        (r (t + (2 + j))).mult := by
    intro j
    induction j with
    | zero =>
      intro _
      obtain ⟨hrow, hm⟩ := h₁.inRow.step_waitDrop (x := i (t + 1)) hf hk
      refine ⟨h₁.next hr hf (by decide) hrow, ?_⟩
      rw [show t + (2 + 0) = t + 1 + 1 by omega, hr]
      exact hm
    | succ j ih =>
      intro hj
      obtain ⟨hrow, hm⟩ := ih (by omega)
      have hd : (r (t + (2 + j))).mult.done = false := by
        rw [hm.done_eq]
        exact decide_eq_false (by omega)
      refine ⟨hrow.next hr hf (by decide) (hrow.inRow.step_exe_wait hf hk hop hd), ?_⟩
      rw [show t + (2 + (j + 1)) = t + (2 + j) + 1 by omega, hr]
      exact hrow.inRow.mult_step hm
  obtain ⟨hrow, hm⟩ := hexe 17 le_rfl
  have hd : (r (t + (2 + 17))).mult.done = true := by
    rw [hm.done_eq]
    rfl
  refine ⟨hrow.next hr hf (by decide) (hrow.inRow.step_exe hf hk (.inr hd)), ?_⟩
  have hm' := hrow.inRow.mult_step (x := i (t + (2 + 17))) hm
  rw [← hr] at hm'
  have hready : Mult.Ready (regs (rowOp f k hk).aSel) (regs (rowOp f k hk).bSel)
      (r (t + (2 + 17) + 1)).mult := by
    rwa [Mult.After, if_neg (by omega)] at hm'
  exact hready.p_eq

theorem reached_write (hr : IsRun r i) (hf : Waits f) (h : InRow f k .start regs (r t))
    (hk : k < (program f.seqId).length) :
    ∃ n, Reached r i f k hk regs (r t).xSign t n .write ∧
      ((rowOp f k hk).aluOp = .mult →
        (r (t + n)).mult.p = mulFull (regs (rowOp f k hk).aSel) (regs (rowOp f k hk).bSel)) := by
  by_cases hop : (rowOp f k hk).aluOp = .mult
  · obtain ⟨hrow, hm⟩ := reached_write_mult hr hf h hop
    exact ⟨20, hrow, fun _ => hm⟩
  · have h₁ := reached_one hr hf h hk
    rw [if_neg hop] at h₁
    exact ⟨2, h₁.next hr hf (by decide) (h₁.inRow.step_exe hf hk (.inl hop)),
      fun hc => absurd hc hop⟩

/-- **A row makes one write**, of its operation on the words of its registers. -/
theorem row_run (hr : IsRun r i) (hf : Waits f) (h : InRow f k .start regs (r t))
    (hk : k < (program f.seqId).length) :
    ∃ n, Spell r i f t n [] ∧ WritesRow r i f (rowOp f k hk) (t + n) ∧
      (r (t + n + 1)).xSign = (rowOut f regs (r t).xSign (rowOp f k hk)).xSign ∧
      ((i (t + n)).dataSel = 0 →
        (r (t + n)).regWriteData (i (t + n)) =
            (rowOp f k hk).value (Microcode.modPEn f.seqId) ⟨regs, (r t).xSign⟩ ∧
          (r (t + n + 1)).regs = (rowOut f regs (r t).xSign (rowOp f k hk)).regs) ∧
      (k + 1 < (program f.seqId).length →
        InRow f (k + 1) .start (r (t + n + 1)).regs (r (t + n + 1))) ∧
      (k + 1 = (program f.seqId).length → Ended f k (r (t + n + 1)).regs (r (t + n + 1))) := by
  obtain ⟨n, hw, hm⟩ := reached_write hr hf h hk
  have hx : (rowOp f k hk).aluOp ≠ .loadCompressed → (r (t + n)).xSign = (r t).xSign := by
    intro hl
    rw [hw.xSign]
    exact if_neg hl
  have hv := hw.inRow.aluResult_eq hk hm hx
  obtain ⟨hwr, hregs⟩ := hw.inRow.regWrite_eq (x := i (t + n)) hf hk
  refine ⟨n, hw.spell, ⟨hw.inRow.fsm, hw.inRow.seqDone, hwr, ?_⟩, ?_, ?_, ?_, ?_⟩
  · rw [hw.inRow.regs]
    exact hw.inRow.aluResult_eq hk hm fun _ => rfl
  · rw [hr (t + n), hw.inRow.xSign_step hk, hw.xSign]
    simp only [Datapath.exec]
    split_ifs <;> rfl
  · intro hsel
    have hd : (r (t + n)).regWriteData (i (t + n)) =
        (rowOp f k hk).value (Microcode.modPEn f.seqId) ⟨regs, (r t).xSign⟩ := by
      rw [EdTop.regWriteData, if_pos hsel, hv]
    refine ⟨hd, ?_⟩
    rw [hr (t + n), hregs, hd]
    rfl
  · intro hlt
    rw [hr (t + n)]
    exact hw.inRow.step_write hf hlt
  · intro hl
    rw [hr (t + n)]
    exact hw.inRow.step_write_last hf hl

/-- What the rows leave if the host does not interfere between `t` and `t'`. -/
def Refines (r : ℕ → EdTop) (i : ℕ → EdIn) (modPEn : Bool) (d : Datapath) (ops : List MicroOp)
    (t t' : ℕ) : Prop :=
  (∀ u, t ≤ u → u < t' → (i u).dataSel = 0) →
    writesFrom r i t (t' - t) = Datapath.writes modPEn d ops ∧
      (r t').regs = (Datapath.run modPEn d ops).regs ∧
      (r t').xSign = (Datapath.run modPEn d ops).xSign

/-- The rows from `k` on. -/
theorem rows_run (hr : IsRun r i) (hf : Waits f) (h : InRow f k .start regs (r t))
    (hk : k < (program f.seqId).length) :
    ∃ t', t < t' ∧ Performs r i f t ((program f.seqId).drop k) t' ∧
      Ended f ((program f.seqId).length - 1) (r t').regs (r t') ∧
      Refines r i (Microcode.modPEn f.seqId) ⟨regs, (r t).xSign⟩ ((program f.seqId).drop k) t t' := by
  induction hm : (program f.seqId).length - k generalizing k t regs with
  | zero => omega
  | succ m ih =>
    obtain ⟨n, hq, hw, hx, hsel, hnext, hlast⟩ := row_run hr hf h hk
    have hdrop : (program f.seqId).drop k = rowOp f k hk :: (program f.seqId).drop (k + 1) :=
      List.drop_eq_getElem_cons hk
    have hone : (i (t + n)).dataSel = 0 → writesFrom r i t (n + 1) =
        [((rowOp f k hk).destSel,
          (rowOp f k hk).value (Microcode.modPEn f.seqId) ⟨regs, (r t).xSign⟩)] := by
      intro h0
      have h1 := (hq.append (Spell.one hw.fsm hw.busy)).writes
      rw [h1, hw.write, (hsel h0).1]
      rfl
    rw [hdrop]
    by_cases hend : k + 1 = (program f.seqId).length
    · rw [List.drop_of_length_le (by omega)]
      refine ⟨t + n + 1, by omega, .cons hq hw (.nil _), ?_, ?_⟩
      · have he := hlast hend
        rwa [show (program f.seqId).length - 1 = k by omega]
      · intro h0
        have h0 := h0 (t + n) (by omega) (by omega)
        refine ⟨?_, (hsel h0).2, hx⟩
        rw [show t + n + 1 - t = n + 1 by omega]
        exact hone h0
    · obtain ⟨t', hlt, hperf, hended, href⟩ := ih (hnext (by omega)) (by omega) (by omega)
      refine ⟨t', by omega, .cons hq hw hperf, hended, ?_⟩
      intro h0
      have h0' := h0 (t + n) (by omega) (by omega)
      have hd : (⟨(r (t + n + 1)).regs, (r (t + n + 1)).xSign⟩ : Datapath) =
          rowOut f regs (r t).xSign (rowOp f k hk) := by rw [hx, (hsel h0').2]
      obtain ⟨hws, hregs, hxs⟩ := href fun u hu hu' => h0 u (by omega) hu'
      rw [hd] at hws hregs hxs
      refine ⟨?_, hregs, hxs⟩
      rw [show t' - t = n + 1 + (t' - (t + n + 1)) by omega, writesFrom_add, hone h0',
        show t + (n + 1) = t + n + 1 by omega, hws]
      rfl

end Rows

/-! ## Between two sequences -/

/-- A cycle between two sequences.  The start register is set in the first cycle of a state that
    needs the sequencer, and in no other. -/
structure Boundary (s : EdTop) : Prop where
  subStep : s.seq.subStep = .idle
  regWe : s.seq.regWe = false
  seqDone : s.seq.seqDone = false
  startSeqReg : s.fsm.startSeqReg = s.fsm.state.triggers

theorem boundary_reset (regs : BitVec 5 → Word) : Boundary (reset regs) := ⟨rfl, rfl, rfl, rfl⟩

namespace Boundary

variable {s : EdTop} {x : EdIn}

/-- Only the host writes, and only while the state machine is idle. -/
theorem regWrite_eq_none (h : Boundary s) (hi : s.fsm.state ≠ .idle) : s.regWrite x = none := by
  have hw : s.finalWe x = false := by rw [EdTop.finalWe, if_neg hi, h.regWe]
  rw [EdTop.regWrite, hw]
  rfl

theorem step (h : Boundary s) (ht : s.fsm.state.triggers = false) : Boundary (s.step x) := by
  have hstart : s.fsm.startSeqReg = false := h.startSeqReg.trans ht
  have hq : (s.step x).seq = { s.seq with regWe := false, seqDone := false, subStep := .idle } := by
    simp only [EdTop.step, MicroSeq.step, h.subStep, hstart]
    simp
  refine ⟨by rw [hq], by rw [hq], by rw [hq], ?_⟩
  exact MasterFsm.step_startSeqReg (.inl ht) (.inr ht)

/-- The state machine once it has started a sequence. -/
def waiting (f : MasterFsm) : MasterFsm := { f with startSeqReg := false }

theorem waits (ht : s.fsm.state.triggers = true) : InRow.Waits (waiting s.fsm) := ⟨ht, rfl⟩

theorem step_start (h : Boundary s) (ht : s.fsm.state.triggers = true) :
    InRow (waiting s.fsm) 0 .start s.regs (s.step x) ∧ s.regWrite x = none := by
  have hi : s.fsm.state ≠ .idle := (waits ht).not_idle
  have hw : s.finalWe x = false := by rw [EdTop.finalWe, if_neg hi, h.regWe]
  have hq : (s.step x).seq = ⟨.start, 0, false, false⟩ := by
    simp only [EdTop.step, MicroSeq.step, h.subStep, h.startSeqReg, ht, if_true]
  refine ⟨⟨?_, by rw [hq], by rw [hq]; rfl, by rw [hq]; rfl, by rw [hq], ?_⟩,
    h.regWrite_eq_none hi⟩
  · change s.fsm.step _ s.seq.seqDone _ _ = _
    rw [h.seqDone, MasterFsm.step_wait ht]
    rfl
  · simp [EdTop.step, hw]

end Boundary

namespace Ended

variable {s : EdTop} {x : EdIn} {regs : BitVec 5 → Word}

theorem step (hf : InRow.Waits f) (h : Ended f k regs s) :
    Boundary (s.step x) ∧ s.regWrite x = none := by
  have hi : s.fsm.state ≠ .idle := by rw [h.fsm]; exact hf.not_idle
  have hw : s.finalWe x = false := by rw [EdTop.finalWe, if_neg hi, h.regWe]
  have hq : (s.step x).seq = { s.seq with regWe := false, seqDone := false, subStep := .idle } := by
    simp only [EdTop.step, MicroSeq.step, h.subStep, h.fsm, hf.2]
    simp
  refine ⟨⟨by rw [hq], by rw [hq], by rw [hq], ?_⟩, by rw [EdTop.regWrite, hw]; rfl⟩
  have hd : s.fsm.state.triggers = true := by rw [h.fsm]; exact hf.1
  exact MasterFsm.step_startSeqReg (.inr (MasterFsm.nextState_done hd)) (.inl h.seqDone)

theorem step_regs (hf : InRow.Waits f) (h : Ended f k regs s) : (s.step x).regs = s.regs := by
  have hi : s.fsm.state ≠ .idle := by rw [h.fsm]; exact hf.not_idle
  have hw : s.finalWe x = false := by rw [EdTop.finalWe, if_neg hi, h.regWe]
  simp [EdTop.step, hw]

/-- What the state machine sees is what the last row selects. -/
theorem row_eq (h : Ended f k regs s) (hk : k < (program f.seqId).length) :
    s.row = (program f.seqId)[k] := by
  rw [EdTop.row, h.fsm, rom_eq h.counter hk]

end Ended

/-! ## Activations -/

/-- The sequencer is started in cycle `t` and ends in cycle `t'`. -/
structure Activation (r : ℕ → EdTop) (i : ℕ → EdIn) (t t' : ℕ) : Prop where
  start : (r t).fsm.startSeqReg = true
  lt : t < t'
  /-- The state machine stays where it is, without another start. -/
  fsm : ∀ u, t < u → u ≤ t' → (r u).fsm = { (r t).fsm with startSeqReg := false }
  /-- The rows of the sequence, once and in order; nothing is written before or after them. -/
  rows : Performs r i { (r t).fsm with startSeqReg := false } (t + 1)
    (program (r t).fsm.seqId) t'
  quiet : (r t).regWrite (i t) = none ∧ (r t').regWrite (i t') = none
  /-- `seq_done` is high for one cycle. -/
  seqDone : ∀ u, t ≤ u → u ≤ t' + 1 → ((r u).seq.seqDone = true ↔ u = t')
  /-- `cmp_eq` and port A in this cycle are those of the last row. -/
  ports : ∃ op ∈ (program (r t).fsm.seqId).getLast?,
    (r t').srcA = (r t').regs op.aSel ∧
      ((r t').cmpEq = true ↔ (r t').regs op.aSel = (r t').regs op.bSel)
  /-- Where the host leaves the datapath to the sequencer, the sequence is computed. -/
  refines : (∀ u, t < u → u < t' → (i u).dataSel = 0) →
    writesFrom r i t (t' + 1 - t) =
        Datapath.writes (Microcode.modPEn (r t).fsm.seqId) ⟨(r t).regs, (r t).xSign⟩
          (program (r t).fsm.seqId) ∧
      ∀ u, t' ≤ u → u ≤ t' + 1 →
        (⟨(r u).regs, (r u).xSign⟩ : Datapath) =
          Datapath.run (Microcode.modPEn (r t).fsm.seqId) ⟨(r t).regs, (r t).xSign⟩
            (program (r t).fsm.seqId)

theorem step_xSign (s : EdTop) (x : EdIn) : (s.step x).xSign =
    if s.row.aluOp = .loadCompressed then (s.regs s.row.aSel).getLsbD 255 else s.xSign := by
  simp only [EdTop.step, EdTop.alu, EdTop.srcA]
  by_cases hl : s.row.aluOp = .loadCompressed
  · rw [if_pos hl, if_pos hl, hl, alu_signBitOut]
  · rw [if_neg hl, if_neg hl]

/-- A sequence whose first cycle may already latch the sign of its own load. -/
theorem run_start (s : EdTop) (x : EdIn) (modPEn : Bool) :
    Datapath.writes modPEn ⟨s.regs, (s.step x).xSign⟩ (program s.fsm.seqId) =
        Datapath.writes modPEn ⟨s.regs, s.xSign⟩ (program s.fsm.seqId) ∧
      Datapath.run modPEn ⟨s.regs, (s.step x).xSign⟩ (program s.fsm.seqId) =
        Datapath.run modPEn ⟨s.regs, s.xSign⟩ (program s.fsm.seqId) := by
  rw [step_xSign]
  by_cases hl : s.row.aluOp = .loadCompressed
  · obtain ⟨hp, -⟩ := program_of_load (rom_load hl) hl
    have hv : ∀ y : Bool, s.row.value modPEn ⟨s.regs, y⟩ =
        s.row.value modPEn ⟨s.regs, s.xSign⟩ := by
      intro y
      simp only [MicroOp.value, hl]
      rw [alu_sign_of_ne y s.xSign (by decide)]
    rw [if_pos hl, hp]
    refine ⟨?_, ?_⟩
    · change [(_, s.row.value _ _)] = [(_, s.row.value _ _)]
      rw [hv]
    · change Datapath.exec modPEn _ s.row = Datapath.exec modPEn _ s.row
      simp only [Datapath.exec]
      rw [hv, if_pos hl, if_pos hl]
  · rw [if_neg hl]
    exact ⟨rfl, rfl⟩

/-- The last cycle of a sequence latches the sign of its own load again. -/
theorem run_last (modPEn : Bool) (d : Datapath) {seqId : BitVec 5} {op : MicroOp}
    (h : op ∈ program seqId) (hl : op.aluOp = .loadCompressed) :
    ((Datapath.run modPEn d (program seqId)).regs op.aSel).getLsbD 255 =
      (Datapath.run modPEn d (program seqId)).xSign := by
  obtain ⟨hp, hne⟩ := program_of_load h hl
  rw [hp, Datapath.run_cons, Datapath.run_nil, Datapath.exec_regs_of_ne hne]
  exact (if_pos hl).symm

/-- The cycle that ends a sequence keeps what it has computed. -/
theorem Ended.datapath_step {s : EdTop} {x : EdIn} {regs : BitVec 5 → Word} {d : Datapath}
    {modPEn : Bool} (hf : InRow.Waits f) (h : Ended f k regs s) (hrow : s.row ∈ program f.seqId)
    (hd : (⟨s.regs, s.xSign⟩ : Datapath) = Datapath.run modPEn d (program f.seqId)) :
    (⟨(s.step x).regs, (s.step x).xSign⟩ : Datapath) =
      Datapath.run modPEn d (program f.seqId) := by
  rw [← hd, h.step_regs hf, step_xSign]
  by_cases hl : s.row.aluOp = .loadCompressed
  · have hlast := run_last modPEn d hrow hl
    rw [← hd] at hlast
    rw [if_pos hl, hlast]
  · rw [if_neg hl]

section Runs

variable {t' u : ℕ}

/-- `seq_done` before, during and after the rows of a sequence. -/
theorem Spell.seqDone_iff (hsp : Spell r i f (t + 1) (t' - (t + 1)) w) (hlt : t < t')
    (ht : (r t).seq.seqDone = false) (hend : (r t').seq.seqDone = true)
    (hnext : (r (t' + 1)).seq.seqDone = false) (hu : t ≤ u) (hu' : u ≤ t' + 1) :
    (r u).seq.seqDone = true ↔ u = t' := by
  have hne : (r u).seq.seqDone = false → u ≠ t' → ((r u).seq.seqDone = true ↔ u = t') := by
    intro hd hne
    rw [hd]
    exact iff_of_false (by simp) hne
  rcases Nat.lt_or_eq_of_le hu with hlt' | rfl
  · rcases Nat.lt_trichotomy u t' with hlt'' | rfl | hgt
    · have hb := hsp.busy (u - (t + 1)) (by omega)
      rw [show t + 1 + (u - (t + 1)) = u by omega] at hb
      exact hne hb hlt''.ne
    · exact iff_of_true hend rfl
    · obtain rfl : u = t' + 1 := by omega
      exact hne hnext hgt.ne'
  · exact hne ht hlt.ne

/-- Quiet cycles at both ends add nothing to what is written. -/
theorem writesFrom_quiet (hlt : t < t') (hq : (r t).regWrite (i t) = none)
    (hq' : (r t').regWrite (i t') = none) :
    writesFrom r i t (t' + 1 - t) = writesFrom r i (t + 1) (t' - (t + 1)) := by
  have hone : ∀ u, (r u).regWrite (i u) = none → writesFrom r i u 1 = [] := by
    intro u hu
    rw [writesFrom, List.range_one, List.filterMap_cons, Nat.add_zero, hu]
    rfl
  rw [show t' + 1 - t = 1 + (t' - (t + 1)) + 1 by omega, writesFrom_add, writesFrom_add,
    show t + (1 + (t' - (t + 1))) = t' by omega, hone t hq, hone t' hq', List.nil_append,
    List.append_nil]

end Runs

/-- **A start runs the whole sequence.** -/
theorem exists_activation (hr : IsRun r i) (h : Boundary (r t))
    (ht : (r t).fsm.state.triggers = true) :
    ∃ t', Activation r i t t' ∧ Boundary (r (t' + 1)) := by
  have hne : program (r t).fsm.seqId ≠ [] := MasterFsm.program_ne_nil ht
  have hlen : 0 < (program (r t).fsm.seqId).length := List.length_pos_of_ne_nil hne
  have hf := Boundary.waits ht
  obtain ⟨hrow, hquiet⟩ := h.step_start (x := i t) ht
  rw [← hr] at hrow
  obtain ⟨t', hlt, hperf, hend, href⟩ := rows_run hr hf hrow hlen
  rw [List.drop_zero] at hperf href
  obtain ⟨hle, w, hsp, -⟩ := hperf.spell
  obtain ⟨hbound, hquiet'⟩ := hend.step (x := i t') hf
  rw [← hr t'] at hbound
  have hrowend : (r t').row = (program (r t).fsm.seqId)[(program (r t).fsm.seqId).length - 1] :=
    hend.row_eq (Nat.sub_lt hlen Nat.one_pos)
  have hmem : (r t').row ∈ program (r t).fsm.seqId := by
    rw [hrowend]
    exact List.getElem_mem _
  refine ⟨t', ⟨h.startSeqReg.trans ht, by omega, ?_, hperf, ⟨hquiet, hquiet'⟩, ?_, ?_, ?_⟩, hbound⟩
  · intro u hu hu'
    rcases Nat.lt_or_eq_of_le hu' with hlt' | rfl
    · have hk := hsp.fsm (u - (t + 1)) (by omega)
      rwa [show t + 1 + (u - (t + 1)) = u by omega] at hk
    · exact hend.fsm
  · intro u hu hu'
    exact hsp.seqDone_iff (by omega) h.seqDone hend.seqDone hbound.seqDone hu hu'
  · refine ⟨(r t').row, ?_, rfl, ?_⟩
    · rw [hrowend, List.getLast?_eq_getElem?]
      exact List.getElem?_eq_getElem _
    · rw [EdTop.cmpEq, EdTop.alu, alu_cmpEq, decide_eq_true_eq]
      rfl
  · intro h0
    obtain ⟨hws, hregs, hx⟩ := href fun u hu hu' => h0 u (by omega) hu'
    rw [hr t] at hws hregs hx
    obtain ⟨hws', hrun⟩ := run_start (r t) (i t) (Microcode.modPEn (r t).fsm.seqId)
    have hd : (⟨(r t').regs, (r t').xSign⟩ : Datapath) =
        Datapath.run (Microcode.modPEn (r t).fsm.seqId) ⟨(r t).regs, (r t).xSign⟩
          (program (r t).fsm.seqId) := by
      rw [hregs, hx]
      exact hrun
    refine ⟨?_, fun u hu hu' => ?_⟩
    · rw [writesFrom_quiet (by omega) hquiet hquiet', hws]
      exact hws'
    · rcases Nat.lt_or_eq_of_le hu with hlt' | rfl
      · obtain rfl : u = t' + 1 := by omega
        have hkept := hend.datapath_step (x := i t') hf hmem hd
        rw [hr t']
        exact hkept
      · exact hd

/-- Every cycle is between two sequences or in one. -/
theorem boundary_or_activation (hr : IsRun r i) (h0 : Boundary (r 0)) (u : ℕ) :
    Boundary (r u) ∨
      ∃ t t', Activation r i t t' ∧ Boundary (r (t' + 1)) ∧ t < u ∧ u ≤ t' := by
  induction u with
  | zero => exact .inl h0
  | succ u ih =>
    rcases ih with h | ⟨t, t', ha, hb, hu, hu'⟩
    · rcases ht : (r u).fsm.state.triggers with _ | _
      · left
        rw [hr]
        exact h.step ht
      · right
        obtain ⟨t', ha, hb⟩ := exists_activation hr h ht
        have := ha.lt
        exact ⟨u, t', ha, hb, by omega, by omega⟩
    · rcases Nat.lt_or_eq_of_le hu' with hlt | rfl
      · exact .inr ⟨t, t', ha, hb, by omega, by omega⟩
      · exact .inl hb

/-- Inside an activation nothing is started. -/
theorem Activation.startSeqReg_eq {t t' u : ℕ} (h : Activation r i t t') (hu : t < u)
    (hu' : u ≤ t') : (r u).fsm.startSeqReg = false := by
  rw [h.fsm u hu hu']

theorem boundary_of_start (hr : IsRun r i) (h0 : Boundary (r 0)) {u : ℕ}
    (hs : (r u).fsm.startSeqReg = true) : Boundary (r u) := by
  rcases boundary_or_activation hr h0 u with h | ⟨t, t', ha, -, hu, hu'⟩
  · exact h
  · rw [ha.startSeqReg_eq hu hu'] at hs
    exact absurd hs (by simp)

/-- **The sequencer refines the microcode**, in every run from reset and under every input.  Each
    start is followed by an activation, which performs the rows of the requested sequence and ends
    before the next start; a state that needs the sequencer is served by one; and what is written
    while the state machine is not idle, and every `seq_done`, belongs to one. -/
theorem sequencer_refines (regs : BitVec 5 → Word) (is : ℕ → EdIn) :
    let r := Sync.run EdTop.step (reset regs) is
    (∀ t, (r t).fsm.startSeqReg = true → ∃ t', Activation r is t t') ∧
      (∀ u, (r u).fsm.state.triggers = true →
        ∃ t t', Activation r is t t' ∧ t ≤ u ∧ u ≤ t') ∧
      ∀ u, (r u).seq.seqDone = true ∨
          ((r u).fsm.state ≠ .idle ∧ (r u).regWrite (is u) ≠ none) →
        ∃ t t', Activation r is t t' ∧ t < u ∧ u ≤ t' := by
  intro r
  have hr : IsRun r is := fun t => rfl
  have h0 : Boundary (r 0) := boundary_reset regs
  have hstart : ∀ t, (r t).fsm.startSeqReg = true → ∃ t', Activation r is t t' := by
    intro t ht
    have hb := boundary_of_start hr h0 ht
    obtain ⟨t', ha, -⟩ := exists_activation hr hb (hb.startSeqReg.symm.trans ht)
    exact ⟨t', ha⟩
  refine ⟨hstart, ?_, ?_⟩
  · intro u hu
    rcases boundary_or_activation hr h0 u with h | ⟨t, t', ha, -, htu, hut'⟩
    · obtain ⟨t', ha⟩ := hstart u (h.startSeqReg.trans hu)
      exact ⟨u, t', ha, le_rfl, ha.lt.le⟩
    · exact ⟨t, t', ha, htu.le, hut'⟩
  · intro u hu
    rcases boundary_or_activation hr h0 u with h | ⟨t, t', ha, -, htu, hut'⟩
    · rcases hu with hd | ⟨hi, hw⟩
      · rw [h.seqDone] at hd
        exact absurd hd (by simp)
      · exact absurd (h.regWrite_eq_none hi) hw
    · exact ⟨t, t', ha, htu, hut'⟩

end EdTop

end SentinelSoc
