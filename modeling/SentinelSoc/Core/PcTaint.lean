/-
  The tag of the PC along the control flow.

  * `Path`: the reference. It goes from one instruction to the next, and to the target
    of every redirection, and says which address and which tag the next instruction has;
  * `FetchCore`: the core with the address at the head of the prefetch FIFO, whatever
    words the FIFO holds and whenever it has one;
  * `pcTag_tracks`: every instruction that enters ID has the address and the tag of the
    reference.
-/
import SentinelSoc.Core.Retire

namespace SentinelSoc

/-! ## The reference -/

/-- Why fetching goes on elsewhere. -/
inductive Redirect
  | boot
  /-- an exception, an interrupt or a debug request -/
  | trap
  /-- `mret` or `dret` -/
  | ret
  /-- `jalr`, with the tag of `rs1` -/
  | jalr (rs1Tag : Bool)
  /-- a taken branch, `jal`, or the refetch of `fence.i` -/
  | direct

/-- The tag of the target; `own` is the tag of the instruction that redirects. -/
def Redirect.tag (own : Bool) : Redirect → Bool
  | .boot | .trap | .ret => false
  | .jalr rs1Tag => rs1Tag || own
  | .direct => own

/-- What happens to the control flow in a cycle; addresses and lengths count half words. -/
inductive PathEvent
  | none
  | enters (length : BitVec 31)
  | redirect (r : Redirect) (target : BitVec 31)

structure Path where
  /-- The tag of the instruction that entered last. -/
  own : Bool
  nextAddr : BitVec 31
  nextTag : Bool

/-- After an instruction comes its successor, with its tag. -/
def Path.step (p : Path) : PathEvent → Path
  | .none => p
  | .enters length => ⟨p.nextTag, p.nextAddr + length, p.nextTag⟩
  | .redirect r target => ⟨p.own, target, r.tag p.own⟩

/-! ## The address of fetching -/

/-- The inputs of one cycle. -/
structure FetchIn extends PipeIn where
  /-- `addr_incr_two`: the word at the head is compressed. -/
  ifCompressed : Bool
  /-- The word at the head expands to more instructions after this one. -/
  ifExpanded : Bool
  bootAddr : BitVec 32
  branchTargetEx : BitVec 32
  excPc : BitVec 32
  csrMepc : BitVec 32
  csrDepc : BitVec 32

structure FetchCore where
  core : Core
  /-- `instr_addr_q[31:1]` of the prefetch FIFO -/
  instrAddrQ : BitVec 31
  pcId : BitVec 32

namespace FetchCore

variable (wbs : Bool) (s : FetchCore) (x : FetchIn)

/-- `fetch_addr_mux` -/
def fetchAddrN : BitVec 32 :=
  match s.core.ctl.pcMux (s.core.ctlIn wbs x.toPipeIn) with
  | .boot => x.bootAddr.extractLsb' 8 24 ++ (0x80 : BitVec 8)
  | .jump => x.branchTargetEx
  | .exc => x.excPc
  | .eret => x.csrMepc
  | .dret => x.csrDepc

/-- `pc_if_o` -/
def pcIf : BitVec 32 := s.instrAddrQ ++ (0 : BitVec 1)

def pcSet : Bool := s.core.pcSet wbs x.toPipeIn

/-- An instruction enters ID. -/
def enters : Bool := s.core.instrNewIdD wbs x.toPipeIn

/-- The FIFO drives a word, and it is taken. -/
def pops : Bool :=
  x.ifInstrValid && (s.core.ctl.idInReady (s.core.ctlIn wbs x.toPipeIn) && !x.ifExpanded)

/-- `{~addr_incr_two, addr_incr_two}` -/
def length : BitVec 31 := if x.ifCompressed then 1 else 2

/-- A redirection clears the FIFO. -/
def step : FetchCore where
  core := s.core.step wbs x.toPipeIn
  instrAddrQ :=
    if s.pcSet wbs x then (s.fetchAddrN wbs x).extractLsb' 1 31
    else if s.pops wbs x then s.instrAddrQ + length x
    else s.instrAddrQ
  pcId := if s.enters wbs x then s.pcIf else s.pcId

def reset : FetchCore := { s with core := s.core.reset }

def run (i : ℕ → FetchIn) : ℕ → FetchCore := Sync.run (step wbs) s.reset i

/-! ## The events of a run -/

/-- The tag of `rs1` at a jump: that of the register once writeback has written. -/
def rs1Tag : Bool :=
  if wbs then s.core.drainedTag (Instr.rs1 s.core.instrRdataId)
  else s.core.tagOf (Instr.rs1 s.core.instrRdataId)

def cause : Redirect :=
  match s.core.ctl.pcMux (s.core.ctlIn wbs x.toPipeIn) with
  | .boot => .boot
  | .exc => .trap
  | .eret | .dret => .ret
  | .jump => if Instr.opcode s.core.instrRdataId = .jalr then .jalr (s.rs1Tag wbs) else .direct

/-- An instruction that expands further is followed by one at the same address. -/
def event : PathEvent :=
  if s.pcSet wbs x then .redirect (s.cause wbs x) ((s.fetchAddrN wbs x).extractLsb' 1 31)
  else if s.enters wbs x then .enters (if x.ifExpanded then 0 else length x)
  else .none

/-- The reference along a run: nothing has entered, and nothing is tainted. -/
def path (i : ℕ → FetchIn) : ℕ → Path
  | 0 => ⟨false, s.instrAddrQ, false⟩
  | t + 1 => (path i t).step ((s.run wbs i t).event wbs (i t))

variable {wbs : Bool} {s : FetchCore} {x : FetchIn} {i : ℕ → FetchIn} {t : ℕ}

theorem run_succ (t : ℕ) : s.run wbs i (t + 1) = (s.run wbs i t).step wbs (i t) := rfl

/-! ## Redirections -/

theorem branch_of_branchSetRawD {c : Core} {y : PipeIn}
    (h : (c.idFsm wbs y).branchSetRawD = true) : c.dec.branchInDec = true := by
  unfold Core.idFsm at h
  split_ifs at h
  all_goals simp_all

theorem jump_of_jumpSet {c : Core} {y : PipeIn} (h : c.jumpSet wbs y = true) :
    c.dec.jumpInDec = true := by
  simp only [Core.jumpSet, Bool.and_eq_true] at h
  have hj := h.1
  unfold Core.idFsm at hj
  split_ifs at hj
  all_goals simp_all

theorem opcode_of_branchInDec {c : Core} (h : c.dec.branchInDec = true) :
    Instr.opcode c.instrRdataId = .branch := by
  simp only [Core.dec, decode, Bool.and_eq_true, beq_iff_eq] at h
  exact h.1

/-- The invariant of the core: with a writeback stage there is no taint, and a branch that
    redirects in its second cycle is still in ID. -/
structure Tracked (wbs : Bool) (c : Core) : Prop where
  clean : wbs = true → c.Untainted
  branch : c.branchSetRawQ = true → c.instrValidIdQ = true ∧ c.dec.branchInDec = true

namespace Tracked

variable {c : Core} {y : PipeIn}

theorem reset (c : Core) : Tracked wbs c.reset :=
  ⟨fun _ => Core.untainted_reset c, fun h => absurd h Bool.false_ne_true⟩

theorem step (h : Tracked wbs c) : Tracked wbs (c.step wbs y) := by
  refine ⟨fun hw => ?_, fun hb => ?_⟩
  · subst hw
    exact (h.clean rfl).step
  · obtain ⟨hs, hst⟩ := @Core.stall_of_branchSetRawD wbs c y hb
    obtain ⟨hv, -, hc, -⟩ := Core.instrExecutingSpec_iff.1 hs
    have hn : c.instrNewIdD wbs y = false := by
      simp [Core.instrNewIdD, Controller.idInReady, Controller.stall, Core.ctlIn, hst]
    refine ⟨by simp [Core.step, hv, Core.instrValidClear_of_stall hc hst], ?_⟩
    have hd := @branch_of_branchSetRawD wbs c y hb
    simp only [Core.dec, decode] at hd ⊢
    simpa [Core.step, hn] using hd

/-- Forwarding gives the tag that the register is about to have. -/
theorem fwTag (h : Tracked wbs c) (a : BitVec 5) :
    c.fwTag wbs a = if wbs then c.drainedTag a else c.tagOf a := by
  cases wbs with
  | false => simp [Core.fwTag, Core.rdWbMatch]
  | true =>
    have hu := h.clean rfl
    rw [hu.fwTag a, if_pos rfl]
    unfold Core.drainedTag
    split_ifs with hw
    · exact (hu.wbTag hw.1).symm
    · simp [Core.tagOf, hu.tagRf a]

/-- What redirects as a jump is a valid jump or branch in ID. -/
theorem jump_in_id (h : Tracked wbs c) (hp : c.pcSet wbs y = true)
    (hm : c.ctl.pcMux (c.ctlIn wbs y) = .jump) :
    c.instrValidIdQ = true ∧ (c.dec.jumpInDec = true ∨ c.dec.branchInDec = true) := by
  have hc : c.ctl.ctrlFsmCs = .decode := by
    unfold Controller.pcMux at hm
    cases hcs : c.ctl.ctrlFsmCs <;> simp [hcs] at hm ⊢
    split_ifs at hm
  simp only [Core.pcSet, Controller.pcSet, hc, Bool.or_eq_true] at hp
  rcases hp with hb | hj
  · have hb' : c.branchSet = true := hb
    simp only [Core.branchSet, Bool.and_eq_true] at hb'
    exact ⟨(h.branch hb'.1).1, .inr (h.branch hb'.1).2⟩
  · exact ⟨(Core.instrExecutingSpec_iff.1 (Core.spec_of_jumpSet (x := y) hj)).1,
      .inl (jump_of_jumpSet (y := y) hj)⟩

end Tracked

/-- The tag with which fetching goes on is the tag of the cause. -/
theorem pcIfTag_redirect (h : Tracked wbs s.core) (hp : s.pcSet wbs x = true) {own : Bool}
    (hown : s.core.instrValidIdQ = true → s.core.pcIdTag = own) :
    (s.core.step wbs x.toPipeIn).pcIfTagQ = (s.cause wbs x).tag own := by
  have hq : (s.core.step wbs x.toPipeIn).pcIfTagQ =
      (s.core.ctl.pcMux (s.core.ctlIn wbs x.toPipeIn) == .jump && s.core.jumpTargetTag wbs) :=
    if_pos hp
  rw [hq, cause]
  cases hm : s.core.ctl.pcMux (s.core.ctlIn wbs x.toPipeIn) with
  | jump =>
    obtain ⟨hv, hj⟩ := h.jump_in_id hp hm
    rw [← hown hv]
    by_cases ho : Instr.opcode s.core.instrRdataId = .jalr
    · have hjump : s.core.dec.jumpInDec = true := by
        rcases hj with hj | hb
        · exact hj
        · rw [opcode_of_branchInDec hb] at ho
          cases ho
      simp [Core.jumpTargetTag, Core.operandAFwIdTag, ho, hjump, h.fwTag, rs1Tag, Redirect.tag]
    · have hor : (s.core.dec.jumpInDec || s.core.dec.branchInDec) = true := by
        simpa [Bool.or_eq_true] using hj
      simp [Core.jumpTargetTag, ho, hor, Redirect.tag]
  | boot => rfl
  | exc => rfl
  | eret => rfl
  | dret => rfl

/-! ## The run beside the reference -/

/-- The core and the reference agree. -/
structure Follows (wbs : Bool) (s : FetchCore) (p : Path) : Prop where
  tracked : Tracked wbs s.core
  addr : s.instrAddrQ = p.nextAddr
  tag : s.core.pcIfTagQ = p.nextTag
  own : s.core.instrValidIdQ = true → s.core.pcIdTag = p.own

theorem Follows.step {p : Path} (h : Follows wbs s p) :
    Follows wbs (s.step wbs x) (p.step (s.event wbs x)) := by
  have hid : s.enters wbs x = false →
      (s.core.step wbs x.toPipeIn).pcIdTag = s.core.pcIdTag ∧
        ((s.core.step wbs x.toPipeIn).instrValidIdQ = true → s.core.instrValidIdQ = true) := by
    intro he
    have he' : s.core.instrNewIdD wbs x.toPipeIn = false := he
    refine ⟨by simp [Core.step, he'], fun hv => ?_⟩
    simp only [Core.step, he', Bool.false_or, Bool.and_eq_true] at hv
    exact hv.1
  cases hp : s.pcSet wbs x with
  | true =>
    have hp' : s.core.pcSet wbs x.toPipeIn = true := hp
    have he : s.enters wbs x = false := by simp [enters, Core.instrNewIdD, hp']
    simp only [event, hp, if_true, Path.step]
    refine ⟨h.tracked.step, by simp [FetchCore.step, hp], pcIfTag_redirect h.tracked hp h.own,
      fun hv => ?_⟩
    rw [← h.own ((hid he).2 hv)]
    exact (hid he).1
  | false =>
    have hp' : s.core.pcSet wbs x.toPipeIn = false := hp
    have htag : (s.core.step wbs x.toPipeIn).pcIfTagQ = p.nextTag := by
      rw [← h.tag]
      simp [Core.step, hp']
    -- a word that is popped enters ID
    have hpop : s.pops wbs x = (s.enters wbs x && !x.ifExpanded) := by
      simp [pops, enters, Core.instrNewIdD, hp', Bool.and_assoc]
    cases he : s.enters wbs x with
    | true =>
      have he' : s.core.instrNewIdD wbs x.toPipeIn = true := he
      simp only [event, hp, he, Bool.false_eq_true, if_false, if_true, Path.step]
      refine ⟨h.tracked.step, ?_, htag, fun _ => ?_⟩
      · cases hx : x.ifExpanded <;> simp [FetchCore.step, hp, hpop, he, hx, h.addr]
      · rw [← h.tag]
        simp [FetchCore.step, Core.step, he']
    | false =>
      simp only [event, hp, he, Bool.false_eq_true, if_false, Path.step]
      refine ⟨h.tracked.step, ?_, htag, fun hv => ?_⟩
      · simp [FetchCore.step, hp, hpop, he, h.addr]
      · rw [← h.own ((hid he).2 hv)]
        exact (hid he).1

theorem follows_run (wbs : Bool) (s : FetchCore) (i : ℕ → FetchIn) (t : ℕ) :
    Follows wbs (s.run wbs i t) (s.path wbs i t) := by
  induction t with
  | zero => exact ⟨Tracked.reset s.core, rfl, rfl, fun h => absurd h Bool.false_ne_true⟩
  | succ t ih => exact ih.step

/-- **The PC tag tracks the control flow.** An instruction that enters ID does so with the address
    and the tag of the reference, and as long as it is there the tag is its own. -/
theorem pcTag_tracks (wbs : Bool) (s : FetchCore) (i : ℕ → FetchIn) (t : ℕ) :
    ((s.run wbs i t).enters wbs (i t) = true →
      (s.run wbs i (t + 1)).pcId = (s.path wbs i t).nextAddr ++ (0 : BitVec 1) ∧
        (s.run wbs i (t + 1)).core.pcIdTag = (s.path wbs i t).nextTag) ∧
    ((s.run wbs i t).core.instrValidIdQ = true →
      (s.run wbs i t).core.pcIdTag = (s.path wbs i t).own) := by
  have hf := follows_run wbs s i t
  refine ⟨fun he => ?_, hf.own⟩
  have he' : (s.run wbs i t).core.instrNewIdD wbs (i t).toPipeIn = true := he
  rw [run_succ, ← hf.addr, ← hf.tag]
  simp [FetchCore.step, he, pcIf, Core.step, he']

/-- A tainted word is loaded into `x5`, and `jalr x0, 0(x5)` jumps there. -/
def taintedJump (t : ℕ) : FetchIn :=
  let cycle : PipeIn := match t with
    | 3 => .fetch 0x7c309073
    | 4 => { PipeIn.quiet with csrWdata := 0x8020 }
    | 6 => .fetch 0x00012283
    | 8 => { PipeIn.fetch 0x00028067 with dataRvalid := true, dataRdataTag := true }
    | 11 => .fetch 0x00000013
    | _ => .quiet
  { cycle with
    ifCompressed := false, ifExpanded := false, bootAddr := 0x00010000, branchTargetEx := 0x00020010
    excPc := 0, csrMepc := 0, csrDepc := 0 }

def blank : FetchCore := ⟨Core.blank, 0, 0⟩

/-- The instruction at the target of the jump enters ID with the tag of `x5`. -/
theorem pcTag_tracks_taintedJump : (blank.run false taintedJump 12).pcId = 0x00020010 ∧
    (blank.run false taintedJump 12).core.pcIdTag = true := by
  have h := (pcTag_tracks false blank taintedJump 11).1 (by decide +kernel)
  exact ⟨h.1.trans (by decide +kernel), h.2.trans (by decide +kernel)⟩

end FetchCore

end SentinelSoc
