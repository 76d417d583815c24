/-
  The execute stage over runs, one instruction after the other.

  * `Held`: an instruction stays with its operands while the stage works on it;
  * `Rv32.result`: what the instruction set says of an instruction;
  * `result_correct`: every valid result is this one, whatever came before;
  * `left`, `finishes`: when a multiplication or a division is done.
-/
import SentinelSoc.Exec.Div
import SentinelSoc.Exec.Mult
import SentinelSoc.Lib.Sync

namespace SentinelSoc

/-! ## The instruction set -/

namespace Rv32

open Instr

/-- The register-register and register-immediate instructions; `alt` is bit 30 of the word. -/
def base (funct3 : BitVec 3) (alt : Bool) (a b : BitVec 32) : BitVec 32 :=
  match funct3.toNat with
  | 0 => if alt then a - b else a + b
  | 1 => a <<< (b.toNat % 32)
  | 2 => if a.toInt < b.toInt then 1 else 0
  | 3 => if a.toNat < b.toNat then 1 else 0
  | 4 => a ^^^ b
  | 5 => if alt then a.sshiftRight (b.toNat % 32) else a >>> (b.toNat % 32)
  | 6 => a ||| b
  | _ => a &&& b

/-- Multiplication and division. -/
def mulDiv (funct3 : BitVec 3) (a b : BitVec 32) : BitVec 32 :=
  match funct3.toNat with
  | 0 => a * b
  | 1 => BitVec.ofInt 32 (a.toInt * b.toInt / 2 ^ 32)
  | 2 => BitVec.ofInt 32 (a.toInt * b.toNat / 2 ^ 32)
  | 3 => BitVec.ofInt 32 (a.toNat * b.toNat / 2 ^ 32)
  | 4 => if b = 0 then BitVec.allOnes 32 else a.sdiv b
  | 5 => if b = 0 then BitVec.allOnes 32 else a / b
  | 6 => if b = 0 then a else a.srem b
  | _ => if b = 0 then a else a % b

/-- The result of an instruction; only the shifts of the register-immediate instructions look at
    bit 30. An access and a jump add their operands to an address, and so does what writes an
    upper immediate or a return address. -/
def result (w a b : BitVec 32) : Option (BitVec 32) :=
  if Decoder.illegal w then none
  else match opcode w with
    | .op => if funct7 w = 1 then some (mulDiv (funct3 w) a b)
      else some (base (funct3 w) (w.getLsbD 30) a b)
    | .opImm => some (base (funct3 w) (funct3 w == 5 && w.getLsbD 30) a b)
    | .load | .store | .lui | .auipc | .jal | .jalr => some (a + b)
    | .branch | .miscMem | .system | .other => none

theorem legal_of_result {w a b r : BitVec 32} (h : result w a b = some r) :
    Decoder.illegal w = false := by
  rw [← Bool.not_eq_true]
  intro hl
  rw [result, if_pos hl] at h
  exact absurd h (by simp)

/-- What a branch decides. -/
def taken (w a b : BitVec 32) : Option Bool :=
  if Decoder.illegal w ∨ opcode w ≠ .branch then none
  else match (funct3 w).toNat with
    | 0 => some (a == b)
    | 1 => some (a != b)
    | 4 => some (decide (a.toInt < b.toInt))
    | 5 => some (decide (b.toInt ≤ a.toInt))
    | 6 => some (decide (a.toNat < b.toNat))
    | _ => some (decide (b.toNat ≤ a.toNat))

end Rv32

namespace ExIn

/-- The same instruction with the same operands. -/
structure Same (x y : ExIn) : Prop where
  instr : y.instr = x.instr
  operandA : y.operandA = x.operandA
  operandB : y.operandB = x.operandB

variable {x y : ExIn}

theorem multdivSel_eq : x.multdivSel =
    (Instr.opcode x.instr == .op && Instr.funct7 x.instr == 1) := rfl

theorem multEn_sel (h : x.multEn = true) : x.multdivSel = true ∧ x.divSel = false := by
  simp only [multEn, dec, decode, Bool.and_eq_true, Bool.not_eq_true'] at h
  refine ⟨h.2.1.1, ?_⟩
  rw [divSel, h.2.1.2, Bool.and_false]

theorem divEn_sel (h : x.divEn = true) : x.multdivSel = true ∧ x.divSel = true := by
  simp only [divEn, dec, decode, Bool.and_eq_true] at h
  refine ⟨h.2.1.1, ?_⟩
  simp only [divSel, Bool.and_eq_true]
  exact ⟨h.2.1.1, h.2.1.2⟩

end ExIn

namespace ExBlock

variable {s : ExBlock} {x y : ExIn} {i : ℕ → ExIn} {t : ℕ}

/-! ## One cycle -/

/-- An operation is under way. -/
def busy (s : ExBlock) : Bool := s.multStateQ != .albl || s.mdStateQ != .idle

/-- What holds in every cycle. -/
structure Works (s : ExBlock) (x : ExIn) : Prop where
  mult : s.MultAt x
  div : s.DivAt x
  multBusy : s.multStateQ ≠ .albl → x.multdivSel = true ∧ x.divSel = false
  divBusy : s.mdStateQ ≠ .idle → x.multdivSel = true ∧ x.divSel = true

/-- Nothing changes when nothing is enabled. -/
theorem step_stay (hm : s.multEnInternal x = false) (hd : s.divEnInternal x = false) :
    s.step x = s := by
  simp [step, multdivEn, hm, hd]

theorem multEn_of_internal (h : s.multEnInternal x = true) : x.multEn = true := by
  rw [multEnInternal, Bool.and_eq_true] at h
  exact h.1

theorem divEn_of_internal (h : s.divEnInternal x = true) : x.divEn = true := by
  rw [divEnInternal, Bool.and_eq_true] at h
  exact h.1

theorem divEnInternal_of_mult (h : x.divSel = false) : s.divEnInternal x = false := by
  rw [← Bool.not_eq_true]
  intro hd
  have := (ExIn.divEn_sel (divEn_of_internal hd)).2
  simp [h] at this

theorem multEnInternal_of_div (h : x.divSel = true) : s.multEnInternal x = false := by
  rw [← Bool.not_eq_true]
  intro hd
  have := (ExIn.multEn_sel (multEn_of_internal hd)).2
  simp [h] at this

theorem step_imdVal0Q_mult (h : s.multEnInternal x = true) :
    (s.step x).imdVal0Q = s.macResD x := by
  obtain ⟨h1, h2⟩ := ExIn.multEn_sel (multEn_of_internal h)
  simp [step, h1, h2, multdivEn, h]

/-- A product. -/
theorem MultAt.step (h : s.MultAt x) (hm : s.multEnInternal x = true) : (s.step x).MultAt x := by
  have hst : (s.step x).multStateQ = s.multStateD x := by simp [ExBlock.step, hm]
  unfold MultAt
  rw [hst, step_imdVal0Q_mult hm, multStateD]
  cases hs : s.multStateQ with
  | albl => exact macResD_albl hs
  | albh =>
    have := macResD_albh h hs
    dsimp only
    split_ifs at this ⊢ with ho
    · exact this
    · exact this
  | ahbl =>
    by_cases ho : x.operator = .mull
    · simp [ho]
    · simp only [ho, if_false]
      exact ⟨ho, macResD_ahbl h hs ho⟩
  | ahbh => trivial

theorem Works.step (h : s.Works x) : (s.step x).Works x := by
  cases hm : s.multEnInternal x with
  | true =>
    obtain ⟨h1, h2⟩ := ExIn.multEn_sel (multEn_of_internal hm)
    have hd := divEnInternal_of_mult (s := s) h2
    have hst : (s.step x).mdStateQ = s.mdStateQ := by simp [ExBlock.step, hd]
    have hidle : s.mdStateQ = .idle := by
      by_contra hne
      exact absurd (h.divBusy hne).2 (by simp [h2])
    refine ⟨h.mult.step hm, ?_, fun _ => ⟨h1, h2⟩, fun hne => absurd (hst.trans hidle) hne⟩
    unfold DivAt
    rw [hst, hidle]
    trivial
  | false =>
    cases hd : s.divEnInternal x with
    | true =>
      obtain ⟨h1, h2⟩ := ExIn.divEn_sel (divEn_of_internal hd)
      have hst : (s.step x).multStateQ = s.multStateQ := by simp [ExBlock.step, hm]
      have hidle : s.multStateQ = .albl := by
        by_contra hne
        exact absurd (h.multBusy hne).2 (by simp [h2])
      refine ⟨?_, h.div.step ⟨h1, h2, hd⟩, fun hne => absurd (hst.trans hidle) hne,
        fun _ => ⟨h1, h2⟩⟩
      unfold MultAt
      rw [hst, hidle]
      trivial
    | false =>
      rw [step_stay hm hd]
      exact h

/-! ## Runs -/

def run (s : ExBlock) (i : ℕ → ExIn) : ℕ → ExBlock := Sync.run step s i

/-- An instruction stays in ID, with its operands, as long as an operation is under way, and a
    shift is done in its first cycle. -/
structure Held (s : ExBlock) (i : ℕ → ExIn) : Prop where
  same : ∀ t, (run s i (t + 1)).busy = true → ExIn.Same (i t) (i (t + 1))
  first : ∀ t, (Decoder.aluOperator (i t).instr (i t).instrFirstCycle).isShift = true →
    (i t).instrFirstCycle = true

theorem Dividing.same {c : ℕ} (h : s.Dividing x c) (hxy : ExIn.Same x y) : s.Dividing y c := by
  obtain ⟨instr, ic, fc, ex, a, b, rdy, dit⟩ := x
  obtain ⟨instr', ic', fc', ex', a', b', rdy', dit'⟩ := y
  obtain ⟨rfl, rfl, rfl⟩ := hxy
  exact ⟨h.counter, h.numerator, h.denominator, h.quotient, h.remainder⟩

theorem DivAt.same (h : s.DivAt x) (hxy : ExIn.Same x y) : s.DivAt y := by
  have hd := fun c (h : s.Dividing x c) => h.same hxy
  obtain ⟨instr, ic, fc, ex, a, b, rdy, dit⟩ := x
  obtain ⟨instr', ic', fc', ex', a', b', rdy', dit'⟩ := y
  obtain ⟨rfl, rfl, rfl⟩ := hxy
  unfold DivAt at h ⊢
  cases hs : s.mdStateQ <;> rw [hs] at h
  case comp => exact ⟨h.1, h.2.1, hd _ h.2.2⟩
  case last => exact ⟨h.1, hd _ h.2⟩
  all_goals exact h

/-- What holds of an instruction holds of the same one in the next cycle. -/
theorem Works.same (h : s.Works x) (hxy : ExIn.Same x y) : s.Works y := by
  have hd := h.div.same hxy
  obtain ⟨instr, ic, fc, ex, a, b, rdy, dit⟩ := x
  obtain ⟨instr', ic', fc', ex', a', b', rdy', dit'⟩ := y
  obtain ⟨rfl, rfl, rfl⟩ := hxy
  exact ⟨h.mult, hd, h.multBusy, h.divBusy⟩

theorem works_idle (h : s.busy = false) : s.Works y := by
  simp only [busy, Bool.or_eq_false_iff, bne_eq_false_iff_eq] at h
  obtain ⟨hm, hd⟩ := h
  refine ⟨?_, ?_, fun hne => absurd hm hne, fun hne => absurd hd hne⟩
  · unfold MultAt
    rw [hm]
    trivial
  · unfold DivAt
    rw [hd]
    trivial

theorem Held.works (h : s.Held i) (hs : s.busy = false) (t : ℕ) : (run s i t).Works (i t) := by
  induction t with
  | zero => exact works_idle hs
  | succ t ih =>
    cases hb : (run s i (t + 1)).busy with
    | true => exact ih.step.same (h.same t hb)
    | false => exact works_idle hb

/-! ## The results of the multiplier and the divider -/

theorem ofInt_result (v : ℤ) : (BitVec.ofInt 34 v).extractLsb' 0 32 = BitVec.ofInt 32 v := by
  have h := ofInt_toNat v
  have h' : ((BitVec.ofInt 32 v).toNat : ℤ) = v % 2 ^ 32 := by
    rw [BitVec.toNat_ofInt]
    omega
  apply BitVec.eq_of_toNat_eq
  rw [BitVec.extractLsb'_toNat, Nat.shiftRight_zero]
  omega

/-- A valid result, of any of the four operations. -/
theorem Works.multdivResult (h : s.Works x) (hs : x.multdivSel = true) (hv : s.exValid x = true) :
    s.multdivResult x =
      if x.divSel then quotientOrRem x
      else if x.operator = .mull then BitVec.ofInt 32 (valueA x * valueB x % 2 ^ 32)
      else BitVec.ofInt 32 (valueA x * valueB x / 2 ^ 32) := by
  rw [exValid, hs, if_pos rfl, Bool.or_eq_true] at hv
  rw [ExBlock.multdivResult]
  cases hd : x.divSel with
  | true =>
    have hm : s.multStateQ = .albl := by
      by_contra hne
      exact absurd (h.multBusy hne).2 (by simp [hd])
    have hf : s.mdStateQ = .finish := by
      rcases hv with hv | hv
      · simp [multValid, hm] at hv
      · simpa [divValid] using hv
    have hdiv := h.div
    rw [DivAt, hf] at hdiv
    exact hdiv
  | false =>
    have hv : s.multValid x = true := by
      rcases hv with hv | hv
      · exact hv
      · have hf : s.mdStateQ = .finish := by simpa [divValid] using hv
        exact absurd (h.divBusy (by rw [hf]; decide)).2 (by simp [hd])
    rw [if_neg Bool.false_ne_true, if_neg Bool.false_ne_true]
    cases hm : s.multStateQ with
    | albl => simp [multValid, hm] at hv
    | albh => simp [multValid, hm] at hv
    | ahbl =>
      have ho : x.operator = .mull := by simpa [multValid, hm] using hv
      rw [if_pos ho, macResD_mull h.mult hm ho, ofInt_result]
    | ahbh =>
      have hmult := h.mult
      rw [MultAt, hm] at hmult
      rw [if_neg hmult.1, macResD_ahbh h.mult hm, ofInt_result]

end ExBlock

/-! ## The results of the instruction set -/

namespace Rv32

open Instr Decoder ExBlock

variable {w : BitVec 32} {x : ExIn}

theorem funct3_cases (f : BitVec 3) :
    f = 0 ∨ f = 1 ∨ f = 2 ∨ f = 3 ∨ f = 4 ∨ f = 5 ∨ f = 6 ∨ f = 7 := by
  revert f
  decide

theorem getLsbD_funct7 (w : BitVec 32) {k : ℕ} (hk : k < 7) :
    (funct7 w).getLsbD k = w.getLsbD (25 + k) := by
  rw [funct7, BitVec.getLsbD_extractLsb', decide_eq_true hk, Bool.true_and]

/-- The operator of a legal register-register instruction. -/
theorem base_op (h : Decoder.illegal w = false) (ho : opcode w = .op) (h7 : funct7 w ≠ 1)
    (a b : BitVec 32) : (aluOperatorOp w).meaning a b = base (funct3 w) (w.getLsbD 30) a b := by
  have h26 := getLsbD_funct7 w (k := 1) (by decide)
  have h30 := getLsbD_funct7 w (k := 5) (by decide)
  have hcases : funct7 w = 0 ∨ funct7 w = 0x20 ∧ (funct3 w = 0 ∨ funct3 w = 5) := by
    rw [Decoder.illegal, ho] at h
    simp only [Bool.and_eq_false_iff, bne_eq_false_iff_eq, Bool.or_eq_false_iff] at h
    rcases h with (h | h) | h
    · exact .inl h
    · exact absurd h h7
    · exact .inr ⟨h.1, h.2⟩
  rcases hcases with h0 | ⟨h0, h3⟩
  · have e26 : w.getLsbD 26 = false := by rw [← h26, h0]; rfl
    have e30 : w.getLsbD 30 = false := by rw [← h30, h0]; rfl
    rw [aluOperatorOp, e26, e30, h0]
    rcases funct3_cases (funct3 w) with h3 | h3 | h3 | h3 | h3 | h3 | h3 | h3 <;> rw [h3] <;>
      simp [IbexAluOp.meaning, IbexAluOp.compares, base]
  · have e26 : w.getLsbD 26 = false := by rw [← h26, h0]; rfl
    have e30 : w.getLsbD 30 = true := by rw [← h30, h0]; rfl
    rw [aluOperatorOp, e26, e30, h0]
    rcases h3 with h3 | h3 <;> rw [h3] <;> simp [IbexAluOp.meaning, base]

theorem base_opImm (h : Decoder.illegal w = false) (ho : opcode w = .opImm) (a b : BitVec 32) :
    (aluOperatorOpImm w).meaning a b = base (funct3 w) (funct3 w == 5 && w.getLsbD 30) a b := by
  have h30 := getLsbD_funct7 w (k := 5) (by decide)
  have hshift : w.extractLsb' 27 5 = (funct7 w).extractLsb' 2 5 := by
    apply BitVec.eq_of_getLsbD_eq
    intro k hk
    rw [BitVec.getLsbD_extractLsb', BitVec.getLsbD_extractLsb', decide_eq_true hk, Bool.true_and,
      Bool.true_and, getLsbD_funct7 w (by omega), ← Nat.add_assoc]
  rw [Decoder.illegal, ho] at h
  rw [aluOperatorOpImm, hshift]
  rcases funct3_cases (funct3 w) with h3 | h3 | h3 | h3 | h3 | h3 | h3 | h3 <;> rw [h3] at h ⊢
  case inr.inr.inr.inr.inr.inl =>
    have h7 : funct7 w = 0 ∨ funct7 w = 0x20 := by simpa [or_iff_not_imp_left] using h
    rcases h7 with h7 | h7
    · rw [← h30, h7]
      simp [IbexAluOp.meaning, base]
    · rw [← h30, h7]
      simp [IbexAluOp.meaning, base]
  all_goals simp [IbexAluOp.meaning, IbexAluOp.compares, base]

theorem multdivOp_eq (hs : x.multdivSel = true) : (x.operator, x.signedMode) =
    match (funct3 x.instr).toNat with
    | 0 => (.mull, 0) | 1 => (.mulh, 3) | 2 => (.mulh, 1) | 3 => (.mulh, 0)
    | 4 => (.div, 3) | 5 => (.div, 0) | 6 => (.rem, 3) | _ => (.rem, 0) := by
  rw [ExIn.multdivSel_eq, Bool.and_eq_true, beq_iff_eq, beq_iff_eq] at hs
  rw [ExIn.operator, ExIn.signedMode, multdivOp, if_pos hs]
  rcases funct3_cases (funct3 x.instr) with h | h | h | h | h | h | h | h <;> rw [h] <;> rfl

theorem ofInt_mul_emod (a b : ℤ) :
    BitVec.ofInt 32 (a * b % 2 ^ 32) = BitVec.ofInt 32 a * BitVec.ofInt 32 b := by
  rw [← BitVec.ofInt_mul]
  apply BitVec.eq_of_toNat_eq
  rw [BitVec.toNat_ofInt, BitVec.toNat_ofInt]
  exact congrArg Int.toNat (Int.emod_emod_of_dvd _ dvd_rfl)

theorem divSign_three (h : x.signedMode = 3) :
    divSignA x = x.operandA.msb ∧ divSignB x = x.operandB.msb := by
  rw [divSignA, divSignB, h]
  exact ⟨Bool.and_true _, Bool.and_true _⟩

theorem divSign_zero (h : x.signedMode = 0) : divSignA x = false ∧ divSignB x = false := by
  rw [divSignA, divSignB, h]
  exact ⟨Bool.and_false _, Bool.and_false _⟩

/-- The quotient of the absolute values, with its sign, is the signed quotient. -/
theorem divResult_signed (h : x.signedMode = 3) : divResult x =
    if x.operandB = 0 then BitVec.allOnes 32 else x.operandA.sdiv x.operandB := by
  obtain ⟨ha, hb⟩ := divSign_three h
  rw [divResult, absA, absB, ha, hb, BitVec.sdiv_eq]
  cases x.operandA.msb <;> cases x.operandB.msb <;> rfl

theorem divResult_unsigned (h : x.signedMode = 0) : divResult x =
    if x.operandB = 0 then BitVec.allOnes 32 else x.operandA / x.operandB := by
  obtain ⟨ha, hb⟩ := divSign_zero h
  rw [divResult, absA, absB, ha, hb]
  rfl

/-- The remainder has the sign of the dividend. -/
theorem remResult_signed (h : x.signedMode = 3) : remResult x =
    if x.operandB = 0 then x.operandA else x.operandA.srem x.operandB := by
  obtain ⟨ha, hb⟩ := divSign_three h
  rw [remResult, absA, absB, ha, hb, BitVec.srem_eq]
  cases x.operandA.msb <;> cases x.operandB.msb <;> rfl

theorem remResult_unsigned (h : x.signedMode = 0) : remResult x =
    if x.operandB = 0 then x.operandA else x.operandA % x.operandB := by
  obtain ⟨ha, hb⟩ := divSign_zero h
  rw [remResult, absA, absB, ha, hb]
  rfl

/-- The operands as the mode says. -/
theorem values (m : BitVec 2) (h : x.signedMode = m) :
    valueA x = value (m.getLsbD 0) x.operandA ∧ valueB x = value (m.getLsbD 1) x.operandB := by
  rw [valueA, valueB, h]
  exact ⟨rfl, rfl⟩

/-- An operation of the instruction set is the unit's. -/
theorem mulDiv_eq (hs : x.multdivSel = true) : mulDiv (funct3 x.instr) x.operandA x.operandB =
    if x.divSel then quotientOrRem x
    else if x.operator = .mull then BitVec.ofInt 32 (valueA x * valueB x % 2 ^ 32)
    else BitVec.ofInt 32 (valueA x * valueB x / 2 ^ 32) := by
  have hop := multdivOp_eq hs
  have hd : x.divSel = (funct3 x.instr).getLsbD 2 := by
    rw [ExIn.divSel, show x.dec.multdivSel = true from hs, Bool.true_and]
  rw [hd]
  rcases funct3_cases (funct3 x.instr) with h | h | h | h | h | h | h | h <;> rw [h] at hop ⊢ <;>
    obtain ⟨ho, hm⟩ := Prod.mk.inj hop
  case inl =>
    obtain ⟨ha, hb⟩ := values 0 hm
    have hn : ∀ a : BitVec 32, BitVec.ofInt 32 (a.toNat : ℤ) = a := fun a => by
      rw [BitVec.ofInt_natCast, BitVec.ofNat_toNat, BitVec.setWidth_eq]
    rw [ho, ofInt_mul_emod, ha, hb]
    exact (congrArg₂ _ (hn _) (hn _)).symm
  case inr.inl =>
    obtain ⟨ha, hb⟩ := values 3 hm
    rw [ho, ha, hb]
    rfl
  case inr.inr.inl =>
    obtain ⟨ha, hb⟩ := values 1 hm
    rw [ho, ha, hb]
    rfl
  case inr.inr.inr.inl =>
    obtain ⟨ha, hb⟩ := values 0 hm
    rw [ho, ha, hb]
    rfl
  case inr.inr.inr.inr.inl =>
    rw [quotientOrRem, ho, divResult_signed hm]
    rfl
  case inr.inr.inr.inr.inr.inl =>
    rw [quotientOrRem, ho, divResult_unsigned hm]
    rfl
  case inr.inr.inr.inr.inr.inr.inl =>
    rw [quotientOrRem, ho, remResult_signed hm]
    rfl
  case inr.inr.inr.inr.inr.inr.inr =>
    rw [quotientOrRem, ho, remResult_unsigned hm]
    rfl

end Rv32

namespace ExBlock

variable {s : ExBlock} {x : ExIn} {i : ℕ → ExIn} {t : ℕ}

open Instr Decoder

theorem multdiv_result {r : BitVec 32} (hs : x.multdivSel = true)
    (hr : Rv32.result x.instr x.operandA x.operandB = some r) :
    r = Rv32.mulDiv (funct3 x.instr) x.operandA x.operandB := by
  rw [ExIn.multdivSel_eq, Bool.and_eq_true, beq_iff_eq, beq_iff_eq] at hs
  have hl := Rv32.legal_of_result hr
  rw [Rv32.result, hl, if_neg Bool.false_ne_true, hs.1] at hr
  dsimp only at hr
  rw [if_pos hs.2] at hr
  exact (Option.some.inj hr).symm

theorem alu_result {r : BitVec 32} (hs : x.multdivSel = false)
    (hr : Rv32.result x.instr x.operandA x.operandB = some r) :
    (aluOperator x.instr x.instrFirstCycle).meaning x.operandA x.operandB = r := by
  have hl := Rv32.legal_of_result hr
  rw [Rv32.result, hl, if_neg Bool.false_ne_true] at hr
  unfold aluOperator
  cases ho : opcode x.instr <;> rw [ho] at hr <;> dsimp only at hr ⊢
  case op =>
    have h7 : funct7 x.instr ≠ 1 := by
      intro h7
      rw [ExIn.multdivSel_eq, ho, h7] at hs
      exact absurd hs (by decide)
    rw [if_neg h7] at hr
    exact (Rv32.base_op hl ho h7 _ _).trans (Option.some.inj hr)
  case opImm => exact (Rv32.base_opImm hl ho _ _).trans (Option.some.inj hr)
  case branch | miscMem | system | other => exact absurd hr (by simp)
  all_goals exact Option.some.inj hr

/-- **Results.** In every run, whenever the stage says that its result is valid, it is the one that
    the instruction set gives for the instruction and its operands. -/
theorem result_correct (h : s.Held i) (hs : s.busy = false) (t : ℕ)
    (hv : (run s i t).exValid (i t) = true) {r : BitVec 32}
    (hr : Rv32.result (i t).instr (i t).operandA (i t).operandB = some r) :
    (run s i t).resultEx (i t) = r := by
  have hw := h.works hs t
  rw [resultEx]
  cases hsel : (i t).multdivSel with
  | true =>
    rw [if_pos rfl, hw.multdivResult hsel hv, multdiv_result hsel hr, Rv32.mulDiv_eq hsel]
  | false =>
    rw [if_neg Bool.false_ne_true, ← alu_result hsel hr]
    exact IbexAluIn.resultO_eq ⟨hsel, h.first t⟩

/-- One instruction for ever, with nothing in its way. -/
def always (w a b : BitVec 32) (_ : ℕ) : ExIn := ⟨w, false, true, true, a, b, true, false⟩

theorem always_held (w a b : BitVec 32) : s.Held (always w a b) :=
  ⟨fun _ _ => ⟨rfl, rfl, rfl⟩, fun _ _ => rfl⟩

/-- `mulh` of -2 and 3. -/
theorem result_correct_mulh :
    (run reset (always 0x023110B3 0xFFFFFFFE 3) 3).resultEx (always 0x023110B3 0xFFFFFFFE 3 3) =
      0xFFFFFFFF :=
  result_correct (always_held _ _ _) rfl 3 (by decide) (by decide)

/-- **Branches** are decided in their first cycle. -/
theorem branch_correct (hf : x.instrFirstCycle = true) {c : Bool}
    (hc : Rv32.taken x.instr x.operandA x.operandB = some c) : s.branchDecision x = c := by
  unfold Rv32.taken at hc
  split_ifs at hc with h
  rw [not_or, not_not, Bool.not_eq_true] at h
  obtain ⟨hl, ho⟩ := h
  have hsel : x.multdivSel = false := by
    rw [ExIn.multdivSel_eq, ho]
    rfl
  refine IbexAluIn.comparison_eq (x := s.aluIn x) ⟨hsel, fun _ => hf⟩ ?_
  show (aluOperator x.instr x.instrFirstCycle).compares x.operandA x.operandB = some c
  rw [aluOperator, ho, hf, ← hc]
  rw [Decoder.illegal, ho] at hl
  simp only [Bool.or_eq_false_iff, beq_eq_false_iff_ne] at hl
  rw [if_pos rfl, aluOperatorBranch]
  rcases Rv32.funct3_cases (funct3 x.instr) with h | h | h | h | h | h | h | h <;> rw [h] at hl ⊢
  case inr.inr.inl => exact absurd rfl hl.1
  case inr.inr.inr.inl => exact absurd rfl hl.2
  all_goals rfl

/-- `blt` of -1 and 0. -/
theorem branch_correct_blt :
    reset.branchDecision (always 0x0020C063 0xFFFFFFFF 0 0) = true :=
  branch_correct rfl (by decide)

/-! ## When an operation is done -/

/-- The cycles that an operation takes before its result. With the timing that does not depend on
    the data, a division by zero takes as many as any other. -/
def latency (x : ExIn) : ℕ :=
  if x.divSel then if !x.dataIndTiming && x.operandB == 0 then 1 else 36
  else if x.operator = .mull then 2 else 3

/-- The cycles that are left. -/
def left (s : ExBlock) (x : ExIn) : ℕ :=
  if x.divSel then
    match s.mdStateQ with
    | .idle => latency x
    | .absA => 35
    | .absB => 34
    | .comp => s.divCounterQ.toNat + 2
    | .last => 2
    | .changeSign => 1
    | .finish => 0
  else
    match s.multStateQ with
    | .albl => latency x
    | .albh => if x.operator = .mull then 1 else 2
    | .ahbl => if x.operator = .mull then 0 else 1
    | .ahbh => 0

/-- The inputs of one operation: the instruction with its operands and the timing mode. -/
structure SameOp (x y : ExIn) : Prop extends ExIn.Same x y where
  timing : y.dataIndTiming = x.dataIndTiming
  legal : y.illegalC = x.illegalC

variable {y : ExIn}

theorem left_same (h : SameOp x y) : s.left y = s.left x := by
  obtain ⟨instr, ic, fc, ex, a, b, rdy, dit⟩ := x
  obtain ⟨instr', ic', fc', ex', a', b', rdy', dit'⟩ := y
  obtain ⟨⟨rfl, rfl, rfl⟩, rfl, rfl⟩ := h
  rfl

theorem latency_ne_zero : latency x ≠ 0 := by
  unfold latency
  split_ifs <;> decide

/-- A result is valid when no cycles are left. -/
theorem Works.valid_iff (h : s.Works x) (hs : x.multdivSel = true) :
    s.exValid x = true ↔ s.left x = 0 := by
  rw [exValid, hs, if_pos rfl, left]
  cases hd : x.divSel with
  | true =>
    have hm : s.multStateQ = .albl := by
      by_contra hne
      exact absurd (h.multBusy hne).2 (by simp [hd])
    have hmv : s.multValid x = false := by rw [multValid, hm]
    rw [hmv, Bool.false_or, divValid]
    cases hst : s.mdStateQ
    case idle => simp [latency_ne_zero]
    all_goals simp
  | false =>
    have hf : s.mdStateQ = .idle := by
      by_contra hne
      exact absurd (h.divBusy hne).2 (by simp [hd])
    have hdv : s.divValid = false := by rw [divValid, hf]; rfl
    rw [hdv, Bool.or_false, multValid]
    cases hst : s.multStateQ
    case albl => simp [latency_ne_zero]
    case albh => by_cases ho : x.operator = .mull <;> simp [ho]
    case ahbl => by_cases ho : x.operator = .mull <;> simp [ho]
    case ahbh => simp

/-- The enable of an operation that executes. -/
theorem en_of_sel (hs : x.multdivSel = true) (hl : x.illegalC = false)
    (he : x.instrExecuting = true) : x.divEn = x.divSel ∧ x.multEn = !x.divSel := by
  have hd : x.divSel = (funct3 x.instr).getLsbD 2 := by
    rw [ExIn.divSel, show x.dec.multdivSel = true from hs, Bool.true_and]
  have hms : Decoder.multdivSel x.instr = true := hs
  rw [ExIn.multdivSel_eq, Bool.and_eq_true, beq_iff_eq, beq_iff_eq] at hs
  have hleg : Decoder.illegal x.instr = false := by
    rw [Decoder.illegal, hs.1]
    simp [hs.2]
  rw [hd]
  simp only [ExIn.divEn, ExIn.multEn, ExIn.dec, decode, hms, hleg, hl, he]
  simp

theorem Works.left_step (h : s.Works x) (hs : x.multdivSel = true) (hl : x.illegalC = false)
    (hleft : s.left x ≠ 0) :
    (s.step x).left x + x.instrExecuting.toNat = s.left x := by
  have hv : s.exValid x = false := by
    rw [← Bool.not_eq_true, h.valid_iff hs]
    exact hleft
  rw [exValid, hs, if_pos rfl, Bool.or_eq_false_iff] at hv
  have hm : s.multEnInternal x = x.multEn := by simp [multEnInternal, multHold, hv.1]
  have hd : s.divEnInternal x = x.divEn := by simp [divEnInternal, divHold, hv.2]
  cases he : x.instrExecuting with
  | false =>
    have h1 : x.multEn = false := by rw [ExIn.multEn, he, Bool.false_and]
    have h2 : x.divEn = false := by rw [ExIn.divEn, he, Bool.false_and]
    rw [step_stay (hm.trans h1) (hd.trans h2)]
    rfl
  | true =>
    obtain ⟨h1, h2⟩ := en_of_sel hs hl he
    rw [left, left, Bool.toNat_true]
    cases hsel : x.divSel with
    | true =>
      have hdv : s.Divides x := ⟨hs, hsel, by rw [hd, h1, hsel]⟩
      rw [if_pos rfl, if_pos rfl, hdv.mdStateQ, mdStateD]
      have hdiv := h.div
      rw [DivAt] at hdiv
      cases hst : s.mdStateQ with
      | idle =>
        simp only [equalToZero_eq hs hst, latency, hsel, if_true, beq_eq_decide]
        cases !x.dataIndTiming && decide (x.operandB = 0) <;> rfl
      | absA => rfl
      | absB =>
        rw [hdv.divCounterQ, divCounterD, hst]
        rfl
      | comp =>
        rw [hst] at hdiv
        rw [hdv.divCounterQ, divCounterD, hst]
        dsimp only
        split_ifs with hc
        · rw [hc]
          rfl
        · have hone : (1 : BitVec 5).toNat = 1 := rfl
          have hlt := s.divCounterQ.isLt
          have hge := hdiv.2.1
          rw [BitVec.toNat_sub, hone]
          dsimp only
          omega
      | last => rfl
      | changeSign => rfl
      | finish => simp [divValid, hst] at hv
    | false =>
      have hmi : s.multEnInternal x = true := by rw [hm, h2, hsel]; rfl
      have hst' : (s.step x).multStateQ = s.multStateD x := by simp [ExBlock.step, hmi]
      rw [if_neg Bool.false_ne_true, if_neg Bool.false_ne_true, hst', multStateD]
      cases hst : s.multStateQ with
      | albl =>
        rw [latency, hsel]
        by_cases ho : x.operator = .mull <;> simp [ho]
      | albh => by_cases ho : x.operator = .mull <;> simp [ho]
      | ahbl =>
        have ho : x.operator ≠ .mull := fun ho => by simp [multValid, hst, ho] at hv
        simp [ho]
      | ahbh => simp [multValid, hst] at hv

/-- A result that is taken leaves the stage idle, and one that is not taken stays. -/
theorem Works.taken_step (h : s.Works x) (hs : x.multdivSel = true) (hl : x.illegalC = false)
    (hleft : s.left x = 0) : if x.instrExecuting && x.multdivReadyId then (s.step x).busy = false
      else s.step x = s := by
  have hv := (h.valid_iff hs).2 hleft
  rw [exValid, hs, if_pos rfl, Bool.or_eq_true] at hv
  cases hsel : x.divSel with
  | true =>
    have hm : s.multStateQ = .albl := by
      by_contra hne
      exact absurd (h.multBusy hne).2 (by simp [hsel])
    have hdv : s.divValid = true := by
      rcases hv with hv | hv
      · simp [multValid, hm] at hv
      · exact hv
    have hf : s.mdStateQ = .finish := by simpa [divValid] using hdv
    have hmi := multEnInternal_of_div (s := s) hsel
    have hdi : s.divEnInternal x = (x.instrExecuting && x.multdivReadyId) := by
      rw [divEnInternal, divHold, hdv, Bool.true_and, Bool.not_not]
      cases he : x.instrExecuting with
      | false => rw [ExIn.divEn, he, Bool.false_and, Bool.false_and]
      | true => rw [(en_of_sel hs hl he).1, hsel]
    rw [← hdi]
    split_ifs with he
    · simp [busy, ExBlock.step, hmi, he, hm, mdStateD, hf]
    · exact step_stay hmi (by simpa using he)
  | false =>
    have hf : s.mdStateQ = .idle := by
      by_contra hne
      exact absurd (h.divBusy hne).2 (by simp [hsel])
    have hmv : s.multValid x = true := by
      rcases hv with hv | hv
      · exact hv
      · simp [divValid, hf] at hv
    have hdi := divEnInternal_of_mult (s := s) hsel
    have hmi : s.multEnInternal x = (x.instrExecuting && x.multdivReadyId) := by
      rw [multEnInternal, multHold, hmv, Bool.true_and, Bool.not_not]
      cases he : x.instrExecuting with
      | false => rw [ExIn.multEn, he, Bool.false_and, Bool.false_and]
      | true => rw [(en_of_sel hs hl he).2, hsel, Bool.not_false]
    have hd : s.multStateD x = .albl := by
      cases hst : s.multStateQ with
      | ahbl =>
        have ho : x.operator = .mull := by simpa [multValid, hst] using hmv
        simp [multStateD, hst, ho]
      | ahbh => simp [multStateD, hst]
      | albl => simp [multValid, hst] at hmv
      | albh => simp [multValid, hst] at hmv
    rw [← hmi]
    split_ifs with he
    · simp [busy, ExBlock.step, hdi, he, hd, hf]
    · exact step_stay (by simpa using he) hdi

/-- The cycles since the start in which the instruction executed. -/
def executed (i : ℕ → ExIn) (t : ℕ) : ℕ := Nat.count (fun u => (i u).instrExecuting = true) t

theorem left_idle (hs : s.busy = false) : s.left x = latency x := by
  simp only [busy, Bool.or_eq_false_iff, bne_eq_false_iff_eq] at hs
  rw [left, hs.1, hs.2]
  split_ifs <;> rfl

theorem SameOp.sel (h : SameOp x y) (hs : x.multdivSel = true) : y.multdivSel = true := by
  rw [ExIn.multdivSel_eq] at hs ⊢
  rw [h.instr, hs]

theorem SameOp.trans' {z : ExIn} (h : SameOp x y) (h' : SameOp x z) : SameOp y z :=
  ⟨⟨h'.instr.trans h.instr.symm, h'.operandA.trans h.operandA.symm,
    h'.operandB.trans h.operandB.symm⟩, h'.timing.trans h.timing.symm, h'.legal.trans h.legal.symm⟩

/-- The ID stage takes the result. -/
def accepted (s : ExBlock) (i : ℕ → ExIn) (t : ℕ) : Bool :=
  (run s i t).exValid (i t) && (i t).instrExecuting && (i t).multdivReadyId

theorem executed_succ : executed i (t + 1) = executed i t + (i t).instrExecuting.toNat := by
  rw [executed, Nat.count_succ, ← executed]
  cases (i t).instrExecuting <;> rfl

/-- One cycle less is left for every one that executed, until the result waits to be taken. -/
theorem left_run (hs : s.busy = false) (hsel : (i 0).multdivSel = true)
    (hl : (i 0).illegalC = false) (hi : ∀ u, u ≤ t → SameOp (i 0) (i u))
    (hn : ∀ u, u < t → accepted s i u = false) : (run s i t).Works (i t) ∧
      (run s i t).left (i t) = latency (i 0) - executed i t := by
  induction t with
  | zero => exact ⟨works_idle hs, left_idle hs⟩
  | succ t ih =>
    obtain ⟨hw, hleft⟩ := ih (fun u hu => hi u (by omega)) fun u hu => hn u (by omega)
    have ht := hi t (by omega)
    have hnext := ht.trans' (hi (t + 1) le_rfl)
    have hselt := ht.sel hsel
    have hlt := ht.legal.trans hl
    rw [left_same hnext, executed_succ]
    refine ⟨hw.step.same hnext.toSame, ?_⟩
    show ((run s i t).step (i t)).left (i t) = _
    by_cases h0 : (run s i t).left (i t) = 0
    · have hv := (hw.valid_iff hselt).2 h0
      have hna := hn t (by omega)
      rw [accepted, hv, Bool.true_and] at hna
      have hstay := hw.taken_step hselt hlt h0
      rw [hna, if_neg Bool.false_ne_true] at hstay
      rw [hstay]
      omega
    · have := hw.left_step hselt hlt h0
      omega

/-- **When it is done.** The result of a multiplication or a division that the idle stage gets is
    valid from the end of its latency on, in cycles in which it executes, for every way in which
    ID stalls it, and not before. It stays until it is taken; then the stage is idle. -/
theorem finishes (hs : s.busy = false) (hsel : (i 0).multdivSel = true)
    (hl : (i 0).illegalC = false) (hi : ∀ u, u ≤ t → SameOp (i 0) (i u))
    (hn : ∀ u, u < t → accepted s i u = false) :
    ((run s i t).exValid (i t) = true ↔ latency (i 0) ≤ executed i t) ∧
    ((run s i t).exValid (i t) = true → if accepted s i t then
      (run s i (t + 1)).busy = false else run s i (t + 1) = run s i t) := by
  obtain ⟨hw, hleft⟩ := left_run hs hsel hl hi hn
  have ht := hi t le_rfl
  refine ⟨?_, fun hv => ?_⟩
  · rw [hw.valid_iff (ht.sel hsel)]
    omega
  · rw [accepted, hv, Bool.true_and]
    exact hw.taken_step (ht.sel hsel) (ht.legal.trans hl) ((hw.valid_iff (ht.sel hsel)).1 hv)

/-- `div` of 7 by 0, whose result nobody takes for two cycles. -/
def waiting (t : ℕ) : ExIn :=
  { always 0x023140B3 7 0 t with multdivReadyId := decide (3 ≤ t) }

theorem finishes_divByZero :
    ((run reset waiting 3).exValid (waiting 3) = true ↔ latency (waiting 0) ≤ executed waiting 3) ∧
    ((run reset waiting 3).exValid (waiting 3) = true → if accepted reset waiting 3 then
      (run reset waiting 4).busy = false else run reset waiting 4 = run reset waiting 3) :=
  finishes rfl rfl rfl (fun _ _ => ⟨⟨rfl, rfl, rfl⟩, rfl, rfl⟩) (by decide)

end ExBlock

end SentinelSoc
