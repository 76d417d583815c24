/-
  The compressed instructions that stand for one of 32 bits: the decoder against the table of
  `Rvc`.

  * `Agrees`: what is driven is the expansion of the instruction, or flagged where the table has
    none;
  * `c0_agrees`, `c1_agrees`, `c2_agrees`: the three quadrants.
-/
import SentinelSoc.Fetch.Compressed

open Rv32

namespace SentinelSoc

namespace CompressedDecoder

/-- An instruction of the table, and what is driven for it. -/
def Agrees (r : BitVec 32 × Bool) : Option Rvc → Prop
  | none => r.2 = true
  | some c => r.2 = false ∧ c.expand.map Instr.encode = [r.1]

variable (w : BitVec 32)

/-! ## Fields -/

theorem extractLsb_low {m l : ℕ} (hl : l ≤ m) (hm : m ≤ 15) :
    (w.extractLsb 15 0).extractLsb m l = w.extractLsb m l := by
  apply BitVec.eq_of_getLsbD_eq
  intro i hi
  simp only [BitVec.getLsbD_extractLsb, Nat.zero_add]
  rw [decide_eq_true (by omega : l + i < 15 - 0 + 1), Bool.true_and]

theorem perm : ∀ (a : BitVec 2) (b : BitVec 4) (c d : BitVec 1),
    b ++ a ++ d ++ c = 0#8 ↔ a ++ b ++ c ++ d = 0 := by decide

/-- The immediate of `c.addi4spn` is a permutation of its field. -/
theorem immCIW_eq_zero : w.extractLsb 10 7 ++ w.extractLsb 12 11 ++ w.extractLsb 5 5 ++
    w.extractLsb 6 6 = 0#8 ↔ w.extractLsb 12 5 = 0 := by
  have h : w.extractLsb 12 5 = w.extractLsb 12 11 ++ w.extractLsb 10 7 ++ w.extractLsb 6 6 ++
      w.extractLsb 5 5 := by
    apply BitVec.eq_of_getLsbD_eq
    intro i hi
    simp only [BitVec.getLsbD_extractLsb, BitVec.getLsbD_append]
    interval_cases i <;> rfl
  generalize w.extractLsb 12 11 = a at *
  generalize w.extractLsb 10 7 = b at *
  generalize w.extractLsb 6 6 = c at *
  generalize w.extractLsb 5 5 = d at *
  rw [h]
  exact perm a b c d

theorem c0Zcb_agrees : Agrees (c0Zcb w) (Rvc.decodeZcb (w.extractLsb 15 0)) := by
  simp (disch := omega) only [c0Zcb, bad, Rvc.decodeZcb, Rvc.onlyIf, Rvc.rs1', Rvc.rs2',
    Rvc.immByte, Rvc.immHalf, extractLsb_low]
  split_ifs
  all_goals first
    | rfl
    | refine ⟨rfl, congrArg (· :: []) ?_⟩
      apply BitVec.eq_of_getLsbD_eq
      intro i hi
      simp only [Instr.encode, iType, sType, Rvc.short, opcodeLoad,
        opcodeStore, BitVec.getLsbD_extractLsb,
        BitVec.getLsbD_append, BitVec.zeroExtend_eq_setWidth,
        BitVec.getLsbD_setWidth]
      interval_cases i <;> rfl

theorem c0_agrees : Agrees (c0 w) (Rvc.decode0 (w.extractLsb 15 0)) := by
  have hz := immCIW_eq_zero w
  simp (disch := omega) only [c0, bad, Rvc.decode0, Rvc.onlyIf, Rvc.rs1', Rvc.rs2', Rvc.immCIW,
    Rvc.immCL, extractLsb_low]
  split_ifs with h0 hi h2 h6 h4
  · refine ⟨beq_eq_false_iff_ne.2 (mt hz.2 hi), congrArg (· :: []) ?_⟩
    apply BitVec.eq_of_getLsbD_eq
    intro i hi
    simp only [Instr.encode, iType, Rvc.short, opcodeOpImm, BitVec.getLsbD_extractLsb,
      BitVec.getLsbD_append, BitVec.zeroExtend_eq_setWidth, BitVec.getLsbD_setWidth]
    interval_cases i <;> rfl
  · exact beq_iff_eq.2 (hz.1 (not_not.1 hi))
  · refine ⟨rfl, congrArg (· :: []) ?_⟩
    apply BitVec.eq_of_getLsbD_eq
    intro i hi
    simp only [Instr.encode, iType, Rvc.short, opcodeLoad, BitVec.getLsbD_extractLsb,
      BitVec.getLsbD_append, BitVec.zeroExtend_eq_setWidth, BitVec.getLsbD_setWidth]
    interval_cases i <;> rfl
  · refine ⟨rfl, congrArg (· :: []) ?_⟩
    apply BitVec.eq_of_getLsbD_eq
    intro i hi
    simp only [Instr.encode, sType, Rvc.short, opcodeStore, BitVec.getLsbD_extractLsb,
      BitVec.getLsbD_append, BitVec.zeroExtend_eq_setWidth, BitVec.getLsbD_setWidth]
    interval_cases i <;> rfl
  · exact c0Zcb_agrees w
  · rfl

theorem c1Unary_agrees : Agrees (c1Unary w) (Rvc.decodeUnary (w.extractLsb 15 0)) := by
  simp (disch := omega) only [c1Unary, bad, Rvc.decodeUnary, Rvc.rs1', extractLsb_low]
  split_ifs
  all_goals first
    | rfl
    | refine ⟨rfl, congrArg (· :: []) ?_⟩
      apply BitVec.eq_of_getLsbD_eq
      intro i hi
      simp only [Instr.encode, iType, rType, Rvc.short, opcodeOp,
        opcodeOpImm, BitVec.getLsbD_extractLsb,
        BitVec.getLsbD_append]
      interval_cases i <;> rfl

theorem c1Op_fst (funct7 : BitVec 7) (funct3 : BitVec 3) :
    (c1Op w funct7 funct3).1 = rType funct7 (Rvc.short (w.extractLsb 4 2))
      (Rvc.short (w.extractLsb 9 7)) funct3 (Rvc.short (w.extractLsb 9 7)) 0x33 := by
  apply BitVec.eq_of_getLsbD_eq
  intro i hi
  simp only [c1Op, rType, Rvc.short, opcodeOp, BitVec.getLsbD_extractLsb, BitVec.getLsbD_append]
  interval_cases i <;> rfl

theorem bit_cases : ∀ a : BitVec 1, a = 0 ∨ a = 1 := by decide

theorem bits_cases : ∀ a : BitVec 2, a = 0 ∨ a = 1 ∨ a = 2 ∨ a = 3 := by decide

theorem c1Binary_agrees : Agrees (c1Binary w) (Rvc.decodeBinary (w.extractLsb 15 0)) := by
  have hu := c1Unary_agrees w
  have ho : ∀ {c : Rvc} {funct7 funct3}, c.expand.map Instr.encode = [rType funct7
      (Rvc.short (w.extractLsb 4 2)) (Rvc.short (w.extractLsb 9 7)) funct3
      (Rvc.short (w.extractLsb 9 7)) 0x33] → Agrees (c1Op w funct7 funct3) (some c) := by
    intro c funct7 funct3 hc
    exact ⟨rfl, by rw [hc, c1Op_fst]⟩
  simp (disch := omega) only [c1Binary, bad, Rvc.decodeBinary, Rvc.rs1', Rvc.rs2', extractLsb_low]
  rcases bit_cases (w.extractLsb 12 12) with h1 | h1 <;>
    rcases bits_cases (w.extractLsb 6 5) with h2 | h2 | h2 | h2 <;> rw [h1, h2]
  · exact ho (c := .sub _ _) rfl
  · exact ho (c := .xor _ _) rfl
  · exact ho (c := .or _ _) rfl
  · exact ho (c := .and _ _) rfl
  · rfl
  · rfl
  · exact ho (c := .mul _ _) rfl
  · exact hu

theorem bit_10 : w.extractLsb 10 10 = (w.extractLsb 11 10).extractLsb 0 0 := by
  apply BitVec.eq_of_getLsbD_eq
  intro i hi
  simp only [BitVec.getLsbD_extractLsb]
  interval_cases i
  rfl

theorem bit_13 : w.extractLsb 13 13 = (w.extractLsb 15 13).extractLsb 0 0 := by
  apply BitVec.eq_of_getLsbD_eq
  intro i hi
  simp only [BitVec.getLsbD_extractLsb]
  interval_cases i
  rfl

theorem bit_15 : w.extractLsb 15 15 = (w.extractLsb 15 13).extractLsb 2 2 := by
  apply BitVec.eq_of_getLsbD_eq
  intro i hi
  simp only [BitVec.getLsbD_extractLsb]
  interval_cases i
  rfl

theorem c1Alu_agrees : Agrees (c1Alu w) (Rvc.decodeAlu (w.extractLsb 15 0)) := by
  have hb := c1Binary_agrees w
  simp (disch := omega) only [c1Alu, bad, Rvc.decodeAlu, Rvc.onlyIf, Rvc.rs1', Rvc.rs2,
    Rvc.immCI, extractLsb_low, bit_10]
  rcases bits_cases (w.extractLsb 11 10) with h2 | h2 | h2 | h2 <;> rw [h2]
  · rcases bit_cases (w.extractLsb 12 12) with h1 | h1 <;> rw [h1]
    · change Agrees (_, _) (some _)
      refine ⟨rfl, congrArg (· :: []) ?_⟩
      apply BitVec.eq_of_getLsbD_eq
      intro i hi
      simp only [Instr.encode, rType, Rvc.short, opcodeOpImm, BitVec.getLsbD_extractLsb,
        BitVec.getLsbD_append]
      interval_cases i <;> rfl
    · rfl
  · rcases bit_cases (w.extractLsb 12 12) with h1 | h1 <;> rw [h1]
    · change Agrees (_, _) (some _)
      refine ⟨rfl, congrArg (· :: []) ?_⟩
      apply BitVec.eq_of_getLsbD_eq
      intro i hi
      simp only [Instr.encode, rType, Rvc.short, opcodeOpImm, BitVec.getLsbD_extractLsb,
        BitVec.getLsbD_append]
      interval_cases i <;> rfl
    · rfl
  · change Agrees (_, _) (some _)
    refine ⟨rfl, congrArg (· :: []) ?_⟩
    apply BitVec.eq_of_getLsbD_eq
    intro i hi
    simp only [Instr.encode, iType, Rvc.short, opcodeOpImm, sign, BitVec.getLsbD_extractLsb,
      BitVec.getLsbD_append, BitVec.getLsbD_signExtend, BitVec.msb_eq_getLsbD_last,
      BitVec.getLsbD_replicate]
    interval_cases i <;> rfl
  · exact hb

theorem tri_cases : ∀ a : BitVec 3,
    a = 0 ∨ a = 1 ∨ a = 2 ∨ a = 3 ∨ a = 4 ∨ a = 5 ∨ a = 6 ∨ a = 7 := by decide

/-- An instruction that is reserved for some operands. -/
theorem agrees_ite {p : Prop} [Decidable p] {c : Rvc} {i : BitVec 32} {b : Bool}
    (hb : b = true ↔ ¬p) (hi : c.expand.map Instr.encode = [i]) :
    Agrees (i, b) (if p then some c else none) := by
  by_cases hp : p
  · rw [if_pos hp]
    exact ⟨by simpa [hp] using hb, hi⟩
  · rw [if_neg hp]
    exact hb.2 hp

/-- The pieces of a word are zero if the word is. -/
theorem permSp : ∀ (a : BitVec 1) (b : BitVec 2) (c d e : BitVec 1),
    a ++ b ++ c ++ d ++ e = 0#6 ↔ a ++ (e ++ c ++ b ++ d) = 0#6 := by decide

theorem immSp_eq_zero : w.extractLsb 12 12 ++ w.extractLsb 4 3 ++ w.extractLsb 5 5 ++
    w.extractLsb 2 2 ++ w.extractLsb 6 6 = 0#6 ↔
      w.extractLsb 12 12 ++ w.extractLsb 6 2 = 0#6 := by
  have h : w.extractLsb 6 2 = w.extractLsb 6 6 ++ w.extractLsb 5 5 ++ w.extractLsb 4 3 ++
      w.extractLsb 2 2 := by
    apply BitVec.eq_of_getLsbD_eq
    intro i hi
    simp only [BitVec.getLsbD_extractLsb, BitVec.getLsbD_append]
    interval_cases i <;> rfl
  rw [h]
  exact permSp _ _ _ _ _

theorem c1_agrees : Agrees (c1 w) (Rvc.decode1 (w.extractLsb 15 0)) := by
  have ha := c1Alu_agrees w
  simp (disch := omega) only [c1, bad, Rvc.decode1, Rvc.onlyIf, Rvc.rs1', Rvc.rd, Rvc.immCI,
    Rvc.immSp, Rvc.offsetCJ, Rvc.offsetCB, extractLsb_low, bit_13, bit_15]
  rcases tri_cases (w.extractLsb 15 13) with h | h | h | h | h | h | h | h <;> rw [h]
  · change Agrees (_, _) (some _)
    refine ⟨rfl, congrArg (· :: []) ?_⟩
    apply BitVec.eq_of_getLsbD_eq
    intro i hi
    simp only [Instr.encode, iType, opcodeOpImm, sign, BitVec.getLsbD_extractLsb,
      BitVec.getLsbD_append, BitVec.getLsbD_signExtend, BitVec.msb_eq_getLsbD_last,
      BitVec.getLsbD_replicate]
    interval_cases i <;> rfl
  · change Agrees (_, _) (some _)
    refine ⟨rfl, congrArg (· :: []) ?_⟩
    apply BitVec.eq_of_getLsbD_eq
    intro i hi
    simp only [Instr.encode, jType, opcodeJal, sign, BitVec.getLsbD_extractLsb,
      BitVec.getLsbD_append, BitVec.getLsbD_signExtend, BitVec.msb_eq_getLsbD_last,
      BitVec.getLsbD_replicate]
    interval_cases i <;> rfl
  · change Agrees (_, _) (some _)
    refine ⟨rfl, congrArg (· :: []) ?_⟩
    apply BitVec.eq_of_getLsbD_eq
    intro i hi
    simp only [Instr.encode, iType, opcodeOpImm, sign, BitVec.getLsbD_extractLsb,
      BitVec.getLsbD_append, BitVec.getLsbD_signExtend, BitVec.msb_eq_getLsbD_last,
      BitVec.getLsbD_replicate]
    interval_cases i <;> rfl
  · by_cases hr : w.extractLsb 11 7 = 2
    · change Agrees (if w.extractLsb 11 7 = 2 then (_, _) else _)
        (if w.extractLsb 11 7 = 2 then (if _ then some _ else none) else _)
      rw [if_pos hr, if_pos hr]
      refine agrees_ite (by rw [beq_iff_eq, ne_eq, not_not, ← immSp_eq_zero]; rfl)
        (congrArg (· :: []) ?_)
      apply BitVec.eq_of_getLsbD_eq
      intro i hi
      simp only [Instr.encode, iType, opcodeOpImm, sign, BitVec.getLsbD_extractLsb,
        BitVec.getLsbD_append, BitVec.getLsbD_signExtend, BitVec.msb_eq_getLsbD_last,
        BitVec.getLsbD_replicate]
      interval_cases i <;> rfl
    · change Agrees (if w.extractLsb 11 7 = 2 then _ else (_, _))
        (if w.extractLsb 11 7 = 2 then _ else (if _ then some _ else none))
      rw [if_neg hr, if_neg hr]
      refine agrees_ite (by rw [beq_iff_eq, ne_eq, not_not]; rfl) (congrArg (· :: []) ?_)
      apply BitVec.eq_of_getLsbD_eq
      intro i hi
      simp only [Instr.encode, uType, opcodeLui, sign, BitVec.getLsbD_extractLsb,
        BitVec.getLsbD_append, BitVec.getLsbD_signExtend, BitVec.msb_eq_getLsbD_last,
        BitVec.getLsbD_replicate]
      interval_cases i <;> rfl
  · exact ha
  · change Agrees (_, _) (some _)
    refine ⟨rfl, congrArg (· :: []) ?_⟩
    apply BitVec.eq_of_getLsbD_eq
    intro i hi
    simp only [Instr.encode, jType, opcodeJal, sign, BitVec.getLsbD_extractLsb,
      BitVec.getLsbD_append, BitVec.getLsbD_signExtend, BitVec.msb_eq_getLsbD_last,
      BitVec.getLsbD_replicate]
    interval_cases i <;> rfl
  · change Agrees (_, _) (some _)
    refine ⟨rfl, congrArg (· :: []) ?_⟩
    apply BitVec.eq_of_getLsbD_eq
    intro i hi
    simp only [Instr.encode, bType, Rvc.short, opcodeBranch, sign, BitVec.getLsbD_extractLsb,
      BitVec.getLsbD_append, BitVec.getLsbD_signExtend, BitVec.msb_eq_getLsbD_last,
      BitVec.getLsbD_replicate]
    interval_cases i <;> rfl
  · change Agrees (_, _) (some _)
    refine ⟨rfl, congrArg (· :: []) ?_⟩
    apply BitVec.eq_of_getLsbD_eq
    intro i hi
    simp only [Instr.encode, bType, Rvc.short, opcodeBranch, sign, BitVec.getLsbD_extractLsb,
      BitVec.getLsbD_append, BitVec.getLsbD_signExtend, BitVec.msb_eq_getLsbD_last,
      BitVec.getLsbD_replicate]
    interval_cases i <;> rfl

theorem c2Jump_agrees : Agrees (c2Jump w) (Rvc.decodeJump (w.extractLsb 15 0)) := by
  simp (disch := omega) only [c2Jump, Rvc.decodeJump, Rvc.onlyIf, Rvc.rs2, Rvc.rd,
    extractLsb_low, ne_eq, ite_not]
  rcases bit_cases (w.extractLsb 12 12) with h | h <;> rw [h]
  · change Agrees (if w.extractLsb 6 2 = 0 then (_, _) else (_, _))
      (if w.extractLsb 6 2 = 0 then _ else _)
    by_cases hs : w.extractLsb 6 2 = 0
    · rw [if_pos hs, if_pos hs]
      by_cases hd : w.extractLsb 11 7 = 0
      · rw [if_pos hd]
        exact beq_iff_eq.2 hd
      · rw [if_neg hd]
        exact ⟨beq_eq_false_iff_ne.2 hd, rfl⟩
    · rw [if_neg hs, if_neg hs]
      exact ⟨rfl, rfl⟩
  · change Agrees
      (if w.extractLsb 6 2 = 0 then (if w.extractLsb 11 7 = 0 then _ else _) else (_, _))
      (if w.extractLsb 6 2 = 0 then (if w.extractLsb 11 7 = 0 then _ else _) else _)
    by_cases hs : w.extractLsb 6 2 = 0
    · rw [if_pos hs, if_pos hs]
      by_cases hd : w.extractLsb 11 7 = 0
      · rw [if_pos hd, if_pos hd]
        exact ⟨rfl, rfl⟩
      · rw [if_neg hd, if_neg hd]
        exact ⟨rfl, rfl⟩
    · rw [if_neg hs, if_neg hs]
      exact ⟨rfl, rfl⟩

theorem c2_agrees (h5 : w.extractLsb 15 13 ≠ 5) :
    Agrees (c2 w) (Rvc.decode2 (w.extractLsb 15 0)) := by
  have hj := c2Jump_agrees w
  simp (disch := omega) only [c2, bad, Rvc.decode2, Rvc.onlyIf, Rvc.rs2, Rvc.rd, Rvc.immLwsp,
    Rvc.immSwsp, extractLsb_low]
  rcases tri_cases (w.extractLsb 15 13) with h | h | h | h | h | h | h | h
  case inr.inr.inr.inr.inr.inl => exact absurd h h5
  all_goals rw [h]
  · change Agrees (_, _) (if w.extractLsb 12 12 = 0 then some _ else none)
    refine agrees_ite ?_ (congrArg (· :: []) ?_)
    · rcases bit_cases (w.extractLsb 12 12) with h | h <;> rw [h] <;> decide
    · simp [Instr.encode, rType, opcodeOpImm]
  · rfl
  · change Agrees (_, _) (if w.extractLsb 11 7 ≠ 0 then some _ else none)
    refine agrees_ite (by simp) (congrArg (· :: []) ?_)
    apply BitVec.eq_of_getLsbD_eq
    intro i hi
    simp only [Instr.encode, iType, opcodeLoad, BitVec.getLsbD_extractLsb,
      BitVec.getLsbD_append, BitVec.zeroExtend_eq_setWidth, BitVec.getLsbD_setWidth]
    interval_cases i <;> rfl
  · rfl
  · exact hj
  · change Agrees (_, _) (some _)
    refine ⟨rfl, congrArg (· :: []) ?_⟩
    apply BitVec.eq_of_getLsbD_eq
    intro i hi
    simp only [Instr.encode, sType, opcodeStore, BitVec.getLsbD_extractLsb,
      BitVec.getLsbD_append, BitVec.zeroExtend_eq_setWidth, BitVec.getLsbD_setWidth]
    interval_cases i <;> rfl
  · rfl

end CompressedDecoder

end SentinelSoc
