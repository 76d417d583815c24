/-
  The instruction classes of the taint policy.

  * `PolicyClass`: the classes, with the check bits and the mode of each;
  * `policyClass`: the class of an instruction;
  * `decoders_eq`: what each decoder gives a legal word;
  * `decoders_agree`: both give it the same class;
  * `classified_iff`: the words on which they differ, none of which is legal.
-/
import SentinelSoc.Core.Decoder

namespace SentinelSoc

/-- The classes that the policy registers have fields for. -/
inductive PolicyClass
  | jump
  | branch
  | loadstore
  | integer
  | shift
  | comparison
  | logical
  deriving DecidableEq

namespace PolicyClass

/-- The check bits of a class. -/
def checks (c : PolicyClass) (tcr : BitVec 32) : Checks :=
  match c with
  | .jump => .jump tcr
  | .branch => .branch tcr
  | .loadstore => .loadstore tcr
  | .integer => .integer tcr
  | .shift => .shift tcr
  | .comparison => .comparison tcr
  | .logical => .logical tcr

/-- The low bit of the field of a class. -/
def low (c : PolicyClass) : ℕ :=
  match c with
  | .jump => Tpr.jump
  | .branch => Tpr.branch
  | .loadstore => Tpr.loadstore
  | .integer => Tpr.integer
  | .shift => Tpr.shift
  | .comparison => Tpr.comparison
  | .logical => Tpr.logical

/-- The mode of a class. -/
def mode (c : PolicyClass) (tpr : BitVec 32) : TagMode := Tpr.mode tpr c.low

end PolicyClass

/-- What a word of class `o` is checked for; a word of no class is not checked. -/
def checksOf (o : Option PolicyClass) (tcr : BitVec 32) : Checks :=
  match o with
  | some c => c.checks tcr
  | none => .none

/-- How a word of class `o` propagates; a word of no class leaves the tag. -/
def modeOf (o : Option PolicyClass) (tpr : BitVec 32) : TagMode :=
  match o with
  | some c => c.mode tpr
  | none => .old

open Instr

/-- The class of a register or immediate operation. -/
def aluClass (f : BitVec 3) : PolicyClass :=
  if f = 0 then .integer
  else if f = 1 ∨ f = 5 then .shift
  else if f = 2 ∨ f = 3 then .comparison
  else .logical

/-- The class of an instruction; those of the M extension are integer operations. -/
def policyClass (w : BitVec 32) : Option PolicyClass :=
  match opcode w with
  | .jal | .jalr => some .jump
  | .branch => some .branch
  | .store | .lui | .auipc => some .loadstore
  | .opImm => some (aluClass (funct3 w))
  | .op => some (if funct7 w = 1 then .integer else aluClass (funct3 w))
  | .load | .miscMem | .system | .other => none

/-! ## The classes differ -/

namespace PolicyClass

/-- The check bit for the first operand. -/
def checkS1 (c : PolicyClass) : ℕ :=
  match c with
  | .jump => Tcr.jumpCheckS1
  | .branch => Tcr.branchCheckS1
  | .loadstore => Tcr.loadstoreCheckDa
  | .integer => Tcr.integerCheckS1
  | .shift => Tcr.shiftCheckS1
  | .comparison => Tcr.comparisonCheckS1
  | .logical => Tcr.logicalCheckS1

/-- A policy that checks the first operand of one class. -/
theorem checks_only (c c' : PolicyClass) :
    (c'.checks (BitVec.twoPow 32 c.checkS1)).s1 = decide (c' = c) := by
  cases c <;> cases c' <;> rfl

/-- A policy that clears the results of one class. -/
theorem mode_only (c c' : PolicyClass) :
    c'.mode (BitVec.ofNat 32 (3 * 2 ^ c.low)) = if c' = c then .clear else .old := by
  cases c <;> cases c' <;> rfl

end PolicyClass

/-- A class is known by its check bits. -/
theorem checks_injective {o o' : Option PolicyClass} (h : ∀ tcr, checksOf o tcr = checksOf o' tcr) :
    o = o' := by
  have hs (c : PolicyClass) : (checksOf o (BitVec.twoPow 32 c.checkS1)).s1 =
      (checksOf o' (BitVec.twoPow 32 c.checkS1)).s1 := by rw [h]
  cases o with
  | none =>
    cases o' with
    | none => rfl
    | some c' => simpa [checksOf, PolicyClass.checks_only, Checks.none] using hs c'
  | some c =>
    cases o' with
    | none => simpa [checksOf, PolicyClass.checks_only, Checks.none] using hs c
    | some c' =>
      have hc := hs c
      simp only [checksOf, PolicyClass.checks_only, decide_true] at hc
      rw [of_decide_eq_true hc.symm]

/-- A class is known by its mode. -/
theorem mode_injective {o o' : Option PolicyClass} (h : ∀ tpr, modeOf o tpr = modeOf o' tpr) :
    o = o' := by
  have hs (c : PolicyClass) := h (BitVec.ofNat 32 (3 * 2 ^ c.low))
  cases o with
  | none =>
    cases o' with
    | none => rfl
    | some c' => simpa [modeOf, PolicyClass.mode_only] using hs c'
  | some c =>
    cases o' with
    | none => simpa [modeOf, PolicyClass.mode_only] using hs c
    | some c' =>
      have hc := hs c
      simp only [modeOf, PolicyClass.mode_only, if_true] at hc
      by_contra hne
      rw [if_neg fun he => hne (by rw [he])] at hc
      exact TagMode.noConfusion hc

/-! ## The legal words -/

variable {w : BitVec 32}

theorem legal_opImm (h : Decoder.illegal w = false) (hop : opcode w = .opImm) :
    (funct3 w = 1 → funct7 w = 0) ∧ (funct3 w = 5 → funct7 w = 0 ∨ funct7 w = 0x20) := by
  rw [Decoder.illegal, hop] at h
  constructor
  · intro hf
    simpa [hf] using h
  · intro hf
    simpa [hf, or_iff_not_imp_left] using h

theorem legal_op (h : Decoder.illegal w = false) (hop : opcode w = .op) :
    funct7 w = 0 ∨ funct7 w = 1 ∨ funct7 w = 0x20 ∧ (funct3 w = 0 ∨ funct3 w = 5) := by
  rw [Decoder.illegal, hop] at h
  simp only [Bool.and_eq_false_iff, Bool.or_eq_false_iff, bne_eq_false_iff_eq] at h
  tauto

theorem funct3_cases (f : BitVec 3) :
    f = 0 ∨ f = 1 ∨ f = 2 ∨ f = 3 ∨ f = 4 ∨ f = 5 ∨ f = 6 ∨ f = 7 := by
  revert f
  decide

theorem legal_store (h : Decoder.illegal w = false) (hop : opcode w = .store) : funct3 w ≠ 7 := by
  rw [Decoder.illegal, hop] at h
  intro hf
  simp [hf] at h

/-! ## The two decoders -/

/-- **Each decoder gives a legal word what its class gets**. -/
theorem decoders_eq (h : Decoder.illegal w = false) (tcr tpr : BitVec 32) :
    diftTmu w tcr = checksOf (policyClass w) tcr ∧ modeTag w tpr = modeOf (policyClass w) tpr := by
  rcases hop : opcode w
  case opImm =>
    obtain ⟨h1, h5⟩ := legal_opImm h hop
    simp only [diftTmu, modeTag, policyClass, hop, checksOf, modeOf]
    rcases funct3_cases (funct3 w) with hf | hf | hf | hf | hf | hf | hf | hf
    -- the shifts have a `funct7`
    case inr.inl =>
      have hg := h1 hf
      simp [hf, hg, aluClass, PolicyClass.checks, PolicyClass.mode, PolicyClass.low]
    case inr.inr.inr.inr.inr.inl =>
      rcases h5 hf with hg | hg <;>
        simp [hf, hg, aluClass, PolicyClass.checks, PolicyClass.mode, PolicyClass.low]
    all_goals simp [hf, aluClass, PolicyClass.checks, PolicyClass.mode, PolicyClass.low]
  case op =>
    simp only [diftTmu, modeTag, policyClass, hop, checksOf, modeOf]
    rcases legal_op h hop with hg | hg | ⟨hg, hf | hf⟩
    · rcases funct3_cases (funct3 w) with hf | hf | hf | hf | hf | hf | hf | hf <;>
        simp [hf, hg, aluClass, PolicyClass.checks, PolicyClass.mode, PolicyClass.low]
    · rcases funct3_cases (funct3 w) with hf | hf | hf | hf | hf | hf | hf | hf <;>
        simp [hf, hg, PolicyClass.checks, PolicyClass.mode, PolicyClass.low]
    · simp [hf, hg, aluClass, PolicyClass.checks, PolicyClass.mode, PolicyClass.low]
    · simp [hf, hg, aluClass, PolicyClass.checks, PolicyClass.mode, PolicyClass.low]
  case store =>
    have hf := legal_store h hop
    simp only [diftTmu, modeTag, policyClass, hop, checksOf, modeOf, if_neg hf]
    exact ⟨rfl, rfl⟩
  all_goals
    simp only [diftTmu, modeTag, policyClass, hop, checksOf, modeOf]
    first | exact ⟨rfl, rfl⟩ | trivial

/-- A legal word that is no load, fence or system instruction has a class. -/
theorem policyClass_isSome (h : Decoder.illegal w = false) (hl : opcode w ≠ .load)
    (hf : opcode w ≠ .miscMem) (hs : opcode w ≠ .system) : ∃ c, policyClass w = some c := by
  rcases hop : opcode w
  case load => exact absurd hop hl
  case miscMem => exact absurd hop hf
  case system => exact absurd hop hs
  case other => simp [Decoder.illegal, hop] at h
  all_goals
    simp only [policyClass, hop]
    exact ⟨_, rfl⟩

/-- **Both decoders put an instruction into the same class**: every word that the core takes for an
    instruction, but for loads, fences and system instructions, is checked as one class and
    propagates as that class, and as no other. -/
theorem decoders_agree (illegalC firstCycle : Bool)
    (h : (decode w illegalC firstCycle).illegalInsn = false) (hl : opcode w ≠ .load)
    (hf : opcode w ≠ .miscMem) (hs : opcode w ≠ .system) :
    ∃ c, policyClass w = some c ∧
      (∀ o, (∀ tcr, diftTmu w tcr = checksOf o tcr) ↔ o = some c) ∧
      ∀ o, (∀ tpr, modeTag w tpr = modeOf o tpr) ↔ o = some c := by
  have hw : Decoder.illegal w = false := (Bool.or_eq_false_iff.1 h).1
  obtain ⟨c, hc⟩ := policyClass_isSome hw hl hf hs
  have heq := decoders_eq hw
  rw [hc] at heq
  refine ⟨c, hc, fun o => ⟨fun ho => ?_, ?_⟩, fun o => ⟨fun ho => ?_, ?_⟩⟩
  · exact checks_injective fun tcr => (ho tcr).symm.trans (heq tcr 0).1
  · rintro rfl tcr
    exact (heq tcr 0).1
  · exact mode_injective fun tpr => (ho tpr).symm.trans (heq 0 tpr).2
  · rintro rfl tpr
    exact (heq 0 tpr).2

/-- `mulh x1, x2, x3` -/
theorem decoders_agree_mulh : ∃ c, policyClass 0x023110b3 = some c ∧
    (∀ o, (∀ tcr, diftTmu 0x023110b3 tcr = checksOf o tcr) ↔ o = some c) ∧
    ∀ o, (∀ tpr, modeTag 0x023110b3 tpr = modeOf o tpr) ↔ o = some c :=
  decoders_agree false true (by decide) (by decide) (by decide) (by decide)

/-! ## The words that are no instructions -/

/-- A store of width 7, and register operations whose `funct7` only `diftTmu` looks at. -/
def Differs (w : BitVec 32) : Prop :=
  opcode w = .store ∧ funct3 w = 7 ∨
    opcode w = .op ∧ funct7 w ≠ 0 ∧ funct7 w ≠ 1 ∧ funct7 w ≠ 0x5a ∧ funct3 w ≠ 1 ∧
      ¬ (funct7 w = 0x20 ∧ (funct3 w = 0 ∨ funct3 w = 5))

/-- The check class and the propagation class are one. -/
def Classified (w : BitVec 32) : Prop :=
  ∃ o, (∀ tcr, diftTmu w tcr = checksOf o tcr) ∧ ∀ tpr, modeTag w tpr = modeOf o tpr

theorem Differs.not_classified (h : Differs w) : ¬ Classified w := by
  rintro ⟨o, hc, hm⟩
  rcases h with ⟨hop, hf⟩ | ⟨hop, h0, h1, h5a, hf1, h20⟩
  · have ho : o = some .loadstore := checks_injective fun tcr => by
      rw [← hc]
      simp only [diftTmu, hop, checksOf, PolicyClass.checks]
    have hold : o = none := mode_injective fun tpr => by
      rw [← hm]
      simp only [modeTag, hop, hf, if_true, modeOf]
    exact absurd (ho.symm.trans hold) (by simp)
  · have ho : o = none := checks_injective fun tcr => by
      rw [← hc]
      simp only [diftTmu, hop, checksOf]
      rcases funct3_cases (funct3 w) with hf | hf | hf | hf | hf | hf | hf | hf <;>
        simp_all
    subst ho
    obtain ⟨c, hclass⟩ : ∃ c : PolicyClass, ∀ tpr, modeTag w tpr = c.mode tpr := by
      simp only [modeTag, hop, if_neg h5a, if_neg h0, if_neg h1, if_neg hf1]
      by_cases h5 : funct3 w = 5
      · exact ⟨.shift, fun tpr => by simp only [h5]; rfl⟩
      · refine ⟨.integer, fun tpr => ?_⟩
        rw [if_neg h5]
        split_ifs <;> rfl
    have hnone : (none : Option PolicyClass) = some c :=
      mode_injective fun tpr => (hm tpr).symm.trans (hclass tpr)
    exact absurd hnone (by simp)

theorem classified_of_legal (h : Decoder.illegal w = false) : Classified w :=
  ⟨policyClass w, fun tcr => (decoders_eq h tcr 0).1, fun tpr => (decoders_eq h 0 tpr).2⟩

/-- A word of no class. -/
theorem classified_of_none (hc : ∀ tcr, diftTmu w tcr = .none) (hm : ∀ tpr, modeTag w tpr = .old) :
    Classified w :=
  ⟨none, hc, hm⟩

theorem classified_of_not_differs (h : ¬ Differs w) : Classified w := by
  by_cases hw : Decoder.illegal w = false
  · exact classified_of_legal hw
  rw [Bool.not_eq_false] at hw
  rcases hop : opcode w
  case jal | lui | auipc => simp [Decoder.illegal, hop] at hw
  case load | miscMem | system | other =>
    refine classified_of_none (fun tcr => ?_) fun tpr => ?_
    · simp only [diftTmu, hop]
    · simp only [modeTag, hop]
  case jalr =>
    refine ⟨some .jump, fun tcr => ?_, fun tpr => ?_⟩
    · simp only [diftTmu, hop, checksOf, PolicyClass.checks]
    · simp only [modeTag, hop, modeOf, PolicyClass.mode, PolicyClass.low]
  case branch =>
    refine ⟨some .branch, fun tcr => ?_, fun tpr => ?_⟩
    · simp only [diftTmu, hop, checksOf, PolicyClass.checks]
    · simp only [modeTag, hop, modeOf, PolicyClass.mode, PolicyClass.low]
  case store =>
    have hf : funct3 w ≠ 7 := fun hf => h (.inl ⟨hop, hf⟩)
    refine ⟨some .loadstore, fun tcr => ?_, fun tpr => ?_⟩
    · simp only [diftTmu, hop, checksOf, PolicyClass.checks]
    · simp only [modeTag, hop, if_neg hf, modeOf, PolicyClass.mode, PolicyClass.low]
  case opImm =>
    -- a shift with another `funct7`
    have hshift : funct3 w = 1 ∧ funct7 w ≠ 0 ∨
        funct3 w = 5 ∧ ¬ (funct7 w = 0 ∨ funct7 w = 0x20) := by
      rw [Decoder.illegal, hop] at hw
      simp only at hw
      split_ifs at hw with h1 h5
      · exact .inl ⟨h1, by simpa using hw⟩
      · exact .inr ⟨h5, by simpa [not_or] using hw⟩
    refine classified_of_none (fun tcr => ?_) fun tpr => ?_
    · rcases hshift with ⟨hf, hg⟩ | ⟨hf, hg⟩ <;> simp only [diftTmu, hop, hf, if_neg hg] <;> rfl
    · rcases hshift with ⟨hf, hg⟩ | ⟨hf, hg⟩ <;> simp only [modeTag, hop, hf, if_neg hg] <;> rfl
  case op =>
    obtain ⟨h0, h1, h20⟩ : funct7 w ≠ 0 ∧ funct7 w ≠ 1 ∧
        ¬ (funct7 w = 0x20 ∧ (funct3 w = 0 ∨ funct3 w = 5)) := by
      rw [Decoder.illegal, hop] at hw
      simp only [Bool.and_eq_true, Bool.or_eq_true, bne_iff_ne] at hw
      tauto
    have hcases : funct7 w = 0x5a ∨ funct3 w = 1 := by
      by_contra hc
      exact h (.inr ⟨hop, h0, h1, fun h5a => hc (.inl h5a), fun hf => hc (.inr hf), h20⟩)
    refine classified_of_none (fun tcr => ?_) fun tpr => ?_
    · simp only [diftTmu, hop, if_neg h0, if_neg h1]
      split_ifs <;> tauto
    · simp only [modeTag, hop, if_neg h0, if_neg h1]
      rcases hcases with hg | hf
      · rw [if_pos hg]
      · have h10 : ¬ (1 : BitVec 3) = 0 := by decide
        simp only [hf, if_neg h10, if_true, ite_self]

/-- **The two decoders differ on no other words**: all of them are illegal. -/
theorem classified_iff : Classified w ↔ ¬ Differs w :=
  ⟨fun hc hd => hd.not_classified hc, classified_of_not_differs⟩

theorem Differs.illegal (h : Differs w) : Decoder.illegal w = true := by
  by_contra hw
  rw [Bool.not_eq_true] at hw
  exact h.not_classified (classified_of_legal hw)

end SentinelSoc
