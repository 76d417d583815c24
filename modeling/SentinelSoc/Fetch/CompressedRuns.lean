/-
  What the compressed decoder gives the ID stage for a word, instruction by instruction.

  * `Gives`: the instructions that a state still has to give for the word at the input;
  * `gives_push`, `gives_pop`, `gives_mv`: the state machines of Zcmp;
  * `Gives.congr`: the bits above a compressed instruction do not matter;
  * `gives_instrs`: an idle decoder gives what the word stands for;
  * `accepts`: the words that are not flagged.
-/
import SentinelSoc.Fetch.CompressedTable

open Rv32

namespace SentinelSoc

namespace CompressedDecoder

/-! ## The state machines of Zcmp -/

variable {w : BitVec 32} {s : CompressedDecoder}

/-- Each time that the ID stage is ready it is given the next instruction, and the machine is
idle again with the last. -/
inductive Gives (w : BitVec 32) : CompressedDecoder → List (BitVec 32) → Prop
  | last {s s' : CompressedDecoder} {i : BitVec 32} {e : InstrExp}
      (ho : s.decompress w true true = ⟨i, false, e, s'⟩) (he : e ≠ .expanded)
      (hs : s'.stateQ = .idle) : Gives w s [i]
  | more {s s' : CompressedDecoder} {i : BitVec 32} {l : List (BitVec 32)}
      (ho : s.decompress w true true = ⟨i, false, .expanded, s'⟩) (hs : s'.stateQ ≠ .idle)
      (hg : Gives w s' l) : Gives w s (i :: l)

/-- Stores of `n + 1` registers, and the loads that undo them. -/
def stores : ℕ → BitVec 5 → BitVec 5 → List (BitVec 32)
  | 0, rlist, spOffset => [cmPushStoreReg rlist spOffset]
  | n + 1, rlist, spOffset =>
    cmPushStoreReg rlist spOffset :: stores n (rlist - 1) (spOffset + 1)

def loads : ℕ → BitVec 5 → BitVec 5 → List (BitVec 32)
  | 0, rlist, spOffset => [cmPopLoadReg rlist spOffset]
  | n + 1, rlist, spOffset =>
    cmPopLoadReg rlist spOffset :: loads n (rlist - 1) (spOffset - 1)

theorem rlist_succ {rlist : BitVec 5} {n : ℕ} (h : rlist.toNat = n + 1 + 4) :
    rlist ≠ 4 ∧ (rlist - 1).toNat = n + 4 := by
  constructor
  · rintro rfl
    exact absurd h (by simp)
  · bv_omega

theorem gives_stores (hw : ∀ (s : CompressedDecoder) v r, s.decompress w v r = push w s v r) :
    ∀ (n : ℕ) (rlist spOffset : BitVec 5), rlist.toNat = n + 4 →
      Gives w ⟨rlist, spOffset, .pushStoreReg⟩
        (stores n rlist spOffset ++ [cmSpAddi (w.extractLsb 7 4) (w.extractLsb 3 2) true]) := by
  intro n
  induction n with
  | zero =>
    intro rlist spOffset h
    obtain rfl : rlist = 4 := BitVec.eq_of_toNat_eq h
    have hd : Gives w ⟨4 - 1, spOffset + 1, .pushDecrSp⟩
        [cmSpAddi (w.extractLsb 7 4) (w.extractLsb 3 2) true] :=
      .last (by rw [hw]; rfl) (by simp) rfl
    exact .more (by rw [hw]; rfl) (by simp) hd
  | succ n ih =>
    intro rlist spOffset h
    obtain ⟨hne, hr⟩ := rlist_succ h
    exact .more (by rw [hw]; simp only [push, if_pos, if_neg hne]) (by simp) (ih _ _ hr)

theorem gives_push (hw : ∀ (s : CompressedDecoder) v r, s.decompress w v r = push w s v r)
    (hs : s.stateQ = .idle) {n : ℕ} (hn : (cmRlistInit (w.extractLsb 7 4)).toNat = n + 4) :
    Gives w s (stores n (cmRlistInit (w.extractLsb 7 4)) 1 ++
      [cmSpAddi (w.extractLsb 7 4) (w.extractLsb 3 2) true]) := by
  have hle : ¬cmRlistInit (w.extractLsb 7 4) ≤ 3 := by bv_omega
  cases n with
  | zero =>
    have h4 : cmRlistInit (w.extractLsb 7 4) = 4 := BitVec.eq_of_toNat_eq hn
    have hd : Gives w { s with rlistQ := 4, stateQ := .pushDecrSp }
        [cmSpAddi (w.extractLsb 7 4) (w.extractLsb 3 2) true] :=
      .last (by rw [hw]; rfl) (by simp) rfl
    refine .more ?_ (by simp) hd
    rw [hw]
    simp [push, hs, h4]
  | succ n =>
    obtain ⟨hne, hr⟩ := rlist_succ hn
    refine .more ?_ ?_ (gives_stores hw n _ 2 hr)
    · rw [hw]
      simp only [push, hs, if_neg hle, if_neg hne, decide_eq_false hle, Bool.and_self, if_true]
    · simp

/-- What follows the loads. -/
def popEnd (w : BitVec 32) : List (BitVec 32) :=
  cmSpAddi (w.extractLsb 7 4) (w.extractLsb 3 2) false ::
    (if w.extractLsb 12 8 = 0b11100 then [cmZeroA0, cmRetRa]
      else if w.extractLsb 12 8 = 0b11110 then [cmRetRa] else [])

theorem gives_popEnd (hw : ∀ (s : CompressedDecoder) v r, s.decompress w v r = pop w s v r)
    (hs : s.stateQ = .popIncrSp) : Gives w s (popEnd w) := by
  have hret : ∀ s : CompressedDecoder, s.stateQ = .popRetRa → Gives w s [cmRetRa] := by
    intro s hs
    have ho : s.decompress w true true = ⟨cmRetRa, false, .expandedLast, s.go .idle⟩ := by
      rw [hw]
      simp [pop, hs]
    exact .last ho (by simp) rfl
  have hzero : ∀ s : CompressedDecoder, s.stateQ = .popZeroA0 →
      Gives w s [cmZeroA0, cmRetRa] := by
    intro s hs
    have ho : s.decompress w true true = ⟨cmZeroA0, false, .expanded, s.go .popRetRa⟩ := by
      rw [hw]
      simp [pop, hs]
    exact .more ho (by simp [go]) (hret _ rfl)
  unfold popEnd
  split_ifs with hz hr
  · refine .more ?_ (by simp [go]) (hzero (s.go .popZeroA0) rfl)
    rw [hw]
    simp [pop, hs, hz]
  · refine .more ?_ (by simp [go]) (hret (s.go .popRetRa) rfl)
    rw [hw]
    simp [pop, hs, hr]
  · have ho : s.decompress w true true = ⟨cmSpAddi (w.extractLsb 7 4) (w.extractLsb 3 2) false,
        false, .expandedLast, s.go .idle⟩ := by
      rw [hw]
      simp only [pop, hs, if_true, Bool.true_and, Bool.and_eq_true, bne_iff_ne, ne_eq, hz, hr,
        not_false_eq_true, and_self, if_false]
    exact .last ho (by simp) rfl

theorem gives_loads (hw : ∀ (s : CompressedDecoder) v r, s.decompress w v r = pop w s v r) :
    ∀ (n : ℕ) (rlist spOffset : BitVec 5), rlist.toNat = n + 4 →
      Gives w ⟨rlist, spOffset, .popLoadReg⟩ (loads n rlist spOffset ++ popEnd w) := by
  intro n
  induction n with
  | zero =>
    intro rlist spOffset h
    obtain rfl : rlist = 4 := BitVec.eq_of_toNat_eq h
    exact .more (by rw [hw]; rfl) (by simp) (gives_popEnd hw (s := ⟨_, _, .popIncrSp⟩) rfl)
  | succ n ih =>
    intro rlist spOffset h
    obtain ⟨hne, hr⟩ := rlist_succ h
    exact .more (by rw [hw]; simp only [pop, if_pos, if_neg hne]) (by simp) (ih _ _ hr)

theorem gives_pop (hw : ∀ (s : CompressedDecoder) v r, s.decompress w v r = pop w s v r)
    (hs : s.stateQ = .idle) {n : ℕ} (hn : (cmRlistInit (w.extractLsb 7 4)).toNat = n + 4) :
    Gives w s (loads n (cmRlistInit (w.extractLsb 7 4))
      (cmStackAdjWord (w.extractLsb 7 4) (w.extractLsb 3 2) - 1) ++ popEnd w) := by
  have hle : ¬cmRlistInit (w.extractLsb 7 4) ≤ 3 := by bv_omega
  cases n with
  | zero =>
    have h4 : cmRlistInit (w.extractLsb 7 4) = 4 := BitVec.eq_of_toNat_eq hn
    refine .more ?_ ?_ (gives_popEnd hw (s := ⟨4,
      cmStackAdjWord (w.extractLsb 7 4) (w.extractLsb 3 2) - 1, .popIncrSp⟩) rfl)
    · rw [hw]
      simp [pop, hs, h4]
    · simp
  | succ n =>
    obtain ⟨hne, hr⟩ := rlist_succ hn
    refine .more ?_ ?_ (gives_loads hw n _ _ hr)
    · rw [hw]
      simp only [pop, hs, if_neg hle, if_neg hne, decide_eq_false hle, Bool.and_self, if_true]
    · simp

theorem gives_mv {first second : BitVec 32}
    (hw : ∀ (s : CompressedDecoder) v r, s.decompress w v r = mv w s v r first second)
    (hs : s.stateQ = .idle) : Gives w s [first, second] := by
  have h2 : Gives w (s.go .mvSecondReg) [second] := .last (by rw [hw]; rfl) (by simp) rfl
  refine .more ?_ (by simp [go]) h2
  rw [hw]
  simp [mv, hs]

theorem rlist_init : ∀ l : BitVec 4, 4 ≤ l →
    (cmRlistInit l).toNat = (cmRlistInit l).toNat - 4 + 4 := by decide

/-- The registers and the offsets in the frame. -/
theorem push_table : ∀ (l : BitVec 4) (m : BitVec 2), 4 ≤ l →
    stores ((cmRlistInit l).toNat - 4) (cmRlistInit l) 1 ++ [cmSpAddi l m true] =
      (Rvc.pushOps l m).map Instr.encode := by decide +kernel

theorem pop_table : ∀ (l : BitVec 4) (m : BitVec 2), 4 ≤ l →
    loads ((cmRlistInit l).toNat - 4) (cmRlistInit l) (cmStackAdjWord l m - 1) ++
      [cmSpAddi l m false] = (Rvc.popOps l m).map Instr.encode := by decide +kernel

theorem mvsa01_table : ∀ r r' : BitVec 3, [cmMvsa01 0 r, cmMvsa01 1 r'] =
    (Rvc.mvsa01 r r').expand.map Instr.encode := by decide +kernel

theorem mva01s_table : ∀ r r' : BitVec 3, [cmMva01s r 0, cmMva01s r' 1] =
    (Rvc.mva01s r r').expand.map Instr.encode := by decide +kernel

/-! ## Stalls -/

theorem push_stalled (hs : s.stateQ ≠ .idle) : (push w s true false).next = s ∨
    (push w s true true).getsExpanded = .expanded ∧
      (push w s true true).next.stateQ = .idle := by
  unfold push
  cases h : s.stateQ <;> simp_all [go]

theorem pop_stalled (hs : s.stateQ ≠ .idle) : (pop w s true false).next = s ∨
    (pop w s true true).getsExpanded = .expanded ∧
      (pop w s true true).next.stateQ = .idle := by
  unfold pop
  cases h : s.stateQ <;> simp_all [go]

theorem mv_stalled {first second : BitVec 32} (hs : s.stateQ ≠ .idle) :
    (mv w s true false first second).next = s ∨
      (mv w s true true first second).getsExpanded = .expanded ∧
        (mv w s true true first second).next.stateQ = .idle := by
  unfold mv
  cases h : s.stateQ <;> simp_all [go]

theorem stalled (hs : s.stateQ ≠ .idle) : (s.decompress w true false).next = s ∨
    (s.decompress w true true).getsExpanded = .expanded ∧
      (s.decompress w true true).next.stateQ = .idle := by
  unfold decompress zcmp one
  split_ifs
  all_goals first
    | exact .inl rfl
    | exact push_stalled hs
    | exact pop_stalled hs
    | exact mv_stalled hs

/-- While the ID stage is not ready, an instruction that is under way waits. -/
theorem Gives.stalled {l : List (BitVec 32)} (hg : Gives w s l) (hs : s.stateQ ≠ .idle) :
    (s.decompress w true false).next = s := by
  rcases CompressedDecoder.stalled (w := w) hs with h | ⟨he, hi⟩
  · exact h
  · cases hg with
    | last ho hne _ =>
      rw [ho] at he
      exact absurd he hne
    | more ho hne _ =>
      rw [ho] at hi
      exact absurd hi hne

theorem push_idle {v r : Bool} (hs : s.stateQ = .idle) (hv : (v && r) = false) :
    (push w s v r).next.stateQ = .idle := by
  simp only [push, hs, hv, Bool.false_eq_true, if_false]
  split_ifs <;> rfl

theorem pop_idle {v r : Bool} (hs : s.stateQ = .idle) (hv : (v && r) = false) :
    (pop w s v r).next.stateQ = .idle := by
  simp only [pop, hs, hv, Bool.false_eq_true, if_false]
  split_ifs <;> rfl

theorem mv_idle {v r : Bool} {first second : BitVec 32} (hs : s.stateQ = .idle)
    (hv : (v && r) = false) : (mv w s v r first second).next.stateQ = .idle := by
  simp only [mv, hs, hv, Bool.false_eq_true, if_false]

/-- And no instruction begins. -/
theorem idle_kept {v r : Bool} (hs : s.stateQ = .idle) (hv : (v && r) = false) :
    (s.decompress w v r).next.stateQ = .idle := by
  unfold decompress zcmp one
  split_ifs
  all_goals first
    | exact hs
    | exact push_idle hs hv
    | exact pop_idle hs hv
    | exact mv_idle hs hv

/-! ## The bits above a compressed instruction -/

/-- The words begin with the same instruction: above a compressed one there may be any bits. -/
def SameInstr (w w' : BitVec 32) : Prop :=
  w' = w ∨ w.extractLsb 1 0 ≠ 3 ∧ w'.extractLsb 15 0 = w.extractLsb 15 0

variable {w' : BitVec 32}

theorem field_congr (h : w'.extractLsb 15 0 = w.extractLsb 15 0) {m l : ℕ} (hl : l ≤ m)
    (hm : m ≤ 15) : w'.extractLsb m l = w.extractLsb m l := by
  rw [← extractLsb_low w' hl hm, h, extractLsb_low w hl hm]

theorem SameInstr.symm (h : SameInstr w w') : SameInstr w' w := by
  rcases h with rfl | ⟨h3, h⟩
  · exact .inl rfl
  · exact .inr ⟨by rwa [field_congr h (by omega) (by omega)], h.symm⟩

theorem c0Zcb_congr (h : w'.extractLsb 15 0 = w.extractLsb 15 0) :
    c0Zcb w' = c0Zcb w ∨ (c0Zcb w).2 = true := by
  have hf := @field_congr w w' h
  simp (disch := omega) only [c0Zcb, bad, hf]
  split_ifs <;> first | exact .inl rfl | exact .inr rfl

theorem c0_congr (h : w'.extractLsb 15 0 = w.extractLsb 15 0) :
    c0 w' = c0 w ∨ (c0 w).2 = true := by
  have hf := @field_congr w w' h
  have hz := c0Zcb_congr h
  simp (disch := omega) only [c0, bad, hf]
  split_ifs <;> first | exact .inl rfl | exact .inr rfl | exact hz

theorem c1Op_congr (h : w'.extractLsb 15 0 = w.extractLsb 15 0) (funct7 : BitVec 7)
    (funct3 : BitVec 3) : c1Op w' funct7 funct3 = c1Op w funct7 funct3 := by
  have h4 := field_congr h (l := 2) (m := 4) (by omega) (by omega)
  have h9 := field_congr h (l := 7) (m := 9) (by omega) (by omega)
  rw [c1Op, c1Op, h4, h9]

theorem c1Unary_congr (h : w'.extractLsb 15 0 = w.extractLsb 15 0) :
    c1Unary w' = c1Unary w ∨ (c1Unary w).2 = true := by
  have hf := @field_congr w w' h
  simp (disch := omega) only [c1Unary, bad, hf]
  split_ifs <;> first | exact .inl rfl | exact .inr rfl

theorem c1Binary_congr (h : w'.extractLsb 15 0 = w.extractLsb 15 0) :
    c1Binary w' = c1Binary w ∨ (c1Binary w).2 = true := by
  have hf := @field_congr w w' h
  have hu := c1Unary_congr h
  simp (disch := omega) only [c1Binary, bad, hf, c1Op_congr h]
  split_ifs <;> first | exact .inl rfl | exact .inr rfl | exact hu

theorem c1Alu_congr (h : w'.extractLsb 15 0 = w.extractLsb 15 0) :
    c1Alu w' = c1Alu w ∨ (c1Alu w).2 = true := by
  have hf := @field_congr w w' h
  have hb := c1Binary_congr h
  simp (disch := omega) only [c1Alu, sign, bad, hf]
  split_ifs <;> first | exact .inl rfl | exact .inr rfl | exact hb

theorem c1_congr (h : w'.extractLsb 15 0 = w.extractLsb 15 0) :
    c1 w' = c1 w ∨ (c1 w).2 = true := by
  have hf := @field_congr w w' h
  have ha := c1Alu_congr h
  simp (disch := omega) only [c1, sign, bad, hf]
  split_ifs <;> first | exact .inl rfl | exact .inr rfl | exact ha

theorem c2Jump_congr (h : w'.extractLsb 15 0 = w.extractLsb 15 0) :
    c2Jump w' = c2Jump w := by
  have hf := @field_congr w w' h
  simp (disch := omega) only [c2Jump, hf]

theorem c2_congr (h : w'.extractLsb 15 0 = w.extractLsb 15 0) :
    c2 w' = c2 w ∨ (c2 w).2 = true := by
  have hf := @field_congr w w' h
  simp (disch := omega) only [c2, bad, hf, c2Jump_congr h]
  split_ifs <;> first | exact .inl rfl | exact .inr rfl

/-- An instruction that the decoder does not know, or not in this state. -/
def Off (o : DecompressedInstr) : Prop :=
  o.illegal = true ∨ o.getsExpanded = .expanded ∧ o.next.stateQ = .idle

theorem zcmp_congr (h : w'.extractLsb 15 0 = w.extractLsb 15 0) :
    zcmp w' s true true = zcmp w s true true ∨ Off (zcmp w s true true) := by
  have hf := @field_congr w w' h
  simp (disch := omega) only [zcmp, push, pop, mv, Off, hf]
  split_ifs <;> first
    | exact .inl rfl
    | exact .inr (.inl rfl)
    | cases s.stateQ <;> first | exact .inl rfl | exact .inr (.inr ⟨rfl, rfl⟩)

theorem decompress_congr (h3 : w.extractLsb 1 0 ≠ 3)
    (h : w'.extractLsb 15 0 = w.extractLsb 15 0) :
    s.decompress w' true true = s.decompress w true true ∨ Off (s.decompress w true true) := by
  have hone : ∀ {o' o : BitVec 32 × Bool}, o' = o ∨ o.2 = true →
      s.one o' = s.one o ∨ Off (s.one o) := by
    rintro o' o (rfl | ho)
    · exact .inl rfl
    · exact .inr (.inl ho)
  simp (disch := omega) only [decompress, field_congr h]
  rcases bits_cases (w.extractLsb 1 0) with h1 | h1 | h1 | h1
  · simp only [h1]
    exact hone (c0_congr h)
  · simp only [h1]
    exact hone (c1_congr h)
  · simp only [h1]
    by_cases h5 : w.extractLsb 15 13 = 0b101
    · simp only [if_pos h5]
      exact zcmp_congr h
    · simp only [if_neg h5]
      exact hone (c2_congr h)
  · exact absurd h1 h3

theorem Gives.congr {l : List (BitVec 32)} (h : SameInstr w w') (hg : Gives w s l) :
    Gives w' s l := by
  rcases h with rfl | ⟨h3, h⟩
  · exact hg
  · induction hg with
    | @last s s' i e ho he hs =>
      rcases decompress_congr (s := s) h3 h with hc | hc | ⟨hc, -⟩
      · exact .last (hc.trans ho) he hs
      · rw [ho] at hc
        exact absurd hc (by simp)
      · rw [ho] at hc
        exact absurd hc he
    | @more s s' i l ho hs _ ih =>
      rcases decompress_congr (s := s) h3 h with hc | hc | ⟨-, hc⟩
      · exact .more (hc.trans ho) hs ih
      · rw [ho] at hc
        exact absurd hc (by simp)
      · rw [ho] at hc
        exact absurd hc hs

theorem Gives.ne_nil {l : List (BitVec 32)} (hg : Gives w s l) : l ≠ [] := by
  cases hg <;> simp

/-! ## The words of a program -/

/-- The words that the core accepts: an instruction of 32 bits, or a compressed one at the low
end. -/
def Legal (w : BitVec 32) : Prop :=
  w.extractLsb 1 0 = 3 ∨ (Rvc.decode (w.extractLsb 15 0)).isSome

instance (w : BitVec 32) : Decidable (Legal w) := inferInstanceAs (Decidable (_ ∨ _))

/-- The instructions that a word stands for. -/
def instrs (w : BitVec 32) : List (BitVec 32) :=
  if w.extractLsb 1 0 = 3 then [w]
  else ((Rvc.decode (w.extractLsb 15 0)).map fun c => c.expand.map Instr.encode).getD []

/-! ## What is accepted -/

theorem bits_12_10 : w.extractLsb 12 10 = (w.extractLsb 12 8).extractLsb 4 2 := by
  apply BitVec.eq_of_getLsbD_eq
  intro i hi
  simp only [BitVec.getLsbD_extractLsb]
  interval_cases i <;> rfl

theorem decompress_zcmp (h1 : w.extractLsb 1 0 = 2) (h3 : w.extractLsb 15 13 = 5) (v r : Bool) :
    s.decompress w v r = zcmp w s v r := by
  simp [decompress, h1, h3]

theorem zcmp_move (hm : w.extractLsb 12 10 = 3) (v r : Bool) : zcmp w s v r =
    if w.extractLsb 6 5 = 0b01 then
      mv w s v r (cmMvsa01 0 (w.extractLsb 9 7)) (cmMvsa01 1 (w.extractLsb 4 2))
    else if w.extractLsb 6 5 = 0b11 then
      mv w s v r (cmMva01s (w.extractLsb 9 7) 0) (cmMva01s (w.extractLsb 4 2) 1)
    else ⟨w, true, .notExpanded, s⟩ := by
  have hne : ∀ x : BitVec 5, x.extractLsb 4 2 = 3#3 →
      x ≠ 0b11000 ∧ ¬(x = 0b11010 ∨ x = 0b11100 ∨ x = 0b11110) := by decide
  obtain ⟨hpush, hpop⟩ := hne _ (bits_12_10.symm.trans hm)
  rw [zcmp, if_neg hpush, if_neg hpop, if_pos hm]

theorem gives_popOps (hw : ∀ (s : CompressedDecoder) v r, s.decompress w v r = pop w s v r)
    (hs : s.stateQ = .idle) (hl : 4 ≤ w.extractLsb 7 4) {rest : List (BitVec 32)}
    (he : popEnd w = cmSpAddi (w.extractLsb 7 4) (w.extractLsb 3 2) false :: rest) :
    Gives w s ((Rvc.popOps (w.extractLsb 7 4) (w.extractLsb 3 2)).map Instr.encode ++ rest) := by
  have hg := gives_pop hw hs (rlist_init _ hl)
  rw [he, List.append_cons, pop_table _ _ hl] at hg
  exact hg

theorem gives_zcmp {c : Rvc} (h1 : w.extractLsb 1 0 = 2) (h3 : w.extractLsb 15 13 = 5)
    (hs : s.stateQ = .idle) (hd : Rvc.decodeZcmp (w.extractLsb 15 0) = some c) :
    Gives w s (c.expand.map Instr.encode) := by
  simp (disch := omega) only [Rvc.decodeZcmp, Rvc.onlyIf, Rvc.rs1', Rvc.rs2', Rvc.rlist,
    Rvc.spimm, extractLsb_low] at hd
  split_ifs at hd with hm h01 h11 hpush hl hpop hl hretz hl hret hl <;> cases hd
  · rw [← mvsa01_table]
    exact gives_mv (fun s v r => by rw [decompress_zcmp h1 h3, zcmp_move hm, if_pos h01]) hs
  · rw [← mva01s_table]
    exact gives_mv
      (fun s v r => by rw [decompress_zcmp h1 h3, zcmp_move hm, if_neg h01, if_pos h11]) hs
  · have hw : ∀ (s : CompressedDecoder) v r, s.decompress w v r = push w s v r := by
      intro s v r
      rw [decompress_zcmp h1 h3, zcmp, if_pos hpush]
    have hg := gives_push hw hs (rlist_init _ hl)
    rw [push_table _ _ hl] at hg
    exact hg
  · have hw : ∀ (s : CompressedDecoder) v r, s.decompress w v r = pop w s v r := by
      intro s v r
      rw [decompress_zcmp h1 h3, zcmp, if_neg hpush, if_pos (.inl hpop)]
    have he : popEnd w = [cmSpAddi (w.extractLsb 7 4) (w.extractLsb 3 2) false] := by
      simp [popEnd, hpop]
    rw [Rvc.expand, ← List.append_nil (List.map _ _)]
    exact gives_popOps hw hs hl he
  · have hw : ∀ (s : CompressedDecoder) v r, s.decompress w v r = pop w s v r := by
      intro s v r
      rw [decompress_zcmp h1 h3, zcmp, if_neg hpush, if_pos (.inr (.inl hretz))]
    have he : popEnd w = cmSpAddi (w.extractLsb 7 4) (w.extractLsb 3 2) false ::
        [cmZeroA0, cmRetRa] := by
      simp [popEnd, hretz]
    rw [Rvc.expand, List.map_append]
    exact gives_popOps hw hs hl he
  · have hw : ∀ (s : CompressedDecoder) v r, s.decompress w v r = pop w s v r := by
      intro s v r
      rw [decompress_zcmp h1 h3, zcmp, if_neg hpush, if_pos (.inr (.inr hret))]
    have he : popEnd w = cmSpAddi (w.extractLsb 7 4) (w.extractLsb 3 2) false :: [cmRetRa] := by
      simp [popEnd, hret]
    rw [Rvc.expand, List.map_append]
    exact gives_popOps hw hs hl he

/-- The table, and the state machines for the rest of the words. -/
theorem agrees_or (w : BitVec 32) : w.extractLsb 1 0 = 3 ∨
    (w.extractLsb 1 0 = 2 ∧ w.extractLsb 15 13 = 5) ∨
    w.extractLsb 1 0 ≠ 3 ∧ ∃ o, Agrees o (Rvc.decode (w.extractLsb 15 0)) ∧
      ∀ (s : CompressedDecoder) v r, s.decompress w v r = s.one o := by
  unfold Rvc.decode decompress
  simp (disch := omega) only [extractLsb_low]
  rcases bits_cases (w.extractLsb 1 0) with h | h | h | h <;> rw [h]
  · exact .inr (.inr ⟨by decide, c0 w, c0_agrees w, fun _ _ _ => rfl⟩)
  · exact .inr (.inr ⟨by decide, c1 w, c1_agrees w, fun _ _ _ => rfl⟩)
  · by_cases h5 : w.extractLsb 15 13 = 5
    · exact .inr (.inl ⟨rfl, h5⟩)
    · refine .inr (.inr ⟨by decide, c2 w, c2_agrees w h5, fun s v r => ?_⟩)
      exact if_neg h5
  · exact .inl rfl

theorem decode_zcmp (h1 : w.extractLsb 1 0 = 2) (h3 : w.extractLsb 15 13 = 5) :
    Rvc.decode (w.extractLsb 15 0) = Rvc.decodeZcmp (w.extractLsb 15 0) := by
  simp (disch := omega) only [Rvc.decode, Rvc.decode2, extractLsb_low, h1, h3]
  rfl

/-- An idle decoder gives the ID stage what the word stands for. -/
theorem gives_instrs (hs : s.stateQ = .idle) (hl : Legal w) : Gives w s (instrs w) := by
  unfold instrs
  rcases agrees_or w with h | ⟨h1, h5⟩ | ⟨h, o, ha, hw⟩
  · rw [if_pos h]
    have ho : s.decompress w true true = ⟨w, false, .notExpanded, s⟩ := by simp [decompress, h]
    exact .last ho (by simp) hs
  · have hne : w.extractLsb 1 0 ≠ 3 := by rw [h1]; decide
    obtain ⟨c, hc⟩ := Option.isSome_iff_exists.1 (hl.resolve_left hne)
    rw [if_neg hne, hc]
    rw [decode_zcmp h1 h5] at hc
    exact gives_zcmp h1 h5 hs hc
  · obtain ⟨c, hc⟩ := Option.isSome_iff_exists.1 (hl.resolve_left h)
    rw [hc] at ha
    rw [if_neg h, hc]
    obtain ⟨hi, he⟩ := ha
    change Gives w s (c.expand.map Instr.encode)
    rw [he]
    have ho : s.decompress w true true = ⟨o.1, false, .notExpanded, s⟩ := by rw [hw, one, hi]
    exact .last ho (by simp) hs

theorem illegal_zcmp {v r : Bool} (hs : s.stateQ = .idle) :
    (zcmp w s v r).illegal = false ↔ (Rvc.decodeZcmp (w.extractLsb 15 0)).isSome := by
  have hl : ∀ l : BitVec 4, cmRlistInit l ≤ 3 ↔ ¬4 ≤ l := by decide
  have hv : ∀ (p : Prop) [Decidable p] (c : Rvc), (Rvc.onlyIf p c).isSome = true ↔ p := by
    intro p _ c
    unfold Rvc.onlyIf
    split <;> simp_all
  simp (disch := omega) only [Rvc.decodeZcmp, Rvc.rlist, Rvc.spimm, extractLsb_low]
  by_cases hm : w.extractLsb 12 10 = 3
  · rw [zcmp_move hm, if_pos hm]
    split_ifs <;> simp [mv, hs]
  · rw [zcmp, if_neg hm, if_neg hm]
    split_ifs <;> simp_all [push, pop]

/-- Accepted are the instructions of 32 bits, the half words of the compressed ones, and those
that Zcmp reserves: the source does not compare the two registers of `cm.mvsa01`. -/
theorem accepts {v r : Bool} (hs : s.stateQ = .idle) : (s.decompress w v r).illegal = false ↔
    w.extractLsb 1 0 = 3 ∨ (∃ c : Rvc, c.Valid ∧ c.encode = w.extractLsb 15 0) ∨
      ∃ r : BitVec 3, (Rvc.mvsa01 r r).encode = w.extractLsb 15 0 := by
  rw [← Rvc.isSome_decode]
  rcases agrees_or w with h | ⟨h1, h5⟩ | ⟨h, o, ha, hw⟩
  · simp [decompress, h]
  · rw [decompress_zcmp h1 h5, illegal_zcmp hs, decode_zcmp h1 h5]
    simp [h1]
  · rw [hw, or_iff_right h]
    cases hc : Rvc.decode (w.extractLsb 15 0) with
    | none =>
      rw [hc] at ha
      have ho : o.2 = true := ha
      simp [one, ho]
    | some c =>
      rw [hc] at ha
      simpa [one] using ha.1

/-- `cm.mvsa01 s0, s0` -/
theorem accepts_reserved :
    ((⟨0, 0, .idle⟩ : CompressedDecoder).decompress 0xac22 true true).illegal = false ↔
      (0xac22 : BitVec 32).extractLsb 1 0 = 3 ∨
        (∃ c : Rvc, c.Valid ∧ c.encode = (0xac22 : BitVec 32).extractLsb 15 0) ∨
          ∃ r : BitVec 3, (Rvc.mvsa01 r r).encode = (0xac22 : BitVec 32).extractLsb 15 0 :=
  accepts (w := 0xac22) (s := ⟨0, 0, .idle⟩) (v := true) (r := true) rfl

end CompressedDecoder

end SentinelSoc
