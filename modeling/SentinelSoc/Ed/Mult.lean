/-
  The iterative 256x256 multiplier (`multiplier.sv`): sixteen 64x64 partial
  products, one per cycle, added one cycle late through a pipeline register.

  * `Mult.step` is one clock edge;
  * `Mult.Calc a b k`: `k` start-free edges after a start on `a` and `b`;
  * `Mult.run_after_start`: seventeen of them leave `a * b` in `p` with `done`
    high, and nothing but a new start changes it;
  * `Mult.done_product`: hence what `done` says in every cycle of every run.
-/
import SentinelSoc.Lib.Sync
import SentinelSoc.Ed.Alu

namespace SentinelSoc

/-- `state_t`. -/
inductive MultState where
  | idle | calc | done
  deriving DecidableEq, Repr

/-- The registers of the module `mult`. -/
structure Mult where
  state : MultState
  aReg : Word
  bReg : Word
  pReg : BitVec 512
  count : BitVec 5
  shiftedProdR : BitVec 512
  done : Bool

/-- The inputs of one cycle. -/
structure MultIn where
  start : Bool
  a : Word
  b : Word

namespace Mult

def reset : Mult := ⟨.idle, 0, 0, 0, 0, 0, false⟩

/-- `count[3:2]`, the word of `a`. -/
def wordA (m : Mult) : ℕ := (m.count.extractLsb' 2 2).toNat

/-- `count[1:0]`, the word of `b`. -/
def wordB (m : Mult) : ℕ := (m.count.extractLsb' 0 2).toNat

def opA (m : Mult) : BitVec 64 :=
  if m.state = .calc ∧ m.count < 16 then m.aReg.extractLsb' (64 * m.wordA) 64 else 0

def opB (m : Mult) : BitVec 64 :=
  if m.state = .calc ∧ m.count < 16 then m.bReg.extractLsb' (64 * m.wordB) 64 else 0

def prod (m : Mult) : BitVec 128 := m.opA.setWidth 128 * m.opB.setWidth 128

/-- `shift_amt`, the lane of the partial product. -/
def shiftAmt (m : Mult) : ℕ := m.wordA + m.wordB

def shiftedProd (m : Mult) : BitVec 512 := m.prod.setWidth 512 <<< (64 * m.shiftAmt)

/-- What `start` loads, in every state. -/
def load (a b : Word) : Mult := ⟨.calc, a, b, 0, 0, 0, false⟩

/-- One clock edge. -/
def step (m : Mult) (i : MultIn) : Mult :=
  if i.start then load i.a i.b
  else match m.state with
    | .idle => m
    | .calc =>
      { m with
        pReg := m.pReg + m.shiftedProdR
        shiftedProdR := m.shiftedProd
        -- the last partial product is added on the edge that leaves `CALC`
        count := if m.count = 16 then 0 else m.count + 1
        state := if m.count = 16 then .done else .calc
        done := if m.count = 16 then true else m.done }
    | .done => m

/-- The output `p`. -/
def p (m : Mult) : BitVec 512 := m.pReg

/-! ## The schoolbook sum -/

/-- Word `i` of an operand. -/
def limb (a i : ℕ) : ℕ := a / 2 ^ (64 * i) % 2 ^ 64

/-- Partial product `k`. -/
def term (a b k : ℕ) : ℕ := limb a (k / 4) * limb b (k % 4) * (2 ^ 64) ^ (k / 4 + k % 4)

/-- The sum of the first `k` partial products. -/
def partialSum (a b k : ℕ) : ℕ := ∑ j ∈ Finset.range k, term a b j

theorem limb_sum {a : ℕ} (h : a < 2 ^ 256) :
    a = limb a 0 + limb a 1 * 2 ^ 64 + limb a 2 * (2 ^ 64) ^ 2 + limb a 3 * (2 ^ 64) ^ 3 := by
  simp only [limb, ← pow_mul]
  omega

theorem partialSum_all {a b : ℕ} (ha : a < 2 ^ 256) (hb : b < 2 ^ 256) :
    partialSum a b 16 = a * b := by
  conv_rhs => rw [limb_sum ha, limb_sum hb]
  unfold partialSum term
  generalize (2 : ℕ) ^ 64 = base
  simp only [Finset.sum_range_succ, Finset.sum_range_zero]
  norm_num
  ring

theorem partialSum_lt (a b : Word) {k : ℕ} (hk : k ≤ 16) :
    partialSum a.toNat b.toNat k < 2 ^ 512 := by
  calc partialSum a.toNat b.toNat k
      ≤ partialSum a.toNat b.toNat 16 := Finset.sum_le_sum_of_subset (Finset.range_mono hk)
    _ = a.toNat * b.toNat := partialSum_all a.isLt b.isLt
    _ < 2 ^ 256 * 2 ^ 256 := Nat.mul_lt_mul'' a.isLt b.isLt
    _ = 2 ^ 512 := (pow_add 2 256 256).symm

theorem term_lt (a b : Word) {k : ℕ} (hk : k < 16) : term a.toNat b.toNat k < 2 ^ 512 := by
  have h := partialSum_lt a b (show k + 1 ≤ 16 from hk)
  rw [partialSum, Finset.sum_range_succ] at h
  omega

/-! ## A calculation -/

/-- The state `k` start-free edges after a start on `a` and `b`: the pipeline register holds the
    last partial product, `p` the sum of those before it. -/
structure Calc (a b : Word) (k : ℕ) (m : Mult) : Prop where
  state : m.state = .calc
  le : k ≤ 16
  count : m.count.toNat = k
  aReg : m.aReg = a
  bReg : m.bReg = b
  done : m.done = false
  pReg : m.pReg.toNat = partialSum a.toNat b.toNat (k - 1)
  pipe : m.shiftedProdR.toNat = if k = 0 then 0 else term a.toNat b.toNat (k - 1)

/-- The product of `a` and `b` is on the output. -/
structure Ready (a b : Word) (m : Mult) : Prop where
  state : m.state = .done
  done : m.done = true
  product : m.p.toNat = a.toNat * b.toNat

variable {a b : Word} {k : ℕ} {m : Mult} {i : MultIn}

theorem step_start (h : i.start = true) : m.step i = load i.a i.b := by
  simp [step, h]

theorem calc_load (a b : Word) : Calc a b 0 (load a b) where
  state := rfl
  le := by omega
  count := rfl
  aReg := rfl
  bReg := rfl
  done := rfl
  pReg := by simp [load, partialSum]
  pipe := by simp [load]

theorem opA_toNat (h : Calc a b k m) (hk : k < 16) : m.opA.toNat = limb a.toNat (k / 4) := by
  have hc : m.count < 16 := by
    rw [BitVec.lt_def, h.count]; exact hk
  have hw : m.wordA = k / 4 := by
    rw [wordA, BitVec.extractLsb'_toNat, h.count, Nat.shiftRight_eq_div_pow]; omega
  rw [opA, if_pos ⟨h.state, hc⟩, hw, h.aReg, BitVec.extractLsb'_toNat, Nat.shiftRight_eq_div_pow,
    limb]

theorem opB_toNat (h : Calc a b k m) (hk : k < 16) : m.opB.toNat = limb b.toNat (k % 4) := by
  have hc : m.count < 16 := by
    rw [BitVec.lt_def, h.count]; exact hk
  have hw : m.wordB = k % 4 := by
    rw [wordB, BitVec.extractLsb'_toNat, h.count, Nat.shiftRight_zero]
  rw [opB, if_pos ⟨h.state, hc⟩, hw, h.bReg, BitVec.extractLsb'_toNat, Nat.shiftRight_eq_div_pow,
    limb]

theorem prod_toNat (m : Mult) : m.prod.toNat = m.opA.toNat * m.opB.toNat := by
  have h : m.opA.toNat * m.opB.toNat < 2 ^ 64 * 2 ^ 64 := Nat.mul_lt_mul'' m.opA.isLt m.opB.isLt
  rw [prod, BitVec.toNat_mul, BitVec.toNat_setWidth, BitVec.toNat_setWidth,
    Nat.mod_eq_of_lt (by omega : m.opA.toNat < 2 ^ 128),
    Nat.mod_eq_of_lt (by omega : m.opB.toNat < 2 ^ 128), Nat.mod_eq_of_lt (by omega)]

theorem shiftedProd_toNat (h : Calc a b k m) (hk : k < 16) :
    m.shiftedProd.toNat = term a.toNat b.toNat k := by
  have hs : m.shiftAmt = k / 4 + k % 4 := by
    rw [shiftAmt, wordA, wordB, BitVec.extractLsb'_toNat, BitVec.extractLsb'_toNat, h.count,
      Nat.shiftRight_eq_div_pow, Nat.shiftRight_zero]
    omega
  have hp : m.prod.toNat < 2 ^ 512 :=
    m.prod.isLt.trans (Nat.pow_lt_pow_right (by omega) (by omega))
  rw [shiftedProd, BitVec.toNat_shiftLeft, BitVec.toNat_setWidth, Nat.mod_eq_of_lt hp,
    Nat.shiftLeft_eq, hs, prod_toNat, opA_toNat h hk, opB_toNat h hk, pow_mul]
  exact Nat.mod_eq_of_lt (term_lt a b hk)

/-- The addition of the pipelined product does not carry out of `p`. -/
theorem pReg_add (h : Calc a b k m) :
    (m.pReg + m.shiftedProdR).toNat = partialSum a.toNat b.toNat k := by
  have hsum : m.pReg.toNat + m.shiftedProdR.toNat = partialSum a.toNat b.toNat k := by
    rw [h.pReg, h.pipe]
    cases k with
    | zero => rfl
    | succ k => exact (Finset.sum_range_succ _ k).symm
  rw [BitVec.toNat_add, hsum, Nat.mod_eq_of_lt (partialSum_lt a b h.le)]

theorem step_calc (h : Calc a b k m) (hk : k < 16) (hi : i.start = false) :
    Calc a b (k + 1) (m.step i) := by
  have hc : m.count ≠ 16 := by
    intro hc
    have := h.count
    rw [hc] at this
    simp at this
    omega
  have hn : (m.count + 1).toNat = k + 1 := by
    rw [← h.count]
    exact BitVec.toNat_add_of_lt (show m.count.toNat + 1 < 2 ^ 5 by rw [h.count]; omega)
  simp only [step, hi, h.state, hc, if_false, Bool.false_eq_true]
  exact ⟨rfl, by omega, hn, h.aReg, h.bReg, h.done, pReg_add h,
    by rw [if_neg (by omega)]; exact shiftedProd_toNat h hk⟩

/-- The exit edge. -/
theorem step_calc_last (h : Calc a b 16 m) (hi : i.start = false) : Ready a b (m.step i) := by
  have hc : m.count = 16 := BitVec.eq_of_toNat_eq h.count
  simp only [step, hi, h.state, hc, if_true, if_false, Bool.false_eq_true]
  refine ⟨rfl, rfl, ?_⟩
  rw [p, pReg_add h, partialSum_all a.isLt b.isLt]

theorem step_ready (h : Ready a b m) (hi : i.start = false) : m.step i = m := by
  simp [step, hi, h.state]

/-! ## Runs -/

/-- The state after a start in cycle `s` and `k` start-free cycles. -/
def After (a b : Word) (k : ℕ) (m : Mult) : Prop :=
  if k < 17 then Calc a b k m else Ready a b m

theorem step_after (h : After a b k m) (hi : i.start = false) : After a b (k + 1) (m.step i) := by
  unfold After at *
  rcases Nat.lt_trichotomy k 16 with hk | rfl | hk
  · rw [if_pos (by omega)] at h ⊢
    exact step_calc h hk hi
  · exact step_calc_last h hi
  · rw [if_neg (by omega)] at h ⊢
    rw [step_ready h hi]
    exact h

theorem After.done_eq (h : After a b k m) : m.done = decide (17 ≤ k) := by
  unfold After at h
  split_ifs at h with hk
  · rw [h.done, decide_eq_false (by omega)]
  · rw [h.done, decide_eq_true (by omega)]

theorem After.state_eq (h : After a b k m) : m.state = if k < 17 then .calc else .done := by
  unfold After at h
  split_ifs at h with hk
  · rw [h.state, if_pos hk]
  · rw [h.state, if_neg hk]

variable {is : ℕ → MultIn} {s t : ℕ}

/-- Cycle `s` starts a calculation, and no cycle after it and before `t` starts another. -/
def LastStart (is : ℕ → MultIn) (s t : ℕ) : Prop :=
  s < t ∧ (is s).start = true ∧ ∀ u, s < u → u < t → (is u).start = false

theorem run_after_start (h : LastStart is s t) :
    After (is s).a (is s).b (t - s - 1) (Sync.run step reset is t) := by
  obtain ⟨hst, hs, hfree⟩ := h
  induction t, hst using Nat.le_induction with
  | base =>
    rw [Sync.run_succ, step_start hs, After, if_pos (by omega), show s + 1 - s - 1 = 0 by omega]
    exact calc_load _ _
  | succ t hst ih =>
    have ih := ih fun u hu ht => hfree u hu (by omega)
    rw [Sync.run_succ, show t + 1 - s - 1 = t - s - 1 + 1 by omega]
    exact step_after ih (hfree t hst (by omega))

theorem run_of_noStart (h : ∀ u < t, (is u).start = false) : Sync.run step reset is t = reset := by
  induction t with
  | zero => rfl
  | succ t ih =>
    rw [Sync.run_succ, ih fun u hu => h u (by omega)]
    simp [step, h t (by omega), reset]

theorem exists_lastStart (h : ∃ u < t, (is u).start = true) : ∃ s, LastStart is s t := by
  induction t with
  | zero => obtain ⟨u, hu, -⟩ := h; omega
  | succ t ih =>
    by_cases ht : (is t).start = true
    · exact ⟨t, by omega, ht, fun u hu hut => by omega⟩
    · obtain ⟨u, hu, hs⟩ := h
      have hut : u ≠ t := by rintro rfl; exact ht hs
      obtain ⟨s, hst, hs, hfree⟩ := ih ⟨u, by omega, hs⟩
      refine ⟨s, by omega, hs, fun v hv hvt => ?_⟩
      rcases Nat.lt_succ_iff_lt_or_eq.mp hvt with hvt | rfl
      · exact hfree v hv hvt
      · exact Bool.eq_false_iff.mpr ht

/-- A cycle without a last start is one that no start precedes. -/
theorem noStart_of_not_exists (h : ¬ ∃ s, LastStart is s t) : ∀ u < t, (is u).start = false := by
  intro u hu
  by_contra hs
  exact h (exists_lastStart ⟨u, hu, Bool.not_eq_false _ ▸ hs⟩)

/-- **The multiplier in every cycle of every run.**  `done` is low until the first start; after a
    start in cycle `s` the next seventeen start-free cycles are `CALC` with `done` low, then
    `done` is high with the product of the operands of cycle `s`; and `p` does not change while
    `done` is held. -/
theorem done_product (is : ℕ → MultIn) (t : ℕ) :
    ((Sync.run step reset is t).done = true → ∃ s, LastStart is s t) ∧
      (∀ s, LastStart is s t →
        (Sync.run step reset is t).state = (if t ≤ s + 17 then .calc else .done) ∧
          ((Sync.run step reset is t).done = true ↔ s + 17 < t) ∧
          ((Sync.run step reset is t).done = true →
            (Sync.run step reset is t).p.toNat = (is s).a.toNat * (is s).b.toNat)) ∧
      ((Sync.run step reset is t).done = true → (Sync.run step reset is (t + 1)).done = true →
        (Sync.run step reset is (t + 1)).p = (Sync.run step reset is t).p) := by
  have hsome : (Sync.run step reset is t).done = true → ∃ s, LastStart is s t := by
    intro hd
    by_contra h
    rw [run_of_noStart (noStart_of_not_exists h)] at hd
    exact absurd hd (by simp [reset])
  refine ⟨hsome, ?_, ?_⟩
  · intro s h
    have ha := run_after_start h
    have hst : s < t := h.1
    refine ⟨?_, ?_, ?_⟩
    · rw [ha.state_eq]
      exact if_congr (by omega) rfl rfl
    · rw [ha.done_eq, decide_eq_true_eq]
      omega
    · intro hd
      rw [ha.done_eq, decide_eq_true_eq] at hd
      rw [After, if_neg (by omega)] at ha
      exact ha.product
  · intro hd hd'
    obtain ⟨s, h⟩ := hsome hd
    have ha := run_after_start h
    rw [ha.done_eq, decide_eq_true_eq] at hd
    rw [After, if_neg (by omega)] at ha
    rw [Sync.run_succ] at hd' ⊢
    cases hi : (is t).start
    · rw [step_ready ha hi]
    · rw [step_start hi] at hd'
      exact absurd hd' (by simp [load])

end Mult

end SentinelSoc
