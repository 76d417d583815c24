/-
  The preprocessor pads as SHA-512 asks.

  * `prepAt`: its state after the word at each position of the padded message;
  * `Preproc.At`: the preprocessor is at a position; what an acknowledged and an
    idle cycle do to it;
  * `fsmDataO_at`: the words that it gives.
-/
import Mathlib.Data.List.GetD
import SentinelSoc.Sha.Engine

namespace SentinelSoc

open Sha512 (zeroWords padWords)

/-! ## Positions -/

/-- The state of the preprocessor before position `p` of the padding of `n` words. -/
def prepAt (n p : ℕ) : PrepFsm :=
  if p < n then .idle
  else if p = n then .send80
  else if p ≤ n + zeroWords n then .send00
  else if p = n + zeroWords n + 1 then .sendLen0
  else if p = n + zeroWords n + 2 then .sendLen1
  else .idle

section

variable {n p : ℕ}

theorem prepAt_idle (h : p < n) : prepAt n p = .idle := if_pos h

theorem prepAt_send80 : prepAt n n = .send80 := by
  rw [prepAt, if_neg (by omega), if_pos rfl]

theorem prepAt_send00 (h : n < p) (h' : p ≤ n + zeroWords n) : prepAt n p = .send00 := by
  rw [prepAt, if_neg (by omega), if_neg (by omega), if_pos h']

theorem prepAt_sendLen0 : prepAt n (n + zeroWords n + 1) = .sendLen0 := by
  rw [prepAt, if_neg (by omega), if_neg (by omega), if_neg (by omega), if_pos rfl]

theorem prepAt_sendLen1 : prepAt n (n + zeroWords n + 2) = .sendLen1 := by
  rw [prepAt, if_neg (by omega), if_neg (by omega), if_neg (by omega), if_neg (by omega),
    if_pos rfl]

theorem prepAt_end : prepAt n (n + zeroWords n + 3) = .idle := by
  rw [prepAt, if_neg (by omega), if_neg (by omega), if_neg (by omega), if_neg (by omega),
    if_neg (by omega)]

/-- The positions up to the end of the padding. -/
theorem position_cases (h : p < n + zeroWords n + 3) : p < n ∨ p = n ∨
    (n < p ∧ p ≤ n + zeroWords n) ∨ p = n + zeroWords n + 1 ∨ p = n + zeroWords n + 2 := by
  omega

end

theorem zeroWords_bounds (n : ℕ) : 2 ≤ zeroWords n ∧ zeroWords n ≤ 33 := by
  unfold zeroWords
  split_ifs <;> omega

theorem zeros_ofNat (n : ℕ) :
    Preproc.zeros (BitVec.ofNat 32 n) = BitVec.ofNat 6 (zeroWords n) := by
  have hk : (BitVec.ofNat 32 n).extractLsb' 0 5 = BitVec.ofNat 5 (n % 32) := by
    apply BitVec.eq_of_toNat_eq
    simp only [BitVec.extractLsb'_toNat, BitVec.toNat_ofNat, Nat.shiftRight_zero]
    omega
  have hz : ∀ k : Fin 32, (if 28#5 ≤ BitVec.ofNat 5 k.1 then 61 - (BitVec.ofNat 5 k.1).setWidth 6
      else 29 - (BitVec.ofNat 5 k.1).setWidth 6) =
        BitVec.ofNat 6 (if k.1 < 28 then 29 - k.1 else 61 - k.1) := by decide
  rw [Preproc.zeros, hk]
  exact hz ⟨n % 32, Nat.mod_lt _ (by decide)⟩

namespace Preproc

/-- The preprocessor is at position `p` of the padding of `n` words. -/
structure At (s : Preproc) (n p : ℕ) : Prop where
  state : s.state = prepAt n p
  nCnt : p < n → s.nCnt = BitVec.ofNat 32 p
  cCnt : p ≤ n + zeroWords n → s.cCnt = BitVec.ofNat 6 (p - (n + 1))

variable {s : Preproc} {n p : ℕ}

theorem At.idle_iff (h : s.At n p) (hp : p < n + zeroWords n + 3) :
    s.state = .idle ↔ p < n := by
  rw [h.state]
  rcases position_cases hp with h1 | rfl | ⟨h1, h2⟩ | rfl | rfl
  · simp [prepAt_idle h1, h1]
  · simp [prepAt_send80]
  · simp [prepAt_send00 h1 h2, h1.le]
  · simp [prepAt_sendLen0]
    omega
  · simp [prepAt_sendLen1]
    omega

theorem At.muxSelO (h : s.At n p) (hp : p < n + zeroWords n + 3) :
    s.muxSelO = decide (n ≤ p) := by
  have hi := h.idle_iff hp
  by_cases hn : p < n
  · simp [Preproc.muxSelO, hi.2 hn, hn]
  · have hne : s.state ≠ .idle := fun he => hn (hi.1 he)
    simp [Preproc.muxSelO, hne, not_lt.1 hn]

theorem At.doneO (h : s.At n p) (hp : p < n + zeroWords n + 3) :
    s.doneO true = decide (p = n + zeroWords n + 2) := by
  rw [Bool.eq_iff_iff, Preproc.doneO, Bool.and_true, beq_iff_eq, decide_eq_true_iff, h.state]
  rcases position_cases hp with h1 | rfl | ⟨h1, h2⟩ | rfl | rfl
  · simp [prepAt_idle h1]
    omega
  · simp [prepAt_send80]
    omega
  · simp [prepAt_send00 h1 h2]
    omega
  · simp [prepAt_sendLen0]
  · simp [prepAt_sendLen1]

/-- The start of a message. -/
theorem at_start (hs : s.state = .idle) (hn : n < 2 ^ 27) :
    (s.step true (BitVec.ofNat 32 n) false).At n 0 where
  state := by
    have h0 : (BitVec.ofNat 32 n == 0) = decide (n = 0) := by
      rw [Bool.eq_iff_iff, beq_iff_eq, decide_eq_true_iff, BitVec.toNat_eq]
      simp only [BitVec.ofNat_eq_ofNat, BitVec.toNat_ofNat]
      omega
    simp only [step, nextState, hs, h0, prepAt]
    by_cases hz : n = 0
    · subst hz
      rfl
    · simp only [hz, Nat.pos_of_ne_zero hz, decide_false, Bool.and_false, Bool.false_and,
        Bool.false_eq_true, if_false, if_true]
  nCnt _ := rfl
  cCnt _ := by
    rw [Nat.zero_sub]
    rfl

/-- A cycle without a word. -/
theorem step_hold : s.step false (BitVec.ofNat 32 n) false = s := by
  cases s with
  | mk st nc cc => cases st <;> rfl

/-- A cycle with a word. -/
theorem At.ack (h : s.At n p) (hn : n < 2 ^ 27) (hp : p < n + zeroWords n + 3) :
    (s.step false (BitVec.ofNat 32 n) true).At n (p + 1) := by
  have hz := zeroWords_bounds n
  have hst := h.state
  rcases position_cases hp with h1 | rfl | ⟨h1, h2⟩ | rfl | rfl
  · -- a word of the message
    rw [prepAt_idle h1] at hst
    have hlast : (s.nCnt == BitVec.ofNat 32 n - 1) = decide (p + 1 = n) := by
      rw [h.nCnt h1, Bool.eq_iff_iff, beq_iff_eq, decide_eq_true_iff, BitVec.toNat_eq]
      simp only [BitVec.ofNat_eq_ofNat, BitVec.toNat_ofNat, BitVec.toNat_sub]
      omega
    refine ⟨?_, fun hp1 => ?_, fun hp1 => ?_⟩
    · simp only [step, nextState, hst, hlast]
      by_cases hp1 : p + 1 = n
      · subst hp1
        simp [prepAt_send80]
      · simp [hp1, prepAt_idle (show p + 1 < n by omega)]
    · simp [step, hst, h.nCnt h1, BitVec.ofNat_add]
    · rw [Nat.sub_eq_zero_of_le (by omega)]
      have hc := h.cCnt (by omega)
      rw [Nat.sub_eq_zero_of_le (by omega)] at hc
      simp [step, hst, hc]
  · -- the word with 0x80
    rw [prepAt_send80] at hst
    have h0 : zeros (BitVec.ofNat 32 p) ≠ 0 := by
      rw [zeros_ofNat, ne_eq, BitVec.toNat_eq]
      simp only [BitVec.ofNat_eq_ofNat, BitVec.toNat_ofNat]
      omega
    refine ⟨?_, fun hp1 => absurd hp1 (by omega), fun _ => ?_⟩
    · rw [prepAt_send00 (by omega) (by omega)]
      simp only [step, nextState, hst, if_true]
      exact if_neg h0
    · have hc := h.cCnt (by omega)
      rw [Nat.sub_eq_zero_of_le (by omega)] at hc
      simp [step, hst, hc]
  · -- a zero word
    rw [prepAt_send00 h1 h2] at hst
    have hlast : (s.cCnt.setWidth 32 == (zeros (BitVec.ofNat 32 n)).setWidth 32 - 1) =
        decide (p = n + zeroWords n) := by
      rw [h.cCnt h2, zeros_ofNat, Bool.eq_iff_iff, beq_iff_eq, decide_eq_true_iff,
        BitVec.toNat_eq]
      simp only [BitVec.ofNat_eq_ofNat, BitVec.toNat_ofNat, BitVec.toNat_sub,
        BitVec.toNat_setWidth]
      omega
    refine ⟨?_, fun hp1 => absurd hp1 (by omega), fun hp1 => ?_⟩
    · simp only [step, nextState, hst, hlast]
      by_cases hp1 : p = n + zeroWords n
      · subst hp1
        simp [prepAt_sendLen0]
      · simp [hp1, prepAt_send00 (show n < p + 1 by omega) (by omega)]
    · rw [show p + 1 - (n + 1) = p - (n + 1) + 1 by omega, BitVec.ofNat_add]
      simp [step, hst, h.cCnt h2]
  · -- the upper word of the length
    rw [prepAt_sendLen0] at hst
    refine ⟨?_, fun hp1 => absurd hp1 (by omega), fun hp1 => absurd hp1 (by omega)⟩
    rw [show n + zeroWords n + 1 + 1 = n + zeroWords n + 2 by omega, prepAt_sendLen1]
    simp [step, nextState, hst]
  · -- the lower word of the length
    rw [prepAt_sendLen1] at hst
    refine ⟨?_, fun hp1 => absurd hp1 (by omega), fun hp1 => absurd hp1 (by omega)⟩
    rw [show n + zeroWords n + 2 + 1 = n + zeroWords n + 3 by omega, prepAt_end]
    simp [step, nextState, hst]

end Preproc

theorem byteSwap_byteSwap (x : BitVec 32) : byteSwap (byteSwap x) = x := by
  simp only [byteSwap]
  ext i hi
  simp only [BitVec.getElem_append, BitVec.getElem_extractLsb', BitVec.getLsbD_append,
    BitVec.getLsbD_extractLsb']
  grind

/-- The words of the padding, as the preprocessor gives them. -/
theorem fsmDataO_at {s : Preproc} {p : ℕ} (l : List (BitVec 32)) (h : s.At l.length p)
    (hl : l.length ≤ p) (hp : p < l.length + zeroWords l.length + 3) :
    byteSwap (s.fsmDataO (BitVec.ofNat 32 l.length)) = (padWords l).getD p 0 := by
  have hst := h.state
  rw [padWords, List.append_assoc, List.getD_append_right _ _ _ _ hl, Preproc.fsmDataO, hst]
  have hz1 : l.length + zeroWords l.length + 1 - l.length = zeroWords l.length + 1 := by omega
  have hz2 : l.length + zeroWords l.length + 2 - l.length = zeroWords l.length + 1 + 1 := by omega
  rcases position_cases hp with h1 | rfl | ⟨h1, h2⟩ | rfl | rfl
  · omega
  · rw [prepAt_send80, Nat.sub_self]
    change byteSwap 0x80 = 0x80000000
    decide
  · rw [prepAt_send00 h1 h2]
    obtain ⟨k, rfl⟩ : ∃ k, p = l.length + (k + 1) := ⟨p - l.length - 1, by omega⟩
    rw [Nat.add_sub_cancel_left, List.cons_append, List.getD_cons_succ,
      List.getD_append _ _ _ _ (by rw [List.length_replicate]; omega),
      List.getD_replicate _ (by omega)]
    change byteSwap 0 = 0
    decide
  · rw [prepAt_sendLen0, hz1, List.cons_append, List.getD_cons_succ,
      List.getD_append_right _ _ _ _ (by rw [List.length_replicate]), List.length_replicate,
      Nat.sub_self]
    change byteSwap 0 = 0
    decide
  · rw [prepAt_sendLen1, hz2, List.cons_append, List.getD_cons_succ,
      List.getD_append_right _ _ _ _ (by rw [List.length_replicate]; omega), List.length_replicate,
      Nat.add_sub_cancel_left]
    change byteSwap (byteSwap (BitVec.ofNat 32 l.length <<< 5)) = BitVec.ofNat 32 (32 * l.length)
    rw [byteSwap_byteSwap]
    apply BitVec.eq_of_toNat_eq
    simp only [BitVec.toNat_shiftLeft, BitVec.toNat_ofNat, Nat.shiftLeft_eq]
    omega

end SentinelSoc
