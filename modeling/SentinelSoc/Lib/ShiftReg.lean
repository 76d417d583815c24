/-
  Shift registers that words enter at the top.

  * `Holds`: the top of a register of `n` bits holds given words, the oldest one lowest
    (`Holds.push`); a full register is the number with these digits (`Holds.eq`);
  * `ofDigits_flatMap`: the digits of digits.
-/
import Mathlib.Data.List.GetD
import Mathlib.Data.Nat.Digits.Lemmas
import Mathlib.Tactic

namespace ShiftReg

/-- The top of the register, above the words that are yet to be pushed out, has the digits `ws`. -/
def Holds (n w v : ℕ) (ws : List ℕ) : Prop :=
  v / 2 ^ (n - w * ws.length) = Nat.ofDigits (2 ^ w) ws

variable {n w v x : ℕ} {ws : List ℕ}

theorem Holds.nil (hv : v < 2 ^ n) : Holds n w v [] := by
  rw [Holds, List.length_nil, mul_zero, Nat.sub_zero, Nat.div_eq_of_lt hv, Nat.ofDigits_nil]

/-- One more word. -/
theorem Holds.push (h : Holds n w v ws) (hn : w * (ws.length + 1) ≤ n) :
    Holds n w (x * 2 ^ (n - w) + v / 2 ^ w) (ws ++ [x]) := by
  have hlen : (ws ++ [x]).length = ws.length + 1 := by simp
  have hmul : w * (ws.length + 1) = w * ws.length + w := by ring
  have hsplit : n - w = (n - w * (ws.length + 1)) + w * ws.length := by omega
  have hsum : w + (n - w * (ws.length + 1)) = n - w * ws.length := by omega
  have hpos : 0 < 2 ^ (n - w * (ws.length + 1)) := Nat.two_pow_pos _
  rw [Holds, hlen, hsplit, pow_add, mul_comm (2 ^ _) (2 ^ _), ← mul_assoc, Nat.add_comm,
    Nat.add_mul_div_right _ _ hpos, Nat.div_div_eq_div_mul, ← pow_add, hsum, h,
    Nat.ofDigits_append, Nat.ofDigits_singleton, ← pow_mul, mul_comm x]

theorem Holds.eq (h : Holds n w v ws) (hn : n = w * ws.length) : v = Nat.ofDigits (2 ^ w) ws := by
  rw [Holds, ← hn, Nat.sub_self, pow_zero, Nat.div_one] at h
  exact h

/-- A word of a full register. -/
theorem Holds.digit (h : Holds n w v ws) (hn : n = w * ws.length) (hlt : ∀ x ∈ ws, x < 2 ^ w)
    (j : ℕ) : v / 2 ^ (w * j) % 2 ^ w = ws.getD j 0 := by
  have hpos : 0 < 2 ^ w := Nat.two_pow_pos w
  rw [h.eq hn, pow_mul, Nat.ofDigits_div_pow_eq_ofDigits_drop j hpos ws hlt]
  rcases Nat.lt_or_ge j ws.length with hj | hj
  · rw [List.drop_eq_getElem_cons hj, Nat.ofDigits_cons, Nat.add_mul_mod_self_left,
      Nat.mod_eq_of_lt (hlt _ (List.getElem_mem hj)), List.getD_eq_getElem _ _ hj]
  · rw [List.drop_eq_nil_of_le hj, Nat.ofDigits_nil, Nat.zero_mod, List.getD_eq_default _ _ hj]

/-- Digits that have `k` digits each. -/
theorem ofDigits_flatMap {α : Type*} {b k : ℕ} {f : α → List ℕ} (hf : ∀ a, (f a).length = k)
    (l : List α) :
    Nat.ofDigits b (l.flatMap f) = Nat.ofDigits (b ^ k) (l.map fun a => Nat.ofDigits b (f a)) := by
  induction l with
  | nil => rfl
  | cons a l ih =>
    rw [List.flatMap_cons, Nat.ofDigits_append, ih, hf, List.map_cons, Nat.ofDigits_cons]

end ShiftReg
