/-
  The best candidate of a list, found in one pass that keeps the best so far; a later
  candidate of the same rank takes its place.

  * `best`: the pass;
  * `Wins`: what the winner is;
  * `best_spec`: the pass ends with the winner, or there is no candidate.
-/
import Mathlib.Order.Lattice
import Mathlib.Data.List.Induction

namespace Ranked

variable {α β : Type*} [LinearOrder β] (ready : α → Bool) (rank : α → β)

/-- One candidate: it takes over if it is ready and not ranked lower. -/
def round (a : β × Option α) (k : α) : β × Option α :=
  if ready k && decide (a.1 ≤ rank k) then (rank k, some k) else a

/-- The highest rank, at first `floor`, and who has it. -/
def best (floor : β) (l : List α) : β × Option α := l.foldl (round ready rank) (floor, none)

/-- `k` is ready and reaches the floor; no one before it in the list is ranked higher, and all
    behind it are ranked lower. -/
def Wins (floor : β) (l : List α) (k : α) : Prop :=
  ready k = true ∧ floor ≤ rank k ∧ ∃ before after, l = before ++ k :: after ∧
    (∀ j ∈ before, ready j = true → rank j ≤ rank k) ∧
    ∀ j ∈ after, ready j = true → rank j < rank k

/-- What a pass over `l` ends with. -/
def Ends (floor : β) (l : List α) (a : β × Option α) : Prop :=
  match a.2 with
  | none => a.1 = floor ∧ ∀ j ∈ l, ready j = true → rank j < floor
  | some k => a.1 = rank k ∧ Wins ready rank floor l k

variable {ready rank} {floor : β} {l : List α} {a : β × Option α}

/-- Nobody is ranked higher than what the pass keeps. -/
theorem Ends.le (h : Ends ready rank floor l a) : ∀ j ∈ l, ready j = true → rank j ≤ a.1 := by
  obtain ⟨m, o⟩ := a
  intro j hj hr
  cases o with
  | none =>
    obtain ⟨hm, hl⟩ := h
    exact hm ▸ (hl j hj hr).le
  | some k =>
    obtain ⟨hm, -, -, before, after, he, hb, ha⟩ := h
    simp only at hm
    rw [he, List.mem_append, List.mem_cons] at hj
    rw [hm]
    rcases hj with hj | hj | hj
    · exact hb j hj hr
    · rw [hj]
    · exact (ha j hj hr).le

theorem Ends.floor_le (h : Ends ready rank floor l a) : floor ≤ a.1 := by
  obtain ⟨m, o⟩ := a
  cases o with
  | none => exact h.1.ge
  | some k =>
    obtain ⟨hm, -, hf, -⟩ := h
    exact hf.trans_eq hm.symm

theorem Ends.round (h : Ends ready rank floor l a) (k : α) :
    Ends ready rank floor (l ++ [k]) (round ready rank a k) := by
  unfold Ranked.round
  split_ifs with hk
  · simp only [Bool.and_eq_true, decide_eq_true_eq] at hk
    exact ⟨rfl, hk.1, h.floor_le.trans hk.2, l, [], rfl,
      fun j hj hr => (h.le j hj hr).trans hk.2, by simp⟩
  · have hlt : ready k = true → rank k < a.1 := fun hr => by
      by_contra hge
      exact hk (by simpa [hr] using hge)
    obtain ⟨m, o⟩ := a
    cases o with
    | none =>
      obtain ⟨hm, hl⟩ := h
      refine ⟨hm, fun j hj hr => ?_⟩
      rcases List.mem_append.1 hj with hj | hj
      · exact hl j hj hr
      · rw [List.mem_singleton.1 hj] at hr ⊢
        exact hm ▸ hlt hr
    | some w =>
      obtain ⟨hm, hw, hf, before, after, he, hb, ha⟩ := h
      refine ⟨hm, hw, hf, before, after ++ [k], by rw [he]; simp, hb, fun j hj hr => ?_⟩
      rcases List.mem_append.1 hj with hj | hj
      · exact ha j hj hr
      · rw [List.mem_singleton.1 hj] at hr ⊢
        exact (hlt hr).trans_eq hm

theorem best_spec (floor : β) (l : List α) : Ends ready rank floor l (best ready rank floor l) := by
  induction l using List.reverseRecOn with
  | nil => exact ⟨rfl, by simp⟩
  | append_singleton l k ih =>
    rw [best, List.foldl_append]
    exact ih.round k

end Ranked
