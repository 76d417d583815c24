/-
  Synchronous machines: a state, one input in each clock cycle, and the run they give.

  * `run`: the state in cycle `t`;
  * `run_invariant`, `run_stable`, `run_frozen`: what one step keeps, every run keeps;
  * `run_map`: a machine inside another one sees a run of its own;
  * `settle`: the value of a wire that feeds back to itself;
  * `last`: the last event before a cycle, and the registers that events load.
-/
import Mathlib.Tactic

namespace Sync

variable {S T I J α : Type*} {step : S → I → S} {s : S} {i : ℕ → I}

/-- The state in cycle `t` of the run from `s` under the inputs `i`. -/
def run (step : S → I → S) (s : S) (i : ℕ → I) : ℕ → S
  | 0 => s
  | t + 1 => step (run step s i t) (i t)

@[simp] theorem run_zero : run step s i 0 = s := rfl

theorem run_succ (t : ℕ) : run step s i (t + 1) = step (run step s i t) (i t) := rfl

theorem run_add (t u : ℕ) :
    run step s i (t + u) = run step (run step s i t) (fun k => i (t + k)) u := by
  induction u with
  | zero => rfl
  | succ u ih => rw [← Nat.add_assoc, run_succ, run_succ, ih]

/-! ## Invariants -/

theorem run_invariant {P : S → Prop} (h₀ : P s) (h : ∀ s x, P s → P (step s x)) (t : ℕ) :
    P (run step s i t) := by
  induction t with
  | zero => exact h₀
  | succ t ih => exact h _ _ ih

/-- An invariant of the runs whose cycles before `t` all meet a condition. -/
theorem run_invariant_of {P : S → Prop} {C : S → I → Prop} (h₀ : P s)
    (h : ∀ s x, P s → C s x → P (step s x)) (t : ℕ)
    (hC : ∀ u < t, C (run step s i u) (i u)) : P (run step s i t) := by
  induction t with
  | zero => exact h₀
  | succ t ih => exact h _ _ (ih fun u hu => hC u (by omega)) (hC t (by omega))

/-- What a step keeps from some cycle on. -/
theorem run_stable {P : S → Prop} (h : ∀ s x, P s → P (step s x)) {t u : ℕ} (htu : t ≤ u)
    (ht : P (run step s i t)) : P (run step s i u) := by
  obtain ⟨k, rfl⟩ := Nat.exists_eq_add_of_le htu
  rw [run_add]
  exact run_invariant ht h k

/-- A part of the state that no step changes once `P` holds. -/
theorem run_frozen {P : S → Prop} (f : S → α) (hP : ∀ s x, P s → P (step s x))
    (hf : ∀ s x, P s → f (step s x) = f s) {t u : ℕ} (htu : t ≤ u) (ht : P (run step s i t)) :
    f (run step s i u) = f (run step s i t) := by
  induction u, htu using Nat.le_induction with
  | base => rfl
  | succ u htu ih => rw [run_succ, hf _ _ (run_stable hP htu ht), ih]

/-- What no cycle from `t` to `u` changes. -/
theorem kept_between {f : ℕ → α} {t u : ℕ} (htu : t ≤ u)
    (h : ∀ v, t ≤ v → v < u → f (v + 1) = f v) : f u = f t := by
  induction u, htu using Nat.le_induction with
  | base => rfl
  | succ u htu ih => rw [h u htu (by omega), ih fun v hv hu => h v hv (by omega)]

/-! ## Machines inside machines -/

/-- A component steps by itself, on inputs that the rest of the machine gives it. -/
theorem run_map {step' : T → J → T} (f : S → T) (g : S → I → J)
    (h : ∀ s x, f (step s x) = step' (f s) (g s x)) (t : ℕ) :
    f (run step s i t) = run step' (f s) (fun u => g (run step s i u) (i u)) t := by
  induction t with
  | zero => rfl
  | succ t ih => rw [run_succ, run_succ, h, ih]

/-! ## Feedback -/

/-- The value of a wire whose driver `f` reads the wire itself: the solution of `v = f v` where
    there is one, and the free bit `o` where there are two or none. -/
def settle (f : Bool → Bool) (o : Bool) : Bool :=
  if f false = f true then f false else o

theorem settle_of_const {f : Bool → Bool} {v : Bool} (h₀ : f false = v) (h₁ : f true = v)
    (o : Bool) : settle f o = v := by
  simp [settle, h₀, h₁]

/-- Every solution is reached, and what is reached is a solution where there is one. -/
theorem settle_spec (f : Bool → Bool) :
    (∀ v, v = f v → settle f v = v) ∧ ((∃ v, v = f v) → ∀ o, settle f o = f (settle f o)) := by
  cases h₀ : f false <;> cases h₁ : f true <;> simp [settle, h₀, h₁]

/-! ## Events -/

/-- The last event before cycle `t`. -/
def last (e : ℕ → Option α) : ℕ → Option α
  | 0 => none
  | t + 1 => (e t).or (last e t)

variable {e e' : ℕ → Option α}

@[simp] theorem last_zero : last e 0 = none := rfl

theorem last_succ (t : ℕ) : last e (t + 1) = (e t).or (last e t) := rfl

/-- A register that every event loads holds the last one. -/
theorem run_loaded (f : S → α) (ev : I → Option α)
    (h : ∀ s x, f (step s x) = (ev x).getD (f s)) (t : ℕ) :
    f (run step s i t) = (last (fun u => ev (i u)) t).getD (f s) := by
  induction t with
  | zero => rfl
  | succ t ih => rw [run_succ, h, ih, last_succ]; cases ev (i t) <;> rfl

theorem last_isSome (h : ∀ t, (e t).isSome → (e' t).isSome) {t : ℕ} (ht : (last e t).isSome) :
    (last e' t).isSome := by
  induction t with
  | zero => exact absurd ht (by simp)
  | succ t ih =>
    simp only [last_succ, Option.isSome_or, Bool.or_eq_true] at ht ⊢
    exact ht.imp (h t) ih

end Sync
