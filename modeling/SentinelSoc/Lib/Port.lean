/-
  A request port: in each cycle it may grant a request and it may give a response.

  * `Answers`: which response belongs to which grant, by position;
  * `InOrder`: every grant has exactly one response, every response exactly one
    grant, and each response is the right one;
  * `inOrder_of_single`: the rule for a port with at most one open request;
  * `pending`: the open requests of a port with any number of them, the oldest first.
-/
import Mathlib.Data.Nat.Count
import Mathlib.Tactic

namespace Port

variable {gnt rsp : ℕ → Bool}

/-- The response of cycle `t'` belongs to the grant of cycle `t`: as many responses came before
    the one as grants before the other. -/
def Answers (gnt rsp : ℕ → Bool) (t t' : ℕ) : Prop :=
  t < t' ∧ gnt t = true ∧ rsp t' = true ∧
    Nat.count (fun u => gnt u = true) t = Nat.count (fun u => rsp u = true) t'

/-- Exactly one response for each grant, in the order of the grants, and `ok` of it. -/
structure InOrder (gnt rsp : ℕ → Bool) (ok : ℕ → ℕ → Prop) : Prop where
  answered : ∀ t, gnt t = true → ∃! t', Answers gnt rsp t t'
  asked : ∀ t', rsp t' = true → ∃! t, Answers gnt rsp t t'
  own : ∀ t t', Answers gnt rsp t t' → ok t t'

theorem Answers.unique_right {t t₁ t₂ : ℕ} (h₁ : Answers gnt rsp t t₁)
    (h₂ : Answers gnt rsp t t₂) : t₁ = t₂ :=
  Nat.count_injective h₁.2.2.1 h₂.2.2.1 (h₁.2.2.2.symm.trans h₂.2.2.2)

theorem Answers.unique_left {t₁ t₂ t' : ℕ} (h₁ : Answers gnt rsp t₁ t')
    (h₂ : Answers gnt rsp t₂ t') : t₁ = t₂ :=
  Nat.count_injective h₁.2.1 h₂.2.1 (h₁.2.2.2.trans h₂.2.2.2.symm)

/-! ## One open request -/

/-- A port with at most one open request: `busy` while there is one. -/
structure Single (gnt rsp busy : ℕ → Bool) : Prop where
  start : busy 0 = false
  next : ∀ t, busy (t + 1) = (gnt t || (busy t && !rsp t))
  answer : ∀ t, rsp t = true → busy t = true
  free : ∀ t, gnt t = true → busy t = true → rsp t = true

variable {busy : ℕ → Bool}

theorem Single.count (h : Single gnt rsp busy) (t : ℕ) :
    Nat.count (fun u => gnt u = true) t =
      Nat.count (fun u => rsp u = true) t + (busy t).toNat := by
  induction t with
  | zero => simp [h.start]
  | succ t ih =>
    have hn := h.next t
    have ha := h.answer t
    have hf := h.free t
    rw [Nat.count_succ, Nat.count_succ, ih, hn]
    cases hg : gnt t <;> cases hr : rsp t <;> cases hb : busy t <;> simp_all

/-- With one open request, a grant is answered by the first response after it. -/
theorem Single.answers_iff (h : Single gnt rsp busy) {t t' : ℕ} :
    Answers gnt rsp t t' ↔ gnt t = true ∧ rsp t' = true ∧ t < t' ∧
      ∀ u, t < u → u < t' → rsp u = false := by
  have hcount : gnt t = true → Nat.count (fun u => gnt u = true) t =
      Nat.count (fun u => rsp u = true) (t + 1) := fun hg => by
    have ha := h.answer t
    have hf := h.free t hg
    rw [h.count t, Nat.count_succ]
    cases hr : rsp t <;> cases hb : busy t <;> simp_all
  constructor
  · rintro ⟨hlt, hg, hr, hc⟩
    refine ⟨hg, hr, hlt, fun u htu hut => ?_⟩
    rw [hcount hg] at hc
    by_contra hu
    rw [Bool.not_eq_false] at hu
    have h1 := Nat.count_strict_mono (p := fun u => rsp u = true) hu hut
    have h2 := Nat.count_monotone (fun u => rsp u = true) (show t + 1 ≤ u by omega)
    omega
  · rintro ⟨hg, hr, hlt, hno⟩
    refine ⟨hlt, hg, hr, ?_⟩
    rw [hcount hg]
    obtain ⟨k, rfl⟩ := Nat.exists_eq_add_of_le (show t + 1 ≤ t' by omega)
    have h0 : Nat.count (fun u => rsp (t + 1 + u) = true) k = 0 :=
      Nat.count_iff_forall_not.2 fun m hm => by simp [hno (t + 1 + m) (by omega) (by omega)]
    rw [Nat.count_add _ (t + 1) k, h0]
    rfl

/-- While a request is open, no other is granted. -/
theorem Single.alone (h : Single gnt rsp busy) {t t' : ℕ} (hg : gnt t = true)
    (hno : ∀ u, t < u → u < t' → rsp u = false) {u : ℕ} (htu : t < u) (hut : u ≤ t') :
    busy u = true ∧ (u < t' → gnt u = false) := by
  have hb : busy u = true := by
    induction u, htu using Nat.le_induction with
    | base => rw [h.next, hg, Bool.true_or]
    | succ u htu ih =>
      rw [h.next, ih (by omega), hno u htu (by omega)]
      simp
  refine ⟨hb, fun hlt => ?_⟩
  cases hu : gnt u with
  | false => rfl
  | true => exact absurd (h.free u hu hb) (by simp [hno u htu hlt])

/-- Every response has its grant. -/
theorem Single.exists_grant (h : Single gnt rsp busy) (t' : ℕ) (hb : busy t' = true) :
    ∃ t < t', gnt t = true ∧ ∀ u, t < u → u < t' → rsp u = false := by
  induction t' with
  | zero => exact absurd hb (by simp [h.start])
  | succ t' ih =>
    rw [h.next, Bool.or_eq_true, Bool.and_eq_true, Bool.not_eq_true'] at hb
    rcases hb with hg | ⟨hb, hr⟩
    · exact ⟨t', by omega, hg, fun u h1 h2 => by omega⟩
    · obtain ⟨t, ht, hg, hno⟩ := ih hb
      refine ⟨t, by omega, hg, fun u h1 h2 => ?_⟩
      rcases Nat.lt_succ_iff_lt_or_eq.1 h2 with h3 | rfl
      · exact hno u h1 h3
      · exact hr

/-- **The rule for a port with one open request**: it is in order if every open request gets a
    response and the first response after a grant is the right one. -/
theorem inOrder_of_single {ok : ℕ → ℕ → Prop} (h : Single gnt rsp busy)
    (live : ∀ t, busy t = true → ∃ t', t ≤ t' ∧ rsp t' = true)
    (own : ∀ t t', gnt t = true → t < t' → rsp t' = true →
      (∀ u, t < u → u < t' → rsp u = false ∧ gnt u = false) → ok t t') :
    InOrder gnt rsp ok where
  answered t hg := by
    classical
    have hb : busy (t + 1) = true := by rw [h.next, hg, Bool.true_or]
    have hex := live (t + 1) hb
    obtain ⟨hle, hr⟩ := Nat.find_spec hex
    refine ⟨Nat.find hex, h.answers_iff.2 ⟨hg, hr, by omega, fun u h1 h2 => ?_⟩,
      fun y hy => ?_⟩
    · have := Nat.find_min hex h2
      simpa [show t + 1 ≤ u by omega] using this
    · refine hy.unique_right (h.answers_iff.2 ⟨hg, hr, by omega, fun u h1 h2 => ?_⟩)
      have := Nat.find_min hex h2
      simpa [show t + 1 ≤ u by omega] using this
  asked t' hr := by
    obtain ⟨t, ht, hg, hno⟩ := h.exists_grant t' (h.answer t' hr)
    have ha : Answers gnt rsp t t' := h.answers_iff.2 ⟨hg, hr, ht, hno⟩
    exact ⟨t, ha, fun y hy => hy.unique_left ha⟩
  own t t' ha := by
    obtain ⟨hg, hr, hlt, hno⟩ := h.answers_iff.1 ha
    exact own t t' hg hlt hr fun u h1 h2 =>
      ⟨hno u h1 h2, (h.alone hg hno h1 h2.le).2 h2⟩

/-! ## Many open requests -/

/-- The cycles of the grants that wait for their response, the oldest first. -/
def pending (gnt rsp : ℕ → Bool) : ℕ → List ℕ
  | 0 => []
  | t + 1 => (if rsp t then (pending gnt rsp t).tail else pending gnt rsp t) ++
      if gnt t then [t] else []

/-- Every response has its grant. -/
def Asked (gnt rsp : ℕ → Bool) : Prop := ∀ t', rsp t' = true → ∃ t, Answers gnt rsp t t'

theorem pending_succ (t : ℕ) : pending gnt rsp (t + 1) =
    (if rsp t then (pending gnt rsp t).tail else pending gnt rsp t) ++
      if gnt t then [t] else [] := rfl

theorem Asked.count (h : Asked gnt rsp) (t : ℕ) :
    Nat.count (fun u => gnt u = true) t =
      Nat.count (fun u => rsp u = true) t + (pending gnt rsp t).length := by
  induction t with
  | zero => rfl
  | succ t ih =>
    rw [Nat.count_succ, Nat.count_succ, pending_succ, List.length_append]
    have hg : (if gnt t then [t] else []).length = if gnt t = true then 1 else 0 := by
      split_ifs <;> rfl
    rw [hg]
    cases hr : rsp t with
    | false => simp only [Bool.false_eq_true, if_false]; omega
    | true =>
      obtain ⟨u, hut, hu, -, hc⟩ := h t hr
      have := Nat.count_strict_mono (p := fun u => gnt u = true) hu hut
      simp only [if_true, List.length_tail]
      omega

/-- An open request comes after the answered ones, in the order of the grants. -/
theorem Asked.pending_spec (h : Asked gnt rsp) {t k u : ℕ}
    (hu : (pending gnt rsp t)[k]? = some u) :
    u < t ∧ gnt u = true ∧
      Nat.count (fun u => gnt u = true) u = Nat.count (fun u => rsp u = true) t + k := by
  induction t generalizing k with
  | zero => simp [pending] at hu
  | succ t ih =>
    have hc := h.count t
    rw [pending_succ, List.getElem?_append] at hu
    rw [Nat.count_succ]
    cases hr : rsp t with
    | false =>
      simp only [hr, Bool.false_eq_true, if_false] at hu ⊢
      split_ifs at hu with hk hg
      · obtain ⟨h1, h2, h3⟩ := ih hu
        exact ⟨by omega, h2, by omega⟩
      · obtain ⟨hk0, rfl⟩ : k - (pending gnt rsp t).length = 0 ∧ t = u := by
          simpa [List.getElem?_singleton] using hu
        exact ⟨by omega, hg, by omega⟩
      · simp at hu
    | true =>
      obtain ⟨v, hvt, hv, -, hcv⟩ := h t hr
      have hlt := Nat.count_strict_mono (p := fun u => gnt u = true) hv hvt
      simp only [hr, if_true, List.length_tail] at hu ⊢
      split_ifs at hu with hk hg
      · rw [List.getElem?_tail] at hu
        obtain ⟨h1, h2, h3⟩ := ih hu
        exact ⟨by omega, h2, by omega⟩
      · obtain ⟨hk0, rfl⟩ : k - ((pending gnt rsp t).length - 1) = 0 ∧ t = u := by
          simpa [List.getElem?_singleton] using hu
        exact ⟨by omega, hg, by omega⟩
      · simp at hu

/-- A response answers the oldest open request. -/
theorem Asked.head (h : Asked gnt rsp) {t' : ℕ} (hr : rsp t' = true) :
    ∃ t l, pending gnt rsp t' = t :: l ∧ Answers gnt rsp t t' := by
  obtain ⟨u, hut, hu, -, hcu⟩ := h t' hr
  have hlt := Nat.count_strict_mono (p := fun u => gnt u = true) hu hut
  have hc := h.count t'
  cases hp : pending gnt rsp t' with
  | nil => simp only [hp, List.length_nil] at hc; omega
  | cons t l =>
    obtain ⟨h1, h2, h3⟩ := h.pending_spec (t := t') (k := 0) (u := t) (by rw [hp]; rfl)
    exact ⟨t, l, rfl, h1, h2, hr, h3⟩

end Port
