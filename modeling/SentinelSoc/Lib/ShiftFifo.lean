/-
  A queue in a row of entries: entry 0 is the head, a word is pushed into the lowest free
  entry, and popping shifts all entries down.

  * `ShiftFifo.step`: the entries with their valid bits, cycle after cycle;
  * `Holds`: the valid entries are the words of a list, from entry 0 on;
  * `Holds.step`: a cycle appends what is pushed and drops what is popped.
-/
import Mathlib.Tactic

/-- `n + 1` entries. -/
structure ShiftFifo (n : ℕ) (α : Type*) where
  valid : Fin (n + 1) → Bool
  data : Fin (n + 1) → α

namespace ShiftFifo

variable {n : ℕ} {α : Type*}

/-- The valid bit of an entry; there is none above the top. -/
def validAt (s : ShiftFifo n α) (i : ℕ) : Bool :=
  if h : i < n + 1 then s.valid ⟨i, h⟩ else false

variable (s : ShiftFifo n α) (push : Bool) (w : α) (pop clear : Bool)

def lowestFree (i : ℕ) : Bool := !s.validAt i && (i == 0 || s.validAt (i - 1))

/-- The valid bits once the word is pushed. -/
def pushed (i : ℕ) : Bool := decide (i < n + 1) && (push && s.lowestFree i || s.validAt i)

/-- An entry takes the one above it, or the incoming word. The top entry also takes the incoming
    word when the queue is popped. -/
def step : ShiftFifo n α where
  valid i := (if pop then s.pushed push (i + 1) else s.pushed push i) && !clear
  data i :=
    if s.pushed push (i + 1) && pop ||
        push && s.lowestFree i && (!pop || decide ((i : ℕ) = n)) then
      if h : (i : ℕ) + 1 < n + 1 then
        if s.valid ⟨i + 1, h⟩ then s.data ⟨i + 1, h⟩ else w
      else w
    else s.data i

/-- The words of the queue, from its head. -/
structure Holds (l : List α) : Prop where
  valid : ∀ i, s.validAt i = decide (i < l.length)
  data : ∀ (i : Fin (n + 1)) (a : α), l[(i : ℕ)]? = some a → s.data i = a

/-- The words that are pushed. -/
def incoming : List α := if push then [w] else []

variable {s push w pop clear} {l : List α}

@[simp] theorem incoming_length : (incoming push w).length = push.toNat := by
  cases push <;> rfl

theorem Holds.length_le (h : s.Holds l) : l.length ≤ n + 1 := by
  have hv := h.valid (n + 1)
  simp only [validAt, lt_irrefl, dite_false] at hv
  exact not_lt.1 (of_decide_eq_false hv.symm)

theorem Holds.valid_fin (h : s.Holds l) (i : Fin (n + 1)) :
    s.valid i = decide ((i : ℕ) < l.length) := by
  rw [← h.valid i, validAt, dif_pos i.2]

theorem Holds.lowestFree (h : s.Holds l) (i : ℕ) : s.lowestFree i = decide (i = l.length) := by
  unfold ShiftFifo.lowestFree
  rw [h.valid, h.valid, Bool.eq_iff_iff]
  simp only [Bool.and_eq_true, Bool.not_eq_true', decide_eq_false_iff_not, Bool.or_eq_true,
    beq_iff_eq, decide_eq_true_eq]
  omega

/-- The word has a free entry. -/
theorem Holds.pushed (h : s.Holds l) (hp : push = true → l.length < n + 1) (i : ℕ) :
    s.pushed push i = decide (i < (l ++ incoming push w).length) := by
  unfold ShiftFifo.pushed
  have hl := h.length_le
  rw [h.lowestFree, h.valid, Bool.eq_iff_iff, List.length_append, incoming_length]
  cases push
  · simp only [Bool.false_and, Bool.false_or, Bool.and_eq_true, decide_eq_true_eq,
      Bool.toNat_false]
    omega
  · have := hp rfl
    simp only [Bool.true_and, Bool.and_eq_true, Bool.or_eq_true, decide_eq_true_eq,
      Bool.toNat_true]
    omega

theorem holds_of_fin (hv : ∀ i : Fin (n + 1), s.valid i = decide ((i : ℕ) < l.length))
    (hl : l.length ≤ n + 1)
    (hd : ∀ (i : Fin (n + 1)) (a : α), l[(i : ℕ)]? = some a → s.data i = a) : s.Holds l where
  valid i := by
    unfold validAt
    split_ifs with h
    · rw [hv]
    · exact (decide_eq_false (by omega)).symm
  data := hd

theorem holds_nil (h : ∀ i, s.valid i = false) : s.Holds [] :=
  holds_of_fin (fun i => by simp [h]) (by simp) fun i a ha => by simp at ha

/-- What the entry with a word of the lengthened queue has beside it: its own word, or the
    incoming one. -/
theorem Holds.getElem?_append (h : s.Holds l) {i : ℕ} {a : α}
    (ha : (l ++ incoming push w)[i]? = some a) :
    (∃ hi : i < n + 1, i < l.length ∧ s.data ⟨i, hi⟩ = a) ∨ i = l.length ∧ push = true ∧ w = a := by
  have hl := h.length_le
  rcases lt_or_ge i l.length with hi | hi
  · rw [List.getElem?_append_left hi] at ha
    exact .inl ⟨by omega, hi, h.data ⟨i, by omega⟩ a ha⟩
  · rw [List.getElem?_append_right hi] at ha
    cases push with
    | false => simp [incoming] at ha
    | true =>
      obtain ⟨h0, rfl⟩ : i - l.length = 0 ∧ w = a := by
        simpa [incoming, List.getElem?_singleton] using ha
      exact .inr ⟨by omega, rfl, rfl⟩

/-- A cycle, with the word pushed if the queue has room for it. -/
theorem Holds.step (h : s.Holds l) (hp : push = true → l.length < n + 1) :
    (s.step push w pop false).Holds ((l ++ incoming push w).drop pop.toNat) := by
  have hle : (l ++ incoming push w).length ≤ n + 1 := by
    have := h.length_le
    rw [List.length_append, incoming_length]
    cases push
    · simpa using this
    · simpa using hp rfl
  refine holds_of_fin (fun i => ?_) ?_ (fun i a ha => ?_)
  · simp only [ShiftFifo.step, h.pushed (w := w) hp, Bool.not_false, Bool.and_true,
      List.length_drop]
    cases pop
    · rfl
    · simp only [if_true, Bool.toNat_true, decide_eq_decide]
      omega
  · rw [List.length_drop]
    omega
  · rw [List.getElem?_drop] at ha
    have hlt := (List.getElem?_eq_some_iff.1 ha).1
    have hat := h.getElem?_append ha
    simp only [ShiftFifo.step, h.pushed (w := w) hp, h.lowestFree]
    cases pop with
    | false =>
      simp only [Bool.toNat_false, Nat.zero_add, Bool.and_false, Bool.false_or, Bool.not_false,
        Bool.true_or, Bool.and_true] at hat ⊢
      rcases hat with ⟨hi, hil, hd⟩ | ⟨hil, rfl, rfl⟩
      · rw [if_neg (by simp; omega)]
        exact hd
      · rw [if_pos (by simp [hil])]
        split_ifs with h1 h2
        · rw [h.valid_fin] at h2
          exact absurd (of_decide_eq_true h2) (by simp; omega)
        · rfl
        · rfl
    | true =>
      simp only [Bool.toNat_true] at hat hlt
      rw [if_pos (by rw [decide_eq_true (by omega)]; rfl)]
      rcases hat with ⟨hi, hil, hd⟩ | ⟨hil, rfl, rfl⟩
      · rw [dif_pos (by omega), if_pos (by rw [h.valid_fin]; simp; omega), ← hd]
        congr 2
        omega
      · split_ifs with h1 h2
        · rw [h.valid_fin] at h2
          exact absurd (of_decide_eq_true h2) (by simp; omega)
        · rfl
        · rfl

/-- Clearing drops the incoming word as well. -/
theorem step_clear : (s.step push w pop true).Holds [] :=
  holds_nil fun i => by simp [ShiftFifo.step]

end ShiftFifo
