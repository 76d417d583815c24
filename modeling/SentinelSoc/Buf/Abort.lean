/-
  The two requests of `BUF_CTRL` that end a block: abort and soft reset.

  * both are flags that a granted write sets for one cycle; `asks` is that write;
  * `Aborted`, `Cleaned`: what the request has to lead to within two cycles;
  * `AbortMet`, `ResetMet`: the states and inputs in which it does;
  * `honoured_iff`: it does in these, and in no others.
-/
import SentinelSoc.Buf.SocBuffer

namespace SentinelSoc

namespace SocBuffer

/-- A granted write of `BUF_CTRL` that sets bit `n`. -/
def asks (b : SocBuffer) (x : BufIn) (n : ℕ) : Bool :=
  b.writesLow x bufCtrlOff && x.obi.wdata.getLsbD n

/-- `FILLING` through `CAPTURING`. -/
def inProgress (b : SocBuffer) : Bool := b.stateQ != .idle && b.stateQ != .error

/-- The machine comes to `ERROR`, and there is no strobe from the request on until it leaves for
    `IDLE`. -/
def Aborted (i : ℕ → BufIn) (t : ℕ) : Prop :=
  ∃ e, t < e ∧ e ≤ t + 2 ∧ (run i e).stateQ = .error ∧
    ∀ u, t < u → (∀ v, e ≤ v → v ≤ u → (run i v).stateQ ≠ .idle) → (run i u).accelValid = false

def Clean (b : SocBuffer) : Prop :=
  b.stateQ = .idle ∧ b.fillPtr = 0 ∧ b.streamPtr = 0 ∧ b.capPtr = 0

/-- From cycle `t` on the words below the fill pointer are words stored since. -/
def Fresh (i : ℕ → BufIn) (t : ℕ) : Prop :=
  ∀ u, t ≤ u → ∀ k : BitVec 5, k.toNat < (run i u).fillPtr.toNat →
    ∃ v, t ≤ v ∧ v < u ∧ (run i v).stores (i v) = true ∧ (run i u).bufMem k = (i v).obi.wdata

def Cleaned (i : ℕ → BufIn) (t : ℕ) : Prop :=
  ∃ u, t < u ∧ u ≤ t + 2 ∧ Clean (run i u) ∧ Fresh i u

/-- What a write of `BUF_CTRL` in cycle `t` has to lead to. -/
structure Honoured (i : ℕ → BufIn) (t : ℕ) : Prop where
  abort : (run i t).asks (i t) 2 = true → (run i t).inProgress = true → Aborted i t
  reset : (run i t).asks (i t) 0 = true → Cleaned i t

/-- An abort meets a buffer that is filling and neither full nor being reset, or one that has
    captured its last word. -/
def AbortMet (b : SocBuffer) : Prop :=
  (b.stateQ = .filling → b.abort = true ∨ b.softReset = false ∧ b.bufFull = false) ∧
  (b.stateQ = .capturing → b.capPtr = 15)

/-- Neither an abort nor a stored word takes the place of the soft reset. -/
def Alone (b : SocBuffer) (x y : BufIn) : Prop :=
  b.asks x 2 = false ∧ (b.step x).stores y = false

/-- A soft reset is written in `x`, and sampled in `y`. -/
def ResetMet (b : SocBuffer) (x y : BufIn) : Prop :=
  match b.stateQ with
  | .idle => b.streamEnable = true → b.softReset = false → Alone b x y
  | .filling => b.abort = true ∨ b.softReset = true ∨ b.bufFull = false ∧ Alone b x y
  | .capturing => b.capPtr = 15 ∧ Alone b x y
  | _ => True

variable {b : SocBuffer} {x y : BufIn} {i : ℕ → BufIn} {t u n : ℕ}

@[simp] theorem step_softReset : (b.step x).softReset = b.asks x 0 := rfl

@[simp] theorem step_abort : (b.step x).abort = b.asks x 2 := rfl

theorem step_stateQ : (b.step x).stateQ = b.stateD x := rfl

/-- The bus is granted in four of the states. -/
theorem asks_state (h : b.asks x n = true) : b.stateQ = .idle ∨ b.stateQ = .filling ∨
    b.stateQ = .capturing ∨ b.stateQ = .error := by
  cases hs : b.stateQ <;>
    simp [asks, writesLow, writes, granted, gnt, obiStall, hs] at h ⊢

theorem stateD_error : b.stateD x = .error ↔
    b.abort = true ∧ (b.stateQ = .filling ∨ b.stateQ = .waiting) ∨
      b.stateQ = .error ∧ b.softReset = false := by
  cases hs : b.stateQ <;> simp [stateD, hs] <;> grind

/-! ## Abort -/

/-- One or two cycles after the write of the abort. -/
theorem error_iff (ha : b.asks x 2 = true) (hp : b.inProgress = true) :
    ((b.step x).stateQ = .error ∨ ((b.step x).step y).stateQ = .error) ↔ AbortMet b := by
  rw [step_stateQ, step_stateQ, stateD_error, stateD_error, step_stateQ, step_abort, ha]
  rcases asks_state ha with hs | hs | hs | hs
  · simp [inProgress, hs] at hp
  · simp only [AbortMet, stateD, hs]
    cases b.abort <;> cases b.softReset <;> cases b.bufFull <;> simp
  · simp only [AbortMet, stateD, hs]
    by_cases hc : b.capPtr = 15#4 <;> simp [hc]
  · simp [inProgress, hs] at hp

/-- `ERROR` leaves for `IDLE` only. -/
theorem error_stays {e : ℕ} (he : (run i e).stateQ = .error) (hu : e ≤ u)
    (hn : ∀ v, e ≤ v → v ≤ u → (run i v).stateQ ≠ .idle) : (run i u).stateQ = .error := by
  induction u, hu using Nat.le_induction with
  | base => exact he
  | succ u hu ih =>
    have hs := ih fun v hv hv' => hn v hv (by omega)
    have hd := hn (u + 1) (by omega) le_rfl
    rw [run_succ, step_stateQ] at hd ⊢
    simp only [stateD, hs] at hd ⊢
    cases hr : (run i u).softReset <;> simp_all

/-- No strobe comes in the cycle after an abort that is met. -/
theorem met_valid (ha : b.asks x 2 = true) (hp : b.inProgress = true) (h : AbortMet b) :
    (b.step x).accelValid = false := by
  obtain ⟨hf, hc⟩ := h
  rcases asks_state ha with hs | hs | hs | hs
  · simp [inProgress, hs] at hp
  · have := hf hs
    simp only [accelValid, step_stateQ, stateD, hs]
    grind
  · simp [accelValid, step_stateQ, stateD, hs, hc hs]
  · simp [inProgress, hs] at hp

theorem aborted_iff (ha : (run i t).asks (i t) 2 = true) (hp : (run i t).inProgress = true) :
    Aborted i t ↔ AbortMet (run i t) := by
  rw [← error_iff (y := i (t + 1)) ha hp, ← run_succ, ← run_succ]
  constructor
  · rintro ⟨e, he, he', hs, -⟩
    obtain rfl | rfl : e = t + 1 ∨ e = t + 2 := by omega
    · exact .inl hs
    · exact .inr hs
  · intro h
    have hv : (run i (t + 1)).accelValid = false :=
      met_valid ha hp ((error_iff (y := i (t + 1)) ha hp).1 h)
    have key : ∀ e, t < e → e ≤ t + 2 → (run i e).stateQ = .error → Aborted i t := by
      intro e he he' hs
      refine ⟨e, he, he', hs, fun u hu hn => ?_⟩
      rcases Nat.lt_or_ge u e with hue | hue
      · obtain rfl : u = t + 1 := by omega
        exact hv
      · simp [accelValid, error_stays hs hue hn]
    rcases h with h | h
    · exact key _ (by omega) (by omega) h
    · exact key _ (by omega) (by omega) h

/-! ## Soft reset -/

theorem fillPtr_store (h : b.stores x = true) : b.fillPtr + 1 ≠ 0 := by
  simp only [stores, Bool.and_eq_true, decide_eq_true_eq] at h
  have := h.2
  bv_omega

/-- The edge that samples a soft reset. -/
theorem clean_step (hr : b.softReset = true) : Clean (b.step x) ↔
    b.stateQ = .idle ∨ b.stateQ = .error ∨
      b.stateQ = .filling ∧ b.abort = false ∧ b.stores x = false := by
  have hstore := fillPtr_store (b := b) (x := x)
  cases hs : b.stateQ <;>
    simp only [Clean, step, fillPtrD, streamPtrD, capPtrD, startsStreaming, stateD, hs, hr] <;> simp
  case filling =>
    cases b.abort <;> simp
    cases hst : b.stores x with
    | false => simp
    | true => simpa using hstore hst
  case streaming => split_ifs <;> simp
  case ctrlSend => split_ifs <;> simp
  case idle => simp [stores, hs]
  case waiting => split_ifs <;> simp
  case capturing => split_ifs <;> simp
  case error => simp [stores, hs]

/-- Two cycles after the write of the soft reset. -/
theorem clean_iff (ha : b.asks x 0 = true) :
    Clean ((b.step x).step y) ↔ ResetMet b x y := by
  rw [clean_step (by rw [step_softReset, ha]), step_stateQ, step_abort]
  simp only [ResetMet, Alone]
  rcases asks_state ha with hs | hs | hs | hs
  · simp only [stateD, hs]
    cases b.streamEnable <;> cases b.softReset <;> simp
  · simp only [stateD, hs]
    cases b.abort <;> cases b.softReset <;> cases b.bufFull <;> simp
  · simp only [stateD, hs]
    by_cases hc : b.capPtr = 15#4 <;> simp [hc]
  · simp only [stateD, hs]
    cases b.softReset <;> simp

theorem step_bufMem (h : b.stores x = true) (hl : b.fillPtr < 32) :
    (b.step x).bufMem = Function.update b.bufMem (b.fillPtr.setWidth 5) x.obi.wdata := by
  simp only [step, bufMemD, h, hl, decide_true, Bool.and_self, if_true]

theorem step_bufMem_of_not (h : ¬ (b.stores x = true ∧ b.fillPtr < 32)) :
    (b.step x).bufMem = b.bufMem := by
  simp only [step, bufMemD, Bool.and_eq_true, decide_eq_true_eq, h, if_false]

/-- A buffer with nothing in it holds nothing but what comes after. -/
theorem fresh_of_empty (h : (run i t).fillPtr = 0) : Fresh i t := by
  intro u hu
  induction u, hu using Nat.le_induction with
  | base =>
    intro k hk
    rw [h] at hk
    exact absurd hk (Nat.not_lt_zero _)
  | succ u hu ih =>
    intro k hk
    rw [run_succ] at hk ⊢
    by_cases hst : (run i u).startsStreaming (i u) = true
    · simp [step, fillPtrD, hst] at hk
    · cases hs : (run i u).stores (i u) with
      | true =>
        by_cases hk' : (run i u).fillPtr < 32 ∧ k = (run i u).fillPtr.setWidth 5
        · refine ⟨u, hu, by omega, hs, ?_⟩
          rw [step_bufMem hs hk'.1, hk'.2, Function.update_self]
        · have hlt : k.toNat < (run i u).fillPtr.toNat := by
            simp only [step, fillPtrD, hst, hs, if_true, Bool.false_eq_true, if_false] at hk
            have hne := fillPtr_store hs
            by_contra hge
            refine hk' ⟨?_, ?_⟩ <;> bv_omega
          obtain ⟨v, hv, hv', hsv, hm⟩ := ih k hlt
          refine ⟨v, hv, by omega, hsv, ?_⟩
          rw [← hm]
          by_cases hl : (run i u).fillPtr < 32
          · rw [step_bufMem hs hl, Function.update_of_ne fun he => hk' ⟨hl, he⟩]
          · rw [step_bufMem_of_not fun h' => hl h'.2]
      | false =>
        have hlt : k.toNat < (run i u).fillPtr.toNat := by
          simp only [step, fillPtrD, hst, hs] at hk
          cases hr : (run i u).softReset <;> simp [hr] at hk
          exact hk
        obtain ⟨v, hv, hv', hsv, hm⟩ := ih k hlt
        refine ⟨v, hv, by omega, hsv, ?_⟩
        rw [← hm, step_bufMem_of_not fun h' => by simp [hs] at h']

theorem cleaned_iff (ha : (run i t).asks (i t) 0 = true) :
    Cleaned i t ↔ ResetMet (run i t) (i t) (i (t + 1)) := by
  rw [← clean_iff ha, ← run_succ, ← run_succ]
  constructor
  · rintro ⟨u, hu, hu', hc, -⟩
    obtain rfl | rfl : u = t + 1 ∨ u = t + 2 := by omega
    · rw [run_succ (t + 1), clean_step (by rw [run_succ, step_softReset, ha])]
      exact .inl hc.1
    · exact hc
  · exact fun hc => ⟨t + 2, by omega, le_rfl, hc, fresh_of_empty hc.2.1⟩

/-- **When a request to end the block is honoured**, in every run and cycle. -/
theorem honoured_iff (i : ℕ → BufIn) (t : ℕ) : Honoured i t ↔
    ((run i t).asks (i t) 2 = true → (run i t).inProgress = true → AbortMet (run i t)) ∧
    ((run i t).asks (i t) 0 = true → ResetMet (run i t) (i t) (i (t + 1))) := by
  constructor
  · exact fun h => ⟨fun ha hp => (aborted_iff ha hp).1 (h.abort ha hp),
      fun ha => (cleaned_iff ha).1 (h.reset ha)⟩
  · exact fun h => ⟨fun ha hp => (aborted_iff ha hp).2 (h.1 ha hp),
      fun ha => (cleaned_iff ha).2 (h.2 ha)⟩

/-- A block of one word, and an abort in the cycle in which the buffer is full. -/
def abortFull (t : ℕ) : BufIn :=
  let obi : ObiReq := match t with
    | 0 => ⟨true, 0x00040000, true, 15, 2⟩
    | 1 => ⟨true, 0x0004000C, true, 15, 1⟩
    | 2 => ⟨true, 0x00040100, true, 15, 7⟩
    | 3 => ⟨true, 0x00040000, true, 15, 6⟩
    | _ => .idle
  ⟨obi, 0, false, 0⟩

theorem abortFull_lost : ¬ Honoured abortFull 3 := by
  intro h
  have hm := (aborted_iff (by decide) (by decide)).1 (h.abort (by decide) (by decide))
  rcases hm.1 (by decide) with h' | h'
  · exact absurd h' (by decide)
  · exact absurd h'.2 (by decide)

end SocBuffer

end SentinelSoc
