/-
  The interrupt events of the buffer and their pending bits.

  * `level` is the condition that sets a pending bit, `occurs` the event: for
    `ERROR` and the full buffer the first cycle of the condition;
  * `Recorded`: a pending bit keeps its event, and changes for no other reason;
  * `recorded_iff`: so it is as long as no bit is cleared in the cycle of its event,
    or in the middle of a condition that lasts.
-/
import SentinelSoc.Buf.SocBuffer

namespace SentinelSoc

/-- The bits of `IRQ_STATUS`. -/
inductive IrqBit
  | full
  | done
  | error
  deriving DecidableEq

/-- Its position in the register. -/
def IrqBit.pos : IrqBit → ℕ
  | full => 0
  | done => 1
  | error => 2

namespace SocBuffer

variable {b : SocBuffer} {x : BufIn} {i : ℕ → BufIn} {k : IrqBit} {t : ℕ}

def pend (b : SocBuffer) : IrqBit → Bool
  | .full => b.irqFullPend
  | .done => b.irqDonePend
  | .error => b.irqErrorPend

/-- The condition that sets the bit. -/
def level (b : SocBuffer) (x : BufIn) : IrqBit → Bool
  | .full => b.bufFull
  | .done => x.accelDone
  | .error => b.bufError

/-- A granted write that clears the bit. -/
def clears (b : SocBuffer) (x : BufIn) (k : IrqBit) : Bool :=
  b.writesLow x irqStatOff && x.obi.wdata.getLsbD k.pos

/-- The event in cycle `t`: a cycle of `accel_done_i`, the first cycle in `ERROR`, the first cycle
    in which the buffer is full. -/
def occurs (i : ℕ → BufIn) (k : IrqBit) (t : ℕ) : Bool :=
  (run i t).level (i t) k &&
    (k == .done || t == 0 || !(run i (t - 1)).level (i (t - 1)) k)

/-- What the pending bit does at the edge after cycle `t`. -/
structure Recorded (i : ℕ → BufIn) (k : IrqBit) (t : ℕ) : Prop where
  kept : occurs i k t = true → (run i (t + 1)).pend k = true
  cleared : (run i t).pend k = true → (run i (t + 1)).pend k = false →
    (run i t).clears (i t) k = true
  own : (run i t).pend k = false → (run i (t + 1)).pend k = true → occurs i k t = true

/-- A write that clears the bit in cycle `t` does not meet the event; and where the condition goes
    on into the next cycle, so does the clearing, or that cycle is an event again. -/
def ClearsLate (i : ℕ → BufIn) (k : IrqBit) (t : ℕ) : Prop :=
  (run i t).clears (i t) k = true → occurs i k t = false ∧
    ((run i t).level (i t) k = true → (run i (t + 1)).level (i (t + 1)) k = true →
      occurs i k (t + 1) = true ∨ (run i (t + 1)).clears (i (t + 1)) k = true)

theorem step_pend (b : SocBuffer) (x : BufIn) (k : IrqBit) :
    (b.step x).pend k = (!b.clears x k && (b.level x k || b.pend k)) := by
  cases k <;> simp only [pend, step, pendD, level, clears, IrqBit.pos] <;> grind

theorem run_pend (t : ℕ) : (run i (t + 1)).pend k =
    (!(run i t).clears (i t) k && ((run i t).level (i t) k || (run i t).pend k)) :=
  step_pend _ _ _

theorem occurs_level (h : occurs i k t = true) : (run i t).level (i t) k = true := by
  simp only [occurs, Bool.and_eq_true] at h
  exact h.1

/-- A condition without its event goes on from the cycle before. -/
theorem level_pred (hl : (run i t).level (i t) k = true) (ho : occurs i k t = false) :
    ∃ u, t = u + 1 ∧ (run i u).level (i u) k = true := by
  cases t with
  | zero => simp [occurs, hl] at ho
  | succ u =>
    refine ⟨u, rfl, ?_⟩
    simp only [occurs, hl, Nat.add_sub_cancel, Bool.true_and, Bool.or_eq_false_iff,
      Bool.not_eq_false'] at ho
    exact ho.2

/-- **Events against clearing writes.** A pending bit keeps every event and is set and cleared for
    no other reason exactly in the runs in which every clearing write comes late. -/
theorem recorded_iff (i : ℕ → BufIn) :
    (∀ k t, Recorded i k t) ↔ ∀ k t, ClearsLate i k t := by
  constructor
  · intro h k t hc
    have hp : (run i (t + 1)).pend k = false := by rw [run_pend, hc]; rfl
    refine ⟨?_, fun hl hl' => ?_⟩
    · by_contra ho
      rw [(h k t).kept (by simpa using ho)] at hp
      cases hp
    · by_contra hn
      rw [not_or] at hn
      -- the condition sets the bit again, without an event
      refine hn.1 ((h k (t + 1)).own hp ?_)
      rw [run_pend, hl', Bool.eq_false_of_not_eq_true hn.2]
      rfl
  · intro h k t
    refine ⟨fun ho => ?_, fun hp hp' => ?_, fun hp hp' => ?_⟩
    · have hc : (run i t).clears (i t) k = false := by
        by_contra hc
        rw [((h k t) (by simpa using hc)).1] at ho
        cases ho
      rw [run_pend, hc, occurs_level ho]
      rfl
    · rw [run_pend, hp] at hp'
      simpa using hp'
    · rw [run_pend, hp] at hp'
      simp only [Bool.or_false, Bool.and_eq_true, Bool.not_eq_true'] at hp'
      by_contra ho
      rw [Bool.not_eq_true] at ho
      -- the condition held before, so the bit has been cleared in the middle of it
      obtain ⟨u, rfl, hl⟩ := level_pred hp'.2 ho
      have hc : (run i u).clears (i u) k = true := by
        rw [run_pend, hl] at hp
        simpa using hp
      rcases ((h k u) hc).2 hl hp'.2 with h' | h'
      · rw [ho] at h'
        cases h'
      · rw [hp'.1] at h'
        cases h'

/-- The first cycle has a done pulse, and a write of `IRQ_STATUS` that clears its bit. -/
def doneCleared (t : ℕ) : BufIn :=
  ⟨if t = 0 then ⟨true, 0x00040014, true, 1, 2⟩ else .idle, 0, t == 0, 0⟩

theorem doneCleared_lost : ¬ Recorded doneCleared .done 0 := fun h =>
  absurd (h.kept (by decide)) (by decide)

end SocBuffer

end SentinelSoc
