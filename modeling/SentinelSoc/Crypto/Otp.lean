/-
  The one-time-programmable memory of the public key (`otp.sv`) and its lock.

  * the key bits survive a reset, the lock is a flop that does not;
  * `Permanent`: what programming the lock sentinel is for;
  * `permanent_iff`: it lasts until the next reset.
-/
import SentinelSoc.Lib.Sync
import SentinelSoc.Crypto.TopMost

namespace SentinelSoc

structure Otp where
  otpMem : BitVec 256
  lockBit : Bool

/-- The inputs of one cycle. -/
structure OtpIn where
  rst : Bool
  bootActive : Bool
  rdEn : Bool
  rdAddr : BitVec 3
  progEn : Bool
  progAddr : BitVec 9
  progData : Bool
  testMode : Bool

namespace Otp

/-- Out of the range of the key bits. -/
def lockSentinel : BitVec 9 := 0x1FF

/-- `otp_mem[a] <= d` -/
def setBit (m : BitVec 256) (a : ℕ) (d : Bool) : BitVec 256 :=
  if d then m ||| BitVec.twoPow 256 a else m &&& ~~~ BitVec.twoPow 256 a

/-- A cycle that programs the lock sentinel. -/
def locks (x : OtpIn) : Bool :=
  !x.rst && x.progEn && x.testMode && x.progAddr == lockSentinel && x.progData

variable (o : Otp) (x : OtpIn)

/-- A cycle that programs a key bit. -/
def programs : Bool :=
  !x.rst && x.progEn && x.testMode && !o.lockBit && decide (x.progAddr < 256)

/-- One clock edge. -/
def step : Otp where
  otpMem := if o.programs x then setBit o.otpMem x.progAddr.toNat x.progData else o.otpMem
  lockBit := if x.rst then false else if locks x then true else o.lockBit

def otpLock : Bool := o.lockBit

/-- `rd_data` -/
def rdData : BitVec 32 := otpRdData o.otpMem x.bootActive x.rdEn x.rdAddr

/-- The run from a device with any key bits and any lock. -/
def run (o : Otp) (i : ℕ → OtpIn) : ℕ → Otp := Sync.run step o i

/-- After cycle `t` the lock stays and no key bit changes, so an enabled read always gives the same
    word. -/
def Permanent (o : Otp) (i : ℕ → OtpIn) (t : ℕ) : Prop :=
  ∀ u, t < u → (run o i u).otpLock = true ∧ (run o i u).otpMem = (run o i (t + 1)).otpMem ∧
    ((i u).bootActive = true → (i u).rdEn = true →
      (run o i u).rdData (i u) = (run o i (t + 1)).otpMem.extractLsb' ((i u).rdAddr.toNat * 32) 32)

variable {o : Otp} {x : OtpIn} {i : ℕ → OtpIn} {t u : ℕ}

theorem run_succ (t : ℕ) : run o i (t + 1) = (run o i t).step (i t) := rfl

/-- Programming sets the bit addressed and no other. -/
theorem getLsbD_setBit (m : BitVec 256) {a : ℕ} (ha : a < 256) (d : Bool) (k : ℕ) :
    (setBit m a d).getLsbD k = if k = a then d else m.getLsbD k := by
  rcases Nat.lt_or_ge k 256 with hk | hk
  · unfold setBit
    by_cases hka : k = a
    · subst hka
      cases d <;> simp [hk]
    · cases d <;> simp [hk, hka]
  · have hne : k ≠ a := by omega
    simp [BitVec.getLsbD_of_ge _ _ hk, hne]

/-- The lock keeps the key bits, in a reset too. -/
theorem step_otpMem (h : o.lockBit = true) : (o.step x).otpMem = o.otpMem := by
  simp [step, programs, h]

/-- The lock keeps itself unless there is a reset. -/
theorem step_lockBit (h : o.lockBit = true) : (o.step x).lockBit = !x.rst := by
  cases hr : x.rst <;> simp [step, hr, h]

theorem step_locks (h : locks x = true) : (o.step x).lockBit = true := by
  have hr : x.rst = false := by
    simp only [locks, Bool.and_eq_true, Bool.not_eq_true'] at h
    exact h.1.1.1.1
  simp [step, h, hr]

theorem locked_run (h : locks (i t) = true) (hr : ∀ u, t < u → (i u).rst = false) (hu : t < u) :
    (run o i u).lockBit = true ∧ (run o i u).otpMem = (run o i (t + 1)).otpMem := by
  induction u, hu using Nat.le_induction with
  | base => exact ⟨step_locks h, rfl⟩
  | succ u hu ih =>
    obtain ⟨hl, hm⟩ := ih
    rw [run_succ]
    refine ⟨?_, ?_⟩
    · rw [step_lockBit hl, hr u hu]
      rfl
    · rw [step_otpMem hl, hm]

/-- **How long the lock lasts.** What the sentinel locks is permanent exactly in the runs without a
    reset after it. -/
theorem permanent_iff (o : Otp) (i : ℕ → OtpIn) (t : ℕ) :
    (locks (i t) = true → Permanent o i t) ↔
      (locks (i t) = true → ∀ u, t < u → (i u).rst = false) := by
  constructor
  · intro h hl u hu
    have hlock := ((h hl) u hu).1
    have hnext := ((h hl) (u + 1) (by omega)).1
    rw [otpLock, run_succ, step_lockBit hlock] at hnext
    simpa using hnext
  · intro h hl u hu
    obtain ⟨hlock, hm⟩ := locked_run (o := o) hl (h hl) hu
    refine ⟨hlock, hm, fun hb he => ?_⟩
    simp [rdData, otpRdData, hb, he, hm]

/-- The sentinel, a reset, and then key bit 0. -/
def resetProgram (t : ℕ) : OtpIn :=
  match t with
  | 0 => ⟨false, false, false, 0, true, lockSentinel, true, true⟩
  | 1 => ⟨true, false, false, 0, false, 0, false, false⟩
  | 2 => ⟨false, false, false, 0, true, 0, true, true⟩
  | _ => ⟨false, true, true, 0, false, 0, false, false⟩

/-- The key of the locked device changes. -/
theorem resetProgram_changes : locks (resetProgram 0) = true ∧
    ¬ Permanent ⟨0, false⟩ resetProgram 0 :=
  ⟨by decide, fun h => absurd (h 3 (by decide)).2.1 (by decide)⟩

end Otp

end SentinelSoc
