/-
  The two double-and-add loops (`ST_S2_DOUBLE` to `ST_S2_SHIFT` and `ST_S4_DOUBLE` to
  `ST_S4_SHIFT`).

  * `LadderStates`: what the state machine does in the four states of a loop;
  * `InLoop`: registers 0 to 3 hold the multiple by the bits done, 4 to 7 the point;
  * `ladder_loop`: 256 rounds leave the multiple by the whole scalar.
-/
import SentinelSoc.Ed.Points
import SentinelSoc.Ed.Sequences

namespace SentinelSoc

open Microcode Edwards

/-- The states in which a verification is under way. -/
def FsmState.busy : FsmState → Bool
  | .idle | .done => false
  | _ => true

/-- Steps of the verification. -/
abbrev Verifies : SeqState → SeqState → Prop := Steps fun st => st.busy = true

/-! ## The states of a loop -/

/-- Four states that double, look at the top bit of the scalar, add and shift. -/
structure LadderStates (dbl chk sum sh exit : FsmState) : Prop where
  double : ∀ (f : MasterFsm) (d : Datapath),
    SeqState.next ⟨f.enter dbl, d⟩ = ⟨f.enter chk, d.sequence 1⟩
  checkBit : ∀ (f : MasterFsm) (d : Datapath),
    SeqState.next ⟨f.enter chk, d⟩ = ⟨f.enter (if f.currentMsb then sum else sh), d⟩
  add : ∀ (f : MasterFsm) (d : Datapath),
    SeqState.next ⟨f.enter sum, d⟩ = ⟨f.enter sh, d.sequence 2⟩
  shift : ∀ (f : MasterFsm) (d : Datapath),
    SeqState.next ⟨f.enter sh, d⟩ =
      ⟨{ f with scalarReg := f.scalarReg <<< 1, bitCounter := f.bitCounter - 1 }.enter
        (if f.bitCounter = 0 then exit else dbl), d⟩
  busy : dbl.busy = true ∧ chk.busy = true ∧ sum.busy = true ∧ sh.busy = true

/-- `P1 = s * G` -/
theorem s2States : LadderStates .s2Double .s2CheckBit .s2Add .s2Shift .s2SaveP1 where
  double _ _ := rfl
  checkBit f d := by
    have h : (f.enter .s2CheckBit).currentMsb = f.currentMsb := rfl
    cases hb : f.currentMsb <;> rw [hb] at h <;>
      simp [SeqState.next, MasterFsm.step, MasterFsm.nextState, MasterFsm.shadow, h] <;> rfl
  add _ _ := rfl
  shift f d := by
    refine congrArg (SeqState.mk · d) (MasterFsm.step_eq_enter ?_)
    generalize MasterFsm.nextState _ _ _ _ = st
    change st ≠ .s2Shift ∨ st.triggers = false
    cases st <;> decide
  busy := ⟨rfl, rfl, rfl, rfl⟩

/-- `h * A` -/
theorem s4States : LadderStates .s4Double .s4CheckBit .s4AddA .s4Shift .s4LoadRBase where
  double _ _ := rfl
  checkBit f d := by
    have h : (f.enter .s4CheckBit).currentMsb = f.currentMsb := rfl
    cases hb : f.currentMsb <;> rw [hb] at h <;>
      simp [SeqState.next, MasterFsm.step, MasterFsm.nextState, MasterFsm.shadow, h] <;> rfl
  add _ _ := rfl
  shift f d := by
    refine congrArg (SeqState.mk · d) (MasterFsm.step_eq_enter ?_)
    generalize MasterFsm.nextState _ _ _ _ = st
    change st ≠ .s4Shift ∨ st.triggers = false
    cases st <;> decide
  busy := ⟨rfl, rfl, rfl, rfl⟩

/-! ## The loop -/

/-- Before the round for the counter's bit of the scalar `s`. -/
structure InLoop (s : Word) (f : MasterFsm) (d : Datapath) : Prop where
  scalar : f.scalarReg = s <<< (255 - f.bitCounter.toNat)
  two_d : d.regs 27 = curve2D
  base : Below (2 ^ 255) d.regs 4
  base_le : (d.regs 4).toNat ≤ (d.regs 5).toNat + p
  acc : Below p d.regs 0
  multiple : coords (residues d.regs) 0 =
    Extended.smul curve.d (s.toNat / 2 ^ (f.bitCounter.toNat + 1)) (coords (residues d.regs) 4)

/-- Registers that the loops leave alone. -/
def SameBase (d d' : Datapath) : Prop :=
  ∀ r : BitVec 5, (4 ≤ r ∧ r < 8) ∨ 15 ≤ r → d'.regs r = d.regs r

theorem SameBase.coords {d d' : Datapath} (h : SameBase d d') :
    coords (residues d'.regs) 4 = coords (residues d.regs) 4 := by
  have h4 := h 4 (by decide)
  have h5 := h 5 (by decide)
  have h6 := h 6 (by decide)
  have h7 := h 7 (by decide)
  simp only [SentinelSoc.coords, residues, h4, h5, h6, h7,
    show (4 : BitVec 5) + 1 = 5 from rfl, show (4 : BitVec 5) + 2 = 6 from rfl,
    show (4 : BitVec 5) + 3 = 7 from rfl]

theorem SameBase.below {d d' : Datapath} (h : SameBase d d') {n : ℕ} (hb : Below n d.regs 4) :
    Below n d'.regs 4 where
  x_lt := by rw [h 4 (by decide)]; exact hb.x_lt
  y_lt := by rw [h (4 + 1) (by decide)]; exact hb.y_lt
  z_lt := by rw [h (4 + 2) (by decide)]; exact hb.z_lt
  t_lt := by rw [h (4 + 3) (by decide)]; exact hb.t_lt

theorem currentMsb_eq {s : Word} {f : MasterFsm} {d : Datapath} (h : InLoop s f d) :
    f.currentMsb = s.toNat.testBit f.bitCounter.toNat := by
  have hlt := f.bitCounter.isLt
  rw [MasterFsm.currentMsb, h.scalar, BitVec.getLsbD_shiftLeft]
  have hn : 255 - (255 - f.bitCounter.toNat) = f.bitCounter.toNat := by omega
  rw [hn]
  simp [BitVec.getLsbD]

variable {dbl chk sum sh exit : FsmState}

/-- One bit of the scalar. -/
theorem ladder_bit (L : LadderStates dbl chk sum sh exit) {s : Word} {f : MasterFsm} {d : Datapath}
    (h : InLoop s f d) :
    ∃ d', Verifies ⟨f.enter dbl, d⟩ ⟨f.enter sh, d'⟩ ∧ SameBase d d' ∧ Below p d'.regs 0 ∧
      coords (residues d'.regs) 0 =
        Extended.smul curve.d (s.toNat / 2 ^ f.bitCounter.toNat) (coords (residues d.regs) 4) := by
  obtain ⟨hbd, hbc, hba, -⟩ := L.busy
  have hp : p ≤ 2 ^ 255 := by decide
  have hpow := Ladder.step_power (Extended.powers_smul curve.d (coords (residues d.regs) 4))
    s.toNat f.bitCounter.toNat
  obtain ⟨-, hlt, hdbl⟩ := pointDouble_coords (h.acc.mono hp)
  have hsame : SameBase d (d.sequence 1) := fun r hr => (point_frame d hr).1
  rw [← h.multiple, ← currentMsb_eq h] at hpow
  rcases hm : f.currentMsb with _ | _
  · refine ⟨d.sequence 1, .head hbd ?_, hsame, hlt, ?_⟩
    · rw [L.double]
      refine .head hbc ?_
      rw [L.checkBit, hm]
      exact .refl _
    · rw [hm] at hpow
      exact hdbl.trans hpow
  · have hle : ((d.sequence 1).regs 0).toNat ≤ ((d.sequence 1).regs 1).toNat + p :=
      hlt.x_lt.le.trans (Nat.le_add_left _ _)
    have hle' : ((d.sequence 1).regs 4).toNat ≤ ((d.sequence 1).regs 5).toNat + p := by
      rw [hsame 4 (by decide), hsame 5 (by decide)]
      exact h.base_le
    obtain ⟨-, hlt', hadd⟩ := pointAdd_coords ((hsame 27 (by decide)).trans h.two_d)
      (hlt.mono hp) (hsame.below h.base) hle hle'
    refine ⟨(d.sequence 1).sequence 2, .head hbd ?_, fun r hr => ?_, hlt', ?_⟩
    · rw [L.double]
      refine .head hbc ?_
      rw [L.checkBit, hm, if_pos rfl]
      refine .head hba ?_
      rw [L.add]
      exact .refl _
    · exact (point_frame _ hr).2.trans (hsame r hr)
    · rw [hm] at hpow
      refine hadd.trans ?_
      rw [hsame.coords]
      exact (congrArg (Extended.add curve.d · _) hdbl).trans hpow

/-- **A loop multiplies by the whole scalar.** -/
theorem ladder_loop (L : LadderStates dbl chk sum sh exit) {s : Word} (f : MasterFsm)
    (d : Datapath) (h : InLoop s f d) :
    ∃ sr d', Verifies ⟨f.enter dbl, d⟩
        ⟨{ f with scalarReg := sr, bitCounter := 255 }.enter exit, d'⟩ ∧
      SameBase d d' ∧ Below p d'.regs 0 ∧
      coords (residues d'.regs) 0 =
        Extended.smul curve.d s.toNat (coords (residues d.regs) 4) := by
  induction hn : f.bitCounter.toNat generalizing f d with
  | zero =>
    obtain ⟨d₁, hsteps, hsame, hlt, hval⟩ := ladder_bit L h
    have hb : f.bitCounter = 0 := BitVec.eq_of_toNat_eq hn
    have hshift := L.shift f d₁
    rw [if_pos hb, hb] at hshift
    refine ⟨f.scalarReg <<< 1, d₁, hsteps.trans (.head L.busy.2.2.2 ?_), hsame, hlt, ?_⟩
    · rw [hshift]
      exact .refl _
    · rw [hval, hn, pow_zero, Nat.div_one]
  | succ n ih =>
    obtain ⟨d₁, hsteps, hsame, hlt, hval⟩ := ladder_bit L h
    have hb : f.bitCounter ≠ 0 := by
      intro hb
      rw [hb] at hn
      exact absurd hn (by simp)
    have hshift := L.shift f d₁
    rw [if_neg hb] at hshift
    have hn' : (f.bitCounter - 1).toNat = n := by bv_omega
    have hinv : InLoop s { f with scalarReg := f.scalarReg <<< 1, bitCounter := f.bitCounter - 1 }
        d₁ := by
      have hltc := f.bitCounter.isLt
      refine ⟨?_, (hsame 27 (by decide)).trans h.two_d, hsame.below h.base, ?_, hlt, ?_⟩
      · change f.scalarReg <<< 1 = s <<< (255 - (f.bitCounter - 1).toNat)
        rw [h.scalar, ← BitVec.shiftLeft_add, hn', hn]
        congr 1
        omega
      · rw [hsame 4 (by decide), hsame 5 (by decide)]
        exact h.base_le
      · rw [hval, hsame.coords, hn]
        change _ = Extended.smul _ (_ / 2 ^ ((f.bitCounter - 1).toNat + 1)) _
        rw [hn']
    obtain ⟨sr, d', hsteps', hsame', hlt', hval'⟩ := ih _ d₁ hinv hn'
    refine ⟨sr, d', hsteps.trans (.head L.busy.2.2.2 ?_), fun r hr => ?_, hlt', ?_⟩
    · rw [hshift]
      exact hsteps'
    · rw [hsame' r hr, hsame r hr]
    · rw [hval', hsame.coords]

end SentinelSoc
