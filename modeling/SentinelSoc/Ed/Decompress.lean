/-
  Point decompression (`ST_DECOMP_START` to `ST_S3_PACK`).

  * `exp_loop`: the shared exponentiation subroutine raises the base to the exponent that
    `target_exponent` selects;
  * `decompress_steps`: the path of the state machine, with the registers after it;
  * `decompress_root`: the registers hold the root of `u / v` with the requested parity.
-/
import SentinelSoc.Lib.Ladder
import SentinelSoc.Lib.Roots
import SentinelSoc.Ed.Sequences
import SentinelSoc.Ed.Points

namespace SentinelSoc

open Microcode

/-- The states of the decompression. -/
def FsmState.decompresses : FsmState → Bool
  | .decompStart | .s3Uv | .s3InvSetup | .s3Xsq | .s3SqrtSetup | .s3FudgeCheck | .s3FudgeMult
  | .s3FixSign | .s3Pack | .expSquare | .expCheckBit | .expMult | .expShift => true
  | _ => false

/-- Steps of the decompression. -/
abbrev Decompresses : SeqState → SeqState → Prop := Steps fun st => st.decompresses = true

namespace MasterFsm

variable (f : MasterFsm)

/-- The exponent of the subroutine. -/
def exponent : ℕ := if f.targetExponent then expPPlus3Over8.toNat else expPMinus2.toNat

theorem currentExpBit_eq : f.currentExpBit = f.exponent.testBit f.bitCounter.toNat := by
  unfold currentExpBit exponent
  split_ifs <;> rfl

end MasterFsm

/-! ## The exponentiation subroutine -/

section Exponentiation

variable (f : MasterFsm) (d : Datapath)

theorem next_expSquare : SeqState.next ⟨f.enter .expSquare, d⟩ =
    ⟨f.enter .expCheckBit, Datapath.run true d (program 8)⟩ := rfl

theorem next_expCheckBit : SeqState.next ⟨f.enter .expCheckBit, d⟩ =
    ⟨f.enter (if f.currentExpBit then .expMult else .expShift), d⟩ := by
  have h : (f.enter .expCheckBit).currentExpBit = f.currentExpBit := rfl
  cases hb : f.currentExpBit <;> rw [hb] at h <;>
    simp [SeqState.next, MasterFsm.step, MasterFsm.nextState, MasterFsm.shadow, h] <;> rfl

theorem next_expMult : SeqState.next ⟨f.enter .expMult, d⟩ =
    ⟨f.enter .expShift, Datapath.run true d (program 9)⟩ := rfl

/-- The counter is decremented on the way out, too. -/
theorem next_expShift : SeqState.next ⟨f.enter .expShift, d⟩ =
    ⟨{ f with bitCounter := f.bitCounter - 1 }.enter
      (if f.bitCounter = 0 then f.returnState else .expSquare), d⟩ := by
  have hstep : (f.enter .expShift).step false false false 0 =
      { f with bitCounter := f.bitCounter - 1 }.enter
        (if f.bitCounter = 0 then f.returnState else .expSquare) := by
    refine MasterFsm.step_eq_enter ?_
    generalize MasterFsm.nextState _ _ _ _ = st
    change st ≠ .expShift ∨ st.triggers = false
    cases st <;> decide
  exact congrArg (SeqState.mk · d) hstep

end Exponentiation

/-- What the subroutine leaves alone. -/
structure SameBut11 (d d' : Datapath) : Prop where
  regs : ∀ r, r ≠ 11 → d'.regs r = d.regs r
  xSign : d'.xSign = d.xSign

/-- One bit of the exponent. -/
theorem exp_bit (f : MasterFsm) (d : Datapath) :
    ∃ d', Decompresses ⟨f.enter .expSquare, d⟩ ⟨f.enter .expShift, d'⟩ ∧ SameBut11 d d' ∧
      (d'.regs 11).toNat < p ∧
      fe (d'.regs 11) = Ladder.step (fun a => a * a) (fun a => a * fe (d.regs 12))
        f.currentExpBit (fe (d.regs 11)) := by
  have hsq : SameBut11 d (Datapath.run true d (program 8)) :=
    ⟨fun r hr => Function.update_of_ne hr _ _, rfl⟩
  rcases hb : f.currentExpBit with _ | _
  · refine ⟨Datapath.run true d (program 8), .head rfl (.head rfl ?_), hsq, fmul_lt _ _,
      fe_fmul _ _⟩
    rw [next_expSquare, next_expCheckBit, hb]
    exact .refl _
  · refine ⟨Datapath.run true (Datapath.run true d (program 8)) (program 9),
      .head rfl (.head rfl (.head ?_ ?_)), ⟨fun r hr => ?_, rfl⟩, fmul_lt _ _, ?_⟩
    · rw [next_expSquare, next_expCheckBit, hb]
      rfl
    · rw [next_expSquare, next_expCheckBit, hb, if_pos rfl, next_expMult]
      exact .refl _
    · exact (Function.update_of_ne hr _ _).trans (hsq.regs r hr)
    · change fe (fmul (fmul _ _) _) = _
      rw [fe_fmul, fe_fmul]
      rfl

theorem exp_bit_pow (f : MasterFsm) (d : Datapath)
    (hacc : fe (d.regs 11) = fe (d.regs 12) ^ (f.exponent / 2 ^ (f.bitCounter.toNat + 1))) :
    ∃ d', Decompresses ⟨f.enter .expSquare, d⟩ ⟨f.enter .expShift, d'⟩ ∧ SameBut11 d d' ∧
      (d'.regs 11).toNat < p ∧
      fe (d'.regs 11) = fe (d.regs 12) ^ (f.exponent / 2 ^ f.bitCounter.toNat) := by
  obtain ⟨d₁, hsteps, hsame, hlt, hval⟩ := exp_bit f d
  refine ⟨d₁, hsteps, hsame, hlt, ?_⟩
  rw [hval, hacc, f.currentExpBit_eq]
  exact Ladder.step_power (Ladder.powers_pow _) _ _

/-- **The exponentiation subroutine.**  With the bits above the counter done, it does the others
    and leaves with the counter wrapped around. -/
theorem exp_loop (f : MasterFsm) (d : Datapath)
    (hacc : fe (d.regs 11) = fe (d.regs 12) ^ (f.exponent / 2 ^ (f.bitCounter.toNat + 1))) :
    ∃ d', Decompresses ⟨f.enter .expSquare, d⟩
        ⟨{ f with bitCounter := 255 }.enter f.returnState, d'⟩ ∧
      SameBut11 d d' ∧ (d'.regs 11).toNat < p ∧
      fe (d'.regs 11) = fe (d.regs 12) ^ f.exponent := by
  induction hn : f.bitCounter.toNat generalizing f d with
  | zero =>
    obtain ⟨d₁, hsteps, hsame, hlt, hpow⟩ := exp_bit_pow f d hacc
    have hb : f.bitCounter = 0 := BitVec.eq_of_toNat_eq hn
    have hshift := next_expShift f d₁
    rw [if_pos hb, hb] at hshift
    refine ⟨d₁, hsteps.trans (.head rfl ?_), hsame, hlt, ?_⟩
    · rw [hshift]
      exact .refl _
    · rw [hpow, hn, pow_zero, Nat.div_one]
  | succ n ih =>
    obtain ⟨d₁, hsteps, hsame, hlt, hpow⟩ := exp_bit_pow f d hacc
    have hb : f.bitCounter ≠ 0 := by
      intro hb
      rw [hb] at hn
      exact absurd hn (by simp)
    have hshift := next_expShift f d₁
    rw [if_neg hb] at hshift
    have hn' : (f.bitCounter - 1).toNat = n := by bv_omega
    have h12 : d₁.regs 12 = d.regs 12 := hsame.regs 12 (by decide)
    obtain ⟨d', hsteps', hsame', hlt', hval'⟩ := ih { f with bitCounter := f.bitCounter - 1 } d₁
      (by rw [h12, hn']; exact hn ▸ hpow) hn'
    refine ⟨d', hsteps.trans (.head rfl ?_), ⟨fun r hr => ?_, ?_⟩, hlt', ?_⟩
    · rw [hshift]
      exact hsteps'
    · rw [hsame'.regs r hr, hsame.regs r hr]
    · rw [hsame'.xSign, hsame.xSign]
    · rw [hval', h12]
      rfl

/-- The subroutine from the start. -/
theorem exp_run (f : MasterFsm) (d : Datapath) (hone : fe (d.regs 11) = 1)
    (hlt : f.exponent < 2 ^ (f.bitCounter.toNat + 1)) :
    ∃ d', Decompresses ⟨f.enter .expSquare, d⟩
        ⟨{ f with bitCounter := 255 }.enter f.returnState, d'⟩ ∧
      SameBut11 d d' ∧ (d'.regs 11).toNat < p ∧
      fe (d'.regs 11) = fe (d.regs 12) ^ f.exponent := by
  refine exp_loop f d ?_
  rw [hone, Nat.div_eq_of_lt hlt, pow_zero]

theorem expPMinus2_toNat : expPMinus2.toNat = p - 2 := by decide

theorem expPPlus3Over8_toNat : expPPlus3Over8.toNat = (p + 3) / 8 := by decide

/-! ## The path of the state machine -/

section Path

variable (f : MasterFsm) (d : Datapath)

/-- The subroutine is called for the inverse of `v`. -/
def MasterFsm.forInverse : MasterFsm :=
  { f with targetExponent := false, bitCounter := 254, returnState := .s3Xsq }

/-- The subroutine is called for the root. -/
def MasterFsm.forRoot : MasterFsm :=
  { f with targetExponent := true, bitCounter := 251, returnState := .s3FudgeCheck }

/-- Up to the first call of the subroutine. -/
theorem steps_inverse : Decompresses ⟨f.enter .decompStart, d⟩
    ⟨f.forInverse.enter .expSquare,
      ((d.sequence (if f.isDecompPubkey then 11 else 12)).sequence 6).sequence 7⟩ :=
  .head rfl (.head rfl (.head rfl (.refl _)))

/-- Between the calls. -/
theorem steps_root : Decompresses ⟨f.enter .s3Xsq, d⟩
    ⟨f.forRoot.enter .expSquare, (d.sequence 10).sequence 13⟩ :=
  .head rfl (.head rfl (.refl _))

theorem next_fudgeCheck : SeqState.next ⟨f.enter .s3FudgeCheck, d⟩ =
    ⟨f.enter (if fmul (d.regs 11) (d.regs 11) = d.regs 13 then .s3FixSign else .s3FudgeMult),
      d.sequence 14⟩ := by
  have hcmp : SeqState.next ⟨f.enter .s3FudgeCheck, d⟩ =
      ⟨(f.enter .s3FudgeCheck).step false true
        (decide (fmul (d.regs 11) (d.regs 11) = d.regs 13)) (fmul (d.regs 11) (d.regs 11)),
        d.sequence 14⟩ := rfl
  rw [hcmp]
  by_cases h : fmul (d.regs 11) (d.regs 11) = d.regs 13
  · rw [if_pos h, decide_eq_true h]
    rfl
  · rw [if_neg h, decide_eq_false h]
    rfl

/-- The candidate, corrected if its square is not the number. -/
def corrected : Datapath :=
  if fmul (d.regs 11) (d.regs 11) = d.regs 13 then d.sequence 14 else (d.sequence 14).sequence 15

theorem next_pack : SeqState.next ⟨f.enter .s3Pack, d⟩ =
    ⟨f.enter (if f.isDecompPubkey then .s3SaveA else .s3SaveR), d.sequence 17⟩ := by
  obtain ⟨st, ret, start, bc, sr, te, pk, xe, ye⟩ := f
  cases pk <;> rfl

/-- Behind the second call. -/
theorem steps_pack : Decompresses ⟨f.enter .s3FudgeCheck, d⟩
    ⟨f.enter (if f.isDecompPubkey then .s3SaveA else .s3SaveR),
      ((corrected d).sequence 16).sequence 17⟩ := by
  have hpack : ∀ d' : Datapath, Decompresses ⟨f.enter .s3FixSign, d'⟩
      ⟨f.enter (if f.isDecompPubkey then .s3SaveA else .s3SaveR),
        (d'.sequence 16).sequence 17⟩ := by
    intro d'
    refine .head rfl (.head rfl ?_)
    change Steps _ (SeqState.next ⟨f.enter .s3Pack, d'.sequence 16⟩) _
    rw [next_pack]
    exact .refl _
  refine .head rfl ?_
  rw [next_fudgeCheck]
  by_cases h : fmul (d.regs 11) (d.regs 11) = d.regs 13
  · rw [if_pos h, corrected, if_pos h]
    exact hpack _
  · rw [if_neg h, corrected, if_neg h]
    exact .head rfl (hpack _)

end Path

/-! ## The registers -/

/-- `u = y² - 1` -/
def uOf (y : ZMod p) : ZMod p := y ^ 2 - 1

/-- `v = d y² + 1` -/
def vOf (y : ZMod p) : ZMod p := fe curveD * y ^ 2 + 1

/-- What the core takes for `u / v`. -/
def xSquared (y : ZMod p) : ZMod p := uOf y * vOf y ^ (p - 2)

/-- The constants that the decompression uses. -/
structure HasConstants (regs : BitVec 5 → Word) : Prop where
  one : regs 25 = 1
  curveD : regs 26 = curveD
  sqrtM1 : regs 28 = sqrtM1

/-- The decompression of `enc`, whether or not `u / v` is a square. -/
structure Decompressed (enc : Word) (d d' : Datapath) : Prop where
  x : ∃ c : Word, c.toNat < p ∧ fe c = xSquared (fe (loadCompressed enc)) ^ ((p + 3) / 8) ∧
    d'.regs 0 = condNegate
      (if fe c ^ 2 = xSquared (fe (loadCompressed enc)) then c else fmul c sqrtM1)
      (enc.getLsbD 255)
  y : d'.regs 1 = loadCompressed enc
  z : d'.regs 2 = 1
  t : d'.regs 3 = fmul (d'.regs 0) (d'.regs 1)
  frame : ∀ r : BitVec 5, (4 ≤ r ∧ r < 8) ∨ 16 ≤ r → d'.regs r = d.regs r

theorem sequence_frame {n : BitVec 5} (hn : n ∈ [6, 7, 10, 11, 12, 13, 14, 15, 16, 17])
    (d : Datapath) {r : BitVec 5} (hr : (4 ≤ r ∧ r < 8) ∨ 16 ≤ r) :
    (d.sequence n).regs r = d.regs r := by
  have key : ∀ n ∈ ([6, 7, 10, 11, 12, 13, 14, 15, 16, 17] : List (BitVec 5)),
      ∀ r : BitVec 5, (4 ≤ r ∧ r < 8) ∨ 16 ≤ r → ∀ op ∈ program n, r ≠ op.destSel := by
    decide +kernel
  exact Datapath.frame (key n hn r hr)

/-- Behind the load, the setup and the inverse: the words of `y`, `u` and `v`. -/
theorem setup_regs {f : MasterFsm} {d : Datapath} {enc : Word}
    (henc : d.regs (if f.isDecompPubkey then 21 else 20) = enc) :
    let d' := ((d.sequence (if f.isDecompPubkey then 11 else 12)).sequence 6).sequence 7
    let y := loadCompressed enc
    d'.regs 8 = y ∧ d'.regs 15 = fsub (fmul y y) (d.regs 25) ∧
      d'.regs 12 = fadd (fmul (d.regs 26) (fmul y y)) (d.regs 25) ∧
      d'.regs 11 = d.regs 25 ∧ d'.xSign = enc.getLsbD 255 := by
  subst henc
  cases f.isDecompPubkey <;> exact ⟨rfl, rfl, rfl, rfl, rfl⟩

/-- The square and its root's base. -/
theorem xsq_regs (d : Datapath) :
    let d' := (d.sequence 10).sequence 13
    d'.regs 13 = fmul (d.regs 15) (d.regs 11) ∧ d'.regs 12 = d'.regs 13 ∧
      d'.regs 11 = d.regs 25 ∧ d'.regs 8 = d.regs 8 ∧ d'.xSign = d.xSign :=
  ⟨rfl, rfl, rfl, rfl, rfl⟩

theorem corrected_regs (d : Datapath) :
    (corrected d).regs 11 =
        (if fmul (d.regs 11) (d.regs 11) = d.regs 13 then d.regs 11
          else fmul (d.regs 11) (d.regs 28)) ∧
      (corrected d).regs 8 = d.regs 8 ∧ (corrected d).xSign = d.xSign ∧
      ∀ r : BitVec 5, (4 ≤ r ∧ r < 8) ∨ 16 ≤ r → (corrected d).regs r = d.regs r := by
  unfold corrected
  split_ifs with h
  · exact ⟨rfl, rfl, rfl, fun r hr => sequence_frame (by decide) d hr⟩
  · refine ⟨rfl, rfl, rfl, fun r hr => ?_⟩
    rw [sequence_frame (by decide) _ hr, sequence_frame (by decide) d hr]

theorem pack_regs (d : Datapath) :
    let d' := (d.sequence 16).sequence 17
    let x := condNegate (d.regs 11) d.xSign
    d'.regs 0 = x ∧ d'.regs 1 = d.regs 8 ∧ d'.regs 2 = d.regs 25 ∧ d'.regs 3 = fmul x (d.regs 8) :=
  ⟨rfl, rfl, rfl, rfl⟩

theorem fe_one : fe 1 = 1 := by
  change ((1 : ℕ) : ZMod p) = 1
  exact Nat.cast_one

theorem fe_uOf (y : Word) : fe (fsub (fmul y y) 1) = uOf (fe y) := by
  have h1 : (1 : Word).toNat = 1 := rfl
  have hp : 1 ≤ p := by decide
  rw [fe_fsub (by omega), fe_fmul, fe_one, uOf, sq]

theorem fe_vOf (y : Word) : fe (fadd (fmul curveD (fmul y y)) 1) = vOf (fe y) := by
  have h1 : (1 : Word).toNat = 1 := rfl
  have hlt := (fmul curveD (fmul y y)).isLt
  have hp : 1 < p := by decide
  rw [fe_fadd (by omega), fe_fmul, fe_fmul, fe_one, vOf, sq]

/-- **The decompression**, whether or not `u / v` is a square. -/
theorem decompress_steps (f : MasterFsm) (d : Datapath) {enc : Word} (hc : HasConstants d.regs)
    (henc : d.regs (if f.isDecompPubkey then 21 else 20) = enc) :
    ∃ d', Decompresses ⟨f.enter .decompStart, d⟩
        ⟨{ f.forRoot with bitCounter := 255 }.enter
          (if f.isDecompPubkey then .s3SaveA else .s3SaveR), d'⟩ ∧
      Decompressed enc d d' := by
  have hsteps₁ := steps_inverse f d
  obtain ⟨h8, h15, h12, h11, hx⟩ := setup_regs henc
  have hframe₁ : ∀ r : BitVec 5, (4 ≤ r ∧ r < 8) ∨ 16 ≤ r →
      (((d.sequence (if f.isDecompPubkey then 11 else 12)).sequence 6).sequence 7).regs r =
        d.regs r := by
    intro r hr
    rw [sequence_frame (by decide) _ hr, sequence_frame (by decide) _ hr]
    split_ifs
    · exact sequence_frame (by decide) d hr
    · exact sequence_frame (by decide) d hr
  generalize ((d.sequence (if f.isDecompPubkey then 11 else 12)).sequence 6).sequence 7 = d₁ at *
  rw [hc.one] at h15 h12 h11
  rw [hc.curveD] at h12
  have hv : fe (d₁.regs 12) = vOf (fe (loadCompressed enc)) := by rw [h12, fe_vOf]
  obtain ⟨d₂, hsteps₂, hsame₂, -, hinv⟩ :=
    exp_run f.forInverse d₁ (by rw [h11, fe_one]) expPMinus2.isLt
  rw [show f.forInverse.exponent = p - 2 from expPMinus2_toNat, hv] at hinv
  -- the square, and the call for its root
  have hsteps₃ := steps_root { f.forInverse with bitCounter := 255 } d₂
  obtain ⟨h13', h12', h11', h8', hx'⟩ := xsq_regs d₂
  have hframe₃ : ∀ r : BitVec 5, (4 ≤ r ∧ r < 8) ∨ 16 ≤ r →
      ((d₂.sequence 10).sequence 13).regs r = d.regs r := by
    intro r hr
    have hne : r ≠ 11 := by rintro rfl; revert hr; decide
    rw [sequence_frame (by decide) _ hr, sequence_frame (by decide) _ hr, hsame₂.regs r hne,
      hframe₁ r hr]
  generalize (d₂.sequence 10).sequence 13 = d₃ at *
  have h25 : d₂.regs 25 = 1 := by
    rw [hsame₂.regs 25 (by decide), hframe₁ 25 (by decide), hc.one]
  have hxsq : fe (d₃.regs 13) = xSquared (fe (loadCompressed enc)) := by
    rw [h13', fe_fmul, hinv, hsame₂.regs 15 (by decide), h15, fe_uOf, xSquared]
  obtain ⟨d₄, hsteps₄, hsame₄, hlt, hroot⟩ :=
    exp_run f.forRoot d₃ (by rw [h11', h25, fe_one]) expPPlus3Over8.isLt
  rw [show f.forRoot.exponent = (p + 3) / 8 from expPPlus3Over8_toNat, h12', hxsq] at hroot
  -- the correction and the sign
  have hsteps₅ := steps_pack { f.forRoot with bitCounter := 255 } d₄
  obtain ⟨hc11, hc8, hcx, hcframe⟩ := corrected_regs d₄
  obtain ⟨hp0, hp1, hp2, hp3⟩ := pack_regs (corrected d₄)
  refine ⟨((corrected d₄).sequence 16).sequence 17,
    hsteps₁.trans (hsteps₂.trans (hsteps₃.trans (hsteps₄.trans hsteps₅))), ?_⟩
  have hframe₄ : ∀ r : BitVec 5, (4 ≤ r ∧ r < 8) ∨ 16 ≤ r →
      (corrected d₄).regs r = d.regs r := by
    intro r hr
    have hne : r ≠ 11 := by rintro rfl; revert hr; decide
    rw [hcframe r hr, hsame₄.regs r hne, hframe₃ r hr]
  have h13 : d₄.regs 13 = d₃.regs 13 := hsame₄.regs 13 (by decide)
  have hcond : fmul (d₄.regs 11) (d₄.regs 11) = d₄.regs 13 ↔
      fe (d₄.regs 11) ^ 2 = xSquared (fe (loadCompressed enc)) := by
    rw [h13, ← hxsq, sq, ← fe_fmul]
    refine ⟨fun h => by rw [h], fun h => eq_of_fe_eq (fmul_lt _ _) ?_ h⟩
    rw [h13']
    exact fmul_lt _ _
  have h28 : d₄.regs 28 = sqrtM1 := by
    rw [hsame₄.regs 28 (by decide), hframe₃ 28 (by decide), hc.sqrtM1]
  refine ⟨⟨d₄.regs 11, hlt, hroot, ?_⟩, ?_, ?_, ?_, ?_⟩
  · rw [hp0, hc11, hcx, hsame₄.xSign, hx', hsame₂.xSign, hx, h28]
    simp only [hcond]
  · rw [hp1, hc8, hsame₄.regs 8 (by decide), h8', hsame₂.regs 8 (by decide), h8]
  · rw [hp2, hframe₄ 25 (by decide), hc.one]
  · rw [hp3, hp0, hp1]
  · intro r hr
    rw [sequence_frame (by decide) _ hr, sequence_frame (by decide) _ hr, hframe₄ r hr]

/-! ## What the core takes for the encoded point -/

/-- The candidate root, multiplied by `sqrt(-1)` where its square is not `u / v`; the product is
    not checked. -/
def rootOf (y : ZMod p) : ZMod p :=
  if (xSquared y ^ ((p + 3) / 8)) ^ 2 = xSquared y then xSquared y ^ ((p + 3) / 8)
  else xSquared y ^ ((p + 3) / 8) * fe sqrtM1

/-- The negative where the parity is not the requested one. -/
def withParity (x : ZMod p) (sign : Bool) : ZMod p := if decide (x.val % 2 = 1) = sign then x else -x

/-- The coordinates that the core goes on with. -/
def decoded (enc : Word) : Edwards.Extended (ZMod p) :=
  let y := fe (loadCompressed enc)
  let x := withParity (rootOf y) (enc.getLsbD 255)
  ⟨x, y, 1, x * y⟩

theorem fe_val {x : Word} (h : x.toNat < p) : (fe x).val = x.toNat := ZMod.val_natCast_of_lt h

theorem condNegate_eq (x : Word) (s : Bool) :
    condNegate x s = if decide (x.toNat % 2 = 1) = s then x else primeP - x := by
  have hbit : x.getLsbD 0 = decide (x.toNat % 2 = 1) := by
    rw [BitVec.getLsbD, Nat.testBit_zero]
  rw [condNegate, hbit]
  by_cases hs : decide (x.toNat % 2 = 1) = s
  · rw [if_pos hs, hs]
    simp
  · rw [if_neg hs, if_pos (bne_iff_ne.2 hs)]

theorem primeP_sub_toNat {x : Word} (h : x.toNat < p) : (primeP - x).toNat = p - x.toNat := by
  have hle : x ≤ primeP := by
    rw [BitVec.le_def, primeP_toNat]
    exact h.le
  rw [BitVec.toNat_sub_of_le hle, primeP_toNat]

theorem fe_primeP_sub {x : Word} (h : x.toNat < p) : fe (primeP - x) = -fe x := by
  rw [fe, primeP_sub_toNat h, Nat.cast_sub h.le, ZMod.natCast_self, zero_sub, fe]

theorem fe_condNegate {x : Word} (h : x.toNat < p) (s : Bool) :
    fe (condNegate x s) = withParity (fe x) s := by
  rw [condNegate_eq, withParity, fe_val h]
  split_ifs
  · rfl
  · exact fe_primeP_sub h

/-- The negation of zero is `p`, and no larger word is written. -/
theorem condNegate_le {x : Word} (h : x.toNat < p) (s : Bool) : (condNegate x s).toNat ≤ p := by
  rw [condNegate_eq]
  split_ifs
  · exact h.le
  · rw [primeP_sub_toNat h]
    exact Nat.sub_le _ _

theorem loadCompressed_lt (enc : Word) : (loadCompressed enc).toNat < 2 ^ 255 := by
  rw [loadCompressed, BitVec.toNat_setWidth, BitVec.extractLsb'_toNat]
  omega

/-- The word whose sign is fixed. -/
theorem Decompressed.root_word {enc : Word} {d d' : Datapath} (h : Decompressed enc d d') :
    ∃ x : Word, x.toNat < p ∧ fe x = rootOf (fe (loadCompressed enc)) ∧
      d'.regs 0 = condNegate x (enc.getLsbD 255) := by
  obtain ⟨c, hlt, hc, hx⟩ := h.x
  refine ⟨_, ?_, ?_, hx⟩
  · split_ifs
    · exact hlt
    · exact fmul_lt _ _
  · rw [rootOf, ← hc]
    split_ifs
    · rfl
    · exact fe_fmul _ _

/-- The registers behind the decompression. -/
theorem Decompressed.coords {enc : Word} {d d' : Datapath} (h : Decompressed enc d d') :
    coords (residues d'.regs) 0 = decoded enc ∧ Below (2 ^ 255) d'.regs 0 ∧
      (d'.regs 0).toNat ≤ p := by
  obtain ⟨x, hltx, hroot, hx⟩ := h.root_word
  have hfe : fe (d'.regs 0) =
      withParity (rootOf (fe (loadCompressed enc))) (enc.getLsbD 255) := by
    rw [hx, fe_condNegate hltx, hroot]
  have hle : (d'.regs 0).toNat ≤ p := by
    rw [hx]
    exact condNegate_le hltx _
  have hp : p < 2 ^ 255 := by decide
  refine ⟨?_, ⟨by omega, ?_, ?_, ?_⟩, hle⟩
  · change Edwards.Extended.mk (fe (d'.regs 0)) (fe (d'.regs 1)) (fe (d'.regs 2))
      (fe (d'.regs 3)) = _
    rw [h.t, fe_fmul, h.y, h.z, fe_one, hfe]
    rfl
  · change (d'.regs 1).toNat < _
    rw [h.y]
    exact loadCompressed_lt enc
  · change (d'.regs 2).toNat < _
    rw [h.z]
    decide
  · change (d'.regs 3).toNat < _
    rw [h.t]
    exact (fmul_lt _ _).trans hp

/-! ## The root -/

/-- `v` is never zero, since `-1` is a square and `d` is not. -/
theorem vOf_ne_zero (y : ZMod p) : vOf y ≠ 0 := by
  intro h
  unfold vOf at h
  have hy : y ≠ 0 := by
    rintro rfl
    simp at h
  refine not_isSquare_curveD ⟨fe sqrtM1 / y, ?_⟩
  have hmul : fe curveD * y ^ 2 = fe sqrtM1 ^ 2 := by
    rw [fe_sqrtM1_sq]
    exact eq_neg_of_add_eq_zero_left h
  rw [div_mul_div_comm, ← sq, ← sq, ← hmul, mul_div_cancel_right₀ _ (pow_ne_zero 2 hy)]

theorem xSquared_eq {y w : ZMod p} (h : w ^ 2 * vOf y = uOf y) : xSquared y = w ^ 2 := by
  rw [xSquared, ← h, mul_assoc, Roots.mul_pow_sub_two (vOf_ne_zero y), mul_one]

/-- The candidate or its correction is a root. -/
theorem rootOf_sq {y w : ZMod p} (hw : w ≠ 0) (h : xSquared y = w ^ 2) : rootOf y ^ 2 = w ^ 2 := by
  rw [rootOf, h]
  split_ifs with hsq
  · exact hsq
  · have hcand := Roots.candidate_sq (by decide : p % 8 = 5) hw
    exact Roots.correct_sq fe_sqrtM1_sq (hcand.resolve_left hsq)

/-- The sign is fixed by negation modulo `p`, on every reduced word but zero. -/
theorem condNegate_spec {x : Word} (hlt : x.toNat < p) (h0 : x.toNat ≠ 0) (s : Bool) :
    (condNegate x s).toNat < p ∧ (condNegate x s).toNat % 2 = s.toNat ∧
      fe (condNegate x s) ^ 2 = fe x ^ 2 := by
  have hneg := primeP_sub_toNat hlt
  have hodd : p % 2 = 1 := by decide
  have hmod := Nat.mod_two_eq_zero_or_one x.toNat
  rw [condNegate_eq]
  by_cases hs : decide (x.toNat % 2 = 1) = s
  · rw [if_pos hs]
    refine ⟨hlt, ?_, rfl⟩
    subst hs
    rcases hmod with h | h <;> simp [h]
  · rw [if_neg hs, fe_primeP_sub hlt, hneg]
    refine ⟨by omega, ?_, neg_sq _⟩
    cases s with
    | false =>
      have h1 : x.toNat % 2 = 1 := by simpa using hs
      rw [Bool.toNat_false]
      omega
    | true =>
      have h1 : x.toNat % 2 ≠ 1 := by simpa using hs
      rw [Bool.toNat_true]
      omega

/-- Where `u / v` is the square of a number that is not zero, the decompression finds the root with
    the requested parity. -/
theorem Decompressed.root {enc : Word} {d d' : Datapath} (h : Decompressed enc d d') {w : ZMod p}
    (hw : w ≠ 0)
    (hroot : w ^ 2 * vOf (fe (loadCompressed enc)) = uOf (fe (loadCompressed enc))) :
    (d'.regs 0).toNat < p ∧ (d'.regs 0).toNat % 2 = (enc.getLsbD 255).toNat ∧
      fe (d'.regs 0) ^ 2 * vOf (fe (loadCompressed enc)) = uOf (fe (loadCompressed enc)) := by
  obtain ⟨x, hlt, hfe, hx⟩ := h.root_word
  have hsq := rootOf_sq hw (xSquared_eq hroot)
  rw [← hfe] at hsq
  have h0 : x.toNat ≠ 0 := by
    intro h0
    rw [fe, h0, Nat.cast_zero, zero_pow two_ne_zero] at hsq
    exact hw (pow_eq_zero_iff two_ne_zero |>.1 hsq.symm)
  obtain ⟨hlt', hpar, hsq'⟩ := condNegate_spec hlt h0 (enc.getLsbD 255)
  rw [← hx] at hlt' hpar hsq'
  exact ⟨hlt', hpar, by rw [hsq', hsq, hroot]⟩

/-! ## Encodings of points -/

/-- `enc` is the encoding of `P`. -/
structure Encodes (enc : Word) (P : Edwards.Point curve) : Prop where
  canonical : (loadCompressed enc).toNat < p
  y : fe (loadCompressed enc) = P.y
  sign : decide (P.x.val % 2 = 1) = enc.getLsbD 255

theorem point_root (P : Edwards.Point curve) : P.x ^ 2 * vOf P.y = uOf P.y := by
  have hon := P.on
  unfold Edwards.Curve.On at hon
  unfold uOf vOf
  change -P.x ^ 2 + P.y ^ 2 = 1 + fe curveD * P.x ^ 2 * P.y ^ 2 at hon
  linear_combination -hon

theorem val_neg_parity {x : ZMod p} (h : x ≠ 0) : (-x).val % 2 ≠ x.val % 2 := by
  have hval := ZMod.neg_val x
  rw [if_neg h] at hval
  have hlt := x.val_lt
  have hodd : p % 2 = 1 := by decide
  omega

/-- The parity picks the root. -/
theorem withParity_eq {x r : ZMod p} (h : r ^ 2 = x ^ 2) :
    withParity r (decide (x.val % 2 = 1)) = x := by
  rw [withParity]
  rcases sq_eq_sq_iff_eq_or_eq_neg.1 h with rfl | rfl
  · rw [if_pos rfl]
  · by_cases h0 : x = 0
    · rw [h0]
      simp
    · have hne := val_neg_parity h0
      have h1 := Nat.mod_two_eq_zero_or_one x.val
      have h2 := Nat.mod_two_eq_zero_or_one (-x).val
      rw [if_neg, neg_neg]
      rw [decide_eq_decide]
      omega

theorem rootOf_point (P : Edwards.Point curve) : rootOf P.y ^ 2 = P.x ^ 2 := by
  have hsq := xSquared_eq (point_root P)
  by_cases h : P.x = 0
  · have h0 : xSquared P.y = 0 := by rw [hsq, h, zero_pow two_ne_zero]
    have hexp : (p + 3) / 8 ≠ 0 := by decide
    rw [rootOf, h0, h, zero_pow hexp, if_pos (zero_pow two_ne_zero)]
  · exact rootOf_sq h hsq

/-- **The encoding of a point is decoded to it.** -/
theorem Encodes.represents {enc : Word} {P : Edwards.Point curve} (h : Encodes enc P) :
    (decoded enc).Represents P := by
  have hx : withParity (rootOf (fe (loadCompressed enc))) (enc.getLsbD 255) = P.x := by
    rw [h.y, ← h.sign]
    exact withParity_eq (rootOf_point P)
  refine ⟨one_ne_zero, ?_, ?_, ?_⟩
  · simp only [decoded, hx, mul_one]
  · simp only [decoded, h.y, mul_one]
  · simp only [decoded, one_mul]

/-! ## In the cycles -/

theorem EdTop.Boundary.enter_eq {s : EdTop} (hb : EdTop.Boundary s) {st : FsmState}
    (hs : s.fsm.state = st) : s.fsm = s.fsm.enter st := by
  have hst := hb.startSeqReg
  obtain ⟨⟨st', ret, start, bc, sr, te, pk, xe, ye⟩, q, regs, x, m⟩ := s
  subst hs
  simp only at hst
  rw [hst]
  rfl

open EdTop in
/-- **Decompression.**  From the cycle in which the state machine starts it, with the constants
    loaded and the datapath left to the core: where `u / v` has a root that is not zero, the core
    runs through the decompression, and on its exit registers 0 to 3 hold the point of the encoding
    and the registers 4 to 7 and from 16 on are unchanged. -/
theorem decompress_root {r : ℕ → EdTop} {i : ℕ → EdIn} (hr : IsRun r i) {t : ℕ}
    (hb : Boundary (r t)) (hs : (r t).fsm.state = .decompStart) (hc : HasConstants (r t).regs)
    (hsel : ∀ u, t ≤ u → (r u).fsm.state.decompresses = true → (i u).dataSel = 0)
    {enc y : Word} (henc : (r t).regs (if (r t).fsm.isDecompPubkey then 21 else 20) = enc)
    (hy : loadCompressed enc = y) {w : ZMod p} (hw : w ≠ 0) (hroot : w ^ 2 * vOf (fe y) = uOf (fe y)) :
    ∃ t', t < t' ∧ (∀ u, t ≤ u → u < t' → (r u).fsm.state.decompresses = true) ∧
      (r t').fsm.state = (if (r t).fsm.isDecompPubkey then .s3SaveA else .s3SaveR) ∧
      ((r t').regs 0).toNat < p ∧
      ((r t').regs 0).toNat % 2 = (enc.getLsbD 255).toNat ∧
      fe ((r t').regs 0) ^ 2 * vOf (fe y) = uOf (fe y) ∧
      (r t').regs 1 = y ∧ (r t').regs 2 = 1 ∧
      ((r t').regs 3).toNat = ((r t').regs 0).toNat * y.toNat % p ∧
      ∀ k : BitVec 5, (4 ≤ k ∧ k < 8) ∨ 16 ≤ k → (r t').regs k = (r t).regs k := by
  subst hy
  obtain ⟨d', hsteps, hd⟩ := decompress_steps (r t).fsm ⟨(r t).regs, (r t).xSign⟩ hc henc
  have habs : (r t).abs = ⟨(r t).fsm.enter .decompStart, ⟨(r t).regs, (r t).xSign⟩⟩ := by
    rw [← hb.enter_eq hs]
    rfl
  obtain ⟨t', hle, -, hend, hpath⟩ := simulates_steps hr (by decide) hsteps habs hb hsel
  have hfsm : (r t').fsm.state = if (r t).fsm.isDecompPubkey then .s3SaveA else .s3SaveR :=
    congrArg (fun s => s.fsm.state) hend
  have hregs : (r t').regs = d'.regs := congrArg (fun s => s.data.regs) hend
  obtain ⟨hlt, hpar, hsq⟩ := hd.root hw hroot
  refine ⟨t', ?_, hpath, hfsm, ?_⟩
  · rcases Nat.lt_or_eq_of_le hle with h | rfl
    · exact h
    · rw [hs] at hfsm
      split_ifs at hfsm
  · rw [hregs]
    refine ⟨hlt, hpar, hsq, hd.y, hd.z, ?_, hd.frame⟩
    rw [hd.t, fmul_toNat, hd.y]

/-- The start of the decompression of the base point, as a public key. -/
def baseDecompression : EdTop where
  fsm := MasterFsm.reset.enter .decompStart
  seq := .reset
  regs r :=
    if r = 21 then gY else if r = 25 then 1 else if r = 26 then curveD
    else if r = 28 then sqrtM1 else 0
  xSign := false
  mult := .reset

theorem decompress_root_base :
    ∃ t', 0 < t' ∧
      (Sync.run EdTop.step baseDecompression (fun _ => ⟨false, 0, 0, 0, 0, false, 0⟩) t').fsm.state =
        .s3SaveA ∧
      (Sync.run EdTop.step baseDecompression (fun _ => ⟨false, 0, 0, 0, 0, false, 0⟩) t').regs 1 =
        gY := by
  obtain ⟨t', hlt, -, hst, -, -, -, hy, -⟩ :=
    decompress_root (r := Sync.run EdTop.step baseDecompression
        (fun _ => ⟨false, 0, 0, 0, 0, false, 0⟩)) (t := 0) (y := gY) (w := fe gX)
      (fun t => rfl) ⟨rfl, rfl, rfl, rfl⟩ rfl ⟨rfl, rfl, rfl⟩ (fun u _ _ => rfl) rfl
      (by decide +kernel) (by decide +kernel) (by decide +kernel)
  exact ⟨t', hlt, hst, hy⟩

end SentinelSoc
