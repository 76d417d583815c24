/-
  The verdict for arbitrary words.  The core checks neither the encodings of `A` and `R` nor the
  range of `s`.

  * `Verification`: a run from reset with a started verification; `Accepts`: its verdict is 1;
  * `EncodesModulo`: what the core takes for the encoding of a point
    (`verdict_unchecked`);
  * `accepted_scalars`: which `s` are accepted for one `A`, `R` and hash.
-/
import SentinelSoc.Ed.Order

namespace SentinelSoc

open Edwards

/-! ## Encodings -/

/-- `enc` decodes, as a strict decoder has it. -/
def Decodes (enc : Word) : Prop :=
  (loadCompressed enc).toNat < p ∧
    ∃ x : ZMod p, x ^ 2 * vOf (fe (loadCompressed enc)) = uOf (fe (loadCompressed enc)) ∧
      ¬ (x = 0 ∧ enc.getLsbD 255 = true)

/-- `y` is taken modulo `p`, and the sign of zero is not looked at. -/
structure EncodesModulo (enc : Word) (P : Point curve) : Prop where
  y : fe (loadCompressed enc) = P.y
  sign : P.x = 0 ∨ decide (P.x.val % 2 = 1) = enc.getLsbD 255

theorem EncodesModulo.represents {enc : Word} {P : Point curve} (h : EncodesModulo enc P) :
    (decoded enc).Represents P := by
  have hx : withParity (rootOf (fe (loadCompressed enc))) (enc.getLsbD 255) = P.x := by
    rw [h.y]
    rcases h.sign with h0 | hs
    · have hroot := rootOf_point P
      rw [h0, zero_pow two_ne_zero, pow_eq_zero_iff two_ne_zero] at hroot
      rw [hroot, withParity, neg_zero, ite_self, h0]
    · rw [← hs]
      exact withParity_eq (rootOf_point P)
  refine ⟨one_ne_zero, ?_, ?_, ?_⟩
  · simp only [decoded, hx, mul_one]
  · simp only [decoded, h.y, mul_one]
  · simp only [decoded, one_mul]

/-! ## Verifications -/

/-- A run from reset, started in cycle `t` with the constants loaded, and the datapath left to the
    core. -/
structure Verification (r : ℕ → EdTop) (i : ℕ → EdIn) (t : ℕ) : Prop where
  run : EdTop.IsRun r i
  reset : ∃ regs, r 0 = EdTop.reset regs
  idle : (r t).fsm.state = .idle
  start : (i t).startVerify = true
  preloaded : Preloaded (r (t + 1)).regs
  quiet : ∀ u, t < u → (r u).fsm.state.busy = true → (i u).dataSel = 0

/-- `ST_DONE` is reached with `signature_valid = 1`. -/
def Accepts (r : ℕ → EdTop) (t : ℕ) : Prop :=
  ∃ u, t < u ∧ (r u).fsm.verifyDone = true ∧ (r u).fsm.signatureValid = true

/-- The scalar, the hash and the two encodings that a verification is about. -/
def scalarOf (r : ℕ → EdTop) (t : ℕ) : Word := (r (t + 1)).regs 23

def hashPointOf (r : ℕ → EdTop) (t : ℕ) : Extended (ZMod p) :=
  hashPoint (hashOf (r (t + 1)).regs) ((r (t + 1)).regs 21) ((r (t + 1)).regs 20)

variable {r r' : ℕ → EdTop} {i i' : ℕ → EdIn} {t t' : ℕ}

namespace Verification

theorem verdict (h : Verification r i t) :
    ∃ T, t < T ∧
      (∀ u, t < u → u < T → (r u).fsm.verifyDone = false ∧ (r u).fsm.signatureValid = false) ∧
      ∀ u, T ≤ u → (r u).fsm.verifyDone = true ∧
        ((r u).fsm.signatureValid = true ↔
          SameRatios (signaturePoint (scalarOf r t)) (hashPointOf r t)) := by
  obtain ⟨regs, hreset⟩ := h.reset
  exact EdTop.verify_verdict h.run hreset h.idle h.start h.preloaded h.quiet

theorem accepts_iff (h : Verification r i t) :
    Accepts r t ↔ SameRatios (signaturePoint (scalarOf r t)) (hashPointOf r t) := by
  obtain ⟨T, hlt, hbefore, hafter⟩ := h.verdict
  constructor
  · rintro ⟨u, htu, hdone, hvalid⟩
    rcases Nat.lt_or_ge u T with hu | hu
    · rw [(hbefore u htu hu).1] at hdone
      exact absurd hdone (by simp)
    · exact (hafter u hu).2.1 hvalid
  · intro hs
    exact ⟨T, hlt, (hafter T le_rfl).1, (hafter T le_rfl).2.2 hs⟩

end Verification

theorem signaturePoint_represents (s : Word) :
    (signaturePoint s).Represents (basePoint.smul s.toNat) :=
  baseCoords_represents.smul s.toNat

theorem hashPoint_represents (h : ℕ) {encA encR : Word} {A R : Point curve}
    (hA : EncodesModulo encA A) (hR : EncodesModulo encR R) :
    (hashPoint h encA encR).Represents ((A.smul (h % ell)).add R) :=
  (hA.represents.smul (h % ell)).add hR.represents

/-- **No encoding is rejected as such.**  The core ends in `ST_DONE` for arbitrary words, and its
    verdict compares the coordinates that it decodes: `y` modulo `p`, either sign for `x = 0`, and
    the corrected candidate, unchecked, where it is no root.  Where both words stand for points in
    this sense, the verdict is the verification equation. -/
theorem verdict_unchecked (h : Verification r i t) :
    ∃ T, t < T ∧
      (∀ u, t < u → u < T → (r u).fsm.verifyDone = false ∧ (r u).fsm.signatureValid = false) ∧
      ∀ u, T ≤ u → (r u).fsm.verifyDone = true ∧
        ((r u).fsm.signatureValid = true ↔
          SameRatios (signaturePoint ((r (t + 1)).regs 23))
            (hashPoint (hashOf (r (t + 1)).regs) ((r (t + 1)).regs 21) ((r (t + 1)).regs 20))) ∧
        ∀ A R : Point curve, EncodesModulo ((r (t + 1)).regs 21) A →
          EncodesModulo ((r (t + 1)).regs 20) R →
          ((r u).fsm.signatureValid = true ↔
            basePoint.smul ((r (t + 1)).regs 23).toNat =
              (A.smul (hashOf (r (t + 1)).regs % ell)).add R) := by
  obtain ⟨T, hlt, hbefore, hafter⟩ := h.verdict
  refine ⟨T, hlt, hbefore, fun u hu => ?_⟩
  obtain ⟨hdone, hvalid⟩ := hafter u hu
  refine ⟨hdone, hvalid, fun A R hA hR => hvalid.trans ?_⟩
  exact (signaturePoint_represents _).eq_iff (hashPoint_represents _ hA hR)

section StartRun

variable (s hashHi hashLo encA encR : Word)

theorem verification_startRun :
    Verification (EdTop.startRun (EdTop.preload s hashHi hashLo encA encR))
      (fun t => ⟨t == 0, 0, 0, 0, 0, false, 0⟩) 0 where
  run _ := rfl
  reset := ⟨_, rfl⟩
  idle := rfl
  start := rfl
  preloaded := EdTop.preloaded_preload s hashHi hashLo encA encR
  quiet _ _ _ := rfl

/-- A started run compares the words that were preloaded. -/
theorem accepts_preload_iff :
    Accepts (EdTop.startRun (EdTop.preload s hashHi hashLo encA encR)) 0 ↔
      SameRatios (signaturePoint s)
        (hashPoint (hashHi.toNat * 2 ^ 256 + hashLo.toNat) encA encR) := by
  have hregs : (EdTop.startRun (EdTop.preload s hashHi hashLo encA encR) 1).regs =
      EdTop.preload s hashHi hashLo encA encR := rfl
  have hs : EdTop.preload s hashHi hashLo encA encR 23 = s := rfl
  have h8 : EdTop.preload s hashHi hashLo encA encR 8 = hashLo := rfl
  have h9 : EdTop.preload s hashHi hashLo encA encR 9 = hashHi := rfl
  have hA : EdTop.preload s hashHi hashLo encA encR 21 = encA := rfl
  have hR : EdTop.preload s hashHi hashLo encA encR 20 = encR := rfl
  rw [(verification_startRun s hashHi hashLo encA encR).accepts_iff, scalarOf, hashPointOf,
    zero_add, hregs, hs, hashOf, h8, h9, hA, hR]

end StartRun

theorem decoded_one : decoded 1 = Extended.neutral := by
  have hy : fe (loadCompressed 1) = 1 := fe_one
  have hexp : (p + 3) / 8 ≠ 0 := by decide
  have hu : xSquared 1 = 0 := by simp [xSquared, uOf]
  have hroot : rootOf 1 = 0 := by
    rw [rootOf, hu, zero_pow hexp, if_pos (zero_pow two_ne_zero)]
  rw [decoded, hy, hroot, withParity, neg_zero, ite_self, zero_mul]
  rfl

/-- With the hash zero, `A` is not looked at. -/
theorem hashPoint_zero (encA : Word) :
    (hashPoint 0 encA 1).Represents (Point.neutral : Point curve) := by
  have h := (Extended.represents_neutral (E := curve)).add Extended.represents_neutral
  rw [Point.add_neutral] at h
  rw [hashPoint, Nat.zero_mod, Extended.smul, Ladder.power_zero, decoded_one]
  exact h

theorem accepts_startRun_iff (s encA : Word) :
    Accepts (EdTop.startRun (EdTop.preload s 0 0 encA 1)) 0 ↔
      basePoint.smul s.toNat = Point.neutral := by
  have hzero : (0 : Word).toNat * 2 ^ 256 + (0 : Word).toNat = 0 := rfl
  rw [accepts_preload_iff, hzero]
  exact (signaturePoint_represents s).eq_iff (hashPoint_zero encA)

theorem not_decodes_two : ¬ Decodes 2 := by
  rintro ⟨-, x, hx, -⟩
  have hy : fe (loadCompressed 2) = 2 := rfl
  rw [hy] at hx
  -- `u v` would be a square, which Euler's criterion denies
  have hsq : IsSquare (uOf 2 * vOf 2) := ⟨x * vOf 2, by rw [← hx]; ring⟩
  have hne : uOf 2 * vOf 2 ≠ 0 := by decide +kernel
  have hcast : uOf 2 * vOf 2 = ((12 * curveD.toNat + 3 : ℕ) : ZMod p) := by decide +kernel
  rw [ZMod.euler_criterion p hne, hcast, ← Lucas.cast_powMod] at hsq
  revert hsq
  decide +kernel

theorem verdict_unchecked_invalidKey :
    ∃ T, 0 < T ∧ ∀ u, T ≤ u →
      (EdTop.startRun (EdTop.preload 0 0 0 2 1) u).fsm.verifyDone = true := by
  obtain ⟨T, hlt, -, hT⟩ := verdict_unchecked (verification_startRun 0 0 0 2 1)
  exact ⟨T, hlt, fun u hu => (hT u hu).1⟩

/-- `A = 2` is the encoding of no point, and is accepted with `s = 0`, hash zero and `R = 1`. -/
theorem invalidKey_accepted :
    Accepts (EdTop.startRun (EdTop.preload 0 0 0 2 1)) 0 ∧ ¬ Decodes 2 :=
  ⟨(accepts_startRun_iff 0 2).2 Ladder.power_zero, not_decodes_two⟩

/-! ## The accepted scalars -/

/-- No `x` and `y` are compared: every product is zero. -/
def Degenerate (Q : Extended (ZMod p)) : Prop := Q.x = 0 ∧ Q.y = 0 ∧ Q.z = 0

theorem sameRatios_iff {P Q : Extended (ZMod p)} {A : Point curve} (h : P.Represents A) :
    SameRatios P Q ↔ A.x * Q.z = Q.x ∧ A.y * Q.z = Q.y := by
  have hx : P.x * Q.z = Q.x * P.z ↔ A.x * Q.z = Q.x := by
    rw [h.x_eq, mul_right_comm]
    exact mul_left_inj' h.z_ne_zero
  have hy : P.y * Q.z = Q.y * P.z ↔ A.y * Q.z = Q.y := by
    rw [h.y_eq, mul_right_comm]
    exact mul_left_inj' h.z_ne_zero
  rw [SameRatios, hx, hy]

/-- The coordinates of at most one point have the same ratios, unless all are zero. -/
theorem eq_of_sameRatios {P P' Q : Extended (ZMod p)} {A A' : Point curve} (h : P.Represents A)
    (h' : P'.Represents A') (hQ : ¬ Degenerate Q) (hs : SameRatios P Q) (hs' : SameRatios P' Q) :
    A = A' := by
  obtain ⟨hx, hy⟩ := (sameRatios_iff h).1 hs
  obtain ⟨hx', hy'⟩ := (sameRatios_iff h').1 hs'
  have hz : Q.z ≠ 0 := by
    intro hz
    rw [hz, mul_zero] at hx hy
    exact hQ ⟨hx.symm, hy.symm, hz⟩
  ext
  · exact mul_right_cancel₀ hz (hx.trans hx'.symm)
  · exact mul_right_cancel₀ hz (hy.trans hy'.symm)

theorem sameRatios_of_degenerate {P Q : Extended (ZMod p)} (hQ : Degenerate Q) :
    SameRatios P Q := by
  obtain ⟨hx, hy, hz⟩ := hQ
  rw [SameRatios, hx, hy, hz]
  simp

/-- **The scalars that are accepted.**  Two verifications have the hash and the words for `A` and
    `R` in common.  Unless the formulas give zero for all coordinates of `[h]A + R`, the accepted
    scalars agree modulo `L` and every scalar that agrees with an accepted one is accepted, so that
    at most one below `L` is; otherwise every scalar is accepted.  Encodings of points never give
    zero. -/
theorem accepted_scalars (h : Verification r i t) (h' : Verification r' i' t')
    (hsame : ∀ k : BitVec 5, k = 8 ∨ k = 9 ∨ k = 20 ∨ k = 21 →
      (r' (t' + 1)).regs k = (r (t + 1)).regs k) :
    (Degenerate (hashPointOf r t) → Accepts r t ∧ Accepts r' t') ∧
    (¬ Degenerate (hashPointOf r t) →
      (scalarOf r t).toNat ≡ (scalarOf r' t').toNat [MOD ell] → (Accepts r t ↔ Accepts r' t')) ∧
    (¬ Degenerate (hashPointOf r t) → Accepts r t → Accepts r' t' →
      (scalarOf r t).toNat ≡ (scalarOf r' t').toNat [MOD ell]) ∧
    (∀ A R : Point curve, EncodesModulo ((r (t + 1)).regs 21) A →
      EncodesModulo ((r (t + 1)).regs 20) R → ¬ Degenerate (hashPointOf r t)) := by
  have hpoint : hashPointOf r' t' = hashPointOf r t := by
    rw [hashPointOf, hashPointOf, hashOf, hashOf, hsame 8 (by simp), hsame 9 (by simp),
      hsame 20 (by simp), hsame 21 (by simp)]
  have hP := signaturePoint_represents (scalarOf r t)
  have hP' := signaturePoint_represents (scalarOf r' t')
  rw [h.accepts_iff, h'.accepts_iff, hpoint]
  refine ⟨fun hd => ⟨sameRatios_of_degenerate hd, sameRatios_of_degenerate hd⟩, ?_, ?_, ?_⟩
  · intro _ hmod
    rw [sameRatios_iff hP, sameRatios_iff hP', basePoint_smul_eq_iff.2 hmod]
  · intro hd hs hs'
    exact basePoint_smul_eq_iff.1 (eq_of_sameRatios hP hP' hd hs hs')
  · intro A R hA hR hd
    exact (hashPoint_represents _ hA hR).z_ne_zero hd.2.2

theorem encodesModulo_one : EncodesModulo 1 Point.neutral := ⟨fe_one, .inl rfl⟩

theorem accepted_scalars_zero :
    Accepts (EdTop.startRun (EdTop.preload 0 0 0 1 1)) 0 ↔
      Accepts (EdTop.startRun (EdTop.preload curveL 0 0 1 1)) 0 := by
  obtain ⟨-, hiff, -, hdeg⟩ := accepted_scalars (verification_startRun 0 0 0 1 1)
    (verification_startRun curveL 0 0 1 1) (by rintro k (rfl | rfl | rfl | rfl) <;> rfl)
  exact hiff (hdeg _ _ encodesModulo_one encodesModulo_one) (Nat.modEq_zero_iff_dvd.2 dvd_rfl).symm

/-! ## A word for which every scalar is accepted -/

theorem pow_eq_powMod (a : ZMod p) (e : ℕ) : a ^ e = (Lucas.powMod p a.val e : ℕ) := by
  rw [Lucas.cast_powMod, ZMod.natCast_zmod_val]

/-- `u / v` is no square here, and neither candidate gives a point. -/
def weakKey : Word := 0x8e6b87740f9aeb555b9085e3026fe9adc2ed7a55659afc654c18353cc4529ef

theorem xSquared_weakKey : xSquared (fe weakKey) =
    16615246960255875623606520444061138343942070870118456884280578092437836978707 := by
  rw [xSquared, pow_eq_powMod]
  decide +kernel

theorem decoded_weakKey : decoded weakKey =
    ⟨18619685690405507360185004623004671211216507982173331876771760743005826860562,
      fe weakKey, 1,
      18619685690405507360185004623004671211216507982173331876771760743005826860562 *
        fe weakKey⟩ := by
  have hroot : rootOf (fe weakKey) =
      39276358928252590351600487881339282715418484350646950142957031260950737959387 := by
    rw [rootOf, xSquared_weakKey, pow_eq_powMod _ ((p + 3) / 8)]
    decide +kernel
  have hload : loadCompressed weakKey = weakKey := by decide +kernel
  have hneg : withParity
      39276358928252590351600487881339282715418484350646950142957031260950737959387
      (weakKey.getLsbD 255) =
        18619685690405507360185004623004671211216507982173331876771760743005826860562 := by
    decide +kernel
  rw [decoded, hload, hroot, hneg]

/-- All coordinates of `[4]A + R` are zero. -/
theorem degenerate_weakKey : Degenerate (hashPoint 4 weakKey 1) := by
  have h4 : 4 % ell = 4 := by decide
  rw [hashPoint, h4, Extended.smul_eq_bits curve.d _ (by decide : 4 < 2 ^ 3), decoded_weakKey,
    decoded_one, Degenerate]
  decide +kernel

/-- Every scalar is accepted. -/
theorem weakKey_accepted (s : Word) : Accepts (EdTop.startRun (EdTop.preload s 0 4 weakKey 1)) 0 :=
  (accepts_preload_iff s 0 4 weakKey 1).2 (sameRatios_of_degenerate degenerate_weakKey)

/-- `s = 0` and `s = L` are both accepted for `A = R = 1` and hash zero. -/
theorem scalar_malleable :
    Accepts (EdTop.startRun (EdTop.preload 0 0 0 1 1)) 0 ∧
      Accepts (EdTop.startRun (EdTop.preload curveL 0 0 1 1)) 0 ∧ (0 : Word) ≠ curveL := by
  refine ⟨(accepts_startRun_iff 0 1).2 Ladder.power_zero, ?_, by decide⟩
  exact (accepts_startRun_iff curveL 1).2 ell_smul_basePoint

end SentinelSoc
