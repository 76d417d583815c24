/-
  A whole verification (`ST_HASH_REDUCTION` to `ST_DONE`).

  * `Preloaded`: the constants in the register file;
  * `steps_p1`, `steps_decode`, `steps_p2`, `steps_compare`: the phases of the state machine, with
    the registers behind each;
  * `verify_steps`: the flags compare `[s]G` with `[h]A + R`, by the formulas and for every
    content of the other registers.
-/
import SentinelSoc.Ed.Barrett
import SentinelSoc.Ed.Decompress
import SentinelSoc.Ed.ScalarMult

namespace SentinelSoc

open Microcode Edwards

/-- The constants that the host loads. -/
structure Preloaded (regs : BitVec 5 → Word) : Prop where
  zero : regs 24 = 0
  one : regs 25 = 1
  curveD : regs 26 = curveD
  curve2D : regs 27 = curve2D
  sqrtM1 : regs 28 = sqrtM1
  gX : regs 4 = gX
  gY : regs 5 = gY
  gZ : regs 6 = 1
  gT : regs 7 = gT
  muHi : regs 10 = muHi
  curveL : regs 11 = curveL
  muLo : regs 12 = muLo

/-- The hash that the host loads. -/
def hashOf (regs : BitVec 5 → Word) : ℕ := (regs 9).toNat * 2 ^ 256 + (regs 8).toNat

/-- The coordinates of the base point that the host loads. -/
def baseCoords : Extended (ZMod p) := ⟨fe gX, fe gY, fe 1, fe gT⟩

theorem baseCoords_represents : baseCoords.Represents basePoint :=
  ⟨by decide +kernel, by decide +kernel, by decide +kernel, by decide +kernel⟩

/-! ## Registers that keep their word -/

/-- The registers `rs` hold the same words. -/
def Agree (rs : List (BitVec 5)) (d d' : Datapath) : Prop := ∀ r ∈ rs, d'.regs r = d.regs r

namespace Agree

variable {rs rs' : List (BitVec 5)} {d d' d'' : Datapath}

theorem refl (rs : List (BitVec 5)) (d : Datapath) : Agree rs d d := fun _ _ => rfl

theorem trans (h : Agree rs d d') (h' : Agree rs d' d'') : Agree rs d d'' := by
  intro r hr
  rw [h' r hr, h r hr]

theorem subset (h : Agree rs d d') (hs : ∀ r ∈ rs', r ∈ rs) : Agree rs' d d' :=
  fun r hr => h r (hs r hr)

theorem sequence (d : Datapath) (n : BitVec 5) (hn : ∀ op ∈ program n, op.destSel ∉ rs) :
    Agree rs d (d.sequence n) := by
  intro r hr
  refine Datapath.frame fun op hop h => ?_
  rw [h] at hr
  exact hn op hop hr

theorem sameBase (h : SameBase d d') (hs : ∀ r ∈ rs, (4 ≤ r ∧ r < 8) ∨ 15 ≤ r) :
    Agree rs d d' := fun r hr => h r (hs r hr)

theorem decompressed {enc : Word} (h : Decompressed enc d d')
    (hs : ∀ r ∈ rs, (4 ≤ r ∧ r < 8) ∨ 16 ≤ r) : Agree rs d d' := fun r hr => h.frame r (hs r hr)

end Agree

/-! ## The states outside the loops -/

section States

variable (f : MasterFsm) (d : Datapath)

theorem next_hashReduction : SeqState.next ⟨f.enter .hashReduction, d⟩ =
    ⟨f.enter .loadS, d.sequence 0⟩ := rfl

theorem next_loadS : SeqState.next ⟨f.enter .loadS, d⟩ =
    ⟨{ f with scalarReg := d.regs 23, bitCounter := 255 }.enter .initP1, d.sequence 4⟩ := rfl

theorem next_initP1 : SeqState.next ⟨f.enter .initP1, d⟩ =
    ⟨f.enter .s2Double, d.sequence 3⟩ := rfl

theorem next_saveP1 : SeqState.next ⟨f.enter .s2SaveP1, d⟩ =
    ⟨{ f with isDecompPubkey := true }.enter .decompStart, d.sequence 5⟩ := rfl

theorem next_saveA : SeqState.next ⟨f.enter .s3SaveA, d⟩ =
    ⟨{ f with isDecompPubkey := false }.enter .decompStart, d.sequence 19⟩ := rfl

theorem next_saveR : SeqState.next ⟨f.enter .s3SaveR, d⟩ =
    ⟨f.enter .s4LoadH, d.sequence 18⟩ := rfl

theorem next_loadH : SeqState.next ⟨f.enter .s4LoadH, d⟩ =
    ⟨{ f with scalarReg := d.regs 16, bitCounter := 255 }.enter .s4InitP2, d.sequence 23⟩ := rfl

theorem next_initP2 : SeqState.next ⟨f.enter .s4InitP2, d⟩ =
    ⟨f.enter .s4Double, d.sequence 3⟩ := rfl

theorem next_loadRBase : SeqState.next ⟨f.enter .s4LoadRBase, d⟩ =
    ⟨f.enter .s4AddR, d.sequence 20⟩ := rfl

theorem next_addR : SeqState.next ⟨f.enter .s4AddR, d⟩ =
    ⟨f.enter .s5VerifyX, d.sequence 2⟩ := rfl

/-- The flag is the comparison of the two products. -/
theorem next_verifyX : SeqState.next ⟨f.enter .s5VerifyX, d⟩ =
    ⟨{ f with xEqFlag := decide (fmul (d.regs 17) (d.regs 2) = fmul (d.regs 0) (d.regs 19)) }.enter
      .s5VerifyY, d.sequence 21⟩ := rfl

theorem next_verifyY : SeqState.next ⟨f.enter .s5VerifyY, d⟩ =
    ⟨{ f with yEqFlag := decide (fmul (d.regs 18) (d.regs 2) = fmul (d.regs 1) (d.regs 19)) }.enter
      .done, d.sequence 22⟩ := rfl

end States

/-! ## `P1 = [s]G` -/

/-- A loop starts from the neutral element, with the whole scalar to come. -/
theorem inLoop_start {s : Word} {f : MasterFsm} {d : Datapath} (hs : f.scalarReg = s)
    (hn : f.bitCounter = 255) (h24 : d.regs 24 = 0) (h25 : d.regs 25 = 1)
    (h27 : d.regs 27 = curve2D) (hb : Below (2 ^ 255) d.regs 4)
    (hle : (d.regs 4).toNat ≤ (d.regs 5).toNat + p) : InLoop s f (d.sequence 3) := by
  have hframe : Agree [4, 5, 6, 7, 27] d (d.sequence 3) := .sequence d 3 (by decide)
  have hcoords : coords (residues (d.sequence 3).regs) 0 = Extended.neutral := by
    change Extended.mk (fe (d.regs 24)) (fe (d.regs 25)) (fe (d.regs 25)) (fe (d.regs 24)) = _
    rw [h24, h25, fe_one]
    have h0 : fe 0 = 0 := Nat.cast_zero
    rw [h0]
    rfl
  refine ⟨?_, ?_, ⟨?_, ?_, ?_, ?_⟩, ?_, ⟨?_, ?_, ?_, ?_⟩, ?_⟩
  · rw [hs, hn]
    exact (BitVec.shiftLeft_zero s).symm
  · exact (hframe 27 (by decide)).trans h27
  · exact hb.x_lt
  · exact hb.y_lt
  · exact hb.z_lt
  · exact hb.t_lt
  · exact hle
  · change (d.regs 24).toNat < p
    rw [h24]
    decide
  · change (d.regs 25).toNat < p
    rw [h25]
    decide
  · change (d.regs 25).toNat < p
    rw [h25]
    decide
  · change (d.regs 24).toNat < p
    rw [h24]
    decide
  · have h0 : s.toNat / 2 ^ (f.bitCounter.toNat + 1) = 0 := by
      rw [hn]
      exact Nat.div_eq_of_lt s.isLt
    rw [hcoords, h0]
    exact (Ladder.power_zero).symm

/-- The first phases: the hash is reduced and `[s]G` is saved in the registers 17 to 19. -/
theorem steps_p1 (f : MasterFsm) (d : Datapath) (hp : Preloaded d.regs) :
    ∃ sr d', Verifies ⟨f.enter .hashReduction, d⟩
        ⟨{ f with scalarReg := sr, bitCounter := 255, isDecompPubkey := true }.enter .decompStart,
          d'⟩ ∧
      Agree [20, 21, 24, 25, 26, 27, 28] d d' ∧
      (d'.regs 16).toNat = hashOf d.regs % ell ∧
      residues d'.regs 17 = (Extended.smul curve.d (d.regs 23).toNat baseCoords).x ∧
      residues d'.regs 18 = (Extended.smul curve.d (d.regs 23).toNat baseCoords).y ∧
      residues d'.regs 19 = (Extended.smul curve.d (d.regs 23).toNat baseCoords).z := by
  have h₀ : Agree [4, 5, 6, 7, 20, 21, 23, 24, 25, 26, 27, 28] d (d.sequence 0) :=
    .sequence d 0 (by decide)
  have h₁ : Agree [4, 5, 6, 7, 16, 20, 21, 24, 25, 26, 27, 28] (d.sequence 0)
      ((d.sequence 0).sequence 4) := .sequence _ 4 (by decide)
  have hhash : ((d.sequence 0).regs 16).toNat = hashOf d.regs % ell :=
    barrett_toNat hp.muHi hp.curveL hp.muLo
  have hreg : ∀ r ∈ ([4, 5, 6, 7, 20, 21, 24, 25, 26, 27, 28] : List (BitVec 5)),
      ((d.sequence 0).sequence 4).regs r = d.regs r :=
    (h₀.subset (by decide)).trans (h₁.subset (by decide))
  have hs : (d.sequence 0).regs 23 = d.regs 23 := h₀ 23 (by decide)
  generalize hd₁ : (d.sequence 0).sequence 4 = d₁ at *
  have h4 : d₁.regs 4 = gX := (hreg 4 (by decide)).trans hp.gX
  have h5 : d₁.regs 5 = gY := (hreg 5 (by decide)).trans hp.gY
  have h6 : d₁.regs 6 = 1 := (hreg 6 (by decide)).trans hp.gZ
  have h7 : d₁.regs 7 = gT := (hreg 7 (by decide)).trans hp.gT
  have hloop : InLoop (d.regs 23) { f with scalarReg := d.regs 23, bitCounter := 255 }
      (d₁.sequence 3) := by
    refine inLoop_start rfl rfl ((hreg 24 (by decide)).trans hp.zero)
      ((hreg 25 (by decide)).trans hp.one) ((hreg 27 (by decide)).trans hp.curve2D)
      ⟨?_, ?_, ?_, ?_⟩ ?_
    · rw [h4]; decide
    · change (d₁.regs 5).toNat < _
      rw [h5]; decide
    · change (d₁.regs 6).toNat < _
      rw [h6]; decide
    · change (d₁.regs 7).toNat < _
      rw [h7]; decide
    · rw [h4, h5]; decide
  obtain ⟨sr, d₂, hsteps, hsame, -, hval⟩ := ladder_loop s2States _ _ hloop
  have hbase : coords (residues (d₁.sequence 3).regs) 4 = baseCoords := by
    change Extended.mk (fe (d₁.regs 4)) (fe (d₁.regs 5)) (fe (d₁.regs 6)) (fe (d₁.regs 7)) = _
    rw [h4, h5, h6, h7]
    rfl
  rw [hbase] at hval
  have hframe : Agree [16, 20, 21, 24, 25, 26, 27, 28] d₁ (d₂.sequence 5) :=
    ((Agree.sequence d₁ 3 (by decide)).trans (.sameBase hsame (by decide))).trans
      (.sequence d₂ 5 (by decide))
  refine ⟨sr, d₂.sequence 5, ?_, ?_, ?_, ?_⟩
  · refine .head rfl ?_
    rw [next_hashReduction]
    refine .head rfl ?_
    rw [next_loadS, hs, hd₁]
    refine .head rfl ?_
    rw [next_initP1]
    refine hsteps.trans (.head rfl ?_)
    rw [next_saveP1]
    exact .refl _
  · intro r hr
    rw [hframe r (by revert r; decide), hreg r (by revert r; decide)]
  · rw [hframe 16 (by decide), h₁ 16 (by decide), hhash]
  · rw [← hval]
    exact ⟨rfl, rfl, rfl⟩

/-! ## `A` and `R` -/

theorem Steps.verifies {s s' : SeqState} (h : Decompresses s s') : Verifies s s' :=
  h.mono fun st hst => by cases st <;> simp_all [FsmState.decompresses, FsmState.busy]

/-- Four registers from `r` on hold what the core takes for the point of `enc`. -/
structure HoldsDecoded (enc : Word) (regs : BitVec 5 → Word) (r : BitVec 5) : Prop where
  coords : coords (residues regs) r = decoded enc
  below : Below (2 ^ 255) regs r
  x_le : (regs r).toNat ≤ p

/-- A sequence that copies the four registers. -/
theorem HoldsDecoded.moved {enc : Word} {d d' : Datapath} {r r' : BitVec 5}
    (h : HoldsDecoded enc d.regs r) (h0 : d'.regs r' = d.regs r)
    (h1 : d'.regs (r' + 1) = d.regs (r + 1)) (h2 : d'.regs (r' + 2) = d.regs (r + 2))
    (h3 : d'.regs (r' + 3) = d.regs (r + 3)) : HoldsDecoded enc d'.regs r' := by
  refine ⟨?_, ⟨?_, ?_, ?_, ?_⟩, ?_⟩
  · rw [← h.coords]
    simp only [SentinelSoc.coords, residues, h0, h1, h2, h3]
  · rw [h0]; exact h.below.x_lt
  · rw [h1]; exact h.below.y_lt
  · rw [h2]; exact h.below.z_lt
  · rw [h3]; exact h.below.t_lt
  · rw [h0]; exact h.x_le

theorem HoldsDecoded.agree {enc : Word} {d d' : Datapath} {r : BitVec 5}
    (h : HoldsDecoded enc d.regs r) (ha : Agree [r, r + 1, r + 2, r + 3] d d') :
    HoldsDecoded enc d'.regs r :=
  h.moved (ha r (by simp)) (ha (r + 1) (by simp)) (ha (r + 2) (by simp)) (ha (r + 3) (by simp))

theorem Decompressed.holdsDecoded {enc : Word} {d d' : Datapath} (h : Decompressed enc d d') :
    HoldsDecoded enc d'.regs 0 :=
  ⟨h.coords.1, h.coords.2.1, h.coords.2.2⟩

/-- The decompression of `A` and then of `R`. -/
theorem steps_decode (f : MasterFsm) (d : Datapath) (hpk : f.isDecompPubkey = true)
    (hc : HasConstants d.regs) :
    ∃ (f' : MasterFsm) (d' : Datapath),
      Verifies ⟨f.enter .decompStart, d⟩ ⟨f'.enter .s4LoadH, d'⟩ ∧
      Agree [16, 17, 18, 19, 24, 25, 26, 27, 28] d d' ∧
      HoldsDecoded (d.regs 21) d'.regs 4 ∧ HoldsDecoded (d.regs 20) d'.regs 20 := by
  have h21 : d.regs (if f.isDecompPubkey then 21 else 20) = d.regs 21 := by
    rw [hpk, if_pos rfl]
  obtain ⟨d₁, hsteps₁, hA⟩ := decompress_steps f d hc h21
  rw [hpk, if_pos rfl] at hsteps₁
  have hagree₁ : Agree [16, 17, 18, 19, 20, 24, 25, 26, 27, 28] d (d₁.sequence 19) :=
    (Agree.decompressed hA (by decide)).trans (.sequence d₁ 19 (by decide))
  have hA₁ : HoldsDecoded (d.regs 21) (d₁.sequence 19).regs 4 :=
    hA.holdsDecoded.moved rfl rfl rfl rfl
  have hc₁ : HasConstants (d₁.sequence 19).regs :=
    ⟨(hagree₁ 25 (by decide)).trans hc.one, (hagree₁ 26 (by decide)).trans hc.curveD,
      (hagree₁ 28 (by decide)).trans hc.sqrtM1⟩
  have h20 : (d₁.sequence 19).regs 20 = d.regs 20 := hagree₁ 20 (by decide)
  let f₁ : MasterFsm := { f.forRoot with bitCounter := 255 }
  let f₂ : MasterFsm := { f₁ with isDecompPubkey := false }
  obtain ⟨d₂, hsteps₂, hR⟩ := decompress_steps f₂ (d₁.sequence 19) hc₁ h20
  have hagree₂ : Agree [4, 5, 6, 7, 16, 17, 18, 19, 24, 25, 26, 27, 28] (d₁.sequence 19)
      (d₂.sequence 18) := (Agree.decompressed hR (by decide)).trans (.sequence d₂ 18 (by decide))
  refine ⟨{ f₂.forRoot with bitCounter := 255 }, d₂.sequence 18, ?_,
    (hagree₁.subset (by decide)).trans (hagree₂.subset (by decide)), hA₁.agree (hagree₂.subset (by decide)), hR.holdsDecoded.moved rfl rfl rfl rfl⟩
  refine hsteps₁.verifies.trans (.head rfl ?_)
  rw [next_saveA]
  refine hsteps₂.verifies.trans (.head rfl ?_)
  rw [if_neg (by simp), next_saveR]
  exact .refl _

/-! ## `P2 = [h]A + R` -/

/-- The second loop, and the addition of `R`. -/
theorem steps_p2 (f : MasterFsm) (d : Datapath) {encA encR : Word} (h24 : d.regs 24 = 0)
    (h25 : d.regs 25 = 1) (h27 : d.regs 27 = curve2D) (hA : HoldsDecoded encA d.regs 4)
    (hR : HoldsDecoded encR d.regs 20) :
    ∃ (f' : MasterFsm) (d' : Datapath),
      Verifies ⟨f.enter .s4LoadH, d⟩ ⟨f'.enter .s5VerifyX, d'⟩ ∧
      Agree [17, 18, 19] d d' ∧
      coords (residues d'.regs) 0 =
        (Extended.smul curve.d (d.regs 16).toNat (decoded encA)).add curve.d (decoded encR) := by
  have hp : p ≤ 2 ^ 255 := by decide
  have h₁ : Agree [4, 5, 6, 7, 17, 18, 19, 20, 21, 22, 23, 24, 25, 27] d (d.sequence 23) :=
    .sequence d 23 (by decide)
  have hA₁ : HoldsDecoded encA (d.sequence 23).regs 4 := hA.agree (h₁.subset (by decide))
  have hloop : InLoop (d.regs 16) { f with scalarReg := d.regs 16, bitCounter := 255 }
      ((d.sequence 23).sequence 3) :=
    inLoop_start rfl rfl ((h₁ 24 (by decide)).trans h24) ((h₁ 25 (by decide)).trans h25)
      ((h₁ 27 (by decide)).trans h27) hA₁.below (hA₁.x_le.trans (Nat.le_add_left _ _))
  have h₂ : Agree [4, 5, 6, 7, 17, 18, 19, 20, 21, 22, 23, 27] (d.sequence 23)
      ((d.sequence 23).sequence 3) := .sequence _ 3 (by decide)
  have hA₂ : HoldsDecoded encA ((d.sequence 23).sequence 3).regs 4 :=
    hA₁.agree (h₂.subset (by decide))
  obtain ⟨sr, d₃, hsteps, hsame, hlt, hval⟩ := ladder_loop s4States _ _ hloop
  rw [hA₂.coords] at hval
  have h₃ : Agree [17, 18, 19, 20, 21, 22, 23, 27] d d₃ :=
    ((h₁.subset (by decide)).trans (h₂.subset (by decide))).trans (.sameBase hsame (by decide))
  have hR₃ : HoldsDecoded encR d₃.regs 20 := hR.agree (h₃.subset (by decide))
  have hR₄ : HoldsDecoded encR (d₃.sequence 20).regs 4 := hR₃.moved rfl rfl rfl rfl
  have h₄ : Agree [0, 1, 2, 3, 17, 18, 19, 27] d₃ (d₃.sequence 20) := .sequence _ 20 (by decide)
  have hlt₄ : Below p (d₃.sequence 20).regs 0 := ⟨hlt.x_lt, hlt.y_lt, hlt.z_lt, hlt.t_lt⟩
  obtain ⟨-, -, hsum⟩ := pointAdd_coords
    ((h₄ 27 (by decide)).trans ((h₃ 27 (by decide)).trans h27)) (hlt₄.mono hp) hR₄.below
    (hlt₄.x_lt.le.trans (Nat.le_add_left _ _)) (hR₄.x_le.trans (Nat.le_add_left _ _))
  have h₅ : Agree [17, 18, 19] (d₃.sequence 20) ((d₃.sequence 20).sequence 2) :=
    .sequence _ 2 (by decide)
  have hcoords : coords (residues (d₃.sequence 20).regs) 0 = coords (residues d₃.regs) 0 := rfl
  rw [hcoords, hval, hR₄.coords] at hsum
  let f₁ : MasterFsm := { f with scalarReg := sr, bitCounter := 255 }
  refine ⟨f₁, (d₃.sequence 20).sequence 2, ?_,
    ((h₃.subset (by decide)).trans (h₄.subset (by decide))).trans h₅, hsum⟩
  refine .head rfl ?_
  rw [next_loadH]
  refine .head rfl ?_
  rw [next_initP2]
  refine hsteps.trans (.head rfl ?_)
  rw [next_loadRBase]
  refine .head rfl ?_
  rw [next_addR]
  exact .refl _

/-! ## The comparison -/

/-- The products of the comparison are equal as words exactly when they are equal modulo `p`. -/
theorem fmul_eq_iff (a b c d : Word) : fmul a b = fmul c d ↔ fe a * fe b = fe c * fe d := by
  rw [← fe_fmul, ← fe_fmul]
  constructor
  · intro h
    rw [h]
  · intro h
    exact eq_of_fe_eq (fmul_lt a b) (fmul_lt c d) h

/-- The two points with these coordinates are equal, as far as cross products tell. -/
def SameRatios (P Q : Extended (ZMod p)) : Prop := P.x * Q.z = Q.x * P.z ∧ P.y * Q.z = Q.y * P.z

theorem steps_compare (f : MasterFsm) (d : Datapath) {P Q : Extended (ZMod p)}
    (hP : residues d.regs 17 = P.x ∧ residues d.regs 18 = P.y ∧ residues d.regs 19 = P.z)
    (hQ : coords (residues d.regs) 0 = Q) :
    ∃ (f' : MasterFsm) (d' : Datapath),
      Verifies ⟨f.enter .s5VerifyX, d⟩ ⟨f'.enter .done, d'⟩ ∧
      ((f'.xEqFlag && f'.yEqFlag) = true ↔ SameRatios P Q) := by
  have h₁ : Agree [0, 1, 2, 17, 18, 19] d (d.sequence 21) := .sequence _ 21 (by decide)
  obtain ⟨hx, hy, hz⟩ := hP
  subst hQ
  have hxiff : fmul (d.regs 17) (d.regs 2) = fmul (d.regs 0) (d.regs 19) ↔
      P.x * residues d.regs 2 = residues d.regs 0 * P.z := by
    rw [fmul_eq_iff, ← hx, ← hz]
    rfl
  have hyiff : fmul ((d.sequence 21).regs 18) ((d.sequence 21).regs 2) =
      fmul ((d.sequence 21).regs 1) ((d.sequence 21).regs 19) ↔
      P.y * residues d.regs 2 = residues d.regs 1 * P.z := by
    rw [h₁ 18 (by decide), h₁ 2 (by decide), h₁ 1 (by decide), h₁ 19 (by decide), fmul_eq_iff,
      ← hy, ← hz]
    rfl
  let f₁ : MasterFsm :=
    { f with xEqFlag := decide (fmul (d.regs 17) (d.regs 2) = fmul (d.regs 0) (d.regs 19)) }
  let f₂ : MasterFsm :=
    { f₁ with
      yEqFlag := decide (fmul ((d.sequence 21).regs 18) ((d.sequence 21).regs 2) =
        fmul ((d.sequence 21).regs 1) ((d.sequence 21).regs 19)) }
  refine ⟨f₂, (d.sequence 21).sequence 22, ?_, ?_⟩
  · refine .head rfl ?_
    rw [next_verifyX]
    refine .head rfl ?_
    rw [next_verifyY]
    exact .refl _
  · simp only [f₂, f₁, Bool.and_eq_true, decide_eq_true_eq, hxiff, hyiff]
    rfl

/-- What the core compares, computed from the words that the host loads. -/
def signaturePoint (s : Word) : Extended (ZMod p) := Extended.smul curve.d s.toNat baseCoords

def hashPoint (h : ℕ) (encA encR : Word) : Extended (ZMod p) :=
  (Extended.smul curve.d (h % ell) (decoded encA)).add curve.d (decoded encR)

/-- **A verification compares `[s]G` with `[h]A + R`**, by the formulas, whatever the words are. -/
theorem verify_steps (f : MasterFsm) (d : Datapath) (hp : Preloaded d.regs) :
    ∃ (f' : MasterFsm) (d' : Datapath),
      Verifies ⟨f.enter .hashReduction, d⟩ ⟨f'.enter .done, d'⟩ ∧
      ((f'.xEqFlag && f'.yEqFlag) = true ↔
        SameRatios (signaturePoint (d.regs 23))
          (hashPoint (hashOf d.regs) (d.regs 21) (d.regs 20))) := by
  obtain ⟨sr, d₁, hsteps₁, hag₁, hhash, hP⟩ := steps_p1 f d hp
  let f₁ : MasterFsm := { f with scalarReg := sr, bitCounter := 255, isDecompPubkey := true }
  have hc : HasConstants d₁.regs :=
    ⟨(hag₁ 25 (by decide)).trans hp.one, (hag₁ 26 (by decide)).trans hp.curveD,
      (hag₁ 28 (by decide)).trans hp.sqrtM1⟩
  obtain ⟨f₂, d₂, hsteps₂, hag₂, hA, hR⟩ := steps_decode f₁ d₁ rfl hc
  rw [hag₁ 21 (by decide)] at hA
  rw [hag₁ 20 (by decide)] at hR
  obtain ⟨f₃, d₃, hsteps₃, hag₃, hQ⟩ := steps_p2 f₂ d₂
    ((hag₂ 24 (by decide)).trans ((hag₁ 24 (by decide)).trans hp.zero))
    ((hag₂ 25 (by decide)).trans ((hag₁ 25 (by decide)).trans hp.one))
    ((hag₂ 27 (by decide)).trans ((hag₁ 27 (by decide)).trans hp.curve2D)) hA hR
  rw [hag₂ 16 (by decide), hhash] at hQ
  have hkeep : ∀ r ∈ ([17, 18, 19] : List (BitVec 5)), residues d₃.regs r = residues d₁.regs r := by
    intro r hr
    simp only [residues]
    rw [hag₃ r hr, hag₂ r (by revert r; decide)]
  have hP₃ : residues d₃.regs 17 = (signaturePoint (d.regs 23)).x ∧
      residues d₃.regs 18 = (signaturePoint (d.regs 23)).y ∧
      residues d₃.regs 19 = (signaturePoint (d.regs 23)).z := by
    rw [hkeep 17 (by decide), hkeep 18 (by decide), hkeep 19 (by decide)]
    exact hP
  obtain ⟨f₄, d₄, hsteps₄, hiff⟩ := steps_compare f₃ d₃ hP₃ hQ
  exact ⟨f₄, d₄, ((hsteps₁.trans hsteps₂).trans hsteps₃).trans hsteps₄, hiff⟩

/-! ## In the cycles -/

namespace EdTop

variable {r : ℕ → EdTop} {i : ℕ → EdIn} {regs : BitVec 5 → Word} {t : ℕ}

/-- An idle core is between two sequences. -/
theorem boundary_of_idle (hr : IsRun r i) (h0 : Boundary (r 0)) (hi : (r t).fsm.state = .idle) :
    Boundary (r t) := by
  rcases boundary_or_activation hr h0 t with h | ⟨u, u', ha, -, hu, hu'⟩
  · exact h
  · have hb := boundary_of_start hr h0 ha.start
    have hst : (r u).fsm.state = .idle := by
      rw [ha.fsm t hu hu'] at hi
      exact hi
    have htrig := hb.startSeqReg
    rw [ha.start, hst] at htrig
    exact absurd htrig (by decide)

/-- `ST_DONE` is terminal. -/
theorem done_stable (hr : IsRun r i) (hd : (r t).fsm.state = .done) {u : ℕ} (hu : t ≤ u) :
    (r u).fsm.state = .done ∧ (r u).fsm.signatureValid = (r t).fsm.signatureValid := by
  induction u, hu using Nat.le_induction with
  | base => exact ⟨hd, rfl⟩
  | succ u _ ih =>
    obtain ⟨hst, hval⟩ := ih
    rw [hr, ← hval]
    change (MasterFsm.step _ _ _ _ _).state = _ ∧ (MasterFsm.step _ _ _ _ _).signatureValid = _
    simp [MasterFsm.step, MasterFsm.nextState, MasterFsm.shadow, MasterFsm.signatureValid, hst]

theorem not_done_of_busy {f : MasterFsm} (h : f.state.busy = true) :
    f.verifyDone = false ∧ f.signatureValid = false := by
  have hne : (f.state == FsmState.done) = false := by
    cases hs : f.state <;> simp_all [FsmState.busy]
  simp [MasterFsm.verifyDone, MasterFsm.signatureValid, hne]

/-- **Every verification ends, with the verdict of its own words.** -/
theorem verify_verdict (hr : IsRun r i) (h0 : r 0 = reset regs) (hidle : (r t).fsm.state = .idle)
    (hstart : (i t).startVerify = true) (hp : Preloaded (r (t + 1)).regs)
    (hsel : ∀ u, t < u → (r u).fsm.state.busy = true → (i u).dataSel = 0) :
    ∃ T, t < T ∧
      (∀ u, t < u → u < T → (r u).fsm.verifyDone = false ∧ (r u).fsm.signatureValid = false) ∧
      ∀ u, T ≤ u → (r u).fsm.verifyDone = true ∧
        ((r u).fsm.signatureValid = true ↔
          SameRatios (signaturePoint ((r (t + 1)).regs 23))
            (hashPoint (hashOf (r (t + 1)).regs) ((r (t + 1)).regs 21) ((r (t + 1)).regs 20))) := by
  have hb₀ : Boundary (r t) := by
    refine boundary_of_idle hr ?_ hidle
    rw [h0]
    exact boundary_reset regs
  have hb : Boundary (r (t + 1)) := by
    rw [hr]
    exact hb₀.step (by rw [hidle]; rfl)
  have hst : (r (t + 1)).fsm.state = .hashReduction := by
    rw [hr]
    change (r t).fsm.nextState _ _ _ = _
    simp [MasterFsm.nextState, hidle, hstart]
  obtain ⟨f', d', hsteps, hiff⟩ :=
    verify_steps (r (t + 1)).fsm ⟨(r (t + 1)).regs, (r (t + 1)).xSign⟩ hp
  have habs : (r (t + 1)).abs =
      ⟨(r (t + 1)).fsm.enter .hashReduction, ⟨(r (t + 1)).regs, (r (t + 1)).xSign⟩⟩ := by
    rw [← hb.enter_eq hst]
    rfl
  obtain ⟨T, hle, -, hend, hpath⟩ :=
    simulates_steps hr (by decide) hsteps habs hb fun u hu => hsel u hu
  have hfsm : (r T).fsm = f'.enter .done := congrArg SeqState.fsm hend
  have hdone : (r T).fsm.state = .done := by rw [hfsm]; rfl
  refine ⟨T, hle, fun u hu hu' => not_done_of_busy (hpath u hu hu'), fun u hu => ?_⟩
  obtain ⟨hdu, hval⟩ := done_stable hr hdone hu
  refine ⟨by simp [MasterFsm.verifyDone, hdu], ?_⟩
  rw [hval, hfsm, ← hiff]
  rfl

/-- **The verification equation.**  A run from reset is started in the idle state, with the
    constants loaded and the datapath left to the core: for every `s` and every hash, and for
    canonical encodings of points `A` and `R` of the curve, the core ends in `ST_DONE`, and its
    verdict from then on is whether `[s]G = [hash mod L]A + R`. -/
theorem verify_equation (hr : IsRun r i) (h0 : r 0 = reset regs) (hidle : (r t).fsm.state = .idle)
    (hstart : (i t).startVerify = true) (hp : Preloaded (r (t + 1)).regs)
    (hsel : ∀ u, t < u → (r u).fsm.state.busy = true → (i u).dataSel = 0)
    {A R : Edwards.Point curve} (hA : Encodes ((r (t + 1)).regs 21) A)
    (hR : Encodes ((r (t + 1)).regs 20) R) :
    ∃ T, t < T ∧
      (∀ u, t < u → u < T → (r u).fsm.verifyDone = false ∧ (r u).fsm.signatureValid = false) ∧
      ∀ u, T ≤ u → (r u).fsm.verifyDone = true ∧
        ((r u).fsm.signatureValid = true ↔
          basePoint.smul ((r (t + 1)).regs 23).toNat =
            (A.smul (hashOf (r (t + 1)).regs % ell)).add R) := by
  obtain ⟨T, hlt, hbefore, hafter⟩ := verify_verdict hr h0 hidle hstart hp hsel
  refine ⟨T, hlt, hbefore, fun u hu => ⟨(hafter u hu).1, (hafter u hu).2.trans ?_⟩⟩
  have hP := baseCoords_represents.smul ((r (t + 1)).regs 23).toNat
  have hQ := (hA.represents.smul (hashOf (r (t + 1)).regs % ell)).add hR.represents
  exact hP.eq_iff hQ

/-- The registers that the host loads for the words `s`, `hash`, `A` and `R`. -/
def preload (s hashHi hashLo encA encR : Word) (r : BitVec 5) : Word :=
  if r = 4 then gX else if r = 5 then gY else if r = 6 then 1 else if r = 7 then gT
  else if r = 8 then hashLo else if r = 9 then hashHi
  else if r = 10 then muHi else if r = 11 then curveL else if r = 12 then muLo
  else if r = 20 then encR else if r = 21 then encA else if r = 23 then s
  else if r = 25 then 1 else if r = 26 then curveD else if r = 27 then curve2D
  else if r = 28 then sqrtM1 else 0

theorem preloaded_preload (s hashHi hashLo encA encR : Word) :
    Preloaded (preload s hashHi hashLo encA encR) :=
  ⟨rfl, rfl, rfl, rfl, rfl, rfl, rfl, rfl, rfl, rfl, rfl, rfl⟩

/-- The host starts a verification in cycle `0` of a run from reset. -/
def startRun (regs : BitVec 5 → Word) : ℕ → EdTop :=
  Sync.run EdTop.step (reset regs) fun t => ⟨t == 0, 0, 0, 0, 0, false, 0⟩

theorem encodes_base : Encodes gY basePoint := ⟨by decide, by decide +kernel, by decide +kernel⟩

theorem verify_equation_base :
    ∃ T, 0 < T ∧ ∀ u, T ≤ u →
      ((startRun (preload 2 0 1 gY gY) u).fsm.signatureValid = true ↔
        basePoint.smul 2 = (basePoint.smul (hashOf (preload 2 0 1 gY gY) % ell)).add basePoint) := by
  obtain ⟨T, hlt, -, hT⟩ :=
    verify_equation (r := startRun (preload 2 0 1 gY gY)) (t := 0) (fun t => rfl) rfl rfl rfl
      (preloaded_preload 2 0 1 gY gY) (fun u _ _ => rfl) encodes_base encodes_base
  exact ⟨T, hlt, fun u hu => (hT u hu).2⟩

end EdTop

end SentinelSoc
