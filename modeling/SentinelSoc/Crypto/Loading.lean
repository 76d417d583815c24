/-
  The loading of the Ed25519 registers.

  * `Steady`: cycles without an abort;
  * `loading`: the cycles of ST_LOAD_REGS;
  * `loadDest`, `loadValue`: the registers that they write, and with which words;
  * `Steady.primed`: what the register file holds afterwards.
-/
import SentinelSoc.Crypto.Protocol
import SentinelSoc.Ed.Verify

namespace SentinelSoc

namespace TopMost

variable {r : ℕ → TopMost} {i : ℕ → TopIn} {t t₁ u : ℕ}

/-- From cycle `t` on, before cycle `t₁`, nothing is aborted. -/
structure Steady (r : ℕ → TopMost) (i : ℕ → TopIn) (t t₁ : ℕ) : Prop where
  step : ∀ u, t ≤ u → u < t₁ → r (u + 1) = (r u).step (i u)
  undisturbed : ∀ u, t ≤ u → u < t₁ → Undisturbed (i u)

theorem Steady.part {t' t₁' : ℕ} (h : Steady r i t t₁) (ht : t ≤ t') (ht₁ : t₁' ≤ t₁) :
    Steady r i t' t₁' where
  step u hu hu₁ := h.step u (by omega) (by omega)
  undisturbed u hu hu₁ := h.undisturbed u (by omega) (by omega)

theorem IsRun.steady (h : IsRun r i) (hx : ∀ u, t ≤ u → u < t₁ → Undisturbed (i u)) :
    Steady r i t t₁ :=
  ⟨fun u _ _ => h.step u, hx⟩

/-! ## The cycles -/

/-- A cycle of ST_LOAD_REGS. -/
theorem load_step (hs : (r t).orch.state = .loadRegs) (hr : r (t + 1) = (r t).step (i t))
    (hx : Undisturbed (i t)) :
    (r (t + 1)).orch.state = (if (r t).orch.loadIdx = 17 then .waitStart else .loadRegs) ∧
      (r (t + 1)).orch.loadIdx = (r t).orch.loadIdx + 1 := by
  have hq := orch_loadRegs hx hs
  rw [hr, hq]
  exact ⟨rfl, rfl⟩

theorem loadIdx_ne {q : Orch} {j : ℕ} (hl : q.loadIdx = BitVec.ofNat 5 j) (hj : j < 17) :
    q.loadIdx ≠ 17 := by
  rw [hl]
  intro hc
  have hn := congrArg BitVec.toNat hc
  simp only [BitVec.toNat_ofNat, BitVec.ofNat_eq_ofNat] at hn
  omega

/-- The cycles of ST_LOAD_REGS. -/
theorem loading (h : Steady r i t t₁) (hl : LoadsNext (r t)) {j : ℕ} (hj : j ≤ 17)
    (ht₁ : t + j ≤ t₁) :
    (r (t + j)).orch.state = .loadRegs ∧ (r (t + j)).orch.loadIdx = BitVec.ofNat 5 j := by
  induction j with
  | zero => exact ⟨hl.state, hl.loadIdx⟩
  | succ j ih =>
    obtain ⟨hst, hidx⟩ := ih (by omega) (by omega)
    obtain ⟨hst', hidx'⟩ :=
      load_step hst (h.step _ (by omega) (by omega)) (h.undisturbed _ (by omega) (by omega))
    rw [if_neg (loadIdx_ne hidx (by omega))] at hst'
    refine ⟨hst', ?_⟩
    rw [← Nat.add_assoc, hidx', hidx, BitVec.ofNat_add]
    rfl

/-! ## The writes -/

/-- The register of each cycle. -/
def loadDest (j : ℕ) : BitVec 5 :=
  [24, 25, 26, 27, 28, 4, 5, 6, 7, 10, 11, 12, 23, 20, 21, 8, 9].getD j 0

/-- The word of each cycle. -/
def loadValue (s : TopMost) (j : ℕ) : Word :=
  [0, 1, curveD, curve2D, sqrtM1, gX, gY, 1, gT, muHi, curveL, muLo, s.csr.sReg, s.csr.rReg,
    s.orch.pubkeyReg, s.orch.hashReg.extractLsb' 0 256, s.orch.hashReg.extractLsb' 256 256].getD j 0

theorem loadDest_injective {j k : ℕ} (hj : j < 17) (hk : k < 17) (h : loadDest j = loadDest k) :
    j = k := by
  have hinj : ∀ j k : Fin 17, loadDest j = loadDest k → j = k := by decide
  exact congrArg Fin.val (hinj ⟨j, hj⟩ ⟨k, hk⟩ h)

theorem loadWord_eq (s : TopMost) (x : TopIn) {j : ℕ} (hj : j < 17)
    (hl : s.orch.loadIdx = BitVec.ofNat 5 j) :
    (s.orch.defaults (s.orchIn x)).loadWord (s.orchIn x) = some (loadDest j, loadValue s j) := by
  have hl' : (s.orch.defaults (s.orchIn x)).loadIdx = BitVec.ofNat 5 j := hl
  rw [Orch.loadWord, hl']
  interval_cases j <;> rfl

/-- The port of the register file. -/
structure Writes (s : TopMost) (dest : BitVec 5) (word : Word) : Prop where
  extWe : s.orch.edExtWe = true
  dsel : s.orch.edDsel = 1
  dest : s.orch.edDest = dest
  din : s.orch.edDin = word

/-- The write is on the port one cycle later. -/
theorem load_writes (hs : (r t).orch.state = .loadRegs) (hr : r (t + 1) = (r t).step (i t))
    (hx : Undisturbed (i t)) {j : ℕ} (hj : j < 17) (hl : (r t).orch.loadIdx = BitVec.ofNat 5 j) :
    Writes (r (t + 1)) (loadDest j) (loadValue (r t) j) := by
  have hq := orch_loadRegs hx hs
  simp only [Orch.load, loadWord_eq (r t) (i t) hj hl] at hq
  have hne : (r t).orch.loadIdx ≠ 17 := loadIdx_ne hl hj
  rw [hr]
  refine ⟨?_, by rw [hq], by rw [hq]; rfl, by rw [hq]; rfl⟩
  rw [hq]
  exact bne_iff_ne.2 hne

/-- An idle core takes the word. -/
theorem Writes.regs {s : TopMost} {dest : BitVec 5} {word : Word} (h : Writes s dest word)
    (hc : Calm s) (x : TopIn) : (s.step x).ed.regs = Function.update s.ed.regs dest word := by
  have hwe : s.ed.finalWe s.edIn = true := by
    rw [EdTop.finalWe, if_pos hc.edIdle]
    exact h.extWe
  have hdest : s.ed.finalDestSel s.edIn = dest := by
    rw [EdTop.finalDestSel, if_pos hc.edIdle]
    exact h.dest
  have hdata : s.ed.regWriteData s.edIn = word := by
    have hsel : s.edIn.dataSel = 1 := h.dsel
    rw [EdTop.regWriteData, hsel]
    exact h.din
  change (if s.ed.finalWe s.edIn = true then _ else _) = _
  rw [hwe, if_pos rfl, hdest, hdata]

/-- Without a write an idle core keeps its registers. -/
theorem Calm.regs {s : TopMost} (h : Calm s) (hw : s.orch.edExtWe = false) (x : TopIn) :
    (s.step x).ed.regs = s.ed.regs := by
  have hwe : s.ed.finalWe s.edIn = false := by
    rw [EdTop.finalWe, if_pos h.edIdle]
    exact hw
  change (if s.ed.finalWe s.edIn = true then _ else _) = _
  rw [hwe, if_neg Bool.false_ne_true]

/-! ## The register file -/

/-- What a verification is about: the scalar, the two encodings and the hash. -/
structure Primed (regs : BitVec 5 → Word) (s encR encA : Word) (h : BitVec 512) : Prop where
  preloaded : Preloaded regs
  scalar : regs 23 = s
  encR : regs 20 = encR
  encA : regs 21 = encA
  hash : hashOf regs = h.toNat

/-- The values from the loading on. -/
theorem Steady.kept (h : Steady r i t t₁) (hl : IsLoaded (r t).orch.state) (hu : t ≤ u)
    (hu₁ : u ≤ t₁) : IsLoaded (r u).orch.state ∧ (r u).orch.pubkeyReg = (r t).orch.pubkeyReg ∧
      (r u).orch.hashReg = (r t).orch.hashReg := by
  induction u, hu using Nat.le_induction with
  | base => exact ⟨hl, rfl, rfl⟩
  | succ u hu ih =>
    obtain ⟨hlu, hk, hh⟩ := ih (by omega)
    obtain ⟨hst, -, hk', hh'⟩ := hlu.step (h.undisturbed u hu hu₁)
    rw [h.step u hu hu₁]
    exact ⟨hst, hk'.trans hk, hh'.trans hh⟩

/-- The write of the cycle before. -/
theorem Steady.writes (h : Steady r i t t₁) (hl : LoadsNext (r t)) (ht₁ : t + 18 ≤ t₁) {j : ℕ}
    (hj : j < 17) : Writes (r (t + (j + 1))) (loadDest j) (loadValue (r (t + j)) j) := by
  obtain ⟨hs, hidx⟩ := loading h hl hj.le (by omega)
  exact load_writes hs (h.step _ (by omega) (by omega)) (h.undisturbed _ (by omega) (by omega)) hj
    hidx

section Loading

variable (h : Steady r i t t₁) (hl : LoadsNext (r t)) (hc : Calm (r t)) (ht₁ : t + 18 ≤ t₁)
include h hl hc ht₁

theorem Steady.calm {k : ℕ} (hk : k ≤ 18) : Calm (r (t + k)) := by
  induction k with
  | zero => exact hc
  | succ k ih =>
    have hs := (loading h hl (show k ≤ 17 by omega) (by omega)).1
    rw [← Nat.add_assoc, h.step _ (by omega) (by omega)]
    exact (ih (by omega)).step (h.undisturbed _ (by omega) (by omega)) (by simp [hs])

/-- A register keeps the word of its cycle. -/
theorem Steady.reg {j k : ℕ} (hj : j < 17) (hjk : j + 2 ≤ k) (hk : k ≤ 18) :
    (r (t + k)).ed.regs (loadDest j) = loadValue (r (t + j)) j := by
  induction k, hjk using Nat.le_induction with
  | base =>
    rw [show t + (j + 2) = t + (j + 1) + 1 by omega, h.step _ (by omega) (by omega),
      (h.writes hl ht₁ hj).regs (h.calm hl hc ht₁ (show j + 1 ≤ 18 by omega)),
      Function.update_self]
  | succ k hjk ih =>
    -- the write in this cycle is that of index `k - 1`
    obtain ⟨n, rfl⟩ : ∃ n, k = n + 1 := ⟨k - 1, by omega⟩
    have hne : loadDest j ≠ loadDest n := fun he => by
      have hjn := loadDest_injective hj (by omega) he
      omega
    rw [← ih (by omega), ← Nat.add_assoc t (n + 1) 1, h.step _ (by omega) (by omega),
      (h.writes hl ht₁ (show n < 17 by omega)).regs (h.calm hl hc ht₁ (show n + 1 ≤ 18 by omega)),
      Function.update_of_ne hne]

/-- **The registers after the loading.** -/
theorem Steady.primed : Primed (r (t + 18)).ed.regs (r (t + 12)).csr.sReg (r (t + 13)).csr.rReg
    (r t).orch.pubkeyReg (r t).orch.hashReg := by
  have hreg (j : ℕ) (hj : j < 17) : (r (t + 18)).ed.regs (loadDest j) = loadValue (r (t + j)) j :=
    h.reg hl hc ht₁ hj (by omega) le_rfl
  have hkept {k : ℕ} (hk : k ≤ 18) := h.kept (.inl hl.state) (Nat.le_add_right t k) (by omega)
  refine ⟨⟨hreg 0 ?_, hreg 1 ?_, hreg 2 ?_, hreg 3 ?_, hreg 4 ?_, hreg 5 ?_, hreg 6 ?_, hreg 7 ?_,
    hreg 8 ?_, hreg 9 ?_, hreg 10 ?_, hreg 11 ?_⟩, hreg 12 ?_, hreg 13 ?_, ?_, ?_⟩
  all_goals try omega
  · rw [← (hkept (show 14 ≤ 18 by omega)).2.1]
    exact hreg 14 (by omega)
  · have h8 : (r (t + 18)).ed.regs 8 = (r t).orch.hashReg.extractLsb' 0 256 := by
      rw [← (hkept (show 15 ≤ 18 by omega)).2.2]
      exact hreg 15 (by omega)
    have h9 : (r (t + 18)).ed.regs 9 = (r t).orch.hashReg.extractLsb' 256 256 := by
      rw [← (hkept (show 16 ≤ 18 by omega)).2.2]
      exact hreg 16 (by omega)
    have hlt := (r t).orch.hashReg.isLt
    rw [hashOf, h8, h9, BitVec.extractLsb'_toNat, BitVec.extractLsb'_toNat,
      Nat.shiftRight_eq_div_pow, Nat.shiftRight_eq_div_pow]
    omega

end Loading

/-! ## The verification -/

/-- The core was started in cycle `u`, with the registers `regs`. -/
structure Underway (r : ℕ → TopMost) (regs : BitVec 5 → Word) (u t : ℕ) : Prop where
  le : u ≤ t
  idle : (r u).ed.fsm.state = .idle
  start : (r u).orch.edStart = true
  regs : (r u).ed.regs = regs
  extWe : (r u).orch.edExtWe = false
  state : (r t).orch.state = .edWait ∨ (r t).orch.state = .done ∧ (r t).edDone = true
  dsel : ∀ v, u ≤ v → v ≤ t → (r v).orch.edDsel = 0

/-- The registers are loaded, and the core has been started or not yet. -/
inductive Verifying (r : ℕ → TopMost) (regs : BitVec 5 → Word) (t : ℕ) : Prop
  | waits (hs : (r t).orch.state = .waitStart ∨ (r t).orch.state = .edStart ∧ (r t).orch.edDsel = 0)
      (hc : Calm (r t)) (hr : (r t).ed.regs = regs) (hw : (r t).orch.edExtWe = false)
  | started (u : ℕ) (h : Underway r regs u t)

theorem edDone_step {s : TopMost} (h : s.edDone = true) (x : TopIn) : (s.step x).edDone = true := by
  have hst : s.ed.fsm.state = .done := by simpa [TopMost.edDone, MasterFsm.verifyDone] using h
  change (MasterFsm.step _ _ _ _ _).verifyDone = true
  simp [MasterFsm.step, MasterFsm.nextState, MasterFsm.verifyDone, hst]

/-- After the last write the core waits. -/
theorem Steady.verifying (h : Steady r i t t₁) (hl : LoadsNext (r t)) (hc : Calm (r t))
    (ht₁ : t + 18 ≤ t₁) : Verifying r (r (t + 18)).ed.regs (t + 18) := by
  obtain ⟨hs, hidx⟩ := loading h hl (show 17 ≤ 17 by omega) (by omega)
  have hx := h.undisturbed (t + 17) (by omega) (by omega)
  have hstep := h.step (t + 17) (by omega) (by omega)
  have hq := orch_loadRegs hx hs
  have h17 : (r (t + 17)).orch.loadIdx = 17 := hidx
  refine .waits (.inl ?_) (h.calm hl hc ht₁ le_rfl) rfl ?_
  · rw [hstep, hq]
    exact if_pos h17
  · rw [hstep, hq]
    change ((r (t + 17)).orch.loadIdx != 17) = false
    rw [h17]
    rfl

theorem Underway.step {regs : BitVec 5 → Word} (h : Underway r regs u t)
    (hr : r (t + 1) = (r t).step (i t)) (hx : Undisturbed (i t)) : Underway r regs u (t + 1) := by
  have hnext : (r (t + 1)).orch.edDsel = (r t).orch.edDsel ∧
      ((r (t + 1)).orch.state = .edWait ∨
        (r (t + 1)).orch.state = .done ∧ (r (t + 1)).edDone = true) := by
    rcases h.state with hs | ⟨hs, hdone⟩
    · have hq := orch_edWait hx hs
      rw [← hr] at hq
      refine ⟨by rw [hq]; rfl, ?_⟩
      by_cases hdone : (r t).edDone = true
      · refine .inr ⟨?_, ?_⟩
        · rw [hq]
          exact if_pos hdone
        · rw [hr]
          exact edDone_step hdone (i t)
      · exact .inl (by rw [hq]; exact if_neg hdone)
    · have hq := orch_done hx hs
      rw [← hr] at hq
      refine ⟨by rw [hq]; rfl, .inr ⟨by rw [hq]; exact hs, ?_⟩⟩
      rw [hr]
      exact edDone_step hdone (i t)
  refine ⟨h.le.trans (Nat.le_succ t), h.idle, h.start, h.regs, h.extWe, hnext.2, fun v hv hv' => ?_⟩
  rcases Nat.lt_or_ge t v with hlt | hge
  · obtain rfl : v = t + 1 := by omega
    rw [hnext.1]
    exact h.dsel t h.le le_rfl
  · exact h.dsel v hv hge

theorem Verifying.step {regs : BitVec 5 → Word} (h : Verifying r regs t)
    (hr : r (t + 1) = (r t).step (i t)) (hx : Undisturbed (i t)) : Verifying r regs (t + 1) := by
  cases h with
  | waits hs hc hregs hw =>
    have hregs' : (r (t + 1)).ed.regs = regs := by
      rw [hr, hc.regs hw, hregs]
    rcases hs with hs | ⟨hs, hd⟩
    · have hq := orch_waitStart hx hs
      rw [← hr] at hq
      have hc' : Calm (r (t + 1)) := by
        rw [hr]
        exact hc.step hx (by simp [hs])
      refine .waits ?_ hc' hregs' (by rw [hq]; exact hw)
      rw [hq]
      simp only
      split_ifs
      · exact .inr ⟨rfl, trivial⟩
      · exact .inl rfl
    · have hq := orch_edStart hx hs
      rw [← hr] at hq
      refine .started (t + 1) ⟨le_rfl, ?_, by rw [hq], hregs', by rw [hq]; exact hw,
        .inl (by rw [hq]), fun v hv hv' => ?_⟩
      · rw [hr]
        change (r t).ed.fsm.nextState (r t).orch.edStart _ _ = .idle
        simp [MasterFsm.nextState, hc.edIdle, hc.edStart]
      · obtain rfl : v = t + 1 := by omega
        rw [hq]
        exact hd
  | started u h => exact .started u (h.step hr hx)

theorem Verifying.run {regs : BitVec 5 → Word} (h : Verifying r regs t) (hs : Steady r i t t₁)
    (hu : t ≤ u) (hu₁ : u ≤ t₁) : Verifying r regs u := by
  induction u, hu using Nat.le_induction with
  | base => exact h
  | succ u hu ih => exact (ih (by omega)).step (hs.step u hu hu₁) (hs.undisturbed u hu hu₁)

/-- The Ed25519 core of a run, left alone from cycle `t` on. -/
def edInputs (r : ℕ → TopMost) (t v : ℕ) : EdIn :=
  if v < t then (r v).edIn else ⟨false, 0, 0, 0, 0, false, 0⟩

def edRun (r : ℕ → TopMost) (t : ℕ) : ℕ → EdTop := Sync.run EdTop.step (r 0).ed (edInputs r t)

theorem edRun_eq (h : IsRun r i) {v : ℕ} (hv : v ≤ t) : edRun r t v = (r v).ed := by
  induction v with
  | zero => rfl
  | succ v ih =>
    rw [edRun, Sync.run_succ, ← edRun, ih (by omega), h.step v, edInputs,
      if_pos (show v < t from hv)]
    rfl

/-- What the registers say about the verdict. -/
def Verdict (regs : BitVec 5 → Word) : Prop :=
  SameRatios (signaturePoint (regs 23)) (hashPoint (hashOf regs) (regs 21) (regs 20))

/-- The write port is quiet when the core starts. -/
theorem Underway.regs_succ {regs : BitVec 5 → Word} (h : Underway r regs u t) (hrun : IsRun r i) :
    (r (u + 1)).ed.regs = regs := by
  have hwe : (r u).ed.finalWe (r u).edIn = false := by
    rw [EdTop.finalWe, if_pos h.idle]
    exact h.extWe
  rw [hrun.step u, ← h.regs]
  change (if (r u).ed.finalWe (r u).edIn = true then _ else _) = _
  rw [hwe, if_neg Bool.false_ne_true]

/-- **ST_DONE shows the verdict of the words that were loaded.** -/
theorem Verifying.verdict {regs : BitVec 5 → Word} (h : Verifying r regs t) (hrun : IsRun r i)
    (hp : Preloaded regs) (hs : (r t).orch.state = .done) :
    (r t).verifyDoneO = true ∧ ((r t).signatureValidO = true ↔ Verdict regs) := by
  cases h with
  | waits hs' hc hregs hw =>
    rcases hs' with hs' | ⟨hs', -⟩
    · exact absurd (hs.symm.trans hs') (by simp)
    · exact absurd (hs.symm.trans hs') (by simp)
  | started u h =>
    obtain ⟨-, hdone⟩ : (r t).orch.state = .done ∧ (r t).edDone = true :=
      h.state.resolve_left fun hc => absurd (hs.symm.trans hc) (by simp)
    have hlt : u < t := by
      refine Nat.lt_of_le_of_ne h.le fun he => ?_
      subst he
      simp [TopMost.edDone, MasterFsm.verifyDone, h.idle] at hdone
    have heq {v : ℕ} (hv : v ≤ t) : edRun r t v = (r v).ed := edRun_eq hrun hv
    have hregs : (edRun r t (u + 1)).regs = regs := by
      rw [heq hlt]
      exact h.regs_succ hrun
    obtain ⟨sha, rs, h0⟩ := hrun.reset
    have hreset : edRun r t 0 = EdTop.reset rs := by
      rw [heq (Nat.zero_le t), h0]
      rfl
    obtain ⟨T, hT, hbefore, hafter⟩ := EdTop.verify_verdict (r := edRun r t) (i := edInputs r t)
      (t := u) (fun _ => rfl) hreset (by rw [heq h.le]; exact h.idle)
      (by rw [edInputs, if_pos hlt]; exact h.start) (by rw [hregs]; exact hp) (fun v hv _ => by
        rw [edInputs]
        split_ifs with hvt
        · exact h.dsel v hv.le hvt.le
        · rfl)
    rw [hregs] at hafter
    have hTt : T ≤ t := by
      by_contra hc
      have hnot := (hbefore t hlt (by omega)).1
      rw [heq le_rfl] at hnot
      exact absurd (hnot.symm.trans hdone) Bool.false_ne_true
    obtain ⟨-, hvalid⟩ := hafter t hTt
    rw [heq le_rfl] at hvalid
    exact ⟨hdone, hvalid⟩

/-- ST_DONE comes after the loading. -/
theorem Steady.le_of_done (h : Steady r i t u) (hl : LoadsNext (r t)) (htu : t ≤ u)
    (hd : (r u).orch.state = .done) : t + 18 ≤ u := by
  by_contra hc
  obtain ⟨j, rfl⟩ := Nat.exists_eq_add_of_le htu
  have hs := (loading h hl (show j ≤ 17 by omega) le_rfl).1
  exact absurd (hs.symm.trans hd) (by simp)

/-- The verdict on a scalar, the encoding of `R`, the encoding of `A` and a hash. -/
def Accepted (s encR encA : Word) (h : BitVec 512) : Prop :=
  SameRatios (signaturePoint s) (hashPoint h.toNat encA encR)

/-- **What ST_DONE shows**: the hash, and the verdict on the words that were loaded. -/
theorem Steady.outcome (h : Steady r i t u) (hrun : IsRun r i) (hl : LoadsNext (r t))
    (hc : Calm (r t)) (htu : t ≤ u) (hd : (r u).orch.state = .done) :
    (r u).verifyDoneO = true ∧ (r u).orch.hashReg = (r t).orch.hashReg ∧
      ((r u).signatureValidO = true ↔ Accepted (r (t + 12)).csr.sReg (r (t + 13)).csr.rReg
        (r t).orch.pubkeyReg (r t).orch.hashReg) := by
  have hle := h.le_of_done hl htu hd
  have hprimed := h.primed hl hc hle
  have hv := (h.verifying hl hc hle).run (h.part (by omega) le_rfl) hle le_rfl
  obtain ⟨hdone, hvalid⟩ := hv.verdict hrun hprimed.preloaded hd
  refine ⟨hdone, (h.kept (.inl hl.state) htu le_rfl).2.2, hvalid.trans ?_⟩
  rw [Verdict, Accepted, hprimed.scalar, hprimed.encR, hprimed.encA, hprimed.hash]

/-! ## Progress -/

section Progress

variable {regs : BitVec 5 → Word} (hrun : IsRun r i) (hx : ∀ u, t ≤ u → Undisturbed (i u))
include hrun hx

theorem Verifying.always (h : Verifying r regs t) (hu : t ≤ u) : Verifying r regs u :=
  h.run (hrun.steady fun v hv _ => hx v hv) hu le_rfl

theorem Underway.always (h : Underway r regs u t) {v : ℕ} (hv : t ≤ v) : Underway r regs u v := by
  induction v, hv using Nat.le_induction with
  | base => exact h
  | succ v hv ih => exact ih.step (hrun.step v) (hx v hv)

/-- The core is started once `start_verify_i` has come. -/
theorem Verifying.starts (h : Verifying r regs t) (hu : t ≤ u) (hs : (i u).startVerify = true) :
    ∃ v w, t ≤ w ∧ Underway r regs v w := by
  -- in ST_WAIT_START the request is seen
  have hleft : ∃ v, t ≤ v ∧ (r v).orch.state ≠ .waitStart := by
    by_cases hw : (r u).orch.state = .waitStart
    · have hq := orch_waitStart (hx u hu) hw
      simp only [hs, Bool.or_true, if_true] at hq
      refine ⟨u + 1, by omega, ?_⟩
      rw [hrun.step u, hq]
      simp
    · exact ⟨u, hu, hw⟩
  obtain ⟨v, hv, hne⟩ := hleft
  rcases h.always hrun hx hv with ⟨hst, hc, hr, hw⟩ | ⟨u', h'⟩
  · obtain ⟨hst, -⟩ := hst.resolve_left hne
    have hq := orch_edStart (hx v hv) hst
    rcases h.always hrun hx (show t ≤ v + 1 by omega) with ⟨hst', -⟩ | ⟨u', h'⟩
    · rw [hrun.step v, hq] at hst'
      simp at hst'
    · exact ⟨u', v + 1, by omega, h'⟩
  · exact ⟨u', v, hv, h'⟩

/-- **Every verification ends** in ST_DONE, once `start_verify_i` has come. -/
theorem Verifying.ends (h : Verifying r regs t) (hp : Preloaded regs) (hu : t ≤ u)
    (hs : (i u).startVerify = true) : ∃ v, t ≤ v ∧ (r v).orch.state = .done := by
  obtain ⟨v, w, hw, h'⟩ := h.starts hrun hx hu hs
  have hall {y : ℕ} (hy : w ≤ y) : Underway r regs v y :=
    h'.always hrun (fun z hz => hx z (by omega)) hy
  obtain ⟨sha, rs, h0⟩ := hrun.reset
  have hreset : (r 0).ed = EdTop.reset rs := congrArg TopMost.ed h0
  obtain ⟨T, hT, -, hafter⟩ := EdTop.verify_verdict (r := fun y => (r y).ed)
    (i := fun y => (r y).edIn) (t := v)
    (fun y => congrArg TopMost.ed (hrun.step y)) hreset h'.idle h'.start
    (by rw [h'.regs_succ hrun]; exact hp)
    (fun y hy _ => (hall (le_max_left w y)).dsel y hy.le (le_max_right w y))
  obtain ⟨y, hwy, hTy⟩ : ∃ y, w ≤ y ∧ T ≤ y := ⟨max w T, le_max_left w T, le_max_right w T⟩
  have hdone : (r y).edDone = true := (hafter y hTy).1
  rcases (hall hwy).state with hst | ⟨hst, -⟩
  · have hq := orch_edWait (hx y (by omega)) hst
    refine ⟨y + 1, by omega, ?_⟩
    rw [hrun.step y, hq]
    exact if_pos hdone
  · exact ⟨y, by omega, hst⟩

end Progress

end TopMost

end SentinelSoc
