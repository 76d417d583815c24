/-
  R is read twice: its words are fed to the SHA core, and hundreds of cycles later the whole
  register is written to register 20 of the Ed25519 core.

  * `LoadsR`: the two reads of one session;
  * `Past`: what a state of the main state machine says about the cycles before;
  * `same_r`: both read the same value if no R_IN write comes between them.
-/
import SentinelSoc.Crypto.Loading

namespace SentinelSoc

namespace TopMost

variable {r : ℕ → TopMost} {i : ℕ → TopIn} {m : Message} {t t₁ t₂ : ℕ}

/-- The session that is under way in cycle `t` began to feed R in cycle `t₁`. -/
structure Began (r : ℕ → TopMost) (i : ℕ → TopIn) (t₁ t : ℕ) : Prop where
  le : t₁ ≤ t
  state : (r t₁).orch.state = .feedR
  rIdx : (r t₁).orch.rIdx = 0
  undisturbed : ∀ u, t₁ ≤ u → u < t → Undisturbed (i u)

/-- One session: `t₁` is its first cycle in ST_FEED_R, `t₂` the cycle of ST_LOAD_REGS that writes
    register 20. -/
structure LoadsR (r : ℕ → TopMost) (i : ℕ → TopIn) (t₁ t₂ : ℕ) : Prop where
  began : Began r i t₁ t₂
  state : (r t₂).orch.state = .loadRegs
  loadIdx : (r t₂).orch.loadIdx = 13
  undisturbed : Undisturbed (i t₂)

theorem Began.succ (h : Began r i t₁ t) (hx : Undisturbed (i t)) : Began r i t₁ (t + 1) where
  le := h.le.trans (Nat.le_succ t)
  state := h.state
  rIdx := h.rIdx
  undisturbed u hu hut := by
    rcases Nat.lt_succ_iff_lt_or_eq.1 hut with hlt | rfl
    · exact h.undisturbed u hu hlt
    · exact hx

/-! ## The cycles before -/

/-- Register 20 has been written in the session, if `load_idx` is past it. -/
def PastLoad (r : ℕ → TopMost) (i : ℕ → TopIn) (t : ℕ) : Prop :=
  (r t).orch.loadIdx.toNat ≤ 17 ∧ ∃ t₁, Began r i t₁ t ∧
    (13 < (r t).orch.loadIdx.toNat → ∃ t₂, t₂ < t ∧ LoadsR r i t₁ t₂)

/-- What the state in cycle `t` says about the cycles before. -/
def Past (r : ℕ → TopMost) (i : ℕ → TopIn) (t : ℕ) : TopFsm → Prop
  | .idle => True
  | .shaCfgLen | .shaCfgCtrl | .shaPoll => (r t).orch.rIdx = 0
  | .loadRegs => PastLoad r i t
  | .feedR | .otpReq | .otpLatch | .blkPollOtp | .waitData | .blkPoll | .waitIntr | .readHash
  | .readHashLast | .waitStart | .edStart | .edWait | .done => ∃ t₁, Began r i t₁ t

/-- ST_LOAD_REGS goes on. -/
theorem PastLoad.succ (h : PastLoad r i t) (hs : (r t).orch.state = .loadRegs)
    (hr : r (t + 1) = (r t).step (i t)) (hx : Undisturbed (i t)) :
    Past r i (t + 1) (r (t + 1)).orch.state := by
  obtain ⟨hle, t₁, hb, hload⟩ := h
  obtain ⟨hst, hidx⟩ := load_step hs hr hx
  rw [hst]
  split_ifs with h17
  · exact ⟨t₁, hb.succ hx⟩
  · have hne : (r t).orch.loadIdx.toNat ≠ 17 := fun hc => h17 (BitVec.eq_of_toNat_eq hc)
    have hnat : (r (t + 1)).orch.loadIdx.toNat = (r t).orch.loadIdx.toNat + 1 := by
      rw [hidx]
      exact BitVec.toNat_add_of_lt (show (r t).orch.loadIdx.toNat + 1 < 2 ^ 5 by omega)
    refine ⟨by omega, t₁, hb.succ hx, fun hgt => ?_⟩
    by_cases h13 : (r t).orch.loadIdx.toNat = 13
    · exact ⟨t, Nat.lt_succ_self t, hb, hs, BitVec.eq_of_toNat_eq h13, hx⟩
    · obtain ⟨t₂, ht₂, hl⟩ := hload (by omega)
      exact ⟨t₂, by omega, hl⟩

/-- One cycle. -/
theorem Past.succ (h : Past r i t (r t).orch.state) (hr : r (t + 1) = (r t).step (i t)) :
    Past r i (t + 1) (r (t + 1)).orch.state := by
  by_cases hx : Undisturbed (i t)
  · have hq := orch_step (s := r t) hx
    rw [← hr] at hq
    rcases hs : (r t).orch.state
    all_goals
      have hs' : ((r t).orch.defaults ((r t).orchIn (i t))).state = (r t).orch.state := rfl
      rw [hs] at h hs'
    case loadRegs => exact PastLoad.succ h hs hr hx
    all_goals simp only [Orch.advance, hs'] at hq
    case idle =>
      split_ifs at hq
      · rw [hq]
        exact congrArg Orch.rIdx hq
      · rw [show (r (t + 1)).orch.state = .idle by rw [hq]; exact hs]
        trivial
    case shaCfgLen | shaCfgCtrl =>
      rw [show (r (t + 1)).orch.state = _ from congrArg Orch.state hq]
      exact (congrArg Orch.rIdx hq).trans h
    case shaPoll =>
      have hidx : (r (t + 1)).orch.rIdx = 0 := (congrArg Orch.rIdx hq).trans h
      have hst := congrArg Orch.state hq
      simp only at hst
      split_ifs at hst with hd
      · -- the first cycle in ST_FEED_R
        rw [hst]
        exact ⟨t + 1, le_rfl, hst, hidx, fun u hu hut => absurd hut (by omega)⟩
      · rw [hst]
        exact hidx
    case readHashLast =>
      obtain ⟨t₁, hb⟩ := h
      have hidx : (r (t + 1)).orch.loadIdx = 0 := congrArg Orch.loadIdx hq
      rw [show (r (t + 1)).orch.state = _ from congrArg Orch.state hq]
      exact ⟨by simp [hidx], t₁, hb.succ hx, by simp [hidx]⟩
    all_goals
      obtain ⟨t₁, hb⟩ := h
      have hst := congrArg Orch.state hq
      have hb' := hb.succ hx
      simp only [apply_ite Orch.state, Orch.feed, hs'] at hst
      try split_ifs at hst
    all_goals
      rw [hst]
      exact ⟨t₁, hb'⟩
  · have hst : (r (t + 1)).orch.state = .idle := by
      rw [hr, orch_abort hx]
      rfl
    rw [hst]
    trivial

theorem IsRun.past (h : IsRun r i) (t : ℕ) : Past r i t (r t).orch.state := by
  induction t with
  | zero =>
    obtain ⟨sha, regs, h0⟩ := h.reset
    rw [h0]
    trivial
  | succ t ih => exact ih.succ (h.step t)

/-- ST_LOAD_REGS is left after register 20 has been written, or by an abort before. -/
theorem IsRun.leaves (h : IsRun r i) (hs : (r t).orch.state = .loadRegs)
    (hl : (r (t + 1)).orch.state ≠ .loadRegs) :
    (∃ t₁ t₂, t₂ < t ∧ LoadsR r i t₁ t₂ ∧ Began r i t₁ t) ∨
      (¬ Undisturbed (i t) ∧ (r t).orch.loadIdx.toNat ≤ 13) := by
  have hp := h.past t
  rw [hs] at hp
  obtain ⟨-, t₁, hb, hload⟩ : PastLoad r i t := hp
  by_cases h13 : 13 < (r t).orch.loadIdx.toNat
  · obtain ⟨t₂, ht₂, hload⟩ := hload h13
    exact .inl ⟨t₁, t₂, ht₂, hload, hb⟩
  · refine .inr ⟨fun hx => hl ?_, by omega⟩
    rw [(load_step hs (h.step t) hx).1, if_neg]
    rintro h17
    rw [h17] at h13
    exact h13 (by decide)

theorem IsRun.began (h : IsRun r i) (hs : (r t).orch.state = .loadRegs) : ∃ t₁, Began r i t₁ t := by
  have hp := h.past t
  rw [hs] at hp
  obtain ⟨-, t₁, hb, -⟩ : PastLoad r i t := hp
  exact ⟨t₁, hb⟩

/-! ## The two reads -/

/-- The words that enter the SHA core from the eight cycles of ST_FEED_R. -/
def fedR (r : ℕ → TopMost) (t₁ : ℕ) : List (BitVec 32) :=
  List.ofFn fun j : Fin 8 => (r (t₁ + j + 1)).orch.shaWdata

/-- The words of a 256-bit value, the lowest first. -/
def valueWords (v : Word) : List (BitVec 32) :=
  List.ofFn fun j : Fin 8 => v.extractLsb' (j * 32) 32

/-- A cycle of ST_FEED_R. -/
theorem feedR_step (hs : (r t).orch.state = .feedR) (hr : r (t + 1) = (r t).step (i t))
    (hx : Undisturbed (i t)) :
    (r (t + 1)).orch.state = (if (r t).orch.rIdx = 7 then .otpReq else .feedR) ∧
      (r (t + 1)).orch.rIdx = (r t).orch.rIdx + 1 ∧ (r (t + 1)).arrives = true ∧
      (r (t + 1)).orch.shaWdata =
        (r t).csr.rReg.extractLsb' ((r t).orch.rIdx.toNat * 32) 32 := by
  have hq := orch_feedR hx hs
  rw [hr, hq]
  refine ⟨rfl, rfl, ?_, rfl⟩
  have hlt : ((r t).orch.blkPtr.setWidth 6) < 32 := by
    rw [BitVec.lt_def, BitVec.toNat_setWidth]
    simp only [BitVec.toNat_ofNat, BitVec.ofNat_eq_ofNat]
    omega
  rw [arrives, hq]
  exact Bool.and_eq_true_iff.2 ⟨rfl, decide_eq_true hlt⟩

/-- The cycles in which a session feeds R. -/
theorem Began.feeds (hr : ∀ u, r (u + 1) = (r u).step (i u)) (h : Began r i t₁ t) {j : ℕ}
    (hj : j < 8) (hle : t₁ + j ≤ t) :
    (r (t₁ + j)).orch.state = .feedR ∧ (r (t₁ + j)).orch.rIdx = BitVec.ofNat 3 j := by
  induction j with
  | zero => exact ⟨h.state, h.rIdx⟩
  | succ j ih =>
    obtain ⟨hs, hi⟩ := ih (by omega) (by omega)
    obtain ⟨hst, hidx, -⟩ := feedR_step hs (hr _) (h.undisturbed _ (by omega) (by omega))
    have h7 : (r (t₁ + j)).orch.rIdx ≠ 7 := by
      rw [hi]
      intro hc
      have hn := congrArg BitVec.toNat hc
      simp only [BitVec.toNat_ofNat, BitVec.ofNat_eq_ofNat] at hn
      omega
    rw [if_neg h7] at hst
    refine ⟨hst, ?_⟩
    rw [← Nat.add_assoc, hidx, hi, BitVec.ofNat_add]
    rfl

namespace LoadsR

variable (h : LoadsR r i t₁ t₂) (hr : ∀ u, r (u + 1) = (r u).step (i u))
include h hr

theorem feeds {j : ℕ} (hj : j < 8) : t₁ + j < t₂ ∧ (r (t₁ + j)).orch.state = .feedR ∧
    (r (t₁ + j)).orch.rIdx = BitVec.ofNat 3 j := by
  induction j with
  | zero =>
    have hs := h.began.feeds hr hj h.began.le
    refine ⟨Nat.lt_of_le_of_ne h.began.le fun hc => ?_, hs⟩
    subst hc
    exact absurd (h.state.symm.trans h.began.state) (by simp)
  | succ j ih =>
    obtain ⟨hlt, -⟩ := ih (by omega)
    have hs := h.began.feeds hr hj (by omega)
    refine ⟨Nat.lt_of_le_of_ne (by omega) fun hc => ?_, hs⟩
    rw [hc] at hs
    exact absurd (h.state.symm.trans hs.1) (by simp)

/-- Word `j` of R is fed as the register has it in that cycle. -/
theorem fed {j : ℕ} (hj : j < 8) : (r (t₁ + j + 1)).arrives = true ∧
    (r (t₁ + j + 1)).orch.shaWdata = (r (t₁ + j)).csr.rReg.extractLsb' (j * 32) 32 := by
  obtain ⟨hlt, hs, hi⟩ := h.feeds hr hj
  obtain ⟨-, -, ha, hd⟩ := feedR_step hs (hr _) (h.began.undisturbed _ (by omega) hlt)
  have hn : (r (t₁ + j)).orch.rIdx.toNat = j := by
    rw [hi, BitVec.toNat_ofNat]
    omega
  rw [hn] at hd
  exact ⟨ha, hd⟩

/-- Register 20 gets the whole register. -/
theorem writes : Writes (r (t₂ + 1)) 20 (r t₂).csr.rReg :=
  load_writes h.state (hr t₂) h.undisturbed (show 13 < 17 by omega) h.loadIdx

/-- What is fed is what is loaded, if R is not written in between. -/
theorem same (hw : ∀ u, t₁ ≤ u → u < t₂ → (i u).rinWr = false) :
    fedR r t₁ = valueWords (r (t₂ + 1)).orch.edDin := by
  have hkeep (u : ℕ) (h₁ : t₁ ≤ u) (h₂ : u ≤ t₂) : (r t₂).csr.rReg = (r u).csr.rReg := by
    refine Sync.kept_between (f := fun v => (r v).csr.rReg) h₂ fun v hv hlt => ?_
    rw [hr]
    simp [TopMost.step, csrStep, hw v (by omega) hlt]
  rw [fedR, valueWords, (h.writes hr).din]
  congr 1
  funext j
  have hlt := (h.feeds hr j.isLt).1
  rw [(h.fed hr j.isLt).2, hkeep (t₁ + j) (by omega) hlt.le]

end LoadsR

/-! ## The loading of the registers -/

/-- ST_LOAD_REGS writes register 20 in its 14th cycle, and its 18th cycle is the last one. -/
theorem Began.loadsR (h : Began r i t₁ t) (hs : Steady r i t (t + 18)) (hl : LoadsNext (r t)) :
    LoadsR r i t₁ (t + 13) ∧ (r (t + 17)).orch.state = .loadRegs ∧
      (r (t + 17 + 1)).orch.state = .waitStart := by
  have h13 := loading hs hl (show 13 ≤ 17 by omega) (by omega)
  have h17 := loading hs hl (show 17 ≤ 17 by omega) (by omega)
  have hx (u : ℕ) (hu : t ≤ u) (hu₁ : u < t + 18) := hs.undisturbed u hu hu₁
  have hlast := (load_step h17.1 (hs.step (t + 17) (by omega) (by omega)) (hx _ (by omega)
    (by omega))).1
  rw [if_pos (show (r (t + 17)).orch.loadIdx = 17 from h17.2)] at hlast
  refine ⟨⟨⟨?_, h.state, h.rIdx, fun u hu hut => ?_⟩, h13.1, h13.2, hx _ (by omega) (by omega)⟩,
    h17.1, hlast⟩
  · exact h.le.trans (Nat.le_add_right t 13)
  · rcases Nat.lt_or_ge u t with hlt | hge
    · exact h.undisturbed u hu hlt
    · exact hx u hge (by omega)

/-! ## The R that is hashed and the R that is verified -/

/-- **The R that is fed is the R that is loaded**, in every session of every run from reset in
    which no R_IN write comes between the first word that is fed and the write of register 20.
    Without that condition each word is fed as the register has it in its cycle, and register 20
    gets what the register has later. -/
theorem same_r (h : IsRun r i) :
    (∀ t, (r t).orch.state = .loadRegs → (r (t + 1)).orch.state ≠ .loadRegs →
      (∃ t₁ t₂, t₂ < t ∧ LoadsR r i t₁ t₂ ∧ Began r i t₁ t) ∨
        (¬ Undisturbed (i t) ∧ (r t).orch.loadIdx.toNat ≤ 13)) ∧
    (∀ t₁ t₂, LoadsR r i t₁ t₂ →
      (∀ j < 8, t₁ + j < t₂ ∧ (r (t₁ + j)).orch.state = .feedR ∧ (r (t₁ + j + 1)).arrives = true ∧
        (r (t₁ + j + 1)).orch.shaWdata = (r (t₁ + j)).csr.rReg.extractLsb' (j * 32) 32) ∧
      Writes (r (t₂ + 1)) 20 (r t₂).csr.rReg ∧
      ((∀ u, t₁ ≤ u → u < t₂ → (i u).rinWr = false) →
        fedR r t₁ = valueWords (r (t₂ + 1)).orch.edDin)) ∧
    (∀ m t₀ t₁ t₂, Runs r i m t₀ t₂ → t₀ ≤ t₁ → LoadsR r i t₁ t₂ →
      (r (t₂ + 1)).orch.edDin.toNat = leInt (wordBytes m.r) ∧
        (r t₂).orch.hashReg.toNat =
          leInt (wordBytes (Sha512.hash
            (wordBytes (m.r ++ m.keyWords ++ m.data))).halves)) := by
  refine ⟨fun t hs hl => h.leaves hs hl, fun t₁ t₂ hl => ⟨fun j hj => ?_, hl.writes h.step, ?_⟩, ?_⟩
  · obtain ⟨hlt, hs, -⟩ := hl.feeds h.step hj
    exact ⟨hlt, hs, hl.fed h.step hj⟩
  · exact hl.same h.step
  · intro m t₀ t₁ t₂ hr ht hl
    have hlt : t₀ < t₂ := by
      have hlt' := (hl.feeds h.step (show 0 < 8 by omega)).1
      omega
    refine ⟨?_, (hr.loaded hlt (.inl hl.state)).1.hash⟩
    rw [(hl.writes h.step).din]
    exact (hr.rReg hlt.le le_rfl).eq (by rw [m.length_r])

theorem bootRun_enters : ∃ t, 17 < t ∧ LoadsNext (bootRun t) ∧
    ∀ u, 17 ≤ u → u < t → ¬ IsLoaded (bootRun u).orch.state :=
  Runs.enters bootRun_boots.runs fun _ _ hr => bootRun_answers hr

theorem same_r_bootRun : ∃ t₁ t₂, LoadsR bootRun (drivenIn bootIn) t₁ t₂ ∧
    fedR bootRun t₁ = valueWords (bootRun (t₂ + 1)).orch.edDin := by
  have hb := bootRun_boots
  obtain ⟨t, ht, hl, -⟩ := bootRun_enters
  obtain ⟨t₁, hbegan⟩ := hb.run.began hl.state
  obtain ⟨hlr, -⟩ := hbegan.loadsR (hb.run.steady fun u _ _ => hb.undisturbed u) hl
  obtain ⟨-, hsame, -⟩ := same_r hb.run
  have hlt : 17 < t₁ := by
    by_contra hc
    have hrest := (hb.rest (show t₁ ≤ 17 by omega)).state
    exact absurd (hrest.symm.trans hbegan.state) (by simp)
  exact ⟨t₁, t + 13, hlr, (hsame t₁ (t + 13) hlr).2.2 fun u hu _ => hb.rDone u (by omega)⟩

/-! ## An R_IN write after the words are fed -/

/-- Firmware writes one more word of R in the first cycle of ST_LOAD_REGS. -/
def lateIn (t k : ℕ) (s : TopMost) : TopIn :=
  if s.orch.state = .loadRegs ∧ s.orch.loadIdx = 0 then
    { bootIn t k s with csr := ⟨true, 0x00C, true, 0xF, 9⟩ }
  else bootIn t k s

def lateRun : ℕ → TopMost := drivenRun lateIn

theorem lateRun_isRun : IsRun lateRun (drivenIn lateIn) := drivenRun_isRun lateIn

theorem undisturbed_lateIn (t k : ℕ) (s : TopMost) : Undisturbed (lateIn t k s) := by
  rw [lateIn]
  split_ifs
  · rfl
  · exact undisturbed_bootIn t k s

theorem lateRun_steady (t t₁ : ℕ) : Steady lateRun (drivenIn lateIn) t t₁ :=
  lateRun_isRun.steady fun u _ _ => undisturbed_lateIn u _ _

/-- The run before the write. -/
theorem lateRun_eq {t : ℕ} (h : ∀ u < t, ¬ IsLoaded (bootRun u).orch.state) :
    driven lateIn t = driven bootIn t := by
  induction t with
  | zero => rfl
  | succ t ih =>
    have ht := ih fun u hu => h u (by omega)
    have hin : lateIn t (driven bootIn t).2 (driven bootIn t).1 =
        bootIn t (driven bootIn t).2 (driven bootIn t).1 :=
      if_neg fun hc => h t (Nat.lt_succ_self t) (.inl hc.1)
    rw [driven, ht, hin, driven]

/-- The word that firmware writes late stays in the register. -/
theorem lateRun_rReg {t j : ℕ} (h8 : 8 ≤ t) (hl : LoadsNext (lateRun t)) (hj : j ≤ 16) :
    (lateRun (t + 1 + j)).csr.rReg = shiftWord 224 (lateRun t).csr.rReg (byteSwap 9) := by
  induction j with
  | zero =>
    have hin : (drivenIn lateIn t).rinWr = true ∧ (drivenIn lateIn t).csr.wdata = 9 := by
      rw [drivenIn, lateIn, if_pos ⟨hl.state, hl.loadIdx⟩]
      exact ⟨rfl, rfl⟩
    rw [Nat.add_zero, lateRun_isRun.step]
    simp [TopMost.step, csrStep, hin.1, hin.2]
  | succ j ih =>
    have hload := loading (lateRun_steady t (t + 18)) hl (show 1 + j ≤ 17 by omega) (by omega)
    have hin : (drivenIn lateIn (t + 1 + j)).rinWr = false := by
      rw [drivenIn, lateIn, if_neg, rinWr_bootIn (by omega)]
      rintro ⟨-, hc⟩
      rw [Nat.add_assoc] at hc
      replace hc := hload.2.symm.trans hc
      have hn := congrArg BitVec.toNat hc
      simp only [BitVec.toNat_ofNat, BitVec.ofNat_eq_ofNat] at hn
      omega
    rw [← ih (by omega), ← Nat.add_assoc, lateRun_isRun.step]
    simp [TopMost.step, csrStep, hin]

/-- The last word of R is 8 when it is hashed and 9 when it is verified. -/
theorem late_r : ∃ t₁ t₂ t, IsRun lateRun (drivenIn lateIn) ∧
    LoadsR lateRun (drivenIn lateIn) t₁ t₂ ∧ t₂ < t ∧
    (lateRun t).orch.state = .loadRegs ∧ (lateRun (t + 1)).orch.state = .waitStart ∧
    fedR lateRun t₁ ≠ valueWords (lateRun (t₂ + 1)).orch.edDin := by
  have hb := bootRun_boots
  have hrun := lateRun_isRun
  obtain ⟨t, ht, hl, hno⟩ := bootRun_enters
  have hno' (u : ℕ) (hu : u < t) : ¬ IsLoaded (bootRun u).orch.state := by
    rcases Nat.lt_or_ge u 17 with hlt | hge
    · rw [(hb.rest hlt.le).state]
      simp [IsLoaded]
    · exact hno u hge hu
  have heq {u : ℕ} (hu : u ≤ t) : lateRun u = bootRun u :=
    congrArg Prod.fst (lateRun_eq fun v hv => hno' v (by omega))
  rw [← heq le_rfl] at hl
  obtain ⟨t₁, hbegan⟩ := hrun.began hl.state
  obtain ⟨hlr, hleave⟩ := hbegan.loadsR (lateRun_steady t _) hl
  refine ⟨t₁, t + 13, t + 17, hrun, hlr, by omega, hleave.1, hleave.2, fun hc => ?_⟩
  -- the last word of R
  obtain ⟨hlt, hfeed, -⟩ := hlr.feeds hrun.step (show 7 < 8 by omega)
  have hbefore : t₁ + 7 < t := by
    by_contra hge
    obtain ⟨j, hj⟩ : ∃ j, t₁ + 7 = t + j := ⟨t₁ + 7 - t, by omega⟩
    rw [hj] at hfeed
    have hload := loading (lateRun_steady t (t + 18)) hl (j := j) (by omega) (by omega)
    exact absurd (hload.1.symm.trans hfeed) (by simp)
  have hfed : (lateRun (t₁ + 7 + 1)).orch.shaWdata = byteSwap 8 := by
    have h17 : 17 ≤ t₁ + 7 := by
      by_contra hc
      rw [heq hbefore.le, (hb.rest (show t₁ + 7 ≤ 17 by omega)).state] at hfeed
      exact absurd hfeed (by simp)
    rw [(hlr.fed hrun.step (show 7 < 8 by omega)).2, heq hbefore.le,
      ((hb.runs _).rReg h17 le_rfl).word rfl (show 7 < 8 by omega)]
    rfl
  have hloaded : (lateRun (t + 13 + 1)).orch.edDin.extractLsb' (7 * 32) 32 = byteSwap 9 := by
    rw [(hlr.writes hrun.step).din, show t + 13 = t + 1 + 12 by omega,
      lateRun_rReg (by omega) hl (by omega)]
    exact BitVec.extractLsb'_append_eq_left
  have h7 := congrFun (List.ofFn_injective hc) ⟨7, by omega⟩
  exact absurd ((hfed.symm.trans h7).trans hloaded) (by decide)

end TopMost

end SentinelSoc
