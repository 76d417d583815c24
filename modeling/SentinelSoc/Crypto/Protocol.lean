/-
  The protocol of firmware, and what a session delivers under it.

  * `Boots`: R, S and MSG_LEN are written, then CTRL.start, then a word of the message
    whenever STATUS shows that the orchestrator is ready for one;
  * `delivered`: the words that arrive in the SHA core;
  * `boot_delivers`: they are R, the key and the message, each once and in order, and the
    registers get the integers that Ed25519 is about.
-/
import SentinelSoc.Crypto.Session

namespace SentinelSoc

namespace TopMost

variable {m : Message} {s : TopMost} {x : TopIn} {k n : ℕ}

/-! ## Before and after -/

/-- No session is under way. -/
structure AtRest (s : TopMost) : Prop where
  state : s.orch.state = .idle
  wen : s.orch.shaWen = false
  sha : s.sha.Idle
  pending : s.csr.dataPending = false

theorem atRest_reset (sha : ShaCore) (regs : BitVec 5 → Word) : AtRest (reset sha regs) where
  state := rfl
  wen := rfl
  sha := ⟨rfl, rfl⟩
  pending := rfl

theorem AtRest.step (h : AtRest s) (hx : Undisturbed x) (hc : x.ctrlStartW = false)
    (hd : x.datainWr = false) : AtRest (s.step x) := by
  have hq := orch_idle hx h.state hc
  exact
    { state := by rw [hq]; exact h.state
      wen := by rw [hq]; rfl
      sha := h.sha.step (ShaCore.prepStart_quiet h.wen)
      pending := by simp [TopMost.step, csrStep, hd, h.state, h.pending] }

/-- CTRL.start begins a session. -/
theorem AtRest.start (h : AtRest s) (hx : Undisturbed x) (hc : x.ctrlStartW = true)
    (hl : s.csr.msgLenCsr = BitVec.ofNat 32 m.fed.length) :
    InSession m (s.step x) 0 (wordCost m 0 + 7) := by
  have hq := orch_start hx h.state hc
  exact
    { counted := by rw [hq]; exact ⟨hl, rfl, rfl, Nat.zero_le _⟩
      key := Shifted.nil _
      stage := .cfgLen (by rw [hq]) (h.sha.step (ShaCore.prepStart_quiet h.wen)) (by rw [hq]; rfl)
        (by rw [hq]) (by rw [hq]) }

/-- The orchestrator is about to load the registers. -/
structure LoadsNext (s : TopMost) : Prop where
  state : s.orch.state = .loadRegs
  loadIdx : s.orch.loadIdx = 0

/-- From the loading of the registers on key and digest stay. -/
theorem IsLoaded.step (h : IsLoaded s.orch.state) (hx : Undisturbed x) :
    IsLoaded (s.step x).orch.state ∧ (s.step x).orch.shaWen = false ∧
      (s.step x).orch.pubkeyReg = s.orch.pubkeyReg ∧ (s.step x).orch.hashReg = s.orch.hashReg := by
  rcases h with hs | hs | hs | hs | hs
  · rw [orch_loadRegs hx hs]
    refine ⟨?_, rfl, rfl, rfl⟩
    change IsLoaded (if s.orch.loadIdx = 17 then .waitStart else .loadRegs)
    split_ifs
    · exact .inr (.inl rfl)
    · exact .inl rfl
  · rw [orch_waitStart hx hs]
    refine ⟨?_, rfl, rfl, rfl⟩
    simp only
    split_ifs
    · exact .inr (.inr (.inl rfl))
    · exact .inr (.inl rfl)
  · rw [orch_edStart hx hs]
    exact ⟨.inr (.inr (.inr (.inl rfl))), rfl, rfl, rfl⟩
  · rw [orch_edWait hx hs]
    refine ⟨?_, rfl, rfl, rfl⟩
    simp only
    split_ifs
    · exact .inr (.inr (.inr (.inr rfl)))
    · exact .inr (.inr (.inr (.inl rfl)))
  · rw [orch_done hx hs]
    exact ⟨.inr (.inr (.inr (.inr hs))), rfl, rfl, rfl⟩

/-- What is loaded stays. -/
theorem Loaded.step (h : Loaded m s) (hx : Undisturbed x) : Loaded m (s.step x) := by
  obtain ⟨hst, hw, hk, hh⟩ := h.state.step hx
  exact
    { state := hst
      wen := hw
      finished := h.finished.step h.wen
      key := by rw [hk]; exact h.key
      hash := by rw [hh]; exact h.hash }

theorem InSession.not_isLoaded (h : InSession m s k n) : ¬ IsLoaded s.orch.state := by
  have hst := h.stage
  cases hst <;> simp_all [IsLoaded]

theorem Loaded.not_ready (h : Loaded m s) : s.readyBit = false := by
  rcases h.state with hs | hs | hs | hs | hs <;> simp [readyBit, hs]

/-! ## The Ed25519 core and the memory -/

/-- The Ed25519 core has been started, and the memory is not read any more. -/
structure Started (s : TopMost) : Prop where
  state : s.orch.state = .edWait ∨ s.orch.state = .done
  otpRdEn : s.orch.otpRdEn = false

theorem Started.step (h : Started s) (hx : Undisturbed x) : Started (s.step x) := by
  rcases h.state with hs | hs
  · have hq := orch_edWait hx hs
    refine ⟨?_, by rw [hq]; rfl⟩
    rw [hq]
    simp only
    split_ifs
    · exact .inr rfl
    · exact .inl rfl
  · have hq := orch_done hx hs
    exact ⟨.inr (by rw [hq]; exact hs), by rw [hq]; rfl⟩

/-- ST_ED_START starts the core. -/
theorem Calm.next (h : Calm s) (hx : Undisturbed x) : Calm (s.step x) ∨ Started (s.step x) := by
  by_cases hs : s.orch.state = .edStart
  · have hq := orch_edStart hx hs
    exact .inr ⟨.inl (by rw [hq]), by rw [hq]; rfl⟩
  · exact .inl (h.step hx hs)

/-- While the memory is read the core has not been started. -/
theorem calm_of_otpRdEn {r : ℕ → TopMost} {i : ℕ → TopIn} {t₀ t : ℕ} (h : Calm (r t₀))
    (ht : t₀ ≤ t) (hr : ∀ u, t₀ ≤ u → u < t → r (u + 1) = (r u).step (i u) ∧ Undisturbed (i u))
    (he : (r t).orch.otpRdEn = true) : Calm (r t) := by
  have hrun : Calm (r t) ∨ Started (r t) := by
    clear he
    induction t, ht using Nat.le_induction with
    | base => exact .inl h
    | succ t ht ih =>
      obtain ⟨hstep, hx⟩ := hr t ht (Nat.lt_succ_self t)
      rw [hstep]
      rcases ih fun u hu hut => hr u hu (by omega) with hc | hs
      · exact hc.next hx
      · exact .inr (hs.step hx)
  refine hrun.resolve_right fun hs => ?_
  exact absurd (hs.otpRdEn.symm.trans he) Bool.false_ne_true

/-- The memory gives the key until the core is started. -/
theorem Calm.otpData {m : Message} (h : Calm s) (he : s.orch.otpRdEn = true)
    (hx : x.otpData = otpRdData m.key s.bootActiveO s.orch.otpRdEn s.otpAddrO) :
    x.otpData = m.key.extractLsb' (s.otpAddrO.toNat * 32) 32 := by
  rw [hx, otpRdData, h.bootActiveO, he]
  rfl

/-! ## The data register -/

/-- `c` words of the message have been written; the last one may still be pending. -/
def Mail (m : Message) (s : TopMost) (k c : ℕ) : Prop :=
  s.csr.dataPending = false ∧ c = k - 16 ∨
    s.csr.dataPending = true ∧ s.orch.state = .waitData ∧ c = k - 16 + 1 ∧
      s.csr.dataInReg = m.data.getD (k - 16) 0

/-- While the orchestrator waits nothing moves. -/
theorem Waits.step (h : s.Waits) (hx : Undisturbed x) :
    (s.step x).orch.state = .waitData ∧ (s.step x).orch.shaFed = s.orch.shaFed := by
  rw [orch_waitData hx h.1 h.2]
  exact ⟨h.1, rfl⟩

/-- The counter tells the number of words. -/
theorem Counted.unique {q q' : Orch} {k' : ℕ} (h : Counted m q k) (h' : Counted m q' k')
    (hq : q'.shaFed = q.shaFed) : k' = k := by
  have hlt := m.length_fed_lt
  have h1 := h.le
  have h2 := h'.le
  rw [h.fed, h'.fed, BitVec.toNat_eq] at hq
  simp only [BitVec.toNat_ofNat] at hq
  omega

theorem readyBit_iff : s.readyBit = true ↔ s.Waits := by
  simp [readyBit, Waits]

theorem Mail.step {k' n' c : ℕ} (h : Mail m s k c) (hi : InSession m s k n)
    (hg : Goes m s x k n k' n') (hx : Undisturbed x) (hr : x.datainWr = true → s.readyBit = true)
    (hd : x.datainWr = true → x.csr.wdata = m.data.getD c 0) :
    Mail m (s.step x) k' (c + if x.datainWr = true then 1 else 0) := by
  have hpend : (s.step x).csr.dataPending =
      if x.datainWr then true else if s.takes then false else s.csr.dataPending := rfl
  have htakes := hg.takes
  by_cases hw : x.datainWr = true
  · have hwait := readyBit_iff.1 (hr hw)
    obtain ⟨hst, hfed⟩ := hwait.step hx
    obtain rfl := hi.counted.unique hg.session.counted hfed
    have hc : c = k' - 16 := by
      rcases h with ⟨-, hc⟩ | ⟨hp, -⟩
      · exact hc
      · exact absurd (hwait.2.symm.trans hp) Bool.false_ne_true
    refine .inr ⟨by rw [hpend, hw]; rfl, hst, by rw [if_pos hw, hc], ?_⟩
    have hin : (s.step x).csr.dataInReg = x.csr.wdata := by simp [TopMost.step, csrStep, hw]
    rw [hin, hd hw, hc]
  · rw [Bool.not_eq_true] at hw
    rw [hw, if_neg Bool.false_ne_true] at hpend ⊢
    rcases h with ⟨hp, hc⟩ | ⟨hp, hst, hc, -⟩
    · have ht : s.takes = false := by simp [TopMost.takes, hp]
      rw [ht] at hpend htakes
      exact .inl ⟨hpend.trans hp, by simpa [hc] using htakes.symm⟩
    · have ht : s.takes = true := by simp [TopMost.takes, hst, hp]
      rw [ht] at hpend htakes
      exact .inl ⟨hpend, by simpa [hc] using htakes.symm⟩

/-! ## What arrives in the SHA core -/

/-- A word arrives in the message schedule. -/
def arrives (s : TopMost) : Bool := s.orch.shaWen && s.orch.shaAddr < 32

/-- The words that have arrived from cycle `t₀` on, before cycle `t`. -/
def delivered (r : ℕ → TopMost) (t₀ : ℕ) : ℕ → List (BitVec 32)
  | 0 => []
  | t + 1 => delivered r t₀ t ++
      if t₀ ≤ t ∧ (r t).arrives = true then [(r t).orch.shaWdata] else []

/-- The words written with `w` from cycle `t₀` on, before cycle `t`. -/
def wordsOf (w : TopIn → Bool) (i : ℕ → TopIn) (t₀ : ℕ) : ℕ → List (BitVec 32)
  | 0 => []
  | t + 1 => wordsOf w i t₀ t ++ if t₀ ≤ t ∧ w (i t) = true then [(i t).csr.wdata] else []

theorem Receiving.gives {l : List (BitVec 32)} (h : Receiving l s k) (hw : s.orch.shaWen = true) :
    0 < k ∧ Gives l s (k - 1) := by
  cases h with
  | quiet b hs hf hw' => exact absurd (hw'.symm.trans hw) Bool.false_ne_true
  | word p b hk hs hf hg =>
    subst hk
    exact ⟨Nat.succ_pos p, hg⟩

/-- A word arrives while the SHA core receives, at the address of its position. -/
theorem InSession.gives (h : InSession m s k n) (ha : s.arrives = true) :
    s.sha.state = .recv ∧ 0 < k ∧ Gives m.fed s (k - 1) := by
  have hk := h.counted.le
  obtain ⟨hw, hlt⟩ : s.orch.shaWen = true ∧ s.orch.shaAddr < 32 := by
    simpa [arrives] using ha
  have hst := h.stage
  cases hst with
  | cfgLen hs hi hw' hr ho => exact absurd (hw'.symm.trans hw) Bool.false_ne_true
  | cfgCtrl hs hi hp hr ho =>
    have haddr : s.orch.shaAddr = 0x32 := congrArg ShaIn.addr hp
    rw [haddr] at hlt
    exact absurd hlt (by decide)
  | start hs hi hm hp hr ho =>
    have haddr : s.orch.shaAddr = 0x20 := congrArg ShaIn.addr hp
    rw [haddr] at hlt
    exact absurd hlt (by decide)
  | poll hs hf hp hr ho => exact ⟨hf.recv, hf.gives hw⟩
  | feedR _ hk hs hf hr ho => exact ⟨hf.recv, hf.gives hw⟩
  | otpReq j hj hs hf ho => exact ⟨hf.recv, hf.gives hw⟩
  | otpLatch j hj hs hf ho he => exact ⟨hf.recv, hf.gives hw⟩
  | waitData _ h16 hk hs hf h32 => exact ⟨hf.recv, hf.gives hw⟩
  | blkWord _ h16 hk hs hf hw => exact ⟨hf.recv, hf.gives hw⟩
  | blkPoll _ h16 hk hs hf hw' ha => exact absurd (hw'.symm.trans hw) Bool.false_ne_true
  | lastWord hs hf hw => exact ⟨hf.recv, hf.gives hw⟩
  | waitIntr p hp hs hf hw' => exact absurd (hw'.symm.trans hw) Bool.false_ne_true
  | intr hs hi hf hw' => exact absurd (hw'.symm.trans hw) Bool.false_ne_true
  | readHash j hj hs hf hw' ha hi hh => exact absurd (hw'.symm.trans hw) Bool.false_ne_true
  | readHashLast hs hf hw' ha hh => exact absurd (hw'.symm.trans hw) Bool.false_ne_true

/-! ## A session under the protocol -/

/-- From cycle `t₀` on, before cycle `t₁`: CTRL.start, then the words of the message, one whenever
    STATUS shows that the orchestrator is ready for it; the memory gives the key. -/
structure Runs (r : ℕ → TopMost) (i : ℕ → TopIn) (m : Message) (t₀ t₁ : ℕ) : Prop where
  step : ∀ t, t₀ ≤ t → t < t₁ → r (t + 1) = (r t).step (i t)
  undisturbed : ∀ t, t₀ ≤ t → t < t₁ → Undisturbed (i t)
  rest : AtRest (r t₀)
  start : (i t₀).ctrlStartW = true
  len : (r t₀).csr.msgLenCsr = BitVec.ofNat 32 m.fed.length
  rIn : Shifted (r t₀).csr.rReg m.r
  rDone : ∀ t, t₀ ≤ t → t < t₁ → (i t).rinWr = false
  ready : ∀ t, t₀ ≤ t → t < t₁ → (i t).datainWr = true → (r t).readyBit = true
  data : ∀ t, t₀ ≤ t → t < t₁ → (i t).datainWr = true →
    (i t).csr.wdata = m.data.getD (wordsOf TopIn.datainWr i t₀ t).length 0
  otp : ∀ t, t₀ ≤ t → t < t₁ → (r t).orch.otpRdEn = true →
    (i t).otpData = m.key.extractLsb' ((r t).otpAddrO.toNat * 32) 32

namespace Runs

variable {r : ℕ → TopMost} {i : ℕ → TopIn} {t₀ t₁ t : ℕ}

/-- The session in cycle `t`: it feeds the words, or the registers are loaded. -/
def At (r : ℕ → TopMost) (i : ℕ → TopIn) (m : Message) (t₀ t : ℕ) : Prop :=
  (∃ k n, InSession m (r t) k n ∧ Mail m (r t) k (wordsOf TopIn.datainWr i t₀ t).length ∧
    delivered r t₀ t = m.fed.take ((r t).arrived k)) ∨
  (Loaded m (r t) ∧ (wordsOf TopIn.datainWr i t₀ t).length = m.data.length ∧
    delivered r t₀ t = m.fed)

theorem part (h : Runs r i m t₀ t₁) (ht : t ≤ t₁) : Runs r i m t₀ t where
  step u hu hut := h.step u hu (by omega)
  undisturbed u hu hut := h.undisturbed u hu (by omega)
  rest := h.rest
  start := h.start
  len := h.len
  rIn := h.rIn
  rDone u hu hut := h.rDone u hu (by omega)
  ready u hu hut := h.ready u hu (by omega)
  data u hu hut := h.data u hu (by omega)
  otp u hu hut := h.otp u hu (by omega)

theorem rReg (h : Runs r i m t₀ t₁) (ht : t₀ ≤ t) (ht₁ : t ≤ t₁) : Shifted (r t).csr.rReg m.r := by
  have hk : (r t).csr.rReg = (r t₀).csr.rReg :=
    Sync.kept_between (f := fun u => (r u).csr.rReg) ht fun u hu hut => by
      rw [h.step u hu (by omega)]
      simp [TopMost.step, csrStep, h.rDone u hu (by omega)]
  rw [hk]
  exact h.rIn

theorem supplies (h : Runs r i m t₀ t₁) (ht : t₀ ≤ t) (ht₁ : t < t₁) {c : ℕ}
    (hm : Mail m (r t) k c) : Supplies m (r t) (i t) k where
  undisturbed := h.undisturbed t ht ht₁
  r := h.rReg ht ht₁.le
  otp := h.otp t ht ht₁
  data _ hp := by
    rcases hm with ⟨hp', -⟩ | ⟨-, -, -, hd⟩
    · exact absurd (hp'.symm.trans hp) Bool.false_ne_true
    · exact hd

theorem length_wordsOf (w : TopIn → Bool) (ht : t₀ ≤ t) : (wordsOf w i t₀ (t + 1)).length =
    (wordsOf w i t₀ t).length + if w (i t) = true then 1 else 0 := by
  rw [wordsOf, List.length_append]
  by_cases hw : w (i t) = true
  · rw [if_pos ⟨ht, hw⟩, if_pos hw]
    rfl
  · rw [if_neg fun hc => hw hc.2, if_neg hw]
    rfl

theorem wordsOf_start (w : TopIn → Bool) (i : ℕ → TopIn) :
    ∀ t ≤ t₀, wordsOf w i t₀ t = [] := by
  intro t ht
  induction t with
  | zero => rfl
  | succ t ih => rw [wordsOf, ih (by omega), if_neg fun hc => absurd hc.1 (by omega)]; rfl

theorem delivered_start (r : ℕ → TopMost) : ∀ t ≤ t₀, delivered r t₀ t = [] := by
  intro t ht
  induction t with
  | zero => rfl
  | succ t ih => rw [delivered, ih (by omega), if_neg fun hc => absurd hc.1 (by omega)]; rfl

/-- The words that have arrived after a cycle are those that were fed before it. -/
theorem delivered_succ (hi : InSession m (r t) k n) (ht : t₀ ≤ t)
    (hd : delivered r t₀ t = m.fed.take ((r t).arrived k)) :
    delivered r t₀ (t + 1) = m.fed.take k := by
  rw [delivered, hd]
  by_cases ha : (r t).arrives = true
  · obtain ⟨-, hpos, hg⟩ := hi.gives ha
    have hk := hi.counted.le
    have harr : (r t).arrived k = k - 1 := by
      have ha' : ((r t).orch.shaWen && decide ((r t).orch.shaAddr < 32)) = true := ha
      rw [arrived, ha', if_pos rfl]
    obtain ⟨p, rfl⟩ : ∃ p, k = p + 1 := ⟨k - 1, by omega⟩
    rw [if_pos ⟨ht, ha⟩, harr, hg.data, Nat.add_sub_cancel, List.take_add_one,
      List.getElem?_eq_getElem (by omega), List.getD_eq_getElem _ 0 (by omega)]
    rfl
  · have ha' : ((r t).orch.shaWen && decide ((r t).orch.shaAddr < 32)) = false := by
      rw [Bool.not_eq_true] at ha
      exact ha
    rw [if_neg fun hc => ha hc.2, List.append_nil, arrived, ha', if_neg Bool.false_ne_true]

/-- The first cycle. -/
theorem at_start (h : Runs r i m t₀ t₁) (ht₁ : t₀ < t₁) : At r i m t₀ (t₀ + 1) := by
  have hstep := h.step t₀ le_rfl ht₁
  have hdw : (i t₀).datainWr = false := by
    by_contra hw
    have hr := h.ready t₀ le_rfl ht₁ (by simpa using hw)
    simp [readyBit, h.rest.state] at hr
  have hin : InSession m (r (t₀ + 1)) 0 (wordCost m 0 + 7) := by
    rw [hstep]
    exact h.rest.start (h.undisturbed t₀ le_rfl ht₁) h.start h.len
  refine .inl ⟨0, _, hin, .inl ⟨?_, ?_⟩, ?_⟩
  · rw [hstep]
    simp [TopMost.step, csrStep, hdw, h.rest.state, h.rest.pending]
  · rw [length_wordsOf _ le_rfl, wordsOf_start _ _ _ le_rfl, hdw]
    rfl
  · have ha : (r t₀).arrives = false := by simp [arrives, h.rest.wen]
    rw [delivered, delivered_start r _ le_rfl, if_neg (by simp [ha]), arrived]
    split_ifs <;> simp

theorem at_succ (h : Runs r i m t₀ t₁) (ht : t₀ ≤ t) (ht₁ : t < t₁) (ha : At r i m t₀ t) :
    At r i m t₀ (t + 1) := by
  have hlen := m.length_fed
  have hstep := h.step t ht ht₁
  have hcount := length_wordsOf (i := i) TopIn.datainWr ht
  rcases ha with ⟨k, n, hi, hm, hd⟩ | ⟨hl, hc, hd⟩
  · have hds := delivered_succ hi ht hd
    rcases hi.step (h.supplies ht ht₁ hm) with ⟨k', n', hg⟩ | ⟨hk, hs, hl⟩
    · have hm' := hm.step hi hg (h.undisturbed t ht ht₁) (h.ready t ht ht₁) (h.data t ht ht₁)
      rw [← hstep, ← hcount] at hm'
      refine .inl ⟨k', n', by rw [hstep]; exact hg.session, hm', ?_⟩
      rw [hds, hstep, hg.arrived]
    · have hdw : (i t).datainWr = false := by
        by_contra hw
        have hr := h.ready t ht ht₁ (by simpa using hw)
        simp [readyBit, hs] at hr
      have hc : (wordsOf TopIn.datainWr i t₀ t).length = k - 16 := by
        rcases hm with ⟨-, hc⟩ | ⟨-, hw, -⟩
        · exact hc
        · exact absurd (hs.symm.trans hw) (by simp)
      refine .inr ⟨by rw [hstep]; exact hl, ?_, by rw [hds, hk, List.take_length]⟩
      rw [hcount, hdw, hc, if_neg Bool.false_ne_true]
      omega
  · have hdw : (i t).datainWr = false := by
      by_contra hw
      have hr := h.ready t ht ht₁ (by simpa using hw)
      exact absurd (hl.not_ready.symm.trans hr) Bool.false_ne_true
    refine .inr ⟨by rw [hstep]; exact hl.step (h.undisturbed t ht ht₁), ?_, ?_⟩
    · rw [hcount, hdw, hc]
      rfl
    · have hna : (r t).arrives = false := by simp [arrives, hl.wen]
      rw [delivered, hd, if_neg (by simp [hna]), List.append_nil]

/-- Every cycle of the session. -/
theorem at_of_lt (h : Runs r i m t₀ t₁) (ht : t₀ < t) (ht₁ : t ≤ t₁) : At r i m t₀ t := by
  induction t, ht using Nat.le_induction with
  | base => exact h.at_start ht₁
  | succ t ht ih => exact h.at_succ (by omega) ht₁ (ih (by omega))

theorem mail (h : Runs r i m t₀ t₁) (ht : t₀ < t) (ht₁ : t ≤ t₁) (hi : InSession m (r t) k n) :
    ∃ c, Mail m (r t) k c := by
  rcases h.at_of_lt ht ht₁ with ⟨k', n', hi', hm, -⟩ | ⟨hl, -, -⟩
  · obtain rfl := hi.counted.unique hi'.counted rfl
    exact ⟨_, hm⟩
  · exact absurd hl.state hi.not_isLoaded

/-- One cycle: the bound on the cycles that are left decreases, but for a cycle that waits. -/
theorem moves (h : Runs r i m t₀ t₁) (ht : t₀ < t) (ht₁ : t < t₁) (hi : InSession m (r t) k n) :
    Loaded m (r (t + 1)) ∨ ∃ k' n', InSession m (r (t + 1)) k' n' ∧ n' ≤ n ∧
      (¬ (r t).Waits → n' < n) := by
  obtain ⟨c, hm⟩ := h.mail ht ht₁.le hi
  rw [h.step t ht.le ht₁]
  rcases hi.step (h.supplies ht.le ht₁ hm) with ⟨k', n', hg⟩ | ⟨-, -, hl⟩
  · refine .inr ⟨k', n', hg.session, ?_, fun hw => ?_⟩
    · rcases hg.bound with hb | ⟨-, -, -, hb⟩ <;> omega
    · exact hg.bound.resolve_right fun hc => hw hc.1
  · exact .inl hl

/-- A session that waits goes on waiting until firmware writes. -/
theorem waits_until (h : Runs r i m t₀ t₁) (ht : t₀ < t) {u : ℕ} (htu : t ≤ u) (hu : u ≤ t₁)
    (hi : InSession m (r t) k n) (hw : (r t).Waits)
    (hq : ∀ v, t ≤ v → v < u → (i v).datainWr = false) :
    (r u).Waits ∧ ∃ k' n', n' ≤ n ∧ InSession m (r u) k' n' := by
  induction u, htu using Nat.le_induction with
  | base => exact ⟨hw, k, n, le_rfl, hi⟩
  | succ u htu ih =>
    obtain ⟨hwu, k', n', hn', hiu⟩ := ih (by omega) fun v hv hvu => hq v hv (by omega)
    have hst := (hwu.step (h.undisturbed u (by omega) hu)).1
    rw [← h.step u (by omega) hu] at hst
    have hpend : (r (u + 1)).csr.dataPending = false := by
      rw [h.step u (by omega) hu]
      simp [TopMost.step, csrStep, hq u htu (by omega), hwu.2]
    refine ⟨⟨hst, hpend⟩, ?_⟩
    rcases h.moves (by omega) hu hiu with hl | ⟨k'', n'', hi'', hle, -⟩
    · rcases hl.state with hs | hs | hs | hs | hs <;> exact absurd (hst.symm.trans hs) (by simp)
    · exact ⟨k'', n'', by omega, hi''⟩

/-- The registers are loaded in the end, if firmware answers whenever the orchestrator is ready. -/
theorem loads (h : ∀ t₁, Runs r i m t₀ t₁)
    (hfair : ∀ t, t₀ ≤ t → (r t).readyBit = true → ∃ u, t ≤ u ∧ (i u).datainWr = true)
    (ht : t₀ < t) (hi : InSession m (r t) k n) : ∃ u, t ≤ u ∧ Loaded m (r u) := by
  induction n using Nat.strong_induction_on generalizing t k with
  | _ n ih =>
    -- a cycle that does not wait
    have hmove (v k' n' : ℕ) (hv : t ≤ v) (hn : n' ≤ n) (hiv : InSession m (r v) k' n')
        (hw : ¬ (r v).Waits) : ∃ u, t ≤ u ∧ Loaded m (r u) := by
      rcases (h _).moves (by omega) (Nat.lt_succ_self v) hiv with hl | ⟨k'', n'', hi'', -, hlt⟩
      · exact ⟨v + 1, by omega, hl⟩
      · have hlt' := hlt hw
        obtain ⟨u, hu, hl⟩ := ih n'' (by omega) (t := v + 1) (by omega) hi''
        exact ⟨u, by omega, hl⟩
    by_cases hw : (r t).Waits
    · -- the next cycle in which firmware writes
      have hex : ∃ v, t ≤ v ∧ (i v).datainWr = true := hfair t ht.le (readyBit_iff.2 hw)
      obtain ⟨v, ⟨hv, hwr⟩, hmin⟩ : ∃ v, (t ≤ v ∧ (i v).datainWr = true) ∧
          ∀ y < v, ¬ (t ≤ y ∧ (i y).datainWr = true) :=
        ⟨Nat.find hex, Nat.find_spec hex, fun y hy => Nat.find_min hex hy⟩
      obtain ⟨hwv, k₁, n₁, hn₁, hiv⟩ := (h v).waits_until ht hv le_rfl hi hw fun y hy hyv => by
        simpa [hy] using hmin y hyv
      have hpend : (r (v + 1)).csr.dataPending = true := by
        rw [(h _).step v (by omega) (Nat.lt_succ_self v)]
        simp [TopMost.step, csrStep, hwr]
      rcases (h _).moves (by omega) (Nat.lt_succ_self v) hiv with hl | ⟨k₂, n₂, hi₂, hn₂, -⟩
      · exact ⟨v + 1, by omega, hl⟩
      · exact hmove (v + 1) k₂ n₂ (by omega) (by omega) hi₂ fun hc =>
          absurd (hc.2.symm.trans hpend) Bool.false_ne_true
    · exact hmove t k n le_rfl le_rfl hi hw

/-- The registers are loaded from ST_LOAD_REGS on, which a session enters with `load_idx` 0. -/
theorem entered (h : Runs r i m t₀ t₁) (ht : t₀ < t) (ht₁ : t ≤ t₁) :
    (∀ u, t₀ ≤ u → u ≤ t → ¬ IsLoaded (r u).orch.state) ∨
      ∃ T, t₀ < T ∧ T ≤ t ∧ LoadsNext (r T) ∧
        ∀ u, t₀ ≤ u → u < T → ¬ IsLoaded (r u).orch.state := by
  have hfirst : ¬ IsLoaded (r t₀).orch.state := by
    rw [h.rest.state]
    simp [IsLoaded]
  induction t, ht using Nat.le_induction with
  | base =>
    have hi := h.rest.start (m := m) (h.undisturbed t₀ le_rfl ht₁) h.start h.len
    rw [← h.step t₀ le_rfl ht₁] at hi
    refine .inl fun u hu hut => ?_
    rcases hu.eq_or_lt with rfl | hlt
    · exact hfirst
    · obtain rfl : u = t₀ + 1 := by omega
      exact hi.not_isLoaded
  | succ t ht ih =>
    have hstep := h.step t (by omega) ht₁
    rcases ih (by omega) with hno | ⟨T, hT, hTt, hl, hno⟩
    · rcases h.at_of_lt ht (by omega) with ⟨k, n, hi, hm, -⟩ | ⟨hl, -⟩
      · rcases hi.step (h.supplies (by omega) ht₁ hm) with ⟨k', n', hg⟩ | ⟨-, hs, -⟩
        · have hi' := hg.session
          rw [← hstep] at hi'
          refine .inl fun u hu hut => ?_
          rcases Nat.lt_succ_iff_lt_or_eq.1 (Nat.lt_succ_of_le hut) with hlt | rfl
          · exact hno u hu (by omega)
          · exact hi'.not_isLoaded
        · -- from ST_READ_HASH_LAST
          have hq := orch_readHashLast (h.undisturbed t (by omega) ht₁) hs
          exact .inr ⟨t + 1, by omega, le_rfl, ⟨by rw [hstep, hq], by rw [hstep, hq]⟩,
            fun u hu hut => hno u hu (by omega)⟩
      · exact absurd hl.state (hno t (by omega) le_rfl)
    · exact .inr ⟨T, hT, by omega, hl, hno⟩

/-- A session under the protocol enters ST_LOAD_REGS, if firmware answers. -/
theorem enters (h : ∀ t₁, Runs r i m t₀ t₁)
    (hfair : ∀ t, t₀ ≤ t → (r t).readyBit = true → ∃ u, t ≤ u ∧ (i u).datainWr = true) :
    ∃ t, t₀ < t ∧ LoadsNext (r t) ∧ ∀ u, t₀ ≤ u → u < t → ¬ IsLoaded (r u).orch.state := by
  obtain ⟨u, hu, hl⟩ : ∃ u, t₀ < u ∧ IsLoaded (r u).orch.state := by
    rcases (h _).at_start (Nat.lt_succ_self t₀) with ⟨k, n, hi, -⟩ | ⟨hl, -⟩
    · obtain ⟨u, hu, hl⟩ := loads h hfair (Nat.lt_succ_self t₀) hi
      exact ⟨u, by omega, hl.state⟩
    · exact ⟨t₀ + 1, Nat.lt_succ_self t₀, hl.state⟩
  rcases (h u).entered hu le_rfl with hno | ⟨T, hT, -, hl', hno⟩
  · exact absurd hl (hno u hu.le le_rfl)
  · exact ⟨T, hT, hl', hno⟩

end Runs

/-! ## From reset -/

/-- Firmware boots from reset, with one session: eight words R_IN and S_IN and the number of words
    in MSG_LEN, CTRL.start in cycle `t₀`, and then the words of the message, one whenever STATUS
    shows that the orchestrator is ready for it. -/
structure Boots (r : ℕ → TopMost) (i : ℕ → TopIn) (m : Message) (sWords : List (BitVec 32))
    (t₀ : ℕ) : Prop where
  run : IsRun r i
  undisturbed : ∀ t, Undisturbed (i t)
  first : ∀ t < t₀, (i t).ctrlStartW = false
  start : (i t₀).ctrlStartW = true
  rIn : wordsOf TopIn.rinWr i 0 t₀ = m.r
  rDone : ∀ t, t₀ ≤ t → (i t).rinWr = false
  sIn : wordsOf TopIn.sinWr i 0 t₀ = sWords
  sDone : ∀ t, t₀ ≤ t → (i t).sinWr = false
  length_s : sWords.length = 8
  msgLen : Sync.last (fun t => if (i t).msglenWr then some (i t).csr.wdata else none) t₀ =
    some (BitVec.ofNat 32 (16 + m.data.length))
  ready : ∀ t, (i t).datainWr = true → (r t).readyBit = true
  data : ∀ t, (i t).datainWr = true →
    (i t).csr.wdata = m.data.getD (wordsOf TopIn.datainWr i t₀ t).length 0
  otp : ∀ t, (i t).otpData = otpRdData m.key (r t).bootActiveO (r t).orch.otpRdEn (r t).otpAddrO

namespace Boots

variable {r : ℕ → TopMost} {i : ℕ → TopIn} {sWords : List (BitVec 32)} {t₀ t : ℕ}

theorem rest (h : Boots r i m sWords t₀) (ht : t ≤ t₀) : AtRest (r t) := by
  induction t with
  | zero =>
    obtain ⟨sha, regs, h0⟩ := h.run.reset
    rw [h0]
    exact atRest_reset sha regs
  | succ t ih =>
    have hr := ih (by omega)
    have hd : (i t).datainWr = false := by
      by_contra hw
      have hb := h.ready t (by simpa using hw)
      simp [readyBit, hr.state] at hb
    rw [h.run.step t]
    exact hr.step (h.undisturbed t) (h.first t (by omega)) hd

/-- A register that the words written with `w` shift into. -/
theorem shifted (h : IsRun r i) (w : TopIn → Bool) (reg : TopMost → BitVec (32 + 224))
    (hreg : ∀ s x, reg (TopMost.step s x) =
      if w x then shiftWord 224 (reg s) (byteSwap x.csr.wdata) else reg s)
    (hlen : (wordsOf w i 0 t).length ≤ 8) : Shifted (reg (r t)) (wordsOf w i 0 t) := by
  induction t with
  | zero => exact Shifted.nil _
  | succ t ih =>
    have hl := Runs.length_wordsOf (i := i) w (Nat.zero_le t)
    have hs := ih (by omega)
    rw [h.step t, hreg, wordsOf]
    by_cases hw : w (i t) = true
    · rw [if_pos hw, if_pos ⟨Nat.zero_le t, hw⟩]
      rw [if_pos hw] at hl
      exact hs.push (by omega) _
    · rw [if_neg hw, if_neg fun hc => hw hc.2, List.append_nil]
      exact hs

/-- MSG_LEN has the word that was written last. -/
theorem last_msgLen (h : IsRun r i) {w : BitVec 32}
    (hw : Sync.last (fun t => if (i t).msglenWr then some (i t).csr.wdata else none) t = some w) :
    (r t).csr.msgLenCsr = w := by
  have hrun (t : ℕ) : (r t).csr.msgLenCsr =
      (Sync.last (fun t => if (i t).msglenWr then some (i t).csr.wdata else none) t).getD
        (r 0).csr.msgLenCsr := by
    induction t with
    | zero => rfl
    | succ t ih =>
      have hs : (r (t + 1)).csr.msgLenCsr =
          if (i t).msglenWr then (i t).csr.wdata else (r t).csr.msgLenCsr := by
        rw [h.step t]
        rfl
      rw [hs, Sync.last_succ, ih]
      cases (i t).msglenWr <;> rfl
  rw [hrun, hw]
  rfl

theorem msgLenCsr (h : Boots r i m sWords t₀) :
    (r t₀).csr.msgLenCsr = BitVec.ofNat 32 m.fed.length := by
  rw [m.length_fed]
  exact last_msgLen h.run h.msgLen

theorem sReg (h : Boots r i m sWords t₀) (ht : t₀ ≤ t) : Shifted (r t).csr.sReg sWords := by
  induction t, ht using Nat.le_induction with
  | base =>
    have hs := shifted h.run TopIn.sinWr (fun s => s.csr.sReg) (fun _ _ => rfl) (t := t₀)
      (by rw [h.sIn, h.length_s])
    rw [h.sIn] at hs
    exact hs
  | succ t ht ih =>
    have hk : (r (t + 1)).csr.sReg = (r t).csr.sReg := by
      rw [h.run.step t]
      simp [TopMost.step, csrStep, h.sDone t ht]
    rw [hk]
    exact ih

theorem calm (h : Boots r i m sWords t₀) (he : (r t).orch.otpRdEn = true) : Calm (r t) := by
  obtain ⟨sha, regs, h0⟩ := h.run.reset
  have hc : Calm (r 0) := by
    rw [h0]
    exact ⟨rfl, rfl, rfl⟩
  exact calm_of_otpRdEn hc (Nat.zero_le t) (fun u _ _ => ⟨h.run.step u, h.undisturbed u⟩) he

/-- What firmware does is a session of the message. -/
theorem runs (h : Boots r i m sWords t₀) (t₁ : ℕ) : Runs r i m t₀ t₁ where
  step t _ _ := h.run.step t
  undisturbed t _ _ := h.undisturbed t
  rest := h.rest le_rfl
  start := h.start
  len := h.msgLenCsr
  rIn := by
    have hs := shifted h.run TopIn.rinWr (fun s => s.csr.rReg) (fun _ _ => rfl) (t := t₀)
      (by rw [h.rIn, m.length_r])
    rw [h.rIn] at hs
    exact hs
  rDone t ht _ := h.rDone t ht
  ready t _ _ := h.ready t
  data t _ _ := h.data t
  otp t _ _ he := (h.calm he).otpData he (h.otp t)

theorem lt_of_isLoaded (h : Boots r i m sWords t₀) (hl : IsLoaded (r t).orch.state) : t₀ < t := by
  by_contra hc
  have hs := (h.rest (t := t) (by omega)).state
  rw [hs] at hl
  simp [IsLoaded] at hl

end Boots

/-- The state of the orchestrator tells that a session has loaded the registers. -/
theorem Runs.loaded {r : ℕ → TopMost} {i : ℕ → TopIn} {t₀ t : ℕ} (h : Runs r i m t₀ t)
    (ht : t₀ < t) (hl : IsLoaded (r t).orch.state) :
    Loaded m (r t) ∧ (wordsOf TopIn.datainWr i t₀ t).length = m.data.length ∧
      delivered r t₀ t = m.fed := by
  rcases h.at_of_lt ht le_rfl with ⟨k, n, hi, -⟩ | hc
  · exact absurd hl hi.not_isLoaded
  · exact hc

section Boot

variable {r : ℕ → TopMost} {i : ℕ → TopIn} {sWords : List (BitVec 32)} {t₀ : ℕ}

/-- **The orchestrator feeds R, the key and the message to the SHA core**, each word once, in
    order, at its address and while the core receives, for every timing of firmware; when the
    Ed25519 registers are loaded all words have been, and the registers for the digest, the key, R
    and S have the little-endian integers of their byte strings. If firmware answers whenever
    STATUS shows that the orchestrator is ready, the registers are loaded in the end. -/
theorem boot_delivers (h : Boots r i m sWords t₀) :
    (∀ t ≤ t₀, (r t).orch.shaWen = false) ∧
    (∀ t, (r t).arrives = true → (r t).sha.state = .recv ∧
      (r t).orch.shaAddr = BitVec.ofNat 6 ((delivered r t₀ t).length % 32)) ∧
    (∀ t, delivered r t₀ t <+: m.words.map byteSwap) ∧
    (∀ t, IsLoaded (r t).orch.state →
      delivered r t₀ t = m.words.map byteSwap ∧
      (wordsOf TopIn.datainWr i t₀ t).length = m.data.length ∧
      (r t).orch.hashReg.toNat =
        leInt (wordBytes (Sha512.hash (wordBytes m.words)).halves) ∧
      (r t).orch.pubkeyReg.toNat = leInt (wordBytes m.keyWords) ∧
      (r t).csr.rReg.toNat = leInt (wordBytes m.r) ∧
      (r t).csr.sReg.toNat = leInt (wordBytes sWords)) ∧
    ((∀ t, (r t).readyBit = true → ∃ u, t ≤ u ∧ (i u).datainWr = true) →
      ∃ t, IsLoaded (r t).orch.state) := by
  have hr := h.runs
  refine ⟨fun t ht => (h.rest ht).wen, fun t ha => ?_, fun t => ?_, fun t hl => ?_, fun hf => ?_⟩
  · have ht : t₀ < t := by
      by_contra hc
      simp [arrives, (h.rest (t := t) (by omega)).wen] at ha
    rcases (hr t).at_of_lt ht le_rfl with ⟨k, n, hi, -, hd⟩ | ⟨hl, -, -⟩
    · obtain ⟨hs, hpos, hg⟩ := hi.gives ha
      have hk := hi.counted.le
      have ha' : ((r t).orch.shaWen && decide ((r t).orch.shaAddr < 32)) = true := ha
      have hlen : (delivered r t₀ t).length = k - 1 := by
        rw [hd, arrived, ha', if_pos rfl, List.length_take]
        omega
      rw [hlen]
      exact ⟨hs, hg.addr⟩
    · simp [arrives, hl.wen] at ha
  · rcases Nat.lt_or_ge t₀ t with ht | ht
    · rcases (hr t).at_of_lt ht le_rfl with ⟨k, n, -, -, hd⟩ | ⟨-, -, hd⟩
      · rw [hd]
        exact List.take_prefix _ _
      · rw [hd]
        exact List.prefix_rfl
    · rw [Runs.delivered_start r t ht]
      exact List.nil_prefix
  · have ht := h.lt_of_isLoaded hl
    obtain ⟨hld, hc, hd⟩ := (hr t).loaded ht hl
    exact ⟨hd, hc, hld.hash, hld.key, ((hr t).rReg ht.le le_rfl).eq (by rw [m.length_r]),
      (h.sReg ht.le).eq (by rw [h.length_s])⟩
  · rcases (hr _).at_start (Nat.lt_succ_self t₀) with ⟨k, n, hi, -⟩ | ⟨hl, -⟩
    · obtain ⟨u, -, hl⟩ := Runs.loads hr (fun t _ => hf t) (Nat.lt_succ_self t₀) hi
      exact ⟨u, hl.state⟩
    · exact ⟨t₀ + 1, hl.state⟩

end Boot

/-! ## Firmware that answers at once -/

/-- The run from reset with firmware that knows the cycle, the number of words of the message that
    it has written, and the state; and that number. -/
def driven (fw : ℕ → ℕ → TopMost → TopIn) : ℕ → TopMost × ℕ
  | 0 => (reset ShaCore.blank fun _ => 0, 0)
  | t + 1 =>
    let x := fw t (driven fw t).2 (driven fw t).1
    ((driven fw t).1.step x, (driven fw t).2 + x.datainWr.toNat)

def drivenRun (fw : ℕ → ℕ → TopMost → TopIn) (t : ℕ) : TopMost := (driven fw t).1

def drivenIn (fw : ℕ → ℕ → TopMost → TopIn) (t : ℕ) : TopIn :=
  fw t (driven fw t).2 (drivenRun fw t)

theorem drivenRun_isRun (fw : ℕ → ℕ → TopMost → TopIn) : IsRun (drivenRun fw) (drivenIn fw) :=
  ⟨⟨_, _, rfl⟩, fun _ => rfl⟩

theorem driven_count {fw : ℕ → ℕ → TopMost → TopIn} (t₀ : ℕ)
    (h : ∀ t < t₀, (drivenIn fw t).datainWr = false) (t : ℕ) :
    (driven fw t).2 = (wordsOf TopIn.datainWr (drivenIn fw) t₀ t).length := by
  induction t with
  | zero => rfl
  | succ t ih =>
    have hs : (driven fw (t + 1)).2 = (driven fw t).2 + (drivenIn fw t).datainWr.toNat := rfl
    rw [hs, ih, wordsOf, List.length_append]
    cases hw : (drivenIn fw t).datainWr with
    | false => simp
    | true =>
      have ht : t₀ ≤ t := by
        by_contra hlt
        exact absurd ((h t (by omega)).symm.trans hw) Bool.false_ne_true
      simp [ht]

/-- The words 1 to 8 of R, 11 to 18 of S, 21 to 28 of the key and 31 to 46 of the message. -/
def numbers (first n : ℕ) : List (BitVec 32) :=
  (List.range n).map fun k => BitVec.ofNat 32 (first + k)

def bootKey : BitVec 256 := 28#32 ++ 27#32 ++ 26#32 ++ 25#32 ++ 24#32 ++ 23#32 ++ 22#32 ++ 21#32

def bootMessage : Message := ⟨numbers 1 8, bootKey, numbers 31 16, rfl, by decide⟩

def bootWrites (t k : ℕ) (ready : Bool) : ObiReq :=
  if t < 8 then ⟨true, 0x00C, true, 0xF, (numbers 1 8).getD t 0⟩
  else if t < 16 then ⟨true, 0x010, true, 0xF, (numbers 11 8).getD (t - 8) 0⟩
  else if t = 16 then ⟨true, 0x008, true, 0xF, 32⟩
  else if t = 17 then ⟨true, 0x000, true, 0xF, 1⟩
  else if ready then ⟨true, 0x014, true, 0xF, (numbers 31 16).getD k 0⟩
  else ObiReq.idle

def bootIn (t k : ℕ) (s : TopMost) : TopIn where
  csr := bootWrites t k s.readyBit
  startVerify := false
  otpData := otpRdData bootKey s.bootActiveO s.orch.otpRdEn s.otpAddrO

def bootRun : ℕ → TopMost := drivenRun bootIn

theorem undisturbed_bootIn (t k : ℕ) (s : TopMost) : Undisturbed (bootIn t k s) := by
  simp only [Undisturbed, TopIn.ctrlSoftrstW, TopIn.ctrlAbortW, TopIn.ctrlWr, TopIn.writes, bootIn,
    bootWrites]
  split_ifs <;> rfl

theorem rinWr_bootIn {t : ℕ} (ht : 8 ≤ t) (k : ℕ) (s : TopMost) :
    (bootIn t k s).rinWr = false := by
  simp only [TopIn.rinWr, TopIn.writes, bootIn, bootWrites]
  split_ifs <;> first | omega | rfl

theorem datainWr_bootIn {t : ℕ} (ht : t < 18) (k : ℕ) (s : TopMost) :
    (bootIn t k s).datainWr = false := by
  simp only [TopIn.datainWr, TopIn.writes, bootIn, bootWrites]
  split_ifs <;> first | omega | rfl

theorem bootRun_boots :
    Boots bootRun (drivenIn bootIn) bootMessage (numbers 11 8) 17 where
  run := drivenRun_isRun bootIn
  undisturbed t := undisturbed_bootIn t _ _
  first t ht := by
    simp only [TopIn.ctrlStartW, TopIn.ctrlWr, TopIn.writes, drivenIn, bootIn, bootWrites]
    split_ifs <;> first | omega | rfl
  start := rfl
  rIn := rfl
  rDone t ht := rinWr_bootIn (by omega) _ _
  sIn := rfl
  sDone t ht := by
    simp only [TopIn.sinWr, TopIn.writes, drivenIn, bootIn, bootWrites]
    split_ifs <;> first | omega | rfl
  length_s := rfl
  msgLen := rfl
  ready t hw := by
    simp only [TopIn.datainWr, TopIn.writes, drivenIn, bootIn, bootWrites] at hw
    split_ifs at hw <;> first | assumption | exact absurd hw Bool.false_ne_true
  data t hw := by
    rw [← driven_count 17 fun u hu => datainWr_bootIn (by omega) _ _]
    simp only [TopIn.datainWr, TopIn.writes, drivenIn, bootIn, bootWrites] at hw ⊢
    split_ifs at hw ⊢ <;> first | rfl | exact absurd hw Bool.false_ne_true
  otp _ := rfl

/-- Firmware answers at once. -/
theorem bootRun_answers {t : ℕ} (hr : (bootRun t).readyBit = true) :
    ∃ u, t ≤ u ∧ (drivenIn bootIn u).datainWr = true := by
  have ht : 17 < t := by
    by_contra hc
    have hs := (bootRun_boots.rest (show t ≤ 17 by omega)).state
    simp [readyBit, hs] at hr
  refine ⟨t, le_rfl, ?_⟩
  rw [bootRun] at hr
  simp only [TopIn.datainWr, TopIn.writes, drivenIn, bootIn, bootWrites, hr]
  rw [if_neg (by omega), if_neg (by omega), if_neg (by omega), if_neg (by omega)]
  rfl

theorem boot_delivers_bootRun : ∃ t, IsLoaded (bootRun t).orch.state ∧
    delivered bootRun 17 t =
      (numbers 1 8 ++ numbers 21 8 ++ numbers 31 16).map byteSwap ∧
    (bootRun t).orch.hashReg.toNat = leInt (wordBytes (Sha512.hash
      (wordBytes (numbers 1 8 ++ numbers 21 8 ++ numbers 31 16))).halves) ∧
    (bootRun t).orch.pubkeyReg.toNat = leInt (wordBytes (numbers 21 8)) ∧
    (bootRun t).csr.rReg.toNat = leInt (wordBytes (numbers 1 8)) ∧
    (bootRun t).csr.sReg.toNat = leInt (wordBytes (numbers 11 8)) := by
  have hkey : bootMessage.keyWords = numbers 21 8 := by decide
  obtain ⟨-, -, -, hl, hf⟩ := boot_delivers bootRun_boots
  obtain ⟨t, ht⟩ := hf fun t hr => bootRun_answers hr
  obtain ⟨hd, -, hh, hp, hr, hs⟩ := hl t ht
  rw [Message.words, hkey] at hd hh
  rw [hkey] at hp
  exact ⟨t, ht, hd, hh, hp, hr, hs⟩

end TopMost

end SentinelSoc
