/-
  What an earlier session can do to a later one.

  * `Completes`: a session from CTRL.start to ST_DONE, without an abort in between;
  * `Cleared`: the SHA core, the data register and the Ed25519 core are as after a reset;
  * `session_fresh`: a session that starts so ends as the first one after a reset;
  * `aborted_sessions`: what an aborted session leaves in each of these reaches the next one.
-/
import SentinelSoc.Crypto.Alike
import SentinelSoc.Ed.Verdict

namespace SentinelSoc

namespace TopMost

variable {s : TopMost} {x : TopIn} {r r' : ℕ → TopMost} {i i' : ℕ → TopIn} {t t' t₀ t₀' : ℕ}
  {key : BitVec 256}

/-! ## Before a session -/

/-- Only the idle state leads to the idle state, but for an abort. -/
theorem advance_idle {q : Orch} {o : OrchIn} (h : (q.advance o).state = .idle) :
    q.advance o = q := by
  rcases hs : q.state
  case idle =>
    simp only [Orch.advance, hs] at h ⊢
    split_ifs at h ⊢
    rfl
  all_goals
    simp only [Orch.advance, hs, apply_ite Orch.state, Orch.feed, Orch.load] at h
    first | cases h | (split_ifs at h)

/-- An idle orchestrator writes no register of the SHA core and starts no verification, also after
    an abort. -/
theorem idle_quiet (s : TopMost) (x : TopIn) (hs : (s.step x).orch.state = .idle) :
    (s.step x).orch.shaWen = false ∧ (s.step x).orch.edStart = false := by
  by_cases hx : Undisturbed x
  · rw [orch_step hx] at hs ⊢
    rw [advance_idle hs]
    exact ⟨rfl, rfl⟩
  · rw [orch_abort hx]
    exact ⟨rfl, rfl⟩

/-- `boot_q` falls with the end of a verification only. -/
theorem bootQ_step (h : s.orch.bootQ = true ∨ s.edDone = true) (x : TopIn) :
    (s.step x).orch.bootQ = true ∨ (s.step x).edDone = true := by
  by_cases hd : s.edDone = true
  · exact .inr (edDone_step hd x)
  · rw [Bool.not_eq_true] at hd
    have hb := h.resolve_right (by simp [hd])
    refine .inl ?_
    have hdef : (s.orch.defaults (s.orchIn x)).bootQ = true := by
      change (s.orch.bootQ && !s.edDone) = true
      rw [hb, hd]
      rfl
    change (Orch.step _ _).bootQ = true
    rw [Orch.step]
    split_ifs
    · exact hdef
    · exact advance_bootQ.trans hdef

/-- The cores are as after a reset, as far as a session reads them. -/
structure Cleared (s : TopMost) : Prop where
  sha : s.sha.Idle
  pending : s.csr.dataPending = false
  ed : s.ed.fsm.state = .idle

namespace IsRun

theorem quiet (h : IsRun r i) (hs : (r t).orch.state = .idle) :
    (r t).orch.shaWen = false ∧ (r t).orch.edStart = false := by
  cases t with
  | zero =>
    obtain ⟨sha, regs, h0⟩ := h.reset
    rw [h0]
    exact ⟨rfl, rfl⟩
  | succ t =>
    rw [h.step t] at hs ⊢
    exact idle_quiet (r t) (i t) hs

theorem bootQ (h : IsRun r i) (t : ℕ) : (r t).orch.bootQ = true ∨ (r t).edDone = true := by
  induction t with
  | zero =>
    obtain ⟨sha, regs, h0⟩ := h.reset
    rw [h0]
    exact .inl rfl
  | succ t ih =>
    rw [h.step t]
    exact bootQ_step ih (i t)

/-- What a session reads of the past. -/
theorem clean (h : IsRun r i) (hs : (r t).orch.state = .idle) (hc : Cleared (r t)) :
    Clean (r t) := by
  obtain ⟨hw, he⟩ := h.quiet hs
  have hb : (r t).orch.bootQ = true := by
    refine (h.bootQ t).resolve_right ?_
    simp [TopMost.edDone, MasterFsm.verifyDone, hc.ed]
  exact ⟨hs, hw, hc.sha, hc.pending, hc.ed, he, hb⟩

/-- Until the first CTRL.start and the first DATA_IN write everything is as after the reset,
    whatever is aborted. -/
theorem cleared (h : IsRun r i)
    (hx : ∀ u < t, (i u).ctrlStartW = false ∧ (i u).datainWr = false) :
    (r t).orch.state = .idle ∧ Cleared (r t) := by
  induction t with
  | zero =>
    obtain ⟨sha, regs, h0⟩ := h.reset
    rw [h0]
    exact ⟨rfl, ⟨rfl, rfl⟩, rfl, rfl⟩
  | succ t ih =>
    obtain ⟨hs, hc⟩ := ih fun u hu => hx u (by omega)
    obtain ⟨hw, he⟩ := h.quiet hs
    obtain ⟨hstart, hdata⟩ := hx t (Nat.lt_succ_self t)
    rw [h.step t]
    refine ⟨?_, hc.sha.step (ShaCore.prepStart_quiet hw), ?_, ?_⟩
    · by_cases hd : Undisturbed (i t)
      · rw [orch_idle hd hs hstart]
        exact hs
      · rw [orch_abort hd]
        rfl
    · simp [TopMost.step, csrStep, hdata, hs, hc.pending]
    · change (r t).ed.fsm.nextState (r t).orch.edStart _ _ = .idle
      simp [MasterFsm.nextState, hc.ed, he]

/-- Until the registers are loaded the Ed25519 core is not started. -/
theorem calm {u : ℕ} (h : IsRun r i) (hc : Calm (r t₀)) (hu : t₀ ≤ u)
    (hx : ∀ v, t₀ ≤ v → v < u → Undisturbed (i v))
    (hn : ∀ v, t₀ ≤ v → v < u → ¬ IsLoaded (r v).orch.state) : Calm (r u) := by
  induction u, hu using Nat.le_induction with
  | base => exact hc
  | succ u hu ih =>
    rw [h.step u]
    refine (ih (fun v hv hvu => hx v hv (by omega)) fun v hv hvu => hn v hv (by omega)).step
      (hx u hu (Nat.lt_succ_self u)) fun he => hn u hu (Nat.lt_succ_self u) ?_
    rw [he]
    exact .inr (.inr (.inl rfl))

end IsRun

/-! ## A session and the first one -/

/-- A session from CTRL.start in cycle `t₀` to ST_DONE in cycle `t`, in which nothing is aborted and
    the memory has the key. -/
structure Completes (r : ℕ → TopMost) (i : ℕ → TopIn) (key : BitVec 256) (t₀ t : ℕ) : Prop where
  le : t₀ ≤ t
  idle : (r t₀).orch.state = .idle
  start : (i t₀).ctrlStartW = true
  undisturbed : ∀ u, t₀ ≤ u → u < t → Undisturbed (i u)
  otp : ∀ u, t₀ ≤ u → u < t →
    (i u).otpData = otpRdData key (r u).bootActiveO (r u).orch.otpRdEn (r u).otpAddrO
  done : (r t).orch.state = .done

/-- Firmware writes R, S and MSG_LEN before the session, and then the words of the message, one
    whenever STATUS shows that the orchestrator is ready for it. -/
structure Follows (r : ℕ → TopMost) (i : ℕ → TopIn) (m : Message) (t₀ t : ℕ) : Prop where
  rIn : Shifted (r t₀).csr.rReg m.r
  len : (r t₀).csr.msgLenCsr = BitVec.ofNat 32 m.fed.length
  still : ∀ u, t₀ ≤ u → u < t → (i u).rinWr = false ∧ (i u).sinWr = false
  ready : ∀ u, t₀ ≤ u → u < t → (i u).datainWr = true → (r u).readyBit = true
  data : ∀ u, t₀ ≤ u → u < t → (i u).datainWr = true →
    (i u).csr.wdata = m.data.getD (wordsOf TopIn.datainWr i t₀ u).length 0

/-- Two sessions get the same words: with the same accesses in each cycle, or under the protocol,
    with any timing. -/
inductive SameWritten (key : BitVec 256) (r : ℕ → TopMost) (i : ℕ → TopIn) (t₀ t : ℕ)
    (r' : ℕ → TopMost) (i' : ℕ → TopIn) (t₀' t' : ℕ) : Prop
  | accesses (h : ∀ k, t₀ + k < t → t₀' + k < t' → (i' (t₀' + k)).csr = (i (t₀ + k)).csr)
  | words (m : Message) (hk : m.key = key) (h : Follows r i m t₀ t) (h' : Follows r' i' m t₀' t')

/-- What a session shows in the end. -/
def shown (s : TopMost) : BitVec 512 × Bool × Bool :=
  (s.orch.hashReg, s.verifyDoneO, s.signatureValidO)

/-- R and S are the same in every cycle. -/
theorem regs_eq (h : IsRun r i) (h' : IsRun r' i')
    (hcsr : ∀ k, t₀ + k < t → t₀' + k < t' → (i' (t₀' + k)).csr = (i (t₀ + k)).csr)
    (hr : (r' t₀').csr.rReg = (r t₀).csr.rReg)
    (hS : (r' t₀').csr.sReg = (r t₀).csr.sReg) {n : ℕ} (hn : t₀ + n ≤ t) (hn' : t₀' + n ≤ t') :
    (r' (t₀' + n)).csr.rReg = (r (t₀ + n)).csr.rReg ∧
      (r' (t₀' + n)).csr.sReg = (r (t₀ + n)).csr.sReg := by
  induction n with
  | zero => exact ⟨hr, hS⟩
  | succ n ih =>
    obtain ⟨hr, hS⟩ := ih (by omega) (by omega)
    rw [← Nat.add_assoc, ← Nat.add_assoc, h.step, h'.step]
    exact regs_step (hcsr n (by omega) (by omega)) hr hS

namespace Completes

theorem steady (hs : Completes r i key t₀ t) (h : IsRun r i) {T : ℕ} (hT : t₀ ≤ T) :
    Steady r i T t :=
  h.steady fun u hu hut => hs.undisturbed u (by omega) hut

/-- The loading of the registers decides what a session shows. -/
theorem shown_eq (hs : Completes r i key t₀ t) (hs' : Completes r' i' key t₀' t') (h : IsRun r i)
    (h' : IsRun r' i') {T T' : ℕ} (hT : t₀ ≤ T ∧ T ≤ t) (hT' : t₀' ≤ T' ∧ T' ≤ t')
    (hl : LoadsNext (r T)) (hl' : LoadsNext (r' T')) (hc : Calm (r T)) (hc' : Calm (r' T'))
    (hkey : (r' T').orch.pubkeyReg = (r T).orch.pubkeyReg)
    (hhash : (r' T').orch.hashReg = (r T).orch.hashReg)
    (hregs : ∀ j ≤ 17, T + j < t → T' + j < t' →
      (r' (T' + j)).csr.rReg = (r (T + j)).csr.rReg ∧
        (r' (T' + j)).csr.sReg = (r (T + j)).csr.sReg) :
    (r t).shown = (r' t').shown := by
  have hst := hs.steady h hT.1
  have hst' := hs'.steady h' hT'.1
  have hle := hst.le_of_done hl hT.2 hs.done
  have hle' := hst'.le_of_done hl' hT'.2 hs'.done
  obtain ⟨hd, hh, hv⟩ := hst.outcome h hl hc hT.2 hs.done
  obtain ⟨hd', hh', hv'⟩ := hst'.outcome h' hl' hc' hT'.2 hs'.done
  have hR := (hregs 13 (by omega) (by omega) (by omega)).1
  have hS := (hregs 12 (by omega) (by omega) (by omega)).2
  rw [hkey, hhash, hR, hS, ← hv] at hv'
  rw [shown, shown, hd, hd', hh, hh', hhash, Bool.eq_iff_iff.2 hv']

/-- A session takes more than two cycles. -/
theorem lt (hs : Completes r i key t₀ t) (h : IsRun r i) : t₀ + 2 < t := by
  have hne {u : ℕ} {st : TopFsm} (hu : (r u).orch.state = st) (hst : st ≠ .done) : u ≠ t := by
    rintro rfl
    exact hst (hu.symm.trans hs.done)
  have h0 : t₀ < t := lt_of_le_of_ne hs.le (hne hs.idle (by simp))
  have hq := orch_start (hs.undisturbed t₀ le_rfl h0) hs.idle hs.start
  rw [← h.step t₀] at hq
  have h1 : t₀ + 1 < t := lt_of_le_of_ne h0 (hne (congrArg Orch.state hq) (by simp))
  have hq₁ := orch_shaCfgLen (hs.undisturbed (t₀ + 1) (Nat.le_succ t₀) h1) (congrArg Orch.state hq)
  rw [← h.step (t₀ + 1)] at hq₁
  exact lt_of_le_of_ne h1 (hne (congrArg Orch.state hq₁) (by simp))

section Accesses

variable (hs : Completes r i key t₀ t) (hs' : Completes r' i' key t₀' t') (h : IsRun r i)
  (h' : IsRun r' i')
  (hcsr : ∀ k, t₀ + k < t → t₀' + k < t' → (i' (t₀' + k)).csr = (i (t₀ + k)).csr)
include hs hs' h h' hcsr

/-- The two sessions go through the same states until they load the registers. -/
theorem alike (hc : Clean (r t₀)) (hc' : Clean (r' t₀'))
    (hr : (r' t₀').csr.rReg = (r t₀).csr.rReg) (hS : (r' t₀').csr.sReg = (r t₀).csr.sReg)
    (hl : (r' t₀').csr.msgLenCsr = (r t₀).csr.msgLenCsr) {n : ℕ} (h2 : 2 ≤ n) (hn : t₀ + n ≤ t)
    (hn' : t₀' + n ≤ t') : Alike (r (t₀ + n)) (r' (t₀' + n)) ∨
      ∃ k ≤ n, Meets (r (t₀ + k)) (r' (t₀' + k)) := by
  induction n, h2 using Nat.le_induction with
  | base =>
    have hst : Starts (r t₀) (i t₀) (i (t₀ + 1)) :=
      ⟨hc, hs.start, hs.undisturbed _ le_rfl (by omega), hs.undisturbed _ (by omega) (by omega)⟩
    have hst' : Starts (r' t₀') (i' t₀') (i' (t₀' + 1)) :=
      ⟨hc', hs'.start, hs'.undisturbed _ le_rfl (by omega), hs'.undisturbed _ (by omega) (by omega)⟩
    have ha := hst.alike hst' (hcsr 0 (by omega) (by omega)) (hcsr 1 (by omega) (by omega)) hr hS hl
    rw [← h.step, ← h.step, ← h'.step, ← h'.step] at ha
    exact .inl ha
  | succ n h2 ih =>
    rcases ih (by omega) (by omega) with ha | ⟨k, hk, hm⟩
    · have hx : SameInput key (r (t₀ + n)) (r' (t₀' + n)) (i (t₀ + n)) (i' (t₀' + n)) :=
        ⟨hcsr n (by omega) (by omega), hs.undisturbed _ (by omega) (by omega),
          hs.otp _ (by omega) (by omega), hs'.otp _ (by omega) (by omega)⟩
      rw [← Nat.add_assoc, ← Nat.add_assoc, h.step, h'.step]
      rcases ha.step hx with ha | hm
      · exact .inl ha
      · refine .inr ⟨n + 1, le_rfl, ?_⟩
        rw [← Nat.add_assoc, ← Nat.add_assoc, h.step, h'.step]
        exact hm
    · exact .inr ⟨k, by omega, hm⟩

/-- The sessions load the registers in the same cycle. -/
theorem meets (hc : Clean (r t₀)) (hc' : Clean (r' t₀'))
    (hr : (r' t₀').csr.rReg = (r t₀).csr.rReg) (hS : (r' t₀').csr.sReg = (r t₀).csr.sReg)
    (hl : (r' t₀').csr.msgLenCsr = (r t₀).csr.msgLenCsr) :
    ∃ k, t₀ + k ≤ t ∧ t₀' + k ≤ t' ∧ Meets (r (t₀ + k)) (r' (t₀' + k)) := by
  have hlt := hs.lt h
  have hlt' := hs'.lt h'
  -- until one of them has ended
  obtain ⟨n, hn2, hn, hn', hend⟩ : ∃ n, 2 ≤ n ∧ t₀ + n ≤ t ∧ t₀' + n ≤ t' ∧
      (t₀ + n = t ∨ t₀' + n = t') := by
    rcases le_total (t - t₀) (t' - t₀') with hle | hle
    · exact ⟨t - t₀, by omega, by omega, by omega, .inl (by omega)⟩
    · exact ⟨t' - t₀', by omega, by omega, by omega, .inr (by omega)⟩
  rcases hs.alike hs' h h' hcsr hc hc' hr hS hl hn2 hn hn' with ha | ⟨k, hk, hm⟩
  · have hst : (r' (t₀' + n)).orch.state = (r (t₀ + n)).orch.state :=
      Orch.of_clear Orch.state (fun _ => rfl) ha.orch
    have hdone : (r (t₀ + n)).orch.state = .done := by
      rcases hend with he | he
      · rw [he]
        exact hs.done
      · rw [← hst, he]
        exact hs'.done
    rcases ha.front_or with hf | hf <;> simp [hdone, Orch.front] at hf
  · exact ⟨k, by omega, by omega, hm⟩

end Accesses

/-- A session under the protocol. -/
theorem runs {m : Message} (hs : Completes r i key t₀ t) (h : IsRun r i) (hc : Clean (r t₀))
    (hf : Follows r i m t₀ t) (hk : m.key = key) : Runs r i m t₀ t where
  step u _ _ := h.step u
  undisturbed := hs.undisturbed
  rest := ⟨hc.state, hc.wen, hc.sha, hc.pending⟩
  start := hs.start
  len := hf.len
  rIn := hf.rIn
  rDone u hu hut := (hf.still u hu hut).1
  ready := hf.ready
  data := hf.data
  otp u hu hut he := by
    have hcalm : Calm (r u) := calm_of_otpRdEn hc.calm hu
      (fun v hv hvu => ⟨h.step v, hs.undisturbed v hv (by omega)⟩) he
    refine hcalm.otpData he ?_
    rw [hk]
    exact hs.otp u hu hut

/-- S is the same in every cycle of the protocol. -/
theorem sReg {m : Message} (h : IsRun r i) (hf : Follows r i m t₀ t) {u : ℕ} (hu : t₀ ≤ u)
    (hut : u ≤ t) : (r u).csr.sReg = (r t₀).csr.sReg :=
  Sync.kept_between (f := fun v => (r v).csr.sReg) hu fun v hv hvu => by
    rw [h.step v]
    simp [TopMost.step, csrStep, (hf.still v hv (by omega)).2]

/-- The cycle in which a session under the protocol begins to load the registers. -/
theorem entered {m : Message} (hs : Completes r i key t₀ t) (h : IsRun r i) (hc : Clean (r t₀))
    (hf : Follows r i m t₀ t) (hk : m.key = key) :
    ∃ T, t₀ < T ∧ T ≤ t ∧ LoadsNext (r T) ∧ Calm (r T) ∧ Loaded m (r T) := by
  have hrun := hs.runs h hc hf hk
  have hlt := hs.lt h
  rcases hrun.entered (t := t) (by omega) le_rfl with hno | ⟨T, hT, hTt, hl, hno⟩
  · refine absurd ?_ (hno t hs.le le_rfl)
    rw [hs.done]
    exact .inr (.inr (.inr (.inr rfl)))
  · exact ⟨T, hT, hTt, hl,
      h.calm hc.calm hT.le (fun v hv hvT => hs.undisturbed v hv (by omega)) hno,
      ((hrun.part hTt).loaded hT (.inl hl.state)).1⟩

end Completes

/-- **A session that starts with the cores cleared ends as the first one after a reset**: two
    sessions with the same R, S, MSG_LEN, key and words show the same digest and the same verdict,
    whatever came before the one, and whenever `start_verify_i` comes. -/
theorem session_fresh (h : IsRun r i) (h' : IsRun r' i') (hs : Completes r i key t₀ t)
    (hs' : Completes r' i' key t₀' t') (hc : Cleared (r t₀))
    (hfirst : ∀ u < t₀', (i' u).ctrlStartW = false ∧ (i' u).datainWr = false)
    (hr : (r' t₀').csr.rReg = (r t₀).csr.rReg) (hS : (r' t₀').csr.sReg = (r t₀).csr.sReg)
    (hl : (r' t₀').csr.msgLenCsr = (r t₀).csr.msgLenCsr)
    (hw : SameWritten key r i t₀ t r' i' t₀' t') : (r t).shown = (r' t').shown := by
  have hcl : Clean (r t₀) := h.clean hs.idle hc
  have hcl' : Clean (r' t₀') := h'.clean hs'.idle (h'.cleared hfirst).2
  cases hw with
  | accesses hcsr =>
    obtain ⟨k, hk, hk', hm⟩ := hs.meets hs' h h' hcsr hcl hcl' hr hS hl
    refine hs.shown_eq hs' h h' ⟨Nat.le_add_right t₀ k, hk⟩ ⟨Nat.le_add_right t₀' k, hk'⟩ hm.loads
      hm.loads' hm.calm hm.calm' hm.key hm.hash fun j _ hj hj' => ?_
    rw [Nat.add_assoc, Nat.add_assoc]
    exact regs_eq h h' hcsr hr hS (by omega) (by omega)
  | words m hkey hf hf' =>
    obtain ⟨T, hT, hTt, hlo, hca, hld⟩ := hs.entered h hcl hf hkey
    obtain ⟨T', hT', hTt', hlo', hca', hld'⟩ := hs'.entered h' hcl' hf' hkey
    refine hs.shown_eq hs' h h' ⟨hT.le, hTt⟩ ⟨hT'.le, hTt'⟩ hlo hlo' hca hca'
      (BitVec.eq_of_toNat_eq (hld'.key.trans hld.key.symm))
      (BitVec.eq_of_toNat_eq (hld'.hash.trans hld.hash.symm)) fun j _ hj hj' => ⟨?_, ?_⟩
    · have hreg := (hs.runs h hcl hf hkey).rReg (t := T + j) (by omega) hj.le
      have hreg' := (hs'.runs h' hcl' hf' hkey).rReg (t := T' + j) (by omega) hj'.le
      exact BitVec.eq_of_toNat_eq
        ((hreg'.eq (by rw [m.length_r])).trans (hreg.eq (by rw [m.length_r])).symm)
    · rw [Completes.sReg h hf (show t₀ ≤ T + j by omega) hj.le,
        Completes.sReg h' hf' (show t₀' ≤ T' + j by omega) hj'.le, hS]

/-! ## A message without data words -/

/-- R = 1, and the key 1: both stand for the neutral point. -/
def oneMessage : Message := ⟨[0x01000000, 0, 0, 0, 0, 0, 0, 0], 0x01000000, [], rfl, by decide⟩

/-- Accesses at fixed times, with `start_verify_i` high. -/
def accessIn (f : ℕ → ObiReq) (t : ℕ) (s : TopMost) : TopIn where
  csr := f t
  startVerify := true
  otpData := otpRdData oneMessage.key s.bootActiveO s.orch.otpRdEn s.otpAddrO

def accessRun (f : ℕ → ObiReq) : ℕ → TopMost
  | 0 => reset ShaCore.blank fun _ => 0
  | t + 1 => (accessRun f t).step (accessIn f t (accessRun f t))

def accesses (f : ℕ → ObiReq) (t : ℕ) : TopIn := accessIn f t (accessRun f t)

/-- The same run in a form that can be evaluated. -/
def evalRun (f : ℕ → ObiReq) : ℕ → TopMost
  | 0 => reset ShaCore.blank fun _ => 0
  | t + 1 => { (evalRun f t).step (accessIn f t (evalRun f t)) with
      sha := (evalRun f t).sha.evalStep (evalRun f t).shaIn }

theorem accessRun_eq_evalRun : accessRun = evalRun := by
  funext f t
  induction t with
  | zero => rfl
  | succ t ih =>
    rw [accessRun, evalRun, ih, ← ShaCore.step_eq_evalStep]
    rfl

def startWrite : ObiReq := ⟨true, 0x000, true, 0xF, 1⟩

def abortWrite : ObiReq := ⟨true, 0x000, true, 0xF, 2⟩

def lenWrite (n : BitVec 32) : ObiReq := ⟨true, 0x008, true, 0xF, n⟩

def dataWrite (w : BitVec 32) : ObiReq := ⟨true, 0x014, true, 0xF, w⟩

/-- S, with the last word `w`. -/
def oneS (w : BitVec 32) : List (BitVec 32) := [0, 0, 0, 0, 0, 0, 0, w]

/-- One session without data words, from a clean state on, and nothing after it. -/
structure Alone (f : ℕ → ObiReq) (w : BitVec 32) (t₀ : ℕ) : Prop where
  clean : Clean (accessRun f t₀)
  start : f t₀ = startWrite
  quiet : ∀ u, t₀ < u → f u = ObiReq.idle
  rIn : Shifted (accessRun f t₀).csr.rReg oneMessage.r
  sReg : (accessRun f t₀).csr.sReg.toNat = leInt (wordBytes (oneS w))
  msgLen : (accessRun f t₀).csr.msgLenCsr = 16

theorem accessRun_isRun (f : ℕ → ObiReq) : IsRun (accessRun f) (accesses f) :=
  ⟨⟨_, _, rfl⟩, fun _ => rfl⟩

theorem accessRun_eq {f g : ℕ → ObiReq} (h : ∀ u < t, g u = f u) :
    accessRun g t = accessRun f t := by
  induction t with
  | zero => rfl
  | succ t ih =>
    rw [accessRun, accessRun, ih fun u hu => h u (by omega), accessIn, accessIn,
      h t (Nat.lt_succ_self t)]

/-- An access that writes no register and aborts nothing. -/
structure Inert (x : TopIn) : Prop where
  undisturbed : Undisturbed x
  rinWr : x.rinWr = false
  sinWr : x.sinWr = false
  msglenWr : x.msglenWr = false
  datainWr : x.datainWr = false

theorem accesses_inert {f : ℕ → ObiReq} (h : f t = startWrite ∨ f t = ObiReq.idle) :
    Inert (accesses f t) := by
  have hcsr : (accesses f t).csr = f t := rfl
  constructor
  all_goals
    simp only [Undisturbed, TopIn.ctrlSoftrstW, TopIn.ctrlAbortW, TopIn.ctrlWr, TopIn.rinWr,
      TopIn.sinWr, TopIn.msglenWr, TopIn.datainWr, TopIn.writes, hcsr]
    rcases h with h | h <;> rw [h] <;> rfl

/-- Neither a start nor a word of the message aborts anything. -/
theorem accesses_undisturbed {f : ℕ → ObiReq}
    (h : f t = startWrite ∨ f t = ObiReq.idle ∨ ∃ w, f t = dataWrite w) :
    Undisturbed (accesses f t) := by
  have hcsr : (accesses f t).csr = f t := rfl
  simp only [Undisturbed, TopIn.ctrlSoftrstW, TopIn.ctrlAbortW, TopIn.ctrlWr, TopIn.writes, hcsr]
  rcases h with h | h | ⟨w, h⟩ <;> rw [h] <;> rfl

/-- A session that comes to load the registers reaches ST_DONE. -/
theorem completes_of_loads {f : ℕ → ObiReq} {T : ℕ} (hs : (accessRun f t₀).orch.state = .idle)
    (hstart : f t₀ = startWrite) (hx : ∀ u, t₀ ≤ u → Undisturbed (accesses f u)) (hT : t₀ ≤ T)
    (hl : LoadsNext (accessRun f T)) (hc : Calm (accessRun f T)) :
    ∃ t, Completes (accessRun f) (accesses f) oneMessage.key t₀ t ∧
      (accessRun f t).orch.hashReg = (accessRun f T).orch.hashReg := by
  have hrun := accessRun_isRun f
  have hst : Steady (accessRun f) (accesses f) T (T + 18) :=
    hrun.steady fun u hu _ => hx u (by omega)
  obtain ⟨t, ht, hd⟩ := (hst.verifying hl hc le_rfl).ends hrun (fun u hu => hx u (by omega))
    (hst.primed hl hc le_rfl).preloaded le_rfl rfl
  have hstart' : (accesses f t₀).ctrlStartW = true := by
    have hcsr : (accesses f t₀).csr = startWrite := hstart
    simp only [TopIn.ctrlStartW, TopIn.ctrlWr, TopIn.writes, hcsr]
    rfl
  have hend : Steady (accessRun f) (accesses f) T t := hrun.steady fun u hu _ => hx u (by omega)
  exact ⟨t, ⟨by omega, hs, hstart', fun u hu _ => hx u hu, fun _ _ _ => rfl, hd⟩,
    (hend.kept (.inl hl.state) (by omega) le_rfl).2.2⟩

/-- Without data words STATUS never shows that the orchestrator is ready. -/
theorem Runs.not_ready {m : Message} {t₁ : ℕ} (h : Runs r i m t₀ t₁) (hd : m.data = [])
    (ht : t₀ ≤ t) (ht₁ : t ≤ t₁) : (r t).readyBit = false := by
  rcases ht.eq_or_lt with rfl | hlt
  · simp [readyBit, h.rest.state]
  · rcases h.at_of_lt hlt ht₁ with ⟨k, n, hi, -⟩ | ⟨hl, -⟩
    · have hlen := m.length_fed
      have hst := hi.stage
      rw [hd] at hlen
      cases hst with
      | waitData _ h16 hk hs hf h32 =>
        rw [hlen] at hk
        exact absurd hk (Nat.not_lt.2 h16)
      | _ => simp_all [readyBit]
    · exact hl.not_ready

/-- The verdict of the neutral point. -/
theorem accepted_one (S : Word) (h : BitVec 512) : Accepted S 1 1 h ↔ S.toNat ≡ 0 [MOD ell] := by
  have heq := (signaturePoint_represents S).eq_iff
    (hashPoint_represents h.toNat encodesModulo_one encodesModulo_one)
  rw [Accepted, SameRatios, heq, ← basePoint_smul_eq_iff, Edwards.Point.neutral_eq,
    Edwards.Point.add_eq, Edwards.Point.smul_eq_nsmul, Edwards.Point.smul_eq_nsmul,
    Edwards.Point.smul_eq_nsmul, nsmul_zero, zero_nsmul, add_zero]

namespace Alone

variable {f : ℕ → ObiReq} {w : BitVec 32}

theorem inert (h : Alone f w t₀) (ht : t₀ ≤ t) : Inert (accesses f t) := by
  refine accesses_inert ?_
  rcases ht.eq_or_lt with rfl | hlt
  · exact .inl h.start
  · exact .inr (h.quiet t hlt)

theorem follows (h : Alone f w t₀) (t : ℕ) :
    Follows (accessRun f) (accesses f) oneMessage t₀ t where
  rIn := h.rIn
  len := h.msgLen
  still _ hu _ := ⟨(h.inert hu).rinWr, (h.inert hu).sinWr⟩
  ready _ hu _ hd := absurd ((h.inert hu).datainWr.symm.trans hd) Bool.false_ne_true
  data _ hu _ hd := absurd ((h.inert hu).datainWr.symm.trans hd) Bool.false_ne_true

theorem runs (h : Alone f w t₀) (t : ℕ) : Runs (accessRun f) (accesses f) oneMessage t₀ t where
  step u _ _ := rfl
  undisturbed u hu _ := (h.inert hu).undisturbed
  rest := ⟨h.clean.state, h.clean.wen, h.clean.sha, h.clean.pending⟩
  start := by
    have hcsr : (accesses f t₀).csr = startWrite := h.start
    simp only [TopIn.ctrlStartW, TopIn.ctrlWr, TopIn.writes, hcsr]
    rfl
  len := (h.follows t).len
  rIn := (h.follows t).rIn
  rDone u hu _ := (h.inert hu).rinWr
  ready := (h.follows t).ready
  data := (h.follows t).data
  otp u hu _ he := (calm_of_otpRdEn h.clean.calm hu
    (fun v hv _ => ⟨rfl, (h.inert hv).undisturbed⟩) he).otpData he rfl

/-- The session reaches ST_DONE. -/
theorem completes (h : Alone f w t₀) :
    ∃ t, Completes (accessRun f) (accesses f) oneMessage.key t₀ t := by
  have hx (u : ℕ) (hu : t₀ ≤ u) : Undisturbed (accesses f u) := (h.inert hu).undisturbed
  obtain ⟨T, hT, hl, hno⟩ := Runs.enters h.runs fun t ht hr =>
    absurd (((h.runs t).not_ready rfl ht le_rfl).symm.trans hr) Bool.false_ne_true
  have hc : Calm (accessRun f T) :=
    (accessRun_isRun f).calm h.clean.calm hT.le (fun v hv _ => hx v hv) hno
  obtain ⟨t, ht, -⟩ := completes_of_loads h.clean.state h.start hx hT.le hl hc
  exact ⟨t, ht⟩

/-- The verdict is that on S. -/
theorem verdict (h : Alone f w t₀) (hs : Completes (accessRun f) (accesses f) oneMessage.key t₀ t) :
    (accessRun f t).signatureValidO = true ↔ leInt (wordBytes (oneS w)) ≡ 0 [MOD ell] := by
  have hrun := accessRun_isRun f
  obtain ⟨T, hT, hTt, hl, hc, hld⟩ := hs.entered hrun h.clean (h.follows t) rfl
  have hst := hs.steady hrun hT.le
  have hle := hst.le_of_done hl hTt hs.done
  obtain ⟨-, -, hv⟩ := hst.outcome hrun hl hc hTt hs.done
  have hR : (accessRun f (T + 13)).csr.rReg = 1 := by
    have hreg := (h.runs t).rReg (t := T + 13) (by omega) (by omega)
    exact BitVec.eq_of_toNat_eq (hreg.eq rfl)
  have hkey : (accessRun f T).orch.pubkeyReg = 1 := BitVec.eq_of_toNat_eq hld.key
  rw [hv, hR, hkey, accepted_one,
    Completes.sReg hrun (h.follows t) (show t₀ ≤ T + 12 by omega) (by omega), h.sReg]

end Alone

/-! ## Aborted sessions -/

/-- Firmware writes R = 1, S and MSG_LEN = 16 and starts a session. -/
def soloWrites (w : BitVec 32) (t : ℕ) : ObiReq :=
  if t < 8 then ⟨true, 0x00C, true, 0xF, if t = 0 then 0x01000000 else 0⟩
  else if t < 16 then ⟨true, 0x010, true, 0xF, if t = 15 then w else 0⟩
  else if t = 16 then lenWrite 16
  else if t = 17 then startWrite
  else ObiReq.idle

/-- A session with S = 0 that is aborted in cycle `T`; then another last word of S, and a second
    session. -/
def abortedWrites (T : ℕ) (w : BitVec 32) (t : ℕ) : ObiReq :=
  if t < T then soloWrites 0 t
  else if t = T then abortWrite
  else if t = T + 1 then ⟨true, 0x010, true, 0xF, w⟩
  else if t = T + 2 then startWrite
  else ObiReq.idle

theorem solo_first (w : BitVec 32) {u : ℕ} (hu : u < 17) :
    (accesses (soloWrites w) u).ctrlStartW = false ∧
      (accesses (soloWrites w) u).datainWr = false := by
  interval_cases u <;> exact ⟨rfl, rfl⟩

theorem solo (w : BitVec 32) : Alone (soloWrites w) w 17 where
  clean := by
    obtain ⟨hs, hc⟩ := (accessRun_isRun (soloWrites w)).cleared fun _ => solo_first w
    exact (accessRun_isRun _).clean hs hc
  start := rfl
  quiet u hu := by
    simp only [soloWrites]
    split_ifs <;> first | omega | rfl
  rIn := by
    have hr : wordsOf TopIn.rinWr (accesses (soloWrites w)) 0 17 = oneMessage.r := by
      simp [wordsOf, accesses, accessIn, soloWrites, lenWrite, TopIn.rinWr, TopIn.writes,
        TopIn.rinOff, oneMessage]
    have hs := Boots.shifted (accessRun_isRun (soloWrites w)) TopIn.rinWr (fun s => s.csr.rReg)
      (fun _ _ => rfl) (t := 17) (by rw [hr, oneMessage.length_r])
    rwa [hr] at hs
  sReg := by
    have hS : wordsOf TopIn.sinWr (accesses (soloWrites w)) 0 17 = oneS w := by
      simp [wordsOf, accesses, accessIn, soloWrites, lenWrite, TopIn.sinWr, TopIn.writes,
        TopIn.sinOff, oneS]
    have hs := Boots.shifted (accessRun_isRun (soloWrites w)) TopIn.sinWr (fun s => s.csr.sReg)
      (fun _ _ => rfl) (t := 17) (by rw [hS]; rfl)
    rw [hS] at hs
    exact hs.eq rfl
  msgLen := by
    have hl : Sync.last (fun t => if (accesses (soloWrites w) t).msglenWr then
      some (accesses (soloWrites w) t).csr.wdata else none) 17 = some 16 := rfl
    exact Boots.last_msgLen (accessRun_isRun _) hl

theorem aborted_access (T : ℕ) (w : BitVec 32) :
    abortedWrites T w T = abortWrite ∧
      abortedWrites T w (T + 1) = ⟨true, 0x010, true, 0xF, w⟩ ∧
      abortedWrites T w (T + 2) = startWrite ∧
      ∀ u, T + 2 < u → abortedWrites T w u = ObiReq.idle := by
  refine ⟨?_, ?_, ?_, fun u hu => ?_⟩
  all_goals
    simp only [abortedWrites]
    split_ifs <;> first | omega | rfl

/-- The accesses of the second session are those of a first one. -/
theorem aborted_same (T : ℕ) (w : BitVec 32) (k : ℕ) :
    soloWrites w (17 + k) = abortedWrites T w (T + 2 + k) := by
  obtain ⟨-, -, hstart, hidle⟩ := aborted_access T w
  rcases Nat.eq_zero_or_pos k with rfl | hk
  · exact (solo w).start.trans hstart.symm
  · exact ((solo w).quiet (17 + k) (by omega)).trans (hidle (T + 2 + k) (by omega)).symm

/-- A session aborted in ST_LOAD_REGS leaves the cores cleared; its R and MSG_LEN are still there for
    the next one. -/
theorem aborted_loading : (accessRun (abortedWrites 170 1) 170).orch.state = .loadRegs ∧
    Cleared (accessRun (abortedWrites 170 1) 172) ∧ Alone (abortedWrites 170 1) 1 172 := by
  obtain ⟨hload, hidle, hcs, hcq, hcp, hce, hR, hS, hl⟩ :
      (evalRun (abortedWrites 170 1) 170).orch.state = .loadRegs ∧
        (evalRun (abortedWrites 170 1) 172).orch.state = .idle ∧
        (evalRun (abortedWrites 170 1) 172).sha.state = .idle ∧
        (evalRun (abortedWrites 170 1) 172).sha.prep.state = .idle ∧
        (evalRun (abortedWrites 170 1) 172).csr.dataPending = false ∧
        (evalRun (abortedWrites 170 1) 172).ed.fsm.state = .idle ∧
        (evalRun (abortedWrites 170 1) 172).csr.rReg = (evalRun (soloWrites 1) 17).csr.rReg ∧
        (evalRun (abortedWrites 170 1) 172).csr.sReg = (evalRun (soloWrites 1) 17).csr.sReg ∧
        (evalRun (abortedWrites 170 1) 172).csr.msgLenCsr = 16 := by
    decide +kernel
  rw [← accessRun_eq_evalRun] at hload hidle hcs hcq hcp hce hR hS hl
  have hc : Cleared (accessRun (abortedWrites 170 1) 172) := ⟨⟨hcs, hcq⟩, hcp, hce⟩
  obtain ⟨-, -, hstart, hquiet⟩ := aborted_access 170 1
  exact ⟨hload, hc, (accessRun_isRun _).clean hidle hc, hstart, hquiet, by rw [hR]; exact (solo 1).rIn,
    by rw [hS]; exact (solo 1).sReg, hl⟩

/-- The session after an abort in ST_LOAD_REGS shows what it would have shown after a reset. -/
theorem session_fresh_loading : ∃ t t',
    (accessRun (abortedWrites 170 1) 170).orch.state = .loadRegs ∧
    (accesses (abortedWrites 170 1) 170).ctrlAbortW = true ∧
    Completes (accessRun (abortedWrites 170 1)) (accesses (abortedWrites 170 1)) oneMessage.key 172
      t ∧
    Completes (accessRun (soloWrites 1)) (accesses (soloWrites 1)) oneMessage.key 17 t' ∧
    (accessRun (abortedWrites 170 1) t).shown = (accessRun (soloWrites 1) t').shown := by
  obtain ⟨hload, hc, hal⟩ := aborted_loading
  obtain ⟨t, hs⟩ := hal.completes
  obtain ⟨t', hs'⟩ := (solo 1).completes
  have hR : (accessRun (soloWrites 1) 17).csr.rReg =
      (accessRun (abortedWrites 170 1) 172).csr.rReg :=
    BitVec.eq_of_toNat_eq (((solo 1).rIn.eq rfl).trans (hal.rIn.eq rfl).symm)
  have hS : (accessRun (soloWrites 1) 17).csr.sReg =
      (accessRun (abortedWrites 170 1) 172).csr.sReg :=
    BitVec.eq_of_toNat_eq ((solo 1).sReg.trans hal.sReg.symm)
  exact ⟨t, t', hload, rfl, hs, hs', session_fresh (accessRun_isRun _) (accessRun_isRun _) hs hs' hc
    (fun _ => solo_first 1) hR hS ((solo 1).msgLen.trans hal.msgLen.symm)
    (.accesses fun k _ _ => aborted_same 170 1 k)⟩

/-! ## What an aborted session leaves behind -/

/-- A session of `f` and a first one of `g` get the same R, S, MSG_LEN and accesses, and show
    different things. -/
structure Influenced (f g : ℕ → ObiReq) (t₀ t₀' t t' : ℕ) : Prop where
  isRun : IsRun (accessRun f) (accesses f)
  isRun' : IsRun (accessRun g) (accesses g)
  completes : Completes (accessRun f) (accesses f) oneMessage.key t₀ t
  completes' : Completes (accessRun g) (accesses g) oneMessage.key t₀' t'
  first : ∀ u < t₀', (accesses g u).ctrlStartW = false ∧ (accesses g u).datainWr = false
  rReg : (accessRun g t₀').csr.rReg = (accessRun f t₀).csr.rReg
  sReg : (accessRun g t₀').csr.sReg = (accessRun f t₀).csr.sReg
  msgLen : (accessRun g t₀').csr.msgLenCsr = (accessRun f t₀).csr.msgLenCsr
  same : ∀ k, (accesses g (t₀' + k)).csr = (accesses f (t₀ + k)).csr
  shown : (accessRun f t).shown ≠ (accessRun g t').shown

/-- What an evaluation tells of a session: it starts in cycle `t₀`, and comes in cycle `T` to load
    the registers, with the digest `d` in the lowest word. -/
structure Evaluated (f : ℕ → ObiReq) (t₀ T : ℕ) (d : BitVec 32) : Prop where
  state : (accessRun f t₀).orch.state = .idle
  start : f t₀ = startWrite
  loads : LoadsNext (accessRun f T)
  calm : Calm (accessRun f T)
  digest : (accessRun f T).orch.hashReg.extractLsb' 0 32 = d

theorem Evaluated.of_evalRun {f : ℕ → ObiReq} {T : ℕ} {d : BitVec 32} (hf : f t₀ = startWrite)
    (h : (evalRun f t₀).orch.state = .idle ∧
      ((evalRun f T).orch.state = .loadRegs ∧ (evalRun f T).orch.loadIdx = 0) ∧
      ((evalRun f T).ed.fsm.state = .idle ∧ (evalRun f T).orch.edStart = false ∧
        (evalRun f T).orch.bootQ = true) ∧
      (evalRun f T).orch.hashReg.extractLsb' 0 32 = d) : Evaluated f t₀ T d := by
  rw [← accessRun_eq_evalRun] at h
  obtain ⟨hs, ⟨hl, hi⟩, ⟨he, hn, hb⟩, hd⟩ := h
  exact ⟨hs, hf, ⟨hl, hi⟩, ⟨he, hn, hb⟩, hd⟩

/-- Two sessions with the same accesses and different digests. -/
theorem Evaluated.influenced {f g : ℕ → ObiReq} {T T' : ℕ} {d d' : BitVec 32}
    (h : Evaluated f t₀ T d) (h' : Evaluated g t₀' T' d') (hd : d ≠ d') (hT : t₀ ≤ T)
    (hT' : t₀' ≤ T')
    (hfirst : ∀ u < t₀', (accesses g u).ctrlStartW = false ∧ (accesses g u).datainWr = false)
    (hcsr : (evalRun g t₀').csr.rReg = (evalRun f t₀).csr.rReg ∧
      (evalRun g t₀').csr.sReg = (evalRun f t₀).csr.sReg ∧
      (evalRun g t₀').csr.msgLenCsr = (evalRun f t₀).csr.msgLenCsr)
    (hsame : ∀ k, g (t₀' + k) = f (t₀ + k))
    (hx : ∀ k, g (t₀' + k) = startWrite ∨ g (t₀' + k) = ObiReq.idle ∨
      ∃ w, g (t₀' + k) = dataWrite w) : ∃ t t', Influenced f g t₀ t₀' t t' := by
  have hxg (u : ℕ) (hu : t₀' ≤ u) : Undisturbed (accesses g u) := by
    obtain ⟨k, rfl⟩ := Nat.exists_eq_add_of_le hu
    exact accesses_undisturbed (hx k)
  have hxf (u : ℕ) (hu : t₀ ≤ u) : Undisturbed (accesses f u) := by
    obtain ⟨k, rfl⟩ := Nat.exists_eq_add_of_le hu
    exact accesses_undisturbed (hsame k ▸ hx k)
  obtain ⟨t, ht, hh⟩ := completes_of_loads h.state h.start hxf hT h.loads h.calm
  obtain ⟨t', ht', hh'⟩ := completes_of_loads h'.state h'.start hxg hT' h'.loads h'.calm
  rw [← accessRun_eq_evalRun] at hcsr
  refine ⟨t, t', accessRun_isRun f, accessRun_isRun g, ht, ht', hfirst, hcsr.1, hcsr.2.1, hcsr.2.2,
    hsame, fun he => hd ?_⟩
  rw [← h.digest, ← h'.digest, ← hh, ← hh']
  exact congrArg (BitVec.extractLsb' 0 32) (congrArg Prod.fst he)

/-- A first session that waits for a word is aborted with half a block in the SHA core; the second
    one has no data words. -/
def staleBlock (t : ℕ) : ObiReq :=
  if t = 16 then lenWrite 17
  else if t = 60 then abortWrite
  else if t = 61 then lenWrite 16
  else if t = 62 then startWrite
  else soloWrites 0 t

/-- The second session, with MSG_LEN = 0, is configured and aborted during the rounds of the first;
    the third one starts when the SHA core is idle. -/
def stalePadding (t : ℕ) : ObiReq :=
  if t = 60 then abortWrite
  else if t = 61 then lenWrite 0
  else if t = 62 then startWrite
  else if t = 70 then abortWrite
  else if t = 71 then lenWrite 16
  else if t = 160 then startWrite
  else soloWrites 0 t

/-- A first session is aborted with a word in DATA_IN; the second one gets another word. -/
def staleWord (t : ℕ) : ObiReq :=
  if t = 16 then lenWrite 17
  else if t = 18 then dataWrite 1
  else if t = 19 then abortWrite
  else if t = 20 then startWrite
  else if t = 60 then dataWrite 2
  else soloWrites 0 t

/-- The second session of `staleWord` alone. -/
def freshWord (t : ℕ) : ObiReq :=
  if t = 16 then lenWrite 17
  else if t = 57 then dataWrite 2
  else soloWrites 0 t

theorem solo_evaluated : Evaluated (soloWrites 0) 17 164 3020146415 :=
  .of_evalRun rfl (by decide +kernel)

theorem staleBlock_same (k : ℕ) : soloWrites 0 (17 + k) = staleBlock (62 + k) := by
  rcases Nat.eq_zero_or_pos k with rfl | hk
  · rfl
  · rw [staleBlock, if_neg (by omega), if_neg (by omega), if_neg (by omega), if_neg (by omega),
      (solo 0).quiet _ (by omega), (solo 0).quiet _ (by omega)]

theorem stalePadding_same (k : ℕ) : soloWrites 0 (17 + k) = stalePadding (160 + k) := by
  rcases Nat.eq_zero_or_pos k with rfl | hk
  · rfl
  · rw [stalePadding, if_neg (by omega), if_neg (by omega), if_neg (by omega), if_neg (by omega),
      if_neg (by omega), if_neg (by omega), (solo 0).quiet _ (by omega), (solo 0).quiet _ (by omega)]

/-- The accesses of the second session of `staleWord`. -/
theorem freshWord_same (k : ℕ) : freshWord (17 + k) = staleWord (20 + k) ∧
    (freshWord (17 + k) = startWrite ∨ freshWord (17 + k) = ObiReq.idle ∨
      ∃ w, freshWord (17 + k) = dataWrite w) := by
  by_cases h0 : k = 0
  · subst h0
    exact ⟨rfl, .inl rfl⟩
  by_cases h40 : k = 40
  · subst h40
    exact ⟨rfl, .inr (.inr ⟨2, rfl⟩)⟩
  have hf : freshWord (17 + k) = ObiReq.idle := by
    rw [freshWord, if_neg (by omega), if_neg (by omega), (solo 0).quiet _ (by omega)]
  refine ⟨?_, .inr (.inl hf)⟩
  rw [hf, staleWord, if_neg (by omega), if_neg (by omega), if_neg (by omega), if_neg (by omega),
    if_neg (by omega), (solo 0).quiet _ (by omega)]

theorem solo_accesses (k : ℕ) : soloWrites 0 (17 + k) = startWrite ∨
    soloWrites 0 (17 + k) = ObiReq.idle ∨ ∃ w, soloWrites 0 (17 + k) = dataWrite w := by
  rcases Nat.eq_zero_or_pos k with rfl | hk
  · exact .inl rfl
  · exact .inr (.inl ((solo 0).quiet _ (by omega)))

theorem staleBlock_influenced : ∃ t t', Influenced staleBlock (soloWrites 0) 62 17 t t' := by
  have h : Evaluated staleBlock 62 306 2909484339 := .of_evalRun rfl (by decide +kernel)
  exact h.influenced solo_evaluated (by decide) (by decide) (by decide) (fun _ => solo_first 0)
    (by decide +kernel) staleBlock_same solo_accesses

theorem stalePadding_influenced : ∃ t t', Influenced stalePadding (soloWrites 0) 160 17 t t' := by
  have h : Evaluated stalePadding 160 297 917757052 := .of_evalRun rfl (by decide +kernel)
  exact h.influenced solo_evaluated (by decide) (by decide) (by decide) (fun _ => solo_first 0)
    (by decide +kernel) stalePadding_same solo_accesses

theorem staleWord_influenced : ∃ t t', Influenced staleWord freshWord 20 17 t t' := by
  have h : Evaluated staleWord 20 167 3416205454 := .of_evalRun rfl (by decide +kernel)
  have h' : Evaluated freshWord 17 176 3045039062 := .of_evalRun rfl (by decide +kernel)
  refine h.influenced h' (by decide) (by decide) (by decide) (fun u hu => ?_) (by decide +kernel)
    (fun k => (freshWord_same k).1) fun k => (freshWord_same k).2
  interval_cases u <;> exact ⟨rfl, rfl⟩

/-- The verdict of the Ed25519 core stands. -/
theorem signatureValidO_step (h : s.signatureValidO = true) (x : TopIn) :
    s.edDone = true ∧ (s.step x).signatureValidO = true := by
  obtain ⟨hst, hf⟩ : s.ed.fsm.state = .done ∧ (s.ed.fsm.xEqFlag && s.ed.fsm.yEqFlag) = true := by
    simpa [signatureValidO, MasterFsm.signatureValid] using h
  refine ⟨by simp [edDone, MasterFsm.verifyDone, hst], ?_⟩
  change (MasterFsm.step _ _ _ _ _).signatureValid = true
  simpa [MasterFsm.step, MasterFsm.nextState, MasterFsm.shadow, MasterFsm.signatureValid, hst]
    using hf

/-- Once the core has ended, a session that loads the registers goes on to ST_DONE at once. -/
theorem Steady.done {T : ℕ} (h : Steady r i T (T + 21)) (hl : LoadsNext (r T))
    (hs : (i (T + 18)).startVerify = true) (hd : (r (T + 20)).edDone = true) :
    (r (T + 21)).orch.state = .done := by
  have hx (j : ℕ) (hj : j < 21) := h.undisturbed (T + j) (by omega) (by omega)
  have hstep (j : ℕ) (hj : j < 21) := h.step (T + j) (by omega) (by omega)
  have h17 := loading (h.part le_rfl (show T + 18 ≤ T + 21 by omega)) hl (show 17 ≤ 17 by omega)
    (by omega)
  have h18 := (load_step h17.1 (hstep 17 (by omega)) (hx 17 (by omega))).1
  rw [if_pos (show (r (T + 17)).orch.loadIdx = 17 from h17.2)] at h18
  have hq := orch_waitStart (hx 18 (by omega)) h18
  simp only [hs, Bool.or_true, if_true] at hq
  rw [← hstep 18 (by omega)] at hq
  have hq₂ := orch_edStart (hx 19 (by omega)) (congrArg Orch.state hq)
  rw [← hstep 19 (by omega)] at hq₂
  have hq₃ := orch_edWait (hx 20 (by omega)) (congrArg Orch.state hq₂)
  rw [← hstep 20 (by omega)] at hq₃
  exact (congrArg Orch.state hq₃).trans (if_pos hd)

/-- An abort after the registers are loaded. -/
theorem Loaded.abort {m : Message} (h : Loaded m s) (hp : s.csr.dataPending = false)
    (hx : ¬ Undisturbed x) (hd : x.datainWr = false) : AtRest (s.step x) := by
  have hq := orch_abort (s := s) hx
  exact
    { state := by rw [hq]; rfl
      wen := by rw [hq]; rfl
      sha := (h.finished.step h.wen).1
      pending := by simp [TopMost.step, csrStep, hd, hp] }

/-- Without DATA_IN writes no word is pending. -/
theorem IsRun.pending (h : IsRun r i) (hx : ∀ u < t, (i u).datainWr = false) :
    (r t).csr.dataPending = false := by
  induction t with
  | zero =>
    obtain ⟨sha, regs, h0⟩ := h.reset
    rw [h0]
    rfl
  | succ t ih =>
    rw [h.step t]
    simp [TopMost.step, csrStep, hx t (Nat.lt_succ_self t), ih fun u hu => hx u (by omega)]

section Aborted

variable {T : ℕ} {w : BitVec 32}
  (hs : Completes (accessRun (soloWrites 0)) (accesses (soloWrites 0)) oneMessage.key 17 T)

theorem aborted_abort (T : ℕ) (w : BitVec 32) :
    (accesses (abortedWrites T w) T).ctrlAbortW = true := by
  have hT := (aborted_access T w).1
  simp [accesses, accessIn, hT, abortWrite, TopIn.ctrlAbortW, TopIn.ctrlWr, TopIn.writes,
    TopIn.ctrlOff]

/-- The first session is the solo one. -/
theorem aborted_eq {u : ℕ} (hu : u ≤ T) :
    accessRun (abortedWrites T w) u = accessRun (soloWrites 0) u :=
  accessRun_eq fun _ hv => if_pos (by omega)

include hs

/-- Its verdict is still shown later. -/
theorem aborted_valid {u : ℕ} (hu : T ≤ u) :
    (accessRun (abortedWrites T w) u).signatureValidO = true := by
  induction u, hu using Nat.le_induction with
  | base =>
    rw [aborted_eq le_rfl, (solo 0).verdict hs]
    rfl
  | succ u hu ih => exact (signatureValidO_step ih _).2

theorem aborted_rest : AtRest (accessRun (abortedWrites T w) (T + 2)) := by
  obtain ⟨hT, hT1, -, -⟩ := aborted_access T w
  have hlt := hs.lt (accessRun_isRun _)
  have hld : Loaded oneMessage (accessRun (abortedWrites T w) T) := by
    rw [aborted_eq le_rfl]
    refine (((solo 0).runs T).loaded (by omega) ?_).1
    rw [hs.done]
    exact .inr (.inr (.inr (.inr rfl)))
  have hp : (accessRun (abortedWrites T w) T).csr.dataPending = false := by
    rw [aborted_eq le_rfl]
    refine (accessRun_isRun _).pending fun u hu => ?_
    rcases Nat.lt_or_ge u 17 with h17 | h17
    · exact (solo_first 0 h17).2
    · exact ((solo 0).inert h17).datainWr
  have habort : AtRest (accessRun (abortedWrites T w) (T + 1)) := by
    refine hld.abort hp ?_ ?_ <;>
      simp [accessIn, hT, abortWrite, Undisturbed, TopIn.ctrlSoftrstW, TopIn.ctrlAbortW,
        TopIn.ctrlWr, TopIn.datainWr, TopIn.writes, TopIn.ctrlOff, TopIn.datainOff]
  refine habort.step ?_ ?_ ?_ <;>
    simp [accessIn, hT1, Undisturbed, TopIn.ctrlSoftrstW, TopIn.ctrlAbortW, TopIn.ctrlStartW,
      TopIn.ctrlWr, TopIn.datainWr, TopIn.writes, TopIn.ctrlOff, TopIn.datainOff]

/-- The registers of the second session. -/
theorem aborted_regs : Shifted (accessRun (abortedWrites T w) (T + 2)).csr.rReg oneMessage.r ∧
    (accessRun (abortedWrites T w) (T + 2)).csr.sReg = shiftWord 224 0 (byteSwap w) ∧
    (accessRun (abortedWrites T w) (T + 2)).csr.msgLenCsr = 16 := by
  obtain ⟨hT, hT1, -, -⟩ := aborted_access T w
  have hlt := hs.lt (accessRun_isRun _)
  have hcsr : (accessRun (abortedWrites T w) (T + 2)).csr.rReg =
        (accessRun (soloWrites 0) T).csr.rReg ∧
      (accessRun (abortedWrites T w) (T + 2)).csr.sReg =
        shiftWord 224 (accessRun (soloWrites 0) T).csr.sReg (byteSwap w) ∧
      (accessRun (abortedWrites T w) (T + 2)).csr.msgLenCsr =
        (accessRun (soloWrites 0) T).csr.msgLenCsr := by
    rw [← aborted_eq (T := T) (w := w) le_rfl]
    simp [accessRun, TopMost.step, csrStep, accessIn, hT, hT1, abortWrite, TopIn.rinWr, TopIn.sinWr,
      TopIn.msglenWr, TopIn.writes, TopIn.rinOff, TopIn.sinOff, TopIn.msglenOff]
  obtain ⟨hR, hS, hl⟩ := hcsr
  have hf := (solo 0).follows T
  have hS0 : (accessRun (soloWrites 0) T).csr.sReg = 0 := by
    rw [Completes.sReg (accessRun_isRun _) hf hs.le le_rfl]
    exact BitVec.eq_of_toNat_eq (solo 0).sReg
  have hl0 : (accessRun (soloWrites 0) T).csr.msgLenCsr =
      (accessRun (soloWrites 0) 17).csr.msgLenCsr :=
    Sync.kept_between (f := fun u => (accessRun (soloWrites 0) u).csr.msgLenCsr) hs.le
      fun u hu _ => by
        rw [(accessRun_isRun (soloWrites 0)).step u]
        exact if_neg fun hc =>
          absurd (((solo 0).inert hu).msglenWr.symm.trans hc) Bool.false_ne_true
  rw [hR, hS, hl, hS0, hl0]
  exact ⟨((solo 0).runs T).rReg hs.le le_rfl, rfl, hf.len⟩

/-- The second session: the memory gives no key any more. -/
theorem aborted_runs (t : ℕ) : Runs (accessRun (abortedWrites T w)) (accesses (abortedWrites T w))
    { oneMessage with key := 0 } (T + 2) t := by
  obtain ⟨-, -, hstart, hidle⟩ := aborted_access T w
  obtain ⟨hR, -, hl⟩ := aborted_regs (w := w) hs
  have hin {u : ℕ} (hu : T + 2 ≤ u) : Inert (accesses (abortedWrites T w) u) := by
    refine accesses_inert ?_
    rcases hu.eq_or_lt with rfl | hlt
    · exact .inl hstart
    · exact .inr (hidle u hlt)
  exact
    { step := fun u _ _ => rfl
      undisturbed := fun u hu _ => (hin hu).undisturbed
      rest := aborted_rest hs
      start := by
        have hcsr : (accesses (abortedWrites T w) (T + 2)).csr = startWrite := hstart
        simp only [TopIn.ctrlStartW, TopIn.ctrlWr, TopIn.writes, hcsr]
        rfl
      len := hl
      rIn := hR
      rDone := fun u hu _ => (hin hu).rinWr
      ready := fun u hu _ hd => absurd ((hin hu).datainWr.symm.trans hd) Bool.false_ne_true
      data := fun u hu _ hd => absurd ((hin hu).datainWr.symm.trans hd) Bool.false_ne_true
      otp := fun u hu _ _ => by
        have hdone := (signatureValidO_step (aborted_valid (w := w) hs (show T ≤ u by omega))
          (accesses (abortedWrites T w) u)).1
        simp [accesses, accessIn, otpRdData, bootActiveO, hdone] }

theorem aborted_completes : ∃ t, Completes (accessRun (abortedWrites T w))
    (accesses (abortedWrites T w)) oneMessage.key (T + 2) t := by
  have hruns := aborted_runs (w := w) hs
  obtain ⟨T₁, hT₁, hl, -⟩ := Runs.enters hruns fun t ht hr =>
    absurd (((hruns t).not_ready rfl ht le_rfl).symm.trans hr) Bool.false_ne_true
  have hst : Steady (accessRun (abortedWrites T w)) (accesses (abortedWrites T w)) T₁ (T₁ + 21) :=
    (accessRun_isRun _).steady fun u hu hut => (hruns (T₁ + 21)).undisturbed u (by omega) hut
  have hdone := (signatureValidO_step (aborted_valid (w := w) hs (show T ≤ T₁ + 20 by omega))
    (accesses (abortedWrites T w) (T₁ + 20))).1
  have hrest := aborted_rest (w := w) hs
  exact ⟨T₁ + 21, by omega, hrest.state, (hruns 0).start,
    fun u hu hut => (hruns (T₁ + 21)).undisturbed u hu hut, fun _ _ _ => rfl,
    hst.done hl rfl hdone⟩

end Aborted

/-- The verdict of the first session is shown for the S of the second, which a fresh start
    rejects. -/
theorem staleVerdict_influenced : ∃ T t t', (accessRun (abortedWrites T 1) T).orch.state = .done ∧
    (accesses (abortedWrites T 1) T).ctrlAbortW = true ∧
    (accessRun (abortedWrites T 1) t).signatureValidO = true ∧
    (accessRun (soloWrites 1) t').signatureValidO = false ∧
    Influenced (abortedWrites T 1) (soloWrites 1) (T + 2) 17 t t' := by
  obtain ⟨T, hs⟩ := (solo 0).completes
  obtain ⟨t, ht⟩ := aborted_completes (w := 1) hs
  obtain ⟨t', ht'⟩ := (solo 1).completes
  obtain ⟨hR, hS, hl⟩ := aborted_regs (w := 1) hs
  have hv : (accessRun (abortedWrites T 1) t).signatureValidO = true :=
    aborted_valid hs (by have := ht.le; omega)
  have hv' : (accessRun (soloWrites 1) t').signatureValidO = false := by
    rw [← Bool.not_eq_true, (solo 1).verdict ht']
    decide +kernel
  refine ⟨T, t, t', ?_, aborted_abort T 1, hv, hv', accessRun_isRun _, accessRun_isRun _, ht, ht',
    fun _ => solo_first 1, ?_, ?_, ?_, aborted_same T 1, fun he => ?_⟩
  · rw [aborted_eq le_rfl]
    exact hs.done
  · exact BitVec.eq_of_toNat_eq (((solo 1).rIn.eq rfl).trans (hR.eq rfl).symm)
  · rw [hS]
    exact BitVec.eq_of_toNat_eq ((solo 1).sReg.trans (by decide +kernel))
  · rw [hl]
    exact (solo 1).msgLen
  · have hvv := congrArg (fun p => p.2.2) he
    exact absurd (hv.symm.trans (hvv.trans hv')) (by simp)

/-- An aborted session leaves a verdict, part of a block in the SHA core, a preprocessor that pads,
    or a word, and each of them changes what the next session shows. -/
theorem aborted_sessions :
    (∃ T t t', (accessRun (abortedWrites T 1) T).orch.state = .done ∧
      (accesses (abortedWrites T 1) T).ctrlAbortW = true ∧
      (accessRun (abortedWrites T 1) t).signatureValidO = true ∧
      (accessRun (soloWrites 1) t').signatureValidO = false ∧
      Influenced (abortedWrites T 1) (soloWrites 1) (T + 2) 17 t t') ∧
    ((accessRun staleBlock 62).sha.state = .recv ∧ (accessRun staleBlock 62).csr.dataPending = false ∧
      ∃ t t', Influenced staleBlock (soloWrites 0) 62 17 t t') ∧
    ((accessRun stalePadding 160).sha.state = .idle ∧
      (accessRun stalePadding 160).sha.prep.state = .send80 ∧
      (accessRun stalePadding 160).csr.dataPending = false ∧
      ∃ t t', Influenced stalePadding (soloWrites 0) 160 17 t t') ∧
    ((accessRun staleWord 20).sha.Idle ∧ (accessRun staleWord 20).csr.dataPending = true ∧
      ∃ t t', Influenced staleWord freshWord 20 17 t t') := by
  rw [accessRun_eq_evalRun]
  refine ⟨accessRun_eq_evalRun ▸ staleVerdict_influenced, ⟨by decide +kernel, by decide +kernel,
    staleBlock_influenced⟩, ⟨by decide +kernel, by decide +kernel, by decide +kernel,
    stalePadding_influenced⟩, ⟨by decide +kernel, by decide +kernel⟩, by decide +kernel,
    staleWord_influenced⟩

end TopMost

end SentinelSoc
