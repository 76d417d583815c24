/-
  Two sessions with the same accesses, from whatever earlier sessions have left.

  * `Orch.clear`: the registers that a session fills before it reads them;
  * `Left`: how far a session has filled them, state by state;
  * `Alike`: two sessions in the same cycle; `Alike.step`: one cycle with the same access;
  * `Meets`: they load the Ed25519 registers in the same cycle, with the same key and hash.
-/
import SentinelSoc.Crypto.Loading
import SentinelSoc.Sha.Twins

namespace SentinelSoc

/-- The same words have entered two shift registers. -/
def SameWords {n : ℕ} (k : ℕ) (reg reg' : BitVec n) : Prop :=
  ∃ ws : List (BitVec 32), ws.length = k ∧ Shifted reg ws ∧ Shifted reg' ws

theorem SameWords.zero {n : ℕ} (reg reg' : BitVec n) : SameWords 0 reg reg' :=
  ⟨[], rfl, Shifted.nil reg, Shifted.nil reg'⟩

theorem SameWords.push {n k : ℕ} {reg reg' : BitVec (32 + n)} (h : SameWords k reg reg')
    (hk : 32 * k ≤ n) (w : BitVec 32) :
    SameWords (k + 1) (shiftWord n reg (byteSwap w)) (shiftWord n reg' (byteSwap w)) := by
  obtain ⟨ws, rfl, hs, hs'⟩ := h
  exact ⟨ws ++ [w], by simp, hs.push hk w, hs'.push hk w⟩

/-- Full registers are equal. -/
theorem SameWords.eq {n k : ℕ} {reg reg' : BitVec n} (h : SameWords k reg reg') (hn : n = 32 * k) :
    reg' = reg := by
  obtain ⟨ws, rfl, hs, hs'⟩ := h
  exact BitVec.eq_of_toNat_eq ((hs'.eq hn).trans (hs.eq hn).symm)

/-! ## What a session fills -/

namespace Orch

/-- Without the registers that a session fills before it reads them. -/
def clear (q : Orch) : Orch :=
  { q with
    pubkeyReg := 0
    hashReg := 0
    hashIdx := 0
    loadIdx := 0
    startLatch := false
    edExtWe := false
    edDest := 0
    edDsel := 0
    edDin := 0 }

variable {q q' : Orch} {x x' : OrchIn}

/-- Without the inputs that no state reads. -/
def seen (x : OrchIn) : OrchIn :=
  { x with
    startVerify := false
    msgLenCsr := 0
    dataInReg := if x.dataPending then x.dataInReg else 0 }

theorem of_clear {α : Type} (f : Orch → α) (hf : ∀ z, f z.clear = f z) (h : q'.clear = q.clear) :
    f q' = f q := by
  rw [← hf q', ← hf q, h]

theorem of_seen {α : Type} (f : OrchIn → α) (hf : ∀ z, f (seen z) = f z) (h : seen x' = seen x) :
    f x' = f x := by
  rw [← hf x', ← hf x, h]

/-- The states that read nothing that `clear` drops. -/
def front (st : TopFsm) : Bool :=
  match st with
  | .shaCfgCtrl | .shaPoll | .feedR | .otpReq | .otpLatch | .blkPollOtp | .waitData | .blkPoll
  | .waitIntr | .readHashLast => true
  | .idle | .shaCfgLen | .readHash | .loadRegs | .waitStart | .edStart | .edWait | .done => false

theorem clear_advance_clear (hs : front q.state = true) :
    (q.clear.advance (seen x)).clear = (q.advance x).clear := by
  have hst : q.clear.state = q.state := rfl
  rcases hq : q.state
  case idle | shaCfgLen | readHash | loadRegs | waitStart | edStart | edWait | done =>
    simp [front, hq] at hs
  all_goals
    rw [hq] at hst
    simp only [advance, hq, hst]
  case shaCfgCtrl | shaPoll | feedR | otpReq | otpLatch | blkPollOtp | blkPoll | readHashLast => rfl
  case waitIntr =>
    change (if x.shaIntr = true then _ else _ : Orch).clear = _
    split_ifs <;> rfl
  case waitData =>
    by_cases hd : x.dataPending = true
    · have hd' : (seen x).dataPending = true := hd
      have hr : (seen x).dataInReg = x.dataInReg := if_pos hd
      rw [if_pos hd, if_pos hd', hr]
      rfl
    · have hd' : ¬ (seen x).dataPending = true := hd
      rw [if_neg hd, if_neg hd']
      rfl

theorem clear_advance (h : q'.clear = q.clear) (hs : front q.state = true) (hx : seen x' = seen x) :
    (q'.advance x').clear = (q.advance x).clear := by
  have hst : q'.state = q.state := of_clear Orch.state (fun _ => rfl) h
  rw [← clear_advance_clear hs, ← clear_advance_clear (q := q') (by rw [hst]; exact hs), h, hx]

/-- ST_READ_HASH reads `hash_idx` too. -/
theorem clear_readHash (h : q'.clear = q.clear) (hs : q.state = .readHash)
    (hi : q'.hashIdx = q.hashIdx) : (q'.advance x').clear = (q.advance x).clear := by
  have hs' : q'.state = .readHash := (of_clear Orch.state (fun _ => rfl) h).trans hs
  have hform (z : Orch) (y : OrchIn) (hz : z.state = .readHash) : (z.advance y).clear =
      { z.clear with
        shaAddr := if z.hashIdx = 14 then 0x31 else 0x22 + (z.hashIdx.setWidth 6 + 1)
        state := if z.hashIdx = 14 then .readHashLast else .readHash } := by
    simp only [advance, hz]
    rfl
  rw [hform q x hs, hform q' x' hs', h, hi]

theorem clear_defaults (h : q'.clear = q.clear) (hx : seen x' = seen x) :
    (q'.defaults x').clear = (q.defaults x).clear := by
  have hform (z : Orch) (y : OrchIn) :
      (z.clear.defaults (seen y)).clear = (z.defaults y).clear := rfl
  rw [← hform q x, ← hform q' x', h, hx]

/-- How far the registers are filled that `clear` drops. -/
def Left (q q' : Orch) : Prop :=
  match q.state with
  | .shaCfgCtrl | .shaPoll | .feedR | .otpReq | .otpLatch | .blkPollOtp =>
    SameWords q.otpIdx.toNat q.pubkeyReg q'.pubkeyReg
  | .waitData | .blkPoll | .waitIntr => q'.pubkeyReg = q.pubkeyReg
  | .readHash => q'.pubkeyReg = q.pubkeyReg ∧ q'.hashIdx = q.hashIdx ∧ q.hashIdx.toNat < 15 ∧
      SameWords q.hashIdx.toNat q.hashReg q'.hashReg
  | .readHashLast => q'.pubkeyReg = q.pubkeyReg ∧ SameWords 15 q.hashReg q'.hashReg
  | .idle | .shaCfgLen | .loadRegs | .waitStart | .edStart | .edWait | .done => False

/-- The registers are loaded next, from the same words. -/
structure Meet (q q' : Orch) : Prop where
  state : q.state = .loadRegs ∧ q'.state = .loadRegs
  loadIdx : q.loadIdx = 0 ∧ q'.loadIdx = 0
  key : q'.pubkeyReg = q.pubkeyReg
  hash : q'.hashReg = q.hashReg

/-- A word of the key enters both registers, the eighth completes them. -/
theorem Left.otpLatch_step (hl : Left q q') (hs : q.state = .otpLatch) (hs' : q'.state = .otpLatch)
    (ho : x'.otpData = x.otpData) : Left (q.advance x) (q'.advance x') := by
  simp only [Left, hs] at hl
  have hlt := q.otpIdx.isLt
  have hpush := hl.push (show 32 * q.otpIdx.toNat ≤ 224 by omega) x.otpData
  unfold Left
  simp only [advance, hs, hs', feed, ho]
  by_cases h7 : q.otpIdx = 7
  · rw [h7] at hpush
    have heq := hpush.eq rfl
    rw [if_pos h7]
    split_ifs <;> exact heq
  · have hne : q.otpIdx.toNat ≠ 7 := fun hc => h7 (BitVec.eq_of_toNat_eq hc)
    have hsucc : (q.otpIdx + 1).toNat = q.otpIdx.toNat + 1 :=
      BitVec.toNat_add_of_lt (show q.otpIdx.toNat + 1 < 2 ^ 3 by omega)
    rw [if_neg h7, if_neg h7, hsucc]
    split_ifs <;> exact hpush

/-- A word of the hash enters both registers. -/
theorem Left.readHash_step (hl : Left q q') (hs : q.state = .readHash) (hs' : q'.state = .readHash)
    (hd : x'.shaRdata = x.shaRdata) : Left (q.advance x) (q'.advance x') := by
  simp only [Left, hs] at hl
  obtain ⟨hpk, hi, hlt, hw⟩ := hl
  have hpush := hw.push (show 32 * q.hashIdx.toNat ≤ 480 by omega) x.shaRdata
  unfold Left
  simp only [advance, hs, hs', hd, hi]
  by_cases h14 : q.hashIdx = 14
  · rw [if_pos h14]
    rw [h14] at hpush
    exact ⟨hpk, hpush⟩
  · have hne : q.hashIdx.toNat ≠ 14 := fun hc => h14 (BitVec.eq_of_toNat_eq hc)
    have hsucc : (q.hashIdx + 1).toNat = q.hashIdx.toNat + 1 :=
      BitVec.toNat_add_of_lt (show q.hashIdx.toNat + 1 < 2 ^ 4 by omega)
    rw [if_neg h14]
    refine ⟨hpk, trivial, by omega, ?_⟩
    rw [hsucc]
    exact hpush

/-- The registers that are filled, after a cycle with the same inputs. -/
theorem Left.step (hl : Left q q') (h : q'.clear = q.clear) (ho : x'.otpData = x.otpData)
    (hd : x'.shaRdata = x.shaRdata) (hx : seen x' = seen x) :
    Left (q.advance x) (q'.advance x') ∨ Meet (q.advance x) (q'.advance x') := by
  have hs' : q'.state = q.state := of_clear Orch.state (fun _ => rfl) h
  have hpend : x'.dataPending = x.dataPending := of_seen OrchIn.dataPending (fun _ => rfl) hx
  have hintr : x'.shaIntr = x.shaIntr := of_seen OrchIn.shaIntr (fun _ => rfl) hx
  rcases hq : q.state
  case idle | shaCfgLen | loadRegs | waitStart | edStart | edWait | done =>
    simp only [Left, hq] at hl
  all_goals rw [hq] at hs'
  case otpLatch => exact .inl (hl.otpLatch_step hq hs' ho)
  case readHash => exact .inl (hl.readHash_step hq hs' hd)
  all_goals
    simp only [Left, hq] at hl
    simp only [advance, hq, hs']
  case shaCfgCtrl | otpReq => exact .inl hl
  case shaPoll | blkPollOtp | feedR | blkPoll =>
    refine .inl ?_
    unfold Left
    simp only [feed]
    split_ifs <;> exact hl
  case waitData =>
    refine .inl ?_
    rw [hpend]
    by_cases hp : x.dataPending = true
    · rw [if_pos hp, if_pos hp]
      unfold Left
      simp only [feed]
      split_ifs <;> exact hl
    · rw [if_neg hp, if_neg hp]
      unfold Left
      rw [hq]
      exact hl
  case waitIntr =>
    refine .inl ?_
    rw [hintr]
    by_cases hi : x.shaIntr = true
    · rw [if_pos hi, if_pos hi]
      exact ⟨hl, rfl, show (0 : BitVec 4).toNat < 15 by decide, SameWords.zero _ _⟩
    · rw [if_neg hi, if_neg hi]
      unfold Left
      rw [hq]
      exact hl
  case readHashLast =>
    obtain ⟨hpk, hw⟩ := hl
    have hpush := hw.push (show 32 * 15 ≤ 480 by omega) x.shaRdata
    rw [hd]
    exact .inr ⟨⟨rfl, rfl⟩, ⟨rfl, rfl⟩, hpk, hpush.eq rfl⟩

end Orch

namespace TopMost

variable {s s' : TopMost} {x x' : TopIn}

/-! ## The engines -/

/-- The SHA engines of two sessions. -/
inductive Engines (s s' : TopMost) : Prop
  | length (d : BitVec 32) (hs : s.orch.state = .shaCfgCtrl) (h : s.sha.Rested) (h' : s'.sha.Rested)
      (hx : s.shaIn = ⟨0x32, true, d⟩) (hp : s.orch.blkPtr = 0)
  | control (hs : s.orch.state = .shaPoll) (h : s.sha.Rested) (h' : s'.sha.Rested)
      (hm : s'.sha.msgLength = s.sha.msgLength) (hx : s.shaIn = ⟨0x20, true, 3⟩)
      (hp : s.orch.blkPtr = 0)
  | twins (hs : s.orch.state ≠ .shaCfgCtrl) (h : ShaCore.Twins s.shaIn s.orch.blkPtr s.sha s'.sha)

theorem shaIn_eq (h : s'.orch.clear = s.orch.clear) : s'.shaIn = s.shaIn :=
  Orch.of_clear (fun q => (⟨q.shaAddr, q.shaWen, q.shaWdata⟩ : ShaIn)) (fun _ => rfl) h

/-- The engines show the same. -/
theorem Engines.port (h : Engines s s') (hq : s'.orch.clear = s.orch.clear) :
    s'.shaRdata = s.shaRdata ∧ s'.sha.intrO = s.sha.intrO := by
  have ha : s'.orch.shaAddr = s.orch.shaAddr := congrArg ShaIn.addr (shaIn_eq hq)
  have hread (z : ShaCore) {a : BitVec 6} (hz : a = 0x20 ∨ a = 0x32) : z.rdata a = 0 := by
    rcases hz with rfl | rfl <;> simp [ShaCore.rdata]
  cases h with
  | length d hs h h' hx hp =>
    have haddr : s.orch.shaAddr = 0x32 := congrArg ShaIn.addr hx
    rw [shaRdata, shaRdata, ha, haddr, hread _ (.inr rfl), hread _ (.inr rfl), h.intrO, h'.intrO]
    exact ⟨rfl, rfl⟩
  | control hs h h' hm hx hp =>
    have haddr : s.orch.shaAddr = 0x20 := congrArg ShaIn.addr hx
    rw [shaRdata, shaRdata, ha, haddr, hread _ (.inl rfl), hread _ (.inl rfl), h.intrO, h'.intrO]
    exact ⟨rfl, rfl⟩
  | twins hs h =>
    rw [shaRdata, shaRdata, ha]
    exact ⟨ShaCore.of_clear (fun z => z.rdata s.orch.shaAddr) (fun _ => rfl) h.clear,
      ShaCore.of_clear ShaCore.intrO (fun _ => rfl) h.clear⟩

/-- After the configuration the orchestrator only feeds words. -/
theorem feeding (hx : Undisturbed x) (hi : s.orch.state ≠ .idle) (hl : s.orch.state ≠ .shaCfgLen)
    (hc : s.orch.state ≠ .shaCfgCtrl) :
    ShaCore.Feeding s.orch.blkPtr (s.step x).shaIn (s.step x).orch.blkPtr := by
  have hs' : (s.orch.defaults (s.orchIn x)).state = s.orch.state := rfl
  have hq := orch_step (s := s) hx
  rcases hs : s.orch.state
  case idle => exact absurd hs hi
  case shaCfgLen => exact absurd hs hl
  case shaCfgCtrl => exact absurd hs hc
  all_goals
    rw [hs] at hs'
    simp only [Orch.advance, hs'] at hq
  case feedR | otpLatch =>
    rw [shaIn, hq]
    exact .inr ⟨rfl, rfl, rfl⟩
  case shaPoll | otpReq | blkPollOtp | blkPoll | readHash | readHashLast | loadRegs | waitStart
      | edStart | edWait | done =>
    rw [shaIn, hq]
    exact .inl ⟨rfl, rfl⟩
  case waitData =>
    by_cases hd : (s.orchIn x).dataPending = true
    · rw [if_pos hd] at hq
      rw [shaIn, hq]
      exact .inr ⟨rfl, rfl, rfl⟩
    · rw [if_neg hd] at hq
      rw [shaIn, hq]
      exact .inl ⟨rfl, rfl⟩
  case waitIntr =>
    split_ifs at hq
    all_goals
      rw [shaIn, hq]
      exact .inl ⟨rfl, rfl⟩

/-- ST_SHA_CFG_CTRL follows ST_SHA_CFG_LEN only. -/
theorem state_ne_cfgCtrl (hx : Undisturbed x) (hl : s.orch.state ≠ .shaCfgLen) :
    (s.step x).orch.state ≠ .shaCfgCtrl := by
  have hs' : (s.orch.defaults (s.orchIn x)).state = s.orch.state := rfl
  have hq := orch_step (s := s) hx
  rcases hs : s.orch.state
  case shaCfgLen => exact absurd hs hl
  all_goals
    rw [hs] at hs'
    simp only [Orch.advance, hs'] at hq
    have hst := congrArg Orch.state hq
    simp only [apply_ite Orch.state, Orch.feed, Orch.load, hs'] at hst
    rw [hst]
    try split_ifs
  all_goals simp

theorem Engines.step (h : Engines s s') (hq : s'.orch.clear = s.orch.clear) (hx : Undisturbed x)
    (hi : s.orch.state ≠ .idle) (hl : s.orch.state ≠ .shaCfgLen) :
    Engines (s.step x) (s'.step x') := by
  have hc := state_ne_cfgCtrl hx hl
  have hin := shaIn_eq hq
  have hsha : (s.step x).sha = s.sha.step s.shaIn := rfl
  have hsha' : (s'.step x').sha = s'.sha.step s.shaIn := by
    rw [← hin]
    rfl
  cases h with
  | length d hs h h' hxin hp =>
    have hstep := orch_shaCfgCtrl hx hs
    have hps : ShaCore.prepStart s.shaIn = false := by
      rw [hxin]
      rfl
    refine .control (by rw [hstep]) ?_ ?_ ?_ (by rw [shaIn, hstep]) (by rw [hstep]; exact hp)
    · rw [hsha]
      exact h.idle.rested hps
    · rw [hsha']
      exact h'.idle.rested hps
    · rw [hsha, hsha', hxin]
      rfl
  | control hs h h' hm hxin hp =>
    have hf := feeding hx hi hl (by simp [hs])
    rw [hp] at hf
    refine .twins hc ?_
    rw [hsha, hsha']
    exact h.twins h' hm hxin hf
  | twins hs h =>
    refine .twins hc ?_
    rw [hsha, hsha']
    exact h.step (feeding hx hi hl hs)

/-! ## The sessions -/

/-- Two sessions in the same cycle, before the registers are loaded. -/
structure Alike (s s' : TopMost) : Prop where
  orch : s'.orch.clear = s.orch.clear
  left : s.orch.Left s'.orch
  engines : Engines s s'
  rReg : s'.csr.rReg = s.csr.rReg
  sReg : s'.csr.sReg = s.csr.sReg
  pending : s'.csr.dataPending = s.csr.dataPending
  dataIn : s.csr.dataPending = true → s'.csr.dataInReg = s.csr.dataInReg
  calm : Calm s
  calm' : Calm s'

/-- Two sessions in the cycle before the first write of a register. -/
structure Meets (s s' : TopMost) : Prop where
  loads : LoadsNext s
  loads' : LoadsNext s'
  key : s'.orch.pubkeyReg = s.orch.pubkeyReg
  hash : s'.orch.hashReg = s.orch.hashReg
  rReg : s'.csr.rReg = s.csr.rReg
  sReg : s'.csr.sReg = s.csr.sReg
  calm : Calm s
  calm' : Calm s'

/-- The same access, and the memory with the same key. -/
structure SameInput (key : BitVec 256) (s s' : TopMost) (x x' : TopIn) : Prop where
  csr : x'.csr = x.csr
  undisturbed : Undisturbed x
  otp : x.otpData = otpRdData key s.bootActiveO s.orch.otpRdEn s.otpAddrO
  otp' : x'.otpData = otpRdData key s'.bootActiveO s'.orch.otpRdEn s'.otpAddrO

theorem of_csr {α : Type} (f : TopIn → α) (hf : ∀ z : TopIn, f z = f ⟨z.csr, false, 0⟩)
    (h : x'.csr = x.csr) : f x' = f x := by
  rw [hf x', hf x, h]

/-- R and S take the same words. -/
theorem regs_step (hx : x'.csr = x.csr) (hr : s'.csr.rReg = s.csr.rReg)
    (hs : s'.csr.sReg = s.csr.sReg) : (s'.step x').csr.rReg = (s.step x).csr.rReg ∧
      (s'.step x').csr.sReg = (s.step x).csr.sReg := by
  have hrw : x'.rinWr = x.rinWr := of_csr TopIn.rinWr (fun _ => rfl) hx
  have hsw : x'.sinWr = x.sinWr := of_csr TopIn.sinWr (fun _ => rfl) hx
  simp only [TopMost.step, csrStep, hrw, hsw, hx, hr, hs]
  exact ⟨trivial, trivial⟩

/-- The data register takes the same words. -/
theorem data_step (hx : x'.csr = x.csr) (hst : s'.orch.state = s.orch.state)
    (hp : s'.csr.dataPending = s.csr.dataPending)
    (hd : s.csr.dataPending = true → s'.csr.dataInReg = s.csr.dataInReg) :
    (s'.step x').csr.dataPending = (s.step x).csr.dataPending ∧
      ((s.step x).csr.dataPending = true →
        (s'.step x').csr.dataInReg = (s.step x).csr.dataInReg) := by
  have hdw : x'.datainWr = x.datainWr := of_csr TopIn.datainWr (fun _ => rfl) hx
  simp only [TopMost.step, csrStep, hdw, hst, hp, hx, true_and]
  intro hpend
  by_cases hw : x.datainWr = true
  · rw [if_pos hw, if_pos hw]
  · rw [if_neg hw] at hpend ⊢
    rw [if_neg hw]
    refine hd ?_
    split_ifs at hpend
    exact hpend

namespace Alike

variable {key : BitVec 256}

theorem front_or (h : Alike s s') : Orch.front s.orch.state = true ∨ s.orch.state = .readHash := by
  have hl := h.left
  unfold Orch.Left at hl
  rcases hs : s.orch.state
  all_goals
    rw [hs] at hl
    simp_all [Orch.front]

/-- The orchestrators see the same. -/
theorem input (h : Alike s s') (hx : SameInput key s s' x x') :
    Orch.seen (s'.orchIn x') = Orch.seen (s.orchIn x) ∧ x'.otpData = x.otpData ∧
      s'.shaRdata = s.shaRdata := by
  obtain ⟨hrdata, hintr⟩ := h.engines.port h.orch
  have hotp : x'.otpData = x.otpData := by
    have hen : s'.orch.otpRdEn = s.orch.otpRdEn := Orch.of_clear Orch.otpRdEn (fun _ => rfl) h.orch
    have hidx : s'.orch.otpIdx = s.orch.otpIdx := Orch.of_clear Orch.otpIdx (fun _ => rfl) h.orch
    rw [hx.otp, hx.otp', h.calm.bootActiveO, h.calm'.bootActiveO, otpAddrO, otpAddrO, hen, hidx]
  have hdata : (if s'.csr.dataPending then s'.csr.dataInReg else 0) =
      if s.csr.dataPending then s.csr.dataInReg else 0 := by
    rw [h.pending]
    split_ifs with hp
    · exact h.dataIn hp
    · rfl
  refine ⟨?_, hotp, hrdata⟩
  simp only [Orch.seen, orchIn, OrchIn.mk.injEq]
  exact ⟨of_csr TopIn.ctrlStartW (fun _ => rfl) hx.csr,
    of_csr TopIn.ctrlAbortW (fun _ => rfl) hx.csr,
    of_csr TopIn.ctrlSoftrstW (fun _ => rfl) hx.csr, trivial, trivial, h.rReg, h.sReg, hdata,
    h.pending, hrdata, hintr, hotp, h.calm'.edDone.trans h.calm.edDone.symm⟩

theorem undisturbed' (hx : SameInput key s s' x x') : Undisturbed x' := by
  rw [Undisturbed, of_csr TopIn.ctrlSoftrstW (fun _ => rfl) hx.csr,
    of_csr TopIn.ctrlAbortW (fun _ => rfl) hx.csr]
  exact hx.undisturbed

/-- The orchestrators after the cycle. -/
theorem orch_step' (h : Alike s s') (hx : SameInput key s s' x x') :
    (s'.step x').orch.clear = (s.step x).orch.clear ∧
      ((s.step x).orch.Left (s'.step x').orch ∨ Orch.Meet (s.step x).orch (s'.step x').orch) := by
  obtain ⟨hseen, hotp, hrdata⟩ := h.input hx
  have hdef := Orch.clear_defaults h.orch hseen
  have hleft : (s.orch.defaults (s.orchIn x)).Left (s'.orch.defaults (s'.orchIn x')) := h.left
  rw [TopMost.orch_step hx.undisturbed, TopMost.orch_step (undisturbed' hx)]
  refine ⟨?_, hleft.step hdef hotp hrdata hseen⟩
  rcases h.front_or with hf | hs
  · exact Orch.clear_advance hdef hf hseen
  · have hl := h.left
    unfold Orch.Left at hl
    rw [hs] at hl
    exact Orch.clear_readHash hdef hs hl.2.1

/-- **One cycle with the same access.** -/
theorem step (h : Alike s s') (hx : SameInput key s s' x x') :
    Alike (s.step x) (s'.step x') ∨ Meets (s.step x) (s'.step x') := by
  obtain ⟨hclear, hleft⟩ := h.orch_step' hx
  obtain ⟨hr, hs⟩ := regs_step hx.csr h.rReg h.sReg
  have hst : s'.orch.state = s.orch.state := Orch.of_clear Orch.state (fun _ => rfl) h.orch
  have hne : s.orch.state ≠ .edStart ∧ s.orch.state ≠ .idle ∧ s.orch.state ≠ .shaCfgLen := by
    rcases h.front_or with hf | hs
    · refine ⟨?_, ?_, ?_⟩ <;>
      · intro hc
        simp [hc, Orch.front] at hf
    · simp [hs]
  have hc : Calm (s.step x) := h.calm.step hx.undisturbed hne.1
  have hc' : Calm (s'.step x') := h.calm'.step (undisturbed' hx) (by rw [hst]; exact hne.1)
  rcases hleft with hl | hm
  · obtain ⟨hp, hd⟩ := data_step hx.csr hst h.pending h.dataIn
    have he : Engines (s.step x) (s'.step x') :=
      h.engines.step h.orch hx.undisturbed hne.2.1 hne.2.2
    exact .inl ⟨hclear, hl, he, hr, hs, hp, hd, hc, hc'⟩
  · exact .inr ⟨⟨hm.state.1, hm.loadIdx.1⟩, ⟨hm.state.2, hm.loadIdx.2⟩, hm.key, hm.hash, hr, hs, hc,
      hc'⟩

end Alike

/-! ## The start -/

/-- Nothing of an earlier session is left that a session reads. -/
structure Clean (s : TopMost) : Prop where
  state : s.orch.state = .idle
  wen : s.orch.shaWen = false
  sha : s.sha.Idle
  pending : s.csr.dataPending = false
  calm : Calm s

/-- The registers of the orchestrator two cycles after the start. -/
def configured (len : BitVec 32) : Orch :=
  { Orch.reset with
    state := .shaCfgCtrl
    shaLenReg := len
    shaAddr := 0x32
    shaWdata := len
    shaWen := true }

/-- The first two cycles of a session. -/
theorem Clean.start {y : TopIn} (h : Clean s) (hx : Undisturbed x) (hc : x.ctrlStartW = true)
    (hy : Undisturbed y) : ((s.step x).step y).orch.clear = (configured s.csr.msgLenCsr).clear ∧
      ((s.step x).step y).orch.otpIdx = 0 ∧ ((s.step x).step y).sha.Rested ∧
      Calm ((s.step x).step y) ∧ (s.step x).orch.state = .shaCfgLen := by
  have hq := orch_start hx h.state hc
  have hst : (s.step x).orch.state = .shaCfgLen := by rw [hq]
  have hw : (s.step x).orch.shaWen = false := by rw [hq]; rfl
  have hcalm : Calm (s.step x) := h.calm.step hx (by simp [h.state])
  have hcalm' : Calm ((s.step x).step y) := hcalm.step hy (by simp [hst])
  have hq' := orch_shaCfgLen hy hst
  have hrest : (s.step x).sha.Rested := h.sha.rested (ShaCore.prepStart_quiet h.wen)
  refine ⟨?_, ?_, hrest.idle.rested (ShaCore.prepStart_quiet hw), hcalm', hst⟩
  · have hboot := hcalm'.bootQ
    rw [hq'] at hboot ⊢
    simp only [Orch.clear, configured, Orch.reset, Orch.mk.injEq]
    refine ⟨trivial, ?_, ?_, ?_, ?_, ?_, trivial, trivial, trivial, trivial, trivial, hboot,
      trivial, trivial, ?_, rfl, trivial, trivial, trivial, trivial, rfl⟩
    · change (s.step x).orch.shaLenReg = _
      rw [hq]
    · change (s.step x).orch.shaFed = _
      rw [hq]
    · change (s.step x).orch.blkPtr = _
      rw [hq]
    · change (s.step x).orch.otpIdx = _
      rw [hq]
    · change (s.step x).orch.rIdx = _
      rw [hq]
    · rw [hq]
  · rw [hq']
    change (s.step x).orch.otpIdx = 0
    rw [hq]

/-- The accesses of a session that starts. -/
structure Starts (s : TopMost) (x y : TopIn) : Prop where
  clean : Clean s
  start : x.ctrlStartW = true
  first : Undisturbed x
  second : Undisturbed y

theorem Starts.alike {x x' y y' : TopIn} (h : Starts s x y) (h' : Starts s' x' y')
    (hx : x'.csr = x.csr) (hy : y'.csr = y.csr) (hr : s'.csr.rReg = s.csr.rReg)
    (hs : s'.csr.sReg = s.csr.sReg) (hl : s'.csr.msgLenCsr = s.csr.msgLenCsr) :
    Alike ((s.step x).step y) ((s'.step x').step y') := by
  obtain ⟨hc, ho, hrest, hcalm, hst⟩ := h.clean.start h.first h.start h.second
  obtain ⟨hc', ho', hrest', hcalm', hst'⟩ := h'.clean.start h'.first h'.start h'.second
  rw [hl] at hc'
  obtain ⟨hr, hs⟩ := regs_step hx hr hs
  obtain ⟨hr, hs⟩ := regs_step hy hr hs
  obtain ⟨hp, hd⟩ := data_step hx (h'.clean.state.trans h.clean.state.symm)
    (h'.clean.pending.trans h.clean.pending.symm)
    fun hc => absurd (h.clean.pending.symm.trans hc) Bool.false_ne_true
  obtain ⟨hp, hd⟩ := data_step hy (hst'.trans hst.symm) hp hd
  have hstate : ((s.step x).step y).orch.state = .shaCfgCtrl :=
    Orch.of_clear (q := configured s.csr.msgLenCsr) Orch.state (fun _ => rfl) hc
  have hptr : ((s.step x).step y).orch.blkPtr = 0 :=
    Orch.of_clear (q := configured s.csr.msgLenCsr) Orch.blkPtr (fun _ => rfl) hc
  have hport : ((s.step x).step y).shaIn = ⟨0x32, true, s.csr.msgLenCsr⟩ :=
    Orch.of_clear (q := configured s.csr.msgLenCsr)
      (fun q => (⟨q.shaAddr, q.shaWen, q.shaWdata⟩ : ShaIn)) (fun _ => rfl) hc
  refine ⟨hc'.trans hc.symm, ?_, .length _ hstate hrest hrest' hport hptr, hr, hs, hp, hd, hcalm,
    hcalm'⟩
  unfold Orch.Left
  rw [hstate, ho]
  exact SameWords.zero _ _

end TopMost

end SentinelSoc
