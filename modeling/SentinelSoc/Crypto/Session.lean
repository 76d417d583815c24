/-
  A session of the orchestrator, from its start to the loading of the Ed25519 registers.

  * `Stage`: the main state machine together with the SHA core, in each state of a session,
    with the number of words that have been fed and a bound on the cycles that are left;
  * `Supplies`: what the CSR registers and the memory give the session in a cycle;
  * `InSession.step`: one cycle.
-/
import SentinelSoc.Crypto.Feed

namespace SentinelSoc

namespace TopMost

/-! ## The stages -/

/-- Cycles until the engine receives again. -/
def busyCycles (s : ShaCore) : ℕ :=
  match s.state with
  | .work => 2 + (80 - s.roundCount.toNat)
  | .accum => 1
  | .idle | .recv | .pad | .done => 0

/-- The cost of the words that are not fed yet. -/
def wordCost (m : Message) (k : ℕ) : ℕ := (m.fed.length - k) * 10000

section Stages

variable (m : Message) (s : TopMost)

/-- Each state of a session: `k` words have been fed, and at most `n` cycles are left until the
    registers are loaded, not counting those that wait for firmware. -/
inductive Stage : ℕ → ℕ → Prop
  | cfgLen (hs : s.orch.state = .shaCfgLen) (hi : s.sha.Idle) (hw : s.orch.shaWen = false)
      (hr : s.orch.rIdx = 0) (ho : s.orch.otpIdx = 0) : Stage 0 (wordCost m 0 + 7)
  | cfgCtrl (hs : s.orch.state = .shaCfgCtrl) (hi : s.sha.Idle)
      (hp : s.shaIn = ⟨0x32, true, BitVec.ofNat 32 m.fed.length⟩)
      (hr : s.orch.rIdx = 0) (ho : s.orch.otpIdx = 0) : Stage 0 (wordCost m 0 + 6)
  | start (hs : s.orch.state = .shaPoll) (hi : s.sha.Idle)
      (hm : s.sha.msgLength = BitVec.ofNat 32 m.fed.length) (hp : s.shaIn = ⟨0x20, true, 3⟩)
      (hr : s.orch.rIdx = 0) (ho : s.orch.otpIdx = 0) : Stage 0 (wordCost m 0 + 5)
  | poll (hs : s.orch.state = .shaPoll) (hf : Receiving m.fed s 0)
      (hp : s.shaIn.wrEn = false ∧ s.orch.shaAddr = 0x21)
      (hr : s.orch.rIdx = 0) (ho : s.orch.otpIdx = 0) : Stage 0 (wordCost m 0 + 4)
  | feedR (k : ℕ) (hk : k < 8) (hs : s.orch.state = .feedR) (hf : Receiving m.fed s k)
      (hr : s.orch.rIdx = BitVec.ofNat 3 k) (ho : s.orch.otpIdx = 0) : Stage k (wordCost m k + 3)
  | otpReq (j : ℕ) (hj : j < 8) (hs : s.orch.state = .otpReq) (hf : Receiving m.fed s (8 + j))
      (ho : s.orch.otpIdx = BitVec.ofNat 3 j) : Stage (8 + j) (wordCost m (8 + j) + 3)
  | otpLatch (j : ℕ) (hj : j < 8) (hs : s.orch.state = .otpLatch) (hf : Receiving m.fed s (8 + j))
      (ho : s.orch.otpIdx = BitVec.ofNat 3 j) (he : s.orch.otpRdEn = true) :
      Stage (8 + j) (wordCost m (8 + j) + 2)
  | waitData (k : ℕ) (h16 : 16 ≤ k) (hk : k < m.fed.length) (hs : s.orch.state = .waitData)
      (hf : Receiving m.fed s k) (h32 : s.orch.shaWen = true → k % 32 ≠ 0) :
      Stage k (wordCost m k + 1)
  | blkWord (k : ℕ) (h16 : 16 ≤ k) (hk : k < m.fed.length) (hs : s.orch.state = .blkPoll)
      (hf : Receiving m.fed s k) (hw : s.orch.shaWen = true) : Stage k (wordCost m k + 300)
  | blkPoll (k : ℕ) (h16 : 16 ≤ k) (hk : k < m.fed.length) (hs : s.orch.state = .blkPoll)
      (hf : ShaCore.Phase m.fed s.sha k) (hw : s.orch.shaWen = false)
      (ha : s.orch.shaAddr = 0x21) : Stage k (wordCost m k + 2 + busyCycles s.sha)
  | lastWord (hs : s.orch.state = .waitIntr) (hf : Receiving m.fed s m.fed.length)
      (hw : s.orch.shaWen = true) : Stage m.fed.length 9000
  | waitIntr (p : ℕ) (hp : m.fed.length ≤ p) (hs : s.orch.state = .waitIntr)
      (hf : ShaCore.Phase m.fed s.sha p) (hw : s.orch.shaWen = false) :
      Stage m.fed.length (50 + ShaCore.distance m.fed s.sha p)
  | intr (hs : s.orch.state = .waitIntr) (hi : s.sha.intrO = true)
      (hf : ShaCore.Finished m.fed s.sha) (hw : s.orch.shaWen = false) : Stage m.fed.length 40
  | readHash (j : ℕ) (hj : j < 15) (hs : s.orch.state = .readHash)
      (hf : ShaCore.Finished m.fed s.sha) (hw : s.orch.shaWen = false)
      (ha : s.orch.shaAddr = 0x22 + BitVec.ofNat 6 j) (hi : s.orch.hashIdx = BitVec.ofNat 4 j)
      (hh : Shifted s.orch.hashReg ((Sha512.hash (wordBytes m.words)).halves.take j)) :
      Stage m.fed.length (10 + (15 - j))
  | readHashLast (hs : s.orch.state = .readHashLast) (hf : ShaCore.Finished m.fed s.sha)
      (hw : s.orch.shaWen = false) (ha : s.orch.shaAddr = 0x22 + BitVec.ofNat 6 15)
      (hh : Shifted s.orch.hashReg ((Sha512.hash (wordBytes m.words)).halves.take 15)) :
      Stage m.fed.length 2

/-- The counters of the orchestrator. -/
structure Counted (q : Orch) (k : ℕ) : Prop where
  len : q.shaLenReg = BitVec.ofNat 32 m.fed.length
  fed : q.shaFed = BitVec.ofNat 32 k
  ptr : q.blkPtr = BitVec.ofNat 5 k
  le : k ≤ m.fed.length

/-- A session of the message `m` has fed `k` words; `n` bounds the cycles that are left. -/
structure InSession (k n : ℕ) : Prop where
  counted : Counted m s.orch k
  key : Shifted s.orch.pubkeyReg (m.keyWords.take (k - 8))
  stage : Stage m s k n

/-- The states from the loading of the registers on. -/
def IsLoaded (st : TopFsm) : Prop :=
  st = .loadRegs ∨ st = .waitStart ∨ st = .edStart ∨ st = .edWait ∨ st = .done

/-- The key and the digest are in their registers, as little-endian integers. -/
structure Loaded : Prop where
  state : IsLoaded s.orch.state
  wen : s.orch.shaWen = false
  finished : ShaCore.Finished m.fed s.sha
  key : s.orch.pubkeyReg.toNat = leInt (wordBytes m.keyWords)
  hash : s.orch.hashReg.toNat = leInt (wordBytes (Sha512.hash (wordBytes m.words)).halves)

/-- What the CSR registers and the memory give the session in a cycle. -/
structure Supplies (x : TopIn) (k : ℕ) : Prop where
  undisturbed : Undisturbed x
  r : Shifted s.csr.rReg m.r
  otp : s.orch.otpRdEn = true → x.otpData = m.key.extractLsb' (s.otpAddrO.toNat * 32) 32
  data : s.orch.state = .waitData → s.csr.dataPending = true →
    s.csr.dataInReg = m.data.getD (k - 16) 0

/-- The session waits for firmware. -/
def Waits : Prop := s.orch.state = .waitData ∧ s.csr.dataPending = false

/-- A data word goes to the SHA core. -/
def takes : Bool := s.orch.state == .waitData && s.csr.dataPending

/-- The number of words that are in the SHA core, of `k` words that have been fed. -/
def arrived (k : ℕ) : ℕ := if s.orch.shaWen && s.orch.shaAddr < 32 then k - 1 else k

end Stages

section Step

variable (m : Message) (s : TopMost) (x : TopIn)

/-- The session of `k` words goes on to one of `k'`. -/
structure Goes (k n k' n' : ℕ) : Prop where
  session : InSession m (s.step x) k' n'
  arrived : (s.step x).arrived k' = k
  takes : k' - 16 = k - 16 + (if s.takes then 1 else 0)
  bound : n' < n ∨ s.Waits ∧ (s.step x).orch.state = .waitData ∧ k' = k ∧ n' = n

end Step

variable {m : Message} {s : TopMost} {x : TopIn} {k n : ℕ}

/-! ## What a cycle keeps -/

namespace Counted

variable {q q' : Orch}

theorem keep (h : Counted m q k) (hl : q'.shaLenReg = q.shaLenReg) (hf : q'.shaFed = q.shaFed)
    (hp : q'.blkPtr = q.blkPtr) : Counted m q' k :=
  ⟨hl.trans h.len, hf.trans h.fed, hp.trans h.ptr, h.le⟩

theorem feed (h : Counted m q k) (hk : k < m.fed.length) (hl : q'.shaLenReg = q.shaLenReg)
    (hf : q'.shaFed = q.shaFed + 1) (hp : q'.blkPtr = q.blkPtr + 1) : Counted m q' (k + 1) where
  len := hl.trans h.len
  fed := by rw [hf, h.fed, BitVec.ofNat_add]; rfl
  ptr := by rw [hp, h.ptr, BitVec.ofNat_add]; rfl
  le := hk

/-- The test for the last word. -/
theorem lastWord (h : Counted m q k) (hk : k < m.fed.length) :
    q.lastWord = decide (k + 1 = m.fed.length) := by
  have hlt := m.length_fed_lt
  rw [Orch.lastWord, h.fed, h.len, Bool.eq_iff_iff, beq_iff_eq, decide_eq_true_iff, BitVec.toNat_eq]
  simp only [BitVec.toNat_add, BitVec.toNat_ofNat, BitVec.ofNat_eq_ofNat]
  omega

/-- The test for a full block. -/
theorem full (h : Counted m q k) : (q.blkPtr = 31) ↔ (k + 1) % 32 = 0 := by
  rw [h.ptr, BitVec.toNat_eq]
  simp only [BitVec.toNat_ofNat, BitVec.ofNat_eq_ofNat]
  omega

end Counted

theorem advance_edStart {q : Orch} {o : OrchIn} (hq : q.state ≠ .edStart) :
    (q.advance o).edStart = q.edStart := by
  unfold Orch.advance
  split <;> (try split_ifs) <;> first | rfl | exact absurd ‹_› hq

theorem advance_bootQ {q : Orch} {o : OrchIn} : (q.advance o).bootQ = q.bootQ := by
  unfold Orch.advance
  split <;> (try split_ifs) <;> rfl

theorem Calm.step (h : Calm s) (hx : Undisturbed x) (hs : s.orch.state ≠ .edStart) :
    Calm (s.step x) where
  edIdle := by
    change s.ed.fsm.nextState s.orch.edStart _ _ = .idle
    simp [MasterFsm.nextState, h.edIdle, h.edStart]
  edStart := by
    rw [orch_step hx, advance_edStart (q := s.orch.defaults (s.orchIn x)) hs]
    rfl
  bootQ := by
    rw [orch_step hx, advance_bootQ]
    change (s.orch.bootQ && !s.edDone) = true
    rw [h.bootQ, h.edDone]
    rfl

theorem arrived_of_quiet (hw : s.orch.shaWen = false) : s.arrived k = k := by simp [arrived, hw]

theorem arrived_of_gives {l : List (BitVec 32)} (h : Gives l s k) : s.arrived (k + 1) = k := by
  have hlt : s.orch.shaAddr < 32 := by
    rw [h.addr, BitVec.lt_def]
    simp only [BitVec.toNat_ofNat, BitVec.ofNat_eq_ofNat]
    omega
  rw [arrived, h.wen, decide_eq_true hlt, Bool.and_self, if_pos rfl, Nat.add_sub_cancel]

/-- A cycle that feeds no word. -/
theorem InSession.hold {n' : ℕ} (h : InSession m s k n)
    (hq : (s.step x).orch.shaLenReg = s.orch.shaLenReg ∧
      (s.step x).orch.shaFed = s.orch.shaFed ∧ (s.step x).orch.blkPtr = s.orch.blkPtr ∧
      (s.step x).orch.pubkeyReg = s.orch.pubkeyReg)
    (hstage : Stage m (s.step x) k n') (ha : (s.step x).arrived k = k) (ht : s.takes = false)
    (hb : n' < n ∨ s.Waits ∧ (s.step x).orch.state = .waitData ∧ n' = n) :
    Goes m s x k n k n' where
  session :=
    { counted := h.counted.keep hq.1 hq.2.1 hq.2.2.1
      key := by rw [hq.2.2.2]; exact h.key
      stage := hstage }
  arrived := ha
  takes := by simp [ht]
  bound := hb.imp_right fun hw => ⟨hw.1, hw.2.1, rfl, hw.2.2⟩

/-- A cycle that feeds word `k`. -/
theorem InSession.feed {n' : ℕ} (h : InSession m s k n) (hk : k < m.fed.length)
    (hq : (s.step x).orch.shaLenReg = s.orch.shaLenReg ∧
      (s.step x).orch.shaFed = s.orch.shaFed + 1 ∧ (s.step x).orch.blkPtr = s.orch.blkPtr + 1)
    (hkey : Shifted (s.step x).orch.pubkeyReg (m.keyWords.take (k + 1 - 8)))
    (hg : Gives m.fed (s.step x) k) (hstage : Stage m (s.step x) (k + 1) n')
    (ht : k + 1 - 16 = k - 16 + (if s.takes then 1 else 0)) (hb : n' < n) :
    Goes m s x k n (k + 1) n' where
  session :=
    { counted := h.counted.feed hk hq.1 hq.2.1 hq.2.2
      key := hkey
      stage := hstage }
  arrived := arrived_of_gives hg
  takes := ht
  bound := .inl hb

/-- The write that feeds word `k`. -/
theorem gives_of_feed (h : Counted m s.orch k) {w : BitVec 32} (hw : w = m.fed.getD k 0)
    (hq : (s.step x).orch.shaWen = true ∧
      (s.step x).orch.shaAddr = s.orch.blkPtr.setWidth 6 ∧ (s.step x).orch.shaWdata = w) :
    Gives m.fed (s.step x) k where
  wen := hq.1
  addr := by
    rw [hq.2.1, h.ptr, BitVec.toNat_eq]
    simp only [BitVec.toNat_setWidth, BitVec.toNat_ofNat]
  data := hq.2.2.trans hw

/-- No block is full before word 32. -/
theorem first_block {l : List (BitVec 32)} (h : Receiving l s k) (hk : k < 32) :
    s.orch.shaWen = true → k % 32 ≠ 0 := by
  intro hw
  cases h with
  | quiet b hs hf hw' => exact absurd (hw'.symm.trans hw) Bool.false_ne_true
  | word p b hp hs hf hg => omega

theorem busyCycles_le (s : ShaCore) : busyCycles s ≤ 82 := by
  unfold busyCycles
  cases s.state <;> simp only <;> omega

/-- The rounds of a block end. -/
theorem busyCycles_lt {l : List (BitVec 32)} {s : ShaCore} {y : ShaIn}
    (h : ShaCore.Phase l s k) (hk : k < l.length) (hs : s.state ≠ .recv) :
    busyCycles (s.step y) < busyCycles s := by
  cases h with
  | recv b hs' h hp => exact absurd hs' hs
  | pad b hs' h hp hT => omega
  | work b r hs' h hT =>
    have hb : busyCycles s = 2 + (80 - r) := by
      simp only [busyCycles, hs', h.toNat_roundCount]
    rw [hb]
    rcases h.next_round (x := y) hs' with ⟨-, hst⟩ | ⟨hr, hst, hrc⟩
    · simp only [busyCycles, hst]
      omega
    · simp only [busyCycles, hst, hrc]
      omega
  | accum b hs' h hT =>
    have hl := ShaCore.length_padded_gt l
    have hlast : s.isLastBlock = false := by
      rw [h.isLastBlock, decide_eq_false (by omega)]
    have hst : (s.step y).state = if s.prep.muxSelO then .pad else .recv := by
      simp [ShaCore.step, ShaCore.stateD, hs', hlast]
    split_ifs at hst <;> simp [busyCycles, hst, hs']
  | done hs' hi hh hq hT =>
    have hl := ShaCore.length_padded_gt l
    omega

theorem takes_of_ne (hs : s.orch.state ≠ .waitData) : s.takes = false := by
  simp [takes, hs]

theorem prepStart_of_addr (hp : s.shaIn.addr ≠ 0x20) : ShaCore.prepStart s.shaIn = false := by
  rw [ShaCore.prepStart, beq_eq_false_iff_ne.2 hp, Bool.and_false, Bool.false_and]

/-- From word 16 on the key is complete. -/
theorem InSession.key_full (h : InSession m s k n) (h16 : 16 ≤ k) {k' : ℕ} (hk' : 16 ≤ k') :
    Shifted s.orch.pubkeyReg (m.keyWords.take (k' - 8)) := by
  have hkw := m.length_keyWords
  have hkey := h.key
  rw [List.take_of_length_le (by omega)] at hkey ⊢
  exact hkey

/-- The half of the digest that is read goes into the register. -/
theorem read_half {j : ℕ} (hj : j < 16) (hf : ShaCore.Finished m.fed s.sha)
    (ha : s.orch.shaAddr = 0x22 + BitVec.ofNat 6 j)
    (hh : Shifted s.orch.hashReg ((Sha512.hash (wordBytes m.words)).halves.take j)) :
    Shifted (shiftWord 480 s.orch.hashReg (byteSwap s.shaRdata))
      ((Sha512.hash (wordBytes m.words)).halves.take (j + 1)) := by
  have hlen : (Sha512.hash (wordBytes m.words)).halves.length = 16 := rfl
  have hd : s.shaRdata = (Sha512.hash (wordBytes m.words)).halves.getD j 0 := by
    rw [shaRdata, ha, ← m.message_fed]
    exact hf.shows m.length_fed_lt j hj
  have ht : (Sha512.hash (wordBytes m.words)).halves.take (j + 1) =
      (Sha512.hash (wordBytes m.words)).halves.take j ++ [s.shaRdata] := by
    rw [hd, List.take_add_one, List.getElem?_eq_getElem (by omega),
      List.getD_eq_getElem _ 0 (by omega)]
    rfl
  rw [ht]
  refine Shifted.push hh ?_ s.shaRdata
  rw [List.length_take]
  omega

/-! ## One cycle in each stage -/

section Cases

variable (h : InSession m s k n) (hx : Supplies m s x k)
include h hx

theorem InSession.cfgLen_step (hs : s.orch.state = .shaCfgLen) (hi : s.sha.Idle)
    (hw : s.orch.shaWen = false) (hr : s.orch.rIdx = 0) (ho : s.orch.otpIdx = 0) (hk : k = 0)
    (hn : n = wordCost m 0 + 7) : ∃ n', Goes m s x k n k n' := by
  have hq := orch_shaCfgLen hx.undisturbed hs
  refine ⟨wordCost m 0 + 6, h.hold (by rw [hq]; exact ⟨rfl, rfl, rfl, rfl⟩) ?_ ?_
    (takes_of_ne (by simp [hs])) (.inl (by omega))⟩
  · subst hk
    refine .cfgCtrl (by rw [hq]) (hi.step (ShaCore.prepStart_quiet hw)) ?_ (by rw [hq]; exact hr)
      (by rw [hq]; exact ho)
    rw [shaIn, hq, ← h.counted.len]
  · rw [arrived, hq]
    rfl

theorem InSession.cfgCtrl_step (hs : s.orch.state = .shaCfgCtrl) (hi : s.sha.Idle)
    (hp : s.shaIn = ⟨0x32, true, BitVec.ofNat 32 m.fed.length⟩) (hr : s.orch.rIdx = 0)
    (ho : s.orch.otpIdx = 0) (hk : k = 0) (hn : n = wordCost m 0 + 6) :
    ∃ n', Goes m s x k n k n' := by
  have hq := orch_shaCfgCtrl hx.undisturbed hs
  refine ⟨wordCost m 0 + 5, h.hold (by rw [hq]; exact ⟨rfl, rfl, rfl, rfl⟩) ?_ ?_
    (takes_of_ne (by simp [hs])) (.inl (by omega))⟩
  · subst hk
    refine .start (by rw [hq]) (hi.step (prepStart_of_addr (by simp [hp]))) ?_ ?_
      (by rw [hq]; exact hr) (by rw [hq]; exact ho)
    · change (s.sha.step s.shaIn).msgLength = _
      rw [hp]
      rfl
    · rw [shaIn, hq]
  · rw [arrived, hq]
    rfl

theorem InSession.start_step (hs : s.orch.state = .shaPoll) (hi : s.sha.Idle)
    (hm : s.sha.msgLength = BitVec.ofNat 32 m.fed.length) (hp : s.shaIn = ⟨0x20, true, 3⟩)
    (hr : s.orch.rIdx = 0) (ho : s.orch.otpIdx = 0) (hk : k = 0) (hn : n = wordCost m 0 + 5) :
    ∃ n', Goes m s x k n k n' := by
  have ha : s.orch.shaAddr = 0x20 := congrArg ShaIn.addr hp
  have hd : s.shaRdata.getLsbD 0 = false := by
    change (s.sha.rdata s.orch.shaAddr).getLsbD 0 = false
    rw [ha, ShaCore.rdata_low _ (by decide)]
    rfl
  have hq := orch_shaPoll hx.undisturbed hs
  simp only [hd, Bool.false_eq_true, if_false] at hq
  obtain ⟨hrecv, hf⟩ := ShaCore.Filling.start hi hm m.length_fed_lt hp
  have hw : (s.step x).orch.shaWen = false := by rw [hq]; rfl
  refine ⟨wordCost m 0 + 4, h.hold (by rw [hq]; exact ⟨rfl, rfl, rfl, rfl⟩) ?_
    (arrived_of_quiet hw) (takes_of_ne (by simp [hs])) (.inl (by omega))⟩
  subst hk
  exact .poll (by rw [hq]) (.quiet 0 hrecv hf hw) ⟨hw, by rw [hq]⟩ (by rw [hq]; exact hr)
    (by rw [hq]; exact ho)

theorem InSession.poll_step (hs : s.orch.state = .shaPoll) (hf : Receiving m.fed s 0)
    (hp : s.shaIn.wrEn = false ∧ s.orch.shaAddr = 0x21) (hr : s.orch.rIdx = 0)
    (ho : s.orch.otpIdx = 0) (hk : k = 0) (hn : n = wordCost m 0 + 4) :
    ∃ n', Goes m s x k n k n' := by
  have hd : s.shaRdata.getLsbD 0 = true := by
    change (s.sha.rdata s.orch.shaAddr).getLsbD 0 = true
    rw [hp.2, ShaCore.rdata_status, hf.recv]
    rfl
  have hq := orch_shaPoll hx.undisturbed hs
  simp only [hd, if_true] at hq
  have hw : (s.step x).orch.shaWen = false := by rw [hq]; rfl
  refine ⟨wordCost m 0 + 3, h.hold (by rw [hq]; exact ⟨rfl, rfl, rfl, rfl⟩) ?_
    (arrived_of_quiet hw) (takes_of_ne (by simp [hs])) (.inl (by omega))⟩
  subst hk
  refine .feedR 0 (by omega) (by rw [hq]) ?_ (by rw [hq]; exact hr) (by rw [hq]; exact ho)
  have hlen := m.length_fed
  exact hf.hold m.length_fed_lt (by omega) (fun hc => absurd (hp.1.symm.trans hc) (by simp)) hw

theorem InSession.feedR_step (hk : k < 8) (hs : s.orch.state = .feedR) (hf : Receiving m.fed s k)
    (hr : s.orch.rIdx = BitVec.ofNat 3 k) (ho : s.orch.otpIdx = 0) (hn : n = wordCost m k + 3) :
    ∃ n', Goes m s x k n (k + 1) n' := by
  have hlen := m.length_fed
  have hidx : s.orch.rIdx.toNat = k := by
    rw [hr, BitVec.toNat_ofNat]
    omega
  have hword : s.csr.rReg.extractLsb' (s.orch.rIdx.toNat * 32) 32 = m.fed.getD k 0 := by
    rw [hidx, hx.r.word (by rw [m.length_r]) (by rw [m.length_r]; exact hk), m.fed_r hk]
  have h7 : s.orch.rIdx = 7 ↔ k = 7 := by
    rw [← hidx, BitVec.toNat_eq]
    rfl
  have hq := orch_feedR hx.undisturbed hs
  have hg : Gives m.fed (s.step x) k :=
    gives_of_feed h.counted hword (by rw [hq]; exact ⟨rfl, rfl, rfl⟩)
  have hrecv : Receiving m.fed (s.step x) (k + 1) :=
    hf.feed m.length_fed_lt (by omega) (first_block hf (by omega)) hg
  have hcost : wordCost m (k + 1) + 3 < n := by
    rw [hn, wordCost, wordCost]
    omega
  refine ⟨_, h.feed (by omega) (by rw [hq]; exact ⟨rfl, rfl, rfl⟩) ?_ hg ?_ ?_ hcost⟩
  · rw [show k + 1 - 8 = k - 8 by omega, hq]
    exact h.key
  · by_cases hk7 : k = 7
    · subst hk7
      refine .otpReq 0 (by omega) ?_ hrecv (by rw [hq]; exact ho)
      rw [hq]
      exact if_pos (h7.2 rfl)
    · refine .feedR (k + 1) (by omega) ?_ hrecv ?_ (by rw [hq]; exact ho)
      · rw [hq]
        exact if_neg fun hc => hk7 (h7.1 hc)
      · rw [hq, BitVec.ofNat_add, ← hr]
        rfl
  · rw [takes_of_ne (by simp [hs])]
    simp
    omega

theorem InSession.otpReq_step {j : ℕ} (hk : k = 8 + j) (hj : j < 8)
    (hs : s.orch.state = .otpReq) (hf : Receiving m.fed s k)
    (ho : s.orch.otpIdx = BitVec.ofNat 3 j) (hn : n = wordCost m k + 3) :
    ∃ n', Goes m s x k n k n' := by
  have hlen := m.length_fed
  have hq := orch_otpReq hx.undisturbed hs
  have hw : (s.step x).orch.shaWen = false := by rw [hq]; rfl
  have hrecv : Receiving m.fed (s.step x) k :=
    hf.hold m.length_fed_lt (by omega) (first_block hf (by omega)) hw
  refine ⟨wordCost m k + 2, h.hold (by rw [hq]; exact ⟨rfl, rfl, rfl, rfl⟩) ?_
    (arrived_of_quiet hw) (takes_of_ne (by simp [hs])) (.inl (by omega))⟩
  subst hk
  exact .otpLatch j hj (by rw [hq]) hrecv (by rw [hq]; exact ho) (by rw [hq])

theorem InSession.otpLatch_step {j : ℕ} (hk : k = 8 + j) (hj : j < 8)
    (hs : s.orch.state = .otpLatch) (hf : Receiving m.fed s k)
    (ho : s.orch.otpIdx = BitVec.ofNat 3 j) (he : s.orch.otpRdEn = true)
    (hn : n = wordCost m k + 2) : ∃ n', Goes m s x k n (k + 1) n' := by
  have hlen := m.length_fed
  have hidx : s.orch.otpIdx.toNat = j := by
    rw [ho, BitVec.toNat_ofNat]
    omega
  have hdata : x.otpData = m.key.extractLsb' (j * 32) 32 := by
    rw [hx.otp he, otpAddrO, hidx]
  have h7 : s.orch.otpIdx = 7 ↔ j = 7 := by
    rw [← hidx, BitVec.toNat_eq]
    rfl
  have hfull : ¬ s.orch.blkPtr = 31 := by
    rw [h.counted.full]
    omega
  have hq := orch_otpLatch hx.undisturbed hs
  have hg : Gives m.fed (s.step x) k := by
    refine gives_of_feed h.counted (w := byteSwap x.otpData) ?_ (by rw [hq]; exact ⟨rfl, rfl, rfl⟩)
    rw [hdata, hk, m.fed_key hj]
  have hrecv : Receiving m.fed (s.step x) (k + 1) :=
    hf.feed m.length_fed_lt (by omega) (first_block hf (by omega)) hg
  have hkey : Shifted (s.step x).orch.pubkeyReg (m.keyWords.take (k + 1 - 8)) := by
    have hkw := m.length_keyWords
    have ht : m.keyWords.take (k + 1 - 8) = m.keyWords.take (k - 8) ++ [x.otpData] := by
      rw [show k + 1 - 8 = j + 1 by omega, show k - 8 = j by omega, List.take_add_one,
        List.getElem?_eq_getElem (by omega), ← List.getD_eq_getElem _ 0 (by omega),
        m.getD_keyWords hj, hdata]
      rfl
    rw [ht, hq]
    refine Shifted.push h.key ?_ x.otpData
    rw [List.length_take, hkw]
    omega
  have hst : (s.step x).orch.state = if j = 7 then
      (if k + 1 = m.fed.length then .waitIntr else .waitData) else .otpReq := by
    have hlast := h.counted.lastWord (show k < m.fed.length by omega)
    rw [hq]
    change (if s.orch.otpIdx = 7 then (if s.orch.lastWord = true then TopFsm.waitIntr
      else if (s.orch.blkPtr == 31) = true then .blkPoll else .waitData)
      else if (s.orch.blkPtr == 31) = true then .blkPollOtp else .otpReq) = _
    simp only [h7, hlast, decide_eq_true_eq, beq_iff_eq, hfull, if_false]
  have hne := takes_of_ne (s := s) (by simp [hs])
  have htakes : k + 1 - 16 = k - 16 + (if s.takes then 1 else 0) := by
    rw [hne]
    simp
    omega
  by_cases hj7 : j = 7
  · rw [if_pos hj7] at hst
    by_cases hl : k + 1 = m.fed.length
    · rw [if_pos hl] at hst
      refine ⟨9000, h.feed (by omega) (by rw [hq]; exact ⟨rfl, rfl, rfl⟩) hkey hg ?_
        htakes (by rw [hn, wordCost]; omega)⟩
      rw [hl] at hrecv ⊢
      exact .lastWord hst hrecv hg.wen
    · rw [if_neg hl] at hst
      exact ⟨_, h.feed (by omega) (by rw [hq]; exact ⟨rfl, rfl, rfl⟩) hkey hg
        (.waitData (k + 1) (by omega) (by omega) hst hrecv fun _ => by omega) htakes
        (by rw [hn, wordCost, wordCost]; omega)⟩
  · rw [if_neg hj7] at hst
    refine ⟨wordCost m (k + 1) + 3, h.feed (by omega)
      (by rw [hq]; exact ⟨rfl, rfl, rfl⟩) hkey hg ?_ htakes
      (by rw [hn, wordCost, wordCost]; omega)⟩
    have hidx' : (s.step x).orch.otpIdx = BitVec.ofNat 3 (j + 1) := by
      rw [hq, BitVec.ofNat_add, ← ho]
      exact if_neg fun hc => hj7 (h7.1 hc)
    subst hk
    exact .otpReq (j + 1) (by omega) hst hrecv hidx'

theorem InSession.waitData_step (h16 : 16 ≤ k) (hk : k < m.fed.length)
    (hs : s.orch.state = .waitData) (hf : Receiving m.fed s k)
    (h32 : s.orch.shaWen = true → k % 32 ≠ 0) (hn : n = wordCost m k + 1) :
    ∃ k' n', Goes m s x k n k' n' := by
  rcases hd : s.csr.dataPending with _ | _
  · have hq := orch_waitData hx.undisturbed hs hd
    have hst : (s.step x).orch.state = .waitData := by rw [hq]; exact hs
    have hw : (s.step x).orch.shaWen = false := by rw [hq]; rfl
    exact ⟨k, n, h.hold (by rw [hq]; exact ⟨rfl, rfl, rfl, rfl⟩)
      (by
        rw [hn]
        exact .waitData k h16 hk hst (hf.hold m.length_fed_lt hk h32 hw) fun hc =>
          absurd (hw.symm.trans hc) Bool.false_ne_true)
      (arrived_of_quiet hw) (by simp [TopMost.takes, hd]) (.inr ⟨⟨hs, hd⟩, hst, rfl⟩)⟩
  · have hq := orch_data hx.undisturbed hs hd
    have hg : Gives m.fed (s.step x) k := by
      refine gives_of_feed h.counted (w := byteSwap s.csr.dataInReg) ?_
        (by rw [hq]; exact ⟨rfl, rfl, rfl⟩)
      rw [hx.data hs hd, m.fed_data h16 hk]
    have hrecv : Receiving m.fed (s.step x) (k + 1) := hf.feed m.length_fed_lt hk h32 hg
    have hst : (s.step x).orch.state = if k + 1 = m.fed.length then .waitIntr
        else if (k + 1) % 32 = 0 then .blkPoll else .waitData := by
      have hlast := h.counted.lastWord hk
      rw [hq]
      change (if s.orch.lastWord = true then TopFsm.waitIntr
        else if s.orch.blkPtr = 31 then .blkPoll else .waitData) = _
      simp only [hlast, decide_eq_true_eq, h.counted.full]
    have htakes : k + 1 - 16 = k - 16 + (if s.takes then 1 else 0) := by
      have ht : s.takes = true := by simp [TopMost.takes, hs, hd]
      rw [if_pos ht]
      omega
    have hkey : Shifted (s.step x).orch.pubkeyReg (m.keyWords.take (k + 1 - 8)) := by
      rw [hq]
      exact h.key_full h16 (by omega)
    have hsame : (s.step x).orch.shaLenReg = s.orch.shaLenReg ∧
        (s.step x).orch.shaFed = s.orch.shaFed + 1 ∧
        (s.step x).orch.blkPtr = s.orch.blkPtr + 1 := by
      rw [hq]
      exact ⟨rfl, rfl, rfl⟩
    by_cases hl : k + 1 = m.fed.length
    · rw [if_pos hl] at hst
      refine ⟨k + 1, 9000, h.feed hk hsame hkey hg ?_ htakes
        (by rw [hn, wordCost]; omega)⟩
      rw [hl] at hrecv ⊢
      exact .lastWord hst hrecv hg.wen
    rw [if_neg hl] at hst
    by_cases hfull : (k + 1) % 32 = 0
    · rw [if_pos hfull] at hst
      exact ⟨k + 1, _, h.feed hk hsame hkey hg
        (.blkWord (k + 1) (by omega) (by omega) hst hrecv hg.wen) htakes
        (by rw [hn, wordCost, wordCost]; omega)⟩
    · rw [if_neg hfull] at hst
      exact ⟨k + 1, _, h.feed hk hsame hkey hg
        (.waitData (k + 1) (by omega) (by omega) hst hrecv fun _ => hfull) htakes
        (by rw [hn, wordCost, wordCost]; omega)⟩

theorem InSession.blkWord_step (h16 : 16 ≤ k) (hk : k < m.fed.length)
    (hs : s.orch.state = .blkPoll) (hf : Receiving m.fed s k) (hw : s.orch.shaWen = true)
    (hn : n = wordCost m k + 300) : ∃ n', Goes m s x k n k n' := by
  have hlow : s.orch.shaAddr.toNat ≤ 0x20 := by
    cases hf with
    | quiet b hs hf hw' => exact absurd (hw'.symm.trans hw) Bool.false_ne_true
    | word p b hp hs hf hg =>
      rw [hg.addr, BitVec.toNat_ofNat]
      omega
  have hd : s.shaRdata.getLsbD 0 = false := by
    change (s.sha.rdata s.orch.shaAddr).getLsbD 0 = false
    rw [ShaCore.rdata_low _ hlow]
    rfl
  have hq := orch_blkPoll hx.undisturbed hs
  simp only [hd, Bool.false_eq_true, if_false] at hq
  have hw' : (s.step x).orch.shaWen = false := by rw [hq]; rfl
  have hbusy := busyCycles_le (s.step x).sha
  exact ⟨_, h.hold (by rw [hq]; exact ⟨rfl, rfl, rfl, rfl⟩)
    (.blkPoll k h16 hk (by rw [hq]) (hf.step m.length_fed_lt hk.le) hw' (by rw [hq]))
    (arrived_of_quiet hw') (takes_of_ne (by simp [hs])) (.inl (by omega))⟩

theorem InSession.blkPoll_step (h16 : 16 ≤ k) (hk : k < m.fed.length)
    (hs : s.orch.state = .blkPoll) (hf : ShaCore.Phase m.fed s.sha k)
    (hw : s.orch.shaWen = false) (ha : s.orch.shaAddr = 0x21)
    (hn : n = wordCost m k + 2 + busyCycles s.sha) : ∃ n', Goes m s x k n k n' := by
  have hd : s.shaRdata.getLsbD 0 =
      decide (s.sha.state = .idle ∨ s.sha.state = .recv) := by
    change (s.sha.rdata s.orch.shaAddr).getLsbD 0 = _
    rw [ha, ShaCore.rdata_status]
  have hq := orch_blkPoll hx.undisturbed hs
  simp only [hd, decide_eq_true_eq] at hq
  have hw' : (s.step x).orch.shaWen = false := by rw [hq]; rfl
  have hsame : (s.step x).orch.shaLenReg = s.orch.shaLenReg ∧
      (s.step x).orch.shaFed = s.orch.shaFed ∧ (s.step x).orch.blkPtr = s.orch.blkPtr ∧
      (s.step x).orch.pubkeyReg = s.orch.pubkeyReg := by
    rw [hq]
    exact ⟨rfl, rfl, rfl, rfl⟩
  by_cases hr : s.sha.state = .recv
  · have hrecv : Receiving m.fed s k := by
      cases hf with
      | recv b hs' hf hp => exact .quiet b hr hf hw
      | pad b hs' hf hp hT => exact absurd (hr.symm.trans hs') (by simp)
      | work b r hs' hf hT => exact absurd (hr.symm.trans hs') (by simp)
      | accum b hs' hf hT => exact absurd (hr.symm.trans hs') (by simp)
      | done hs' hi hh hq hT => exact absurd (hr.symm.trans hs') (by simp)
    refine ⟨wordCost m k + 1, h.hold hsame ?_ (arrived_of_quiet hw')
      (takes_of_ne (by simp [hs])) (.inl (by omega))⟩
    refine .waitData k h16 hk ?_ (hrecv.hold m.length_fed_lt hk (fun hc =>
      absurd (hw.symm.trans hc) Bool.false_ne_true) hw') fun hc =>
        absurd (hw'.symm.trans hc) Bool.false_ne_true
    rw [hq]
    exact if_pos (.inr hr)
  · have hlt := busyCycles_lt (y := s.shaIn) hf hk hr
    have hphase : ShaCore.Phase m.fed (s.step x).sha k ∧ s.sha.state ≠ .idle := by
      have hl := ShaCore.length_padded_gt m.fed
      cases hf with
      | recv b hs' hf hp => exact absurd hs' hr
      | pad b hs' hf hp hT => exact absurd hk (by omega)
      | work b r hs' hf hT => exact ⟨.work_step hs' hf hT hw, by simp [hs']⟩
      | accum b hs' hf hT => exact ⟨.accum_step hs' hf hT hw, by simp [hs']⟩
      | done hs' hi hh hq hT => exact absurd hk (by omega)
    refine ⟨_, h.hold hsame (.blkPoll k h16 hk ?_ hphase.1 hw' (by rw [hq]))
      (arrived_of_quiet hw') (takes_of_ne (by simp [hs])) (.inl ?_)⟩
    · rw [hq]
      exact if_neg fun hc => hc.elim hphase.2 hr
    · change wordCost m k + 2 + busyCycles (s.sha.step s.shaIn) < n
      omega

theorem InSession.lastWord_step (hk : k = m.fed.length) (hs : s.orch.state = .waitIntr)
    (hf : Receiving m.fed s m.fed.length) (hn : n = 9000) : ∃ n', Goes m s x k n k n' := by
  have hi : s.sha.intrO = false := by
    cases hf with
    | quiet b hs hf hw => exact hf.intrO
    | word p b hp hs hf hg => exact hf.intrO
  have hq := orch_waitIntr hx.undisturbed hs hi
  have hw : (s.step x).orch.shaWen = false := by rw [hq]; rfl
  have hd := ShaCore.distance_le (l := m.fed) (s.step x).sha m.fed.length
  have hlen := length_padded m.fed
  have hz := zeroWords_bounds m.fed.length
  refine ⟨50 + ShaCore.distance m.fed (s.step x).sha m.fed.length,
    h.hold (by rw [hq]; exact ⟨rfl, rfl, rfl, rfl⟩) ?_
    (arrived_of_quiet hw) (takes_of_ne (by simp [hs])) (.inl (by omega))⟩
  subst hk
  exact .waitIntr _ le_rfl (by rw [hq]; exact hs) (hf.step m.length_fed_lt le_rfl) hw

theorem InSession.waitIntr_step {p : ℕ} (hk : k = m.fed.length) (hp : m.fed.length ≤ p)
    (hs : s.orch.state = .waitIntr) (hf : ShaCore.Phase m.fed s.sha p)
    (hw : s.orch.shaWen = false) (hn : n = 50 + ShaCore.distance m.fed s.sha p) :
    ∃ n', Goes m s x k n k n' := by
  have hq := orch_waitIntr hx.undisturbed hs hf.intrO
  have hst : (s.step x).orch.state = .waitIntr := by rw [hq]; exact hs
  have hw' : (s.step x).orch.shaWen = false := by rw [hq]; rfl
  have hsame : (s.step x).orch.shaLenReg = s.orch.shaLenReg ∧
      (s.step x).orch.shaFed = s.orch.shaFed ∧ (s.step x).orch.blkPtr = s.orch.blkPtr ∧
      (s.step x).orch.pubkeyReg = s.orch.pubkeyReg := by
    rw [hq]
    exact ⟨rfl, rfl, rfl, rfl⟩
  have hfeeds : ShaCore.Feeds m.fed s.sha s.shaIn (min p m.fed.length) := fun hc =>
    absurd (hw.symm.trans hc) Bool.false_ne_true
  have hwait := takes_of_ne (s := s) (by simp [hs])
  subst hk
  rcases hf.step m.length_fed_lt hfeeds with ⟨hi', hfin, -, -⟩ | ⟨p', hp', hmin, hlt⟩
  · exact ⟨40, h.hold hsame (.intr hst hi' hfin hw') (arrived_of_quiet hw') hwait
      (.inl (by omega))⟩
  · have hwen : s.shaIn.wrEn = false := hw
    rw [hwen, if_neg Bool.false_ne_true] at hmin
    have hlt' := hlt hp
    refine ⟨_, h.hold hsame (.waitIntr p' (by omega) hst hp' hw')
      (arrived_of_quiet hw') hwait (.inl ?_)⟩
    change 50 + ShaCore.distance m.fed (s.sha.step s.shaIn) p' < n
    omega

theorem InSession.intr_step (hk : k = m.fed.length) (hs : s.orch.state = .waitIntr)
    (hi : s.sha.intrO = true) (hf : ShaCore.Finished m.fed s.sha) (hw : s.orch.shaWen = false)
    (hn : n = 40) : ∃ n', Goes m s x k n k n' := by
  have hq := orch_intr hx.undisturbed hs hi
  have hw' : (s.step x).orch.shaWen = false := by rw [hq]; rfl
  refine ⟨10 + (15 - 0), h.hold (by rw [hq]; exact ⟨rfl, rfl, rfl, rfl⟩) ?_
    (arrived_of_quiet hw') (takes_of_ne (by simp [hs])) (.inl (by omega))⟩
  subst hk
  refine .readHash 0 (by omega) (by rw [hq]) (hf.step hw) hw' (by rw [hq]; rfl) (by rw [hq]; rfl) ?_
  rw [List.take_zero]
  exact Shifted.nil _

theorem InSession.readHash_step {j : ℕ} (hk : k = m.fed.length) (hj : j < 15)
    (hs : s.orch.state = .readHash) (hf : ShaCore.Finished m.fed s.sha)
    (hw : s.orch.shaWen = false) (ha : s.orch.shaAddr = 0x22 + BitVec.ofNat 6 j)
    (hi : s.orch.hashIdx = BitVec.ofNat 4 j)
    (hh : Shifted s.orch.hashReg ((Sha512.hash (wordBytes m.words)).halves.take j))
    (hn : n = 10 + (15 - j)) : ∃ n', Goes m s x k n k n' := by
  have hq := orch_readHash hx.undisturbed hs
  have hw' : (s.step x).orch.shaWen = false := by rw [hq]; rfl
  have h14 : s.orch.hashIdx = 14 ↔ j = 14 := by
    rw [hi, BitVec.toNat_eq]
    simp only [BitVec.toNat_ofNat, BitVec.ofNat_eq_ofNat]
    omega
  have hread := read_half (by omega) hf ha hh
  have hreg : (s.step x).orch.hashReg = shiftWord 480 s.orch.hashReg (byteSwap s.shaRdata) := by
    rw [hq]
  have haddr : (s.step x).orch.shaAddr = 0x22 + BitVec.ofNat 6 (j + 1) := by
    rw [hq]
    change (if s.orch.hashIdx = 14 then 0x31 else 0x22 + (s.orch.hashIdx.setWidth 6 + 1)) = _
    by_cases hj14 : j = 14
    · rw [if_pos (h14.2 hj14), hj14]
      rfl
    · rw [if_neg fun hc => hj14 (h14.1 hc), hi, BitVec.toNat_eq]
      simp only [BitVec.toNat_add, BitVec.toNat_setWidth, BitVec.toNat_ofNat,
        BitVec.ofNat_eq_ofNat]
      omega
  have hst : (s.step x).orch.state = if j = 14 then .readHashLast else .readHash := by
    rw [hq]
    change (if s.orch.hashIdx = 14 then TopFsm.readHashLast else .readHash) = _
    simp only [h14]
  have hsame : (s.step x).orch.shaLenReg = s.orch.shaLenReg ∧
      (s.step x).orch.shaFed = s.orch.shaFed ∧ (s.step x).orch.blkPtr = s.orch.blkPtr ∧
      (s.step x).orch.pubkeyReg = s.orch.pubkeyReg := by
    rw [hq]
    exact ⟨rfl, rfl, rfl, rfl⟩
  subst hk
  by_cases hj14 : j = 14
  · rw [if_pos hj14] at hst
    subst hj14
    exact ⟨2, h.hold hsame
      (.readHashLast hst (hf.step hw) hw' haddr (by rw [hreg]; exact hread))
      (arrived_of_quiet hw') (takes_of_ne (by simp [hs])) (.inl (by omega))⟩
  · rw [if_neg hj14] at hst
    have hidx : (s.step x).orch.hashIdx = BitVec.ofNat 4 (j + 1) := by
      rw [hq, BitVec.ofNat_add, ← hi]
      rfl
    exact ⟨_, h.hold hsame
      (.readHash (j + 1) (by omega) hst (hf.step hw) hw' haddr hidx (by rw [hreg]; exact hread))
      (arrived_of_quiet hw') (takes_of_ne (by simp [hs])) (.inl (by omega))⟩

theorem InSession.readHashLast_step (hk : k = m.fed.length) (hs : s.orch.state = .readHashLast)
    (hf : ShaCore.Finished m.fed s.sha) (hw : s.orch.shaWen = false)
    (ha : s.orch.shaAddr = 0x22 + BitVec.ofNat 6 15)
    (hh : Shifted s.orch.hashReg ((Sha512.hash (wordBytes m.words)).halves.take 15)) :
    Loaded m (s.step x) := by
  have hq := orch_readHashLast hx.undisturbed hs
  have hlen := m.length_fed
  have hkw := m.length_keyWords
  have hdl : (Sha512.hash (wordBytes m.words)).halves.length = 16 := rfl
  have hkey := h.key
  rw [List.take_of_length_le (by omega)] at hkey
  have hread := read_half (by omega) hf ha hh
  rw [List.take_of_length_le (by omega)] at hread
  have hreg : (s.step x).orch.hashReg = shiftWord 480 s.orch.hashReg (byteSwap s.shaRdata) := by
    rw [hq]
  exact
    { state := .inl (by rw [hq])
      wen := by rw [hq]; rfl
      finished := hf.step hw
      key := by
        rw [hq]
        exact Shifted.eq hkey (by rw [hkw])
      hash := by
        rw [hreg]
        exact Shifted.eq hread (by rw [hdl]) }

end Cases

/-! ## One cycle -/

/-- **One cycle of a session**: it goes on, or the registers are loaded next. -/
theorem InSession.step (h : InSession m s k n) (hx : Supplies m s x k) :
    (∃ k' n', Goes m s x k n k' n') ∨
      (k = m.fed.length ∧ s.orch.state = .readHashLast ∧ Loaded m (s.step x)) := by
  have hlen := m.length_fed
  obtain ⟨n₀, hn⟩ : ∃ n₀, n₀ = n := ⟨_, rfl⟩
  obtain ⟨k₀, hk₀⟩ : ∃ k₀, k₀ = k := ⟨_, rfl⟩
  have hst := h.stage
  rw [← hn, ← hk₀] at hst
  cases hst with
  | cfgLen hs hi hw hr ho => exact .inl ⟨k, h.cfgLen_step hx hs hi hw hr ho hk₀.symm hn.symm⟩
  | cfgCtrl hs hi hp hr ho => exact .inl ⟨k, h.cfgCtrl_step hx hs hi hp hr ho hk₀.symm hn.symm⟩
  | start hs hi hm hp hr ho => exact .inl ⟨k, h.start_step hx hs hi hm hp hr ho hk₀.symm hn.symm⟩
  | poll hs hf hp hr ho => exact .inl ⟨k, h.poll_step hx hs hf hp hr ho hk₀.symm hn.symm⟩
  | feedR _ hk hs hf hr ho =>
    subst hk₀
    exact .inl ⟨k₀ + 1, h.feedR_step hx hk hs hf hr ho hn.symm⟩
  | otpReq j hj hs hf ho =>
    subst hk₀
    exact .inl ⟨8 + j, h.otpReq_step hx rfl hj hs hf ho hn.symm⟩
  | otpLatch j hj hs hf ho he =>
    subst hk₀
    exact .inl ⟨8 + j + 1, h.otpLatch_step hx rfl hj hs hf ho he hn.symm⟩
  | waitData _ h16 hk hs hf h32 =>
    subst hk₀
    exact .inl (h.waitData_step hx h16 hk hs hf h32 hn.symm)
  | blkWord _ h16 hk hs hf hw =>
    subst hk₀
    exact .inl ⟨k₀, h.blkWord_step hx h16 hk hs hf hw hn.symm⟩
  | blkPoll _ h16 hk hs hf hw ha =>
    subst hk₀
    exact .inl ⟨k₀, h.blkPoll_step hx h16 hk hs hf hw ha hn.symm⟩
  | lastWord hs hf hw => exact .inl ⟨k, h.lastWord_step hx hk₀.symm hs hf hn.symm⟩
  | waitIntr p hp hs hf hw => exact .inl ⟨k, h.waitIntr_step hx hk₀.symm hp hs hf hw hn.symm⟩
  | intr hs hi hf hw => exact .inl ⟨k, h.intr_step hx hk₀.symm hs hi hf hw hn.symm⟩
  | readHash j hj hs hf hw ha hi hh =>
    exact .inl ⟨k, h.readHash_step hx hk₀.symm hj hs hf hw ha hi hh hn.symm⟩
  | readHashLast hs hf hw ha hh =>
    exact .inr ⟨hk₀.symm, hs, h.readHashLast_step hx hk₀.symm hs hf hw ha hh⟩

end TopMost

end SentinelSoc
