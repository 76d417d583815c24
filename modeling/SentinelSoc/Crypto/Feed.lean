/-
  What a session of the orchestrator feeds to the SHA core.

  * `Shifted`: the words in a shift register;
  * `Message`: the words that a session is about;
  * `Receiving`: the SHA core in the states that feed it, and `Receiving.next`:
    it receives the next word, unless a block is full.
-/
import SentinelSoc.Crypto.TopMost
import SentinelSoc.Lib.ShiftReg
import SentinelSoc.Sha.Digest

namespace SentinelSoc

/-! ## Byte strings in registers -/

/-- The bytes of words, the highest first. -/
def wordBytes (ws : List (BitVec 32)) : List Sha512.Byte := ws.flatMap Sha512.beBytes

/-- The little-endian integer of a byte string. -/
def leInt (bytes : List Sha512.Byte) : ℕ := Nat.ofDigits 256 (bytes.map BitVec.toNat)

/-- The last words that entered a shift register, each with its bytes swapped. -/
def Shifted {n : ℕ} (reg : BitVec n) (ws : List (BitVec 32)) : Prop :=
  ShiftReg.Holds n 32 reg.toNat (ws.map fun w => (byteSwap w).toNat)

theorem toNat_append_byte {n : ℕ} (x : BitVec n) (b : BitVec 8) :
    (x ++ b).toNat = b.toNat + 256 * x.toNat := by
  rw [BitVec.toNat_append, ← Nat.shiftLeft_add_eq_or_of_lt b.isLt, Nat.shiftLeft_eq]
  omega

theorem toNat_byteSwap (w : BitVec 32) :
    (byteSwap w).toNat = Nat.ofDigits 256 ((Sha512.beBytes w).map BitVec.toNat) := by
  rw [byteSwap, toNat_append_byte, toNat_append_byte, toNat_append_byte]
  simp only [Sha512.beBytes, List.map_cons, List.map_nil, Nat.ofDigits_cons, Nat.ofDigits_nil]
  ring

theorem leInt_wordBytes (ws : List (BitVec 32)) :
    leInt (wordBytes ws) = Nat.ofDigits (2 ^ 32) (ws.map fun w => (byteSwap w).toNat) := by
  have hlen : ∀ w : BitVec 32, ((Sha512.beBytes w).map BitVec.toNat).length = 4 := fun _ => rfl
  rw [leInt, wordBytes, List.map_flatMap, ShiftReg.ofDigits_flatMap hlen]
  simp only [toNat_byteSwap]
  rfl

theorem toNat_shiftWord (n : ℕ) (reg : BitVec (32 + n)) (w : BitVec 32) :
    (shiftWord n reg w).toNat = w.toNat * 2 ^ n + reg.toNat / 2 ^ 32 := by
  have hlt : reg.toNat / 2 ^ 32 < 2 ^ n := by
    rw [Nat.div_lt_iff_lt_mul (by positivity), ← pow_add, Nat.add_comm n]
    exact reg.isLt
  rw [shiftWord, BitVec.toNat_append, BitVec.extractLsb'_toNat, Nat.shiftRight_eq_div_pow,
    Nat.mod_eq_of_lt hlt, ← Nat.shiftLeft_add_eq_or_of_lt hlt, Nat.shiftLeft_eq]

theorem Shifted.nil {n : ℕ} (reg : BitVec n) : Shifted reg [] := ShiftReg.Holds.nil reg.isLt

theorem Shifted.push {n : ℕ} {reg : BitVec (32 + n)} {ws : List (BitVec 32)} (h : Shifted reg ws)
    (hn : 32 * ws.length ≤ n) (w : BitVec 32) :
    Shifted (shiftWord n reg (byteSwap w)) (ws ++ [w]) := by
  have hlen : (ws.map fun w => (byteSwap w).toNat).length = ws.length := List.length_map _
  have hp := ShiftReg.Holds.push (x := (byteSwap w).toNat) h (by rw [hlen]; omega)
  rw [Nat.add_sub_cancel_left] at hp
  rw [Shifted, toNat_shiftWord, List.map_append]
  exact hp

/-- A full register is the integer of its byte string. -/
theorem Shifted.eq {n : ℕ} {reg : BitVec n} {ws : List (BitVec 32)} (h : Shifted reg ws)
    (hn : n = 32 * ws.length) : reg.toNat = leInt (wordBytes ws) := by
  rw [leInt_wordBytes]
  exact ShiftReg.Holds.eq h (by rw [List.length_map]; exact hn)

/-- A word of a full register. -/
theorem Shifted.word {n : ℕ} {reg : BitVec n} {ws : List (BitVec 32)} (h : Shifted reg ws)
    (hn : n = 32 * ws.length) {j : ℕ} (hj : j < ws.length) :
    reg.extractLsb' (j * 32) 32 = byteSwap (ws.getD j 0) := by
  have hd := ShiftReg.Holds.digit h (by rw [List.length_map]; exact hn) (fun x hx => by
    obtain ⟨w, -, rfl⟩ := List.mem_map.1 hx
    exact (byteSwap w).isLt) j
  apply BitVec.eq_of_toNat_eq
  rw [BitVec.extractLsb'_toNat, Nat.shiftRight_eq_div_pow, Nat.mul_comm, hd,
    List.getD_eq_getElem _ _ (by simpa), List.getElem_map, List.getD_eq_getElem _ _ hj]

/-! ## The SHA core while it receives -/

/-- The block goes on to be filled. -/
theorem ShaCore.recv_stays {l : List (BitVec 32)} {s : ShaCore} {x : ShaIn} {p b : ℕ}
    (hs : s.state = .recv) (h : Filling l s p b) (hp : p < l.length)
    (hx : x.wrEn = true → p + 1 ≠ 32 * b + 32) : (s.step x).state = .recv := by
  have hfull : s.blockFull x = false := by
    have hlt := h.lt
    have h32 : (s.wordCount == 32) = false :=
      (wordCount_eq h 32 (by omega)).trans (decide_eq_false (by omega))
    have h31 : (s.schedWr x && s.wordCount == 31) = false := by
      rcases hw : x.wrEn with _ | _
      · rw [schedWr_quiet hw (by simp [hs])]
        rfl
      · have hend := hx hw
        have hne : (s.wordCount == 31) = false :=
          (wordCount_eq h 31 (by omega)).trans (decide_eq_false (by omega))
        rw [hne, Bool.and_false]
    rw [blockFull, h32, h31]
    rfl
  have hlen := length_padded l
  have hmux : s.prep.muxSelO = false := by
    rw [h.prep.muxSelO (by omega)]
    exact decide_eq_false (by omega)
  simp [step, stateD, hs, hfull, hmux]

/-- The status shows whether the engine is ready for words. -/
theorem ShaCore.rdata_status (s : ShaCore) :
    (s.rdata 0x21).getLsbD 0 = decide (s.state = .idle ∨ s.state = .recv) := by
  rw [rdata, if_pos rfl]
  split_ifs with h
  · rw [decide_eq_true h]
    rfl
  · rw [decide_eq_false h]
    rfl

/-- The addresses of words and of the control register are not read. -/
theorem ShaCore.rdata_low (s : ShaCore) {a : BitVec 6} (ha : a.toNat ≤ 0x20) : s.rdata a = 0 := by
  have h1 : a ≠ 0x21 := by
    rintro rfl
    exact absurd ha (by decide)
  have h2 : ¬ (0x22 ≤ a ∧ a ≤ 0x31) := by
    rw [BitVec.le_def]
    simp only [BitVec.toNat_ofNat, BitVec.ofNat_eq_ofNat]
    omega
  rw [rdata, if_neg h1, if_neg h2]

/-! ## The message of a session -/

/-- The words of R and of the message that firmware writes, and the key in the memory. -/
structure Message where
  r : List (BitVec 32)
  key : BitVec 256
  data : List (BitVec 32)
  length_r : r.length = 8
  lt : 16 + data.length < 2 ^ 27

namespace Message

variable (m : Message)

def keyWords : List (BitVec 32) := List.ofFn fun j : Fin 8 => m.key.extractLsb' (j.1 * 32) 32

def words : List (BitVec 32) := m.r ++ m.keyWords ++ m.data

/-- The words as the SHA core gets them, which swaps their bytes once more. -/
def fed : List (BitVec 32) := m.words.map byteSwap

@[simp] theorem length_keyWords : m.keyWords.length = 8 := by simp [keyWords]

theorem length_words : m.words.length = 16 + m.data.length := by
  rw [words, List.length_append, List.length_append, length_keyWords, m.length_r]

@[simp] theorem length_fed : m.fed.length = 16 + m.data.length := by
  rw [fed, List.length_map, length_words]

theorem length_fed_lt : m.fed.length < 2 ^ 27 := by
  rw [length_fed]
  exact m.lt

theorem getD_fed {k : ℕ} (hk : k < m.fed.length) :
    m.fed.getD k 0 = byteSwap (m.words.getD k 0) := by
  have hk' : k < m.words.length := by simpa [fed] using hk
  rw [fed, List.getD_eq_getElem _ _ (by simpa using hk'), List.getElem_map,
    List.getD_eq_getElem _ _ hk']

theorem getD_keyWords {j : ℕ} (hj : j < 8) :
    m.keyWords.getD j 0 = m.key.extractLsb' (j * 32) 32 := by
  rw [keyWords, List.getD_eq_getElem _ _ (by simpa), List.getElem_ofFn]

theorem fed_r {j : ℕ} (hj : j < 8) : m.fed.getD j 0 = byteSwap (m.r.getD j 0) := by
  have hl := m.length_r
  rw [getD_fed m (by rw [length_fed]; omega), words, List.append_assoc,
    List.getD_append _ _ _ _ (by omega)]

theorem fed_key {j : ℕ} (hj : j < 8) :
    m.fed.getD (8 + j) 0 = byteSwap (m.key.extractLsb' (j * 32) 32) := by
  have hl := m.length_r
  have hk := m.length_keyWords
  rw [getD_fed m (by rw [length_fed]; omega), words, List.append_assoc,
    List.getD_append_right _ _ _ _ (by omega), hl, Nat.add_sub_cancel_left,
    List.getD_append _ _ _ _ (by omega), getD_keyWords m hj]

theorem fed_data {k : ℕ} (h16 : 16 ≤ k) (hk : k < m.fed.length) :
    m.fed.getD k 0 = byteSwap (m.data.getD (k - 16) 0) := by
  have hl := m.length_r
  have hk8 := m.length_keyWords
  rw [getD_fed m hk, words, List.getD_append_right _ _ _ _ (by
    rw [List.length_append]; omega), List.length_append, hl, hk8]

/-- The engine hashes the bytes of the words as they are. -/
theorem message_fed : ShaCore.message m.fed = wordBytes m.words := by
  rw [ShaCore.message_eq, fed, List.map_map, wordBytes]
  congr 1
  exact List.map_id'' (fun w => byteSwap_byteSwap w) _

end Message

namespace TopMost

variable {l : List (BitVec 32)} {s : TopMost} {x : TopIn} {k : ℕ}

/-! ## Words on the port of the SHA core -/

/-- In this cycle the SHA core is given word `p`. -/
structure Gives (l : List (BitVec 32)) (s : TopMost) (p : ℕ) : Prop where
  wen : s.orch.shaWen = true
  addr : s.orch.shaAddr = BitVec.ofNat 6 (p % 32)
  data : s.orch.shaWdata = l.getD p 0

/-- The SHA core receives, and `k` words have been fed to it, the last one maybe in this cycle. -/
inductive Receiving (l : List (BitVec 32)) (s : TopMost) (k : ℕ) : Prop
  | quiet (b : ℕ) (hs : s.sha.state = .recv) (h : ShaCore.Filling l s.sha k b)
      (hw : s.orch.shaWen = false)
  | word (p b : ℕ) (hk : k = p + 1) (hs : s.sha.state = .recv) (h : ShaCore.Filling l s.sha p b)
      (hg : Gives l s p)

theorem Receiving.recv (h : Receiving l s k) : s.sha.state = .recv := by
  cases h with
  | quiet b hs h hw => exact hs
  | word p b hk hs h hg => exact hs

theorem Receiving.step (h : Receiving l s k) (hn : l.length < 2 ^ 27) (hk : k ≤ l.length) :
    ShaCore.Phase l (s.step x).sha k := by
  cases h with
  | quiet b hs h hw => exact .recv_wait hs h hk hw
  | word p b hp hs h hg =>
    subst hp
    exact .recv_word hs h hn hk hg.wen hg.addr hg.data

/-- The core goes on receiving, unless a block is full. -/
theorem Receiving.next (h : Receiving l s k) (hn : l.length < 2 ^ 27) (hk : k < l.length)
    (h32 : s.orch.shaWen = true → k % 32 ≠ 0) :
    (s.step x).sha.state = .recv ∧ ∃ b, ShaCore.Filling l (s.step x).sha k b := by
  have hrecv : (s.step x).sha.state = .recv := by
    cases h with
    | quiet b hs h hw =>
      exact ShaCore.recv_stays hs h hk fun hw' => absurd (hw.symm.trans hw') Bool.false_ne_true
    | word p b hp hs h hg =>
      subst hp
      refine ShaCore.recv_stays hs h (by omega) fun _ => ?_
      have hne := h32 hg.wen
      have hlo := h.lower
      omega
  refine ⟨hrecv, ?_⟩
  cases h.step (x := x) hn hk.le with
  | recv b hs h hp => exact ⟨b, h⟩
  | pad b hs h hp hT => exact absurd (hrecv.symm.trans hs) (by simp)
  | work b r hs h hT => exact absurd (hrecv.symm.trans hs) (by simp)
  | accum b hs h hT => exact absurd (hrecv.symm.trans hs) (by simp)
  | done hs hi hh hq hT => exact absurd (hrecv.symm.trans hs) (by simp)

/-- No word is fed in a cycle of the orchestrator. -/
theorem Receiving.hold (h : Receiving l s k) (hn : l.length < 2 ^ 27) (hk : k < l.length)
    (h32 : s.orch.shaWen = true → k % 32 ≠ 0) (hw : (s.step x).orch.shaWen = false) :
    Receiving l (s.step x) k := by
  obtain ⟨hs, b, hf⟩ := h.next (x := x) hn hk h32
  exact .quiet b hs hf hw

/-- Word `k` is fed. -/
theorem Receiving.feed (h : Receiving l s k) (hn : l.length < 2 ^ 27) (hk : k < l.length)
    (h32 : s.orch.shaWen = true → k % 32 ≠ 0) (hg : Gives l (s.step x) k) :
    Receiving l (s.step x) (k + 1) := by
  obtain ⟨hs, b, hf⟩ := h.next (x := x) hn hk h32
  exact .word k b rfl hs hf hg

/-! ## The orchestrator -/

/-- Neither abort nor soft reset in this cycle. -/
def Undisturbed (x : TopIn) : Prop := (x.ctrlSoftrstW || x.ctrlAbortW) = false

/-- The Ed25519 core has not been started. -/
structure Calm (s : TopMost) : Prop where
  edIdle : s.ed.fsm.state = .idle
  edStart : s.orch.edStart = false
  bootQ : s.orch.bootQ = true

theorem Calm.edDone (h : Calm s) : s.edDone = false := by
  rw [TopMost.edDone, MasterFsm.verifyDone, h.edIdle]
  rfl

theorem Calm.bootActiveO (h : Calm s) : s.bootActiveO = true := by
  rw [TopMost.bootActiveO, h.bootQ, h.edDone]
  rfl

theorem orch_step (hx : Undisturbed x) :
    (s.step x).orch = (s.orch.defaults (s.orchIn x)).advance (s.orchIn x) := by
  change (if (x.ctrlSoftrstW || x.ctrlAbortW) = true then _ else _) = _
  rw [hx, if_neg Bool.false_ne_true]

theorem orch_abort (hx : ¬ Undisturbed x) :
    (s.step x).orch = (s.orch.defaults (s.orchIn x)).abort := by
  rw [Undisturbed, Bool.not_eq_false] at hx
  exact if_pos hx

/-! ## One cycle in each state -/

section States

variable (hx : Undisturbed x)
include hx

theorem orch_start (hs : s.orch.state = .idle) (hc : x.ctrlStartW = true) :
    (s.step x).orch =
      { s.orch.defaults (s.orchIn x) with
        shaLenReg := s.csr.msgLenCsr
        shaFed := 0
        blkPtr := 0
        otpIdx := 0
        rIdx := 0
        state := .shaCfgLen } := by
  rw [orch_step hx, Orch.advance, show (s.orch.defaults (s.orchIn x)).state = .idle from hs]
  exact if_pos hc

theorem orch_idle (hs : s.orch.state = .idle) (hc : x.ctrlStartW = false) :
    (s.step x).orch = s.orch.defaults (s.orchIn x) := by
  rw [orch_step hx, Orch.advance, show (s.orch.defaults (s.orchIn x)).state = .idle from hs]
  exact if_neg fun h => absurd (hc.symm.trans h) Bool.false_ne_true

theorem orch_shaCfgLen (hs : s.orch.state = .shaCfgLen) :
    (s.step x).orch =
      { s.orch.defaults (s.orchIn x) with
        shaAddr := 0x32
        shaWdata := s.orch.shaLenReg
        shaWen := true
        state := .shaCfgCtrl } := by
  rw [orch_step hx, Orch.advance, show (s.orch.defaults (s.orchIn x)).state = .shaCfgLen from hs]
  rfl

theorem orch_shaCfgCtrl (hs : s.orch.state = .shaCfgCtrl) :
    (s.step x).orch =
      { s.orch.defaults (s.orchIn x) with
        shaAddr := 0x20
        shaWdata := 0x03
        shaWen := true
        state := .shaPoll } := by
  rw [orch_step hx, Orch.advance, show (s.orch.defaults (s.orchIn x)).state = .shaCfgCtrl from hs]

theorem orch_shaPoll (hs : s.orch.state = .shaPoll) :
    (s.step x).orch =
      { s.orch.defaults (s.orchIn x) with
        shaAddr := 0x21
        state := if s.shaRdata.getLsbD 0 then .feedR else .shaPoll } := by
  rw [orch_step hx, Orch.advance, show (s.orch.defaults (s.orchIn x)).state = .shaPoll from hs]
  rfl

theorem orch_feedR (hs : s.orch.state = .feedR) :
    (s.step x).orch =
      { (s.orch.defaults (s.orchIn x)).feed
        (s.csr.rReg.extractLsb' (s.orch.rIdx.toNat * 32) 32)
        (if s.orch.rIdx = 7 then .otpReq else .feedR)
        with rIdx := s.orch.rIdx + 1 } := by
  rw [orch_step hx, Orch.advance, show (s.orch.defaults (s.orchIn x)).state = .feedR from hs]
  rfl

theorem orch_otpReq (hs : s.orch.state = .otpReq) :
    (s.step x).orch =
      { s.orch.defaults (s.orchIn x) with otpRdEn := true, state := .otpLatch } := by
  rw [orch_step hx, Orch.advance, show (s.orch.defaults (s.orchIn x)).state = .otpReq from hs]

theorem orch_otpLatch (hs : s.orch.state = .otpLatch) :
    (s.step x).orch =
      { (s.orch.defaults (s.orchIn x)).feed (byteSwap x.otpData)
        (if s.orch.otpIdx = 7 then
          (if s.orch.lastWord then .waitIntr
          else if s.orch.blkPtr == 31 then .blkPoll else .waitData)
        else if s.orch.blkPtr == 31 then .blkPollOtp else .otpReq) with
        pubkeyReg := shiftWord 224 s.orch.pubkeyReg (byteSwap x.otpData)
        otpIdx := if s.orch.otpIdx = 7 then s.orch.otpIdx else s.orch.otpIdx + 1 } := by
  rw [orch_step hx, Orch.advance, show (s.orch.defaults (s.orchIn x)).state = .otpLatch from hs]
  rfl

theorem orch_data (hs : s.orch.state = .waitData) (hd : s.csr.dataPending = true) :
    (s.step x).orch =
      (s.orch.defaults (s.orchIn x)).feed (byteSwap s.csr.dataInReg)
        (if s.orch.lastWord then .waitIntr
        else if s.orch.blkPtr = 31 then .blkPoll else .waitData) := by
  rw [orch_step hx, Orch.advance, show (s.orch.defaults (s.orchIn x)).state = .waitData from hs]
  exact if_pos hd

theorem orch_waitData (hs : s.orch.state = .waitData) (hd : s.csr.dataPending = false) :
    (s.step x).orch = s.orch.defaults (s.orchIn x) := by
  rw [orch_step hx, Orch.advance, show (s.orch.defaults (s.orchIn x)).state = .waitData from hs]
  exact if_neg fun h => absurd (hd.symm.trans h) Bool.false_ne_true

theorem orch_blkPoll (hs : s.orch.state = .blkPoll) :
    (s.step x).orch =
      { s.orch.defaults (s.orchIn x) with
        shaAddr := 0x21
        state := if s.shaRdata.getLsbD 0 then .waitData else .blkPoll } := by
  rw [orch_step hx, Orch.advance, show (s.orch.defaults (s.orchIn x)).state = .blkPoll from hs]
  rfl

theorem orch_waitIntr (hs : s.orch.state = .waitIntr) (hi : s.sha.intrO = false) :
    (s.step x).orch = s.orch.defaults (s.orchIn x) := by
  rw [orch_step hx, Orch.advance, show (s.orch.defaults (s.orchIn x)).state = .waitIntr from hs]
  exact if_neg fun h => absurd (hi.symm.trans h) Bool.false_ne_true

theorem orch_intr (hs : s.orch.state = .waitIntr) (hi : s.sha.intrO = true) :
    (s.step x).orch =
      { s.orch.defaults (s.orchIn x) with hashIdx := 0, shaAddr := 0x22, state := .readHash } := by
  rw [orch_step hx, Orch.advance, show (s.orch.defaults (s.orchIn x)).state = .waitIntr from hs]
  exact if_pos hi

theorem orch_readHash (hs : s.orch.state = .readHash) :
    (s.step x).orch =
      { s.orch.defaults (s.orchIn x) with
        hashReg := shiftWord 480 s.orch.hashReg (byteSwap s.shaRdata)
        hashIdx := s.orch.hashIdx + 1
        shaAddr := if s.orch.hashIdx = 14 then 0x31 else 0x22 + (s.orch.hashIdx.setWidth 6 + 1)
        state := if s.orch.hashIdx = 14 then .readHashLast else .readHash } := by
  rw [orch_step hx, Orch.advance, show (s.orch.defaults (s.orchIn x)).state = .readHash from hs]
  rfl

theorem orch_readHashLast (hs : s.orch.state = .readHashLast) :
    (s.step x).orch =
      { s.orch.defaults (s.orchIn x) with
        hashReg := shiftWord 480 s.orch.hashReg (byteSwap s.shaRdata)
        loadIdx := 0
        state := .loadRegs } := by
  rw [orch_step hx, Orch.advance, show (s.orch.defaults (s.orchIn x)).state = .readHashLast from hs]
  rfl

theorem orch_loadRegs (hs : s.orch.state = .loadRegs) :
    (s.step x).orch = (s.orch.defaults (s.orchIn x)).load (s.orchIn x) := by
  rw [orch_step hx, Orch.advance, show (s.orch.defaults (s.orchIn x)).state = .loadRegs from hs]

theorem orch_waitStart (hs : s.orch.state = .waitStart) :
    (s.step x).orch =
      { s.orch.defaults (s.orchIn x) with
        edDsel := 0
        startLatch := false
        state := if s.orch.startLatch || x.startVerify then .edStart else .waitStart } := by
  rw [orch_step hx, Orch.advance, show (s.orch.defaults (s.orchIn x)).state = .waitStart from hs]
  rfl

theorem orch_edStart (hs : s.orch.state = .edStart) :
    (s.step x).orch = { s.orch.defaults (s.orchIn x) with edStart := true, state := .edWait } := by
  rw [orch_step hx, Orch.advance, show (s.orch.defaults (s.orchIn x)).state = .edStart from hs]

theorem orch_edWait (hs : s.orch.state = .edWait) :
    (s.step x).orch =
      { s.orch.defaults (s.orchIn x) with state := if s.edDone then .done else .edWait } := by
  rw [orch_step hx, Orch.advance, show (s.orch.defaults (s.orchIn x)).state = .edWait from hs]
  rfl

theorem orch_done (hs : s.orch.state = .done) :
    (s.step x).orch = s.orch.defaults (s.orchIn x) := by
  rw [orch_step hx, Orch.advance, show (s.orch.defaults (s.orchIn x)).state = .done from hs]

end States

end TopMost

end SentinelSoc
