/-
  The engine computes SHA-512.

  * `shaRound_eq`, `wNext_eq`: the data path with its carry-save adders;
  * `Phase`: what holds in each state of a session, at each position of the padded
    message; `Phase.step`: what one cycle makes of it;
  * `sha512_digest`: when `intr_o` rises the read port shows the digest;
  * `rearmed_digest`: not so where the preprocessor is not idle when the session starts.
-/
import SentinelSoc.Sha.Padding

namespace SentinelSoc

open Sha512 (padWords zeroWords blockWord wordChain schedule constant)

/-! ## The data path -/

theorem csa64_sum (a b c : Sha512.Word) : (csa64 a b c).sum + (csa64 a b c).shifted = a + b + c := by
  have hs : ∀ x : Sha512.Word, x.extractLsb' 0 63 ++ 0#1 = x <<< 1 := by
    intro x
    ext i hi
    simp only [BitVec.getElem_append, BitVec.getElem_extractLsb', BitVec.getElem_shiftLeft]
    grind
  rw [Csa.shifted, hs]
  exact Sha512.carrySave a b c

theorem shaRound_eq (s : Sha512.State) (k w : Sha512.Word) : shaRound s k w = Sha512.round s k w := by
  simp only [shaRound, Sha512.round, csa64_sum]

theorem wNext_eq (w : Fin 16 → Sha512.Word) : wNext w =
    Sha512.lowerSigma1 (w 14) + w 9 + Sha512.lowerSigma0 (w 1) + w 0 := by
  simp only [wNext, csa64_sum]

/-- The first `c` words of block `b` of the padded message `m` are in the schedule. -/
def Loaded (m : List (BitVec 32)) (b c : ℕ) (w : Fin 16 → Sha512.Word) : Prop :=
  ∀ j : Fin 16, (2 * j.1 < c → (w j).extractLsb' 32 32 = m.getD (32 * b + 2 * j.1) 0) ∧
    (2 * j.1 + 1 < c → (w j).extractLsb' 0 32 = m.getD (32 * b + 2 * j.1 + 1) 0)

theorem Loaded.zero (m : List (BitVec 32)) (b : ℕ) (w : Fin 16 → Sha512.Word) : Loaded m b 0 w :=
  fun _ => ⟨fun h => absurd h (by omega), fun h => absurd h (by omega)⟩

theorem extractLsb'_append_high (u v : BitVec 32) : (u ++ v).extractLsb' 32 32 = u := by
  ext i hi
  simp only [BitVec.getElem_extractLsb', BitVec.getLsbD_append]
  grind

theorem extractLsb'_append_low (u v : BitVec 32) : (u ++ v).extractLsb' 0 32 = v := by
  ext i hi
  simp only [BitVec.getElem_extractLsb', BitVec.getLsbD_append]
  grind

/-- A word is written at its place. -/
theorem Loaded.step {m : List (BitVec 32)} {b c : ℕ} {w : Fin 16 → Sha512.Word} (h : Loaded m b c w)
    (hc : c < 32) {a : BitVec 5} (ha : a = BitVec.ofNat 5 c) {d : BitVec 32} (en : Bool)
    (hd : byteSwap d = m.getD (32 * b + c) 0) :
    Loaded m b (c + 1) (schedStep w (a.extractLsb' 1 4) (true && a.getLsbD 0)
      (true && !a.getLsbD 0) d en) := by
  have hidx : ((a.extractLsb' 1 4).toFin : Fin 16).val = c / 2 := by
    rw [ha, BitVec.val_toFin]
    simp only [BitVec.extractLsb'_toNat, BitVec.toNat_ofNat, Nat.shiftRight_eq_div_pow]
    omega
  have hlow : a.getLsbD 0 = decide (c % 2 = 1) := by
    rw [ha, BitVec.getLsbD_ofNat, Nat.testBit_zero]
    simp
  rw [hlow, schedStep]
  generalize (a.extractLsb' 1 4).toFin = idx at hidx
  intro j
  obtain ⟨h1, h2⟩ := h j
  by_cases hj : j = idx
  · subst hj
    by_cases hp : c % 2 = 1
    · simp only [hp, decide_true, Bool.and_true, if_true, Function.update_self,
        extractLsb'_append_high, extractLsb'_append_low, hd]
      exact ⟨fun _ => h1 (by omega), fun _ => by rw [show 32 * b + 2 * j.1 + 1 = 32 * b + c by omega]⟩
    · simp only [hp, decide_false, Bool.and_false, Bool.not_false, Bool.and_true, Bool.false_eq_true,
        if_false, if_true, Function.update_self, extractLsb'_append_high, extractLsb'_append_low, hd]
      exact ⟨fun _ => by rw [show 32 * b + 2 * j.1 = 32 * b + c by omega],
        fun hc1 => absurd hc1 (by omega)⟩
  · have hne : j.1 ≠ c / 2 := fun he => hj (Fin.ext (he.trans hidx.symm))
    have hkeep : ∀ v : Sha512.Word, Function.update w idx v j = w j := fun v =>
      Function.update_of_ne hj v w
    by_cases hp : c % 2 = 1
    · simp only [hp, decide_true, Bool.and_true, if_true, hkeep]
      exact ⟨fun _ => h1 (by omega), fun _ => h2 (by omega)⟩
    · simp only [hp, decide_false, Bool.and_false, Bool.not_false, Bool.and_true, Bool.false_eq_true,
        if_false, if_true, hkeep]
      exact ⟨fun _ => h1 (by omega), fun _ => h2 (by omega)⟩

/-- A full schedule holds the words of the block. -/
theorem Loaded.full {m : List (BitVec 32)} {b : ℕ} {w : Fin 16 → Sha512.Word} (h : Loaded m b 32 w)
    (j : Fin 16) : w j = blockWord m b j.1 := by
  obtain ⟨h1, h2⟩ := h j
  rw [blockWord, ← h1 (by omega), ← h2 (by omega),
    BitVec.extractLsb'_append_extractLsb'_eq_extractLsb' (by rfl)]
  exact BitVec.extractLsb'_eq_self.symm

/-! ## The phases of a session -/

/-- The padded message: the words of the input with their bytes swapped, and the padding. -/
def padded (l : List (BitVec 32)) : List (BitVec 32) := padWords (l.map byteSwap)

theorem length_padded (l : List (BitVec 32)) :
    (padded l).length = l.length + zeroWords l.length + 3 := by
  simp [padded, padWords]
  omega

theorem ShaCore.length_padded_gt (l : List (BitVec 32)) : l.length < (padded l).length := by
  rw [length_padded]
  omega

/-- The padded message is a number of blocks. -/
theorem blocks_padded (l : List (BitVec 32)) :
    (padded l).length = 32 * ((padded l).length / 32) := by
  have h := Sha512.length_padWords (l.map byteSwap)
  rw [padded]
  omega

/-- A word of the message in the padded message. -/
theorem getD_padded {l : List (BitVec 32)} {p : ℕ} (h : p < l.length) :
    (padded l).getD p 0 = byteSwap (l.getD p 0) := by
  rw [padded, padWords, List.append_assoc,
    List.getD_append _ _ _ _ (by rw [List.length_map]; exact h), List.getD_eq_getElem _ _ (by simpa),
    List.getElem_map, List.getD_eq_getElem _ _ h]

namespace ShaCore

/-- The session of the message `l` is at position `p`, in block `b`. -/
structure InBlock (l : List (BitVec 32)) (s : ShaCore) (p b : ℕ) : Prop where
  msgLength : s.msgLength = BitVec.ofNat 32 l.length
  intrO : s.intrO = false
  hash : s.hash = wordChain (padded l) b
  prep : s.prep.At l.length p
  lower : 32 * b ≤ p
  upper : p ≤ 32 * b + 32

/-- The block is being filled. -/
structure Filling (l : List (BitVec 32)) (s : ShaCore) (p b : ℕ) : Prop extends
    InBlock l s p b where
  lt : p < 32 * b + 32
  v : s.v = wordChain (padded l) b
  wordCount : s.wordCount = BitVec.ofNat 6 (p - 32 * b)
  loaded : Loaded (padded l) b (p - 32 * b) s.w
  isLastBlock : s.isLastBlock = false

/-- The rounds are under way: `r` is the round counter, one ahead of the rounds that are done. -/
structure Working (l : List (BitVec 32)) (s : ShaCore) (p b r : ℕ) : Prop extends
    InBlock l s p b where
  full : p = 32 * b + 32
  isLastBlock : s.isLastBlock = decide (p = (padded l).length)
  roundCount : s.roundCount = BitVec.ofNat 7 r
  le : r ≤ 80
  v : s.v = Sha512.rounds (blockWord (padded l) b) (wordChain (padded l) b) (r - 1)
  window : ∀ j : Fin 16, s.w j = schedule (blockWord (padded l) b) (r + j.1)
  wI : 0 < r → s.wI = schedule (blockWord (padded l) b) (r - 1)
  kI : 0 < r → s.kI = constant (r - 1)

/-- All rounds of the block are done. -/
structure Accumulating (l : List (BitVec 32)) (s : ShaCore) (p b : ℕ) : Prop extends
    InBlock l s p b where
  full : p = 32 * b + 32
  isLastBlock : s.isLastBlock = decide (p = (padded l).length)
  v : s.v = Sha512.rounds (blockWord (padded l) b) (wordChain (padded l) b) 80

/-- The state of a session of the message `l` before it has its digest. -/
inductive Phase (l : List (BitVec 32)) (s : ShaCore) (p : ℕ) : Prop
  | recv (b : ℕ) (hs : s.state = .recv) (h : Filling l s p b) (hp : p ≤ l.length)
  | pad (b : ℕ) (hs : s.state = .pad) (h : Filling l s p b) (hp : l.length ≤ p)
      (hT : p < (padded l).length)
  | work (b r : ℕ) (hs : s.state = .work) (h : Working l s p b r) (hT : p ≤ (padded l).length)
  | accum (b : ℕ) (hs : s.state = .accum) (h : Accumulating l s p b) (hT : p ≤ (padded l).length)
  | done (hs : s.state = .done) (hi : s.intrO = false)
      (hh : s.hash = wordChain (padded l) ((padded l).length / 32)) (hq : s.prep.state = .idle)
      (hT : p = (padded l).length)

/-- The engine waits for a session. -/
def Idle (s : ShaCore) : Prop := s.state = .idle ∧ s.prep.state = .idle

/-- The digest is there. -/
def Finished (l : List (BitVec 32)) (s : ShaCore) : Prop :=
  s.Idle ∧ s.hash = wordChain (padded l) ((padded l).length / 32)

variable {l : List (BitVec 32)} {s : ShaCore} {x : ShaIn} {p b r : ℕ}

/-! ## One cycle -/

theorem prepStart_quiet (hx : x.wrEn = false) : prepStart x = false := by simp [prepStart, hx]

theorem schedWr_quiet (hx : x.wrEn = false) (hs : s.state ≠ .pad) : s.schedWr x = false := by
  simp [schedWr, hx, hs]

/-- The preprocessor waits while the engine neither receives nor pads a word. -/
theorem prep_step_quiet (h : InBlock l s p b) (hx : x.wrEn = false) (hs : s.state ≠ .pad) :
    (s.step x).prep = s.prep := by
  have ha : s.prepWordAck x = false := by
    simp only [prepWordAck, schedWr_quiet hx hs]
    simp [hs]
  change s.prep.step (prepStart x) s.msgLength (s.prepWordAck x) = s.prep
  rw [prepStart_quiet hx, ha, h.msgLength, Preproc.step_hold]

theorem msgLength_quiet (hx : x.wrEn = false) : (s.step x).msgLength = s.msgLength := by
  simp [step, hx]

theorem wordCount_eq (h : Filling l s p b) (k : ℕ) (hk : k ≤ 32) :
    (s.wordCount == BitVec.ofNat 6 k) = decide (p = 32 * b + k) := by
  have h1 := h.lower
  have h2 := h.lt
  rw [h.wordCount, Bool.eq_iff_iff, beq_iff_eq, decide_eq_true_iff, BitVec.toNat_eq]
  simp only [BitVec.toNat_ofNat]
  omega

theorem Filling.not_full (h : Filling l s p b) (hw : s.schedWr x = false) :
    s.blockFull x = false := by
  have h32 := wordCount_eq h 32 le_rfl
  have h2 := h.lt
  simp only [blockFull, hw, Bool.false_and, Bool.or_false]
  exact h32.trans (decide_eq_false (by omega))

/-- Waiting for a word, or for the preprocessor to take over. -/
theorem Phase.recv_wait (hs : s.state = .recv) (h : Filling l s p b) (hp : p ≤ l.length)
    (hx : x.wrEn = false) : Phase l (s.step x) p := by
  have hT := length_padded l
  have hw : s.schedWr x = false := schedWr_quiet hx (by simp [hs])
  have hfull := h.not_full hw
  have hstate : (s.step x).state = if l.length ≤ p then .pad else .recv := by
    simp [step, stateD, hs, hfull,
      h.prep.muxSelO (show p < l.length + zeroWords l.length + 3 by omega)]
  have hf : Filling l (s.step x) p b :=
    { msgLength := (msgLength_quiet hx).trans h.msgLength
      intrO := by simp [step, intrD, hs, h.intrO]
      hash := by simp [step, hashD, hs, h.hash]
      prep := by rw [prep_step_quiet h.toInBlock hx (by simp [hs])]; exact h.prep
      lower := h.lower
      upper := h.upper
      lt := h.lt
      v := by simp [step, vD, hs, h.v]
      wordCount := by simp [step, wordCountD, hs, hw, h.wordCount]
      loaded := by simpa [step, schedStep, hw, hs] using h.loaded
      isLastBlock := by simp [step, isLastBlockD, hs, h.isLastBlock] }
  by_cases hl : l.length ≤ p
  · rw [if_pos hl] at hstate
    exact .pad b hstate hf hl (by omega)
  · rw [if_neg hl] at hstate
    exact .recv b hstate hf hp

/-- The word of position `p` goes to its place, and the preprocessor sees it. -/
theorem Filling.next (h : Filling l s p b) (hn : l.length < 2 ^ 27)
    (hs : s.state = .recv ∨ s.state = .pad) (hT : p < (padded l).length)
    (hx : x.wrEn = true → x.addr < 32) (hwr : s.schedWr x = true)
    (ha : s.schedAddr x = BitVec.ofNat 5 (p - 32 * b))
    (hd : byteSwap (s.schedWdata x) = (padded l).getD p 0) :
    InBlock l (s.step x) (p + 1) b ∧ (s.step x).v = wordChain (padded l) b ∧
      (s.step x).wordCount = BitVec.ofNat 6 (p + 1 - 32 * b) ∧
      Loaded (padded l) b (p + 1 - 32 * b) (s.step x).w := by
  have hlen := length_padded l
  have hlo := h.lower
  have hlt := h.lt
  have hctl : x.wrEn = true → (x.addr == 0x20) = false ∧ (x.addr == 0x32) = false := by
    intro hw
    have h32 : ∀ a : BitVec 6, a < 32 → (a == 0x20) = false ∧ (a == 0x32) = false := by decide
    exact h32 _ (hx hw)
  have hps : prepStart x = false := by
    cases hw : x.wrEn with
    | false => rw [prepStart, hw, Bool.false_and, Bool.false_and]
    | true => rw [prepStart, (hctl hw).1, Bool.and_false, Bool.false_and]
  have hml : (x.wrEn && x.addr == 0x32) = false := by
    cases hw : x.wrEn with
    | false => rw [Bool.false_and]
    | true => rw [(hctl hw).2, Bool.and_false]
  have hack : s.prepWordAck x = true := by
    rcases hs with hs | hs <;> simp [prepWordAck, hs, hwr]
  have hsub : p + 1 - 32 * b = p - 32 * b + 1 := by omega
  refine ⟨⟨?_, ?_, ?_, ?_, by omega, by omega⟩, ?_, ?_, ?_⟩
  · change (if (x.wrEn && x.addr == 0x32) = true then x.wdata else s.msgLength) = _
    rw [hml, if_neg Bool.false_ne_true, h.msgLength]
  · rcases hs with hs | hs <;> simp [step, intrD, hs, h.intrO]
  · rcases hs with hs | hs <;> simp [step, hashD, hs, h.hash]
  · change (s.prep.step (prepStart x) s.msgLength (s.prepWordAck x)).At l.length (p + 1)
    rw [hps, hack, h.msgLength]
    exact h.prep.ack hn (by omega)
  · rcases hs with hs | hs <;> simp [step, vD, hs, h.v]
  · rw [hsub, BitVec.ofNat_add]
    rcases hs with hs | hs <;> simp [step, wordCountD, hs, hwr, h.wordCount]
  · change Loaded (padded l) b (p + 1 - 32 * b) (schedStep s.w ((s.schedAddr x).extractLsb' 1 4)
      (s.schedWr x && (s.schedAddr x).getLsbD 0) (s.schedWr x && !(s.schedAddr x).getLsbD 0)
      (s.schedWdata x) (s.state == .work))
    rw [hsub, hwr]
    refine h.loaded.step (by omega) ha _ ?_
    rw [hd, show 32 * b + (p - 32 * b) = p by omega]

/-- A full block starts the rounds. -/
theorem Working.start (h : InBlock l s p b) (hp : p = 32 * b + 32)
    (hv : s.v = wordChain (padded l) b) (hw : Loaded (padded l) b (p - 32 * b) s.w)
    (hl : s.isLastBlock = decide (p = (padded l).length)) (hr : s.roundCount = 0) :
    Working l s p b 0 where
  toInBlock := h
  full := hp
  isLastBlock := hl
  roundCount := hr
  le := by omega
  v := hv
  window j := by
    have h32 : p - 32 * b = 32 := by omega
    rw [h32] at hw
    rw [Nat.zero_add, Sha512.schedule_of_lt j.isLt, hw.full j]
  wI h0 := absurd h0 (by omega)
  kI h0 := absurd h0 (by omega)

/-- A word of the message. -/
theorem Phase.recv_word (hs : s.state = .recv) (h : Filling l s p b) (hn : l.length < 2 ^ 27)
    (hp : p < l.length) (hx : x.wrEn = true) (ha : x.addr = BitVec.ofNat 6 (p % 32))
    (hd : x.wdata = l.getD p 0) : Phase l (s.step x) (p + 1) := by
  have hlen := length_padded l
  have hz := zeroWords_bounds l.length
  have hlo := h.lower
  have hlt := h.lt
  have haddr : x.addr < 32 := by
    rw [ha, BitVec.lt_def]
    simp only [BitVec.ofNat_eq_ofNat, BitVec.toNat_ofNat]
    omega
  have hwr : s.schedWr x = true := by
    simp only [schedWr, hs, hx, haddr, reduceCtorEq, if_false, decide_true, Bool.and_self,
      beq_self_eq_true]
  have hsa : s.schedAddr x = BitVec.ofNat 5 (p - 32 * b) := by
    simp only [schedAddr, hs, ha]
    apply BitVec.eq_of_toNat_eq
    simp only [reduceCtorEq, if_false, BitVec.extractLsb'_toNat, BitVec.toNat_ofNat,
      Nat.shiftRight_zero]
    omega
  have hsd : byteSwap (s.schedWdata x) = (padded l).getD p 0 := by
    rw [getD_padded hp, schedWdata, if_neg (by simp [hs]), hd]
  obtain ⟨hib, hv, hwc, hld⟩ := h.next hn (.inl hs) (by omega) (fun _ => haddr) hwr hsa hsd
  have hfull : s.blockFull x = decide (p = 32 * b + 31) := by
    have h32 := wordCount_eq h 32 le_rfl
    have h31 := wordCount_eq h 31 (by omega)
    simp only [blockFull, hwr, Bool.true_and]
    rw [show (32 : BitVec 6) = BitVec.ofNat 6 32 from rfl, h32,
      show (31 : BitVec 6) = BitVec.ofNat 6 31 from rfl, h31]
    simp
    omega
  have hq : (s.step x).isLastBlock = false := by simp [step, isLastBlockD, hs, h.isLastBlock]
  by_cases h31 : p = 32 * b + 31
  · refine .work b 0 ?_ (Working.start hib (by omega) hv hld ?_ ?_) (by omega)
    · simp [step, stateD, hs, hfull, h31]
    · rw [hq]
      exact (decide_eq_false (by omega)).symm
    · simp [step, roundCountD, hs, hfull, h31]
  · have hmux : s.prep.muxSelO = false := by
      rw [h.prep.muxSelO (by omega)]
      exact decide_eq_false (by omega)
    refine .recv b ?_ ⟨hib, by omega, hv, hwc, hld, hq⟩ (by omega)
    simp [step, stateD, hs, hfull, h31, hmux]

/-- A word of the padding. -/
theorem Phase.pad_word (hs : s.state = .pad) (h : Filling l s p b) (hn : l.length < 2 ^ 27)
    (hp : l.length ≤ p) (hT : p < (padded l).length) (hx : x.wrEn = false) :
    Phase l (s.step x) (p + 1) := by
  have hlen := length_padded l
  have hblk := blocks_padded l
  have hlo := h.lower
  have hlt := h.lt
  have hwr : s.schedWr x = true := by simp [schedWr, hs]
  have hsa : s.schedAddr x = BitVec.ofNat 5 (p - 32 * b) := by
    simp only [schedAddr, hs, if_true, h.wordCount]
    apply BitVec.eq_of_toNat_eq
    simp only [BitVec.extractLsb'_toNat, BitVec.toNat_ofNat, Nat.shiftRight_zero]
    omega
  have hsd : byteSwap (s.schedWdata x) = (padded l).getD p 0 := by
    have hf := fsmDataO_at (l.map byteSwap) (s := s.prep) (p := p)
    rw [List.length_map] at hf
    rw [schedWdata, if_pos hs, h.msgLength]
    exact hf h.prep hp (by omega)
  obtain ⟨hib, hv, hwc, hld⟩ := h.next hn (.inr hs) hT
    (fun hw => absurd hw (by simp [hx])) hwr hsa hsd
  have hfull : (s.wordCount == 31) = decide (p = 32 * b + 31) := wordCount_eq h 31 (by omega)
  have hq : (s.step x).isLastBlock = decide (p + 1 = (padded l).length) := by
    have hd := h.prep.doneO (show p < l.length + zeroWords l.length + 3 by omega)
    have hack : s.prepWordAck x = true := by simp [prepWordAck, hs]
    simp only [step, isLastBlockD, hs, prepDone, hack, hd, h.isLastBlock, Bool.or_false]
    exact decide_eq_decide.2 (by omega)
  by_cases h31 : p = 32 * b + 31
  · refine .work b 0 ?_ (Working.start hib (by omega) hv hld hq ?_) (by omega)
    · simp only [step, stateD, hs, hfull, h31, decide_true, if_true]
    · simp only [step, roundCountD, hs, hfull, h31, decide_true, if_true]
  · refine .pad b ?_ ⟨hib, by omega, hv, hwc, hld, ?_⟩ (by omega) (by omega)
    · simp only [step, stateD, hs, hfull, h31, decide_false, Bool.false_eq_true, if_false]
    · rw [hq]
      exact decide_eq_false (by omega)

/-- What stays while the engine works on a full block. -/
theorem InBlock.quiet (h : InBlock l s p b) (hx : x.wrEn = false) (hs : s.state = .work) :
    InBlock l (s.step x) p b where
  msgLength := (msgLength_quiet hx).trans h.msgLength
  intrO := by simp [step, intrD, hs, h.intrO]
  hash := by simp [step, hashD, hs, h.hash]
  prep := by rw [prep_step_quiet h hx (by simp [hs])]; exact h.prep
  lower := h.lower
  upper := h.upper

/-- One cycle of the rounds. In the first one the pipeline registers are filled only. -/
theorem Working.v_step (hs : s.state = .work) (h : Working l s p b r) : (s.step x).v =
    Sha512.rounds (blockWord (padded l) b) (wordChain (padded l) b) (r + 1 - 1) := by
  have hge : s.roundCount ≥ 1 ↔ 0 < r := by
    have hle := h.le
    rw [ge_iff_le, h.roundCount, BitVec.le_def]
    simp only [BitVec.ofNat_eq_ofNat, BitVec.toNat_ofNat]
    omega
  have hv : (s.step x).v = if s.roundCount ≥ 1 then shaRound s.v s.kI s.wI else s.v := by
    simp only [step, vD, hs]
  rw [hv]
  by_cases hr : 0 < r
  · obtain ⟨k, rfl⟩ : ∃ k, r = k + 1 := ⟨r - 1, by omega⟩
    rw [if_pos (hge.2 hr), shaRound_eq, h.v, h.wI hr, h.kI hr]
    rfl
  · obtain rfl : r = 0 := by omega
    rw [if_neg (fun h1 => hr (hge.1 h1)), h.v]

/-- The schedule moves by one word. -/
theorem Working.window_step (hs : s.state = .work) (hx : x.wrEn = false) (h : Working l s p b r)
    (j : Fin 16) : (s.step x).w j = schedule (blockWord (padded l) b) (r + 1 + j.1) := by
  have hw : s.schedWr x = false := schedWr_quiet hx (by simp [hs])
  have hstep : (s.step x).w j =
      if h : j.val < 15 then s.w ⟨j.val + 1, by omega⟩ else wNext s.w := by
    simp [step, schedStep, hw, hs]
  rw [hstep]
  by_cases hj : j.1 < 15
  · rw [dif_pos hj, h.window, show r + (j.1 + 1) = r + 1 + j.1 by omega]
  · rw [dif_neg hj, wNext_eq, h.window, h.window, h.window, h.window,
      show r + 1 + j.1 = r + 16 by omega, Sha512.schedule_window]
    rfl

theorem Working.toNat_roundCount (h : Working l s p b r) : s.roundCount.toNat = r := by
  have hle := h.le
  rw [h.roundCount, BitVec.toNat_ofNat, Nat.mod_eq_of_lt (by omega)]

/-- A round is counted, or there have been 80. -/
theorem Working.next_round (h : Working l s p b r) (hs : s.state = .work) :
    r = 80 ∧ (s.step x).state = .accum ∨
      r < 80 ∧ (s.step x).state = .work ∧ (s.step x).roundCount.toNat = r + 1 := by
  have hle := h.le
  have hrc := h.toNat_roundCount
  have hstate : (s.step x).state = if s.roundCount == 80 then .accum else .work := by
    simp [step, stateD, hs]
  by_cases hr : r = 80
  · have h80 : s.roundCount = 80 := BitVec.eq_of_toNat_eq (hrc.trans hr)
    exact .inl ⟨hr, by rw [hstate, h80]; rfl⟩
  · have h80 : (s.roundCount == 80) = false := by
      rw [beq_eq_false_iff_ne]
      rintro he
      exact hr (by rw [← hrc, he]; rfl)
    have hnext : (s.step x).roundCount = s.roundCount + 1 := by simp [step, roundCountD, hs]
    refine .inr ⟨by omega, by rw [hstate, h80]; rfl, ?_⟩
    rw [hnext, ← hrc]
    exact BitVec.toNat_add_of_lt (show s.roundCount.toNat + 1 < 2 ^ 7 by omega)

theorem Phase.work_step (hs : s.state = .work) (h : Working l s p b r)
    (hT : p ≤ (padded l).length) (hx : x.wrEn = false) : Phase l (s.step x) p := by
  have hle := h.le
  have hib := h.toInBlock.quiet hx hs
  have hlast : (s.step x).isLastBlock = decide (p = (padded l).length) := by
    simp [step, isLastBlockD, hs, h.isLastBlock]
  rcases h.next_round (x := x) hs with ⟨hr, hstate⟩ | ⟨hr, hstate, -⟩
  · refine .accum b hstate ⟨hib, h.full, hlast, ?_⟩ hT
    rw [h.v_step hs, hr]
  · refine .work b (r + 1) hstate ⟨hib, h.full, hlast, ?_, by omega, h.v_step hs,
      h.window_step hs hx, fun _ => ?_, fun _ => ?_⟩ hT
    · simp [step, roundCountD, hs, h.roundCount, BitVec.ofNat_add]
    · change s.w 0 = _
      rw [h.window]
      rfl
    · change constant s.roundCount.toNat = _
      rw [h.toNat_roundCount, Nat.add_sub_cancel]

/-- The hash value of a block, and the choice of the next state. -/
theorem Phase.accum_step (hs : s.state = .accum) (h : Accumulating l s p b)
    (hT : p ≤ (padded l).length) (hx : x.wrEn = false) : Phase l (s.step x) p := by
  have hlen := length_padded l
  have hfull := h.full
  have hhash : s.hash.add s.v = wordChain (padded l) (b + 1) := by
    rw [h.hash, h.v]
    rfl
  have hprep : (s.step x).prep = s.prep := prep_step_quiet h.toInBlock hx (by simp [hs])
  have hh : (s.step x).hash = wordChain (padded l) (b + 1) := by
    simp [step, hashD, hs, hhash]
  by_cases hp : p = (padded l).length
  · have hl : s.isLastBlock = true := by rw [h.isLastBlock, decide_eq_true hp]
    refine .done ?_ ?_ ?_ ?_ hp
    · simp [step, stateD, hs, hl]
    · simp [step, intrD, hs, h.intrO]
    · rw [hh, show (padded l).length / 32 = b + 1 by omega]
    · have hat := h.prep
      rw [show p = l.length + zeroWords l.length + 3 by omega] at hat
      rw [hprep, hat.state, prepAt_end]
  · have hl : s.isLastBlock = false := by rw [h.isLastBlock, decide_eq_false hp]
    have hmux : s.prep.muxSelO = decide (l.length ≤ p) := h.prep.muxSelO (by omega)
    have hf : Filling l (s.step x) p (b + 1) :=
      { msgLength := (msgLength_quiet hx).trans h.msgLength
        intrO := by simp [step, intrD, hs, h.intrO]
        hash := hh
        prep := by rw [hprep]; exact h.prep
        lower := by omega
        upper := by omega
        lt := by omega
        v := by simp [step, vD, hs, hl, hhash]
        wordCount := by
          rw [show p - 32 * (b + 1) = 0 by omega]
          simp [step, wordCountD, hs]
        loaded := by
          rw [show p - 32 * (b + 1) = 0 by omega]
          exact Loaded.zero _ _ _
        isLastBlock := by simp [step, isLastBlockD, hs, hl] }
    by_cases hpl : l.length ≤ p
    · refine .pad (b + 1) ?_ hf hpl (by omega)
      simp [step, stateD, hs, hl, hmux, hpl]
    · refine .recv (b + 1) ?_ hf (by omega)
      simp [step, stateD, hs, hl, hmux, hpl]

theorem Phase.done_step (hs : s.state = .done)
    (hh : s.hash = wordChain (padded l) ((padded l).length / 32)) (hq : s.prep.state = .idle)
    (hx : x.wrEn = false) : (s.step x).intrO = true ∧ Finished l (s.step x) := by
  have hack : s.prepWordAck x = false := by simp [prepWordAck, hs]
  refine ⟨by simp [step, intrD, hs], ⟨by simp [step, stateD, hs], ?_⟩, ?_⟩
  · change s.prep.nextState (prepStart x) s.msgLength (s.prepWordAck x) = .idle
    simp [Preproc.nextState, hq, prepStart_quiet hx, hack]
  · simp [step, hashD, hs, hh]

/-- Without a write the engine stays idle and keeps the digest. -/
theorem Finished.step (h : Finished l s) (hx : x.wrEn = false) : Finished l (s.step x) := by
  obtain ⟨⟨hs, hq⟩, hh⟩ := h
  have hps := prepStart_quiet hx
  have hack : s.prepWordAck x = false := by simp [prepWordAck, hs]
  refine ⟨⟨by simp [ShaCore.step, stateD, hs, hps], ?_⟩, ?_⟩
  · change s.prep.nextState (prepStart x) s.msgLength (s.prepWordAck x) = .idle
    simp [Preproc.nextState, hq, hps, hack]
  · simp [ShaCore.step, hashD, hs, hps, hh]

/-- Until it is started the engine stays idle. -/
theorem Idle.step (h : s.Idle) (hx : prepStart x = false) : (s.step x).Idle := by
  obtain ⟨hs, hq⟩ := h
  have hack : s.prepWordAck x = false := by simp [prepWordAck, hs]
  refine ⟨by simp [ShaCore.step, stateD, hs, hx], ?_⟩
  change s.prep.nextState (prepStart x) s.msgLength (s.prepWordAck x) = .idle
  simp [Preproc.nextState, hq, hx, hack]

/-- The start of a session with a new hash value. -/
theorem Filling.start (h : s.Idle) (hm : s.msgLength = BitVec.ofNat 32 l.length)
    (hn : l.length < 2 ^ 27) (hx : x = ⟨0x20, true, 3⟩) :
    (s.step x).state = .recv ∧ Filling l (s.step x) 0 0 := by
  obtain ⟨hs, hq⟩ := h
  have hst : prepStart x = true := by rw [hx]; rfl
  have hinit : x.wdata.getLsbD 1 = true := by rw [hx]; rfl
  have hml : (x.wrEn && x.addr == 0x32) = false := by rw [hx]; rfl
  have hack : s.prepWordAck x = false := by simp [prepWordAck, hs]
  refine ⟨by simp [ShaCore.step, stateD, hs, hst], ?_⟩
  exact
    { msgLength := by
        change (if (x.wrEn && x.addr == 0x32) = true then x.wdata else s.msgLength) = _
        rw [hml, if_neg Bool.false_ne_true, hm]
      intrO := by simp [ShaCore.step, intrD, hs]
      hash := by simp only [ShaCore.step, hashD, hs, hst, hinit, Bool.and_self, if_true, wordChain]
      prep := by
        change (s.prep.step (prepStart x) s.msgLength (s.prepWordAck x)).At l.length 0
        rw [hack, hst, hm]
        exact Preproc.at_start hq hn
      lower := by omega
      upper := by omega
      lt := by omega
      v := by simp only [ShaCore.step, vD, hs, hst, hinit, if_true, wordChain]
      wordCount := by simp [ShaCore.step, wordCountD, hs]
      loaded := Loaded.zero _ _ _
      isLastBlock := by simp [ShaCore.step, isLastBlockD, hs] }

theorem Phase.intrO (h : Phase l s p) : s.intrO = false := by
  cases h with
  | recv b hs h hp => exact h.intrO
  | pad b hs h hp hT => exact h.intrO
  | work b r hs h hT => exact h.intrO
  | accum b hs h hT => exact h.intrO
  | done hs hi hh hq hT => exact hi

/-! ## Sessions -/

/-- A write, if there is one, is the next word of the message, at its address, while the engine
    receives; `k` words have been written. -/
def Feeds (l : List (BitVec 32)) (s : ShaCore) (x : ShaIn) (k : ℕ) : Prop :=
  x.wrEn = true → s.state = .recv ∧ k < l.length ∧ x.addr = BitVec.ofNat 6 (k % 32) ∧
    x.wdata = l.getD k 0

/-- How far the engine is from its digest. -/
def distance (l : List (BitVec 32)) (s : ShaCore) (p : ℕ) : ℕ :=
  ((padded l).length - p) * 100 +
    match s.state with
    | .recv => 5
    | .pad => 4
    | .work => 7 + (80 - s.roundCount.toNat)
    | .accum => 6
    | .done => 3
    | .idle => 0

theorem distance_le (s : ShaCore) (p : ℕ) : distance l s p ≤ ((padded l).length - p) * 100 + 87 := by
  unfold distance
  cases s.state <;> simp only <;> omega

/-- **One cycle of a session**: the digest is there, or the session is in its next phase, with
    one more word if one was written, and nearer to the digest once all words have been. -/
theorem Phase.step (h : Phase l s p) (hn : l.length < 2 ^ 27) (hx : Feeds l s x (min p l.length)) :
    ((s.step x).intrO = true ∧ Finished l (s.step x) ∧ l.length ≤ p ∧ x.wrEn = false) ∨
      ∃ p', Phase l (s.step x) p' ∧
        min p' l.length = min p l.length + (if x.wrEn = true then 1 else 0) ∧
        (l.length ≤ p → distance l (s.step x) p' < distance l s p) := by
  have hlen := length_padded l
  have hquiet : s.state ≠ .recv → x.wrEn = false := by
    intro hs
    by_contra hw
    exact hs (hx (by simpa using hw)).1
  cases h with
  | recv b hs h hp =>
    by_cases hw : x.wrEn = true
    · obtain ⟨-, hk, ha, hd⟩ := hx hw
      have hlt : p < l.length := by omega
      rw [min_eq_left hp] at ha hd
      refine .inr ⟨p + 1, .recv_word hs h hn hlt hw ha hd, ?_, fun h => absurd h (by omega)⟩
      rw [if_pos hw]
      omega
    · have hw' : x.wrEn = false := by simpa using hw
      refine .inr ⟨p, .recv_wait hs h hp hw', by rw [if_neg hw]; omega, fun hl => ?_⟩
      have hpad : (s.step x).state = .pad := by
        have hfull := h.not_full (x := x) (schedWr_quiet hw' (by simp [hs]))
        simp [ShaCore.step, stateD, hs, hfull, h.prep.muxSelO (show p < _ by omega), hl]
      simp only [distance, hpad, hs]
      omega
  | pad b hs h hp hT =>
    have hw := hquiet (by simp [hs])
    refine .inr ⟨p + 1, .pad_word hs h hn hp hT hw, by rw [hw]; simp; omega, fun _ => ?_⟩
    have hle := distance_le (l := l) (s.step x) (p + 1)
    have hd : distance l s p = ((padded l).length - p) * 100 + 4 := by simp only [distance, hs]
    rw [hd]
    omega
  | work b r hs h hT =>
    have hw := hquiet (by simp [hs])
    refine .inr ⟨p, .work_step hs h hT hw, by rw [hw]; simp, fun _ => ?_⟩
    have hd : distance l s p = ((padded l).length - p) * 100 + (7 + (80 - r)) := by
      simp only [distance, hs, h.toNat_roundCount]
    rw [hd]
    rcases h.next_round (x := x) hs with ⟨-, hs'⟩ | ⟨hr, hs', hrc⟩
    · simp only [distance, hs']
      omega
    · simp only [distance, hs', hrc]
      omega
  | accum b hs h hT =>
    have hw := hquiet (by simp [hs])
    refine .inr ⟨p, .accum_step hs h hT hw, by rw [hw]; simp, fun hl => ?_⟩
    have hd : distance l s p = ((padded l).length - p) * 100 + 6 := by simp only [distance, hs]
    rw [hd]
    by_cases hp : p = (padded l).length
    · have hs' : (s.step x).state = .done := by
        simp [ShaCore.step, stateD, hs, h.isLastBlock, hp]
      simp only [distance, hs']
      omega
    · have hs' : (s.step x).state = .pad := by
        simp [ShaCore.step, stateD, hs, h.isLastBlock, hp, h.prep.muxSelO (show p < _ by omega), hl]
      simp only [distance, hs']
      omega
  | done hs hi hh hq hT =>
    have hw := hquiet (by simp [hs])
    obtain ⟨hi', hf⟩ := Phase.done_step hs hh hq hw
    exact .inl ⟨hi', hf, by omega, hw⟩

/-- The number of words written after cycle `t₁` and before cycle `t`. -/
def written (i : ℕ → ShaIn) (t₁ : ℕ) : ℕ → ℕ
  | 0 => 0
  | t + 1 => written i t₁ t + if t₁ < t ∧ (i t).wrEn = true then 1 else 0

/-- A session: the number of words of the message is written in cycle 0, the engine is started in
    cycle `t₁`, and then the words are written, with any gaps. -/
structure Session (s : ShaCore) (i : ℕ → ShaIn) (l : List (BitVec 32)) (t₁ : ℕ) : Prop where
  length : i 0 = ⟨0x32, true, BitVec.ofNat 32 l.length⟩
  pos : 0 < t₁
  wait : ∀ t, 0 < t → t < t₁ → (i t).wrEn = false
  start : i t₁ = ⟨0x20, true, 3⟩
  feed : ∀ t, t₁ < t → Feeds l (Sync.run step s i t) (i t) (written i t₁ t)

/-- The bytes of the message: the words of the input, their lowest bytes first. -/
def message (l : List (BitVec 32)) : List Sha512.Byte :=
  l.flatMap fun w => [w.extractLsb' 0 8, w.extractLsb' 8 8, w.extractLsb' 16 8, w.extractLsb' 24 8]

/-- The read port shows the digest. -/
def Shows (s : ShaCore) (d : Sha512.State) : Prop :=
  ∀ j < 16, s.rdata (0x22 + BitVec.ofNat 6 j) = d.halves.getD j 0

theorem message_eq (l : List (BitVec 32)) : message l = (l.map byteSwap).flatMap Sha512.beBytes := by
  have hw : ∀ w : BitVec 32, Sha512.beBytes (byteSwap w) =
      [w.extractLsb' 0 8, w.extractLsb' 8 8, w.extractLsb' 16 8, w.extractLsb' 24 8] := by
    intro w
    simp only [Sha512.beBytes, byteSwap, List.cons.injEq, and_true]
    refine ⟨?_, ?_, ?_, ?_⟩ <;>
    · ext i hi
      simp only [BitVec.getElem_extractLsb', BitVec.getLsbD_append, BitVec.getLsbD_extractLsb']
      grind
  simp only [message, List.flatMap_map, hw]

theorem shows_hash (s : ShaCore) : Shows s s.hash := by
  intro j hj
  interval_cases j <;> rfl

theorem Finished.shows (h : Finished l s) (hn : l.length < 2 ^ 27) :
    Shows s (Sha512.hash (message l)) := by
  have hh := Sha512.hash_words (l := l.map byteSwap) (by rwa [List.length_map])
  rw [message_eq, hh, ← padded, ← h.2]
  exact shows_hash s

section Session

variable {i : ℕ → ShaIn} {t₁ : ℕ}

/-- Until the start the engine is idle and knows the length. -/
theorem Session.armed (h : Session s i l t₁) (h₀ : s.Idle) {t : ℕ} (ht : 0 < t) (ht₁ : t ≤ t₁) :
    (Sync.run step s i t).Idle ∧ (Sync.run step s i t).msgLength = BitVec.ofNat 32 l.length := by
  induction t with
  | zero => omega
  | succ t ih =>
    rw [Sync.run_succ]
    by_cases h0 : t = 0
    · subst h0
      rw [h.length]
      exact ⟨h₀.step rfl, rfl⟩
    · obtain ⟨hi, hm⟩ := ih (by omega) (by omega)
      have hq := h.wait t (by omega) (by omega)
      exact ⟨hi.step (prepStart_quiet hq), (msgLength_quiet hq).trans hm⟩

/-- The start. -/
theorem Session.started (h : Session s i l t₁) (h₀ : s.Idle) (hn : l.length < 2 ^ 27) :
    Phase l (Sync.run step s i (t₁ + 1)) 0 := by
  obtain ⟨hi, hm⟩ := h.armed h₀ h.pos le_rfl
  rw [Sync.run_succ]
  obtain ⟨hs, hf⟩ := Filling.start hi hm hn h.start
  exact .recv 0 hs hf (Nat.zero_le _)

theorem written_start (t₁ : ℕ) : ∀ t ≤ t₁ + 1, written i t₁ t = 0 := by
  intro t ht
  induction t with
  | zero => rfl
  | succ t ih =>
    rw [written, ih (by omega), if_neg (fun h => absurd h.1 (by omega))]

/-- Every cycle of a session: either the digest is there since the cycle in which `intr_o` rose,
    or the session is in a phase, at the word that is written next. -/
theorem Session.run (h : Session s i l t₁) (h₀ : s.Idle) (hn : l.length < 2 ^ 27) {t : ℕ}
    (ht : t₁ < t) :
    (Finished l (Sync.run step s i t) ∧ written i t₁ t = l.length ∧
      ∃ u, t₁ < u ∧ u ≤ t ∧ (Sync.run step s i u).intrO = true) ∨
    ∃ p, Phase l (Sync.run step s i t) p ∧ written i t₁ t = min p l.length := by
  induction t, ht using Nat.le_induction with
  | base =>
    refine .inr ⟨0, h.started h₀ hn, ?_⟩
    rw [written_start t₁ _ le_rfl, Nat.zero_min]
  | succ t ht ih =>
    have hfeed := h.feed t ht
    rw [Sync.run_succ]
    rcases ih with ⟨hf, hw, u, hu, hut, hi⟩ | ⟨p, hp, hw⟩
    · have hq : (i t).wrEn = false := by
        by_contra hc
        have hlt := (hfeed (by simpa using hc)).2.1
        omega
      exact .inl ⟨hf.step hq, by simp [written, hw, hq], u, hu, by omega, hi⟩
    · rw [hw] at hfeed
      rcases hp.step hn hfeed with ⟨hi, hf, hl, hq⟩ | ⟨p', hp', hc, -⟩
      · refine .inl ⟨hf, ?_, t + 1, by omega, le_rfl, hi⟩
        simp [written, hw, hq]
        omega
      · refine .inr ⟨p', hp', ?_⟩
        rw [written, hw, hc]
        simp [show t₁ < t from ht]

/-- Once all words are written `intr_o` rises. -/
theorem Session.rises (h : Session s i l t₁) (h₀ : s.Idle) (hn : l.length < 2 ^ 27) {t : ℕ}
    (ht : t₁ < t) (hall : written i t₁ t = l.length) :
    ∃ u, t₁ < u ∧ (Sync.run step s i u).intrO = true := by
  rcases h.run h₀ hn ht with ⟨-, -, u, hu, -, hi⟩ | ⟨p, hp, hw⟩
  · exact ⟨u, hu, hi⟩
  obtain ⟨n, hd⟩ : ∃ n, distance l (Sync.run step s i t) p = n := ⟨_, rfl⟩
  -- the distance to the digest decreases
  induction n using Nat.strong_induction_on generalizing t p with
  | _ n ih =>
    have hfeed := h.feed t ht
    rw [hw] at hfeed
    rcases hp.step hn hfeed with ⟨hi, -, -, -⟩ | ⟨p', hp', hc, hlt⟩
    · exact ⟨t + 1, by omega, by rw [Sync.run_succ]; exact hi⟩
    · have hle : l.length ≤ p := by omega
      have hq : min p' l.length = l.length := by omega
      have hw' : written i t₁ (t + 1) = min p' l.length := by
        rw [written, hw, hc]
        simp [ht]
      have hlt' := hlt hle
      rw [hd] at hlt'
      exact ih _ hlt' (by omega) (hw'.trans hq) p' (by rw [Sync.run_succ]; exact hp') hw'
        (by rw [Sync.run_succ])

end Session

/-- **The engine computes SHA-512**: in every session of fewer than 2^27 words, with any gaps
    between the words,
    * when `intr_o` rises all words have been written, and from then on the read port shows the
      digest of the message, with the engine idle again;
    * once all words have been written `intr_o` rises. -/
theorem sha512_digest (s : ShaCore) (i : ℕ → ShaIn) (l : List (BitVec 32)) (t₁ : ℕ) (h₀ : s.Idle)
    (hn : l.length < 2 ^ 27) (h : Session s i l t₁) :
    (∀ t, t₁ < t → (Sync.run step s i t).intrO = true → written i t₁ t = l.length ∧
      ∀ u ≥ t, (Sync.run step s i u).Idle ∧
        Shows (Sync.run step s i u) (Sha512.hash (message l))) ∧
    ∀ t, t₁ < t → written i t₁ t = l.length →
      ∃ u, t₁ < u ∧ (Sync.run step s i u).intrO = true := by
  refine ⟨fun t ht hi => ?_, fun t ht hall => h.rises h₀ hn ht hall⟩
  have hdone : ∀ u ≥ t, Finished l (Sync.run step s i u) ∧ written i t₁ u = l.length := by
    intro u hu
    induction u, hu using Nat.le_induction with
    | base =>
      rcases h.run h₀ hn ht with ⟨hf, hw, -⟩ | ⟨p, hp, -⟩
      · exact ⟨hf, hw⟩
      · exact absurd (hp.intrO.symm.trans hi) Bool.false_ne_true
    | succ u hu ih =>
      obtain ⟨hf, hw⟩ := ih
      have hq : (i u).wrEn = false := by
        by_contra hc
        have hlt := (h.feed u (by omega) (by simpa using hc)).2.1
        omega
      exact ⟨by rw [Sync.run_succ]; exact hf.step hq, by simp [written, hw, hq]⟩
  exact ⟨(hdone t le_rfl).2, fun u hu => ⟨(hdone u hu).1.1, (hdone u hu).1.shows hn⟩⟩

/-- The session of a message of one word. -/
def oneWord : ℕ → ShaIn
  | 0 => ⟨0x32, true, 1⟩
  | 1 => ⟨0x20, true, 3⟩
  | 2 => ⟨0, true, 0x64636261⟩
  | _ => .read 0x21

theorem oneWord_session (s : ShaCore) (hs : (Sync.run step s oneWord 2).state = .recv) :
    Session s oneWord [0x64636261] 1 where
  length := rfl
  pos := by omega
  wait t h0 h1 := absurd h1 (by omega)
  start := rfl
  feed t ht hw := by
    unfold oneWord at hw
    split at hw
    · omega
    · omega
    · exact ⟨hs, by decide, rfl, rfl⟩
    · exact absurd hw (by decide)

theorem sha512_digest_oneWord :
    ∃ u, 1 < u ∧ (Sync.run step blank oneWord u).intrO = true ∧
      Shows (Sync.run step blank oneWord u) (Sha512.hash [0x61, 0x62, 0x63, 0x64]) := by
  obtain ⟨hd, hr⟩ := sha512_digest blank oneWord [0x64636261] 1 ⟨rfl, rfl⟩ (by decide)
    (oneWord_session blank rfl)
  obtain ⟨u, hu, hi⟩ := hr 3 (by omega) (by decide)
  exact ⟨u, hu, hi, ((hd u hu hi).2 u le_rfl).2⟩

/-- A session without words, from reset; in the middle of its rounds the control register is written
    once more. -/
def rearming : ℕ → ShaIn
  | 0 => ⟨0x20, true, 3⟩
  | 40 => ⟨0x20, true, 3⟩
  | _ => .read 0x21

/-- The engine is idle again, but the preprocessor has begun to pad. -/
def rearmed : ShaCore := Sync.run step blank rearming 120

/-- The session that comes next has the padding begin beside its only word, without the 0x80. -/
theorem rearmed_digest : rearmed.state = .idle ∧ rearmed.prep.state = .send80 ∧
    Session rearmed oneWord [0x64636261] 1 ∧
    ∃ u, 1 < u ∧ written oneWord 1 u = 1 ∧ (Sync.run step rearmed oneWord u).intrO = true ∧
      ¬ Shows (Sync.run step rearmed oneWord u) (Sha512.hash (message [0x64636261])) := by
  refine ⟨by decide +kernel, by decide +kernel, oneWord_session rearmed (by decide +kernel), 117,
    by decide, by decide +kernel, by decide +kernel, fun h => ?_⟩
  -- the same session from reset ends with the digest
  have hrun := (oneWord_session blank rfl).run ⟨rfl, rfl⟩ (by decide) (show 1 < 118 by decide)
  have hfresh : Shows (Sync.run step blank oneWord 118) (Sha512.hash (message [0x64636261])) := by
    rcases hrun with ⟨hf, -⟩ | ⟨p, hp, -⟩
    · exact hf.shows (by decide)
    · exact absurd hp.intrO (by decide +kernel)
  have heq := (h 0 (by decide)).trans (hfresh 0 (by decide)).symm
  rw [rearmed, step_eq_evalStep] at heq
  exact absurd heq (by decide +kernel)

end ShaCore

end SentinelSoc
