/-
  Two engines that are started and get the same words.

  * `ShaCore.clear`: the registers that a block fills before it reads them;
  * `Twins`: the engines agree but for these, in the first block, and later agree in all that
    they read;
  * `Twins.step`: one cycle with the same input.
-/
import SentinelSoc.Sha.Digest

namespace SentinelSoc

namespace ShaCore

/-- Without the schedule and the registers of a round. -/
def clear (s : ShaCore) : ShaCore :=
  { s with roundCount := 0, w := fun _ => 0, wI := 0, kI := 0 }

variable {s s' : ShaCore} {x x' : ShaIn} {c : ℕ} {p p' : BitVec 5}

/-- Outside the rounds nothing that `clear` drops is read. -/
theorem clear_step_clear (hs : s.state ≠ .work) : (s.clear.step x).clear = (s.step x).clear := by
  rcases hst : s.state
  case work => exact absurd hst hs
  all_goals simp [clear, step, stateD, wordCountD, isLastBlockD, intrD, vD, hashD, blockFull, schedWr,
    prepWordAck, prepDone, hst]

/-- What does not read what `clear` drops agrees. -/
theorem of_clear {α : Type} (f : ShaCore → α) (hf : ∀ z, f z.clear = f z)
    (h : s'.clear = s.clear) : f s' = f s := by
  rw [← hf s', ← hf s, h]

theorem clear_step (h : s'.clear = s.clear) (hs : s.state ≠ .work) :
    (s'.step x).clear = (s.step x).clear := by
  have hst : s'.state = s.state := of_clear ShaCore.state (fun _ => rfl) h
  rw [← clear_step_clear hs, ← clear_step_clear (s := s') (by rw [hst]; exact hs), h]

/-- The registers of a round agree where a round reads them. -/
structure SameRound (s s' : ShaCore) : Prop where
  roundCount : s'.roundCount = s.roundCount
  words : 1 ≤ s.roundCount → s'.wI = s.wI ∧ s'.kI = s.kI

/-- A round. -/
theorem work_step (h : s'.clear = s.clear) (hw : s'.w = s.w) (hs : s.state = .work)
    (hr : SameRound s s') :
    (s'.step x).clear = (s.step x).clear ∧ SameRound (s.step x) (s'.step x) := by
  have hv : s'.v = s.v := of_clear ShaCore.v (fun _ => rfl) h
  have hs' : s'.state = .work := (of_clear ShaCore.state (fun _ => rfl) h).trans hs
  have hvd : s'.vD x = s.vD x := by
    simp only [vD, hs, hs', hv, hr.roundCount, ge_iff_le]
    split_ifs with h1
    · rw [(hr.words h1).1, (hr.words h1).2]
    · rfl
  have hcount : s'.roundCountD x = s.roundCountD x := by
    simp only [roundCountD, hs, hs', hr.roundCount]
  refine ⟨?_, ⟨hcount, fun _ => ⟨?_, ?_⟩⟩⟩
  · have hstate : s'.stateD x = s.stateD x := by simp only [stateD, hs, hs', hr.roundCount]
    -- the other registers do not read what `clear` drops
    have hrest := of_clear (fun z : ShaCore => (z.wordCount, z.isLastBlock, z.intrO, z.msgLength,
      z.hash, z.prep.step (prepStart x) z.msgLength (z.prepWordAck x))) (fun _ => rfl) h
    simp only [Prod.mk.injEq] at hrest
    obtain ⟨h1, h2, h3, h4, h5, h6⟩ := hrest
    simp only [clear, step, hstate, hvd, wordCountD, isLastBlockD, intrD, hashD, hs, hs', h1, h2, h3,
      h4, h5]
    rw [h4] at h6
    rw [h6]
  · change s'.w 0 = s.w 0
    rw [hw]
  · change Sha512.constant s'.roundCount.toNat = Sha512.constant s.roundCount.toNat
    rw [hr.roundCount]

/-- The schedule takes the same word. -/
theorem sched_step (h : s'.clear = s.clear) (hw : s'.w = s.w) : (s'.step x).w = (s.step x).w := by
  have hargs := of_clear (fun z : ShaCore => ((z.schedAddr x, z.schedWr x), (z.schedWdata x, z.state)))
    (fun _ => rfl) h
  simp only [Prod.mk.injEq] at hargs
  obtain ⟨⟨h1, h2⟩, h3, h4⟩ := hargs
  simp only [step, h1, h2, h3, h4, hw]

/-! ## Twins -/

/-- Word `c` of the block comes next, and is on the port or not yet; `p` is the next address. -/
def Aligned (x : ShaIn) (p : BitVec 5) (c : ℕ) : Prop :=
  (x.wrEn = false ∧ p = BitVec.ofNat 5 c) ∨
    (x.wrEn = true ∧ x.addr = BitVec.ofNat 6 c ∧ p = BitVec.ofNat 5 (c + 1))

/-- The port of the next cycle: no write, or the word at the next address. -/
def Feeding (p : BitVec 5) (x' : ShaIn) (p' : BitVec 5) : Prop :=
  (x'.wrEn = false ∧ p' = p) ∨ (x'.wrEn = true ∧ x'.addr = p.setWidth 6 ∧ p' = p + 1)

/-- Two engines after their start, with the input `x` and the next address `p`. -/
inductive Twins (x : ShaIn) (p : BitVec 5) (s s' : ShaCore) : Prop
  | first (c : ℕ) (h32 : c < 32) (hc : s.wordCount = BitVec.ofNat 6 c) (h : s'.clear = s.clear)
      (hs : s.state = .recv ∨ s.state = .pad) (l : List (BitVec 32)) (hl : Loaded l 0 c s.w)
      (hl' : Loaded l 0 c s'.w) (ha : s.state = .recv → Aligned x p c)
  | later (h : s'.clear = s.clear) (hw : s'.w = s.w) (hr : s.state = .work → SameRound s s')

theorem Twins.clear (h : Twins x p s s') : s'.clear = s.clear := by
  cases h with
  | first c h32 hc h hs l hl hl' ha => exact h
  | later h hw hr => exact h

theorem loaded_congr {l l' : List (BitVec 32)} {w : Fin 16 → Sha512.Word} (h : Loaded l 0 c w)
    (hl : ∀ k < c, l'.getD k 0 = l.getD k 0) : Loaded l' 0 c w := by
  intro j
  obtain ⟨h1, h2⟩ := h j
  exact ⟨fun hj => by rw [h1 hj, Nat.mul_zero, Nat.zero_add, hl _ hj],
    fun hj => by rw [h2 hj, Nat.mul_zero, Nat.zero_add, hl _ hj]⟩

/-- The rounds start at 0. -/
theorem roundCount_start (hs : s.state ≠ .work) (h : (s.step x).state = .work) :
    (s.step x).roundCount = 0 := by
  change s.stateD x = .work at h
  change s.roundCountD x = 0
  rcases hst : s.state
  case work => exact absurd hst hs
  case done => simp [stateD, hst] at h
  case idle | accum =>
    simp only [stateD, hst] at h
    split_ifs at h
  case recv | pad =>
    simp only [stateD, hst] at h
    split_ifs at h with hf
    simp only [roundCountD, hst, hf, if_true]

/-- A block begins its rounds with the same schedule. -/
theorem Twins.of_start (h : s'.clear = s.clear) (hs : s.state ≠ .work)
    (hw : (s'.step x).w = (s.step x).w) : Twins x' p' (s.step x) (s'.step x) := by
  have hc := clear_step (x := x) h hs
  have hst : s'.state = s.state := of_clear ShaCore.state (fun _ => rfl) h
  refine .later hc hw fun hwork => ?_
  have h0 := roundCount_start hs hwork
  have hwork' : (s'.step x).state = .work :=
    (of_clear ShaCore.state (fun _ => rfl) hc).trans hwork
  have h0' := roundCount_start (s := s') (by rw [hst]; exact hs) hwork'
  exact ⟨h0'.trans h0.symm, fun h1 => absurd (h0 ▸ h1) (by decide)⟩

/-- The words of the block that are there. -/
theorem loaded_next {l : List (BitVec 32)} (h32 : c < 32) (hl : Loaded l 0 c s.w)
    (hwr : s.schedWr x = true) (ha : s.schedAddr x = BitVec.ofNat 5 c) :
    Loaded ((List.range c).map (fun k => l.getD k 0) ++ [byteSwap (s.schedWdata x)]) 0 (c + 1)
      (s.step x).w := by
  have hlen : ((List.range c).map fun k => l.getD k 0).length = c := by simp
  have hl' : Loaded ((List.range c).map (fun k => l.getD k 0) ++ [byteSwap (s.schedWdata x)]) 0 c
      s.w := by
    refine loaded_congr hl fun k hk => ?_
    rw [List.getD_append _ _ _ _ (by omega), List.getD_eq_getElem _ _ (by omega), List.getElem_map,
      List.getElem_range]
  have hd : byteSwap (s.schedWdata x) =
      ((List.range c).map (fun k => l.getD k 0) ++ [byteSwap (s.schedWdata x)]).getD
        (32 * 0 + c) 0 := by
    rw [List.getD_append_right _ _ _ _ (by omega), hlen, Nat.mul_zero, Nat.zero_add, Nat.sub_self]
    rfl
  have hstep := hl'.step h32 ha (s.state == .work) hd
  rw [← hwr] at hstep
  exact hstep

/-- A word of the first block is written. -/
theorem Twins.wrote (h : s'.clear = s.clear) (h32 : c < 32) (hc : s.wordCount = BitVec.ofNat 6 c)
    (hs : s.state = .recv ∨ s.state = .pad) {l : List (BitVec 32)} (hl : Loaded l 0 c s.w)
    (hl' : Loaded l 0 c s'.w) (hwr : s.schedWr x = true) (ha : s.schedAddr x = BitVec.ofNat 5 c)
    (hnext : c + 1 < 32 → (s.step x).state = .recv → Aligned x' p' (c + 1)) :
    Twins x' p' (s.step x) (s'.step x) := by
  have hne : s.state ≠ .work := by rcases hs with hs | hs <;> simp [hs]
  have hargs := of_clear (fun z : ShaCore => ((z.schedAddr x, z.schedWr x), z.schedWdata x))
    (fun _ => rfl) h
  simp only [Prod.mk.injEq] at hargs
  obtain ⟨⟨h1, h2⟩, h3⟩ := hargs
  have hn := loaded_next h32 hl hwr ha
  have hn' := loaded_next h32 hl' (h2.trans hwr) (h1.trans ha)
  rw [h3] at hn'
  have hcount : (s.step x).wordCount = BitVec.ofNat 6 (c + 1) := by
    have hd : (s.step x).wordCount = s.wordCount + 1 := by
      rcases hs with hs | hs <;> simp [step, wordCountD, hs, hwr]
    rw [hd, hc, BitVec.ofNat_add]
    rfl
  by_cases hfull : c = 31
  · subst hfull
    refine .of_start h hne (funext fun j => ?_)
    exact (hn'.full j).trans (hn.full j).symm
  · have hst : (s.step x).state = .recv ∨ (s.step x).state = .pad := by
      have hcount (k : ℕ) (hk : k < 64) (hkc : c ≠ k) :
          (s.wordCount == BitVec.ofNat 6 k) = false := by
        rw [hc, beq_eq_false_iff_ne, ne_eq, BitVec.toNat_eq]
        simp only [BitVec.toNat_ofNat]
        omega
      have h31 : (s.wordCount == 31) = false := hcount 31 (by omega) hfull
      have h32' : (s.wordCount == 32) = false := hcount 32 (by omega) (by omega)
      rcases hs with hs | hs
      · have hb : s.blockFull x = false := by
          rw [blockFull, h31, h32', Bool.and_false]
          rfl
        cases hm : s.prep.muxSelO <;> simp [step, stateD, hs, hb, hm]
      · refine .inr ?_
        change s.stateD x = .pad
        rw [stateD, hs]
        simp only [h31, Bool.false_eq_true, if_false]
    exact .first (c + 1) (by omega) hcount (clear_step h hne) hst _ hn hn' (hnext (by omega))

/-- The words at the next address. -/
theorem Feeding.aligned (h : Feeding (BitVec.ofNat 5 c) x' p') (h32 : c < 32) :
    Aligned x' p' c := by
  rcases h with ⟨hw, hp⟩ | ⟨hw, ha, hp⟩
  · exact .inl ⟨hw, hp⟩
  · refine .inr ⟨hw, ?_, ?_⟩
    · rw [ha, BitVec.toNat_eq]
      simp only [BitVec.toNat_setWidth, BitVec.toNat_ofNat]
      omega
    · rw [hp, BitVec.ofNat_add]
      rfl

/-- No word of the first block is written. -/
theorem Twins.waited (h : s'.clear = s.clear) (h32 : c < 32) (hc : s.wordCount = BitVec.ofNat 6 c)
    (hs : s.state = .recv) {l : List (BitVec 32)} (hl : Loaded l 0 c s.w) (hl' : Loaded l 0 c s'.w)
    (hw : x.wrEn = false) (hnext : Aligned x' p' c) : Twins x' p' (s.step x) (s'.step x) := by
  have hs' : s'.state = .recv := (of_clear ShaCore.state (fun _ => rfl) h).trans hs
  have hwr : s.schedWr x = false := schedWr_quiet hw (by simp [hs])
  have hwr' : s'.schedWr x = false := schedWr_quiet hw (by simp [hs'])
  have hb : s.blockFull x = false := by
    have h32' : (s.wordCount == 32) = false := by
      rw [hc, beq_eq_false_iff_ne, ne_eq, BitVec.toNat_eq]
      simp only [BitVec.toNat_ofNat, BitVec.ofNat_eq_ofNat]
      omega
    rw [blockFull, h32', hwr]
    rfl
  have hst : (s.step x).state = .recv ∨ (s.step x).state = .pad := by
    cases hm : s.prep.muxSelO <;> simp [step, stateD, hs, hb, hm]
  have hkeep : (s.step x).w = s.w := by simp [step, schedStep, hwr, hs]
  have hkeep' : (s'.step x).w = s'.w := by simp [step, schedStep, hwr', hs']
  have hcount : (s.step x).wordCount = s.wordCount := by simp [step, wordCountD, hs, hwr]
  exact .first c h32 (hcount.trans hc) (clear_step h (by simp [hs])) hst l (by rw [hkeep]; exact hl)
    (by rw [hkeep']; exact hl') fun _ => hnext

/-- **Twins stay twins** under the same input. -/
theorem Twins.step (h : Twins x p s s') (hf : Feeding p x' p') :
    Twins x' p' (s.step x) (s'.step x) := by
  cases h with
  | first c h32 hc h hs l hl hl' ha =>
    rcases hst : s.state
    case idle | work | accum | done => simp [hst] at hs
    case recv =>
      rcases ha hst with ⟨hw, hp⟩ | ⟨hw, haddr, hp⟩
      · rw [hp] at hf
        exact .waited h h32 hc hst hl hl' hw (hf.aligned h32)
      · have hlt : (x.addr < 32) = True := by
          rw [haddr, BitVec.lt_def, eq_iff_iff, iff_true]
          simp only [BitVec.toNat_ofNat, BitVec.ofNat_eq_ofNat]
          omega
        have hwr : s.schedWr x = true := by
          simp only [schedWr, hst, hw, hlt]
          rfl
        have hsched : s.schedAddr x = BitVec.ofNat 5 c := by
          rw [schedAddr, hst, if_neg (by simp), haddr, BitVec.toNat_eq]
          simp only [BitVec.extractLsb'_toNat, BitVec.toNat_ofNat, Nat.shiftRight_zero]
          omega
        rw [hp] at hf
        exact .wrote h h32 hc hs hl hl' hwr hsched fun hlt' _ => hf.aligned hlt'
    case pad =>
      have hwr : s.schedWr x = true := by simp [schedWr, hst]
      have hsched : s.schedAddr x = BitVec.ofNat 5 c := by
        rw [schedAddr, hst, if_pos rfl, hc, BitVec.toNat_eq]
        simp only [BitVec.extractLsb'_toNat, BitVec.toNat_ofNat, Nat.shiftRight_zero]
        omega
      refine .wrote h h32 hc hs hl hl' hwr hsched fun _ hrecv => ?_
      change s.stateD x = .recv at hrecv
      rw [stateD, hst] at hrecv
      simp only at hrecv
      split_ifs at hrecv
  | later h hw hr =>
    by_cases hs : s.state = .work
    · obtain ⟨hc, hr'⟩ := work_step (x := x) h hw hs (hr hs)
      exact .later hc (sched_step h hw) fun _ => hr'
    · exact .of_start h hs (sched_step h hw)

/-! ## The start -/

/-- An idle engine that has dropped what an earlier session counted. -/
structure Rested (s : ShaCore) : Prop where
  idle : s.Idle
  wordCount : s.wordCount = 0
  isLastBlock : s.isLastBlock = false
  intrO : s.intrO = false

theorem Idle.rested (h : s.Idle) (hx : prepStart x = false) : Rested (s.step x) where
  idle := h.step hx
  wordCount := by simp [ShaCore.step, wordCountD, h.1]
  isLastBlock := by simp [ShaCore.step, isLastBlockD, h.1]
  intrO := by simp [ShaCore.step, intrD, h.1]

/-- Two rested engines that are started become twins. -/
theorem Rested.twins (h : Rested s) (h' : Rested s') (hm : s'.msgLength = s.msgLength)
    (hx : x = ⟨0x20, true, 3⟩) (hf : Feeding 0 x' p') : Twins x' p' (s.step x) (s'.step x) := by
  have hp : prepStart x = true := by
    rw [hx]
    rfl
  have hb : x.wdata.getLsbD 1 = true := by
    rw [hx]
    rfl
  have hst : (s.step x).state = .recv := by simp [step, stateD, h.idle.1, hp]
  have hack : s.prepWordAck x = false ∧ s'.prepWordAck x = false := by
    simp [prepWordAck, h.idle.1, h'.idle.1]
  refine .first 0 (by omega) ?_ ?_ (.inl hst) [] (Loaded.zero _ _ _) (Loaded.zero _ _ _)
    fun _ => Feeding.aligned hf (show 0 < 32 by omega)
  · simp [step, wordCountD, h.idle.1]
  · have hprep : s'.prep.step true s'.msgLength false = s.prep.step true s.msgLength false := by
      simp [Preproc.step, Preproc.nextState, h.idle.2, h'.idle.2, hm]
    have hmsg : (s'.step x).msgLength = (s.step x).msgLength := by
      simp only [step, hm]
    simp only [clear, ShaCore.mk.injEq]
    refine ⟨?_, trivial, ?_, ?_, ?_, hmsg, ?_, ?_, trivial, trivial, trivial, ?_⟩
    · simp [step, stateD, h.idle.1, h'.idle.1]
    · simp [step, wordCountD, h.idle.1, h'.idle.1]
    · simp [step, isLastBlockD, h.idle.1, h'.idle.1]
    · simp [step, intrD, h.idle.1, h'.idle.1]
    · simp [step, vD, h.idle.1, h'.idle.1, hp, hb]
    · simp [step, hashD, h.idle.1, h'.idle.1, hp, hb]
    · simp only [step, hp, hack.1, hack.2, hprep]

end ShaCore

end SentinelSoc
