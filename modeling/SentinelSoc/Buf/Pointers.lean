/-
  The pointers of the buffer against its block size, which software writes.

  * `Bounded`: the pointers stay inside the block memory, and filling comes to an end;
  * `SizeOk`: what a cycle must keep to for that;
  * `leaves_iff`: filling ends unless the level is above the block size;
  * `pointersOk_iff`: the runs with bounded pointers are those that keep to it in every cycle.
-/
import SentinelSoc.Buf.Abort

namespace SentinelSoc

namespace SocBuffer

/-- The block size after the edge. -/
def blkSizeD (b : SocBuffer) (x : BufIn) : BitVec 6 :=
  if b.writesLow x bufBlkSizeOff then x.obi.wdata.extractLsb' 0 6 else b.blkSize

/-- The data words granted in the first `m` cycles from `b` on. -/
def pushed (b : SocBuffer) (i : ℕ → BufIn) (m : ℕ) : ℕ :=
  Nat.count (fun t => (Sync.run step b i t).pushes (i t) = true) m

/-- Some number of further data words ends the filling, whatever comes between them, as long as the
    block size is not written again. -/
def Leaves (b : SocBuffer) : Prop :=
  ∃ n, ∀ i : ℕ → BufIn,
    (∀ t, (Sync.run step b i t).writesLow (i t) bufBlkSizeOff = false) →
    ∀ m, n ≤ pushed b i m → ∃ t ≤ m, (Sync.run step b i t).stateQ ≠ .filling

structure Bounded (b : SocBuffer) (x : BufIn) : Prop where
  /-- the index of a write of `buf_mem` -/
  stored : b.stores x = true → b.fillPtr < 32
  level : b.fillPtr ≤ 32
  /-- the index of a read of `buf_mem` -/
  read : b.stateQ = .streaming → b.streamPtr < 32
  strobe : b.stateQ = .streaming → b.accelAddr < 32
  leaves : b.stateQ = .filling → b.Leaves

/-- The machine stays in `FILLING`. -/
def staysFilling (b : SocBuffer) : Bool :=
  b.stateQ == .filling && !b.abort && !b.softReset && !b.bufFull

/-- The machine goes from `IDLE` to `FILLING`. -/
def startsFilling (b : SocBuffer) : Bool := b.stateQ == .idle && b.streamEnable && !b.softReset

structure SizeOk (b : SocBuffer) (x : BufIn) : Prop where
  /-- a data word that meets a full memory meets a block size of at most its words -/
  room : b.stateQ = .filling → b.pushes x = true → b.fillPtr = 32 → b.blkSize ≤ 32
  /-- the size of a block that is going to be sent leaves out the last word of the memory -/
  block : b.startsStreaming x = true → b.blkSizeD x ≤ 31
  /-- a size written while the buffer fills is not below its level -/
  shrink : b.staysFilling = true → b.writesLow x bufBlkSizeOff = true →
    b.fillPtr ≤ x.obi.wdata.extractLsb' 0 6
  /-- nor is the size with which it starts to fill, unless that cycle asks for the end -/
  start : b.startsFilling = true → b.asks x 0 = false → b.asks x 2 = false →
    b.fillPtr ≤ b.blkSizeD x

/-- The pointers of a run: bounded in every cycle, and no more words in one filling than the memory
    has. -/
structure PointersOk (i : ℕ → BufIn) : Prop where
  bounded : ∀ t, Bounded (run i t) (i t)
  words : ∀ t m, (∀ u ≤ m, (run i (t + u)).stateQ = .filling) →
    Nat.count (fun u => (run i (t + u)).pushes (i (t + u)) = true) m ≤ 32

variable {b : SocBuffer} {x : BufIn} {i : ℕ → BufIn} {t k m : ℕ}

@[simp] theorem step_blkSize : (b.step x).blkSize = b.blkSizeD x := rfl

theorem step_fillPtr : (b.step x).fillPtr = b.fillPtrD x := rfl

theorem blkSizeD_hold (h : b.writesLow x bufBlkSizeOff = false) : b.blkSizeD x = b.blkSize := by
  simp [blkSizeD, h]

theorem writesLow_stalled (h : b.obiStall = true) (off : BitVec 12) :
    b.writesLow x off = false := by
  simp [writesLow, writes, granted, gnt, h]

/-- A data word is no access to a register. -/
theorem writesLow_pushes (h : b.pushes x = true) {off : BitVec 12} (ho : off < dataFifoBase) :
    b.writesLow x off = false := by
  simp only [pushes, Bool.and_eq_true, decide_eq_true_eq] at h
  have hne : ¬ offset x = off := by
    rintro rfl
    exact absurd h.1.2 (BitVec.not_le.2 ho)
  simp [writesLow, writes, hne]

theorem stores_eq : b.stores x = true ↔
    b.stateQ = .filling ∧ b.pushes x = true ∧ b.fillPtr < b.blkSize := by
  simp [stores, and_assoc]

theorem stores_writesLow (h : b.stores x = true) {off : BitVec 12} (ho : off < dataFifoBase) :
    b.writesLow x off = false := writesLow_pushes (stores_eq.1 h).2.1 ho

/-- Two registers are not written in one cycle. -/
theorem asks_blkSize (h : b.writesLow x bufBlkSizeOff = true) (n : ℕ) : b.asks x n = false := by
  simp only [writesLow, writes, Bool.and_eq_true, beq_iff_eq] at h
  simp [asks, writesLow, writes, h.1.2, bufBlkSizeOff, bufCtrlOff]

theorem staysFilling_eq : b.staysFilling = true ↔
    b.stateQ = .filling ∧ (b.step x).stateQ = .filling := by
  simp only [staysFilling, step_stateQ]
  cases hs : b.stateQ <;> simp [stateD, hs]
  grind

theorem not_starts_of_stays (h : b.staysFilling = true) : b.startsStreaming x = false := by
  simp only [staysFilling, Bool.and_eq_true, Bool.not_eq_true', beq_iff_eq] at h
  simp [startsStreaming, stateD, h.1.1.1, h.1.1.2, h.1.2, h.2]

theorem fillPtrD_stays (h : b.staysFilling = true) :
    b.fillPtrD x = if b.stores x then b.fillPtr + 1 else b.fillPtr := by
  have hn := not_starts_of_stays (x := x) h
  simp only [staysFilling, Bool.and_eq_true, Bool.not_eq_true', beq_iff_eq] at h
  simp [fillPtrD, hn, h.1.2]

/-! ## Filling -/

/-- What `n` words do to a buffer that fills: its level goes up by `n`. -/
theorem filling_run (hle : b.fillPtr ≤ b.blkSize)
    (hb : ∀ t, (Sync.run step b i t).writesLow (i t) bufBlkSizeOff = false)
    (hf : ∀ t ≤ m, (Sync.run step b i t).stateQ = .filling) :
    (Sync.run step b i m).blkSize = b.blkSize ∧
      (Sync.run step b i m).fillPtr ≤ b.blkSize ∧
      (Sync.run step b i m).fillPtr.toNat = b.fillPtr.toNat + pushed b i m := by
  induction m with
  | zero => simp [pushed, hle]
  | succ m ih =>
    obtain ⟨hz, hl, hn⟩ := ih fun t ht => hf t (by omega)
    have hst : (Sync.run step b i m).staysFilling = true :=
      staysFilling_eq.2 ⟨hf m (by omega), hf (m + 1) le_rfl⟩
    have hfull : (Sync.run step b i m).fillPtr ≠ b.blkSize := by
      simp only [staysFilling, bufFull, hz, Bool.and_eq_true, Bool.not_eq_true',
        beq_eq_false_iff_ne] at hst
      exact hst.2
    have hlt : (Sync.run step b i m).fillPtr < b.blkSize := by bv_omega
    rw [Sync.run_succ, step_blkSize, blkSizeD_hold (hb m), step_fillPtr, fillPtrD_stays hst, hz]
    refine ⟨rfl, ?_⟩
    simp only [pushed, Nat.count_succ]
    cases hp : (Sync.run step b i m).pushes (i m) with
    | true =>
      have hs : (Sync.run step b i m).stores (i m) = true :=
        stores_eq.2 ⟨hf m (by omega), hp, by rw [hz]; exact hlt⟩
      rw [hs]
      simp only [pushed] at hn
      simp only [if_true]
      constructor <;> bv_omega
    | false =>
      have hs : (Sync.run step b i m).stores (i m) = false := by simp [stores, hp]
      rw [hs]
      simp only [pushed] at hn
      simpa using ⟨hl, hn⟩

/-- A data word in every cycle. -/
def dataWords (_ : ℕ) : BufIn := ⟨⟨true, 0x00040100, true, 15, 0⟩, 0, false, 0⟩

theorem pushes_dataWords (hs : b.stateQ = .filling) : b.pushes (dataWords t) = true := by
  have ho : offset (dataWords t) = dataFifoBase := by simp [offset, dataWords, dataFifoBase]
  have hd : dataFifoBase ≤ dataFifoTop := by decide
  have hg : b.granted (dataWords t) = true := by simp [granted, gnt, obiStall, hs, dataWords]
  simp [pushes, hg, ho, hd]

/-- Above the block size data words change nothing. -/
theorem stuck_run (hs : b.staysFilling = true) (hlt : b.blkSize < b.fillPtr) (t : ℕ) :
    (Sync.run step b dataWords t).staysFilling = true ∧
      (Sync.run step b dataWords t).blkSize < (Sync.run step b dataWords t).fillPtr := by
  induction t with
  | zero => exact ⟨hs, hlt⟩
  | succ t ih =>
    obtain ⟨hs, hlt⟩ := ih
    set c := Sync.run step b dataWords t with hc
    have hq := (staysFilling_eq (x := dataWords t)).1 hs
    have hp := pushes_dataWords (t := t) hq.1
    have hst : c.stores (dataWords t) = false := by
      simp only [stores, Bool.and_eq_false_iff, decide_eq_false_iff_not]
      exact .inr (BitVec.not_lt.2 (BitVec.le_of_lt hlt))
    have hz : (c.step (dataWords t)).blkSize = c.blkSize :=
      blkSizeD_hold (writesLow_pushes hp (by decide))
    have hf : (c.step (dataWords t)).fillPtr = c.fillPtr := by
      rw [step_fillPtr, fillPtrD_stays hs, hst]
      rfl
    rw [Sync.run_succ, ← hc]
    refine ⟨?_, by rw [hz, hf]; exact hlt⟩
    have ha : ∀ n, c.asks (dataWords t) n = false := fun n => by
      rw [asks, writesLow_pushes hp (by decide)]
      rfl
    simp only [staysFilling, hq.2, step_softReset, step_abort, ha, bufFull, hz, hf]
    have hne : c.fillPtr ≠ c.blkSize := fun he => by rw [he] at hlt; bv_omega
    simp [hne]

theorem leaves_iff (hs : b.stateQ = .filling) :
    b.Leaves ↔ b.abort = true ∨ b.softReset = true ∨ b.fillPtr ≤ b.blkSize := by
  constructor
  · rintro ⟨n, hn⟩
    by_contra hc
    simp only [not_or, Bool.not_eq_true] at hc
    obtain ⟨ha, hr, hlt⟩ := hc
    have hlt : b.blkSize < b.fillPtr := BitVec.not_le.1 hlt
    have hst : b.staysFilling = true := by
      have hne : b.fillPtr ≠ b.blkSize := fun he => by rw [he] at hlt; bv_omega
      simp [staysFilling, hs, ha, hr, bufFull, hne]
    have hf : ∀ t, (Sync.run step b dataWords t).stateQ = .filling := fun t =>
      ((staysFilling_eq (x := dataWords t)).1 (stuck_run hst hlt t).1).1
    have hp : ∀ t, (Sync.run step b dataWords t).pushes (dataWords t) = true := fun t =>
      pushes_dataWords (hf t)
    obtain ⟨t, -, ht⟩ := hn dataWords (fun t => writesLow_pushes (hp t) (by decide)) n (by
      rw [pushed, Nat.count_of_forall fun {t} _ => hp t])
    exact ht (hf t)
  · intro h
    refine ⟨64, fun i hb m hm => ?_⟩
    by_contra hc
    push Not at hc
    rcases Nat.eq_zero_or_pos m with rfl | hpos
    · simp [pushed] at hm
    · have hst : b.staysFilling = true := (staysFilling_eq (x := i 0)).2 ⟨hs, hc 1 hpos⟩
      simp only [staysFilling, Bool.and_eq_true, Bool.not_eq_true', beq_iff_eq] at hst
      have hle : b.fillPtr ≤ b.blkSize := by simpa [hst.1.1.2, hst.1.2] using h
      obtain ⟨-, hl, hn⟩ := filling_run hle hb hc
      have := (Sync.run step b i m).fillPtr.isLt
      omega

/-! ## Streaming -/

theorem startsStreaming_step (h : b.startsStreaming x = true) :
    (b.step x).stateQ = .streaming ∧ (b.step x).streamPtr = 0 := by
  have h' := h
  simp only [startsStreaming, Bool.and_eq_true, beq_iff_eq] at h'
  have hne : (b.stateQ == .streaming) = false := by simp [h'.1]
  exact ⟨h'.2, by simp [step, streamPtrD, h, hne]⟩

/-- A block is sent word by word, up to the index that equals its size. -/
theorem stream_run (hs : (run i t).stateQ = .streaming) (hp : (run i t).streamPtr = 0)
    (hk : k ≤ (run i t).blkSize.toNat) :
    (run i (t + k)).stateQ = .streaming ∧ (run i (t + k)).streamPtr.toNat = k ∧
      (run i (t + k)).blkSize = (run i t).blkSize := by
  induction k with
  | zero => exact ⟨hs, by rw [Nat.add_zero, hp]; rfl, rfl⟩
  | succ k ih =>
    obtain ⟨hs, hp, hz⟩ := ih (by omega)
    rw [← Nat.add_assoc, run_succ]
    set c := run i (t + k)
    have hlt : c.streamPtr < c.blkSize := by bv_omega
    have hne : c.streamPtr ≠ c.blkSize := fun he => by rw [he] at hlt; bv_omega
    have hd : c.stateD (i (t + k)) = .streaming := by simp [stateD, hs, hne]
    refine ⟨hd, ?_, ?_⟩
    · have : c.streamPtrD (i (t + k)) = c.streamPtr + 1 := by
        simp [streamPtrD, startsStreaming, hd, hs, hlt]
      rw [show (c.step (i (t + k))).streamPtr = c.streamPtrD (i (t + k)) from rfl, this]
      bv_omega
    · rw [step_blkSize, blkSizeD_hold (writesLow_stalled (by simp [obiStall, hs]) _), hz]

/-! ## Whole runs -/

/-- The state of a run that keeps to the sizes. -/
structure Sized (b : SocBuffer) : Prop where
  level : b.fillPtr ≤ 32
  filling : b.stateQ = .filling → b.abort = true ∨ b.softReset = true ∨ b.fillPtr ≤ b.blkSize
  streaming : b.stateQ = .streaming → b.streamPtr ≤ b.blkSize ∧ b.blkSize ≤ 31
  sent : b.stateQ = .streaming ∨ b.stateQ = .ctrlSend ∨ b.stateQ = .waiting ∨
    b.stateQ = .capturing → b.fillPtr = 0

theorem sized_reset : Sized reset := by
  refine ⟨by decide, ?_, ?_, ?_⟩ <;> simp [reset]

theorem Sized.step_level (hz : Sized b) (h : SizeOk b x) : (b.step x).fillPtr ≤ 32 := by
  rw [step_fillPtr]
  unfold fillPtrD
  split_ifs with h₁ h₂ h₃
  · decide
  · obtain ⟨hs, hp, hlt⟩ := stores_eq.1 h₂
    have := hz.level
    have hne : b.fillPtr ≠ 32 := fun he => by
      have := h.room hs hp he
      rw [he] at hlt
      bv_omega
    bv_omega
  · decide
  · exact hz.level

theorem Sized.step_filling (hz : Sized b) (h : SizeOk b x) (hs : (b.step x).stateQ = .filling) :
    (b.step x).abort = true ∨ (b.step x).softReset = true ∨
      (b.step x).fillPtr ≤ (b.step x).blkSize := by
  have hq := hs
  rw [step_stateQ] at hs
  rw [step_fillPtr, step_blkSize, step_abort, step_softReset]
  cases hb : b.stateQ <;> simp only [stateD, hb] at hs
  case idle =>
    have hst : b.startsFilling = true := by
      simp only [startsFilling, hb]
      split_ifs at hs with h'
      simpa using h'
    have hf : b.fillPtrD x = b.fillPtr := by
      simp only [startsFilling, Bool.and_eq_true, Bool.not_eq_true'] at hst
      simp [fillPtrD, startsStreaming, stores, hb, hst.2]
    by_cases h₂ : b.asks x 2 = true
    · exact .inl h₂
    by_cases h₀ : b.asks x 0 = true
    · exact .inr (.inl h₀)
    rw [hf]
    exact .inr (.inr (h.start hst (by simpa using h₀) (by simpa using h₂)))
  case filling =>
    have hst : b.staysFilling = true := (staysFilling_eq (x := x)).2 ⟨hb, hq⟩
    have hst' := hst
    simp only [staysFilling, Bool.and_eq_true, Bool.not_eq_true', beq_iff_eq] at hst'
    rw [fillPtrD_stays hst]
    right; right
    cases hw : b.writesLow x bufBlkSizeOff with
    | true =>
      have hn : b.stores x = false := by
        by_contra hn
        rw [stores_writesLow (by simpa using hn) (by decide)] at hw
        cases hw
      rw [hn, blkSizeD, hw]
      exact h.shrink hst hw
    | false =>
      rw [blkSizeD_hold hw]
      have hle : b.fillPtr ≤ b.blkSize := by
        simpa [hst'.1.1.2, hst'.1.2] using hz.filling hb
      cases hn : b.stores x with
      | true =>
        have hlt := (stores_eq.1 hn).2.2
        simp only [if_true]
        bv_omega
      | false => exact hle
  case capturing =>
    have hf : b.fillPtrD x = 0 := by
      have := hz.sent (by simp [hb])
      simp [fillPtrD, startsStreaming, stores, hb, this]
    rw [hf]
    exact .inr (.inr (by bv_omega))
  all_goals split_ifs at hs

theorem Sized.step_streaming (hz : Sized b) (h : SizeOk b x)
    (hs : (b.step x).stateQ = .streaming) :
    (b.step x).streamPtr ≤ (b.step x).blkSize ∧ (b.step x).blkSize ≤ 31 := by
  by_cases hst : b.startsStreaming x = true
  · rw [(startsStreaming_step hst).2]
    exact ⟨by bv_omega, h.block hst⟩
  · rw [step_stateQ] at hs
    cases hb : b.stateQ <;> simp only [stateD, hb] at hs
    case filling => simp [startsStreaming, stateD, hb, hs] at hst
    case streaming =>
      obtain ⟨hp, hl⟩ := hz.streaming hb
      have hne : b.streamPtr ≠ b.blkSize := by
        rintro he
        simp [he] at hs
      have hlt : b.streamPtr < b.blkSize := by bv_omega
      have hd : (b.step x).streamPtr = b.streamPtr + 1 := by
        simp [step, streamPtrD, startsStreaming, stateD, hb, hne, hlt]
      rw [step_blkSize, blkSizeD_hold (writesLow_stalled (by simp [obiStall, hb]) _), hd]
      refine ⟨?_, hl⟩
      bv_omega
    all_goals split_ifs at hs

theorem Sized.step_sent (hz : Sized b) (hs : (b.step x).stateQ = .streaming ∨
    (b.step x).stateQ = .ctrlSend ∨ (b.step x).stateQ = .waiting ∨
    (b.step x).stateQ = .capturing) : (b.step x).fillPtr = 0 := by
  rw [step_fillPtr]
  by_cases hst : b.startsStreaming x = true
  · simp [fillPtrD, hst]
  · rw [step_stateQ] at hs
    have hsent : b.stateQ = .streaming ∨ b.stateQ = .ctrlSend ∨ b.stateQ = .waiting ∨
        b.stateQ = .capturing := by
      cases hb : b.stateQ <;> simp [stateD, startsStreaming, hb] at hs hst ⊢ <;> grind
    have hf : (b.stateQ == .filling) = false := by
      rcases hsent with h | h | h | h <;> simp [h]
    simp [fillPtrD, startsStreaming, stores, hf, hz.sent hsent]

theorem Sized.step (hz : Sized b) (h : SizeOk b x) : Sized (b.step x) :=
  ⟨hz.step_level h, hz.step_filling h, hz.step_streaming h, hz.step_sent⟩

theorem Sized.bounded (hz : Sized b) (h : SizeOk b x) : Bounded b x := by
  have hread : b.stateQ = .streaming → b.streamPtr < 32 := fun hs => by
    obtain ⟨hp, hl⟩ := hz.streaming hs
    bv_omega
  refine ⟨fun hst => ?_, hz.level, hread, fun hs => ?_, fun hs => (leaves_iff hs).2 (hz.filling hs)⟩
  · obtain ⟨hs, hp, hlt⟩ := stores_eq.1 hst
    have hl := hz.level
    by_contra hge
    have he : b.fillPtr = 32 := by bv_omega
    have := h.room hs hp he
    rw [he] at hlt
    bv_omega
  · simpa [accelAddr, hs] using hread hs

/-- A block whose size is the whole memory or more is read past its end. -/
theorem block_of_bounded (h : ∀ t, Bounded (run i t) (i t))
    (hst : (run i t).startsStreaming (i t) = true) : (run i t).blkSizeD (i t) ≤ 31 := by
  by_contra hgt
  obtain ⟨hs, hp⟩ := startsStreaming_step hst
  rw [← run_succ] at hs hp
  have hz : (run i (t + 1)).blkSize = (run i t).blkSizeD (i t) := rfl
  obtain ⟨hs', hp', -⟩ := stream_run (k := 32) hs hp (by rw [hz]; bv_omega)
  have := (h (t + 1 + 32)).read hs'
  bv_omega

/-- A state of a bounded run that is filling, with no end asked for, is not above its size. -/
theorem level_of_bounded (h : Bounded b x) (hs : b.stateQ = .filling) (ha : b.abort = false)
    (hr : b.softReset = false) : b.fillPtr ≤ b.blkSize := by
  simpa [ha, hr] using (leaves_iff hs).1 (h.leaves hs)

theorem sizeOk_of_bounded (h : ∀ t, Bounded (run i t) (i t)) (t : ℕ) :
    SizeOk (run i t) (i t) := by
  have hnext := h (t + 1)
  rw [run_succ] at hnext
  refine ⟨fun hs hp he => ?_, block_of_bounded h, fun hst hw => ?_, fun hst h₀ h₂ => ?_⟩
  · by_contra hgt
    have hlt := (h t).stored (stores_eq.2 ⟨hs, hp, by rw [he]; exact BitVec.not_le.1 hgt⟩)
    rw [he] at hlt
    exact absurd hlt (by decide)
  · have hq := (staysFilling_eq (x := i t)).1 hst
    have hl := level_of_bounded hnext hq.2 (asks_blkSize hw 2) (asks_blkSize hw 0)
    have hn : (run i t).stores (i t) = false := by
      by_contra hn
      rw [stores_writesLow (by simpa using hn) (by decide)] at hw
      cases hw
    rw [step_fillPtr, fillPtrD_stays hst, hn, step_blkSize, blkSizeD, hw] at hl
    exact hl
  · simp only [startsFilling, Bool.and_eq_true, Bool.not_eq_true', beq_iff_eq] at hst
    obtain ⟨⟨hs, he⟩, hr⟩ := hst
    have hq : ((run i t).step (i t)).stateQ = .filling := by
      simp [step_stateQ, stateD, hs, he, hr]
    have hl := level_of_bounded hnext hq h₂ h₀
    have hf : (run i t).fillPtrD (i t) = (run i t).fillPtr := by
      simp [fillPtrD, startsStreaming, stores, hs, hr]
    rwa [step_fillPtr, hf] at hl

theorem sized_run (h : ∀ t, SizeOk (run i t) (i t)) (t : ℕ) : Sized (run i t) := by
  induction t with
  | zero => exact sized_reset
  | succ t ih => exact ih.step (h t)

/-- In a run that keeps to the sizes every word granted in a filling is stored. -/
theorem filling_words (h : ∀ t, SizeOk (run i t) (i t))
    (hf : ∀ u ≤ m, (run i (t + u)).stateQ = .filling) :
    (run i (t + m)).fillPtr.toNat = (run i t).fillPtr.toNat +
      Nat.count (fun u => (run i (t + u)).pushes (i (t + u)) = true) m := by
  induction m with
  | zero => simp
  | succ m ih =>
    have hn := ih fun u hu => hf u (by omega)
    have hs := hf m (by omega)
    have hst : (run i (t + m)).staysFilling = true :=
      staysFilling_eq.2 ⟨hs, by rw [← run_succ]; exact hf (m + 1) le_rfl⟩
    rw [← Nat.add_assoc, run_succ, step_fillPtr, fillPtrD_stays hst, Nat.count_succ]
    cases hp : (run i (t + m)).pushes (i (t + m)) with
    | true =>
      have hle := (sized_run h (t + m)).filling hs
      simp only [staysFilling, bufFull, Bool.and_eq_true, Bool.not_eq_true', beq_iff_eq,
        beq_eq_false_iff_ne] at hst
      obtain ⟨⟨⟨-, ha⟩, hr⟩, hne⟩ := hst
      simp only [ha, hr, Bool.false_eq_true, false_or] at hle
      have hstore : (run i (t + m)).stores (i (t + m)) = true :=
        stores_eq.2 ⟨hs, hp, by bv_omega⟩
      rw [hstore]
      simp only [if_true]
      bv_omega
    | false =>
      have hstore : (run i (t + m)).stores (i (t + m)) = false := by simp [stores, hp]
      rw [hstore]
      simpa using hn

/-- **When the pointers are bounded.** In a run every index and address stays inside the block
    memory, and every filling ends, exactly when every cycle keeps to the sizes. -/
theorem pointersOk_iff (i : ℕ → BufIn) :
    PointersOk i ↔ ∀ t, SizeOk (run i t) (i t) := by
  constructor
  · exact fun h => sizeOk_of_bounded h.bounded
  · intro h
    refine ⟨fun t => (sized_run h t).bounded (h t), fun t m hf => ?_⟩
    have hn := filling_words h hf
    have hl := (sized_run h (t + m)).level
    bv_omega

/-- One data word, after which the block size is set to 0. -/
def shrunk (t : ℕ) : BufIn :=
  let obi : ObiReq := match t with
    | 0 => ⟨true, 0x00040000, true, 15, 2⟩
    | 2 => ⟨true, 0x00040100, true, 15, 7⟩
    | 3 => ⟨true, 0x0004000C, true, 15, 0⟩
    | _ => .idle
  ⟨obi, 0, false, 0⟩

theorem shrunk_unbounded : ¬ PointersOk shrunk := by
  intro h
  have hl := level_of_bounded (h.bounded 4) (by decide) (by decide) (by decide)
  exact absurd hl (by decide)

end SocBuffer

end SentinelSoc
