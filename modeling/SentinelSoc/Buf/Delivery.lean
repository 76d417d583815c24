/-
  What the accelerator sees of the words that the core writes.

  * `Traced`: the buffer beside the strobes due for the blocks filled so far and
    the strobes seen so far; `ExactlyOnce` compares the two;
  * `streaming_run`: a block is sent in `n + 4` strobes, two more than are due;
  * `exactlyOnce_iff`: so no run that fills a block delivers it exactly once.
-/
import SentinelSoc.Buf.SocBuffer

namespace SentinelSoc

/-- A write strobe: address and data. -/
abbrev Strobe := BitVec 6 × BitVec 32

namespace SocBuffer

/-- The strobes due for a block: its words at the addresses from 0 on, then the flags at 32 and the
    message length at 33. -/
def blockStrobes (b : SocBuffer) (words : List (BitVec 32)) : List Strobe :=
  (words.zipIdx.map fun w => (BitVec.ofNat 6 w.2, w.1)) ++ [(32, b.flags), (33, b.msgLength)]

/-- The strobe of this cycle. -/
def strobe (b : SocBuffer) (i : BufIn) : List Strobe :=
  if b.accelValid then [(b.accelAddr, b.accelData i)] else []

/-- The word of the data FIFO that is granted in this cycle, with the machine in `filling`. -/
def accepted (b : SocBuffer) (i : BufIn) : List (BitVec 32) :=
  if b.stateQ == .filling && b.pushes i then [i.obi.wdata] else []

theorem length_blockStrobes (b : SocBuffer) (words : List (BitVec 32)) :
    (b.blockStrobes words).length = words.length + 2 := by
  simp [blockStrobes]

end SocBuffer

/-- The buffer; the accepted words that are in no block yet; the strobes due for all blocks so far,
    and those seen. -/
structure Traced where
  buf : SocBuffer
  pending : List (BitVec 32)
  due : List Strobe
  seen : List Strobe

namespace Traced

def reset : Traced := ⟨.reset, [], [], []⟩

/-- A block is made of the first `blkSize` pending words when the buffer starts to stream. -/
def step (r : Traced) (i : BufIn) : Traced where
  buf := r.buf.step i
  pending :=
    if r.buf.startsStreaming i then (r.pending ++ r.buf.accepted i).drop r.buf.blkSize.toNat
    else r.pending ++ r.buf.accepted i
  due :=
    if r.buf.startsStreaming i then
      r.due ++ (r.buf.step i).blockStrobes (r.pending.take r.buf.blkSize.toNat)
    else r.due
  seen := r.seen ++ r.buf.strobe i

def run (i : ℕ → BufIn) : ℕ → Traced := Sync.run step reset i

/-- The strobes come in the order in which they are due, and none else; when the buffer has sent
    its block all have come. -/
def ExactlyOnce (i : ℕ → BufIn) : Prop :=
  ∀ t, (run i t).seen <+: (run i t).due ∧
    ((run i t).buf.stateQ = .waiting → (run i t).seen = (run i t).due)

/-- A run without abort and soft reset whose blocks have 1 to 32 words, a number that does not
    change once the buffer has a word of the block. -/
structure BlockRun (i : ℕ → BufIn) : Prop where
  noReset : ∀ t, (run i t).buf.writesLow (i t) SocBuffer.bufCtrlOff = true →
    (i t).obi.wdata.getLsbD 0 = false ∧ (i t).obi.wdata.getLsbD 2 = false
  size : ∀ t, (run i t).buf.stateQ = .filling →
    1 ≤ (run i t).buf.blkSize.toNat ∧ (run i t).buf.blkSize.toNat ≤ 32
  held : ∀ t, (run i t).buf.stateQ = .filling → (run i t).buf.fillPtr ≠ 0 →
    (run i (t + 1)).buf.blkSize = (run i t).buf.blkSize

/-- The buffer is full in `filling`. -/
def Completes (b : SocBuffer) : Prop := b.stateQ = .filling ∧ b.bufFull = true

instance (b : SocBuffer) : Decidable (Completes b) := inferInstanceAs (Decidable (_ ∧ _))

variable {i : ℕ → BufIn} {b : SocBuffer} {x : BufIn} {t n k : ℕ}

theorem run_succ (t : ℕ) : run i (t + 1) = (run i t).step (i t) := rfl

theorem buf_run_succ (t : ℕ) : (run i (t + 1)).buf = (run i t).buf.step (i t) := rfl

/-! ## Without a full buffer -/

theorem BlockRun.noReset_run (h : BlockRun i) (t : ℕ) :
    (run i t).buf.softReset = false ∧ (run i t).buf.abort = false := by
  cases t with
  | zero => exact ⟨rfl, rfl⟩
  | succ t =>
    have hn := h.noReset t
    rw [buf_run_succ]
    simp only [SocBuffer.step]
    cases hw : (run i t).buf.writesLow (i t) SocBuffer.bufCtrlOff with
    | false => exact ⟨rfl, rfl⟩
    | true =>
      rw [(hn hw).1, (hn hw).2]
      exact ⟨rfl, rfl⟩

theorem startsStreaming_iff (hr : b.softReset = false ∧ b.abort = false) :
    b.startsStreaming x = true ↔ Completes b := by
  unfold SocBuffer.startsStreaming Completes SocBuffer.stateD
  cases hs : b.stateQ <;> simp [hr.1, hr.2]

/-- Until a block is full nothing is due, and nothing is seen. -/
theorem quiet_run (h : BlockRun i) (hc : ∀ u < t, ¬ Completes (run i u).buf) :
    (run i t).due = [] ∧ (run i t).seen = [] ∧
      ((run i t).buf.stateQ = .idle ∨ (run i t).buf.stateQ = .filling ∨
        (run i t).buf.stateQ = .error) := by
  induction t with
  | zero => exact ⟨rfl, rfl, .inl rfl⟩
  | succ t ih =>
    obtain ⟨hd, hs, hst⟩ := ih fun u hu => hc u (by omega)
    have hnc := hc t (by omega)
    have hr := h.noReset_run t
    have hns : (run i t).buf.startsStreaming (i t) = false := by
      by_contra hn
      rw [Bool.not_eq_false, startsStreaming_iff hr] at hn
      exact hnc hn
    have hv : (run i t).buf.strobe (i t) = [] := by
      rcases hst with hst | hst | hst <;> simp [SocBuffer.strobe, SocBuffer.accelValid, hst]
    refine ⟨?_, ?_, ?_⟩
    · rw [run_succ]
      simp [step, hns, hd]
    · rw [run_succ]
      simp [step, hv, hs]
    · have hq : (run i (t + 1)).buf.stateQ = (run i t).buf.stateD (i t) := rfl
      rw [hq]
      rcases hst with hst | hst | hst
      · simp only [SocBuffer.stateD, hst]
        split_ifs <;> simp
      · have hf : (run i t).buf.bufFull = false := by
          by_contra hf
          exact hnc ⟨hst, by simpa using hf⟩
        simp [SocBuffer.stateD, hst, hr.1, hr.2, hf]
      · simp only [SocBuffer.stateD, hst]
        split_ifs <;> simp

/-! ## A block on its way -/

/-- While the buffer sends, the core's writes wait. -/
theorem step_of_stall (hs : b.obiStall = true) :
    (b.step x).blkSize = b.blkSize ∧ (b.step x).flags = b.flags ∧
      (b.step x).msgLength = b.msgLength ∧ (b.step x).bufMem = b.bufMem := by
  have hw : ∀ off, b.writes x off = false := fun off => by
    simp [SocBuffer.writes, SocBuffer.granted, SocBuffer.gnt, hs]
  have hp : b.stores x = false := by
    simp [SocBuffer.stores, SocBuffer.pushes, SocBuffer.granted, SocBuffer.gnt, hs]
  simp [SocBuffer.step, SocBuffer.writesLow, SocBuffer.flags, SocBuffer.bufMemD, hw, hp]

/-- `k` words of a block of `n` are sent. -/
structure Sending (n k : ℕ) (b : SocBuffer) : Prop where
  state : b.stateQ = .streaming
  size : b.blkSize.toNat = n
  ptr : b.streamPtr.toNat = k
  le : k ≤ n

theorem Sending.valid (h : Sending n k b) : b.accelValid = true ∧ b.startsStreaming x = false := by
  simp [SocBuffer.accelValid, SocBuffer.startsStreaming, h.state]

theorem Sending.step (h : Sending n k b) (hk : k < n) : Sending n (k + 1) (b.step x) := by
  have hlt : b.streamPtr < b.blkSize := by
    rw [BitVec.lt_def, h.ptr, h.size]
    exact hk
  have hne : (b.streamPtr == b.blkSize) = false := by
    rw [beq_eq_false_iff_ne]
    intro he
    rw [he] at hlt
    exact absurd hlt (BitVec.lt_irrefl _)
  have hn : n < 64 := h.size ▸ b.blkSize.isLt
  have hst := step_of_stall (b := b) (x := x) (by simp [SocBuffer.obiStall, h.state])
  refine ⟨?_, hst.1 ▸ h.size, ?_, hk⟩
  · simp [SocBuffer.step, SocBuffer.stateD, h.state, hne]
  · have hp : (b.step x).streamPtr = b.streamPtr + 1 := by
      simp [SocBuffer.step, SocBuffer.streamPtrD, SocBuffer.stateD, SocBuffer.startsStreaming,
        h.state, hne, hlt]
    rw [hp, ← h.ptr]
    exact BitVec.toNat_add_of_lt (show b.streamPtr.toNat + 1 < 2 ^ 6 by rw [h.ptr]; omega)

/-- The control strobe at address `a` is driven. -/
structure SendingCtrl (a : ℕ) (b : SocBuffer) : Prop where
  state : b.stateQ = .ctrlSend
  ptr : b.streamPtr.toNat = a

theorem SendingCtrl.valid (h : SendingCtrl k b) :
    b.accelValid = true ∧ b.startsStreaming x = false := by
  simp [SocBuffer.accelValid, SocBuffer.startsStreaming, h.state]

/-- One strobe more than the block has words. -/
theorem Sending.step_last (h : Sending n n b) : SendingCtrl 32 (b.step x) := by
  have heq : b.streamPtr = b.blkSize := BitVec.eq_of_toNat_eq (h.ptr.trans h.size.symm)
  constructor
  · simp [SocBuffer.step, SocBuffer.stateD, h.state, heq]
  · simp [SocBuffer.step, SocBuffer.streamPtrD, SocBuffer.stateD, h.state, heq]

/-- One strobe more than there are control words. -/
theorem SendingCtrl.step (h : SendingCtrl k b) (hk : k < 34) : SendingCtrl (k + 1) (b.step x) := by
  have h34 : (34 : BitVec 6).toNat = 34 := rfl
  have hlt : b.streamPtr < 34 := by
    rw [BitVec.lt_def, h.ptr, h34]
    exact hk
  have hne : (b.streamPtr == 34) = false := by
    rw [beq_eq_false_iff_ne]
    intro he
    rw [he] at hlt
    exact absurd hlt (BitVec.lt_irrefl _)
  constructor
  · simp only [SocBuffer.step, SocBuffer.stateD, h.state, hne]
    rfl
  · have hp : (b.step x).streamPtr = b.streamPtr + 1 := by
      simp only [SocBuffer.step, SocBuffer.streamPtrD, SocBuffer.startsStreaming, h.state, hlt]
      rfl
    rw [hp, ← h.ptr]
    exact BitVec.toNat_add_of_lt (show b.streamPtr.toNat + 1 < 2 ^ 6 by rw [h.ptr]; omega)

/-- A cycle in which the buffer sends adds a strobe to those seen and none to those due. -/
theorem step_of_valid {r : Traced} (h : r.buf.accelValid = true ∧ r.buf.startsStreaming x = false) :
    (r.step x).due = r.due ∧ (r.step x).seen.length = r.seen.length + 1 := by
  simp [step, h.1, h.2, SocBuffer.strobe]

/-- A full buffer starts to send. -/
theorem sending_of_completes (h : BlockRun i) (hc : Completes (run i t).buf) :
    Sending (run i t).buf.blkSize.toNat 0 (run i (t + 1)).buf := by
  have hr := h.noReset_run t
  have hs : (run i t).buf.startsStreaming (i t) = true := (startsStreaming_iff hr).2 hc
  obtain ⟨hst, hf⟩ := hc
  have hne : (run i t).buf.fillPtr ≠ 0 := by
    intro h0
    have hsz := (h.size t hst).1
    rw [SocBuffer.bufFull, h0, beq_iff_eq] at hf
    rw [← hf] at hsz
    exact absurd hsz (by decide)
  have hsd : (run i t).buf.stateD (i t) = .streaming := by
    simp only [SocBuffer.startsStreaming, Bool.and_eq_true, beq_iff_eq] at hs
    exact hs.2
  refine ⟨hsd, by rw [h.held t hst hne], ?_, Nat.zero_le _⟩
  rw [buf_run_succ]
  simp [SocBuffer.step, SocBuffer.streamPtrD, hs, hst]

/-- **What a block costs**: after a block of `n` words has filled the buffer, `n + 4` strobes come
    in a row, where `n + 2` are due. -/
theorem streaming_run (h : BlockRun i) (hc : Completes (run i t).buf) :
    let n := (run i t).buf.blkSize.toNat
    (run i (t + 1 + (n + 4))).due = (run i (t + 1)).due ∧
      (run i (t + 1 + (n + 4))).seen.length = (run i (t + 1)).seen.length + (n + 4) := by
  intro n
  have hsend : ∀ k ≤ n, Sending n k (run i (t + 1 + k)).buf ∧
      (run i (t + 1 + k)).due = (run i (t + 1)).due ∧
      (run i (t + 1 + k)).seen.length = (run i (t + 1)).seen.length + k := by
    intro k
    induction k with
    | zero => exact fun _ => ⟨sending_of_completes h hc, rfl, rfl⟩
    | succ k ih =>
      intro hk
      obtain ⟨hs, hd, hl⟩ := ih (by omega)
      have hv := step_of_valid (hs.valid (x := i (t + 1 + k)))
      rw [← run_succ] at hv
      exact ⟨hs.step (by omega), hv.1.trans hd, hv.2.trans (by omega)⟩
  have hctrl : ∀ k ≤ 2, SendingCtrl (32 + k) (run i (t + 1 + n + 1 + k)).buf ∧
      (run i (t + 1 + n + 1 + k)).due = (run i (t + 1)).due ∧
      (run i (t + 1 + n + 1 + k)).seen.length = (run i (t + 1)).seen.length + (n + 1 + k) := by
    intro k
    induction k with
    | zero =>
      intro _
      obtain ⟨hs, hd, hl⟩ := hsend n le_rfl
      have hv := step_of_valid (hs.valid (x := i (t + 1 + n)))
      rw [← run_succ] at hv
      exact ⟨hs.step_last, hv.1.trans hd, hv.2.trans (by omega)⟩
    | succ k ih =>
      intro hk
      obtain ⟨hs, hd, hl⟩ := ih (by omega)
      have hv := step_of_valid (hs.valid (x := i (t + 1 + n + 1 + k)))
      rw [← run_succ] at hv
      exact ⟨hs.step (by omega), hv.1.trans hd, hv.2.trans (by omega)⟩
  obtain ⟨hs, hd, hl⟩ := hctrl 2 le_rfl
  have hv := step_of_valid (hs.valid (x := i (t + 1 + n + 1 + 2)))
  rw [← run_succ] at hv
  rw [show t + 1 + (n + 4) = t + 1 + n + 1 + 2 + 1 by omega]
  exact ⟨hv.1.trans hd, hv.2.trans (by omega)⟩

/-! ## Exactly once -/

/-- **No filled block is delivered exactly once**: the property holds of the runs in which no buffer
    is ever full. -/
theorem exactlyOnce_iff (i : ℕ → BufIn) (h : BlockRun i) :
    ExactlyOnce i ↔ ∀ t, ¬ Completes (run i t).buf := by
  constructor
  · intro he
    by_contra hc
    push Not at hc
    -- the first full buffer
    have hfirst : ∃ t, Completes (run i t).buf ∧ ∀ u < t, ¬ Completes (run i u).buf := by
      classical
      exact ⟨Nat.find hc, Nat.find_spec hc, fun u hu => Nat.find_min hc hu⟩
    obtain ⟨t, ht, hmin⟩ := hfirst
    obtain ⟨hdue, -, -⟩ := quiet_run h hmin
    have hs : (run i t).buf.startsStreaming (i t) = true :=
      (startsStreaming_iff (h.noReset_run t)).2 ht
    have hd : (run i (t + 1)).due.length ≤ (run i t).buf.blkSize.toNat + 2 := by
      rw [run_succ]
      simp only [step, hs, hdue, if_true, List.nil_append, SocBuffer.length_blockStrobes,
        List.length_take]
      omega
    obtain ⟨hd', hl⟩ := streaming_run h ht
    have hle := ((he (t + 1 + ((run i t).buf.blkSize.toNat + 4))).1).length_le
    rw [hd', hl] at hle
    omega
  · intro hc t
    obtain ⟨hd, hs, hst⟩ := quiet_run h (t := t) fun u _ => hc u
    rw [hd, hs]
    exact ⟨List.prefix_rfl, fun _ => rfl⟩

/-- A granted write of the core. -/
def bufWrite (addr wdata : BitVec 32) : BufIn where
  obi := ⟨true, addr, true, 0xF, wdata⟩
  accelData := 0
  accelDone := false
  unknown := 0

/-- A cycle in which nothing comes in. -/
def bufQuiet : BufIn := ⟨.idle, 0, false, 0⟩

/-- A block of one word. -/
def oneWord : ℕ → BufIn
  | 0 => bufWrite 0x00C 1
  | 1 => bufWrite 0x000 2
  | 3 => bufWrite 0x100 0xABCD
  | _ => bufQuiet

theorem oneWord_quiet (h : 4 ≤ t) : oneWord t = bufQuiet := by
  rcases t with _ | _ | _ | _ | t <;> first | omega | rfl

theorem oneWord_waiting : ∀ t, 10 ≤ t → (run oneWord t).buf.stateQ = .waiting ∧
    (run oneWord t).buf.abort = false := by
  intro t ht
  induction t, ht using Nat.le_induction with
  | base => decide +kernel
  | succ t ht ih =>
    rw [buf_run_succ, oneWord_quiet (by omega)]
    simp [SocBuffer.step, SocBuffer.stateD, SocBuffer.writesLow, SocBuffer.writes,
      SocBuffer.granted, bufQuiet, ih.1, ih.2]

theorem oneWord_blockRun : BlockRun oneWord where
  noReset t hw := by
    have hs : ∀ t < 4, (run oneWord t).buf.writesLow (oneWord t) SocBuffer.bufCtrlOff = true →
        (oneWord t).obi.wdata.getLsbD 0 = false ∧ (oneWord t).obi.wdata.getLsbD 2 = false := by
      decide +kernel
    rcases Nat.lt_or_ge t 4 with ht | ht
    · exact hs t ht hw
    · rw [oneWord_quiet ht]
      exact ⟨rfl, rfl⟩
  size t hf := by
    have hs : ∀ t < 10, (run oneWord t).buf.stateQ = .filling →
        1 ≤ (run oneWord t).buf.blkSize.toNat ∧ (run oneWord t).buf.blkSize.toNat ≤ 32 := by
      decide +kernel
    rcases Nat.lt_or_ge t 10 with ht | ht
    · exact hs t ht hf
    · exact absurd (hf.symm.trans (oneWord_waiting t ht).1) (by decide)
  held t hf hp := by
    have hs : ∀ t < 10, (run oneWord t).buf.stateQ = .filling → (run oneWord t).buf.fillPtr ≠ 0 →
        (run oneWord (t + 1)).buf.blkSize = (run oneWord t).buf.blkSize := by decide +kernel
    rcases Nat.lt_or_ge t 10 with ht | ht
    · exact hs t ht hf hp
    · exact absurd (hf.symm.trans (oneWord_waiting t ht).1) (by decide)

/-- Three strobes are due for it and five are seen. -/
theorem oneWord_strobes : BlockRun oneWord ∧
    (run oneWord 10).due = [(0, 0xABCD), (32, 0), (33, 0)] ∧
    (run oneWord 10).seen = [(0, 0xABCD), (1, 0), (32, 0), (33, 0), (34, 0)] ∧
    ¬ ExactlyOnce oneWord := by
  have hd : (run oneWord 10).due = [(0, 0xABCD), (32, 0), (33, 0)] := by decide +kernel
  have hs : (run oneWord 10).seen = [(0, 0xABCD), (1, 0), (32, 0), (33, 0), (34, 0)] := by
    decide +kernel
  refine ⟨oneWord_blockRun, hd, hs, fun h => ?_⟩
  have hp := (h 10).1.length_le
  rw [hd, hs] at hp
  exact absurd hp (by decide)

theorem exactlyOnce_iff_oneWord : ¬ ExactlyOnce oneWord := by
  intro h
  exact (exactlyOnce_iff oneWord oneWord_blockRun).1 h 4 (by decide +kernel)

end Traced

end SentinelSoc
