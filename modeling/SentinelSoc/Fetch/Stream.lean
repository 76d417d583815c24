/-
  The instructions that the prefetch buffer delivers, over whole runs.

  * `FetchMemory`: an instruction memory that grants and answers when it likes;
  * `streamPc`: the straight-line code at an address, as memory holds it;
  * `delivers_stream`: after a branch the core gets that code, instruction by
    instruction, and nothing that was fetched before the branch;
  * `requests_kept`: the requests keep to the protocol of the bus, and a branch cancels
    those of before.
-/
import SentinelSoc.Fetch.Prefetch

namespace SentinelSoc

/-- The straight-line code at the half-word address `a`: the addresses of its instructions. -/
def streamPc (mem : BitVec 30 → FetchedWord) (a : BitVec 31) : ℕ → BitVec 31
  | 0 => a
  | n + 1 =>
    let pc := streamPc mem a n
    pc + FetchFifo.length (mem (pc.extractLsb' 1 30)) (pc.getLsbD 0)

/-- The instruction at an address. -/
def InstructionAt (mem : BitVec 30 → FetchedWord) (pc : BitVec 31) (o : FetchOut) : Prop :=
  Instruction (mem (pc.extractLsb' 1 30)) (mem (pc.extractLsb' 1 30 + 1)) (pc.getLsbD 0) o

namespace PrefetchBuffer

variable (s : PrefetchBuffer) (i : ℕ → PrefetchIn)

/-! ## Runs -/

def grants (t : ℕ) : Bool := (s.run i t).granted (i t)

def responses (i : ℕ → PrefetchIn) (t : ℕ) : Bool := (i t).instrRvalid

def address (t : ℕ) : BitVec 30 := (s.run i t).addressWord (i t)

/-- The answer to the request of cycle `t`, from what the memory `m` holds in each cycle. -/
def word (m : ℕ → BitVec 30 → FetchedWord) (t : ℕ) : FetchedWord := m t (s.address i t)

/-- The memory answers the requests in order, each with what it held when it granted it; when it
    grants and when it answers is open. -/
def FetchMemory (m : ℕ → BitVec 30 → FetchedWord) : Prop :=
  ∀ t', responses i t' = true → ∃ t, Port.Answers (s.grants i) (responses i) t t' ∧
    ((i t').instrRdata, (i t').instrErr) = s.word i m t

/-- `valid_o` -/
def validO (t : ℕ) : Bool := (s.run i t).fifo.outValid ((s.run i t).fifoIn (i t))

/-- `addr_o`, a half-word address -/
def addrO (t : ℕ) : BitVec 31 := (s.run i t).fifo.instrAddrQ

/-- `rdata_o`, `err_o` and `err_plus2_o` -/
def outO (t : ℕ) : FetchOut := (s.run i t).fifo.out ((s.run i t).fifoIn (i t))

/-- The core takes an instruction. -/
def taken (t : ℕ) : Bool := (i t).ready && s.validO i t

/-- The instructions taken since the cycle `T`. -/
def takenSince (T t : ℕ) : ℕ := Nat.count (fun k => s.taken i (T + 1 + k) = true) (t - (T + 1))

def books : ℕ → Books
  | 0 => ⟨[], [], []⟩
  | t + 1 => (books t).step (s.run i t) (i t) t

variable {s : PrefetchBuffer} {i : ℕ → PrefetchIn} {m : ℕ → BitVec 30 → FetchedWord} {T t : ℕ}

theorem run_succ (t : ℕ) : s.run i (t + 1) = (s.run i t).step (i t) := rfl

theorem FetchMemory.asked (h : s.FetchMemory i m) : Port.Asked (s.grants i) (responses i) :=
  fun t' ht' => by
    obtain ⟨t, ha, -⟩ := h t' ht'
    exact ⟨t, ha⟩

theorem tracks_reset (w : ℕ → FetchedWord) : s.reset.Tracks w ⟨[], [], []⟩ where
  outstanding _ := rfl
  discard _ := rfl
  two := by simp
  held _ := by simp
  stale _ _ := rfl
  room := by simp [nextNumber, Books.recent, waiting, reset]
  words := ShiftFifo.holds_nil fun _ => rfl

/-- The open requests of the books are those of the bus, and the books are true. -/
theorem FetchMemory.books (h : s.FetchMemory i m) (t : ℕ) :
    (s.books i t).opened = Port.pending (s.grants i) (responses i) t ∧
      (s.run i t).Tracks (s.word i m) (s.books i t) := by
  induction t with
  | zero => exact ⟨rfl, tracks_reset _⟩
  | succ t ih =>
    obtain ⟨ho, ht⟩ := ih
    have ha : Answers (i t) (s.word i m) (s.books i t) := fun hr => by
      obtain ⟨u, l, hp, hu⟩ := h.asked.head hr
      obtain ⟨u', hu', hw⟩ := h t hr
      rw [ho, hp]
      exact ⟨u, rfl, by rw [hw, hu'.unique_left hu]⟩
    refine ⟨?_, ht.step ha⟩
    rw [PrefetchBuffer.books, ht.step_opened ha, Port.pending_succ, ho]
    rfl

theorem FetchMemory.tracks (h : s.FetchMemory i m) (t : ℕ) :
    (s.run i t).Tracks (s.word i m) (s.books i t) := (h.books t).2

theorem FetchMemory.answers (h : s.FetchMemory i m) (t : ℕ) :
    Answers (i t) (s.word i m) (s.books i t) := fun hr => by
  obtain ⟨u, l, hp, hu⟩ := h.asked.head hr
  obtain ⟨u', hu', hw⟩ := h t hr
  rw [(h.books t).1, hp]
  exact ⟨u, rfl, by rw [hw, hu'.unique_left hu]⟩

/-- Since a branch in cycle `T`, and no other since. -/
structure Since (i : ℕ → PrefetchIn) (T t : ℕ) : Prop where
  branch : (i T).branch = true
  later : T < t
  none : ∀ u, T < u → u < t → (i u).branch = false

theorem Since.pred (hT : Since i T (t + 1)) (h : T < t) : Since i T t :=
  ⟨hT.branch, h, fun u h1 h2 => hT.none u h1 (by omega)⟩

theorem FetchMemory.follows (h : s.FetchMemory i m) (hT : Since i T t) :
    (s.run i t).Follows (s.address i) T (s.books i t) := by
  obtain ⟨hb, hlt, hno⟩ := hT
  induction t, hlt using Nat.le_induction with
  | base => exact (h.tracks T).follows_branch (h.answers T) (fun _ => rfl) hb
  | succ t htt ih =>
    exact (ih fun u h1 h2 => hno u h1 (by omega)).step (h.tracks t) (h.answers t) (fun _ => rfl)
      (by omega) (hno t htt (by omega))

/-- A request since the last branch was there a cycle before, or has just been granted. -/
theorem FetchMemory.mem_recent_succ (h : s.FetchMemory i m) {u : ℕ}
    (hu : u ∈ (s.books i (t + 1)).recent) :
    (i t).branch = false ∧ u ∈ (s.books i t).recent ∨
      u = t ∧ (s.run i t).discardReqD (i t) = false := by
  have hnew : u ∈ (if (s.run i t).granted (i t) && !(s.run i t).discardReqD (i t) then [t] else []) →
      u = t ∧ (s.run i t).discardReqD (i t) = false := by
    intro hu
    split_ifs at hu with hg
    · rw [Bool.and_eq_true, Bool.not_eq_true'] at hg
      exact ⟨List.mem_singleton.1 hu, hg.2⟩
    · simp at hu
  rw [PrefetchBuffer.books] at hu
  cases hb : (i t).branch with
  | true =>
    rw [step_recent_branch hb] at hu
    exact .inr (hnew hu)
  | false =>
    rw [(h.tracks t).step_recent (h.answers t) hb] at hu
    rcases List.mem_append.1 (List.mem_of_mem_drop hu) with hu | hu
    · exact .inl ⟨rfl, hu⟩
    · exact .inr (hnew hu)

theorem FetchMemory.recent_lt (h : s.FetchMemory i m) {u : ℕ}
    (hu : u ∈ (s.books i t).recent) : u < t := by
  induction t with
  | zero => simp [PrefetchBuffer.books, Books.recent] at hu
  | succ t ih =>
    rcases h.mem_recent_succ hu with ⟨-, hu⟩ | ⟨rfl, -⟩
    · exact (ih hu).trans (by omega)
    · omega

/-! ## The words at the output -/

/-- The memory does not change from a branch on. -/
def Steady (m : ℕ → BitVec 30 → FetchedWord) (mem : BitVec 30 → FetchedWord) (T t : ℕ) : Prop :=
  ∀ u, T ≤ u → u < t → m u = mem

/-- The words in the FIFO, and the one that comes in. -/
def outWords (s : PrefetchBuffer) (i : ℕ → PrefetchIn) (m : ℕ → BitVec 30 → FetchedWord) (t : ℕ) :
    List FetchedWord :=
  FetchFifo.words ((s.run i t).fifoIn (i t)) ((s.books i t).full.map (s.word i m))

variable {mem : BitVec 30 → FetchedWord}

/-- They are the words of memory from the address on. -/
theorem FetchMemory.outWords_eq (h : s.FetchMemory i m) (hT : Since i T t) (hm : Steady m mem T t)
    {k : ℕ} {w : FetchedWord} (hw : (s.outWords i m t)[k]? = some w) :
    w = mem ((s.addrO i t).extractLsb' 1 30 + BitVec.ofNat 30 k) := by
  rw [outWords, (h.tracks t).fifo_words (h.answers t), List.getElem?_map] at hw
  obtain ⟨u, hu, rfl⟩ := Option.map_eq_some_iff.1 hw
  have hr : (s.books i t).recent[k]? = some u := by
    have hp : (s.books i t).full ++ (s.books i t).delivered (s.run i t) (i t) <+:
        (s.books i t).recent := by
      rw [Books.recent, List.prefix_append_right_inj, Books.delivered]
      split_ifs
      · exact List.take_prefix _ _
      · exact List.nil_prefix
    obtain ⟨l, hl⟩ := hp
    rw [← hl, List.getElem?_append_left (List.getElem?_eq_some_iff.1 hu).1, hu]
  obtain ⟨h1, h2⟩ := (h.follows hT).recent k u hr
  rw [word, hm u h1 (h.recent_lt (List.mem_of_getElem? hr)), h2]
  rfl

theorem FetchMemory.head_eq (h : s.FetchMemory i m) (hT : Since i T t) (hm : Steady m mem T t)
    {lo : FetchedWord} (hlo : (s.outWords i m t).head? = some lo) :
    lo = mem ((s.addrO i t).extractLsb' 1 30) := by
  rw [List.head?_eq_getElem?] at hlo
  simpa using h.outWords_eq hT hm hlo

/-- What is driven is the instruction at the address. -/
theorem FetchMemory.instructionAt (h : s.FetchMemory i m) (hT : Since i T t)
    (hm : Steady m mem T t) (hv : s.validO i t = true) :
    InstructionAt mem (s.addrO i t) (s.outO i t) := by
  obtain ⟨lo, hlo, hlen⟩ := (FetchFifo.outValid_iff (h.tracks t).words).1 hv
  have hhead := h.head_eq hT hm hlo
  subst hhead
  refine FetchFifo.out_instruction (h.tracks t).words hlo fun h2 => ?_
  rw [h2] at hlen
  have h1 : (s.outWords i m t)[1]? = some ((s.outWords i m t).get ⟨1, hlen⟩) :=
    List.getElem?_eq_getElem hlen
  have h2 := h.outWords_eq hT hm h1
  rw [h2] at h1
  exact h1

/-- An instruction that is not taken is offered again. -/
theorem FetchMemory.valid_stays (h : s.FetchMemory i m) (hb : (i t).branch = false)
    (hr : (i t).ready = false) (hv : s.validO i t = true) : s.validO i (t + 1) = true := by
  obtain ⟨lo, hlo, hlen⟩ := (FetchFifo.outValid_iff (h.tracks t).words).1 hv
  have hp : (s.run i t).fifo.popFifo ((s.run i t).fifoIn (i t)) = false := by
    simp [FetchFifo.popFifo, fifoIn, hr]
  have hn := FetchFifo.step_holds (h.tracks t).words (x := (s.run i t).fifoIn (i t)) hb
    ((h.tracks t).pushes_below (h.answers t))
  rw [hp, Bool.toNat_false, List.drop_zero] at hn
  have hu : ((s.run i (t + 1)).fifo).unaligned = (s.run i t).fifo.unaligned := by
    have ha : (s.run i (t + 1)).fifo.instrAddrQ = (s.run i t).fifo.instrAddrQ :=
      FetchFifo.step_instrAddrQ_stay hb (by simp [fifoIn, hr])
    rw [FetchFifo.unaligned, ha, FetchFifo.unaligned]
  refine (FetchFifo.outValid_iff hn).2 ⟨lo, ?_, ?_⟩
  · rw [FetchFifo.words, List.head?_append, hlo]
    rfl
  · rw [FetchFifo.words, List.length_append]
    change wordsOf lo (s.run i (t + 1)).fifo.unaligned ≤ _
    rw [hu]
    omega

/-! ## The address -/

theorem addrO_branch (hb : (i t).branch = true) :
    s.addrO i (t + 1) = (i t).addr.extractLsb' 1 31 :=
  FetchFifo.step_instrAddrQ_clear hb

theorem FetchMemory.addrO_succ (h : s.FetchMemory i m) (hT : Since i T t) (hm : Steady m mem T t)
    (hb : (i t).branch = false) : s.addrO i (t + 1) =
      if s.taken i t then s.addrO i t + FetchFifo.length
        (mem ((s.addrO i t).extractLsb' 1 30)) ((s.addrO i t).getLsbD 0)
      else s.addrO i t := by
  cases hk : s.taken i t with
  | false => exact FetchFifo.step_instrAddrQ_stay hb hk
  | true =>
    have hv : s.validO i t = true := by
      rw [taken, Bool.and_eq_true] at hk
      exact hk.2
    obtain ⟨lo, hlo, -⟩ := (FetchFifo.outValid_iff (h.tracks t).words).1 hv
    rw [← h.head_eq hT hm hlo]
    exact (FetchFifo.step_instrAddrQ (h.tracks t).words hlo hb).trans (if_pos hk)

theorem takenSince_succ (hT : T < t) : s.takenSince i T (t + 1) =
    s.takenSince i T t + if s.taken i t = true then 1 else 0 := by
  rw [takenSince, takenSince, show t + 1 - (T + 1) = t - (T + 1) + 1 by omega, Nat.count_succ,
    show T + 1 + (t - (T + 1)) = t by omega]

theorem takenSince_le (hT : T < t) : s.takenSince i T t ≤ s.takenSince i T (t + 1) := by
  rw [takenSince_succ hT]
  omega

/-- The address follows the straight-line code. -/
theorem FetchMemory.addrO_stream (h : s.FetchMemory i m) (hT : Since i T t)
    (hm : Steady m mem T t) :
    s.addrO i t = streamPc mem ((i T).addr.extractLsb' 1 31) (s.takenSince i T t) := by
  obtain ⟨hb, hlt, hno⟩ := hT
  induction t, hlt using Nat.le_induction with
  | base => rw [addrO_branch hb, takenSince, Nat.sub_self, Nat.count_zero, streamPc]
  | succ t htt ih =>
    have hT : Since i T t := ⟨hb, htt, fun u h1 h2 => hno u h1 (by omega)⟩
    have hm' : Steady m mem T t := fun u h1 h2 => hm u h1 (by omega)
    have ih := ih hm' hT.none
    rw [h.addrO_succ hT hm' (hno t htt (by omega)), takenSince_succ htt, ih]
    split_ifs <;> rfl

/-- **The instruction stream.** However the memory delays its grants and its answers, and however
    the core stalls: the instruction that is driven after a branch is, at its own address, the one
    that comes in the straight-line code of the branch's target after those already taken. It is
    fetched after the branch: what the memory held before does not matter. -/
theorem delivers_stream (h : s.FetchMemory i m) (hT : Since i T t) (hm : Steady m mem T t)
    (hv : s.validO i t = true) :
    s.addrO i t = streamPc mem ((i T).addr.extractLsb' 1 31) (s.takenSince i T t) ∧
      InstructionAt mem (s.addrO i t) (s.outO i t) :=
  ⟨h.addrO_stream hT hm, h.instructionAt hT hm hv⟩

/-- A compressed instruction at 0x80, and one at 0x82 that ends in the next word. -/
def straddling (a : BitVec 30) : FetchedWord :=
  if a = 0x20 then (0x05134501, false) else if a = 0x21 then (0x15, false) else (0, true)

/-- A branch to 0x40, and in the next cycle one to 0x80. The answer to the cancelled request comes in
    cycle 2, those for the code in cycles 3 and 4; the core takes what it gets. -/
def rebranch : ℕ → PrefetchIn
  | 0 => ⟨true, true, 0x40, false, true, 0, false, false⟩
  | 1 => ⟨true, true, 0x80, false, true, 0, false, false⟩
  | 2 => ⟨true, false, 0, true, true, 0, true, true⟩
  | 3 => ⟨true, false, 0, true, true, 0x05134501, false, true⟩
  | 4 => ⟨true, false, 0, true, false, 0x15, false, true⟩
  | _ => ⟨true, false, 0, true, false, 0, false, false⟩

/-- Any state; all is 0. -/
def zero : PrefetchBuffer :=
  ⟨false, false, fun _ => false, fun _ => false, 0, 0, ⟨⟨fun _ => false, fun _ => (0, false)⟩, 0⟩⟩

theorem rebranch_memory : zero.FetchMemory rebranch fun _ => straddling := fun t' ht' => by
  match t', ht' with
  | 2, _ => exact ⟨0, ⟨by decide, by decide, by decide, by decide⟩, by decide⟩
  | 3, _ => exact ⟨1, ⟨by decide, by decide, by decide, by decide⟩, by decide⟩
  | 4, _ => exact ⟨3, ⟨by decide, by decide, by decide, by decide⟩, by decide⟩

/-- The instruction at 0x82 comes in cycle 4, after the one at 0x80 has been taken. -/
theorem delivers_stream_rebranch :
    zero.addrO rebranch 4 = streamPc straddling 0x40 1 ∧
      InstructionAt straddling (zero.addrO rebranch 4) (zero.outO rebranch 4) :=
  delivers_stream (T := 1) rebranch_memory ⟨rfl, by decide, fun u h1 h2 => by
    interval_cases u <;> rfl⟩ (fun _ _ _ => rfl) (by decide)

/-! ## The bus -/

/-- The request granted in cycle `u` was made before cycle `T`. -/
def MadeBefore (s : PrefetchBuffer) (i : ℕ → PrefetchIn) (T u : ℕ) : Prop :=
  ∃ v < T, v ≤ u ∧
    ∀ k, v ≤ k → k < u → (s.run i k).validReq (i k) = true ∧ (i k).instrGnt = false

/-- The requests of a run keep to the protocol. -/
structure RequestsKept (s : PrefetchBuffer) (i : ℕ → PrefetchIn) : Prop where
  /-- a request that is not granted stays, with its address -/
  stable : ∀ t, (s.run i t).validReq (i t) = true → (i t).instrGnt = false →
    (s.run i (t + 1)).validReq (i (t + 1)) = true ∧ s.address i (t + 1) = s.address i t
  two : ∀ t, (Port.pending (s.grants i) (responses i) t).length ≤ 2
  /-- the assertions of the FIFO: no word is pushed when it is full -/
  pushes : ∀ t, ((s.run i t).fifoIn (i t)).inValid = true →
    (s.run i t).fifo.entries.valid 2 = false
  /-- the buffer is busy while a request waits or is open -/
  busy : ∀ t, (s.run i t).busy (i t) = false ↔ (s.run i t).validReq (i t) = false ∧
    Port.pending (s.grants i) (responses i) t = []
  /-- the answer to a request of before a branch, open or waiting then, is not pushed -/
  cancelled : ∀ T u t, (i T).branch = true → s.MadeBefore i T u →
    Port.Answers (s.grants i) (responses i) u t → T < t →
      ((s.run i t).fifoIn (i t)).inValid = false
  /-- nor does one stay that comes in the branch's own cycle -/
  cleared : ∀ T, (i T).branch = true → ∀ j, (s.run i (T + 1)).fifo.entries.valid j = false

theorem stable_step {x y : PrefetchIn} (hv : s.validReq x = true) (hg : x.instrGnt = false) :
    (s.step x).validReq y = true ∧ (s.step x).addressWord y = s.addressWord x := by
  have hq : (s.step x).validReqQ = true := by simp [step, hv, hg]
  refine ⟨by simp [validReq, hq], ?_⟩
  rw [addressWord, addressWord, instrAddr, hq, if_pos rfl]
  cases hs : s.validReqQ with
  | true => simp [step, hs, instrAddr]
  | false =>
    have hn : s.validNewReq x = true := by simpa [validReq, hs] using hv
    simp [step, hs, hn, hg]

/-- A request that waits when a branch comes is cancelled, however long it waits. -/
theorem discards {u v k : ℕ} (hb : (i T).branch = true) (hv : v < T)
    (hw : ∀ k, v ≤ k → k < u → (s.run i k).validReq (i k) = true ∧ (i k).instrGnt = false)
    (hk : T ≤ k) (hku : k ≤ u) : (s.run i k).discardReqD (i k) = true := by
  have hheld : ∀ k, v < k → k ≤ u → (s.run i k).validReqQ = true := by
    intro k hvk hku
    obtain ⟨k, rfl⟩ : ∃ l, k = l + 1 := ⟨k - 1, by omega⟩
    obtain ⟨h1, h2⟩ := hw k (by omega) (by omega)
    simp [run_succ, step, h1, h2]
  induction k, hk using Nat.le_induction with
  | base => simp [discardReqD, hheld T hv hku, hb]
  | succ k hk ih =>
    have hq : (s.run i (k + 1)).discardReqQ = true := ih (by omega)
    simp [discardReqD, hheld (k + 1) (by omega) hku, hq]

/-- No request of before a branch is among those since. -/
theorem FetchMemory.not_madeBefore (h : s.FetchMemory i m) (hb : (i T).branch = true) (ht : T < t)
    {u : ℕ} (hu : u ∈ (s.books i t).recent) : ¬ s.MadeBefore i T u := by
  have hlast {k : ℕ} (hk : T ≤ k) (hd : (s.run i k).discardReqD (i k) = false) :
      ¬ s.MadeBefore i T k := by
    rintro ⟨v, hv, -, hw⟩
    exact absurd (hd.symm.trans (discards hb hv hw hk le_rfl)) Bool.false_ne_true
  induction t, ht using Nat.le_induction with
  | base =>
    rcases h.mem_recent_succ hu with ⟨hn, -⟩ | ⟨rfl, hd⟩
    · exact absurd (hn.symm.trans hb) Bool.false_ne_true
    · exact hlast le_rfl hd
  | succ t ht ih =>
    rcases h.mem_recent_succ hu with ⟨-, hu⟩ | ⟨rfl, hd⟩
    · exact ih hu
    · exact hlast (by omega) hd

/-- **The requests.** Whatever the memory and the core do, a request stays until it is granted, at
    most two are open, every answer finds its place in the FIFO, the buffer says that it is busy as
    long as an answer can come, and no answer to a request of before a branch reaches the FIFO. -/
theorem requests_kept (h : s.FetchMemory i m) : RequestsKept s i where
  stable _ := stable_step
  two t := by
    rw [← (h.books t).1]
    exact (h.tracks t).two'
  pushes t hin := by
    have := (h.tracks t).pushes_below (h.answers t) hin
    rw [(h.tracks t).words.valid_fin]
    exact decide_eq_false (by simp only [Fin.val_two]; omega)
  busy t := by
    have ho := (h.tracks t).outstanding'
    rw [← (h.books t).1, busy, ho, ho, ← List.length_eq_zero_iff]
    simp only [Bool.or_eq_false_iff, decide_eq_false_iff_not, Fin.val_zero, Fin.val_one]
    constructor
    · rintro ⟨⟨h0, -⟩, hv⟩
      exact ⟨hv, by omega⟩
    · rintro ⟨hv, h0⟩
      exact ⟨⟨by omega, by omega⟩, hv⟩
  cancelled T u t hb hu ha hT := by
    obtain ⟨u', l, hp, hu'⟩ := h.asked.head ha.2.2.1
    obtain rfl := hu'.unique_left ha
    rw [← (h.books t).1, Books.opened] at hp
    have hne : (s.books i t).cut ≠ [] := by
      intro hc
      rw [hc, List.nil_append] at hp
      refine h.not_madeBefore hb hT (List.mem_append_right _ ?_) hu
      rw [hp]
      exact List.mem_cons_self
    have hd := (h.tracks t).discard 0
    rw [Fin.val_zero, decide_eq_true (List.length_pos_of_ne_nil hne)] at hd
    simp [fifoIn, hd]
  cleared T hb j := by
    have hw := FetchFifo.step_holds_clear (s := (s.run i T).fifo) (x := (s.run i T).fifoIn (i T)) hb
    exact (hw.valid_fin j).trans (by simp)

theorem requests_kept_rebranch : RequestsKept zero rebranch := requests_kept rebranch_memory

/-! ## Progress -/

/-- The memory grants every request and answers every grant at some time, from cycle `T` on. -/
structure Responsive (s : PrefetchBuffer) (i : ℕ → PrefetchIn) (T : ℕ) : Prop where
  grants : ∀ t, T ≤ t → (s.run i t).validReq (i t) = true → ∃ u, t ≤ u ∧ s.grants i u = true
  answers : ∀ t, T ≤ t → Port.pending (s.grants i) (responses i) t ≠ [] →
    ∃ u, t ≤ u ∧ responses i u = true

/-- How many answers can come before an instruction is complete: those to cancelled requests, and
    two words. -/
def missing (s : PrefetchBuffer) (b : Books) : ℕ :=
  b.cut.length + (s.validReqQ && s.discardReqQ).toNat + (2 - b.full.length)

theorem FetchMemory.full_le (h : s.FetchMemory i m) (hv : s.validO i t = false) :
    ((s.books i t).full ++ (s.books i t).delivered (s.run i t) (i t)).length ≤ 1 := by
  by_contra hlen
  rw [not_le] at hlen
  refine absurd ((FetchFifo.outValid_iff (h.tracks t).words).2 ?_) (by simpa [validO] using hv)
  rw [(h.tracks t).fifo_words (h.answers t), List.length_map]
  obtain ⟨u, l, hl⟩ := List.exists_cons_of_length_pos (Nat.zero_lt_of_lt hlen)
  refine ⟨s.word i m u, by rw [hl]; rfl, le_trans ?_ hlen⟩
  unfold wordsOf
  split_ifs <;> omega

/-- An answer that completes no instruction brings the next one nearer, and nothing else sets it
    back. -/
theorem FetchMemory.missing_succ (h : s.FetchMemory i m) (hb : (i t).branch = false)
    (hv : s.validO i t = false) :
    (s.run i (t + 1)).missing (s.books i (t + 1)) + (responses i t).toNat =
      (s.run i t).missing (s.books i t) := by
  have ht := h.tracks t
  have ha := h.answers t
  have hle := h.full_le hv
  have hp : (s.run i t).fifo.popFifo ((s.run i t).fifoIn (i t)) = false := by
    simp only [FetchFifo.popFifo, show (s.run i t).fifo.outValid _ = false from hv, Bool.and_false,
      Bool.false_and]
  have hf : (s.books i (t + 1)).full =
      (s.books i t).full ++ (s.books i t).delivered (s.run i t) (i t) := by
    rw [PrefetchBuffer.books, Books.step, Books.take, hp, Bool.and_false,
      ← ht.grant_answer_full ha hb]
    rfl
  have hcut : (s.books i (t + 1)).cut.length = (s.books i t).cut.length +
      ((s.run i t).granted (i t) && (s.run i t).discardReqD (i t)).toNat -
        (i t).instrRvalid.toNat := by
    rw [PrefetchBuffer.books, Books.step_cut, hb]
    rfl
  have hD : (s.run i t).discardReqD (i t) =
      ((s.run i t).validReqQ && (s.run i t).discardReqQ) := by
    rw [discardReqD, hb, Bool.false_or]
  have hstale : ((s.run i (t + 1)).validReqQ && (s.run i (t + 1)).discardReqQ).toNat +
      ((s.run i t).granted (i t) && (s.run i t).discardReqD (i t)).toNat =
        ((s.run i t).validReqQ && (s.run i t).discardReqQ).toNat := by
    rw [← hD, run_succ]
    simp only [step, granted, validReq, discardReqD, hb]
    cases (s.run i t).validReqQ <;> cases (i t).instrGnt <;> cases (s.run i t).discardReqQ <;> simp
  have hdel : (i t).instrRvalid = true → (s.books i t).cut.length = 0 →
      ((s.books i t).delivered (s.run i t) (i t)).length = 1 ∧
        (s.run i t).discardReqD (i t) = false := by
    intro hr hc
    have ho := List.length_pos_of_ne_nil (ha.ne_nil hr)
    rw [Books.opened_length] at ho
    constructor
    · rw [Books.delivered, hr, ht.discard, hc]
      simp only [Fin.val_zero, lt_irrefl, decide_false, Bool.not_false, Bool.and_true, if_true,
        List.length_take]
      omega
    · rw [← Bool.not_eq_true]
      intro hd
      have := ht.recent_of_discard hd hb
      rw [Books.recent, List.append_eq_nil_iff] at this
      rw [this.2] at ho
      simp [hc] at ho
  rw [List.length_append] at hle
  rw [missing, missing, hf, hcut, List.length_append, responses]
  cases hr : (i t).instrRvalid with
  | false =>
    have hnone : (s.books i t).delivered (s.run i t) (i t) = [] := by simp [Books.delivered, hr]
    rw [hnone, List.length_nil, Bool.toNat_false]
    omega
  | true =>
    rw [Bool.toNat_true]
    rcases Nat.eq_zero_or_pos (s.books i t).cut.length with hc | hc
    · obtain ⟨h1, h2⟩ := hdel hr hc
      rw [h2, Bool.and_false, Bool.toNat_false] at hstale ⊢
      omega
    · have hnone : (s.books i t).delivered (s.run i t) (i t) = [] := by
        simp [Books.delivered, ht.discard, hc]
      rw [hnone, List.length_nil]
      omega

theorem FetchMemory.response_comes (h : s.FetchMemory i m) (hm : s.Responsive i T)
    (hreq : ∀ t, T ≤ t → (i t).req = true) (hT : T ≤ t) (hv : s.validO i t = false) :
    ∃ u, t ≤ u ∧ responses i u = true := by
  by_cases hp : Port.pending (s.grants i) (responses i) t = []
  · have hvr : (s.run i t).validReq (i t) = true := by
      have ht := h.tracks t
      have ho : (s.books i t).opened.length = 0 := by rw [(h.books t).1, hp]; rfl
      have hl := h.full_le hv
      rw [List.length_append] at hl
      have h1 : (s.run i t).fifo.entries.valid 1 = false := by
        rw [ht.words.valid_fin, List.length_map]
        exact decide_eq_false (by simp only [Fin.val_one]; omega)
      simp [validReq, validNewReq, fifoReady, FetchFifo.busy, ht.outstanding', ho, h1,
        hreq t hT]
    obtain ⟨u, htu, hu⟩ := hm.grants t hT hvr
    have hne : Port.pending (s.grants i) (responses i) (u + 1) ≠ [] := by
      rw [Port.pending_succ, hu]
      simp
    obtain ⟨v, huv, hv⟩ := hm.answers (u + 1) (by omega) hne
    exact ⟨v, by omega, hv⟩
  · exact hm.answers t hT hp

/-- **Progress.** As long as the core asks for instructions and does not branch, one is driven, if
    only the memory grants and answers at some time. -/
theorem offers (h : s.FetchMemory i m) (hm : s.Responsive i T)
    (hreq : ∀ t, T ≤ t → (i t).req = true) (hb : ∀ t, T ≤ t → (i t).branch = false) :
    ∃ t, T ≤ t ∧ s.validO i t = true := by
  by_contra hno
  have hv : ∀ t, T ≤ t → s.validO i t = false := fun t ht => by
    rw [← Bool.not_eq_true]
    exact fun h => hno ⟨t, ht, h⟩
  have hkey : ∀ n t, T ≤ t → (s.run i t).missing (s.books i t) = n → False := by
    intro n
    induction n using Nat.strong_induction_on with
    | _ n ih =>
      intro t ht hn
      obtain ⟨u, htu, hu⟩ := h.response_comes hm hreq ht (hv t ht)
      have hle : (s.run i u).missing (s.books i u) ≤ n := by
        rw [← hn]
        clear hu
        induction u, htu using Nat.le_induction with
        | base => exact le_rfl
        | succ u htu ihu =>
          have := h.missing_succ (hb u (by omega)) (hv u (by omega))
          omega
      have hs := h.missing_succ (hb u (by omega)) (hv u (by omega))
      rw [hu, Bool.toNat_true] at hs
      exact ih _ (by omega) (u + 1) (by omega) rfl
  exact hkey _ T le_rfl rfl

/-- The core branches and then takes nothing: three words fill the FIFO, and no more are asked
for. -/
def fillUp (t : ℕ) : PrefetchIn :=
  ⟨true, t == 0, 0x80, false, true, 0x13, false, decide (1 ≤ t ∧ t ≤ 3)⟩

theorem fillUp_memory : zero.FetchMemory fillUp fun _ _ => (0x13, false) := fun t' ht' => by
  obtain ⟨h1, h3⟩ : 1 ≤ t' ∧ t' ≤ 3 := of_decide_eq_true ht'
  refine ⟨t' - 1, ?_, rfl⟩
  interval_cases t' <;> exact ⟨by decide, by decide, by decide, by decide⟩

/-- The FIFO is full and nothing is open. -/
def Filled (s : PrefetchBuffer) : Prop :=
  s.validReqQ = false ∧ (∀ j, s.rdataOutstandingQ j = false) ∧ ∀ j, s.fifo.entries.valid j = true

theorem Filled.validReq (h : s.Filled) {x : PrefetchIn} (hb : x.branch = false) :
    s.validReq x = false := by
  obtain ⟨h1, h2, h3⟩ := h
  simp [PrefetchBuffer.validReq, validNewReq, fifoReady, FetchFifo.busy, h1, h2, h3, hb]

theorem fillUp_filled (ht : 4 ≤ t) : (zero.run fillUp t).Filled ∧
    Port.pending (zero.grants fillUp) (responses fillUp) t = [] := by
  induction t, ht using Nat.le_induction with
  | base => exact ⟨⟨by decide, by decide, by decide⟩, by decide⟩
  | succ t ht ih =>
    obtain ⟨hf, hp⟩ := ih
    have hb : (fillUp t).branch = false := by simp [fillUp]; omega
    have hr : (fillUp t).instrRvalid = false := by simp [fillUp]; omega
    have hv := hf.validReq hb
    have hg : zero.grants fillUp t = false := by simp [grants, granted, hv]
    refine ⟨?_, by rw [Port.pending_succ, hg, hp, responses, hr]; rfl⟩
    obtain ⟨h1, h2, h3⟩ := hf
    have hpop : ((zero.run fillUp t).fifo.popFifo ((zero.run fillUp t).fifoIn (fillUp t))) =
        false := by simp [FetchFifo.popFifo, fifoIn, fillUp]
    refine ⟨?_, fun j => ?_, fun j => ?_⟩
    · simp [run_succ, step, hv]
    · simp [run_succ, step, shifted, hr, rdataOutstandingN, granted, hv, h2]
    · simp only [run_succ, step, FetchFifo.step, ShiftFifo.step, hpop]
      simp [fifoIn, hb, ShiftFifo.pushed, ShiftFifo.validAt, h3, j.isLt]

theorem offers_fillUp : ∃ t, 1 ≤ t ∧ zero.validO fillUp t = true :=
  offers fillUp_memory
    ⟨fun t _ hv => ⟨t, le_rfl, by rw [grants, granted, hv]; rfl⟩, fun t _ hp => by
      rcases lt_or_ge 3 t with h | h
      · exact absurd (fillUp_filled h).2 hp
      · exact ⟨3, h, rfl⟩⟩
    (fun _ _ => rfl) fun t ht => by simp [fillUp]; omega

end PrefetchBuffer

end SentinelSoc
