/-
  The prefetch buffer (`ibex_prefetch_buffer.sv`): requests to the instruction memory ahead
  of the core, up to two of them open, with the fetch FIFO behind them.

  * `PrefetchBuffer.step`, `instrReq`, `instrAddr`, `fifoIn`: the code;
  * `Tracks`: which open requests a branch has cancelled, which words the others and the
    FIFO's entries are, and where fetching goes on;
  * `Tracks.step`: a cycle keeps this, whatever is granted, answered, taken or cancelled.
-/
import SentinelSoc.Fetch.Fifo
import SentinelSoc.Lib.Port
import SentinelSoc.Lib.Sync

namespace SentinelSoc

structure PrefetchBuffer where
  validReqQ : Bool
  discardReqQ : Bool
  rdataOutstandingQ : Fin 2 → Bool
  branchDiscardQ : Fin 2 → Bool
  storedAddrQ : BitVec 32
  fetchAddrQ : BitVec 32
  fifo : FetchFifo

/-- The inputs of one cycle: the core's, and those of the instruction memory. -/
structure PrefetchIn where
  req : Bool
  branch : Bool
  addr : BitVec 32
  ready : Bool
  instrGnt : Bool
  instrRdata : BitVec 32
  instrErr : Bool
  instrRvalid : Bool

namespace PrefetchBuffer

/-- Two requests can be open. -/
local instance numReqs : NeZero 2 := ⟨two_ne_zero⟩

variable (s : PrefetchBuffer) (x : PrefetchIn)

/-- The FIFO is not full, the requests already open included. -/
def fifoReady : Bool :=
  !((s.fifo.busy 0 || s.rdataOutstandingQ 1) && (s.fifo.busy 1 || s.rdataOutstandingQ 0))

def validNewReq : Bool := x.req && (s.fifoReady || x.branch) && !s.rdataOutstandingQ 1

/-- `instr_req_o` -/
def validReq : Bool := s.validReqQ || s.validNewReq x

/-- `busy_o` -/
def busy : Bool := s.rdataOutstandingQ 0 || s.rdataOutstandingQ 1 || s.validReq x

def granted : Bool := s.validReq x && x.instrGnt

def discardReqD : Bool := s.validReqQ && (x.branch || s.discardReqQ)

def instrAddr : BitVec 32 :=
  if s.validReqQ then s.storedAddrQ else if x.branch then x.addr else s.fetchAddrQ

/-- `instr_addr_o`, a word address -/
def addressWord : BitVec 30 := (s.instrAddr x).extractLsb' 2 30

def fetchAddrD : BitVec 32 :=
  (if x.branch then x.addr else s.fetchAddrQ.extractLsb' 2 30 ++ (0 : BitVec 2)) +
    if s.validNewReq x && !s.validReqQ then 4 else 0

/-- The request before this one is open. -/
def follows (j : Fin 2) : Bool := j == 0 || s.rdataOutstandingQ 0

def rdataOutstandingN (j : Fin 2) : Bool :=
  s.granted x && s.follows j || s.rdataOutstandingQ j

def branchDiscardN (j : Fin 2) : Bool :=
  s.granted x && s.discardReqD x && s.follows j || x.branch && s.rdataOutstandingQ j ||
    s.branchDiscardQ j

/-- A response shifts the open requests down. -/
def shifted (n : Fin 2 → Bool) (j : Fin 2) : Bool :=
  if x.instrRvalid then if j = 0 then n 1 else false else n j

def fifoIn : FifoIn where
  clear := x.branch
  inValid := x.instrRvalid && !s.branchDiscardQ 0
  inAddr := x.addr
  inRdata := x.instrRdata
  inErr := x.instrErr
  outReady := x.ready

def step : PrefetchBuffer where
  validReqQ := s.validReq x && !x.instrGnt
  discardReqQ := s.discardReqD x
  rdataOutstandingQ := shifted x (s.rdataOutstandingN x)
  branchDiscardQ := shifted x (s.branchDiscardN x)
  storedAddrQ :=
    if s.validNewReq x && !s.validReqQ && !x.instrGnt then s.instrAddr x else s.storedAddrQ
  fetchAddrQ :=
    if x.branch || s.validNewReq x && !s.validReqQ then s.fetchAddrD x else s.fetchAddrQ
  fifo := s.fifo.step (s.fifoIn x)

/-- The addresses and the words have no reset. -/
def reset : PrefetchBuffer :=
  { s with
    validReqQ := false
    discardReqQ := false
    rdataOutstandingQ := fun _ => false
    branchDiscardQ := fun _ => false
    fifo := { s.fifo with entries := { s.fifo.entries with valid := fun _ => false } } }

def run (s : PrefetchBuffer) (i : ℕ → PrefetchIn) : ℕ → PrefetchBuffer := Sync.run step s.reset i

variable {s : PrefetchBuffer} {x : PrefetchIn}

/-! ## The flags of the open requests -/

/-- A granted request is the last of two. -/
theorem outstanding_step {n : ℕ} (hq : ∀ j : Fin 2, s.rdataOutstandingQ j = decide ((j : ℕ) < n))
    (hg : s.granted x = true → n ≤ 1) (hr : x.instrRvalid = true → 1 ≤ n) (hn : n ≤ 2)
    (j : Fin 2) : (s.step x).rdataOutstandingQ j =
      decide ((j : ℕ) < n + (s.granted x).toNat - x.instrRvalid.toNat) := by
  have hN : ∀ j : Fin 2,
      s.rdataOutstandingN x j = decide ((j : ℕ) < n + (s.granted x).toNat) := by
    intro j
    rw [rdataOutstandingN, follows, hq, hq, Bool.eq_iff_iff]
    cases hgr : s.granted x
    · simp
    · have := hg hgr
      fin_cases j
      · simp
      · simp
        omega
  show shifted x (s.rdataOutstandingN x) j = _
  rw [shifted, hN, hN, Bool.eq_iff_iff]
  have hle : n + (s.granted x).toNat ≤ 2 := by
    cases hgr : s.granted x
    · exact hn
    · exact Nat.succ_le_succ (hg hgr)
  cases hrv : x.instrRvalid
  · simp
  · have := hr hrv
    fin_cases j
    · simp
    · simp
      omega

/-- A branch cancels all open requests, and a request that it finds waiting. -/
theorem discard_step {n δ : ℕ} (hq : ∀ j : Fin 2, s.rdataOutstandingQ j = decide ((j : ℕ) < n))
    (hd : ∀ j : Fin 2, s.branchDiscardQ j = decide ((j : ℕ) < δ)) (hδ : δ ≤ n)
    (hg : s.granted x = true → n ≤ 1) (hn : n ≤ 2)
    (hD : s.discardReqD x = true → x.branch = false → δ = n) (j : Fin 2) :
    (s.step x).branchDiscardQ j =
      decide ((j : ℕ) < (if x.branch then n else δ) +
        (s.granted x && s.discardReqD x).toNat - x.instrRvalid.toNat) := by
  have hN : ∀ j : Fin 2, s.branchDiscardN x j = decide ((j : ℕ) < (if x.branch then n else δ) +
      (s.granted x && s.discardReqD x).toNat) := by
    intro j
    rw [branchDiscardN, follows, hq, hq, hd, Bool.eq_iff_iff]
    cases hgD : s.granted x && s.discardReqD x
    · cases x.branch
      · simp
      · simp
        omega
    · rw [Bool.and_eq_true] at hgD
      have h1 := hg hgD.1
      have h2 := hD hgD.2
      cases hb : x.branch
      · have := h2 hb
        fin_cases j
        · simp
        · simp
          omega
      · fin_cases j
        · simp
        · simp
          omega
  show shifted x (s.branchDiscardN x) j = _
  rw [shifted, hN, hN, Bool.eq_iff_iff]
  have hle : (if x.branch then n else δ) + (s.granted x && s.discardReqD x).toNat ≤ 2 := by
    cases hgr : s.granted x
    · split_ifs <;> simp <;> omega
    · have := hg hgr
      have := Bool.toNat_le (s.discardReqD x)
      rw [Bool.true_and]
      split_ifs <;> omega
  cases x.instrRvalid
  · simp
  · fin_cases j
    · simp
    · simp
      omega

/-! ## What the buffer holds -/

/-- The books of the buffer. `cut` are the open requests that a branch has cancelled, `kept` the
    other open ones, and `full` the answered ones whose words are in the FIFO, each by the cycle
    of its grant. -/
structure Books where
  cut : List ℕ
  kept : List ℕ
  full : List ℕ

/-- The requests since the last branch. -/
def Books.recent (b : Books) : List ℕ := b.full ++ b.kept

/-- A waiting request that no branch has cancelled. -/
def waiting (s : PrefetchBuffer) : Bool := s.validReqQ && !s.discardReqQ

/-- The number `k` of the next request since the last branch. -/
def nextNumber (s : PrefetchBuffer) (b : Books) : ℕ := b.recent.length + s.waiting.toNat

/-- The state of the buffer in its books; `word` is the answer to the request of a cycle. -/
structure Tracks (s : PrefetchBuffer) (word : ℕ → FetchedWord) (b : Books) : Prop where
  outstanding : ∀ j : Fin 2,
    s.rdataOutstandingQ j = decide ((j : ℕ) < b.cut.length + b.kept.length)
  discard : ∀ j : Fin 2, s.branchDiscardQ j = decide ((j : ℕ) < b.cut.length)
  two : b.cut.length + b.kept.length ≤ 2
  held : s.validReqQ = true → b.cut.length + b.kept.length ≤ 1
  stale : s.validReqQ = true → s.discardReqQ = true → b.recent = []
  room : s.nextNumber b ≤ 3
  words : s.fifo.entries.Holds (b.full.map word)

/-- The addresses since a branch in cycle `T`; `address` is that of the request of a cycle. -/
structure Follows (s : PrefetchBuffer) (address : ℕ → BitVec 30) (T : ℕ) (b : Books) : Prop where
  recent : ∀ k u, b.recent[k]? = some u → T ≤ u ∧ address u = s.fifo.headWord + BitVec.ofNat 30 k
  stored : s.waiting = true →
    s.storedAddrQ.extractLsb' 2 30 = s.fifo.headWord + BitVec.ofNat 30 b.recent.length
  fetch : s.fetchAddrQ.extractLsb' 2 30 = s.fifo.headWord + BitVec.ofNat 30 (s.nextNumber b)

/-- The books after a cycle `t`: a branch cancels, a grant opens, a response answers the oldest open
    request, and the core takes words from the FIFO. -/
def Books.branch (b : Books) (x : PrefetchIn) : Books :=
  if x.branch then ⟨b.cut ++ b.kept, [], []⟩ else b

def Books.grant (b : Books) (s : PrefetchBuffer) (x : PrefetchIn) (t : ℕ) : Books where
  cut := b.cut ++ if s.granted x && s.discardReqD x then [t] else []
  kept := b.kept ++ if s.granted x && !s.discardReqD x then [t] else []
  full := b.full

def Books.answer (b : Books) (x : PrefetchIn) : Books :=
  if x.instrRvalid then
    match b.cut, b.kept with
    | _ :: cut, kept => ⟨cut, kept, b.full⟩
    | [], u :: kept => ⟨[], kept, b.full ++ [u]⟩
    | [], [] => b
  else b

def Books.take (b : Books) (s : PrefetchBuffer) (x : PrefetchIn) : Books :=
  { b with full := b.full.drop (!x.branch && s.fifo.popFifo (s.fifoIn x)).toNat }

def Books.step (b : Books) (s : PrefetchBuffer) (x : PrefetchIn) (t : ℕ) : Books :=
  (((b.branch x).grant s x t).answer x).take s x

variable {word : ℕ → FetchedWord} {address : ℕ → BitVec 30} {b : Books} {t T : ℕ}

/-! ## How the books go on -/

/-- The open requests, the oldest first. -/
def Books.opened (b : Books) : List ℕ := b.cut ++ b.kept

theorem Books.opened_length (b : Books) : b.opened.length = b.cut.length + b.kept.length := by
  rw [opened, List.length_append]

/-- A response is the word of the oldest open request. -/
def Answers (x : PrefetchIn) (word : ℕ → FetchedWord) (b : Books) : Prop :=
  x.instrRvalid = true →
    ∃ u, b.opened.head? = some u ∧ (x.instrRdata, x.instrErr) = word u

theorem Answers.ne_nil (ha : Answers x word b) (hr : x.instrRvalid = true) : b.opened ≠ [] := by
  obtain ⟨u, hu, -⟩ := ha hr
  exact List.ne_nil_of_mem (List.mem_of_mem_head? hu)

@[simp] theorem Books.branch_opened : (b.branch x).opened = b.opened := by
  unfold branch opened
  split_ifs <;> simp

@[simp] theorem Books.take_opened : (b.take s x).opened = b.opened := rfl

theorem Books.answer_opened :
    (b.answer x).opened = if x.instrRvalid then b.opened.tail else b.opened := by
  unfold answer opened
  split_ifs
  · rcases b with ⟨_ | ⟨c, cut⟩, _ | ⟨k, kept⟩, full⟩ <;> rfl
  · rfl

/-- An answer goes to a cancelled request, or its word to the FIFO. -/
theorem Books.answer_recent : (b.answer x).recent = b.recent := by
  unfold answer recent
  split_ifs
  · rcases b with ⟨_ | ⟨c, cut⟩, _ | ⟨k, kept⟩, full⟩ <;> simp
  · rfl

theorem Books.answer_cut :
    (b.answer x).cut.length = b.cut.length - x.instrRvalid.toNat := by
  unfold answer
  split_ifs with hr
  · rcases b with ⟨_ | ⟨c, cut⟩, _ | ⟨k, kept⟩, full⟩ <;> simp [hr]
  · simp [hr]

theorem Tracks.two' (h : Tracks s word b) : b.opened.length ≤ 2 := by
  rw [b.opened_length]
  exact h.two

/-- A request is granted when at most one is open. -/
theorem Tracks.validReq_le (h : Tracks s word b) (hv : s.validReq x = true) :
    b.opened.length ≤ 1 := by
  rw [b.opened_length]
  rw [validReq, Bool.or_eq_true] at hv
  rcases hv with hv | hv
  · exact h.held hv
  · rw [validNewReq, Bool.and_eq_true, Bool.not_eq_true', h.outstanding] at hv
    have := of_decide_eq_false hv.2
    simp only [Fin.val_one] at this
    omega

theorem Tracks.granted_le (h : Tracks s word b) (hg : s.granted x = true) :
    b.opened.length ≤ 1 := by
  rw [granted, Bool.and_eq_true] at hg
  exact h.validReq_le hg.1

/-- A cancelled request that waits keeps all others from being made. -/
theorem Tracks.recent_of_discard (h : Tracks s word b) (hD : s.discardReqD x = true)
    (hb : x.branch = false) : b.recent = [] := by
  rw [discardReqD, hb, Bool.false_or, Bool.and_eq_true] at hD
  exact h.stale hD.1 hD.2

theorem Books.grant_opened (h : s.discardReqD x = true → b.kept = []) :
    (b.grant s x t).opened = b.opened ++ if s.granted x then [t] else [] := by
  unfold grant opened
  cases hg : s.granted x <;> cases hD : s.discardReqD x
  · simp
  · simp
  · simp
  · simp [h hD]

/-- After a branch nothing is kept; without one a waiting request that is cancelled is alone. -/
theorem Tracks.kept_of_discard (h : Tracks s word b) (hD : s.discardReqD x = true) :
    (b.branch x).kept = [] := by
  unfold Books.branch
  cases hb : x.branch with
  | true => rfl
  | false =>
    have := h.recent_of_discard hD hb
    rw [Books.recent, List.append_eq_nil_iff] at this
    exact this.2

/-- The open requests after a cycle. -/
theorem Tracks.step_opened (h : Tracks s word b)
    (ha : Answers x word b) :
    (b.step s x t).opened = (if x.instrRvalid then b.opened.tail else b.opened) ++
      if s.granted x then [t] else [] := by
  unfold Books.step
  rw [Books.take_opened, Books.answer_opened, Books.grant_opened h.kept_of_discard,
    Books.branch_opened]
  split_ifs with hrv hg
  · rw [List.tail_append_of_ne_nil (ha.ne_nil hrv)]
  · simp
  · rfl
  · rfl

/-- The request whose word goes to the FIFO. -/
def Books.delivered (b : Books) (s : PrefetchBuffer) (x : PrefetchIn) : List ℕ :=
  if x.instrRvalid && !s.branchDiscardQ 0 then b.kept.take 1 else []

theorem Tracks.grant_answer_full (h : Tracks s word b)
    (ha : Answers x word b) (hb : x.branch = false) :
    (((b.branch x).grant s x t).answer x).full = b.full ++ b.delivered s x := by
  have hbr : b.branch x = b := by simp [Books.branch, hb]
  rw [hbr, Books.answer, Books.delivered, h.discard]
  cases hrv : x.instrRvalid with
  | false => simp [Books.grant]
  | true =>
    have ho := ha.ne_nil hrv
    rcases b with ⟨_ | ⟨c, cut⟩, _ | ⟨k, kept⟩, full⟩
    · exact absurd rfl ho
    · have hD : s.discardReqD x = false := by
        rw [← Bool.not_eq_true]
        intro hD
        simpa [Books.branch, hb] using h.kept_of_discard hD
      simp [Books.grant, hD]
    · simp [Books.grant]
    · simp [Books.grant]

/-- The words at the output of the FIFO. -/
theorem Tracks.fifo_words (h : Tracks s word b)
    (ha : Answers x word b) :
    FetchFifo.words (s.fifoIn x) (b.full.map word) = (b.full ++ b.delivered s x).map word := by
  rw [FetchFifo.words, List.map_append]
  congr 1
  unfold ShiftFifo.incoming Books.delivered fifoIn
  dsimp only
  cases hrv : x.instrRvalid with
  | false => simp
  | true =>
    obtain ⟨u, hu, hw⟩ := ha hrv
    rw [h.discard]
    rcases b with ⟨_ | ⟨c, cut⟩, _ | ⟨k, kept⟩, full⟩
    · simp [Books.opened] at hu
    · obtain rfl : k = u := by simpa [Books.opened] using hu
      simp [hw]
    · simp
    · simp

theorem Tracks.pop_le (h : Tracks s word b)
    (ha : Answers x word b) :
    (s.fifo.popFifo (s.fifoIn x)).toNat ≤ (b.full ++ b.delivered s x).length := by
  cases hp : s.fifo.popFifo (s.fifoIn x) with
  | false => exact Nat.zero_le _
  | true =>
    simp only [FetchFifo.popFifo, Bool.and_eq_true] at hp
    obtain ⟨lo, hlo, -⟩ := (FetchFifo.outValid_iff h.words).1 hp.1.2
    rw [h.fifo_words ha] at hlo
    rw [← List.length_map (f := word)]
    exact List.length_pos_of_mem (List.mem_of_mem_head? hlo)

/-- The requests since the last branch, after a cycle without one. -/
theorem Tracks.step_recent (h : Tracks s word b)
    (ha : Answers x word b)
    (hb : x.branch = false) :
    (b.step s x t).recent =
      (b.recent ++ if s.granted x && !s.discardReqD x then [t] else []).drop
        (s.fifo.popFifo (s.fifoIn x)).toNat := by
  have hbr : b.branch x = b := by simp [Books.branch, hb]
  have hrec : (((b.branch x).grant s x t).answer x).recent =
      b.recent ++ if s.granted x && !s.discardReqD x then [t] else [] := by
    rw [Books.answer_recent, hbr, Books.grant, Books.recent, Books.recent, List.append_assoc]
  rw [← hrec, Books.step, Books.take, hb, Books.recent, Books.recent]
  dsimp only [Bool.not_false, Bool.true_and]
  rw [List.drop_append_of_le_length]
  · rfl
  · rw [h.grant_answer_full ha hb]
    exact h.pop_le ha

theorem step_recent_branch (hb : x.branch = true) : (b.step s x t).recent =
    if s.granted x && !s.discardReqD x then [t] else [] := by
  unfold Books.step Books.take
  rw [hb]
  simp only [Bool.not_true, Bool.false_and, Bool.toNat_false, List.drop_zero]
  rw [Books.answer_recent]
  simp [Books.grant, Books.branch, hb, Books.recent]

/-! ## A cycle -/

theorem Books.cut_le (b : Books) : b.cut.length ≤ b.opened.length := by
  rw [b.opened_length]
  omega

theorem Tracks.outstanding' (h : Tracks s word b) (j : Fin 2) :
    s.rdataOutstandingQ j = decide ((j : ℕ) < b.opened.length) := by
  rw [h.outstanding, b.opened_length]

/-- The cancelled requests after a cycle. -/
theorem Books.step_cut : (b.step s x t).cut.length =
    (if x.branch then b.opened.length else b.cut.length) +
      (s.granted x && s.discardReqD x).toNat - x.instrRvalid.toNat := by
  have hl : (b.step s x t).cut.length = (((b.branch x).grant s x t).answer x).cut.length := rfl
  rw [hl, answer_cut, grant, branch, List.length_append]
  congr 2
  · split_ifs <;> simp [opened]
  · cases s.granted x && s.discardReqD x <;> rfl

/-- A new request is made when there is room for its word. -/
theorem Tracks.room_of_new (h : Tracks s word b) (hn : s.validNewReq x = true)
    (hb : x.branch = false) : b.recent.length ≤ 2 := by
  rw [validNewReq, hb, Bool.or_false, Bool.and_eq_true, Bool.and_eq_true, fifoReady,
    Bool.not_eq_true', Bool.not_eq_true'] at hn
  obtain ⟨⟨-, hf⟩, h1⟩ := hn
  rw [h1, Bool.or_false, Bool.and_eq_false_iff, Bool.or_eq_false_iff] at hf
  rw [h.outstanding] at h1 hf
  simp only [FetchFifo.busy, h.words.valid_fin, List.length_map, decide_eq_false_iff_not] at h1 hf
  simp only [Fin.succ_zero_eq_one, Fin.succ_one_eq_two, Fin.val_zero, Fin.val_one, Fin.val_two]
    at h1 hf
  have h2 := h.held
  have h3 := h.room
  rw [nextNumber, Books.recent, List.length_append] at h3
  rw [Books.recent, List.length_append]
  omega

/-- A request is new, or it waits already. -/
theorem waiting_step : (s.step x).waiting = (s.validReq x && !x.instrGnt && !s.discardReqD x) := rfl

theorem Tracks.recent_length_step (h : Tracks s word b) (ha : Answers x word b) :
    (b.step s x t).recent.length = (if x.branch then 0 else b.recent.length) +
      (s.granted x && !s.discardReqD x).toNat -
        (!x.branch && s.fifo.popFifo (s.fifoIn x)).toNat := by
  cases hb : x.branch with
  | true =>
    rw [step_recent_branch hb]
    cases s.granted x && !s.discardReqD x <;> rfl
  | false =>
    rw [h.step_recent ha hb, List.length_drop, List.length_append]
    cases s.granted x && !s.discardReqD x <;> rfl

/-- What is made in a cycle and not cancelled is granted in it or waits. -/
theorem made_step : (s.granted x && !s.discardReqD x).toNat + (s.step x).waiting.toNat =
    (s.validReq x && !s.discardReqD x).toNat := by
  rw [waiting_step, granted]
  cases s.validReq x <;> cases x.instrGnt <;> cases s.discardReqD x <;> rfl

/-- The requests that are made and not cancelled. -/
theorem made_eq : (if x.branch then 0 else b.recent.length) +
      (s.validReq x && !s.discardReqD x).toNat =
    (if x.branch then 0 else s.nextNumber b) + (s.validNewReq x && !s.validReqQ).toNat := by
  rw [nextNumber, validReq, discardReqD, waiting]
  cases x.branch <;> cases s.validReqQ <;> cases s.discardReqQ <;> cases s.validNewReq x <;> simp

theorem Tracks.pop_le_recent (h : Tracks s word b) (ha : Answers x word b) :
    (s.fifo.popFifo (s.fifoIn x)).toNat ≤ b.recent.length := by
  refine (h.pop_le ha).trans ?_
  rw [List.length_append, Books.recent, List.length_append, Books.delivered]
  split_ifs
  · rw [List.length_take]
    omega
  · simp

/-- The number of the next request. -/
theorem Tracks.nextNumber_step (h : Tracks s word b) (ha : Answers x word b) :
    (s.step x).nextNumber (b.step s x t) + (!x.branch && s.fifo.popFifo (s.fifoIn x)).toNat =
      (if x.branch then 0 else s.nextNumber b) + (s.validNewReq x && !s.validReqQ).toNat := by
  rw [← made_eq, ← made_step, nextNumber, h.recent_length_step ha]
  have hp := h.pop_le_recent ha
  cases hb : x.branch
  · simp only [Bool.not_false, Bool.true_and, Bool.false_eq_true, if_false]
    omega
  · simp

theorem Tracks.room_step (h : Tracks s word b) (ha : Answers x word b) :
    (s.step x).nextNumber (b.step s x t) ≤ 3 := by
  have hs := h.nextNumber_step (t := t) ha
  have h1 := h.room
  cases hb : x.branch with
  | true =>
    have := Bool.toNat_le (s.validNewReq x && !s.validReqQ)
    simp only [hb, if_true] at hs
    omega
  | false =>
    cases hn : s.validNewReq x && !s.validReqQ with
    | false =>
      simp only [hb, hn, Bool.false_eq_true, if_false, Bool.toNat_false] at hs
      omega
    | true =>
      simp only [hb, hn, Bool.false_eq_true, if_false, Bool.toNat_true] at hs
      rw [Bool.and_eq_true, Bool.not_eq_true'] at hn
      have hr := h.room_of_new hn.1 hb
      have hw : s.nextNumber b = b.recent.length := by simp [nextNumber, waiting, hn.2]
      omega

theorem Books.step_full_branch (ha : Answers x word b) (hb : x.branch = true) :
    (b.step s x t).full = [] := by
  have hg : ((b.branch x).grant s x t).full = [] := by simp [branch, grant, hb]
  have hc : x.instrRvalid = true → ((b.branch x).grant s x t).cut ≠ [] := fun hr => by
    have := ha.ne_nil hr
    simp only [branch, grant, hb, if_true]
    exact List.append_ne_nil_of_left_ne_nil this _
  have hs : (((b.branch x).grant s x t).answer x).full = [] := by
    generalize (b.branch x).grant s x t = b' at hg hc
    unfold answer
    split_ifs with hr
    · rcases b' with ⟨_ | ⟨c, cut⟩, kept, full⟩
      · exact absurd rfl (hc hr)
      · exact hg
    · exact hg
  rw [Books.step, Books.take, hs]
  exact List.drop_nil

/-- No word is pushed into a full FIFO. -/
theorem Tracks.pushes_below (h : Tracks s word b) (ha : Answers x word b)
    (hin : (s.fifoIn x).inValid = true) : (b.full.map word).length < 3 := by
  simp only [fifoIn, Bool.and_eq_true, Bool.not_eq_true', h.discard, decide_eq_false_iff_not] at hin
  have ho := List.length_pos_of_ne_nil (ha.ne_nil hin.1)
  have h3 := h.room
  rw [b.opened_length] at ho
  rw [nextNumber, Books.recent, List.length_append] at h3
  rw [List.length_map]
  have := hin.2
  simp only [Fin.val_zero] at this
  omega

/-- **A cycle of the buffer.** The books stay true, whatever happens in the cycle. -/
theorem Tracks.step (h : Tracks s word b) (ha : Answers x word b) :
    Tracks (s.step x) word (b.step s x t) where
  outstanding j := by
    have ho : (b.step s x t).opened.length =
        b.opened.length + (s.granted x).toNat - x.instrRvalid.toNat := by
      rw [h.step_opened ha]
      have := fun hr => List.length_pos_of_ne_nil (ha.ne_nil hr)
      cases hr : x.instrRvalid <;> cases hg : s.granted x <;> simp [hr] at this ⊢
      omega
    rw [← Books.opened_length, ho]
    exact outstanding_step h.outstanding' h.granted_le
      (fun hr => List.length_pos_of_ne_nil (ha.ne_nil hr)) h.two' j
  discard j := by
    rw [Books.step_cut]
    refine discard_step h.outstanding' h.discard b.cut_le h.granted_le h.two' (fun hD hb => ?_) j
    have := h.recent_of_discard hD hb
    rw [Books.recent, List.append_eq_nil_iff] at this
    rw [b.opened_length, this.2]
    rfl
  two := by
    rw [← Books.opened_length, h.step_opened ha, List.length_append]
    have h1 := h.granted_le (x := x)
    have h2 := h.two'
    cases hr : x.instrRvalid <;> cases hg : s.granted x <;> simp [hg] at h1 ⊢ <;> omega
  held hv := by
    rw [← Books.opened_length, h.step_opened ha]
    simp only [PrefetchBuffer.step, Bool.and_eq_true, Bool.not_eq_true'] at hv
    have hg : s.granted x = false := by simp [granted, hv]
    have := h.validReq_le hv.1
    rw [hg, if_neg Bool.false_ne_true, List.append_nil]
    split_ifs
    · rw [List.length_tail]
      omega
    · exact this
  stale hv hD := by
    simp only [PrefetchBuffer.step, Bool.and_eq_true, Bool.not_eq_true'] at hv hD
    have hg : s.granted x = false := by simp [granted, hv]
    cases hb : x.branch with
    | true => rw [step_recent_branch hb, hg]; rfl
    | false => rw [h.step_recent ha hb, hg, h.recent_of_discard hD hb]; simp
  room := h.room_step ha
  words := by
    cases hb : x.branch with
    | true =>
      rw [Books.step_full_branch ha hb]
      exact FetchFifo.step_holds_clear hb
    | false =>
      have hf : (b.step s x t).full.map word =
          (FetchFifo.words (s.fifoIn x) (b.full.map word)).drop
            (s.fifo.popFifo (s.fifoIn x)).toNat := by
        rw [h.fifo_words ha, ← h.grant_answer_full (t := t) ha hb, ← List.map_drop, Books.step,
          Books.take, hb]
        rfl
      rw [hf]
      exact FetchFifo.step_holds h.words hb (h.pushes_below ha)

/-! ## The addresses -/

theorem word_add_four (a : BitVec 32) :
    (a + 4#32).extractLsb' 2 30 = a.extractLsb' 2 30 + 1#30 := by
  apply BitVec.eq_of_toNat_eq
  simp only [BitVec.extractLsb'_toNat, BitVec.toNat_add, Nat.shiftRight_eq_div_pow]
  simp
  omega

/-- The address of fetching goes on by a word with every new request, from the target of a
    branch. -/
theorem fetch_step : (s.step x).fetchAddrQ.extractLsb' 2 30 =
    (if x.branch then x.addr.extractLsb' 2 30 else s.fetchAddrQ.extractLsb' 2 30) +
      BitVec.ofNat 30 (s.validNewReq x && !s.validReqQ).toNat := by
  have hmask : ∀ a : BitVec 30, (a ++ 0#2).extractLsb' 2 30 = a := fun a =>
    BitVec.extractLsb'_append_eq_left
  simp only [step, fetchAddrD]
  cases x.branch <;> cases s.validNewReq x && !s.validReqQ <;>
    simp [word_add_four, hmask]

theorem headWord_clear (hb : x.branch = true) :
    (s.step x).fifo.headWord = x.addr.extractLsb' 2 30 := by
  rw [FetchFifo.headWord]
  show BitVec.extractLsb' 1 30 (s.fifo.step (s.fifoIn x)).instrAddrQ = _
  rw [FetchFifo.step_instrAddrQ_clear hb]
  ext k hk
  simp [fifoIn, show 1 + k < 31 by omega, ← Nat.add_assoc]

/-- The request of a cycle, if it is not cancelled: the target of a branch, or the next word. -/
theorem Follows.address_of_made (h : Follows s address T b)
    (hD : s.discardReqD x = false) (hb : x.branch = false) :
    s.addressWord x = s.fifo.headWord + BitVec.ofNat 30 b.recent.length := by
  rw [discardReqD, hb, Bool.false_or] at hD
  rw [addressWord, instrAddr, hb]
  cases hq : s.validReqQ with
  | true =>
    have hd : s.discardReqQ = false := by simpa [hq] using hD
    simpa using h.stored (by simp [waiting, hq, hd])
  | false =>
    have := h.fetch
    simpa [nextNumber, waiting, hq] using this

theorem address_of_branch (hD : s.discardReqD x = false)
    (hb : x.branch = true) : s.addressWord x = x.addr.extractLsb' 2 30 := by
  have hq : s.validReqQ = false := by simpa [discardReqD, hb] using hD
  simp [addressWord, instrAddr, hq, hb]

/-- A branch starts the addresses anew. -/
theorem Tracks.follows_branch (h : Tracks s word b) (ha : Answers x word b)
    (hg : s.granted x = true → address t = s.addressWord x) (hb : x.branch = true) :
    Follows (s.step x) address t (b.step s x t) where
  recent k u hu := by
    rw [step_recent_branch hb] at hu
    split_ifs at hu with hgD
    · obtain ⟨rfl, rfl⟩ : k = 0 ∧ t = u := by simpa [List.getElem?_singleton] using hu
      rw [Bool.and_eq_true, Bool.not_eq_true'] at hgD
      rw [hg hgD.1, address_of_branch hgD.2 hb, headWord_clear hb]
      exact ⟨le_rfl, by simp⟩
    · simp at hu
  stored hw := by
    rw [waiting_step] at hw
    simp only [Bool.and_eq_true, Bool.not_eq_true'] at hw
    obtain ⟨⟨hv, hgn⟩, hD⟩ := hw
    have hgr : s.granted x = false := by simp [granted, hgn]
    have hq : s.validReqQ = false := by simpa [discardReqD, hb] using hD
    have hn : s.validNewReq x = true := by simpa [validReq, hq] using hv
    rw [headWord_clear hb, step_recent_branch hb, hgr, ← address_of_branch hD hb]
    simp [PrefetchBuffer.step, hn, hq, hgn, addressWord]
  fetch := by
    have := h.nextNumber_step (t := t) ha
    simp only [hb, Bool.not_true, Bool.false_and, Bool.toNat_false, if_true, Nat.add_zero,
      Nat.zero_add] at this
    rw [fetch_step, headWord_clear hb, this, hb, if_pos rfl]

theorem Tracks.headWord_step (h : Tracks s word b) (hb : x.branch = false) :
    (s.step x).fifo.headWord =
      s.fifo.headWord + BitVec.ofNat 30 (s.fifo.popFifo (s.fifoIn x)).toNat :=
  FetchFifo.step_headWord h.words hb

/-- Without a branch they go on. -/
theorem Follows.step (h : Follows s address T b) (hs : Tracks s word b) (ha : Answers x word b)
    (hg : s.granted x = true → address t = s.addressWord x) (hT : T ≤ t)
    (hb : x.branch = false) : Follows (s.step x) address T (b.step s x t) where
  recent k u hu := by
    rw [hs.step_recent ha hb, List.getElem?_drop] at hu
    rw [hs.headWord_step hb, BitVec.add_assoc, ← BitVec.ofNat_add]
    generalize (s.fifo.popFifo (s.fifoIn x)).toNat + k = j at hu ⊢
    rcases lt_or_ge j b.recent.length with hj | hj
    · rw [List.getElem?_append_left hj] at hu
      exact h.recent j u hu
    · rw [List.getElem?_append_right hj] at hu
      split_ifs at hu with hgD
      · obtain ⟨hj0, rfl⟩ : j - b.recent.length = 0 ∧ t = u := by
          simpa [List.getElem?_singleton] using hu
        rw [Bool.and_eq_true, Bool.not_eq_true'] at hgD
        rw [hg hgD.1, h.address_of_made hgD.2 hb, show j = b.recent.length by omega]
        exact ⟨hT, rfl⟩
      · simp at hu
  stored hw := by
    rw [waiting_step] at hw
    simp only [Bool.and_eq_true, Bool.not_eq_true'] at hw
    obtain ⟨⟨hv, hgn⟩, hD⟩ := hw
    have hgr : s.granted x = false := by simp [granted, hgn]
    have hlen := hs.recent_length_step (t := t) ha
    have hp := hs.pop_le_recent ha
    simp only [hb, hgr, Bool.false_eq_true, if_false, Bool.false_and, Bool.toNat_false,
      Nat.add_zero, Bool.not_false, Bool.true_and] at hlen
    rw [hs.headWord_step hb, BitVec.add_assoc, ← BitVec.ofNat_add, hlen, Nat.add_sub_cancel' hp,
      ← h.address_of_made hD hb]
    cases hq : s.validReqQ with
    | true => simp [PrefetchBuffer.step, hq, addressWord, instrAddr]
    | false =>
      have hn : s.validNewReq x = true := by simpa [validReq, hq] using hv
      simp [PrefetchBuffer.step, hq, hn, hgn, addressWord]
  fetch := by
    have hn := hs.nextNumber_step (t := t) ha
    simp only [hb, Bool.not_false, Bool.true_and, Bool.false_eq_true, if_false] at hn
    rw [fetch_step, hb, if_neg Bool.false_ne_true, h.fetch, hs.headWord_step hb, BitVec.add_assoc,
      ← BitVec.ofNat_add, ← hn, BitVec.add_assoc, ← BitVec.ofNat_add, Nat.add_comm]

end PrefetchBuffer

end SentinelSoc
