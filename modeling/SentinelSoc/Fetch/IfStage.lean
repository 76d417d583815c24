/-
  The IF stage (`ibex_if_stage.sv`, without branch prediction, dummy instructions and a cache):
  the prefetch buffer, and behind it the compressed decoder.

  * `IfStage.step`, `fetchReady`, `given`: the code;
  * `codeAt`, `LegalAt`: the program in memory, legal and readable;
  * `Holding`: what was given so far, and what the decoder still has to give;
  * `delivers_code`: after a jump the ID stage is given what the code stands for.
-/
import SentinelSoc.Fetch.CompressedRuns
import SentinelSoc.Fetch.Stream

namespace SentinelSoc

structure IfStage where
  prefetch : PrefetchBuffer
  decoder : CompressedDecoder

/-- The inputs of one cycle: the core's, and those of the instruction memory. -/
structure IfStageIn where
  req : Bool
  pcSetI : Bool
  fetchAddrN : BitVec 32
  idInReadyI : Bool
  instrGnt : Bool
  instrRdata : BitVec 32
  instrErr : Bool
  instrRvalid : Bool

/-- What is registered for the ID stage, of the instruction itself. -/
structure IdInstr where
  instrRdataIdO : BitVec 32
  illegalCInsnIdO : Bool
  instrFetchErrO : Bool
  deriving DecidableEq

def IfStageIn.prefetchIn (x : IfStageIn) (ready : Bool) : PrefetchIn :=
  ⟨x.req, x.pcSetI, x.fetchAddrN, ready, x.instrGnt, x.instrRdata, x.instrErr, x.instrRvalid⟩

namespace IfStage

variable (s : IfStage) (x : IfStageIn)

/-! ## The code -/

/-- The outputs of the prefetch buffer do not depend on `ready_i`. -/
def fifoIn : FifoIn := s.prefetch.fifoIn (x.prefetchIn false)

def fetchValid : Bool := s.prefetch.fifo.outValid (s.fifoIn x)

/-- `fetch_rdata`, `fetch_err` and `fetch_err_plus2` -/
def fetchOut : FetchOut := s.prefetch.fifo.out (s.fifoIn x)

/-- The inputs `valid_i` and `id_in_ready_i` of the decoder. -/
def validI : Bool := s.fetchValid x && !(s.fetchOut x).err

def idReady : Bool := x.idInReadyI && !x.pcSetI

def decompressed : DecompressedInstr :=
  s.decoder.decompress (s.fetchOut x).rdata (s.validI x) (idReady x)

def instrGetsExpanded : InstrExp :=
  s.decoder.getsExpandedO (s.fetchOut x).rdata (s.validI x) (idReady x)

def fetchReady : Bool := x.idInReadyI && s.instrGetsExpanded x != .expanded

/-- `instr_new_id_d`, with what is written then -/
def given : Option IdInstr :=
  if s.fetchValid x && idReady x then
    some ⟨(s.decompressed x).instr, (s.decompressed x).illegal, (s.fetchOut x).err⟩
  else none

def step : IfStage where
  prefetch := s.prefetch.step (x.prefetchIn (s.fetchReady x))
  decoder := (s.decompressed x).next

def reset : IfStage := ⟨s.prefetch.reset, { s.decoder with stateQ := .idle }⟩

variable (i : ℕ → IfStageIn)

def run : ℕ → IfStage := Sync.run step s.reset i

/-- What the prefetch buffer sees. -/
def fetchIn (t : ℕ) : PrefetchIn := (i t).prefetchIn ((s.run i t).fetchReady (i t))

/-- What the ID stage is given in `k` cycles after the cycle `T`. -/
def delivered (T : ℕ) : ℕ → List IdInstr
  | 0 => []
  | k + 1 => delivered T k ++ ((s.run i (T + 1 + k)).given (i (T + 1 + k))).toList

end IfStage

/-! ## Code in memory -/

open CompressedDecoder

/-- The 32 bits at a half-word address. -/
def codeAt (mem : BitVec 30 → FetchedWord) (pc : BitVec 31) : BitVec 32 :=
  if pc.getLsbD 0 then
    (mem (pc.extractLsb' 1 30 + 1)).1.extractLsb' 0 16 ++
      (mem (pc.extractLsb' 1 30)).1.extractLsb' 16 16
  else (mem (pc.extractLsb' 1 30)).1

/-- The instruction goes on in the next word. -/
def Crosses (mem : BitVec 30 → FetchedWord) (pc : BitVec 31) : Prop :=
  pc.getLsbD 0 = true ∧ (codeAt mem pc).extractLsb 1 0 = 3

/-- An instruction that the core accepts, in words that can be read. -/
structure LegalAt (mem : BitVec 30 → FetchedWord) (pc : BitVec 31) : Prop where
  lower : (mem (pc.extractLsb' 1 30)).2 = false
  upper : Crosses mem pc → (mem (pc.extractLsb' 1 30 + 1)).2 = false
  legal : Legal (codeAt mem pc)

/-- The instructions of the code at an address. -/
def instrsAt (mem : BitVec 30 → FetchedWord) (pc : BitVec 31) : List (BitVec 32) :=
  instrs (codeAt mem pc)

variable {mem : BitVec 30 → FetchedWord}

theorem codeAt_upper {lo hi : BitVec 32} {m l : ℕ} (hl : l ≤ m) (hm : m ≤ 15) :
    (hi.extractLsb' 0 16 ++ lo.extractLsb' 16 16).extractLsb m l =
      lo.extractLsb' (16 + l) (m - l + 1) := by
  apply BitVec.eq_of_getLsbD_eq
  intro i hi
  simp only [BitVec.getLsbD_extractLsb, BitVec.getLsbD_append, BitVec.getLsbD_extractLsb']
  simp [show l + i < 16 by omega, Nat.add_assoc]

theorem InstructionAt.sameInstr {pc : BitVec 31} {o : FetchOut} (h : InstructionAt mem pc o)
    (hl : LegalAt mem pc) : o.err = false ∧ SameInstr (codeAt mem pc) o.rdata := by
  have hlo := hl.lower
  have hhi := hl.upper
  unfold InstructionAt at h
  unfold Crosses codeAt at hhi
  unfold codeAt
  revert h hlo hhi
  generalize mem (pc.extractLsb' 1 30) = lo
  generalize mem (pc.extractLsb' 1 30 + 1) = hi
  intro h hlo hhi
  cases hu : pc.getLsbD 0 with
  | false =>
    rw [hu] at h
    obtain ⟨hr, he⟩ := h
    exact ⟨he.trans hlo, .inl hr⟩
  | true =>
    rw [hu] at h hhi
    rw [if_pos rfl] at hhi ⊢
    have hlow : (hi.1.extractLsb' 0 16 ++ lo.1.extractLsb' 16 16).extractLsb 1 0 =
        lo.1.extractLsb' 16 2 := codeAt_upper (by omega) (by omega)
    rw [hlow] at hhi
    cases hc : lo.isCompressed true with
    | false =>
      simp only [Instruction, hc] at h
      have h3 : lo.1.extractLsb' 16 2 = 3 := by simpa [FetchedWord.isCompressed, hlo] using hc
      exact ⟨by rw [h.2.1, hlo, hhi ⟨rfl, h3⟩]; rfl, .inl h.1⟩
    | true =>
      simp only [Instruction, hc] at h
      have h3 : lo.1.extractLsb' 16 2 ≠ 3 := by
        simp only [FetchedWord.isCompressed, Bool.and_eq_true, bne_iff_ne] at hc
        exact hc.1
      have hhalf : (hi.1.extractLsb' 0 16 ++ lo.1.extractLsb' 16 16).extractLsb 15 0 =
          lo.1.extractLsb' 16 16 := codeAt_upper (by omega) (by omega)
      exact ⟨h.2, .inr ⟨by rw [hlow]; exact h3, by rw [hhalf]; exact h.1⟩⟩

/-! ## Runs -/

namespace IfStage

open PrefetchBuffer

variable {s : IfStage} {i : ℕ → IfStageIn} {m : ℕ → BitVec 30 → FetchedWord} {T t : ℕ}

theorem run_prefetch (t : ℕ) : (s.run i t).prefetch = s.prefetch.run (s.fetchIn i) t := by
  induction t with
  | zero => rfl
  | succ t ih =>
    rw [PrefetchBuffer.run_succ, ← ih]
    rfl

theorem fetchValid_eq (t : ℕ) :
    (s.run i t).fetchValid (i t) = s.prefetch.validO (s.fetchIn i) t := by
  rw [fetchValid, fifoIn, run_prefetch]
  rfl

theorem fetchOut_eq (t : ℕ) : (s.run i t).fetchOut (i t) = s.prefetch.outO (s.fetchIn i) t := by
  rw [fetchOut, fifoIn, run_prefetch]
  rfl

theorem taken_eq (t : ℕ) : s.prefetch.taken (s.fetchIn i) t =
    ((s.run i t).fetchReady (i t) && (s.run i t).fetchValid (i t)) := by
  rw [taken, fetchValid_eq]
  rfl

/-- An instruction of the code, without a fault. -/
def ok (instr : BitVec 32) : IdInstr := ⟨instr, false, false⟩

/-- The instructions of the words that are taken, and those of the word at the input that were
given already: `l` are the others. -/
inductive Holding (mem : BitVec 30 → FetchedWord) (a : BitVec 31) (d : CompressedDecoder) (v : Bool)
    (n : ℕ) (given : List IdInstr) : Prop
  | between (hd : d.stateQ = .idle)
      (hg : given = ((List.range n).flatMap fun k => instrsAt mem (streamPc mem a k)).map ok)
  | within (p l : List (BitVec 32)) (hd : d.stateQ ≠ .idle) (hv : v = true)
      (hl : instrsAt mem (streamPc mem a n) = p ++ l)
      (hgl : Gives (codeAt mem (streamPc mem a n)) d l)
      (hg : given = ((List.range n).flatMap (fun k => instrsAt mem (streamPc mem a k)) ++ p).map ok)

theorem Holding.valid {a : BitVec 31} {d : CompressedDecoder} {v : Bool} {n : ℕ}
    {given : List IdInstr} (h : Holding mem a d v n given) (hd : d.stateQ ≠ .idle) : v = true := by
  cases h with
  | between hi _ => exact absurd hi hd
  | within _ _ _ hv _ _ _ => exact hv

/-- A cycle in which the ID stage is given nothing. -/
theorem Holding.waits {a : BitVec 31} {d : CompressedDecoder} {v v' : Bool} {n : ℕ}
    {given : List IdInstr} {w : BitVec 32} {u r : Bool} (h : Holding mem a d v n given)
    (hu : (u && r) = false) (hd : d.stateQ ≠ .idle → u = true ∧ r = false ∧ v' = true ∧
      SameInstr (codeAt mem (streamPc mem a n)) w) :
    Holding mem a (d.decompress w u r).next v' n given := by
  cases h with
  | between hi hg => exact .between (idle_kept hi hu) hg
  | within p l hi hv hl hgl hg =>
    obtain ⟨rfl, rfl, hv', hw⟩ := hd hi
    rw [(hgl.congr hw).stalled hi]
    exact .within p l hi hv' hl hgl hg

/-- A cycle in which it is given an instruction: the last one of a word or not. -/
theorem Holding.gives {a : BitVec 31} {d : CompressedDecoder} {v : Bool} {n : ℕ}
    {given : List IdInstr} {w : BitVec 32} (h : Holding mem a d v n given)
    (hl : LegalAt mem (streamPc mem a n)) (hw : SameInstr (codeAt mem (streamPc mem a n)) w) :
    (d.decompress w true true).illegal = false ∧
    ((d.decompress w true true).getsExpanded ≠ .expanded ∧
      (∀ v', Holding mem a (d.decompress w true true).next v' (n + 1)
        (given ++ [ok (d.decompress w true true).instr])) ∨
    (d.decompress w true true).getsExpanded = .expanded ∧
      Holding mem a (d.decompress w true true).next true n
        (given ++ [ok (d.decompress w true true).instr])) := by
  obtain ⟨p, l, hpl, hgl, rfl⟩ : ∃ p l, instrsAt mem (streamPc mem a n) = p ++ l ∧
      Gives (codeAt mem (streamPc mem a n)) d l ∧
      given = ((List.range n).flatMap (fun k => instrsAt mem (streamPc mem a k)) ++ p).map ok := by
    cases h with
    | between hi hg => exact ⟨[], _, rfl, gives_instrs hi hl.legal, by rw [hg, List.append_nil]⟩
    | within p l hi hv hpl hgl hg => exact ⟨p, l, hpl, hgl, hg⟩
  have hgw := hgl.congr hw
  cases hgw with
  | last ho he hs =>
    rw [ho]
    refine ⟨rfl, .inl ⟨he, fun _ => .between hs ?_⟩⟩
    rw [List.range_succ, List.flatMap_append, List.flatMap_singleton, hpl]
    simp
  | @more _ s' j l ho hs hgl' =>
    rw [ho]
    refine ⟨rfl, .inr ⟨rfl, .within (p ++ [j]) l hs rfl (by simp [hpl]) (hgl'.congr hw.symm) ?_⟩⟩
    simp

/-- What the stage holds after a jump in cycle `T`. -/
abbrev Executes (s : IfStage) (i : ℕ → IfStageIn) (mem : BitVec 30 → FetchedWord) (T t : ℕ) :
    Prop :=
  Holding mem ((i T).fetchAddrN.extractLsb' 1 31) (s.run i t).decoder
    ((s.run i t).fetchValid (i t)) (s.prefetch.takenSince (s.fetchIn i) T t)
    (s.delivered i T (t - (T + 1)))

theorem delivered_succ (hT : T < t) : s.delivered i T (t + 1 - (T + 1)) =
    s.delivered i T (t - (T + 1)) ++ ((s.run i t).given (i t)).toList := by
  rw [show t + 1 - (T + 1) = t - (T + 1) + 1 by omega, delivered,
    show T + 1 + (t - (T + 1)) = t by omega]

theorem executes_start (hb : (i T).pcSetI = true) (hd : (s.run i T).decoder.stateQ = .idle) :
    Executes s i mem T (T + 1) := by
  refine .between (idle_kept hd (by simp [idReady, hb])) ?_
  rw [takenSince, Nat.sub_self, Nat.count_zero]
  rfl

/-- The address of the instruction that comes next. -/
abbrev nextPc (s : IfStage) (i : ℕ → IfStageIn) (mem : BitVec 30 → FetchedWord) (T t : ℕ) :
    BitVec 31 :=
  streamPc mem ((i T).fetchAddrN.extractLsb' 1 31) (s.prefetch.takenSince (s.fetchIn i) T t)

theorem sameInstr (h : s.prefetch.FetchMemory (s.fetchIn i) m) (hT : Since (s.fetchIn i) T t)
    (hm : Steady m mem T t) (hl : LegalAt mem (s.nextPc i mem T t))
    (hv : (s.run i t).fetchValid (i t) = true) :
    ((s.run i t).fetchOut (i t)).err = false ∧
      SameInstr (codeAt mem (s.nextPc i mem T t)) ((s.run i t).fetchOut (i t)).rdata := by
  rw [fetchValid_eq] at hv
  obtain ⟨ha, hi⟩ := delivers_stream h hT hm hv
  rw [ha] at hi
  rw [fetchOut_eq]
  exact hi.sameInstr hl

theorem fetchValid_stays (h : s.prefetch.FetchMemory (s.fetchIn i) m)
    (hb : (i t).pcSetI = false) (hr : (s.run i t).fetchReady (i t) = false)
    (hv : (s.run i t).fetchValid (i t) = true) :
    (s.run i (t + 1)).fetchValid (i (t + 1)) = true := by
  rw [fetchValid_eq] at hv ⊢
  exact h.valid_stays hb hr hv

/-- A cycle in which the word is there and the ID stage is ready. -/
theorem executes_given (h : s.prefetch.FetchMemory (s.fetchIn i) m) (hlt : T < t)
    (hT : Since (s.fetchIn i) T t) (hm : Steady m mem T t) (hb : (i t).pcSetI = false)
    (hl : LegalAt mem (s.nextPc i mem T t)) (hv : (s.run i t).fetchValid (i t) = true)
    (hr : (i t).idInReadyI = true) (he : Executes s i mem T t) :
    Executes s i mem T (t + 1) := by
  obtain ⟨herr, hw⟩ := sameInstr h hT hm hl hv
  have hid : idReady (i t) = true := by simp [idReady, hr, hb]
  have hvi : (s.run i t).validI (i t) = true := by simp [validI, hv, herr]
  have hdec : (s.run i t).decompressed (i t) =
      (s.run i t).decoder.decompress ((s.run i t).fetchOut (i t)).rdata true true := by
    rw [decompressed, hvi, hid]
  have hgiven : (s.run i t).given (i t) = some ⟨((s.run i t).decompressed (i t)).instr,
      ((s.run i t).decompressed (i t)).illegal, false⟩ := by
    simp [given, hv, hid, herr]
  have hready : (s.run i t).fetchReady (i t) =
      (((s.run i t).decompressed (i t)).getsExpanded != .expanded) := by
    rw [fetchReady, hr, instrGetsExpanded, getsExpandedO, hvi, hid, hdec]
    rfl
  unfold Executes
  rw [delivered_succ hlt, takenSince_succ hlt, taken_eq]
  obtain ⟨hill, ⟨hexp, hn⟩ | ⟨hexp, hn⟩⟩ := he.gives hl hw
  · rw [hgiven, hready, hv, hdec, hill, bne_iff_ne.2 hexp]
    have hnext := hn ((s.run i (t + 1)).fetchValid (i (t + 1)))
    rw [← hdec] at hnext ⊢
    exact hnext
  · have hr0 : (s.run i t).fetchReady (i t) = false := by
      rw [hready, hdec, hexp]
      rfl
    rw [fetchValid_stays h hb hr0 hv, hgiven, hr0, hdec, hill]
    rw [← hdec] at hn ⊢
    exact hn

/-- The other cycles. -/
theorem executes_waits (h : s.prefetch.FetchMemory (s.fetchIn i) m) (hlt : T < t)
    (hT : Since (s.fetchIn i) T t) (hm : Steady m mem T t) (hb : (i t).pcSetI = false)
    (hl : LegalAt mem (s.nextPc i mem T t))
    (hg : ((s.run i t).fetchValid (i t) && (i t).idInReadyI) = false)
    (he : Executes s i mem T t) : Executes s i mem T (t + 1) := by
  have hnone : (s.run i t).given (i t) = none := by
    simp only [given, idReady, hb, Bool.not_false, Bool.and_true, hg, Bool.false_eq_true,
      if_false]
  have htaken : ((s.run i t).fetchReady (i t) && (s.run i t).fetchValid (i t)) = false := by
    rw [fetchReady, Bool.and_comm, ← Bool.and_assoc, hg, Bool.false_and]
  have hvi : ((s.run i t).validI (i t) && idReady (i t)) = false := by
    rw [validI, idReady, hb, Bool.not_false, Bool.and_true, Bool.and_right_comm, hg,
      Bool.false_and]
  unfold Executes
  rw [delivered_succ hlt, takenSince_succ hlt, taken_eq, hnone, htaken]
  simp only [Option.toList_none, List.append_nil, Bool.false_eq_true, if_false, Nat.add_zero]
  refine he.waits hvi fun hd => ?_
  have hv := he.valid hd
  obtain ⟨herr, hw⟩ := sameInstr h hT hm hl hv
  have hr : (i t).idInReadyI = false := by simpa [hv] using hg
  have hu : (s.run i t).validI (i t) = true := by simp [validI, hv, herr]
  have hr0 : (s.run i t).fetchReady (i t) = false := by simp [fetchReady, hr]
  exact ⟨hu, by simp [idReady, hr], fetchValid_stays h hb hr0 hv, hw⟩

theorem executes (h : s.prefetch.FetchMemory (s.fetchIn i) m) (hT : Since (s.fetchIn i) T t)
    (hm : Steady m mem T t) (hd : (s.run i T).decoder.stateQ = .idle)
    (hl : ∀ n, n ≤ s.prefetch.takenSince (s.fetchIn i) T t →
      LegalAt mem (streamPc mem ((i T).fetchAddrN.extractLsb' 1 31) n)) :
    Executes s i mem T t := by
  have hlt := hT.later
  induction t, hlt using Nat.le_induction with
  | base => exact executes_start hT.branch hd
  | succ t htt ih =>
    have hle := takenSince_le (s := s.prefetch) (i := s.fetchIn i) htt
    have hm' : Steady m mem T t := fun u h1 h2 => hm u h1 (by omega)
    have hp := hT.pred htt
    have hb : (i t).pcSetI = false := hT.none t htt (by omega)
    have he := ih hp hm' fun n hn => hl n (hn.trans hle)
    by_cases hg : ((s.run i t).fetchValid (i t) && (i t).idInReadyI) = true
    · obtain ⟨hv, hr⟩ := Bool.and_eq_true_iff.1 hg
      exact executes_given h htt hp hm' hb (hl _ hle) hv hr he
    · rw [Bool.not_eq_true] at hg
      exact executes_waits h htt hp hm' hb (hl _ hle) hg he

/-- **What the code stands for.** After a jump that does not come while an instruction of Zcmp is
    under way, the ID stage is given the instructions that the straight-line code of its target
    stands for, in order, none lost and none twice, however the memory delays its answers and the
    core stalls: those of the words that are taken, and of the word at the input a part. -/
theorem delivers_code (h : s.prefetch.FetchMemory (s.fetchIn i) m) (hT : Since (s.fetchIn i) T t)
    (hm : Steady m mem T t) (hd : (s.run i T).decoder.stateQ = .idle)
    (hl : ∀ n, n ≤ s.prefetch.takenSince (s.fetchIn i) T t →
      LegalAt mem (streamPc mem ((i T).fetchAddrN.extractLsb' 1 31) n)) :
    ∃ p l, l ≠ [] ∧ instrsAt mem (streamPc mem ((i T).fetchAddrN.extractLsb' 1 31)
        (s.prefetch.takenSince (s.fetchIn i) T t)) = p ++ l ∧
      s.delivered i T (t - (T + 1)) =
        ((List.range (s.prefetch.takenSince (s.fetchIn i) T t)).flatMap (fun k => instrsAt mem
          (streamPc mem ((i T).fetchAddrN.extractLsb' 1 31) k)) ++ p).map ok := by
  have hn := hl _ le_rfl
  cases executes h hT hm hd hl with
  | between hi hg =>
    exact ⟨[], _, (gives_instrs hi hn.legal).ne_nil, rfl, by rw [hg, List.append_nil]⟩
  | within p l _ _ hpl hgl hg => exact ⟨p, l, hgl.ne_nil, hpl, hg⟩

/-- A memory of `cm.push {ra}, -16` and `c.nop`: a jump, its word, and an ID stage that is ready
    from then on. -/
def pushMem : BitVec 30 → FetchedWord := fun _ => (0x0001b842, false)

def pushRun (t : ℕ) : IfStageIn :=
  match t with
  | 0 => ⟨true, true, 0x80, false, true, 0, false, false⟩
  | 1 => ⟨false, false, 0, false, false, 0x0001b842, false, true⟩
  | _ => ⟨false, false, 0, true, false, 0, false, false⟩

/-- Any state; all is 0. -/
def zero : IfStage := ⟨PrefetchBuffer.zero, ⟨0, 0, .idle⟩⟩

theorem pushMem_legal (pc : BitVec 31) : LegalAt pushMem pc := by
  refine ⟨rfl, fun _ => rfl, ?_⟩
  unfold codeAt pushMem
  split <;> decide

theorem pushRun_memory : zero.prefetch.FetchMemory (zero.fetchIn pushRun) fun _ => pushMem :=
  fun t' ht' => by
    match t', ht' with
    | 1, _ => exact ⟨0, ⟨by decide, by decide, by decide, by decide⟩, rfl⟩

theorem pushRun_since : Since (zero.fetchIn pushRun) 0 4 :=
  ⟨rfl, by decide, fun u h1 h2 => by interval_cases u <;> rfl⟩

theorem delivers_code_pushRun : ∃ p l, l ≠ [] ∧
    instrsAt pushMem (streamPc pushMem ((pushRun 0).fetchAddrN.extractLsb' 1 31)
      (zero.prefetch.takenSince (zero.fetchIn pushRun) 0 4)) = p ++ l ∧
    zero.delivered pushRun 0 (4 - (0 + 1)) =
      ((List.range (zero.prefetch.takenSince (zero.fetchIn pushRun) 0 4)).flatMap (fun k =>
        instrsAt pushMem (streamPc pushMem ((pushRun 0).fetchAddrN.extractLsb' 1 31) k)) ++
          p).map ok :=
  delivers_code pushRun_memory pushRun_since (fun _ _ _ => rfl) rfl fun _ _ => pushMem_legal _

end IfStage

end SentinelSoc
