/-
  The fetch FIFO (`ibex_fetch_fifo.sv`): fetched words go in, instructions come out, at any
  half-word address.

  * `FetchFifo.step`, `outValid`, `outRdata`, `outErr`: the code;
  * `Instruction`: what two words of memory hold at a half-word address;
  * `out_instruction`: the FIFO drives the instruction at its address, and drives one
    exactly when it has all the words of it;
  * `step_holds`: the words it keeps.
-/
import SentinelSoc.Lib.ShiftFifo

namespace SentinelSoc

/-- A word of the instruction memory, and whether its access failed. -/
abbrev FetchedWord := BitVec 32 × Bool

/-- Is the instruction in the upper or the lower half of the word a compressed one? A word whose
    access failed counts as not compressed. -/
def FetchedWord.isCompressed (w : FetchedWord) (upper : Bool) : Bool :=
  (if upper then w.1.extractLsb' 16 2 else w.1.extractLsb' 0 2) != 3 && !w.2

/-! ## The code -/

structure FetchFifo where
  /-- `valid_q`, with `rdata_q` and `err_q` -/
  entries : ShiftFifo 2 FetchedWord
  /-- `instr_addr_q[31:1]` -/
  instrAddrQ : BitVec 31

structure FifoIn where
  clear : Bool
  inValid : Bool
  inAddr : BitVec 32
  inRdata : BitVec 32
  inErr : Bool
  outReady : Bool

namespace FetchFifo

variable (s : FetchFifo) (x : FifoIn)

def rdata : BitVec 32 := if s.entries.valid 0 then (s.entries.data 0).1 else x.inRdata

def err : Bool := if s.entries.valid 0 then (s.entries.data 0).2 else x.inErr

def valid : Bool := s.entries.valid 0 || x.inValid

def rdataUnaligned : BitVec 32 :=
  (if s.entries.valid 1 then (s.entries.data 1).1.extractLsb' 0 16
    else x.inRdata.extractLsb' 0 16) ++ (s.rdata x).extractLsb' 16 16

def unalignedIsCompressed : Bool := (s.rdata x).extractLsb' 16 2 != 3 && !s.err x

def alignedIsCompressed : Bool := (s.rdata x).extractLsb' 0 2 != 3 && !s.err x

def errUnaligned : Bool :=
  if s.entries.valid 1 then
    (s.entries.data 1).2 && !s.unalignedIsCompressed x || (s.entries.data 0).2
  else
    s.entries.valid 0 && (s.entries.data 0).2 ||
      x.inErr && (!s.entries.valid 0 || !s.unalignedIsCompressed x)

/-- The error comes from the second half of an unaligned instruction. -/
def errPlus2 : Bool :=
  if s.entries.valid 1 then (s.entries.data 1).2 && !(s.entries.data 0).2
  else x.inErr && s.entries.valid 0 && !(s.entries.data 0).2

def validUnaligned : Bool := if s.entries.valid 1 then true else s.entries.valid 0 && x.inValid

/-- `out_addr_o[1]` -/
def unaligned : Bool := s.instrAddrQ.getLsbD 0

def outAddr : BitVec 32 := s.instrAddrQ ++ (0 : BitVec 1)

def outRdata : BitVec 32 := if s.unaligned then s.rdataUnaligned x else s.rdata x

def outErr : Bool := if s.unaligned then s.errUnaligned x else s.err x

def outErrPlus2 : Bool := if s.unaligned then s.errPlus2 x else false

def outValid : Bool :=
  if s.unaligned then if s.unalignedIsCompressed x then s.valid x else s.validUnaligned x
  else s.valid x

def addrIncrTwo : Bool :=
  if s.unaligned then s.unalignedIsCompressed x else s.alignedIsCompressed x

def instrAddrNext : BitVec 31 := s.instrAddrQ + if s.addrIncrTwo x then 1 else 2

def popFifo : Bool := x.outReady && s.outValid x && (!s.alignedIsCompressed x || s.unaligned)

/-- `busy_o` -/
def busy (i : Fin 2) : Bool := s.entries.valid i.succ

def step : FetchFifo where
  entries := s.entries.step x.inValid (x.inRdata, x.inErr) (s.popFifo x) x.clear
  instrAddrQ :=
    if x.clear || x.outReady && s.outValid x then
      if x.clear then x.inAddr.extractLsb' 1 31 else s.instrAddrNext x
    else s.instrAddrQ

end FetchFifo

/-! ## Instructions in memory -/

/-- What the FIFO drives beside the address. -/
structure FetchOut where
  rdata : BitVec 32
  err : Bool
  errPlus2 : Bool

/-- The instruction at a half word of the word `lo`, with `hi` after it: all of the word, the half
    word if it is compressed, or the half word and one of the next word. -/
def Instruction (lo hi : FetchedWord) (upper : Bool) (o : FetchOut) : Prop :=
  match upper, lo.isCompressed upper with
  | false, _ => o.rdata = lo.1 ∧ o.err = lo.2
  | true, true => o.rdata.extractLsb' 0 16 = lo.1.extractLsb' 16 16 ∧ o.err = false
  | true, false => o.rdata = hi.1.extractLsb' 0 16 ++ lo.1.extractLsb' 16 16 ∧
      o.err = (lo.2 || hi.2) ∧ (o.err = true → o.errPlus2 = !lo.2)

/-- How many words an instruction needs. -/
def wordsOf (lo : FetchedWord) (upper : Bool) : ℕ :=
  if upper && !lo.isCompressed true then 2 else 1

namespace FetchFifo

variable {s : FetchFifo} {x : FifoIn} {l : List FetchedWord}

def out (s : FetchFifo) (x : FifoIn) : FetchOut := ⟨s.outRdata x, s.outErr x, s.outErrPlus2 x⟩

/-- The words at the output: those kept, and the one that comes in. -/
def words (x : FifoIn) (l : List FetchedWord) : List FetchedWord :=
  l ++ ShiftFifo.incoming x.inValid (x.inRdata, x.inErr)

/-- Without a word the output shows the data lines, whatever they are. -/
theorem head_word (h : s.entries.Holds l) :
    (s.rdata x, s.err x) = (words x l).headD (x.inRdata, x.inErr) := by
  unfold rdata err words
  rw [h.valid_fin]
  cases l with
  | nil => cases hx : x.inValid <;> simp [ShiftFifo.incoming]
  | cons a l => simp [h.data 0 a rfl]

theorem valid_eq (h : s.entries.Holds l) : s.valid x = decide (0 < (words x l).length) := by
  unfold valid words
  rw [h.valid_fin, List.length_append, ShiftFifo.incoming_length]
  cases x.inValid <;> cases l <;> simp

theorem validUnaligned_eq (h : s.entries.Holds l) :
    s.validUnaligned x = decide (1 < (words x l).length) := by
  unfold validUnaligned words
  rw [h.valid_fin, h.valid_fin, List.length_append, ShiftFifo.incoming_length]
  cases x.inValid <;> rcases l with _ | ⟨a, _ | ⟨b, l⟩⟩ <;> simp

theorem unalignedIsCompressed_eq {a : FetchedWord} (h : s.entries.Holds l)
    (ha : (words x l).head? = some a) : s.unalignedIsCompressed x = a.isCompressed true := by
  have hw := head_word (x := x) h
  rw [List.headD_eq_head?_getD, ha] at hw
  have h1 : s.rdata x = a.1 := congrArg Prod.fst hw
  have h2 : s.err x = a.2 := congrArg Prod.snd hw
  simp [unalignedIsCompressed, FetchedWord.isCompressed, h1, h2]

theorem alignedIsCompressed_eq {a : FetchedWord} (h : s.entries.Holds l)
    (ha : (words x l).head? = some a) : s.alignedIsCompressed x = a.isCompressed false := by
  have hw := head_word (x := x) h
  rw [List.headD_eq_head?_getD, ha] at hw
  have h1 : s.rdata x = a.1 := congrArg Prod.fst hw
  have h2 : s.err x = a.2 := congrArg Prod.snd hw
  simp [alignedIsCompressed, FetchedWord.isCompressed, h1, h2]

/-- The FIFO drives an instruction exactly when it has all the words of it. -/
theorem outValid_iff (h : s.entries.Holds l) : s.outValid x = true ↔
    ∃ lo, (words x l).head? = some lo ∧ wordsOf lo s.unaligned ≤ (words x l).length := by
  unfold outValid wordsOf
  rw [valid_eq h, validUnaligned_eq h]
  cases hw : words x l with
  | nil => cases s.unaligned <;> cases s.unalignedIsCompressed x <;> simp
  | cons a l' =>
    rw [unalignedIsCompressed_eq h (a := a) (by rw [hw]; rfl)]
    cases s.unaligned <;> cases hc : a.isCompressed true <;> simp [hc, Nat.succ_le_iff]

theorem data_zero {a : FetchedWord} (h : s.entries.Holds l) (ha : (words x l).head? = some a) :
    (if s.entries.valid 0 then s.entries.data 0 else (x.inRdata, x.inErr)) = a := by
  rw [h.valid_fin]
  cases l with
  | nil =>
    cases hx : x.inValid <;> simp [words, ShiftFifo.incoming, hx] at ha ⊢
    exact ha
  | cons b l =>
    obtain rfl : b = a := by simpa [words] using ha
    simp [h.data 0 b rfl]

theorem data_one {b : FetchedWord} (h : s.entries.Holds l) (hb : (words x l)[1]? = some b) :
    (if s.entries.valid 1 then s.entries.data 1 else (x.inRdata, x.inErr)) = b ∧
      s.entries.valid 0 = true := by
  rw [h.valid_fin, h.valid_fin]
  rcases l with _ | ⟨a, _ | ⟨c, l⟩⟩
  · cases hx : x.inValid <;> simp [words, ShiftFifo.incoming, hx] at hb
  · cases hx : x.inValid <;> simp [words, ShiftFifo.incoming, hx] at hb ⊢
    exact hb
  · obtain rfl : c = b := by simpa [words] using hb
    simp [h.data 1 c rfl]

/-- **The output.** What the FIFO drives is the instruction at its address, if `lo` is its first
    word and `hi` the second. -/
theorem out_instruction {lo hi : FetchedWord} (h : s.entries.Holds l)
    (hlo : (words x l).head? = some lo)
    (hhi : wordsOf lo s.unaligned = 2 → (words x l)[1]? = some hi) :
    Instruction lo hi s.unaligned (s.out x) := by
  have h0 := data_zero h hlo
  have hc := unalignedIsCompressed_eq h hlo
  have hr : s.rdata x = lo.1 ∧ s.err x = lo.2 := by
    unfold rdata err
    constructor
    · rw [← h0]; split_ifs <;> rfl
    · rw [← h0]; split_ifs <;> rfl
  unfold Instruction out outRdata outErr outErrPlus2
  cases hu : s.unaligned with
  | false => simp [hr]
  | true =>
    simp only [if_true]
    cases hcl : lo.isCompressed true with
    | true =>
      have hle : lo.2 = false := by
        simp only [FetchedWord.isCompressed, Bool.and_eq_true, Bool.not_eq_true'] at hcl
        exact hcl.2
      have hv1 : s.entries.valid 1 = true → s.entries.valid 0 = true := by
        rw [h.valid_fin, h.valid_fin]
        simp only [decide_eq_true_eq, Fin.val_one, Fin.val_zero]
        omega
      refine ⟨by rw [rdataUnaligned, BitVec.extractLsb'_append_eq_right, hr.1], ?_⟩
      rw [← h0] at hle
      unfold errUnaligned
      rw [hc, hcl]
      cases hv : s.entries.valid 0 with
      | false =>
        have hw : s.entries.valid 1 = false := by
          rw [← Bool.not_eq_true]
          exact fun hw => by simp [hv1 hw] at hv
        rw [hv] at hle
        simpa [hw] using hle
      | true =>
        rw [hv] at hle
        simpa using hle
    | false =>
      have hhi := hhi (by simp [wordsOf, hu, hcl])
      obtain ⟨h1, hv0⟩ := data_one h hhi
      rw [hv0, if_pos rfl] at h0
      refine ⟨?_, ?_, ?_⟩
      · rw [rdataUnaligned, hr.1, ← h1]
        split_ifs <;> rfl
      · rw [errUnaligned, hc, hcl, hv0, h0, ← h1]
        cases s.entries.valid 1 <;> simp [Bool.or_comm]
      · rw [errUnaligned, errPlus2, hc, hcl, hv0, h0]
        cases s.entries.valid 1 <;> cases lo.2 <;> simp

/-! ## A cycle -/

/-- The address of the word at the head. -/
def headWord (s : FetchFifo) : BitVec 30 := s.instrAddrQ.extractLsb' 1 30

/-- The half words of an instruction. -/
def length (lo : FetchedWord) (upper : Bool) : BitVec 31 := if lo.isCompressed upper then 1 else 2

theorem addrIncrTwo_eq {lo : FetchedWord} (h : s.entries.Holds l)
    (hlo : (words x l).head? = some lo) : s.addrIncrTwo x = lo.isCompressed s.unaligned := by
  unfold addrIncrTwo
  rw [unalignedIsCompressed_eq h hlo, alignedIsCompressed_eq h hlo]
  cases s.unaligned <;> rfl

/-- The address moves with the instructions that are taken. -/
theorem step_instrAddrQ {lo : FetchedWord} (h : s.entries.Holds l)
    (hlo : (words x l).head? = some lo) (hc : x.clear = false) :
    (s.step x).instrAddrQ =
      if x.outReady && s.outValid x then s.instrAddrQ + length lo s.unaligned
      else s.instrAddrQ := by
  simp only [step, hc, Bool.false_or, Bool.false_eq_true, if_false, instrAddrNext,
    addrIncrTwo_eq h hlo, length]

theorem step_instrAddrQ_clear (hc : x.clear = true) :
    (s.step x).instrAddrQ = x.inAddr.extractLsb' 1 31 := by
  simp [step, hc]

/-- An instruction that is not driven is not taken. -/
theorem step_instrAddrQ_stay (hc : x.clear = false) (hv : (x.outReady && s.outValid x) = false) :
    (s.step x).instrAddrQ = s.instrAddrQ := by
  simp [step, hc, hv]

/-- Half-word addresses and the words they are in. -/
theorem headWord_add (q : BitVec 31) :
    (q + 1#31).extractLsb' 1 30 = q.extractLsb' 1 30 + (if q.getLsbD 0 then 1#30 else 0) ∧
    (q + 2#31).extractLsb' 1 30 = q.extractLsb' 1 30 + 1#30 := by
  have h0 : q.getLsbD 0 = decide (q.toNat % 2 = 1) := by
    rw [BitVec.getLsbD, Nat.testBit_zero]
  constructor
  · apply BitVec.eq_of_toNat_eq
    rw [h0]
    simp only [BitVec.extractLsb'_toNat, BitVec.toNat_add, Nat.shiftRight_eq_div_pow,
      decide_eq_true_eq]
    split_ifs <;> simp <;> omega
  · apply BitVec.eq_of_toNat_eq
    simp only [BitVec.extractLsb'_toNat, BitVec.toNat_add, Nat.shiftRight_eq_div_pow]
    simp
    omega

/-- The word at the head is dropped when the address leaves it. -/
theorem step_headWord (h : s.entries.Holds l) (hc : x.clear = false) :
    (s.step x).headWord = s.headWord + BitVec.ofNat 30 (s.popFifo x).toNat := by
  cases hv : x.outReady && s.outValid x with
  | false =>
    rw [headWord, step_instrAddrQ_stay hc hv, popFifo, hv]
    simp [headWord]
  | true =>
    have hov : s.outValid x = true := by
      rw [Bool.and_eq_true] at hv
      exact hv.2
    obtain ⟨lo, hlo, -⟩ := (outValid_iff h).1 hov
    obtain ⟨h1, h2⟩ := headWord_add s.instrAddrQ
    rw [headWord, step_instrAddrQ h hlo hc, popFifo, hv, if_pos rfl, alignedIsCompressed_eq h hlo,
      length, headWord]
    have hu : s.instrAddrQ.getLsbD 0 = s.unaligned := rfl
    rw [hu] at h1
    cases hs : s.unaligned <;> cases hl : lo.isCompressed s.unaligned <;>
      rw [hs] at h1 hl <;> simp [h1, h2, hl]

/-- A cycle without a clear: the word goes in if there is room for it. -/
theorem step_holds (h : s.entries.Holds l) (hc : x.clear = false)
    (hp : x.inValid = true → l.length < 3) :
    (s.step x).entries.Holds ((words x l).drop (s.popFifo x).toNat) := by
  unfold step words
  rw [hc]
  exact h.step hp

theorem step_holds_clear (hc : x.clear = true) : (s.step x).entries.Holds [] := by
  unfold step
  rw [hc]
  exact ShiftFifo.step_clear

end FetchFifo

end SentinelSoc
