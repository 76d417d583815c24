/-
  The load/store unit: its state machine, byte enables and tags.

  * `dataBe`: the bytes of the word that a request writes;
  * `Lsu.step`: the state machine; an access that crosses a word boundary makes
    two requests;
  * `resp_of_clean_tag`: a clean word is answered as without the tag check;
  * `Watched`: the unit with the words that the access under way has read, and
    `loadTag_iff`: when the tag of a finished load is that of its words.
-/
import SentinelSoc.Lib.Sync
import SentinelSoc.Dift.Policy

namespace SentinelSoc

/-- `ls_fsm_e` -/
inductive LsFsm
  | idle
  | waitGntMis
  | waitRvalidMis
  | waitGnt
  | waitRvalidMisGntsDone
  deriving DecidableEq

structure Lsu where
  lsFsmCs : LsFsm
  handleMisalignedQ : Bool
  pmpErrQ : Bool
  lsuErrQ : Bool
  dataWeQ : Bool
  tagQ : Bool
  deriving DecidableEq

/-- The inputs of one cycle: from the ID stage, and from the memory. -/
structure LsuIn where
  lsuReq : Bool
  lsuWe : Bool
  lsuType : BitVec 2
  adderResult : BitVec 32
  lsuWdataTag : Bool
  tcrLoadCheck : Bool
  dataGnt : Bool
  dataRvalid : Bool
  dataBusErr : Bool
  dataPmpErr : Bool
  dataRdataTag : Bool
  deriving DecidableEq

namespace LsuIn

variable (x : LsuIn)

def dataOffset : BitVec 2 := x.adderResult.extractLsb' 0 2

/-- The access crosses a word boundary. -/
def splitMisalignedAccess : Bool :=
  x.lsuType == 0 && x.dataOffset != 0 || x.lsuType == 1 && x.dataOffset == 3

end LsuIn

/-- `data_be` for a word, a half word or a byte; `second` is the second half of a split access. -/
def dataBe (lsuType offset : BitVec 2) (second : Bool) : BitVec 4 :=
  if lsuType = 0 then
    if second then
      if offset = 0 then 0b0000 else if offset = 1 then 0b0001 else if offset = 2 then 0b0011
      else 0b0111
    else
      if offset = 0 then 0b1111 else if offset = 1 then 0b1110 else if offset = 2 then 0b1100
      else 0b1000
  else if lsuType = 1 then
    if second then 0b0001
    else if offset = 0 then 0b0011 else if offset = 1 then 0b0110 else if offset = 2 then 0b1100
    else 0b1000
  else
    if offset = 0 then 0b0001 else if offset = 1 then 0b0010 else if offset = 2 then 0b0100
    else 0b1000

namespace Lsu

variable (s : Lsu) (x : LsuIn)

def reset : Lsu := ⟨.idle, false, false, false, false, false⟩

/-! ## Requests -/

def dataReqO : Bool :=
  match s.lsFsmCs with
  | .idle => x.lsuReq
  | .waitGntMis | .waitRvalidMis | .waitGnt => true
  | .waitRvalidMisGntsDone => false

def dataBeO : BitVec 4 := dataBe x.lsuType x.dataOffset s.handleMisalignedQ

/-- `data_addr_w_aligned` -/
def dataAddrO : BitVec 32 := x.adderResult.extractLsb' 2 30 ++ 0#2

/-- The ID stage is to add 4 to the last address. -/
def addrIncrReqO : Bool :=
  match s.lsFsmCs with
  | .idle | .waitGntMis => false
  | .waitRvalidMis | .waitRvalidMisGntsDone => true
  | .waitGnt => s.handleMisalignedQ

/-! ## The state machine -/

def lsFsmNs : LsFsm :=
  match s.lsFsmCs with
  | .idle =>
    if x.lsuReq then
      if x.dataGnt then if x.splitMisalignedAccess then .waitRvalidMis else .idle
      else if x.splitMisalignedAccess then .waitGntMis else .waitGnt
    else .idle
  | .waitGntMis => if x.dataGnt || s.pmpErrQ then .waitRvalidMis else .waitGntMis
  | .waitRvalidMis =>
    if x.dataRvalid || s.pmpErrQ then if x.dataGnt then .idle else .waitGnt
    else if x.dataGnt then .waitRvalidMisGntsDone else .waitRvalidMis
  | .waitGnt => if x.dataGnt || s.pmpErrQ then .idle else .waitGnt
  | .waitRvalidMisGntsDone => if x.dataRvalid then .idle else .waitRvalidMisGntsDone

def handleMisalignedD : Bool :=
  match s.lsFsmCs with
  | .idle => if x.lsuReq && x.dataGnt then x.splitMisalignedAccess else s.handleMisalignedQ
  | .waitGntMis => if x.dataGnt || s.pmpErrQ then true else s.handleMisalignedQ
  | .waitRvalidMis =>
    if x.dataRvalid || s.pmpErrQ then !x.dataGnt
    else if x.dataGnt then false else s.handleMisalignedQ
  | .waitGnt => if x.dataGnt || s.pmpErrQ then false else s.handleMisalignedQ
  | .waitRvalidMisGntsDone => s.handleMisalignedQ

def pmpErrD : Bool :=
  match s.lsFsmCs with
  | .idle => x.lsuReq && x.dataPmpErr
  | .waitRvalidMis => if x.dataRvalid || s.pmpErrQ then x.dataPmpErr else s.pmpErrQ
  | .waitRvalidMisGntsDone => if x.dataRvalid then x.dataPmpErr else s.pmpErrQ
  | .waitGntMis | .waitGnt => s.pmpErrQ

def lsuErrD : Bool :=
  match s.lsFsmCs with
  | .idle => if x.lsuReq then false else s.lsuErrQ
  | .waitRvalidMis => if x.dataRvalid || s.pmpErrQ then x.dataBusErr || s.pmpErrQ else s.lsuErrQ
  | .waitRvalidMisGntsDone => if x.dataRvalid then x.dataBusErr else s.lsuErrQ
  | .waitGntMis | .waitGnt => s.lsuErrQ

def ctrlUpdate : Bool :=
  match s.lsFsmCs with
  | .idle => x.lsuReq && x.dataGnt
  | .waitGntMis | .waitGnt => x.dataGnt || s.pmpErrQ
  | .waitRvalidMis | .waitRvalidMisGntsDone => false

/-- The data and the tag of a first half are kept. -/
def rdataUpdate : Bool :=
  match s.lsFsmCs with
  | .waitRvalidMis => (x.dataRvalid || s.pmpErrQ) && !s.dataWeQ
  | .waitRvalidMisGntsDone => x.dataRvalid && !s.dataWeQ
  | .idle | .waitGntMis | .waitGnt => false

def lsuReqDoneO : Bool := (x.lsuReq || s.lsFsmCs != .idle) && s.lsFsmNs x == .idle

def step : Lsu where
  lsFsmCs := s.lsFsmNs x
  handleMisalignedQ := s.handleMisalignedD x
  pmpErrQ := s.pmpErrD x
  lsuErrQ := s.lsuErrD x
  dataWeQ := if s.ctrlUpdate x then x.lsuWe else s.dataWeQ
  tagQ := if s.rdataUpdate x then x.dataRdataTag else s.tagQ

/-! ## Responses -/

/-- `lsu_rdata_tag_o` -/
def rdataTagO : Bool := if s.handleMisalignedQ then x.dataRdataTag || s.tagQ else x.dataRdataTag

def tagErrO : Bool := x.dataRvalid && s.rdataTagO x && x.tcrLoadCheck

def lsuRespValidO : Bool := (x.dataRvalid || s.pmpErrQ) && s.lsFsmCs == .idle

/-- `data_or_pmp_err` for a value of `lsu_tag_err_o`. -/
def dataOrPmpErr (tagErr : Bool) : Bool := s.lsuErrQ || x.dataBusErr || s.pmpErrQ || tagErr

/-- `lsu_rdata_valid_o` for a value of `lsu_tag_err_o`. -/
def rdataValid (tagErr : Bool) : Bool :=
  s.lsFsmCs == .idle && x.dataRvalid && !s.dataOrPmpErr x tagErr && !s.dataWeQ

def loadErr (tagErr : Bool) : Bool := s.dataOrPmpErr x tagErr && !s.dataWeQ && s.lsuRespValidO x

def storeErr (tagErr : Bool) : Bool := s.dataOrPmpErr x tagErr && s.dataWeQ && s.lsuRespValidO x

def rdataValidO : Bool := s.rdataValid x (s.tagErrO x)
def loadErrO : Bool := s.loadErr x (s.tagErrO x)
def storeErrO : Bool := s.storeErr x (s.tagErrO x)

/-! ## Between two accesses -/

/-- Once the second half of a split access is granted nothing tells it from the first any more. -/
def Clean : Prop :=
  s.lsFsmCs = .idle ∨ s.lsFsmCs = .waitRvalidMisGntsDone → s.handleMisalignedQ = false

variable {s x}

theorem clean_reset : reset.Clean := fun _ => rfl

theorem clean_step (h : s.Clean) : (s.step x).Clean := by
  intro hns
  simp only [step, lsFsmNs, handleMisalignedD] at hns ⊢
  cases hc : s.lsFsmCs with
  | idle =>
    have hm := h (.inl hc)
    simp only [hc] at hns
    split_ifs at hns ⊢ <;> simp_all
  | waitGntMis =>
    simp only [hc] at hns
    split_ifs at hns <;> simp_all
  | waitRvalidMis =>
    simp only [hc] at hns
    split_ifs at hns ⊢ <;> simp_all
  | waitGnt =>
    simp only [hc] at hns
    split_ifs at hns ⊢ <;> simp_all
  | waitRvalidMisGntsDone => exact h (.inr hc)

/-- The tag of a last response is the tag of its own word. -/
theorem rdataTagO_of_idle (h : s.Clean) (hc : s.lsFsmCs = .idle) :
    s.rdataTagO x = x.dataRdataTag := by
  rw [rdataTagO, if_neg (by rw [h (.inl hc)]; exact Bool.false_ne_true)]

/-- Past a grant the unit waits for a half, or is done. -/
theorem ctrlUpdate_of_ns (h₁ : s.lsFsmCs ≠ .waitRvalidMis) (h₂ : s.lsFsmCs ≠ .waitRvalidMisGntsDone)
    (hns : s.lsFsmNs x = .waitRvalidMis ∨ s.lsFsmNs x = .waitRvalidMisGntsDone ∨
      s.lsuReqDoneO x = true) : s.ctrlUpdate x = true := by
  simp only [ctrlUpdate, lsuReqDoneO, lsFsmNs] at hns ⊢
  cases hc : s.lsFsmCs with
  | idle =>
    rw [hc] at hns
    cases hr : x.lsuReq <;> cases hg : x.dataGnt <;> cases hs : x.splitMisalignedAccess <;>
      simp_all
  | waitGntMis =>
    rw [hc] at hns
    cases hg : x.dataGnt || s.pmpErrQ <;> simp_all
  | waitRvalidMis => exact absurd hc h₁
  | waitGnt =>
    rw [hc] at hns
    cases hg : x.dataGnt || s.pmpErrQ <;> simp_all
  | waitRvalidMisGntsDone => exact absurd hc h₂

/-- An access that ends, or is past its first grant, has left its kind in `data_we_q`. -/
theorem step_dataWeQ
    (hw : s.lsFsmCs = .waitRvalidMis ∨ s.lsFsmCs = .waitRvalidMisGntsDone →
      s.dataWeQ = x.lsuWe)
    (hns : s.lsFsmNs x = .waitRvalidMis ∨ s.lsFsmNs x = .waitRvalidMisGntsDone ∨
      s.lsuReqDoneO x = true) : (s.step x).dataWeQ = x.lsuWe := by
  change (if s.ctrlUpdate x = true then x.lsuWe else s.dataWeQ) = x.lsuWe
  split_ifs with hc
  · rfl
  · refine hw ?_
    by_contra hn
    rw [not_or] at hn
    exact hc (ctrlUpdate_of_ns hn.1 hn.2 hns)

/-- Without a tag from the memory the tag check changes no last response. -/
theorem resp_of_clean_tag (h : s.Clean) (ht : x.dataRdataTag = false) :
    s.rdataValidO x = s.rdataValid x false ∧ s.loadErrO x = s.loadErr x false ∧
      s.storeErrO x = s.storeErr x false := by
  by_cases hc : s.lsFsmCs = .idle
  · have he : s.tagErrO x = false := by simp [tagErrO, rdataTagO_of_idle h hc, ht]
    simp only [rdataValidO, loadErrO, storeErrO, he, and_self]
  · have hb : (s.lsFsmCs == .idle) = false := beq_eq_false_iff_ne.2 hc
    simp [rdataValidO, rdataValid, loadErrO, loadErr, storeErrO, storeErr, lsuRespValidO, hb]

/-! ## The words of a load -/

/-- The first word of a split access is answered. -/
def firstResp (s : Lsu) (x : LsuIn) : Bool :=
  (s.lsFsmCs == .waitRvalidMis || s.lsFsmCs == .waitRvalidMisGntsDone) && x.dataRvalid

end Lsu

/-- The unit, and of the last access that has begun: whether it is split, and the tag that its
    first word came with. -/
structure Watched where
  lsu : Lsu
  split : Bool
  firstTag : Bool

namespace Watched

def reset : Watched := ⟨.reset, false, false⟩

/-- An access begins with a request in `idle`. -/
def step (w : Watched) (x : LsuIn) : Watched where
  lsu := w.lsu.step x
  split := if w.lsu.lsFsmCs == .idle && x.lsuReq then x.splitMisalignedAccess else w.split
  firstTag := if w.lsu.firstResp x then x.dataRdataTag else w.firstTag

/-- The tag of the words of the access, the last one being answered in this cycle. -/
def wordsTag (w : Watched) (x : LsuIn) : Bool :=
  if w.split then w.firstTag || x.dataRdataTag else x.dataRdataTag

variable {w : Watched} {x : LsuIn}

theorem lsu_run (i : ℕ → LsuIn) (t : ℕ) :
    (Sync.run step reset i t).lsu = Sync.run Lsu.step Lsu.reset i t :=
  Sync.run_map Watched.lsu (fun _ x => x) (fun _ _ => rfl) t

theorem run_clean (i : ℕ → LsuIn) (t : ℕ) : (Sync.run step reset i t).lsu.Clean := by
  rw [lsu_run]
  exact Sync.run_invariant Lsu.clean_reset (fun _ _ h => Lsu.clean_step h) t

/-- The OR is never selected when a load ends: what comes out is the tag of the last word. -/
theorem rdataTagO_eq_wordsTag_iff (h : w.lsu.Clean) (hv : w.lsu.rdataValidO x = true) :
    w.lsu.rdataTagO x = w.wordsTag x ↔
      (w.split = true → w.firstTag = true → x.dataRdataTag = true) := by
  have hc : w.lsu.lsFsmCs = .idle := by
    simp only [Lsu.rdataValidO, Lsu.rdataValid, Bool.and_eq_true, beq_iff_eq] at hv
    exact hv.1.1.1
  rw [Lsu.rdataTagO_of_idle h hc, wordsTag]
  cases w.split <;> cases w.firstTag <;> cases x.dataRdataTag <;> simp

/-- **The tag of a finished load** is that of its words exactly if the access is not split, or the
    second word is tagged, or none is. -/
theorem loadTag_iff (i : ℕ → LsuIn) (t : ℕ)
    (hv : (Sync.run step reset i t).lsu.rdataValidO (i t) = true) :
    (Sync.run step reset i t).lsu.rdataTagO (i t) = (Sync.run step reset i t).wordsTag (i t) ↔
      ((Sync.run step reset i t).split = true → (Sync.run step reset i t).firstTag = true →
        (i t).dataRdataTag = true) :=
  rdataTagO_eq_wordsTag_iff (run_clean i t) hv

/-- A word load at offset 1; the first word is tagged and the second is not. -/
def splitLoad (t : ℕ) : LsuIn where
  lsuReq := t == 0
  lsuWe := false
  lsuType := 0
  adderResult := 0x20001
  lsuWdataTag := false
  tcrLoadCheck := false
  dataGnt := true
  dataRvalid := t == 1 || t == 2
  dataBusErr := false
  dataPmpErr := false
  dataRdataTag := t == 1

/-- Its tag gets lost. -/
theorem splitLoad_untagged :
    (Sync.run step reset splitLoad 2).lsu.rdataValidO (splitLoad 2) = true ∧
      (Sync.run step reset splitLoad 2).split = true ∧
      (Sync.run step reset splitLoad 2).firstTag = true ∧
      (Sync.run step reset splitLoad 2).lsu.rdataTagO (splitLoad 2) ≠
        (Sync.run step reset splitLoad 2).wordsTag (splitLoad 2) := by
  decide

theorem loadTag_iff_splitLoad :
    ¬ (Sync.run step reset splitLoad 2).lsu.rdataTagO (splitLoad 2) =
      (Sync.run step reset splitLoad 2).wordsTag (splitLoad 2) := by
  intro h
  exact absurd ((loadTag_iff splitLoad 2 (by decide)).1 h (by decide) (by decide)) (by decide)

end Watched

end SentinelSoc
