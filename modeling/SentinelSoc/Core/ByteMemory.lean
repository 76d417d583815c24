/-
  The load/store unit makes a byte-addressed memory of one with words.

  * `DataSide`: the unit and a word memory that grants and answers when it likes, in order;
  * `Ledger`: what the memory is for, bytes that are loaded and stored at any address;
  * `Issued`: how the ID stage uses the unit;
  * `Reached`: where an access is, state by state; `Reached.step` is one cycle of it;
  * `byte_memory`: between two accesses the words hold the bytes of the ledger, and every
    load gets its bytes.
-/
import SentinelSoc.Core.LsuData

namespace SentinelSoc

open ByteMem

/-! ## The unit and its memory -/

/-- `unanswered` has the words of the requests that are granted and not answered. -/
structure DataSide where
  path : LsuData
  mem : BitVec 30 → BitVec 32
  unanswered : List (BitVec 32)

/-- The inputs of one cycle: from the ID stage, and what the memory does. What is on the bus
    without an answer is `idleRdata`. -/
structure DataSideIn where
  lsuReq : Bool
  acc : LsuAccess
  lsuWdataTag : Bool
  tcrLoadCheck : Bool
  gnt : Bool
  answers : Bool
  idleRdata : BitVec 32
  dataRdataTag : Bool

namespace DataSide

variable (d : DataSide) (x : DataSideIn)

def reset (mem : BitVec 30 → BitVec 32) : DataSide := ⟨.reset, mem, []⟩

def rvalid : Bool := x.answers && !d.unanswered.isEmpty

/-- The memory has no errors, and there is no PMP. -/
def pathIn : LsuDataIn where
  lsuReq := x.lsuReq
  acc := x.acc
  dataGnt := x.gnt
  dataRvalid := d.rvalid x
  dataRdata := d.unanswered.headD x.idleRdata
  dataBusErr := false
  dataPmpErr := false
  lsuWdataTag := x.lsuWdataTag
  tcrLoadCheck := x.tcrLoadCheck
  dataRdataTag := x.dataRdataTag

def lsuIn : LsuIn := d.path.lsuIn (d.pathIn x)

def request : ObiReq := d.path.request (d.pathIn x)

def granted : Bool := (d.request x).req && x.gnt

/-- The memory after a request: that of `soc_sram`, without an end. -/
def written (m : BitVec 30 → BitVec 32) (r : ObiReq) : BitVec 30 → BitVec 32 :=
  if r.we then Function.update m (wordOf r.addr) (writeWord r.be r.wdata (m (wordOf r.addr)))
  else m

def answer (m : BitVec 30 → BitVec 32) (r : ObiReq) : BitVec 32 :=
  if r.we then 0 else m (wordOf r.addr)

def step : DataSide where
  path := d.path.step (d.pathIn x)
  mem := if d.granted x then written d.mem (d.request x) else d.mem
  unanswered := (if d.rvalid x then d.unanswered.tail else d.unanswered) ++
    (if d.granted x then [answer d.mem (d.request x)] else [])

/-- The unit takes on no more: its last request is granted. -/
def done : Bool := d.path.lsu.lsuReqDoneO (d.lsuIn x)

def rdataValidO : Bool := d.path.lsu.rdataValidO (d.lsuIn x)

def rdataO : BitVec 32 := d.path.dataRdataExt (d.pathIn x).dataRdata

def run (d : DataSide) (i : ℕ → DataSideIn) : ℕ → DataSide := Sync.run step d i

end DataSide

/-! ## The purpose -/

/-- The bytes, and the last access. -/
structure Ledger where
  bytes : BitVec 32 → BitVec 8
  last : LsuAccess

namespace Ledger

def access (g : Ledger) (a : LsuAccess) : Ledger where
  bytes := if a.lsuWe then store a.size g.bytes a.addr a.lsuWdata else g.bytes
  last := a

/-- What the last access loads. -/
def value (g : Ledger) : BitVec 32 := load g.last.size g.bytes g.last.addr g.last.lsuSignExt

end Ledger

namespace DataSide

/-- The accesses of a run, each entered when the unit is done with it. -/
def ledger (d : DataSide) (i : ℕ → DataSideIn) (a : LsuAccess) : ℕ → Ledger
  | 0 => ⟨bytes d.mem, a⟩
  | t + 1 => if (run d i t).done (i t) then (ledger d i a t).access (i t).acc else ledger d i a t

/-- The ID stage holds an access until the unit is done with it, and begins one only when the one
    before is answered. -/
structure Issued (d : DataSide) (i : ℕ → DataSideIn) : Prop where
  held : ∀ t, ((i t).lsuReq = true ∨ (run d i t).path.lsu.lsFsmCs ≠ .idle) →
    (run d i t).done (i t) = false → (i (t + 1)).acc = (i t).acc
  alone : ∀ t, (i t).lsuReq = true → (run d i t).path.lsu.lsFsmCs = .idle →
    (run d i t).unanswered.length ≤ ((run d i t).rvalid (i t)).toNat

/-! ## What an access writes -/

/-- The first word of an access. -/
def first (a : LsuAccess) : BitVec 30 := wordOf a.addr

/-- The word `w` written by the first or the second request of an access. -/
def writeHalf (m : BitVec 30 → BitVec 32) (a : LsuAccess) (w : BitVec 30) (second : Bool) :
    BitVec 30 → BitVec 32 :=
  if a.lsuWe then
    Function.update m w
      (writeWord (dataBe a.lsuType a.offset second) (dataWdata a.lsuWdata a.offset) (m w))
  else m

/-- The memory after the first request, and after a second one. -/
def after1 (m : BitVec 30 → BitVec 32) (a : LsuAccess) : BitVec 30 → BitVec 32 :=
  writeHalf m a (first a) false

def after2 (m : BitVec 30 → BitVec 32) (a : LsuAccess) : BitVec 30 → BitVec 32 :=
  writeHalf (after1 m a) a (first a + 1) true

variable {d : DataSide} {x : DataSideIn} {i : ℕ → DataSideIn} {g : Ledger} {a : LsuAccess}
  {m : BitVec 30 → BitVec 32} {t : ℕ}

theorem after1_of_load (h : a.lsuWe = false) : after1 m a = m := by
  rw [after1, writeHalf, if_neg (by simp [h])]

theorem after2_of_load (h : a.lsuWe = false) : after2 m a = m := by
  rw [after2, writeHalf, if_neg (by simp [h]), after1_of_load h]

/-- The byte enables of the two requests of an access. -/
theorem dataBe_first (a : LsuAccess) {k : ℕ} (hk : k < 4) :
    (dataBe a.lsuType a.offset false).getLsbD k = true ↔
      a.offset.toNat ≤ k ∧ k < a.offset.toNat + a.size := by
  have h := dataBe_bytes
    ⟨false, false, a.lsuType, a.addr, false, false, false, false, false, false, false⟩ k (by omega)
  rwa [writesByte, if_pos hk] at h

theorem dataBe_second (a : LsuAccess) {k : ℕ} (hk : k < 4) :
    (a.split && (dataBe a.lsuType a.offset true).getLsbD k) = true ↔
      k + 4 < a.offset.toNat + a.size := by
  have h := dataBe_bytes
    ⟨false, false, a.lsuType, a.addr, false, false, false, false, false, false, false⟩ (k + 4)
    (by omega)
  rw [writesByte, if_neg (by omega), Nat.add_sub_cancel] at h
  have ho := a.offset.isLt
  refine h.trans ⟨fun hk' => hk'.2, fun hk' => ⟨?_, hk'⟩⟩
  change a.offset.toNat ≤ k + 4
  omega

theorem size_le (a : LsuAccess) : a.size ≤ 4 := by
  unfold LsuAccess.size accessSize
  split_ifs <;> decide

theorem byte_store (v : BitVec 32) (o : BitVec 2) {k : ℕ} (hk : k < 4) :
    byte (dataWdata v o) k = byte v (if o.toNat ≤ k then k - o.toNat else k + 4 - o.toNat) := by
  rw [dataWdata_eq, byte_turn hk]
  rcases place_cases o with rfl | rfl | rfl | rfl <;> interval_cases k <;> rfl

/-- What the two requests of a store write. -/
theorem bytes_after1 (m : BitVec 30 → BitVec 32) (h : a.lsuWe = true) (y : BitVec 32) :
    bytes (after1 m a) y = if wordOf y = first a ∧ a.offset.toNat ≤ (laneOf y).toNat ∧
      (laneOf y).toNat < a.offset.toNat + a.size then byte a.lsuWdata (y - a.addr).toNat
    else bytes m y := by
  rw [after1, writeHalf, if_pos h, bytes_update]
  simp only [dataBe_first a (laneOf y).isLt]
  split_ifs with hc
  · rw [byte_store _ _ (laneOf y).isLt, if_pos hc.2.1, sub_toNat_same hc.1 hc.2.1]
    rfl
  · rfl

theorem bytes_after2 (m : BitVec 30 → BitVec 32) (h : a.lsuWe = true) (hs : a.split = true)
    (y : BitVec 32) :
    bytes (after2 m a) y = if wordOf y = first a + 1 ∧
      (laneOf y).toNat + 4 < a.offset.toNat + a.size then byte a.lsuWdata (y - a.addr).toNat
    else bytes (after1 m a) y := by
  have hbe := dataBe_second a (laneOf y).isLt
  rw [hs, Bool.true_and] at hbe
  rw [after2, writeHalf, if_pos h, bytes_update]
  simp only [hbe]
  split_ifs with hc
  · have hsize := size_le a
    rw [byte_store _ _ (laneOf y).isLt, if_neg (by omega), sub_toNat_next hc.1]
    rfl
  · rfl

/-- A store that is granted writes its bytes, in one word or in two. -/
theorem bytes_written (m : BitVec 30 → BitVec 32) (h : a.lsuWe = true) :
    bytes (if a.split then after2 m a else after1 m a) =
      store a.size (bytes m) a.addr a.lsuWdata := by
  funext y
  have hcover : (y - a.addr).toNat < a.size ↔ _ := sub_lt_iff (size_le a)
  have hsecond := dataBe_second a (laneOf y).isLt
  rw [store]
  cases hs : a.split with
  | false =>
    rw [hs, Bool.false_and] at hsecond
    rw [if_neg Bool.false_ne_true, bytes_after1 m h]
    refine if_congr ?_ rfl rfl
    rw [hcover]
    exact ⟨.inl, fun hc => hc.resolve_right fun hn => absurd (hsecond.2 hn.2) Bool.false_ne_true⟩
  | true =>
    rw [if_pos rfl, bytes_after2 m h hs, bytes_after1 m h]
    by_cases h₂ : wordOf y = first a + 1 ∧ (laneOf y).toNat + 4 < a.offset.toNat + a.size
    · rw [if_pos h₂, if_pos (hcover.2 (.inr h₂))]
    · rw [if_neg h₂]
      refine if_congr ?_ rfl rfl
      rw [hcover]
      exact ⟨.inl, fun hc => hc.resolve_right h₂⟩

/-- The bytes after an access that is granted. -/
theorem bytes_access (hm : bytes m = g.bytes) :
    bytes (if a.split then after2 m a else after1 m a) = (g.access a).bytes := by
  cases h : a.lsuWe with
  | false => simp [after1_of_load h, after2_of_load h, Ledger.access, h, hm]
  | true => rw [bytes_written m h, hm, Ledger.access, if_pos h]

/-! ## The requests -/

theorem wordOf_dataAddrO (y : LsuIn) : wordOf (Lsu.dataAddrO y) = wordOf y.adderResult := by
  apply BitVec.eq_of_getLsbD_eq
  intro j hj
  simp only [wordOf, Lsu.dataAddrO, BitVec.getLsbD_extractLsb', BitVec.getLsbD_append, hj]
  grind

theorem adderResult_first (h : d.path.lsu.addrIncrReqO = false) :
    d.path.adderResult (d.pathIn x) = x.acc.addr := by
  rw [LsuData.adderResult, h, if_neg Bool.false_ne_true]
  rfl

theorem adderResult_second (h : d.path.lsu.addrIncrReqO = true)
    (hl : d.path.addrLastQ = x.acc.addr) :
    d.path.adderResult (d.pathIn x) = x.acc.addr + 4 := by
  rw [LsuData.adderResult, h, if_pos rfl, hl]

/-- A first request. -/
theorem written_first (h : d.path.lsu.addrIncrReqO = false)
    (hh : d.path.lsu.handleMisalignedQ = false) :
    written d.mem (d.request x) = after1 d.mem x.acc ∧
      answer d.mem (d.request x) = if x.acc.lsuWe then 0 else d.mem (first x.acc) := by
  have ha : (d.lsuIn x).adderResult = x.acc.addr := adderResult_first h
  have hw : wordOf (d.request x).addr = first x.acc := by
    change wordOf (Lsu.dataAddrO (d.lsuIn x)) = _
    rw [wordOf_dataAddrO, ha]
    rfl
  have ho : (d.lsuIn x).dataOffset = x.acc.offset := by
    rw [LsuIn.dataOffset, ha]
    rfl
  have hb : (d.request x).be = dataBe x.acc.lsuType x.acc.offset false := by
    change dataBe x.acc.lsuType (d.lsuIn x).dataOffset d.path.lsu.handleMisalignedQ = _
    rw [ho, hh]
  have hd : (d.request x).wdata = dataWdata x.acc.lsuWdata x.acc.offset := by
    change dataWdata x.acc.lsuWdata (d.lsuIn x).dataOffset = _
    rw [ho]
  have he : (d.request x).we = x.acc.lsuWe := rfl
  rw [written, answer, hw, hb, hd, he]
  exact ⟨rfl, rfl⟩

/-- A second request. -/
theorem written_second (h : d.path.lsu.addrIncrReqO = true)
    (hl : d.path.addrLastQ = x.acc.addr) (hh : d.path.lsu.handleMisalignedQ = true) :
    written d.mem (d.request x) = writeHalf d.mem x.acc (first x.acc + 1) true ∧
      answer d.mem (d.request x) = if x.acc.lsuWe then 0 else d.mem (first x.acc + 1) := by
  have ha : (d.lsuIn x).adderResult = x.acc.addr + 4 := adderResult_second h hl
  have hw : wordOf (d.request x).addr = first x.acc + 1 := by
    change wordOf (Lsu.dataAddrO (d.lsuIn x)) = _
    rw [wordOf_dataAddrO, ha, wordOf_add_four]
    rfl
  have ho : (d.lsuIn x).dataOffset = x.acc.offset := by
    rw [LsuIn.dataOffset, ha]
    exact laneOf_add_four x.acc.addr
  have hb : (d.request x).be = dataBe x.acc.lsuType x.acc.offset true := by
    change dataBe x.acc.lsuType (d.lsuIn x).dataOffset d.path.lsu.handleMisalignedQ = _
    rw [ho, hh]
  have hd : (d.request x).wdata = dataWdata x.acc.lsuWdata x.acc.offset := by
    change dataWdata x.acc.lsuWdata (d.lsuIn x).dataOffset = _
    rw [ho]
  have he : (d.request x).we = x.acc.lsuWe := rfl
  rw [written, answer, hw, hb, hd, he]
  exact ⟨rfl, rfl⟩

/-! ## Where an access is -/

/-- The first request of a split access is granted; `m` is the memory before it. -/
structure Begun (d : DataSide) (g : Ledger) (a : LsuAccess) (m : BitVec 30 → BitVec 32) :
    Prop where
  bytes : ByteMem.bytes m = g.bytes
  split : a.split = true
  offset : d.path.rdataOffsetQ = a.offset
  type : d.path.dataTypeQ = a.lsuType
  signExt : d.path.dataSignExtQ = a.lsuSignExt
  we : d.path.lsu.dataWeQ = a.lsuWe
  addrLast : d.path.addrLastQ = a.addr

/-- `w` is the last word of the last access. -/
structure Answers (d : DataSide) (g : Ledger) (w : BitVec 32) : Prop where
  we : d.path.lsu.dataWeQ = g.last.lsuWe
  recorded : g.last.lsuWe = false → d.path.Recorded g.last (d.mem (first g.last))
  word : g.last.lsuWe = false →
    w = LsuData.lastWord g.last (d.mem (first g.last)) (d.mem (first g.last + 1))

/-- Where the access `a` is, after those of the ledger. -/
inductive Reached (d : DataSide) (g : Ledger) (a : LsuAccess) : Prop
  | idle (hc : d.path.lsu.lsFsmCs = .idle) (hh : d.path.lsu.handleMisalignedQ = false)
      (hb : bytes d.mem = g.bytes) (hu : d.unanswered = [])
  | answering (w : BitVec 32) (hc : d.path.lsu.lsFsmCs = .idle)
      (hh : d.path.lsu.handleMisalignedQ = false) (hb : bytes d.mem = g.bytes)
      (hu : d.unanswered = [w]) (ha : Answers d g w)
  | waitGntMis (hc : d.path.lsu.lsFsmCs = .waitGntMis)
      (hh : d.path.lsu.handleMisalignedQ = false) (hs : a.split = true)
      (hb : bytes d.mem = g.bytes) (hu : d.unanswered = [])
  | waitGnt (hc : d.path.lsu.lsFsmCs = .waitGnt) (hh : d.path.lsu.handleMisalignedQ = false)
      (hs : a.split = false) (hb : bytes d.mem = g.bytes) (hu : d.unanswered = [])
  | waitGntSecond (m : BitVec 30 → BitVec 32) (hc : d.path.lsu.lsFsmCs = .waitGnt)
      (hh : d.path.lsu.handleMisalignedQ = true) (b : Begun d g a m) (hm : d.mem = after1 m a)
      (hr : a.lsuWe = false → d.path.rdataQ = (m (first a)).extractLsb' 8 24)
      (hu : d.unanswered = [])
  | waitRvalidMis (m : BitVec 30 → BitVec 32) (w : BitVec 32)
      (hc : d.path.lsu.lsFsmCs = .waitRvalidMis) (hh : d.path.lsu.handleMisalignedQ = true)
      (b : Begun d g a m) (hm : d.mem = after1 m a) (hu : d.unanswered = [w])
      (hw : a.lsuWe = false → w = m (first a))
  | gntsDone (m : BitVec 30 → BitVec 32) (w w' : BitVec 32)
      (hc : d.path.lsu.lsFsmCs = .waitRvalidMisGntsDone)
      (hh : d.path.lsu.handleMisalignedQ = false) (b : Begun d g a m) (hm : d.mem = after2 m a)
      (hu : d.unanswered = [w, w']) (hw : a.lsuWe = false → w = m (first a))
      (hw' : a.lsuWe = false → w' = m (first a + 1))

/-- The ledger after a cycle. -/
def entered (d : DataSide) (g : Ledger) (x : DataSideIn) : Ledger :=
  if d.done x then g.access x.acc else g

/-- Between two accesses it does not matter which one comes next. -/
theorem Reached.congr {a' : LsuAccess} (h : Reached d g a)
    (ha : d.path.lsu.lsFsmCs ≠ .idle → a' = a) : Reached d g a' := by
  cases h with
  | idle hc hh hb hu => exact .idle hc hh hb hu
  | answering w hc hh hb hu ha' => exact .answering w hc hh hb hu ha'
  | waitGntMis hc hh hs hb hu =>
    rw [ha (by simp [hc])]
    exact .waitGntMis hc hh hs hb hu
  | waitGnt hc hh hs hb hu =>
    rw [ha (by simp [hc])]
    exact .waitGnt hc hh hs hb hu
  | waitGntSecond m hc hh b hm hr hu =>
    rw [ha (by simp [hc])]
    exact .waitGntSecond m hc hh b hm hr hu
  | waitRvalidMis m w hc hh b hm hu hw =>
    rw [ha (by simp [hc])]
    exact .waitRvalidMis m w hc hh b hm hu hw
  | gntsDone m w w' hc hh b hm hu hw hw' =>
    rw [ha (by simp [hc])]
    exact .gntsDone m w w' hc hh b hm hu hw hw'

/-! ## One cycle -/

theorem split_eq (h : d.path.lsu.addrIncrReqO = false) :
    (d.lsuIn x).splitMisalignedAccess = x.acc.split := by
  have ha : (d.lsuIn x).adderResult = x.acc.addr := adderResult_first h
  rw [LsuIn.splitMisalignedAccess, LsuIn.dataOffset, ha]
  rfl

theorem offset_eq (h : d.path.lsu.addrIncrReqO = false) :
    (d.lsuIn x).dataOffset = x.acc.offset := by
  have ha : (d.lsuIn x).adderResult = x.acc.addr := adderResult_first h
  rw [LsuIn.dataOffset, ha]
  rfl

theorem offset_eq_second (h : d.path.lsu.addrIncrReqO = true)
    (hl : d.path.addrLastQ = x.acc.addr) : (d.lsuIn x).dataOffset = x.acc.offset := by
  have ha : (d.lsuIn x).adderResult = x.acc.addr + 4 := adderResult_second h hl
  rw [LsuIn.dataOffset, ha]
  exact laneOf_add_four x.acc.addr

theorem step_offset : (d.step x).path.rdataOffsetQ =
    if d.path.lsu.ctrlUpdate (d.lsuIn x) then (d.lsuIn x).dataOffset else d.path.rdataOffsetQ := rfl

theorem step_type : (d.step x).path.dataTypeQ =
    if d.path.lsu.ctrlUpdate (d.lsuIn x) then x.acc.lsuType else d.path.dataTypeQ := rfl

theorem step_signExt : (d.step x).path.dataSignExtQ =
    if d.path.lsu.ctrlUpdate (d.lsuIn x) then x.acc.lsuSignExt else d.path.dataSignExtQ := rfl

theorem step_we : (d.step x).path.lsu.dataWeQ =
    if d.path.lsu.ctrlUpdate (d.lsuIn x) then x.acc.lsuWe else d.path.lsu.dataWeQ := rfl

theorem step_rdataQ : (d.step x).path.rdataQ =
    if d.path.lsu.rdataUpdate (d.lsuIn x) then
      (d.unanswered.headD x.idleRdata).extractLsb' 8 24
    else d.path.rdataQ := rfl

theorem step_addrLast : (d.step x).path.addrLastQ =
    if d.path.addrUpdate (d.pathIn x) then d.path.addrLastD (d.pathIn x)
    else d.path.addrLastQ := rfl

theorem step_mem : (d.step x).mem =
    if d.granted x then written d.mem (d.request x) else d.mem := rfl

theorem step_unanswered : (d.step x).unanswered =
    (if d.rvalid x then d.unanswered.tail else d.unanswered) ++
      (if d.granted x then [answer d.mem (d.request x)] else []) := rfl

theorem granted_eq : d.granted x = (d.path.lsu.dataReqO (d.lsuIn x) && x.gnt) := rfl

theorem done_eq : d.done x = ((x.lsuReq || d.path.lsu.lsFsmCs != .idle) &&
    (d.step x).path.lsu.lsFsmCs == .idle) := rfl

theorem entered_done (hreq : (x.lsuReq || d.path.lsu.lsFsmCs != .idle) = true)
    (hns : (d.step x).path.lsu.lsFsmCs = .idle) : d.entered g x = g.access x.acc := by
  have hd : d.done x = true := by rw [done_eq, hreq, hns]; rfl
  rw [entered, hd, if_pos rfl]

theorem entered_busy (hns : (d.step x).path.lsu.lsFsmCs ≠ .idle) : d.entered g x = g := by
  have hd : d.done x = false := by rw [done_eq, beq_eq_false_iff_ne.2 hns, Bool.and_false]
  rw [entered, hd, if_neg Bool.false_ne_true]

/-- The words of the last access stay while nothing is granted. -/
theorem Answers.step {w : BitVec 32} (h : Answers d g w)
    (hc : d.path.lsu.ctrlUpdate (d.lsuIn x) = false)
    (hr : d.path.lsu.rdataUpdate (d.lsuIn x) = false) (hm : (d.step x).mem = d.mem) :
    Answers (d.step x) g w := by
  refine ⟨by rw [step_we, hc]; exact h.we, fun hl => ?_, fun hl => by rw [hm]; exact h.word hl⟩
  obtain ⟨ho, ht, hs, hf⟩ := h.recorded hl
  refine ⟨by rw [step_offset, hc]; exact ho, by rw [step_type, hc]; exact ht,
    by rw [step_signExt, hc]; exact hs, fun hsp => ?_⟩
  rw [step_rdataQ, hr, hm]
  exact hf hsp

/-- A cycle without a request. -/
theorem quiet_step (hc : d.path.lsu.lsFsmCs = .idle) (hh : d.path.lsu.handleMisalignedQ = false)
    (hb : bytes d.mem = g.bytes)
    (hu : d.unanswered = [] ∨ ∃ w, d.unanswered = [w] ∧ Answers d g w)
    (hr : x.lsuReq = false) : Reached (d.step x) (d.entered g x) x.acc := by
  have hreq : (d.lsuIn x).lsuReq = false := hr
  have hg : d.granted x = false := by simp [granted_eq, Lsu.dataReqO, hc, hreq]
  have hns : (d.step x).path.lsu.lsFsmCs = .idle := by
    change d.path.lsu.lsFsmNs (d.lsuIn x) = _
    simp [Lsu.lsFsmNs, hc, hreq]
  have hmis : (d.step x).path.lsu.handleMisalignedQ = false := by
    change d.path.lsu.handleMisalignedD (d.lsuIn x) = _
    simp [Lsu.handleMisalignedD, hc, hreq, hh]
  have hmem : (d.step x).mem = d.mem := by rw [step_mem, hg, if_neg Bool.false_ne_true]
  rw [entered, done_eq, hr, hc]
  rcases hu with hu | ⟨w, hu, ha⟩
  · exact .idle hns hmis (by rw [hmem]; exact hb) (by simp [step_unanswered, hg, hu])
  · cases hv : x.answers with
    | true =>
      exact .idle hns hmis (by rw [hmem]; exact hb)
        (by simp [step_unanswered, hg, rvalid, hu, hv])
    | false =>
      exact .answering w hns hmis (by rw [hmem]; exact hb)
        (by simp [step_unanswered, hg, rvalid, hu, hv])
        (ha.step (by simp [Lsu.ctrlUpdate, hc, hreq]) (by simp [Lsu.rdataUpdate, hc]) hmem)

/-- A first request that waits or is made, with nothing unanswered once the cycle's answer is
    taken. -/
structure Requests (d : DataSide) (x : DataSideIn) (g : Ledger) : Prop where
  incr : d.path.lsu.addrIncrReqO = false
  misaligned : d.path.lsu.handleMisalignedQ = false
  bytes : ByteMem.bytes d.mem = g.bytes
  popped : (if d.rvalid x then d.unanswered.tail else d.unanswered) = []
  rdata : d.path.lsu.rdataUpdate (d.lsuIn x) = false

/-- The first request of a split access is granted. -/
theorem Requests.split (h : Requests d x g) (hg : d.granted x = true)
    (hctrl : d.path.lsu.ctrlUpdate (d.lsuIn x) = true)
    (haddr : d.path.addrUpdate (d.pathIn x) = true) (hs : x.acc.split = true)
    (hns : (d.step x).path.lsu.lsFsmCs = .waitRvalidMis)
    (hmis : (d.step x).path.lsu.handleMisalignedQ = true) :
    Reached (d.step x) (d.entered g x) x.acc := by
  obtain ⟨hw, ha⟩ := written_first (x := x) h.incr h.misaligned
  rw [entered_busy (by simp [hns])]
  refine .waitRvalidMis d.mem (answer d.mem (d.request x)) hns hmis
    ⟨h.bytes, hs, ?_, ?_, ?_, ?_, ?_⟩ ?_ ?_ ?_
  · rw [step_offset, hctrl, if_pos rfl, offset_eq h.incr]
  · rw [step_type, hctrl, if_pos rfl]
  · rw [step_signExt, hctrl, if_pos rfl]
  · rw [step_we, hctrl, if_pos rfl]
  · rw [step_addrLast, haddr, if_pos rfl, LsuData.addrLastD, h.incr,
      if_neg Bool.false_ne_true, adderResult_first h.incr]
  · rw [step_mem, hg, if_pos rfl, hw]
  · rw [step_unanswered, h.popped, hg, if_pos rfl]
    rfl
  · intro hl
    rw [ha, hl, if_neg Bool.false_ne_true]

/-- The only request of an access is granted. -/
theorem Requests.whole (h : Requests d x g) (hg : d.granted x = true)
    (hctrl : d.path.lsu.ctrlUpdate (d.lsuIn x) = true) (hs : x.acc.split = false)
    (hns : (d.step x).path.lsu.lsFsmCs = .idle)
    (hmis : (d.step x).path.lsu.handleMisalignedQ = false)
    (hreq : (x.lsuReq || d.path.lsu.lsFsmCs != .idle) = true) :
    Reached (d.step x) (d.entered g x) x.acc := by
  obtain ⟨hw, ha⟩ := written_first (x := x) h.incr h.misaligned
  have hmem : (d.step x).mem = after1 d.mem x.acc := by rw [step_mem, hg, if_pos rfl, hw]
  rw [entered_done hreq hns]
  refine .answering (answer d.mem (d.request x)) hns hmis ?_ ?_
    ⟨?_, fun hl => ⟨?_, ?_, ?_, fun hsp => ?_⟩, fun hl => ?_⟩
  · rw [hmem, ← bytes_access h.bytes, hs, if_neg Bool.false_ne_true]
  · rw [step_unanswered, h.popped, hg, if_pos rfl]
    rfl
  · rw [step_we, hctrl, if_pos rfl]
    rfl
  · rw [step_offset, hctrl, if_pos rfl, offset_eq h.incr]
    rfl
  · rw [step_type, hctrl, if_pos rfl]
    rfl
  · rw [step_signExt, hctrl, if_pos rfl]
    rfl
  · exact absurd (hs.symm.trans hsp) Bool.false_ne_true
  · change x.acc.lsuWe = false at hl
    change _ = if x.acc.split then _ else (d.step x).mem (first x.acc)
    rw [ha, hl, hs, if_neg Bool.false_ne_true, if_neg Bool.false_ne_true, hmem,
      after1_of_load hl]

/-- A first request is not granted. -/
theorem Requests.waits (h : Requests d x g) (hg : d.granted x = false)
    (hns : (d.step x).path.lsu.lsFsmCs = if x.acc.split then .waitGntMis else .waitGnt)
    (hmis : (d.step x).path.lsu.handleMisalignedQ = false) :
    Reached (d.step x) (d.entered g x) x.acc := by
  have hmem : (d.step x).mem = d.mem := by rw [step_mem, hg, if_neg Bool.false_ne_true]
  have hu : (d.step x).unanswered = [] := by rw [step_unanswered, h.popped, hg]; rfl
  cases hs : x.acc.split with
  | true =>
    rw [hs, if_pos rfl] at hns
    rw [entered_busy (by simp [hns])]
    exact .waitGntMis hns hmis hs (by rw [hmem]; exact h.bytes) hu
  | false =>
    rw [hs, if_neg Bool.false_ne_true] at hns
    rw [entered_busy (by simp [hns])]
    exact .waitGnt hns hmis hs (by rw [hmem]; exact h.bytes) hu

/-- The access is over with its second request. -/
theorem Begun.ends {m : BitVec 30 → BitVec 32} {w : BitVec 32} (b : Begun d g x.acc m)
    (hreq : (x.lsuReq || d.path.lsu.lsFsmCs != .idle) = true)
    (hns : (d.step x).path.lsu.lsFsmCs = .idle)
    (hmis : (d.step x).path.lsu.handleMisalignedQ = false)
    (hm : (d.step x).mem = after2 m x.acc) (hu : (d.step x).unanswered = [w])
    (ho : (d.step x).path.rdataOffsetQ = x.acc.offset)
    (ht : (d.step x).path.dataTypeQ = x.acc.lsuType)
    (hs : (d.step x).path.dataSignExtQ = x.acc.lsuSignExt)
    (he : (d.step x).path.lsu.dataWeQ = x.acc.lsuWe)
    (hr : x.acc.lsuWe = false → (d.step x).path.rdataQ = (m (first x.acc)).extractLsb' 8 24)
    (hw : x.acc.lsuWe = false → w = m (first x.acc + 1)) :
    Reached (d.step x) (d.entered g x) x.acc := by
  rw [entered_done hreq hns]
  refine .answering w hns hmis ?_ hu ⟨he, fun hl => ⟨ho, ht, hs, fun _ => ?_⟩, fun hl => ?_⟩
  · rw [hm, ← bytes_access b.bytes, b.split, if_pos rfl]
  · change x.acc.lsuWe = false at hl
    change _ = ((d.step x).mem (first x.acc)).extractLsb' 8 24
    rw [hr hl, hm, after2_of_load hl]
  · change x.acc.lsuWe = false at hl
    change w = if x.acc.split then (d.step x).mem (first x.acc + 1) else _
    rw [b.split, if_pos rfl, hw hl, hm, after2_of_load hl]

theorem idle_step (hc : d.path.lsu.lsFsmCs = .idle) (hh : d.path.lsu.handleMisalignedQ = false)
    (hb : bytes d.mem = g.bytes) (hr : x.lsuReq = true)
    (hu : (if d.rvalid x then d.unanswered.tail else d.unanswered) = []) :
    Reached (d.step x) (d.entered g x) x.acc := by
  have hreq : (d.lsuIn x).lsuReq = true := hr
  have hgnt : (d.lsuIn x).dataGnt = x.gnt := rfl
  have hincr : d.path.lsu.addrIncrReqO = false := by simp [Lsu.addrIncrReqO, hc]
  have hsplit := split_eq (x := x) hincr
  have hq : Requests d x g := ⟨hincr, hh, hb, hu, by simp [Lsu.rdataUpdate, hc]⟩
  have hns : (d.step x).path.lsu.lsFsmCs = d.path.lsu.lsFsmNs (d.lsuIn x) := rfl
  have hmis : (d.step x).path.lsu.handleMisalignedQ =
      d.path.lsu.handleMisalignedD (d.lsuIn x) := rfl
  rw [Lsu.lsFsmNs, hc] at hns
  rw [Lsu.handleMisalignedD, hc] at hmis
  simp only [hreq, hgnt, hsplit, reduceIte, Bool.true_and] at hns hmis
  have hg : d.granted x = x.gnt := by simp [granted_eq, Lsu.dataReqO, hc, hreq]
  cases hgn : x.gnt with
  | true =>
    rw [hgn] at hns hmis hg
    have hctrl : d.path.lsu.ctrlUpdate (d.lsuIn x) = true := by
      simp [Lsu.ctrlUpdate, hc, hreq, hgnt, hgn]
    cases hs : x.acc.split with
    | true =>
      rw [hs] at hns hmis
      have haddr : d.path.addrUpdate (d.pathIn x) = true := by
        simp [LsuData.addrUpdate, hc, pathIn, hr, hgn]
      exact hq.split hg hctrl haddr hs hns hmis
    | false =>
      rw [hs] at hns hmis
      exact hq.whole hg hctrl hs hns hmis (by rw [hr]; rfl)
  | false =>
    rw [hgn] at hns hmis hg
    exact hq.waits hg hns (by rw [hmis]; exact hh)

theorem waitGntMis_step (hp : d.path.lsu.pmpErrQ = false) (hc : d.path.lsu.lsFsmCs = .waitGntMis)
    (hh : d.path.lsu.handleMisalignedQ = false) (hs : x.acc.split = true)
    (hb : bytes d.mem = g.bytes) (hu : d.unanswered = []) :
    Reached (d.step x) (d.entered g x) x.acc := by
  have hgnt : (d.lsuIn x).dataGnt = x.gnt := rfl
  have hq : Requests d x g := ⟨by simp [Lsu.addrIncrReqO, hc], hh, hb, by simp [rvalid, hu],
    by simp [Lsu.rdataUpdate, hc]⟩
  have hns : (d.step x).path.lsu.lsFsmCs = d.path.lsu.lsFsmNs (d.lsuIn x) := rfl
  have hmis : (d.step x).path.lsu.handleMisalignedQ =
      d.path.lsu.handleMisalignedD (d.lsuIn x) := rfl
  rw [Lsu.lsFsmNs, hc] at hns
  rw [Lsu.handleMisalignedD, hc] at hmis
  simp only [hgnt, hp, Bool.or_false] at hns hmis
  have hg : d.granted x = x.gnt := by simp [granted_eq, Lsu.dataReqO, hc]
  cases hgn : x.gnt with
  | true =>
    rw [hgn] at hns hmis hg
    exact hq.split hg (by simp [Lsu.ctrlUpdate, hc, hgnt, hgn])
      (by simp [LsuData.addrUpdate, hc, pathIn, hgn]) hs hns hmis
  | false =>
    rw [hgn] at hns hmis hg
    exact hq.waits hg (by rw [hs]; exact hns) (by rw [hmis]; exact hh)

theorem waitGnt_step (hp : d.path.lsu.pmpErrQ = false) (hc : d.path.lsu.lsFsmCs = .waitGnt)
    (hh : d.path.lsu.handleMisalignedQ = false) (hs : x.acc.split = false)
    (hb : bytes d.mem = g.bytes) (hu : d.unanswered = []) :
    Reached (d.step x) (d.entered g x) x.acc := by
  have hgnt : (d.lsuIn x).dataGnt = x.gnt := rfl
  have hq : Requests d x g := ⟨by simp [Lsu.addrIncrReqO, hc, hh], hh, hb,
    by simp [rvalid, hu], by simp [Lsu.rdataUpdate, hc]⟩
  have hns : (d.step x).path.lsu.lsFsmCs = d.path.lsu.lsFsmNs (d.lsuIn x) := rfl
  have hmis : (d.step x).path.lsu.handleMisalignedQ =
      d.path.lsu.handleMisalignedD (d.lsuIn x) := rfl
  rw [Lsu.lsFsmNs, hc] at hns
  rw [Lsu.handleMisalignedD, hc] at hmis
  simp only [hgnt, hp, Bool.or_false] at hns hmis
  have hg : d.granted x = x.gnt := by simp [granted_eq, Lsu.dataReqO, hc]
  cases hgn : x.gnt with
  | true =>
    rw [hgn] at hns hmis hg
    exact hq.whole hg (by simp [Lsu.ctrlUpdate, hc, hgnt, hgn]) hs hns hmis (by simp [hc])
  | false =>
    rw [hgn] at hns hmis hg
    exact hq.waits hg (by rw [hs]; exact hns) (by rw [hmis]; exact hh)

theorem waitGntSecond_step {m : BitVec 30 → BitVec 32} (hp : d.path.lsu.pmpErrQ = false)
    (hc : d.path.lsu.lsFsmCs = .waitGnt) (hh : d.path.lsu.handleMisalignedQ = true)
    (b : Begun d g x.acc m) (hm : d.mem = after1 m x.acc)
    (hr : x.acc.lsuWe = false → d.path.rdataQ = (m (first x.acc)).extractLsb' 8 24)
    (hu : d.unanswered = []) : Reached (d.step x) (d.entered g x) x.acc := by
  have hgnt : (d.lsuIn x).dataGnt = x.gnt := rfl
  have hincr : d.path.lsu.addrIncrReqO = true := by simp [Lsu.addrIncrReqO, hc, hh]
  obtain ⟨hw, ha⟩ := written_second hincr b.addrLast hh
  have hv : d.rvalid x = false := by simp [rvalid, hu]
  have hrdata : (d.step x).path.rdataQ = d.path.rdataQ := by
    rw [step_rdataQ, if_neg (by simp [Lsu.rdataUpdate, hc])]
  have hns : (d.step x).path.lsu.lsFsmCs = d.path.lsu.lsFsmNs (d.lsuIn x) := rfl
  have hmis : (d.step x).path.lsu.handleMisalignedQ =
      d.path.lsu.handleMisalignedD (d.lsuIn x) := rfl
  have hctrl : d.path.lsu.ctrlUpdate (d.lsuIn x) = x.gnt := by
    simp [Lsu.ctrlUpdate, hc, hgnt, hp]
  rw [Lsu.lsFsmNs, hc] at hns
  rw [Lsu.handleMisalignedD, hc] at hmis
  simp only [hgnt, hp, Bool.or_false] at hns hmis
  have hg : d.granted x = x.gnt := by simp [granted_eq, Lsu.dataReqO, hc]
  cases hgn : x.gnt with
  | true =>
    rw [hgn] at hns hmis hg hctrl
    refine b.ends (w := answer d.mem (d.request x)) (by simp [hc]) hns hmis ?_ ?_ ?_ ?_ ?_ ?_ ?_ ?_
    · rw [step_mem, hg, if_pos rfl, hw, hm]
      rfl
    · rw [step_unanswered, hv, hg, hu]
      rfl
    · rw [step_offset, hctrl, if_pos rfl, offset_eq_second hincr b.addrLast]
    · rw [step_type, hctrl, if_pos rfl]
    · rw [step_signExt, hctrl, if_pos rfl]
    · rw [step_we, hctrl, if_pos rfl]
    · intro hl
      rw [hrdata, hr hl]
    · intro hl
      rw [ha, hl, if_neg Bool.false_ne_true, hm, after1_of_load hl]
  | false =>
    rw [hgn] at hns hmis hg hctrl
    rw [entered_busy (by rw [hns]; decide)]
    refine .waitGntSecond m hns (by rw [hmis]; exact hh) ⟨b.bytes, b.split, ?_, ?_, ?_, ?_, ?_⟩
      ?_ ?_ ?_
    · rw [step_offset, hctrl]
      exact b.offset
    · rw [step_type, hctrl]
      exact b.type
    · rw [step_signExt, hctrl]
      exact b.signExt
    · rw [step_we, hctrl]
      exact b.we
    · rw [step_addrLast, if_neg (by simp [LsuData.addrUpdate, hc, pathIn, hgn, hp])]
      exact b.addrLast
    · rw [step_mem, hg]
      exact hm
    · intro hl
      rw [hrdata, hr hl]
    · rw [step_unanswered, hv, hg, hu]
      rfl

/-- The registers of the access stay in the cycles that wait for its first word. -/
theorem Begun.kept {m : BitVec 30 → BitVec 32} (b : Begun d g a m)
    (hctrl : d.path.lsu.ctrlUpdate (d.lsuIn x) = false)
    (haddr : d.path.addrUpdate (d.pathIn x) = false) : Begun (d.step x) g a m := by
  refine ⟨b.bytes, b.split, ?_, ?_, ?_, ?_, ?_⟩
  · rw [step_offset, hctrl]
    exact b.offset
  · rw [step_type, hctrl]
    exact b.type
  · rw [step_signExt, hctrl]
    exact b.signExt
  · rw [step_we, hctrl]
    exact b.we
  · rw [step_addrLast, haddr]
    exact b.addrLast

theorem waitRvalidMis_step {m : BitVec 30 → BitVec 32} {w : BitVec 32}
    (hp : d.path.lsu.pmpErrQ = false) (hc : d.path.lsu.lsFsmCs = .waitRvalidMis)
    (hh : d.path.lsu.handleMisalignedQ = true) (b : Begun d g x.acc m)
    (hm : d.mem = after1 m x.acc) (hu : d.unanswered = [w])
    (hw : x.acc.lsuWe = false → w = m (first x.acc)) :
    Reached (d.step x) (d.entered g x) x.acc := by
  have hgnt : (d.lsuIn x).dataGnt = x.gnt := rfl
  have hrv : (d.lsuIn x).dataRvalid = x.answers := by
    change d.rvalid x = x.answers
    simp [rvalid, hu]
  have hincr : d.path.lsu.addrIncrReqO = true := by simp [Lsu.addrIncrReqO, hc]
  obtain ⟨hw₂, ha₂⟩ := written_second hincr b.addrLast hh
  have hv : d.rvalid x = x.answers := by simp [rvalid, hu]
  have hctrl : d.path.lsu.ctrlUpdate (d.lsuIn x) = false := by simp [Lsu.ctrlUpdate, hc]
  have hg : d.granted x = x.gnt := by simp [granted_eq, Lsu.dataReqO, hc]
  have hrdata : x.answers = true → x.acc.lsuWe = false →
      (d.step x).path.rdataQ = (m (first x.acc)).extractLsb' 8 24 := fun hans hl => by
    rw [step_rdataQ, if_pos (by simp [Lsu.rdataUpdate, hc, hrv, hans, b.we, hl]), hu, ← hw hl]
    rfl
  have hns : (d.step x).path.lsu.lsFsmCs = d.path.lsu.lsFsmNs (d.lsuIn x) := rfl
  have hmis : (d.step x).path.lsu.handleMisalignedQ =
      d.path.lsu.handleMisalignedD (d.lsuIn x) := rfl
  rw [Lsu.lsFsmNs, hc] at hns
  rw [Lsu.handleMisalignedD, hc] at hmis
  simp only [hgnt, hrv, hp, Bool.or_false] at hns hmis
  cases hans : x.answers with
  | true =>
    rw [hans] at hns hmis hv
    cases hgn : x.gnt with
    | true =>
      rw [hgn] at hns hmis hg
      refine b.ends (w := answer d.mem (d.request x)) (by simp [hc]) hns hmis ?_ ?_ ?_ ?_ ?_ ?_
        (hrdata hans) ?_
      · rw [step_mem, hg, if_pos rfl, hw₂, hm]
        rfl
      · rw [step_unanswered, hv, hg, hu]
        rfl
      · rw [step_offset, hctrl]
        exact b.offset
      · rw [step_type, hctrl]
        exact b.type
      · rw [step_signExt, hctrl]
        exact b.signExt
      · rw [step_we, hctrl]
        exact b.we
      · intro hl
        rw [ha₂, hl, if_neg Bool.false_ne_true, hm, after1_of_load hl]
    | false =>
      rw [hgn] at hns hmis hg
      rw [entered_busy (by rw [hns]; decide)]
      refine .waitGntSecond m hns hmis
        (b.kept hctrl (by simp [LsuData.addrUpdate, hc, pathIn, hgn])) ?_ (hrdata hans) ?_
      · rw [step_mem, hg]
        exact hm
      · rw [step_unanswered, hv, hg, hu]
        rfl
  | false =>
    have haddr : d.path.addrUpdate (d.pathIn x) = false := by
      simp [LsuData.addrUpdate, hc, pathIn, hv, hans, hp]
    rw [hans] at hns hmis hv
    cases hgn : x.gnt with
    | true =>
      rw [hgn] at hns hmis hg
      rw [entered_busy (by rw [hns]; decide)]
      refine .gntsDone m w (answer d.mem (d.request x)) hns hmis (b.kept hctrl haddr) ?_ ?_ hw ?_
      · rw [step_mem, hg, if_pos rfl, hw₂, hm]
        rfl
      · rw [step_unanswered, hv, hg, hu]
        rfl
      · intro hl
        rw [ha₂, hl, if_neg Bool.false_ne_true, hm, after1_of_load hl]
    | false =>
      rw [hgn] at hns hmis hg
      rw [entered_busy (by rw [hns]; decide)]
      refine .waitRvalidMis m w hns (by rw [hmis]; exact hh) (b.kept hctrl haddr) ?_ ?_ hw
      · rw [step_mem, hg]
        exact hm
      · rw [step_unanswered, hv, hg, hu]
        rfl

theorem gntsDone_step {m : BitVec 30 → BitVec 32} {w w' : BitVec 32}
    (hc : d.path.lsu.lsFsmCs = .waitRvalidMisGntsDone)
    (hh : d.path.lsu.handleMisalignedQ = false) (b : Begun d g x.acc m)
    (hm : d.mem = after2 m x.acc) (hu : d.unanswered = [w, w'])
    (hw : x.acc.lsuWe = false → w = m (first x.acc))
    (hw' : x.acc.lsuWe = false → w' = m (first x.acc + 1)) :
    Reached (d.step x) (d.entered g x) x.acc := by
  have hv : d.rvalid x = x.answers := by simp [rvalid, hu]
  have hrv : (d.lsuIn x).dataRvalid = x.answers := hv
  have hctrl : d.path.lsu.ctrlUpdate (d.lsuIn x) = false := by simp [Lsu.ctrlUpdate, hc]
  have hg : d.granted x = false := by simp [granted_eq, Lsu.dataReqO, hc]
  have hmem : (d.step x).mem = after2 m x.acc := by rw [step_mem, hg]; exact hm
  have hns : (d.step x).path.lsu.lsFsmCs = d.path.lsu.lsFsmNs (d.lsuIn x) := rfl
  have hmis : (d.step x).path.lsu.handleMisalignedQ =
      d.path.lsu.handleMisalignedD (d.lsuIn x) := rfl
  rw [Lsu.lsFsmNs, hc] at hns
  rw [Lsu.handleMisalignedD, hc] at hmis
  simp only [hrv] at hns hmis
  cases hans : x.answers with
  | true =>
    rw [hans] at hns hv
    refine b.ends (w := w') (by simp [hc]) hns (hmis.trans hh) hmem ?_ ?_ ?_ ?_ ?_ ?_ hw'
    · rw [step_unanswered, hv, hg, hu]
      rfl
    · rw [step_offset, hctrl]
      exact b.offset
    · rw [step_type, hctrl]
      exact b.type
    · rw [step_signExt, hctrl]
      exact b.signExt
    · rw [step_we, hctrl]
      exact b.we
    · intro hl
      rw [step_rdataQ, if_pos (by simp [Lsu.rdataUpdate, hc, hrv, hans, b.we, hl]), hu, ← hw hl]
      rfl
  | false =>
    rw [hans] at hns hv
    rw [entered_busy (by rw [hns]; decide)]
    refine .gntsDone m w w' hns (hmis.trans hh)
      (b.kept hctrl (by simp [LsuData.addrUpdate, hc, pathIn, hv])) hmem ?_ hw hw'
    rw [step_unanswered, hv, hg, hu]
    rfl

/-- One cycle, in any state. -/
theorem Reached.step (h : Reached d g x.acc) (hp : d.path.lsu.pmpErrQ = false)
    (ha : x.lsuReq = true → d.path.lsu.lsFsmCs = .idle →
      d.unanswered.length ≤ (d.rvalid x).toNat) :
    Reached (d.step x) (d.entered g x) x.acc := by
  cases h with
  | idle hc hh hb hu =>
    cases hr : x.lsuReq with
    | false => exact quiet_step hc hh hb (.inl hu) hr
    | true => exact idle_step hc hh hb hr (by simp [rvalid, hu])
  | answering w hc hh hb hu hw =>
    cases hr : x.lsuReq with
    | false => exact quiet_step hc hh hb (.inr ⟨w, hu, hw⟩) hr
    | true =>
      have hv : d.rvalid x = true := by
        have hle := ha hr hc
        rw [hu] at hle
        by_contra hn
        simp [Bool.eq_false_iff.2 hn] at hle
      exact idle_step hc hh hb hr (by rw [hv, hu]; rfl)
  | waitGntMis hc hh hs hb hu => exact waitGntMis_step hp hc hh hs hb hu
  | waitGnt hc hh hs hb hu => exact waitGnt_step hp hc hh hs hb hu
  | waitGntSecond m hc hh b hm hr hu => exact waitGntSecond_step hp hc hh b hm hr hu
  | waitRvalidMis m w hc hh b hm hu hw => exact waitRvalidMis_step hp hc hh b hm hu hw
  | gntsDone m w w' hc hh b hm hu hw hw' => exact gntsDone_step hc hh b hm hu hw hw'

/-! ## Runs -/

theorem run_succ (t : ℕ) : run d i (t + 1) = (run d i t).step (i t) := rfl

theorem pmpErrQ_run (mem : BitVec 30 → BitVec 32) (i : ℕ → DataSideIn) (t : ℕ) :
    (run (reset mem) i t).path.lsu.pmpErrQ = false := by
  refine Sync.run_invariant (P := fun d : DataSide => d.path.lsu.pmpErrQ = false) rfl
    (fun d x hd => ?_) t
  change d.path.lsu.pmpErrD (d.lsuIn x) = false
  have hpmp : (d.lsuIn x).dataPmpErr = false := rfl
  unfold Lsu.pmpErrD
  cases d.path.lsu.lsFsmCs <;> simp [hpmp, hd]

/-- Every access of a run is where the ledger has it. -/
theorem reached_run {mem : BitVec 30 → BitVec 32} (h : Issued (reset mem) i) (t : ℕ) :
    Reached (run (reset mem) i t) (ledger (reset mem) i (i 0).acc t) (i t).acc := by
  induction t with
  | zero => exact .idle rfl rfl rfl rfl
  | succ t ih =>
    have hs := ih.step (pmpErrQ_run mem i t) (h.alone t)
    refine hs.congr fun hne => ?_
    have hd : (run (reset mem) i t).done (i t) = false := by
      rw [done_eq, beq_eq_false_iff_ne.2 hne, Bool.and_false]
    refine h.held t ?_ hd
    by_contra hn
    rw [not_or, Bool.not_eq_true, not_not] at hn
    refine hne ?_
    change (run (reset mem) i t).path.lsu.lsFsmNs ((run (reset mem) i t).lsuIn (i t)) = _
    have hreq : ((run (reset mem) i t).lsuIn (i t)).lsuReq = false := hn.1
    simp [Lsu.lsFsmNs, hn.2, hreq]

/-- What the core sees of the memory in a cycle. -/
structure Refines (d : DataSide) (x : DataSideIn) (g : Ledger) : Prop where
  /-- between two accesses the words hold the bytes of the ledger -/
  words : d.path.lsu.lsFsmCs = .idle → bytes d.mem = g.bytes
  /-- a load gets the bytes of its access -/
  loads : d.rdataValidO x = true → g.last.lsuWe = false ∧ d.rdataO x = g.value

/-- **The memory of the core has bytes.** -/
theorem byte_memory {mem : BitVec 30 → BitVec 32} (h : Issued (reset mem) i) (t : ℕ) :
    Refines (run (reset mem) i t) (i t) (ledger (reset mem) i (i 0).acc t) := by
  have hr := reached_run h t
  generalize ledger (reset mem) i (i 0).acc t = g at hr ⊢
  generalize run (reset mem) i t = d at hr ⊢
  refine ⟨fun hc => ?_, fun hv => ?_⟩
  · cases hr with
    | idle hc' hh hb hu => exact hb
    | answering w hc' hh hb hu ha => exact hb
    | waitGntMis hc' | waitGnt hc' | waitGntSecond m hc' | waitRvalidMis m w hc'
    | gntsDone m w w' hc' => exact absurd (hc.symm.trans hc') (by decide)
  · rw [rdataValidO, Lsu.rdataValidO, Lsu.rdataValid] at hv
    simp only [Bool.and_eq_true, beq_iff_eq, Bool.not_eq_true'] at hv
    obtain ⟨⟨⟨hc, hrv⟩, -⟩, hwe⟩ := hv
    have hrv : d.rvalid (i t) = true := hrv
    cases hr with
    | idle hc' hh hb hu => simp [rvalid, hu] at hrv
    | answering w hc' hh hb hu ha =>
      have hl : g.last.lsuWe = false := ha.we ▸ hwe
      refine ⟨hl, ?_⟩
      have hd : (d.pathIn (i t)).dataRdata = w := by
        change d.unanswered.headD (i t).idleRdata = w
        rw [hu]
        rfl
      rw [rdataO, hd, ha.word hl, LsuData.dataRdataExt_eq (ha.recorded hl), Ledger.value, load,
        ← hb, word_bytes]
      rfl
    | waitGntMis hc' | waitGnt hc' | waitGntSecond m hc' | waitRvalidMis m w hc'
    | gntsDone m w w' hc' => exact absurd (hc.symm.trans hc') (by decide)

/-- A word is stored across two words, and loaded again. -/
def storeLoad (t : ℕ) : DataSideIn where
  lsuReq := t == 0 || t == 2
  acc := ⟨decide (t < 2), 0, false, 0x20001, 0xDEADBEEF⟩
  lsuWdataTag := false
  tcrLoadCheck := false
  gnt := true
  answers := true
  idleRdata := 0
  dataRdataTag := false

theorem storeLoad_issued : Issued (reset fun _ => 0) storeLoad where
  held t _ hd := by
    match t with
    | 0 => rfl
    | 1 => exact absurd (hd.symm.trans (by decide : _ = true)) Bool.false_ne_true
    | t + 2 => simp [storeLoad]
  alone t hr _ := by
    match t with
    | 0 | 1 | 2 => decide
    | t + 3 => simp [storeLoad] at hr

theorem byte_memory_storeLoad :
    (run (reset fun _ => 0) storeLoad 4).rdataValidO (storeLoad 4) = true ∧
    (run (reset fun _ => 0) storeLoad 4).rdataO (storeLoad 4) =
      (ledger (reset fun _ => 0) storeLoad (storeLoad 0).acc 4).value := by
  have hv : (run (reset fun _ => 0) storeLoad 4).rdataValidO (storeLoad 4) = true := by decide
  exact ⟨hv, ((byte_memory storeLoad_issued 4).loads hv).2⟩

end DataSide

end SentinelSoc
