/-
  The data of the load/store unit: how stores are laid on the bus, and how loads are put
  together again.

  * `LsuData`: the unit with the registers for its data;
  * `dataWdata`, `dataRdataExt`: the alignment of a store and of a load;
  * `dataRdataExt_eq`: a load is put together from its bytes;
  * `bytes_writeWord`: what a request with byte enables writes, byte by byte.
-/
import SentinelSoc.Bus.Slaves
import SentinelSoc.Dift.ByteTaint
import SentinelSoc.Lib.ByteMem

namespace SentinelSoc

open ByteMem

/-- What the ID stage asks for: `addr` is the sum of the operands of the instruction. -/
structure LsuAccess where
  lsuWe : Bool
  lsuType : BitVec 2
  lsuSignExt : Bool
  addr : BitVec 32
  lsuWdata : BitVec 32

namespace LsuAccess

variable (a : LsuAccess)

def size : ℕ := accessSize a.lsuType

def offset : BitVec 2 := laneOf a.addr

/-- `split_misaligned_access` of the address of the instruction. -/
def split : Bool := a.lsuType == 0 && a.offset != 0 || a.lsuType == 1 && a.offset == 3

end LsuAccess

/-- `data_wdata`: the bytes of a store turned to their places. -/
def dataWdata (v : BitVec 32) (offset : BitVec 2) : BitVec 32 :=
  if offset = 0 then v
  else if offset = 1 then v.extractLsb' 0 24 ++ v.extractLsb' 24 8
  else if offset = 2 then v.extractLsb' 0 16 ++ v.extractLsb' 16 16
  else v.extractLsb' 0 8 ++ v.extractLsb' 8 24

/-- The registers of the unit; `rdata_q` has the upper three bytes of a first word. -/
structure LsuData where
  lsu : Lsu
  rdataQ : BitVec 24
  rdataOffsetQ : BitVec 2
  dataTypeQ : BitVec 2
  dataSignExtQ : Bool
  addrLastQ : BitVec 32

/-- The inputs of one cycle. -/
structure LsuDataIn where
  lsuReq : Bool
  acc : LsuAccess
  dataGnt : Bool
  dataRvalid : Bool
  dataRdata : BitVec 32
  dataBusErr : Bool
  dataPmpErr : Bool
  lsuWdataTag : Bool
  tcrLoadCheck : Bool
  dataRdataTag : Bool

namespace LsuData

def reset : LsuData := ⟨.reset, 0, 0, 0, false, 0⟩

variable (s : LsuData) (x : LsuDataIn)

/-- The adder of the execute stage: the ID stage replaces its operands for a second half. -/
def adderResult : BitVec 32 := if s.lsu.addrIncrReqO then s.addrLastQ + 4 else x.acc.addr

def lsuIn : LsuIn where
  lsuReq := x.lsuReq
  lsuWe := x.acc.lsuWe
  lsuType := x.acc.lsuType
  adderResult := s.adderResult x
  lsuWdataTag := x.lsuWdataTag
  tcrLoadCheck := x.tcrLoadCheck
  dataGnt := x.dataGnt
  dataRvalid := x.dataRvalid
  dataBusErr := x.dataBusErr
  dataPmpErr := x.dataPmpErr
  dataRdataTag := x.dataRdataTag

/-- The request on the bus. -/
def request : ObiReq where
  req := s.lsu.dataReqO (s.lsuIn x)
  addr := Lsu.dataAddrO (s.lsuIn x)
  we := x.acc.lsuWe
  be := s.lsu.dataBeO (s.lsuIn x)
  wdata := dataWdata x.acc.lsuWdata (s.lsuIn x).dataOffset

def addrUpdate : Bool :=
  match s.lsu.lsFsmCs with
  | .idle => x.lsuReq && x.dataGnt
  | .waitGntMis => x.dataGnt || s.lsu.pmpErrQ
  | .waitRvalidMis =>
    (x.dataRvalid || s.lsu.pmpErrQ) && x.dataGnt && !(x.dataBusErr || s.lsu.pmpErrQ)
  | .waitGnt => (x.dataGnt || s.lsu.pmpErrQ) && !s.lsu.lsuErrQ
  | .waitRvalidMisGntsDone => x.dataRvalid && !x.dataBusErr

def addrLastD : BitVec 32 :=
  if s.lsu.addrIncrReqO then Lsu.dataAddrO (s.lsuIn x) else s.adderResult x

def step : LsuData where
  lsu := s.lsu.step (s.lsuIn x)
  rdataQ := if s.lsu.rdataUpdate (s.lsuIn x) then x.dataRdata.extractLsb' 8 24 else s.rdataQ
  rdataOffsetQ := if s.lsu.ctrlUpdate (s.lsuIn x) then (s.lsuIn x).dataOffset else s.rdataOffsetQ
  dataTypeQ := if s.lsu.ctrlUpdate (s.lsuIn x) then x.acc.lsuType else s.dataTypeQ
  dataSignExtQ := if s.lsu.ctrlUpdate (s.lsuIn x) then x.acc.lsuSignExt else s.dataSignExtQ
  addrLastQ := if s.addrUpdate x then s.addrLastD x else s.addrLastQ

/-! ## Alignment of a load -/

variable (rdata : BitVec 32)

/-- `rdata_w_ext`; bit `k` of `rdata_q` in the source is bit `k - 8` here. -/
def rdataWExt : BitVec 32 :=
  if s.rdataOffsetQ = 0 then rdata
  else if s.rdataOffsetQ = 1 then rdata.extractLsb' 0 8 ++ s.rdataQ
  else if s.rdataOffsetQ = 2 then rdata.extractLsb' 0 16 ++ s.rdataQ.extractLsb' 8 16
  else rdata.extractLsb' 0 24 ++ s.rdataQ.extractLsb' 16 8

/-- The half word that `rdata_h_ext` extends. -/
def rdataH : BitVec 16 :=
  if s.rdataOffsetQ = 0 then rdata.extractLsb' 0 16
  else if s.rdataOffsetQ = 1 then rdata.extractLsb' 8 16
  else if s.rdataOffsetQ = 2 then rdata.extractLsb' 16 16
  else rdata.extractLsb' 0 8 ++ s.rdataQ.extractLsb' 16 8

/-- The byte that `rdata_b_ext` extends. -/
def rdataB : BitVec 8 :=
  if s.rdataOffsetQ = 0 then rdata.extractLsb' 0 8
  else if s.rdataOffsetQ = 1 then rdata.extractLsb' 8 8
  else if s.rdataOffsetQ = 2 then rdata.extractLsb' 16 8
  else rdata.extractLsb' 24 8

def rdataHExt : BitVec 32 :=
  if s.dataSignExtQ then (s.rdataH rdata).signExtend 32 else (s.rdataH rdata).setWidth 32

def rdataBExt : BitVec 32 :=
  if s.dataSignExtQ then (s.rdataB rdata).signExtend 32 else (s.rdataB rdata).setWidth 32

/-- `lsu_rdata_o` -/
def dataRdataExt : BitVec 32 :=
  if s.dataTypeQ = 0 then s.rdataWExt rdata
  else if s.dataTypeQ = 1 then s.rdataHExt rdata
  else s.rdataBExt rdata

/-! ## A load and its words -/

variable {s : LsuData} {a : LsuAccess} {lo hi : BitVec 32}

/-- The registers are those of the access `a`, the first word of which was `lo`. -/
structure Recorded (s : LsuData) (a : LsuAccess) (lo : BitVec 32) : Prop where
  offset : s.rdataOffsetQ = a.offset
  type : s.dataTypeQ = a.lsuType
  signExt : s.dataSignExtQ = a.lsuSignExt
  first : a.split = true → s.rdataQ = lo.extractLsb' 8 24

/-- The word of the last response. -/
def lastWord (a : LsuAccess) (lo hi : BitVec 32) : BitVec 32 := if a.split then hi else lo

theorem extract_first (w : BitVec 32) (k n : ℕ) :
    (w.extractLsb' 8 24).extractLsb' k n = w.extractLsb' (8 + k) n := by
  apply BitVec.eq_of_getLsbD_eq
  intro j hj
  simp only [BitVec.getLsbD_extractLsb']
  grind

/-- The low bits of two parts side by side. -/
theorem setWidth_append {k l n : ℕ} (v : BitVec k) (w : BitVec l) (h : n ≤ l) :
    (v ++ w).setWidth n = w.setWidth n := by
  apply BitVec.eq_of_getLsbD_eq
  intro j hj
  simp only [BitVec.getLsbD_setWidth, BitVec.getLsbD_append]
  grind

theorem setWidth_extract {l n : ℕ} (w : BitVec 32) (k : ℕ) (h : n ≤ l) :
    (w.extractLsb' k l).setWidth n = w.extractLsb' k n := by
  apply BitVec.eq_of_getLsbD_eq
  intro j hj
  simp only [BitVec.getLsbD_setWidth, BitVec.getLsbD_extractLsb']
  grind

theorem rdataWExt_eq (h : s.Recorded a lo) (ht : a.lsuType = 0) :
    s.rdataWExt (lastWord a lo hi) = turn lo hi a.offset := by
  have hs : a.split = (a.offset != 0) := by simp [LsuAccess.split, ht]
  rw [rdataWExt, turn, h.offset, lastWord, hs]
  rcases place_cases a.offset with ho | ho | ho | ho
  · simp [ho]
  · simp [ho, h.first (by simp [hs, ho])]
  · simp [ho, h.first (by simp [hs, ho]), extract_first]
  · simp [ho, h.first (by simp [hs, ho]), extract_first]

theorem rdataH_eq (h : s.Recorded a lo) (ht : a.lsuType = 1) :
    s.rdataH (lastWord a lo hi) = (turn lo hi a.offset).setWidth 16 := by
  have hs : a.split = (a.offset == 3) := by simp [LsuAccess.split, ht]
  rw [rdataH, turn, h.offset, lastWord, hs]
  rcases place_cases a.offset with ho | ho | ho | ho
  · simp [ho, BitVec.setWidth_eq_extractLsb']
  · simp only [ho, BitVec.ofNat_eq_ofNat, reduceIte, BitVec.reduceEq, BitVec.reduceBEq]
    exact ((setWidth_append _ _ (by decide)).trans (setWidth_extract _ _ (by decide))).symm
  · simp only [ho, BitVec.ofNat_eq_ofNat, reduceIte, BitVec.reduceEq, BitVec.reduceBEq]
    exact ((setWidth_append _ _ (by decide)).trans (setWidth_extract _ _ (by decide))).symm
  · simp only [ho, BitVec.ofNat_eq_ofNat, reduceIte, BitVec.reduceEq, BitVec.reduceBEq,
      h.first (by simp [hs, ho])]
    apply BitVec.eq_of_getLsbD_eq
    intro j hj
    grind

theorem rdataB_eq (h : s.Recorded a lo) (h₀ : a.lsuType ≠ 0) (h₁ : a.lsuType ≠ 1) :
    s.rdataB (lastWord a lo hi) = (turn lo hi a.offset).setWidth 8 := by
  have hs : a.split = false := by
    rw [LsuAccess.split, beq_eq_false_iff_ne.2 h₀, beq_eq_false_iff_ne.2 h₁]
    rfl
  rw [rdataB, turn, h.offset, lastWord, hs]
  rcases place_cases a.offset with ho | ho | ho | ho
  · simp [ho, BitVec.setWidth_eq_extractLsb']
  · simp only [ho, BitVec.ofNat_eq_ofNat, reduceIte, BitVec.reduceEq]
    exact ((setWidth_append _ _ (by decide)).trans (setWidth_extract _ _ (by decide))).symm
  · simp only [ho, BitVec.ofNat_eq_ofNat, reduceIte, BitVec.reduceEq]
    exact ((setWidth_append _ _ (by decide)).trans (setWidth_extract _ _ (by decide))).symm
  · simp only [ho, BitVec.ofNat_eq_ofNat, reduceIte, BitVec.reduceEq]
    exact ((setWidth_append _ _ (by decide)).trans (setWidth_extract _ _ (by decide))).symm

/-- A load is put together from the bytes of its two words. -/
theorem dataRdataExt_eq (h : s.Recorded a lo) :
    s.dataRdataExt (lastWord a lo hi) = extend a.size a.lsuSignExt (turn lo hi a.offset) := by
  unfold dataRdataExt
  rw [h.type]
  split_ifs with h₀ h₁
  · have hs : a.size = 4 := by rw [LsuAccess.size, accessSize, if_pos h₀]
    rw [rdataWExt_eq h h₀, hs, extend]
    simp
  · have hs : a.size = 2 := by rw [LsuAccess.size, accessSize, if_neg h₀, if_pos h₁]
    rw [rdataHExt, rdataH_eq h h₁, hs, h.signExt]
    rfl
  · have hs : a.size = 1 := by rw [LsuAccess.size, accessSize, if_neg h₀, if_neg h₁]
    rw [rdataBExt, rdataB_eq h h₀ h₁, hs, h.signExt]
    rfl

end LsuData

/-! ## What a store writes -/

variable {a : LsuAccess} {m : BitVec 30 → BitVec 32} {k : ℕ}

/-- A store is turned so that its first byte lies at its offset. -/
theorem dataWdata_eq (v : BitVec 32) (offset : BitVec 2) :
    dataWdata v offset = turn v v (-offset) := by
  rcases place_cases offset with rfl | rfl | rfl | rfl <;> simp [dataWdata, turn]

theorem byte_lane (be : BitVec 4) (new old : BitVec 32) (hk : k < 4) :
    byte (writeWord be new old) k = lane be new old k := by
  apply BitVec.eq_of_getLsbD_eq
  intro j hj
  simp only [byte, writeWord, BitVec.getLsbD_extractLsb', BitVec.getLsbD_append, hj]
  interval_cases k
  · simp [hj]
  · simp [hj]
  · simp [hj]
    grind
  · simp [hj]
    grind

/-- What a request with byte enables writes. -/
theorem bytes_update (m : BitVec 30 → BitVec 32) (w : BitVec 30) (be : BitVec 4)
    (new x : BitVec 32) : bytes (Function.update m w (writeWord be new (m w))) x =
      if wordOf x = w ∧ be.getLsbD (laneOf x).toNat = true then byte new (laneOf x).toNat
      else bytes m x := by
  unfold bytes
  by_cases hw : wordOf x = w
  · subst hw
    rw [Function.update_self, byte_lane _ _ _ (laneOf x).isLt, lane]
    split_ifs <;> simp_all [byte]
  · rw [Function.update_of_ne hw, if_neg fun h => hw h.1]

end SentinelSoc
