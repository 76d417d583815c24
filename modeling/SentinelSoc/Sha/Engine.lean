/-
  The SHA-512 engine: the preprocessor that pads, the message schedule, the round
  logic, and the state machine that runs them.

  * `Preproc.step`: which word comes next once the message has ended;
  * `csa64`, `wNext`, `shaRound`: the data path of a round;
  * `ShaCore.step`, `ShaCore.rdata`: one cycle of the engine, and its read port.
-/
import SentinelSoc.Lib.Sha512
import SentinelSoc.Lib.Sync

namespace SentinelSoc

/-- The bytes of a word, swapped. -/
def byteSwap (x : BitVec 32) : BitVec 32 :=
  x.extractLsb' 0 8 ++ x.extractLsb' 8 8 ++ x.extractLsb' 16 8 ++ x.extractLsb' 24 8

/-! ## The preprocessor -/

/-- `state_t` of the preprocessor -/
inductive PrepFsm
  | idle
  | send80
  | send00
  | sendLen0
  | sendLen1
  deriving DecidableEq

structure Preproc where
  state : PrepFsm
  nCnt : BitVec 32
  cCnt : BitVec 6
  deriving DecidableEq

namespace Preproc

variable (s : Preproc) (startI : Bool) (msgWordsI : BitVec 32) (wordAckI : Bool)

def reset : Preproc := ⟨.idle, 0, 0⟩

/-- `C`: zero words between the word with 0x80 and the length. -/
def zeros : BitVec 6 :=
  let k := msgWordsI.extractLsb' 0 5
  if 28 ≤ k then 61 - k.setWidth 6 else 29 - k.setWidth 6

def nextState : PrepFsm :=
  match s.state with
  | .idle =>
    if startI && msgWordsI == 0 then .send80
    else if wordAckI && s.nCnt == msgWordsI - 1 then .send80
    else .idle
  | .send80 => if wordAckI then (if zeros msgWordsI = 0 then .sendLen0 else .send00) else .send80
  | .send00 =>
    if wordAckI && s.cCnt.setWidth 32 == (zeros msgWordsI).setWidth 32 - 1 then .sendLen0
    else .send00
  | .sendLen0 => if wordAckI then .sendLen1 else .sendLen0
  | .sendLen1 => if wordAckI then .idle else .sendLen1

def doneO : Bool := s.state == .sendLen1 && wordAckI

def muxSelO : Bool := s.state != .idle

def fsmDataO : BitVec 32 :=
  match s.state with
  | .send80 => 0x80
  | .sendLen1 => byteSwap (msgWordsI <<< 5)
  | .idle | .send00 | .sendLen0 => 0

def step : Preproc where
  state := s.nextState startI msgWordsI wordAckI
  nCnt :=
    if startI then 0
    else if wordAckI && s.state == .idle then s.nCnt + 1
    else s.nCnt
  cCnt :=
    if startI then 0
    else if wordAckI && s.state == .send00 then s.cCnt + 1
    else s.cCnt

end Preproc

/-! ## The data path -/

/-- `csa_t` -/
structure Csa where
  sum : Sha512.Word
  carry : Sha512.Word

def csa64 (a b c : Sha512.Word) : Csa := ⟨a ^^^ b ^^^ c, (a &&& b) ||| (b &&& c) ||| (a &&& c)⟩

/-- `{carry[62:0], 1'b0}` -/
def Csa.shifted (r : Csa) : Sha512.Word := r.carry.extractLsb' 0 63 ++ 0#1

/-- `sha512_round` -/
def shaRound (s : Sha512.State) (k w : Sha512.Word) : Sha512.State :=
  let r1 := csa64 s.h (Sha512.upperSigma1 s.e) (Sha512.ch s.e s.f s.g)
  let r2 := csa64 r1.sum r1.shifted k
  let r3 := csa64 r2.sum r2.shifted w
  let t1 := r3.sum + r3.shifted
  let t2 := Sha512.upperSigma0 s.a + Sha512.maj s.a s.b s.c
  ⟨t1 + t2, s.a, s.b, s.c, s.d + t1, s.e, s.f, s.g⟩

/-- `w_next` of the message schedule -/
def wNext (w : Fin 16 → Sha512.Word) : Sha512.Word :=
  let stage1 := csa64 (Sha512.lowerSigma1 (w 14)) (w 9) (Sha512.lowerSigma0 (w 1))
  let stage2 := csa64 stage1.sum stage1.shifted (w 0)
  stage2.sum + stage2.shifted

/-- `sha512_msg_sched`: a write of half a word, or a shift. -/
def schedStep (w : Fin 16 → Sha512.Word) (wrIdx : BitVec 4) (wrLow wrHigh : Bool) (wrData : BitVec 32)
    (en : Bool) : Fin 16 → Sha512.Word :=
  if wrLow then
    Function.update w wrIdx.toFin ((w wrIdx.toFin).extractLsb' 32 32 ++ byteSwap wrData)
  else if wrHigh then
    Function.update w wrIdx.toFin (byteSwap wrData ++ (w wrIdx.toFin).extractLsb' 0 32)
  else if en then fun i => if h : i.val < 15 then w ⟨i.val + 1, by omega⟩ else wNext w
  else w

/-! ## The engine -/

/-- `top_state_t` -/
inductive ShaFsm
  | idle
  | recv
  | pad
  | work
  | accum
  | done
  deriving DecidableEq

structure ShaCore where
  state : ShaFsm
  roundCount : BitVec 7
  wordCount : BitVec 6
  isLastBlock : Bool
  intrO : Bool
  msgLength : BitVec 32
  /-- The working variables `a` to `h`. -/
  v : Sha512.State
  /-- The hash value `H`. -/
  hash : Sha512.State
  w : Fin 16 → Sha512.Word
  wI : Sha512.Word
  kI : Sha512.Word
  prep : Preproc

/-- The memory-mapped interface in one cycle. -/
structure ShaIn where
  addr : BitVec 6
  wrEn : Bool
  wdata : BitVec 32

namespace ShaCore

variable (s : ShaCore) (x : ShaIn)

/-- Registers without a reset keep what they hold. -/
def reset : ShaCore :=
  { s with
    state := .idle
    roundCount := 0
    wordCount := 0
    isLastBlock := false
    intrO := false
    msgLength := 0
    v := ⟨0, 0, 0, 0, 0, 0, 0, 0⟩
    hash := Sha512.iv
    w := fun _ => 0
    prep := .reset }

def prepStart : Bool := x.wrEn && x.addr == 0x20 && x.wdata.getLsbD 0

def schedAddr : BitVec 5 :=
  if s.state = .pad then s.wordCount.extractLsb' 0 5 else x.addr.extractLsb' 0 5

def schedWr : Bool :=
  if s.state = .pad then true else x.wrEn && x.addr < 32 && s.state == .recv

def schedWdata : BitVec 32 := if s.state = .pad then s.prep.fsmDataO s.msgLength else x.wdata

def prepWordAck : Bool :=
  if s.state = .recv then s.schedWr x else if s.state = .pad then true else false

def prepDone : Bool := s.prep.doneO (s.prepWordAck x)

/-- A block that the processor has filled. -/
def blockFull : Bool := s.wordCount == 32 || s.schedWr x && s.wordCount == 31

def stateD : ShaFsm :=
  match s.state with
  | .idle => if prepStart x then .recv else .idle
  | .recv => if s.blockFull x then .work else if s.prep.muxSelO then .pad else .recv
  | .pad => if s.wordCount == 31 then .work else .pad
  | .work => if s.roundCount == 80 then .accum else .work
  | .accum => if s.isLastBlock then .done else if s.prep.muxSelO then .pad else .recv
  | .done => .idle

def roundCountD : BitVec 7 :=
  match s.state with
  | .recv => if s.blockFull x then 0 else s.roundCount
  | .pad => if s.wordCount == 31 then 0 else s.roundCount
  | .work => s.roundCount + 1
  | .idle | .accum | .done => s.roundCount

def wordCountD : BitVec 6 :=
  match s.state with
  | .idle | .accum => 0
  | .recv => if s.schedWr x then s.wordCount + 1 else s.wordCount
  | .pad => s.wordCount + 1
  | .work | .done => s.wordCount

def isLastBlockD : Bool :=
  match s.state with
  | .idle => false
  | .pad => s.prepDone x || s.isLastBlock
  | .recv | .work | .accum | .done => s.isLastBlock

def intrD : Bool :=
  match s.state with
  | .idle => false
  | .done => true
  | .recv | .pad | .work | .accum => s.intrO

def vD : Sha512.State :=
  match s.state with
  | .idle => if prepStart x then (if x.wdata.getLsbD 1 then Sha512.iv else s.hash) else s.v
  | .work => if s.roundCount ≥ 1 then shaRound s.v s.kI s.wI else s.v
  | .accum => if s.isLastBlock then s.v else s.hash.add s.v
  | .recv | .pad | .done => s.v

def hashD : Sha512.State :=
  match s.state with
  | .idle => if prepStart x && x.wdata.getLsbD 1 then Sha512.iv else s.hash
  | .accum => s.hash.add s.v
  | .recv | .pad | .work | .done => s.hash

def step : ShaCore where
  state := s.stateD x
  roundCount := s.roundCountD x
  wordCount := s.wordCountD x
  isLastBlock := s.isLastBlockD x
  intrO := s.intrD
  msgLength := if x.wrEn && x.addr == 0x32 then x.wdata else s.msgLength
  v := s.vD x
  hash := s.hashD x
  w := schedStep s.w ((s.schedAddr x).extractLsb' 1 4)
    (s.schedWr x && (s.schedAddr x).getLsbD 0) (s.schedWr x && !(s.schedAddr x).getLsbD 0)
    (s.schedWdata x) (s.state == .work)
  wI := s.w 0
  kI := Sha512.constant s.roundCount.toNat
  prep := s.prep.step (prepStart x) s.msgLength (s.prepWordAck x)

/-- `rdata_o` -/
def rdata (addr : BitVec 6) : BitVec 32 :=
  if addr = 0x21 then (if s.state = .idle ∨ s.state = .recv then 1 else 0)
  else if 0x22 ≤ addr ∧ addr ≤ 0x31 then
    let h := s.hash.get (((addr - 0x22) >>> 1).extractLsb' 0 3)
    if addr.getLsbD 0 then h.extractLsb' 0 32 else h.extractLsb' 32 32
  else 0

end ShaCore

/-- The engine after a reset, with 0 where there is none. -/
def ShaCore.blank : ShaCore :=
  reset ⟨.idle, 0, 0, false, false, 0, ⟨0, 0, 0, 0, 0, 0, 0, 0⟩, Sha512.iv, fun _ => 0, 0, 0, .reset⟩

/-- A cycle without a write. -/
def ShaIn.read (addr : BitVec 6) : ShaIn := ⟨addr, false, 0⟩

/-! ## Evaluation -/

/-- The words of a schedule one by one, so that a run of hundreds of cycles can be evaluated. -/
def listed (w : Fin 16 → Sha512.Word) (j : Fin 16) : Sha512.Word :=
  [w 0, w 1, w 2, w 3, w 4, w 5, w 6, w 7, w 8, w 9, w 10, w 11, w 12, w 13, w 14, w 15].getD j.val 0

theorem listed_eq (w : Fin 16 → Sha512.Word) : listed w = w := by
  funext j
  fin_cases j <;> rfl

namespace ShaCore

/-- `step` with the schedule listed. -/
def evalStep (s : ShaCore) (x : ShaIn) : ShaCore := { s.step x with w := listed (s.step x).w }

theorem step_eq_evalStep : step = evalStep := by
  funext s x
  rw [evalStep, listed_eq]

end ShaCore

end SentinelSoc
