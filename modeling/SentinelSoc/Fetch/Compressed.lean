/-
  The compressed decoder (`ibex_compressed_decoder.sv`, RV32ZcaZcbZcmp): half words in,
  instructions of 32 bits out, several of them for one half word with the instructions of
  Zcmp.

  * `c0`, `c1`, `c2`: the instructions that stand for one of 32 bits;
  * `push`, `pop`, `mv`: the state machines of Zcmp, which share a register;
  * `decompress`: a cycle.
-/
import SentinelSoc.Lib.Rvc

namespace SentinelSoc

/-- `instr_exp_e` -/
inductive InstrExp
  | notExpanded
  | expanded
  | expandedLast
  deriving DecidableEq

/-- `cm_state_e` -/
inductive CmState
  | idle
  | pushStoreReg
  | pushDecrSp
  | popLoadReg
  | popIncrSp
  | popZeroA0
  | popRetRa
  | mvSecondReg
  deriving DecidableEq

/-- `cm_rlist_q`, `cm_sp_offset_q` and `cm_state_q`. -/
structure CompressedDecoder where
  rlistQ : BitVec 5
  spOffsetQ : BitVec 5
  stateQ : CmState

/-- What the decoder drives, and its next state. -/
structure DecompressedInstr where
  instr : BitVec 32
  illegal : Bool
  getsExpanded : InstrExp
  next : CompressedDecoder

namespace CompressedDecoder

/-! ## One instruction -/

def opcodeLoad : BitVec 7 := 0x03

def opcodeOpImm : BitVec 7 := 0x13

def opcodeStore : BitVec 7 := 0x23

def opcodeOp : BitVec 7 := 0x33

def opcodeLui : BitVec 7 := 0x37

def opcodeBranch : BitVec 7 := 0x63

def opcodeJalr : BitVec 7 := 0x67

def opcodeJal : BitVec 7 := 0x6f

variable (w : BitVec 32)

/-- `{n {instr_i[12]}}` -/
def sign (n : ℕ) : BitVec (1 * n) := (w.extractLsb 12 12).replicate n

/-- `instr_o` and `illegal_instr_o` of an instruction that is not accepted: it is passed on. -/
def bad : BitVec 32 × Bool := (w, true)

/-- Zcb -/
def c0Zcb : BitVec 32 × Bool :=
  if w.extractLsb 12 10 = 0b000 then
    -- c.lbu -> lbu rd', imm(rs1')
    (0#10 ++ w.extractLsb 5 5 ++ w.extractLsb 6 6 ++ 0b01#2 ++ w.extractLsb 9 7 ++ 0b100#3 ++
      0b01#2 ++ w.extractLsb 4 2 ++ opcodeLoad, false)
  else if w.extractLsb 12 10 = 0b001 then
    if w.extractLsb 6 6 = 0 then
      -- c.lhu -> lhu rd', imm(rs1')
      (0#10 ++ w.extractLsb 5 5 ++ 0#1 ++ 0b01#2 ++ w.extractLsb 9 7 ++ 0b101#3 ++
        0b01#2 ++ w.extractLsb 4 2 ++ opcodeLoad, false)
    else if w.extractLsb 6 6 = 1 then
      -- c.lh -> lh rd', imm(rs1')
      (0#10 ++ w.extractLsb 5 5 ++ 0#1 ++ 0b01#2 ++ w.extractLsb 9 7 ++ 0b001#3 ++
        0b01#2 ++ w.extractLsb 4 2 ++ opcodeLoad, false)
    else bad w
  else if w.extractLsb 12 10 = 0b010 then
    -- c.sb -> sb rs2', imm(rs1')
    (0#7 ++ 0b01#2 ++ w.extractLsb 4 2 ++ 0b01#2 ++ w.extractLsb 9 7 ++ 0b000#3 ++
      0#3 ++ w.extractLsb 5 5 ++ w.extractLsb 6 6 ++ opcodeStore, false)
  else if w.extractLsb 12 10 = 0b011 then
    if w.extractLsb 6 6 = 0 then
      -- c.sh -> sh rs2', imm(rs1')
      (0#7 ++ 0b01#2 ++ w.extractLsb 4 2 ++ 0b01#2 ++ w.extractLsb 9 7 ++ 0b001#3 ++
        0#3 ++ w.extractLsb 5 5 ++ 0#1 ++ opcodeStore, false)
    else bad w
  else bad w

def c0 : BitVec 32 × Bool :=
  if w.extractLsb 15 13 = 0b000 then
    -- c.addi4spn -> addi rd', x2, imm
    (0#2 ++ w.extractLsb 10 7 ++ w.extractLsb 12 11 ++ w.extractLsb 5 5 ++ w.extractLsb 6 6 ++
      0b00#2 ++ 2#5 ++ 0b000#3 ++ 0b01#2 ++ w.extractLsb 4 2 ++ opcodeOpImm,
      w.extractLsb 12 5 == 0)
  else if w.extractLsb 15 13 = 0b010 then
    -- c.lw -> lw rd', imm(rs1')
    (0#5 ++ w.extractLsb 5 5 ++ w.extractLsb 12 10 ++ w.extractLsb 6 6 ++ 0b00#2 ++ 0b01#2 ++
      w.extractLsb 9 7 ++ 0b010#3 ++ 0b01#2 ++ w.extractLsb 4 2 ++ opcodeLoad, false)
  else if w.extractLsb 15 13 = 0b110 then
    -- c.sw -> sw rs2', imm(rs1')
    (0#5 ++ w.extractLsb 5 5 ++ w.extractLsb 12 12 ++ 0b01#2 ++ w.extractLsb 4 2 ++ 0b01#2 ++
      w.extractLsb 9 7 ++ 0b010#3 ++ w.extractLsb 11 10 ++ w.extractLsb 6 6 ++ 0b00#2 ++
      opcodeStore, false)
  else if w.extractLsb 15 13 = 0b100 then c0Zcb w
  else bad w

/-- `{instr_i[12], instr_i[6:5]}` is 3'b111. -/
def c1Unary : BitVec 32 × Bool :=
  if w.extractLsb 4 2 = 0b000 then
    -- c.zext.b -> andi rsd', rsd', 8'hff
    (0#4 ++ 0xff#8 ++ 0b01#2 ++ w.extractLsb 9 7 ++ 0b111#3 ++ 0b01#2 ++ w.extractLsb 9 7 ++
      opcodeOpImm, false)
  else if w.extractLsb 4 2 = 0b001 then
    -- c.sext.b -> sext.b rsd', rsd'
    (0b0110000#7 ++ 0b00100#5 ++ 0b01#2 ++ w.extractLsb 9 7 ++ 0b001#3 ++ 0b01#2 ++
      w.extractLsb 9 7 ++ opcodeOpImm, false)
  else if w.extractLsb 4 2 = 0b010 then
    -- c.zext.h -> zext.h rsd', rsd'
    (0b0000100#7 ++ 0#5 ++ 0b01#2 ++ w.extractLsb 9 7 ++ 0b100#3 ++ 0b01#2 ++
      w.extractLsb 9 7 ++ opcodeOp, false)
  else if w.extractLsb 4 2 = 0b011 then
    -- c.sext.h -> sext.h rsd', rsd'
    (0b0110000#7 ++ 0b00101#5 ++ 0b01#2 ++ w.extractLsb 9 7 ++ 0b001#3 ++ 0b01#2 ++
      w.extractLsb 9 7 ++ opcodeOpImm, false)
  else if w.extractLsb 4 2 = 0b101 then
    -- c.not -> xori rsd', rsd', -1
    (0xfff#12 ++ 0b01#2 ++ w.extractLsb 9 7 ++ 0b100#3 ++ 0b01#2 ++ w.extractLsb 9 7 ++
      opcodeOpImm, false)
  else bad w

/-- An operation on `rd'` and `rs2'`. -/
def c1Op (funct7 : BitVec 7) (funct3 : BitVec 3) : BitVec 32 × Bool :=
  (funct7 ++ 0b01#2 ++ w.extractLsb 4 2 ++ 0b01#2 ++ w.extractLsb 9 7 ++ funct3 ++
    0b01#2 ++ w.extractLsb 9 7 ++ opcodeOp, false)

def c1Binary : BitVec 32 × Bool :=
  if w.extractLsb 12 12 ++ w.extractLsb 6 5 = 0b000#3 then c1Op w 0b0100000 0b000
  else if w.extractLsb 12 12 ++ w.extractLsb 6 5 = 0b001#3 then c1Op w 0 0b100
  else if w.extractLsb 12 12 ++ w.extractLsb 6 5 = 0b010#3 then c1Op w 0 0b110
  else if w.extractLsb 12 12 ++ w.extractLsb 6 5 = 0b011#3 then c1Op w 0 0b111
  else if w.extractLsb 12 12 ++ w.extractLsb 6 5 = 0b110#3 then c1Op w 0b0000001 0b000
  else if w.extractLsb 12 12 ++ w.extractLsb 6 5 = 0b111#3 then c1Unary w
  else bad w

def c1Alu : BitVec 32 × Bool :=
  if w.extractLsb 11 10 = 0b00 ∨ w.extractLsb 11 10 = 0b01 then
    -- c.srli, c.srai -> srli, srai rd, rd, shamt
    (0#1 ++ w.extractLsb 10 10 ++ 0#5 ++ w.extractLsb 6 2 ++ 0b01#2 ++ w.extractLsb 9 7 ++
      0b101#3 ++ 0b01#2 ++ w.extractLsb 9 7 ++ opcodeOpImm, w.extractLsb 12 12 == 1)
  else if w.extractLsb 11 10 = 0b10 then
    -- c.andi -> andi rd, rd, imm
    (sign w 6 ++ w.extractLsb 12 12 ++ w.extractLsb 6 2 ++ 0b01#2 ++ w.extractLsb 9 7 ++
      0b111#3 ++ 0b01#2 ++ w.extractLsb 9 7 ++ opcodeOpImm, false)
  else if w.extractLsb 11 10 = 0b11 then c1Binary w
  else bad w

def c1 : BitVec 32 × Bool :=
  if w.extractLsb 15 13 = 0b000 then
    -- c.addi -> addi rd, rd, nzimm
    (sign w 6 ++ w.extractLsb 12 12 ++ w.extractLsb 6 2 ++ w.extractLsb 11 7 ++ 0#3 ++
      w.extractLsb 11 7 ++ opcodeOpImm, false)
  else if w.extractLsb 15 13 = 0b001 ∨ w.extractLsb 15 13 = 0b101 then
    -- c.jal, c.j -> jal x1, jal x0
    (w.extractLsb 12 12 ++ w.extractLsb 8 8 ++ w.extractLsb 10 9 ++ w.extractLsb 6 6 ++
      w.extractLsb 7 7 ++ w.extractLsb 2 2 ++ w.extractLsb 11 11 ++ w.extractLsb 5 3 ++
      sign w 9 ++ 0#4 ++ ~~~w.extractLsb 15 15 ++ opcodeJal, false)
  else if w.extractLsb 15 13 = 0b010 then
    -- c.li -> addi rd, x0, nzimm
    (sign w 6 ++ w.extractLsb 12 12 ++ w.extractLsb 6 2 ++ 0#5 ++ 0#3 ++ w.extractLsb 11 7 ++
      opcodeOpImm, false)
  else if w.extractLsb 15 13 = 0b011 then
    if w.extractLsb 11 7 = 2 then
      -- c.addi16sp -> addi x2, x2, nzimm
      (sign w 3 ++ w.extractLsb 4 3 ++ w.extractLsb 5 5 ++ w.extractLsb 2 2 ++
        w.extractLsb 6 6 ++ 0#4 ++ 2#5 ++ 0b000#3 ++ 2#5 ++ opcodeOpImm,
        w.extractLsb 12 12 ++ w.extractLsb 6 2 == 0#6)
    else
      -- c.lui -> lui rd, imm
      (sign w 15 ++ w.extractLsb 6 2 ++ w.extractLsb 11 7 ++ opcodeLui,
        w.extractLsb 12 12 ++ w.extractLsb 6 2 == 0#6)
  else if w.extractLsb 15 13 = 0b100 then c1Alu w
  else if w.extractLsb 15 13 = 0b110 ∨ w.extractLsb 15 13 = 0b111 then
    -- c.beqz, c.bnez -> beq, bne rs1', x0, imm
    (sign w 4 ++ w.extractLsb 6 5 ++ w.extractLsb 2 2 ++ 0#5 ++ 0b01#2 ++ w.extractLsb 9 7 ++
      0b00#2 ++ w.extractLsb 13 13 ++ w.extractLsb 11 10 ++ w.extractLsb 4 3 ++
      w.extractLsb 12 12 ++ opcodeBranch, false)
  else bad w

def c2Jump : BitVec 32 × Bool :=
  if w.extractLsb 12 12 = 0 then
    if w.extractLsb 6 2 ≠ 0 then
      -- c.mv -> add rd/rs1, x0, rs2
      (0#7 ++ w.extractLsb 6 2 ++ 0#5 ++ 0#3 ++ w.extractLsb 11 7 ++ opcodeOp, false)
    else
      -- c.jr -> jalr x0, rd/rs1, 0
      (0#12 ++ w.extractLsb 11 7 ++ 0#3 ++ 0#5 ++ opcodeJalr, w.extractLsb 11 7 == 0)
  else if w.extractLsb 6 2 ≠ 0 then
    -- c.add -> add rd, rd, rs2
    (0#7 ++ w.extractLsb 6 2 ++ w.extractLsb 11 7 ++ 0#3 ++ w.extractLsb 11 7 ++ opcodeOp, false)
  else if w.extractLsb 11 7 = 0 then
    -- c.ebreak -> ebreak
    (0x00100073, false)
  else
    -- c.jalr -> jalr x1, rs1, 0
    (0#12 ++ w.extractLsb 11 7 ++ 0b000#3 ++ 0b00001#5 ++ opcodeJalr, false)

/-- Without the instructions of Zcmp, which are 3'b101. -/
def c2 : BitVec 32 × Bool :=
  if w.extractLsb 15 13 = 0b000 then
    -- c.slli -> slli rd, rd, shamt
    (0#7 ++ w.extractLsb 6 2 ++ w.extractLsb 11 7 ++ 0b001#3 ++ w.extractLsb 11 7 ++ opcodeOpImm,
      w.extractLsb 12 12 == 1)
  else if w.extractLsb 15 13 = 0b010 then
    -- c.lwsp -> lw rd, imm(x2)
    (0#4 ++ w.extractLsb 3 2 ++ w.extractLsb 12 12 ++ w.extractLsb 6 4 ++ 0b00#2 ++ 2#5 ++
      0b010#3 ++ w.extractLsb 11 7 ++ opcodeLoad, w.extractLsb 11 7 == 0)
  else if w.extractLsb 15 13 = 0b100 then c2Jump w
  else if w.extractLsb 15 13 = 0b110 then
    -- c.swsp -> sw rs2, imm(x2)
    (0#4 ++ w.extractLsb 8 7 ++ w.extractLsb 12 12 ++ w.extractLsb 6 2 ++ 2#5 ++ 0b010#3 ++
      w.extractLsb 11 9 ++ 0b00#2 ++ opcodeStore, false)
  else bad w

/-! ## Several instructions -/

def cmStackAdjBase (rlist : BitVec 4) : BitVec 7 :=
  match rlist.toNat with
  | 4 | 5 | 6 | 7 => 16
  | 8 | 9 | 10 | 11 => 32
  | 12 | 13 | 14 => 48
  | 15 => 64
  | _ => 0

def cmStackAdj (rlist : BitVec 4) (spimm : BitVec 2) : BitVec 7 :=
  cmStackAdjBase rlist + spimm.setWidth 7 * 16

def cmStackAdjWord (rlist : BitVec 4) (spimm : BitVec 2) : BitVec 5 :=
  (cmStackAdj rlist spimm).extractLsb 6 2

/-- `rlist` can be 16 after instruction decoding, to handle `x26` and `x27`. -/
def cmRlistTopReg (rlist : BitVec 5) : BitVec 5 :=
  match rlist.toNat with
  | 16 | 15 | 14 | 13 | 12 | 11 | 10 | 9 | 8 | 7 => 11 + rlist
  | 6 | 5 => 3 + rlist
  | 4 => 1
  | _ => 0

def cmPushStoreReg (rlist spOffset : BitVec 5) : BitVec 32 :=
  let negOffset : BitVec 12 := -(0b00000#5 ++ spOffset ++ 0b00#2)
  negOffset.extractLsb 11 5 ++ cmRlistTopReg rlist ++ 2#5 ++ 0b010#3 ++
    negOffset.extractLsb 4 0 ++ opcodeStore

def cmPopLoadReg (rlist spOffset : BitVec 5) : BitVec 32 :=
  (0b00000#5 ++ spOffset ++ 0b00#2) ++ 2#5 ++ 0b010#3 ++ cmRlistTopReg rlist ++ opcodeLoad

def cmSpAddi (rlist : BitVec 4) (spimm : BitVec 2) (decr : Bool) : BitVec 32 :=
  let imm : BitVec 12 := 0#5 ++ cmStackAdj rlist spimm
  (if decr then -imm else imm) ++ 2#5 ++ 0b000#3 ++ 2#5 ++ opcodeOpImm

def cmMvReg (src dst : BitVec 5) : BitVec 32 := 0#12 ++ src ++ 0b000#3 ++ dst ++ opcodeOpImm

def cmZeroA0 : BitVec 32 := cmMvReg 0 10

def cmRetRa : BitVec 32 := 0#12 ++ 1#5 ++ 0b000#3 ++ 0#5 ++ opcodeJalr

/-- `{(rs[2:1] > 2'd0), (rs[2:1] == 2'd0), rs[2:0]}` -/
def cmSReg (rs : BitVec 3) : BitVec 5 :=
  BitVec.ofBool (rs.extractLsb 2 1 != 0) ++ BitVec.ofBool (rs.extractLsb 2 1 == 0) ++ rs

def cmMvsa01 (a01 : BitVec 1) (rs : BitVec 3) : BitVec 32 :=
  cmMvReg (10 + (0#4 ++ a01)) (cmSReg rs)

def cmMva01s (rs : BitVec 3) (a01 : BitVec 1) : BitVec 32 :=
  cmMvReg (cmSReg rs) (10 + (0#4 ++ a01))

/-- A list of 15 means that `x26` and `x27` have to be stored. -/
def cmRlistInit (instrRlist : BitVec 4) : BitVec 5 :=
  if 0#1 ++ instrRlist = 15#5 then 16 else 0#1 ++ instrRlist

variable (s : CompressedDecoder) (validI idInReadyI : Bool)

def go (st : CmState) : CompressedDecoder := { s with stateQ := st }

/-- cm.push -/
def push : DecompressedInstr :=
  match s.stateQ with
  | .idle =>
    let rlist := cmRlistInit (w.extractLsb 7 4)
    { instr := cmPushStoreReg rlist 1
      illegal := decide (rlist ≤ 3)
      getsExpanded := .expanded
      next :=
        if rlist ≤ 3 then { s with rlistQ := rlist }
        else if rlist = 4 then
          { s with rlistQ := rlist, stateQ := if validI && idInReadyI then .pushDecrSp else .idle }
        else ⟨rlist - 1, 2, if validI && idInReadyI then .pushStoreReg else .idle⟩ }
  | .pushStoreReg =>
    { instr := cmPushStoreReg s.rlistQ s.spOffsetQ
      illegal := false
      getsExpanded := .expanded
      next :=
        if idInReadyI then
          ⟨s.rlistQ - 1, s.spOffsetQ + 1, if s.rlistQ = 4 then .pushDecrSp else .pushStoreReg⟩
        else s }
  | .pushDecrSp =>
    { instr := cmSpAddi (w.extractLsb 7 4) (w.extractLsb 3 2) true
      illegal := false
      getsExpanded := if idInReadyI then .expandedLast else .expanded
      next := if idInReadyI then s.go .idle else s }
  | _ => ⟨w, false, .expanded, s.go .idle⟩

/-- cm.pop, cm.popretz, cm.popret -/
def pop : DecompressedInstr :=
  match s.stateQ with
  | .idle =>
    let rlist := cmRlistInit (w.extractLsb 7 4)
    let spOffset := cmStackAdjWord (w.extractLsb 7 4) (w.extractLsb 3 2) - 1
    { instr := cmPopLoadReg rlist spOffset
      illegal := decide (rlist ≤ 3)
      getsExpanded := .expanded
      next :=
        if rlist ≤ 3 then ⟨rlist, spOffset, .idle⟩
        else if rlist = 4 then
          ⟨rlist, spOffset, if validI && idInReadyI then .popIncrSp else .idle⟩
        else ⟨rlist - 1, spOffset - 1, if validI && idInReadyI then .popLoadReg else .idle⟩ }
  | .popLoadReg =>
    { instr := cmPopLoadReg s.rlistQ s.spOffsetQ
      illegal := false
      getsExpanded := .expanded
      next :=
        if idInReadyI then
          ⟨s.rlistQ - 1, s.spOffsetQ - 1, if s.rlistQ = 4 then .popIncrSp else .popLoadReg⟩
        else s }
  | .popIncrSp =>
    { instr := cmSpAddi (w.extractLsb 7 4) (w.extractLsb 3 2) false
      illegal := false
      getsExpanded :=
        if idInReadyI && w.extractLsb 12 8 != 0b11100 && w.extractLsb 12 8 != 0b11110 then
          .expandedLast
        else .expanded
      next :=
        if idInReadyI then
          if w.extractLsb 12 8 = 0b11100 then s.go .popZeroA0
          else if w.extractLsb 12 8 = 0b11110 then s.go .popRetRa
          else s.go .idle
        else s }
  | .popZeroA0 =>
    ⟨cmZeroA0, false, .expanded, if idInReadyI then s.go .popRetRa else s⟩
  | .popRetRa =>
    { instr := cmRetRa
      illegal := false
      getsExpanded := if idInReadyI then .expandedLast else .expanded
      next := if idInReadyI then s.go .idle else s }
  | _ => ⟨w, false, .expanded, s.go .idle⟩

/-- cm.mvsa01 and cm.mva01s, with the moves of the first and of the second register. -/
def mv (first second : BitVec 32) : DecompressedInstr :=
  match s.stateQ with
  | .idle =>
    ⟨first, false, .expanded, if validI && idInReadyI then s.go .mvSecondReg else s⟩
  | .mvSecondReg =>
    { instr := second
      illegal := false
      getsExpanded := if idInReadyI then .expandedLast else .expanded
      next := if idInReadyI then s.go .idle else s }
  | _ => ⟨w, false, .expanded, s.go .idle⟩

def zcmp : DecompressedInstr :=
  if w.extractLsb 12 8 = 0b11000 then push w s validI idInReadyI
  else if w.extractLsb 12 8 = 0b11010 ∨ w.extractLsb 12 8 = 0b11100 ∨
      w.extractLsb 12 8 = 0b11110 then
    pop w s validI idInReadyI
  else if w.extractLsb 12 10 = 0b011 then
    if w.extractLsb 6 5 = 0b01 then
      mv w s validI idInReadyI (cmMvsa01 0 (w.extractLsb 9 7)) (cmMvsa01 1 (w.extractLsb 4 2))
    else if w.extractLsb 6 5 = 0b11 then
      mv w s validI idInReadyI (cmMva01s (w.extractLsb 9 7) 0) (cmMva01s (w.extractLsb 4 2) 1)
    else ⟨w, true, .notExpanded, s⟩
  else ⟨w, true, .notExpanded, s⟩

def one (r : BitVec 32 × Bool) : DecompressedInstr := ⟨r.1, r.2, .notExpanded, s⟩

/-- One cycle: what is driven for the word at the input, and the next state. -/
def decompress : DecompressedInstr :=
  if w.extractLsb 1 0 = 0b00 then s.one (c0 w)
  else if w.extractLsb 1 0 = 0b01 then s.one (c1 w)
  else if w.extractLsb 1 0 = 0b10 then
    if w.extractLsb 15 13 = 0b101 then zcmp w s validI idInReadyI else s.one (c2 w)
  else ⟨w, false, .notExpanded, s⟩

/-- `gets_expanded_o` -/
def getsExpandedO : InstrExp :=
  if validI then (s.decompress w validI idInReadyI).getsExpanded else .notExpanded

/-- `is_compressed_o` -/
def isCompressed : Bool := w.extractLsb 1 0 != 3

end CompressedDecoder

end SentinelSoc
