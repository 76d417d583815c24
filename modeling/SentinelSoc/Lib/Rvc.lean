/-
  Compressed instructions of RV32: Zca, Zcb and Zcmp.

  * `Rvc`: the instructions, with their operands as the manual numbers them;
  * `Rvc.encode`, `Rvc.decode`: their half words;
  * `Rvc.expand`: the instructions of 32 bits that they stand for;
  * `decode_encode`, `decode_eq_some`: the two are inverse to each other;
  * `isSome_decode`: decoded are the valid instructions, and the moves that Zcmp reserves.
-/
import SentinelSoc.Lib.Rv32

open Rv32

/-- Immediates are without the zeros at their low end. -/
inductive Rvc
  | addi4spn (rd : BitVec 3) (imm : BitVec 8)
  | lw (rd rs1 : BitVec 3) (imm : BitVec 5)
  | sw (rs2 rs1 : BitVec 3) (imm : BitVec 5)
  | lbu (rd rs1 : BitVec 3) (imm : BitVec 2)
  | lhu (rd rs1 : BitVec 3) (imm : BitVec 1)
  | lh (rd rs1 : BitVec 3) (imm : BitVec 1)
  | sb (rs2 rs1 : BitVec 3) (imm : BitVec 2)
  | sh (rs2 rs1 : BitVec 3) (imm : BitVec 1)
  | addi (rd : Reg) (imm : BitVec 6)
  | jal (offset : BitVec 11)
  | j (offset : BitVec 11)
  | li (rd : Reg) (imm : BitVec 6)
  | addi16sp (imm : BitVec 6)
  | lui (rd : Reg) (imm : BitVec 6)
  | srli (rd : BitVec 3) (shamt : BitVec 5)
  | srai (rd : BitVec 3) (shamt : BitVec 5)
  | andi (rd : BitVec 3) (imm : BitVec 6)
  | sub (rd rs2 : BitVec 3)
  | xor (rd rs2 : BitVec 3)
  | or (rd rs2 : BitVec 3)
  | and (rd rs2 : BitVec 3)
  | mul (rd rs2 : BitVec 3)
  | zextB (rd : BitVec 3)
  | sextB (rd : BitVec 3)
  | zextH (rd : BitVec 3)
  | sextH (rd : BitVec 3)
  | not (rd : BitVec 3)
  | beqz (rs1 : BitVec 3) (offset : BitVec 8)
  | bnez (rs1 : BitVec 3) (offset : BitVec 8)
  | slli (rd : Reg) (shamt : BitVec 5)
  | lwsp (rd : Reg) (imm : BitVec 6)
  | jr (rs1 : Reg)
  | mv (rd rs2 : Reg)
  | ebreak
  | jalr (rs1 : Reg)
  | add (rd rs2 : Reg)
  | swsp (rs2 : Reg) (imm : BitVec 6)
  | push (rlist : BitVec 4) (spimm : BitVec 2)
  | pop (rlist : BitVec 4) (spimm : BitVec 2)
  | popretz (rlist : BitVec 4) (spimm : BitVec 2)
  | popret (rlist : BitVec 4) (spimm : BitVec 2)
  | mvsa01 (r1s r2s : BitVec 3)
  | mva01s (r1s r2s : BitVec 3)
  deriving DecidableEq

namespace Rvc

/-- The other values of the operands are other instructions, or none. -/
def Encodable : Rvc → Prop
  | addi4spn _ imm => imm ≠ 0
  | addi16sp imm => imm ≠ 0
  | lui rd imm => rd ≠ 2 ∧ imm ≠ 0
  | lwsp rd _ => rd ≠ 0
  | jr rs1 => rs1 ≠ 0
  | jalr rs1 => rs1 ≠ 0
  | mv _ rs2 => rs2 ≠ 0
  | add _ rs2 => rs2 ≠ 0
  | push rlist _ | pop rlist _ | popretz rlist _ | popret rlist _ => 4 ≤ rlist
  | _ => True

/-- Zcmp reserves the moves of both arguments to the same register. -/
def Valid (c : Rvc) : Prop := c.Encodable ∧ ∀ r, c ≠ mvsa01 r r

/-! ## Half words -/

def encode : Rvc → BitVec 16
  | addi4spn rd imm => 0b000#3 ++ imm.extractLsb 3 2 ++ imm.extractLsb 7 4 ++ imm.extractLsb 0 0 ++
      imm.extractLsb 1 1 ++ rd ++ 0b00#2
  | lw rd rs1 imm => 0b010#3 ++ imm.extractLsb 3 1 ++ rs1 ++ imm.extractLsb 0 0 ++
      imm.extractLsb 4 4 ++ rd ++ 0b00#2
  | sw rs2 rs1 imm => 0b110#3 ++ imm.extractLsb 3 1 ++ rs1 ++ imm.extractLsb 0 0 ++
      imm.extractLsb 4 4 ++ rs2 ++ 0b00#2
  | lbu rd rs1 imm => 0b100000#6 ++ rs1 ++ imm.extractLsb 0 0 ++ imm.extractLsb 1 1 ++ rd ++ 0b00#2
  | lhu rd rs1 imm => 0b100001#6 ++ rs1 ++ 0b0#1 ++ imm ++ rd ++ 0b00#2
  | lh rd rs1 imm => 0b100001#6 ++ rs1 ++ 0b1#1 ++ imm ++ rd ++ 0b00#2
  | sb rs2 rs1 imm => 0b100010#6 ++ rs1 ++ imm.extractLsb 0 0 ++ imm.extractLsb 1 1 ++ rs2 ++
      0b00#2
  | sh rs2 rs1 imm => 0b100011#6 ++ rs1 ++ 0b0#1 ++ imm ++ rs2 ++ 0b00#2
  | addi rd imm => 0b000#3 ++ imm.extractLsb 5 5 ++ rd ++ imm.extractLsb 4 0 ++ 0b01#2
  | jal offset => 0b001#3 ++ offset.extractLsb 10 10 ++ offset.extractLsb 3 3 ++
      offset.extractLsb 8 7 ++ offset.extractLsb 9 9 ++ offset.extractLsb 5 5 ++
      offset.extractLsb 6 6 ++ offset.extractLsb 2 0 ++ offset.extractLsb 4 4 ++ 0b01#2
  | j offset => 0b101#3 ++ offset.extractLsb 10 10 ++ offset.extractLsb 3 3 ++
      offset.extractLsb 8 7 ++ offset.extractLsb 9 9 ++ offset.extractLsb 5 5 ++
      offset.extractLsb 6 6 ++ offset.extractLsb 2 0 ++ offset.extractLsb 4 4 ++ 0b01#2
  | li rd imm => 0b010#3 ++ imm.extractLsb 5 5 ++ rd ++ imm.extractLsb 4 0 ++ 0b01#2
  | addi16sp imm => 0b011#3 ++ imm.extractLsb 5 5 ++ 2#5 ++ imm.extractLsb 0 0 ++
      imm.extractLsb 2 2 ++ imm.extractLsb 4 3 ++ imm.extractLsb 1 1 ++ 0b01#2
  | lui rd imm => 0b011#3 ++ imm.extractLsb 5 5 ++ rd ++ imm.extractLsb 4 0 ++ 0b01#2
  | srli rd shamt => 0b100000#6 ++ rd ++ shamt ++ 0b01#2
  | srai rd shamt => 0b100001#6 ++ rd ++ shamt ++ 0b01#2
  | andi rd imm => 0b100#3 ++ imm.extractLsb 5 5 ++ 0b10#2 ++ rd ++ imm.extractLsb 4 0 ++ 0b01#2
  | sub rd rs2 => 0b100011#6 ++ rd ++ 0b00#2 ++ rs2 ++ 0b01#2
  | xor rd rs2 => 0b100011#6 ++ rd ++ 0b01#2 ++ rs2 ++ 0b01#2
  | or rd rs2 => 0b100011#6 ++ rd ++ 0b10#2 ++ rs2 ++ 0b01#2
  | and rd rs2 => 0b100011#6 ++ rd ++ 0b11#2 ++ rs2 ++ 0b01#2
  | mul rd rs2 => 0b100111#6 ++ rd ++ 0b10#2 ++ rs2 ++ 0b01#2
  | zextB rd => 0b100111#6 ++ rd ++ 0b11#2 ++ 0b000#3 ++ 0b01#2
  | sextB rd => 0b100111#6 ++ rd ++ 0b11#2 ++ 0b001#3 ++ 0b01#2
  | zextH rd => 0b100111#6 ++ rd ++ 0b11#2 ++ 0b010#3 ++ 0b01#2
  | sextH rd => 0b100111#6 ++ rd ++ 0b11#2 ++ 0b011#3 ++ 0b01#2
  | not rd => 0b100111#6 ++ rd ++ 0b11#2 ++ 0b101#3 ++ 0b01#2
  | beqz rs1 offset => 0b110#3 ++ offset.extractLsb 7 7 ++ offset.extractLsb 3 2 ++ rs1 ++
      offset.extractLsb 6 5 ++ offset.extractLsb 1 0 ++ offset.extractLsb 4 4 ++ 0b01#2
  | bnez rs1 offset => 0b111#3 ++ offset.extractLsb 7 7 ++ offset.extractLsb 3 2 ++ rs1 ++
      offset.extractLsb 6 5 ++ offset.extractLsb 1 0 ++ offset.extractLsb 4 4 ++ 0b01#2
  | slli rd shamt => 0b000#3 ++ 0b0#1 ++ rd ++ shamt ++ 0b10#2
  | lwsp rd imm => 0b010#3 ++ imm.extractLsb 3 3 ++ rd ++ imm.extractLsb 2 0 ++
      imm.extractLsb 5 4 ++ 0b10#2
  | jr rs1 => 0b100#3 ++ 0b0#1 ++ rs1 ++ 0#5 ++ 0b10#2
  | mv rd rs2 => 0b100#3 ++ 0b0#1 ++ rd ++ rs2 ++ 0b10#2
  | ebreak => 0b100#3 ++ 0b1#1 ++ 0#5 ++ 0#5 ++ 0b10#2
  | jalr rs1 => 0b100#3 ++ 0b1#1 ++ rs1 ++ 0#5 ++ 0b10#2
  | add rd rs2 => 0b100#3 ++ 0b1#1 ++ rd ++ rs2 ++ 0b10#2
  | swsp rs2 imm => 0b110#3 ++ imm.extractLsb 3 0 ++ imm.extractLsb 5 4 ++ rs2 ++ 0b10#2
  | push rlist spimm => 0b10111000#8 ++ rlist ++ spimm ++ 0b10#2
  | pop rlist spimm => 0b10111010#8 ++ rlist ++ spimm ++ 0b10#2
  | popretz rlist spimm => 0b10111100#8 ++ rlist ++ spimm ++ 0b10#2
  | popret rlist spimm => 0b10111110#8 ++ rlist ++ spimm ++ 0b10#2
  | mvsa01 r1s r2s => 0b101011#6 ++ r1s ++ 0b01#2 ++ r2s ++ 0b10#2
  | mva01s r1s r2s => 0b101011#6 ++ r1s ++ 0b11#2 ++ r2s ++ 0b10#2

variable (h : BitVec 16)

/-- The fields of registers: `rs1'` or `rd'`, `rs2'` or `rd'`, `rd` and `rs2`. -/
def rs1' : BitVec 3 := h.extractLsb 9 7

def rs2' : BitVec 3 := h.extractLsb 4 2

def rd : Reg := h.extractLsb 11 7

def rs2 : Reg := h.extractLsb 6 2

/-- The immediates, by format. -/
def immCI : BitVec 6 := h.extractLsb 12 12 ++ h.extractLsb 6 2

def immCL : BitVec 5 := h.extractLsb 5 5 ++ h.extractLsb 12 10 ++ h.extractLsb 6 6

def immCIW : BitVec 8 :=
  h.extractLsb 10 7 ++ h.extractLsb 12 11 ++ h.extractLsb 5 5 ++ h.extractLsb 6 6

def immByte : BitVec 2 := h.extractLsb 5 5 ++ h.extractLsb 6 6

def immHalf : BitVec 1 := h.extractLsb 5 5

def immSp : BitVec 6 :=
  h.extractLsb 12 12 ++ h.extractLsb 4 3 ++ h.extractLsb 5 5 ++ h.extractLsb 2 2 ++
    h.extractLsb 6 6

def immLwsp : BitVec 6 := h.extractLsb 3 2 ++ h.extractLsb 12 12 ++ h.extractLsb 6 4

def immSwsp : BitVec 6 := h.extractLsb 8 7 ++ h.extractLsb 12 9

def offsetCJ : BitVec 11 :=
  h.extractLsb 12 12 ++ h.extractLsb 8 8 ++ h.extractLsb 10 9 ++ h.extractLsb 6 6 ++
    h.extractLsb 7 7 ++ h.extractLsb 2 2 ++ h.extractLsb 11 11 ++ h.extractLsb 5 3

def offsetCB : BitVec 8 :=
  h.extractLsb 12 12 ++ h.extractLsb 6 5 ++ h.extractLsb 2 2 ++ h.extractLsb 11 10 ++
    h.extractLsb 4 3

def rlist : BitVec 4 := h.extractLsb 7 4

def spimm : BitVec 2 := h.extractLsb 3 2

def onlyIf (p : Prop) [Decidable p] (c : Rvc) : Option Rvc := if p then some c else none

/-- Loads and stores of bytes and half words. -/
def decodeZcb : Option Rvc :=
  if h.extractLsb 12 10 = 0b000 then some (lbu (rs2' h) (rs1' h) (immByte h))
  else if h.extractLsb 12 10 = 0b001 then
    if h.extractLsb 6 6 = 0 then some (lhu (rs2' h) (rs1' h) (immHalf h))
    else if h.extractLsb 6 6 = 1 then some (lh (rs2' h) (rs1' h) (immHalf h))
    else none
  else if h.extractLsb 12 10 = 0b010 then some (sb (rs2' h) (rs1' h) (immByte h))
  else if h.extractLsb 12 10 = 0b011 then
    onlyIf (h.extractLsb 6 6 = 0) (sh (rs2' h) (rs1' h) (immHalf h))
  else none

/-- Quadrant 0. -/
def decode0 : Option Rvc :=
  if h.extractLsb 15 13 = 0b000 then onlyIf (immCIW h ≠ 0) (addi4spn (rs2' h) (immCIW h))
  else if h.extractLsb 15 13 = 0b010 then some (lw (rs2' h) (rs1' h) (immCL h))
  else if h.extractLsb 15 13 = 0b110 then some (sw (rs2' h) (rs1' h) (immCL h))
  else if h.extractLsb 15 13 = 0b100 then decodeZcb h
  else none

/-- Operations on one register. -/
def decodeUnary : Option Rvc :=
  if h.extractLsb 4 2 = 0b000 then some (zextB (rs1' h))
  else if h.extractLsb 4 2 = 0b001 then some (sextB (rs1' h))
  else if h.extractLsb 4 2 = 0b010 then some (zextH (rs1' h))
  else if h.extractLsb 4 2 = 0b011 then some (sextH (rs1' h))
  else if h.extractLsb 4 2 = 0b101 then some (not (rs1' h))
  else none

/-- Operations on two registers. -/
def decodeBinary : Option Rvc :=
  if h.extractLsb 12 12 = 0 then
    if h.extractLsb 6 5 = 0b00 then some (sub (rs1' h) (rs2' h))
    else if h.extractLsb 6 5 = 0b01 then some (xor (rs1' h) (rs2' h))
    else if h.extractLsb 6 5 = 0b10 then some (or (rs1' h) (rs2' h))
    else if h.extractLsb 6 5 = 0b11 then some (and (rs1' h) (rs2' h))
    else none
  else if h.extractLsb 12 12 = 1 then
    if h.extractLsb 6 5 = 0b10 then some (mul (rs1' h) (rs2' h))
    else if h.extractLsb 6 5 = 0b11 then decodeUnary h
    else none
  else none

def decodeAlu : Option Rvc :=
  if h.extractLsb 11 10 = 0b00 then
    onlyIf (h.extractLsb 12 12 = 0) (srli (rs1' h) (rs2 h))
  else if h.extractLsb 11 10 = 0b01 then
    onlyIf (h.extractLsb 12 12 = 0) (srai (rs1' h) (rs2 h))
  else if h.extractLsb 11 10 = 0b10 then some (andi (rs1' h) (immCI h))
  else if h.extractLsb 11 10 = 0b11 then decodeBinary h
  else none

/-- Quadrant 1. -/
def decode1 : Option Rvc :=
  if h.extractLsb 15 13 = 0b000 then some (addi (rd h) (immCI h))
  else if h.extractLsb 15 13 = 0b001 then some (jal (offsetCJ h))
  else if h.extractLsb 15 13 = 0b010 then some (li (rd h) (immCI h))
  else if h.extractLsb 15 13 = 0b011 then
    if rd h = 2 then onlyIf (immSp h ≠ 0) (addi16sp (immSp h))
    else onlyIf (immCI h ≠ 0) (lui (rd h) (immCI h))
  else if h.extractLsb 15 13 = 0b100 then decodeAlu h
  else if h.extractLsb 15 13 = 0b101 then some (j (offsetCJ h))
  else if h.extractLsb 15 13 = 0b110 then some (beqz (rs1' h) (offsetCB h))
  else if h.extractLsb 15 13 = 0b111 then some (bnez (rs1' h) (offsetCB h))
  else none

def decodeJump : Option Rvc :=
  if h.extractLsb 12 12 = 0 then
    if rs2 h = 0 then onlyIf (rd h ≠ 0) (jr (rd h)) else some (mv (rd h) (rs2 h))
  else if h.extractLsb 12 12 = 1 then
    if rs2 h = 0 then if rd h = 0 then some ebreak else some (jalr (rd h))
    else some (add (rd h) (rs2 h))
  else none

/-- Moves, and the frames of functions. -/
def decodeZcmp : Option Rvc :=
  if h.extractLsb 12 10 = 0b011 then
    if h.extractLsb 6 5 = 0b01 then some (mvsa01 (rs1' h) (rs2' h))
    else if h.extractLsb 6 5 = 0b11 then some (mva01s (rs1' h) (rs2' h))
    else none
  else if h.extractLsb 12 8 = 0b11000 then onlyIf (4 ≤ rlist h) (push (rlist h) (spimm h))
  else if h.extractLsb 12 8 = 0b11010 then onlyIf (4 ≤ rlist h) (pop (rlist h) (spimm h))
  else if h.extractLsb 12 8 = 0b11100 then onlyIf (4 ≤ rlist h) (popretz (rlist h) (spimm h))
  else if h.extractLsb 12 8 = 0b11110 then onlyIf (4 ≤ rlist h) (popret (rlist h) (spimm h))
  else none

/-- Quadrant 2. -/
def decode2 : Option Rvc :=
  if h.extractLsb 15 13 = 0b000 then onlyIf (h.extractLsb 12 12 = 0) (slli (rd h) (rs2 h))
  else if h.extractLsb 15 13 = 0b010 then onlyIf (rd h ≠ 0) (lwsp (rd h) (immLwsp h))
  else if h.extractLsb 15 13 = 0b100 then decodeJump h
  else if h.extractLsb 15 13 = 0b101 then decodeZcmp h
  else if h.extractLsb 15 13 = 0b110 then some (swsp (rs2 h) (immSwsp h))
  else none

/-- Quadrant 3 has the instructions of 32 bits. The reserved moves are decoded like the others. -/
def decode : Option Rvc :=
  if h.extractLsb 1 0 = 0 then decode0 h
  else if h.extractLsb 1 0 = 1 then decode1 h
  else if h.extractLsb 1 0 = 2 then decode2 h
  else none

/-- The registers `rd'`, of the fields of three bits. -/
def short (r : BitVec 3) : Reg := 0b01#2 ++ r

/-! ## Expansion -/

/-- The registers that are pushed, the highest number first. -/
def savedRegs : List Reg := [27, 26, 25, 24, 23, 22, 21, 20, 19, 18, 9, 8, 1]

/-- `{ra, s0-s11}` is the list 15, and the lists below it come without the highest ones. -/
def xregList (rlist : BitVec 4) : List Reg :=
  if rlist = 15 then savedRegs else savedRegs.drop (16 - rlist.toNat)

/-- The frame has room for the registers in blocks of 16 bytes, and for `spimm` blocks more. -/
def stackAdj (rlist : BitVec 4) (spimm : BitVec 2) : ℕ :=
  16 * (((xregList rlist).length + 3) / 4) + 16 * spimm.toNat

/-- The saved registers, and the words of the frame from its upper end where they lie. -/
def slots (rlist : BitVec 4) : List (Reg × ℕ) := (xregList rlist).zipIdx 1

def pushOps (rlist : BitVec 4) (spimm : BitVec 2) : List Instr :=
  (slots rlist).map (fun p => .sw p.1 2 (-BitVec.ofNat 12 (4 * p.2))) ++
    [.addi 2 2 (-BitVec.ofNat 12 (stackAdj rlist spimm))]

def popOps (rlist : BitVec 4) (spimm : BitVec 2) : List Instr :=
  (slots rlist).map (fun p => .lw p.1 2 (BitVec.ofNat 12 (stackAdj rlist spimm - 4 * p.2))) ++
    [.addi 2 2 (BitVec.ofNat 12 (stackAdj rlist spimm))]

/-- `s0`, `s1` and `s2` to `s7`. -/
def sReg (r : BitVec 3) : Reg := if r.toNat < 2 then BitVec.ofNat 5 (8 + r.toNat)
  else BitVec.ofNat 5 (16 + r.toNat)

def expand : Rvc → List Instr
  | addi4spn rd imm => [.addi (short rd) 2 ((imm ++ 0#2).zeroExtend 12)]
  | lw rd rs1 imm => [.lw (short rd) (short rs1) ((imm ++ 0#2).zeroExtend 12)]
  | sw rs2 rs1 imm => [.sw (short rs2) (short rs1) ((imm ++ 0#2).zeroExtend 12)]
  | lbu rd rs1 imm => [.lbu (short rd) (short rs1) (imm.zeroExtend 12)]
  | lhu rd rs1 imm => [.lhu (short rd) (short rs1) ((imm ++ 0#1).zeroExtend 12)]
  | lh rd rs1 imm => [.lh (short rd) (short rs1) ((imm ++ 0#1).zeroExtend 12)]
  | sb rs2 rs1 imm => [.sb (short rs2) (short rs1) (imm.zeroExtend 12)]
  | sh rs2 rs1 imm => [.sh (short rs2) (short rs1) ((imm ++ 0#1).zeroExtend 12)]
  | addi rd imm => [.addi rd rd (imm.signExtend 12)]
  | jal offset => [.jal 1 ((offset ++ 0#1).signExtend 21)]
  | j offset => [.jal 0 ((offset ++ 0#1).signExtend 21)]
  | li rd imm => [.addi rd 0 (imm.signExtend 12)]
  | addi16sp imm => [.addi 2 2 ((imm ++ 0#4).signExtend 12)]
  | lui rd imm => [.lui rd (imm.signExtend 20)]
  | srli rd shamt => [.srli (short rd) (short rd) shamt]
  | srai rd shamt => [.srai (short rd) (short rd) shamt]
  | andi rd imm => [.andi (short rd) (short rd) (imm.signExtend 12)]
  | sub rd rs2 => [.sub (short rd) (short rd) (short rs2)]
  | xor rd rs2 => [.xor (short rd) (short rd) (short rs2)]
  | or rd rs2 => [.or (short rd) (short rd) (short rs2)]
  | and rd rs2 => [.and (short rd) (short rd) (short rs2)]
  | mul rd rs2 => [.mul (short rd) (short rd) (short rs2)]
  | zextB rd => [.andi (short rd) (short rd) 0xff]
  | sextB rd => [.sextB (short rd) (short rd)]
  | zextH rd => [.zextH (short rd) (short rd)]
  | sextH rd => [.sextH (short rd) (short rd)]
  | not rd => [.xori (short rd) (short rd) (-1)]
  | beqz rs1 offset => [.beq (short rs1) 0 ((offset ++ 0#1).signExtend 13)]
  | bnez rs1 offset => [.bne (short rs1) 0 ((offset ++ 0#1).signExtend 13)]
  | slli rd shamt => [.slli rd rd shamt]
  | lwsp rd imm => [.lw rd 2 ((imm ++ 0#2).zeroExtend 12)]
  | jr rs1 => [.jalr 0 rs1 0]
  | mv rd rs2 => [.add rd 0 rs2]
  | ebreak => [.ebreak]
  | jalr rs1 => [.jalr 1 rs1 0]
  | add rd rs2 => [.add rd rd rs2]
  | swsp rs2 imm => [.sw rs2 2 ((imm ++ 0#2).zeroExtend 12)]
  | push rlist spimm => pushOps rlist spimm
  | pop rlist spimm => popOps rlist spimm
  | popretz rlist spimm => popOps rlist spimm ++ [.addi 10 0 0, .jalr 0 1 0]
  | popret rlist spimm => popOps rlist spimm ++ [.jalr 0 1 0]
  | mvsa01 r1s r2s => [.addi (sReg r1s) 10 0, .addi (sReg r2s) 11 0]
  | mva01s r1s r2s => [.addi 10 (sReg r1s) 0, .addi 11 (sReg r2s) 0]

/-! ## Round trips -/

/-- The half word has the operands in their fields, and elsewhere what is fixed. -/
def Fields (h : BitVec 16) : Rvc → Prop
  | addi4spn r imm =>
    h.extractLsb 1 0 = 0 ∧ h.extractLsb 15 13 = 0 ∧ rs2' h = r ∧ immCIW h = imm
  | lw r r' imm =>
    h.extractLsb 1 0 = 0 ∧ h.extractLsb 15 13 = 2 ∧ rs2' h = r ∧ rs1' h = r' ∧ immCL h = imm
  | sw r r' imm =>
    h.extractLsb 1 0 = 0 ∧ h.extractLsb 15 13 = 6 ∧ rs2' h = r ∧ rs1' h = r' ∧ immCL h = imm
  | lbu r r' imm => h.extractLsb 1 0 = 0 ∧ h.extractLsb 15 13 = 4 ∧ h.extractLsb 12 10 = 0 ∧
      rs2' h = r ∧ rs1' h = r' ∧ immByte h = imm
  | lhu r r' imm => h.extractLsb 1 0 = 0 ∧ h.extractLsb 15 13 = 4 ∧ h.extractLsb 12 10 = 1 ∧
      h.extractLsb 6 6 = 0 ∧ rs2' h = r ∧ rs1' h = r' ∧ immHalf h = imm
  | lh r r' imm => h.extractLsb 1 0 = 0 ∧ h.extractLsb 15 13 = 4 ∧ h.extractLsb 12 10 = 1 ∧
      h.extractLsb 6 6 = 1 ∧ rs2' h = r ∧ rs1' h = r' ∧ immHalf h = imm
  | sb r r' imm => h.extractLsb 1 0 = 0 ∧ h.extractLsb 15 13 = 4 ∧ h.extractLsb 12 10 = 2 ∧
      rs2' h = r ∧ rs1' h = r' ∧ immByte h = imm
  | sh r r' imm => h.extractLsb 1 0 = 0 ∧ h.extractLsb 15 13 = 4 ∧ h.extractLsb 12 10 = 3 ∧
      h.extractLsb 6 6 = 0 ∧ rs2' h = r ∧ rs1' h = r' ∧ immHalf h = imm
  | addi r imm => h.extractLsb 1 0 = 1 ∧ h.extractLsb 15 13 = 0 ∧ rd h = r ∧ immCI h = imm
  | jal offset => h.extractLsb 1 0 = 1 ∧ h.extractLsb 15 13 = 1 ∧ offsetCJ h = offset
  | j offset => h.extractLsb 1 0 = 1 ∧ h.extractLsb 15 13 = 5 ∧ offsetCJ h = offset
  | li r imm => h.extractLsb 1 0 = 1 ∧ h.extractLsb 15 13 = 2 ∧ rd h = r ∧ immCI h = imm
  | addi16sp imm => h.extractLsb 1 0 = 1 ∧ h.extractLsb 15 13 = 3 ∧ rd h = 2 ∧ immSp h = imm
  | lui r imm => h.extractLsb 1 0 = 1 ∧ h.extractLsb 15 13 = 3 ∧ rd h = r ∧ immCI h = imm
  | srli r shamt => h.extractLsb 1 0 = 1 ∧ h.extractLsb 15 13 = 4 ∧ h.extractLsb 11 10 = 0 ∧
      h.extractLsb 12 12 = 0 ∧ rs1' h = r ∧ rs2 h = shamt
  | srai r shamt => h.extractLsb 1 0 = 1 ∧ h.extractLsb 15 13 = 4 ∧ h.extractLsb 11 10 = 1 ∧
      h.extractLsb 12 12 = 0 ∧ rs1' h = r ∧ rs2 h = shamt
  | andi r imm => h.extractLsb 1 0 = 1 ∧ h.extractLsb 15 13 = 4 ∧ h.extractLsb 11 10 = 2 ∧
      rs1' h = r ∧ immCI h = imm
  | sub r r' => h.extractLsb 1 0 = 1 ∧ h.extractLsb 15 13 = 4 ∧ h.extractLsb 11 10 = 3 ∧
      h.extractLsb 12 12 = 0 ∧ h.extractLsb 6 5 = 0 ∧ rs1' h = r ∧ rs2' h = r'
  | xor r r' => h.extractLsb 1 0 = 1 ∧ h.extractLsb 15 13 = 4 ∧ h.extractLsb 11 10 = 3 ∧
      h.extractLsb 12 12 = 0 ∧ h.extractLsb 6 5 = 1 ∧ rs1' h = r ∧ rs2' h = r'
  | or r r' => h.extractLsb 1 0 = 1 ∧ h.extractLsb 15 13 = 4 ∧ h.extractLsb 11 10 = 3 ∧
      h.extractLsb 12 12 = 0 ∧ h.extractLsb 6 5 = 2 ∧ rs1' h = r ∧ rs2' h = r'
  | and r r' => h.extractLsb 1 0 = 1 ∧ h.extractLsb 15 13 = 4 ∧ h.extractLsb 11 10 = 3 ∧
      h.extractLsb 12 12 = 0 ∧ h.extractLsb 6 5 = 3 ∧ rs1' h = r ∧ rs2' h = r'
  | mul r r' => h.extractLsb 1 0 = 1 ∧ h.extractLsb 15 13 = 4 ∧ h.extractLsb 11 10 = 3 ∧
      h.extractLsb 12 12 = 1 ∧ h.extractLsb 6 5 = 2 ∧ rs1' h = r ∧ rs2' h = r'
  | zextB r => h.extractLsb 1 0 = 1 ∧ h.extractLsb 15 13 = 4 ∧ h.extractLsb 11 10 = 3 ∧
      h.extractLsb 12 12 = 1 ∧ h.extractLsb 6 5 = 3 ∧ h.extractLsb 4 2 = 0 ∧ rs1' h = r
  | sextB r => h.extractLsb 1 0 = 1 ∧ h.extractLsb 15 13 = 4 ∧ h.extractLsb 11 10 = 3 ∧
      h.extractLsb 12 12 = 1 ∧ h.extractLsb 6 5 = 3 ∧ h.extractLsb 4 2 = 1 ∧ rs1' h = r
  | zextH r => h.extractLsb 1 0 = 1 ∧ h.extractLsb 15 13 = 4 ∧ h.extractLsb 11 10 = 3 ∧
      h.extractLsb 12 12 = 1 ∧ h.extractLsb 6 5 = 3 ∧ h.extractLsb 4 2 = 2 ∧ rs1' h = r
  | sextH r => h.extractLsb 1 0 = 1 ∧ h.extractLsb 15 13 = 4 ∧ h.extractLsb 11 10 = 3 ∧
      h.extractLsb 12 12 = 1 ∧ h.extractLsb 6 5 = 3 ∧ h.extractLsb 4 2 = 3 ∧ rs1' h = r
  | not r => h.extractLsb 1 0 = 1 ∧ h.extractLsb 15 13 = 4 ∧ h.extractLsb 11 10 = 3 ∧
      h.extractLsb 12 12 = 1 ∧ h.extractLsb 6 5 = 3 ∧ h.extractLsb 4 2 = 5 ∧ rs1' h = r
  | beqz r offset =>
    h.extractLsb 1 0 = 1 ∧ h.extractLsb 15 13 = 6 ∧ rs1' h = r ∧ offsetCB h = offset
  | bnez r offset =>
    h.extractLsb 1 0 = 1 ∧ h.extractLsb 15 13 = 7 ∧ rs1' h = r ∧ offsetCB h = offset
  | slli r shamt => h.extractLsb 1 0 = 2 ∧ h.extractLsb 15 13 = 0 ∧ h.extractLsb 12 12 = 0 ∧
      rd h = r ∧ rs2 h = shamt
  | lwsp r imm => h.extractLsb 1 0 = 2 ∧ h.extractLsb 15 13 = 2 ∧ rd h = r ∧ immLwsp h = imm
  | jr r => h.extractLsb 1 0 = 2 ∧ h.extractLsb 15 13 = 4 ∧ h.extractLsb 12 12 = 0 ∧
      rd h = r ∧ rs2 h = 0
  | mv r r' => h.extractLsb 1 0 = 2 ∧ h.extractLsb 15 13 = 4 ∧ h.extractLsb 12 12 = 0 ∧
      rd h = r ∧ rs2 h = r'
  | ebreak => h.extractLsb 1 0 = 2 ∧ h.extractLsb 15 13 = 4 ∧ h.extractLsb 12 12 = 1 ∧
      rd h = 0 ∧ rs2 h = 0
  | jalr r => h.extractLsb 1 0 = 2 ∧ h.extractLsb 15 13 = 4 ∧ h.extractLsb 12 12 = 1 ∧
      rd h = r ∧ rs2 h = 0
  | add r r' => h.extractLsb 1 0 = 2 ∧ h.extractLsb 15 13 = 4 ∧ h.extractLsb 12 12 = 1 ∧
      rd h = r ∧ rs2 h = r'
  | swsp r imm => h.extractLsb 1 0 = 2 ∧ h.extractLsb 15 13 = 6 ∧ rs2 h = r ∧ immSwsp h = imm
  | push l m => h.extractLsb 1 0 = 2 ∧ h.extractLsb 15 13 = 5 ∧ h.extractLsb 12 10 = 6 ∧
      h.extractLsb 12 8 = 24 ∧ rlist h = l ∧ spimm h = m
  | pop l m => h.extractLsb 1 0 = 2 ∧ h.extractLsb 15 13 = 5 ∧ h.extractLsb 12 10 = 6 ∧
      h.extractLsb 12 8 = 26 ∧ rlist h = l ∧ spimm h = m
  | popretz l m => h.extractLsb 1 0 = 2 ∧ h.extractLsb 15 13 = 5 ∧ h.extractLsb 12 10 = 7 ∧
      h.extractLsb 12 8 = 28 ∧ rlist h = l ∧ spimm h = m
  | popret l m => h.extractLsb 1 0 = 2 ∧ h.extractLsb 15 13 = 5 ∧ h.extractLsb 12 10 = 7 ∧
      h.extractLsb 12 8 = 30 ∧ rlist h = l ∧ spimm h = m
  | mvsa01 r r' => h.extractLsb 1 0 = 2 ∧ h.extractLsb 15 13 = 5 ∧ h.extractLsb 12 10 = 3 ∧
      h.extractLsb 6 5 = 1 ∧ rs1' h = r ∧ rs2' h = r'
  | mva01s r r' => h.extractLsb 1 0 = 2 ∧ h.extractLsb 15 13 = 5 ∧ h.extractLsb 12 10 = 3 ∧
      h.extractLsb 6 5 = 3 ∧ rs1' h = r ∧ rs2' h = r'

theorem fields_encode (c : Rvc) : Fields c.encode c := by
  cases c <;> dsimp only [Fields] <;> and_intros
  all_goals first
    -- a field of its own
    | simp (disch := omega) only [encode, rs1', rs2', rd, rs2, rlist, spimm, immHalf,
        BitVec.extractLsb, BitVec.extractLsb'_append_eq_of_add_le,
        BitVec.extractLsb'_append_eq_of_le]
      first | rfl | exact BitVec.extractLsb'_eq_self
    -- an immediate that is cut into pieces
    | apply BitVec.eq_of_getLsbD_eq
      intro i hi
      simp only [immCI, immCL, immCIW, immByte, immSp, immLwsp, immSwsp, offsetCJ, offsetCB,
        encode, BitVec.getLsbD_extractLsb, BitVec.getLsbD_append]
      interval_cases i <;> rfl

variable {h : BitVec 16} {c : Rvc}

theorem decode_of_fields (hf : Fields h c) (hv : c.Encodable) : decode h = some c := by
  cases c <;> simp [Fields, Encodable] at hf hv
  all_goals
    simp [decode, decode0, decodeZcb, decode1, decodeAlu, decodeBinary, decodeUnary, decode2,
      decodeJump, decodeZcmp, onlyIf, hf, hv]

/-- Every instruction has an encoding. -/
theorem decode_encode (hv : c.Encodable) : decode c.encode = some c :=
  decode_of_fields (fields_encode c) hv

theorem extractLsb_eq_iff {w m l : ℕ} {x : BitVec w} {v : BitVec (m - l + 1)} (hlm : l ≤ m) :
    x.extractLsb m l = v ↔ ∀ i, l ≤ i → i ≤ m → x.getLsbD i = v.getLsbD (i - l) := by
  constructor
  · rintro rfl i hl hm
    rw [BitVec.getLsbD_extractLsb, decide_eq_true (by omega), Bool.true_and,
      Nat.add_sub_cancel' hl]
  · intro h
    apply BitVec.eq_of_getLsbD_eq
    intro i hi
    rw [BitVec.getLsbD_extractLsb, decide_eq_true (by omega), Bool.true_and,
      h (l + i) (by omega) (by omega), Nat.add_sub_cancel_left]

theorem encode_of_decodeZcb (h1 : h.extractLsb 1 0 = 0) (h3 : h.extractLsb 15 13 = 4)
    (hd : decodeZcb h = some c) : c.encode = h := by
  simp only [decodeZcb, onlyIf] at hd
  split_ifs at hd <;> cases hd
  all_goals
    simp (disch := omega) only [extractLsb_eq_iff] at *
    apply BitVec.eq_of_getLsbD_eq
    intro i hi
    simp only [encode, rs1', rs2', immByte, immHalf, BitVec.getLsbD_extractLsb,
      BitVec.getLsbD_append]
    interval_cases i
    all_goals first | rfl | simp [-BitVec.getLsbD_eq_getElem, *]

theorem encode_of_decodeUnary (h1 : h.extractLsb 1 0 = 1) (h3 : h.extractLsb 15 13 = 4)
    (h4 : h.extractLsb 11 10 = 3) (h5 : h.extractLsb 12 12 = 1) (h6 : h.extractLsb 6 5 = 3)
    (hd : decodeUnary h = some c) : c.encode = h := by
  simp only [decodeUnary] at hd
  split_ifs at hd <;> cases hd
  all_goals
    simp (disch := omega) only [extractLsb_eq_iff] at *
    apply BitVec.eq_of_getLsbD_eq
    intro i hi
    simp only [encode, rs1', BitVec.getLsbD_extractLsb,
      BitVec.getLsbD_append]
    interval_cases i
    all_goals first | rfl | simp [-BitVec.getLsbD_eq_getElem, *]

theorem encode_of_decodeBinary (h1 : h.extractLsb 1 0 = 1) (h3 : h.extractLsb 15 13 = 4)
    (h4 : h.extractLsb 11 10 = 3) (hd : decodeBinary h = some c) : c.encode = h := by
  simp only [decodeBinary] at hd
  split_ifs at hd
  all_goals first
    | exact encode_of_decodeUnary h1 h3 h4 ‹_› ‹_› hd
    | cases hd
  all_goals
    simp (disch := omega) only [extractLsb_eq_iff] at *
    apply BitVec.eq_of_getLsbD_eq
    intro i hi
    simp only [encode, rs1', rs2', BitVec.getLsbD_extractLsb,
      BitVec.getLsbD_append]
    interval_cases i
    all_goals first | rfl | simp [-BitVec.getLsbD_eq_getElem, *]

theorem encode_of_decodeAlu (h1 : h.extractLsb 1 0 = 1) (h3 : h.extractLsb 15 13 = 4)
    (hd : decodeAlu h = some c) : c.encode = h := by
  simp only [decodeAlu, onlyIf] at hd
  split_ifs at hd
  all_goals first
    | exact encode_of_decodeBinary h1 h3 ‹_› hd
    | cases hd
  all_goals
    simp (disch := omega) only [extractLsb_eq_iff] at *
    apply BitVec.eq_of_getLsbD_eq
    intro i hi
    simp only [encode, rs1', rs2, immCI, BitVec.getLsbD_extractLsb,
      BitVec.getLsbD_append]
    interval_cases i
    all_goals first | rfl | simp [-BitVec.getLsbD_eq_getElem, *]

theorem encode_of_decodeJump (h1 : h.extractLsb 1 0 = 2) (h3 : h.extractLsb 15 13 = 4)
    (hd : decodeJump h = some c) : c.encode = h := by
  simp only [decodeJump, onlyIf, ne_eq] at hd
  split_ifs at hd <;> cases hd
  all_goals
    simp (disch := omega) only [rd, rs2, extractLsb_eq_iff] at *
    apply BitVec.eq_of_getLsbD_eq
    intro i hi
    simp only [encode, BitVec.getLsbD_extractLsb,
      BitVec.getLsbD_append]
    interval_cases i
    all_goals first | rfl | simp [-BitVec.getLsbD_eq_getElem, *]

theorem encode_of_decodeZcmp (h1 : h.extractLsb 1 0 = 2) (h3 : h.extractLsb 15 13 = 5)
    (hd : decodeZcmp h = some c) : c.encode = h := by
  simp only [decodeZcmp, onlyIf] at hd
  split_ifs at hd <;> cases hd
  all_goals
    simp (disch := omega) only [extractLsb_eq_iff] at *
    apply BitVec.eq_of_getLsbD_eq
    intro i hi
    simp only [encode, rs1', rs2', rlist, spimm, BitVec.getLsbD_extractLsb,
      BitVec.getLsbD_append]
    interval_cases i
    all_goals first | rfl | simp [-BitVec.getLsbD_eq_getElem, *]


theorem encode_of_decode0 (h1 : h.extractLsb 1 0 = 0) (hd : decode0 h = some c) :
    c.encode = h := by
  simp only [decode0, onlyIf] at hd
  split_ifs at hd
  all_goals first
    | exact encode_of_decodeZcb h1 ‹_› hd
    | cases hd
  all_goals
    simp (disch := omega) only [extractLsb_eq_iff] at *
    apply BitVec.eq_of_getLsbD_eq
    intro i hi
    simp only [encode, rs1', rs2', immCIW, immCL, BitVec.getLsbD_extractLsb,
      BitVec.getLsbD_append]
    interval_cases i
    all_goals first | rfl | simp [-BitVec.getLsbD_eq_getElem, *]

theorem encode_of_decode1 (h1 : h.extractLsb 1 0 = 1) (hd : decode1 h = some c) :
    c.encode = h := by
  simp only [decode1, onlyIf] at hd
  split_ifs at hd
  all_goals first
    | exact encode_of_decodeAlu h1 ‹_› hd
    | cases hd
  all_goals
    simp (disch := omega) only [rd, extractLsb_eq_iff] at *
    apply BitVec.eq_of_getLsbD_eq
    intro i hi
    simp only [encode, rs1', immCI, immSp, offsetCJ, offsetCB, BitVec.getLsbD_extractLsb,
      BitVec.getLsbD_append]
    interval_cases i
    all_goals first | rfl | simp [-BitVec.getLsbD_eq_getElem, *]

theorem encode_of_decode2 (h1 : h.extractLsb 1 0 = 2) (hd : decode2 h = some c) :
    c.encode = h := by
  simp only [decode2, onlyIf] at hd
  split_ifs at hd
  all_goals first
    | exact encode_of_decodeJump h1 ‹_› hd
    | exact encode_of_decodeZcmp h1 ‹_› hd
    | cases hd
  all_goals
    simp (disch := omega) only [rd, extractLsb_eq_iff] at *
    apply BitVec.eq_of_getLsbD_eq
    intro i hi
    simp only [encode, rs2, immLwsp, immSwsp, BitVec.getLsbD_extractLsb,
      BitVec.getLsbD_append]
    interval_cases i
    all_goals first | rfl | simp [-BitVec.getLsbD_eq_getElem, *]

/-- Only encodings are accepted. -/
theorem encode_of_decode (hd : decode h = some c) : c.encode = h := by
  unfold decode at hd
  split_ifs at hd with h1 h1 h1
  · exact encode_of_decode0 h1 hd
  · exact encode_of_decode1 h1 hd
  · exact encode_of_decode2 h1 hd

theorem encodable_of_decodeZcb (hd : decodeZcb h = some c) : c.Encodable := by
  unfold decodeZcb onlyIf at hd
  split_ifs at hd
  all_goals
    cases hd
    trivial

theorem encodable_of_decodeBinary (hd : decodeBinary h = some c) : c.Encodable := by
  unfold decodeBinary decodeUnary at hd
  split_ifs at hd
  all_goals
    cases hd
    trivial

theorem encodable_of_decodeAlu (hd : decodeAlu h = some c) : c.Encodable := by
  unfold decodeAlu onlyIf at hd
  split_ifs at hd
  all_goals first
    | exact encodable_of_decodeBinary hd
    | cases hd; trivial

theorem encodable_of_decodeJump (hd : decodeJump h = some c) : c.Encodable := by
  unfold decodeJump onlyIf at hd
  split_ifs at hd
  all_goals
    cases hd
    trivial

theorem encodable_of_decodeZcmp (hd : decodeZcmp h = some c) : c.Encodable := by
  unfold decodeZcmp onlyIf at hd
  split_ifs at hd
  all_goals
    cases hd
    trivial

theorem encodable_of_decode0 (hd : decode0 h = some c) : c.Encodable := by
  unfold decode0 onlyIf at hd
  split_ifs at hd with h0 hv h1 h2 h3
  · cases hd
    exact hv
  · cases hd
    trivial
  · cases hd
    trivial
  · exact encodable_of_decodeZcb hd

theorem encodable_of_decode1 (hd : decode1 h = some c) : c.Encodable := by
  unfold decode1 onlyIf at hd
  split_ifs at hd with h0 h1 h2 h3 hr hv hv h4 h5 h6 h7
  iterate 4
    · cases hd
      trivial
  · cases hd
    exact ⟨hr, hv⟩
  · exact encodable_of_decodeAlu hd
  all_goals
    cases hd
    trivial

theorem encodable_of_decode2 (hd : decode2 h = some c) : c.Encodable := by
  unfold decode2 onlyIf at hd
  split_ifs at hd with h0 hv h1 hv h2 h3 h4
  · cases hd
    trivial
  · cases hd
    exact hv
  · exact encodable_of_decodeJump hd
  · exact encodable_of_decodeZcmp hd
  · cases hd
    trivial

theorem encodable_of_decode (hd : decode h = some c) : c.Encodable := by
  unfold decode at hd
  split_ifs at hd
  · exact encodable_of_decode0 hd
  · exact encodable_of_decode1 hd
  · exact encodable_of_decode2 hd

/-- The half words that are accepted are those of the instructions. -/
theorem decode_eq_some : decode h = some c ↔ c.Encodable ∧ c.encode = h := by
  constructor
  · intro hd
    exact ⟨encodable_of_decode hd, encode_of_decode hd⟩
  · rintro ⟨hv, rfl⟩
    exact decode_encode hv

theorem isSome_decode : (decode h).isSome ↔
    (∃ c : Rvc, c.Valid ∧ c.encode = h) ∨ ∃ r, (mvsa01 r r).encode = h := by
  simp only [Option.isSome_iff_exists, decode_eq_some]
  constructor
  · rintro ⟨c, he, rfl⟩
    by_cases hr : ∃ r, c = mvsa01 r r
    · obtain ⟨r, rfl⟩ := hr
      exact .inr ⟨r, rfl⟩
    · exact .inl ⟨c, ⟨he, fun r hc => hr ⟨r, hc⟩⟩, rfl⟩
  · rintro (⟨c, hv, rfl⟩ | ⟨r, rfl⟩)
    · exact ⟨c, hv.1, rfl⟩
    · exact ⟨mvsa01 r r, trivial, rfl⟩

end Rvc
