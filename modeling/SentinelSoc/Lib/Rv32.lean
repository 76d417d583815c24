/-
  Instructions of RV32 and the words that encode them, as far as compressed instructions
  stand for them.

  * `rType`, `iType`, `sType`, `bType`, `uType`, `jType`: the formats;
  * `Instr.encode`: the word of an instruction.
-/
import Mathlib.Tactic

namespace Rv32

abbrev Reg := BitVec 5

/-! ## Formats -/

def rType (funct7 : BitVec 7) (rs2 rs1 : Reg) (funct3 : BitVec 3) (rd : Reg) (op : BitVec 7) :
    BitVec 32 :=
  funct7 ++ rs2 ++ rs1 ++ funct3 ++ rd ++ op

def iType (imm : BitVec 12) (rs1 : Reg) (funct3 : BitVec 3) (rd : Reg) (op : BitVec 7) :
    BitVec 32 :=
  imm ++ rs1 ++ funct3 ++ rd ++ op

def sType (imm : BitVec 12) (rs2 rs1 : Reg) (funct3 : BitVec 3) (op : BitVec 7) : BitVec 32 :=
  imm.extractLsb 11 5 ++ rs2 ++ rs1 ++ funct3 ++ imm.extractLsb 4 0 ++ op

def bType (offset : BitVec 13) (rs2 rs1 : Reg) (funct3 : BitVec 3) (op : BitVec 7) : BitVec 32 :=
  offset.extractLsb 12 12 ++ offset.extractLsb 10 5 ++ rs2 ++ rs1 ++ funct3 ++
    offset.extractLsb 4 1 ++ offset.extractLsb 11 11 ++ op

def uType (imm : BitVec 20) (rd : Reg) (op : BitVec 7) : BitVec 32 := imm ++ rd ++ op

def jType (offset : BitVec 21) (rd : Reg) (op : BitVec 7) : BitVec 32 :=
  offset.extractLsb 20 20 ++ offset.extractLsb 10 1 ++ offset.extractLsb 11 11 ++
    offset.extractLsb 19 12 ++ rd ++ op

/-! ## Instructions -/

inductive Instr
  | lui (rd : Reg) (imm : BitVec 20)
  | jal (rd : Reg) (offset : BitVec 21)
  | jalr (rd rs1 : Reg) (imm : BitVec 12)
  | beq (rs1 rs2 : Reg) (offset : BitVec 13)
  | bne (rs1 rs2 : Reg) (offset : BitVec 13)
  | lw (rd rs1 : Reg) (imm : BitVec 12)
  | lh (rd rs1 : Reg) (imm : BitVec 12)
  | lbu (rd rs1 : Reg) (imm : BitVec 12)
  | lhu (rd rs1 : Reg) (imm : BitVec 12)
  | sw (rs2 rs1 : Reg) (imm : BitVec 12)
  | sh (rs2 rs1 : Reg) (imm : BitVec 12)
  | sb (rs2 rs1 : Reg) (imm : BitVec 12)
  | addi (rd rs1 : Reg) (imm : BitVec 12)
  | xori (rd rs1 : Reg) (imm : BitVec 12)
  | andi (rd rs1 : Reg) (imm : BitVec 12)
  | slli (rd rs1 : Reg) (shamt : BitVec 5)
  | srli (rd rs1 : Reg) (shamt : BitVec 5)
  | srai (rd rs1 : Reg) (shamt : BitVec 5)
  | add (rd rs1 rs2 : Reg)
  | sub (rd rs1 rs2 : Reg)
  | xor (rd rs1 rs2 : Reg)
  | or (rd rs1 rs2 : Reg)
  | and (rd rs1 rs2 : Reg)
  | mul (rd rs1 rs2 : Reg)
  | sextB (rd rs1 : Reg)
  | sextH (rd rs1 : Reg)
  | zextH (rd rs1 : Reg)
  | ebreak
  deriving DecidableEq

namespace Instr

def encode : Instr → BitVec 32
  | lui rd imm => uType imm rd 0x37
  | jal rd offset => jType offset rd 0x6f
  | jalr rd rs1 imm => iType imm rs1 0 rd 0x67
  | beq rs1 rs2 offset => bType offset rs2 rs1 0 0x63
  | bne rs1 rs2 offset => bType offset rs2 rs1 1 0x63
  | lw rd rs1 imm => iType imm rs1 2 rd 0x03
  | lh rd rs1 imm => iType imm rs1 1 rd 0x03
  | lbu rd rs1 imm => iType imm rs1 4 rd 0x03
  | lhu rd rs1 imm => iType imm rs1 5 rd 0x03
  | sw rs2 rs1 imm => sType imm rs2 rs1 2 0x23
  | sh rs2 rs1 imm => sType imm rs2 rs1 1 0x23
  | sb rs2 rs1 imm => sType imm rs2 rs1 0 0x23
  | addi rd rs1 imm => iType imm rs1 0 rd 0x13
  | xori rd rs1 imm => iType imm rs1 4 rd 0x13
  | andi rd rs1 imm => iType imm rs1 7 rd 0x13
  | slli rd rs1 shamt => rType 0 shamt rs1 1 rd 0x13
  | srli rd rs1 shamt => rType 0 shamt rs1 5 rd 0x13
  | srai rd rs1 shamt => rType 0x20 shamt rs1 5 rd 0x13
  | add rd rs1 rs2 => rType 0 rs2 rs1 0 rd 0x33
  | sub rd rs1 rs2 => rType 0x20 rs2 rs1 0 rd 0x33
  | xor rd rs1 rs2 => rType 0 rs2 rs1 4 rd 0x33
  | or rd rs1 rs2 => rType 0 rs2 rs1 6 rd 0x33
  | and rd rs1 rs2 => rType 0 rs2 rs1 7 rd 0x33
  | mul rd rs1 rs2 => rType 1 rs2 rs1 0 rd 0x33
  | sextB rd rs1 => rType 0x30 4 rs1 1 rd 0x13
  | sextH rd rs1 => rType 0x30 5 rs1 1 rd 0x13
  | zextH rd rs1 => rType 4 0 rs1 4 rd 0x33
  | ebreak => 0x00100073

end Instr

end Rv32
