/-
  The taint policy of the core.

  * `TagMode`, `Tcr`, `Tpr`: the fields of the two policy registers;
  * `diftTmu`, `modeTag`: which checks and which mode an instruction word gets;
  * `diftLogic`: the tag of a result, and the check of the operand tags;
  * `loadCheck`, `loadPropagation`: the same for the data of a load.
-/
import Mathlib.Tactic

namespace SentinelSoc

/-! ## The policy registers -/

/-- `tag_mode_e` -/
inductive TagMode
  | old
  | and
  | or
  | clear
  deriving DecidableEq

def TagMode.ofBits (b : BitVec 2) : TagMode :=
  if b = 0 then .old else if b = 1 then .and else if b = 2 then .or else .clear

/-- The tag that a mode makes of two tags. -/
def TagMode.result (m : TagMode) (a b : Bool) : Bool :=
  match m with
  | .and => a && b
  | .or => a || b
  | .old | .clear => false

-- The bits of the tag control register.
namespace Tcr

def executePc := 0
def jumpCheckS1 := 1
def jumpCheckS2 := 2
def jumpCheckD := 3
def branchCheckS1 := 4
def branchCheckS2 := 5
def loadstoreCheckDa := 6
def loadstoreCheckS := 7
def loadstoreCheckD := 8
def integerCheckS1 := 9
def integerCheckS2 := 10
def integerCheckD := 11
def shiftCheckS1 := 12
def shiftCheckD := 13
def logicalCheckS1 := 14
def logicalCheckD := 15
def comparisonCheckS1 := 16
def comparisonCheckD := 17
def shiftCheckS2 := 18
def logicalCheckS2 := 19
def comparisonCheckS2 := 20
def loadstoreCheckSa := 21

end Tcr

-- The low bits of the modes in the tag propagation register, and its enable bits.
namespace Tpr

def jump := 0
def branch := 2
def loadstore := 4
def integer := 6
def shift := 8
def logical := 10
def comparison := 12
def loadstoreEnSourceAddr := 14
def loadstoreEnSource := 15
def loadstoreEnDestAddr := 16

/-- The mode of a class. -/
def mode (tpr : BitVec 32) (low : ℕ) : TagMode := TagMode.ofBits (tpr.extractLsb' low 2)

end Tpr

/-! ## Fields of an instruction word -/

/-- `opcode_e` -/
inductive Opcode
  | load
  | miscMem
  | opImm
  | auipc
  | store
  | op
  | lui
  | branch
  | jalr
  | jal
  | system
  | other
  deriving DecidableEq

def Opcode.ofBits (b : BitVec 7) : Opcode :=
  if b = 0x03 then .load
  else if b = 0x0f then .miscMem
  else if b = 0x13 then .opImm
  else if b = 0x17 then .auipc
  else if b = 0x23 then .store
  else if b = 0x33 then .op
  else if b = 0x37 then .lui
  else if b = 0x63 then .branch
  else if b = 0x67 then .jalr
  else if b = 0x6f then .jal
  else if b = 0x73 then .system
  else .other

namespace Instr

def opcode (w : BitVec 32) : Opcode := Opcode.ofBits (w.extractLsb' 0 7)
def rd (w : BitVec 32) : BitVec 5 := w.extractLsb' 7 5
def funct3 (w : BitVec 32) : BitVec 3 := w.extractLsb' 12 3
def rs1 (w : BitVec 32) : BitVec 5 := w.extractLsb' 15 5
def rs2 (w : BitVec 32) : BitVec 5 := w.extractLsb' 20 5
def funct7 (w : BitVec 32) : BitVec 7 := w.extractLsb' 25 7

end Instr

/-! ## What an instruction word gets -/

/-- The check bits of an instruction. -/
structure Checks where
  s1 : Bool
  s2 : Bool
  d : Bool

def Checks.none : Checks := ⟨false, false, false⟩

def Checks.of (tcr : BitVec 32) (s1 s2 d : ℕ) : Checks :=
  ⟨tcr.getLsbD s1, tcr.getLsbD s2, tcr.getLsbD d⟩

namespace Checks

variable (tcr : BitVec 32)

def jump := of tcr Tcr.jumpCheckS1 Tcr.jumpCheckS2 Tcr.jumpCheckD
def branch : Checks := ⟨tcr.getLsbD Tcr.branchCheckS1, tcr.getLsbD Tcr.branchCheckS2, false⟩
def loadstore := of tcr Tcr.loadstoreCheckDa Tcr.loadstoreCheckS Tcr.loadstoreCheckD
def integer := of tcr Tcr.integerCheckS1 Tcr.integerCheckS2 Tcr.integerCheckD
def shift := of tcr Tcr.shiftCheckS1 Tcr.shiftCheckS2 Tcr.shiftCheckD
def logical := of tcr Tcr.logicalCheckS1 Tcr.logicalCheckS2 Tcr.logicalCheckD
def comparison := of tcr Tcr.comparisonCheckS1 Tcr.comparisonCheckS2 Tcr.comparisonCheckD

end Checks

open Instr in
/-- `ibex_dift_tmu`, without the bit that checks the PC. -/
def diftTmu (w tcr : BitVec 32) : Checks :=
  match opcode w with
  | .jal | .jalr => .jump tcr
  | .branch => .branch tcr
  | .store | .lui | .auipc => .loadstore tcr
  | .opImm =>
    if funct3 w = 0 then .integer tcr
    else if funct3 w = 1 then if funct7 w = 0 then .shift tcr else .none
    else if funct3 w = 2 ∨ funct3 w = 3 then .comparison tcr
    else if funct3 w = 4 ∨ funct3 w = 6 ∨ funct3 w = 7 then .logical tcr
    else if funct7 w = 0 ∨ funct7 w = 0x20 then .shift tcr
    else .none
  | .op =>
    if funct7 w = 1 then .integer tcr
    else if funct3 w = 0 then if funct7 w = 0 ∨ funct7 w = 0x20 then .integer tcr else .none
    else if funct3 w = 1 then if funct7 w = 0 then .shift tcr else .none
    else if funct3 w = 2 ∨ funct3 w = 3 then if funct7 w = 0 then .comparison tcr else .none
    else if funct3 w = 5 then if funct7 w = 0 ∨ funct7 w = 0x20 then .shift tcr else .none
    else if funct7 w = 0 then .logical tcr
    else .none
  | _ => .none

open Instr in
/-- `riscv_mode_tag` -/
def modeTag (w tpr : BitVec 32) : TagMode :=
  match opcode w with
  | .jal | .jalr => Tpr.mode tpr Tpr.jump
  | .branch => Tpr.mode tpr Tpr.branch
  | .store => if funct3 w = 7 then .old else Tpr.mode tpr Tpr.loadstore
  | .lui | .auipc => Tpr.mode tpr Tpr.loadstore
  | .opImm =>
    if funct3 w = 0 then Tpr.mode tpr Tpr.integer
    else if funct3 w = 1 then if funct7 w = 0 then Tpr.mode tpr Tpr.shift else .old
    else if funct3 w = 2 ∨ funct3 w = 3 then Tpr.mode tpr Tpr.comparison
    else if funct3 w = 4 ∨ funct3 w = 6 ∨ funct3 w = 7 then Tpr.mode tpr Tpr.logical
    else if funct7 w = 0 ∨ funct7 w = 0x20 then Tpr.mode tpr Tpr.shift
    else .old
  | .op =>
    if funct7 w = 0x5a then .old
    else if funct3 w = 0 then Tpr.mode tpr Tpr.integer
    else if funct3 w = 1 then
      if funct7 w = 0 then Tpr.mode tpr Tpr.shift
      else if funct7 w = 1 then Tpr.mode tpr Tpr.integer
      else .old
    else if funct3 w = 2 ∨ funct3 w = 3 then
      if funct7 w = 0 then Tpr.mode tpr Tpr.comparison else Tpr.mode tpr Tpr.integer
    else if funct3 w = 5 then
      if funct7 w = 1 then Tpr.mode tpr Tpr.integer else Tpr.mode tpr Tpr.shift
    else if funct7 w = 0 then Tpr.mode tpr Tpr.logical
    else Tpr.mode tpr Tpr.integer
  | .load | .miscMem | .system | .other => .old

/-! ## Operand tags -/

structure DiftOut where
  resultTag : Bool
  rfEnableTag : Bool
  pcEnableTag : Bool
  exception : Bool

/-- `ibex_dift_logic` -/
def diftLogic (m : TagMode) (a b : Bool) (c : Checks) (isLoad : Bool) : DiftOut where
  resultTag := m.result a b
  rfEnableTag := m != .old
  pcEnableTag := m != .old
  exception := !isLoad && (a && c.s1 || b && c.s2 || m.result a b && c.d)

/-- `riscv_load_check` -/
def loadCheck (data rs1 dest : Bool) (tcr : BitVec 32) (we : Bool) : Bool :=
  we && (data && tcr.getLsbD Tcr.loadstoreCheckS || rs1 && tcr.getLsbD Tcr.loadstoreCheckSa ||
    dest && tcr.getLsbD Tcr.loadstoreCheckD)

/-- The tag that the load/store policy makes of the tags of the address and of the data. -/
def loadTag (tpr : BitVec 32) (rs1 data : Bool) : Bool :=
  (Tpr.mode tpr Tpr.loadstore).result (rs1 && tpr.getLsbD Tpr.loadstoreEnSourceAddr)
    (data && tpr.getLsbD Tpr.loadstoreEnSource)

/-- `riscv_load_propagation`: the tag for the destination, and its write enable. -/
def loadPropagation (data rs1 we : Bool) (tpr : BitVec 32) : Bool × Bool :=
  (we && loadTag tpr rs1 data, we && Tpr.mode tpr Tpr.loadstore != .old)

/-! ## Clean operands -/

@[simp] theorem TagMode.result_false (m : TagMode) : m.result false false = false := by
  cases m <;> rfl

@[simp] theorem diftLogic_resultTag (m : TagMode) (a b : Bool) (c : Checks) (l : Bool) :
    (diftLogic m a b c l).resultTag = m.result a b := rfl

/-- No check fires on clean operands. -/
theorem diftLogic_clean (m : TagMode) (c : Checks) (l : Bool) :
    (diftLogic m false false c l).exception = false := by
  simp [diftLogic]

end SentinelSoc
