import Mathlib.Logic.Function.Basic

/-!
# The parts of the circuits

What the circuits of the LC-4000 and of the LC-4000a have in common: the bus, the registers that
load from it, the ALU, the register file and the fields of an instruction. A wire without a
driver, or with two, has no value.
-/

namespace SystemsProjects.Cpu

abbrev Word := BitVec 32

/-- The bus, with what each of its buffers would drive and whether it does. -/
def bus (buffers : List (Bool × Option Word)) : Option Word :=
  match buffers.filter Prod.fst with
  | [(_, value)] => value
  | _ => none

/-- A register at a clock edge, which loads its input if it is enabled. -/
def load {α : Type} (enable : Bool) (input : Option α) (old : α) : Option α :=
  if enable then input else some old

/-- The multiplexer of the ALU, of which three inputs are not connected. -/
def alu (func : BitVec 3) (A B : Word) : Option Word :=
  match func.toNat with
  | 0 => some (A + B)
  | 1 => some (A - B)
  | 2 => some (~~~(A &&& B))
  | 3 => some (A + 1)
  | 4 => some A
  | _ => none

/-! ## The fields of `IR` -/

def opcode (IR : Word) : BitVec 4 := IR.extractLsb' 28 4

def rx (IR : Word) : BitVec 4 := IR.extractLsb' 24 4

def ry (IR : Word) : BitVec 4 := IR.extractLsb' 20 4

def rz (IR : Word) : BitVec 4 := IR.extractLsb' 0 4

/-- `IR[4]`, which chooses between a minimum and a maximum. -/
def mode (IR : Word) : Bool := IR.getLsbD 4

/-- `IR[19:0]` with its sign extended. -/
def offset (IR : Word) : Word := (IR.setWidth 20).signExtend 32

/-! ## What an instruction can see -/

/-- The program counter, the register file and the memory, which has 16 address bits. -/
structure Visible where
  PC : Word
  registers : BitVec 4 → Word
  memory : BitVec 16 → Word

namespace Visible

/-- `$zero` has a constant for its input. -/
def write (s : Visible) (regno : BitVec 4) (value : Word) : Visible :=
  { s with registers := Function.update s.registers regno (if regno = 0 then 0 else value) }

def store (s : Visible) (address : BitVec 16) (value : Word) : Visible :=
  { s with memory := Function.update s.memory address value }

def jump (s : Visible) (target : Word) : Visible := { s with PC := target }

section

variable (s : Visible) (regno : BitVec 4) (address : BitVec 16) (value : Word)

@[simp] theorem write_PC : (s.write regno value).PC = s.PC := rfl
@[simp] theorem write_memory : (s.write regno value).memory = s.memory := rfl
@[simp] theorem store_PC : (s.store address value).PC = s.PC := rfl
@[simp] theorem store_registers : (s.store address value).registers = s.registers := rfl
@[simp] theorem jump_PC : (s.jump value).PC = value := rfl
@[simp] theorem jump_registers : (s.jump value).registers = s.registers := rfl
@[simp] theorem jump_memory : (s.jump value).memory = s.memory := rfl

end

end Visible

end SystemsProjects.Cpu
