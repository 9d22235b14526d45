import SystemsProjects.Lib.Digits
import Mathlib.Algebra.GroupWithZero.Nat
import Mathlib.Logic.Function.Basic

/-!
# The LC-4000 simulator

The simulator fetches a number, writes it with at least 32 binary digits and takes the
fields of the instruction from that string. Its integers have no width, so each
instruction reduces what it stores itself.
-/

namespace SystemsProjects.Lc

open Digits

/-- The numbers of the registers wrap at sixteen. -/
instance sixteen : NeZero 16 := ⟨by decide⟩

namespace Register

abbrev zero : Fin 16 := 0
abbrev at' : Fin 16 := 1
abbrev v0 : Fin 16 := 2
abbrev a0 : Fin 16 := 3
abbrev a1 : Fin 16 := 4
abbrev a2 : Fin 16 := 5
abbrev t0 : Fin 16 := 6
abbrev t1 : Fin 16 := 7
abbrev t2 : Fin 16 := 8
abbrev s0 : Fin 16 := 9
abbrev s1 : Fin 16 := 10
abbrev s2 : Fin 16 := 11
abbrev k0 : Fin 16 := 12
abbrev sp : Fin 16 := 13
abbrev fp : Fin 16 := 14
abbrev ra : Fin 16 := 15

end Register

/-- The globals of the simulator. An address that is not a key of `MEM` reads as 0. -/
structure Machine where
  PC : Nat
  MEM : Nat → Nat
  REGS : Fin 16 → Nat
  HALTED : Bool

/-- The names in `OP_NAME`. -/
inductive Op
  | ADD | NAND | ADDI | LW | SW | BEQ | JALR | HALT | BLT | LEA | MINMAX
deriving DecidableEq, Repr

/-- The table `OP_NAME`, from the four digits of the opcode. -/
def opName : List Bool → Option Op
  | [false, false, false, false] => some .ADD
  | [false, false, false, true] => some .NAND
  | [false, false, true, false] => some .ADDI
  | [false, false, true, true] => some .LW
  | [false, true, false, false] => some .SW
  | [false, true, false, true] => some .BEQ
  | [false, true, true, false] => some .JALR
  | [false, true, true, true] => some .HALT
  | [true, false, false, false] => some .BLT
  | [true, false, false, true] => some .LEA
  | [true, false, true, false] => some .MINMAX
  | _ => none

def uint (binary : List Bool) : Nat := value binary

def forceSigned (num : Int) (bits : Nat) : Int :=
  let num := num % 2 ^ bits
  if num.toNat.testBit (bits - 1) then num - 2 ^ bits else num

/-- The mask `(1 << bits) - 1` leaves the residue, also of a negative number. -/
def forceUnsigned (num : Int) (bits : Nat) : Nat := (num % 2 ^ bits).toNat

def int2c (binary : List Bool) : Int := forceSigned (uint binary) binary.length

/-- `format(num, "032b")` -/
def format32 (num : Nat) : List Bool := format 32 num

def bit (instr : List Bool) (bit : Nat) : Bool := instr.getD (31 - bit) false

def bitRange (instr : List Bool) (high low : Nat) : List Bool :=
  (instr.drop (31 - high)).take (high - low + 1)

/-- Four digits name a register. -/
def regno (binary : List Bool) : Fin 16 := Fin.ofNat 16 (uint binary)

/-- Each line of the file is a word, the first for address 0. -/
def loadProgram (runfile : List (List Bool)) : Machine where
  PC := 0
  MEM addr := (runfile[addr]?.map uint).getD 0
  REGS _ := 0
  HALTED := false

namespace Machine

def setReg (s : Machine) (r : Fin 16) (v : Nat) : Machine :=
  { s with REGS := Function.update s.REGS r v }

def setPC (s : Machine) (v : Nat) : Machine := { s with PC := v }

def store (s : Machine) (addr v : Nat) : Machine :=
  { s with MEM := Function.update s.MEM addr v }

section

variable (s : Machine) (r : Fin 16) (addr v : Nat)

@[simp] theorem setReg_PC : (s.setReg r v).PC = s.PC := rfl
@[simp] theorem setReg_MEM : (s.setReg r v).MEM = s.MEM := rfl
@[simp] theorem setReg_HALTED : (s.setReg r v).HALTED = s.HALTED := rfl
@[simp] theorem setPC_PC : (s.setPC v).PC = v := rfl
@[simp] theorem setPC_REGS : (s.setPC v).REGS = s.REGS := rfl
@[simp] theorem setPC_MEM : (s.setPC v).MEM = s.MEM := rfl
@[simp] theorem setPC_HALTED : (s.setPC v).HALTED = s.HALTED := rfl
@[simp] theorem store_PC : (s.store addr v).PC = s.PC := rfl
@[simp] theorem store_REGS : (s.store addr v).REGS = s.REGS := rfl
@[simp] theorem store_HALTED : (s.store addr v).HALTED = s.HALTED := rfl

@[simp] theorem setPC_setPC (w : Nat) : (s.setPC v).setPC w = s.setPC w := rfl

@[simp] theorem setPC_setReg (w : Nat) : (s.setPC v).setReg r w = (s.setReg r w).setPC v := rfl

@[simp] theorem setReg_setReg (w : Nat) : (s.setReg r v).setReg r w = s.setReg r w := by
  unfold setReg
  rw [Function.update_idem]

theorem setReg_REGS (q : Fin 16) : (s.setReg r v).REGS q = if q = r then v else s.REGS q :=
  Function.update_apply ..

theorem store_MEM (at' : Nat) : (s.store addr v).MEM at' = if at' = addr then v else s.MEM at' :=
  Function.update_apply ..

end

def accessMem (s : Machine) (addr : Nat) : Nat :=
  s.MEM (if addr > 2 ^ 24 - 1 then addr % 2 ^ 24 else addr)

@[simp] theorem setPC_accessMem (s : Machine) (v addr : Nat) :
    (s.setPC v).accessMem addr = s.accessMem addr := rfl

/-- The branches of `step_instruction`, with `PC` already past the instruction. -/
def execute (s : Machine) (ireg : List Bool) : Op → Machine
  | .ADD =>
    let drRegno := regno (bitRange ireg 27 24)
    let sr1Regno := regno (bitRange ireg 23 20)
    let sr2Regno := regno (bitRange ireg 3 0)
    let num := forceSigned (s.REGS sr1Regno) 32 + forceSigned (s.REGS sr2Regno) 32
    s.setReg drRegno (forceUnsigned num 32)
  | .NAND =>
    let drRegno := regno (bitRange ireg 27 24)
    let sr1Regno := regno (bitRange ireg 23 20)
    let sr2Regno := regno (bitRange ireg 3 0)
    let num := ~~~((s.REGS sr1Regno &&& s.REGS sr2Regno : Nat) : Int)
    s.setReg drRegno (forceUnsigned num 32)
  | .ADDI =>
    let drRegno := regno (bitRange ireg 27 24)
    let sr1Regno := regno (bitRange ireg 23 20)
    let immvalInt := int2c (bitRange ireg 19 0)
    let num := forceSigned (s.REGS sr1Regno) 32 + immvalInt
    s.setReg drRegno (forceUnsigned num 32)
  | .LW =>
    let drRegno := regno (bitRange ireg 27 24)
    let baseRegno := regno (bitRange ireg 23 20)
    let offsetInt := int2c (bitRange ireg 19 0)
    s.setReg drRegno (s.accessMem (forceUnsigned (s.REGS baseRegno + offsetInt) 32))
  | .SW =>
    let srRegno := regno (bitRange ireg 27 24)
    let baseRegno := regno (bitRange ireg 23 20)
    let offsetInt := int2c (bitRange ireg 19 0)
    s.store (forceUnsigned (s.REGS baseRegno + offsetInt) 32) (s.REGS srRegno)
  | .LEA =>
    let drRegno := regno (bitRange ireg 27 24)
    let offsetInt := int2c (bitRange ireg 19 0)
    s.setReg drRegno (forceUnsigned (s.PC + offsetInt) 32)
  | .JALR =>
    let atRegno := regno (bitRange ireg 27 24)
    let raRegno := regno (bitRange ireg 23 20)
    -- the return address is stored first, also when both are one register
    let s := s.setReg raRegno s.PC
    s.setPC (s.REGS atRegno)
  | .HALT => { s with PC := s.PC - 1, HALTED := true }
  | .BLT =>
    let sr1Regno := regno (bitRange ireg 27 24)
    let sr2Regno := regno (bitRange ireg 23 20)
    let offsetInt := int2c (bitRange ireg 19 0)
    if forceSigned (s.REGS sr1Regno) 32 < forceSigned (s.REGS sr2Regno) 32 then
      s.setPC (forceUnsigned (s.PC + offsetInt) 32)
    else s
  | .BEQ =>
    let sr1Regno := regno (bitRange ireg 27 24)
    let sr2Regno := regno (bitRange ireg 23 20)
    let offsetInt := int2c (bitRange ireg 19 0)
    if s.REGS sr1Regno = s.REGS sr2Regno then s.setPC (forceUnsigned (s.PC + offsetInt) 32) else s
  | .MINMAX =>
    let drRegno := regno (bitRange ireg 27 24)
    let sr1Regno := regno (bitRange ireg 23 20)
    let sr2Regno := regno (bitRange ireg 3 0)
    let res :=
      if bit ireg 4 then max (forceSigned (s.REGS sr1Regno) 32) (forceSigned (s.REGS sr2Regno) 32)
      else min (forceSigned (s.REGS sr1Regno) 32) (forceSigned (s.REGS sr2Regno) 32)
    s.setReg drRegno (forceUnsigned res 32)

/-- An opcode that is not in the table raises `KeyError`. -/
def stepInstruction (s : Machine) : Except (List Bool) Machine :=
  let instruction := s.accessMem s.PC
  let s := s.setPC (s.PC + 1)
  let ireg := format32 instruction
  let op := bitRange ireg 31 28
  match opName op with
  | none => .error op
  | some op => .ok ((s.execute ireg op).setReg 0 0)

/-- Some number of calls of `step_instruction`. -/
def steps (s : Machine) : Nat → Except (List Bool) Machine
  | 0 => .ok s
  | k + 1 => (steps s k).bind stepInstruction

/-- The loop of `run` without breakpoints, for at most so many rounds. -/
def run (s : Machine) : Nat → Except (List Bool) Machine
  | 0 => .ok s
  | k + 1 => if s.HALTED then .ok s else s.stepInstruction.bind fun t => t.run k

end Machine

theorem accessMem_eq (m : Machine) (a : Nat) : m.accessMem a = m.MEM (a % 2 ^ 24) := by
  unfold Machine.accessMem
  split
  · rfl
  · rw [Nat.mod_eq_of_lt (by omega)]

end SystemsProjects.Lc
