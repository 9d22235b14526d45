import SystemsProjects.Cpu.Components

/-!
# The circuit of the LC-4000

`LC-4000.sim`: the datapath around one bus, and the microcontroller, which looks up in its `MAIN`
ROM what each clock cycle does.
-/

namespace SystemsProjects.Cpu

/-! ## The microcontroller -/

/-- The `MAIN` ROM, of which the other words are 0. -/
def mainROM : List (BitVec 26) :=
  [0x0006201, 0x0001082, 0x1600900, 0x0084044, 0x0108045, 0x0020100, 0x0084047, 0x0108048,
   0x0420100, 0x008404a, 0x000840b, 0x0020100, 0x008404d, 0x000840e, 0x000210f, 0x0020080,
   0x0084051, 0x0008412, 0x0002113, 0x0040040, 0x0004055, 0x0088056, 0x0210117, 0x2000000,
   0x0004219, 0x000841a, 0x0000900, 0x00a021c, 0x0000840, 0x000001d, 0x000405f, 0x0088060,
   0x0210121, 0x2000000, 0x0004223, 0x0008424, 0x0000900, 0x0004226, 0x0008427, 0x0020100,
   0x0084069, 0x010806a, 0x021012b, 0x2000000, 0x008406e, 0x010406e, 0x0820100]

/-- The `SEQ` ROM: the first state of each instruction. -/
def seqROM : List (BitVec 6) :=
  [0x03, 0x06, 0x09, 0x0c, 0x10, 0x14, 0x1b, 0x1d, 0x1e, 0x25, 0x28, 0x28, 0, 0, 0, 0]

/-- The `CC` ROM: the state after a comparison. -/
def ccROM : List (BitVec 6) := [0x00, 0x18, 0x2c, 0x2d]

def rom {w : Nat} (contents : List (BitVec w)) (address : Nat) : BitVec w := contents.getD address 0

/-- The signals of a cycle, in the order of the bits of its word. -/
structure Signals where
  nextState : BitVec 6
  DrREG : Bool := false
  DrMEM : Bool := false
  DrALU : Bool := false
  DrPC : Bool := false
  DrOff : Bool := false
  LdPC : Bool := false
  LdIR : Bool := false
  LdMAR : Bool := false
  LdA : Bool := false
  LdB : Bool := false
  LdCmp : Bool := false
  WrREG : Bool := false
  WrMEM : Bool := false
  RegSel : BitVec 2 := 0
  func : BitVec 3 := 0
  OPTest : Bool := false
  ChkCmp : Bool := false
deriving DecidableEq

/-- The splitters behind the `MAIN` ROM. -/
def signals (word : BitVec 26) : Signals where
  nextState := word.extractLsb' 0 6
  DrREG := word.getLsbD 6
  DrMEM := word.getLsbD 7
  DrALU := word.getLsbD 8
  DrPC := word.getLsbD 9
  DrOff := word.getLsbD 10
  LdPC := word.getLsbD 11
  LdIR := word.getLsbD 12
  LdMAR := word.getLsbD 13
  LdA := word.getLsbD 14
  LdB := word.getLsbD 15
  LdCmp := word.getLsbD 16
  WrREG := word.getLsbD 17
  WrMEM := word.getLsbD 18
  RegSel := word.extractLsb' 19 2
  func := word.extractLsb' 21 3
  OPTest := word.getLsbD 24
  ChkCmp := word.getLsbD 25

/-- The multiplexer before the `State` register, of which the last input is not connected. -/
def nextState (c : Signals) (IR : Word) (CmpOut : BitVec 2) : Option (BitVec 6) :=
  match c.ChkCmp, c.OPTest with
  | false, false => some c.nextState
  | false, true => some (rom seqROM (opcode IR).toNat)
  | true, false => some (rom ccROM CmpOut.toNat)
  | true, true => none

/-! ## The datapath -/

/-- The circuit `Cmp Logic`, which compares the bus with 0. -/
def cmpLogic (Din : Word) (opcode : BitVec 4) (mode : Bool) : BitVec 2 :=
  let lt := Din.slt 0
  let gt := (0 : Word).slt Din
  let BEQ := if Din = 0 then 0b01#2 else 0b00#2
  let BLT := if lt then 0b01#2 else 0b00#2
  let MIN := if lt then 0b10#2 else 0b11#2
  let MAX := if gt then 0b10#2 else 0b11#2
  match opcode.toNat with
  | 5 => BEQ
  | 8 => BLT
  | 10 => if mode then MAX else MIN
  | _ => 0b00#2

/-- The registers of the circuit and its memory. -/
structure Datapath extends Visible where
  A : Word
  B : Word
  MAR : Word
  IR : Word
  CmpReg : BitVec 2
  State : BitVec 6

namespace Datapath

variable (d : Datapath)

/-- What the microcontroller puts out. -/
def control : Signals := signals (rom mainROM d.State.toNat)

/-- The multiplexer for the register number, of which the last input is not connected. -/
def regno (RegSel : BitVec 2) : Option (BitVec 4) :=
  match RegSel.toNat with
  | 0 => some (rx d.IR)
  | 1 => some (ry d.IR)
  | 2 => some (rz d.IR)
  | _ => none

/-- The address of the RAM. -/
def address : BitVec 16 := d.MAR.setWidth 16

/-- The bus. The RAM does not read while it is written. -/
def busValue (c : Signals) : Option Word :=
  bus [(c.DrREG, (d.regno c.RegSel).map d.registers),
    (c.DrMEM, if c.WrMEM then none else some (d.memory d.address)),
    (c.DrALU, alu c.func d.A d.B),
    (c.DrPC, some d.PC),
    (c.DrOff, some (offset d.IR))]

/-- A clock edge under these signals. It has no outcome if a wire is loaded that has no value. -/
def edge (c : Signals) : Option Datapath := do
  let bus := d.busValue c
  let PC ← load c.LdPC bus d.PC
  let A ← load c.LdA bus d.A
  let B ← load c.LdB bus d.B
  let MAR ← load c.LdMAR bus d.MAR
  let IR ← load c.LdIR bus d.IR
  let CmpReg ← load c.LdCmp (bus.map fun Din => cmpLogic Din (opcode d.IR) (mode d.IR)) d.CmpReg
  let State ← nextState c d.IR d.CmpReg
  let written ← load c.WrREG
    ((d.regno c.RegSel).bind fun regno => bus.map (d.toVisible.write regno)) d.toVisible
  let stored ← load c.WrMEM (bus.map (written.store d.address)) written
  some ⟨stored.jump PC, A, B, MAR, IR, CmpReg, State⟩

def clock : Option Datapath := d.edge d.control

/-- So many cycles. -/
def clocks : Nat → Datapath → Option Datapath
  | 0, d => some d
  | n + 1, d => d.clock.bind (clocks n)

end Datapath

end SystemsProjects.Cpu
