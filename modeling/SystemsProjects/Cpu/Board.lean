import SystemsProjects.Cpu.Circuit
import SystemsProjects.Cpu.Devices

/-!
# The circuit of the LC-4000a

`LC-4000a.sim`: the circuit of the LC-4000 with an interrupt and the instructions for it, and its
two devices. Its microcode is in other places of the ROM.
-/

namespace SystemsProjects.Cpu

/-- The registers of the circuit, its memory and its devices. -/
structure Board extends Visible where
  A : Word
  B : Word
  MAR : Word
  IR : Word
  DAR : Word
  CmpReg : BitVec 2
  IE : Bool
  State : BitVec 6
  devices : Devices

namespace Board

/-! ## The microcontroller -/

/-- The `MAIN` ROM, of which the other words are 0. -/
def mainROM : List (BitVec 31) :=
  [0x03006201, 0x00001082, 0x01600900, 0x00084044, 0x00108045, 0x00020100, 0x00084047, 0x00108048,
   0x00420100, 0x0008404a, 0x0000840b, 0x00020100, 0x0008404d, 0x0000840e, 0x0000210f, 0x00020080,
   0x00004411, 0x00088052, 0x00002113, 0x00040040, 0x000a0215, 0x00000840, 0x00000016, 0x00004058,
   0x00088059, 0x0021011a, 0x02000000, 0x0000421c, 0x0000841d, 0x00000900, 0x0000421f, 0x00008420,
   0x00020100, 0x00084062, 0x00108063, 0x00210124, 0x02000000, 0x00084067, 0x00104067, 0x00820100,
   0x141a0229, 0x2000202a, 0x00000880, 0x0c000000, 0x04000000, 0x0c180840, 0x4000042f, 0x20020030,
   0x40080040]

def seqROM : List (BitVec 6) :=
  [0x03, 0x06, 0x09, 0x0c, 0x10, 0x17, 0x14, 0x16, 0x17, 0x1e, 0x21, 0x2b, 0x2c, 0x2d, 0x2e, 0x00]

def ccROM : List (BitVec 6) := [0x00, 0x1b, 0x25, 0x26]

/-- The `INT` ROM: the state after a fetch has begun. -/
def intROM : List (BitVec 6) := [0x01, 0x28]

/-- The signals of a cycle, in the order of the bits of its word. -/
structure Controls extends Signals where
  LdEnInt : Bool := false
  EnInt : Bool := false
  IntAck : Bool := false
  DrData : Bool := false
  LdDAR : Bool := false
deriving DecidableEq

/-- The splitters behind the `MAIN` ROM. -/
def controls (word : BitVec 31) : Controls where
  toSignals := signals (word.setWidth 26)
  LdEnInt := word.getLsbD 26
  EnInt := word.getLsbD 27
  IntAck := word.getLsbD 28
  DrData := word.getLsbD 29
  LdDAR := word.getLsbD 30

/-- The multiplexer before the `State` register. -/
def nextState (c : Controls) (IR : Word) (CmpOut : BitVec 2) (OnInt : Bool) : BitVec 6 :=
  match c.ChkCmp, c.OPTest with
  | false, false => c.nextState
  | false, true => rom seqROM (opcode IR).toNat
  | true, false => rom ccROM CmpOut.toNat
  | true, true => rom intROM OnInt.toNat

/-! ## The datapath -/

/-- The comparison of the bus with 0. The multiplexer looks at two bits of the opcode, and its last
input is not connected. -/
def cmpLogic (Din : Word) (opcode : BitVec 4) (MINMAX : Bool) : Option (BitVec 2) :=
  let lt := Din.slt 0
  let gt := (0 : Word).slt Din
  match opcode.toNat % 4 with
  | 0 => some (if lt then 0b01#2 else 0b00#2)
  | 1 => some (if Din = 0 then 0b01#2 else 0b00#2)
  | 2 => some (if (if MINMAX then lt else gt) then 0b11#2 else 0b10#2)
  | _ => none

variable (b : Board)

/-- What the microcontroller puts out. -/
def control : Controls := controls (rom mainROM b.State.toNat)

/-- The multiplexer for the register number. -/
def regno (RegSel : BitVec 2) : BitVec 4 :=
  match RegSel.toNat with
  | 0 => rx b.IR
  | 1 => ry b.IR
  | 2 => rz b.IR
  | _ => 12

/-- The word of `PC` that can be on the bus is at least 8. -/
def pcInput : Word := if b.PC.slt 8 then 8 else b.PC

def address : BitVec 16 := b.MAR.setWidth 16

/-- An interrupt is asked for while interrupts are enabled. -/
def INT : Bool := b.IE && b.devices.INT

def busValue (c : Controls) : Option Word :=
  bus [(c.DrREG, some (b.registers (b.regno c.RegSel))),
    (c.DrMEM, if c.WrMEM then none else some (b.memory b.address)),
    (c.DrALU, alu c.func b.A b.B),
    (c.DrPC, some b.pcInput),
    (c.DrOff, some (offset b.IR)),
    (c.DrData, b.devices.DATA b.DAR)]

/-- A clock edge under these signals. It has no outcome if a wire is loaded that has no value. -/
def edge (c : Controls) : Option Board := do
  let bus := b.busValue c
  let PC ← load c.LdPC bus b.PC
  let A ← load c.LdA bus b.A
  let B ← load c.LdB bus b.B
  let MAR ← load c.LdMAR bus b.MAR
  let IR ← load c.LdIR bus b.IR
  let DAR ← load c.LdDAR bus b.DAR
  let CmpReg ← load c.LdCmp (bus.bind fun Din => cmpLogic Din (opcode b.IR) (mode b.IR)) b.CmpReg
  let IE ← load c.LdEnInt (some c.EnInt) b.IE
  let written ← load c.WrREG (bus.map (b.toVisible.write (b.regno c.RegSel))) b.toVisible
  let stored ← load c.WrMEM (bus.map (written.store b.address)) written
  some ⟨stored.jump PC, A, B, MAR, IR, DAR, CmpReg, IE, nextState c b.IR b.CmpReg b.INT,
    b.devices.tick c.IntAck⟩

def clock : Option Board := b.edge b.control

/-- So many cycles. -/
def clocks : Nat → Board → Option Board
  | 0, b => some b
  | n + 1, b => b.clock.bind (clocks n)

/-- The circuit is about to fetch an instruction, or it has stopped. -/
def Between : Prop := b.State = 0 ∨ b.State = 22

instance : Decidable b.Between := inferInstanceAs (Decidable (_ ∨ _))

/-- On to the next fetch, with so many cycles at most. -/
def onward : Nat → Board → Option Board
  | 0, _ => none
  | n + 1, b => b.clock.bind fun next => bif decide next.Between then some next else onward n next

/-- From one fetch to the next, or to where the circuit stops. -/
def turn : Option Board := b.onward 10

/-- So many of them. -/
def turns : Nat → Option Board
  | 0 => some b
  | n + 1 => (turns n).bind turn

/-! ## The microcode -/

/-- The rows of `microcode.xlsx`. -/
def microcode : List Controls :=
  [ -- ifetch
   { nextState := 1, DrPC := true, LdMAR := true, LdA := true, OPTest := true, ChkCmp := true },
   { nextState := 2, DrMEM := true, LdIR := true },
   { nextState := 0, DrALU := true, LdPC := true, func := 3, OPTest := true },
   -- add
   { nextState := 4, DrREG := true, LdA := true, RegSel := 1 },
   { nextState := 5, DrREG := true, LdB := true, RegSel := 2 },
   { nextState := 0, DrALU := true, WrREG := true },
   -- nand
   { nextState := 7, DrREG := true, LdA := true, RegSel := 1 },
   { nextState := 8, DrREG := true, LdB := true, RegSel := 2 },
   { nextState := 0, DrALU := true, WrREG := true, func := 2 },
   -- addi
   { nextState := 10, DrREG := true, LdA := true, RegSel := 1 },
   { nextState := 11, DrOff := true, LdB := true },
   { nextState := 0, DrALU := true, WrREG := true },
   -- lw
   { nextState := 13, DrREG := true, LdA := true, RegSel := 1 },
   { nextState := 14, DrOff := true, LdB := true },
   { nextState := 15, DrALU := true, LdMAR := true },
   { nextState := 0, DrMEM := true, WrREG := true },
   -- sw
   { nextState := 17, DrOff := true, LdA := true },
   { nextState := 18, DrREG := true, LdB := true, RegSel := 1 },
   { nextState := 19, DrALU := true, LdMAR := true },
   { nextState := 0, DrREG := true, WrMEM := true },
   -- jalr
   { nextState := 21, DrPC := true, WrREG := true, RegSel := 1 },
   { nextState := 0, DrREG := true, LdPC := true },
   -- halt
   { nextState := 22 },
   -- beq/lt
   { nextState := 24, DrREG := true, LdA := true },
   { nextState := 25, DrREG := true, LdB := true, RegSel := 1 },
   { nextState := 26, DrALU := true, LdCmp := true, func := 1 },
   { nextState := 0, ChkCmp := true },
   -- br
   { nextState := 28, DrPC := true, LdA := true },
   { nextState := 29, DrOff := true, LdB := true },
   { nextState := 0, DrALU := true, LdPC := true },
   -- lea
   { nextState := 31, DrPC := true, LdA := true },
   { nextState := 32, DrOff := true, LdB := true },
   { nextState := 0, DrALU := true, WrREG := true },
   -- min/max
   { nextState := 34, DrREG := true, LdA := true, RegSel := 1 },
   { nextState := 35, DrREG := true, LdB := true, RegSel := 2 },
   { nextState := 36, DrALU := true, LdCmp := true, func := 1 },
   { nextState := 0, ChkCmp := true },
   { nextState := 39, DrREG := true, LdA := true, RegSel := 1 },
   { nextState := 39, DrREG := true, LdA := true, RegSel := 2 },
   { nextState := 0, DrALU := true, WrREG := true, func := 4 },
   -- INT
   { nextState := 41, DrPC := true, WrREG := true, RegSel := 3, LdEnInt := true, IntAck := true },
   { nextState := 42, LdMAR := true, DrData := true },
   { nextState := 0, DrMEM := true, LdPC := true },
   -- EI
   { nextState := 0, LdEnInt := true, EnInt := true },
   -- DI
   { nextState := 0, LdEnInt := true },
   -- RETI
   { nextState := 0, DrREG := true, LdPC := true, RegSel := 3, LdEnInt := true, EnInt := true },
   -- IN
   { nextState := 47, DrOff := true, LdDAR := true },
   { nextState := 48, WrREG := true, DrData := true },
   { nextState := 0, DrREG := true, RegSel := 1, LdDAR := true }]

/-- The table is what is in the ROM. -/
theorem microcode_mainROM : mainROM.map controls = microcode := by decide

variable {b}

theorem control_eq {k : Nat} {c : Controls} (here : b.State.toNat = k)
    (row : microcode[k]? = some c) : b.control = c := by
  rw [← microcode_mainROM, List.getElem?_map] at row
  obtain ⟨word, found, rfl⟩ := Option.map_eq_some_iff.mp row
  rw [control, rom, List.getD_eq_getElem?_getD, here, found]
  rfl

theorem onward_row {k n : Nat} {c : Controls} {next : Board} (here : b.State.toNat = k)
    (row : microcode[k]? = some c) (edge : b.edge c = some next) :
    b.onward (n + 1) = bif decide next.Between then some next else next.onward n := by
  rw [onward, clock, control_eq here row, edge, Option.bind_some]

/-- A cycle of a chain that goes on. -/
theorem onward_next {k n : Nat} {c : Controls} {next : Board} (here : b.State.toNat = k)
    (row : microcode[k]? = some c) (edge : b.edge c = some next)
    (more : decide next.Between = false) : b.onward (n + 1) = next.onward n := by
  rw [onward_row here row edge, more, cond_false]

/-- The last cycle of a chain. -/
theorem onward_last {k n : Nat} {c : Controls} {next : Board} (here : b.State.toNat = k)
    (row : microcode[k]? = some c) (edge : b.edge c = some next)
    (last : decide next.Between = true) : b.onward (n + 1) = some next := by
  rw [onward_row here row edge, last, cond_true]

/-- The next fetch is so many cycles away. -/
theorem onward_clocks {n : Nat} {next : Board} (onward : b.onward n = some next) :
    ∃ m ≤ n, b.clocks m = some next ∧ next.Between := by
  induction n generalizing b with
  | zero => cases onward
  | succ n ih =>
    rw [Board.onward, Option.bind_eq_some_iff] at onward
    obtain ⟨middle, clock, onward⟩ := onward
    cases last : decide middle.Between with
    | true =>
      rw [last, cond_true, Option.some.injEq] at onward
      subst onward
      exact ⟨1, Nat.succ_pos n, by rw [clocks, clock]; rfl, of_decide_eq_true last⟩
    | false =>
      rw [last, cond_false] at onward
      obtain ⟨m, le, rest, between⟩ := ih onward
      exact ⟨m + 1, Nat.succ_le_succ le, by rw [clocks, clock]; exact rest, between⟩

theorem clocks_add {middle : Board} {m : Nat} (first : b.clocks m = some middle) (n : Nat) :
    b.clocks (m + n) = middle.clocks n := by
  induction m generalizing b with
  | zero =>
    obtain rfl : b = middle := Option.some.inj first
    rw [Nat.zero_add]
  | succ m ih =>
    rw [clocks, Option.bind_eq_some_iff] at first
    obtain ⟨next, clock, first⟩ := first
    rw [Nat.add_right_comm, clocks, clock, Option.bind_some, ih first]

theorem clocks_row {k n : Nat} {c : Controls} {next : Board} (here : b.State.toNat = k)
    (row : microcode[k]? = some c) (edge : b.edge c = some next) :
    b.clocks (n + 1) = next.clocks n := by
  rw [clocks, clock, control_eq here row, edge, Option.bind_some]

/-- Each turn takes ten cycles at most. -/
theorem turns_clocks {n : Nat} {last : Board} (turns : b.turns n = some last) :
    ∃ m ≤ 10 * n, b.clocks m = some last := by
  induction n generalizing last with
  | zero => exact ⟨0, Nat.le_refl _, turns⟩
  | succ n ih =>
    rw [Board.turns, Option.bind_eq_some_iff] at turns
    obtain ⟨middle, turns, turn⟩ := turns
    obtain ⟨m, le, clocks⟩ := ih turns
    obtain ⟨k, le', rest, _⟩ := onward_clocks turn
    exact ⟨m + k, by omega, by rw [clocks_add clocks, rest]⟩

end Board

end SystemsProjects.Cpu
