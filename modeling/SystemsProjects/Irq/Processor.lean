import SystemsProjects.Lc.Isa

/-!
# A processor with interrupts

The four commands that the LC-4000a adds change whether interrupts are enabled, return from a
handler and read from a device. An interrupt is taken between two instructions.
-/

namespace SystemsProjects.Irq

open Lc Digits Register

/-- The commands of the LC-4000a. -/
inductive Command
  | ordinary (i : Instr)
  | ei
  | di
  | reti
  | input (dr : Fin 16) (addr : Int)
deriving DecidableEq, Repr

namespace Command

/-- The opcode of `ei`, `di` or `reti` with zeros behind it. -/
def padded (opcode : Nat) : List Bool := digits 4 opcode ++ List.replicate 28 false

/-- The word of a command. -/
def encode : Command → List Bool
  | ordinary i => i.encode
  | ei => padded 11
  | di => padded 12
  | reti => padded 13
  | input dr addr => Instr.layout 14 dr 0 (Instr.immediate addr)

end Command

/-- The simulator's machine with a flag that enables interrupts. -/
structure Processor extends Machine where
  IE : Bool

namespace Processor

/-- The opcode of the word at `PC`. -/
def opcode (p : Processor) : Nat := uint (bitRange (format32 (p.accessMem p.PC)) 31 28)

/-- One instruction, with the value that a device would deliver. An opcode of the simulator does
what the simulator does. -/
def cycle (p : Processor) (value : Nat) : Option Processor :=
  let ireg := format32 (p.accessMem p.PC)
  let next := p.setPC (p.PC + 1)
  match p.opcode with
  | 11 => some { next with IE := true }
  | 12 => some { next with IE := false }
  | 13 => some { p.setPC (p.REGS k0) with IE := true }
  | 14 => some { (next.setReg (regno (bitRange ireg 27 24)) value).setReg 0 0 with IE := p.IE }
  | _ => p.stepInstruction.toOption.map fun s : Machine => { s with IE := p.IE }

/-- The processor keeps `PC`, disables interrupts and jumps through the vector of the device. -/
def interrupt (p : Processor) (device : Fin 2) : Processor :=
  { (p.setReg k0 p.PC).setPC (p.accessMem device) with IE := false }

/-- A request waits for nothing: it is taken now or not at all. -/
def taken (p : Processor) (request : Option (Fin 2)) : Option (Fin 2) :=
  if p.HALTED = false ∧ p.IE = true then request else none

/-- One step. A processor that cannot decode its word stays where it is. -/
def next (p : Processor) (request : Option (Fin 2)) (value : Nat) : Processor :=
  if p.HALTED then p
  else match p.taken request with
    | some device => p.interrupt device
    | none => (p.cycle value).getD p

/-- The processor is about to return from a handler. -/
def Returning (p : Processor) : Prop := p.HALTED = false ∧ p.opcode = 13

instance (p : Processor) : Decidable p.Returning := inferInstanceAs (Decidable (_ ∧ _))

end Processor

/-- Of the states that wait to be returned to, the last one first, those that wait after a step. -/
def Processor.waiting (p : Processor) (request : Option (Fin 2)) (before : List Processor) :
    List Processor :=
  if (p.taken request).isSome then p :: before
  else if p.Returning then before.tail
  else before

/-- At each step a device may ask for an interrupt, and a word waits on the data line. -/
structure Schedule where
  request : Nat → Option (Fin 2)
  value : Nat → Nat
  value_lt : ∀ n, value n < 2 ^ 32

/-- No device ever asks for anything. -/
def Schedule.quiet (σ : Schedule) : Schedule := { σ with request := fun _ => none }

/-- The devices stop asking at some time. -/
def Schedule.Finite (σ : Schedule) : Prop := ∃ last, ∀ n, last ≤ n → σ.request n = none

section

variable (σ : Schedule) (p : Processor)

def run : Nat → Processor
  | 0 => p
  | n + 1 => (run n).next (σ.request n) (σ.value n)

/-- The device whose interrupt is taken at a step. -/
def taken (n : Nat) : Option (Fin 2) := (run σ p n).taken (σ.request n)

/-- The states that were interrupted and have not been returned to, the last one first. -/
def suspended : Nat → List Processor
  | 0 => []
  | n + 1 => (run σ p n).waiting (σ.request n) (suspended n)

end

/-! ## Commands and their words -/

namespace Command

/-- What a command does, with the value that a device would deliver. -/
def effect (value : Nat) (p : Processor) : Command → Processor
  | ordinary i => { i.effect p.toMachine with IE := p.IE }
  | ei => { p.setPC (p.PC + 1) with IE := true }
  | di => { p.setPC (p.PC + 1) with IE := false }
  | reti => { p.setPC (p.REGS k0) with IE := true }
  | input dr _ => { ((p.setPC (p.PC + 1)).setReg dr value).setReg 0 0 with IE := p.IE }

/-- The immediate of the command fits its field. -/
def InRange : Command → Prop
  | ordinary i => i.InRange
  | _ => True

def Supported (p : Processor) : Command → Prop
  | ordinary i => i.Supported p.toMachine
  | _ => True

/-- The opcode that the command is assembled to. -/
def number : Command → Nat
  | ordinary i => uint (i.encode.take 4)
  | ei => 11
  | di => 12
  | reti => 13
  | input .. => 14

theorem format32_encode (c : Command) : format32 (uint c.encode) = c.encode := by
  have whole : ∀ word : List Bool, word.length = 32 → format32 (uint word) = word := by
    intro word length
    have lt := value_lt word
    have same := digits_value word
    rw [length] at lt same
    rw [uint, format32_of_lt lt, same]
  apply whole
  cases c with
  | ordinary i => cases i <;> rfl
  | _ => rfl

theorem opcode_encode (c : Command) : uint (bitRange c.encode 31 28) = c.number := by
  cases c with
  | ordinary i => rfl
  | _ => rfl

theorem number_ordinary {i : Instr} {op : Op} (named : i.op = some op) :
    (ordinary i).number < 11 := by
  cases i <;> cases named <;> exact Nat.le_of_ble_eq_true rfl

/-- Only `reti` has the opcode of `reti`. -/
theorem number_eq {c : Command} {p : Processor} (supported : c.Supported p) :
    c.number = 13 ↔ c = reti := by
  cases c with
  | ordinary i =>
    cases named : i.op with
    | none =>
      cases i <;> cases named
      exact supported.elim
    | some op =>
      have low := number_ordinary named
      constructor
      · intro same
        omega
      · nofun
  | reti => exact ⟨fun _ => rfl, fun _ => rfl⟩
  | ei | di | input => exact ⟨nofun, nofun⟩

theorem opcode_fetch {c : Command} {p : Processor} (fetch : p.accessMem p.PC = uint c.encode) :
    p.opcode = c.number := by
  unfold Processor.opcode
  rw [fetch, format32_encode, opcode_encode]

/-- The processor gives the word of a command the effect of the command. -/
theorem cycle_encode {c : Command} {p : Processor} (PC : p.PC < 2 ^ 32 - 1) (range : c.InRange)
    (supported : c.Supported p) (fetch : p.accessMem p.PC = uint c.encode) (value : Nat) :
    p.cycle value = some (c.effect value p) := by
  unfold Processor.cycle
  rw [opcode_fetch fetch, fetch, format32_encode]
  cases c with
  | ei => rfl
  | di => rfl
  | reti => rfl
  | input dr addr =>
    have same : regno (bitRange (input dr addr).encode 27 24) = dr := by
      rw [encode, Instr.layout_rx, Instr.regno_digits]
    simp only [Command.number, same, effect]
  | ordinary i =>
    cases named : i.op with
    | none =>
      cases i <;> cases named
      exact supported.elim
    | some op =>
      have low := number_ordinary named
      have step := (Instr.step_encode PC range fetch).mpr supported
      split
      · omega
      · omega
      · omega
      · omega
      · rw [step]
        rfl

end Command

end SystemsProjects.Irq
