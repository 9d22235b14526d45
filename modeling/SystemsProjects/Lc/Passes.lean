import SystemsProjects.Lc.Assembly

/-!
# The two passes of the assembler

The first pass assigns addresses to labels, the second assembles the instructions. Both
count the addresses themselves. A file is the list of its lines, without the line breaks.
-/

namespace SystemsProjects.Lc

/-- The class for an opcode. As `or` cannot name a class it is looked up as `xor`. -/
def lookupClass (op : Text) : Option InstrClass :=
  getattr (instructionClass (if op = "or".toList then "xor".toList else op))

/-- Label, opcode and operands of a line that is not blank. -/
def lineParts (u : Unicode) (line : Text) : Option Text × Option (Text × Text) :=
  getParts u (u.lower (u.strip line))

/-! ## `pass1` -/

structure Pass1 where
  pc : Nat
  lineCount : Nat
  noErrors : Bool
  symbolTable : SymbolTable
  errors : List (Nat × Error)

namespace Pass1

def start : Pass1 := ⟨0, 1, true, [], []⟩

def error (p : Pass1) (e : Error) : Pass1 := { p with errors := p.errors ++ [(p.lineCount, e)] }

def fail (p : Pass1) (e : Error) : Pass1 := { p.error e with noErrors := false }

def define (p : Pass1) : Option Text → Pass1
  | none => p
  | some label =>
    if (p.symbolTable.lookup label).isSome then p.fail (.duplicateLabel label)
    else { p with symbolTable := p.symbolTable ++ [(label, p.pc)] }

def count (p : Pass1) : Option (Text × Text) → Pass1
  | none => p
  | some (op, _) =>
    match lookupClass op with
    | none => (p.fail (.undefinedOp (if op = "or".toList then "xor".toList else op))).fail .noClass
    | some instr => { p with pc := instr.pc p.pc }

def line (u : Unicode) (p : Pass1) (line : Text) : Pass1 :=
  let parts := lineParts u line
  let p := (p.define parts.1).count parts.2
  { p with lineCount := p.lineCount + 1 }

end Pass1

/-- `validate_pc` raises an exception for an address with more than 32 bits, and the pass ends
there without counting it as an error. -/
def pass1 (u : Unicode) : List Text → Pass1 → Pass1
  | [], p => p
  | line :: file, p =>
    if isBlank u line then pass1 u file p
    else if p.pc ≥ 2 ^ 32 then p.error (.largePc p.pc)
    else pass1 u file (p.line u line)

/-! ## `pass2` -/

structure Pass2 where
  pc : Nat
  lineCount : Nat
  success : Bool
  results : List (Nat × Instruction)
  errors : List (Nat × Error)

namespace Pass2

def start : Pass2 := ⟨0, 1, true, [], []⟩

def fail (p : Pass2) (e : Error) : Pass2 :=
  { p with success := false, errors := p.errors ++ [(p.lineCount, e)] }

/-- The loop over the instructions of one line. -/
def place (p : Pass2) (curPc : Nat) : List Instruction → Pass2
  | [] => p
  | instr :: assembled =>
    if (p.results.lookup curPc).isSome then p.fail (.duplicateAddress curPc)
    else { p with results := p.results ++ [(curPc, instr)] }.place (curPc + 1) assembled

/-- An unknown class raises an exception that nothing handles. -/
def assemble (u : Unicode) (symbols : SymbolTable) (p : Pass2) : Option (Text × Text) → Option Pass2
  | none => some p
  | some (op, operands) =>
    (lookupClass op).map fun instr =>
      match instr.create u symbols operands p.pc op with
      | .error e => p.fail e
      | .ok [] => p
      | .ok assembled => { p.place p.pc assembled with pc := instr.pc p.pc }

def line (u : Unicode) (symbols : SymbolTable) (p : Pass2) (line : Text) : Option Pass2 :=
  (p.assemble u symbols (lineParts u line).2).map fun p => { p with lineCount := p.lineCount + 1 }

end Pass2

def pass2 (u : Unicode) (symbols : SymbolTable) : List Text → Pass2 → Option Pass2
  | [], p => some p
  | line :: file, p =>
    if isBlank u line then pass2 u symbols file p
    else (p.line u symbols line).bind (pass2 u symbols file)

end SystemsProjects.Lc
