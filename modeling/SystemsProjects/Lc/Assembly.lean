import SystemsProjects.Lc.Simulator
import SystemsProjects.Lib.Digits
import SystemsProjects.Lib.Regex

/-!
# The definition of the LC-4000 for the assembler

Operands are parsed with regular expressions, and each class of instructions writes its
fields as a string of binary digits.
-/

namespace SystemsProjects.Lc

open Digits Regex Pattern

abbrev Text := List Char

/-- Python's tables of characters, with what they say about ASCII. -/
structure Unicode where
  isWord : Char → Bool
  isSpace : Char → Bool
  decimal : Char → Option Nat
  lower : Text → Text
  isWord_ascii : ∀ c : Char, c.toNat < 128 → isWord c = (c.isAlphanum || c == '_')
  isSpace_ascii : ∀ c : Char, c.toNat < 128 →
    isSpace c = (9 ≤ c.toNat && c.toNat ≤ 13 || 28 ≤ c.toNat && c.toNat ≤ 32)
  decimal_ascii : ∀ c : Char, c.toNat < 128 →
    decimal c = if c.isDigit then some (c.toNat - 48) else none

/-- The texts of the exceptions that the assembler prints. -/
inductive Error
  | badRegister (operand : Text)
  | badHexadecimal (offset : Text)
  | badBinary (offset : Text)
  | tooLarge (offset : Text)
  | noLabel (offset : Text)
  | noValue (offset : Text)
  | negativeValue (offset : Int)
  | bigValue (offset : Int)
  | smallValue (offset : Int)
  | notPermitted (operands : Text)
  | badFormat (operands : Text)
  | badMnemonic (instruction : Text)
  | undefinedOp (op : Text)
  | noClass
  | duplicateLabel (label : Text)
  | largePc (pc : Nat)
  | duplicateAddress (pc : Nat)

def Error.message : Error → String
  | .badRegister operand => s!"Register identifier '{String.ofList operand}' is not valid in lc4000."
  | .badHexadecimal offset => s!"'{String.ofList offset}' is not in a valid hexadecimal format."
  | .badBinary offset => s!"'{String.ofList offset}' is not in a valid binary format."
  | .tooLarge offset => s!"'{String.ofList offset}' is too large for lc4000."
  | .noLabel offset => s!"'{String.ofList offset}' cannot be resolved as a label or a value."
  | .noValue offset => s!"'{String.ofList offset}' cannot be resolved as a value."
  | .negativeValue offset => s!"'{offset}' cannot be a negative value for lc4000."
  | .bigValue offset => s!"'{offset}' is too large (as a value) or too far away (as a label) for lc4000."
  | .smallValue offset => s!"'{offset}' is too small (as a value) or too far away (as a label) for lc4000."
  | .notPermitted operands => s!"Operands '{String.ofList operands}' are not permitted."
  | .badFormat operands => s!"Operands '{String.ofList operands}' are in an incorrect format."
  | .badMnemonic instruction => s!"Instruction '{String.ofList instruction}' is not valid."
  | .undefinedOp op => s!"instruction '{String.ofList op}' is not defined in the current ISA"
  | .noClass => "'NoneType' object has no attribute 'pc'"
  | .duplicateLabel label => s!"label '{String.ofList label}' is defined more than once"
  | .largePc pc => s!"PC value {pc} is too large for 32 bits."
  | .duplicateAddress pc => s!"PC address {pc} is defined more than once"

/-- Labels with their addresses. -/
abbrev SymbolTable := List (Text × Nat)

def registers : List (Text × Fin 16) :=
  [("$zero".toList, 0), ("$at".toList, 1), ("$v0".toList, 2), ("$a0".toList, 3), ("$a1".toList, 4),
   ("$a2".toList, 5), ("$t0".toList, 6), ("$t1".toList, 7), ("$t2".toList, 8), ("$s0".toList, 9),
   ("$s1".toList, 10), ("$s2".toList, 11), ("$k0".toList, 12), ("$sp".toList, 13),
   ("$fp".toList, 14), ("$ra".toList, 15)]

def aliases : List (Text × Text) :=
  [(".word".toList, "fill".toList), (".fill".toList, "fill".toList),
    ("min".toList, "minmax".toList),
   ("max".toList, "minmax".toList)]

def immOffsetSize : Nat := 20
def rUnusedSize : Nat := 16

/-! ## Numbers -/

/-- `bin`, without its prefix. -/
def bin (num : Nat) : List Bool := format 1 num

def zeroExtend (binary : List Bool) (target : Nat) : List Bool :=
  List.replicate (target - binary.length) false ++ binary

/-- `zero_extend` with `pad_right`. -/
def padRight (binary : List Bool) (target : Nat) : List Bool :=
  binary ++ List.replicate (target - binary.length) false

def dec2bin (num : Int) (bits : Nat) : List Bool :=
  format bits (if num ≥ 0 then num else 2 ^ bits + num).toNat

/-- A text without the characters of one kind at its ends. -/
def stripped (blank : Char → Bool) (text : Text) : Text :=
  ((text.dropWhile blank).reverse.dropWhile blank).reverse

namespace Unicode

variable (u : Unicode)

def strip (text : Text) : Text := stripped u.isSpace text

/-- The white space of `int`, to which the separators 0x1c to 0x1f do not belong. -/
def isPadding (c : Char) : Bool := u.isSpace c && !(28 ≤ c.toNat && c.toNat ≤ 31)

def hexDigit (c : Char) : Option Nat :=
  if (u.decimal c).isSome then u.decimal c
  else if 'a' ≤ c ∧ c ≤ 'f' then some (c.toNat - 'a'.toNat + 10)
  else if 'A' ≤ c ∧ c ≤ 'F' then some (c.toNat - 'A'.toNat + 10)
  else none

end Unicode

/-- The digits after the first, each perhaps behind an underscore. -/
def moreDigits (digit : Char → Option Nat) (base : Nat) : Nat → Text → Option Nat
  | v, [] => some v
  | v, '_' :: c :: rest => (digit c).bind fun d => moreDigits digit base (v * base + d) rest
  | v, c :: rest => (digit c).bind fun d => moreDigits digit base (v * base + d) rest

def natural (digit : Char → Option Nat) (base : Nat) : Text → Option Nat
  | [] => none
  | c :: rest => (digit c).bind fun d => moreDigits digit base d rest

/-- A number in base 10. Of its digits, among which underscores do not count, Python takes 4300. -/
def natural10 (u : Unicode) (text : Text) : Option Nat :=
  if text.countP (· ≠ '_') > 4300 then none else natural u.decimal 10 text

/-- `int(text)` -/
def int (u : Unicode) (text : Text) : Option Int :=
  match stripped u.isPadding text with
  | '+' :: rest => (natural10 u rest).map fun v : Nat => (v : Int)
  | '-' :: rest => (natural10 u rest).map fun v : Nat => -(v : Int)
  | rest => (natural10 u rest).map fun v : Nat => (v : Int)

/-- `int(text, 16)` of a text with the prefix. -/
def int16 (u : Unicode) (text : Text) : Option Nat :=
  match stripped u.isPadding text with
  | '0' :: 'x' :: '_' :: rest => natural u.hexDigit 16 rest
  | '0' :: 'x' :: rest => natural u.hexDigit 16 rest
  | _ => none

def hex2bin (u : Unicode) (hexadecimal : Text) : Option (List Bool) := (int16 u hexadecimal).map bin

def parseRegister (operand : Text) : Except Error (List Bool) :=
  match registers.lookup operand with
  | some r => .ok (zeroExtend (bin r) 4)
  | none => .error (.badRegister operand)

/-- The end of `parse_value`, for a number. -/
def boundedValue (offset : Int) (size : Nat) (unsigned : Bool) : Except Error (List Bool) :=
  if unsigned then
    if offset < 0 then .error (.negativeValue offset)
    else if offset ≥ 2 ^ size then .error (.bigValue offset)
    else .ok (dec2bin offset size)
  else
    if offset < -2 ^ (size - 1) then .error (.smallValue offset)
    else if offset ≥ 2 ^ (size - 1) then .error (.bigValue offset)
    else .ok (dec2bin offset size)

/-- How far it is from the next instruction to a label. -/
def labelOffset (symbols : SymbolTable) (pc : Option Nat) (offset : Text) : Option Int :=
  pc.bind fun pc => (symbols.lookup offset).map fun address => (address : Int) - pc - 1

def parseValue (u : Unicode) (symbols : SymbolTable) (offset : Text) (size : Nat) (pc : Option Nat)
    (unsigned : Bool) : Except Error (List Bool) :=
  match labelOffset symbols pc offset with
  | some offset => boundedValue offset size unsigned
  | none =>
    if "0x".toList.isPrefixOf offset then
      match hex2bin u offset with
      | none => .error (.badHexadecimal offset)
      | some binOffset =>
        if binOffset.length > size then .error (.tooLarge offset)
        else .ok (zeroExtend binOffset size)
    else if "0b".toList.isPrefixOf offset then
      match int u offset with
      | none => .error (.badBinary offset)
      | some value =>
        -- the prefix of `bin` counts here
        if 2 + (bin value.toNat).length > size then .error (.tooLarge offset)
        else .ok (zeroExtend (bin value.toNat) size)
    else
      match int u offset with
      | none => .error (if pc.isSome then .noLabel offset else .noValue offset)
      | some offset => boundedValue offset size unsigned

/-! ## Regular expressions -/

section

variable (u : Unicode)

/-- `\s*` -/
def spaces : Pattern Text := many u.isSpace

/-- `\s*,\s*` -/
def comma : Pattern Unit := do
  let _ ← spaces u
  let _ ← char ','
  let _ ← spaces u

/-- `\$\w+?` -/
def register : Pattern Text := do
  let dollar ← char '$'
  let name ← few1 u.isWord
  return dollar :: name

/-- `\S+?` -/
def offset : Pattern Text := few1 fun c => !u.isSpace c

/-- A letter without regard to case; the long s is another form of the s. -/
def letter (l : Char) : Pattern Char := one fun c => c.toLower == l || l == 's' && c == 'ſ'

def letters (a b c : Char) : Pattern Text := do
  let a ← letter a
  let b ← letter b
  let c ← letter c
  return [a, b, c]

/-- `,\s*(?P<ShfType>LSL|LSR|ASR)\s+(?P<ShfDist>\d+)` -/
def shift : Pattern (Text × Text) := do
  let _ ← char ','
  let _ ← spaces u
  let shfType ← either (letters 'l' 's' 'l') (either (letters 'l' 's' 'r') (letters 'a' 's' 'r'))
  let _ ← many1 u.isSpace
  let shfDist ← many1 fun c => (u.decimal c).isSome
  return (shfType, shfDist)

def reBlank : Pattern Unit := do
  let _ ← spaces u
  let _ ← optional do
    let _ ← char '!'
    many fun _ => true
  endOfText

/-- The label, the opcode and the operands. -/
def reParts : Pattern (Option Text × Option (Text × Text)) := do
  let _ ← spaces u
  let label ← optional do
    let name ← many1 u.isWord
    let _ ← char ':'
    return name
  let _ ← spaces u
  let instruction ← optional do
    let dot ← optional (char '.')
    let name ← many1 u.isWord
    let operands ← many fun c => c != '!'
    return (dot.toList ++ name, operands)
  let _ ← optional do
    let _ ← char '!'
    many fun _ => true
  return (label, instruction)

def reNoOperands : Pattern Unit := do
  let _ ← spaces u
  endOfText

def reR : Pattern (Text × Text × Text × Option (Text × Text)) := do
  let _ ← spaces u
  let rx ← register u
  comma u
  let ry ← register u
  comma u
  let rz ← register u
  let shifted ← optional (shift u)
  let _ ← spaces u
  endOfText
  return (rx, ry, rz, shifted)

def reMem : Pattern (Text × Text × Text) := do
  let _ ← spaces u
  let rx ← register u
  comma u
  let offset ← offset u
  let _ ← spaces u
  let _ ← char '('
  let ry ← register u
  let _ ← char ')'
  let _ ← spaces u
  endOfText
  return (rx, offset, ry)

def reAddi : Pattern (Text × Text × Text × Option (Text × Text)) := do
  let _ ← spaces u
  let rx ← register u
  comma u
  let ry ← register u
  comma u
  let offset ← offset u
  let _ ← spaces u
  let shifted ← optional (shift u)
  endOfText
  return (rx, ry, offset, shifted)

/-- `__RE_BEQ` and `__RE_BLT` -/
def reBranch : Pattern (Text × Text × Text) := do
  let _ ← spaces u
  let rx ← register u
  comma u
  let ry ← register u
  comma u
  let offset ← offset u
  let _ ← spaces u
  endOfText
  return (rx, ry, offset)

def reLea : Pattern (Text × Text) := do
  let _ ← spaces u
  let rx ← register u
  comma u
  let offset ← offset u
  let _ ← spaces u
  endOfText
  return (rx, offset)

def reJalr : Pattern (Text × Text) := do
  let _ ← spaces u
  let target ← register u
  comma u
  let ra ← register u
  let _ ← spaces u
  endOfText
  return (target, ra)

def reInc : Pattern Text := do
  let _ ← spaces u
  let dr ← register u
  let _ ← spaces u
  endOfText
  return dr

/-! ## Instructions -/

/-- The classes that a mnemonic can name. -/
inductive InstrClass
  | add | addi | nand | beq | blt | lea | lw | sw | jalr | halt | inc | noop | fill | minmax
deriving DecidableEq, Repr

namespace InstrClass

def opcode : InstrClass → Option Nat
  | add | noop => some 0
  | nand => some 1
  | addi => some 2
  | lw => some 3
  | sw => some 4
  | beq => some 5
  | jalr => some 6
  | halt => some 7
  | blt => some 8
  | lea => some 9
  | minmax => some 10
  | inc => some 15
  | fill => none

/-- The address after an instruction. -/
def pc (_ : InstrClass) (pc : Nat) : Nat := pc + 1

end InstrClass

/-- An instruction with its parsed operands. -/
structure Instruction where
  cls : InstrClass
  binOperands : List Bool

def Instruction.binary (instr : Instruction) : List Bool :=
  match instr.cls.opcode with
  | none => instr.binOperands
  | some opcode =>
    let paddedOpcode := zeroExtend (bin opcode) 4
    match instr.cls with
    | .jalr | .inc | .halt => padRight (paddedOpcode ++ instr.binOperands) 32
    | _ => paddedOpcode ++ instr.binOperands

/-- `Instruction.parse_operands` -/
def parseNone (operands : Text) : Except Error (List Bool) :=
  match first (reNoOperands u) operands with
  | none => .error (.notPermitted (u.strip operands))
  | some _ => .ok []

/-- `RInstruction.parse_operands`, and that of `minmax` with the digits of the mode between
the registers. -/
def parseR (unused : List Bool) (operands : Text) : Except Error (List Bool) :=
  match first (reR u) operands with
  | none => .error (.badFormat (u.strip operands))
  | some (rx, ry, rz, _) => do
    let rx ← parseRegister rx
    let ry ← parseRegister ry
    let rz ← parseRegister rz
    return rx ++ ry ++ unused ++ rz

def RInstruction.parseOperands (operands : Text) : Except Error (List Bool) :=
  parseR u (List.replicate rUnusedSize false) operands

def minmax.parseOperands (operands instruction : Text) : Except Error (List Bool) :=
  if instruction = "min".toList then parseR u (zeroExtend (bin 0) rUnusedSize) operands
  else if instruction = "max".toList then parseR u (zeroExtend (bin 1) rUnusedSize) operands
  else .error (.badMnemonic instruction)

def MemInstruction.parseOperands (symbols : SymbolTable) (operands : Text) (pc : Nat) :
    Except Error (List Bool) :=
  match first (reMem u) operands with
  | none => .error (.badFormat (u.strip operands))
  | some (rx, offset, ry) => do
    let rx ← parseRegister rx
    let ry ← parseRegister ry
    let offset ← parseValue u symbols offset immOffsetSize (some pc) false
    return rx ++ ry ++ offset

/-- Without an address labels are not looked up. -/
def addi.parseOperands (symbols : SymbolTable) (operands : Text) : Except Error (List Bool) :=
  match first (reAddi u) operands with
  | none => .error (.badFormat (u.strip operands))
  | some (rx, ry, offset, _) => do
    let rx ← parseRegister rx
    let ry ← parseRegister ry
    let offset ← parseValue u symbols offset immOffsetSize none false
    return rx ++ ry ++ offset

/-- `beq.parse_operands` and `blt.parse_operands` -/
def branch.parseOperands (symbols : SymbolTable) (operands : Text) (pc : Nat) :
    Except Error (List Bool) :=
  match first (reBranch u) operands with
  | none => .error (.badFormat (u.strip operands))
  | some (rx, ry, offset) => do
    let rx ← parseRegister rx
    let ry ← parseRegister ry
    let offset ← parseValue u symbols offset immOffsetSize (some pc) false
    return rx ++ ry ++ offset

def lea.parseOperands (symbols : SymbolTable) (operands : Text) (pc : Nat) :
    Except Error (List Bool) :=
  match first (reLea u) operands with
  | none => .error (.badFormat (u.strip operands))
  | some (rx, offset) => do
    let rx ← parseRegister rx
    let offset ← parseValue u symbols offset immOffsetSize (some pc) false
    return rx ++ List.replicate 4 false ++ offset

def jalr.parseOperands (operands : Text) : Except Error (List Bool) :=
  match first (reJalr u) operands with
  | none => .error (.badFormat (u.strip operands))
  | some (target, ra) => do
    let target ← parseRegister target
    let ra ← parseRegister ra
    return target ++ ra

def inc.parseOperands (operands : Text) : Except Error (List Bool) :=
  match first (reInc u) operands with
  | none => .error (.badFormat (u.strip operands))
  | some dr => parseRegister dr

def fill.parseOperands (symbols : SymbolTable) (operands : Text) : Except Error (List Bool) :=
  parseValue u symbols (u.strip operands) 32 none false

def InstrClass.parseOperands (symbols : SymbolTable) (cls : InstrClass) (operands : Text) (pc : Nat)
    (instruction : Text) : Except Error (List Bool) :=
  match cls with
  | .add | .nand => RInstruction.parseOperands u operands
  | .noop => RInstruction.parseOperands u "$zero, $zero, $zero".toList
  | .addi => addi.parseOperands u symbols operands
  | .beq | .blt => branch.parseOperands u symbols operands pc
  | .lea => lea.parseOperands u symbols operands pc
  | .lw | .sw => MemInstruction.parseOperands u symbols operands pc
  | .jalr => jalr.parseOperands u operands
  | .halt => parseNone u operands
  | .inc => inc.parseOperands u operands
  | .fill => fill.parseOperands u symbols operands
  | .minmax => minmax.parseOperands u operands instruction

/-- Every class makes one instruction of its operands. -/
def InstrClass.create (symbols : SymbolTable) (cls : InstrClass) (operands : Text) (pc : Nat)
    (instruction : Text) : Except Error (List Instruction) := do
  let binOperands ← cls.parseOperands u symbols operands pc instruction
  return [⟨cls, binOperands⟩]

/-! ## What the assembler expects -/

def isBlank (line : Text) : Bool := (first (reBlank u) line).isSome

def getParts (line : Text) : Option Text × Option (Text × Text) :=
  (first (reParts u) line).getD (none, none)

def instructionClass (name : Text) : Text := (aliases.lookup name).getD name

/-- `getattr(ISA, name)` for what has the methods of an instruction. -/
def getattr (name : Text) : Option InstrClass :=
  [("add".toList, .add), ("addi".toList, .addi), ("nand".toList, .nand), ("beq".toList, .beq),
   ("blt".toList, .blt), ("lea".toList, .lea), ("lw".toList, .lw), ("sw".toList, .sw),
   ("jalr".toList, .jalr), ("halt".toList, .halt), ("inc".toList, .inc), ("noop".toList, .noop),
   ("fill".toList, .fill), ("minmax".toList, InstrClass.minmax)].lookup name

/-- The rest of the output from an address on. For a gap the source asks a list for its `pc`,
which raises an exception. -/
def outputFrom (assembled : List (Nat × Instruction)) : Nat → Nat → Option (List (List Bool))
  | 0, _ => some []
  | count + 1, pc =>
    match assembled.lookup pc with
    | none => none
    | some instr => (outputFrom assembled count (pc + 1)).map (instr.binary :: ·)

/-- `output_generator` in the binary format. -/
def outputGenerator (assembled : List (Nat × Instruction)) : Option (List (List Bool)) :=
  outputFrom assembled assembled.length 0

end

end SystemsProjects.Lc
