import SystemsProjects.Lc.Operands
import SystemsProjects.Lc.Texts

/-!
# What is lost of a source

The simulator finds the registers and the numbers of the operands in the word. A shift has no
digits there, `noop` takes no notice of its operands, and a line that goes on behind its label
with neither an opcode nor a comment is taken for an empty one.
-/

namespace SystemsProjects.Lc

open Digits Regex Pattern Instr

/-- What the expressions for operands capture. -/
structure Groups where
  rx : Option Text := none
  ry : Option Text := none
  rz : Option Text := none
  offset : Option Text := none
  value : Option Text := none
  shifted : Option (Text × Text) := none

inductive Part
  | rx | ry | rz | offset | value | shfType | shfDist

inductive PartValue
  | number (num : Int)
  | word (text : Text)

section

variable (u : Unicode) (symbols : SymbolTable)

/-- The operands of a mnemonic, if they are such as it takes. -/
def groups (operands : Text) : InstrClass → Option Groups
  | .add | .nand | .minmax =>
    (first (reR u) operands).map fun m =>
      { rx := some m.1, ry := some m.2.1, rz := some m.2.2.1, shifted := m.2.2.2 }
  | .addi =>
    (first (reAddi u) operands).map fun m =>
      { rx := some m.1, ry := some m.2.1, offset := some m.2.2.1, shifted := m.2.2.2 }
  | .lw | .sw =>
    (first (reMem u) operands).map fun m =>
      { rx := some m.1, ry := some m.2.2, offset := some m.2.1 }
  | .beq | .blt =>
    (first (reBranch u) operands).map fun m =>
      { rx := some m.1, ry := some m.2.1, offset := some m.2.2 }
  | .lea => (first (reLea u) operands).map fun m => { rx := some m.1, offset := some m.2 }
  | .jalr => (first (reJalr u) operands).map fun m => { rx := some m.1, ry := some m.2 }
  | .inc => (first (reInc u) operands).map fun dr => { rx := some dr }
  | .fill => some { value := some operands }
  | .halt | .noop => (first (reNoOperands u) operands).map fun _ => {}

/-- The address from which a label is counted, where labels are looked up. -/
def labelPc (cls : InstrClass) (pc : Nat) : Option Nat := if cls = .addi then none else some pc

/-- The number of a `.fill`. A hexadecimal literal stands for a two's complement. -/
def fillValue (operands : Text) : Option Int :=
  let offset := u.strip operands
  if "0x".toList.isPrefixOf offset then (int16 u offset).map fun v : Nat => (v : Int).bmod (2 ^ 32)
  else int u offset

def registerPart (operand : Option Text) : Option PartValue :=
  operand.bind fun name => (registers.lookup name).map fun r => .number r.val

/-- The value of a part. -/
def Groups.part (g : Groups) (pc : Option Nat) : Part → Option PartValue
  | .rx => registerPart g.rx
  | .ry => registerPart g.ry
  | .rz => registerPart g.rz
  | .offset => (g.offset.bind (signedImmediate u symbols pc)).map .number
  | .value => (g.value.bind (fillValue u)).map .number
  | .shfType => g.shifted.map fun s => .word s.1
  | .shfDist => (g.shifted.bind fun s => int u s.2).map .number

end

/-- What the simulator reads in the word is what has been written. -/
structure Groups.Reads (u : Unicode) (symbols : SymbolTable) (pc : Option Nat) (g : Groups)
    (word : List Bool) : Prop where
  rx : ∀ name ∈ g.rx, registers.lookup name = some (regno (bitRange word 27 24))
  ry : ∀ name ∈ g.ry, registers.lookup name = some (regno (bitRange word 23 20))
  rz : ∀ name ∈ g.rz, registers.lookup name = some (regno (bitRange word 3 0))
  offset : ∀ text ∈ g.offset, signedImmediate u symbols pc text = some (int2c (bitRange word 19 0))
  value : ∀ text ∈ g.value, fillValue u text = some (int2c word)

/-- What the simulator reads in the word for a part; it knows no shift. -/
def readPart (word : List Bool) : Part → Option PartValue
  | .rx => some (.number (regno (bitRange word 27 24)).val)
  | .ry => some (.number (regno (bitRange word 23 20)).val)
  | .rz => some (.number (regno (bitRange word 3 0)).val)
  | .offset => some (.number (int2c (bitRange word 19 0)))
  | .value => some (.number (int2c word))
  | .shfType | .shfDist => none

/-- Whatever else makes the word at that address has the same value for the part. -/
def Recoverable (u : Unicode) (symbols : SymbolTable) (pc : Nat) (word : List Bool) (part : Part)
    (v : PartValue) : Prop :=
  ∀ op operands cls instr g w, lookupClass op = some cls →
    cls.create u symbols operands pc op = .ok [instr] →
    instr.binary = word → groups u operands cls = some g →
    g.part u symbols (labelPc cls pc) part = some w → w = v

/-- All of the text of the line is in its label, its mnemonic and its operands, which are such as
the mnemonic takes, and the word at its address tells the values of their parts. -/
structure Kept (u : Unicode) (symbols : SymbolTable) (out : List (List Bool)) (pc : Nat)
    (line : Text) : Prop where
  text : Accounted u (u.lower (u.strip line))
  operands : ∀ op operands, (lineParts u line).2 = some (op, operands) →
    ∃ cls g word, lookupClass op = some cls ∧
    groups u operands cls = some g ∧ out[pc]? = some word ∧ word.length = 32 ∧
    ∀ part v, g.part u symbols (labelPc cls pc) part = some v → Recoverable u symbols pc word part v

/-- Behind its label the line ends, or its comment begins, or an opcode; the operands have no shift
suffix, and a `noop` has none. -/
structure Clean (u : Unicode) (line : Text) : Prop where
  behind : Continues u (u.lower (u.strip line))
  unshifted : ∀ op operands, (lineParts u line).2 = some (op, operands) →
    writtenShift u op operands = none
  bare : ∀ op operands, (lineParts u line).2 = some (op, operands) → lookupClass op = some .noop →
    operands.all u.isSpace

section

variable {u : Unicode} {symbols : SymbolTable} {op operands : Text} {cls : InstrClass}
  {instr : Instruction}
  {pc : Nat} {bits : List Bool} {part : Part} {v : PartValue} {opcode : Nat} {rx ry rz : Fin 16}
    {low : List Bool}
  {name : Text} {imm : Int}

/-! ## What the word keeps -/

theorem reads_rx (named : registers.lookup name = some rx) :
    ∀ t ∈ some name, registers.lookup t = some
      (regno (bitRange (layout opcode rx ry low) 27 24)) := by
  rintro t ⟨⟩
  rw [layout_rx, regno_digits, named]

theorem reads_ry (named : registers.lookup name = some ry) :
    ∀ t ∈ some name, registers.lookup t = some
      (regno (bitRange (layout opcode rx ry low) 23 20)) := by
  rintro t ⟨⟩
  rw [layout_ry, regno_digits, named]

theorem reads_rz {mode : Bool} (named : registers.lookup name = some rz) :
    ∀ t ∈ some name, registers.lookup t =
      some (regno (bitRange (layout opcode rx ry (third mode rz)) 3 0)) := by
  rintro t ⟨⟩
  rw [layout_third, regno_digits, named]

theorem reads_offset {pc : Option Nat} (number : signedImmediate u symbols pc name = some imm)
    (range : -2 ^ 19 ≤ imm ∧ imm < 2 ^ 19) : ∀ t ∈ some name,
      signedImmediate u symbols pc t =
      some (int2c (bitRange (layout opcode rx ry (immediate imm)) 19 0)) := by
  rintro t ⟨⟩
  rw [layout_low (length_immediate imm), int2c_immediate range, number]

theorem int2c_word (len : bits.length = 32) : int2c bits = (value bits : Int).bmod (2 ^ 32) := by
  rw [int2c, len]
  exact forceSigned_eq _ 31

theorem boundedValue_word {v : Int} (ok : boundedValue v 32 false = .ok bits) :
    v = (value bits : Int).bmod (2 ^ 32) := by
  simp only [boundedValue, Bool.false_eq_true, if_false] at ok
  split at ok
  · cases ok
  · split at ok
    · cases ok
    · have range : -2 ^ 31 ≤ v ∧ v < 2 ^ 31 := by omega
      have residue : (if v ≥ 0 then v else 2 ^ 32 + v).toNat = (v % 2 ^ 32).toNat := by
        split <;> omega
      cases ok
      rw [dec2bin, residue, format_of_lt (by omega) (by omega), value_digits, Int.bmod_def]
      omega

theorem fill_ok (ok : fill.parseOperands u symbols operands = .ok bits) :
    fillValue u operands = some (int2c bits) := by
  rw [int2c_word (parseValue_length (by decide) ok)]
  unfold fill.parseOperands parseValue at ok
  unfold fillValue
  dsimp only [labelOffset, Option.bind_none] at ok ⊢
  by_cases literal : "0x".toList.isPrefixOf (u.strip operands) = true
  · rw [if_pos literal] at ok ⊢
    cases number : int16 u (u.strip operands) with
    | none =>
      rw [hex2bin, number] at ok
      cases ok
    | some v =>
      rw [hex2bin, number] at ok
      dsimp only [Option.map_some] at ok
      split at ok
      · cases ok
      · next fits =>
        have lt : v < 2 ^ 32 := (length_format_one_le (by omega)).mp (Nat.not_lt.mp fits)
        cases ok
        rw [zeroExtend_bin (by decide) lt, value_digits, Nat.mod_eq_of_lt lt]
        rfl
  · rw [if_neg literal] at ok ⊢
    by_cases literal' : "0b".toList.isPrefixOf (u.strip operands) = true
    · rw [if_pos literal', int_binary u literal'] at ok
      cases ok
    · rw [if_neg literal'] at ok
      cases number : int u (u.strip operands) with
      | none =>
        rw [number] at ok
        cases ok
      | some v =>
        rw [number] at ok
        rw [← boundedValue_word ok]

/-- The word of an instruction keeps its operands, but for the shift. -/
theorem create_reads {g : Groups} (named : lookupClass op = some cls)
    (created : cls.create u symbols operands pc op = .ok [instr])
    (captured : groups u operands cls = some g) :
    g.Reads u symbols (labelPc cls pc) instr.binary := by
  obtain ⟨bits, ok, made⟩ := bind_ok created
  cases made
  unfold InstrClass.parseOperands at ok
  unfold groups at captured
  cases cls with
  | add | nand =>
    obtain ⟨m, rx, ry, rz, matched, named, named', named'', rfl⟩ := parseR_ok ok
    rw [matched] at captured
    cases captured
    exact ⟨reads_rx named, reads_ry named', reads_rz named'', nofun, nofun⟩
  | minmax =>
    dsimp only at ok
    unfold minmax.parseOperands at ok
    split at ok
    · obtain ⟨m, rx, ry, rz, matched, named, named', named'', rfl⟩ := parseR_ok ok
      rw [matched] at captured
      cases captured
      exact ⟨reads_rx named, reads_ry named', reads_rz named'', nofun, nofun⟩
    · split at ok
      · obtain ⟨m, rx, ry, rz, matched, named, named', named'', rfl⟩ := parseR_ok ok
        rw [matched] at captured
        cases captured
        exact ⟨reads_rx named, reads_ry named', reads_rz named'', nofun, nofun⟩
      · cases ok
  | addi =>
    obtain ⟨m, rx, ry, v, matched, named, named', number, range, rfl⟩ := addi_ok ok
    rw [matched] at captured
    cases captured
    exact ⟨reads_rx named, reads_ry named', nofun, reads_offset number range, nofun⟩
  | lw | sw =>
    obtain ⟨m, rx, ry, v, matched, named, named', number, range, rfl⟩ := mem_ok ok
    rw [matched] at captured
    cases captured
    exact ⟨reads_rx named, reads_ry named', nofun, reads_offset number range, nofun⟩
  | beq | blt =>
    obtain ⟨m, rx, ry, v, matched, named, named', number, range, rfl⟩ := branch_ok ok
    rw [matched] at captured
    cases captured
    exact ⟨reads_rx named, reads_ry named', nofun, reads_offset number range, nofun⟩
  | lea =>
    obtain ⟨m, rx, v, matched, named, number, range, rfl⟩ := lea_ok ok
    rw [matched] at captured
    cases captured
    have word :
        (⟨.lea, digits 4 rx ++ List.replicate 4 false ++ immediate v⟩ : Instruction).binary =
        layout 9 rx 0 (immediate v) := rfl
    rw [word]
    exact ⟨reads_rx named, nofun, nofun, reads_offset number range, nofun⟩
  | jalr =>
    obtain ⟨m, target, ra, matched, named, named', rfl⟩ := jalr_ok ok
    rw [matched] at captured
    cases captured
    have word : (⟨.jalr, digits 4 target ++ digits 4 ra⟩ : Instruction).binary =
        layout 6 target ra (List.replicate 20 false) := rfl
    rw [word]
    exact ⟨reads_rx named, reads_ry named', nofun, nofun, nofun⟩
  | inc =>
    obtain ⟨m, dr, matched, named, rfl⟩ := inc_ok ok
    rw [matched] at captured
    cases captured
    have word : (⟨.inc, digits 4 dr⟩ : Instruction).binary =
        layout 15 dr 0 (List.replicate 20 false) := rfl
    rw [word]
    exact ⟨reads_rx named, nofun, nofun, nofun, nofun⟩
  | fill =>
    cases captured
    refine ⟨nofun, nofun, nofun, nofun, ?_⟩
    rintro t ⟨⟩
    exact fill_ok ok
  | halt | noop =>
    obtain ⟨m, _, rfl⟩ := Option.map_eq_some_iff.mp captured
    exact ⟨nofun, nofun, nofun, nofun, nofun⟩

/-- What has been assembled has operands that the mnemonic takes, unless it is a `noop`. -/
theorem create_groups (other : cls ≠ .noop)
    (created : cls.create u symbols operands pc op = .ok [instr]) :
    ∃ g, groups u operands cls = some g := by
  obtain ⟨bits, ok, made⟩ := bind_ok created
  unfold InstrClass.parseOperands at ok
  unfold groups
  cases cls with
  | add | nand =>
    obtain ⟨m, rx, ry, rz, matched, _⟩ := parseR_ok ok
    exact ⟨_, by rw [matched]; rfl⟩
  | minmax =>
    dsimp only at ok
    unfold minmax.parseOperands at ok
    split at ok
    · obtain ⟨m, rx, ry, rz, matched, _⟩ := parseR_ok ok
      exact ⟨_, by rw [matched]; rfl⟩
    · split at ok
      · obtain ⟨m, rx, ry, rz, matched, _⟩ := parseR_ok ok
        exact ⟨_, by rw [matched]; rfl⟩
      · cases ok
  | addi =>
    obtain ⟨m, rx, ry, v, matched, _⟩ := addi_ok ok
    exact ⟨_, by rw [matched]; rfl⟩
  | lw | sw =>
    obtain ⟨m, rx, ry, v, matched, _⟩ := mem_ok ok
    exact ⟨_, by rw [matched]; rfl⟩
  | beq | blt =>
    obtain ⟨m, rx, ry, v, matched, _⟩ := branch_ok ok
    exact ⟨_, by rw [matched]; rfl⟩
  | lea =>
    obtain ⟨m, rx, v, matched, _⟩ := lea_ok ok
    exact ⟨_, by rw [matched]; rfl⟩
  | jalr =>
    obtain ⟨m, target, ra, matched, _⟩ := jalr_ok ok
    exact ⟨_, by rw [matched]; rfl⟩
  | inc =>
    obtain ⟨m, dr, matched, _⟩ := inc_ok ok
    exact ⟨_, by rw [matched]; rfl⟩
  | fill => exact ⟨_, rfl⟩
  | halt =>
    dsimp only at ok ⊢
    unfold parseNone at ok
    split at ok
    · cases ok
    · next matched => exact ⟨_, by rw [matched]; rfl⟩
  | noop => exact absurd rfl other

theorem reNoOperands_iff (text : Text) : (first (reNoOperands u) text).isSome ↔
    text.all u.isSpace := by
  unfold first reNoOperands spaces
  rw [many_end]
  cases text.all u.isSpace <;> simp

/-! ## What is lost -/

/-- The names of the registers are a dollar and letters or digits. -/
theorem register_name {name : Text} {r : Fin 16} (named : registers.lookup name = some r) :
    ∃ c front, name = '$' :: c :: front ∧ ∀ d ∈ c :: front, u.isWord d = true ∧
      u.isSpace d = false ∧ d ≠ ',' := by
  have all : ∀ p ∈ registers, p.1.head? = some '$' ∧ p.1.tail ≠ [] ∧
      p.1.tail.all (fun d => 48 ≤ d.toNat ∧ d.toNat < 128 ∧ d.isAlphanum) = true := by
    decide
  have mem : (name, r) ∈ registers := by
    obtain ⟨before, after, split, _⟩ := List.lookup_eq_some_iff.mp named
    rw [split]
    exact List.mem_append_right before List.mem_cons_self
  obtain ⟨dollar, some, letters⟩ := all _ mem
  cases name with
  | nil => cases dollar
  | cons d rest =>
    cases rest with
    | nil => exact absurd rfl some
    | cons c front =>
      refine ⟨c, front, by rw [Option.some.inj dollar], fun d hd => ?_⟩
      obtain ⟨low, ascii, letter⟩ := of_decide_eq_true (List.all_eq_true.mp letters d hd)
      refine ⟨?_, ?_, ?_⟩
      · rw [u.isWord_ascii d ascii, letter]
        rfl
      · rw [u.isSpace_ascii d ascii]
        simp
        omega
      · rintro rfl
        exact absurd low (by decide)

/-- The name of a register, with something behind it that has no place in the middle of it. -/
theorem register_bind {α : Type} {f : Text → Pattern α} {r : Fin 16} {rest : Text}
    (named : registers.lookup name = some r) (short : ∀ before d after, u.isSpace d = false →
    d ≠ ',' → f before (d :: after) = [])
    (here : f name rest ≠ []) : ((register u >>= f) (name ++ rest)).head? =
    (f name rest).head? := by
  obtain ⟨c, front, rfl, letters⟩ := register_name (u := u) named
  have dollar : (register u >>= f) ('$' :: c :: front ++ rest) =
      (few1 u.isWord >>= fun name => f ('$' :: name)) (c :: front ++ rest) := by
    simp [register, char, one, List.flatMap_assoc]
  rw [dollar]
  refine few1_bind (fun d mem => (letters d mem).1) ?_ here
  intro before after some split
  cases after with
  | nil => exact absurd rfl some
  | cons d after =>
    have mem : d ∈ c :: front := by
      rw [split]
      simp
    exact short _ d (after ++ rest) (letters d mem).2.1 (letters d mem).2.2

/-- A shift suffix of the given type. -/
def suffix (shfType : Text) : Text := ',' :: shfType ++ " 1".toList

theorem shift_suffix {shfType : Text} (known : shfType = "lsl".toList ∨ shfType = "lsr".toList) :
    shift u (suffix shfType) = [((shfType, "1".toList), [])] := by
  have l : u.isSpace 'l' = false := u.isSpace_ascii 'l' (by decide)
  have one' : u.isSpace '1' = false := u.isSpace_ascii '1' (by decide)
  have blank : u.isSpace ' ' = true := u.isSpace_ascii ' ' (by decide)
  have digit : u.decimal '1' = some 1 := u.decimal_ascii '1' (by decide)
  rcases known with rfl | rfl
  · simp [suffix, shift, spaces, many, many1, char, one, either, letters, letter, l, one', blank,
      digit]
  · simp [suffix, shift, spaces, many, many1, char, one, either, letters, letter, l, one', blank,
      digit]

/-- The end of the expression, behind a text that cannot go on with a shift. -/
theorem shift_stop {α : Type} (f : Option (Text × Text) → α) {d : Char} {rest : Text}
    (space : u.isSpace d = false) (comma : d ≠ ',') :
    (do let shifted ← optional (shift u)
        let _ ← spaces u
        endOfText
        return f shifted : Pattern α) (d :: rest) = [] := by
  have stop : spaces u (d :: rest) = [([], d :: rest)] := many_stop (by simpa using space)
  have none : shift u (d :: rest) = [] := by simp [shift, char, one, comma]
  simp [Pattern.optional, none, stop, endOfText]

theorem shift_end {α : Type} (f : Option (Text × Text) → α) {shfType : Text}
    (known : shfType = "lsl".toList ∨ shfType = "lsr".toList) :
    (do let shifted ← optional (shift u)
        let _ ← spaces u
        endOfText
        return f shifted : Pattern α) (suffix shfType) =
          [(f (some (shfType, "1".toList)), [])] := by
  have mark : u.isSpace ',' = false := u.isSpace_ascii ',' (by decide)
  have stop : spaces u (suffix shfType) = [([], suffix shfType)] :=
    many_stop (by simpa [suffix] using mark)
  have ways : optional (shift u) (suffix shfType) = [(some (shfType, "1".toList), []),
      (none, suffix shfType)] := by
    rw [Pattern.optional, shift_suffix known]
    rfl
  have nothing : spaces u [] = [([], [])] := rfl
  have more : endOfText (suffix shfType) = [] := rfl
  have ends : endOfText [] = [((), [])] := rfl
  rw [bind_apply, ways]
  simp [stop, nothing, more, ends]

/-- The text goes on at once. -/
def Solid (u : Unicode) (text : Text) : Prop := ∃ c rest, text = c :: rest ∧ u.isSpace c = false

theorem solid_register {name : Text} {r : Fin 16} (named : registers.lookup name = some r)
    (rest : Text) :
    Solid u (name ++ rest) := by
  obtain ⟨c, front, rfl, _⟩ := register_name (u := u) named
  exact ⟨'$', _, rfl, u.isSpace_ascii '$' (by decide)⟩

theorem spaces_solid {text : Text} (solid : Solid u text) : spaces u text = [([], text)] := by
  obtain ⟨c, rest, rfl, space⟩ := solid
  exact many_stop (by simpa using space)

theorem comma_solid {text : Text} (solid : Solid u text) :
    comma u (',' :: text) = [((), text)] := by
  have mark : Solid u (',' :: text) := ⟨',', text, rfl, u.isSpace_ascii ',' (by decide)⟩
  simp [comma, spaces_solid mark, spaces_solid solid, char, one]

/-- A register, a comma and what goes on at once. -/
theorem register_comma_bind {α : Type} {f : Text → Pattern α} {name text : Text} {r : Fin 16}
    (named : registers.lookup name = some r) (solid : Solid u text) (here : f name text ≠ []) :
    ((register u >>= fun rx => comma u >>= fun _ => f rx) (name ++ ',' :: text)).head? =
    (f name text).head? := by
  have behind : (comma u >>= fun _ => f name) (',' :: text) = f name text := by
    rw [bind_apply, comma_solid solid, List.flatMap_singleton]
  rw [← behind] at here ⊢
  refine register_bind (f := fun rx => comma u >>= fun _ => f rx) named ?_ here
  intro before d after space ne
  rw [bind_apply, comma_stop _ space ne]
  rfl

/-- Before a register there are no spaces to skip. -/
theorem spaces_register {α : Type} {f : Text → Pattern α} {name rest : Text} {r : Fin 16}
    (named : registers.lookup name = some r) : (spaces u >>= f) (name ++ rest) =
    f [] (name ++ rest) := by
  rw [bind_apply, spaces_solid (solid_register named rest), List.flatMap_singleton]

theorem ne_nil_of_head {α : Type} {l : List α} {a : α} (head : l.head? = some a) : l ≠ [] := by
  rintro rfl
  cases head

/-- What the expression for three registers does with the last one. -/
def lastRegister (u : Unicode) (tx ty tz : Text) :
    Pattern (Text × Text × Text × Option (Text × Text)) := do
  let shifted ← optional (shift u)
  let _ ← spaces u
  endOfText
  return (tx, ty, tz, shifted)

/-- What the expression for `addi` does with the offset. -/
def lastOffset (u : Unicode) (tx ty text : Text) :
    Pattern (Text × Text × Text × Option (Text × Text)) := do
  let _ ← spaces u
  let shifted ← optional (shift u)
  endOfText
  return (tx, ty, text, shifted)

section

variable {tx ty tz shfType : Text} {rx ry rz : Fin 16} (named : registers.lookup tx = some rx)
  (named' : registers.lookup ty = some ry) (known : shfType = "lsl".toList ∨ shfType = "lsr".toList)

include named named' known

/-- Three registers and a shift. -/
theorem reR_suffix (named'' : registers.lookup tz = some rz) :
    first (reR u) (tx ++ ',' :: (ty ++ ',' :: (tz ++ suffix shfType))) =
      some (tx, ty, tz, some (shfType, "1".toList)) := by
  have ends : lastRegister u tx ty tz (suffix shfType) =
    [((tx, ty, tz, some (shfType, "1".toList)), [])] :=
    shift_end _ known
  have stuck : ∀ before d after, u.isSpace d = false → d ≠ ',' →
    lastRegister u tx ty before (d :: after) = [] :=
    fun before d after space ne => shift_stop _ space ne
  have third : ((register u >>= lastRegister u tx ty) (tz ++ suffix shfType)).head? =
      some ((tx, ty, tz, some (shfType, "1".toList)), []) := by
    rw [register_bind named'' stuck (by rw [ends]; exact List.cons_ne_nil _ _), ends]
    rfl
  have second : ((register u >>= fun ry => comma u >>= fun _ => register u >>= lastRegister u tx ry)
      (ty ++ ',' :: (tz ++ suffix shfType))).head? = some
      ((tx, ty, tz, some (shfType, "1".toList)), []) := by
    rw [register_comma_bind named' (solid_register named'' _) (ne_nil_of_head third), third]
  have whole : ((register u >>= fun rx => comma u >>= fun _ => register u >>= fun ry =>
    comma u >>= fun _ =>
      register u >>= lastRegister u rx ry) (tx ++ ',' ::
      (ty ++ ',' :: (tz ++ suffix shfType)))).head? =
        some ((tx, ty, tz, some (shfType, "1".toList)), []) := by
    rw [register_comma_bind named (solid_register named' _) (ne_nil_of_head second), second]
  have start : reR u = spaces u >>= fun _ => register u >>= fun rx => comma u >>= fun _ =>
    register u >>= fun ry =>
      comma u >>= fun _ => register u >>= lastRegister u rx ry := rfl
  rw [first, start, spaces_register named, whole]
  rfl

/-- Two registers, an offset and a shift. -/
theorem reAddi_suffix {text : Text} (nonempty : text ≠ [])
    (solid : ∀ c ∈ text, u.isSpace c = false ∧ c ≠ ',') :
    first (reAddi u) (tx ++ ',' :: (ty ++ ',' :: (text ++ suffix shfType))) =
      some (tx, ty, text, some (shfType, "1".toList)) := by
  obtain ⟨c, front, rfl⟩ := List.exists_cons_of_ne_nil nonempty
  have mark : Solid u (suffix shfType) := ⟨',', _, rfl, u.isSpace_ascii ',' (by decide)⟩
  have ends : lastOffset u tx ty (c :: front) (suffix shfType) =
      [((tx, ty, c :: front, some (shfType, "1".toList)), [])] := by
    have ways : optional (shift u) (suffix shfType) =
        [(some (shfType, "1".toList), []), (none, suffix shfType)] := by
      rw [Pattern.optional, shift_suffix known]
      rfl
    have more : endOfText (suffix shfType) = [] := rfl
    have ends : endOfText [] = [((), [])] := rfl
    rw [lastOffset, bind_apply, spaces_solid mark, List.flatMap_singleton, bind_apply, ways]
    simp [more, ends]
  have stuck : ∀ before d after, u.isSpace d = false → d ≠ ',' →
      lastOffset u tx ty before (d :: after) = [] := by
    intro before d after space comma
    have none : shift u (d :: after) = [] := by simp [shift, char, one, comma]
    have more : endOfText (d :: after) = [] := rfl
    rw [lastOffset, bind_apply, spaces_solid ⟨d, after, rfl, space⟩, List.flatMap_singleton,
      bind_apply]
    simp [Pattern.optional, none, more]
  have third : ((offset u >>= lastOffset u tx ty) (c :: front ++ suffix shfType)).head? =
      some ((tx, ty, c :: front, some (shfType, "1".toList)), []) := by
    unfold offset
    rw [few1_bind (fun d mem => by simp [(solid d mem).1]) _
      (by rw [ends]; exact List.cons_ne_nil _ _), ends]
    · rfl
    · intro before after some split
      obtain ⟨d, after, rfl⟩ := List.exists_cons_of_ne_nil some
      have mem : d ∈ c :: front := by
        rw [split]
        simp
      exact stuck _ d _ (solid d mem).1 (solid d mem).2
  have here : Solid u (c :: front ++ suffix shfType) := ⟨c, _, rfl, (solid c List.mem_cons_self).1⟩
  have second : ((register u >>= fun ry => comma u >>= fun _ => offset u >>= lastOffset u tx ry)
      (ty ++ ',' :: (c :: front ++ suffix shfType))).head? = some
      ((tx, ty, c :: front, some (shfType, "1".toList)), []) := by
    rw [register_comma_bind named' here (ne_nil_of_head third), third]
  have whole : ((register u >>= fun rx => comma u >>= fun _ => register u >>= fun ry =>
    comma u >>= fun _ =>
      offset u >>= lastOffset u rx ry) (tx ++ ',' ::
      (ty ++ ',' :: (c :: front ++ suffix shfType)))).head? =
        some ((tx, ty, c :: front, some (shfType, "1".toList)), []) := by
    rw [register_comma_bind named (solid_register named' _) (ne_nil_of_head second), second]
  have start : reAddi u = spaces u >>= fun _ => register u >>= fun rx => comma u >>= fun _ =>
    register u >>= fun ry =>
      comma u >>= fun _ => offset u >>= lastOffset u rx ry := rfl
  rw [first, start, spaces_register named, whole]
  rfl

end

/-! ### Numbers -/

theorem int_comma {text : Text} {v : Int} (solid : ∀ c ∈ text, u.isSpace c = false)
    (number : int u text = some v) :
    ',' ∉ text := by
  obtain ⟨⟨numeral, n, written, forms⟩, _⟩ := (int_iff u).mp number
  have absent := written.absent (decimal_mark u (by decide) (by decide)) (by decide : ',' ≠ '_')
  rw [stripped_solid fun c mem => isPadding_solid (solid c mem)] at forms
  rcases forms with ⟨rfl, _⟩ | ⟨rfl, _⟩ | ⟨rfl, _⟩
  · exact absent
  · simp [absent]
  · simp [absent]

theorem int16_comma {text : Text} {v : Nat} (solid : ∀ c ∈ text, u.isSpace c = false)
    (number : int16 u text = some v) :
    ',' ∉ text := by
  have mark : u.hexDigit ',' = none := by
    have none : u.decimal ',' = none := u.decimal_ascii ',' (by decide)
    simp [Unicode.hexDigit, none]
  have absent : ∀ {rest : Text}, natural u.hexDigit 16 rest = some v → ',' ∉ rest :=
    fun number => ((natural_iff (hexDigit_mark u)).mp number).absent mark (by decide)
  unfold int16 at number
  rw [stripped_solid fun c mem => isPadding_solid (solid c mem)] at number
  split at number
  · simp [absent number]
  · simp [absent number]
  · cases number

/-- The text of a number has no comma. -/
theorem signedImmediate_comma {text : Text} {v : Int} (solid : ∀ c ∈ text, u.isSpace c = false)
    (number : signedImmediate u symbols none text = some v) : ',' ∉ text := by
  unfold signedImmediate at number
  dsimp only [labelOffset, Option.bind_none] at number
  split at number
  · obtain ⟨w, number, _⟩ := Option.map_eq_some_iff.mp number
    exact int16_comma solid number
  · exact int_comma solid number

/-- The offset of an `addi` is a text without spaces. -/
theorem reAddi_offset {m : Text × Text × Text × Option (Text × Text)}
    (matched : first (reAddi u) operands = some m) :
    m.2.2.1 ≠ [] ∧ ∀ c ∈ m.2.2.1, u.isSpace c = false := by
  obtain ⟨rest, mem⟩ := first_mem matched
  simp only [reAddi, bind_apply, List.mem_flatMap] at mem
  obtain ⟨_, _, _, _, _, _, _, _, _, _, ⟨text, rest'⟩, offset, _, _, _, _, _, _, same⟩ := mem
  obtain ⟨rfl, _⟩ := Prod.mk.inj (List.mem_singleton.mp same)
  obtain ⟨nonempty, solid⟩ := few1_mem offset
  exact ⟨nonempty, fun c hc => by simpa using solid c hc⟩

/-! ### Shifts -/

theorem parseR_congr {operands' : Text} {unused : List Bool} {tx ty tz : Text}
    {s s' : Option (Text × Text)} (matched : first (reR u) operands = some (tx, ty, tz, s))
    (matched' : first (reR u) operands' = some (tx, ty, tz, s')) :
    parseR u unused operands' = parseR u unused operands := by
  unfold parseR
  rw [matched, matched']

theorem addi_congr {operands' : Text} {tx ty text : Text} {s s' : Option (Text × Text)}
    (matched : first (reAddi u) operands = some (tx, ty, text, s))
    (matched' : first (reAddi u) operands' = some (tx, ty, text, s')) :
    addi.parseOperands u symbols operands' = addi.parseOperands u symbols operands := by
  unfold addi.parseOperands
  rw [matched, matched']

/-- There is always another type. -/
theorem other_type (shfType : Text) : ∃ t : Text, (t = "lsl".toList ∨ t = "lsr".toList) ∧
    t ≠ shfType := by
  by_cases same : shfType = "lsl".toList
  · exact ⟨"lsr".toList, Or.inr rfl, by rw [same]; decide⟩
  · exact ⟨"lsl".toList, Or.inl rfl, fun e => same e.symm⟩

theorem shift_lost_r {unused : List Bool} (ok : parseR u unused operands = .ok bits)
    (shfType : Text) :
    ∃ operands' m s', (∀ unused, parseR u unused operands' = parseR u unused operands) ∧
      first (reR u) operands' = some m ∧ m.2.2.2 = some s' ∧ s'.1 ≠ shfType := by
  obtain ⟨⟨tx, ty, tz, s₀⟩, rx, ry, rz, matched, named, named', named'', _⟩ := parseR_ok ok
  obtain ⟨t, known, ne⟩ := other_type shfType
  have matched' := reR_suffix (u := u) named named' known named''
  exact ⟨_, _, (t, "1".toList), fun unused => parseR_congr matched matched', matched', rfl, ne⟩

theorem shift_lost_addi (ok : addi.parseOperands u symbols operands = .ok bits) (shfType : Text) :
    ∃ operands' m s', addi.parseOperands u symbols operands' =
      addi.parseOperands u symbols operands ∧
      first (reAddi u) operands' = some m ∧ m.2.2.2 = some s' ∧ s'.1 ≠ shfType := by
  obtain ⟨⟨tx, ty, text, s₀⟩, rx, ry, v, matched, named, named', number, _⟩ := addi_ok ok
  obtain ⟨t, known, ne⟩ := other_type shfType
  obtain ⟨nonempty, solid⟩ := reAddi_offset matched
  have comma : ',' ∉ text := signedImmediate_comma solid number
  have matched' := reAddi_suffix (u := u) named named' known nonempty
    fun c mem => ⟨solid c mem, fun same => comma (same ▸ mem)⟩
  exact ⟨_, _, (t, "1".toList), addi_congr matched matched', matched', rfl, ne⟩

/-- The same registers and the same offset, with another type of shift, make the same word. -/
theorem shift_lost {g : Groups} {s : Text × Text}
    (created : cls.create u symbols operands pc op = .ok [instr])
    (captured : groups u operands cls = some g)
    (shifted : g.shifted = some s) :
    ∃ operands' g' s', cls.create u symbols operands' pc op = .ok [instr] ∧
      groups u operands' cls = some g' ∧ g'.shifted = some s' ∧ s'.1 ≠ s.1 := by
  obtain ⟨bits, ok, made⟩ := bind_ok created
  unfold groups at captured ⊢
  unfold InstrClass.create InstrClass.parseOperands at created ⊢
  unfold InstrClass.parseOperands at ok
  cases cls with
  | add | nand =>
    obtain ⟨operands', m', s', same, matched', shifted', ne⟩ := shift_lost_r ok s.1
    refine ⟨operands', _, s', ?_, by rw [matched']; rfl, shifted', ne⟩
    dsimp only [RInstruction.parseOperands] at created ⊢
    rw [same]
    exact created
  | minmax =>
    have parsed : ∃ unused, parseR u unused operands = .ok bits := by
      dsimp only at ok
      unfold minmax.parseOperands at ok
      split at ok
      · exact ⟨_, ok⟩
      · split at ok
        · exact ⟨_, ok⟩
        · cases ok
    obtain ⟨unused, parsed⟩ := parsed
    obtain ⟨operands', m', s', same, matched', shifted', ne⟩ := shift_lost_r parsed s.1
    refine ⟨operands', _, s', ?_, by rw [matched']; rfl, shifted', ne⟩
    dsimp only [minmax.parseOperands] at created ⊢
    rw [same, same]
    exact created
  | addi =>
    obtain ⟨operands', m', s', same, matched', shifted', ne⟩ := shift_lost_addi ok s.1
    refine ⟨operands', _, s', ?_, by rw [matched']; rfl, shifted', ne⟩
    dsimp only at created ⊢
    rw [same]
    exact created
  | lw | sw | beq | blt | lea | jalr | inc | halt | noop =>
    obtain ⟨m, _, rfl⟩ := Option.map_eq_some_iff.mp captured
    cases shifted
  | fill =>
    cases captured
    cases shifted

/-! ## Nothing else is lost -/

theorem Groups.Reads.read {pc : Option Nat} {g : Groups} {word : List Bool}
    (reads : g.Reads u symbols pc word) (found : g.part u symbols pc part = some v)
    (shift : part ≠ .shfType ∧ part ≠ .shfDist) :
    readPart word part = some v := by
  have named : ∀ {operand : Option Text} {r : Fin 16},
    (∀ name ∈ operand, registers.lookup name = some r) →
      registerPart operand = some v → some (.number r.val) = some v := by
    intro operand r all found
    obtain ⟨name, here, found⟩ := Option.bind_eq_some_iff.mp found
    rw [all name here] at found
    exact found
  have counted : ∀ {text : Option Text} {f : Text → Option Int} {n : Int},
    (∀ t ∈ text, f t = some n) →
      (text.bind f).map .number = some v → some (.number n) = some v := by
    intro text f n all found
    obtain ⟨m, number, same⟩ := Option.map_eq_some_iff.mp found
    obtain ⟨t, here, number⟩ := Option.bind_eq_some_iff.mp number
    rw [all t here] at number
    rw [Option.some.inj number, same]
  cases part with
  | rx => exact named reads.rx found
  | ry => exact named reads.ry found
  | rz => exact named reads.rz found
  | offset => exact counted reads.offset found
  | value => exact counted reads.value found
  | shfType => exact absurd rfl shift.1
  | shfDist => exact absurd rfl shift.2

theorem writtenShift_groups {g : Groups} (named : lookupClass op = some cls)
    (captured : groups u operands cls = some g) :
    writtenShift u op operands = g.shifted := by
  unfold writtenShift
  rw [named]
  unfold groups at captured
  cases cls with
  | add | nand | minmax | addi =>
    obtain ⟨m, matched, rfl⟩ := Option.map_eq_some_iff.mp captured
    dsimp only
    rw [matched]
    rfl
  | lw | sw | beq | blt | lea | jalr | inc | halt | noop =>
    obtain ⟨m, _, rfl⟩ := Option.map_eq_some_iff.mp captured
    rfl
  | fill =>
    cases captured
    rfl

section

variable {out : List (List Bool)} {line : Text}

/-- For a line that has been assembled. -/
theorem kept_iff (made : ∀ op operands, (lineParts u line).2 = some (op, operands) → ∃ cls instr,
      lookupClass op = some cls ∧ cls.create u symbols operands pc op = .ok [instr] ∧
        out[pc]? = some instr.binary) :
    Kept u symbols out pc line ↔ Clean u line := by
  constructor
  · intro kept
    refine ⟨(accounted_iff _).mp kept.text, ?_, ?_⟩
    · intro op operands parts
      obtain ⟨cls, g, word, named, captured, here, _, recover⟩ := kept.operands op operands parts
      obtain ⟨cls', instr, named', created, here'⟩ := made op operands parts
      obtain rfl := Option.some.inj (named.symm.trans named')
      obtain rfl := Option.some.inj (here'.symm.trans here)
      rw [writtenShift_groups named captured]
      by_contra shifted
      obtain ⟨s, shifted⟩ := Option.ne_none_iff_exists'.mp shifted
      obtain ⟨operands', g', s', created', captured', shifted', ne⟩ :=
        shift_lost created captured shifted
      have typed : g.part u symbols (labelPc cls pc) .shfType = some (.word s.1) := by
        rw [Groups.part, shifted]
        rfl
      have typed' : g'.part u symbols (labelPc cls pc) .shfType = some (.word s'.1) := by
        rw [Groups.part, shifted']
        rfl
      have same := recover _ _ typed op operands' cls instr g' _ named created' rfl captured' typed'
      exact ne (PartValue.word.inj same)
    · intro op operands parts noop
      obtain ⟨cls, g, word, named, captured, _⟩ := kept.operands op operands parts
      obtain rfl := Option.some.inj (noop.symm.trans named)
      obtain ⟨m, matched, _⟩ := Option.map_eq_some_iff.mp captured
      exact (reNoOperands_iff operands).mp (by rw [matched]; rfl)
  · intro clean
    refine ⟨(accounted_iff _).mpr clean.behind, ?_⟩
    intro op operands parts
    obtain ⟨cls, instr, named, created, here⟩ := made op operands parts
    have captured : ∃ g, groups u operands cls = some g := by
      by_cases noop : cls = .noop
      · subst noop
        have bare := (reNoOperands_iff operands).mpr (clean.bare op operands parts named)
        obtain ⟨m, matched⟩ := Option.isSome_iff_exists.mp bare
        exact ⟨_, by rw [groups, matched]; rfl⟩
      · exact create_groups noop created
    obtain ⟨g, captured⟩ := captured
    refine ⟨cls, g, instr.binary, named, captured, here, create_length created, ?_⟩
    intro part v found op' operands' cls' instr' g' w named' created' same captured' found'
    have unshifted : g.shifted = none :=
      (writtenShift_groups named captured).symm.trans (clean.unshifted op operands parts)
    have shift : part ≠ .shfType ∧ part ≠ .shfDist := by
      constructor
      · rintro rfl
        rw [Groups.part, unshifted] at found
        cases found
      · rintro rfl
        rw [Groups.part, unshifted] at found
        cases found
    have read := (create_reads named created captured).read found shift
    have read' := (create_reads named' created' captured').read found' shift
    rw [same] at read'
    exact Option.some.inj (read'.symm.trans read)

end

/-- On a source that both passes accept no text is dropped if and only if every line is clean:
otherwise the assembler takes no notice of a text without an opcode, of a shift or of the
operands of a `noop`. -/
theorem nothing_dropped {file : List Text} {p : Pass2} (assembles : Assembles u file p) :
    ∃ out, outputGenerator p.results = some out ∧
      ((∀ before line after, file = before ++ line :: after → isBlank u line = false →
          Kept u (pass1 u file .start).symbolTable out (instructions u before).length line) ↔
        ∀ line ∈ file, isBlank u line = false → Clean u line) := by
  obtain ⟨instrs, made, output⟩ := assembles.output
  have each : ∀ before line after, file = before ++ line :: after → isBlank u line = false →
      (Kept u (pass1 u file .start).symbolTable (instrs.map Instruction.binary)
      (instructions u before).length line ↔
        Clean u line) := by
    intro before line after split filled
    refine kept_iff fun op operands parts => ?_
    have here : (instructions u file)[(instructions u before).length]? = some (op, operands) := by
      rw [split, instructions_append, instructions_cons u filled,
        List.getElem?_append_right (Nat.le_refl _), parts, Nat.sub_self]
      rfl
    obtain ⟨cls, instr, named, created, found⟩ := made.at here
    rw [Nat.zero_add] at created
    exact ⟨cls, instr, named, created, by rw [List.getElem?_map, found]; rfl⟩
  refine ⟨_, output, ?_⟩
  constructor
  · intro kept line mem filled
    obtain ⟨before, after, split⟩ := List.append_of_mem mem
    exact (each before line after split filled).mp (kept before line after split filled)
  · intro clean before line after split filled
    have mem : line ∈ file := by
      rw [split]
      exact List.mem_append_right before List.mem_cons_self
    exact (each before line after split filled).mpr (clean line mem filled)

end

/-- The mnemonic has been left out. -/
def strayOperands : List Text := ["$t0, $t1, $t2".toList]

theorem stray_assembles : ∃ p, Assembles ascii strayOperands p := by
  have success : (pass2 ascii (pass1 ascii strayOperands .start).symbolTable strayOperands
    .start).map
      Pass2.success = some true := rfl
  obtain ⟨p, second, success⟩ := Option.map_eq_some_iff.mp success
  exact ⟨p, rfl, second, success⟩

/-- Both passes accept the line, and make nothing of it. -/
theorem stray_operands_dropped : ¬ ∀ (u : Unicode) (file : List Text) (p : Pass2),
    Assembles u file p →
    ∃ out, outputGenerator p.results = some out ∧
      ∀ before line after, file = before ++ line :: after → isBlank u line = false →
        Kept u (pass1 u file .start).symbolTable out (instructions u before).length line := by
  intro claim
  obtain ⟨p, assembles⟩ := stray_assembles
  obtain ⟨out, _, kept⟩ := claim ascii strayOperands p assembles
  have accounted := (kept [] "$t0, $t1, $t2".toList [] rfl rfl).text
  have continues := (accounted_iff _).mp accounted
  have rest : (splitLabel ascii (ascii.lower (ascii.strip "$t0, $t1, $t2".toList))).2 =
    "$t0, $t1, $t2".toList := rfl
  unfold Continues at continues
  rw [rest] at continues
  rcases continues with none | comment | begins
  · cases none
  · exact absurd comment (by decide)
  · exact absurd begins (by decide)

theorem loop_clean : ∀ line ∈ loopSource, Clean ascii line := by
  have lines : ∀ line ∈ loopSource, ∃ op operands, beginsOpcode ascii
    (splitLabel ascii (ascii.lower (ascii.strip line))).2 ∧
      (lineParts ascii line).2 = some (op, operands) ∧ writtenShift ascii op operands = none ∧
      lookupClass op ≠ some .noop := by
    intro line mem
    simp only [loopSource, List.mem_cons, List.not_mem_nil, or_false] at mem
    rcases mem with rfl | rfl | rfl
    · exact ⟨"lea".toList, " $sp, end".toList, rfl, rfl, rfl, by decide⟩
    · exact ⟨"beq".toList, " $zero, $zero, main ".toList, rfl, rfl, rfl, by decide⟩
    · exact ⟨"halt".toList, [], rfl, rfl, rfl, by decide⟩
  intro line mem
  obtain ⟨op, operands, begins, parts, unshifted, other⟩ := lines line mem
  refine ⟨Or.inr (Or.inr begins), ?_, ?_⟩
  · intro op' operands' parts'
    cases parts.symm.trans parts'
    exact unshifted
  · intro op' operands' parts' noop
    cases parts.symm.trans parts'
    exact absurd noop other

/-- Nothing of the loop is dropped. -/
theorem nothing_dropped_loop : ∃ p out, Assembles ascii loopSource p ∧
    outputGenerator p.results = some out ∧
    ∀ before line after, loopSource = before ++ line :: after → isBlank ascii line = false →
      Kept ascii (pass1 ascii loopSource .start).symbolTable out
        (instructions ascii before).length line := by
  have success : (pass2 ascii (pass1 ascii loopSource .start).symbolTable loopSource .start).map
      Pass2.success = some true := rfl
  obtain ⟨p, second, success⟩ := Option.map_eq_some_iff.mp success
  have assembles : Assembles ascii loopSource p := ⟨rfl, second, success⟩
  obtain ⟨out, output, clean⟩ := nothing_dropped assembles
  exact ⟨p, out, assembles, output, clean.mpr fun line mem _ => loop_clean line mem⟩

end SystemsProjects.Lc
