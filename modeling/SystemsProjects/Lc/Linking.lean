import SystemsProjects.Lc.Lines
import SystemsProjects.Lib.Loops
import SystemsProjects.Lib.Tables

/-!
# Labels and addresses

Both passes count one address for each line with an instruction. So a label stands for the
index of a word in the output, and the simulator comes there from each reference.
-/

namespace SystemsProjects.Lc

open Digits Regex Pattern Tables

section

variable (u : Unicode)

/-- Opcodes and operands, in the order of the source. -/
def instructions (file : List Text) : List (Text × Text) :=
  (file.filter fun line => !isBlank u line).filterMap fun line => (lineParts u line).2

/-- Each label with the count of the instructions before it. -/
def labels : List Text → Nat → SymbolTable
  | [], _ => []
  | line :: file, pc =>
    if isBlank u line then labels file pc
    else ((lineParts u line).1.map fun label => (label, pc)).toList ++
      labels file (pc + (lineParts u line).2.toList.length)

theorem instructions_blank {line : Text} (blank : isBlank u line = true) (file : List Text) :
    instructions u (line :: file) = instructions u file := by
  simp [instructions, blank]

theorem instructions_cons {line : Text} (filled : isBlank u line = false) (file : List Text) :
    instructions u (line :: file) = (lineParts u line).2.toList ++ instructions u file := by
  cases op : (lineParts u line).2 <;> simp [instructions, filled, op]

theorem instructions_append (before after : List Text) :
    instructions u (before ++ after) = instructions u before ++ instructions u after := by
  simp [instructions]

end

section

variable {u : Unicode} {file : List Text} {line label : Text} {pc address : Nat}

/-- An element of a list, with what stands before it: it is the head, or in the tail. -/
theorem split_cons {α : Type} {a : α} {l : List α} {P : List α → α → Prop} :
    (∃ before x after, a :: l = before ++ x :: after ∧ P before x) ↔
      P [] a ∨ ∃ before x after, l = before ++ x :: after ∧ P (a :: before) x := by
  constructor
  · rintro ⟨before, x, after, split, holds⟩
    cases before with
    | nil =>
      cases split
      exact .inl holds
    | cons b before =>
      cases split
      exact .inr ⟨before, x, after, rfl, holds⟩
  · rintro (holds | ⟨before, x, after, rfl, holds⟩)
    · exact ⟨[], a, l, rfl, holds⟩
    · exact ⟨a :: before, x, after, rfl, holds⟩

/-- A label comes with the count of the instructions before its line. -/
theorem mem_labels : (label, address) ∈ labels u file pc ↔
    ∃ before line after, file = before ++ line :: after ∧ isBlank u line = false ∧
      (lineParts u line).1 = some label ∧ address = pc + (instructions u before).length := by
  induction file generalizing pc with
  | nil => simp [labels]
  | cons first file ih =>
    rw [split_cons]
    by_cases blank : isBlank u first = true
    · rw [labels, if_pos blank, ih]
      simp [blank, instructions_blank]
    · have filled : isBlank u first = false := by simpa using blank
      have counted : ∀ before, pc + (instructions u (first :: before)).length =
          pc + (lineParts u first).2.toList.length + (instructions u before).length := by
        intro before
        rw [instructions_cons u filled, List.length_append, Nat.add_assoc]
      have here : (label, address) ∈ ((lineParts u first).1.map fun label => (label, pc)).toList ↔
          (lineParts u first).1 = some label ∧ address = pc := by
        cases (lineParts u first).1 <;> simp [eq_comm]
      rw [labels, if_neg blank, List.mem_append, here, ih]
      simp only [filled, counted, true_and]
      rfl

end

/-! ## The first pass -/

section

variable {u : Unicode} {p : Pass1} {line : Text}

theorem define_ok {label : Option Text} (ok : (p.define label).noErrors = true) :
    p.noErrors = true ∧ (p.define label).pc = p.pc ∧
      (p.define label).symbolTable = p.symbolTable ++ (label.map fun l => (l, p.pc)).toList ∧
      ∀ l ∈ label, l ∉ p.symbolTable.map Prod.fst := by
  unfold Pass1.define at ok ⊢
  cases label with
  | none => simpa using ok
  | some label =>
    dsimp only at ok ⊢
    split at ok
    · cases ok
    · rename_i fresh
      rw [if_neg fresh]
      refine ⟨ok, rfl, rfl, ?_⟩
      rintro l ⟨⟩
      simpa using fresh

theorem count_ok {parts : Option (Text × Text)} (ok : (p.count parts).noErrors = true) :
    p.noErrors = true ∧ (p.count parts).pc = p.pc + parts.toList.length ∧
      (p.count parts).symbolTable = p.symbolTable := by
  unfold Pass1.count at ok ⊢
  cases parts with
  | none => exact ⟨ok, rfl, rfl⟩
  | some parts =>
    dsimp only at ok ⊢
    split at ok
    · cases ok
    · exact ⟨ok, rfl, rfl⟩

theorem line_ok (ok : (p.line u line).noErrors = true) :
    p.noErrors = true ∧ (p.line u line).pc = p.pc + (lineParts u line).2.toList.length ∧
      (p.line u line).symbolTable =
        p.symbolTable ++ ((lineParts u line).1.map fun l => (l, p.pc)).toList ∧
      ∀ l ∈ (lineParts u line).1, l ∉ p.symbolTable.map Prod.fst := by
  obtain ⟨defined, pc, table⟩ := count_ok ok
  obtain ⟨before, pc', table', fresh⟩ := define_ok defined
  exact ⟨before, pc.trans (by rw [pc']), table.trans table', fresh⟩

theorem pass1_noErrors {file : List Text} (ok : (pass1 u file p).noErrors = true) :
    p.noErrors = true := by
  induction file generalizing p with
  | nil => exact ok
  | cons first file ih =>
    unfold pass1 at ok
    split at ok
    · exact ih ok
    · split at ok
      · exact ok
      · exact (line_ok (ih ok)).1

/-- A pass without errors numbers the labels and finds no label twice. -/
theorem pass1_ok {file : List Text} (small : p.pc + (instructions u file).length < 2 ^ 32)
    (once : (p.symbolTable.map Prod.fst).Nodup) (ok : (pass1 u file p).noErrors = true) :
    (pass1 u file p).symbolTable = p.symbolTable ++ labels u file p.pc ∧
      ((pass1 u file p).symbolTable.map Prod.fst).Nodup := by
  induction file generalizing p with
  | nil => exact ⟨by simp [pass1, labels], once⟩
  | cons first file ih =>
    by_cases blank : isBlank u first = true
    · rw [instructions_blank u blank] at small
      rw [pass1, if_pos blank] at ok ⊢
      rw [labels, if_pos blank]
      exact ih small once ok
    · rw [instructions_cons u (by simpa using blank), List.length_append] at small
      rw [pass1, if_neg blank, if_neg (by omega)] at ok ⊢
      rw [labels, if_neg blank]
      obtain ⟨-, pc, table, fresh⟩ := line_ok (pass1_noErrors ok)
      have once' : ((p.line u first).symbolTable.map Prod.fst).Nodup := by
        rw [table, List.map_append, List.nodup_append]
        refine ⟨once, by cases (lineParts u first).1 <;> simp, ?_⟩
        intro l mem l' mem'
        cases own : (lineParts u first).1 with
        | none => simp [own] at mem'
        | some label =>
          obtain rfl : l' = label := by simpa [own] using mem'
          rintro rfl
          exact fresh l own mem
      obtain ⟨table', once''⟩ := ih (by omega) once' ok
      refine ⟨?_, once''⟩
      rw [table', table, pc, List.append_assoc]

/-- Without errors the symbol table has the labels of the source, each at the index of the
first instruction that follows it. -/
theorem pass1_labels {file : List Text} {label : Text} {address : Nat}
    (small : (instructions u file).length < 2 ^ 32) (ok : (pass1 u file .start).noErrors = true) :
    (pass1 u file .start).symbolTable.lookup label = some address ↔
      ∃ before line after, file = before ++ line :: after ∧ isBlank u line = false ∧
        (lineParts u line).1 = some label ∧ address = (instructions u before).length := by
  have start : Pass1.start.pc + (instructions u file).length < 2 ^ 32 := by
    simpa [Pass1.start] using small
  obtain ⟨table, once⟩ := pass1_ok start List.nodup_nil ok
  have all : (pass1 u file .start).symbolTable = labels u file 0 := table
  have found : (label, address) ∈ labels u file 0 ↔ _ := mem_labels
  rw [← all] at found
  simp only [Nat.zero_add] at found
  rw [← found]
  exact lookup_iff_mem once

end

/-! ## The second pass -/

/-- Each instruction is made from its own opcode and operands, at its own address. -/
inductive Assembled (u : Unicode) (symbols : SymbolTable) :
    Nat → List (Text × Text) → List Instruction → Prop
  | nil {pc} : Assembled u symbols pc [] []
  | cons {pc op operands parts cls instr instrs} (named : lookupClass op = some cls)
      (created : cls.create u symbols operands pc op = .ok [instr])
      (rest : Assembled u symbols (pc + 1) parts instrs) :
      Assembled u symbols pc ((op, operands) :: parts) (instr :: instrs)

section

variable {u : Unicode} {symbols : SymbolTable} {p q : Pass2} {line : Text} {pc : Nat}
  {parts : List (Text × Text)} {instrs : List Instruction}

theorem Assembled.length (made : Assembled u symbols pc parts instrs) :
    instrs.length = parts.length := by
  induction made with
  | nil => rfl
  | cons _ _ _ ih => rw [List.length_cons, List.length_cons, ih]

theorem Assembled.at {k : Nat} {op operands : Text} (made : Assembled u symbols pc parts instrs)
    (here : parts[k]? = some (op, operands)) :
    ∃ cls instr, lookupClass op = some cls ∧ cls.create u symbols operands (pc + k) op =
      .ok [instr] ∧
      instrs[k]? = some instr := by
  induction made generalizing k with
  | nil => cases here
  | @cons pc _ _ _ _ _ _ named created _ ih =>
    cases k with
    | zero =>
      cases here
      exact ⟨_, _, named, created, rfl⟩
    | succ k =>
      have regroup : pc + (k + 1) = pc + 1 + k := by omega
      rw [regroup]
      exact ih here

theorem create_one {cls : InstrClass} {operands op : Text} {assembled : List Instruction}
    (created : cls.create u symbols operands pc op = .ok assembled) :
    ∃ instr, assembled = [instr] := by
  obtain ⟨bits, -, made⟩ := bind_ok created
  cases made
  exact ⟨_, rfl⟩

theorem Assembled.append {parts' : List (Text × Text)} {instrs' : List Instruction}
    (made : Assembled u symbols pc parts instrs)
    (made' : Assembled u symbols (pc + instrs.length) parts' instrs') :
    Assembled u symbols pc (parts ++ parts') (instrs ++ instrs') := by
  induction made with
  | nil => exact made'
  | cons named created rest ih =>
    apply Assembled.cons named created
    apply ih
    rw [List.length_cons, Nat.add_comm _ 1, ← Nat.add_assoc] at made'
    exact made'

/-- The results are numbered from 0, and `pc` is the next address. -/
structure Filled (p : Pass2) (done : List Instruction) : Prop where
  results : p.results = numbered 0 done
  pc : p.pc = done.length

/-- One line adds at most one instruction, at the next address. -/
theorem Filled.assemble {op : Option (Text × Text)} {done : List Instruction}
    (filled : Filled p done) (made : p.assemble u symbols op = some q) :
    ∃ instrs, Filled q (done ++ instrs) ∧
      (q.success = true → p.success = true ∧ Assembled u symbols done.length op.toList instrs) := by
  unfold Pass2.assemble at made
  cases op with
  | none =>
    cases made
    exact ⟨[], by rwa [List.append_nil], fun ok => ⟨ok, .nil⟩⟩
  | some parts =>
    obtain ⟨cls, named, made⟩ := Option.map_eq_some_iff.mp made
    cases created : cls.create u symbols parts.2 p.pc parts.1 with
    | error e =>
      rw [created] at made
      subst made
      exact ⟨[], by rw [List.append_nil]; exact ⟨filled.results, filled.pc⟩, fun ok => by cases ok⟩
    | ok assembled =>
      obtain ⟨instr, rfl⟩ := create_one created
      rw [created] at made
      subst made
      have next : p.results.lookup p.pc = none := by
        have outside := lookup_numbered 0 p.pc done
        rwa [Nat.zero_add, ← filled.results, List.getElem?_eq_none filled.pc.ge] at outside
      have placed : p.place p.pc [instr] = { p with results := p.results ++ [(p.pc, instr)] } := by
        simp [Pass2.place, next]
      dsimp only
      rw [placed]
      rw [filled.pc] at created
      refine ⟨[instr], ⟨?_, ?_⟩, fun ok => ⟨ok, .cons named created .nil⟩⟩
      · rw [numbered_append, Nat.zero_add, ← filled.results, filled.pc]
        rfl
      · rw [List.length_append, ← filled.pc]
        rfl

theorem Filled.pass2 {file : List Text} {done : List Instruction} (filled : Filled p done)
    (run : pass2 u symbols file p = some q) :
    ∃ instrs, Filled q (done ++ instrs) ∧
      (q.success = true →
        p.success = true ∧ Assembled u symbols done.length (instructions u file) instrs) := by
  induction file generalizing p done with
  | nil =>
    cases run
    exact ⟨[], by rwa [List.append_nil], fun ok => ⟨ok, .nil⟩⟩
  | cons first file ih =>
    unfold Lc.pass2 at run
    by_cases blank : isBlank u first = true
    · rw [if_pos blank] at run
      rw [instructions_blank u blank]
      exact ih filled run
    · rw [if_neg blank] at run
      rw [instructions_cons u (by simpa using blank)]
      obtain ⟨p', line, run⟩ := Option.bind_eq_some_iff.mp run
      obtain ⟨p'', assembled, rfl⟩ := Option.map_eq_some_iff.mp line
      obtain ⟨instrs, filled', made⟩ := filled.assemble assembled
      have counted : Filled { p'' with lineCount := p''.lineCount + 1 } (done ++ instrs) :=
        ⟨filled'.results, filled'.pc⟩
      obtain ⟨instrs', filled'', made'⟩ := ih counted run
      refine ⟨instrs ++ instrs', by rwa [← List.append_assoc], fun ok => ?_⟩
      obtain ⟨ok', rest⟩ := made' ok
      obtain ⟨ok'', here⟩ := made ok'
      rw [List.length_append] at rest
      exact ⟨ok'', here.append rest⟩

end

/-! ## The output -/

theorem outputFrom_numbered {instrs rest : List Instruction} {pc : Nat}
    (split : instrs.drop pc = rest) :
    outputFrom (numbered 0 instrs) rest.length pc = some (rest.map Instruction.binary) := by
  induction rest generalizing pc with
  | nil => rfl
  | cons instr rest ih =>
    obtain ⟨here, tail⟩ := Loops.drop_cons split
    have found := lookup_numbered 0 pc instrs
    rw [Nat.zero_add, here] at found
    rw [List.length_cons, outputFrom, found]
    dsimp only
    rw [ih tail]
    rfl

theorem outputGenerator_numbered (instrs : List Instruction) :
    outputGenerator (numbered 0 instrs) = some (instrs.map Instruction.binary) := by
  rw [outputGenerator, length_numbered]
  exact outputFrom_numbered rfl

theorem create_length {u : Unicode} {symbols : SymbolTable} {cls : InstrClass} {op operands : Text}
    {pc : Nat} {instr : Instruction} (created : cls.create u symbols operands pc op = .ok [instr]) :
    instr.binary.length = 32 := by
  obtain ⟨bits, ok, made⟩ := bind_ok created
  cases made
  unfold InstrClass.parseOperands at ok
  cases cls with
  | add | nand | noop =>
    obtain ⟨m, rx, ry, rz, -, -, -, -, rfl⟩ := parseR_ok ok
    rfl
  | minmax =>
    dsimp only at ok
    unfold minmax.parseOperands at ok
    split at ok
    · obtain ⟨m, rx, ry, rz, -, -, -, -, rfl⟩ := parseR_ok ok
      rfl
    · split at ok
      · obtain ⟨m, rx, ry, rz, -, -, -, -, rfl⟩ := parseR_ok ok
        rfl
      · cases ok
  | addi =>
    obtain ⟨m, rx, ry, v, -, -, -, -, -, rfl⟩ := addi_ok ok
    rfl
  | lw | sw =>
    obtain ⟨rx, ry, v, -, -, rfl⟩ := memOperands_ok .lw ok
    rfl
  | beq | blt =>
    obtain ⟨rx, ry, v, -, -, rfl⟩ := branchOperands_ok .beq ok
    rfl
  | lea =>
    obtain ⟨m, rx, v, -, -, -, -, rfl⟩ := lea_ok ok
    rfl
  | jalr =>
    obtain ⟨m, target, ra, -, -, -, rfl⟩ := jalr_ok ok
    rfl
  | inc =>
    obtain ⟨m, dr, -, -, rfl⟩ := inc_ok ok
    rfl
  | halt =>
    obtain rfl := none_ok ok
    rfl
  | fill => exact parseValue_length (by omega) ok

/-! ## References -/

/-- The label in the operands of a branch or a `lea`. -/
def operandLabel (u : Unicode) (op operands : Text) : Option Text :=
  match lookupClass op with
  | some .beq | some .blt => (first (reBranch u) operands).map fun m => m.2.2
  | some .lea => (first (reLea u) operands).map fun m => m.2
  | _ => none

/-- The taken branch goes to the address, and the `lea` puts it in its register. -/
def Reaches (s : Machine) (address : Nat) : Instr → Prop
  | .beq sr1 sr2 _ => s.REGS sr1 = s.REGS sr2 → ∃ s', s.stepInstruction = .ok s' ∧ s'.PC = address
  | .blt sr1 sr2 _ =>
    signed (s.REGS sr1) < signed (s.REGS sr2) → ∃ s', s.stepInstruction = .ok s' ∧ s'.PC = address
  | .lea dr _ => dr ≠ 0 → ∃ s', s.stepInstruction = .ok s' ∧ s'.REGS dr = address
  | _ => False

/-- A branch or a `lea` with that offset. -/
def Refers (distance : Int) : Instr → Prop
  | .beq _ _ offset | .blt _ _ offset | .lea _ offset => offset = distance
  | _ => False

section

variable {u : Unicode} {symbols : SymbolTable} {op operands label : Text} {pc address : Nat}

theorem branchOperands_refers {make : Fin 16 → Fin 16 → Int → Instr} {i : Instr}
    (reads : branchOperands u symbols pc operands make = some i)
    (refers : (first (reBranch u) operands).map (fun m => m.2.2) = some label)
    (found : symbols.lookup label = some address) :
    ∃ rx ry, i = make rx ry ((address : Int) - pc - 1) := by
  obtain ⟨⟨tx, ty, offset⟩, matched, rfl⟩ := Option.map_eq_some_iff.mp refers
  have distance : signedImmediate u symbols (some pc) offset = some ((address : Int) - pc - 1) := by
    simp only at found
    simp [signedImmediate, labelOffset, found]
  unfold branchOperands at reads
  rw [matched] at reads
  dsimp only at reads
  rw [distance] at reads
  simp only [Option.bind_eq_bind, Option.bind_eq_some_iff] at reads
  obtain ⟨rx, -, ry, -, v, same, made⟩ := reads
  cases same
  cases made
  exact ⟨rx, ry, rfl⟩

theorem written_refers {i : Instr} (reads : written u symbols pc op operands = some i)
    (refers : operandLabel u op operands = some label)
    (found : symbols.lookup label = some address) :
    Refers ((address : Int) - pc - 1) i := by
  unfold operandLabel at refers
  unfold written at reads
  split at refers
  · rename_i named
    rw [named] at reads
    obtain ⟨rx, ry, rfl⟩ := branchOperands_refers reads refers found
    rfl
  · rename_i named
    rw [named] at reads
    obtain ⟨rx, ry, rfl⟩ := branchOperands_refers reads refers found
    rfl
  · rename_i named
    rw [named] at reads
    obtain ⟨⟨tx, offset⟩, matched, rfl⟩ := Option.map_eq_some_iff.mp refers
    have distance : signedImmediate u symbols (some pc) offset =
        some ((address : Int) - pc - 1) := by
      simp only at found
      simp [signedImmediate, labelOffset, found]
    dsimp only at reads
    rw [matched] at reads
    dsimp only at reads
    rw [distance] at reads
    simp only [Option.bind_eq_bind, Option.bind_eq_some_iff] at reads
    obtain ⟨rx, -, v, same, made⟩ := reads
    cases same
    cases made
    rfl
  · cases refers

theorem operandLabel_plain {cls : InstrClass} (refers : operandLabel u op operands = some label)
    (named : lookupClass op = some cls) : writtenShift u op operands = none ∧ cls ≠ .fill := by
  unfold operandLabel at refers
  unfold writtenShift
  rw [named] at refers ⊢
  cases cls <;> simp at refers ⊢

theorem reaches {i : Instr} {s : Machine} (refers : Refers ((address : Int) - s.PC - 1) i)
    (range : i.InRange) (PC : s.PC < 2 ^ 32 - 1) (small : address < 2 ^ 32)
    (fetch : s.accessMem s.PC = uint i.encode) : Reaches s address i := by
  cases i with
  | beq sr1 sr2 offset =>
    obtain rfl : offset = _ := refers
    intro taken
    refine ⟨_, (Instr.step_encode PC range fetch).mpr trivial, ?_⟩
    simp [Instr.effect, Instr.act, taken, wrap_of_lt small]
  | blt sr1 sr2 offset =>
    obtain rfl : offset = _ := refers
    intro taken
    refine ⟨_, (Instr.step_encode PC range fetch).mpr trivial, ?_⟩
    simp [Instr.effect, Instr.act, taken, wrap_of_lt small]
  | lea dr offset =>
    obtain rfl : offset = _ := refers
    intro nonzero
    refine ⟨_, (Instr.step_encode PC range fetch).mpr trivial, ?_⟩
    simp [Instr.effect, Instr.act, Machine.setReg_REGS, nonzero, wrap_of_lt small]
  | _ => exact refers.elim

end

/-- A source on which both passes report success. -/
structure Assembles (u : Unicode) (file : List Text) (p : Pass2) : Prop where
  first : (pass1 u file .start).noErrors = true
  second : pass2 u (pass1 u file .start).symbolTable file .start = some p
  success : p.success = true

section

variable {u : Unicode} {file : List Text} {p : Pass2}

theorem Assembles.output (assembles : Assembles u file p) :
    ∃ instrs, Assembled u (pass1 u file .start).symbolTable 0 (instructions u file) instrs ∧
      outputGenerator p.results = some (instrs.map Instruction.binary) := by
  have start : Filled .start [] := ⟨rfl, rfl⟩
  obtain ⟨instrs, filled, made⟩ := start.pass2 assembles.second
  have output := outputGenerator_numbered instrs
  rw [List.nil_append] at filled
  rw [← filled.results] at output
  exact ⟨instrs, (made assembles.success).2, output⟩

/-- Where the output is loaded, an address of the program reads its word. -/
theorem accessMem_loaded {instrs : List Instruction} {s : Machine} {k : Nat} {instr : Instruction}
    (loaded : s.MEM = (loadProgram (instrs.map Instruction.binary)).MEM)
    (here : instrs[k]? = some instr) (small : k < 2 ^ 24) : s.accessMem k = uint instr.binary := by
  rw [Machine.accessMem, if_neg (by omega), loaded]
  simp [loadProgram, here]

/-- The output has one word of 32 digits for each instruction of the source, in its order; a
label stands for the index of the first word that comes from its line or a later one; and
the simulator comes to that index from each branch or `lea` to the label. -/
theorem labels_link (assembles : Assembles u file p)
    (small : (instructions u file).length < 2 ^ 24) :
    ∃ out, outputGenerator p.results = some out ∧
      (out.length = (instructions u file).length ∧
        ∀ k op operands, (instructions u file)[k]? = some (op, operands) →
          ∃ cls instr, lookupClass op = some cls ∧
            cls.create u (pass1 u file .start).symbolTable operands k op = .ok [instr] ∧
            out[k]? = some instr.binary ∧ instr.binary.length = 32) ∧
      (∀ label address, (pass1 u file .start).symbolTable.lookup label = some address ↔
        ∃ before line after, file = before ++ line :: after ∧ isBlank u line = false ∧
          (lineParts u line).1 = some label ∧ address = (instructions u before).length ∧
          (instructions u file).drop address = instructions u (line :: after)) ∧
      ∀ k op operands label address, (instructions u file)[k]? = some (op, operands) →
        operandLabel u op operands = some label →
        (pass1 u file .start).symbolTable.lookup label = some address →
        ∃ i, written u (pass1 u file .start).symbolTable k op operands = some i ∧
          ∀ s : Machine, s.PC = k → s.MEM = (loadProgram out).MEM → Reaches s address i := by
  obtain ⟨instrs, made, output⟩ := assembles.output
  have positions : ∀ label address,
      (pass1 u file .start).symbolTable.lookup label = some address ↔ _ :=
    fun label address => pass1_labels (small.trans (by decide)) assembles.first
  refine ⟨_, output, ⟨by rw [List.length_map, made.length], ?_⟩, ?_, ?_⟩
  · intro k op operands here
    obtain ⟨cls, instr, named, created, found⟩ := made.at here
    rw [Nat.zero_add] at created
    exact ⟨cls, instr, named, created, by rw [List.getElem?_map, found]; rfl, create_length created⟩
  · intro label address
    rw [positions]
    constructor
    · rintro ⟨before, line, after, rfl, filled, own, rfl⟩
      refine ⟨before, line, after, rfl, filled, own, rfl, ?_⟩
      rw [instructions_append, List.drop_left]
    · rintro ⟨before, line, after, split, filled, own, index, -⟩
      exact ⟨before, line, after, split, filled, own, index⟩
  · intro k op operands label address here refers known
    obtain ⟨cls, instr, named, created, found⟩ := made.at here
    rw [Nat.zero_add] at created
    obtain ⟨before, line, after, split, -, -, index⟩ := (positions label address).mp known
    have inside : address ≤ (instructions u file).length := by
      rw [split, instructions_append, List.length_append, index]
      omega
    obtain ⟨plain, word⟩ := operandLabel_plain refers named
    obtain ⟨i, instr', one, reads, range, same⟩ := create_encode named word plain created
    obtain rfl : instr = instr' := (List.cons.inj one).1
    have bound : k < (instructions u file).length := (List.getElem?_eq_some_iff.mp here).1
    refine ⟨i, reads, fun s PC loaded => ?_⟩
    subst PC
    have fetch := accessMem_loaded loaded found (by omega)
    rw [same] at fetch
    exact reaches (written_refers reads refers known) range (by omega) (by omega) fetch

end

/-- A reference forward and one back. -/
def loopSource : List Text :=
  ["main: lea $sp, end".toList, "beq $zero, $zero, main ! again".toList, "end: halt".toList]

theorem labels_link_loop : ∃ p out, Assembles ascii loopSource p ∧
    outputGenerator p.results = some out ∧
    out.length = 3 ∧ ∀ s : Machine, s.PC = 1 → s.MEM = (loadProgram out).MEM →
      Reaches s 0 (.beq 0 0 (-2)) := by
  have success : (pass2 ascii (pass1 ascii loopSource .start).symbolTable loopSource .start).map
      Pass2.success = some true := rfl
  obtain ⟨p, second, success⟩ := Option.map_eq_some_iff.mp success
  have assembles : Assembles ascii loopSource p := ⟨rfl, second, success⟩
  have words : (instructions ascii loopSource).length = 3 := rfl
  obtain ⟨out, output, ⟨length, -⟩, -, refers⟩ := labels_link assembles (by omega)
  obtain ⟨i, reads, reach⟩ :=
    refers 1 "beq".toList " $zero, $zero, main ".toList "main".toList 0 rfl rfl rfl
  have reads' : written ascii (pass1 ascii loopSource .start).symbolTable 1 "beq".toList
      " $zero, $zero, main ".toList = some (.beq 0 0 (-2)) := rfl
  obtain rfl : Instr.beq 0 0 (-2) = i := Option.some.inj (reads'.symm.trans reads)
  exact ⟨p, out, assembles, output, length.trans words, reach⟩

end SystemsProjects.Lc
