import SystemsProjects.Lc.Linking

/-!
# What the assembler accepts

Both passes succeed on a file whose labels are different and whose instructions can be made.
-/

namespace SystemsProjects.Lc

open Tables

section

variable {u : Unicode} {file : List Text} {p : Pass1}

theorem labels_append (u : Unicode) (before after : List Text) (pc : Nat) :
    labels u (before ++ after) pc = labels u before pc ++
      labels u after (pc + (instructions u before).length) := by
  induction before generalizing pc with
  | nil => rfl
  | cons line before ih =>
    by_cases blank : isBlank u line = true
    · rw [List.cons_append, labels, labels, if_pos blank, if_pos blank, instructions_blank u blank,
        ih]
    · rw [List.cons_append, labels, labels, if_neg blank, if_neg blank,
        instructions_cons u (by simpa using blank), List.length_append, ih, List.append_assoc,
        Nat.add_assoc]

theorem define_noErrors {label : Option Text} (ok : p.noErrors = true)
    (fresh : ∀ l ∈ label, l ∉ p.symbolTable.map Prod.fst) :
    (p.define label).noErrors = true ∧ (p.define label).pc = p.pc ∧
      (p.define label).symbolTable = p.symbolTable ++ (label.map fun l => (l, p.pc)).toList := by
  cases label with
  | none => exact ⟨ok, rfl, (List.append_nil _).symm⟩
  | some label =>
    have unknown : ¬(p.symbolTable.lookup label).isSome = true := by simpa using fresh label rfl
    unfold Pass1.define
    dsimp only
    rw [if_neg unknown]
    exact ⟨ok, rfl, rfl⟩

theorem count_noErrors {parts : Option (Text × Text)} (ok : p.noErrors = true)
    (named : ∀ i ∈ parts, (lookupClass i.1).isSome = true) :
    (p.count parts).noErrors = true ∧ (p.count parts).pc = p.pc + parts.toList.length ∧
      (p.count parts).symbolTable = p.symbolTable := by
  cases parts with
  | none => exact ⟨ok, rfl, rfl⟩
  | some parts =>
    obtain ⟨cls, found⟩ := Option.isSome_iff_exists.mp (named parts rfl)
    unfold Pass1.count
    dsimp only
    rw [found]
    exact ⟨ok, rfl, rfl⟩

theorem pass1_noErrors_of (ok : p.noErrors = true)
    (small : p.pc + (instructions u file).length < 2 ^ 32)
    (named : ∀ i ∈ instructions u file, (lookupClass i.1).isSome = true)
    (once : ((p.symbolTable ++ labels u file p.pc).map Prod.fst).Nodup) :
    (pass1 u file p).noErrors = true := by
  induction file generalizing p with
  | nil => exact ok
  | cons line file ih =>
    by_cases blank : isBlank u line = true
    · rw [instructions_blank u blank] at small named
      rw [labels, if_pos blank] at once
      rw [pass1, if_pos blank]
      exact ih ok small named once
    · rw [instructions_cons u (by simpa using blank)] at small named
      rw [List.length_append] at small
      rw [labels, if_neg blank, ← List.append_assoc] at once
      rw [pass1, if_neg blank, if_neg (by omega)]
      have fresh : ∀ l ∈ (lineParts u line).1, l ∉ p.symbolTable.map Prod.fst := by
        intro l own known
        rw [List.map_append, List.map_append, own] at once
        have apart := (List.nodup_append.mp (List.nodup_append.mp once).1).2.2
        exact apart l known l (by simp) rfl
      obtain ⟨defined, pc, table⟩ := define_noErrors ok fresh
      have known_op : ∀ i ∈ (lineParts u line).2, (lookupClass i.1).isSome = true :=
        fun i mem => named i (List.mem_append_left _ (Option.mem_toList.mpr mem))
      obtain ⟨counted, pc', table'⟩ := count_noErrors defined known_op
      have next : (p.line u line).pc = p.pc + (lineParts u line).2.toList.length := by
        rw [← pc]
        exact pc'
      have known : (p.line u line).symbolTable =
          p.symbolTable ++ ((lineParts u line).1.map fun l => (l, p.pc)).toList := by
        rw [← table]
        exact table'
      apply ih (p := p.line u line) counted
      · rw [next]
        omega
      · exact fun i mem => named i (List.mem_append_right _ mem)
      · rw [known, next]
        exact once

end

section

variable {u : Unicode} {symbols : SymbolTable} {file : List Text} {p : Pass2} {pc : Nat}
  {parts : List (Text × Text)} {done instrs : List Instruction}

/-- A line with an instruction adds it at the next address. -/
theorem Filled.place (filled : Filled p done) (ok : p.success = true) {op operands : Text}
    {cls : InstrClass} {instr : Instruction} (named : lookupClass op = some cls)
    (created : cls.create u symbols operands done.length op = .ok [instr]) :
    ∃ q, p.assemble u symbols (some (op, operands)) = some q ∧ q.success = true ∧
      Filled q (done ++ [instr]) := by
  have next : p.results.lookup p.pc = none := by
    have outside := lookup_numbered 0 p.pc done
    rwa [Nat.zero_add, ← filled.results, List.getElem?_eq_none filled.pc.ge] at outside
  have placed : p.place p.pc [instr] = { p with results := p.results ++ [(p.pc, instr)] } := by
    simp [Pass2.place, next]
  rw [← filled.pc] at created
  have made : p.assemble u symbols (some (op, operands)) =
      some { p.place p.pc [instr] with pc := p.pc + 1 } := by
    unfold Pass2.assemble
    dsimp only
    rw [named, Option.map_some, created]
    rfl
  rw [placed] at made
  refine ⟨_, made, ok, ?_, ?_⟩
  · rw [numbered_append, Nat.zero_add, ← filled.results, filled.pc]
    rfl
  · rw [List.length_append, ← filled.pc]
    rfl

theorem Filled.accepts (filled : Filled p done) (ok : p.success = true)
    (made : Assembled u symbols done.length (instructions u file) instrs) :
    ∃ q, Lc.pass2 u symbols file p = some q ∧ q.success = true ∧ Filled q (done ++ instrs) := by
  induction file generalizing p done instrs with
  | nil =>
    cases made
    exact ⟨p, rfl, ok, by rwa [List.append_nil]⟩
  | cons line file ih =>
    by_cases blank : isBlank u line = true
    · rw [instructions_blank u blank] at made
      unfold Lc.pass2
      rw [if_pos blank]
      exact ih filled ok made
    · rw [instructions_cons u (by simpa using blank)] at made
      unfold Lc.pass2
      rw [if_neg blank]
      unfold Pass2.line
      cases own : (lineParts u line).2 with
      | none =>
        rw [own] at made
        exact ih (p := { p with lineCount := p.lineCount + 1 }) ⟨filled.results, filled.pc⟩ ok made
      | some part =>
        rw [own] at made
        cases made with
        | @cons _ _ _ _ _ instr _ named created rest =>
          obtain ⟨q, placed, ok', filled'⟩ := filled.place ok named created
          rw [placed]
          have length : (done ++ [instr]).length = done.length + 1 := List.length_append
          rw [← length] at rest
          obtain ⟨q', run, last, whole⟩ :=
            ih (p := { q with lineCount := q.lineCount + 1 }) ⟨filled'.results, filled'.pc⟩ ok' rest
          exact ⟨q', run, last, by rwa [List.append_assoc] at whole⟩

theorem Assembled.named (made : Assembled u symbols pc parts instrs) :
    ∀ i ∈ parts, (lookupClass i.1).isSome = true := by
  induction made with
  | nil => exact nofun
  | cons named _ _ ih =>
    rintro i (_ | ⟨_, mem⟩)
    · exact Option.isSome_iff_exists.mpr ⟨_, named⟩
    · exact ih i mem

/-- A file with different labels is assembled to its instructions. -/
theorem accepts (small : (instructions u file).length < 2 ^ 32)
    (once : ((labels u file 0).map Prod.fst).Nodup)
    (made : Assembled u (labels u file 0) 0 (instructions u file) instrs) :
    (pass1 u file .start).symbolTable = labels u file 0 ∧
      ∃ p, Assembles u file p ∧ outputGenerator p.results =
      some (instrs.map Instruction.binary) := by
  have bound : Pass1.start.pc + (instructions u file).length < 2 ^ 32 := by
    simpa [Pass1.start] using small
  have ok : (pass1 u file .start).noErrors = true := pass1_noErrors_of rfl bound made.named once
  have table : (pass1 u file .start).symbolTable = labels u file 0 :=
    (pass1_ok bound List.nodup_nil ok).1
  have start : Filled .start [] := ⟨rfl, rfl⟩
  obtain ⟨p, run, success, filled⟩ := start.accepts rfl made
  refine ⟨table, p, ⟨ok, by rw [table, run], success⟩, ?_⟩
  rw [filled.results, List.nil_append, outputGenerator_numbered]

/-- The assembler succeeds if and only if no label is defined twice and every instruction can be
made. -/
theorem assembles_iff (small : (instructions u file).length < 2 ^ 32) :
    (∃ p, Assembles u file p) ↔ ((labels u file 0).map Prod.fst).Nodup ∧
      ∃ instrs, Assembled u (labels u file 0) 0 (instructions u file) instrs := by
  constructor
  · rintro ⟨p, assembles⟩
    have bound : Pass1.start.pc + (instructions u file).length < 2 ^ 32 := by
      simpa [Pass1.start] using small
    obtain ⟨table, once⟩ := pass1_ok bound List.nodup_nil assembles.first
    have all : (pass1 u file .start).symbolTable = labels u file 0 := table
    obtain ⟨instrs, made, _⟩ := assembles.output
    rw [all] at once made
    exact ⟨once, instrs, made⟩
  · rintro ⟨once, instrs, made⟩
    obtain ⟨_, p, assembles, _⟩ := accepts small once made
    exact ⟨p, assembles⟩

variable (u symbols)

/-- The instructions of all lines, if each can be made. -/
def assembleAll : Nat → List (Text × Text) → Option (List Instruction)
  | _, [] => some []
  | pc, (op, operands) :: parts =>
    (lookupClass op).bind fun cls =>
      match cls.create u symbols operands pc op with
      | .ok [instr] => (assembleAll (pc + 1) parts).map (instr :: ·)
      | _ => none

variable {u symbols}

theorem assembleAll_some (made : assembleAll u symbols pc parts = some instrs) :
    Assembled u symbols pc parts instrs := by
  induction parts generalizing pc instrs with
  | nil =>
    cases made
    exact .nil
  | cons part parts ih =>
    obtain ⟨cls, named, made⟩ := Option.bind_eq_some_iff.mp made
    split at made
    · next created =>
      obtain ⟨rest, made', rfl⟩ := Option.map_eq_some_iff.mp made
      exact .cons named created (ih made')
    · cases made

end

end SystemsProjects.Lc
