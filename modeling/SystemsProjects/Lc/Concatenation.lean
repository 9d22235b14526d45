import SystemsProjects.Lc.Acceptance

/-!
# Files one after the other

Each operand that names a label is written as a distance, so the words of a file do not
depend on what stands before it. The labels of the other file matter only where an operand
is the text of one of them, which may be a number.
-/

namespace SystemsProjects.Lc

open Regex Pattern Tables

/-- The text of the operands that `parse_value` looks for among the labels. -/
def lookedUp (u : Unicode) (op operands : Text) : Option Text :=
  match lookupClass op with
  | some .beq | some .blt => (first (reBranch u) operands).map fun m => m.2.2
  | some .lea => (first (reLea u) operands).map fun m => m.2
  | some .lw | some .sw => (first (reMem u) operands).map fun m => m.2.1
  | _ => none

/-- No operand of `file` is a label of `other`. -/
def Apart (u : Unicode) (file other : List Text) : Prop :=
  ∀ i ∈ instructions u file, ∀ text ∈ lookedUp u i.1 i.2, text ∉ (labels u other 0).map Prod.fst

instance (u : Unicode) (file other : List Text) : Decidable (Apart u file other) :=
  inferInstanceAs (Decidable (∀ i ∈ instructions u file, ∀ text ∈ lookedUp u i.1 i.2,
    text ∉ (labels u other 0).map Prod.fst))

/-- The file is assembled, to the words `out`. -/
def AssemblesTo (u : Unicode) (file : List Text) (out : List (List Bool)) : Prop :=
  ∃ p, Assembles u file p ∧ outputGenerator p.results = some out

section

variable {u : Unicode} {symbols symbols' : SymbolTable} {pc pc' : Option Nat} {n m k : Nat}
  {text op operands : Text} {file before after : List Text} {parts parts' : List (Text × Text)}
  {instrs : List Instruction} {out : List (List Bool)}

/-! ## One instruction -/

theorem parseValue_congr (distance : labelOffset symbols pc text = labelOffset symbols' pc' text)
    (addressed : pc.isSome = pc'.isSome) (size : Nat) (unsigned : Bool) :
    parseValue u symbols text size pc unsigned = parseValue u symbols' text size pc' unsigned := by
  unfold parseValue
  rw [distance, addressed]

/-- Without an address the table is not read. -/
theorem parseValue_unaddressed (symbols symbols' : SymbolTable) (size : Nat) (unsigned : Bool) :
    parseValue u symbols text size none unsigned =
      parseValue u symbols' text size none unsigned :=
  parseValue_congr rfl rfl size unsigned

/-- An instruction depends on the symbol table and its address only by that distance. -/
theorem create_congr {cls : InstrClass} (named : lookupClass op = some cls)
    (distance : ∀ text ∈ lookedUp u op operands,
      labelOffset symbols (some n) text = labelOffset symbols' (some m) text) :
    cls.create u symbols operands n op = cls.create u symbols' operands m op := by
  have same : cls.parseOperands u symbols operands n op =
      cls.parseOperands u symbols' operands m op := by
    unfold lookedUp at distance
    rw [named] at distance
    cases cls with
    | beq | blt =>
      simp only [InstrClass.parseOperands, branch.parseOperands]
      cases matched : first (reBranch u) operands with
      | none => rfl
      | some m' =>
        have offset := distance m'.2.2 (by simp [matched])
        simp only [parseValue_congr (u := u) offset rfl]
    | lea =>
      simp only [InstrClass.parseOperands, lea.parseOperands]
      cases matched : first (reLea u) operands with
      | none => rfl
      | some m' =>
        have offset := distance m'.2 (by simp [matched])
        simp only [parseValue_congr (u := u) offset rfl]
    | lw | sw =>
      simp only [InstrClass.parseOperands, MemInstruction.parseOperands]
      cases matched : first (reMem u) operands with
      | none => rfl
      | some m' =>
        have offset := distance m'.2.1 (by simp [matched])
        simp only [parseValue_congr (u := u) offset rfl]
    | fill => exact parseValue_unaddressed symbols symbols' 32 false
    | addi =>
      simp only [InstrClass.parseOperands, addi.parseOperands,
        parseValue_unaddressed symbols symbols']
    | add | nand | noop | jalr | halt | inc | minmax => rfl
  unfold InstrClass.create
  rw [same]

/-- So do all instructions of a file. -/
theorem Assembled.congr (made : Assembled u symbols n parts instrs)
    (distance : ∀ k, ∀ i ∈ parts, ∀ text ∈ lookedUp u i.1 i.2,
      labelOffset symbols (some (n + k)) text = labelOffset symbols' (some (m + k)) text) :
    Assembled u symbols' m parts instrs := by
  induction made generalizing m with
  | nil => exact .nil
  | @cons n op operands parts cls instr instrs named created rest ih =>
    have here : cls.create u symbols operands n op = cls.create u symbols' operands m op :=
      create_congr named (fun text mem => distance 0 _ List.mem_cons_self text mem)
    refine .cons named (here.symm.trans created) (ih fun k i mem text looked => ?_)
    have later := distance (k + 1) i (List.mem_cons_of_mem _ mem) text looked
    have regroup : ∀ a, a + 1 + k = a + (k + 1) := fun a => by omega
    rw [regroup, regroup]
    exact later

theorem Assembled.split (made : Assembled u symbols n (parts ++ parts') instrs) :
    ∃ instrs₁ instrs₂, instrs = instrs₁ ++ instrs₂ ∧ Assembled u symbols n parts instrs₁ ∧
      Assembled u symbols (n + parts.length) parts' instrs₂ := by
  induction parts generalizing n instrs with
  | nil => exact ⟨[], instrs, rfl, .nil, made⟩
  | cons part parts ih =>
    cases made with
    | cons named created rest =>
      obtain ⟨instrs₁, instrs₂, rfl, first, second⟩ := ih rest
      refine ⟨_ :: instrs₁, instrs₂, rfl, .cons named created first, ?_⟩
      rw [List.length_cons, Nat.add_comm _ 1, ← Nat.add_assoc]
      exact second

/-! ## The labels -/

/-- Further on, the addresses are larger by the same number. -/
theorem labels_shift (u : Unicode) (file : List Text) (n : Nat) :
    labels u file n = (labels u file 0).map fun entry => (entry.1, entry.2 + n) := by
  have general : ∀ m, labels u file (m + n) =
      (labels u file m).map fun entry => (entry.1, entry.2 + n) := by
    induction file with
    | nil => exact fun _ => rfl
    | cons line file ih =>
      intro m
      rw [labels, labels]
      split
      · exact ih m
      · rw [Nat.add_right_comm, ih, List.map_append]
        cases (lineParts u line).1 <;> rfl
  rw [← general 0, Nat.zero_add]

theorem labels_names (u : Unicode) (file : List Text) (n : Nat) :
    (labels u file n).map Prod.fst = (labels u file 0).map Prod.fst := by
  rw [labels_shift, List.map_map]
  rfl

theorem lookup_eq_none_of_names {table : SymbolTable} (absent : text ∉ table.map Prod.fst) :
    table.lookup text = none := by
  rw [List.lookup_eq_none_iff]
  intro entry mem
  exact bne_iff_ne.mpr fun same => absent (List.mem_map.mpr ⟨entry, mem, same.symm⟩)

theorem lookup_shift (table : SymbolTable) (n : Nat) (text : Text) :
    (table.map fun entry => (entry.1, entry.2 + n)).lookup text =
      (table.lookup text).map (· + n) := by
  induction table with
  | nil => rfl
  | cons entry table ih =>
    rw [List.map_cons, List.lookup_cons, List.lookup_cons, ih]
    split <;> rfl

/-- In both files, what the first one looks up is as in the first one. -/
theorem labelOffset_before (absent : text ∉ (labels u after 0).map Prod.fst) :
    labelOffset (labels u (before ++ after) 0) (some k) text =
      labelOffset (labels u before 0) (some k) text := by
  have later : (labels u after (0 + (instructions u before).length)).lookup text = none :=
    lookup_eq_none_of_names (by rwa [labels_names])
  have found : (labels u (before ++ after) 0).lookup text = (labels u before 0).lookup text := by
    rw [labels_append, List.lookup_append, later, Option.or_none]
  simp only [labelOffset, found]

/-- What the second one looks up is as far away as in the second one. -/
theorem labelOffset_after (absent : text ∉ (labels u before 0).map Prod.fst) :
    labelOffset (labels u (before ++ after) 0) (some ((instructions u before).length + k)) text =
      labelOffset (labels u after 0) (some k) text := by
  have found : (labels u (before ++ after) 0).lookup text =
      ((labels u after 0).lookup text).map (· + (instructions u before).length) := by
    rw [labels_append, List.lookup_append, lookup_eq_none_of_names absent, Option.none_or,
      Nat.zero_add, labels_shift, lookup_shift]
  simp only [labelOffset, found, Option.bind_some]
  cases (labels u after 0).lookup text with
  | none => rfl
  | some address =>
    apply congrArg some
    push_cast
    omega

/-! ## Both files -/

theorem assemblesTo_iff (small : (instructions u file).length < 2 ^ 32) :
    AssemblesTo u file out ↔ ((labels u file 0).map Prod.fst).Nodup ∧
      ∃ instrs, Assembled u (labels u file 0) 0 (instructions u file) instrs ∧
        out = instrs.map Instruction.binary := by
  constructor
  · rintro ⟨p, assembles, output⟩
    have bound : Pass1.start.pc + (instructions u file).length < 2 ^ 32 := by
      simpa [Pass1.start] using small
    obtain ⟨table, once⟩ := pass1_ok bound List.nodup_nil assembles.first
    have all : (pass1 u file .start).symbolTable = labels u file 0 := table
    obtain ⟨instrs, made, output'⟩ := assembles.output
    rw [all] at once made
    exact ⟨once, instrs, made, Option.some.inj (output.symm.trans output')⟩
  · rintro ⟨once, instrs, made, rfl⟩
    obtain ⟨_, p, assembles, output⟩ := accepts small once made
    exact ⟨p, assembles, output⟩

theorem Assembled.append_iff (apart : Apart u before after) (apart' : Apart u after before) :
    Assembled u (labels u (before ++ after) 0) 0 (instructions u (before ++ after)) instrs ↔
      ∃ instrs₁ instrs₂, instrs = instrs₁ ++ instrs₂ ∧
        Assembled u (labels u before 0) 0 (instructions u before) instrs₁ ∧
        Assembled u (labels u after 0) 0 (instructions u after) instrs₂ := by
  rw [instructions_append]
  constructor
  · intro made
    obtain ⟨instrs₁, instrs₂, rfl, first, second⟩ := made.split
    refine ⟨instrs₁, instrs₂, rfl, first.congr fun k i mem text looked => ?_,
      second.congr fun k i mem text looked => ?_⟩
    · exact labelOffset_before (apart i mem text looked)
    · rw [Nat.zero_add, Nat.zero_add]
      exact labelOffset_after (apart' i mem text looked)
  · rintro ⟨instrs₁, instrs₂, rfl, first, second⟩
    have length := first.length
    refine (first.congr fun k i mem text looked => ?_).append
      (second.congr fun k i mem text looked => ?_)
    · exact (labelOffset_before (apart i mem text looked)).symm
    · rw [length, Nat.zero_add, Nat.zero_add]
      exact (labelOffset_after (apart' i mem text looked)).symm

end

/-- Two files that do not name each other's labels are assembled together if and only if each is
by itself and no label is in both, and the output is that of the first and then that of
the second. -/
theorem assemble_append {u : Unicode} {before after : List Text} {out : List (List Bool)}
    (small : (instructions u (before ++ after)).length < 2 ^ 32)
    (apart : Apart u before after) (apart' : Apart u after before) :
    AssemblesTo u (before ++ after) out ↔
      ((labels u before 0).map Prod.fst).Disjoint ((labels u after 0).map Prod.fst) ∧
        ∃ out₁ out₂, out = out₁ ++ out₂ ∧ AssemblesTo u before out₁ ∧ AssemblesTo u after out₂ := by
  have lengths : (instructions u before).length + (instructions u after).length < 2 ^ 32 := by
    rwa [instructions_append, List.length_append] at small
  rw [assemblesTo_iff small]
  simp only [assemblesTo_iff (show (instructions u before).length < 2 ^ 32 by omega),
    assemblesTo_iff (show (instructions u after).length < 2 ^ 32 by omega),
    Assembled.append_iff apart apart']
  rw [labels_append, List.map_append, List.nodup_append', labels_names u after]
  constructor
  · rintro ⟨⟨once, once', disjoint⟩, _, ⟨instrs₁, instrs₂, rfl, first, second⟩, rfl⟩
    exact ⟨disjoint, _, _, List.map_append, ⟨once, instrs₁, first, rfl⟩, once', instrs₂, second,
      rfl⟩
  · rintro ⟨disjoint, _, _, rfl, ⟨once, instrs₁, first, rfl⟩, once', instrs₂, second, rfl⟩
    exact ⟨⟨once, once', disjoint⟩, _, ⟨instrs₁, instrs₂, rfl, first, second⟩,
      List.map_append.symm⟩

/-- With a label of its own. -/
def spinSource : List Text := ["spin: blt $zero, $sp, spin".toList, "lw $v0, 2($zero)".toList]

theorem assembles_success {file : List Text}
    (first : (pass1 ascii file .start).noErrors = true)
    (success : (pass2 ascii (pass1 ascii file .start).symbolTable file .start).map Pass2.success =
      some true) : ∃ out, AssemblesTo ascii file out := by
  obtain ⟨p, second, success⟩ := Option.map_eq_some_iff.mp success
  have assembles : Assembles ascii file p := ⟨first, second, success⟩
  obtain ⟨_, _, output⟩ := assembles.output
  exact ⟨_, p, assembles, output⟩

theorem assemble_append_spin : ∃ out₁ out₂, AssemblesTo ascii loopSource out₁ ∧
    AssemblesTo ascii spinSource out₂ ∧
    AssemblesTo ascii (loopSource ++ spinSource) (out₁ ++ out₂) := by
  obtain ⟨out₁, loop⟩ : ∃ out, AssemblesTo ascii loopSource out := assembles_success rfl rfl
  obtain ⟨out₂, spin⟩ : ∃ out, AssemblesTo ascii spinSource out := assembles_success rfl rfl
  have words : (instructions ascii (loopSource ++ spinSource)).length = 5 := rfl
  have disjoint : ∀ label ∈ (labels ascii loopSource 0).map Prod.fst,
      label ∉ (labels ascii spinSource 0).map Prod.fst := by decide
  refine ⟨out₁, out₂, loop, spin, (assemble_append ?_ ?_ ?_).mpr ?_⟩
  · omega
  · decide
  · decide
  · exact ⟨fun label mem => disjoint label mem, out₁, out₂, rfl, loop, spin⟩

end SystemsProjects.Lc
