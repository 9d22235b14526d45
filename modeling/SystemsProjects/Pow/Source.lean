import SystemsProjects.Irq.Power
import SystemsProjects.Lc.Acceptance
import SystemsProjects.Lc.Ascii
import SystemsProjects.Lc.Texts

/-!
# The program `pow.s`

The lines of the source from `main` on, and the words that the assembler makes of them.
-/

namespace SystemsProjects.Pow

open Lc Irq Digits Regex Pattern Register

/-- The lines of `main`. -/
def mainLines : List Text :=
  ["main:\tlea $sp, initsp                         ! initialize the stack pointer".toList,
   "        lw $sp, 0($sp)                          ! finish initialization".toList,
   "".toList,
   "        lea $a0, BASE                           ! load base for pow".toList,
   "        lw $a0, 0($a0)".toList,
   "        lea $a1, EXP                            ! load power for pow".toList,
   "        lw $a1, 0($a1)".toList,
   "        lea $at, POW                            ! load address of pow".toList,
   "        ".toList,
   "        add $t0, $zero, $zero".toList,
   "        add $t1, $zero, $zero".toList,
   "\tadd $t2, $zero, $zero".toList,
   "".toList,
   "        addi $t0, $t0, 1                        ! set $t0 for beq check".toList,
   "        addi $t1, $t1, 1                        ! set $t1 for beq check".toList,
   "        beq  $t0, $t1, checkmin \t\t! test beq".toList,
   "        halt".toList,
   "".toList,
   "checkmin:".toList,
   "        addi $t0, $zero, 10                     ! set $t0 for MIN check".toList,
   "        addi $t1, $zero, -2                      ! set $t1 for MIN check".toList,
   "        min $t2, $t0, $t1                       ! test MIN".toList,
   "        beq $t2, $t1, checkmin2".toList,
   "        halt".toList,
   "".toList,
   "checkmin2:".toList,
   "        addi $t1, $zero, 10                      ! set $t1 for MIN check".toList,
   "        min $t2, $t0, $t1                       ! test MIN".toList,
   "        beq $t2, $t0, checkmin3".toList,
   "        halt".toList,
   "".toList,
   "checkmin3:".toList,
   "        addi $t1, $zero, 15                      ! set $t1 for MIN check".toList,
   "        min $t2, $t0, $t1                       ! test MIN".toList,
   "        beq $t2, $t0, checkmax".toList,
   "        halt".toList,
   "".toList,
   "checkmax:".toList,
   "        addi $t0, $zero, -2                     ! set $t0 for MAX check".toList,
   "        addi $t1, $zero, -10                     ! set $t1 for MAX check".toList,
   "        max $t2, $t0, $t1                       ! test MAX".toList,
   "        beq $t2, $t0, checkmax2".toList,
   "        halt".toList,
   "".toList,
   "checkmax2:".toList,
   "        addi $t1, $zero, -2                      ! set $t1 for MAX check".toList,
   "        max $t2, $t0, $t1                       ! test MAX".toList,
   "        beq $t2, $t0, checkmax3".toList,
   "        halt".toList,
   "".toList,
   "checkmax3:".toList,
   "        addi $t1, $zero, 0                      ! set $t1 for MAX check".toList,
   "        max $t2, $t0, $t1                       ! test MAX".toList,
   "        beq $t2, $t1, CALL".toList,
   "        halt".toList,
   "".toList,
   "CALL:".toList,
   "        jalr $at, $ra                           ! run pow".toList,
   "        lea $a0, ANS                            ! load base for pow".toList,
   "        sw $v0, 0($a0)".toList,
   "".toList,
   "        halt                                    ! stop the program here".toList,
   "        addi $v0, $zero, -1                     ! load a bad value on failure to halt".toList,
   "".toList]

/-- The lines behind `EXP`. -/
def powLines : List Text :=
  ["ANS:\t.fill 0                                 ! should come out to 256 (BASE^EXP)".toList,
   "".toList,
   "POW:    addi $sp, $sp, -1                       ! allocate space for old frame pointer".toList,
   "        sw $fp, 0($sp)".toList,
   "".toList,
   "        addi $fp, $sp, 0                        ! set new frame pointer".toList,
   "".toList,
   "        blt $zero, $a1, BASECHK                 ! check if $a1 is zero".toList,
   "        beq $zero, $zero, RET1                  ! if the exponent is 0, return 1".toList,
   "        ".toList,
   "BASECHK:".toList,
   "        blt $zero, $a0, WORK                    ! if the base is 0, return 0".toList,
   "        beq $zero, $zero, RET0                                 ".toList,
   "".toList,
   "WORK:".toList,
   "        addi $a1, $a1, -1                       ! decrement the power".toList,
   "".toList,
   "        lea $at, POW                            ! load the address of POW".toList,
   "        addi $sp, $sp, -2                       ! push 2 slots onto the stack".toList,
   "        sw $ra, -1($fp)                         ! save RA to stack".toList,
   "        sw $a0, -2($fp)                         ! save arg 0 to stack".toList,
   "        jalr $at, $ra                           ! recursively call POW".toList,
   "        add $a1, $v0, $zero                     ! store return value in arg 1".toList,
   "        lw $a0, -2($fp)                         ! load the base into arg 0".toList,
   "        lea $at, MULT                           ! load the address of MULT".toList,
   "        jalr $at, $ra                           ! multiply arg 0 (base) and arg 1 (running product)".toList,
   "        lw $ra, -1($fp)                         ! load RA from the stack".toList,
   "        addi $sp, $sp, 2".toList,
   "".toList,
   "        beq $zero, $zero, FIN                   ! unconditional branch to FIN".toList,
   "".toList,
   "RET1:   add $v0, $zero, $zero                   ! return a value of 0".toList,
   "\taddi $v0, $v0, 1                        ! increment and return 1".toList,
   "        beq $zero, $zero, FIN                   ! unconditional branch to FIN".toList,
   "".toList,
   "RET0:   add $v0, $zero, $zero                   ! return a value of 0".toList,
   "".toList,
   "FIN:\tlw $fp, 0($fp)                          ! restore old frame pointer".toList,
   "        addi $sp, $sp, 1                        ! pop off the stack".toList,
   "        jalr $ra, $zero".toList,
   "".toList,
   "MULT:   add $v0, $zero, $zero                   ! return value = 0".toList,
   "        addi $t0, $zero, 0                      ! sentinel = 0".toList,
   "        beq $zero, $zero, AGAIN                 ! unconditional branch to AGAIN".toList,
   "".toList,
   "AGAIN:  add $v0, $v0, $a0                       ! return value += argument0".toList,
   "        addi $t0, $t0, 1                        ! increment sentinel".toList,
   "        blt $t0, $a1, AGAIN                     ! while argument > sentinel, loop again".toList,
   "        jalr $ra, $zero                         ! return from mult".toList,
   "".toList,
   "initsp: .fill 0xA000".toList]

/-- The lines of `BASE` and `EXP`. -/
def dataLines (base exp : Nat) : List Text :=
  ["BASE:   .fill ".toList ++ base.repr.toList, "EXP:    .fill ".toList ++ exp.repr.toList]

/-- The file with a base and an exponent. -/
def source (base exp : Nat) : List Text := mainLines ++ dataLines base exp ++ powLines

/-! ## Instructions -/

/-- `main` tests an instruction: with `$t1` holding `y` its result is in `r`, or `main` halts. -/
def check (i : Instr) (y : Int) (r : Fin 16) : List Instr :=
  [.addi t1 zero y, i, .beq t2 r 1, .halt]

/-- The stack pointer is set, and the arguments are loaded. -/
def loads : List Instr :=
  [.lea sp 81, .lw sp sp 0, .lea a0 42, .lw a0 a0 0, .lea a1 41, .lw a1 a1 0, .lea at' 41]

/-- The tests of `beq`, `min` and `max`. -/
def checks : List Instr :=
  [.add t0 zero zero, .add t1 zero zero, .add t2 zero zero, .addi t0 t0 1, .addi t1 t1 1,
    .beq t0 t1 1, .halt] ++
  (.addi t0 zero 10 :: check (.min t2 t0 t1) (-2) t1) ++
  check (.min t2 t0 t1) 10 t0 ++
  check (.min t2 t0 t1) 15 t0 ++
  (.addi t0 zero (-2) :: check (.max t2 t0 t1) (-10) t0) ++
  check (.max t2 t0 t1) (-2) t0 ++
  check (.max t2 t0 t1) 0 t1

/-- `CALL`, up to the data. -/
def call : List Instr := [.jalr at' ra, .lea a0 5, .sw v0 a0 0, .halt, .addi v0 zero (-1)]

def main : List Instr := loads ++ checks ++ call

/-- The routine `MULT`, with a jump to the loop behind it. -/
def mult : List Instr := [.add v0 zero zero, .addi t0 zero 0, .beq zero zero 0] ++ View.again

/-- `POW` and `MULT`. -/
def routines : List Instr := View.power ++ mult

/-- The words of the program. -/
def image (base exp : Nat) : List (List Bool) :=
  main.map Instr.encode ++ [digits 32 base, digits 32 exp, digits 32 0] ++
    routines.map Instr.encode ++
    [digits 32 0xA000]

/-- The labels of the file. -/
def symbols : SymbolTable :=
  [("main".toList, 0), ("checkmin".toList, 14), ("checkmin2".toList, 19), ("checkmin3".toList, 23),
   ("checkmax".toList, 27), ("checkmax2".toList, 32), ("checkmax3".toList, 36), ("call".toList, 40),
   ("base".toList, 45), ("exp".toList, 46), ("ans".toList, 47), ("pow".toList, 48),
   ("basechk".toList, 53), ("work".toList, 55), ("ret1".toList, 68), ("ret0".toList, 71),
   ("fin".toList, 72), ("mult".toList, 75), ("again".toList, 78), ("initsp".toList, 82)]

/-! ## Assembly -/

theorem mainLines_assembled : (∀ line ∈ mainLines, Over Ascii line) ∧
    labels ascii mainLines 0 = symbols.take 8 ∧ (instructions ascii mainLines).length = 45 ∧
    (assembleAll ascii symbols 0 (instructions ascii mainLines)).map (List.map Instruction.binary) =
      some (main.map Instr.encode) := by
  unfold mainLines symbols
  repeat rw [String.toList_ofList]
  decide +kernel

theorem powLines_assembled : (∀ line ∈ powLines, Over Ascii line) ∧
    labels ascii powLines 47 = symbols.drop 10 ∧ (instructions ascii powLines).length = 36 ∧
    (assembleAll ascii symbols 47 (instructions ascii powLines)).map (List.map Instruction.binary) =
      some (digits 32 0 :: routines.map Instr.encode ++ [digits 32 0xA000]) := by
  unfold powLines symbols
  repeat rw [String.toList_ofList]
  decide +kernel

section

variable {n : Nat} {c : Char} {front : Text}

/-- A line that ends with a numeral has no space behind it. -/
theorem strip_line (solid : ascii.isSpace c = false) :
    ascii.strip (c :: front ++ n.repr.toList) = c :: front ++ n.repr.toList := by
  have last : ((c :: front ++ n.repr.toList).reverse).dropWhile ascii.isSpace =
      (c :: front ++ n.repr.toList).reverse := by
    rw [List.reverse_append]
    have digits := numeral_digit (n := n)
    cases text : n.repr.toList.reverse with
    | nil => exact absurd (List.reverse_eq_nil_iff.mp text) numeral_ne_nil
    | cons d rest =>
      have digit := digits d (List.mem_reverse.mp (by rw [text]; exact List.mem_cons_self))
      rw [List.cons_append, List.dropWhile_cons_of_neg (by simp [digit_solid digit])]
  unfold Unicode.strip stripped
  rw [List.cons_append, List.dropWhile_cons_of_neg (by simp [solid]), ← List.cons_append, last,
    List.reverse_reverse]

theorem lower_line : ascii.lower (front ++ n.repr.toList) = front.map Char.toLower ++
    n.repr.toList := by
  have same : n.repr.toList.map Char.toLower = n.repr.toList := by
    rw [List.map_congr_left fun c mem => digit_lower (numeral_digit c mem), List.map_id']
  show (front ++ n.repr.toList).map Char.toLower = _
  rw [List.map_append, same]

theorem splitOpcode_line : splitOpcode ascii (".fill ".toList ++ n.repr.toList) =
    some (".fill".toList, ' ' :: n.repr.toList) := by
  have whole : (' ' :: n.repr.toList).takeWhile (fun c => c != '!') = ' ' :: n.repr.toList := by
    rw [List.takeWhile_eq_self_iff]
    rintro c (_ | ⟨_, mem⟩)
    · rfl
    · have digit := numeral_digit c mem
      rw [bne_iff_ne]
      rintro rfl
      cases digit
  show some (".fill".toList, (' ' :: n.repr.toList).takeWhile fun c => c != '!') = _
  rw [whole]

theorem base_line : lineParts ascii ("BASE:   .fill ".toList ++ n.repr.toList) =
    (some "base".toList, some (".fill".toList, ' ' :: n.repr.toList)) := by
  have split : splitLabel ascii ("base:   .fill ".toList ++ n.repr.toList) =
      (some "base".toList, ".fill ".toList ++ n.repr.toList) := rfl
  unfold lineParts
  rw [show "BASE:   .fill ".toList = 'B' :: "ASE:   .fill ".toList from rfl, strip_line (by decide),
    lower_line]
  rw [show ('B' :: "ASE:   .fill ".toList).map Char.toLower = "base:   .fill ".toList from rfl]
  rw [getParts_eq, split, splitOpcode_line]

theorem exp_line : lineParts ascii ("EXP:    .fill ".toList ++ n.repr.toList) =
    (some "exp".toList, some (".fill".toList, ' ' :: n.repr.toList)) := by
  have split : splitLabel ascii ("exp:    .fill ".toList ++ n.repr.toList) =
      (some "exp".toList, ".fill ".toList ++ n.repr.toList) := rfl
  unfold lineParts
  rw [show "EXP:    .fill ".toList = 'E' :: "XP:    .fill ".toList from rfl, strip_line (by decide),
    lower_line]
  rw [show ('E' :: "XP:    .fill ".toList).map Char.toLower = "exp:    .fill ".toList from rfl]
  rw [getParts_eq, split, splitOpcode_line]

end

section

variable {base exp : Nat}

theorem ascii_source : ∀ line ∈ source base exp, Over Ascii line := by
  have filled : ∀ (front : Text) (n : Nat), Over Ascii front →
      Over Ascii (front ++ n.repr.toList) := by
    intro front n low c mem
    rcases List.mem_append.mp mem with mem | mem
    · exact low c mem
    · exact numeral_ascii c mem
  intro line mem
  simp only [source, dataLines, List.mem_append, List.mem_cons, List.not_mem_nil, or_false] at mem
  rcases mem with (mem | rfl | rfl) | mem
  · exact mainLines_assembled.1 line mem
  · exact filled _ base (by decide)
  · exact filled _ exp (by decide)
  · exact powLines_assembled.1 line mem

theorem instructions_data : instructions ascii (dataLines base exp) =
    [(".fill".toList, ' ' :: base.repr.toList), (".fill".toList, ' ' :: exp.repr.toList)] := by
  rw [dataLines, instructions_cons ascii rfl, instructions_cons ascii rfl, base_line, exp_line]
  rfl

theorem labels_data : labels ascii (dataLines base exp) 45 =
    [("base".toList, 45), ("exp".toList, 46)] := by
  have base_filled : isBlank ascii ("BASE:   .fill ".toList ++ base.repr.toList) ≠ true := nofun
  have exp_filled : isBlank ascii ("EXP:    .fill ".toList ++ exp.repr.toList) ≠ true := nofun
  rw [dataLines, labels, if_neg base_filled, labels, if_neg exp_filled, base_line, exp_line]
  rfl

theorem labels_source (base exp : Nat) : labels ascii (source base exp) 0 = symbols := by
  obtain ⟨-, labels₁, length₁, -⟩ := mainLines_assembled
  obtain ⟨-, labels₂, -, -⟩ := powLines_assembled
  rw [source, labels_append, labels_append, instructions_append, List.length_append,
    instructions_data, length₁, labels₁, Nat.zero_add, labels_data]
  show symbols.take 8 ++ _ ++ labels ascii powLines 47 = _
  rw [labels₂]
  rfl

theorem source_assembled (base_small : base < 2 ^ 31) (exp_small : exp < 2 ^ 31) :
    ∃ instrs, Assembled ascii symbols 0 (instructions ascii (source base exp)) instrs ∧
      instrs.map Instruction.binary = image base exp := by
  obtain ⟨-, -, length₁, made₁⟩ := mainLines_assembled
  obtain ⟨-, -, -, made₂⟩ := powLines_assembled
  obtain ⟨first, made₁, words₁⟩ := Option.map_eq_some_iff.mp made₁
  obtain ⟨last, made₂, words₂⟩ := Option.map_eq_some_iff.mp made₂
  have main := assembleAll_some made₁
  have pow := assembleAll_some made₂
  have fill : lookupClass ".fill".toList = some .fill := by decide
  have data : Assembled ascii symbols 45 (instructions ascii (dataLines base exp))
      [⟨.fill, digits 32 base⟩, ⟨.fill, digits 32 exp⟩] := by
    rw [instructions_data]
    exact .cons fill (fill_numeral symbols base_small 45 _)
      (.cons fill (fill_numeral symbols exp_small 46 _) .nil)
  have length : first.length = 45 := by rw [main.length, length₁]
  rw [← length] at data
  refine ⟨first ++ [⟨.fill, digits 32 base⟩, ⟨.fill, digits 32 exp⟩] ++ last, ?_, ?_⟩
  · rw [source, instructions_append, instructions_append]
    rw [← Nat.zero_add first.length] at data
    apply (main.append data).append
    rw [List.length_append, length]
    exact pow
  · rw [List.map_append, List.map_append, words₁, words₂]
    simp [image, Instruction.binary, InstrClass.opcode]

theorem length_instructions {u : Unicode} (lowers : Lowers u) :
    (instructions u (source base exp)).length = 83 := by
  obtain ⟨-, -, length₁, -⟩ := mainLines_assembled
  obtain ⟨-, -, length₂, -⟩ := powLines_assembled
  rw [instructions_eq lowers ascii_source, source, instructions_append, instructions_append,
    List.length_append, List.length_append, length₁, length₂, instructions_data]
  rfl

/-- Python's tables assemble the file to its words. -/
theorem assembles {u : Unicode} (lowers : Lowers u) (base_small : base < 2 ^ 31)
    (exp_small : exp < 2 ^ 31) :
    (pass1 u (source base exp) .start).symbolTable = symbols ∧
      ∃ p, Assembles u (source base exp) p ∧ outputGenerator p.results = some (image base exp) := by
  obtain ⟨instrs, made, words⟩ := source_assembled base_small exp_small
  have small : (instructions ascii (source base exp)).length < 2 ^ 32 := by
    rw [length_instructions fun _ _ => rfl]
    decide
  have once : ((labels ascii (source base exp) 0).map Prod.fst).Nodup := by
    rw [labels_source]
    decide
  rw [← labels_source base exp] at made
  obtain ⟨table, p, assembles, output⟩ := accepts small once made
  rw [labels_source] at table
  refine ⟨by rw [pass1_eq lowers ascii_source, table], p,
    (assembles_ascii lowers ascii_source p).mpr assembles, ?_⟩
  rw [output, words]

end

end SystemsProjects.Pow
