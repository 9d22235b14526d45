import SystemsProjects.Irq.Processor

/-!
# The program `prj2.s`

The lines of the source with their labels, and the words that the assembler makes of them.
-/

namespace SystemsProjects.Irq

open Lc Digits Register

inductive Label
  | vector0 | main | BASE | EXP | ANS | INT_MAX | POW | BASECHK | WORK | RET1 | RET0 | FIN | MULT |
      AGAIN
  | timer_handler | distance_tracker_handler | RVAL | MAX | MIN | TEARDOWN
  | initsp | ticks | range | maxval | minval
deriving DecidableEq, Repr

/-- What stands on a line after its label. An offset to a label is still to be filled in. -/
inductive Item
  | fill (value : Nat)
  | plain (i : Instr)
  | relative (instr : Int → Instr) (target : Label)
  | special (c : Command)

/-- The label stands at the first of the items. -/
def label (name : Label) : List Item → List (Option Label × Item)
  | [] => []
  | item :: items => (some name, item) :: items.map fun item => (none, item)

open Item Instr Command in
def source : List (Option Label × Item) :=
  label .vector0
    [fill 0, fill 0, fill 0, fill 0, fill 0, fill 0, fill 0, fill 0] ++
  label .main
    [relative (lea sp) .initsp, plain (lw sp sp 0),
     relative (lea t0) .vector0, relative (lea t1) .timer_handler, plain (sw t1 t0 0),
     relative (lea t1) .distance_tracker_handler, plain (sw t1 t0 1),
     relative (lea t0) .minval, plain (lw t0 t0 0), relative (lea t1) .INT_MAX, plain (lw t1 t1 0),
     plain (sw t1 t0 0),
     special ei,
     plain (addi t0 zero 5), plain (addi t1 zero (-15)),
     plain (Instr.min t2 t0 t1), plain (Instr.min t2 t1 t0),
     plain (Instr.max t2 t0 t1), plain (Instr.max t2 t1 t0),
     plain (Instr.add t0 zero zero), plain (Instr.add t1 zero zero), plain (Instr.add t2 zero zero),
     relative (lea a0) .BASE, plain (lw a0 a0 0), relative (lea a1) .EXP, plain (lw a1 a1 0),
     relative (lea at') .POW, plain (jalr at' ra),
     relative (lea a0) .ANS, plain (sw v0 a0 0),
     plain halt, plain (addi v0 zero (-1))] ++
  label .BASE [fill 2] ++
  label .EXP [fill 8] ++
  label .ANS [fill 0] ++
  label .INT_MAX [fill 0x7FFFFFFF] ++
  label .POW
    [plain (addi sp sp (-1)), plain (sw fp sp 0), plain (addi fp sp 0),
     relative (blt zero a1) .BASECHK, relative (beq zero zero) .RET1] ++
  label .BASECHK
    [relative (blt zero a0) .WORK, relative (beq zero zero) .RET0] ++
  label .WORK
    [plain (addi a1 a1 (-1)), relative (lea at') .POW, plain (addi sp sp (-2)),
     plain (sw ra fp (-1)), plain (sw a0 fp (-2)), plain (jalr at' ra),
     plain (Instr.add a1 v0 zero), plain (lw a0 fp (-2)), relative (lea at') .MULT,
     plain (jalr at' ra), plain (lw ra fp (-1)), plain (addi sp sp 2),
     relative (beq zero zero) .FIN] ++
  label .RET1
    [plain (Instr.add v0 zero zero), plain (addi v0 v0 1), relative (beq zero zero) .FIN] ++
  label .RET0 [plain (Instr.add v0 zero zero)] ++
  label .FIN
    [plain (lw fp fp 0), plain (addi sp sp 1), plain (jalr ra zero)] ++
  label .MULT
    [plain (Instr.add v0 zero zero), plain (addi t0 zero 0)] ++
  label .AGAIN
    [plain (Instr.add v0 v0 a0), plain (addi t0 t0 1), relative (blt t0 a1) .AGAIN,
     plain (jalr ra zero)] ++
  label .timer_handler
    [plain (addi sp sp (-1)), plain (sw k0 sp 0), special ei,
     plain (addi sp sp (-3)), plain (sw t0 sp 0), plain (sw t1 sp 1), plain (sw t2 sp 2),
     plain (addi sp sp (-2)), plain (sw s0 sp 0), plain (sw s1 sp 1),
     relative (lea s0) .ticks, plain (lw s0 s0 0), plain (lw s1 s0 0), plain (addi s1 s1 1),
     plain (sw s1 s0 0),
     plain (lw s0 sp 0), plain (lw s1 sp 1), plain (addi sp sp 2),
     plain (lw t0 sp 0), plain (lw t1 sp 1), plain (lw t2 sp 2), plain (addi sp sp 3),
     special di, plain (lw k0 sp 0), plain (addi sp sp 1), special reti] ++
  label .distance_tracker_handler
    [plain (addi sp sp (-1)), plain (sw k0 sp 0), special ei,
     plain (addi sp sp (-3)), plain (sw t0 sp 0), plain (sw t1 sp 1), plain (sw t2 sp 2),
     plain (addi sp sp (-3)), plain (sw s0 sp 0), plain (sw s1 sp 1), plain (sw s2 sp 2),
     special (input s0 1),
     relative (lea s1) .maxval, plain (lw s1 s1 0), plain (lw s2 s1 0),
     plain (Instr.max s1 s0 s2), relative (beq s1 s0) .MAX,
     relative (lea s1) .minval, plain (lw s1 s1 0), plain (lw s2 s1 0),
     plain (Instr.min s1 s0 s2), relative (beq s1 s0) .MIN] ++
  label .RVAL
    [relative (lea s0) .maxval, plain (lw s1 s0 0), plain (lw s0 s1 0),
     relative (lea s1) .minval, plain (lw s1 s1 0), plain (lw s2 s1 0),
     plain (nand s2 s2 s2), plain (addi s2 s2 1), plain (Instr.add s1 s0 s2),
     relative (lea s0) .range, plain (lw s0 s0 0), plain (sw s1 s0 0),
     relative (beq zero zero) .TEARDOWN] ++
  label .MAX
    [relative (lea s2) .maxval, plain (lw s2 s2 0), plain (sw s1 s2 0),
     relative (lea s1) .minval, plain (lw s1 s1 0), plain (lw s2 s1 0),
     relative (beq s0 s2) .RVAL, plain (Instr.min s1 s0 s2), relative (beq s1 s0) .MIN,
     relative (beq zero zero) .RVAL] ++
  label .MIN
    [relative (lea s2) .minval, plain (lw s2 s2 0), plain (sw s1 s2 0),
     relative (lea s1) .maxval, plain (lw s1 s1 0), plain (lw s2 s1 0),
     relative (beq s0 s2) .RVAL, plain (Instr.max s1 s0 s2), relative (beq s1 s0) .MAX,
     relative (beq zero zero) .RVAL] ++
  label .TEARDOWN
    [plain (lw s0 sp 0), plain (lw s1 sp 1), plain (lw s2 sp 2), plain (addi sp sp 3),
     plain (lw t0 sp 0), plain (lw t1 sp 1), plain (lw t2 sp 2), plain (addi sp sp 3),
     special di, plain (lw k0 sp 0), plain (addi sp sp 1), special reti] ++
  label .initsp [fill 0xA000] ++
  label .ticks [fill 0xFFFF] ++
  label .range [fill 0xFFFE] ++
  label .maxval [fill 0xFFFD] ++
  label .minval [fill 0xFFFC]

/-- The address of a label, since the file starts at address 0. -/
def address (name : Label) : Nat := source.findIdx fun line => line.1 = some name

/-- A word of the image. -/
inductive Content
  | datum (value : Nat)
  | code (c : Command)
deriving DecidableEq, Repr

def Content.word : Content → Nat
  | datum value => value
  | code c => uint c.encode

/-- An offset counts from the address behind the instruction. -/
def Item.content (pc : Nat) : Item → Content
  | fill value => .datum value
  | plain i => .code (.ordinary i)
  | relative instr target => .code (.ordinary (instr (address target - (pc + 1))))
  | special c => .code c

def assemble (pc : Nat) : List (Option Label × Item) → List Content
  | [] => []
  | line :: lines => line.2.content pc :: assemble (pc + 1) lines

/-- The program as it is loaded. -/
def prj2 : List Content := assemble 0 source

def code (pc : Nat) : Option Command :=
  match prj2[pc]? with
  | some (.code c) => some c
  | _ => none

/-- The program writes two vectors and its answer, and no other word of its image. -/
def Fixed (a : Nat) : Prop := 2 ≤ a ∧ a ≠ address .ANS

instance (a : Nat) : Decidable (Fixed a) := inferInstanceAs (Decidable (_ ∧ _))

/-- A word of data that stays as it was assembled. -/
def constant (a : Nat) : Option Nat :=
  match prj2[a]? with
  | some (.datum value) => if Fixed a then some value else none
  | _ => none

/-- The cells above the stack that the handlers share. -/
def Shared (a : Nat) : Prop := 0xFFFC ≤ a ∧ a ≤ 0xFFFF

instance (a : Nat) : Decidable (Shared a) := inferInstanceAs (Decidable (_ ∧ _))

/-- The memory still holds the program. -/
def Loaded (mem : Nat → Nat) : Prop :=
  ∀ a content, prj2[a]? = some content → Fixed a → mem a = content.word

/-- The processor is about to run `main`; its registers may hold anything but `$zero` is 0. -/
structure Started (p : Processor) : Prop where
  image : ∀ a content, prj2[a]? = some content → p.MEM a = content.word
  memory : ∀ a, p.MEM a < 2 ^ 32
  registers : ∀ r, p.REGS r < 2 ^ 32
  zero : p.REGS 0 = 0
  entry : p.PC = address .main
  disabled : p.IE = false
  running : p.HALTED = false

/-! ## Fetching -/

/-- A word with a sign of 20 digits, which the simulator understands. -/
def Command.sound : Command → Bool
  | .ordinary (.addi _ _ v) | .ordinary (.lw _ _ v) | .ordinary (.sw _ _ v) | .ordinary (.beq _ _ v)
  | .ordinary (.blt _ _ v) | .ordinary (.lea _ v) => decide (-2 ^ 19 ≤ v ∧ v < 2 ^ 19)
  | .ordinary (.inc _) => false
  | .ordinary (.jalr target ra) => decide ¬(target = 0 ∧ ra = 0)
  | _ => true

theorem Command.sound_iff {c : Command} (sound : c.sound = true) (p : Processor) :
    c.InRange ∧ c.Supported p := by
  cases c with
  | ordinary i =>
    cases i with
    | inc => cases sound
    | jalr target ra => exact ⟨trivial, fun both => absurd both (of_decide_eq_true sound)⟩
    | add | nand | halt | min | max | noop => exact ⟨trivial, trivial⟩
    | _ => exact ⟨of_decide_eq_true (p := -2 ^ 19 ≤ _ ∧ _ < 2 ^ 19) sound, trivial⟩
  | _ => exact ⟨trivial, trivial⟩

theorem length_prj2 : prj2.length = 175 := by decide +kernel

theorem address_ANS : address .ANS = 42 := by decide +kernel

theorem code_sound : ∀ a < 175, (code a).all (fun c => c.sound && decide (Fixed a)) = true := by
  decide +kernel

variable {p : Processor} {c : Command}

theorem code_lt {a : Nat} (at' : code a = some c) : a < 175 := by
  by_contra beyond
  have none : prj2[a]? = none := List.getElem?_eq_none (by rw [length_prj2]; omega)
  unfold code at at'
  rw [none] at at'
  cases at'

theorem code_word {a : Nat} (at' : code a = some c) : prj2[a]? = some (.code c) := by
  unfold code at at'
  split at at'
  · next content => rw [content, Option.some.inj at']
  · cases at'

theorem Loaded.fetch (loaded : Loaded p.MEM) (at' : code p.PC = some c) :
    p.accessMem p.PC = uint c.encode ∧ c.sound = true := by
  have low := code_lt at'
  have check := code_sound p.PC low
  rw [at', Option.all_some, Bool.and_eq_true] at check
  refine ⟨?_, check.1⟩
  unfold Machine.accessMem
  rw [if_neg (by omega)]
  exact loaded _ _ (code_word at') (of_decide_eq_true check.2)

/-- The processor gives a command of the program its effect. -/
theorem Loaded.cycle (loaded : Loaded p.MEM) (at' : code p.PC = some c) (value : Nat) :
    p.cycle value = some (c.effect value p) := by
  have low := code_lt at'
  obtain ⟨fetch, sound⟩ := loaded.fetch at'
  obtain ⟨range, supported⟩ := Command.sound_iff sound p
  exact Command.cycle_encode (by omega) range supported fetch value

/-- The processor returns from a handler where the program says so. -/
theorem Loaded.returning_iff (loaded : Loaded p.MEM) (at' : code p.PC = some c)
    (running : p.HALTED = false) : p.Returning ↔ c = .reti := by
  obtain ⟨fetch, sound⟩ := loaded.fetch at'
  rw [← Command.number_eq (Command.sound_iff sound p).2, ← Command.opcode_fetch fetch]
  exact and_iff_right running

end SystemsProjects.Irq
