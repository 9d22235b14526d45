import SystemsProjects.Cpu.Deadlines

/-!
# `prj2.s` fits the circuit

No address of the program needs more than 16 bits, and no two numbers that it compares are too far
apart: the distances are natural numbers.
-/

namespace SystemsProjects.Cpu

open Digits Lc Irq Register

/-! ## Commands that fit -/

/-- What the circuit needs to give a command the effect that it has in the simulator. -/
def fits (REGS : Fin 16 → Nat) : Command → Prop
  | .ordinary (.lw _ base offset) | .ordinary (.sw _ base offset) =>
    wrap (REGS base + offset) < 2 ^ 16
  | .ordinary (.blt sr1 sr2 _) | .ordinary (.min _ sr1 sr2) | .ordinary (.max _ sr1 sr2) =>
    Comparable (REGS sr1) (REGS sr2)
  | .ordinary (.jalr target ra) => ¬ (target = 0 ∧ ra = 0)
  | .input _ addr => addr = 1
  | _ => True

instance (REGS : Fin 16 → Nat) (cmd : Command) : Decidable (fits REGS cmd) := by
  unfold fits
  split <;> infer_instance

section

variable {p : Processor} {cmd : Command}

theorem ireg_encode (fetch : p.accessMem p.PC = uint cmd.encode) : p.ireg = cmd.encode := by
  rw [Machine.ireg, fetch, Command.format32_encode]

theorem number_known (supported : cmd.Supported p) : cmd.number ≠ 15 := by
  cases cmd with
  | ordinary i =>
    cases named : i.op with
    | none =>
      cases i <;> cases named
      exact supported.elim
    | some op =>
      have low := Command.number_ordinary named
      omega
  | ei | di | reti | input => exact Nat.ne_of_beq_eq_false rfl

theorem fits_ordinary {i : Instr} (range : i.InRange) (supported : i.Supported p.toMachine)
    (enough : fits p.REGS (.ordinary i)) {op : Op} (more : op ≠ .HALT)
    (named : opName (bitRange i.encode 31 28) = some op) : Fits p.toMachine i.encode op := by
  have zero : regno (digits 4 0) = 0 := rfl
  cases i with
  | inc => exact supported.elim
  | halt =>
    cases named
    exact absurd rfl more
  | lw dr base offset | sw sr base offset =>
    cases named
    have same : int2c (Instr.immediate offset) = offset := Instr.int2c_immediate range
    simp only [Fits, Instr.encode, Instr.layout_ry, Instr.layout_low (Instr.length_immediate _),
      Instr.regno_digits, same, forceUnsigned_wrap]
    exact enough
  | blt sr1 sr2 offset =>
    cases named
    simp only [Fits, Instr.encode, Instr.layout_rx, Instr.layout_ry, Instr.regno_digits]
    exact enough
  | min dr sr1 sr2 | max dr sr1 sr2 =>
    cases named
    simp only [Fits, Instr.encode, Instr.layout_ry, Instr.layout_third, Instr.regno_digits]
    exact enough
  | jalr target ra =>
    cases named
    simp only [Fits, Instr.encode, Instr.layout_rx, Instr.layout_ry, Instr.regno_digits]
    exact enough
  | _ =>
    cases named
    trivial

/-- A command that fits has what it needs. -/
theorem onBoard_command (least : 8 ≤ p.PC) (most : p.PC < 2 ^ 16)
    (fetch : p.accessMem p.PC = uint cmd.encode) (range : cmd.InRange) (supported : cmd.Supported p)
    (enough : fits p.REGS cmd) : OnBoard p := by
  have word := ireg_encode fetch
  refine ⟨least, most, ?_, ?_, ?_⟩
  · rw [Command.opcode_fetch fetch]
    exact number_known supported
  · intro reads
    rw [Command.opcode_fetch fetch] at reads
    obtain ⟨dr, addr, rfl⟩ := (Command.number_input supported).mp reads
    obtain rfl : addr = 1 := enough
    rw [word, Command.encode, Instr.layout_low (Instr.length_immediate 1),
      Instr.int2c_immediate (by decide)]
    exact ⟨rfl, rfl⟩
  · intro op named more
    rw [Machine.op, word] at named
    rw [word]
    cases cmd with
    | ordinary i => exact fits_ordinary range supported enough more named
    | ei | di | reti | input => cases named

/-- A place of the program. -/
theorem onBoard_program (loaded : Loaded p.MEM) (here : code p.PC = some cmd) (least : 8 ≤ p.PC)
    (enough : fits p.REGS cmd) : OnBoard p := by
  obtain ⟨fetch, sound⟩ := loaded.fetch here
  obtain ⟨range, supported⟩ := Command.sound_iff sound p
  have low := code_lt here
  exact onBoard_command least (by omega) fetch range supported enough

end

/-! ## Natural numbers -/

/-- A handler remembers natural numbers only. -/
def Natural : Phase → Prop
  | .fresh d | .raising d | .raised d | .lowering d | .lowered d => 0 ≤ d
  | .compared d x | .weighed d x | .rechecked d x => 0 ≤ d ∧ 0 ≤ x
  | _ => True

/-- The distances that have been seen are natural numbers. -/
structure Distances (now : Cells) (phases : List Phase) : Prop where
  maxval : 0 ≤ now.maxval
  minval : 0 ≤ now.minval
  natural : ∀ ph ∈ phases, Natural ph

theorem Distances.move {heard : Option Int} {now now' : Cells} {ph ph' : Phase} {rest : List Phase}
    (distances : Distances now (ph :: rest)) (move : Phase.Move heard now ph now' ph')
    (hears : ∀ v, heard = some v → 0 ≤ v) : Distances now' (ph' :: rest) := by
  obtain ⟨maxval, minval, natural⟩ := distances
  obtain ⟨own, others⟩ := List.forall_mem_cons.mp natural
  have moved : 0 ≤ now'.maxval ∧ 0 ≤ now'.minval ∧ Natural ph' := by
    cases move with
    | read _ d => exact ⟨maxval, minval, hears d rfl⟩
    | compare => exact ⟨maxval, minval, own, maxval⟩
    | raise => exact ⟨own, minval, own⟩
    | weigh => exact ⟨maxval, minval, own, minval⟩
    | lower => exact ⟨maxval, own, own⟩
    | recheck => exact ⟨maxval, minval, own, maxval⟩
    | greater | within | smaller | again => exact ⟨maxval, minval, own.1⟩
    | _ => exact ⟨maxval, minval, trivial⟩
  exact ⟨moved.1, moved.2.1, List.forall_mem_cons.mpr ⟨moved.2.2, others⟩⟩

/-- Natural numbers are near enough to compare them. -/
theorem comparable_natural {a b : Nat} (left : 0 ≤ signed a) (right : 0 ≤ signed b) :
    Comparable a b := by
  have below : ∀ a : Nat, signed a < 2 ^ 31 := by
    intro a
    exact Int.bmod_lt (m := 2 ^ 32) (by decide)
  have left' := below a
  have right' := below b
  unfold Comparable
  omega

/-! ## Handlers -/

/-- An address that the handler knows. -/
def Symbol.small : Symbol → Bool
  | .const a => decide (a < 2 ^ 16)
  | _ => false

/-- Why the command of a handler fits. -/
def fitting (pc : Nat) : Command → Bool
  | .ordinary (.lw _ base offset) | .ordinary (.sw _ base offset) =>
    decide (base = sp ∧ -8 ≤ offset ∧ offset ≤ 8) ||
      (decide (offset = 0) && (factsAt pc base).any Symbol.small)
  | .ordinary (.min _ sr1 sr2) | .ordinary (.max _ sr1 sr2) =>
    decide (sr1 = s0 ∧ sr2 = s2 ∧ stage pc ∈ [.compared, .weighed, .rechecked])
  | .ordinary (.blt ..) | .ordinary (.jalr ..) => false
  | .input _ addr => decide (addr = 1)
  | _ => true

theorem fitting_checked : ∀ pc < 170, 77 ≤ pc → (code pc).all (fitting pc) = true := by
  decide +kernel

section

variable {p c : Processor} {cmd : Command} {got : Source → Nat}

/-- The commands of a handler fit. -/
theorem fits_handler (handles : Handles got p.MEM c p) (here : code p.PC = some cmd)
    (low : 175 ≤ p.REGS sp) (high : p.REGS sp ≤ 0xA000) (natural : Natural p.phase) :
    fits p.REGS cmd := by
  obtain ⟨least, most⟩ := handles.place
  have check := fitting_checked p.PC most least
  rw [here, Option.all_some] at check
  have address : ∀ base offset, (decide (base = sp ∧ -8 ≤ offset ∧ offset ≤ 8) ||
      (decide (offset = 0) && (factsAt p.PC base).any Symbol.small)) = true →
      wrap (p.REGS base + offset) < 2 ^ 16 := by
    intro base offset check
    obtain stack | known := Bool.or_eq_true_iff.mp check
    · obtain ⟨rfl, above, below⟩ := of_decide_eq_true stack
      unfold wrap
      omega
    · obtain ⟨zero, known⟩ := Bool.and_eq_true_iff.mp known
      obtain rfl := of_decide_eq_true zero
      obtain ⟨s, found, small⟩ := (Option.any_eq_true _ _).mp known
      rw [handles.known rfl found, Int.add_zero]
      cases s with
      | const a =>
        replace small : a < 2 ^ 16 := of_decide_eq_true small
        exact (wrap_of_lt (n := a) (by omega)).trans_lt small
      | _ => cases small
  have compare : stage p.PC ∈ [.compared, .weighed, .rechecked] →
      Comparable (p.REGS s0) (p.REGS s2) := by
    intro places
    unfold Processor.phase at natural
    have both : 0 ≤ signed (p.REGS s0) ∧ 0 ≤ signed (p.REGS s2) := by
      simp only [List.mem_cons, List.not_mem_nil, or_false] at places
      obtain place | place | place := places <;> rw [place] at natural <;> exact natural
    exact comparable_natural both.1 both.2
  cases cmd with
  | ordinary i =>
    cases i with
    | lw dr base offset | sw dr base offset => exact address base offset check
    | min dr sr1 sr2 | max dr sr1 sr2 =>
      obtain ⟨rfl, rfl, place⟩ := of_decide_eq_true check
      exact compare place
    | blt | jalr => cases check
    | _ => trivial
  | input dr addr => exact of_decide_eq_true check
  | _ => trivial

end

end SystemsProjects.Cpu
