import SystemsProjects.Cpu.Microcode

/-!
# The instructions of the circuit

What the microcode does to the program counter, the registers and the memory from one fetch to
the next, whatever the other registers of the datapath hold.
-/

namespace SystemsProjects.Cpu

namespace Visible

variable (s : Visible)

/-- The word at the program counter. -/
def fetch : Word := s.memory (s.PC.setWidth 16)

/-- Where a load or a store goes. -/
def effective (IR : Word) : BitVec 16 := (s.registers (ry IR) + offset IR).setWidth 16

/-- An instruction, with the program counter past it. A comparison looks at the sign of a
difference. -/
def execute (IR : Word) : Visible :=
  let x := s.registers (rx IR)
  let y := s.registers (ry IR)
  let z := s.registers (rz IR)
  let target := s.PC + offset IR
  match (opcode IR).toNat with
  | 0 => s.write (rx IR) (y + z)
  | 1 => s.write (rx IR) (~~~(y &&& z))
  | 2 => s.write (rx IR) (y + offset IR)
  | 3 => s.write (rx IR) (s.memory (s.effective IR))
  | 4 => s.store (s.effective IR) x
  | 5 => if x - y = 0 then s.jump target else s
  | 6 => (s.write (ry IR) s.PC).jump ((s.write (ry IR) s.PC).registers (rx IR))
  | 8 => if (x - y).slt 0 then s.jump target else s
  | 9 => s.write (rx IR) target
  | 10 =>
    let first := if mode IR then (0 : Word).slt (y - z) else (y - z).slt 0
    s.write (rx IR) (if first then y else z)
  | _ => s

/-- From one fetch to the next. -/
def instruction : Visible := (s.jump (s.PC + 1)).execute s.fetch

/-- The word at the program counter is a HALT. -/
def halts : Prop := (opcode s.fetch).toNat = 7

instance : Decidable s.halts := inferInstanceAs (Decidable (_ = _))

/-- So many instructions. -/
def instructions : Nat → Visible
  | 0 => s
  | k + 1 => (instructions k).instruction

end Visible

namespace Datapath

/-- After `n` cycles the microcontroller is in this state, and the rest as it says. -/
def Reaches (d : Datapath) (n : Nat) (State : BitVec 6) (s : Visible) : Prop :=
  ∃ d', d.clocks n = some d' ∧ d'.State = State ∧ d'.toVisible = s

variable {d : Datapath}

theorem Reaches.intro {n : Nat} {s : Visible} {A B MAR IR : Word} {CmpReg : BitVec 2}
    {State : BitVec 6} (run : d.clocks n = some ⟨s, A, B, MAR, IR, CmpReg, State⟩) :
    d.Reaches n State s :=
  ⟨_, run, rfl, rfl⟩

theorem Reaches.after {d' : Datapath} {m n : Nat} {State : BitVec 6} {s : Visible}
    (rest : d'.Reaches n State s) (first : d.clocks m = some d') : d.Reaches (m + n) State s := by
  obtain ⟨last, run, here, visible⟩ := rest
  exact ⟨last, (clocks_add first n).trans run, here, visible⟩

/-! ## Chains of rows -/

theorem fetch_cycles (here : d.State = 0) :
    d.clocks 3 = some ⟨d.toVisible.jump (d.PC + 1), d.PC, d.B, d.PC, d.fetch, d.CmpReg,
      rom seqROM (opcode d.fetch).toNat⟩ := by
  rw [clocks_next (congrArg _ here) rfl rfl, clocks_next rfl rfl rfl, clocks_next rfl rfl rfl]
  rfl

theorem add_cycles (here : d.State = 3) : d.Reaches 3 0
    (d.toVisible.write (rx d.IR) (d.registers (ry d.IR) + d.registers (rz d.IR))) := by
  apply Reaches.intro
  rw [clocks_next (congrArg _ here) rfl rfl, clocks_next rfl rfl rfl, clocks_next rfl rfl rfl]
  rfl

theorem nand_cycles (here : d.State = 6) : d.Reaches 3 0
    (d.toVisible.write (rx d.IR) (~~~(d.registers (ry d.IR) &&& d.registers (rz d.IR)))) := by
  apply Reaches.intro
  rw [clocks_next (congrArg _ here) rfl rfl, clocks_next rfl rfl rfl, clocks_next rfl rfl rfl]
  rfl

theorem addi_cycles (here : d.State = 9) : d.Reaches 3 0
    (d.toVisible.write (rx d.IR) (d.registers (ry d.IR) + offset d.IR)) := by
  apply Reaches.intro
  rw [clocks_next (congrArg _ here) rfl rfl, clocks_next rfl rfl rfl, clocks_next rfl rfl rfl]
  rfl

theorem lw_cycles (here : d.State = 12) : d.Reaches 4 0
    (d.toVisible.write (rx d.IR) (d.memory (d.effective d.IR))) := by
  apply Reaches.intro
  rw [clocks_next (congrArg _ here) rfl rfl, clocks_next rfl rfl rfl, clocks_next rfl rfl rfl,
    clocks_next rfl rfl rfl]
  rfl

theorem sw_cycles (here : d.State = 16) : d.Reaches 4 0
    (d.toVisible.store (d.effective d.IR) (d.registers (rx d.IR))) := by
  apply Reaches.intro
  rw [clocks_next (congrArg _ here) rfl rfl, clocks_next rfl rfl rfl, clocks_next rfl rfl rfl,
    clocks_next rfl rfl rfl]
  rfl

theorem jalr_cycles (here : d.State = 27) : d.Reaches 2 0
    ((d.toVisible.write (ry d.IR) d.PC).jump
      ((d.toVisible.write (ry d.IR) d.PC).registers (rx d.IR))) := by
  apply Reaches.intro
  rw [clocks_next (congrArg _ here) rfl rfl, clocks_next rfl rfl rfl]
  rfl

theorem lea_cycles (here : d.State = 37) : d.Reaches 3 0
    (d.toVisible.write (rx d.IR) (d.PC + offset d.IR)) := by
  apply Reaches.intro
  rw [clocks_next (congrArg _ here) rfl rfl, clocks_next rfl rfl rfl, clocks_next rfl rfl rfl]
  rfl

/-- The rows behind a comparison that holds. -/
theorem branch_cycles (here : d.State = 24) :
    d.Reaches 3 0 (d.toVisible.jump (d.PC + offset d.IR)) := by
  apply Reaches.intro
  rw [clocks_next (congrArg _ here) rfl rfl, clocks_next rfl rfl rfl, clocks_next rfl rfl rfl]
  rfl

/-- What a comparison leaves in `CmpReg` chooses the state behind it. -/
def compared (d : Datapath) (A B : Word) : Datapath :=
  let CmpOut := cmpLogic (A - B) (opcode d.IR) (mode d.IR)
  { d with A := A, B := B, CmpReg := CmpOut, State := rom ccROM CmpOut.toNat }

theorem beq_cycles (here : d.State = 20) :
    d.clocks 4 = some (d.compared (d.registers (rx d.IR)) (d.registers (ry d.IR))) := by
  rw [clocks_next (congrArg _ here) rfl rfl, clocks_next rfl rfl rfl, clocks_next rfl rfl rfl,
    clocks_next rfl rfl rfl]
  rfl

theorem blt_cycles (here : d.State = 30) :
    d.clocks 4 = some (d.compared (d.registers (rx d.IR)) (d.registers (ry d.IR))) := by
  rw [clocks_next (congrArg _ here) rfl rfl, clocks_next rfl rfl rfl, clocks_next rfl rfl rfl,
    clocks_next rfl rfl rfl]
  rfl

theorem minmax_cycles (here : d.State = 40) :
    d.clocks 4 = some (d.compared (d.registers (ry d.IR)) (d.registers (rz d.IR))) := by
  rw [clocks_next (congrArg _ here) rfl rfl, clocks_next rfl rfl rfl, clocks_next rfl rfl rfl,
    clocks_next rfl rfl rfl]
  rfl

theorem first_cycles (here : d.State = 44) :
    d.Reaches 2 0 (d.toVisible.write (rx d.IR) (d.registers (ry d.IR))) := by
  apply Reaches.intro
  rw [clocks_next (congrArg _ here) rfl rfl, clocks_next rfl rfl rfl]
  rfl

theorem second_cycles (here : d.State = 45) :
    d.Reaches 2 0 (d.toVisible.write (rx d.IR) (d.registers (rz d.IR))) := by
  apply Reaches.intro
  rw [clocks_next (congrArg _ here) rfl rfl, clocks_next rfl rfl rfl]
  rfl

theorem halt_cycles (here : d.State = 29) (n : Nat) : d.clocks n = some d := by
  induction n with
  | zero => rfl
  | succ n ih =>
    obtain ⟨s, A, B, MAR, IR, CmpReg, State⟩ := d
    obtain rfl : State = 29 := here
    rw [clocks_next rfl rfl rfl]
    exact ih

/-! ## From one fetch to the next -/

theorem Reaches.stays {State : BitVec 6} {s : Visible} (here : d.State = State)
    (visible : d.toVisible = s) : d.Reaches 0 State s :=
  ⟨d, rfl, here, visible⟩

theorem cmpLogic_beq {Din : Word} {op : BitVec 4} (m : Bool) (code : op.toNat = 5) :
    cmpLogic Din op m = if Din = 0 then 0b01#2 else 0b00#2 := by
  simp only [cmpLogic, code]

theorem cmpLogic_blt {Din : Word} {op : BitVec 4} (m : Bool) (code : op.toNat = 8) :
    cmpLogic Din op m = if Din.slt 0 then 0b01#2 else 0b00#2 := by
  simp only [cmpLogic, code]

theorem cmpLogic_minmax {Din : Word} {op : BitVec 4} (m : Bool) (code : op.toNat = 10) :
    cmpLogic Din op m = if (if m then (0 : Word).slt Din else Din.slt 0) then 0b10#2 else
      0b11#2 := by
  simp only [cmpLogic, code]
  cases m <;> rfl

/-- After a comparison the branch is taken or the next fetch begins. -/
theorem compared_branch {A B : Word} {taken : Prop} [Decidable taken]
    (compares : cmpLogic (A - B) (opcode d.IR) (mode d.IR) = if taken then 0b01#2 else 0b00#2) :
    ∃ n ≤ 3, (d.compared A B).Reaches n 0
      (if taken then d.toVisible.jump (d.PC + offset d.IR) else d.toVisible) := by
  have here : (d.compared A B).State = rom ccROM (if taken then 0b01#2 else 0b00#2).toNat := by
    rw [← compares]
    rfl
  by_cases holds : taken
  · rw [if_pos holds] at here ⊢
    exact ⟨3, by decide, branch_cycles (d := d.compared A B) here⟩
  · rw [if_neg holds] at here ⊢
    exact ⟨0, by decide, Reaches.stays here rfl⟩

theorem compared_choice {A B : Word} {first : Bool}
    (compares : cmpLogic (A - B) (opcode d.IR) (mode d.IR) = if first then 0b10#2 else 0b11#2) :
    (d.compared A B).Reaches 2 0
      (d.toVisible.write (rx d.IR) (if first then d.registers (ry d.IR)
        else d.registers (rz d.IR))) := by
  have here : (d.compared A B).State = rom ccROM (if first then 0b10#2 else 0b11#2).toNat := by
    rw [← compares]
    rfl
  cases first with
  | false => exact second_cycles (d := d.compared A B) here
  | true => exact first_cycles (d := d.compared A B) here

/-- The rows of each instruction do what the instruction does. -/
theorem execute_cycles (here : d.State = rom seqROM (opcode d.IR).toNat)
    (runs : (opcode d.IR).toNat ≠ 7) : ∃ n ≤ 7, d.Reaches n 0 (d.toVisible.execute d.IR) := by
  have lt : (opcode d.IR).toNat < 16 := (opcode d.IR).isLt
  unfold Visible.execute
  generalize code : (opcode d.IR).toNat = k at here runs lt ⊢
  match k with
  | 0 => exact ⟨3, by decide, add_cycles here⟩
  | 1 => exact ⟨3, by decide, nand_cycles here⟩
  | 2 => exact ⟨3, by decide, addi_cycles here⟩
  | 3 => exact ⟨4, by decide, lw_cycles here⟩
  | 4 => exact ⟨4, by decide, sw_cycles here⟩
  | 5 =>
    obtain ⟨n, le, reaches⟩ := compared_branch (cmpLogic_beq (mode d.IR) code)
    exact ⟨4 + n, by omega, reaches.after (beq_cycles here)⟩
  | 6 => exact ⟨2, by decide, jalr_cycles here⟩
  | 7 => exact absurd rfl runs
  | 8 =>
    obtain ⟨n, le, reaches⟩ := compared_branch (cmpLogic_blt (mode d.IR) code)
    exact ⟨4 + n, by omega, reaches.after (blt_cycles here)⟩
  | 9 => exact ⟨3, by decide, lea_cycles here⟩
  | 10 =>
    refine ⟨4 + 2, by decide, Reaches.after ?_ (minmax_cycles here)⟩
    exact compared_choice (cmpLogic_minmax (mode d.IR) code)
  | 11 =>
    -- the two ROMs lead to the comparison of a MINMAX and then back to the fetch
    have none : ∀ Din, cmpLogic Din (opcode d.IR) (mode d.IR) = 0b00#2 := by
      intro Din
      simp only [cmpLogic, code]
    have back : ∀ A B, (d.compared A B).State = 0 := by
      intro A B
      rw [compared, none]
      rfl
    exact ⟨4, by decide, (Reaches.stays (back _ _) rfl).after (minmax_cycles here)⟩
  | 12 | 13 | 14 | 15 => exact ⟨0, by decide, Reaches.stays here rfl⟩
  | k + 16 => omega

/-- One instruction takes from three to ten cycles. -/
theorem instruction_cycles (here : d.State = 0) (runs : ¬ d.halts) :
    ∃ n, 3 ≤ n ∧ n ≤ 10 ∧ d.Reaches n 0 d.toVisible.instruction := by
  obtain ⟨n, le, reaches⟩ := execute_cycles (d := ⟨d.toVisible.jump (d.PC + 1), d.PC, d.B, d.PC,
    d.fetch, d.CmpReg, rom seqROM (opcode d.fetch).toNat⟩) rfl runs
  exact ⟨3 + n, by omega, by omega, reaches.after (fetch_cycles here)⟩

/-- A HALT changes nothing but the program counter, and the circuit stays there. -/
theorem halt_forever (here : d.State = 0) (halts : d.halts) (n : Nat) :
    d.Reaches (3 + n) 29 (d.toVisible.jump (d.PC + 1)) := by
  have last : rom seqROM (opcode d.fetch).toNat = 29 := by
    rw [halts]
    rfl
  refine Reaches.after ?_ (fetch_cycles here)
  exact ⟨_, halt_cycles last n, last, rfl⟩

/-- As many instructions as there are before a HALT. -/
theorem instructions_cycles (here : d.State = 0) (k : Nat)
    (runs : ∀ j < k, ¬ (d.toVisible.instructions j).halts) :
    ∃ n, 3 * k ≤ n ∧ n ≤ 10 * k ∧ d.Reaches n 0 (d.toVisible.instructions k) := by
  induction k with
  | zero => exact ⟨0, Nat.le_refl _, Nat.le_refl _, Reaches.stays here rfl⟩
  | succ k ih =>
    obtain ⟨n, least, most, d', run, fetch, visible⟩ := ih fun j lt => runs j (Nat.lt_succ_of_lt lt)
    have next : ¬ d'.halts := visible ▸ runs k (Nat.lt_succ_self k)
    obtain ⟨m, least', most', reaches⟩ := instruction_cycles fetch next
    rw [visible] at reaches
    exact ⟨n + m, by omega, by omega, reaches.after run⟩

end Datapath

/-- The microcode implements the instructions: from any fetch on, the circuit goes through the
states that they give, in three to ten cycles each, and stays at the first HALT. Whatever its
registers hold, no cycle loads a wire without a driver or with two. -/
theorem microcode_implements {d : Datapath} (fetch : d.State = 0) {k : Nat}
    (runs : ∀ j < k, ¬ (d.toVisible.instructions j).halts) :
    (∃ n, 3 * k ≤ n ∧ n ≤ 10 * k ∧ d.Reaches n 0 (d.toVisible.instructions k) ∧
      ((d.toVisible.instructions k).halts → ∀ m, d.Reaches (n + (3 + m)) 29
        ((d.toVisible.instructions k).jump ((d.toVisible.instructions k).PC + 1)))) ∧
      ∀ n, (d.clocks n).isSome := by
  refine ⟨?_, d.clocks_isSome⟩
  obtain ⟨n, least, most, d', run, here, visible⟩ := Datapath.instructions_cycles fetch k runs
  refine ⟨n, least, most, ⟨d', run, here, visible⟩, fun halts m => ?_⟩
  rw [← visible] at halts ⊢
  exact (Datapath.halt_forever here halts m).after run

/-- `addi $t0, $t0, 5` all over the memory. -/
def adding : Datapath where
  PC := 0
  registers _ := 0
  memory _ := 0x26600005
  A := 0
  B := 0
  MAR := 0
  IR := 0
  CmpReg := 0
  State := 0

theorem microcode_implements_adding :
    ∃ n ≤ 20, ∃ d, adding.clocks n = some d ∧ d.State = 0 ∧ d.PC = 2 ∧ d.registers 6 = 10 := by
  have runs : ∀ j < 2, ¬ (adding.toVisible.instructions j).halts := by decide
  obtain ⟨⟨n, -, most, ⟨d, clocks, fetch, visible⟩, -⟩, -⟩ := microcode_implements rfl runs
  have reached : (adding.toVisible.instructions 2).PC = 2 ∧
      (adding.toVisible.instructions 2).registers 6 = 10 := by decide
  rw [← visible] at reached
  exact ⟨n, most, d, clocks, fetch, reached⟩

end SystemsProjects.Cpu
