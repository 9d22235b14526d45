import SystemsProjects.Cpu.Circuit

/-!
# The microcode of the LC-4000

The rows of `microcode.xlsx` are what the splitters take out of the words of the `MAIN` ROM. A
chain of rows is an instruction, from the fetch on.
-/

namespace SystemsProjects.Cpu

/-- The rows of the table, named by their macro states. -/
def microcode : List Signals :=
  [ -- ifetch
   { nextState := 1, DrPC := true, LdMAR := true, LdA := true },
   { nextState := 2, DrMEM := true, LdIR := true },
   { nextState := 0, DrALU := true, LdPC := true, func := 3, OPTest := true },
   -- add
   { nextState := 4, DrREG := true, LdA := true, RegSel := 1 },
   { nextState := 5, DrREG := true, LdB := true, RegSel := 2 },
   { nextState := 0, DrALU := true, WrREG := true },
   -- nand
   { nextState := 7, DrREG := true, LdA := true, RegSel := 1 },
   { nextState := 8, DrREG := true, LdB := true, RegSel := 2 },
   { nextState := 0, DrALU := true, WrREG := true, func := 2 },
   -- addi
   { nextState := 10, DrREG := true, LdA := true, RegSel := 1 },
   { nextState := 11, DrOff := true, LdB := true },
   { nextState := 0, DrALU := true, WrREG := true },
   -- lw
   { nextState := 13, DrREG := true, LdA := true, RegSel := 1 },
   { nextState := 14, DrOff := true, LdB := true },
   { nextState := 15, DrALU := true, LdMAR := true },
   { nextState := 0, DrMEM := true, WrREG := true },
   -- sw
   { nextState := 17, DrREG := true, LdA := true, RegSel := 1 },
   { nextState := 18, DrOff := true, LdB := true },
   { nextState := 19, DrALU := true, LdMAR := true },
   { nextState := 0, DrREG := true, WrMEM := true },
   -- beq
   { nextState := 21, DrREG := true, LdA := true },
   { nextState := 22, DrREG := true, LdB := true, RegSel := 1 },
   { nextState := 23, DrALU := true, LdCmp := true, func := 1 },
   { nextState := 0, ChkCmp := true },
   { nextState := 25, DrPC := true, LdA := true },
   { nextState := 26, DrOff := true, LdB := true },
   { nextState := 0, DrALU := true, LdPC := true },
   -- jalr
   { nextState := 28, DrPC := true, WrREG := true, RegSel := 1 },
   { nextState := 0, DrREG := true, LdPC := true },
   -- halt
   { nextState := 29 },
   -- blt
   { nextState := 31, DrREG := true, LdA := true },
   { nextState := 32, DrREG := true, LdB := true, RegSel := 1 },
   { nextState := 33, DrALU := true, LdCmp := true, func := 1 },
   { nextState := 0, ChkCmp := true },
   { nextState := 35, DrPC := true, LdA := true },
   { nextState := 36, DrOff := true, LdB := true },
   { nextState := 0, DrALU := true, LdPC := true },
   -- lea
   { nextState := 38, DrPC := true, LdA := true },
   { nextState := 39, DrOff := true, LdB := true },
   { nextState := 0, DrALU := true, WrREG := true },
   -- max/min
   { nextState := 41, DrREG := true, LdA := true, RegSel := 1 },
   { nextState := 42, DrREG := true, LdB := true, RegSel := 2 },
   { nextState := 43, DrALU := true, LdCmp := true, func := 1 },
   { nextState := 0, ChkCmp := true },
   -- min
   { nextState := 46, DrREG := true, LdA := true, RegSel := 1 },
   -- max
   { nextState := 46, DrREG := true, LdA := true, RegSel := 2 },
   -- max/min
   { nextState := 0, DrALU := true, WrREG := true, func := 4 }]

/-- The table is what is in the ROM. -/
theorem microcode_mainROM : mainROM.map signals = microcode := by decide

namespace Datapath

variable {d : Datapath}

theorem control_eq {k : Nat} {c : Signals} (here : d.State.toNat = k)
    (row : microcode[k]? = some c) : d.control = c := by
  rw [← microcode_mainROM, List.getElem?_map] at row
  obtain ⟨word, found, rfl⟩ := Option.map_eq_some_iff.mp row
  rw [control, rom, List.getD_eq_getElem?_getD, here, found]
  rfl

/-- One cycle of a chain. -/
theorem clocks_next {k n : Nat} {c : Signals} {d' : Datapath} (here : d.State.toNat = k)
    (row : microcode[k]? = some c) (edge : d.edge c = some d') :
    d.clocks (n + 1) = d'.clocks n := by
  rw [clocks, clock, control_eq here row, edge, Option.bind_some]

theorem clocks_add {d' : Datapath} {m : Nat} (first : d.clocks m = some d') (n : Nat) :
    d.clocks (m + n) = d'.clocks n := by
  induction m generalizing d with
  | zero =>
    obtain rfl : d = d' := Option.some.inj first
    rw [Nat.zero_add]
  | succ m ih =>
    rw [clocks, Option.bind_eq_some_iff] at first
    obtain ⟨next, clock, first⟩ := first
    rw [Nat.add_right_comm, clocks, clock, Option.bind_some, ih first]

/-! ## The bus -/

/-- Under the signals of a row each wire that is loaded has exactly one driver. -/
theorem edge_isSome (d : Datapath) {c : Signals} (mem : c ∈ microcode) : (d.edge c).isSome := by
  have all : ∀ c ∈ microcode, (d.edge c).isSome := by
    simp only [microcode, List.forall_mem_cons]
    and_intros
    all_goals first | rfl | exact fun _ none => absurd none List.not_mem_nil
  exact all c mem

theorem clock_isSome (d : Datapath) : d.clock.isSome := by
  by_cases inside : d.State.toNat < microcode.length
  · rw [clock, control_eq rfl (List.getElem?_eq_getElem inside)]
    exact d.edge_isSome (List.getElem_mem inside)
  · have idle : d.control = signals 0 := by
      rw [← microcode_mainROM, List.length_map] at inside
      rw [control, rom, List.getD_eq_getElem?_getD,
        List.getElem?_eq_none (Nat.le_of_not_lt inside), Option.getD_none]
    rw [clock, idle]
    rfl

/-- No cycle ever loads a wire without a driver, or with two. -/
theorem clocks_isSome (d : Datapath) (n : Nat) : (d.clocks n).isSome := by
  induction n generalizing d with
  | zero => rfl
  | succ n ih =>
    obtain ⟨next, clock⟩ := Option.isSome_iff_exists.mp d.clock_isSome
    rw [clocks, clock]
    exact ih next

end Datapath

end SystemsProjects.Cpu
