import SystemsProjects.Lc.Simulator

/-!
# The simulator as a 32-bit machine

Every instruction reduces the values that it stores, but `PC += 1` is not reduced. Only the
step from the last address can leave the range.
-/

namespace SystemsProjects.Lc

open Digits

/-! ## Fields of a word -/

theorem forceUnsigned_lt (num : Int) (bits : Nat) : forceUnsigned num bits < 2 ^ bits := by
  have positive : (0 : Int) < 2 ^ bits := Int.pow_pos (by omega)
  have less := Int.emod_lt_of_pos num positive
  have least := Int.emod_nonneg num positive.ne'
  have cast : ((2 ^ bits : Nat) : Int) = 2 ^ bits := by push_cast; rfl
  unfold forceUnsigned
  omega

theorem format32_of_lt {w : Nat} (lt : w < 2 ^ 32) : format32 w = digits 32 w :=
  format_of_lt (by omega) lt

/-- A slice of a word is what lies between two powers of 2. -/
theorem bitRange_digits {high low w : Nat} (low_le : low ≤ high) (high_le : high ≤ 31) :
    bitRange (digits 32 w) high low = digits (high - low + 1) (w / 2 ^ low) := by
  have front : 32 = (31 - high) + ((high - low + 1) + low) := by omega
  have drop : (digits 32 w).drop (31 - high) = digits ((high - low + 1) + low) w := by
    rw [front, digits_add, List.drop_left' (length_digits ..)]
  rw [bitRange, drop, digits_add, List.take_left' (length_digits ..)]

/-! ## One step -/

/-- What a 32-bit machine has. -/
structure Word32 (s : Machine) : Prop where
  zero : s.REGS 0 = 0
  regs : ∀ r, s.REGS r < 2 ^ 32
  mem : ∀ addr, s.MEM addr < 2 ^ 32
  PC : s.PC < 2 ^ 32

/-- The fetched instruction has 32 digits, and its slices are its fields. -/
def Decodes (s : Machine) : Prop :=
  (format32 (s.accessMem s.PC)).length = 32 ∧
  ∀ high low, low ≤ high → high ≤ 31 →
    uint (bitRange (format32 (s.accessMem s.PC)) high low) =
      s.accessMem s.PC / 2 ^ low % 2 ^ (high - low + 1)

theorem Word32.decodes {s : Machine} (word : Word32 s) : Decodes s := by
  have lt : s.accessMem s.PC < 2 ^ 32 := word.mem _
  unfold Decodes
  rw [format32_of_lt lt]
  constructor
  · exact length_digits ..
  · intro high low low_le high_le
    rw [bitRange_digits low_le high_le, uint, value_digits]

/-- The instruction does not go on to the next address, and it keeps no return address. -/
def Leaves (s : Machine) (ireg : List Bool) : Op → Prop
  | .HALT => True
  | .BEQ => s.REGS (regno (bitRange ireg 27 24)) = s.REGS (regno (bitRange ireg 23 20))
  | .BLT =>
    forceSigned (s.REGS (regno (bitRange ireg 27 24))) 32 <
      forceSigned (s.REGS (regno (bitRange ireg 23 20))) 32
  | .JALR => regno (bitRange ireg 23 20) = 0 ∧ regno (bitRange ireg 27 24) ≠ 0
  | _ => False

/-- The step takes the unreduced `PC + 1` from the last address. -/
def Wraps (s : Machine) : Prop :=
  s.PC = 2 ^ 32 - 1 ∧
  ∀ op, opName (bitRange (format32 (s.accessMem s.PC)) 31 28) = some op →
    ¬ Leaves s (format32 (s.accessMem s.PC)) op

section

variable {s : Machine} {ireg : List Bool}

theorem setReg_lt (regs : ∀ r, s.REGS r < 2 ^ 32) {r : Fin 16} {v : Nat} (lt : v < 2 ^ 32) :
    ∀ q, (s.setReg r v).REGS q < 2 ^ 32 := by
  intro q
  rw [Machine.setReg_REGS]
  split
  · exact lt
  · exact regs q

/-- After an instruction `$zero` is 0 again. -/
theorem word32_zeroed (regs : ∀ r, r ≠ 0 → s.REGS r < 2 ^ 32) (mem : ∀ addr, s.MEM addr < 2 ^ 32)
    (PC : s.PC < 2 ^ 32) : Word32 (s.setReg 0 0) := by
  refine ⟨?_, fun r => ?_, mem, PC⟩
  · rw [Machine.setReg_REGS, if_pos rfl]
  · rw [Machine.setReg_REGS]
    split
    · omega
    · exact regs r ‹_›

/-- Registers and memory keep to 32 bits, and so does `PC` if it fits or the instruction
sets it. -/
theorem execute_word32 (regs : ∀ r, s.REGS r < 2 ^ 32) (mem : ∀ addr, s.MEM addr < 2 ^ 32) {op : Op}
    (bound : s.PC ≤ 2 ^ 32) (fits : s.PC < 2 ^ 32 ∨ Leaves s ireg op) :
    Word32 ((s.execute ireg op).setReg 0 0) := by
  have written : ∀ {r v}, v < 2 ^ 32 → s.PC < 2 ^ 32 → Word32 ((s.setReg r v).setReg 0 0) :=
    fun lt PC => word32_zeroed (fun q _ => setReg_lt regs lt q) mem PC
  have jumped : ∀ {v}, v < 2 ^ 32 → Word32 ((s.setPC v).setReg 0 0) :=
    fun lt => word32_zeroed (fun q _ => regs q) mem lt
  cases op with
  | ADD | NAND | ADDI | LEA | MINMAX =>
    exact written (forceUnsigned_lt ..) (fits.resolve_right id)
  | LW => exact written (mem _) (fits.resolve_right id)
  | SW =>
    apply word32_zeroed (s := s.execute ireg .SW) (fun r _ => regs r) _ (fits.resolve_right id)
    intro addr
    rw [Machine.execute, Machine.store_MEM]
    split
    · exact regs _
    · exact mem addr
  | HALT => exact word32_zeroed (fun r _ => regs r) mem (by dsimp only [Machine.execute]; omega)
  | BEQ | BLT =>
    rw [Machine.execute]
    split
    · exact jumped (forceUnsigned_lt ..)
    · exact word32_zeroed (fun r _ => regs r) mem (fits.resolve_right ‹_›)
  | JALR =>
    apply word32_zeroed (s := s.execute ireg .JALR) _ mem
    · rw [Machine.execute, Machine.setPC_PC, Machine.setReg_REGS]
      split
      · obtain fits | ⟨ra, other⟩ := fits
        · exact fits
        · exact absurd (‹_ = _›.trans ra) other
      · exact regs _
    · intro r nonzero
      rw [Machine.execute, Machine.setPC_REGS, Machine.setReg_REGS]
      split
      · obtain fits | ⟨ra, -⟩ := fits
        · exact fits
        · exact absurd (‹_ = _›.trans ra) nonzero
      · exact regs r

/-- From the last address all others leave 2^32 in `PC` or in a register. -/
theorem execute_wraps {op : Op} (past : s.PC = 2 ^ 32) (stays : ¬ Leaves s ireg op) :
    ¬ Word32 ((s.execute ireg op).setReg 0 0) := by
  intro word
  have less : (s.execute ireg op).PC < 2 ^ 32 := word.PC
  cases op with
  | ADD | NAND | ADDI | LEA | MINMAX | LW | SW => exact absurd past less.ne
  | HALT => exact stays trivial
  | BEQ =>
    unfold Leaves at stays
    rw [Machine.execute, if_neg stays] at less
    exact absurd past less.ne
  | BLT =>
    unfold Leaves at stays
    rw [Machine.execute, if_neg stays] at less
    exact absurd past less.ne
  | JALR =>
    unfold Machine.execute at less
    rw [Machine.setPC_PC, Machine.setReg_REGS] at less
    by_cases ra : regno (bitRange ireg 23 20) = 0
    · by_cases at' : regno (bitRange ireg 27 24) = 0
      · rw [if_pos (at'.trans ra.symm)] at less
        exact absurd past less.ne
      · exact stays ⟨ra, at'⟩
    · have kept := word.regs (regno (bitRange ireg 23 20))
      rw [Machine.setReg_REGS, if_neg ra, Machine.execute, Machine.setPC_REGS, Machine.setReg_REGS,
        if_pos rfl] at kept
      exact absurd past kept.ne

/-- A step leaves a 32-bit machine if and only if it does not wrap. -/
theorem step_word32 {s' : Machine} (word : Word32 s) (ok : s.stepInstruction = .ok s') :
    Word32 s' ↔ ¬ Wraps s := by
  unfold Machine.stepInstruction at ok
  dsimp only at ok
  split at ok
  · cases ok
  · rename_i op named
    cases ok
    constructor
    · rintro word' ⟨last, stays⟩
      have past : (s.setPC (s.PC + 1)).PC = 2 ^ 32 := by
        rw [Machine.setPC_PC, last]
        rfl
      exact execute_wraps past (stays op named) word'
    · intro inside
      have bound := word.PC
      apply execute_word32 (s := s.setPC (s.PC + 1)) word.regs word.mem bound
      by_cases last : s.PC = 2 ^ 32 - 1
      · by_contra neither
        exact inside ⟨last, fun op' named' leaves =>
          neither (.inr (Option.some.inj (named.symm.trans named') ▸ leaves))⟩
      · exact .inl (by rw [Machine.setPC_PC]; omega)

end

/-! ## Runs -/

section

variable {runfile : List (List Bool)}

theorem loadProgram_word32 (words : ∀ line ∈ runfile, uint line < 2 ^ 32) :
    Word32 (loadProgram runfile) := by
  refine ⟨rfl, fun _ => Nat.two_pow_pos 32, fun addr => ?_, Nat.two_pow_pos 32⟩
  dsimp only [loadProgram]
  cases found : runfile[addr]? with
  | none => exact Nat.two_pow_pos 32
  | some line => exact words line (List.mem_of_getElem? found)

/-- A call that returns comes after calls that return. -/
theorem steps_succ {s s' : Machine} {k : Nat} (ok : s.steps (k + 1) = .ok s') :
    ∃ t, s.steps k = .ok t ∧ t.stepInstruction = .ok s' := by
  unfold Machine.steps at ok
  cases before : s.steps k with
  | error op => simp [before, Except.bind] at ok
  | ok t => exact ⟨t, rfl, by simpa [before, Except.bind] using ok⟩

theorem steps_before {s s' : Machine} {n k : Nat} (ok : s.steps n = .ok s') (le : k ≤ n) :
    ∃ t, s.steps k = .ok t := by
  induction n generalizing s' with
  | zero => exact ⟨s', Nat.le_zero.mp le ▸ ok⟩
  | succ n ih =>
    obtain eq | lt := Nat.eq_or_lt_of_le le
    · exact ⟨s', eq ▸ ok⟩
    · obtain ⟨t, reached, -⟩ := steps_succ ok
      exact ih reached (Nat.le_of_lt_succ lt)

/-- All states up to the `n`-th are those of a 32-bit machine if no step before wraps. -/
theorem steps_word32 {s : Machine} (word : Word32 s) {n : Nat}
    (inside : ∀ k < n, ∀ t, s.steps k = .ok t → ¬ Wraps t) :
    ∀ k ≤ n, ∀ t, s.steps k = .ok t → Word32 t := by
  intro k
  induction k with
  | zero =>
    intro _ t ok
    cases ok
    exact word
  | succ k ih =>
    intro le t ok
    obtain ⟨before, reached, step⟩ := steps_succ ok
    exact (step_word32 (ih (by omega) before reached) step).mpr (inside k le before reached)

/-- A run of calls without error keeps to 32 bits if and only if none of its steps goes past
the last address. -/
theorem simulator_keeps_words (words : ∀ line ∈ runfile, uint line < 2 ^ 32) (n : Nat) (s : Machine)
    (run : (loadProgram runfile).steps n = .ok s) :
    (∀ k ≤ n, ∀ t, (loadProgram runfile).steps k = .ok t → Word32 t ∧ Decodes t) ↔
      ∀ k < n, ∀ t, (loadProgram runfile).steps k = .ok t → ¬ Wraps t := by
  constructor
  · intro kept k lt t ok
    obtain ⟨t', ok'⟩ := steps_before run lt
    obtain ⟨before, reached, step⟩ := steps_succ ok'
    cases ok.symm.trans reached
    exact (step_word32 (kept k lt.le t ok).1 step).mp (kept (k + 1) lt t' ok').1
  · intro inside k le t ok
    have word := steps_word32 (loadProgram_word32 words) inside k le t ok
    exact ⟨word, word.decodes⟩

end

/-- Loads the last address into a register and goes there. -/
def lastAddress : List (List Bool) :=
  [digits 32 0x260fffff, -- addi $t0, $zero, -1
   digits 32 0x66f00000] -- jalr $t0, $ra

/-- From the last address the machine goes on to 2^32. -/
theorem last_address_wraps : ¬ ∀ runfile : List (List Bool),
    (∀ line ∈ runfile, uint line < 2 ^ 32) →
    ∀ n s, (loadProgram runfile).steps n = .ok s → Word32 s ∧ Decodes s := by
  intro law
  have wraps : ((loadProgram lastAddress).steps 3).toOption.map Machine.PC = some (2 ^ 32) := by
    decide +kernel
  cases run : (loadProgram lastAddress).steps 3 with
  | error op => simp [run, Except.toOption] at wraps
  | ok s =>
    have less := (law lastAddress (by decide) 3 s run).1.PC
    rw [run] at wraps
    exact absurd (Option.some.inj wraps) less.ne

/-- Until it is there nothing is wrong. -/
theorem simulator_keeps_words_until : ((loadProgram lastAddress).steps 2).toBool = true ∧
    ∀ k ≤ 2, ∀ t, (loadProgram lastAddress).steps k = .ok t → Word32 t ∧ Decodes t := by
  have runs : ((loadProgram lastAddress).steps 2).toBool = true := by decide +kernel
  have low : ∀ k < 2, ((loadProgram lastAddress).steps k).toOption.map Machine.PC = some k := by
    decide +kernel
  cases run : (loadProgram lastAddress).steps 2 with
  | error op => simp [run, Except.toBool] at runs
  | ok s =>
    refine ⟨rfl, (simulator_keeps_words (by decide) 2 s run).mpr ?_⟩
    intro k lt t reached wraps
    have here := low k lt
    rw [reached] at here
    have := Option.some.inj here
    have := wraps.1
    omega

end SystemsProjects.Lc
