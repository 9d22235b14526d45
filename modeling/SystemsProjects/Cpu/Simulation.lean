import SystemsProjects.Cpu.Instructions
import SystemsProjects.Lc.Isa
import SystemsProjects.Lc.Memory

/-!
# The circuit and the simulator

`lc4000-sim.py` computes with numbers of any size and a memory of 24 address bits, the circuit
with words of 32 bits and a memory of 16 address bits. They agree as long as no address needs
more, no difference that is compared overflows, and `$zero` keeps no return address.
-/

namespace SystemsProjects.Cpu

open Digits Lc

/-! ## Numbers and words -/

theorem signed_toInt (x : Word) : signed x.toNat = x.toInt :=
  (BitVec.toInt_eq_toNat_bmod x).symm

theorem wrap_toInt (x : Word) (y : Int) : wrap (x.toInt + y) = wrap (x.toNat + y) := by
  rw [← signed_toInt, wrap_signed_add]

/-- The simulator adds the number that the offset stands for. -/
theorem wrap_add (x y : Word) : wrap (x.toNat + y.toInt) = (x + y).toNat := by
  rw [Int.add_comm, wrap_toInt, BitVec.toNat_add, wrap]
  omega

theorem wrap_word (x : Word) : wrap x.toInt = x.toNat := by
  have zero := wrap_toInt x 0
  rw [Int.add_zero, Int.add_zero] at zero
  rw [zero, wrap_of_lt x.isLt]

theorem forceUnsigned_not (x y : Word) :
    forceUnsigned (~~~((x.toNat &&& y.toNat : Nat) : Int)) 32 = (~~~(x &&& y)).toNat := by
  have lt : x.toNat &&& y.toNat < 2 ^ 32 := Nat.and_lt_two_pow _ y.isLt
  rw [BitVec.toNat_not, BitVec.toNat_and]
  show (Int.negSucc (x.toNat &&& y.toNat) % 2 ^ 32).toNat = _
  rw [Int.negSucc_eq]
  omega

theorem length_bitRange {high low w : Nat} (low_le : low ≤ high) (high_le : high ≤ 31) :
    (bitRange (digits 32 w) high low).length = high - low + 1 := by
  rw [bitRange_digits low_le high_le, length_digits]

theorem uint_bitRange {high low w : Nat} (low_le : low ≤ high) (high_le : high ≤ 31) :
    uint (bitRange (digits 32 w) high low) = w / 2 ^ low % 2 ^ (high - low + 1) := by
  rw [bitRange_digits low_le high_le, uint, value_digits]

/-- Four digits of a word name the register that the circuit selects. -/
theorem regno_bitRange (w : Word) {high low : Nat} (four : high = low + 3) (high_le : high ≤ 31) :
    regno (bitRange (digits 32 w.toNat) high low) = (w.extractLsb' low 4).toFin := by
  have width : high - low + 1 = 4 := by omega
  apply Fin.ext
  rw [regno, uint_bitRange (by omega) high_le, width]
  show w.toNat / 2 ^ low % 2 ^ 4 % 16 = (w.extractLsb' low 4).toNat
  rw [BitVec.extractLsb'_toNat, Nat.shiftRight_eq_div_pow]
  omega

theorem int2c_offset (w : Word) :
    int2c (bitRange (digits 32 w.toNat) 19 0) = (offset w).toInt := by
  rw [int2c, length_bitRange (by decide) (by decide), uint_bitRange (by decide) (by decide),
    forceSigned_eq _ 19, offset, BitVec.toInt_signExtend_of_le (by decide),
    BitVec.toInt_eq_toNat_bmod, BitVec.toNat_setWidth, pow_zero, Nat.div_one]

theorem bit_mode (w : Word) : bit (digits 32 w.toNat) 4 = mode w := rfl

/-! ## One instruction -/

/-- What the simulator holds at the addresses of the circuit is what the circuit holds. -/
structure Shows (s : Machine) (v : Visible) : Prop where
  PC : s.PC = v.PC.toNat
  registers : ∀ r : BitVec 4, s.REGS r.toFin = (v.registers r).toNat
  memory : ∀ a : BitVec 16, s.MEM a.toNat = (v.memory a).toNat
  zero : v.registers 0 = 0

/-- The difference of the two numbers has 32 bits. -/
def Comparable (a b : Nat) : Prop :=
  -2 ^ 31 ≤ signed a - signed b ∧ signed a - signed b < 2 ^ 31

instance (a b : Nat) : Decidable (Comparable a b) := inferInstanceAs (Decidable (_ ∧ _))

/-- The instruction has the same effect on the circuit. -/
def Fits (s : Machine) (ireg : List Bool) : Op → Prop
  | .LW | .SW =>
    forceUnsigned (s.REGS (regno (bitRange ireg 23 20)) + int2c (bitRange ireg 19 0)) 32 < 2 ^ 16
  | .BLT =>
    Comparable (s.REGS (regno (bitRange ireg 27 24))) (s.REGS (regno (bitRange ireg 23 20)))
  | .MINMAX =>
    Comparable (s.REGS (regno (bitRange ireg 23 20))) (s.REGS (regno (bitRange ireg 3 0)))
  -- the simulator jumps to the return address that it clears afterwards
  | .JALR => ¬ (regno (bitRange ireg 27 24) = 0 ∧ regno (bitRange ireg 23 20) = 0)
  | .HALT => False
  | _ => True

section

variable {s : Machine} {v : Visible} {n : Nat} {w : Word} {r : BitVec 4} {a : BitVec 16}

theorem setReg_toFin (q : BitVec 4) :
    (s.setReg r.toFin n).REGS q.toFin = if q = r then n else s.REGS q.toFin := by
  rw [Machine.setReg_REGS]
  by_cases same : q = r
  · rw [if_pos same, if_pos (congrArg _ same)]
  · rw [if_neg same, if_neg fun eq => same (BitVec.eq_of_toFin_eq eq)]

theorem zeroed_toFin (q : BitVec 4) :
    (s.setReg 0 0).REGS q.toFin = if q = 0 then 0 else s.REGS q.toFin :=
  setReg_toFin (r := 0) q

theorem Shows.jump (shows : Shows s v) (same : n = w.toNat) : Shows (s.setPC n) (v.jump w) :=
  ⟨same, shows.registers, shows.memory, shows.zero⟩

theorem Shows.zeroed (shows : Shows s v) : Shows (s.setReg 0 0) v where
  PC := shows.PC
  registers q := by
    rw [zeroed_toFin]
    split
    · rename_i here
      rw [here, shows.zero]
      rfl
    · exact shows.registers q
  memory := shows.memory
  zero := shows.zero

theorem Visible.store_memory (b : BitVec 16) : (v.store a w).memory b =
    if b = a then w else v.memory b :=
  Function.update_apply ..

theorem Visible.write_registers (q : BitVec 4) : (v.write r w).registers q =
    if q = r then (if r = 0 then 0 else w) else v.registers q :=
  Function.update_apply ..

theorem Shows.write (shows : Shows s v) (same : n = w.toNat) :
    Shows ((s.setReg r.toFin n).setReg 0 0) (v.write r w) where
  PC := shows.PC
  registers q := by
    rw [zeroed_toFin, setReg_toFin, v.write_registers]
    by_cases zero : q = 0
    · rw [if_pos zero]
      split
      · rename_i here
        rw [if_pos (here.symm.trans zero)]
        rfl
      · rw [zero, shows.zero]
        rfl
    · rw [if_neg zero]
      split
      · rename_i here
        rw [if_neg (here ▸ zero), same]
      · exact shows.registers q
  memory := shows.memory
  zero := by
    rw [v.write_registers]
    split
    · rename_i here
      rw [if_pos here.symm]
    · exact shows.zero

theorem Shows.store (shows : Shows s v) (same : n = w.toNat) :
    Shows (s.store a.toNat n) (v.store a w) where
  PC := shows.PC
  registers := shows.registers
  memory b := by
    rw [Machine.store_MEM, v.store_memory]
    by_cases here : b = a
    · rw [if_pos here, if_pos (congrArg _ here), same]
    · rw [if_neg here, if_neg fun eq => here (BitVec.eq_of_toNat_eq eq)]
      exact shows.memory b
  zero := shows.zero

theorem toInt_sub (x y : Word) (comparable : Comparable x.toNat y.toNat) :
    (x - y).toInt = x.toInt - y.toInt := by
  unfold Comparable at comparable
  rw [signed_toInt, signed_toInt] at comparable
  rw [BitVec.toInt_sub]
  exact Int.bmod_eq_of_le (by omega) (by omega)

/-- The sign of the difference compares. -/
theorem slt_sub {x y : Word} (comparable : Comparable x.toNat y.toNat) :
    (x - y).slt 0 = true ↔ signed x.toNat < signed y.toNat := by
  rw [BitVec.slt_iff_toInt_lt, toInt_sub x y comparable, signed_toInt, signed_toInt]
  show x.toInt - y.toInt < 0 ↔ _
  omega

theorem sub_slt {x y : Word} (comparable : Comparable x.toNat y.toNat) :
    (0 : Word).slt (x - y) = true ↔ signed y.toNat < signed x.toNat := by
  rw [BitVec.slt_iff_toInt_lt, toInt_sub x y comparable, signed_toInt, signed_toInt]
  show 0 < x.toInt - y.toInt ↔ _
  omega

/-- The number of an operation. -/
def number : Op → Nat
  | .ADD => 0
  | .NAND => 1
  | .ADDI => 2
  | .LW => 3
  | .SW => 4
  | .BEQ => 5
  | .JALR => 6
  | .HALT => 7
  | .BLT => 8
  | .LEA => 9
  | .MINMAX => 10

theorem opName_number {k : Nat} {op : Op} (lt : k < 16) (named : opName (digits 4 k) = some op) :
    k = number op := by
  have table : ∀ k : Fin 16, (opName (digits 4 k)).all (fun op => k.val == number op) = true := by
    decide
  have entry := table ⟨k, lt⟩
  rw [named] at entry
  exact beq_iff_eq.mp entry

/-- The sum of two registers, or of a register and an offset. -/
theorem forceUnsigned_add (x y : Word) :
    forceUnsigned (forceSigned x.toNat 32 + y.toInt) 32 = (x + y).toNat := by
  rw [forceUnsigned_wrap, forceSigned_signed, wrap_signed_add, wrap_add]

theorem forceUnsigned_address (x y : Word) :
    forceUnsigned (x.toNat + y.toInt) 32 = (x + y).toNat :=
  wrap_add x y

variable {IR : Word} {op : Op}

/-- An address of the circuit is the same to the simulator. -/
theorem Shows.access (shows : Shows s v) (inside : w.toNat < 2 ^ 16) :
    s.accessMem w.toNat = (v.memory (w.setWidth 16)).toNat := by
  have small : (w.setWidth 16).toNat = w.toNat := by
    rw [BitVec.toNat_setWidth, Nat.mod_eq_of_lt inside]
  rw [accessMem_eq, Nat.mod_eq_of_lt (by omega), ← small, shows.memory]

theorem Shows.stored (shows : Shows s v) (same : n = w.toNat) {address : Word}
    (inside : address.toNat < 2 ^ 16) :
    Shows (s.store address.toNat n) (v.store (address.setWidth 16) w) := by
  have small : (address.setWidth 16).toNat = address.toNat := by
    rw [BitVec.toNat_setWidth, Nat.mod_eq_of_lt inside]
  rw [← small]
  exact shows.store same

/-- Unless both registers are `$zero`, the jump goes where the circuit's does. -/
theorem Shows.link {q : BitVec 4} (shows : Shows s v) (fits : ¬ (q.toFin = 0 ∧ r.toFin = 0)) :
    Shows (((s.setReg r.toFin s.PC).setPC ((s.setReg r.toFin s.PC).REGS q.toFin)).setReg 0 0)
      ((v.write r v.PC).jump ((v.write r v.PC).registers q)) := by
  rw [Machine.setPC_setReg]
  refine (shows.write shows.PC).jump ?_
  rw [setReg_toFin, v.write_registers]
  by_cases same : q = r
  · have other : r ≠ 0 := by
      rintro rfl
      exact fits ⟨congrArg _ same, rfl⟩
    rw [if_pos same, if_pos same, if_neg other, shows.PC]
  · rw [if_neg same, if_neg same, shows.registers]

theorem forceUnsigned_word (x : Word) : forceUnsigned (signed x.toNat) 32 = x.toNat := by
  rw [forceUnsigned_wrap, signed_toInt, wrap_word]

/-- The sign of the difference chooses the smaller or the larger number. -/
theorem forceUnsigned_minmax {x y : Word} (comparable : Comparable x.toNat y.toNat) (m : Bool) :
    forceUnsigned (if m then max (signed x.toNat) (signed y.toNat)
        else min (signed x.toNat) (signed y.toNat)) 32 =
      (if (if m then (0 : Word).slt (x - y) else (x - y).slt 0) then x else y).toNat := by
  cases m with
  | false =>
    rw [if_neg Bool.false_ne_true, if_neg Bool.false_ne_true]
    by_cases less : (x - y).slt 0 = true
    · rw [if_pos less, min_eq_left ((slt_sub comparable).mp less).le, forceUnsigned_word]
    · rw [if_neg less, min_eq_right (not_lt.mp (mt (slt_sub comparable).mpr less)),
        forceUnsigned_word]
  | true =>
    rw [if_pos rfl, if_pos rfl]
    by_cases more : (0 : Word).slt (x - y) = true
    · rw [if_pos more, max_eq_left ((sub_slt comparable).mp more).le, forceUnsigned_word]
    · rw [if_neg more, max_eq_right (not_lt.mp (mt (sub_slt comparable).mpr more)),
        forceUnsigned_word]

theorem Shows.branch {taken taken' : Prop} [Decidable taken] [Decidable taken'] {offset : Word}
    (shows : Shows s v) (same : taken ↔ taken') :
    Shows ((if taken then s.setPC (forceUnsigned (s.PC + offset.toInt) 32) else s).setReg 0 0)
      (if taken' then v.jump (v.PC + offset) else v) := by
  by_cases jumps : taken
  · rw [if_pos jumps, if_pos (same.mp jumps), shows.PC]
    exact (shows.jump (forceUnsigned_address ..)).zeroed
  · rw [if_neg jumps, if_neg fun jumps' => jumps (same.mpr jumps')]
    exact shows.zeroed

/-- What the branches of the simulator do, the microcode does. -/
theorem Shows.execute (shows : Shows s v) (named : (opcode IR).toNat = number op)
    (fits : Fits s (digits 32 IR.toNat) op) :
    Shows ((s.execute (digits 32 IR.toNat) op).setReg 0 0) (v.execute IR) := by
  have x : regno (bitRange (digits 32 IR.toNat) 27 24) = (rx IR).toFin :=
    regno_bitRange IR rfl (by decide)
  have y : regno (bitRange (digits 32 IR.toNat) 23 20) = (ry IR).toFin :=
    regno_bitRange IR rfl (by decide)
  have z : regno (bitRange (digits 32 IR.toNat) 3 0) = (rz IR).toFin :=
    regno_bitRange IR rfl (by decide)
  have register := shows.registers
  unfold Visible.execute
  rw [named]
  cases op <;> simp only [Fits, x, y, z, int2c_offset, register] at fits <;>
    simp only [Machine.execute, x, y, z, int2c_offset, register]
  case ADD =>
    refine shows.write ?_
    rw [forceSigned_signed (v.registers (rz IR)).toNat, signed_toInt, forceUnsigned_add]
  case NAND =>
    refine shows.write ?_
    rw [forceUnsigned_not]
  case ADDI =>
    refine shows.write ?_
    rw [forceUnsigned_add]
  case LW =>
    rw [forceUnsigned_address] at fits ⊢
    exact shows.write (shows.access fits)
  case SW =>
    rw [forceUnsigned_address] at fits ⊢
    exact (shows.stored rfl fits).zeroed
  case BEQ =>
    refine shows.branch ?_
    rw [BitVec.toNat_inj, BitVec.sub_eq_iff_eq_add]
    simp
  case JALR => exact shows.link fits
  case BLT =>
    refine shows.branch ?_
    rw [forceSigned_signed, forceSigned_signed]
    exact (slt_sub fits).symm
  case LEA =>
    refine shows.write ?_
    rw [shows.PC, forceUnsigned_address]
  case MINMAX =>
    refine shows.write ?_
    rw [forceSigned_signed, forceSigned_signed, bit_mode]
    exact forceUnsigned_minmax fits (mode IR)

/-- Both fetch the same word. -/
theorem Shows.fetches (shows : Shows s v) (inside : s.PC < 2 ^ 16) :
    s.ireg = digits 32 v.fetch.toNat := by
  have fetched : s.accessMem s.PC = v.fetch.toNat := by
    rw [shows.PC] at inside ⊢
    exact shows.access inside
  rw [Machine.ireg, fetched, format32_of_lt v.fetch.isLt]

theorem Shows.digits (shows : Shows s v) (inside : s.PC < 2 ^ 16) :
    bitRange s.ireg 31 28 = digits 4 (opcode v.fetch).toNat := by
  rw [shows.fetches inside, bitRange_digits (by decide) (by decide), opcode,
    BitVec.extractLsb'_toNat, Nat.shiftRight_eq_div_pow, digits_mod (Nat.le_refl 4)]

theorem Shows.coded (shows : Shows s v) (inside : s.PC < 2 ^ 16) (named : s.op = some op) :
    (opcode v.fetch).toNat = number op := by
  rw [Machine.op, shows.digits inside] at named
  exact opName_number (opcode v.fetch).isLt named

theorem Shows.next (shows : Shows s v) (inside : s.PC < 2 ^ 16) :
    Shows (s.setPC (s.PC + 1)) (v.jump (v.PC + 1)) := by
  refine shows.jump ?_
  rw [shows.PC] at inside ⊢
  rw [BitVec.toNat_add]
  exact (Nat.mod_eq_of_lt (by omega)).symm

/-- One instruction of the simulator is one of the circuit. -/
theorem Shows.step {s' : Machine} (shows : Shows s v) (inside : s.PC < 2 ^ 16)
    (fits : ∀ op, s.op = some op → Fits s s.ireg op) (step : s.stepInstruction = .ok s') :
    ¬ v.halts ∧ Shows s' v.instruction := by
  obtain ⟨op, named, rfl⟩ := step_op step
  have coded := shows.coded inside named
  have fits' := fits op named
  rw [shows.fetches inside] at fits' ⊢
  constructor
  · intro halts
    rw [Visible.halts, coded] at halts
    cases op <;> cases halts
    exact fits'
  · exact (shows.next inside).execute coded (by cases op <;> exact fits')

theorem Shows.halts (shows : Shows s v) (inside : s.PC < 2 ^ 16) (halt : s.op = some .HALT) :
    v.halts :=
  shows.coded inside halt

/-! ## Runs -/

/-- The circuit has what the next instruction needs. -/
def Within (s : Machine) : Prop :=
  s.PC < 2 ^ 16 ∧ ∀ op, s.op = some op → Fits s s.ireg op

instance (s : Machine) (ireg : List Bool) (op : Op) : Decidable (Fits s ireg op) := by
  unfold Fits
  split <;> infer_instance

instance (s : Machine) : Decidable (Within s) :=
  decidable_of_iff (s.PC < 2 ^ 16 ∧ s.op.all (fun op => decide (Fits s s.ireg op)) = true)
    (and_congr_right fun _ => by cases s.op <;> simp)

theorem Shows.steps {d : Datapath} (shows : Shows s d.toVisible) (fetch : d.State = 0) {k : Nat}
    {t : Machine} (run : s.steps k = .ok t)
    (within : ∀ j < k, ∀ u, s.steps j = .ok u → Within u) :
    ∃ n d', 3 * k ≤ n ∧ n ≤ 10 * k ∧ d.clocks n = some d' ∧ d'.State = 0 ∧
      Shows t d'.toVisible := by
  induction k generalizing t with
  | zero =>
    obtain rfl := Except.ok.inj run
    exact ⟨0, d, Nat.le_refl _, Nat.le_refl _, rfl, fetch, shows⟩
  | succ k ih =>
    obtain ⟨before, reached, step⟩ := steps_succ run
    obtain ⟨n, d', least, most, clocks, fetch', shows'⟩ :=
      ih reached fun j lt => within j (Nat.lt_succ_of_lt lt)
    obtain ⟨inside, fits⟩ := within k (Nat.lt_succ_self k) before reached
    obtain ⟨runs, shows''⟩ := shows'.step inside fits step
    obtain ⟨m, least', most', last, clocks', fetch'', visible⟩ :=
      Datapath.instruction_cycles fetch' runs
    refine ⟨n + m, last, by omega, by omega, ?_, fetch'', visible ▸ shows''⟩
    rw [Datapath.clocks_add clocks, clocks']

end

/-- The circuit with the words of a file in its memory. -/
def loaded (runfile : List (List Bool)) : Datapath where
  PC := 0
  registers _ := 0
  memory a := BitVec.ofNat 32 ((runfile[a.toNat]?.map uint).getD 0)
  A := 0
  B := 0
  MAR := 0
  IR := 0
  CmpReg := 0
  State := 0

theorem loaded_shows {runfile : List (List Bool)} (words : ∀ line ∈ runfile, uint line < 2 ^ 32) :
    Shows (loadProgram runfile) (loaded runfile).toVisible where
  PC := rfl
  registers _ := rfl
  memory a := by
    have word := (loadProgram_word32 words).mem a.toNat
    exact (BitVec.toNat_ofNat ..).trans (Nat.mod_eq_of_lt word) |>.symm
  zero := rfl

/-- The circuit with the words of a file in its memory goes through the states of the simulator,
in three to ten cycles for each instruction, as long as the instructions fit; and where the
simulator comes to a HALT the circuit stays, with the same registers and memory. -/
theorem circuit_simulates {runfile : List (List Bool)} {k : Nat} {s : Machine}
    (words : ∀ line ∈ runfile, uint line < 2 ^ 32) (run : (loadProgram runfile).steps k = .ok s)
    (within : ∀ j < k, ∀ t, (loadProgram runfile).steps j = .ok t → Within t) :
    ∃ n d, 3 * k ≤ n ∧ n ≤ 10 * k ∧ (loaded runfile).clocks n = some d ∧ d.State = 0 ∧
      Shows s d.toVisible ∧
      (s.PC < 2 ^ 16 → s.op = some .HALT → ∀ m, ∃ last,
        (loaded runfile).clocks (n + (3 + m)) = some last ∧ last.State = 29 ∧
        Shows (s.setPC (s.PC + 1)) last.toVisible) := by
  obtain ⟨n, d, least, most, clocks, fetch, shows⟩ :=
    (loaded_shows words).steps (d := loaded runfile) rfl run within
  refine ⟨n, d, least, most, clocks, fetch, shows, fun inside halt m => ?_⟩
  obtain ⟨last, clocks', stays, visible⟩ :=
    Datapath.halt_forever fetch (shows.halts inside halt) m
  refine ⟨last, ?_, stays, visible ▸ shows.next inside⟩
  rw [Datapath.clocks_add clocks, clocks']

/-- Stores five and halts. -/
def storesFive : List (List Bool) :=
  [digits 32 0x26000005, -- addi $t0, $zero, 5
   digits 32 0x46000010, -- sw $t0, 16($zero)
   digits 32 0x70000000] -- halt

theorem circuit_simulates_five : ∃ s n d, (loadProgram storesFive).steps 2 = .ok s ∧
    (loaded storesFive).clocks n = some d ∧ d.memory 16 = 5 ∧ Shows s d.toVisible := by
  have all : ∀ j < 2,
      ((loadProgram storesFive).steps j).toOption.all (fun t => decide (Within t)) = true := by
    decide +kernel
  have five : ((loadProgram storesFive).steps 2).toOption.map (fun s => s.MEM 16) = some 5 := by
    decide +kernel
  cases run : (loadProgram storesFive).steps 2 with
  | error op => simp [run, Except.toOption] at five
  | ok s =>
    obtain ⟨n, d, -, -, clocks, -, shows, -⟩ := circuit_simulates (by decide) run
      (fun j lt t reached => by simpa [reached, Except.toOption] using all j lt)
    rw [run] at five
    refine ⟨s, n, d, rfl, clocks, ?_, shows⟩
    apply BitVec.eq_of_toNat_eq
    rw [← shows.memory 16]
    exact Option.some.inj five

/-- The smallest number is less than 1, but their difference is not negative. -/
example : signed 0x80000000 < signed 1 ∧ ((0x80000000 : Word) - 1).slt 0 = false := by decide

end SystemsProjects.Cpu
