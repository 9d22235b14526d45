import SystemsProjects.Cpu.Simulation
import SystemsProjects.Cpu.Turns
import SystemsProjects.Irq.Processor

/-!
# The circuit with interrupts

The LC-4000a takes the interrupts of its devices between two instructions. Seen from one fetch to
the next it is the simulator's machine with interrupts, and its devices make the schedule.
-/

namespace SystemsProjects.Cpu

open Digits Lc Irq

namespace Board

variable (b : Board)

/-- The device whose interrupt will be taken if interrupts are enabled. -/
def request : Option (Fin 2) := if b.devices.INT then some b.devices.asking else none

/-- What the distance tracker would deliver. -/
def value : Nat := (Devices.OUTPUT b.devices.tracker.index).toNat

/-- What the devices do from one fetch to the next. -/
def schedule : Schedule where
  request n := (b.turns n).bind request
  value n := ((b.turns n).map value).getD 0
  value_lt n := by
    cases b.turns n with
    | none => exact Nat.two_pow_pos 32
    | some last => exact BitVec.isLt _

end Board

/-- The program counter of a circuit that has stopped is past the HALT. -/
def stopped (p : Processor) : Machine := if p.HALTED then p.setPC (p.PC + 1) else p.toMachine

/-- The circuit is in the state of the processor, and its devices have settled. -/
structure Shown (p : Processor) (b : Board) : Prop where
  State : b.State = if p.HALTED then 22 else 0
  shows : Shows (stopped p) b.toVisible
  IE : b.IE = p.IE
  DAR : b.DAR ≠ 1
  settled : b.devices.Settled

/-- The circuit has what the next instruction needs. It reads from the tracker only, and it leaves
the tracker. -/
structure OnBoard (p : Processor) : Prop where
  least : 8 ≤ p.PC
  most : p.PC < 2 ^ 16
  known : p.opcode ≠ 15
  input : p.opcode = 14 → int2c (bitRange p.ireg 19 0) = 1 ∧ regno (bitRange p.ireg 23 20) = 0
  fits : ∀ op, p.op = some op → op ≠ .HALT → Fits p.toMachine p.ireg op

section

variable {p : Processor} {b : Board}

theorem pcInput_eq (least : 8 ≤ b.PC.toNat) (most : b.PC.toNat ≤ 2 ^ 16) : b.pcInput = b.PC := by
  have high : ¬ b.PC.slt 8 = true := by
    rw [BitVec.slt_iff_toInt_lt, BitVec.toInt_eq_toNat_of_lt (by omega)]
    show ¬ (b.PC.toNat : Int) < 8
    omega
  exact if_neg high

theorem opcode_eq {s : Machine} {v : Visible} (shows : Shows s v) (inside : s.PC < 2 ^ 16) :
    uint (bitRange s.ireg 31 28) = (opcode v.fetch).toNat := by
  rw [shows.fetches inside, uint_bitRange (by decide) (by decide), opcode, BitVec.extractLsb'_toNat,
    Nat.shiftRight_eq_div_pow]

/-- The larger of two equal words is the smaller one. -/
theorem minmax_eq (y z : Word) (m : Bool) :
    (if (if m then (y - z).slt 0 else (0 : Word).slt (y - z)) then z else y) =
      if (if m then (0 : Word).slt (y - z) else (y - z).slt 0) then y else z := by
  have less : (y - z).slt 0 = decide ((y - z).toInt < 0) := rfl
  have more : (0 : Word).slt (y - z) = decide (0 < (y - z).toInt) := rfl
  rw [less, more]
  obtain low | zero | high := lt_trichotomy (y - z).toInt 0
  · rw [decide_eq_true low, decide_eq_false (not_lt.mpr low.le)]
    cases m <;> rfl
  · have same : y = z := by
      have difference : y - z = 0 := BitVec.eq_of_toInt_eq zero
      simpa using BitVec.sub_eq_iff_eq_add.mp difference
    rw [same, ite_self, ite_self]
  · rw [decide_eq_true high, decide_eq_false (not_lt.mpr high.le)]
    cases m <;> rfl

namespace Board

/-- The microcode of the LC-4000a does with an instruction of the LC-4000 what that of the LC-4000
does. -/
theorem execute_onward (here : b.State = rom seqROM (opcode b.IR).toNat) (own : b.pcInput = b.PC)
    (common : (opcode b.IR).toNat ≤ 10) (runs : (opcode b.IR).toNat ≠ 7) :
    ∃ k ≤ 7, b.Arrives 7 k 0 (b.toVisible.execute b.IR) b.DAR b.IE := by
  unfold Visible.execute
  generalize code : (opcode b.IR).toNat = k at here runs common ⊢
  match k with
  | 0 => exact ⟨3, by decide, add_onward here 4⟩
  | 1 => exact ⟨3, by decide, nand_onward here 4⟩
  | 2 => exact ⟨3, by decide, addi_onward here 4⟩
  | 3 => exact ⟨4, by decide, lw_onward here 3⟩
  | 4 =>
    have stores := sw_onward here 3
    rw [BitVec.add_comm (offset b.IR)] at stores
    exact ⟨4, by decide, stores⟩
  | 5 =>
    obtain ⟨k, -, le, arrives⟩ := branch_onward here 0 (cmpLogic_beq (mode b.IR) code)
    rw [own] at arrives
    exact ⟨k, le, arrives⟩
  | 6 =>
    have links := jalr_onward here 5
    rw [own] at links
    exact ⟨2, by decide, links⟩
  | 7 => exact absurd rfl runs
  | 8 =>
    obtain ⟨k, -, le, arrives⟩ := branch_onward here 0 (cmpLogic_blt (mode b.IR) code)
    rw [own] at arrives
    exact ⟨k, le, arrives⟩
  | 9 =>
    have adds := lea_onward here 4
    rw [own] at adds
    exact ⟨3, by decide, adds⟩
  | 10 =>
    have chooses := minmax_onward here 1 (cmpLogic_minmax (mode b.IR) code)
    rw [minmax_eq] at chooses
    exact ⟨6, by decide, chooses⟩
  | k + 11 => omega

end Board

/-! ## One step -/

theorem step_named {s : Machine} {op : Op} (named : s.op = some op) :
    s.stepInstruction = .ok (((s.setPC (s.PC + 1)).execute s.ireg op).setReg 0 0) := by
  unfold Machine.stepInstruction
  dsimp only
  split
  · rename_i none
    exact absurd (named.symm.trans none) (Option.some_ne_none op)
  · rename_i op' found
    rw [Option.some.inj (named.symm.trans found)]
    rfl

theorem op_isSome {k : Nat} (low : k ≤ 10) : (opName (digits 4 k)).isSome = true := by
  have table : ∀ k : Fin 11, (opName (digits 4 k)).isSome = true := by decide
  exact table ⟨k, Nat.lt_succ_of_le low⟩

theorem execute_HALTED {s : Machine} {ireg : List Bool} {op : Op} (more : op ≠ .HALT) :
    (s.execute ireg op).HALTED = s.HALTED := by
  cases op with
  | HALT => exact absurd rfl more
  | BEQ | BLT =>
    unfold Machine.execute
    dsimp only
    split <;> rfl
  | _ => rfl

theorem zeroed_eq {s : Machine} (zero : s.REGS 0 = 0) : s.setReg 0 0 = s := by
  unfold Machine.setReg
  rw [← zero, Function.update_eq_self]

theorem Shown.fetching (shown : Shown p b) (running : p.HALTED = false) : b.State = 0 := by
  rw [shown.State, running]
  rfl

theorem Shown.showing (shown : Shown p b) (running : p.HALTED = false) :
    Shows p.toMachine b.toVisible := by
  have shows := shown.shows
  unfold stopped at shows
  rw [running] at shows
  exact shows

theorem Shown.zero (shown : Shown p b) (running : p.HALTED = false) : p.REGS 0 = 0 := by
  have shows := shown.showing running
  exact (shows.registers 0).trans (congrArg BitVec.toNat shows.zero)

/-- A circuit that has stopped stays there. -/
theorem Shown.halted (shown : Shown p b) (stops : p.HALTED = true) :
    ∃ b', b.turn = some b' ∧ Shown p b' ∧ b'.devices = b.devices.idle 1 := by
  have here : b.State = 22 := by
    rw [shown.State, stops]
    rfl
  obtain ⟨b', turn, State, visible, DAR, IE, devices⟩ := Board.halt_onward here 9
  refine ⟨b', turn, ⟨?_, ?_, ?_, ?_, ?_⟩, devices⟩
  · rw [State, stops]
    rfl
  · rw [visible]
    exact shown.shows
  · rw [IE, shown.IE]
  · rw [DAR]
    exact shown.DAR
  · rw [devices]
    exact shown.settled.idle 1

/-- An interrupt. -/
theorem Shown.interrupt (shown : Shown p b) (running : p.HALTED = false) (onBoard : OnBoard p)
    (on : p.IE = true) (asked : b.devices.INT = true) :
    b.turn = some b.interrupted ∧ Shown (p.interrupt b.devices.asking) b.interrupted := by
  have shows := shown.showing running
  have own : b.pcInput = b.PC := pcInput_eq (shows.PC ▸ onBoard.least) (shows.PC ▸ onBoard.most.le)
  have INT : b.INT = true := by
    rw [Board.INT, shown.IE, on, asked]
    rfl
  refine ⟨Board.interrupt_onward (shown.fetching running) own INT shown.settled shown.DAR 6, ?_⟩
  have vector : p.accessMem b.devices.asking =
      (b.memory ((BitVec.ofNat 32 b.devices.asking).setWidth 16)).toNat := by
    have small : (BitVec.ofNat 32 b.devices.asking).toNat = b.devices.asking := by
      rw [BitVec.toNat_ofNat, Nat.mod_eq_of_lt (by omega)]
    have read := shows.access (w := BitVec.ofNat 32 b.devices.asking) (by omega)
    rw [small] at read
    exact read
  have linked := shows.write (r := 12) shows.PC
  have zero : (p.setReg Register.k0 p.PC).REGS 0 = 0 := shown.zero running
  rw [show (12 : BitVec 4).toFin = Register.k0 from rfl, zeroed_eq zero] at linked
  refine ⟨?_, ?_, rfl, shown.DAR, ?_⟩
  · show (0 : BitVec 6) = if p.HALTED then 22 else 0
    rw [running]
    rfl
  · have jumped := linked.jump vector
    unfold stopped
    show Shows (if p.HALTED then _ else _) _
    rw [running]
    exact jumped
  · intro device
    rw [show b.interrupted.devices = b.devices.acknowledged.idle 2 from rfl,
      Devices.idle_interval, Function.iterate_succ_apply']
    exact Interval.tick_settled ..

/-- A turn of `k` cycles without an acknowledgement brings the circuit to the state of `p'`. -/
def Executes (b : Board) (p' : Processor) : Prop :=
  ∃ b' k, 1 ≤ k ∧ k ≤ 10 ∧ b.turn = some b' ∧ Shown p' b' ∧ b'.devices = b.devices.idle k

theorem Shown.arrives {p' : Processor} {v : Visible} {DAR : Word} {IE : Bool} {k : Nat}
    (shown : Shown p b) (arrives : b.Arrives 10 k 0 v DAR IE) (least : 1 ≤ k) (most : k ≤ 10)
    (running : p'.HALTED = false) (shows : Shows p'.toMachine v) (same : IE = p'.IE)
    (other : DAR ≠ 1) : Executes b p' := by
  obtain ⟨b', turn, State, visible, addressed, enabled, devices⟩ := arrives
  refine ⟨b', k, least, most, turn, ⟨?_, ?_, enabled.trans same, ?_, ?_⟩, devices⟩
  · rw [State, running]
    rfl
  · unfold stopped
    rw [running, visible]
    exact shows
  · rw [addressed]
    exact other
  · rw [devices]
    exact shown.settled.idle k

/-- The first rows fetch the instruction. -/
theorem Shown.fetches {v : Visible} {DAR : Word} {IE : Bool} {k : Nat} (shown : Shown p b)
    (running : p.HALTED = false) (onBoard : OnBoard p) (quiet : b.INT = false) (more : p.opcode ≠ 7)
    (arrives : b.decoded.Arrives 7 k 0 v DAR IE) : b.Arrives 10 (k + 3) 0 v DAR IE := by
  have shows := shown.showing running
  have own : b.pcInput = b.PC := pcInput_eq (shows.PC ▸ onBoard.least) (shows.PC ▸ onBoard.most.le)
  have fetch := Board.fetch_edges (shown.fetching running) own quiet 7
  have goes : decide b.decoded.Between = false := by
    have table : ∀ k < 16, k ≠ 7 → k ≠ 15 →
        decide (rom Board.seqROM k = 0 ∨ rom Board.seqROM k = 22) = false := by decide
    have code : p.opcode = (opcode b.fetch).toNat := opcode_eq shows onBoard.most
    exact table _ (opcode b.fetch).isLt (code ▸ more) (code ▸ onBoard.known)
  rw [goes, cond_false] at fetch
  exact arrives.after fetch rfl

/-- The circuit with the instruction in `IR` shows the processor with `PC` past it. -/
theorem Shown.decoded (shown : Shown p b) (running : p.HALTED = false) (onBoard : OnBoard p) :
    Shows (p.setPC (p.PC + 1)) b.decoded.toVisible ∧ b.decoded.pcInput = b.decoded.PC ∧
      p.opcode = (opcode b.fetch).toNat ∧ p.ireg = digits 32 b.fetch.toNat := by
  have shows := shown.showing running
  have next := shows.next onBoard.most
  have PC : (p.setPC (p.PC + 1)).PC = b.decoded.PC.toNat := next.PC
  replace PC : p.PC + 1 = b.decoded.PC.toNat := PC
  have least := onBoard.least
  have most := onBoard.most
  exact ⟨next, pcInput_eq (by omega) (by omega), opcode_eq shows onBoard.most,
    shows.fetches onBoard.most⟩

/-- An instruction of the LC-4000. -/
theorem Shown.ordinary (shown : Shown p b) (running : p.HALTED = false) (onBoard : OnBoard p)
    (quiet : b.INT = false) (common : p.opcode ≤ 10) (more : p.opcode ≠ 7) (value : Nat) :
    ∃ p', p.cycle value = some p' ∧ Executes b p' := by
  obtain ⟨next, own, same, word⟩ := shown.decoded running onBoard
  have shows := shown.showing running
  obtain ⟨op, named⟩ := Option.isSome_iff_exists.mp (op_isSome common)
  rw [same, ← shows.digits onBoard.most] at named
  have coded := shows.coded onBoard.most named
  have going : op ≠ .HALT := by
    rintro rfl
    exact more (same.trans coded)
  have fits := onBoard.fits op named going
  have executes := next.execute coded (by rw [word] at fits; cases op <;> exact fits)
  obtain ⟨k, le, arrives⟩ :=
    Board.execute_onward (b := b.decoded) rfl own (same ▸ common) (same ▸ more)
  let p' : Processor := { (((p.setPC (p.PC + 1)).execute p.ireg op).setReg 0 0) with IE := p.IE }
  refine ⟨p', ?_, shown.arrives (shown.fetches running onBoard quiet more arrives) (by omega)
    (by omega) ?_ ?_ shown.IE shown.DAR⟩
  · unfold Processor.cycle
    dsimp only
    split
    · omega
    · omega
    · omega
    · omega
    · rw [step_named named]
      rfl
  · exact (execute_HALTED going).trans running
  · rw [← word] at executes
    exact executes

/-- The rows of an instruction begin where the `SEQ` ROM says so. -/
theorem Shown.first (shown : Shown p b) (running : p.HALTED = false) (onBoard : OnBoard p)
    {k : Nat} (code : p.opcode = k) : b.decoded.State = rom Board.seqROM k := by
  obtain ⟨-, -, same, -⟩ := shown.decoded running onBoard
  rw [← code, same]
  rfl

theorem Shown.halt (shown : Shown p b) (running : p.HALTED = false) (onBoard : OnBoard p)
    (quiet : b.INT = false) (code : p.opcode = 7) (value : Nat) :
    ∃ p', p.cycle value = some p' ∧ Executes b p' := by
  obtain ⟨next, -, same, -⟩ := shown.decoded running onBoard
  have shows := shown.showing running
  have own : b.pcInput = b.PC := pcInput_eq (shows.PC ▸ onBoard.least) (shows.PC ▸ onBoard.most.le)
  have stops : b.decoded.State = 22 := shown.first running onBoard code
  have fetch := Board.fetch_edges (shown.fetching running) own quiet 7
  rw [decide_eq_true (show b.decoded.Between from Or.inr stops), cond_true] at fetch
  have named : p.op = some .HALT := by
    rw [Machine.op, shows.digits onBoard.most, ← same, code]
    rfl
  let p' : Processor :=
    { (((p.setPC (p.PC + 1)).execute p.ireg .HALT).setReg 0 0) with IE := p.IE }
  refine ⟨p', ?_, b.decoded, 3, by decide, by decide, fetch, ⟨stops, ?_, shown.IE, shown.DAR, ?_⟩,
    rfl⟩
  · unfold Processor.cycle
    dsimp only
    rw [code, step_named named]
    rfl
  · exact ⟨next.zeroed.PC, next.zeroed.registers, next.zeroed.memory, next.zeroed.zero⟩
  · exact shown.settled.idle 3

theorem Shown.ei (shown : Shown p b) (running : p.HALTED = false) (onBoard : OnBoard p)
    (quiet : b.INT = false) (code : p.opcode = 11) :
    Executes b { p.setPC (p.PC + 1) with IE := true } := by
  obtain ⟨next, -⟩ := shown.decoded running onBoard
  have arrives := Board.ei_onward (shown.first running onBoard code) 6
  exact shown.arrives (shown.fetches running onBoard quiet (by omega) arrives) (by decide)
    (by decide) running next rfl shown.DAR

theorem Shown.di (shown : Shown p b) (running : p.HALTED = false) (onBoard : OnBoard p)
    (quiet : b.INT = false) (code : p.opcode = 12) :
    Executes b { p.setPC (p.PC + 1) with IE := false } := by
  obtain ⟨next, -⟩ := shown.decoded running onBoard
  have arrives := Board.di_onward (shown.first running onBoard code) 6
  exact shown.arrives (shown.fetches running onBoard quiet (by omega) arrives) (by decide)
    (by decide) running next rfl shown.DAR

theorem Shown.reti (shown : Shown p b) (running : p.HALTED = false) (onBoard : OnBoard p)
    (quiet : b.INT = false) (code : p.opcode = 13) :
    Executes b { p.setPC (p.REGS Register.k0) with IE := true } := by
  obtain ⟨next, -⟩ := shown.decoded running onBoard
  have arrives := Board.reti_onward (shown.first running onBoard code) 6
  exact shown.arrives (shown.fetches running onBoard quiet (by omega) arrives) (by decide)
    (by decide) running (next.jump (next.registers 12)) rfl shown.DAR

theorem Shown.input (shown : Shown p b) (running : p.HALTED = false) (onBoard : OnBoard p)
    (quiet : b.INT = false) (code : p.opcode = 14) :
    Executes b { ((p.setPC (p.PC + 1)).setReg (regno (bitRange p.ireg 27 24)) b.value).setReg 0 0
      with IE := p.IE } := by
  obtain ⟨next, -, -, word⟩ := shown.decoded running onBoard
  obtain ⟨listens, leaves⟩ := onBoard.input code
  have x : regno (bitRange (digits 32 b.fetch.toNat) 27 24) = (rx b.fetch).toFin :=
    regno_bitRange b.fetch rfl (by decide)
  have y : regno (bitRange (digits 32 b.fetch.toNat) 23 20) = (ry b.fetch).toFin :=
    regno_bitRange b.fetch rfl (by decide)
  rw [word, int2c_offset] at listens
  rw [word, y] at leaves
  have listening : offset b.decoded.IR = 1 := BitVec.eq_of_toInt_eq listens
  have leaving : ry b.decoded.IR = 0 := BitVec.eq_of_toFin_eq leaves
  have arrives := Board.in_onward (shown.first running onBoard code) listening 4
  have index : b.decoded.devices.tracker.index = b.devices.tracker.index := Devices.idle_index 3
  rw [index, leaving] at arrives
  have written := next.write (r := rx b.fetch) (n := b.value) rfl
  rw [← x, ← word] at written
  refine shown.arrives (shown.fetches running onBoard quiet (by omega) arrives) (by decide)
    (by decide) running written shown.IE ?_
  intro listens
  exact absurd (written.zero.symm.trans listens) (by decide)

/-- An instruction, whatever it is. -/
theorem Shown.cycle (shown : Shown p b) (running : p.HALTED = false) (onBoard : OnBoard p)
    (quiet : b.INT = false) : ∃ p', p.cycle b.value = some p' ∧ Executes b p' := by
  have lt : p.opcode < 16 := by
    obtain ⟨-, -, same, -⟩ := shown.decoded running onBoard
    rw [same]
    exact (opcode b.fetch).isLt
  have known := onBoard.known
  by_cases common : p.opcode ≤ 10
  · by_cases halts : p.opcode = 7
    · exact shown.halt running onBoard quiet halts b.value
    · exact shown.ordinary running onBoard quiet common halts b.value
  · obtain code | code | code | code :
        p.opcode = 11 ∨ p.opcode = 12 ∨ p.opcode = 13 ∨ p.opcode = 14 := by omega
    · refine ⟨_, ?_, shown.ei running onBoard quiet code⟩
      rw [Processor.cycle, code]
      rfl
    · refine ⟨_, ?_, shown.di running onBoard quiet code⟩
      rw [Processor.cycle, code]
      rfl
    · refine ⟨_, ?_, shown.reti running onBoard quiet code⟩
      rw [Processor.cycle, code]
      rfl
    · refine ⟨_, ?_, shown.input running onBoard quiet code⟩
      rw [Processor.cycle, code]
      rfl

/-- What a turn does to the devices. -/
structure Passes (taken : Option (Fin 2)) (d d' : Devices) : Prop where
  idle : taken = none → ∃ k, 1 ≤ k ∧ k ≤ 10 ∧ d' = d.idle k
  acknowledged : ∀ device, taken = some device →
    d.INT = true ∧ device = d.asking ∧ d' = d.acknowledged.idle 2

/-- Which interrupt is taken. -/
theorem taken_request : p.taken b.request =
    if p.HALTED = false ∧ p.IE = true ∧ b.devices.INT = true then some b.devices.asking
    else none := by
  unfold Processor.taken Board.request
  by_cases ready : p.HALTED = false ∧ p.IE = true
  · rw [if_pos ready]
    exact if_congr (by simp [ready]) rfl rfl
  · rw [if_neg ready, if_neg fun all => ready ⟨all.1, all.2.1⟩]

/-- One turn of the circuit is one step of the processor. -/
theorem Shown.turn (shown : Shown p b) (onBoard : p.HALTED = false → OnBoard p) :
    ∃ b', b.turn = some b' ∧ Shown (p.next b.request b.value) b' ∧
      Passes (p.taken b.request) b.devices b'.devices := by
  cases running : p.HALTED with
  | true =>
    have taken : p.taken b.request = none := by
      rw [taken_request, running]
      rfl
    have next : p.next b.request b.value = p := by
      unfold Processor.next
      rw [running]
      rfl
    obtain ⟨b', turn, shown', devices⟩ := shown.halted running
    rw [taken, next]
    exact ⟨b', turn, shown', fun _ => ⟨1, le_rfl, by decide, devices⟩, nofun⟩
  | false =>
    by_cases asks : p.IE = true ∧ b.devices.INT = true
    · have taken : p.taken b.request = some b.devices.asking := by
        rw [taken_request, if_pos ⟨running, asks⟩]
      have next : p.next b.request b.value = p.interrupt b.devices.asking := by
        unfold Processor.next
        rw [running, taken]
        rfl
      obtain ⟨turn, shown'⟩ := shown.interrupt running (onBoard running) asks.1 asks.2
      rw [taken, next]
      refine ⟨_, turn, shown', nofun, ?_⟩
      intro device same
      exact ⟨asks.2, (Option.some.inj same).symm, rfl⟩
    · have taken : p.taken b.request = none := by
        rw [taken_request, if_neg fun all => asks all.2]
      have quiet : b.INT = false := by
        rw [Board.INT, shown.IE, ← Bool.not_eq_true, Bool.and_eq_true_iff]
        exact asks
      obtain ⟨p', cycle, b', k, least, most, turn, shown', devices⟩ :=
        shown.cycle running (onBoard running) quiet
      have next : p.next b.request b.value = p' := by
        unfold Processor.next
        rw [running, taken, cycle]
        rfl
      rw [taken, next]
      exact ⟨b', turn, shown', fun _ => ⟨k, least, most, devices⟩, nofun⟩

end

/-! ## Runs -/

/-- The circuit in the state of a processor. -/
def Board.holding (p : Processor) (devices : Devices) : Board where
  PC := BitVec.ofNat 32 p.PC
  registers r := BitVec.ofNat 32 (p.REGS r.toFin)
  memory a := BitVec.ofNat 32 (p.MEM a.toNat)
  A := 0
  B := 0
  MAR := 0
  IR := 0
  DAR := 0
  CmpReg := 0
  IE := p.IE
  State := 0
  devices := devices

theorem holding_shown {p : Processor} {devices : Devices} (PC : p.PC < 2 ^ 32)
    (registers : ∀ r, p.REGS r < 2 ^ 32) (memory : ∀ a, p.MEM a < 2 ^ 32) (zero : p.REGS 0 = 0)
    (running : p.HALTED = false) (settled : devices.Settled) :
    Shown p (.holding p devices) := by
  have word : ∀ k < 2 ^ 32, k = (BitVec.ofNat 32 k).toNat := by
    intro k lt
    rw [BitVec.toNat_ofNat, Nat.mod_eq_of_lt lt]
  refine ⟨?_, ?_, rfl, show (0 : Word) ≠ 1 by decide, settled⟩
  · rw [running]
    rfl
  · unfold stopped
    rw [running]
    refine ⟨word _ PC, fun r => word _ (registers _), fun a => word _ (memory _), ?_⟩
    exact congrArg (BitVec.ofNat 32) zero

theorem schedule_turns {b b' : Board} {n : Nat} (turns : b.turns n = some b') :
    b.schedule.request n = b'.request ∧ b.schedule.value n = b'.value := by
  constructor
  · show (b.turns n).bind Board.request = _
    rw [turns, Option.bind_some]
  · show ((b.turns n).map Board.value).getD 0 = _
    rw [turns]
    rfl

/-- So many turns show so many steps. -/
theorem Shown.turns {p : Processor} {b : Board} (shown : Shown p b) {n : Nat}
    (onBoard : ∀ m < n, (run b.schedule p m).HALTED = false → OnBoard (run b.schedule p m)) :
    ∃ b', b.turns n = some b' ∧ Shown (run b.schedule p n) b' := by
  induction n with
  | zero => exact ⟨b, rfl, shown⟩
  | succ n ih =>
    obtain ⟨b', turns, shown'⟩ := ih fun m lt => onBoard m (Nat.lt_succ_of_lt lt)
    obtain ⟨last, turn, shown'', -⟩ := shown'.turn (onBoard n (Nat.lt_succ_self n))
    obtain ⟨request, value⟩ := schedule_turns turns
    refine ⟨last, ?_, ?_⟩
    · rw [Board.turns, turns, Option.bind_some, turn]
    · show Shown ((run b.schedule p n).next _ _) last
      rw [request, value]
      exact shown''

/-- From one fetch to the next the circuit goes through the states of the processor whose schedule
its devices make. Every turn takes ten cycles at most. -/
theorem board_simulates {p : Processor} {b : Board} (shown : Shown p b) {n : Nat}
    (onBoard : ∀ m < n, (run b.schedule p m).HALTED = false → OnBoard (run b.schedule p m)) :
    ∃ t ≤ 10 * n, ∃ b', b.clocks t = some b' ∧ b.turns n = some b' ∧
      Shown (run b.schedule p n) b' := by
  obtain ⟨b', turns, shown'⟩ := shown.turns onBoard
  obtain ⟨t, le, clocks⟩ := Board.turns_clocks turns
  exact ⟨t, le, b', clocks, turns, shown'⟩

instance (p : Processor) : Decidable (OnBoard p) :=
  decidable_of_iff ((8 ≤ p.PC ∧ p.PC < 2 ^ 16 ∧ p.opcode ≠ 15) ∧
    (p.opcode = 14 → int2c (bitRange p.ireg 19 0) = 1 ∧ regno (bitRange p.ireg 23 20) = 0) ∧
      p.op.all (fun op => decide (op ≠ .HALT → Fits p.toMachine p.ireg op)) = true)
    ⟨fun ⟨⟨least, most, known⟩, input, fits⟩ => ⟨least, most, known, input, fun op named => by
      rw [named] at fits
      exact of_decide_eq_true fits⟩,
    fun h => ⟨⟨h.least, h.most, h.known⟩, h.input, by
      cases named : p.op with
      | none => rfl
      | some op => exact decide_eq_true (h.fits op named)⟩⟩

/-- A program that enables interrupts and halts, and a handler that returns at once. -/
def returning : Processor where
  PC := 8
  MEM a :=
    if a = 0 then 16
    else if a = 8 then 0xB0000000
    else if a = 9 then 0x70000000
    else if a = 16 then 0xD0000000
    else 0
  REGS _ := 0
  HALTED := false
  IE := false

/-- The time of the timer is up. -/
def timedOut : Devices where
  timer := { count := 2000, INT := true, DOUT := false }
  tracker := { count := 0, INT := false, DOUT := false, index := 0 }

theorem board_simulates_timer : ∃ t ≤ 40, ∃ b, (Board.holding returning timedOut).clocks t =
    some b ∧
    b.State = 22 ∧ b.registers 12 = 9 := by
  have settled : timedOut.Settled := by
    intro device
    match device with
    | 0 => exact ⟨rfl, fun _ => by decide⟩
    | 1 => exact ⟨rfl, nofun⟩
  have memory : ∀ a, returning.MEM a < 2 ^ 32 := by
    intro a
    unfold returning
    dsimp only
    split_ifs <;> decide
  have shown := holding_shown (p := returning) (by decide) (fun _ => Nat.two_pow_pos 32) memory rfl
    rfl settled
  have onBoard : ∀ m < 4,
      (run (Board.holding returning timedOut).schedule returning m).HALTED = false →
      OnBoard (run (Board.holding returning timedOut).schedule returning m) := by
    decide +kernel
  obtain ⟨t, le, b, clocks, -, shown'⟩ := board_simulates shown onBoard
  have halted :
      (run (Board.holding returning timedOut).schedule returning 4).HALTED = true := by
    decide +kernel
  have link :
      (run (Board.holding returning timedOut).schedule returning 4).REGS Register.k0 = 9 := by
    decide +kernel
  refine ⟨t, le, b, clocks, ?_, ?_⟩
  · rw [shown'.State, halted]
    rfl
  · apply BitVec.eq_of_toNat_eq
    have shows := shown'.shows.registers 12
    rw [stopped, halted] at shows
    exact shows.symm.trans link

end SystemsProjects.Cpu
