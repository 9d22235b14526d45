import SystemsProjects.Cpu.Board
import SystemsProjects.Cpu.Instructions

/-!
# From one fetch to the next

What the microcode of the LC-4000a does with an instruction, and with an interrupt. Meanwhile its
devices go on counting.
-/

namespace SystemsProjects.Cpu

namespace Board

/-- Within `n` cycles the circuit comes to the next fetch, or stops. It has taken `k` cycles, none
of
them with an acknowledgement. -/
def Arrives (b : Board) (n k : Nat) (State : BitVec 6) (s : Visible) (DAR : Word) (IE : Bool) :
    Prop :=
  ∃ last, b.onward n = some last ∧ last.State = State ∧ last.toVisible = s ∧ last.DAR = DAR ∧
    last.IE = IE ∧ last.devices = b.devices.idle k

variable {b : Board}

theorem Arrives.intro {n k : Nat} {s : Visible} {A B MAR IR DAR : Word} {CmpReg : BitVec 2}
    {IE : Bool} {State : BitVec 6}
    (run : b.onward n = some ⟨s, A, B, MAR, IR, DAR, CmpReg, IE, State, b.devices.idle k⟩) :
    b.Arrives n k State s DAR IE :=
  ⟨_, run, rfl, rfl, rfl, rfl, rfl⟩

theorem Arrives.after {middle : Board} {n m k j : Nat} {State : BitVec 6} {s : Visible} {DAR : Word}
    {IE : Bool} (rest : middle.Arrives n k State s DAR IE) (first : b.onward m = middle.onward n)
    (devices : middle.devices = b.devices.idle j) : b.Arrives m (k + j) State s DAR IE := by
  obtain ⟨last, run, here, visible, addressed, enabled, counted⟩ := rest
  refine ⟨last, first.trans run, here, visible, addressed, enabled, counted.trans ?_⟩
  rw [devices, Devices.idle, Devices.idle, Devices.idle, Function.iterate_add_apply]

/-! ## Chains of rows -/

/-- The circuit in a fetch, behind the first row, which looks for an interrupt. -/
def begun (b : Board) : Board :=
  ⟨b.toVisible, b.pcInput, b.B, b.pcInput, b.IR, b.DAR, b.CmpReg, b.IE, rom intROM b.INT.toNat,
    b.devices.idle 1⟩

theorem begins (here : b.State = 0) (n : Nat) : b.onward (n + 1) = b.begun.onward n := by
  rw [onward_next (congrArg _ here) rfl rfl ?_]
  · rfl
  · show decide (rom intROM b.INT.toNat = 0 ∨ rom intROM b.INT.toNat = 22) = false
    cases b.INT <;> rfl

theorem begins_clocks (here : b.State = 0) (n : Nat) : b.clocks (n + 1) = b.begun.clocks n := by
  rw [clocks_row (congrArg _ here) rfl rfl]
  rfl

theorem begun_State (quiet : b.INT = false) : b.begun.State = 1 := by
  show rom intROM b.INT.toNat = 1
  rw [quiet]
  rfl

/-- The circuit behind a fetch. It has seen `PC` only through what it puts on the bus. -/
def fetched (b : Board) : Board :=
  ⟨b.toVisible.jump (b.pcInput + 1), b.pcInput, b.B, b.pcInput,
    b.memory (b.pcInput.setWidth 16), b.DAR, b.CmpReg, b.IE,
    rom seqROM (opcode (b.memory (b.pcInput.setWidth 16))).toNat, b.devices.idle 3⟩

theorem fetch_onward (here : b.State = 0) (quiet : b.INT = false) (n : Nat) : b.onward (n + 3) =
    bif decide b.fetched.Between then some b.fetched else b.fetched.onward n := by
  rw [begins here, onward_next (congrArg _ (begun_State quiet)) rfl rfl rfl, onward_row rfl rfl rfl]
  rfl

theorem fetch_clocks (here : b.State = 0) (quiet : b.INT = false) (n : Nat) :
    b.clocks (n + 3) = b.fetched.clocks n := by
  rw [begins_clocks here, clocks_row (congrArg _ (begun_State quiet)) rfl rfl,
    clocks_row rfl rfl rfl]
  rfl

/-- The circuit does not stop before the fetch is over. -/
theorem fetch_goes {n : Nat} {last : Board} (here : b.State = 0) (quiet : b.INT = false)
    (clocks : b.clocks n = some last) (stops : last.State = 22) : 3 ≤ n := by
  match n with
  | 0 =>
    obtain rfl := Option.some.inj clocks
    cases here.symm.trans stops
  | 1 =>
    rw [begins_clocks here] at clocks
    obtain rfl := Option.some.inj clocks
    cases (begun_State quiet).symm.trans stops
  | 2 =>
    rw [begins_clocks here, clocks_row (congrArg _ (begun_State quiet)) rfl rfl] at clocks
    obtain rfl := Option.some.inj clocks
    cases stops
  | n + 3 => exact Nat.le_add_left 3 n

/-- The circuit with an instruction in `IR`. -/
def decoded (b : Board) : Board :=
  ⟨b.toVisible.jump (b.PC + 1), b.PC, b.B, b.PC, b.fetch, b.DAR, b.CmpReg, b.IE,
    rom seqROM (opcode b.fetch).toNat, b.devices.idle 3⟩

theorem fetch_edges (here : b.State = 0) (own : b.pcInput = b.PC) (quiet : b.INT = false)
    (n : Nat) : b.onward (n + 3) =
      bif decide b.decoded.Between then some b.decoded else b.decoded.onward n := by
  have same : b.fetched = b.decoded := by
    unfold fetched
    rw [own]
    rfl
  rw [fetch_onward here quiet, same]

theorem add_onward (here : b.State = 3) (n : Nat) : b.Arrives (n + 3) 3 0
    (b.toVisible.write (rx b.IR) (b.registers (ry b.IR) + b.registers (rz b.IR))) b.DAR b.IE := by
  apply Arrives.intro
  rw [onward_next (congrArg _ here) rfl rfl rfl, onward_next rfl rfl rfl rfl,
    onward_last rfl rfl rfl rfl]
  rfl

theorem nand_onward (here : b.State = 6) (n : Nat) : b.Arrives (n + 3) 3 0
    (b.toVisible.write (rx b.IR) (~~~(b.registers (ry b.IR) &&& b.registers (rz b.IR)))) b.DAR
      b.IE := by
  apply Arrives.intro
  rw [onward_next (congrArg _ here) rfl rfl rfl, onward_next rfl rfl rfl rfl,
    onward_last rfl rfl rfl rfl]
  rfl

theorem addi_onward (here : b.State = 9) (n : Nat) : b.Arrives (n + 3) 3 0
    (b.toVisible.write (rx b.IR) (b.registers (ry b.IR) + offset b.IR)) b.DAR b.IE := by
  apply Arrives.intro
  rw [onward_next (congrArg _ here) rfl rfl rfl, onward_next rfl rfl rfl rfl,
    onward_last rfl rfl rfl rfl]
  rfl

theorem lw_onward (here : b.State = 12) (n : Nat) : b.Arrives (n + 4) 4 0
    (b.toVisible.write (rx b.IR) (b.memory (b.effective b.IR))) b.DAR b.IE := by
  apply Arrives.intro
  rw [onward_next (congrArg _ here) rfl rfl rfl, onward_next rfl rfl rfl rfl,
    onward_next rfl rfl rfl rfl, onward_last rfl rfl rfl rfl]
  rfl

/-- The offset comes first. -/
theorem sw_onward (here : b.State = 16) (n : Nat) : b.Arrives (n + 4) 4 0
    (b.toVisible.store ((offset b.IR + b.registers (ry b.IR)).setWidth 16) (b.registers (rx b.IR)))
      b.DAR b.IE := by
  apply Arrives.intro
  rw [onward_next (congrArg _ here) rfl rfl rfl, onward_next rfl rfl rfl rfl,
    onward_next rfl rfl rfl rfl, onward_last rfl rfl rfl rfl]
  rfl

theorem jalr_onward (here : b.State = 20) (n : Nat) : b.Arrives (n + 2) 2 0
    ((b.toVisible.write (ry b.IR) b.pcInput).jump
      ((b.toVisible.write (ry b.IR) b.pcInput).registers (rx b.IR))) b.DAR b.IE := by
  apply Arrives.intro
  rw [onward_next (congrArg _ here) rfl rfl rfl, onward_last rfl rfl rfl rfl]
  rfl

/-- The rows behind a comparison that holds. -/
theorem br_onward (here : b.State = 27) (n : Nat) : b.Arrives (n + 3) 3 0
    (b.toVisible.jump (b.pcInput + offset b.IR)) b.DAR b.IE := by
  apply Arrives.intro
  rw [onward_next (congrArg _ here) rfl rfl rfl, onward_next rfl rfl rfl rfl,
    onward_last rfl rfl rfl rfl]
  rfl

theorem lea_onward (here : b.State = 30) (n : Nat) : b.Arrives (n + 3) 3 0
    (b.toVisible.write (rx b.IR) (b.pcInput + offset b.IR)) b.DAR b.IE := by
  apply Arrives.intro
  rw [onward_next (congrArg _ here) rfl rfl rfl, onward_next rfl rfl rfl rfl,
    onward_last rfl rfl rfl rfl]
  rfl

theorem ei_onward (here : b.State = 43) (n : Nat) :
    b.Arrives (n + 1) 1 0 b.toVisible b.DAR true := by
  apply Arrives.intro
  rw [onward_last (congrArg _ here) rfl rfl rfl]
  rfl

theorem di_onward (here : b.State = 44) (n : Nat) :
    b.Arrives (n + 1) 1 0 b.toVisible b.DAR false := by
  apply Arrives.intro
  rw [onward_last (congrArg _ here) rfl rfl rfl]
  rfl

theorem reti_onward (here : b.State = 45) (n : Nat) :
    b.Arrives (n + 1) 1 0 (b.toVisible.jump (b.registers 12)) b.DAR true := by
  apply Arrives.intro
  rw [onward_last (congrArg _ here) rfl rfl rfl]
  rfl

/-- The second row stores what the device delivers, and the third one leaves the device. -/
theorem in_onward (here : b.State = 46) (listening : offset b.IR = 1) (n : Nat) :
    b.Arrives (n + 3) 3 0 (b.toVisible.write (rx b.IR) (Devices.OUTPUT b.devices.tracker.index))
      ((b.toVisible.write (rx b.IR) (Devices.OUTPUT b.devices.tracker.index)).registers (ry b.IR))
      b.IE := by
  apply Arrives.intro
  rw [onward_next (congrArg _ here) rfl rfl rfl, listening, onward_next rfl rfl rfl rfl,
    onward_last rfl rfl rfl rfl]
  rfl

theorem halt_onward (here : b.State = 22) (n : Nat) :
    b.Arrives (n + 1) 1 22 b.toVisible b.DAR b.IE := by
  apply Arrives.intro
  rw [onward_last (congrArg _ here) rfl rfl rfl]
  rfl

/-! ## Comparisons -/

theorem cmpLogic_beq {Din : Word} {op : BitVec 4} (m : Bool) (code : op.toNat = 5) :
    cmpLogic Din op m = some (if Din = 0 then 0b01#2 else 0b00#2) := by
  simp only [cmpLogic, code]

theorem cmpLogic_blt {Din : Word} {op : BitVec 4} (m : Bool) (code : op.toNat = 8) :
    cmpLogic Din op m = some (if Din.slt 0 then 0b01#2 else 0b00#2) := by
  simp only [cmpLogic, code]

theorem cmpLogic_minmax {Din : Word} {op : BitVec 4} (m : Bool) (code : op.toNat = 10) :
    cmpLogic Din op m =
      some (if (if m then Din.slt 0 else (0 : Word).slt Din) then 0b11#2 else 0b10#2) := by
  simp only [cmpLogic, code]

/-- The circuit when it has compared. -/
def compared (b : Board) (CmpOut : BitVec 2) : Board :=
  { b with CmpReg := CmpOut, State := rom ccROM CmpOut.toNat, devices := b.devices.idle 2 }

/-- The last two rows of a comparison. -/
theorem compare_onward {k : Nat} {j : BitVec 6} {CmpOut : BitVec 2} (here : b.State.toNat = k)
    (compare : microcode[k]? =
      some { nextState := j, DrALU := true, LdCmp := true, func := 1 })
    (more : decide (j = 0 ∨ j = 22) = false)
    (check : microcode[j.toNat]? = some { nextState := 0, ChkCmp := true })
    (compares : cmpLogic (b.A - b.B) (opcode b.IR) (mode b.IR) = some CmpOut) (n : Nat) :
    b.onward (n + 2) = bif decide (b.compared CmpOut).Between then some (b.compared CmpOut)
      else (b.compared CmpOut).onward n := by
  have edge : b.edge { nextState := j, DrALU := true, LdCmp := true, func := 1 } =
      some { b with CmpReg := CmpOut, State := j, devices := b.devices.idle 1 } := by
    show (cmpLogic (b.A - b.B) (opcode b.IR) (mode b.IR)).bind _ = _
    rw [compares]
    rfl
  rw [onward_next here compare edge more, onward_row rfl check rfl]
  rfl

/-- The circuit with the operands of a comparison in `A` and `B`. -/
def comparing (b : Board) (A B : Word) (State : BitVec 6) : Board :=
  { b with A := A, B := B, State := State, devices := b.devices.idle 2 }

/-- After a comparison the branch is taken or the next fetch begins. -/
theorem branch_onward {taken : Prop} [Decidable taken] (here : b.State = 23) (n : Nat)
    (compares : cmpLogic (b.registers (rx b.IR) - b.registers (ry b.IR)) (opcode b.IR) (mode b.IR) =
      some (if taken then 0b01#2 else 0b00#2)) :
    ∃ k, 4 ≤ k ∧ k ≤ 7 ∧ b.Arrives (n + 7) k 0
      (if taken then b.toVisible.jump (b.pcInput + offset b.IR) else b.toVisible) b.DAR b.IE := by
  have loads : b.onward (n + 7) =
      (b.comparing (b.registers (rx b.IR)) (b.registers (ry b.IR)) 25).onward (n + 5) := by
    rw [onward_next (congrArg _ here) rfl rfl rfl, onward_next rfl rfl rfl rfl]
    rfl
  have compared := compare_onward
    (b := b.comparing (b.registers (rx b.IR)) (b.registers (ry b.IR)) 25)
    rfl rfl rfl rfl compares (n + 3)
  rw [← loads] at compared
  by_cases holds : taken
  · rw [if_pos holds] at compared ⊢
    exact ⟨3 + 4, by decide, by decide,
      (br_onward (b := (b.comparing _ _ 25).compared 0b01#2) rfl n).after compared rfl⟩
  · rw [if_neg holds] at compared ⊢
    exact ⟨4, by decide, by decide, Arrives.intro compared⟩

/-- After the comparison of a MINMAX one of its operands is written. -/
theorem first_onward (here : b.State = 37) (n : Nat) : b.Arrives (n + 2) 2 0
    (b.toVisible.write (rx b.IR) (b.registers (ry b.IR))) b.DAR b.IE := by
  apply Arrives.intro
  rw [onward_next (congrArg _ here) rfl rfl rfl, onward_last rfl rfl rfl rfl]
  rfl

theorem second_onward (here : b.State = 38) (n : Nat) : b.Arrives (n + 2) 2 0
    (b.toVisible.write (rx b.IR) (b.registers (rz b.IR))) b.DAR b.IE := by
  apply Arrives.intro
  rw [onward_next (congrArg _ here) rfl rfl rfl, onward_last rfl rfl rfl rfl]
  rfl

theorem minmax_onward {second : Prop} [Decidable second] (here : b.State = 33) (n : Nat)
    (compares : cmpLogic (b.registers (ry b.IR) - b.registers (rz b.IR)) (opcode b.IR) (mode b.IR) =
      some (if second then 0b11#2 else 0b10#2)) :
    b.Arrives (n + 6) 6 0 (b.toVisible.write (rx b.IR)
      (if second then b.registers (rz b.IR) else b.registers (ry b.IR))) b.DAR b.IE := by
  have loads : b.onward (n + 6) =
      (b.comparing (b.registers (ry b.IR)) (b.registers (rz b.IR)) 35).onward (n + 4) := by
    rw [onward_next (congrArg _ here) rfl rfl rfl, onward_next rfl rfl rfl rfl]
    rfl
  have compared := compare_onward
    (b := b.comparing (b.registers (ry b.IR)) (b.registers (rz b.IR)) 35)
    rfl rfl rfl rfl compares (n + 2)
  rw [← loads] at compared
  by_cases holds : second
  · rw [if_pos holds] at compared ⊢
    exact (second_onward (b := (b.comparing _ _ 35).compared 0b11#2) rfl n).after (j := 4) compared
      rfl
  · rw [if_neg holds] at compared ⊢
    exact (first_onward (b := (b.comparing _ _ 35).compared 0b10#2) rfl n).after (j := 4) compared
      rfl

/-! ## An interrupt -/

/-- The circuit at the first row of a handler. -/
def interrupted (b : Board) : Board :=
  let device := BitVec.ofNat 32 b.devices.asking
  ⟨(b.toVisible.write 12 b.PC).jump (b.memory (device.setWidth 16)), b.PC, b.B, device, b.IR, b.DAR,
    b.CmpReg, false, 0, b.devices.acknowledged.idle 2⟩

theorem interrupt_onward (here : b.State = 0) (own : b.pcInput = b.PC) (asked : b.INT = true)
    (settled : b.devices.Settled) (other : b.DAR ≠ 1) (n : Nat) :
    b.onward (n + 4) = some b.interrupted := by
  have INT : b.devices.INT = true := (Bool.and_eq_true_iff.mp asked).2
  have DATA := Devices.acknowledged_DATA settled INT other
  have begun : b.begun.State = 40 := by
    show rom intROM b.INT.toNat = 40
    rw [asked]
    rfl
  have acknowledges : b.onward (n + 4) = (⟨b.toVisible.write 12 b.pcInput, b.pcInput, b.B,
      b.pcInput, b.IR, b.DAR, b.CmpReg, false, 41, b.devices.acknowledged⟩ : Board).onward
      (n + 2) := by
    rw [begins here, onward_next (congrArg _ begun) rfl rfl rfl]
    rfl
  have answers : (⟨b.toVisible.write 12 b.pcInput, b.pcInput, b.B, b.pcInput, b.IR, b.DAR,
      b.CmpReg, false, 41, b.devices.acknowledged⟩ : Board).edge
      { nextState := 42, LdMAR := true, DrData := true } =
      some ⟨b.toVisible.write 12 b.pcInput, b.pcInput, b.B, BitVec.ofNat 32 b.devices.asking, b.IR,
        b.DAR, b.CmpReg, false, 42, b.devices.acknowledged.idle 1⟩ := by
    show (b.devices.acknowledged.DATA b.DAR).bind _ = _
    rw [DATA]
    rfl
  rw [acknowledges, onward_next rfl rfl answers rfl, onward_last rfl rfl rfl rfl, own]
  rfl

end Board

end SystemsProjects.Cpu
