import SystemsProjects.Lc.Words

/-!
# The instruction set

An instruction has an effect on a machine, and a word that stands for it. The simulator
gives the word the effect of the instruction.
-/

namespace SystemsProjects.Lc

open Digits

/-- An instruction with its registers and its signed immediate. -/
inductive Instr
  | add (dr sr1 sr2 : Fin 16)
  | nand (dr sr1 sr2 : Fin 16)
  | addi (dr sr1 : Fin 16) (imm : Int)
  | lw (dr base : Fin 16) (offset : Int)
  | sw (sr base : Fin 16) (offset : Int)
  | beq (sr1 sr2 : Fin 16) (offset : Int)
  | blt (sr1 sr2 : Fin 16) (offset : Int)
  | lea (dr : Fin 16) (offset : Int)
  | jalr (target ra : Fin 16)
  | halt
  | min (dr sr1 sr2 : Fin 16)
  | max (dr sr1 sr2 : Fin 16)
  | inc (dr : Fin 16)
  | noop
deriving DecidableEq, Repr

/-- A number modulo 2^32. -/
def wrap (num : Int) : Nat := (num % 2 ^ 32).toNat

/-- The signed number that a word stands for. -/
def signed (num : Nat) : Int := (num : Int).bmod (2 ^ 32)

namespace Instr

/-- What the simulator does for an instruction, apart from `$zero`. A load takes its address modulo
2^24, a store does not. -/
def act (i : Instr) (s : Machine) : Machine :=
  let next := s.setPC (wrap (s.PC + 1))
  match i with
  | add dr sr1 sr2 => next.setReg dr (wrap (s.REGS sr1 + s.REGS sr2))
  | nand dr sr1 sr2 => next.setReg dr (wrap (~~~((s.REGS sr1 &&& s.REGS sr2 : Nat) : Int)))
  | addi dr sr1 imm => next.setReg dr (wrap (s.REGS sr1 + imm))
  | lw dr base offset => next.setReg dr (s.accessMem (wrap (s.REGS base + offset)))
  | sw sr base offset => next.store (wrap (s.REGS base + offset)) (s.REGS sr)
  | beq sr1 sr2 offset => if s.REGS sr1 = s.REGS sr2 then s.setPC (wrap (s.PC + 1 + offset)) else
    next
  | blt sr1 sr2 offset =>
    if signed (s.REGS sr1) < signed (s.REGS sr2) then s.setPC (wrap (s.PC + 1 + offset)) else next
  | lea dr offset => next.setReg dr (wrap (s.PC + 1 + offset))
  | jalr target ra =>
    let linked := if ra = 0 then s else s.setReg ra (wrap (s.PC + 1))
    linked.setPC (linked.REGS target)
  | halt => { s with HALTED := true }
  | min dr sr1 sr2 => next.setReg dr (wrap (Min.min (signed (s.REGS sr1)) (signed (s.REGS sr2))))
  | max dr sr1 sr2 => next.setReg dr (wrap (Max.max (signed (s.REGS sr1)) (signed (s.REGS sr2))))
  | inc dr => next.setReg dr (wrap (s.REGS dr + 1))
  | noop => next

/-- What the simulator does for an instruction; `$zero` is 0 afterwards. -/
def effect (i : Instr) (s : Machine) : Machine := (i.act s).setReg 0 0

/-- The address of a load or a store, modulo 2^32. -/
def location (base : Fin 16) (offset : Int) (s : Machine) : Nat := wrap (s.REGS base + offset)

/-- What the mnemonic says: a load reads the word that a store to the same address has written. -/
def meaning (i : Instr) (s : Machine) : Machine :=
  match i with
  | lw dr base offset =>
    ((s.setPC (wrap (s.PC + 1))).setReg dr (s.MEM (location base offset s))).setReg 0 0
  | _ => i.effect s

/-- Opcode, two registers and 20 more digits. -/
def layout (opcode : Nat) (rx ry : Fin 16) (low : List Bool) : List Bool :=
  digits 4 opcode ++ (digits 4 rx ++ (digits 4 ry ++ low))

/-- The digits of a signed immediate. -/
def immediate (imm : Int) : List Bool := digits 20 (imm % 2 ^ 20).toNat

/-- The third register, below 16 digits of which at most the last is set. -/
def third (mode : Bool) (sr2 : Fin 16) : List Bool :=
  List.replicate 15 false ++ (mode :: digits 4 sr2)

/-- The word of an instruction. -/
def encode : Instr → List Bool
  | add dr sr1 sr2 => layout 0 dr sr1 (third false sr2)
  | nand dr sr1 sr2 => layout 1 dr sr1 (third false sr2)
  | addi dr sr1 imm => layout 2 dr sr1 (immediate imm)
  | lw dr base offset => layout 3 dr base (immediate offset)
  | sw sr base offset => layout 4 sr base (immediate offset)
  | beq sr1 sr2 offset => layout 5 sr1 sr2 (immediate offset)
  | jalr target ra => layout 6 target ra (List.replicate 20 false)
  | halt => layout 7 0 0 (List.replicate 20 false)
  | blt sr1 sr2 offset => layout 8 sr1 sr2 (immediate offset)
  | lea dr offset => layout 9 dr 0 (immediate offset)
  | min dr sr1 sr2 => layout 10 dr sr1 (third false sr2)
  | max dr sr1 sr2 => layout 10 dr sr1 (third true sr2)
  | inc dr => layout 15 dr 0 (List.replicate 20 false)
  | noop => layout 0 0 0 (third false 0)

/-- The immediate has 20 digits with its sign. -/
def InRange : Instr → Prop
  | addi _ _ v | lw _ _ v | sw _ _ v | beq _ _ v | blt _ _ v | lea _ v => -2 ^ 19 ≤ v ∧ v < 2 ^ 19
  | _ => True

/-- What the simulator gets right: it does not know `inc`, and it keeps the return address in
`$zero` until the jump. -/
def Supported (i : Instr) (s : Machine) : Prop :=
  match i with
  | inc _ => False
  | jalr target ra => target = 0 ∧ ra = 0 → s.REGS 0 = s.PC + 1
  | _ => True

/-- A load finds the word of its address, or loads nothing. -/
def Reads (i : Instr) (s : Machine) : Prop :=
  match i with
  | lw dr base offset =>
    dr = 0 ∨ location base offset s < 2 ^ 24 ∨
      s.MEM (location base offset s % 2 ^ 24) = s.MEM (location base offset s)
  | _ => True

end Instr

/-! ## Arithmetic modulo 2^32 -/

theorem forceSigned_eq (num : Int) (k : Nat) :
    forceSigned num (k + 1) = num.bmod (2 ^ (k + 1)) := by
  have cast : ((2 ^ (k + 1) : Nat) : Int) = 2 ^ (k + 1) := by push_cast; rfl
  have positive : (0 : Int) < 2 ^ (k + 1) := Int.pow_pos (by omega)
  have double : 2 ^ (k + 1) = 2 ^ k * 2 := Nat.pow_succ 2 k
  have less := Int.emod_lt_of_pos num positive
  obtain ⟨n, residue⟩ := Int.eq_ofNat_of_zero_le (Int.emod_nonneg num positive.ne')
  rw [residue] at less
  have top := testBit_top (n := n) (k := k) (by omega)
  unfold forceSigned
  dsimp only
  rw [Int.bmod_def, cast, residue]
  rw [Nat.add_sub_cancel, Int.toNat_natCast, top]
  by_cases upper : 2 ^ k ≤ n
  · rw [if_pos (decide_eq_true upper), if_neg (by omega)]
  · rw [if_neg (by simpa using upper), if_pos (by omega)]

theorem wrap_of_lt {n : Nat} (lt : n < 2 ^ 32) : wrap n = n := by
  unfold wrap
  omega

theorem forceSigned_signed (n : Nat) : forceSigned n 32 = signed n := forceSigned_eq n 31

theorem forceUnsigned_wrap (num : Int) : forceUnsigned num 32 = wrap num := rfl

theorem signed_emod (n : Nat) : signed n % 2 ^ 32 = n % 2 ^ 32 := Int.bmod_emod

theorem wrap_signed_add (n : Nat) (v : Int) : wrap (signed n + v) = wrap (n + v) := by
  unfold wrap
  rw [Int.add_emod, signed_emod, ← Int.add_emod]

theorem wrap_add_signed (v : Int) (n : Nat) : wrap (v + signed n) = wrap (v + n) := by
  rw [Int.add_comm, wrap_signed_add, Int.add_comm]

/-! ## Fields of a word -/

namespace Instr

variable {opcode : Nat} {rx ry : Fin 16} {low : List Bool}

theorem length_layout (len : low.length = 20) : (layout opcode rx ry low).length = 32 := by
  simp [layout, len]

theorem format32_layout (len : low.length = 20) :
    format32 (uint (layout opcode rx ry low)) = layout opcode rx ry low := by
  have word : (layout opcode rx ry low).length = 32 := length_layout len
  have lt := value_lt (layout opcode rx ry low)
  have same := digits_value (layout opcode rx ry low)
  rw [word] at lt same
  rw [uint, format32_of_lt lt, same]

theorem layout_opcode : bitRange (layout opcode rx ry low) 31 28 = digits 4 opcode := rfl

theorem layout_rx : bitRange (layout opcode rx ry low) 27 24 = digits 4 rx := rfl

theorem layout_ry : bitRange (layout opcode rx ry low) 23 20 = digits 4 ry := rfl

theorem layout_low (len : low.length = 20) : bitRange (layout opcode rx ry low) 19 0 = low := by
  have rest : (layout opcode rx ry low).drop 12 = low := rfl
  rw [bitRange, rest]
  exact List.take_of_length_le len.le

theorem layout_third (mode : Bool) (sr2 : Fin 16) :
    bitRange (layout opcode rx ry (third mode sr2)) 3 0 = digits 4 sr2 := rfl

theorem layout_mode (mode : Bool) (sr2 : Fin 16) :
    bit (layout opcode rx ry (third mode sr2)) 4 = mode := rfl

theorem regno_digits (r : Fin 16) : regno (digits 4 r) = r := by
  rw [regno, uint, value_digits]
  apply Fin.ext
  simp

theorem length_immediate (imm : Int) : (immediate imm).length = 20 := length_digits ..

theorem int2c_immediate {imm : Int} (range : -2 ^ 19 ≤ imm ∧ imm < 2 ^ 19) :
    int2c (immediate imm) = imm := by
  rw [int2c, length_immediate, forceSigned_eq _ 19, immediate, uint, value_digits]
  rw [Int.bmod_def]
  omega

/-! ## The step -/

variable {s : Machine}

/-- The simulator takes the word apart again. -/
theorem step_layout (len : low.length = 20)
    (fetch : s.accessMem s.PC = uint (layout opcode rx ry low)) {op : Op}
    (named : opName (digits 4 opcode) = some op) :
    s.stepInstruction =
      .ok (((s.setPC (s.PC + 1)).execute (layout opcode rx ry low) op).setReg 0 0) := by
  unfold Machine.stepInstruction
  dsimp only
  rw [fetch, format32_layout len, layout_opcode, named]

theorem step_unknown (len : low.length = 20)
    (fetch : s.accessMem s.PC = uint (layout opcode rx ry low))
    (unknown : opName (digits 4 opcode) = none) :
    s.stepInstruction = .error (digits 4 opcode) := by
  unfold Machine.stepInstruction
  dsimp only
  rw [fetch, format32_layout len, layout_opcode, unknown]

/-- The name by which the simulator knows an instruction. -/
def op : Instr → Option Op
  | add .. | noop => some .ADD
  | nand .. => some .NAND
  | addi .. => some .ADDI
  | lw .. => some .LW
  | sw .. => some .SW
  | beq .. => some .BEQ
  | blt .. => some .BLT
  | lea .. => some .LEA
  | jalr .. => some .JALR
  | halt => some .HALT
  | min .. | max .. => some .MINMAX
  | inc _ => none

attribute [local simp] Machine.execute encode act layout_rx layout_ry layout_third layout_mode
  layout_low length_immediate regno_digits forceSigned_signed forceUnsigned_wrap
  wrap_signed_add wrap_add_signed

theorem execute_encode {i : Instr} {op : Op} (PC : s.PC < 2 ^ 32 - 1) (range : i.InRange)
    (named : i.op = some op) (supported : i.Supported s) :
    ((s.setPC (s.PC + 1)).execute i.encode op).setReg 0 0 = i.effect s := by
  have next : wrap (s.PC + 1) = s.PC + 1 := wrap_of_lt (n := s.PC + 1) (by omega)
  have zero : regno (digits 4 0) = 0 := rfl
  unfold effect
  cases i with
  | add dr sr1 sr2 =>
    cases named
    simp [next]
  | noop =>
    cases named
    simp [next, zero]
  | nand dr sr1 sr2 =>
    cases named
    simp [next]
  | addi dr sr1 imm =>
    cases named
    have same : int2c (immediate imm) = imm := int2c_immediate range
    simp [next, same]
  | lw dr base offset =>
    cases named
    have same : int2c (immediate offset) = offset := int2c_immediate range
    simp [next, same]
  | sw sr base offset =>
    cases named
    have same : int2c (immediate offset) = offset := int2c_immediate range
    simp [next, same]
  | beq sr1 sr2 offset =>
    cases named
    have same : int2c (immediate offset) = offset := int2c_immediate range
    simp [next, same]
  | blt sr1 sr2 offset =>
    cases named
    have same : int2c (immediate offset) = offset := int2c_immediate range
    simp [next, same]
  | lea dr offset =>
    cases named
    have same : int2c (immediate offset) = offset := int2c_immediate range
    simp [next, same]
  | halt =>
    cases named
    rfl
  | min dr sr1 sr2 =>
    cases named
    simp [next]
  | max dr sr1 sr2 =>
    cases named
    simp [next]
  | inc dr => cases named
  | jalr target ra =>
    cases named
    by_cases link : ra = 0
    · by_cases own : target = 0
      · have here : s.REGS 0 = s.PC + 1 := supported ⟨own, link⟩
        simp [zero, link, own, here, Machine.setReg_REGS]
      · simp [zero, link, own, Machine.setReg_REGS]
    · simp [next, link, Machine.setReg_REGS]

theorem effect_HALTED {i : Instr} (more : i ≠ .halt) : (i.effect s).HALTED = s.HALTED := by
  have act : (i.act s).HALTED = s.HALTED := by
    cases i with
    | halt => exact absurd rfl more
    | beq | blt | jalr =>
      simp only [Instr.act, apply_ite Machine.HALTED, Machine.setPC_HALTED, Machine.setReg_HALTED,
        ite_self]
    | _ => rfl
  exact act

theorem step_named {i : Instr} {op : Op} (named : i.op = some op)
    (fetch : s.accessMem s.PC = uint i.encode) :
    s.stepInstruction = .ok (((s.setPC (s.PC + 1)).execute i.encode op).setReg 0 0) := by
  cases i <;> cases named <;> exact step_layout (by rfl) fetch rfl

/-- In a machine that is not at its last address, the simulator gives the word of an instruction
its effect if and only if it supports it. -/
theorem step_encode {i : Instr} (PC : s.PC < 2 ^ 32 - 1) (range : i.InRange)
    (fetch : s.accessMem s.PC = uint i.encode) :
    s.stepInstruction = .ok (i.effect s) ↔ i.Supported s := by
  constructor
  · intro ok
    cases i with
    | inc dr =>
      rw [step_unknown (by rfl) fetch rfl] at ok
      cases ok
    | jalr target ra =>
      rintro ⟨rfl, rfl⟩
      rw [step_named rfl fetch] at ok
      have jumps := congrArg Machine.PC (Except.ok.inj ok)
      have zero : regno (digits 4 0) = 0 := rfl
      simp [effect, zero, Machine.setReg_REGS] at jumps
      exact jumps.symm
    | _ => trivial
  · intro supported
    cases named : i.op with
    | none =>
      cases i <;> cases named
      exact supported.elim
    | some op => rw [step_named named fetch, execute_encode PC range named supported]

theorem effect_meaning {i : Instr} : i.effect s = i.meaning s ↔ i.Reads s := by
  cases i with
  | lw dr base offset =>
    have cell := accessMem_eq s (location base offset s)
    constructor
    · intro same
      by_cases none : dr = 0
      · exact .inl none
      · have loaded := congrFun (congrArg Machine.REGS same) dr
        simp only [effect, act, meaning, Machine.setReg_REGS, none, if_false, if_true] at loaded
        exact .inr (.inr (cell.symm.trans loaded))
    · rintro (rfl | low | same)
      · show Machine.setReg _ 0 0 = Machine.setReg _ 0 0
        simp [act]
      · rw [Nat.mod_eq_of_lt low] at cell
        exact congrArg (fun v => ((s.setPC (wrap (s.PC + 1))).setReg dr v).setReg 0 0) cell
      · rw [same] at cell
        exact congrArg (fun v => ((s.setPC (wrap (s.PC + 1))).setReg dr v).setReg 0 0) cell
  | _ => exact iff_of_true rfl trivial

/-- In a machine that is not at its last address, the simulator does with the word of an instruction
what the mnemonic says if and only if it supports it and a load finds its word. -/
theorem step_meaning {i : Instr} (PC : s.PC < 2 ^ 32 - 1) (range : i.InRange)
    (fetch : s.accessMem s.PC = uint i.encode) :
    s.stepInstruction = .ok (i.meaning s) ↔ i.Supported s ∧ i.Reads s := by
  by_cases load : ∃ dr base offset, i = lw dr base offset
  · obtain ⟨dr, base, offset, rfl⟩ := load
    have step := (step_encode PC range fetch).mpr trivial
    rw [step, Except.ok.injEq, effect_meaning]
    exact (and_iff_right trivial).symm
  · have same : i.meaning s = i.effect s := by
      cases i with
      | lw dr base offset => exact absurd ⟨dr, base, offset, rfl⟩ load
      | _ => rfl
    rw [same, step_encode PC range fetch, and_iff_left]
    exact effect_meaning.mp same.symm

end Instr

end SystemsProjects.Lc
