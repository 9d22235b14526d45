import SystemsProjects.Irq.Views

/-!
# Steps of a view

Each kind of instruction moves a view in its own way. A program is then followed through its code
by what its views hold.
-/

namespace SystemsProjects.Irq

open Lc Register

namespace View

/-- A view in order: `$zero` is 0, and the stack pointer has room. -/
structure Ready (L : Layout) (v : View) : Prop where
  zero : v.REGS 0 = 0
  below : ∀ a, L.size ≤ a → a < v.REGS sp → v.MEM a = none
  room : Room L (v.REGS sp)

/-- The view moves on to the next instruction. -/
def set (v : View) (dr : Fin 16) (x : Nat) : View :=
  { v with PC := v.PC + 1, REGS := Function.update v.REGS dr x }

def goto (v : View) (pc : Nat) : View := { v with PC := pc }

/-- The view when a word has been stored. -/
def store (v : View) (a x : Nat) : View :=
  { v with PC := v.PC + 1, MEM := Function.update v.MEM a (some x) }

/-- The view when words have been popped. -/
def pop (L : Layout) (v : View) (k : Nat) : View :=
  { v.set sp (v.REGS sp + k) with MEM := forget L (v.REGS sp + k) v.MEM }

section

variable (L : Layout) (v : View) (r : Fin 16) (x k : Nat)

@[simp] theorem set_PC : (v.set r x).PC = v.PC + 1 := rfl
@[simp] theorem set_MEM : (v.set r x).MEM = v.MEM := rfl
@[simp] theorem set_IE : (v.set r x).IE = v.IE := rfl
@[simp] theorem goto_PC : (v.goto x).PC = x := rfl
@[simp] theorem goto_REGS : (v.goto x).REGS = v.REGS := rfl
@[simp] theorem goto_MEM : (v.goto x).MEM = v.MEM := rfl
@[simp] theorem goto_IE : (v.goto x).IE = v.IE := rfl
@[simp] theorem store_PC : (v.store k x).PC = v.PC + 1 := rfl
@[simp] theorem store_REGS : (v.store k x).REGS = v.REGS := rfl
@[simp] theorem store_MEM : (v.store k x).MEM = Function.update v.MEM k (some x) := rfl
@[simp] theorem store_IE : (v.store k x).IE = v.IE := rfl
@[simp] theorem pop_PC : (v.pop L k).PC = v.PC + 1 := rfl
@[simp] theorem pop_MEM : (v.pop L k).MEM = forget L (v.REGS sp + k) v.MEM := rfl
@[simp] theorem pop_IE : (v.pop L k).IE = v.IE := rfl

@[simp] theorem set_same : (v.set r x).REGS r = x := Function.update_self ..

@[simp] theorem set_other {q : Fin 16} (other : q ≠ r) : (v.set r x).REGS q = v.REGS q :=
  Function.update_of_ne other ..

@[simp] theorem pop_same : (v.pop L k).REGS sp = v.REGS sp + k :=
  set_same v sp (v.REGS sp + k)

@[simp] theorem pop_other {q : Fin 16} (other : q ≠ sp) : (v.pop L k).REGS q = v.REGS q :=
  set_other v sp (v.REGS sp + k) other

end

/-- The view after some steps. -/
def Runs (L : Layout) (v w : View) : Prop := ∃ n, v.steps L n = some w

section

variable {L : Layout} {v w x : View} {i : Instr} {dr : Fin 16} {y : Nat}

theorem Runs.refl : Runs L v v := ⟨0, rfl⟩

theorem Runs.trans (first : Runs L v w) (second : Runs L w x) : Runs L v x := by
  obtain ⟨m, first⟩ := first
  obtain ⟨n, second⟩ := second
  exact ⟨m + n, by rw [steps_add, first, Option.bind_some, second]⟩

theorem Runs.one (step : v.step L = some w) : Runs L v w := ⟨1, step⟩

/-- The view comes to another one that is in order. -/
structure Goes (L : Layout) (v w : View) : Prop where
  runs : Runs L v w
  ready : Ready L w

theorem Ready.here (ready : Ready L v) : Goes L v v := ⟨Runs.refl, ready⟩

theorem Goes.trans (first : Goes L v w) (second : Goes L w x) : Goes L v x :=
  ⟨first.runs.trans second.runs, second.ready⟩

theorem Goes.step (goes : Goes L v w) (one : w.step L = some x ∧ Ready L x) : Goes L v x :=
  ⟨goes.runs.trans (Runs.one one.1), one.2⟩

theorem forget_below (below : ∀ a, L.size ≤ a → a < v.REGS sp → v.MEM a = none) {sp' : Nat}
    (less : sp' ≤ v.REGS sp) : forget L sp' v.MEM = v.MEM := by
  funext a
  unfold forget
  split
  · next there => exact (below a there.1 (by omega)).symm
  · rfl

/-- An instruction without memory that leaves the stack pointer alone. -/
theorem Ready.silent (ready : Ready L v) (here : L.code v.PC = some (.ordinary i))
    (free : k0 ∉ registers i) (silent : v.perform L i = v.commit L (i.effect v.machine) v.MEM)
    (same : (i.effect v.machine).REGS sp = v.REGS sp) :
    v.step L = some { v with PC := (i.effect v.machine).PC, REGS :=
      (i.effect v.machine).REGS } := by
  unfold View.step
  rw [here]
  dsimp only
  rw [if_neg free, silent]
  unfold commit
  rw [same, if_pos ready.room, forget_below ready.below (Nat.le_refl _)]

/-- An instruction that computes a register. -/
theorem Ready.set (ready : Ready L v) (here : L.code v.PC = some (.ordinary i))
    (free : k0 ∉ registers i) (silent : v.perform L i = v.commit L (i.effect v.machine) v.MEM)
    (act : i.act v.machine = (v.machine.setPC (wrap (v.PC + 1))).setReg dr y)
    (nonzero : dr ≠ 0) (other : dr ≠ sp) (low : v.PC < 2 ^ 24) :
    v.step L = some (v.set dr y) ∧ Ready L (v.set dr y) := by
  have REGS : (i.effect v.machine).REGS = Function.update v.REGS dr y := by
    unfold Instr.effect
    rw [act]
    have zero : Function.update v.REGS dr y 0 = 0 := by
      rw [Function.update_of_ne nonzero.symm, ready.zero]
    exact Function.update_eq_self_iff.mpr zero.symm
  have PC : (i.effect v.machine).PC = v.PC + 1 := by
    unfold Instr.effect
    rw [act]
    exact wrap_of_lt (n := v.PC + 1) (by omega)
  have stack : Function.update v.REGS dr y sp = v.REGS sp := Function.update_of_ne other.symm ..
  constructor
  · rw [ready.silent here free silent (by rw [REGS, stack]), REGS, PC]
    rfl
  · constructor
    · exact (Function.update_of_ne nonzero.symm ..).trans ready.zero
    · show ∀ a, L.size ≤ a → a < Function.update v.REGS dr y sp → v.MEM a = none
      rw [stack]
      exact ready.below
    · show Room L (Function.update v.REGS dr y sp)
      rw [stack]
      exact ready.room

theorem Ready.add (ready : Ready L v) {sr1 sr2 : Fin 16}
    (here : L.code v.PC = some (.ordinary (.add dr sr1 sr2)))
    (free : k0 ∉ registers (.add dr sr1 sr2)) (value : wrap (v.REGS sr1 + v.REGS sr2) = y)
    (nonzero : dr ≠ 0) (other : dr ≠ sp) (low : v.PC < 2 ^ 24) :
    v.step L = some (v.set dr y) ∧ Ready L (v.set dr y) :=
  ready.set here free rfl (congrArg (Machine.setReg _ dr) value) nonzero other low

theorem Ready.addi (ready : Ready L v) {sr1 : Fin 16} {imm : Int}
    (here : L.code v.PC = some (.ordinary (.addi dr sr1 imm)))
    (free : k0 ∉ registers (.addi dr sr1 imm)) (value : wrap (v.REGS sr1 + imm) = y)
    (nonzero : dr ≠ 0) (other : dr ≠ sp) (low : v.PC < 2 ^ 24) :
    v.step L = some (v.set dr y) ∧ Ready L (v.set dr y) :=
  ready.set here free rfl (congrArg (Machine.setReg _ dr) value) nonzero other low

theorem Ready.lea (ready : Ready L v) {offset : Int}
    (here : L.code v.PC = some (.ordinary (.lea dr offset)))
    (free : k0 ∉ registers (.lea dr offset)) (value : wrap (v.PC + 1 + offset) = y)
    (nonzero : dr ≠ 0) (other : dr ≠ sp) (low : v.PC < 2 ^ 24) :
    v.step L = some (v.set dr y) ∧ Ready L (v.set dr y) :=
  ready.set here free rfl (congrArg (Machine.setReg _ dr) value) nonzero other low

theorem Ready.min (ready : Ready L v) {sr1 sr2 : Fin 16}
    (here : L.code v.PC = some (.ordinary (.min dr sr1 sr2)))
    (free : k0 ∉ registers (.min dr sr1 sr2)) (nonzero : dr ≠ 0) (other : dr ≠ sp)
    (low : v.PC < 2 ^ 24) :
    ∃ y, v.step L = some (v.set dr y) ∧ Ready L (v.set dr y) :=
  ⟨_, ready.set here free rfl rfl nonzero other low⟩

theorem Ready.max (ready : Ready L v) {sr1 sr2 : Fin 16}
    (here : L.code v.PC = some (.ordinary (.max dr sr1 sr2)))
    (free : k0 ∉ registers (.max dr sr1 sr2)) (nonzero : dr ≠ 0) (other : dr ≠ sp)
    (low : v.PC < 2 ^ 24) :
    ∃ y, v.step L = some (v.set dr y) ∧ Ready L (v.set dr y) :=
  ⟨_, ready.set here free rfl rfl nonzero other low⟩

/-- A jump that changes no register. -/
theorem Ready.goto (ready : Ready L v) (here : L.code v.PC = some (.ordinary i))
    (free : k0 ∉ registers i) (silent : v.perform L i = v.commit L (i.effect v.machine) v.MEM)
    {pc : Nat} (act : i.act v.machine = v.machine.setPC pc) :
    v.step L = some (v.goto pc) ∧ Ready L (v.goto pc) := by
  have REGS : (i.effect v.machine).REGS = v.REGS := by
    unfold Instr.effect
    rw [act]
    exact Function.update_eq_self_iff.mpr ready.zero.symm
  constructor
  · rw [ready.silent here free silent (by rw [REGS]), REGS]
    unfold Instr.effect
    rw [act]
    rfl
  · exact ⟨ready.zero, ready.below, ready.room⟩

/-- A branch that is taken. -/
theorem Ready.less (ready : Ready L v) {sr1 sr2 : Fin 16} {offset : Int}
    (here : L.code v.PC = some (.ordinary (.blt sr1 sr2 offset)))
    (free : k0 ∉ registers (.blt sr1 sr2 offset)) (less : signed (v.REGS sr1) < signed (v.REGS sr2))
    {n : Nat} (target : wrap (v.PC + 1 + offset) = n) :
    v.step L = some (v.goto n) ∧ Ready L (v.goto n) := by
  apply ready.goto here free rfl
  have taken : signed (v.machine.REGS sr1) < signed (v.machine.REGS sr2) := less
  simp only [Instr.act, if_pos taken]
  exact congrArg v.machine.setPC target

theorem Ready.not_less (ready : Ready L v) {sr1 sr2 : Fin 16} {offset : Int}
    (here : L.code v.PC = some (.ordinary (.blt sr1 sr2 offset)))
    (free : k0 ∉ registers (.blt sr1 sr2 offset)) (less : ¬signed (v.REGS sr1) <
    signed (v.REGS sr2)) (low : v.PC < 2 ^ 24) :
    v.step L = some (v.goto (v.PC + 1)) ∧ Ready L (v.goto (v.PC + 1)) := by
  have next : wrap (v.PC + 1) = v.PC + 1 := wrap_of_lt (n := v.PC + 1) (by omega)
  apply ready.goto here free rfl
  have untaken : ¬signed (v.machine.REGS sr1) < signed (v.machine.REGS sr2) := less
  simp only [Instr.act, if_neg untaken]
  exact congrArg v.machine.setPC next

/-- A branch on equal registers is taken. -/
theorem Ready.equal (ready : Ready L v) {sr1 sr2 : Fin 16} {offset : Int}
    (here : L.code v.PC = some (.ordinary (.beq sr1 sr2 offset)))
    (free : k0 ∉ registers (.beq sr1 sr2 offset)) (same : v.REGS sr1 = v.REGS sr2) {n : Nat}
    (target : wrap (v.PC + 1 + offset) = n) :
    v.step L = some (v.goto n) ∧ Ready L (v.goto n) := by
  apply ready.goto here free rfl
  show (if v.REGS sr1 = v.REGS sr2 then _ else _) = _
  rw [if_pos same, ← target]
  rfl

/-- A return keeps no address. -/
theorem Ready.leave (ready : Ready L v) {link : Fin 16}
    (here : L.code v.PC = some (.ordinary (.jalr link Register.zero)))
    (free : k0 ∉ registers (.jalr link Register.zero)) :
    v.step L = some (v.goto (v.REGS link)) ∧ Ready L (v.goto (v.REGS link)) := by
  apply ready.goto here free rfl
  show (if Register.zero = 0 then v.machine else _).setPC (v.REGS link) = _
  rw [if_pos rfl]

/-- A call keeps the address behind it. -/
theorem Ready.call (ready : Ready L v) {target link : Fin 16}
    (here : L.code v.PC = some (.ordinary (.jalr target link)))
    (free : k0 ∉ registers (.jalr target link)) (nonzero : link ≠ 0) (apart : target ≠ link)
    (other : link ≠ sp) (low : v.PC < 2 ^ 24) :
    v.step L = some ((v.set link (v.PC + 1)).goto (v.REGS target)) ∧
      Ready L ((v.set link (v.PC + 1)).goto (v.REGS target)) := by
  have wrapped : wrap (v.PC + 1) = v.PC + 1 := wrap_of_lt (n := v.PC + 1) (by omega)
  have act : (Instr.jalr target link).act v.machine =
      (v.machine.setReg link (v.PC + 1)).setPC (v.REGS target) := by
    unfold Instr.act
    dsimp only
    have kept : (v.machine.setReg link (wrap (v.PC + 1))).REGS target = v.REGS target :=
      Function.update_of_ne apart ..
    rw [if_neg nonzero, show v.machine.PC = v.PC from rfl, kept, wrapped]
  have REGS : ((Instr.jalr target link).effect v.machine).REGS =
      Function.update v.REGS link (v.PC + 1) := by
    unfold Instr.effect
    rw [act]
    have zero : Function.update v.REGS link (v.PC + 1) 0 = 0 := by
      rw [Function.update_of_ne nonzero.symm, ready.zero]
    exact Function.update_eq_self_iff.mpr zero.symm
  have stack : Function.update v.REGS link (v.PC + 1) sp = v.REGS sp :=
    Function.update_of_ne other.symm ..
  constructor
  · rw [ready.silent here free rfl (by rw [REGS, stack]), REGS]
    unfold Instr.effect
    rw [act]
    rfl
  · constructor
    · exact (Function.update_of_ne nonzero.symm ..).trans ready.zero
    · show ∀ a, L.size ≤ a → a < Function.update v.REGS link (v.PC + 1) sp → v.MEM a = none
      rw [stack]
      exact ready.below
    · show Room L (Function.update v.REGS link (v.PC + 1) sp)
      rw [stack]
      exact ready.room

/-- A load of a word that the program relies on. -/
theorem Ready.load (ready : Ready L v) {base : Fin 16} {offset : Int}
    (here : L.code v.PC = some (.ordinary (.lw dr base offset)))
    (free : k0 ∉ registers (.lw dr base offset)) {a : Nat}
    (address : wrap (v.REGS base + offset) = a) (small : a < 2 ^ 24) (known : v.MEM a = some y)
    (nonzero : dr ≠ 0) (other : dr ≠ sp) (low : v.PC < 2 ^ 24) :
    v.step L = some (v.set dr y) ∧ Ready L (v.set dr y) := by
  have silent : v.perform L (.lw dr base offset) =
      v.commit L ((Instr.lw dr base offset).effect v.machine) v.MEM := by
    unfold View.perform
    dsimp only
    rw [address, if_pos ⟨small, by rw [known]; rfl⟩]
  apply ready.set here free silent _ nonzero other low
  unfold Instr.act
  dsimp only
  rw [show v.machine.REGS base = v.REGS base from rfl, address]
  unfold Machine.accessMem machine
  dsimp only
  rw [if_neg (by omega), known, Option.getD_some]

/-- A store to the stack or to a word of the program. -/
theorem Ready.store (ready : Ready L v) {sr base : Fin 16} {offset : Int}
    (here : L.code v.PC = some (.ordinary (.sw sr base offset)))
    (free : k0 ∉ registers (.sw sr base offset)) {a : Nat}
    (address : wrap (v.REGS base + offset) = a) (cell : L.shared a = false)
    (writable : v.Writable L a) (place : a < L.size ∨ v.REGS sp ≤ a) (low : v.PC < 2 ^ 24) :
    v.step L = some (v.store a (v.REGS sr)) ∧ Ready L (v.store a (v.REGS sr)) := by
  have same : Function.update v.REGS 0 0 = v.REGS := Function.update_eq_self_iff.mpr ready.zero.symm
  have PC : wrap (v.PC + 1) = v.PC + 1 := wrap_of_lt (n := v.PC + 1) (by omega)
  have kept : forget L (v.REGS sp) (Function.update v.MEM a (some (v.REGS sr))) =
      Function.update v.MEM a (some (v.REGS sr)) := by
    funext b
    unfold forget
    split
    · next there =>
      rw [Function.update_of_ne (by omega), ready.below b there.1 there.2]
    · rfl
  constructor
  · unfold View.step
    rw [here]
    dsimp only
    rw [if_neg free]
    unfold View.perform
    dsimp only
    rw [address, cell, if_neg (by decide), if_pos writable]
    unfold commit
    rw [if_pos (by
      show Room L (Function.update v.REGS 0 0 sp)
      rw [same]
      exact ready.room)]
    show some (View.mk (wrap (v.PC + 1)) (Function.update v.REGS 0 0)
      (forget L (Function.update v.REGS 0 0 sp) (Function.update v.MEM a (some (v.REGS sr))))
      v.IE) = _
    rw [same, kept, PC]
    rfl
  · refine ⟨ready.zero, ?_, ready.room⟩
    intro b least less
    replace less : b < v.REGS sp := less
    exact (Function.update_of_ne (by omega) ..).trans (ready.below b least less)

/-- A store to a cell of the handlers, before they can run. -/
theorem Ready.share (ready : Ready L v) {sr base : Fin 16} {offset : Int}
    (here : L.code v.PC = some (.ordinary (.sw sr base offset)))
    (free : k0 ∉ registers (.sw sr base offset)) (cell : L.shared (wrap (v.REGS base + offset)) =
    true) (disabled : v.IE = false) (low : v.PC < 2 ^ 24) :
    v.step L = some (v.goto (v.PC + 1)) ∧ Ready L (v.goto (v.PC + 1)) := by
  have same : Function.update v.REGS 0 0 = v.REGS := Function.update_eq_self_iff.mpr ready.zero.symm
  have PC : wrap (v.PC + 1) = v.PC + 1 := wrap_of_lt (n := v.PC + 1) (by omega)
  constructor
  · unfold View.step
    rw [here]
    dsimp only
    rw [if_neg free]
    unfold View.perform
    dsimp only
    rw [cell, if_pos rfl, disabled, if_neg (by decide)]
    unfold commit
    rw [if_pos (by
      show Room L (Function.update v.REGS 0 0 sp)
      rw [same]
      exact ready.room)]
    show some (View.mk (wrap (v.PC + 1)) (Function.update v.REGS 0 0)
      (forget L (Function.update v.REGS 0 0 sp) v.MEM) v.IE) = _
    rw [same, forget_below ready.below (Nat.le_refl _), PC]
    rfl
  · exact ⟨ready.zero, ready.below, ready.room⟩

/-- A store to a vector, before it is used. -/
theorem Ready.aim (ready : Ready L v) {sr base : Fin 16} {offset : Int}
    (here : L.code v.PC = some (.ordinary (.sw sr base offset)))
    (free : k0 ∉ registers (.sw sr base offset)) {a : Nat} (address : wrap (v.REGS base + offset) =
    a) (cell : L.shared a = false) (vector : a < 2)
    (size : 2 ≤ L.size) (disabled : v.IE = false) (low : v.PC < 2 ^ 24) :
    v.step L = some (v.store a (v.REGS sr)) ∧ Ready L (v.store a (v.REGS sr)) :=
  ready.store here free address cell (Or.inr (Or.inr ⟨vector, disabled⟩)) (Or.inl (by omega)) low

theorem Ready.enable (ready : Ready L v) (here : L.code v.PC = some .ei)
    (vectors : ∀ device : Fin 2, v.MEM device = some (L.vector device)) :
    v.step L = some { v with PC := v.PC + 1, IE := true } ∧
      Ready L { v with PC := v.PC + 1, IE := true } := by
  constructor
  · unfold View.step
    rw [here]
    exact if_pos vectors
  · exact ⟨ready.zero, ready.below, ready.room⟩

/-- An instruction that moves the stack pointer. -/
theorem Ready.move (ready : Ready L v) {imm : Int}
    (here : L.code v.PC = some (.ordinary (.addi sp sp imm))) {sp' : Nat}
    (moved : wrap (v.REGS sp + imm) = sp') (room : Room L sp') (low : v.PC < 2 ^ 24) :
    v.step L = some { v.set sp sp' with MEM := forget L sp' v.MEM } ∧
      Ready L { v.set sp sp' with MEM := forget L sp' v.MEM } := by
  have PC : wrap (v.PC + 1) = v.PC + 1 := wrap_of_lt (n := v.PC + 1) (by omega)
  have REGS : ((Instr.addi sp sp imm).effect v.machine).REGS = Function.update v.REGS sp sp' := by
    rw [← moved]
    have zero : Function.update v.REGS sp (wrap (v.REGS sp + imm)) 0 = 0 := by
      rw [Function.update_of_ne (by decide), ready.zero]
    exact Function.update_eq_self_iff.mpr zero.symm
  have top : Function.update v.REGS sp sp' sp = sp' := Function.update_self sp sp' v.REGS
  have free : k0 ∉ registers (.addi sp sp imm) := by
    show k0 ∉ [sp, sp]
    decide
  have nonzero : (0 : Fin 16) ≠ sp := by decide
  constructor
  · unfold View.step
    rw [here]
    dsimp only
    rw [if_neg free]
    show v.commit L ((Instr.addi sp sp imm).effect v.machine) v.MEM = _
    unfold commit
    rw [REGS, top, if_pos room]
    show some (View.mk (wrap (v.PC + 1)) _ _ _) = _
    rw [PC]
    rfl
  · constructor
    · exact (Function.update_of_ne nonzero sp' v.REGS).trans ready.zero
    · intro a least less
      replace less : a < Function.update v.REGS sp sp' sp := less
      rw [top] at less
      exact if_pos ⟨least, less⟩
    · show Room L (Function.update v.REGS sp sp' sp)
      rw [top]
      exact room

/-- Room for `k` words is made on the stack. -/
theorem Ready.push (ready : Ready L v) {k : Nat} {imm : Int} (count : imm = -k)
    (here : L.code v.PC = some (.ordinary (.addi sp sp imm))) (top : L.top < 2 ^ 32)
    (deep : L.floor + k ≤ v.REGS sp) (low : v.PC < 2 ^ 24) :
    v.step L = some (v.set sp (v.REGS sp - k)) ∧ Ready L (v.set sp (v.REGS sp - k)) := by
  have most := ready.room.2
  have moved : wrap (v.REGS sp + imm) = v.REGS sp - k := by
    unfold wrap
    omega
  have kept : forget L (v.REGS sp - k) v.MEM = v.MEM := forget_below ready.below (by omega)
  have step := ready.move here moved ⟨by omega, by omega⟩ low
  rw [kept] at step
  exact step

theorem Ready.pop (ready : Ready L v) {k : Nat} {imm : Int} (count : imm = k)
    (here : L.code v.PC = some (.ordinary (.addi sp sp imm))) (top : L.top < 2 ^ 32)
    (deep : v.REGS sp + k ≤ L.top) (low : v.PC < 2 ^ 24) :
    v.step L = some (v.pop L k) ∧ Ready L (v.pop L k) := by
  have least := ready.room.1
  have moved : wrap (v.REGS sp + imm) = v.REGS sp + k := by
    unfold wrap
    omega
  exact ready.move here moved ⟨by omega, by omega⟩ low

end

end View

end SystemsProjects.Irq
