import SystemsProjects.Irq.Program
import Mathlib.Logic.Function.Basic

/-!
# What the code tells of the registers

The handlers run with interrupts enabled, so what their registers hold is followed one command at
a time: a register holds a constant, or a value from the device or a cell, or what an instruction
made of such values.
-/

namespace SystemsProjects.Irq

open Lc Register

/-- Where a handler gets a value that the code does not tell. -/
inductive Source
  | device
  | cell (a : Nat)
deriving DecidableEq, Repr

/-- What a register holds, in terms of the values got last. -/
inductive Symbol
  | const (n : Nat)
  | got (source : Source)
  | max (x y : Symbol)
  | min (x y : Symbol)
  | nand (x y : Symbol)
  | add (x y : Symbol)
  | addi (x : Symbol) (imm : Int)
deriving DecidableEq, Repr

namespace Symbol

def eval (got : Source → Nat) : Symbol → Nat
  | const n => n
  | .got source => got source
  | max x y => wrap (Max.max (signed (x.eval got)) (signed (y.eval got)))
  | min x y => wrap (Min.min (signed (x.eval got)) (signed (y.eval got)))
  | nand x y => wrap (~~~((x.eval got &&& y.eval got : Nat) : Int))
  | add x y => wrap (x.eval got + y.eval got)
  | addi x imm => wrap (x.eval got + imm)

/-- The symbol depends on what was got from the source. -/
def mentions (source : Source) : Symbol → Bool
  | const _ => false
  | got other => other = source
  | max x y | min x y | nand x y | add x y => x.mentions source || y.mentions source
  | addi x _ => x.mentions source

theorem eval_update {got : Source → Nat} {source : Source} {s : Symbol}
    (fresh : s.mentions source = false) (value : Nat) :
    s.eval (Function.update got source value) = s.eval got := by
  induction s with
  | const n => rfl
  | got other =>
    have other : other ≠ source := of_decide_eq_false fresh
    exact Function.update_of_ne other ..
  | addi x imm ih =>
    simp only [eval]
    rw [ih fresh]
  | max x y ihx ihy | min x y ihx ihy | nand x y ihx ihy | add x y ihx ihy =>
    obtain ⟨left, right⟩ := Bool.or_eq_false_iff.mp fresh
    simp only [eval]
    rw [ihx left, ihy right]

end Symbol

/-- What is known of each register. -/
abbrev Facts := Fin 16 → Option Symbol

namespace Facts

/-- `$zero` is always known. -/
def base : Facts := fun r => if r = 0 then some (.const 0) else none

/-- The register has got a new value. -/
def learn (facts : Facts) (dr : Fin 16) (s : Option Symbol) : Facts :=
  if dr = 0 then facts else Function.update facts dr s

/-- The source delivers a new value, so nothing is known in terms of the old one. -/
def without (facts : Facts) (source : Source) : Facts :=
  fun r => (facts r).filter fun s => !s.mentions source

def both (op : Symbol → Symbol → Symbol) (x y : Option Symbol) : Option Symbol :=
  x.bind fun x => y.map (op x)

/-- The address that a load or a store goes to, if it is known. -/
def target (facts : Facts) (r : Fin 16) (offset : Int) : Option Nat :=
  match facts r with
  | some (.const a) => some (wrap (a + offset))
  | _ => none

/-- The source that a command gets a value from. -/
def source (facts : Facts) : Command → Option Source
  | .input _ _ => some .device
  | .ordinary (.lw _ r offset) =>
    (facts.target r offset).bind fun a =>
      if a < 2 ^ 24 ∧ constant a = none then some (.cell a) else none
  | _ => none

/-- What is known after a command. -/
def after (facts : Facts) (pc : Nat) : Command → Facts
  | .ordinary i =>
    match i with
    | .add dr sr1 sr2 => facts.learn dr (both .add (facts sr1) (facts sr2))
    | .nand dr sr1 sr2 => facts.learn dr (both .nand (facts sr1) (facts sr2))
    | .addi dr sr1 imm => facts.learn dr ((facts sr1).map (.addi · imm))
    | .min dr sr1 sr2 => facts.learn dr (both .min (facts sr1) (facts sr2))
    | .max dr sr1 sr2 => facts.learn dr (both .max (facts sr1) (facts sr2))
    | .lea dr offset => facts.learn dr (some (.const (wrap (pc + 1 + offset))))
    | .lw dr r offset =>
      match facts.source (.ordinary i) with
      | some source => (facts.without source).learn dr (some (.got source))
      | none => facts.learn dr (((facts.target r offset).bind constant).map .const)
    | .jalr _ dr => facts.learn dr none
    | .inc dr => facts.learn dr none
    | .sw .. | .beq .. | .blt .. | .halt | .noop => facts
  | .input dr _ => (facts.without .device).learn dr (some (.got .device))
  | _ => facts

/-- What has been got after a command. -/
def gain (facts : Facts) (got : Source → Nat) (p : Processor) (value : Nat) (c : Command) :
    Source → Nat :=
  match facts.source c with
  | some .device => Function.update got .device value
  | some (.cell a) => Function.update got (.cell a) (p.MEM a)
  | none => got

/-- The registers hold what is known of them. -/
def Hold (facts : Facts) (got : Source → Nat) (REGS : Fin 16 → Nat) : Prop :=
  ∀ r s, facts r = some s → REGS r = s.eval got

variable {facts : Facts} {got : Source → Nat} {REGS : Fin 16 → Nat}

theorem Hold.learn (hold : facts.Hold got REGS) (zero : REGS 0 = 0) {dr : Fin 16}
    {s : Option Symbol} {v : Nat} (same : ∀ t, s = some t → v = t.eval got) :
    (facts.learn dr s).Hold got (Function.update (Function.update REGS dr v) 0 0) := by
  intro r t known
  unfold Facts.learn at known
  by_cases first : r = 0
  · subst first
    rw [Function.update_self]
    split at known
    · rw [← hold 0 t known, zero]
    · next other =>
      rw [Function.update_of_ne (Ne.symm other)] at known
      rw [← hold 0 t known, zero]
  · rw [Function.update_of_ne first]
    split at known
    · next other => rw [Function.update_of_ne (by rw [other]; exact first), hold r t known]
    · by_cases here : r = dr
      · subst here
        rw [Function.update_self] at known ⊢
        exact same t known
      · rw [Function.update_of_ne here] at known ⊢
        exact hold r t known

theorem Hold.without (hold : facts.Hold got REGS) (source : Source) (value : Nat) :
    (facts.without source).Hold (Function.update got source value) REGS := by
  intro r s known
  obtain ⟨known, fresh⟩ := Option.filter_eq_some_iff.mp known
  rw [Symbol.eval_update (by simpa using fresh), hold r s known]

theorem Hold.both (hold : facts.Hold got REGS) {op : Symbol → Symbol → Symbol} {sr1 sr2 : Fin 16}
    {t : Symbol} (known : both op (facts sr1) (facts sr2) = some t) :
    ∃ x y, t = op x y ∧ REGS sr1 = x.eval got ∧ REGS sr2 = y.eval got := by
  obtain ⟨x, left, rest⟩ := Option.bind_eq_some_iff.mp known
  obtain ⟨y, right, made⟩ := Option.map_eq_some_iff.mp rest
  exact ⟨x, y, made.symm, hold _ _ left, hold _ _ right⟩

theorem Hold.target (hold : facts.Hold got REGS) {r : Fin 16} {offset : Int} {a : Nat}
    (known : facts.target r offset = some a) : wrap (REGS r + offset) = a := by
  unfold Facts.target at known
  split at known
  · next n here =>
    rw [hold r _ here]
    exact Option.some.inj known
  · cases known

/-- A branch that is taken on equality tells the same of both registers. -/
theorem Hold.equate (hold : facts.Hold got REGS) {sr1 sr2 : Fin 16} (equal : REGS sr1 = REGS sr2) :
    (facts.learn sr1 (facts sr2)).Hold got REGS := by
  intro r s known
  unfold Facts.learn at known
  split at known
  · exact hold r s known
  · by_cases here : r = sr1
    · rw [here, Function.update_self] at known
      rw [here, equal, hold sr2 s known]
    · rw [Function.update_of_ne here] at known
      exact hold r s known

theorem Hold.keep (hold : facts.Hold got REGS) (zero : REGS 0 = 0) :
    facts.Hold got (Function.update REGS 0 0) := by
  have same : Function.update REGS 0 0 = REGS := by rw [← zero, Function.update_eq_self]
  rw [same]
  exact hold

theorem accessMem_low {p : Processor} {a : Nat} (low : a < 2 ^ 24) : p.accessMem a = p.MEM a := by
  unfold Machine.accessMem
  rw [if_neg (by omega)]

theorem constant_eq {mem : Nat → Nat} (loaded : Loaded mem) {a x : Nat}
    (known : constant a = some x) :
    mem a = x ∧ a < 2 ^ 24 := by
  unfold constant at known
  split at known
  · next value here =>
    split at known
    · next fixed =>
      cases Option.some.inj known
      obtain ⟨low, _⟩ := List.getElem?_eq_some_iff.mp here
      rw [length_prj2] at low
      exact ⟨loaded a _ here fixed, by omega⟩
    · cases known
  · cases known

theorem beq_REGS (s : Machine) (sr1 sr2 : Fin 16) (offset : Int) :
    ((Instr.beq sr1 sr2 offset).act s).REGS = s.REGS := by
  simp only [Instr.act, apply_ite Machine.REGS, Machine.setPC_REGS, ite_self]

theorem blt_REGS (s : Machine) (sr1 sr2 : Fin 16) (offset : Int) :
    ((Instr.blt sr1 sr2 offset).act s).REGS = s.REGS := by
  simp only [Instr.act, apply_ite Machine.REGS, Machine.setPC_REGS, ite_self]

variable {p : Processor}

theorem lw_REGS (p : Processor) (dr r : Fin 16) (offset : Int) (value : Nat) :
    ((Command.ordinary (.lw dr r offset)).effect value p).REGS =
      Function.update (Function.update p.REGS dr (p.accessMem (wrap (p.REGS r + offset)))) 0 0 :=
  rfl

/-- A load from a cell gets the value that the cell holds now. -/
theorem Hold.load (hold : facts.Hold got p.REGS) (zero : p.REGS 0 = 0) (loaded : Loaded p.MEM)
    (dr r : Fin 16) (offset : Int) (value : Nat) :
    (facts.after p.PC (.ordinary (.lw dr r offset))).Hold
      (facts.gain got p value (.ordinary (.lw dr r offset)))
      ((Command.ordinary (.lw dr r offset)).effect value p).REGS := by
  unfold Facts.after Facts.gain
  dsimp only
  rw [lw_REGS]
  cases known : facts.target r offset with
  | none =>
    have nothing : facts.source (.ordinary (.lw dr r offset)) = none := by simp [source, known]
    rw [nothing]
    apply hold.learn zero
    intro t impossible
    cases impossible
  | some a =>
    have address := hold.target known
    by_cases cell : a < 2 ^ 24 ∧ constant a = none
    · have here : facts.source (.ordinary (.lw dr r offset)) = some (.cell a) := by
        simp only [source, known, Option.bind_some, if_pos cell]
      rw [here]
      apply (hold.without (.cell a) (p.MEM a)).learn zero
      intro t same
      cases Option.some.inj same
      rw [address, accessMem_low cell.1]
      exact (Function.update_self (Source.cell a) (p.MEM a) got).symm
    · have nothing : facts.source (.ordinary (.lw dr r offset)) = none := by
        simp only [source, known, Option.bind_some, if_neg cell]
      rw [nothing]
      apply hold.learn zero
      intro t same
      obtain ⟨x, here, rfl⟩ := Option.map_eq_some_iff.mp same
      obtain ⟨word, low⟩ := constant_eq loaded here
      rw [address, accessMem_low low, word]
      rfl

/-- What is known after a command holds after its effect. -/
theorem Hold.after (hold : facts.Hold got p.REGS) (zero : p.REGS 0 = 0) (loaded : Loaded p.MEM)
    (c : Command) (value : Nat) :
    (facts.after p.PC c).Hold (facts.gain got p value c) (c.effect value p).REGS := by
  cases c with
  | ei => exact hold
  | di => exact hold
  | reti => exact hold
  | input dr addr =>
    apply (hold.without .device value).learn zero
    intro t same
    cases Option.some.inj same
    exact (Function.update_self Source.device value got).symm
  | ordinary i =>
    cases i with
    | add dr sr1 sr2 | nand dr sr1 sr2 | min dr sr1 sr2 | max dr sr1 sr2 =>
      apply hold.learn zero
      intro t same
      obtain ⟨x, y, rfl, left, right⟩ := hold.both same
      simp only [Symbol.eval, left, right]
    | addi dr sr1 imm =>
      apply hold.learn zero
      intro t same
      obtain ⟨x, here, rfl⟩ := Option.map_eq_some_iff.mp same
      simp only [Symbol.eval, hold _ _ here]
    | lea dr offset =>
      apply hold.learn zero
      intro t same
      cases Option.some.inj same
      rfl
    | inc dr =>
      apply hold.learn zero
      intro t same
      cases same
    | lw dr r offset => exact hold.load zero loaded dr r offset value
    | jalr target ra =>
      by_cases link : ra = 0
      · subst link
        exact hold.keep zero
      · show Hold _ _ (Function.update (if ra = 0 then p.toMachine else p.setReg ra _).REGS 0 0)
        rw [if_neg link]
        apply hold.learn zero
        intro t same
        cases same
    | sw | halt | noop => exact hold.keep zero
    | beq sr1 sr2 offset =>
      show Hold facts got (Function.update (Instr.act _ p.toMachine).REGS 0 0)
      rw [beq_REGS]
      exact hold.keep zero
    | blt sr1 sr2 offset =>
      show Hold facts got (Function.update (Instr.act _ p.toMachine).REGS 0 0)
      rw [blt_REGS]
      exact hold.keep zero

end Facts

end SystemsProjects.Irq
