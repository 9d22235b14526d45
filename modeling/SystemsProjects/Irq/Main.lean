import SystemsProjects.Irq.Nesting
import SystemsProjects.Irq.Power

/-!
# The main program

What `main` does between the moment it has a stack and its `halt`, as it sees it itself.
-/

namespace SystemsProjects.Irq

open Lc Register

namespace View

/-- `main` from its third instruction on, before it enables interrupts. -/
def opening : List Instr :=
  [.lea t0 (-11), .lea t1 65, .sw t1 t0 0, .lea t1 89, .sw t1 t0 1, .lea t0 158, .lw t0 t0 0,
    .lea t1 25,
   .lw t1 t1 0, .sw t1 t0 0]

/-- `main` with interrupts enabled. -/
def closing : List Instr :=
  [.addi t0 zero 5, .addi t1 zero (-15), .min t2 t0 t1, .min t2 t1 t0, .max t2 t0 t1, .max t2 t1 t0,
   .add t0 zero zero, .add t1 zero zero, .add t2 zero zero, .lea a0 9, .lw a0 a0 0, .lea a1 8,
   .lw a1 a1 0, .lea at' 9, .jalr at' ra, .lea a0 5, .sw v0 a0 0]

theorem placed_opening : Placed prj2Layout 10 opening := placed_of_all (by decide +kernel)

theorem placed_closing : Placed prj2Layout 21 closing := placed_of_all (by decide +kernel)

theorem placed_power : Placed prj2Layout 44 power := placed_of_all (by decide +kernel)

theorem placed_multiply : Placed prj2Layout 71 multiply := placed_of_all (by decide +kernel)

theorem stacked_prj2 : Stacked prj2Layout where
  floor := by
    show prj2.length ≤ 0xA000 - 25
    rw [length_prj2]
    decide
  top := by decide
  free a _ below := by
    apply decide_eq_false
    rintro ⟨above, _⟩
    replace below : a < 0xA000 := below
    omega

theorem vector_prj2 : prj2Layout.vector 0 = 77 ∧ prj2Layout.vector 1 = 103 := by decide +kernel

/-- The words of data that `main` reads. -/
structure Data (v : View) : Prop where
  base : v.MEM 40 = some 2
  exponent : v.MEM 41 = some 8
  largest : v.MEM 43 = some 0x7FFFFFFF
  minval : v.MEM 174 = some 0xFFFC

theorem Data.update {v w : View} (data : Data v) {a : Nat} (low : a < 2) {x : Option Nat}
    (MEM : w.MEM = Function.update v.MEM a x) : Data w := by
  constructor
  · rw [MEM, Function.update_of_ne (by omega), data.base]
  · rw [MEM, Function.update_of_ne (by omega), data.exponent]
  · rw [MEM, Function.update_of_ne (by omega), data.largest]
  · rw [MEM, Function.update_of_ne (by omega), data.minval]

section

variable {v : View}

/-- `main` fills in the vectors and the cell for the least distance. -/
theorem main_opens (ready : Ready prj2Layout v) (PC : v.PC = 10) (disabled : v.IE = false)
    (data : Data v) :
    ∃ w, Goes prj2Layout v w ∧ w.PC = 20 ∧ (∀ device : Fin 2, w.MEM device =
      some (prj2Layout.vector device)) ∧
      Data w ∧ w.REGS sp = v.REGS sp := by
  have placed := placed_opening
  have size : 2 ≤ prj2Layout.size := by
    show 2 ≤ prj2.length
    rw [length_prj2]
    decide
  have g0 := ready.here.step (ready.lea (y := 0) (placed.here (k := 0) rfl PC) (by decide)
    (by rw [PC]; rfl) (by decide) (by decide) (by omega))
  have g1 := g0.step (g0.ready.lea (y := 77) (placed.here (k := 1) rfl (by simp [PC])) (by decide)
    (by simp [PC]; rfl) (by decide) (by decide) (by simp [PC]))
  have g2 := g1.step (g1.ready.aim (a := 0) (placed.here (k := 2) rfl (by simp [PC])) (by decide)
    (by simp +decide) (by decide) (by decide) size disabled (by simp [PC]))
  have g3 := g2.step (g2.ready.lea (y := 103) (placed.here (k := 3) rfl (by simp [PC])) (by decide)
    (by simp [PC]; rfl) (by decide) (by decide) (by simp [PC]))
  have g4 := g3.step (g3.ready.aim (a := 1) (placed.here (k := 4) rfl (by simp [PC])) (by decide)
    (by simp +decide) (by decide) (by decide) size disabled (by simp [PC]))
  have g5 := g4.step (g4.ready.lea (y := 174) (placed.here (k := 5) rfl (by simp [PC])) (by decide)
    (by simp [PC]; rfl) (by decide) (by decide) (by simp [PC]))
  have g6 := g5.step (g5.ready.load (a := 174) (y := 0xFFFC)
    (placed.here (k := 6) rfl (by simp [PC])) (by decide) (by simp +decide) (by decide)
    (by simp +decide [data.minval]) (by decide) (by decide) (by simp [PC]))
  have g7 := g6.step (g6.ready.lea (y := 43) (placed.here (k := 7) rfl (by simp [PC])) (by decide)
    (by simp [PC]; rfl) (by decide) (by decide) (by simp [PC]))
  have g8 := g7.step (g7.ready.load (a := 43) (y := 0x7FFFFFFF)
    (placed.here (k := 8) rfl (by simp [PC])) (by decide) (by simp +decide) (by decide)
    (by simp +decide [data.largest]) (by decide) (by decide) (by simp [PC]))
  have g9 := g8.step (g8.ready.share (placed.here (k := 9) rfl (by simp [PC])) (by decide)
    (by simp +decide) disabled (by simp [PC]))
  refine ⟨_, g9, by simp [PC], ?_, ?_, by simp +decide⟩
  · obtain ⟨timer, distance⟩ := vector_prj2
    intro device
    match device with
    | 0 =>
      rw [timer]
      simp +decide
    | 1 =>
      rw [distance]
      simp +decide
  · have words : Data (((v.set t0 0).set t1 77).store 0 77) := data.update (a := 0) (x := some 77)
      (by decide) (by simp +decide)
    exact words.update (a := 1) (x := some 103) (by decide) (by simp +decide)

/-- `main` leaves its answer and halts. -/
theorem main_closes (ready : Ready prj2Layout v) (PC : v.PC = 21) (data : Data v)
    (stack : v.REGS sp = 0xA000) :
    ∃ w, Goes prj2Layout v w ∧ w.PC = 38 ∧ w.MEM 42 = some 256 ∧ w.REGS sp = 0xA000 := by
  have placed := placed_closing
  have zero : v.REGS Register.zero = 0 := ready.zero
  have g0 := ready.here.step (ready.addi (y := 5) (placed.here (k := 0) rfl PC) (by decide)
    (by rw [zero]; rfl) (by decide) (by decide) (by omega))
  have g1 := g0.step (g0.ready.addi (y := 2 ^ 32 - 15) (placed.here (k := 1) rfl (by simp [PC]))
    (by decide) (by simp +decide [zero]) (by decide) (by decide) (by simp [PC]))
  obtain ⟨y2, step2⟩ := g1.ready.min (placed.here (k := 2) rfl (by simp [PC])) (by decide)
    (by decide) (by decide)
    (by simp [PC])
  have g2 := g1.step step2
  obtain ⟨y3, step3⟩ := g2.ready.min (placed.here (k := 3) rfl (by simp [PC])) (by decide)
    (by decide) (by decide)
    (by simp [PC])
  have g3 := g2.step step3
  obtain ⟨y4, step4⟩ := g3.ready.max (placed.here (k := 4) rfl (by simp [PC])) (by decide)
    (by decide) (by decide)
    (by simp [PC])
  have g4 := g3.step step4
  obtain ⟨y5, step5⟩ := g4.ready.max (placed.here (k := 5) rfl (by simp [PC])) (by decide)
    (by decide) (by decide)
    (by simp [PC])
  have g5 := g4.step step5
  have g6 := g5.step (g5.ready.add (y := 0) (placed.here (k := 6) rfl (by simp [PC])) (by decide)
    (by simp +decide [zero]) (by decide) (by decide) (by simp [PC]))
  have g7 := g6.step (g6.ready.add (y := 0) (placed.here (k := 7) rfl (by simp [PC])) (by decide)
    (by simp +decide [zero]) (by decide) (by decide) (by simp [PC]))
  have g8 := g7.step (g7.ready.add (y := 0) (placed.here (k := 8) rfl (by simp [PC])) (by decide)
    (by simp +decide [zero]) (by decide) (by decide) (by simp [PC]))
  have g9 := g8.step (g8.ready.lea (y := 40) (placed.here (k := 9) rfl (by simp [PC])) (by decide)
    (by simp [PC]; rfl) (by decide) (by decide) (by simp [PC]))
  have g10 := g9.step (g9.ready.load (a := 40) (y := 2) (placed.here (k := 10) rfl (by simp [PC]))
    (by decide) (by simp +decide) (by decide) (by simp [data.base]) (by decide) (by decide)
    (by simp [PC]))
  have g11 := g10.step (g10.ready.lea (y := 41) (placed.here (k := 11) rfl (by simp [PC]))
    (by decide) (by simp [PC]; rfl) (by decide) (by decide) (by simp [PC]))
  have g12 := g11.step (g11.ready.load (a := 41) (y := 8) (placed.here (k := 12) rfl (by simp [PC]))
    (by decide) (by simp +decide) (by decide) (by simp [data.exponent]) (by decide) (by decide)
    (by simp [PC]))
  have g13 := g12.step (g12.ready.lea (y := 44) (placed.here (k := 13) rfl (by simp [PC]))
    (by decide) (by simp [PC]; rfl) (by decide) (by decide) (by simp [PC]))
  have g14 := g13.step (g13.ready.call (placed.here (k := 14) rfl (by simp [PC])) (by decide)
    (by decide) (by decide) (by decide) (by simp [PC]))
  obtain ⟨w, power, back, value, apart⟩ := power_returns stacked_prj2 placed_power (by decide)
    (multiplies placed_multiply (by decide)) (b := 2) (by decide) 8 g14.ready (by simp +decide)
      (by simp +decide)
    (by simp +decide) (by decide) (by simp +decide [stack])
  have PC' : w.PC = 36 := by
    rw [back]
    simp [PC]
  have same : w.REGS sp = 0xA000 := by
    rw [apart.REGS sp (by decide)]
    simp +decide [stack]
  have g15 := (g14.trans power).step
    (power.ready.lea (y := 42) (placed.here (k := 15) rfl PC') (by decide) (by rw [PC']; rfl)
    (by decide) (by decide) (by omega))
  have g16 := g15.step (g15.ready.store (a := 42) (placed.here (k := 16) rfl (by simp [PC']))
  (by decide)
    (by simp +decide) (by decide) (Or.inl (by decide))
    (Or.inl (by show 42 < prj2.length; rw [length_prj2]; decide)) (by simp [PC']))
  refine ⟨_, g16, by simp [PC'], ?_, by simp +decide [same]⟩
  simp +decide [value]

end

end View

section

variable {p : Processor}

/-- From the moment it has a stack `main` comes to its `halt`. -/
theorem main_halts (started : Started p) :
    ∃ w, View.Goes View.prj2Layout (bootedView p) w ∧ code w.PC = some (.ordinary .halt) ∧
      w.MEM (address .ANS) = some 256 ∧ w.REGS sp = 0xA000 := by
  have stack : (bootedView p).REGS sp = 0xA000 := Function.update_self sp 0xA000 p.REGS
  have ready : View.Ready View.prj2Layout (bootedView p) := by
    constructor
    · have other : (0 : Fin 16) ≠ sp := by decide
      exact (Function.update_of_ne other 0xA000 p.REGS).trans started.zero
    · intro a low below
      rw [stack] at below
      exact if_pos (Or.inl ⟨by rw [← length_prj2]; exact low, below⟩)
    · rw [stack]
      decide
  have word : ∀ a x, a < 175 → prj2[a]? = some (.datum x) → (bootedView p).MEM a = some x := by
    intro a x low content
    have image := started.image a _ content
    unfold bootedView
    dsimp only
    rw [if_neg (by rintro (above | shared); omega; exact absurd shared.1 (by omega)), image]
    rfl
  have data : View.Data (bootedView p) :=
    ⟨word 40 2 (by decide) (by decide +kernel), word 41 8 (by decide) (by decide +kernel),
      word 43 _ (by decide) (by decide +kernel), word 174 _ (by decide) (by decide +kernel)⟩
  have PC : (bootedView p).PC = 10 := by
    show address .main + 2 = 10
    decide +kernel
  obtain ⟨v, opens, PC', vectors, data', stack'⟩ := View.main_opens ready PC rfl data
  have ei : View.prj2Layout.code v.PC = some .ei := by
    rw [PC']
    decide +kernel
  have enabled := opens.step (opens.ready.enable ei vectors)
  obtain ⟨w, closes, last, answer, top⟩ := View.main_closes enabled.ready (by rw [PC'])
    ⟨data'.base, data'.exponent, data'.largest, data'.minval⟩ (stack'.trans stack)
  refine ⟨w, enabled.trans closes, ?_, by rw [address_ANS, answer], top⟩
  rw [last]
  decide +kernel

/-- The views of `main`. -/
def Main (p : Processor) (v : View) : Prop := View.Runs View.prj2Layout (bootedView p) v

theorem main_starts : Main p (bootedView p) := View.Runs.refl

/-- From each of its views `main` comes to its `halt`, since each step of a view is determined. -/
theorem main_ends (started : Started p) {v : View} (main : Main p v) :
    ∃ w k, v.steps View.prj2Layout k = some w ∧ code w.PC = some (.ordinary .halt) ∧
      w.MEM (address .ANS) = some 256 ∧ w.REGS sp = 0xA000 := by
  obtain ⟨m, here⟩ := main
  obtain ⟨w, ⟨⟨n, done⟩, _⟩, last, rest⟩ := main_halts started
  have stuck : w.step View.prj2Layout = none := by
    unfold View.step
    rw [show View.prj2Layout.code w.PC = _ from last]
    rfl
  have beyond : ∀ k, (bootedView p).steps View.prj2Layout (n + (k + 1)) = none := by
    intro k
    induction k with
    | zero =>
      show ((bootedView p).steps View.prj2Layout n).bind _ = none
      rw [done, Option.bind_some, stuck]
    | succ k ih =>
      show ((bootedView p).steps View.prj2Layout (n + (k + 1))).bind _ = none
      rw [ih, Option.bind_none]
  have before : m ≤ n := by
    by_contra more
    have none := beyond (m - n - 1)
    rw [show n + (m - n - 1 + 1) = m by omega, here] at none
    cases none
  refine ⟨w, n - m, ?_, last, rest⟩
  have whole := View.steps_add (L := View.prj2Layout) (bootedView p) m (n - m)
  rw [Nat.add_sub_cancel' before, done, here, Option.bind_some] at whole
  exact whole.symm

/-- `main` never gets stuck before its `halt`. -/
theorem main_proceeds (started : Started p) : Proceeds (Main p) := by
  intro v main
  obtain ⟨w, k, steps, last, _⟩ := main_ends started main
  cases k with
  | zero =>
    left
    cases Option.some.inj steps
    exact last
  | succ k =>
    right
    have split := View.steps_add (L := View.prj2Layout) v 1 k
    rw [Nat.add_comm 1 k, steps] at split
    obtain ⟨v', step, _⟩ := Option.bind_eq_some_iff.mp split.symm
    obtain ⟨m, here⟩ := main
    exact ⟨v', step, View.Runs.trans ⟨m, here⟩ (View.Runs.one step)⟩

/-! ## The program does not run into the handlers -/

/-- From this command a program inside the handlers would stay there. -/
def Command.remains (pc : Nat) : Command → Bool
  | ordinary (.beq _ _ offset) => decide (address .timer_handler ≤ wrap (pc + 1 + offset))
  | ordinary (.blt ..) | ordinary (.jalr ..) | ordinary .halt => false
  | _ => true

theorem remains_checked : ∀ k : Fin 98, (code (77 + k)).all (Command.remains (77 + k)) = true := by
  decide +kernel

theorem timer_entry : address .timer_handler = 77 := by decide +kernel

/-- A view that is inside the handlers stays there. -/
theorem View.step_remains {v v' : View} (inside : 77 ≤ v.PC)
    (step : v.step View.prj2Layout = some v') :
    77 ≤ v'.PC := by
  obtain ⟨i, mem, here, done, _⟩ | ⟨_, rfl⟩ := View.step_cases step
  · have low : v.PC < 175 := code_lt here
    have check := remains_checked ⟨v.PC - 77, by omega⟩
    rw [show 77 + (v.PC - 77) = v.PC by omega, show code v.PC = _ from here,
      Option.all_some] at check
    have next : 77 ≤ wrap (v.PC + 1) := by
      rw [show wrap (v.PC + 1) = v.PC + 1 from wrap_of_lt (n := v.PC + 1) (by omega)]
      omega
    unfold View.commit at done
    split at done
    · cases Option.some.inj done
      show 77 ≤ (i.act v.machine).PC
      cases i with
      | beq sr1 sr2 offset =>
        replace check : address .timer_handler ≤ wrap (v.PC + 1 + offset) := of_decide_eq_true check
        rw [timer_entry] at check
        simp only [Instr.act, apply_ite Machine.PC, Machine.setPC_PC]
        split
        · exact check
        · exact next
      | blt | jalr | halt => cases check
      | _ => exact next
    · cases done
  · exact Nat.le_succ_of_le inside

theorem View.steps_remains {v v' : View} (inside : 77 ≤ v.PC) {n : Nat}
    (steps : v.steps View.prj2Layout n = some v') : 77 ≤ v'.PC := by
  induction n generalizing v' with
  | zero =>
    cases Option.some.inj steps
    exact inside
  | succ n ih =>
    obtain ⟨w, before, last⟩ := Option.bind_eq_some_iff.mp steps
    exact View.step_remains (ih before) last

/-- `main` and its routines end before the handlers: from inside these it would never halt. -/
theorem main_low (started : Started p) {v : View} (main : Main p v) : v.PC < 77 := by
  by_contra inside
  obtain ⟨w, k, steps, last, _⟩ := main_ends started main
  have inside' := View.steps_remains (not_lt.mp inside) steps
  have low := code_lt last
  have check := remains_checked ⟨w.PC - 77, by omega⟩
  rw [show 77 + (w.PC - 77) = w.PC by omega, last] at check
  cases check

/-- `main` has one end. -/
theorem main_unique {v w : View} (main : Main p v) (halt : code v.PC = some (.ordinary .halt))
    (main' : Main p w) (halt' : code w.PC = some (.ordinary .halt)) : v = w := by
  have last : ∀ u : View, code u.PC = some (.ordinary .halt) →
      ∀ k u', u.steps View.prj2Layout k = some u' → u = u' := by
    intro u halt k u' steps
    cases k with
    | zero => exact Option.some.inj steps
    | succ k =>
      have stuck : u.step View.prj2Layout = none := by
        unfold View.step
        rw [show View.prj2Layout.code u.PC = _ from halt]
        rfl
      have split := View.steps_add (L := View.prj2Layout) u 1 k
      rw [Nat.add_comm 1 k, steps, show u.steps View.prj2Layout 1 = u.step View.prj2Layout from rfl,
        stuck] at split
      cases split
  obtain ⟨m, here⟩ := main
  obtain ⟨n, there⟩ := main'
  rcases Nat.le_total m n with le | le
  · have split := View.steps_add (L := View.prj2Layout) (bootedView p) m (n - m)
    rw [Nat.add_sub_cancel' le, here, there, Option.bind_some] at split
    exact last v halt _ w split.symm
  · have split := View.steps_add (L := View.prj2Layout) (bootedView p) n (m - n)
    rw [Nat.add_sub_cancel' le, here, there, Option.bind_some] at split
    exact (last w halt' _ v split.symm).symm

/-- `main` knows every word that is neither of its stack nor a cell of the handlers. -/
theorem main_known {v : View} (main : Main p v) {a : Nat} (outside : ¬(175 ≤ a ∧ a < 0xA000))
    (own : ¬Shared a) :
    (v.MEM a).isSome = true := by
  obtain ⟨n, steps⟩ := main
  apply View.steps_known steps
  · show ¬(prj2.length ≤ a ∧ a < 0xA000)
    rw [length_prj2]
    exact outside
  · unfold bootedView
    dsimp only
    rw [if_neg (by tauto)]
    rfl

end

end SystemsProjects.Irq
