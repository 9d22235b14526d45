import SystemsProjects.Cpu.Fitting

/-!
# `prj2.s` keeps to the circuit

Once `main` has enabled interrupts, every turn of the LC-4000a finds what it needs, and leaves the
handlers in time.
-/

namespace SystemsProjects.Cpu

open Lc Irq Register

/-! ## `main` -/

/-- From this view on, all commands fit until the `halt`, which is fewer than so many steps away. -/
def fitsUntil : Nat → View → Bool
  | 0, _ => false
  | k + 1, v =>
    (code v.PC).any (fun cmd => decide (8 ≤ v.PC ∧ fits v.REGS cmd)) &&
      (v.step View.prj2Layout).elim (decide (code v.PC = some (.ordinary .halt))) (fitsUntil k)

/-- `main` of the loaded program. -/
theorem main_fits : fitsUntil 1000 (bootedView loadedMachine) = true := by decide +kernel

section

variable {v w : View} {k n : Nat}

theorem fitsUntil_here (fit : fitsUntil k v = true) :
    ∃ cmd, code v.PC = some cmd ∧ 8 ≤ v.PC ∧ fits v.REGS cmd := by
  cases k with
  | zero => cases fit
  | succ k =>
    obtain ⟨here, -⟩ := Bool.and_eq_true_iff.mp fit
    obtain ⟨cmd, found, enough⟩ := (Option.any_eq_true _ _).mp here
    exact ⟨cmd, found, of_decide_eq_true enough⟩

theorem fitsUntil_step (fit : fitsUntil k v = true) (step : v.step View.prj2Layout = some w) :
    ∃ j, k = j + 1 ∧ fitsUntil j w = true := by
  cases k with
  | zero => cases fit
  | succ k =>
    obtain ⟨-, onward⟩ := Bool.and_eq_true_iff.mp fit
    rw [step] at onward
    exact ⟨k, rfl, onward⟩

theorem fitsUntil_steps (fit : fitsUntil k v = true) (steps : v.steps View.prj2Layout n = some w) :
    ∃ j ≤ k, fitsUntil j w = true := by
  induction n generalizing w with
  | zero =>
    cases Option.some.inj steps
    exact ⟨k, le_rfl, fit⟩
  | succ n ih =>
    obtain ⟨u, before, step⟩ := Option.bind_eq_some_iff.mp steps
    obtain ⟨j, le, fit'⟩ := ih before
    obtain ⟨j', rfl, fit''⟩ := fitsUntil_step fit' step
    exact ⟨j', by omega, fit''⟩

theorem fitsUntil_main (main : Main loadedMachine v) : ∃ k ≤ 1000, fitsUntil k v = true := by
  obtain ⟨n, steps⟩ := main
  exact fitsUntil_steps main_fits steps

/-- What a program may rely on does not depend on `$k0`. -/
theorem fits_agree {REGS REGS' : Fin 16 → Nat} (agree : ∀ r, r ≠ k0 → REGS r = REGS' r)
    {cmd : Command} (free : ∀ i, cmd = .ordinary i → k0 ∉ Irq.registers i)
    (enough : fits REGS' cmd) : fits REGS cmd := by
  cases cmd with
  | ordinary i =>
    have same : ∀ r ∈ Irq.registers i, REGS r = REGS' r := by
      intro r member
      apply agree
      rintro rfl
      exact free i rfl member
    cases i with
    | lw dr base offset | sw sr base offset =>
      show wrap (REGS base + offset) < 2 ^ 16
      rw [same base (by simp [Irq.registers])]
      exact enough
    | blt sr1 sr2 offset | min dr sr1 sr2 | max dr sr1 sr2 =>
      show Comparable (REGS sr1) (REGS sr2)
      rw [same sr1 (by simp [Irq.registers]), same sr2 (by simp [Irq.registers])]
      exact enough
    | _ => exact enough
  | _ => exact enough

theorem step_free (step : v.step View.prj2Layout = some w) {i : Instr}
    (here : code v.PC = some (.ordinary i)) : k0 ∉ Irq.registers i := by
  intro member
  unfold View.step at step
  rw [show View.prj2Layout.code v.PC = _ from here] at step
  dsimp only at step
  rw [if_pos member] at step
  cases step

variable {p : Processor}

/-- The circuit has what `main` needs. -/
theorem onBoard_main (nested : Nested v [] p) (main : Main loadedMachine v) : OnBoard p := by
  obtain ⟨k, -, fit⟩ := fitsUntil_main main
  obtain ⟨cmd, here, least, enough⟩ := fitsUntil_here fit
  have free : ∀ i, cmd = .ordinary i → k0 ∉ Irq.registers i := by
    rintro i rfl
    obtain halt | ⟨v', step, -⟩ := main_proceeds loadedMachine_started v main
    · cases Option.some.inj (here.symm.trans halt)
      exact List.not_mem_nil
    · exact step_free step here
  have PC := nested.view_PC
  cases nested.stack with
  | program sees =>
    exact onBoard_program nested.loaded (PC ▸ here) (PC ▸ least)
      (fits_agree sees.REGS free enough)

end

/-! ## One turn -/

/-- The circuit shows the processor, which runs `main` and the handlers as it should. -/
structure Steady (b : Board) (waiting : List Processor) (p : Processor) (v : View) : Prop where
  shown : Shown p b
  main : Main loadedMachine v
  nested : Nested v waiting p
  words : Words p
  onTime : OnTime b.devices p waiting
  distances : Distances (cells p.MEM) ((p :: waiting).map Processor.phase)
  on : waiting = [] → p.IE = true

section

variable {b : Board} {p p' : Processor} {v v' : View} {waiting waiting' : List Processor}
  {request : Option (Fin 2)} {value : Nat}

/-- The tracker delivers natural numbers. -/
theorem natural_value (b : Board) : 0 ≤ signed b.value := by
  have small : ∀ index : BitVec 4, (Devices.OUTPUT index).toNat < 2 ^ 24 := by decide
  show 0 ≤ signed (Devices.OUTPUT b.devices.tracker.index).toNat
  rw [View.signed_of_lt ((small b.devices.tracker.index).trans (by decide))]
  exact Int.natCast_nonneg _

theorem idle_below (nested : Nested v [] p) (below : v.PC < 77) : p.phase = .idle :=
  phase_low (program_below nested below)

/-- The distances stay natural numbers. -/
theorem Distances.turn (distances : Distances (cells p.MEM) ((p :: waiting).map Processor.phase))
    (nested : Nested v waiting p) (below' : v'.PC < 77) (nested' : Nested v' waiting' p')
    (words : Words p) (low : 175 ≤ p.REGS sp) (on : waiting = [] → p.IE = true)
    (turn : Turn request value waiting p waiting' p') (natural : 0 ≤ signed value) :
    Distances (cells p'.MEM) ((p' :: waiting').map Processor.phase) := by
  cases turn with
  | halted => exact distances
  | interrupt device taken vector =>
    refine ⟨distances.maxval, distances.minval, ?_⟩
    rw [List.map_cons, entry_phase device vector]
    refine List.forall_mem_cons.mpr ⟨?_, distances.natural⟩
    split <;> trivial
  | program cmd running taken here more unread own =>
    have same : cells (cmd.effect value p).MEM = cells p.MEM := by
      have kept := (own (on rfl)).2
      unfold cells
      rw [kept 0xFFFF (by decide), kept 0xFFFE (by decide), kept 0xFFFD (by decide),
        kept 0xFFFC (by decide)]
    rw [same, List.map_singleton, idle_below nested' below']
    exact ⟨distances.maxval, distances.minval, List.forall_mem_singleton.mpr trivial⟩
  | handler cmd running taken here more =>
    rw [List.map_cons] at distances ⊢
    have advances : Advances (cmd.heard value) p (cmd.effect value p) :=
      nested.advances words low here more
    cases advances with
    | keeps phase same =>
      rw [phase, same]
      exact distances
    | moves move =>
      apply distances.move move
      intro x hears
      rw [← heard_eq hears]
      exact natural
  | returns running taken here resumes =>
    rw [List.map_cons, resumes.phase]
    exact ⟨distances.maxval, distances.minval, (List.forall_mem_cons.mp distances.natural).2⟩

theorem Steady.low (steady : Steady b waiting p v) : 175 ≤ p.REGS sp :=
  steady.onTime.room steady.nested

theorem Steady.below (steady : Steady b waiting p v) : v.PC < 77 :=
  main_low loadedMachine_started steady.main

/-- Whoever runs, the circuit has what the next command needs. -/
theorem Steady.onBoard (steady : Steady b waiting p v) : OnBoard p := by
  have nested := steady.nested
  cases waiting with
  | nil => exact onBoard_main nested steady.main
  | cons c rest =>
    have top := nested.sound.room.2
    have high := nested.stack.high
    have natural := (List.forall_mem_cons.mp steady.distances.natural).1
    cases nested.stack with
    | handler _ _ handles =>
      obtain ⟨cmd, here⟩ := handles.command
      obtain ⟨least, -⟩ := handles.place
      exact onBoard_program nested.loaded here (by omega)
        (fits_handler handles here steady.low (high.trans top) natural)

/-- What a turn of the circuit makes of the run. -/
theorem Steady.turn (steady : Steady b waiting p v) :
    ∃ b', b.turn = some b' ∧ Passes (p.taken b.request) b.devices b'.devices ∧
      ∀ {waiting' v'}, Main loadedMachine v' →
        Turn b.request b.value waiting p waiting' (p.next b.request b.value) →
        Nested v' waiting' (p.next b.request b.value) →
        Steady b' waiting' (p.next b.request b.value) v' := by
  obtain ⟨b', turns, shown, passes⟩ := steady.shown.turn fun _ => steady.onBoard
  refine ⟨b', turns, passes, ?_⟩
  intro waiting' v' main' turn nested'
  have low := steady.low
  have small : b.value < 2 ^ 32 := BitVec.isLt _
  exact ⟨shown, main', nested',
    turn.words steady.words (steady.nested.low steady.below) small,
    steady.onTime.turn steady.shown.settled steady.nested steady.below steady.words low turn passes,
    steady.distances.turn steady.nested (main_low loadedMachine_started main') nested'
      steady.words low steady.on turn (natural_value b),
    turn.on steady.on⟩

end

end SystemsProjects.Cpu
