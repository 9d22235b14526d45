import SystemsProjects.Irq.Alone
import SystemsProjects.Lib.Brackets

/-!
# Interrupts are transparent

Whatever interrupts are taken, each handler returns to what it interrupted, and `main` comes to the
end to which it comes without any.
-/

namespace SystemsProjects.Irq

open Lc Register

section

variable {v v' : View} {waiting waiting' : List Processor} {p p' : Processor}
  {request : Option (Fin 2)}
  {value : Nat}

/-- A handler that is on top advances. -/
theorem Nested.advances {c : Processor} (nested : Nested v (c :: waiting) p) (words : Words p)
    (low : 175 ≤ p.REGS sp) {cmd : Command} (here : code p.PC = some cmd) (more : cmd ≠ .reti) :
    Advances (cmd.heard value) p (cmd.effect value p) := by
  have top := nested.sound.room.2
  cases nested.stack with
  | handler inner _ handles =>
    exact handles.advances nested.zero nested.loaded words low
      (Shape.sheltered_low (inner.high.trans top)) here more
      value

/-- The states that wait form a stack. -/
theorem Turn.changes (turn : Turn request value waiting p waiting' p') :
    Brackets.Changes waiting waiting' := by
  cases turn with
  | halted | program | handler => exact .same _
  | interrupt => exact .push _ _
  | returns => exact .pop _ _

/-- Each handler pushes at most seven words. -/
theorem Stack.depth {mem : Nat → Nat} (stack : Stack v mem waiting p) :
    v.REGS sp ≤ p.REGS sp + 7 * waiting.length := by
  induction stack with
  | program sees => exact (sees.REGS sp (by decide)).ge
  | handler _ _ handles ih =>
    obtain ⟨sh, shape, holds⟩ := handles
    have small := Shape.along_small shape
    have pushed := holds.stack
    rw [List.length_cons]
    omega

end

/-! ## Room on the stack -/

section

variable {σ : Schedule} {p : Processor}

/-- The stack stays clear of the image while not too many interrupts are nested. -/
theorem clear_of_depth (started : Started p) (depth : Nat) (few : 7 * depth + 200 ≤ 0xA000)
    (shallow : ∀ n, (suspended σ p n).length ≤ depth) : Clear σ p := by
  have reached : ∀ n, ∀ m, 2 ≤ m → m < n + 2 → prj2.length ≤ (run σ p m).REGS sp := by
    intro n
    induction n with
    | zero => omega
    | succ n ih =>
      intro m least less
      by_cases before : m < n + 2
      · exact ih m least before
      · obtain rfl : m = n + 2 := by omega
        obtain ⟨⟨v, _, nested⟩, _⟩ := run_state started n ih
        have deep := nested.stack.depth
        have floor : 0xA000 - 25 ≤ v.REGS sp := nested.sound.room.1
        have most := shallow (n + 2)
        rw [length_prj2]
        omega
  intro n least
  exact reached (n - 1) n least (by omega)

theorem waiting_length (p : Processor) (request : Option (Fin 2)) (waiting : List Processor) :
    (p.waiting request waiting).length ≤ waiting.length + if request.isSome then 1 else 0 := by
  unfold Processor.waiting
  split
  · next taken =>
    have asked : request.isSome = true := by
      unfold Processor.taken at taken
      split at taken
      · exact taken
      · cases taken
    rw [if_pos asked]
    exact le_rfl
  · split
    · rw [List.length_tail]
      omega
    · omega

/-- No more handlers wait than requests were made. -/
theorem suspended_length (last : Nat) (quiet : ∀ n, last ≤ n → σ.request n = none) (n : Nat) :
    (suspended σ p n).length ≤ last := by
  have bound : (suspended σ p n).length ≤ min n last := by
    induction n with
    | zero => exact Nat.zero_le _
    | succ n ih =>
      have grows := waiting_length (run σ p n) (σ.request n) (suspended σ p n)
      show ((run σ p n).waiting (σ.request n) (suspended σ p n)).length ≤ _
      by_cases late : last ≤ n
      · rw [quiet n late] at grows ⊢
        rw [if_neg (by decide)] at grows
        omega
      · split at grows <;> omega
  omega

end

/-! ## The end of a run -/

section

variable {σ : Schedule} {p : Processor}

theorem state_of_clear (started : Started p) (clear : Clear σ p) {n : Nat} (least : 2 ≤ n) :
    (∃ v, Main p v ∧ Nested v (suspended σ p n) (run σ p n)) ∧ Words (run σ p n) := by
  have reached := run_state (σ := σ) started (n - 2) (fun m two _ => clear m two)
  rw [show n - 2 + 2 = n by omega] at reached
  exact reached

theorem turn_of_clear (started : Started p) (clear : Clear σ p) {n : Nat} (least : 2 ≤ n) :
    Turn (σ.request n) (σ.value n) (suspended σ p n) (run σ p n) (suspended σ p (n + 1))
      (run σ p (n + 1)) := by
  obtain ⟨⟨v, main, nested⟩, _⟩ := state_of_clear started clear least
  have room := clear n least
  rw [length_prj2] at room
  obtain ⟨_, _, turn, _⟩ := nested.turn (main_proceeds started) main room (σ.request n) (σ.value n)
  exact turn

theorem taken_quiet {n : Nat} (quiet : σ.request n = none) :
    (run σ p n).taken (σ.request n) = none := by
  rw [quiet, taken_none]

/-- Without further interrupts the handler on top returns, by induction on what is left of it. -/
theorem top_returns (started : Started p) (clear : Clear σ p) {last : Nat}
    (quiet : ∀ n, last ≤ n → σ.request n = none) (left : Nat) :
    ∀ n, 2 ≤ n → last ≤ n → (run σ p n).left = left → ∀ c rest, suspended σ p n = c :: rest →
      ∃ m, n < m ∧ suspended σ p m = rest := by
  induction left using Nat.strongRecOn with
  | ind left ih =>
    intro n least late same c rest waiting
    obtain ⟨⟨v, main, nested⟩, words⟩ := state_of_clear started clear least
    have room := clear n least
    rw [length_prj2] at room
    have turn := turn_of_clear started clear least
    rw [waiting] at turn nested
    generalize after : suspended σ p (n + 1) = waiting' at turn
    generalize next : run σ p (n + 1) = p' at turn
    cases turn with
    | halted stopped => cases (nested.stopped stopped).1
    | interrupt device taken =>
      rw [taken_quiet (quiet n late)] at taken
      cases taken
    | handler cmd running taken here more =>
      have less : (run σ p (n + 1)).left < left := by
        rw [next, ← same]
        exact (nested.advances words room here more).left_lt
      obtain ⟨m, later, done⟩ := ih _ less (n + 1) (by omega) (by omega) rfl c rest after
      exact ⟨m, by omega, done⟩
    | returns => exact ⟨n + 1, by omega, after⟩

theorem all_return (started : Started p) (clear : Clear σ p) {last : Nat}
    (quiet : ∀ n, last ≤ n → σ.request n = none) (waiting : List Processor) :
    ∀ n, 2 ≤ n → last ≤ n → suspended σ p n = waiting →
      ∃ m, n ≤ m ∧ suspended σ p m = [] := by
  induction waiting with
  | nil => exact fun n _ _ done => ⟨n, le_rfl, done⟩
  | cons c rest ih =>
    intro n least late same
    obtain ⟨m, later, fewer⟩ := top_returns started clear quiet _ n least late rfl c rest same
    obtain ⟨k, le, done⟩ := ih m (by omega) (by omega) fewer
    exact ⟨k, by omega, done⟩

/-- Without further interrupts `main` takes the steps that its view shows. -/
theorem main_rests {last : Nat} (quiet : ∀ n, last ≤ n → σ.request n = none) {w : View}
    (halt : code w.PC = some (.ordinary .halt)) (k : Nat) : ∀ n v, last ≤ n → suspended σ p n = [] →
      Nested v [] (run σ p n) → v.steps View.prj2Layout k = some w → ∃ m, n ≤ m ∧
      (run σ p m).HALTED = true := by
  induction k with
  | zero =>
    intro n v late returned nested steps
    cases Option.some.inj steps
    cases running : (run σ p n).HALTED with
    | true => exact ⟨n, le_rfl, running⟩
    | false =>
      have here : code (run σ p n).PC = some (.ordinary .halt) := by rw [nested.view_PC, halt]
      have next : run σ p (n + 1) = _ :=
        next_command (taken_quiet (quiet n late)) running nested.loaded here
      exact ⟨n + 1, by omega, by rw [next]; rfl⟩
  | succ k ih =>
    intro n v late returned nested steps
    have split := View.steps_add (L := View.prj2Layout) v 1 k
    rw [Nat.add_comm 1 k, steps] at split
    obtain ⟨v', step, rest⟩ := Option.bind_eq_some_iff.mp split.symm
    cases running : (run σ p n).HALTED with
    | true => exact ⟨n, le_rfl, running⟩
    | false =>
      obtain ⟨cmd, here, more, _, _, after⟩ := nested.program running step (σ.value n)
      have taken := taken_quiet (σ := σ) (p := p) (quiet n late)
      have next : run σ p (n + 1) = cmd.effect (σ.value n) (run σ p n) :=
        next_command taken running nested.loaded here
      have waiting : suspended σ p (n + 1) = [] := by
        show (run σ p n).waiting _ (suspended σ p n) = []
        rw [waiting_command taken running nested.loaded here, if_neg more, returned]
      rw [← next] at after
      obtain ⟨m, le, halted⟩ := ih (n + 1) v' (by omega) waiting after rest
      exact ⟨m, by omega, halted⟩

/-- `main` halts when the devices stop asking at some time. -/
theorem run_halts (started : Started p) (finite : σ.Finite) (clear : Clear σ p) :
    ∃ n, 2 ≤ n ∧ (run σ p n).HALTED = true := by
  obtain ⟨last, quiet⟩ := finite
  obtain ⟨n, le, returned⟩ := all_return started clear quiet _ (last + 2) (by omega) (by omega) rfl
  obtain ⟨⟨v, main, nested⟩, _⟩ := state_of_clear started clear (n := n) (by omega)
  obtain ⟨w, k, steps, halt, _⟩ := main_ends started main
  rw [returned] at nested
  obtain ⟨m, le', halted⟩ := main_rests quiet halt k n v (by omega) returned nested steps
  exact ⟨m, by omega, halted⟩

end

/-! ## Transparency -/

/-- Two processors that differ at most in `$k0`, below the stack pointer and in the cells of the
handlers. -/
structure Alike (p q : Processor) : Prop where
  PC : p.PC = q.PC
  REGS : ∀ r, r ≠ k0 → p.REGS r = q.REGS r
  program : ∀ a < prj2.length, p.MEM a = q.MEM a
  MEM : ∀ a, ¬(prj2.length ≤ a ∧ a < p.REGS sp) → ¬Shared a → p.MEM a = q.MEM a

/-- The handler that interrupts the processor at step `n` returns at step `m` to where it was. -/
structure Returned (σ : Schedule) (p : Processor) (n m : Nat) : Prop where
  later : n < m
  waits : ∀ k, n < k → k ≤ m → run σ p n :: suspended σ p n <:+ suspended σ p k
  alone : suspended σ p m = run σ p n :: suspended σ p n
  returning : (run σ p m).Returning
  resumes : Resumes (run σ p n) (run σ p (m + 1))
  rest : suspended σ p (m + 1) = suspended σ p n

section

variable {σ : Schedule} {p : Processor}

theorem quiet_clear (started : Started p) : Clear σ.quiet p := by
  apply clear_of_depth started 0 (by decide)
  intro n
  exact suspended_length 0 (fun _ _ => rfl) n

/-- The end of a run as `main` sees it. -/
theorem end_of_run (started : Started p) (clear : Clear σ p) {n : Nat} (least : 2 ≤ n)
    (halted : (run σ p n).HALTED = true) :
    ∃ v, Main p v ∧ code v.PC = some (.ordinary .halt) ∧ v.Sees (run σ p n).MEM (run σ p n) ∧
      suspended σ p n = [] := by
  obtain ⟨⟨v, main, nested⟩, _⟩ := state_of_clear started clear least
  obtain ⟨returned, halt⟩ := nested.stopped halted
  rw [returned] at nested
  cases nested.stack with
  | program sees => exact ⟨v, main, halt, sees, returned⟩

theorem interrupt_returns (started : Started p) (clear : Clear σ p) {last n : Nat} (ends : 2 ≤ last)
    (halted : (run σ p last).HALTED = true) {device : Fin 2} (taken : taken σ p n = some device) :
    ∃ m, Returned σ p n m := by
  have ready := taken_some taken
  have least : 2 ≤ n := by
    by_contra small
    have on := ready.2
    obtain rfl | rfl : n = 0 ∨ n = 1 := by omega
    · rw [show run σ p 0 = p from rfl, started.disabled] at on
      cases on
    · rw [(run_booted started).1] at on
      cases on
  have pushed : suspended σ p (n + 1) = run σ p n :: suspended σ p n := waiting_taken taken
  have stays : ∀ m, last ≤ m → (run σ p m).HALTED = true := by
    intro m le
    induction m, le using Nat.le_induction with
    | base => exact halted
    | succ m _ ih => exact (congrArg (fun q : Processor => q.HALTED) (next_halted ih)).trans ih
  have before : n < last := by
    by_contra late
    rw [stays n (not_lt.mp late)] at ready
    cases ready.1
  obtain ⟨_, _, _, _, returned⟩ := end_of_run started clear ends halted
  obtain ⟨m, later, _, top, fewer, waits⟩ := Brackets.popped (s := suspended σ p)
    (fun m after => (turn_of_clear started clear (by omega)).changes) pushed before
    (by rw [returned, List.suffix_nil]; nofun)
  obtain ⟨⟨v, main, nested⟩, _⟩ := state_of_clear started clear (n := m) (by omega)
  have turn := turn_of_clear started clear (n := m) (by omega)
  rw [top, fewer] at turn
  have facts : (run σ p m).Returning ∧ Resumes (run σ p n) (run σ p (m + 1)) := by
    generalize next : run σ p (m + 1) = q at turn
    generalize below : suspended σ p n = rest at turn
    cases turn with
    | returns running _ here resumes => exact ⟨(nested.loaded.returning_iff here running).mpr rfl,
      resumes⟩
  exact ⟨m, later, waits, top, facts.1, facts.2, fewer⟩

/-- Interrupts are transparent to the program that they interrupt. -/
theorem interrupts_transparent (started : Started p) (finite : σ.Finite) (clear : Clear σ p) :
    (∃ i j, (run σ p i).HALTED = true ∧ (run σ.quiet p j).HALTED = true ∧
    Alike (run σ p i) (run σ.quiet p j) ∧
      (run σ p i).MEM (address .ANS) = 256) ∧
    ∀ n device, taken σ p n = some device → ∃ m, Returned σ p n m := by
  have clear' : Clear σ.quiet p := quiet_clear started
  obtain ⟨i, least, halted⟩ := run_halts started finite clear
  obtain ⟨j, least', halted'⟩ := run_halts started ⟨0, fun _ _ => rfl⟩ clear'
  refine ⟨⟨i, j, halted, halted', ?_⟩, fun n device taken =>
    interrupt_returns started clear least halted taken⟩
  obtain ⟨v, main, halt, sees, _⟩ := end_of_run started clear least halted
  obtain ⟨w, main', halt', sees', _⟩ := end_of_run started clear' least' halted'
  obtain rfl := main_unique main halt main' halt'
  obtain ⟨u, k, steps, halt'', answer, top⟩ := main_ends started main
  obtain rfl : v = u := by
    obtain ⟨m, here⟩ := main
    exact main_unique ⟨m, here⟩ halt (View.Runs.trans ⟨m, here⟩ ⟨k, steps⟩) halt''
  have MEM : ∀ a, ¬(175 ≤ a ∧ a < 0xA000) → ¬Shared a →
      (run σ p i).MEM a = (run σ.quiet p j).MEM a := by
    intro a outside own
    obtain ⟨x, known⟩ := Option.isSome_iff_exists.mp (main_known main outside own)
    rw [sees.MEM a x known, sees'.MEM a x known]
  have stack : (run σ p i).REGS sp = 0xA000 := by rw [sees.REGS sp (by decide), top]
  refine ⟨⟨?_, ?_, ?_, ?_⟩, sees.MEM _ _ answer⟩
  · rw [sees.PC, sees'.PC]
  · intro r other
    rw [sees.REGS r other, sees'.REGS r other]
  · intro a low
    rw [length_prj2] at low
    apply MEM a (by omega)
    rintro ⟨above, _⟩
    omega
  · intro a outside own
    rw [length_prj2, stack] at outside
    exact MEM a outside own

/-- An interrupt within a handler. -/
theorem interrupts_transparent_nested :
    (∃ i j, (run distanceInTimer loadedMachine i).HALTED = true ∧
      (run distanceInTimer.quiet loadedMachine j).HALTED = true ∧
      Alike (run distanceInTimer loadedMachine i) (run distanceInTimer.quiet loadedMachine j) ∧
      (run distanceInTimer loadedMachine i).MEM (address .ANS) = 256) ∧
    ∀ n device, taken distanceInTimer loadedMachine n = some device →
    ∃ m, Returned distanceInTimer loadedMachine n m := by
  have quiet : ∀ n, 21 ≤ n → distanceInTimer.request n = none := by
    intro n late
    unfold distanceInTimer
    dsimp only
    rw [if_neg (by omega), if_neg (by omega)]
  exact interrupts_transparent loadedMachine_started ⟨21, quiet⟩
    (clear_of_depth loadedMachine_started 21 (by decide) (suspended_length _ quiet))

end

end SystemsProjects.Irq
