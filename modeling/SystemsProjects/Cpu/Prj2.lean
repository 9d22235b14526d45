import SystemsProjects.Cpu.Steady

/-!
# `prj2.s` on the LC-4000a

Whatever the devices have counted when the circuit is switched on, `main` comes to its halt, and no
update of the handlers is lost: the timers never let them get in each other's way.
-/

namespace SystemsProjects.Cpu

open Lc Irq Register

/-! ## Before interrupts are enabled -/

theorem silence_lt (_ : Nat) : 0 < 2 ^ 32 := Nat.two_pow_pos 32

/-- No device does anything. -/
def silence : Schedule where
  request _ := none
  value _ := 0
  value_lt := silence_lt

section

variable {p : Processor} {σ : Schedule}

theorem taken_masked (off : p.IE = false) (request : Option (Fin 2)) : p.taken request = none := by
  unfold Processor.taken
  rw [off, if_neg (fun both => Bool.false_ne_true both.2)]

/-- A processor that neither takes interrupts nor reads does not see the devices. -/
theorem next_masked (off : p.IE = false) (deaf : p.opcode ≠ 14) (request : Option (Fin 2))
    (value : Nat) : p.next request value = p.next none 0 := by
  have cycle : p.cycle value = p.cycle 0 := by
    unfold Processor.cycle
    dsimp only
    split
    · rfl
    · rfl
    · rfl
    · next reads => exact absurd reads deaf
    · rfl
  unfold Processor.next
  rw [taken_masked off, taken_masked off, cycle]

theorem run_masked {n : Nat}
    (masked : ∀ m < n, (run silence p m).IE = false ∧ (run silence p m).opcode ≠ 14) :
    run σ p n = run silence p n := by
  induction n with
  | zero => rfl
  | succ n ih =>
    obtain ⟨off, deaf⟩ := masked n (Nat.lt_succ_self n)
    show (run σ p n).next _ _ = (run silence p n).next none 0
    rw [ih fun m lt => masked m (Nat.lt_succ_of_lt lt), next_masked off deaf]

/-- What `main` does before it enables interrupts. -/
theorem opening_checked : watch silence (fun n p _ => decide (p.IE = false ∧ p.opcode ≠ 14 ∧
    OnBoard p ∧ (2 ≤ n → 175 ≤ p.REGS sp))) 0 loadedMachine [] 13 = true := by decide +kernel

/-- The cells when interrupts are enabled. -/
def opened : Cells where
  ticks := 0
  range := 0
  maxval := 0
  minval := 0x7FFFFFFF

theorem opened_checked : (run silence loadedMachine 13).IE = true ∧
    cells (run silence loadedMachine 13).MEM = opened := by decide +kernel

theorem opening {m : Nat} (lt : m < 13) : (run silence loadedMachine m).IE = false ∧
    (run silence loadedMachine m).opcode ≠ 14 ∧ OnBoard (run silence loadedMachine m) ∧
      (2 ≤ m → 175 ≤ (run silence loadedMachine m).REGS sp) :=
  of_decide_eq_true
    (watch_run (σ := silence) (n := 0) opening_checked m (Nat.zero_le m) (by omega))

theorem opening_run (σ : Schedule) {n : Nat} (le : n ≤ 13) :
    run σ loadedMachine n = run silence loadedMachine n := by
  apply run_masked
  intro m lt
  obtain ⟨off, deaf, -⟩ := opening (m := m) (by omega)
  exact ⟨off, deaf⟩

theorem enabled_opened (σ : Schedule) : Enabled σ loadedMachine 13 := by
  constructor
  · rw [opening_run σ le_rfl]
    exact opened_checked.1
  · intro n lt
    rw [opening_run σ lt.le]
    exact (opening lt).1

end

/-! ## Every state of the run -/

/-- The circuit with the program loaded and its first address in `PC`. -/
abbrev powered (d : Devices) : Board := .holding loadedMachine d

/-- After so many turns the circuit is as it should be, and the program has the view `v`. -/
structure Keeps (d : Devices) (n : Nat) (b : Board) (v : View) : Prop where
  turns : (powered d).turns n = some b
  steady : Steady b (suspended (powered d).schedule loadedMachine n)
    (run (powered d).schedule loadedMachine n) v

section

variable {d : Devices}

theorem powered_shown (settled : d.Settled) : Shown loadedMachine (powered d) := by
  have started := loadedMachine_started
  refine holding_shown ?_ started.registers started.memory rfl rfl settled
  rw [started.entry]
  decide +kernel

theorem opened_keeps (settled : d.Settled) : ∃ b v, Keeps d 13 b v := by
  have enabled := enabled_opened (powered d).schedule
  have same := opening_run (powered d).schedule (n := 13) le_rfl
  obtain ⟨b, turns, shown⟩ := (powered_shown settled).turns (n := 13) fun m lt _ => by
    rw [opening_run _ lt.le]
    exact (opening lt).2.2.1
  obtain ⟨⟨v, main, nested⟩, words⟩ :=
    run_state (σ := (powered d).schedule) loadedMachine_started 11 fun m least less => by
      rw [length_prj2, opening_run _ (by omega)]
      exact (opening (by omega)).2.2.2 least
  have returned := enabled.suspended
  refine ⟨b, v, turns, shown, main, nested, words, ?_, ?_, fun _ => enabled.1⟩
  · rw [returned]
    exact ⟨List.pairwise_singleton .., fun more => absurd rfl more⟩
  · rw [returned] at nested ⊢
    rw [List.map_singleton, idle_below nested (main_low loadedMachine_started main), same,
      opened_checked.2]
    exact ⟨by decide, by decide, List.forall_mem_singleton.mpr trivial⟩

section

variable {n : Nat} {b : Board} {v : View}

/-- One turn more: whichever view the program has then, all is as it should be. -/
theorem Keeps.turn (keeps : Keeps d n b v) : ∃ b', Turn ((powered d).schedule.request n)
    ((powered d).schedule.value n) (suspended (powered d).schedule loadedMachine n)
    (run (powered d).schedule loadedMachine n)
    (suspended (powered d).schedule loadedMachine (n + 1))
    (run (powered d).schedule loadedMachine (n + 1)) ∧
    Passes (taken (powered d).schedule loadedMachine n) b.devices b'.devices ∧
    (∃ v', Keeps d (n + 1) b' v') ∧
    ∀ v', Main loadedMachine v' → Nested v' (suspended (powered d).schedule loadedMachine (n + 1))
      (run (powered d).schedule loadedMachine (n + 1)) → Keeps d (n + 1) b' v' := by
  obtain ⟨turns, steady⟩ := keeps
  obtain ⟨request, value⟩ := schedule_turns turns
  have next : run (powered d).schedule loadedMachine (n + 1) =
      (run (powered d).schedule loadedMachine n).next b.request b.value := by
    rw [← request, ← value]
    rfl
  have waits : suspended (powered d).schedule loadedMachine (n + 1) =
      (run (powered d).schedule loadedMachine n).waiting b.request
        (suspended (powered d).schedule loadedMachine n) := by
    rw [← request]
    rfl
  obtain ⟨w, main, turn, nested⟩ := steady.nested.turn (main_proceeds loadedMachine_started)
    steady.main steady.low b.request b.value
  obtain ⟨b', after, passes, onward⟩ := steady.turn
  have turns' : (powered d).turns (n + 1) = some b' := by
    rw [Board.turns, turns, Option.bind_some, after]
  rw [← next, ← waits] at turn nested
  rw [← next] at onward
  rw [Irq.taken, request, value]
  exact ⟨b', turn, passes, ⟨w, turns', onward main turn nested⟩,
    fun v' main' nested' => ⟨turns', onward main' turn nested'⟩⟩

end

theorem run_keeps (settled : d.Settled) {n : Nat} (least : 13 ≤ n) : ∃ b v, Keeps d n b v := by
  induction n, least using Nat.le_induction with
  | base => exact opened_keeps settled
  | succ n least ih =>
    obtain ⟨b, v, keeps⟩ := ih
    obtain ⟨b', -, -, more, -⟩ := keeps.turn
    exact ⟨b', more⟩

/-- The handlers never get in each other's way. -/
theorem run_careful (settled : d.Settled) {n : Nat} (least : 2 ≤ n) :
    Careful (powered d).schedule loadedMachine n := by
  by_cases before : n < 13
  · obtain ⟨off, deaf, -, low⟩ := opening before
    rw [← opening_run (powered d).schedule before.le] at off deaf low
    refine ⟨by rw [length_prj2]; exact low least, fun taken => ?_, fun reading => ?_⟩
    · cases (taken_masked off _).symm.trans taken
    · exact absurd reading.2.2 deaf
  · obtain ⟨b, v, keeps⟩ := run_keeps settled (not_lt.mp before)
    obtain ⟨b', -, passes, -, -⟩ := keeps.turn
    have steady := keeps.steady
    refine ⟨by rw [length_prj2]; exact steady.low, fun taken => ?_, fun reading => ?_⟩
    · exact steady.onTime.timer steady.shown.settled steady.nested steady.below passes taken
    · exact steady.onTime.read steady.nested reading _ _

/-! ## The end of the run -/

/-- The program waits while an interrupt is taken or a handler runs. -/
theorem nested_waits {request : Option (Fin 2)} {value : Nat} {p p' : Processor} {v : View}
    {waiting waiting' : List Processor} (nested : Nested v waiting p) (low : 175 ≤ p.REGS sp)
    (turn : Turn request value waiting p waiting' p')
    (more : ¬ (waiting = [] ∧ p.taken request = none)) : Nested v waiting' p' := by
  cases turn with
  | halted => exact nested
  | interrupt device taken =>
    obtain ⟨running, on⟩ := taken_some taken
    exact (nested.interrupt device on running).2
  | program cmd running taken => exact absurd ⟨rfl, taken⟩ more
  | handler cmd running taken here other => exact nested.handler running low here other
  | returns running taken here => exact (nested.returns running here value).2

/-- The program goes on at this step, or it has stopped. -/
def Calm (d : Devices) (n : Nat) : Prop :=
  suspended (powered d).schedule loadedMachine n = [] ∧
    taken (powered d).schedule loadedMachine n = none

section

variable {n : Nat} {b : Board} {v : View}

/-- While handlers run the count of the first device grows, by induction on what it may still
grow. -/
theorem Keeps.calms {first : Fin 2} (left : Nat) : ∀ {n b}, Keeps d n b v →
    Busy b.devices (run (powered d).schedule loadedMachine n)
      (suspended (powered d).schedule loadedMachine n) first →
    1046 ≤ b.devices.count first + left →
    ∃ m b', n ≤ m ∧ m ≤ n + left ∧ Keeps d m b' v ∧ Calm d m := by
  induction left using Nat.strongRecOn with
  | ind left ih =>
    intro n b keeps busy less
    by_cases calm : Calm d n
    · exact ⟨n, b, le_rfl, Nat.le_add_right n _, keeps, calm⟩
    · obtain ⟨b', turn, passes, -, next⟩ := keeps.turn
      have steady := keeps.steady
      obtain calm' | ⟨busy', later⟩ := busy.turn steady.shown.settled steady.onTime.apart
        steady.nested steady.words steady.low turn passes
      · exact absurd calm' calm
      · have budget := busy'.budget
        have keeps' := next v steady.main (nested_waits steady.nested steady.low turn calm)
        obtain ⟨m, b'', least, most, done⟩ := ih (left - 1) (by omega) keeps' busy' (by omega)
        exact ⟨m, b'', by omega, by omega, done⟩

/-- Soon the program goes on. -/
theorem Keeps.soon (keeps : Keeps d n b v) :
    ∃ m b', n ≤ m ∧ m ≤ n + 1047 ∧ Keeps d m b' v ∧ Calm d m := by
  by_cases calm : Calm d n
  · exact ⟨n, b, le_rfl, Nat.le_add_right n _, keeps, calm⟩
  · obtain ⟨b', turn, passes, -, next⟩ := keeps.turn
    have steady := keeps.steady
    by_cases returned : suspended (powered d).schedule loadedMachine n = []
    · obtain ⟨device, taken⟩ := Option.ne_none_iff_exists'.mp fun none => calm ⟨returned, none⟩
      have keeps' := next v steady.main (nested_waits steady.nested steady.low turn calm)
      have waits : suspended (powered d).schedule loadedMachine (n + 1) ≠ [] := by
        show Processor.waiting _ _ _ ≠ []
        rw [waiting_taken taken]
        exact List.cons_ne_nil _ _
      obtain ⟨first, busy⟩ := keeps'.steady.onTime.busy waits
      obtain ⟨m, b'', least, most, done⟩ := keeps'.calms 1046 busy (by omega)
      exact ⟨m, b'', by omega, by omega, done⟩
    · obtain ⟨first, busy⟩ := steady.onTime.busy returned
      obtain ⟨m, b'', least, most, done⟩ := keeps.calms 1046 busy (by omega)
      exact ⟨m, b'', least, by omega, done⟩

/-- The program takes the steps that its view shows, and halts. -/
theorem Keeps.halts (k : Nat) : ∀ {n b v}, Keeps d n b v → fitsUntil k v = true →
    ∃ m, n ≤ m ∧ m ≤ n + k * 1048 ∧ (run (powered d).schedule loadedMachine m).HALTED = true := by
  induction k with
  | zero =>
    intro n b v keeps fit
    cases fit
  | succ k ih =>
    intro n b v keeps fit
    obtain ⟨m, b', least, most, keeps', returned, taken⟩ := keeps.soon
    cases running : (run (powered d).schedule loadedMachine m).HALTED with
    | true => exact ⟨m, least, by omega, running⟩
    | false =>
      have nested := keeps'.steady.nested
      rw [returned] at nested
      obtain halt | ⟨v', step, main'⟩ :=
        main_proceeds loadedMachine_started v keeps'.steady.main
      · have here : code (run (powered d).schedule loadedMachine m).PC =
          some (.ordinary .halt) := by
          rw [nested.view_PC, halt]
        have next : run (powered d).schedule loadedMachine (m + 1) = _ :=
          next_command taken running nested.loaded here
        exact ⟨m + 1, by omega, by omega, by rw [next]; rfl⟩
      · obtain ⟨cmd, here, more, -, -, after⟩ :=
          nested.program running step ((powered d).schedule.value m)
        have next : run (powered d).schedule loadedMachine (m + 1) = _ :=
          next_command taken running nested.loaded here
        have waiting : suspended (powered d).schedule loadedMachine (m + 1) = [] := by
          show Processor.waiting _ _ _ = []
          rw [waiting_command taken running nested.loaded here, if_neg more, returned]
        rw [← next, ← waiting] at after
        obtain ⟨b'', -, -, -, onward⟩ := keeps'.turn
        obtain ⟨j, same, fit'⟩ := fitsUntil_step fit step
        obtain rfl : k = j := Nat.succ.inj same
        obtain ⟨last, least', most', halted⟩ := ih (onward v' main' after) fit'
        exact ⟨last, by omega, by omega, halted⟩

end

/-- What the memory of the circuit holds. -/
def Board.MEM (b : Board) (a : Nat) : Nat := (b.memory (BitVec.ofNat 16 a)).toNat

/-- A circuit that has stopped does nothing any more. -/
theorem Board.halt_clocks {b : Board} (stops : b.State = 22) (k : Nat) :
    ∃ b', b.clocks k = some b' ∧ b'.State = 22 ∧ b'.toVisible = b.toVisible := by
  induction k generalizing b with
  | zero => exact ⟨b, rfl, stops, rfl⟩
  | succ k ih =>
    obtain ⟨b', onward, State, visible, -⟩ := Board.halt_onward stops 0
    rw [Board.onward, Option.bind_eq_some_iff] at onward
    obtain ⟨next, clock, last⟩ := onward
    have between : decide next.Between = true := by
      by_contra more
      rw [Bool.not_eq_true] at more
      rw [more] at last
      cases last
    rw [between] at last
    obtain rfl := Option.some.inj last
    obtain ⟨b'', clocks, State', visible'⟩ := ih State
    refine ⟨b'', ?_, State', visible'.trans visible⟩
    rw [Board.clocks, clock]
    exact clocks

/-- The end of a run. -/
theorem Keeps.ends {n : Nat} {b : Board} {v : View} (keeps : Keeps d n b v)
    (halted : (run (powered d).schedule loadedMachine n).HALTED = true) :
    b.State = 22 ∧ suspended (powered d).schedule loadedMachine n = [] ∧
      (∀ a < 2 ^ 16, b.MEM a = (run (powered d).schedule loadedMachine n).MEM a) ∧
        b.MEM (address .ANS) = 256 := by
  have steady := keeps.steady
  have shown := steady.shown
  have nested := steady.nested
  obtain ⟨returned, halt⟩ := nested.stopped halted
  have MEM : ∀ a < 2 ^ 16, b.MEM a = (run (powered d).schedule loadedMachine n).MEM a := by
    intro a lt
    have same := shown.shows.memory (BitVec.ofNat 16 a)
    unfold stopped at same
    rw [halted, BitVec.toNat_ofNat, Nat.mod_eq_of_lt lt] at same
    exact same.symm
  refine ⟨?_, returned, MEM, ?_⟩
  · rw [shown.State, halted]
    rfl
  · obtain ⟨w, k, steps, halt', answer, -⟩ := main_ends loadedMachine_started steady.main
    obtain rfl : v = w :=
      main_unique steady.main halt (View.Runs.trans steady.main ⟨k, steps⟩) halt'
    rw [returned] at nested
    rw [MEM _ (by rw [address_ANS]; decide)]
    exact nested.stack.sees _ _ answer

/-- From the first address. -/
theorem powered_runs (settled : d.Settled) : ∃ n t b, t < 2 ^ 24 ∧
    (powered d).clocks t = some b ∧ (powered d).turns (13 + n) = some b ∧
    (∀ k, ∃ b', (powered d).clocks (t + k) = some b' ∧ b'.State = 22 ∧
      b'.toVisible = b.toVisible) ∧
    b.MEM (address .ANS) = 256 ∧
    Updated opened (interrupts (powered d).schedule loadedMachine 0 13 n)
      (interrupts (powered d).schedule loadedMachine 1 13 n)
      (reads (powered d).schedule loadedMachine 13 n) (cells b.MEM) := by
  obtain ⟨_, v, first⟩ := opened_keeps settled
  obtain ⟨k, most, fit⟩ := fitsUntil_main first.steady.main
  obtain ⟨m, least, limit, halted⟩ := first.halts k fit
  obtain ⟨n, rfl⟩ := Nat.exists_eq_add_of_le least
  obtain ⟨b, w, keeps⟩ := run_keeps settled least
  obtain ⟨State, returned, MEM, answer⟩ := keeps.ends halted
  obtain ⟨t, le, clocks⟩ := Board.turns_clocks keeps.turns
  refine ⟨n, t, b, by omega, clocks, keeps.turns, ?_, answer, ?_⟩
  · intro k
    obtain ⟨b', onward, State', visible⟩ := Board.halt_clocks State k
    exact ⟨b', by rw [Board.clocks_add clocks, onward], State', visible⟩
  · have tracked := run_tracked loadedMachine_started (enabled_opened (powered d).schedule) n
      fun m two _ => run_careful settled two
    have kept := tracked.kept
    have nested := keeps.steady.nested
    rw [returned] at nested kept
    rw [List.map_singleton, idle_below nested keeps.steady.below, opening_run _ le_rfl,
      opened_checked.2] at kept
    have same : cells b.MEM = cells (run (powered d).schedule loadedMachine (13 + n)).MEM := by
      unfold cells
      rw [MEM 0xFFFF (by decide), MEM 0xFFFE (by decide), MEM 0xFFFD (by decide),
        MEM 0xFFFC (by decide)]
    rw [same]
    exact kept.updated (keeps.steady.words.memory 0xFFFF)

/-- The circuit with the program loaded and anything in `PC`. It is switched on with 0. -/
def switchedOn (PC : Word) (d : Devices) : Board := { powered d with PC := PC }

section

variable {PC : Word}

/-- A `PC` that puts 8 on the bus is as good as 8. -/
theorem switchedOn_fetched (first : (switchedOn PC d).pcInput = 8) :
    (switchedOn PC d).fetched = (powered d).fetched := by
  unfold Board.fetched
  rw [first, show (powered d).pcInput = 8 from rfl]
  rfl

theorem switchedOn_clocks (first : (switchedOn PC d).pcInput = 8) (n : Nat) :
    (switchedOn PC d).clocks (n + 3) = (powered d).clocks (n + 3) := by
  rw [Board.fetch_clocks rfl rfl, Board.fetch_clocks rfl rfl, switchedOn_fetched first]

theorem switchedOn_turns (first : (switchedOn PC d).pcInput = 8) (n : Nat) :
    (switchedOn PC d).turns (n + 1) = (powered d).turns (n + 1) := by
  induction n with
  | zero =>
    show (switchedOn PC d).onward (7 + 3) = (powered d).onward (7 + 3)
    rw [Board.fetch_onward (b := switchedOn PC d) rfl rfl,
      Board.fetch_onward (b := powered d) rfl rfl, switchedOn_fetched first]
  | succ n ih =>
    rw [Board.turns, ih]
    rfl

theorem switchedOn_schedule (first : (switchedOn PC d).pcInput = 8) :
    (switchedOn PC d).schedule = (powered d).schedule := by
  unfold Board.schedule
  congr 1
  · funext n
    cases n with
    | zero => rfl
    | succ n => rw [switchedOn_turns first]
  · funext n
    cases n with
    | zero => rfl
    | succ n => rw [switchedOn_turns first]

end

/-- Whatever its devices have counted, the circuit runs the program to its end within 2^24 cycles
and stays there. No tick and no distance is lost. -/
theorem prj2_runs {PC : Word} (settled : d.Settled) (first : (switchedOn PC d).pcInput = 8) :
    ∃ n t b, t < 2 ^ 24 ∧
    (switchedOn PC d).clocks t = some b ∧ (switchedOn PC d).turns (13 + n) = some b ∧
    (∀ k, ∃ b', (switchedOn PC d).clocks (t + k) = some b' ∧ b'.State = 22 ∧
      b'.toVisible = b.toVisible) ∧
    b.MEM (address .ANS) = 256 ∧
    Updated opened (interrupts (switchedOn PC d).schedule loadedMachine 0 13 n)
      (interrupts (switchedOn PC d).schedule loadedMachine 1 13 n)
      (reads (switchedOn PC d).schedule loadedMachine 13 n) (cells b.MEM) := by
  obtain ⟨n, t, b, less, clocks, turns, stays, answer, updated⟩ := powered_runs settled
  obtain ⟨last, there, stops, -⟩ := stays 0
  obtain ⟨t, rfl⟩ := Nat.exists_eq_add_of_le' (Board.fetch_goes rfl rfl there stops)
  refine ⟨n, t + 3, b, less, ?_, ?_, fun k => ?_, answer, ?_⟩
  · exact (switchedOn_clocks first t).trans clocks
  · rw [Nat.add_comm 13 n]
    exact (switchedOn_turns first (n + 12)).trans (Nat.add_comm 13 n ▸ turns)
  · obtain ⟨b', clocks', State, visible⟩ := stays k
    refine ⟨b', ?_, State, visible⟩
    rw [Nat.add_right_comm] at clocks' ⊢
    exact (switchedOn_clocks first (t + k)).trans clocks'
  · rw [switchedOn_schedule first]
    exact updated

/-- Both devices ask at once when `main` enables interrupts. -/
def bothFull : Devices where
  timer := { count := 2000, INT := true, DOUT := false }
  tracker := { count := 1500, INT := true, DOUT := false, index := 0 }

theorem prj2_runs_both : ∃ t b, t < 2 ^ 24 ∧ (switchedOn 0 bothFull).clocks t = some b ∧
    b.MEM (address .ANS) = 256 := by
  have settled : bothFull.Settled := by
    intro device
    match device with
    | 0 => exact ⟨rfl, fun _ => by decide⟩
    | 1 => exact ⟨rfl, fun _ => by decide⟩
  have start : (switchedOn 0 bothFull).pcInput = 8 := rfl
  obtain ⟨_, t, b, less, clocks, -, -, answer, -⟩ := prj2_runs settled start
  exact ⟨t, b, less, clocks, answer⟩

end

end SystemsProjects.Cpu
