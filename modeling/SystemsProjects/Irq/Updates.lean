import SystemsProjects.Irq.Handling
import SystemsProjects.Irq.Main

/-!
# Updates under nested interrupts

A handler that is interrupted between its look at a cell and its store may overwrite what another
one stored meanwhile. As long as no interrupt comes at such a moment, all updates are kept.
-/

namespace SystemsProjects.Irq

open Lc Register

/-! ## Words stay words -/

theorem wrap_lt (x : Int) : wrap x < 2 ^ 32 := by
  unfold wrap
  omega

section

variable {t : Processor} {cmd : Command} {value : Nat}

theorem Words.written (words : Words t) {v : Nat} (small : v < 2 ^ 32) (dr r : Fin 16) :
    Function.update (Function.update t.REGS dr v) 0 0 r < 2 ^ 32 := by
  by_cases first : r = 0
  · rw [first, Function.update_self]
    decide
  · rw [Function.update_of_ne first]
    by_cases here : r = dr
    · rw [here, Function.update_self]
      exact small
    · rw [Function.update_of_ne here]
      exact words.registers r

theorem Words.zeroed (words : Words t) (r : Fin 16) : Function.update t.REGS 0 0 r < 2 ^ 32 := by
  by_cases first : r = 0
  · rw [first, Function.update_self]
    decide
  · rw [Function.update_of_ne first]
    exact words.registers r

theorem Words.effect (words : Words t) (cmd : Command) (small : value < 2 ^ 32) :
    Words (cmd.effect value t) := by
  cases cmd with
  | input dr addr => exact ⟨words.written small dr, words.memory⟩
  | ei | di | reti => exact ⟨words.registers, words.memory⟩
  | ordinary i =>
    have silent : ∀ i : Instr, (∀ sr base offset, i ≠ .sw sr base offset) →
        ∀ a, ((Command.ordinary i).effect value t).MEM a < 2 ^ 32 := by
      intro i unstored a
      rw [show ((Command.ordinary i).effect value t).MEM =
        t.MEM from View.effect_MEM t.toMachine unstored]
      exact words.memory a
    cases i with
    | add dr | nand dr | min dr | max dr | addi dr | lea dr | inc dr =>
      exact ⟨words.written (wrap_lt _) dr, words.memory⟩
    | lw dr base offset =>
      refine ⟨fun r => ?_, words.memory⟩
      rw [Facts.lw_REGS]
      exact words.written (words.memory _) dr r
    | noop | halt => exact ⟨words.zeroed, words.memory⟩
    | sw sr base offset =>
      refine ⟨words.zeroed, fun a => ?_⟩
      show Function.update t.MEM (wrap (t.REGS base + offset)) (t.REGS sr) a < 2 ^ 32
      by_cases here : a = wrap (t.REGS base + offset)
      · rw [here, Function.update_self]
        exact words.registers sr
      · rw [Function.update_of_ne here]
        exact words.memory a
    | beq sr1 sr2 offset =>
      refine ⟨fun r => ?_, silent _ nofun⟩
      show Function.update (Instr.act _ t.toMachine).REGS 0 0 r < 2 ^ 32
      rw [Facts.beq_REGS]
      exact words.zeroed r
    | blt sr1 sr2 offset =>
      refine ⟨fun r => ?_, silent _ nofun⟩
      show Function.update (Instr.act _ t.toMachine).REGS 0 0 r < 2 ^ 32
      rw [Facts.blt_REGS]
      exact words.zeroed r
    | jalr target ra =>
      refine ⟨fun r => ?_, silent _ nofun⟩
      by_cases link : ra = 0
      · subst link
        exact words.zeroed r
      · show Function.update (if ra = 0 then t.toMachine else t.setReg ra _).REGS 0 0 r < 2 ^ 32
        rw [if_neg link]
        exact words.written (wrap_lt _) ra r

theorem Words.interrupt (words : Words t) (device : Fin 2) (low : t.PC < 2 ^ 32) :
    Words (t.interrupt device) := by
  refine ⟨fun r => ?_, words.memory⟩
  show Function.update t.REGS k0 t.PC r < _
  by_cases here : r = k0
  · rw [here, Function.update_self]
    exact low
  · rw [Function.update_of_ne here]
    exact words.registers r

end

/-! ## The history of a run -/

/-- The processor is about to read from a device, and no interrupt comes first. -/
def Processor.Reading (p : Processor) (request : Option (Fin 2)) : Prop :=
  p.HALTED = false ∧ p.taken request = none ∧ p.opcode = 14

instance (p : Processor) (request : Option (Fin 2)) : Decidable (p.Reading request) :=
  inferInstanceAs (Decidable (_ ∧ _))

section

variable (σ : Schedule) (p : Processor)

/-- The interrupts of a device that are taken within some steps. -/
def interrupts (device : Fin 2) (start : Nat) : Nat → Nat
  | 0 => 0
  | k + 1 => interrupts device start k + if taken σ p (start + k) = some device then 1 else 0

/-- The values that are read within some steps, the last one first. -/
def reads (start : Nat) : Nat → List Int
  | 0 => []
  | k + 1 =>
    if (run σ p (start + k)).Reading (σ.request (start + k)) then signed (σ.value (start + k)) ::
      reads start k
    else reads start k

/-- Interrupts are enabled for the first time. -/
def Enabled (start : Nat) : Prop := (run σ p start).IE = true ∧ ∀ n < start, (run σ p n).IE = false

/-- At this step nothing comes between the look of a handler at a cell and its store. -/
structure Careful (n : Nat) : Prop where
  /-- The stack does not reach down to the image. -/
  room : prj2.length ≤ (run σ p n).REGS sp
  timer : taken σ p n = some 0 → ∀ t ∈ run σ p n :: suspended σ p n, ¬t.phase.Timed
  read : (run σ p n).Reading (σ.request n) → ∀ t ∈ suspended σ p n,
    t.phase.Accepts (cells (run σ p n).MEM) (signed (σ.value n))

end

section

variable {p p' : Processor} {cmd : Command} {request : Option (Fin 2)} {value : Nat}

theorem Command.number_input (supported : cmd.Supported p) :
    cmd.number = 14 ↔ ∃ dr addr, cmd = .input dr addr := by
  cases cmd with
  | ordinary i =>
    cases named : i.op with
    | none =>
      cases i <;> cases named
      exact supported.elim
    | some op =>
      have low := Command.number_ordinary named
      constructor
      · intro same
        omega
      · rintro ⟨_, _, ⟨⟩⟩
  | input dr addr => exact ⟨fun _ => ⟨dr, addr, rfl⟩, fun _ => rfl⟩
  | ei | di | reti => exact ⟨nofun, fun ⟨_, _, same⟩ => nomatch same⟩

/-- The processor reads where the program says so. -/
theorem Loaded.reading_iff (loaded : Loaded p.MEM) (here : code p.PC = some cmd)
    (running : p.HALTED = false) (taken : p.taken request = none) (value : Nat) :
    p.Reading request ↔ (cmd.heard value).isSome = true := by
  obtain ⟨fetch, sound⟩ := loaded.fetch here
  have number : p.opcode = 14 ↔ ∃ dr addr, cmd = .input dr addr := by
    rw [Command.opcode_fetch fetch]
    exact Command.number_input (Command.sound_iff sound p).2
  unfold Processor.Reading
  rw [number]
  cases cmd with
  | input dr addr => exact iff_of_true ⟨running, taken, dr, addr, rfl⟩ rfl
  | ordinary | ei | di | reti =>
    exact iff_of_false (fun ⟨_, _, _, _, same⟩ => nomatch same) Bool.false_ne_true

theorem reading_taken {device : Fin 2} (taken : p.taken request = some device) :
    ¬p.Reading request := by
  rintro ⟨_, none, _⟩
  rw [taken] at none
  cases none

theorem taken_halted (stopped : p.HALTED = true) : p.taken request = none := by
  unfold Processor.taken
  simp [stopped]

theorem phase_low (low : p.PC < 77) : p.phase = .idle := by
  unfold Processor.phase stage
  rw [if_pos low]
  rfl

theorem Resumes.phase {c : Processor} (resumes : Resumes c p) : p.phase = c.phase := by
  unfold Processor.phase
  rw [resumes.PC, resumes.REGS s0 (by decide), resumes.REGS s1 (by decide),
    resumes.REGS s2 (by decide)]

theorem entry_phase (device : Fin 2) (vector : p.accessMem device = entry device) :
    (p.interrupt device).phase = if device = 0 then .timing else .arrived := by
  have PC : (p.interrupt device).PC = entry device := vector
  have timer : entry 0 = 77 := View.vector_prj2.1
  have distance : entry 1 = 103 := View.vector_prj2.2
  unfold Processor.phase
  rw [PC]
  match device with
  | 0 =>
    rw [timer]
    rfl
  | 1 =>
    rw [distance]
    rfl

theorem returning_phase (here : code p.PC = some .reti) : p.phase = .idle := by
  have places : ∀ a : Fin 175, code a = some .reti → stage a = .idle := by decide +kernel
  unfold Processor.phase
  rw [places ⟨p.PC, code_lt here⟩ here]
  rfl

variable {v v' : View} {waiting waiting' : List Processor} {start : Cells} {timers distances : Nat}
  {heard : List Int}

theorem Nested.view_PC (nested : Nested v [] p) : p.PC = v.PC := by
  cases nested.stack with
  | program sees => exact sees.PC

/-- A careful step keeps account of what happens in it. -/
theorem Kept.turn (nested : Nested v waiting p) (below : v.PC < 77)
    (nested' : Nested v' waiting' p') (below' : v'.PC < 77) (words : Words p)
    (low : 175 ≤ p.REGS sp) (on : waiting = [] → p.IE = true)
    (kept : Kept start timers distances heard (cells p.MEM) ((p :: waiting).map Processor.phase))
    (turn : Turn request value waiting p waiting' p') (timer : p.taken request = some 0 →
    ∀ t ∈ p :: waiting, ¬t.phase.Timed)
    (read : p.Reading request → ∀ t ∈ waiting, t.phase.Accepts (cells p.MEM) (signed value)) :
    Kept start (timers + if p.taken request = some 0 then 1 else 0)
      (distances + if p.taken request = some 1 then 1 else 0)
      (if p.Reading request then signed value :: heard else heard) (cells p'.MEM)
      ((p' :: waiting').map Processor.phase) := by
  cases turn with
  | halted stopped =>
    have none : p.taken request = none := taken_halted stopped
    have silent : ¬p.Reading request := fun ⟨running, _⟩ => by
      rw [stopped] at running
      cases running
    rw [if_neg (by rw [none]; nofun), if_neg (by rw [none]; nofun), if_neg silent]
    exact kept
  | interrupt device taken vector =>
    rw [if_neg (reading_taken taken), taken]
    show Kept _ _ _ _ (cells p.MEM) ((p.interrupt device).phase :: _)
    rw [entry_phase device vector]
    match device with
    | 0 =>
      apply kept.timer
      intro ph member
      obtain ⟨t, there, rfl⟩ := List.mem_map.mp member
      exact timer taken t there
    | 1 => exact kept.distance
  | program cmd running taken here more unread own =>
    have silent : ¬p.Reading request := by
      rw [nested.loaded.reading_iff here running taken value]
      cases cmd with
      | input dr addr => exact absurd rfl (unread dr addr)
      | _ => nofun
    rw [if_neg (by rw [taken]; nofun), if_neg (by rw [taken]; nofun), if_neg silent]
    have same : cells (cmd.effect value p).MEM = cells p.MEM := by
      have kept := (own (on rfl)).2
      unfold cells
      rw [kept 0xFFFF (by decide), kept 0xFFFE (by decide), kept 0xFFFD (by decide),
        kept 0xFFFC (by decide)]
    have first : p.phase = .idle := phase_low (nested.view_PC ▸ below)
    have second : (cmd.effect value p).phase = .idle := phase_low (nested'.view_PC ▸ below')
    rw [List.map_singleton, first] at kept
    rw [same, List.map_singleton, second]
    exact kept
  | @handler c rest _ cmd running taken here more =>
    have reading := nested.loaded.reading_iff here running taken value
    rw [if_neg (by rw [taken]; nofun), if_neg (by rw [taken]; nofun)]
    have advances : Advances (cmd.heard value) p (cmd.effect value p) := by
      have top := nested.sound.room.2
      cases nested.stack with
      | handler inner _ handles =>
        exact handles.advances nested.zero nested.loaded words low
          (Shape.sheltered_low (inner.high.trans top)) here more value
    rw [List.map_cons] at kept
    rw [List.map_cons]
    cases advances with
    | keeps phase same _ silent =>
      rw [if_neg (by rw [reading, silent]; nofun), phase, same]
      exact kept
    | moves move =>
      cases hears : cmd.heard value with
      | none =>
        rw [hears] at move
        rw [if_neg (by rw [reading, hears]; nofun)]
        exact kept.move move
      | some d =>
        have now : p.Reading request := by rw [reading, hears]; rfl
        have same : signed value = d := by
          cases cmd with
          | input => exact Option.some.inj hears
          | _ => cases hears
        subst same
        rw [hears] at move
        rw [if_pos now]
        apply kept.hear move
        intro lower member
        obtain ⟨t, there, rfl⟩ := List.mem_map.mp member
        exact read now t there
  | @returns c rest _ running taken here resumes =>
    have silent : ¬p.Reading request := by
      rw [nested.loaded.reading_iff here running taken value]
      nofun
    rw [if_neg (by rw [taken]; nofun), if_neg (by rw [taken]; nofun), if_neg silent]
    rw [List.map_cons, returning_phase here] at kept
    rw [List.map_cons, resumes.phase]
    exact kept.leave

theorem Nested.low (nested : Nested v waiting p) (below : v.PC < 77) : p.PC < 175 := by
  cases stack : nested.stack with
  | program sees =>
    rw [sees.PC]
    omega
  | handler _ _ handles =>
    obtain ⟨cmd, here⟩ := handles.command
    exact code_lt here

theorem Turn.words (turn : Turn request value waiting p waiting' p') (words : Words p)
    (low : p.PC < 175) (small : value < 2 ^ 32) : Words p' := by
  cases turn with
  | halted => exact words
  | interrupt device => exact words.interrupt device (by omega)
  | program cmd | handler cmd => exact words.effect cmd small
  | returns => exact words.effect .reti small

/-- The program runs with interrupts enabled once it has enabled them. -/
theorem Turn.on (turn : Turn request value waiting p waiting' p') (on : waiting = [] → p.IE = true)
    (done : waiting' = []) : p'.IE = true := by
  cases turn with
  | halted => exact on done
  | interrupt => cases done
  | program _ _ _ _ _ _ own => exact (own (on rfl)).1
  | handler => cases done
  | returns _ _ _ resumes => exact resumes.IE

end

/-! ## Whole runs -/

section

variable {σ : Schedule} {p : Processor}

/-- Whatever interrupts are taken, the processor is nested properly and its words are words. -/
theorem run_state (started : Started p) (n : Nat) (room : ∀ m, 2 ≤ m → m < n + 2 → prj2.length ≤
    (run σ p m).REGS sp) :
    (∃ v, Main p v ∧ Nested v (suspended σ p (n + 2)) (run σ p (n + 2))) ∧
    Words (run σ p (n + 2)) := by
  rw [length_prj2] at room
  refine ⟨run_nested (main_proceeds started) main_starts started n room, ?_⟩
  induction n with
  | zero =>
    rw [(run_booted started).2.1]
    refine ⟨fun r => ?_, started.memory⟩
    show Function.update p.REGS sp 0xA000 r < 2 ^ 32
    by_cases here : r = sp
    · rw [here, Function.update_self]
      decide
    · rw [Function.update_of_ne here]
      exact started.registers r
  | succ n ih =>
    have room' : ∀ m, 2 ≤ m → m < n + 2 → 175 ≤ (run σ p m).REGS sp :=
      fun m least less => room m least (by omega)
    obtain ⟨v, main, nested⟩ := run_nested (main_proceeds started) main_starts started n room'
    obtain ⟨_, _, turn, _⟩ := nested.turn (main_proceeds started) main
      (room (n + 2) (by omega) (by omega))
      (σ.request (n + 2)) (σ.value (n + 2))
    exact turn.words (ih room') (nested.low (main_low started main)) (σ.value_lt (n + 2))

/-- Before interrupts are enabled none is taken. -/
theorem Enabled.suspended {start : Nat} (enabled : Enabled σ p start) :
    suspended σ p start = [] := by
  have before : ∀ n ≤ start, Irq.suspended σ p n = [] := by
    intro n
    induction n with
    | zero => exact fun _ => rfl
    | succ n ih =>
      intro le
      have off := enabled.2 n le
      have none : (run σ p n).taken (σ.request n) = none := by
        unfold Processor.taken
        simp [off]
      show (run σ p n).waiting _ (Irq.suspended σ p n) = []
      unfold Processor.waiting
      rw [ih (by omega), none]
      simp
  exact before start le_rfl

theorem Enabled.least (started : Started p) {start : Nat} (enabled : Enabled σ p start) :
    2 ≤ start := by
  by_contra small
  have on := enabled.1
  obtain rfl | rfl : start = 0 ∨ start = 1 := by omega
  · rw [show run σ p 0 = p from rfl, started.disabled] at on
    cases on
  · rw [(run_booted started).1] at on
    cases on

/-- A run after some steps: its updates are accounted for. -/
structure Tracked (σ : Schedule) (p : Processor) (start k : Nat) : Prop where
  on : suspended σ p (start + k) = [] → (run σ p (start + k)).IE = true
  kept : Kept (cells (run σ p start).MEM) (interrupts σ p 0 start k) (interrupts σ p 1 start k)
    (reads σ p start k) (cells (run σ p (start + k)).MEM)
    ((run σ p (start + k) :: suspended σ p (start + k)).map Processor.phase)

theorem run_tracked (started : Started p) {start : Nat} (enabled : Enabled σ p start) (k : Nat)
    (careful : ∀ n, 2 ≤ n → n < start + k → Careful σ p n) : Tracked σ p start k := by
  have least := enabled.least started
  have state : ∀ n, 2 ≤ n → n ≤ start + k →
      (∃ v, Main p v ∧ Nested v (suspended σ p n) (run σ p n)) ∧ Words (run σ p n) := by
    intro n two most
    have room : ∀ m, 2 ≤ m → m < n - 2 + 2 → prj2.length ≤ (run σ p m).REGS sp :=
      fun m two' less => (careful m two' (by omega)).room
    have reached := run_state started (n - 2) room
    rw [show n - 2 + 2 = n by omega] at reached
    exact reached
  induction k with
  | zero =>
    obtain ⟨⟨v, main, nested⟩, _⟩ := state start least le_rfl
    refine ⟨fun _ => enabled.1, ?_⟩
    rw [Nat.add_zero, enabled.suspended] at *
    have low : (run σ p start).PC < 77 := by
      rw [nested.view_PC]
      exact main_low started main
    rw [List.map_singleton, phase_low low]
    exact Kept.initial _
  | succ k ih =>
    have tracked := ih (fun n two less => careful n two (by omega))
      (fun n two le => state n two (by omega))
    obtain ⟨⟨v, main, nested⟩, words⟩ := state (start + k) (by omega) (by omega)
    have care := careful (start + k) (by omega) (by omega)
    have low : 175 ≤ (run σ p (start + k)).REGS sp := by
      rw [← length_prj2]
      exact care.room
    obtain ⟨v', main', turn, nested'⟩ := nested.turn (main_proceeds started) main low
      (σ.request (start + k)) (σ.value (start + k))
    refine ⟨turn.on tracked.on, ?_⟩
    exact tracked.kept.turn nested (main_low started main) nested' (main_low started main') words
      low tracked.on turn
      care.timer care.read

/-- In a careful run no update is lost once all handlers have returned. -/
theorem updates_kept (started : Started p) {start : Nat} (enabled : Enabled σ p start) (k : Nat)
    (careful : ∀ n, 2 ≤ n → n < start + k → Careful σ p n)
    (returned : suspended σ p (start + k) = []) :
    Updated (cells (run σ p start).MEM) (interrupts σ p 0 start k) (interrupts σ p 1 start k)
      (reads σ p start k)
      (cells (run σ p (start + k)).MEM) := by
  have least := enabled.least started
  have room : ∀ m, 2 ≤ m → m < start + k - 2 + 2 → prj2.length ≤ (run σ p m).REGS sp :=
    fun m two less => (careful m two (by omega)).room
  obtain ⟨⟨v, main, nested⟩, words⟩ := run_state started (start + k - 2) room
  rw [show start + k - 2 + 2 = start + k by omega] at nested words
  have kept := (run_tracked started enabled k careful).kept
  rw [returned] at nested kept
  have low : (run σ p (start + k)).PC < 77 := by
    rw [nested.view_PC]
    exact main_low started main
  rw [List.map_singleton, phase_low low] at kept
  exact kept.updated (words.memory 0xFFFF)

end

/-! ## Runs of the loaded program -/

/-- A machine with `prj2.s` in its memory and zeros everywhere else. -/
def loadedMachine : Processor where
  PC := address .main
  MEM a := (prj2[a]?).elim 0 Content.word
  REGS _ := 0
  HALTED := false
  IE := false

theorem loadedMachine_started : Started loadedMachine := by
  have words : prj2.all (fun content => decide (content.word < 2 ^ 32)) = true := by decide +kernel
  refine ⟨?_, ?_, fun _ => Nat.two_pow_pos 32, rfl, rfl, rfl, rfl⟩
  · intro a content here
    show (prj2[a]?).elim 0 Content.word = content.word
    rw [here, Option.elim_some]
  · intro a
    show (prj2[a]?).elim 0 Content.word < 2 ^ 32
    cases here : prj2[a]? with
    | none => exact Nat.two_pow_pos 32
    | some content =>
      exact of_decide_eq_true (List.all_eq_true.mp words content (List.mem_of_getElem? here))

/-- A check of each state of a run. -/
def watch (σ : Schedule) (check : Nat → Processor → List Processor → Bool) (n : Nat) (p : Processor)
    (waiting : List Processor) : Nat → Bool
  | 0 => true
  | k + 1 => check n p waiting &&
    watch σ check (n + 1) (p.next (σ.request n) (σ.value n)) (p.waiting (σ.request n) waiting) k

theorem watch_run {σ : Schedule} {p : Processor} {check : Nat → Processor → List Processor → Bool}
    {n k : Nat} (watched : watch σ check n (run σ p n) (suspended σ p n) k = true) (m : Nat)
    (least : n ≤ m) (less : m < n + k) :
    check m (run σ p m) (suspended σ p m) = true := by
  induction k generalizing n with
  | zero => omega
  | succ k ih =>
    obtain ⟨here, later⟩ := Bool.and_eq_true_iff.mp watched
    obtain rfl | more := Nat.eq_or_lt_of_le least
    · exact here
    · exact ih later more (by omega)

/-- The second interrupt of the timer comes when the first handler has loaded the ticks. -/
def twoTimers : Schedule where
  request n := if n = 13 ∨ n = 27 then some 0 else none
  value _ := 0
  value_lt _ := Nat.two_pow_pos 32

/-- Of two ticks one is lost. -/
theorem tick_lost : ¬∀ (σ : Schedule) (p : Processor), Started p → σ.Finite →
    ∀ start, Enabled σ p start →
    ∀ k, (∀ n, 2 ≤ n → n < start + k → prj2.length ≤ (run σ p n).REGS sp) →
    suspended σ p (start + k) = [] →
    Updated (cells (run σ p start).MEM) (interrupts σ p 0 start k) (interrupts σ p 1 start k)
    (reads σ p start k)
      (cells (run σ p (start + k)).MEM) := by
  intro law
  have finite : twoTimers.Finite := ⟨28, fun n late => if_neg (by omega)⟩
  have off : watch twoTimers (fun _ p _ => !p.IE) 0 loadedMachine [] 13 = true := by decide +kernel
  have enabled : Enabled twoTimers loadedMachine 13 := by
    refine ⟨by decide +kernel, fun n less => ?_⟩
    have here := watch_run (σ := twoTimers) (p := loadedMachine) (n := 0) off n (Nat.zero_le n)
      (by omega)
    exact Bool.not_eq_true' _ |>.mp here
  have deep : watch twoTimers (fun _ p _ => decide (prj2.length ≤ p.REGS sp)) 2
    (run twoTimers loadedMachine 2)
      (suspended twoTimers loadedMachine 2) 65 = true := by decide +kernel
  have returned : suspended twoTimers loadedMachine (13 + 54) = [] :=
    List.isEmpty_iff.mp (by decide +kernel)
  have updated := law twoTimers loadedMachine loadedMachine_started finite 13 enabled 54
    (fun n two less => of_decide_eq_true (watch_run deep n two (by omega))) returned
  exact absurd updated.ticks (by decide +kernel)

/-- The distance tracker interrupts a handler of the timer that has not loaded the ticks yet. -/
def distanceInTimer : Schedule where
  request n := if n = 13 then some 0 else if n = 20 then some 1 else none
  value _ := 5
  value_lt _ := by decide

theorem updates_kept_nested : Updated (cells (run distanceInTimer loadedMachine 13).MEM) 1 1 [5]
    (cells (run distanceInTimer loadedMachine (13 + 110)).MEM) := by
  have off : watch distanceInTimer (fun _ p _ => !p.IE) 0 loadedMachine [] 13 = true := by
    decide +kernel
  have enabled : Enabled distanceInTimer loadedMachine 13 := by
    refine ⟨by decide +kernel, fun n less => ?_⟩
    have here := watch_run (σ := distanceInTimer) (p := loadedMachine) (n := 0) off n
      (Nat.zero_le n) (by omega)
    exact Bool.not_eq_true' _ |>.mp here
  have watched : watch distanceInTimer (fun n p waiting => decide (prj2.length ≤ p.REGS sp) &&
      decide (p.taken (distanceInTimer.request n) = some 0 → ∀ t ∈ p :: waiting, ¬t.phase.Timed) &&
      decide (p.Reading (distanceInTimer.request n) → ∀ t ∈ waiting,
        t.phase.Accepts (cells p.MEM) (signed (distanceInTimer.value n))))
      2 (run distanceInTimer loadedMachine 2) (suspended distanceInTimer loadedMachine 2) 121 =
        true := by
    decide +kernel
  have returned : suspended distanceInTimer loadedMachine (13 + 110) = [] :=
    List.isEmpty_iff.mp (by decide +kernel)
  have updated := updates_kept loadedMachine_started enabled 110 (fun n two less => by
    have here := watch_run watched n two (by omega)
    simp only [Bool.and_eq_true, decide_eq_true_eq] at here
    exact ⟨here.1.1, here.1.2, here.2⟩) returned
  have timers : interrupts distanceInTimer loadedMachine 0 13 110 = 1 := by decide +kernel
  have distances : interrupts distanceInTimer loadedMachine 1 13 110 = 1 := by decide +kernel
  have values : reads distanceInTimer loadedMachine 13 110 = [5] := by decide +kernel
  rw [timers, distances, values] at updated
  exact updated

end SystemsProjects.Irq
