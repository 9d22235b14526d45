import SystemsProjects.Lc.Files

/-!
# The text interface of the simulator

At the prompt the machine is run, stepped and stopped at breakpoints, which are given as
numbers or as labels of the `.sym` file. A session brings the machine nowhere that `--auto`
does not.
-/

namespace SystemsProjects.Lc

open Digits Regex Pattern Tables

/-! ## The listing of an instruction -/

def opText : Op → Text
  | .ADD => "ADD".toList
  | .NAND => "NAND".toList
  | .ADDI => "ADDI".toList
  | .LW => "LW".toList
  | .SW => "SW".toList
  | .BEQ => "BEQ".toList
  | .JALR => "JALR".toList
  | .HALT => "HALT".toList
  | .BLT => "BLT".toList
  | .LEA => "LEA".toList
  | .MINMAX => "MINMAX".toList

/-- `REG_NAME`, from the four digits of a field. -/
def regName (field : List Bool) : Text :=
  ((registers.find? fun entry => entry.2 = regno field).map Prod.fst).getD []

/-- The digits of `v` behind its sign, and zeros up to the width. -/
def formatHex (width : Nat) (v : Int) : Text :=
  let sign := if v < 0 then ['-'] else []
  let digits := Nat.toDigits 16 v.natAbs
  sign ++ List.replicate (width - sign.length - digits.length) '0' ++ digits

def formatHEX (width : Nat) (v : Int) : Text := (formatHex width v).map Char.toUpper

/-- `"{} {}, {}, {}"` -/
def listing3 (name a b c : Text) : Text :=
  name ++ ' ' :: a ++ ", ".toList ++ b ++ ", ".toList ++ c

/-- `"{0} {1}, #{3}({2})"` -/
def listingMem (name a b c : Text) : Text :=
  name ++ ' ' :: a ++ ", #".toList ++ c ++ '(' :: b ++ [')']

def decimalText (v : Int) : Text := (toString v).toList

/-- `OP_NAME` has no entry for the opcode of `inc`. -/
def printInstruction (s : Machine) : Except (List Bool) Text :=
  let ireg := format32 (s.accessMem s.PC)
  let op := bitRange ireg 31 28
  let a := regName (bitRange ireg 27 24)
  let b := regName (bitRange ireg 23 20)
  let c := regName (bitRange ireg 3 0)
  let low := bitRange ireg 19 0
  if ireg = List.replicate 32 false then .ok "noop".toList
  else match opName op with
    | some .ADD => .ok (listing3 (opText .ADD) a b c)
    | some .NAND => .ok (listing3 (opText .NAND) a b c)
    | some .ADDI => .ok (listing3 (opText .ADDI) a b ('#' :: decimalText (int2c low)))
    | some .LW => .ok (listingMem (opText .LW) a b (decimalText (int2c low)))
    | some .SW => .ok (listingMem (opText .SW) a b (decimalText (int2c low)))
    | some .BEQ => .ok (listing3 (opText .BEQ) a b ("0x".toList ++ formatHEX 6 (uint low)))
    | some .JALR => .ok (opText .JALR ++ ' ' :: a ++ ", ".toList ++ b)
    | some .HALT => .ok (opText .HALT)
    | some .BLT => .ok (listing3 (opText .BLT) a b ("0x".toList ++ formatHex 6 (int2c low)))
    | some .LEA => .ok (opText .LEA ++ ' ' :: a ++ ", 0x".toList ++ formatHEX 5 (int2c low))
    | some .MINMAX => .ok (listing3 (if bit ireg 4 then "MAX".toList else "MIN".toList) a b c)
    | none =>
      if op = [true, true, true, true] then .error op else .ok "Unrecognized instruction".toList

/-! ## Numbers with a prefix -/

/-- A number for `int(text, 0)`, behind the sign. A number that begins with 0 and has no prefix
is 0. -/
def natural0 (u : Unicode) (text : Text) : Option Nat :=
  match text with
  | zero :: letter :: rest =>
    if u.decimal zero = some 0 then
      if letter = 'x' ∨ letter = 'X' then natural u.hexDigit 16 (unmarked rest)
      else if letter = 'o' ∨ letter = 'O' then
        natural (fun c => (u.decimal c).filter (· < 8)) 8 (unmarked rest)
      else if letter = 'b' ∨ letter = 'B' then natural u.bit 2 (unmarked rest)
      else (natural10 u text).filter (· = 0)
    else natural10 u text
  | _ => natural10 u text

/-- `int(text, 0)` -/
def int0 (u : Unicode) (text : Text) : Option Int :=
  match stripped u.isPadding text with
  | '+' :: rest => (natural0 u rest).map fun v : Nat => (v : Int)
  | '-' :: rest => (natural0 u rest).map fun v : Nat => -(v : Int)
  | rest => (natural0 u rest).map fun v : Nat => (v : Int)

/-! ## The prompt -/

/-- An entry of `BREAKPOINTS`: what is neither a number nor a label stays a text. -/
inductive Breakpoint
  | address (addr : Int)
  | text (bp : Text)
deriving DecidableEq

/-- The globals of the simulator besides the machine. -/
structure Debugger where
  machine : Machine
  LABELS : List (Nat × Text)
  BREAKPOINTS : List Breakpoint
  LAST_CMD : Text
  QUIT : Bool

/-- Whether the program counter is in `BREAKPOINTS`. -/
def Machine.atBreakpoint (s : Machine) (breakpoints : List Breakpoint) : Bool :=
  decide (Breakpoint.address s.PC ∈ breakpoints)

/-- The loop of `run`, if it ends within so many rounds. -/
def runLoop (breakpoints : List Breakpoint) : Nat → Machine → Option (Except (List Bool) Machine)
  | 0, s => if s.HALTED then some (.ok s) else none
  | k + 1, s =>
    if s.HALTED then some (.ok s)
    else match s.stepInstruction with
      | .error op => some (.error op)
      | .ok t => if t.atBreakpoint breakpoints then some (.ok t) else runLoop breakpoints k t

/-- After `k` rounds the run from `s` first fails, halts, or is at a state in `stop` that is not
its start. -/
structure Machine.FirstStop (s : Machine) (stop : Machine → Prop) (k : Nat)
    (result : Except (List Bool) Machine) : Prop where
  there : s.run k = result
  stops : ∀ t, result = .ok t → t.HALTED = true ∨ (0 < k ∧ stop t)
  earlier : ∀ j < k, ∃ m, s.run j = .ok m ∧ m.HALTED = false ∧ (0 < j → ¬ stop m)

namespace Debugger

/-- What `add_breakpoint` makes of its text. -/
def breakpoint (u : Unicode) (s : Debugger) (bp : Text) : Breakpoint :=
  match int0 u bp with
  | some addr => .address addr
  | none => match s.LABELS.find? fun entry => entry.2 = bp with
    | some entry => .address entry.1
    | none => .text bp

def addBreakpoint (u : Unicode) (s : Debugger) (bp : Text) : Debugger :=
  if s.breakpoint u bp ∈ s.BREAKPOINTS then s
  else { s with BREAKPOINTS := s.BREAKPOINTS ++ [s.breakpoint u bp] }

/-- The machine after a command that runs it. -/
def resume (s : Debugger) (result : Except (List Bool) Machine) : Except (List Bool) Debugger :=
  result.map fun machine => { s with machine }

end Debugger

def keyword : Text → Pattern Unit
  | [] => pure ()
  | c :: rest => do
    let _ ← char c
    keyword rest

/-- `(break|b)\s*(.+)?` -/
def reBreak (u : Unicode) : Pattern (Option Text) := do
  let _ ← either (keyword "break".toList) (keyword "b".toList)
  let _ ← spaces u
  optional (many1 fun c => c != '\n')

/-- The branches of `prompt_input`. What is only printed is left out. -/
def obey (u : Unicode) (fuel : Nat) (s : Debugger) (command : Text) :
    Option (Except (List Bool) Debugger) :=
  if command = "help".toList then some (.ok s)
  else if command = "run".toList ∨ command = "r".toList then
    (runLoop s.BREAKPOINTS fuel s.machine).map s.resume
  else if command = "step".toList ∨ command = "s".toList then
    some (s.resume s.machine.stepInstruction)
  else if command = "continue".toList ∨ command = "c".toList then
    (runLoop s.BREAKPOINTS fuel s.machine).map s.resume
  else if command = "quit".toList ∨ command = "q".toList then some (.ok { s with QUIT := true })
  else match first (reBreak u) command with
    | some (some bp) => some (.ok (s.addBreakpoint u bp))
    | _ => some (.ok s)

/-- One line at the prompt, if it ends within so many rounds. An empty line is the last command
again. -/
def promptInput (u : Unicode) (fuel : Nat) (s : Debugger) (input : Text) :
    Option (Except (List Bool) Debugger) :=
  if input = [] then obey u fuel s s.LAST_CMD
  else obey u fuel { s with LAST_CMD := input } input

/-- `run_sim`, for the lines that are typed; each `run` ends within so many rounds. -/
def runSim (u : Unicode) (fuel : Nat) : List Text → Debugger → Option (Except (List Bool) Debugger)
  | [], s => some (.ok s)
  | input :: inputs, s =>
    if s.QUIT then some (.ok s)
    else match printInstruction s.machine with
      | .error op => some (.error op)
      | .ok _ => match promptInput u fuel s input with
        | some (.ok t) => runSim u fuel inputs t
        | stopped => stopped

/-! ## Halting -/

namespace Machine

section

variable {s t m start : Machine} {op : List Bool} {k : Nat}

theorem run_succ (s : Machine) (k : Nat) :
    s.run (k + 1) = (s.run k).bind fun t => if t.HALTED then .ok t else t.stepInstruction := by
  induction k generalizing s with
  | zero =>
    rw [run, run]
    split
    · next halted => simp [Except.bind, halted]
    · next running => cases step : s.stepInstruction <;> simp [Except.bind, running, run, step]
  | succ k ih =>
    rw [run, run.eq_2 s k]
    split
    · next halted => simp [Except.bind, halted]
    · cases s.stepInstruction with
      | error op => rfl
      | ok t => exact ih t

/-- Only `halt` sets the flag. -/
theorem execute_HALTED (ireg : List Bool) {op : Op} (other : op ≠ .HALT) :
    (s.execute ireg op).HALTED = s.HALTED := by
  cases op with
  | HALT => exact absurd rfl other
  | BEQ | BLT =>
    simp only [execute]
    split <;> rfl
  | _ => rfl

/-- After `halt` the program counter is at the `halt` again. -/
theorem step_halted (running : s.HALTED = false) (step : s.stepInstruction = .ok t)
    (halted : t.HALTED = true) : t.stepInstruction = .ok t := by
  unfold stepInstruction at step
  dsimp only at step
  split at step
  · cases step
  · next op named =>
    obtain rfl := Except.ok.inj step
    by_cases halt : op = .HALT
    · subst halt
      have fetched : (((s.setPC (s.PC + 1)).execute (format32 (s.accessMem s.PC)) .HALT).setReg 0 0
          ).accessMem s.PC = s.accessMem s.PC := rfl
      have there : (((s.setPC (s.PC + 1)).execute (format32 (s.accessMem s.PC)) .HALT).setReg 0 0
          ).PC = s.PC := rfl
      unfold stepInstruction
      dsimp only
      rw [there, fetched, named]
      have twice : Function.update (Function.update s.REGS 0 0) 0 0 = Function.update s.REGS 0 0 :=
        Function.update_idem ..
      exact congrArg (fun regs => Except.ok (⟨s.PC, s.MEM, regs, true⟩ : Machine)) twice
    · rw [setReg_HALTED, execute_HALTED _ halt] at halted
      exact absurd (running.symm.trans halted) Bool.false_ne_true

/-- Where `--auto` comes from `start`. -/
structure Reached (start m : Machine) : Prop where
  rounds : ∃ k, start.run k = .ok m
  halt : m.HALTED = true → m.stepInstruction = .ok m

theorem Reached.step (reached : Reached start m) : ∃ k, start.run k = m.stepInstruction := by
  obtain ⟨k, rounds⟩ := reached.rounds
  cases halted : m.HALTED with
  | true => exact ⟨k, rounds.trans (reached.halt halted).symm⟩
  | false =>
    refine ⟨k + 1, ?_⟩
    rw [run_succ, rounds]
    simp [Except.bind, halted]

theorem Reached.next (reached : Reached start m) (step : m.stepInstruction = .ok t) :
    Reached start t := by
  obtain ⟨k, rounds⟩ := reached.step
  refine ⟨⟨k, rounds.trans step⟩, fun halted => ?_⟩
  cases before : m.HALTED with
  | true =>
    have stays := reached.halt before
    rw [Except.ok.inj (step.symm.trans stays)]
    exact stays
  | false => exact step_halted before step halted

/-- The loop ends where `--auto` comes. -/
theorem Reached.loop {breakpoints : List Breakpoint} {fuel : Nat}
    {result : Except (List Bool) Machine} (reached : Reached start m)
    (ends : runLoop breakpoints fuel m = some result) :
    (∃ k, start.run k = result) ∧ ∀ t, result = .ok t → Reached start t := by
  induction fuel generalizing m with
  | zero =>
    unfold runLoop at ends
    split at ends
    · cases ends
      exact ⟨reached.rounds, fun t same => Except.ok.inj same ▸ reached⟩
    · cases ends
  | succ fuel ih =>
    unfold runLoop at ends
    split at ends
    · cases ends
      exact ⟨reached.rounds, fun t same => Except.ok.inj same ▸ reached⟩
    · split at ends
      · next op failed =>
        cases ends
        exact ⟨failed ▸ reached.step, nofun⟩
      · next t step =>
        split at ends
        · cases ends
          exact ⟨step ▸ reached.step, fun t' same => Except.ok.inj same ▸ reached.next step⟩
        · exact ih (reached.next step) ends

theorem run_running (running : s.HALTED = false) (step : s.stepInstruction = .ok t) :
    s.run (k + 1) = t.run k := by
  rw [run, running, step]
  rfl

section

variable {stop : Machine → Prop} {breakpoints : List Breakpoint}
  {result : Except (List Bool) Machine}

theorem FirstStop.halted (halted : s.HALTED = true) : s.FirstStop stop 0 (.ok s) where
  there := rfl
  stops _ same := Or.inl (Except.ok.inj same ▸ halted)
  earlier := nofun

/-- The first round fails, or comes to a stop. -/
theorem FirstStop.one (running : s.HALTED = false) (step : s.stepInstruction = result)
    (stops : ∀ t, result = .ok t → stop t) : s.FirstStop stop 1 result where
  there := by
    rw [run, running, step]
    cases result <;> rfl
  stops t same := Or.inr ⟨Nat.one_pos, stops t same⟩
  earlier j before := by
    obtain rfl : j = 0 := by omega
    exact ⟨s, rfl, running, fun none => absurd none (lt_irrefl 0)⟩

/-- The first round does not come to a stop. -/
theorem FirstStop.succ (running : s.HALTED = false) (step : s.stepInstruction = .ok t)
    (on : ¬ stop t) (later : t.FirstStop stop k result) : s.FirstStop stop (k + 1) result where
  there := (run_running running step).trans later.there
  stops m same := (later.stops m same).imp_right fun stops => ⟨k.succ_pos, stops.2⟩
  earlier j before := by
    cases j with
    | zero => exact ⟨s, rfl, running, fun none => absurd none (lt_irrefl 0)⟩
    | succ j =>
      obtain ⟨m, there, going, off⟩ := later.earlier j (by omega)
      refine ⟨m, (run_running running step).trans there, going, fun _ => ?_⟩
      cases j with
      | zero => exact Except.ok.inj there ▸ on
      | succ j => exact off j.succ_pos

/-- What the first round says of a run that has not ended. -/
theorem FirstStop.round (first : s.FirstStop stop (k + 1) result) : s.HALTED = false ∧
    ((∃ op, s.stepInstruction = .error op ∧ result = .error op) ∨
      ∃ t, s.stepInstruction = .ok t ∧
        ((stop t ∧ result = .ok t) ∨ (¬ stop t ∧ t.FirstStop stop k result))) := by
  obtain ⟨m, start, running, -⟩ := first.earlier 0 k.succ_pos
  obtain rfl := Except.ok.inj start
  refine ⟨running, ?_⟩
  cases step : s.stepInstruction with
  | error op =>
    refine Or.inl ⟨op, rfl, first.there.symm.trans ?_⟩
    rw [run, running, step]
    rfl
  | ok t =>
    refine Or.inr ⟨t, rfl, ?_⟩
    have there := (run_running running step).symm.trans first.there
    by_cases stops : stop t
    · -- no later round comes before this one
      obtain rfl : k = 0 := by
        by_contra more
        obtain ⟨m, at', -, off⟩ := first.earlier 1 (by omega)
        rw [run_running running step] at at'
        exact off Nat.one_pos (Except.ok.inj at' ▸ stops)
      exact Or.inl ⟨stops, there.symm⟩
    · refine Or.inr ⟨stops, there, fun m same => ?_, fun j before => ?_⟩
      · refine (first.stops m same).imp_right fun stop => ⟨?_, stop.2⟩
        by_contra none
        obtain rfl : k = 0 := by omega
        exact stops (Except.ok.inj (there.trans same) ▸ stop.2)
      · obtain ⟨m, at', going, off⟩ := first.earlier (j + 1) (by omega)
        exact ⟨m, (run_running running step).symm.trans at', going, fun _ => off j.succ_pos⟩

end

end

end Machine

/-! ## Sessions -/

section

variable {u : Unicode} {fuel : Nat} {s t : Debugger} {start : Machine} {input : Text}
  {inputs : List Text} {result : Except (List Bool) Debugger}

/-- What the listing has no name for the machine does not run. -/
theorem stepInstruction_unlisted {m : Machine} {op : List Bool}
    (unlisted : printInstruction m = .error op) : m.stepInstruction = .error op := by
  unfold printInstruction at unlisted
  dsimp only at unlisted
  split at unlisted
  · cases unlisted
  · split at unlisted
    all_goals try cases unlisted
    next unnamed =>
      split at unlisted
      · cases unlisted
        simp only [Machine.stepInstruction, unnamed]
      · cases unlisted

/-- Whether a session is where `--auto` comes from `start`. -/
def Follows (start : Machine) (result : Except (List Bool) Debugger) : Prop :=
  (∃ k, start.run k = result.map Debugger.machine) ∧ ∀ t, result = .ok t → start.Reached t.machine

theorem Follows.same (reached : start.Reached s.machine) (same : t.machine = s.machine) :
    Follows start (.ok t) := by
  refine ⟨?_, fun t' here => ?_⟩
  · obtain ⟨k, rounds⟩ := reached.rounds
    exact ⟨k, rounds.trans (congrArg Except.ok same.symm)⟩
  · rw [← Except.ok.inj here, same]
    exact reached

theorem Follows.resume {machine : Except (List Bool) Machine} (rounds : ∃ k, start.run k = machine)
    (reached : ∀ m, machine = .ok m → start.Reached m) : Follows start (s.resume machine) := by
  cases machine with
  | error op => exact ⟨rounds, nofun⟩
  | ok m =>
    refine ⟨rounds, fun t here => ?_⟩
    cases here
    exact reached m rfl

theorem breakpoint_machine (bp : Text) : (s.addBreakpoint u bp).machine = s.machine := by
  unfold Debugger.addBreakpoint
  split <;> rfl

theorem Follows.obey {command : Text} (reached : start.Reached s.machine)
    (ends : obey u fuel s command = some result) : Follows start result := by
  have resumes : (runLoop s.BREAKPOINTS fuel s.machine).map s.resume = some result →
      Follows start result := by
    intro ends
    obtain ⟨machine, loop, rfl⟩ := Option.map_eq_some_iff.mp ends
    obtain ⟨rounds, later⟩ := reached.loop loop
    exact Follows.resume rounds later
  unfold Lc.obey at ends
  split at ends
  · cases ends
    exact Follows.same reached rfl
  · split at ends
    · exact resumes ends
    · split at ends
      · cases ends
        exact Follows.resume reached.step fun m step => reached.next step
      · split at ends
        · exact resumes ends
        · split at ends
          · cases ends
            exact Follows.same reached rfl
          · split at ends
            · cases ends
              exact Follows.same reached (breakpoint_machine _)
            · cases ends
              exact Follows.same reached rfl

/-- One line at the prompt. -/
theorem Follows.prompt (reached : start.Reached s.machine)
    (ends : promptInput u fuel s input = some result) : Follows start result := by
  unfold promptInput at ends
  split at ends
  · exact Follows.obey reached ends
  · exact Follows.obey (s := { s with LAST_CMD := input }) reached ends

theorem Follows.session (reached : start.Reached s.machine)
    (ends : runSim u fuel inputs s = some result) : Follows start result := by
  induction inputs generalizing s with
  | nil =>
    cases ends
    exact Follows.same reached rfl
  | cons input inputs ih =>
    unfold runSim at ends
    split at ends
    · cases ends
      exact Follows.same reached rfl
    · split at ends
      · next op unlisted =>
        cases ends
        obtain ⟨k, rounds⟩ := reached.step
        exact ⟨⟨k, rounds.trans (stepInstruction_unlisted unlisted)⟩, nofun⟩
      · split at ends
        · next t prompted => exact ih ((Follows.prompt reached prompted).2 t rfl) ends
        · exact Follows.prompt reached ends

/-- Whatever is typed, the machine is where `--auto` comes after some rounds of its loop, and
the session fails only where `--auto` does. -/
theorem session_is_run (running : s.machine.HALTED = false)
    (ends : runSim u fuel inputs s = some result) :
    ∃ k, s.machine.run k = result.map Debugger.machine := by
  have reached : s.machine.Reached s.machine := by
    refine ⟨⟨0, rfl⟩, fun halted => ?_⟩
    cases running.symm.trans halted
  exact (Follows.session reached ends).1

end

/-! ## Breakpoints at labels -/

section

variable {u : Unicode} {fuel : Nat} {s t : Debugger} {symbols : SymbolTable} {label : Text}
  {address : Nat}

end

/-- The words of `loopSource`, loaded with its labels. -/
def loopDebugger : Debugger where
  machine := loadProgram [digits 32 0x9D000001, digits 32 0x500FFFFE, digits 32 0x70000000]
  LABELS := byAddress [("main".toList, 0), ("end".toList, 2)]
  BREAKPOINTS := []
  LAST_CMD := "help".toList
  QUIT := false

theorem loop_session : ∃ t, runSim ascii 4 ["break ".toList ++ "main".toList, "run".toList]
    loopDebugger = some (.ok t) ∧ t.machine.HALTED = false := by
  have ends : (runSim ascii 4 ["break ".toList ++ "main".toList, "run".toList] loopDebugger).map
      (fun result => result.toOption.map fun t => t.machine.HALTED) = some (some false) := rfl
  obtain ⟨result, ends, going⟩ := Option.map_eq_some_iff.mp ends
  obtain ⟨t, same, going⟩ := Option.map_eq_some_iff.mp going
  cases result with
  | error op => cases same
  | ok t' =>
    obtain rfl := Option.some.inj same
    exact ⟨t', ends, going⟩

theorem session_is_run_loop : ∃ t k, loopDebugger.machine.run k = .ok t ∧ t.HALTED = false := by
  obtain ⟨t, ends, going⟩ := loop_session
  obtain ⟨k, rounds⟩ := session_is_run rfl ends
  exact ⟨t.machine, k, rounds, going⟩

end SystemsProjects.Lc
