import SystemsProjects.Irq.Transparency

/-!
# How long a handler still takes

A bound on the commands that a handler still has before it, whichever branches it takes. A handler
of the timer has 28 at most, one of the distance tracker 76.
-/

namespace SystemsProjects.Irq

open Lc Register

/-! ## Commands of a phase -/

/-- The stage that shows a phase. -/
def Phase.stage : Phase → Stage
  | idle => .idle
  | timing => .timing
  | timed _ => .timed
  | arrived => .arrived
  | fresh _ => .fresh
  | compared _ _ => .compared
  | raising _ => .raising
  | raised _ => .raised
  | weighed _ _ => .weighed
  | lowering _ => .lowering
  | lowered _ => .lowered
  | rechecked _ _ => .rechecked
  | settled => .settled
  | halfway _ => .halfway
  | ranging _ => .ranging

/-- The phases of a handler that is at this stage. -/
def Stage.shown : Stage → List Stage
  | counting => [timed]
  | weighing => [settled, weighed]
  | rechecking => [settled, rechecked]
  | subtracting | negating | adding => [ranging]
  | st => [st]

theorem Stage.phase_stage (st : Stage) (x y z : Nat) : (st.phase x y z).stage ∈ st.shown := by
  cases st with
  | weighing =>
    show (if x = z then Phase.settled else .weighed _ _).stage ∈ [settled, weighed]
    split <;> simp [Phase.stage]
  | rechecking =>
    show (if x = z then Phase.settled else .rechecked _ _).stage ∈ [settled, rechecked]
    split <;> simp [Phase.stage]
  | _ => exact List.mem_singleton_self _

/-- The most commands of a handler in a phase. -/
def Stage.size : Stage → Nat
  | idle | timing => 13
  | arrived => 12
  | ranging => 6
  | weighed | rechecked | settled => 4
  | timed | compared => 2
  | _ => 3

/-- The commands from this one to the end of the phase. -/
def ahead (pc : Nat) : Nat :=
  if pc < 77 then 0
  else if pc < 90 then 90 - pc
  else if pc < 92 then 92 - pc
  else if pc < 103 then 103 - pc
  else if pc < 115 then 115 - pc
  else if pc < 118 then 118 - pc
  else if pc < 120 then 120 - pc
  else if pc < 123 then 123 - pc
  else if pc < 125 then 125 - pc
  else if pc < 128 then 128 - pc
  else if pc < 131 then 131 - pc
  else if pc < 137 then 137 - pc
  else if pc = 137 then 13
  else if pc < 141 then 141 - pc
  else if pc < 144 then 144 - pc
  else if pc = 144 then 4
  else if pc < 147 then 147 - pc
  -- where it is settled here, three more commands follow at `RVAL`
  else if pc = 147 then 4
  else if pc < 151 then 151 - pc
  else if pc < 154 then 154 - pc
  else if pc = 154 then 4
  else if pc < 157 then 157 - pc
  else if pc = 157 then 4
  else 170 - pc

/-- The most commands after this phase. -/
def Phase.later (now : Cells) : Phase → Nat
  | idle => 0
  | timed _ | ranging _ => 13
  | timing => 15
  | halfway _ => 19
  | settled => 22
  | rechecked d x => if d < x then 26 else 42
  | lowered d => if d = now.maxval then 26 else 46
  | lowering d => if d = now.maxval then 29 else 49
  | weighed d _ => if d = now.maxval then 32 else 52
  | raised d => if d = now.maxval then 36 else 56
  | raising _ => 39
  | compared _ _ => 59
  | fresh _ => 61
  | arrived => 64

theorem Phase.Move.later_le {heard : Option Int} {now now' : Cells} {ph ph' : Phase}
    (move : Move heard now ph now' ph') : ph'.later now' + ph'.stage.size ≤ ph.later now := by
  cases move with
  | within | weigh | smaller | lower | between | least =>
    simp only [Phase.later, Phase.stage, Stage.size]
    split <;> omega
  | recheck _ d other =>
    simp only [Phase.later, Phase.stage, Stage.size, if_neg other]
    split <;> omega
  | again _ d x most => simp [Phase.later, Phase.stage, Stage.size, not_lt.mpr most]
  | stay _ d x less => simp [Phase.later, Phase.stage, Stage.size, less]
  | _ => simp [Phase.later, Phase.stage, Stage.size]

/-! ## Where a handler goes on -/

/-- The commands that may follow one that is no return. -/
def follows (pc : Nat) : List Nat :=
  match code pc with
  | some (.ordinary (.beq _ _ offset)) => [wrap (pc + 1 + offset), pc + 1]
  | _ => [pc + 1]

/-- The devices are numbered 0 and 1. -/
local instance two : NeZero 2 := ⟨Nat.succ_ne_zero 1⟩

/-- The device that a handler at this place serves. -/
def serving (pc : Nat) : Option (Fin 2) :=
  if pc < 77 then none else if pc < 103 then some 0 else some 1

theorem handlers_checked : Shape.table.all (fun entry => decide (77 ≤ entry.1 ∧ entry.1 < 170)) =
    true := by decide +kernel

/-- A command that leads to `pc'` serves the same device, and comes nearer to the end of the phase
or
to another phase. -/
def leads (pc pc' : Nat) : Bool :=
  decide (serving pc' = serving pc) && (decide (ahead pc' < ahead pc) ||
    (stage pc).shown.all fun st => decide (st ∉ (stage pc').shown))

theorem ahead_checked : ∀ pc < 170, 77 ≤ pc → 0 < ahead pc := by decide +kernel

theorem size_checked : ∀ pc < 175, ∀ st ∈ (stage pc).shown, ahead pc ≤ st.size := by
  decide +kernel

theorem leads_checked : ∀ pc < 170, 77 ≤ pc → code pc ≠ some .reti →
    (follows pc).all (leads pc) = true := by
  decide +kernel

/-- The device that a handler serves. The program serves none. -/
def Processor.serves (t : Processor) : Option (Fin 2) := serving t.PC

/-- The most commands that a handler still has, its `reti` included. -/
def Processor.remaining (now : Cells) (t : Processor) : Nat := t.phase.later now + ahead t.PC

section

variable {got : Source → Nat} {c t : Processor} {cmd : Command} {now now' : Cells}

theorem Handles.place {mem : Nat → Nat} (handles : Handles got mem c t) :
    77 ≤ t.PC ∧ t.PC < 170 := by
  obtain ⟨sh, along, _⟩ := handles
  exact of_decide_eq_true (List.all_eq_true.mp handlers_checked _ (Tables.mem_of_lookup along))

theorem Handles.follows (handles : Handles got t.MEM c t) (zero : t.REGS 0 = 0)
    (loaded : Loaded t.MEM) (low : 175 ≤ t.REGS sp) (high : Shape.Sheltered (c.REGS sp))
    (here : code t.PC = some cmd) (more : cmd ≠ .reti) (value : Nat) :
    (cmd.effect value t).PC ∈ Irq.follows t.PC := by
  obtain ⟨sh, next, _, after, _⟩ := handles.step zero loaded low high here more value
  unfold Irq.follows
  rw [here]
  by_cases branch : ∃ sr1 sr2 offset, cmd = .ordinary (.beq sr1 sr2 offset)
  · obtain ⟨sr1, sr2, offset, rfl⟩ := branch
    obtain ⟨PC, -⟩ := branch_effect zero rfl sr1 sr2 offset _ (code_lt here) rfl value
    show _ ∈ [wrap (t.PC + 1 + offset), t.PC + 1]
    rw [PC]
    split
    · exact List.mem_cons_self
    · exact List.mem_cons_of_mem _ List.mem_cons_self
  · simp only [not_exists] at branch
    rw [Shape.effect_PC (code_lt here) after branch]
    split
    · next sr1 sr2 offset same => exact absurd (Option.some.inj same) (branch sr1 sr2 offset)
    · exact List.mem_singleton_self _

/-- Each command of a handler leaves it less to do, and it serves the same device. -/
theorem Handles.remaining_lt (handles : Handles got t.MEM c t) (zero : t.REGS 0 = 0)
    (loaded : Loaded t.MEM) (words : Words t) (low : 175 ≤ t.REGS sp)
    (high : Shape.Sheltered (c.REGS sp)) (here : code t.PC = some cmd) (more : cmd ≠ .reti)
    (value : Nat) :
    (cmd.effect value t).remaining (cells (cmd.effect value t).MEM) <
      t.remaining (cells t.MEM) ∧ (cmd.effect value t).serves = t.serves := by
  obtain ⟨least, most⟩ := handles.place
  have goes := handles.follows zero loaded low high here more value
  have leads := List.all_eq_true.mp (leads_checked t.PC most least (by
    rw [here]
    exact fun same => more (Option.some.inj same))) _ goes
  obtain ⟨same, nearer⟩ := Bool.and_eq_true_iff.mp leads
  refine ⟨?_, of_decide_eq_true same⟩
  have positive := ahead_checked t.PC most least
  unfold Processor.remaining
  cases handles.advances zero loaded words low high here more value with
  | keeps phase cells _ _ =>
    rw [phase, cells]
    obtain nearer | other := Bool.or_eq_true_iff.mp nearer
    · have less := of_decide_eq_true nearer
      omega
    · have here := Stage.phase_stage (stage t.PC) (t.REGS s0) (t.REGS s1) (t.REGS s2)
      have there : (cmd.effect value t).phase.stage ∈ (stage (cmd.effect value t).PC).shown :=
        Stage.phase_stage ..
      rw [phase] at there
      exact absurd there (of_decide_eq_true (List.all_eq_true.mp other _ here))
  | moves move =>
    have later := move.later_le
    have there : (cmd.effect value t).phase.stage ∈ (stage (cmd.effect value t).PC).shown :=
      Stage.phase_stage ..
    obtain ⟨_, _, _, _, handles', _⟩ := handles.step zero loaded low high here more value
    have bounded := size_checked _ (by have := handles'.place; omega) _ there
    omega

/-! ## All handlers -/

/-- The most commands that all of them still have. -/
def outstanding (now : Cells) (processors : List Processor) : Nat :=
  (processors.map (Processor.remaining now)).sum

@[simp]
theorem outstanding_cons (now : Cells) (t : Processor) (rest : List Processor) :
    outstanding now (t :: rest) = t.remaining now + outstanding now rest := rfl

theorem remaining_program (program : t.PC < 77) : t.remaining now = 0 := by
  unfold Processor.remaining ahead
  rw [phase_low program, if_pos program]
  rfl

theorem Resumes.remaining (resumes : Resumes c t) : t.remaining now = c.remaining now := by
  unfold Processor.remaining
  rw [resumes.phase, resumes.PC]

/-- The most commands of the handler of a device. -/
def commands : Fin 2 → Nat
  | 0 => 28
  | 1 => 76

theorem remaining_entry (now : Cells) {device : Fin 2}
    (vector : t.accessMem device = entry device) :
    (t.interrupt device).remaining now = commands device ∧
      (t.interrupt device).serves = some device := by
  have PC : (t.interrupt device).PC = entry device := vector
  have timer : entry 0 = 77 := View.vector_prj2.1
  have distance : entry 1 = 103 := View.vector_prj2.2
  unfold Processor.remaining Processor.serves
  rw [PC, entry_phase device vector]
  match device with
  | 0 =>
    rw [timer]
    exact ⟨rfl, rfl⟩
  | 1 =>
    rw [distance]
    exact ⟨rfl, rfl⟩

/-- The handler of the timer stays in these phases. -/
theorem timer_stage (timer : t.serves ≠ some 1) :
    t.phase.stage = .idle ∨ t.phase.stage = .timing ∨ t.phase.stage = .timed := by
  have low : t.PC < 103 := by
    unfold Processor.serves serving at timer
    split at timer
    · omega
    · split at timer
      · assumption
      · exact absurd rfl timer
  have table : ∀ pc < 103, ∀ st ∈ (stage pc).shown, st = .idle ∨ st = .timing ∨ st = .timed := by
    decide +kernel
  exact table t.PC low _ (Stage.phase_stage ..)

theorem not_timed (other : t.serves ≠ some 0) : ¬ t.phase.Timed := by
  have table : ∀ pc < 175, serving pc ≠ some 0 → .timed ∉ (stage pc).shown := by decide +kernel
  have high : 175 ≤ t.PC → stage t.PC = .idle := by
    intro least
    unfold stage
    repeat rw [if_neg (by omega)]
  have shown : t.phase.stage ∈ (stage t.PC).shown := Stage.phase_stage ..
  intro timed
  have here : t.phase.stage = .timed := by
    cases phase : t.phase <;> rw [phase] at timed <;> first | rfl | exact timed.elim
  rw [here] at shown
  by_cases low : t.PC < 175
  · exact table t.PC low other shown
  · rw [high (not_lt.mp low)] at shown
    exact absurd shown (by decide)

theorem accepts_any (timer : t.serves ≠ some 1) (value : Int) : t.phase.Accepts now value := by
  have stages := timer_stage timer
  cases phase : t.phase <;> rw [phase] at stages <;> first | trivial | simp [Phase.stage] at stages

/-- What a handler has left depends on the greatest distance at most. -/
theorem remaining_maxval (t : Processor) (same : now'.maxval = now.maxval) :
    t.remaining now' = t.remaining now := by
  unfold Processor.remaining
  cases t.phase <;> simp only [Phase.later, same]

theorem remaining_timer (timer : t.serves ≠ some 1) : t.remaining now' = t.remaining now := by
  have stages := timer_stage timer
  unfold Processor.remaining
  cases phase : t.phase <;> rw [phase] at stages <;> first | rfl | simp [Phase.stage] at stages

theorem Advances.maxval {heard : Option Int} {t' : Processor} (advances : Advances heard t t')
    (timer : t.serves ≠ some 1) : (cells t'.MEM).maxval = (cells t.MEM).maxval := by
  cases advances with
  | keeps _ same => rw [same]
  | moves move =>
    have stages := timer_stage timer
    generalize t.phase = ph, cells t.MEM = now, t'.phase = ph', cells t'.MEM = now' at move stages
    cases move <;> first | rfl | simp [Phase.stage] at stages

/-- A command of one handler leaves the others as much to do as before. -/
theorem outstanding_others {heard : Option Int} {t' : Processor} {rest : List Processor}
    (advances : Advances heard t t') (apart : ∀ other ∈ rest, t.serves ≠ other.serves) :
    outstanding (cells t'.MEM) rest = outstanding (cells t.MEM) rest := by
  refine congrArg List.sum (List.map_congr_left fun other member => ?_)
  by_cases timer : t.serves = some 1
  · exact remaining_timer fun same => apart other member (timer.trans same.symm)
  · exact remaining_maxval other (advances.maxval timer)

end

end SystemsProjects.Irq
