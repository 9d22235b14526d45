import Mathlib.Data.Fintype.Card
import Mathlib.Data.Fintype.Option
import SystemsProjects.Cpu.Interrupts
import SystemsProjects.Irq.Remaining

/-!
# The handlers are in time

A device waits at least 1500 cycles between two interrupts. Both handlers together take 1046 cycles
at most, ten for each command, so each is done before its device asks again.
-/

namespace SystemsProjects.Cpu

open Lc Irq Register

/-- Cycles for an interrupt and its handler. -/
def reserve (device : Fin 2) : Nat := 4 + 10 * commands device

/-- Handlers have been running since the device `first` was acknowledged. The other device can
interrupt them once. -/
structure Busy (d : Devices) (p : Processor) (waiting : List Processor) (first : Fin 2) : Prop where
  budget : d.count first + 10 * outstanding (cells p.MEM) (p :: waiting) +
    (if d.count (1 - first) ≤ d.count first then 0 else reserve (1 - first)) ≤ 1046
  own : d.count first < d.count (1 - first) →
    ∀ t ∈ p :: waiting, t.serves = none ∨ t.serves = some first

/-- No two handlers serve one device, and they are in time. -/
structure OnTime (d : Devices) (p : Processor) (waiting : List Processor) : Prop where
  apart : (p :: waiting).Pairwise fun t t' => t.serves ≠ t'.serves
  busy : waiting ≠ [] → ∃ first, Busy d p waiting first

theorem least_TIME (device : Fin 2) : 1500 ≤ (Devices.TIME device).toNat := by
  match device with
  | 0 => decide
  | 1 => decide

theorem other_device {device first : Fin 2} (other : device ≠ first) : device = 1 - first := by
  revert device first
  decide

section

variable {d d' : Devices} {p p' : Processor} {waiting waiting' : List Processor} {first : Fin 2}

/-- Some cycles later there is less to do. -/
theorem Busy.idle (busy : Busy d p waiting first) {k : Nat} (least : 1 ≤ k) (most : k ≤ 10)
    (less : outstanding (cells p'.MEM) (p' :: waiting') < outstanding (cells p.MEM) (p :: waiting))
    (serve : ∀ t ∈ p' :: waiting', t.serves = none ∨ ∃ t' ∈ p :: waiting, t'.serves = t.serves) :
    Busy (d.idle k) p' waiting' first ∧ d.count first < (d.idle k).count first := by
  have budget := busy.budget
  have own := Devices.idle_count (d := d) k first
  have other := Devices.idle_count (d := d) k (1 - first)
  have time := least_TIME first
  have time' := least_TIME (1 - first)
  refine ⟨⟨?_, ?_⟩, ?_⟩
  · split_ifs at budget ⊢ <;> omega
  · intro later t member
    obtain none | ⟨t', member', same⟩ := serve t member
    · exact Or.inl none
    · rw [← same]
      exact busy.own (by split_ifs at budget <;> omega) t' member'
  · split_ifs at budget <;> omega

/-- The device that is acknowledged has waited for 1500 cycles. -/
theorem asking_count (settled : d.Settled) (INT : d.INT = true) :
    1499 ≤ d.count d.asking := by
  have full := Interval.FULL_iff.mp (Devices.asking_full settled INT)
  have later := Devices.idle_count (d := d) 1 d.asking
  have time := least_TIME d.asking
  have same : ((d.tick false).interval d.asking).count.toNat = (d.idle 1).count d.asking := rfl
  rw [same] at full
  omega

/-- What the devices have counted when the handler begins. -/
theorem acknowledged_counts (settled : d.Settled) (INT : d.INT = true) :
    (d.acknowledged.idle 2).count d.asking = 2 ∧
    ∀ device, device ≠ d.asking → d.count device ≤ 1046 →
      (d.acknowledged.idle 2).count device = d.count device + 4 := by
  constructor
  · have time := least_TIME d.asking
    rw [Devices.idle_count, Devices.acknowledged_count settled INT, if_pos rfl]
    omega
  · intro device other small
    have time := least_TIME device
    rw [Devices.idle_count, Devices.acknowledged_count settled INT, if_neg other,
      Devices.idle_count]
    omega

/-- The first handler begins. -/
theorem Busy.begin (settled : d.Settled) (INT : d.INT = true) (program : p.PC < 77)
    (vector : p.accessMem d.asking = entry d.asking) :
    Busy (d.acknowledged.idle 2) (p.interrupt d.asking) [p] d.asking := by
  obtain ⟨own, -⟩ := acknowledged_counts settled INT
  obtain ⟨remaining, serves⟩ := remaining_entry (cells p.MEM) vector
  have rest : p.remaining (cells p.MEM) = 0 := remaining_program program
  constructor
  · show _ + 10 * outstanding (cells p.MEM) _ + _ ≤ 1046
    rw [outstanding_cons, outstanding_cons, remaining, rest, own]
    show 2 + 10 * (commands d.asking + (0 + 0)) + _ ≤ 1046
    match d.asking with
    | 0 =>
      show 2 + 10 * (28 + (0 + 0)) + (if _ then 0 else 764) ≤ 1046
      split_ifs <;> omega
    | 1 =>
      show 2 + 10 * (76 + (0 + 0)) + (if _ then 0 else 284) ≤ 1046
      split_ifs <;> omega
  · intro _ t member
    obtain rfl | member := List.mem_cons.mp member
    · exact Or.inr serves
    · rw [List.mem_singleton.mp member]
      exact Or.inl (if_pos program)

/-- Another device interrupts the handlers. -/
theorem Busy.interrupt (busy : Busy d p waiting first) (settled : d.Settled) (INT : d.INT = true)
    (vector : p.accessMem d.asking = entry d.asking) :
    Busy (d.acknowledged.idle 2) (p.interrupt d.asking) (p :: waiting) first ∧
      d.count first < (d.acknowledged.idle 2).count first ∧
      ∀ t ∈ p :: waiting, some d.asking ≠ t.serves := by
  have budget := busy.budget
  have full := asking_count settled INT
  have other : d.asking ≠ first := by
    rintro rfl
    omega
  have later : d.count first < d.count (1 - first) := by
    rw [← other_device other]
    omega
  obtain ⟨zero, counts⟩ := acknowledged_counts settled INT
  have own := counts first other.symm (by omega)
  obtain ⟨remaining, -⟩ := remaining_entry (cells p.MEM) vector
  rw [if_neg (by omega), ← other_device other] at budget
  refine ⟨⟨?_, ?_⟩, by omega, ?_⟩
  · show _ + 10 * outstanding (cells p.MEM) _ + _ ≤ 1046
    rw [outstanding_cons, remaining, ← other_device other, zero, own, if_pos (by omega)]
    unfold reserve at budget
    omega
  · rw [← other_device other, zero, own]
    intro less
    omega
  · intro t member same
    obtain none | mine := busy.own later t member
    · rw [none] at same
      cases same
    · rw [mine] at same
      exact other (Option.some.inj same)

/-! ## One step -/

variable {v : View} {request : Option (Fin 2)} {value : Nat} {c : Processor}
  {rest : List Processor} {cmd : Command}

/-- A command of the handler on top. -/
theorem handler_less (value : Nat) (nested : Nested v (c :: rest) p) (words : Words p)
    (low : 175 ≤ p.REGS sp) (here : code p.PC = some cmd) (more : cmd ≠ .reti)
    (apart : (p :: c :: rest).Pairwise fun t t' => t.serves ≠ t'.serves) :
    outstanding (cells (cmd.effect value p).MEM) (cmd.effect value p :: c :: rest) <
      outstanding (cells p.MEM) (p :: c :: rest) ∧ (cmd.effect value p).serves = p.serves := by
  have advances : Advances (cmd.heard value) p (cmd.effect value p) :=
    nested.advances words low here more
  have others := outstanding_others advances (List.pairwise_cons.mp apart).1
  have top := nested.sound.room.2
  cases nested.stack with
  | handler inner _ handles =>
    obtain ⟨less, serves⟩ := handles.remaining_lt nested.zero nested.loaded words low
      (Shape.sheltered_low (inner.high.trans top)) here more value
    rw [outstanding_cons _ p, outstanding_cons, others]
    exact ⟨Nat.add_lt_add_right less _, serves⟩

/-- The return of the handler on top. -/
theorem returns_less (nested : Nested v (c :: rest) p)
    (resumes : Resumes c (Command.reti.effect value p)) :
    outstanding (cells (Command.reti.effect value p).MEM) (Command.reti.effect value p :: rest) <
      outstanding (cells p.MEM) (p :: c :: rest) ∧
      (Command.reti.effect value p).serves = c.serves := by
  have MEM : (Command.reti.effect value p).MEM = p.MEM := rfl
  cases nested.stack with
  | handler _ _ handles =>
    obtain ⟨least, most⟩ := handles.place
    have positive := ahead_checked p.PC most least
    rw [MEM, outstanding_cons, outstanding_cons, outstanding_cons, resumes.remaining]
    refine ⟨?_, congrArg serving resumes.PC⟩
    unfold Processor.remaining at *
    omega

/-- While handlers run, the time that they have left gets shorter. -/
theorem Busy.turn (busy : Busy d p waiting first) (settled : d.Settled)
    (apart : (p :: waiting).Pairwise fun t t' => t.serves ≠ t'.serves) (nested : Nested v waiting p)
    (words : Words p) (low : 175 ≤ p.REGS sp) (turn : Turn request value waiting p waiting' p')
    (passes : Passes (p.taken request) d d') : (waiting = [] ∧ p.taken request = none) ∨
      Busy d' p' waiting' first ∧ d.count first < d'.count first := by
  cases turn with
  | halted stopped =>
    obtain ⟨returned, -⟩ := nested.stopped stopped
    exact Or.inl ⟨returned, taken_halted stopped⟩
  | interrupt device taken vector =>
    obtain ⟨INT, rfl, rfl⟩ := passes.acknowledged device taken
    obtain ⟨busy', later, -⟩ := busy.interrupt settled INT vector
    exact Or.inr ⟨busy', later⟩
  | program cmd running taken => exact Or.inl ⟨rfl, taken⟩
  | handler cmd running taken here more =>
    obtain ⟨k, least, most, rfl⟩ := passes.idle taken
    obtain ⟨less, serves⟩ := handler_less value nested words low here more apart
    refine Or.inr (busy.idle least most less ?_)
    intro t member
    obtain rfl | member := List.mem_cons.mp member
    · exact Or.inr ⟨p, List.mem_cons_self, serves.symm⟩
    · exact Or.inr ⟨t, List.mem_cons_of_mem _ member, rfl⟩
  | returns running taken here resumes =>
    obtain ⟨k, least, most, rfl⟩ := passes.idle taken
    obtain ⟨less, serves⟩ := returns_less nested resumes
    refine Or.inr (busy.idle least most less ?_)
    intro t member
    obtain rfl | member := List.mem_cons.mp member
    · exact Or.inr ⟨_, List.mem_cons_of_mem _ List.mem_cons_self, serves.symm⟩
    · exact Or.inr ⟨t, List.mem_cons_of_mem _ (List.mem_cons_of_mem _ member), rfl⟩

theorem program_below (nested : Nested v [] p) (below : v.PC < 77) : p.PC < 77 := by
  rw [nested.view_PC]
  exact below

/-- Whatever a turn is, the handlers stay in time. -/
theorem OnTime.turn (onTime : OnTime d p waiting) (settled : d.Settled)
    (nested : Nested v waiting p) (below : v.PC < 77) (words : Words p) (low : 175 ≤ p.REGS sp)
    (turn : Turn request value waiting p waiting' p') (passes : Passes (p.taken request) d d') :
    OnTime d' p' waiting' := by
  have apart := onTime.apart
  have going : waiting ≠ [] → waiting' ≠ [] → ∃ first, Busy d' p' waiting' first := by
    intro more _
    obtain ⟨first, busy⟩ := onTime.busy more
    obtain ⟨none, -⟩ | ⟨busy', -⟩ := busy.turn settled apart nested words low turn passes
    · exact absurd none more
    · exact ⟨first, busy'⟩
  cases turn with
  | halted stopped =>
    obtain ⟨rfl, -⟩ := nested.stopped stopped
    exact ⟨apart, fun more => absurd rfl more⟩
  | interrupt device taken vector =>
    obtain ⟨INT, rfl, rfl⟩ := passes.acknowledged device taken
    obtain ⟨-, serves⟩ := remaining_entry (cells p.MEM) vector
    by_cases first : waiting = []
    · subst first
      have program := program_below nested below
      refine ⟨?_, fun _ => ⟨_, Busy.begin settled INT program vector⟩⟩
      refine List.pairwise_pair.mpr ?_
      rw [serves, show p.serves = none from if_pos program]
      nofun
    · obtain ⟨first, busy⟩ := onTime.busy first
      obtain ⟨busy', -, others⟩ := busy.interrupt settled INT vector
      refine ⟨List.pairwise_cons.mpr ⟨fun t member => ?_, apart⟩, fun _ => ⟨first, busy'⟩⟩
      rw [serves]
      exact others t member
  | program cmd => exact ⟨List.pairwise_singleton .., fun more => absurd rfl more⟩
  | handler cmd running taken here more =>
    obtain ⟨-, serves⟩ := handler_less value nested words low here more apart
    obtain ⟨head, tail⟩ := List.pairwise_cons.mp apart
    refine ⟨List.pairwise_cons.mpr ⟨fun t member => ?_, tail⟩, going (List.cons_ne_nil _ _)⟩
    rw [serves]
    exact head t member
  | returns running taken here resumes =>
    obtain ⟨-, serves⟩ := returns_less nested resumes
    obtain ⟨head, tail⟩ := List.pairwise_cons.mp (List.pairwise_cons.mp apart).2
    refine ⟨List.pairwise_cons.mpr ⟨fun t member => ?_, tail⟩, going (List.cons_ne_nil _ _)⟩
    rw [serves]
    exact head t member

/-! ## What follows -/

/-- There are never more than two handlers, so there is room on the stack. -/
theorem OnTime.room (onTime : OnTime d p waiting) (nested : Nested v waiting p) :
    175 ≤ p.REGS sp := by
  have distinct : ((p :: waiting).map Processor.serves).Nodup := List.pairwise_map.mpr onTime.apart
  have few := List.Nodup.length_le_card distinct
  rw [List.length_map, List.length_cons, Fintype.card_option, Fintype.card_fin] at few
  have depth := nested.stack.depth
  have floor : 0xA000 - 25 ≤ v.REGS sp := nested.sound.room.1
  omega

/-- The timer is not interrupted between its load and its store of the ticks by itself. -/
theorem OnTime.timer (onTime : OnTime d p waiting) (settled : d.Settled)
    (nested : Nested v waiting p) (below : v.PC < 77) (passes : Passes (p.taken request) d d')
    (taken : p.taken request = some 0) :
    ∀ t ∈ p :: waiting, ¬ t.phase.Timed := by
  obtain ⟨INT, asking, -⟩ := passes.acknowledged 0 taken
  have full := asking_count settled INT
  rw [← asking] at full
  have other : ∀ t ∈ p :: waiting, t.serves ≠ some 0 := by
    intro t member same
    by_cases first : waiting = []
    · subst first
      obtain rfl := List.mem_singleton.mp member
      have program := program_below nested below
      rw [show t.serves = none from if_pos program] at same
      cases same
    · obtain ⟨first, busy⟩ := onTime.busy first
      have budget := busy.budget
      have second : first = 1 := by
        by_contra zero
        obtain rfl : first = 0 := by omega
        omega
      subst second
      obtain none | mine := busy.own (by show _ < d.count 0; omega) t member
      · rw [none] at same
        cases same
      · rw [mine] at same
        cases same
  intro t member timed
  exact not_timed (other t member) timed

/-- Only the handler of the distance tracker reads. -/
theorem reading_checked : ∀ pc < 175, (code pc).any (fun c => (c.heard 0).isSome) = true →
    serving pc = some 1 := by decide +kernel

/-- Nothing that the reading handler interrupted has looked at a cell that it may change. -/
theorem OnTime.read (onTime : OnTime d p waiting) (nested : Nested v waiting p)
    (reading : p.Reading request) (now : Cells) (value : Int) :
    ∀ t ∈ waiting, t.phase.Accepts now value := by
  cases waiting with
  | nil => nofun
  | cons c rest =>
    have tracker : p.serves = some 1 := by
      cases nested.stack with
      | handler _ _ handles =>
        obtain ⟨cmd, here⟩ := handles.command
        have hears := (nested.loaded.reading_iff here reading.1 reading.2.1 0).mp reading
        apply reading_checked p.PC (code_lt here)
        rw [here]
        exact hears
    intro t member
    apply accepts_any
    rw [← tracker]
    exact ((List.pairwise_cons.mp onTime.apart).1 t member).symm

end

end SystemsProjects.Cpu
