import SystemsProjects.Irq.Updates

/-!
# A handler that is not interrupted

From any of its commands a handler comes to its end when nothing interrupts it. The distance
tracker, from its entry on, leaves the cells as they should be.
-/

namespace SystemsProjects.Irq

open Lc Register

/-- How many commands a handler may still need. -/
def Processor.left (t : Processor) : Nat := t.phase.rank (cells t.MEM) * 400 + order t.PC

theorem order_lt (pc : Nat) : order pc < 400 := by
  unfold order
  split <;> omega

theorem Advances.left_lt {heard : Option Int} {t t' : Processor} (advances : Advances heard t t') :
    t'.left < t.left := by
  unfold Processor.left
  cases advances with
  | keeps phase same later _ =>
    rw [phase, same]
    omega
  | moves move =>
    have less := move.rank_lt
    have small := order_lt t'.PC
    omega

/-- A handler `t` that interrupted `c`, with its stack away from everything else. -/
structure Lone (c t : Processor) : Prop where
  handles : ∃ got, Handles got t.MEM c t
  zero : t.REGS 0 = 0
  loaded : Loaded t.MEM
  words : Words t
  running : t.HALTED = false
  room : 182 ≤ c.REGS sp
  high : Shape.Sheltered (c.REGS sp)

section

variable {c t : Processor} {cmd : Command} {value : Nat}

theorem Lone.low (lone : Lone c t) : 175 ≤ t.REGS sp := by
  obtain ⟨got, sh, shape, holds⟩ := lone.handles
  have small := Shape.along_small shape
  have stack := holds.stack
  have room := lone.room
  omega

/-- A step of a handler leaves it as it should be, and writes to its frame and the cells. -/
theorem Lone.step (lone : Lone c t) (here : code t.PC = some cmd) (more : cmd ≠ .reti)
    (small : value < 2 ^ 32) :
    Lone c (cmd.effect value t) ∧ Advances (cmd.heard value) t (cmd.effect value t) ∧
      ∀ a, ¬(c.REGS sp - 7 ≤ a ∧ a < c.REGS sp) → ¬Shared a →
      (cmd.effect value t).MEM a = t.MEM a := by
  obtain ⟨got, handles⟩ := lone.handles
  have advances := handles.advances lone.zero lone.loaded lone.words lone.low lone.high here more
    value
  obtain ⟨sh, next, shape, after, handles', writes⟩ :=
    handles.step lone.zero lone.loaded lone.low lone.high here more value
  have outside : ∀ a, ¬(c.REGS sp - 7 ≤ a ∧ a < c.REGS sp) → ¬Shared a →
      (cmd.effect value t).MEM a = t.MEM a := by
    intro a outside own
    obtain ⟨sh', shape', holds⟩ := handles
    have depth := Shape.along_small shape'
    have stack := holds.stack
    apply writes a (by omega) own
  refine ⟨⟨⟨_, handles'⟩, effect_zero lone.zero, ?_, lone.words.effect cmd small, ?_, lone.room,
    lone.high⟩, advances, outside⟩
  · intro a content word fixed
    rw [← lone.loaded a content word fixed]
    obtain ⟨low, _⟩ := List.getElem?_eq_some_iff.mp word
    rw [length_prj2] at low
    have room := lone.room
    apply outside a (by omega)
    rintro ⟨least, _⟩
    omega
  · have going : cmd ≠ .ordinary .halt := by
      rintro rfl
      cases after
    rw [effect_HALTED going, lone.running]

end

/-- The processor after some steps in which nothing interrupts it and the device delivers `d`. -/
def alone (d : Nat) (t : Processor) : Nat → Processor
  | 0 => t
  | k + 1 => alone d (t.next none d) k

/-- What a lone handler has read. -/
def heardBy (d : Nat) (ph : Phase) : List Int := if ph = .arrived then [] else [signed d]

section

variable {c t : Processor} {d timers distances : Nat} {start : Cells}

theorem heard_eq {cmd : Command} {v : Int} (hears : cmd.heard d = some v) : signed d = v := by
  cases cmd with
  | input => exact Option.some.inj hears
  | _ => cases hears

theorem taken_none (t : Processor) : t.taken none = none := by
  unfold Processor.taken
  split <;> rfl

/-- What a lone handler has read and stored is accounted for after each of its steps. -/
theorem Advances.kept {cmd : Command} {t' : Processor} (advances : Advances (cmd.heard d) t t')
    (kept : Kept start timers distances (heardBy d t.phase) (cells t.MEM) [t.phase, .idle]) :
    Kept start timers distances (heardBy d t'.phase) (cells t'.MEM) [t'.phase, .idle] := by
  cases advances with
  | keeps phase same _ _ =>
    rw [phase, same]
    exact kept
  | moves move =>
    obtain ⟨after, before⟩ := move.arrived
    have some : heardBy d t'.phase = [signed d] := if_neg after
    rw [some]
    cases hears : cmd.heard d with
    | none =>
      rw [hears] at move before
      have other : t.phase ≠ .arrived := fun same => nomatch before.mpr same
      have already : heardBy d t.phase = [signed d] := if_neg other
      rw [already] at kept
      exact kept.move move
    | some v =>
      have same := heard_eq hears
      subst same
      rw [hears] at move before
      have nothing : heardBy d t.phase = [] := if_pos (before.mp rfl)
      rw [nothing] at kept
      apply kept.hear move
      intro lower member
      rw [List.mem_singleton.mp member]
      trivial

/-- A handler that is not interrupted comes to its `reti`. -/
theorem Lone.returns (lone : Lone c t) (small : d < 2 ^ 32)
    (kept : Kept start timers distances (heardBy d t.phase) (cells t.MEM) [t.phase, .idle]) :
    ∃ k ≤ t.left, Lone c (alone d t k) ∧ code (alone d t k).PC = some .reti ∧
      (∀ j < k, ¬(alone d t j).Returning) ∧
      Kept start timers distances (heardBy d (alone d t k).phase) (cells (alone d t k).MEM)
        [(alone d t k).phase, .idle] ∧
      ∀ a, ¬(c.REGS sp - 7 ≤ a ∧ a < c.REGS sp) → ¬Shared a → (alone d t k).MEM a = t.MEM a := by
  induction bound : t.left using Nat.strongRecOn generalizing t with
  | ind left ih =>
    obtain ⟨got, handles⟩ := lone.handles
    obtain ⟨cmd, here⟩ := handles.command
    by_cases last : cmd = .reti
    · subst last
      exact ⟨0, Nat.zero_le _, lone, here, nofun, kept, fun _ _ _ => rfl⟩
    · obtain ⟨lone', advances, outside⟩ := lone.step here last small
      have next : t.next none d = cmd.effect d t :=
        next_command (taken_none t) lone.running lone.loaded here
      have less : (cmd.effect d t).left < left := bound ▸ advances.left_lt
      obtain ⟨k, le, ends, returns, first, kept', same⟩ := ih _ less lone' (advances.kept kept) rfl
      have onward : ∀ j, alone d t (j + 1) = alone d (cmd.effect d t) j := by
        intro j
        rw [← next]
        rfl
      refine ⟨k + 1, by omega, ?_⟩
      rw [onward]
      refine ⟨ends, returns, ?_, kept', fun a away own =>
        (same a away own).trans (outside a away own)⟩
      intro j before
      cases j with
      | zero =>
        intro returning
        exact last ((lone.loaded.returning_iff here lone.running).mp returning)
      | succ j =>
        rw [onward]
        exact first j (by omega)

end

/-- The address of a word that the handler pushes, the first one first. -/
def Processor.slot (t : Processor) (i : Nat) : Nat := wrap (t.REGS sp - (i + 1))

/-- An interrupt of the distance tracker has just been taken. The seven words below the stack
pointer are neither of the program nor cells of the handlers. -/
structure Entered (t : Processor) : Prop where
  PC : t.PC = address .distance_tracker_handler
  disabled : t.IE = false
  running : t.HALTED = false
  loaded : Loaded t.MEM
  zero : t.REGS 0 = 0
  words : Words t
  clear : ∀ i < 7, prj2.length ≤ t.slot i ∧ ¬Shared (t.slot i)

/-- After `k` steps the handler is for the first time about to return. It has widened the range by
the value it read, and gives all registers back. -/
structure Measured (d : Nat) (t : Processor) (k : Nat) : Prop where
  returns : (alone d t k).Returning
  first : ∀ j < k, ¬(alone d t j).Returning
  registers : (alone d t k).REGS = t.REGS
  maxval : signed ((alone d t k).MEM 0xFFFD) = max (signed (t.MEM 0xFFFD)) (signed d)
  minval : signed ((alone d t k).MEM 0xFFFC) = min (signed (t.MEM 0xFFFC)) (signed d)
  range : (alone d t k).MEM 0xFFFE = wrap ((alone d t k).MEM 0xFFFD - (alone d t k).MEM 0xFFFC)
  frame : ∀ a, ¬(t.REGS sp - 7 ≤ a ∧ a < t.REGS sp) → ¬(0xFFFC ≤ a ∧ a ≤ 0xFFFE) →
    (alone d t k).MEM a = t.MEM a

/-- The program that was interrupted. -/
def Processor.interrupted (t : Processor) : Processor := { t with PC := t.REGS k0, IE := true }

section

variable {t : Processor} {d : Nat}

theorem distance_entry : address .distance_tracker_handler = 103 := by decide +kernel

/-- The words that the handler pushes lie in the memory, and there below the stack pointer. -/
theorem Entered.sheltered (entered : Entered t) (inside : ∀ i < 7, t.slot i < 2 ^ 24) :
    182 ≤ t.REGS sp ∧ Shape.Sheltered (t.REGS sp) := by
  have slot : ∀ i : Nat, i < 7 → 175 ≤ wrap (t.REGS sp - (i + 1)) ∧
      ¬(0xFFFC ≤ wrap (t.REGS sp - (i + 1)) ∧ wrap (t.REGS sp - (i + 1)) ≤ 0xFFFF) ∧
      wrap (t.REGS sp - (i + 1)) < 2 ^ 24 := by
    intro i small
    obtain ⟨program, cells⟩ := entered.clear i small
    rw [length_prj2] at program
    exact ⟨program, cells, inside i small⟩
  have bound := entered.words.registers sp
  have room : 182 ≤ t.REGS sp := by
    by_contra less
    by_cases none : t.REGS sp < 7
    · rcases Nat.eq_zero_or_pos (t.REGS sp) with zero | positive
      · have first := slot 0 (by omega)
        rw [zero] at first
        exact absurd first (by decide)
      · obtain ⟨low, _⟩ := slot (t.REGS sp - 1) (by omega)
        unfold wrap at low
        omega
    · obtain ⟨low, _⟩ := slot 6 (by omega)
      unfold wrap at low
      omega
  refine ⟨room, ?_, ?_⟩
  · obtain ⟨_, _, top⟩ := slot 0 (by omega)
    unfold wrap at top
    omega
  · by_contra between
    obtain ⟨_, first, _⟩ := slot 0 (by omega)
    obtain ⟨_, middle, _⟩ := slot 3 (by omega)
    obtain ⟨_, last, _⟩ := slot 6 (by omega)
    unfold wrap at first middle last
    omega

theorem Entered.lone (entered : Entered t) (inside : ∀ i < 7, t.slot i < 2 ^ 24) :
    Lone t.interrupted t := by
  have shape : Shape.along t.PC = some Shape.entry := by
    rw [entered.PC, distance_entry]
    have place : entry 1 = 103 := View.vector_prj2.2
    rw [← place, along_entry]
  have holds : Shape.entry.Holds (fun _ => 0) t.MEM t.interrupted t := by
    refine ⟨rfl, nofun, fun _ _ _ _ => rfl, ?_, fun _ => rfl, entered.disabled⟩
    intro r s known
    unfold Shape.entry Facts.base at known
    dsimp only at known
    split at known
    · next first =>
      cases Option.some.inj known
      rw [first, entered.zero]
      rfl
    · cases known
  obtain ⟨room, high⟩ := entered.sheltered inside
  exact ⟨⟨_, _, shape, holds⟩, entered.zero, entered.loaded, entered.words, entered.running, room,
    high⟩

/-- The distance tracker comes to its `reti` within a fixed number of steps. -/
theorem distance_tracked (entered : Entered t) (inside : ∀ i < 7, t.slot i < 2 ^ 24)
    (small : d < 2 ^ 32) : ∃ k ≤ 13272, Measured d t k := by
  have lone := entered.lone inside
  have arrived : t.phase = .arrived := by
    unfold Processor.phase
    rw [entered.PC, distance_entry]
    rfl
  have start : Kept (cells t.MEM) 0 1 (heardBy d t.phase) (cells t.MEM) [t.phase, .idle] := by
    rw [arrived]
    exact (Kept.initial (cells t.MEM)).distance
  obtain ⟨k, le, ends, here, first, kept, same⟩ := lone.returns small start
  have bound : t.left ≤ 13272 := by
    have farthest : Phase.arrived.rank (cells t.MEM) = 33 := rfl
    have place : order 103 = 72 := by decide
    unfold Processor.left
    rw [arrived, entered.PC, distance_entry, farthest, place]
  have idle := returning_phase here
  have read : heardBy d .idle = [signed d] := by simp [heardBy]
  rw [idle, read] at kept
  have updated := kept.leave.updated (ends.words.memory 0xFFFF)
  obtain ⟨got, handles⟩ := ends.handles
  have resumes := handles.return here d
  refine ⟨k, by omega, (ends.loaded.returning_iff here ends.running).mpr rfl, first, ?_, ?_, ?_, ?_,
    ?_⟩
  · funext r
    by_cases link : r = k0
    · rw [link]
      exact resumes.PC
    · exact resumes.REGS r link
  · have most := updated.maxval
    rw [List.foldr_cons, List.foldr_nil, max_comm] at most
    simpa only [cells] using most
  · have least := updated.minval
    rw [List.foldr_cons, List.foldr_nil, min_comm] at least
    simpa only [cells] using least
  · have range := updated.range Nat.one_pos
    rw [← wrap_sub_signed]
    simpa only [cells] using range
  · intro a away own
    by_cases ticks : a = 0xFFFF
    · subst ticks
      have counted := updated.ticks
      simp only [cells, Nat.cast_zero, Int.add_zero] at counted
      rw [counted, wrap_of_lt (entered.words.memory 0xFFFF)]
    · apply same a away
      rintro ⟨least, most⟩
      omega

end

/-- An interrupt of the distance tracker while the cells are still zeros and `$t0` is 5. -/
def enteredMachine (top : Nat) : Processor :=
  { loadedMachine with
    PC := address .distance_tracker_handler
    REGS := fun r => if r = sp then top else if r = t0 then 5 else 0 }

theorem enteredMachine_entered {top : Nat} (small : top < 2 ^ 32)
    (clear : ∀ i : Nat, i < 7 → 175 ≤ wrap (top - (i + 1)) ∧ ¬Shared (wrap (top - (i + 1)))) :
    Entered (enteredMachine top) := by
  have words : ∀ r, (enteredMachine top).REGS r < 2 ^ 32 := by
    intro r
    unfold enteredMachine
    dsimp only
    split
    · exact small
    · split <;> decide
  have zero : (enteredMachine top).REGS 0 = 0 := by simp +decide [enteredMachine]
  have memory : (enteredMachine top).MEM = loadedMachine.MEM := rfl
  have entry : (enteredMachine top).PC = address .distance_tracker_handler := by
    simp only [enteredMachine]
  refine ⟨entry, rfl, rfl, ?_, zero, ⟨words, ?_⟩, ?_⟩
  · rw [memory]
    exact loadedMachine_started.loaded
  · rw [memory]
    exact loadedMachine_started.memory
  · intro i few
    rw [length_prj2]
    have pointer : (enteredMachine top).REGS sp = top := by simp [enteredMachine]
    unfold Processor.slot
    rw [pointer]
    exact clear i few

/-- A negative distance. -/
theorem distance_tracked_negative : ∃ k ≤ 13272, Measured 0xFFFFFFFF (enteredMachine 0xA000) k :=
  distance_tracked (enteredMachine_entered (by decide) (by decide)) (by decide) (by decide)

/-- With its stack behind the memory the handler gives `$t0` back as 0. -/
theorem distance_tracker_behind_memory : Entered (enteredMachine 0x1002000) ∧
    ∀ k, ¬Measured 0 (enteredMachine 0x1002000) k := by
  have steps : (∀ k < 48, ¬(alone 0 (enteredMachine 0x1002000) k).Returning) := by decide +kernel
  have last : (alone 0 (enteredMachine 0x1002000) 48).Returning := by decide +kernel
  have lost : (alone 0 (enteredMachine 0x1002000) 48).REGS t0 = 0 := by decide +kernel
  refine ⟨enteredMachine_entered (by decide) (by decide), ?_⟩
  intro k tracked
  have same : k = 48 := by
    apply le_antisymm
    · by_contra later
      exact tracked.first 48 (by omega) last
    · by_contra earlier
      exact steps k (by omega) tracked.returns
  subst same
  have kept := congrFun tracked.registers t0
  rw [lost] at kept
  exact absurd kept (by decide)

end SystemsProjects.Irq
