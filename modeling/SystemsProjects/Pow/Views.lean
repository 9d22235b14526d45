import SystemsProjects.Pow.Source

/-!
# The simulator follows the view

The simulator has no interrupts. A program that never writes its code runs on it as its view shows.
-/

namespace SystemsProjects.Pow

open Lc Irq Digits Register

/-- The code does not change: it has only instructions of the simulator, in words that the program
does not write. -/
structure Fixed (L : Layout) : Prop where
  code : ∀ a c, L.code a = some c → ∃ i, c = .ordinary i ∧ c.sound = true ∧ a < L.size ∧
    L.own a = false
  least : 2 ≤ L.size
  most : L.size ≤ 2 ^ 24
  vectors : ∀ a < 2, L.own a = false
  cells : ∀ a, L.shared a = false

/-- The memory, at the start, holds the code. -/
def Holds (L : Layout) (mem : Nat → Nat) : Prop :=
  ∀ a i, L.code a = some (.ordinary i) → mem a = uint i.encode

/-- The machine is where the view is, and still has what the program does not write. -/
structure Follows (L : Layout) (mem : Nat → Nat) (v : View) (s : Machine) : Prop where
  sees : v.Sees s.MEM ⟨s, true⟩
  sound : v.Sound L
  running : s.HALTED = false
  image : ∀ a < L.size, L.own a = false → s.MEM a = mem a

section

variable {L : Layout} {mem : Nat → Nat} {v w : View} {s : Machine} {i : Instr}

theorem fetches (low : s.PC < 2 ^ 24) (word : s.MEM s.PC = uint i.encode)
    (sound : (Command.ordinary i).sound = true) : s.stepInstruction = .ok (i.effect s) := by
  obtain ⟨range, supported⟩ := Command.sound_iff sound ⟨s, true⟩
  refine (Instr.step_encode (by omega) range ?_).mpr supported
  unfold Machine.accessMem
  rw [if_neg (by omega), word]

theorem run_step (running : s.HALTED = false) {t : Machine} (step : s.stepInstruction = .ok t)
    (k : Nat) :
    s.run (k + 1) = t.run k := by
  rw [Machine.run, if_neg (by rw [running]; decide), step]
  rfl

theorem Follows.fetch (fixed : Fixed L) (holds : Holds L mem) (follows : Follows L mem v s)
    (here : L.code v.PC = some (.ordinary i)) : s.stepInstruction = .ok (i.effect s) := by
  obtain ⟨i', same, sound, low, unwritten⟩ := fixed.code _ _ here
  cases same
  have PC : s.PC = v.PC := follows.sees.PC
  have most := fixed.most
  exact fetches (by omega) (by rw [PC, follows.image v.PC low unwritten, holds v.PC i here]) sound

/-- A step of the view is a step of the simulator. -/
theorem Follows.step (fixed : Fixed L) (holds : Holds L mem) (follows : Follows L mem v s)
    (step : v.step L = some w) : ∃ t, s.stepInstruction = .ok t ∧ Follows L mem w t := by
  have on : v.IE = true := follows.sees.IE.symm
  obtain ⟨i, _, here, done, _⟩ | ⟨here, _⟩ := View.step_cases step
  · have more : i ≠ .halt := by
      rintro rfl
      unfold View.step at step
      rw [here] at step
      dsimp only at step
      split at step
      · cases step
      · cases step
    have start : v.Sees (Processor.mk s true).MEM ⟨s, true⟩ := follows.sees
    obtain ⟨sees, sound, keeps⟩ := start.step follows.sound fixed.least fixed.vectors here step 0
    refine ⟨i.effect s, follows.fetch fixed holds here, sees, sound, ?_, ?_⟩
    · rw [Instr.effect_HALTED more, follows.running]
    · intro a low unwritten
      rw [← follows.image a low unwritten]
      apply keeps.word a (fixed.cells a)
      rintro (own | ⟨above, _⟩ | ⟨_, off⟩)
      · rw [unwritten] at own
        cases own
      · omega
      · rw [on] at off
        cases off
  · obtain ⟨_, same, _⟩ := fixed.code _ _ here
    cases same

/-- The simulator's loop comes to where the view comes. -/
theorem Follows.runs (fixed : Fixed L) (holds : Holds L mem) (follows : Follows L mem v s)
    (runs : View.Runs L v w) : ∃ n t, Follows L mem w t ∧ ∀ k, s.run (n + k) = t.run k := by
  obtain ⟨n, steps⟩ := runs
  induction n generalizing w with
  | zero =>
    cases Option.some.inj steps
    exact ⟨0, s, follows, fun k => by rw [Nat.zero_add]⟩
  | succ n ih =>
    obtain ⟨x, before, last⟩ := Option.bind_eq_some_iff.mp steps
    obtain ⟨m, t, follows', reaches⟩ := ih before
    obtain ⟨t', step, follows''⟩ := follows'.step fixed holds last
    refine ⟨m + 1, t', follows'', fun k => ?_⟩
    rw [← run_step follows'.running step, ← reaches (k + 1), Nat.add_right_comm, Nat.add_assoc]

/-- At a `halt` the loop ends. -/
theorem Follows.halts (fixed : Fixed L) (holds : Holds L mem) (follows : Follows L mem v s)
    (here : L.code v.PC = some (.ordinary .halt)) : s.run 1 = .ok (Instr.halt.effect s) := by
  rw [run_step follows.running (follows.fetch fixed holds here) 0]
  rfl

end

/-! ## The program -/

/-- The instruction at an address. -/
def code (a : Nat) : Option Command :=
  if a < 45 then main[a]?.map .ordinary else if a <
    48 then none else routines[a - 48]?.map .ordinary

/-- The stack reaches down to the end of the image. -/
def layout : Layout where
  code := code
  size := 83
  floor := 83
  top := 0xA000
  own a := a = 47
  shared _ := false
  vector := ![uint (Instr.lea sp 81).encode, uint (Instr.lw sp sp 0).encode]

theorem code_sound : ∀ a < 82, (code a).all (fun c => c.sound && decide (a ≠ 47)) = true := by
  decide +kernel

theorem code_ordinary {a : Nat} {c : Command} (here : code a = some c) : ∃ i, c = .ordinary i := by
  unfold code at here
  split at here
  · obtain ⟨i, _, rfl⟩ := Option.map_eq_some_iff.mp here
    exact ⟨i, rfl⟩
  · split at here
    · cases here
    · obtain ⟨i, _, rfl⟩ := Option.map_eq_some_iff.mp here
      exact ⟨i, rfl⟩

theorem code_low {a : Nat} {c : Command} (here : code a = some c) : a < 82 := by
  by_contra above
  unfold code at here
  rw [if_neg (by omega), if_neg (by omega), List.getElem?_eq_none (by
    show 34 ≤ a - 48
    omega)] at here
  cases here

theorem fixed : Fixed layout where
  code a c here := by
    have low := code_low here
    obtain ⟨i, same⟩ := code_ordinary here
    have check := code_sound a low
    rw [show code a = some c from here, Option.all_some, Bool.and_eq_true] at check
    exact ⟨i, same, check.1, Nat.lt_succ_of_lt low, decide_eq_false (of_decide_eq_true check.2)⟩
  least := by decide
  most := by decide
  vectors := by decide
  cells _ := rfl

/-- The words of the code do not depend on the data. -/
theorem holds (base exp : Nat) : Holds layout (loadProgram (image base exp)).MEM := by
  intro a i here
  have word : (image base exp)[a]? = some i.encode := by
    unfold image
    have lengths : (main.map Instr.encode).length = 45 ∧ (routines.map Instr.encode).length = 34 :=
      ⟨rfl, rfl⟩
    have low := code_low here
    replace here : code a = some (.ordinary i) := here
    unfold code at here
    split at here
    · next main_part =>
      obtain ⟨i', found, same⟩ := Option.map_eq_some_iff.mp here
      cases same
      rw [List.append_assoc, List.append_assoc, List.getElem?_append_left
        (by rw [lengths.1]; exact main_part), List.getElem?_map, found]
      rfl
    · split at here
      · cases here
      · obtain ⟨i', found, same⟩ := Option.map_eq_some_iff.mp here
        cases same
        rw [List.getElem?_append_left (by simp only [List.length_append, lengths]; simp; omega),
          List.getElem?_append_right (by simp only [List.length_append, lengths]; simp; omega)]
        simp only [List.length_append, lengths, List.length_cons, List.length_nil,
          List.getElem?_map, Nat.reduceAdd]
        rw [found]
        rfl
  unfold loadProgram
  dsimp only
  rw [word]
  rfl

end SystemsProjects.Pow
