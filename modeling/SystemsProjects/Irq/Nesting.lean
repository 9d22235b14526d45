import SystemsProjects.Irq.Frames
import SystemsProjects.Irq.Views

/-!
# Nested interrupts

While handlers interrupt each other, each has its frame below the stack pointer of what it
interrupted, and the program at the bottom keeps its view.
-/

namespace SystemsProjects.Irq

open Lc Register

/-- The processor `p` runs on top of the states that it interrupted. -/
inductive Stack (v : View) (mem : Nat → Nat) : List Processor → Processor → Prop
  | program {p : Processor} (sees : v.Sees mem p) : Stack v mem [] p
  | handler {c t : Processor} {rest : List Processor} {got : Source → Nat}
      (below : Stack v mem rest c)
      (enabled : c.IE = true) (handles : Handles got mem c t) : Stack v mem (c :: rest) t

namespace Stack

variable {v v' : View} {mem mem' : Nat → Nat} {waiting : List Processor} {c p t : Processor}

theorem sees (stack : Stack v mem waiting p) : ∀ a x, v.MEM a = some x → mem a = x := by
  induction stack with
  | program sees => exact sees.MEM
  | handler _ _ _ ih => exact ih

theorem enabled (stack : Stack v mem waiting p) (on : p.IE = true ∨ waiting ≠ []) :
    v.IE = true := by
  induction stack with
  | program sees =>
    obtain on | more := on
    · rw [← sees.IE, on]
    · exact absurd rfl more
  | handler _ enabled _ ih => exact ih (Or.inl enabled)

/-- Handlers push below the stack pointer of the program. -/
theorem high (stack : Stack v mem waiting p) : p.REGS sp ≤ v.REGS sp := by
  induction stack with
  | program sees => exact (sees.REGS sp (by decide)).le
  | handler _ _ handles ih =>
    obtain ⟨sh, _, holds⟩ := handles
    have depth := holds.stack
    omega

/-- What is written below the stack pointer or to a shared cell disturbs nobody. -/
theorem frame (stack : Stack v mem waiting p) (sound : v.Sound View.prj2Layout)
    (top : v.REGS sp ≤ 0xA000)
    (same : ∀ a, ¬(175 ≤ a ∧ a < p.REGS sp) → ¬Shared a → mem' a = mem a) :
    Stack v mem' waiting p := by
  induction stack with
  | program sees =>
    refine .program ⟨sees.PC, sees.REGS, ?_, sees.IE⟩
    intro a x known
    rw [same a, sees.MEM a x known]
    · rintro ⟨low, below⟩
      rw [sees.REGS sp (by decide)] at below
      rw [sound.below a (by rw [View.prj2Layout, length_prj2]; exact low) below] at known
      cases known
    · intro shared
      rw [sound.cells a (decide_eq_true shared)] at known
      cases known
  | handler below enabled handles ih =>
    have high := below.high
    obtain ⟨sh, shape, holds⟩ := handles
    have depth := holds.stack
    have outer := ih (fun a outside own => same a (by omega) own)
    refine .handler outer enabled ⟨sh, shape, holds.frame ?_⟩
    intro a above below'
    apply same a (by omega)
    intro shared
    have := shared.1
    omega

/-- What was interrupted goes on as before. -/
theorem resume (stack : Stack v mem waiting c) (on : c.IE = true) (resumes : Resumes c p) :
    Stack v mem waiting p := by
  cases stack with
  | program sees =>
    refine .program ⟨resumes.PC.trans sees.PC, ?_, sees.MEM, ?_⟩
    · intro r other
      rw [resumes.REGS r other, sees.REGS r other]
    · rw [resumes.IE, ← on, sees.IE]
  | handler below enabled handles =>
    exact .handler below enabled (handles.resume on resumes)

end Stack

/-- The entry of the handler of a device. -/
def entry (device : Fin 2) : Nat := View.prj2Layout.vector device

/-- What one step can do: `waiting` and `p` before it, `waiting'` and `p'` after it. -/
inductive Turn (request : Option (Fin 2)) (value : Nat) :
    List Processor → Processor → List Processor → Processor → Prop
  | halted {waiting p} (stopped : p.HALTED = true) : Turn request value waiting p waiting p
  | interrupt {waiting p} (device : Fin 2) (taken : p.taken request = some device)
      (vector : p.accessMem device = entry device) :
      Turn request value waiting p (p :: waiting) (p.interrupt device)
  | program {p} (cmd : Command) (running : p.HALTED = false) (taken : p.taken request = none)
      (here : code p.PC = some cmd) (more : cmd ≠ .reti) (unread : ∀ dr addr, cmd ≠ .input dr addr)
      (own : p.IE = true → (cmd.effect value p).IE = true ∧
        ∀ a, Shared a → (cmd.effect value p).MEM a = p.MEM a) :
      Turn request value [] p [] (cmd.effect value p)
  | handler {c rest p} (cmd : Command) (running : p.HALTED = false) (taken : p.taken request = none)
      (here : code p.PC = some cmd) (more : cmd ≠ .reti) :
      Turn request value (c :: rest) p (c :: rest) (cmd.effect value p)
  | returns {c rest p} (running : p.HALTED = false) (taken : p.taken request = none)
      (here : code p.PC = some .reti) (resumes : Resumes c (Command.reti.effect value p)) :
      Turn request value (c :: rest) p rest (Command.reti.effect value p)

/-- The state of a run in which the program at the bottom has the view `v`. -/
structure Nested (v : View) (waiting : List Processor) (p : Processor) : Prop where
  stack : Stack v p.MEM waiting p
  sound : v.Sound View.prj2Layout
  zero : p.REGS 0 = 0
  loaded : Loaded p.MEM
  stopped : p.HALTED = true → waiting = [] ∧ code v.PC = some (.ordinary .halt)

section

variable {p : Processor} {request : Option (Fin 2)} {value : Nat} {cmd : Command}

theorem next_halted (stopped : p.HALTED = true) : p.next request value = p := if_pos stopped

theorem next_taken {device : Fin 2} (taken : p.taken request = some device)
    (running : p.HALTED = false) :
    p.next request value = p.interrupt device := by
  unfold Processor.next
  rw [running, taken]
  rfl

theorem next_command (taken : p.taken request = none) (running : p.HALTED = false)
    (loaded : Loaded p.MEM) (here : code p.PC = some cmd) :
    p.next request value = cmd.effect value p := by
  unfold Processor.next
  rw [running, taken]
  show (p.cycle value).getD p = _
  rw [loaded.cycle here value, Option.getD_some]

theorem taken_some {device : Fin 2} (taken : p.taken request = some device) :
    p.HALTED = false ∧ p.IE = true := by
  unfold Processor.taken at taken
  split at taken
  · next ready => exact ready
  · cases taken

variable {v v' : View} {waiting : List Processor}

theorem waiting_halted (stopped : p.HALTED = true) : p.waiting request waiting = waiting := by
  unfold Processor.waiting Processor.taken Processor.Returning
  simp [stopped]

theorem waiting_taken {device : Fin 2} (taken : p.taken request = some device) :
    p.waiting request waiting = p :: waiting := by
  unfold Processor.waiting
  rw [taken]
  rfl

theorem waiting_command (taken : p.taken request = none) (running : p.HALTED = false)
    (loaded : Loaded p.MEM) (here : code p.PC = some cmd) :
    p.waiting request waiting = if cmd = .reti then waiting.tail else waiting := by
  unfold Processor.waiting
  rw [taken]
  simp only [Option.isSome_none, Bool.false_eq_true, if_false, loaded.returning_iff here running]

theorem along_entry (device : Fin 2) : Shape.along (entry device) = some Shape.entry := by
  have first : ∀ pc sh rest, (Shape.trace pc sh (rest + 1)).lookup pc = some sh := by
    intro pc sh rest
    exact List.lookup_cons_self
  match device with
  | 0 => rfl
  | 1 =>
    have before : (Shape.trace (address .timer_handler) Shape.entry 26).lookup (entry 1) = none :=
      Option.isNone_iff_eq_none.mp (by decide +kernel)
    have second : entry 1 = address .distance_tracker_handler := by simp [entry, View.prj2Layout]
    unfold Shape.along Shape.table
    simp only [List.lookup_append]
    rw [before, second, first _ Shape.entry 21]
    simp only [Option.none_or, Option.some_or]

/-- The processor enters a handler whose frame is still empty. -/
theorem Nested.interrupt (nested : Nested v waiting p) (device : Fin 2) (on : p.IE = true)
    (running : p.HALTED = false) :
    p.accessMem device = entry device ∧ Nested v (p :: waiting) (p.interrupt device) := by
  have vector : p.accessMem device = entry device := by
    have word := nested.sound.vectors (nested.stack.enabled (Or.inl on)) device
    rw [Facts.accessMem_low (by omega)]
    exact nested.stack.sees _ _ word
  have other : ∀ r, r ≠ k0 → (p.interrupt device).REGS r = p.REGS r := by
    intro r other
    exact Function.update_of_ne other ..
  have zero : (p.interrupt device).REGS 0 = 0 := by rw [other 0 (by decide), nested.zero]
  have holds : Shape.entry.Holds (fun _ => 0) p.MEM p (p.interrupt device) := by
    constructor
    · exact other sp (by decide)
    · intro k r _ _ here
      cases here
    · intro r link _ _
      exact other r link
    · intro r s known
      unfold Shape.entry Facts.base at known
      dsimp only at known
      split at known
      · next first =>
        cases Option.some.inj known
        rw [first, zero]
        rfl
      · cases known
    · intro _
      exact Function.update_self k0 p.PC p.REGS
    · rfl
  refine ⟨vector, ⟨.handler nested.stack on ⟨_, ?_, holds⟩, nested.sound, zero, nested.loaded, ?_⟩⟩
  · show Shape.along (p.accessMem device) = _
    rw [vector, along_entry]
  · intro stopped
    replace stopped : p.HALTED = true := stopped
    rw [running] at stopped
    cases stopped

theorem effect_zero (zero : p.REGS 0 = 0) : (cmd.effect value p).REGS 0 = 0 := by
  cases cmd with
  | ordinary i => exact Function.update_self 0 0 (i.act p.toMachine).REGS
  | input dr addr => exact Function.update_self 0 0 (p.setReg dr value).REGS
  | _ => exact zero

theorem effect_HALTED (more : cmd ≠ .ordinary .halt) : (cmd.effect value p).HALTED = p.HALTED := by
  cases cmd with
  | ordinary i => exact Instr.effect_HALTED (by rintro rfl; exact more rfl)
  | _ => rfl

/-- The program does not write the fixed words of its image. -/
theorem View.Keeps.loaded {p' : Processor} (keeps : View.Keeps View.prj2Layout v p p')
    (loaded : Loaded p.MEM) : Loaded p'.MEM := by
  intro a content here fixed
  obtain ⟨low, _⟩ := List.getElem?_eq_some_iff.mp here
  rw [← loaded a content here fixed]
  apply keeps.word
  · apply decide_eq_false
    rintro ⟨above, _⟩
    rw [length_prj2] at low
    omega
  · rintro (own | ⟨above, _⟩ | ⟨vector, _⟩)
    · exact fixed.2 (of_decide_eq_true own)
    · exact absurd low (by simpa [View.prj2Layout] using above)
    · exact absurd fixed.1 (by omega)

/-- The program at the bottom makes a step of its own. -/
theorem Nested.program (nested : Nested v [] p) (running : p.HALTED = false)
    (step : v.step View.prj2Layout = some v') (value : Nat) :
    ∃ cmd, code p.PC = some cmd ∧ cmd ≠ .reti ∧ (∀ dr addr, cmd ≠ .input dr addr) ∧
      (p.IE = true → (cmd.effect value p).IE = true ∧ ∀ a, Shared a → (cmd.effect value p).MEM a =
      p.MEM a) ∧
      Nested v' [] (cmd.effect value p) := by
  cases stack : nested.stack with
  | program sees =>
    cases here : View.prj2Layout.code v.PC with
    | none =>
      unfold View.step at step
      rw [here] at step
      cases step
    | some cmd =>
      have small : 2 ≤ View.prj2Layout.size := by
        show 2 ≤ prj2.length
        rw [length_prj2]
        decide
      have others : ∀ a < 2, View.prj2Layout.own a = false := by
        intro a low
        apply decide_eq_false
        rw [address_ANS]
        omega
      obtain ⟨after, sound, keeps⟩ := sees.step nested.sound small others here step value
      have plain : cmd ≠ .reti ∧ cmd ≠ .ordinary .halt ∧ cmd ≠ .di ∧
          ∀ dr addr, cmd ≠ .input dr addr := by
        unfold View.step at step
        rw [here] at step
        refine ⟨?_, ?_, ?_, ?_⟩
        · rintro rfl
          cases step
        · rintro rfl
          cases step
        · rintro rfl
          cases step
        · rintro dr addr rfl
          cases step
      refine ⟨cmd, by rw [sees.PC]; exact here, plain.1, plain.2.2.2, ?_, .program after, sound,
        effect_zero nested.zero, keeps.loaded nested.loaded, ?_⟩
      · intro on
        refine ⟨?_, fun a shared => keeps.cell a (decide_eq_true shared) (by rw [← sees.IE, on])⟩
        cases cmd with
        | ordinary i => exact on
        | ei => rfl
        | di => exact absurd rfl plain.2.2.1
        | reti => exact absurd rfl plain.1
        | input dr addr => exact absurd rfl (plain.2.2.2 dr addr)
      · rw [effect_HALTED plain.2.1, running]
        nofun

/-- A handler makes a step and does not return yet. -/
theorem Nested.handler {c : Processor} (nested : Nested v (c :: waiting) p)
    (running : p.HALTED = false) (low : 175 ≤ p.REGS sp) (here : code p.PC = some cmd)
    (more : cmd ≠ .reti) :
    Nested v (c :: waiting) (cmd.effect value p) := by
  have top := nested.sound.room.2
  cases stack : nested.stack with
  | handler below on handles =>
    have high := below.high
    have room : Shape.Sheltered (c.REGS sp) := Shape.sheltered_low (high.trans top)
    obtain ⟨sh, next, shape, proper, after, writes⟩ :=
      handles.step nested.zero nested.loaded low room here more value
    have depth : p.REGS sp ≤ c.REGS sp := by
      obtain ⟨sh, _, holds⟩ := handles
      have := holds.stack
      omega
    have outer : Stack v (cmd.effect value p).MEM waiting c := by
      apply below.frame nested.sound top
      intro a outside own
      exact writes a (by omega) own
    refine ⟨.handler outer on after, nested.sound, effect_zero nested.zero, ?_, ?_⟩
    · intro a content word fixed
      rw [← nested.loaded a content word fixed]
      obtain ⟨small, _⟩ := List.getElem?_eq_some_iff.mp word
      rw [length_prj2] at small
      apply writes a (by omega)
      rintro ⟨above, _⟩
      omega
    · have going : cmd ≠ .ordinary .halt := by
        rintro rfl
        cases proper
      rw [effect_HALTED going, running]
      nofun

theorem Nested.returns {c : Processor} (nested : Nested v (c :: waiting) p)
    (running : p.HALTED = false) (here : code p.PC = some .reti) (value : Nat) :
    Resumes c (Command.reti.effect value p) ∧ Nested v waiting (Command.reti.effect value p) := by
  have top := nested.sound.room.2
  cases stack : nested.stack with
  | handler below on handles =>
    have resumes := handles.return here value
    exact ⟨resumes, below.resume on resumes, nested.sound, nested.zero, nested.loaded, by
      intro stopped
      replace stopped : p.HALTED = true := stopped
      rw [running] at stopped
      cases stopped⟩

/-- The program comes to its end. -/
theorem Nested.halt (nested : Nested v [] p) (here : code v.PC = some (.ordinary .halt)) :
    Nested v [] ((Command.ordinary .halt).effect value p) := by
  have same : Function.update p.REGS 0 0 = p.REGS := by rw [← nested.zero, Function.update_eq_self]
  cases stack : nested.stack with
  | program sees =>
    refine ⟨.program ⟨sees.PC, ?_, sees.MEM, sees.IE⟩, nested.sound, effect_zero nested.zero,
      nested.loaded, fun _ => ⟨rfl, here⟩⟩
    show ∀ r, r ≠ k0 → Function.update p.REGS 0 0 r = v.REGS r
    rw [same]
    exact sees.REGS

/-- The views that the program may have, each but the last followed by another one. -/
def Proceeds (Program : View → Prop) : Prop :=
  ∀ v, Program v → code v.PC = some (.ordinary .halt) ∨
    ∃ v', v.step View.prj2Layout = some v' ∧ Program v'

/-- One step of the processor, whoever runs. -/
theorem Nested.turn {Program : View → Prop} (proceeds : Proceeds Program) (program : Program v)
    (nested : Nested v waiting p) (low : 175 ≤ p.REGS sp) (request : Option (Fin 2)) (value : Nat) :
    ∃ v', Program v' ∧ Turn request value waiting p (p.waiting request waiting)
      (p.next request value) ∧
      Nested v' (p.waiting request waiting) (p.next request value) := by
  cases running : p.HALTED with
  | true =>
    rw [next_halted running, waiting_halted running]
    exact ⟨v, program, .halted running, nested⟩
  | false =>
    cases taken : p.taken request with
    | some device =>
      obtain ⟨vector, after⟩ := nested.interrupt device (taken_some taken).2 running
      rw [next_taken taken running, waiting_taken taken]
      exact ⟨v, program, .interrupt device taken vector, after⟩
    | none =>
      cases stack : nested.stack with
      | program sees =>
        obtain last | ⟨v', step, program'⟩ := proceeds v program
        · have here : code p.PC = some (.ordinary .halt) := by rw [sees.PC, last]
          rw [next_command taken running nested.loaded here,
            waiting_command taken running nested.loaded here, if_neg nofun]
          exact ⟨v, program, .program _ running taken here nofun nofun (fun on =>
            ⟨on, fun _ _ => rfl⟩), nested.halt last⟩
        · obtain ⟨cmd, here, more, unread, own, after⟩ := nested.program running step value
          rw [next_command taken running nested.loaded here,
            waiting_command taken running nested.loaded here, if_neg more]
          exact ⟨v', program', .program cmd running taken here more unread own, after⟩
      | @handler c _ rest got below on handles =>
        obtain ⟨cmd, here⟩ := handles.command
        rw [next_command taken running nested.loaded here,
          waiting_command taken running nested.loaded here]
        by_cases last : cmd = .reti
        · subst last
          rw [if_pos rfl]
          obtain ⟨resumes, after⟩ := nested.returns running here value
          exact ⟨v, program, .returns running taken here resumes, after⟩
        · rw [if_neg last]
          exact ⟨v, program, .handler cmd running taken here last,
            nested.handler running low here last⟩

end

/-! ## Runs -/

section

variable {σ : Schedule} {p : Processor}

theorem Started.loaded (started : Started p) : Loaded p.MEM :=
  fun a content here _ => started.image a content here

/-- The processor when `main` has its stack. -/
def booted (p : Processor) : Processor :=
  { p with PC := address .main + 2, REGS := Function.update p.REGS sp 0xA000 }

/-- What `main` may rely on from then on. -/
def bootedView (p : Processor) : View where
  PC := address .main + 2
  REGS := Function.update p.REGS sp 0xA000
  MEM a := if 175 ≤ a ∧ a < 0xA000 ∨ Shared a then none else some (p.MEM a)
  IE := false

/-- The first two instructions cannot be interrupted. -/
theorem run_booted (started : Started p) :
    (run σ p 1).IE = false ∧ run σ p 2 = booted p ∧ suspended σ p 2 = [] := by
  have masked : ∀ q : Processor, q.IE = false → ∀ request, q.taken request = none := by
    intro q off request
    unfold Processor.taken
    simp [off]
  have place : address .main = 8 := by decide +kernel
  have first : code 8 = some (.ordinary (.lea sp 161)) := by decide +kernel
  have second : code 9 = some (.ordinary (.lw sp sp 0)) := by decide +kernel
  have PC : p.PC = 8 := by rw [started.entry, place]
  have kept : ∀ v : Nat, Function.update (Function.update p.REGS sp v) 0 0 =
      Function.update p.REGS sp v := by
    intro v
    have zero : Function.update p.REGS sp v 0 = 0 := by
      rw [Function.update_of_ne (by decide), started.zero]
    exact Function.update_eq_self_iff.mpr zero.symm
  have one : run σ p 1 = { p with PC := 9, REGS := Function.update p.REGS sp 170 } := by
    show p.next _ _ = _
    rw [next_command (masked p started.disabled _) started.running started.loaded
      (by rw [PC]; exact first)]
    show { p with
      PC := wrap (p.PC + 1)
      REGS := Function.update (Function.update p.REGS sp (wrap (p.PC + 1 + 161))) 0 0 } = _
    rw [PC, kept]
    rfl
  have stored : p.MEM 170 = 0xA000 := by
    have word : prj2[170]? = some (.datum 0xA000) := by decide +kernel
    rw [started.image _ _ word]
    rfl
  have two : run σ p 2 = booted p := by
    show (run σ p 1).next _ _ = _
    rw [one, next_command (p := { p with PC := 9, REGS := Function.update p.REGS sp 170 })
      (masked _ started.disabled _) started.running started.loaded second]
    have base : Function.update p.REGS sp 170 sp = 170 := Function.update_self sp 170 p.REGS
    show { p with
      PC := wrap (9 + 1)
      REGS := Function.update (Function.update (Function.update p.REGS sp 170) sp
        (p.accessMem (wrap ((Function.update p.REGS sp 170 sp : Nat) + 0)))) 0 0 } = _
    rw [base, Facts.accessMem_low (a := wrap ((170 : Nat) + 0)) (by decide)]
    rw [show wrap ((170 : Nat) + 0) = 170 from by decide, stored, Function.update_idem, kept]
    unfold booted
    rw [place]
    rfl
  refine ⟨by rw [one]; exact started.disabled, two, ?_⟩
  show (run σ p 1).waiting _ ((run σ p 0).waiting _ []) = []
  rw [one]
  show Processor.waiting _ _ (p.waiting _ []) = []
  rw [waiting_command (masked p started.disabled _) started.running started.loaded
    (by rw [PC]; exact first), if_neg nofun]
  rw [waiting_command (p := { p with PC := 9, REGS := Function.update p.REGS sp 170 })
    (masked _ started.disabled _) started.running started.loaded second, if_neg nofun]

theorem nested_booted (started : Started p) : Nested (bootedView p) [] (booted p) := by
  have other : ∀ r, r ≠ sp → (booted p).REGS r = p.REGS r := by
    intro r other
    exact Function.update_of_ne other ..
  refine ⟨.program ⟨rfl, fun _ _ => rfl, ?_, started.disabled⟩, ⟨?_, ?_, nofun, ?_⟩, ?_,
    started.loaded, ?_⟩
  · intro a x known
    unfold bootedView at known
    dsimp only at known
    split at known
    · cases known
    · exact Option.some.inj known
  · intro a low below
    have top : (bootedView p).REGS sp = 0xA000 := Function.update_self sp 0xA000 p.REGS
    rw [top] at below
    replace low : 175 ≤ a := by rw [← length_prj2]; exact low
    exact if_pos (Or.inl ⟨low, below⟩)
  · intro a shared
    exact if_pos (Or.inr (of_decide_eq_true shared))
  · have top : (bootedView p).REGS sp = 0xA000 := Function.update_self sp 0xA000 p.REGS
    rw [top]
    decide
  · rw [other 0 (by decide), started.zero]
  · intro stopped
    replace stopped : p.HALTED = true := stopped
    rw [started.running] at stopped
    cases stopped

/-- The stack never reaches down to the image, from the time on when there is a stack. -/
def Clear (σ : Schedule) (p : Processor) : Prop := ∀ n, 2 ≤ n → prj2.length ≤ (run σ p n).REGS sp

/-- Whatever interrupts are taken, the processor is nested properly. -/
theorem run_nested {Program : View → Prop} (proceeds : Proceeds Program)
    (start : Program (bootedView p)) (started : Started p) (n : Nat)
    (clear : ∀ m, 2 ≤ m → m < n + 2 → 175 ≤ (run σ p m).REGS sp) :
    ∃ v, Program v ∧ Nested v (suspended σ p (n + 2)) (run σ p (n + 2)) := by
  induction n with
  | zero =>
    obtain ⟨_, run, suspended⟩ := run_booted (σ := σ) started
    rw [run, suspended]
    exact ⟨_, start, nested_booted started⟩
  | succ n ih =>
    obtain ⟨v, program, nested⟩ := ih (fun m least less => clear m least (by omega))
    obtain ⟨v', program', _, nested'⟩ :=
      nested.turn proceeds program (clear (n + 2) (by omega) (by omega)) (σ.request (n + 2))
        (σ.value (n + 2))
    exact ⟨v', program', nested'⟩

end

end SystemsProjects.Irq
