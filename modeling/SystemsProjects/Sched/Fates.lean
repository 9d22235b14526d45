import Mathlib.Data.Finset.Card
import SystemsProjects.Sched.Accounting
import SystemsProjects.Sched.Threads

/-!
# What becomes of a process

`simulate_io` and `simulate_creat` call `wake_up` for a process that is nowhere: they
need no promise that a process is woken once for each time it yields. Each process has a
fate, and the steps of the supervisor keep it.
-/

namespace SystemsProjects.Sched

def SupervisorPc.creating : SupervisorPc → Bool
  | .waking created | .forcing _ _ created | .woke created => created
  | _ => false

/-- Processes for which `simulate_creat` has called `wake_up`. -/
def Sim.spawned (s : Sim) : Nat := s.processesCreated + s.supervisor.creating.toNat

/-- A process here stays or is scheduled. -/
def Sim.Staying (s : Sim) : Place → Prop
  | .queue | .waker _ => True
  | .cpu c => s.parting c = none
  | .leaving _ => False

/-- A process here is about to wait for its I/O request. -/
def Sim.Blocking (s : Sim) : Place → Prop
  | .queue | .waker _ => False
  | .cpu c => s.parting c = some .yield
  | .leaving _ => True

/-- The process on the CPU is among `processes_terminated`. -/
def Sim.Counted (s : Sim) (c : Nat) : Prop := s.thread c = .counted ∨ s.thread c = .handling

def Sim.AtEnd (s : Sim) (p : Nat) : Prop := ∃ rest, s.ops p = .terminate :: rest

/-- What has become of a process: it is not created, is to run, has an I/O request, is to
be counted as terminated, or has been counted. -/
inductive Lot
  | new | active | io | ending | ended
  deriving DecidableEq

/-- The lot of process `p`, the queue being `xs`. -/
inductive Sim.Fate (s : Sim) (xs : List Nat) (p : Nat) : Lot → Prop
  | new (later : s.spawned ≤ p) (gone : s.sys.Gone xs p) (once : OncePerYield s.sys p)
      (quiet : s.requests p = []) : s.Fate xs p .new
  | runs {l} (created : p < s.spawned) (here : s.sys.At xs p l) (stays : s.Staying l)
      (quiet : s.requests p = []) : s.Fate xs p .active
  | blocks {l} (created : p < s.spawned) (here : s.sys.At xs p l) (blocks : s.Blocking l)
      (request : (s.requests p).length = 1) : s.Fate xs p .io
  | waits (created : p < s.spawned) (gone : s.sys.Gone xs p) (once : OncePerYield s.sys p)
      (request : (s.requests p).length = 1) : s.Fate xs p .io
  | ends {c} (created : p < s.spawned) (here : s.sys.At xs p (.cpu c))
      (parting : s.parting c = some .terminate) (counted : ¬ s.Counted c) (finished : s.AtEnd p)
      (quiet : s.requests p = []) : s.Fate xs p .ending
  | counted {c} (created : p < s.spawned) (here : s.sys.At xs p (.cpu c))
      (parting : s.parting c = some .terminate) (counted : s.Counted c) (finished : s.AtEnd p)
      (quiet : s.requests p = []) : s.Fate xs p .ended
  | ended (created : p < s.spawned) (gone : s.sys.Gone xs p) (finished : s.AtEnd p)
      (quiet : s.requests p = []) : s.Fate xs p .ended

/-- The queue is `xs`, each process has a fate, and `processes_terminated` is the number
of those that have ended. -/
structure Sim.Kept (cfg : Config) (s : Sim) (xs : List Nat) : Prop where
  inv : Inv cfg s.sys xs
  inTable : ∀ request ∈ s.ioQueue, request.1 < cfg.processCount
  fates : ∀ p < cfg.processCount, ∃ lot, s.Fate xs p lot
  counted : ∃ done : Finset Nat, done.card = s.processesTerminated ∧
    ∀ p, p ∈ done ↔ p < cfg.processCount ∧ s.Fate xs p .ended

variable {cfg : Config} {s t : Sim} {xs ys : List Nat} {p c n : Nat} {lot : Lot} {l : Place}
  {e : CpuState}

/-! ## One process -/

/-- A process at a place has not both left its CPU for good and stayed. -/
theorem Sim.Staying.parting (stays : s.Staying l) (inv : Inv cfg s.sys xs)
    (there : s.sys.At xs p l) (here : s.sys.At xs p (.cpu c)) : s.parting c = none := by
  obtain rfl := inv.unique p l (.cpu c) there here
  exact stays

/-- No process has two fates. -/
theorem Sim.Fate.unique {other : Lot} (fate : s.Fate xs p lot) (inv : Inv cfg s.sys xs)
    (fate' : s.Fate xs p other) : lot = other := by
  -- who runs, ends or has ended has no request
  have quiet : ∀ {rest : List UInt32}, s.requests p = rest → rest.length = 1 →
      s.requests p ≠ [] := by
    rintro rest rfl one none
    rw [none] at one
    cases one
  cases fate with
  | new later =>
    cases fate' with
    | new => rfl
    | runs created | blocks created | waits created => omega
    | ends created | counted created | ended created => omega
  | runs created here stays none =>
    cases fate' with
    | new later => omega
    | runs => rfl
    | blocks _ _ _ one | waits _ _ _ one => exact absurd none (quiet rfl one)
    | ends _ there parting | counted _ there parting =>
      exact absurd ((stays.parting inv here there).symm.trans parting) (by simp)
    | ended _ gone => exact absurd here (gone _)
  | blocks created _ _ one | waits created _ _ one =>
    cases fate' with
    | new later => omega
    | runs _ _ _ none | ended _ _ _ none => exact absurd none (quiet rfl one)
    | ends _ _ _ _ _ none | counted _ _ _ _ _ none => exact absurd none (quiet rfl one)
    | blocks | waits => rfl
  | @ends c created here parting before _ none =>
    cases fate' with
    | new later => omega
    | runs _ there stays =>
      exact absurd ((stays.parting inv there here).symm.trans parting) (by simp)
    | blocks _ _ _ one | waits _ _ _ one => exact absurd none (quiet rfl one)
    | ends => rfl
    | @counted d _ there _ counted =>
      obtain rfl : d = c := by simpa using inv.unique p (.cpu d) (.cpu c) there here
      exact absurd counted before
    | ended _ gone => exact absurd here (gone _)
  | @counted c created here parting before _ none =>
    cases fate' with
    | new later => omega
    | runs _ there stays =>
      exact absurd ((stays.parting inv there here).symm.trans parting) (by simp)
    | blocks _ _ _ one | waits _ _ _ one => exact absurd none (quiet rfl one)
    | @ends d _ there _ counted =>
      obtain rfl : d = c := by simpa using inv.unique p (.cpu d) (.cpu c) there here
      exact absurd before counted
    | counted | ended => rfl
  | ended created gone _ none =>
    cases fate' with
    | new later => omega
    | runs _ here | ends _ here => exact absurd here (gone _)
    | blocks _ _ _ one | waits _ _ _ one => exact absurd none (quiet rfl one)
    | counted | ended => rfl

/-- A fate that no step of another thread changes. -/
theorem Sim.Fate.congr (fate : s.Fate xs p lot)
    (same : ∀ l, t.sys.At ys p l ↔ s.sys.At xs p l)
    (parting : ∀ c, s.sys.At xs p (.cpu c) → t.parting c = s.parting c)
    (counted : ∀ c, s.sys.At xs p (.cpu c) → s.parting c = some .terminate →
      (t.Counted c ↔ s.Counted c))
    (once : s.sys.Gone xs p → OncePerYield s.sys p → OncePerYield t.sys p)
    (requests : (t.requests p).length = (s.requests p).length) (ops : s.AtEnd p → t.AtEnd p)
    (spawned : p < t.spawned ↔ p < s.spawned) : t.Fate ys p lot := by
  have still : s.requests p = [] → t.requests p = [] := fun quiet =>
    List.length_eq_zero_iff.mp (requests.trans (congrArg List.length quiet))
  have gone : s.sys.Gone xs p → t.sys.Gone ys p := fun gone l here => gone l ((same l).mp here)
  cases fate with
  | new later none before quiet =>
    exact .new (not_lt.mp (fun now => absurd (spawned.mp now) (by omega))) (gone none)
      (once none before) (still quiet)
  | @runs l created here stays quiet =>
    refine .runs (spawned.mpr created) ((same l).mpr here) ?_ (still quiet)
    cases l with
    | queue | waker w => trivial
    | cpu c => exact (parting c here).trans stays
    | leaving c => exact stays
  | @blocks l created here blocks request =>
    refine .blocks (spawned.mpr created) ((same l).mpr here) ?_ (requests.trans request)
    cases l with
    | queue | waker w => exact blocks
    | cpu c => exact (parting c here).trans blocks
    | leaving c => trivial
  | waits created none before request =>
    exact .waits (spawned.mpr created) (gone none) (once none before) (requests.trans request)
  | @ends c created here parts before finished quiet =>
    exact .ends (spawned.mpr created) ((same _).mpr here) ((parting c here).trans parts)
      (fun now => before ((counted c here parts).mp now)) (ops finished) (still quiet)
  | @counted c created here parts before finished quiet =>
    exact .counted (spawned.mpr created) ((same _).mpr here) ((parting c here).trans parts)
      ((counted c here parts).mpr before) (ops finished) (still quiet)
  | ended created none finished quiet =>
    exact .ended (spawned.mpr created) (gone none) (ops finished) (still quiet)

/-- One step for all processes, none of which is counted. -/
theorem Sim.Kept.turn (k : s.Kept cfg xs) (inv : Inv cfg t.sys ys)
    (inTable : ∀ request ∈ t.ioQueue, request.1 < cfg.processCount)
    (fates : ∀ p < cfg.processCount, ∀ lot, s.Fate xs p lot →
      ∃ now, t.Fate ys p now ∧ (now = .ended ↔ lot = .ended))
    (terminated : t.processesTerminated = s.processesTerminated) : t.Kept cfg ys where
  inv := inv
  inTable := inTable
  fates p hp := by
    obtain ⟨lot, fate⟩ := k.fates p hp
    obtain ⟨now, after, _⟩ := fates p hp lot fate
    exact ⟨now, after⟩
  counted := by
    obtain ⟨done, card, counted⟩ := k.counted
    refine ⟨done, card.trans terminated.symm, fun p => (counted p).trans ?_⟩
    refine and_congr_right fun hp => ⟨fun fate => ?_, fun fate => ?_⟩
    · obtain ⟨now, after, same⟩ := fates p hp _ fate
      exact same.mpr rfl ▸ after
    · obtain ⟨lot, before⟩ := k.fates p hp
      obtain ⟨now, after, same⟩ := fates p hp lot before
      exact same.mp (after.unique inv fate) ▸ before

/-- One step that changes the lot of no process. -/
theorem Sim.Kept.next (k : s.Kept cfg xs) (inv : Inv cfg t.sys ys)
    (inTable : ∀ request ∈ t.ioQueue, request.1 < cfg.processCount)
    (fates : ∀ p < cfg.processCount, ∀ lot, s.Fate xs p lot → t.Fate ys p lot)
    (terminated : t.processesTerminated = s.processesTerminated) : t.Kept cfg ys :=
  k.turn inv inTable (fun p hp lot fate => ⟨lot, fates p hp lot fate, Iff.rfl⟩) terminated

theorem parting_inside (threads : s.Threads) (inside : s.sys.cpu c ≠ .outside) :
    s.thread c = .handling ∧ s.parting c = (s.sys.cpu c).parting := by
  have pc : s.thread c = .handling := by
    by_contra away
    exact inside ((threads.handling c).mpr away)
  refine ⟨pc, ?_⟩
  rw [Sim.parting, Sim.Threads.owes_handling pc]
  rfl

/-- What a section of a handler does to a fate. -/
theorem Sim.Fate.goes {u : Sys} (fate : s.Fate xs p lot) (inv : Inv cfg s.sys xs)
    (after : Inv cfg u ys) (threads : s.Threads) (goes : Goes s.sys u xs ys p)
    (inside : Inside s.sys u) : (s.setSys u).Fate ys p lot := by
  cases goes with
  | @stays l was now parting =>
    refine fate.congr (fun l' => ?_) (fun c here => ?_) (fun _ _ _ => Iff.rfl)
      (fun gone => absurd was (gone l)) rfl id Iff.rfl
    · constructor
      · intro here
        exact after.unique p l' l here now ▸ was
      · intro here
        exact inv.unique p l' l here was ▸ now
    · have same := parting c (inv.unique p l (.cpu c) was here)
      simp only [Sim.parting, Sim.setSys, same]
      rfl
  | @moves l l' was now before moved =>
    -- neither an event of its CPU nor its end
    have free : ∀ c, l = .cpu c → s.parting c = none := by
      rintro c rfl
      exact (parting_inside threads before.1).2.trans before.2
    have stays : (s.setSys u).Staying l' := by
      cases l' with
      | queue | waker w => trivial
      | leaving c => exact moved
      | cpu c =>
        have away : s.sys.cpu c ≠ .outside := fun out => moved.1 ((inside.1 c).mp out)
        have owes : (s.setSys u).owes c = none :=
          Sim.Threads.owes_handling (parting_inside threads away).1
        show (((s.setSys u).owes c).bind CpuState.parting).or (u.cpu c).parting = none
        rw [owes, moved.2]
        rfl
    cases fate with
    | new _ gone | waits _ gone | ended _ gone => exact absurd was (gone l)
    | runs created here _ quiet => exact .runs created now stays quiet
    | @blocks l₂ created here blocks =>
      obtain rfl := inv.unique p l₂ l here was
      cases l₂ with
      | queue | waker w => exact blocks.elim
      | cpu c => exact absurd ((free c rfl).symm.trans blocks) (by simp)
      | leaving c => exact before.elim
    | @ends c created here parting | @counted c created here parting =>
      obtain rfl := inv.unique p (.cpu c) l here was
      exact absurd ((free c rfl).symm.trans parting) (by simp)
  | @leaves c was pc now =>
    have parting : s.parting c = some .yield := by
      rw [(parting_inside threads (by simp [pc])).2, pc]
      rfl
    cases fate with
    | new _ gone | waits _ gone | ended _ gone => exact absurd was (gone _)
    | @runs l created here stays =>
      obtain rfl := inv.unique p l (.cpu c) here was
      exact absurd (parting.symm.trans stays) (by simp)
    | blocks created _ _ request => exact .blocks created now trivial request
    | @ends d created here parts | @counted d created here parts =>
      obtain rfl : d = c := by simpa using inv.unique p (.cpu d) (.cpu c) here was
      exact absurd (parting.symm.trans parts) (by simp)
  | @ends c was pc gone =>
    have inside' := parting_inside threads (c := c) (by simp [pc])
    have parting : s.parting c = some .terminate := by
      rw [inside'.2, pc]
      rfl
    cases fate with
    | new _ gone | waits _ gone | ended _ gone => exact absurd was (gone _)
    | @runs l created here stays =>
      obtain rfl := inv.unique p l (.cpu c) here was
      exact absurd (parting.symm.trans stays) (by simp)
    | @blocks l created here blocks =>
      obtain rfl := inv.unique p l (.cpu c) here was
      exact absurd (parting.symm.trans blocks) (by simp)
    | @ends d created here _ counted =>
      obtain rfl : d = c := by simpa using inv.unique p (.cpu d) (.cpu c) here was
      exact absurd (Or.inr inside'.1) counted
    | counted created _ _ _ finished quiet => exact .ended created gone finished quiet
  | gone was now once =>
    cases fate with
    | new later _ before quiet => exact .new later now (once before) quiet
    | runs _ here | blocks _ here | ends _ here | counted _ here => exact absurd here (was _)
    | waits created _ before request => exact .waits created now (once before) request
    | ended created _ finished quiet => exact .ended created now finished quiet

/-! ## The supervisor -/

/-- Nothing but the supervisor moves on, or a thread outside of the handlers. -/
theorem Sim.Kept.frame (k : s.Kept cfg xs) (sys : t.sys = s.sys)
    (parting : ∀ c, t.parting c = s.parting c)
    (counted : ∀ c, s.parting c = some .terminate → (t.Counted c ↔ s.Counted c))
    (ioQueue : t.ioQueue = s.ioQueue) (ops : t.ops = s.ops) (spawned : t.spawned = s.spawned)
    (terminated : t.processesTerminated = s.processesTerminated) : t.Kept cfg xs := by
  refine k.next (sys ▸ k.inv) (ioQueue ▸ k.inTable) (fun p _ lot fate => ?_) terminated
  refine fate.congr (fun l => by rw [sys]) (fun c _ => parting c) (fun c _ => counted c)
    (fun _ once => sys ▸ once) ?_ ?_ (by rw [spawned])
  · rw [Sim.requests, ioQueue, Sim.requests]
  · rw [Sim.AtEnd, Sim.AtEnd, ops]
    exact id

/-- Time passes for a process. -/
theorem Inv.tick {u : Sys} (inv : Inv cfg u xs) (q : Nat) :
    Inv cfg (u.setStudent (u.student.tick q)) xs := by
  have same : ∀ r, ((u.student.tick q).pcbs r).next = (u.student.pcbs r).next ∧
      ((u.student.tick q).pcbs r).state = (u.student.pcbs r).state := by
    intro r
    rw [Student.tick, modify_pcbs]
    split <;> exact ⟨rfl, rfl⟩
  refine inv.keep (inv.queued.congr (funext fun r => (same r).1) rfl rfl) (fun r l here => ?_)
    (fun r => ⟨(same r).2, rfl⟩)
  exact ⟨(at_setStudent_iff rfl l).mp here, fun state => by cases l <;> exact id⟩

/-- What `simulate_process` does to the fates. -/
structure Simulates (n p : Nat) (s : Sim) (event : Option CpuState) (t : Sim) : Prop where
  sys : t.sys = s.sys ∨ t.sys = s.sys.setStudent (s.sys.student.tick p)
  others : ∀ q, q ≠ p → t.ops q = s.ops q
  atEnd : s.AtEnd p → t.AtEnd p
  counts : t.processesTerminated = s.processesTerminated ∧
    t.processesCreated = s.processesCreated
  event : event ≠ some .yield ∧ event ≠ some .terminate ∧ t.ioQueue = s.ioQueue ∨
    (event = some .yield ∧ ∃ time, t.ioQueue = s.ioQueue ++ [(p, time)]) ∨
    (event = some .terminate ∧ t.ioQueue = s.ioQueue ∧ t.AtEnd p)

theorem simulateProcess_simulates {event : Option CpuState}
    (ok : s.simulateProcess n p = some (event, t)) : Simulates n p s event t := by
  simp only [Sim.simulateProcess] at ok
  split at ok
  · rename_i time rest now
    have not : ¬ s.AtEnd p := by
      rintro ⟨more, ops⟩
      rw [now] at ops
      cases ops
    split at ok
    · obtain ⟨rfl, rfl⟩ := Prod.mk.inj (Option.some.inj ok)
      refine ⟨Or.inr rfl, fun q ne => if_neg ne, fun atEnd => absurd atEnd not, ⟨rfl, rfl⟩,
        Or.inl ⟨?_, ?_, rfl⟩⟩
      · split <;> simp
      · split <;> simp
    · split at ok
      · cases ok
        exact ⟨Or.inl rfl, fun q ne => if_neg ne, fun atEnd => absurd atEnd not, ⟨rfl, rfl⟩,
          Or.inr (Or.inl ⟨rfl, _, rfl⟩)⟩
      · cases ok
        exact ⟨Or.inl rfl, fun q ne => if_neg ne, fun atEnd => absurd atEnd not, ⟨rfl, rfl⟩,
          Or.inr (Or.inr ⟨rfl, rfl, _, if_pos rfl⟩)⟩
      · cases ok
        exact ⟨Or.inl rfl, fun q ne => if_neg ne, fun atEnd => absurd atEnd not, ⟨rfl, rfl⟩,
          Or.inl ⟨by simp, by simp, rfl⟩⟩
      · cases ok
  · cases ok
    exact ⟨Or.inl rfl, fun _ _ => rfl, id, ⟨rfl, rfl⟩, Or.inl ⟨by simp, by simp, rfl⟩⟩
  · cases ok
    exact ⟨Or.inl rfl, fun _ _ => rfl, id, ⟨rfl, rfl⟩, Or.inl ⟨by simp, by simp, rfl⟩⟩
  · cases ok

theorem Simulates.of_log {event : Option CpuState} {label : Label}
    (simulates : Simulates n p (s.log label) event t) : Simulates n p s event t :=
  ⟨simulates.sys, simulates.others, simulates.atEnd, simulates.counts, simulates.event⟩

theorem Simulates.inv {event : Option CpuState} (simulates : Simulates n p s event t)
    (inv : Inv cfg s.sys xs) :
    Inv cfg t.sys xs ∧ (∀ q l, t.sys.At xs q l ↔ s.sys.At xs q l) ∧ t.sys.cpu = s.sys.cpu ∧
      ∀ q, OncePerYield s.sys q → OncePerYield t.sys q := by
  rcases simulates.sys with same | same
  · rw [same]
    exact ⟨inv, fun _ _ => Iff.rfl, rfl, fun _ => id⟩
  · rw [same]
    exact ⟨inv.tick p, fun _ l => at_setStudent_iff rfl l, rfl, fun _ => id⟩

/-- A process whose CPU has no event to handle is to run. -/
theorem Sim.Fate.active (fate : s.Fate xs p lot) (inv : Inv cfg s.sys xs)
    (here : s.sys.At xs p (.cpu n)) (parting : s.parting n = none) :
    lot = .active ∧ p < s.spawned ∧ s.requests p = [] := by
  cases fate with
  | new _ gone | waits _ gone | ended _ gone => exact absurd here (gone _)
  | runs created _ _ quiet => exact ⟨rfl, created, quiet⟩
  | @blocks l _ there blocks =>
    obtain rfl := inv.unique p l (.cpu n) there here
    exact absurd (parting.symm.trans blocks) (by simp)
  | @ends c _ there parts | @counted c _ there parts =>
    obtain rfl : c = n := by simpa using inv.unique p (.cpu c) (.cpu n) there here
    exact absurd (parting.symm.trans parts) (by simp)

/-- A process that a CPU runs, outside of a handler and with no event to handle. -/
theorem Sim.Kept.current (k : s.Kept cfg xs) (threads : s.Threads)
    (up : s.supervisor.asleepOn = none) (current : (s.data n).current = some p) :
    p < cfg.processCount ∧ s.sys.At xs p (.cpu n) ∧ s.parting n = none ∧ p < s.spawned ∧
      s.requests p = [] := by
  have free := threads.free up n
  have away : s.thread n ≠ .handling := fun pc =>
    free (Or.inr (Or.inr ⟨pc, by simp [current]⟩))
  have out := (threads.handling n).mpr away
  have here : s.sys.At xs p (.cpu n) := by
    simp only [Sys.At, out, CpuPc.holds]
    exact (threads.current n away).symm.trans current
  have parting : s.parting n = none := by
    by_contra parts
    exact free (Or.inl parts)
  have hp := k.inv.inTable p _ here
  obtain ⟨lot, fate⟩ := k.fates p hp
  exact ⟨hp, here, parting, (fate.active k.inv here parting).2⟩

theorem Sim.Kept.simulate (k : s.Kept cfg xs) (pc : s.supervisor = .cpus n)
    (inTable : p < cfg.processCount)
    (ok : (s.log (.simulate n)).simulateProcess n p = some (none, t)) :
    (t.setSupervisor (.cpus (n + 1))).Kept cfg xs := by
  obtain ⟨_, supervisor, thread, state, _⟩ := simulateProcess_frame ok
  have simulates := simulateProcess_simulates ok
  obtain ⟨inv, places, cpu, once⟩ := simulates.inv k.inv
  have ioQueue : t.ioQueue = s.ioQueue := by
    rcases simulates.event with ⟨_, _, same⟩ | ⟨event, _⟩ | ⟨event, _⟩
    · exact same
    · cases event
    · cases event
  refine k.next inv (fun request mem => k.inTable request (ioQueue ▸ mem)) (fun q _ lot fate => ?_)
    simulates.counts.1
  refine fate.congr (places q) (fun c _ => ?_) (fun c _ _ => ?_) (fun _ => once q) ?_ ?_ ?_
  · exact parting_congr (congrFun thread c) (state c) (congrArg CpuPc.parting (congrFun cpu c))
  · exact iff_of_eq (congrArg (fun pcs : Nat → ThreadPc => pcs c = .counted ∨ pcs c = .handling)
      thread)
  · show (t.requests q).length = _
    rw [Sim.requests, ioQueue, Sim.requests]
  · by_cases same : q = p
    · subst same
      exact simulates.atEnd
    · rintro ⟨rest, ops⟩
      exact ⟨rest, (simulates.others q same).trans ops⟩
  · show q < t.processesCreated + 0 ↔ q < s.processesCreated + s.supervisor.creating.toNat
    rw [simulates.counts.2, pc]
    rfl

theorem raise_parting (there : s.thread c = .asleep ∨ s.thread c = .awake)
    (out : s.sys.cpu c = .outside) (event : e.event = some e) (d : Nat) :
    (s.raise c e).parting d = if d = c then e.parting else s.parting d := by
  by_cases same : d = c
  · subst same
    have sys := (raise_current s d e d).2
    have owes : (s.raise d e).owes d = some e := by
      simp [Sim.owes, raise_thread there, raise_state, event]
    rw [if_pos rfl, Sim.parting, owes, sys, out]
    cases h : e.parting <;> simp [h, CpuPc.parting]
  · rw [if_neg same]
    refine parting_congr ?_ ?_ ?_
    · exact (raise_thread there).trans (if_neg same)
    · exact raise_state.trans (if_neg same)
    · rw [(raise_current s c e c).2]

theorem raise_frame (s : Sim) (c : Nat) (e : CpuState) : (s.raise c e).ops = s.ops ∧
    (s.raise c e).ioQueue = s.ioQueue ∧
    (s.raise c e).processesTerminated = s.processesTerminated ∧
    (s.raise c e).processesCreated = s.processesCreated := by
  unfold Sim.raise
  simp only [Sim.log]
  split <;> exact ⟨rfl, rfl, rfl, rfl⟩

theorem at_cpu_unique {u : Sys} {q : Nat} (here : u.At xs p (.cpu c)) (there : u.At xs q (.cpu c)) :
    q = p :=
  Option.some.inj (there.symm.trans here)

theorem requests_append {q : Nat} {time : UInt32} (queue : t.ioQueue = s.ioQueue ++ [(p, time)]) :
    t.requests q = s.requests q ++ if p = q then [time] else [] := by
  simp only [Sim.requests, queue, List.filterMap_append]
  by_cases same : p = q
  · simp [same]
  · simp [same]

/-- The thread of CPU `n` has been given an event of its process `p`. -/
structure Raised (n p : Nat) (xs : List Nat) (s : Sim) (e : CpuState) (t : Sim) : Prop where
  places : ∀ q l, t.sys.At xs q l ↔ s.sys.At xs q l
  once : ∀ q, OncePerYield s.sys q → OncePerYield t.sys q
  thread : ∀ c, t.thread c = if c = n then .awake else s.thread c
  parting : ∀ c, t.parting c = if c = n then e.parting else s.parting c
  others : ∀ q, q ≠ p → t.ops q = s.ops q
  spawned : t.spawned = s.spawned
  event : e.parting = none ∧ t.ioQueue = s.ioQueue ∨
    (e = .yield ∧ ∃ time, t.ioQueue = s.ioQueue ++ [(p, time)]) ∨
    (e = .terminate ∧ t.ioQueue = s.ioQueue ∧ t.AtEnd p)

/-- Its process is to run on, to wait for its I/O request, or to be counted. -/
theorem Raised.own (raised : Raised n p xs s e t) (here : s.sys.At xs p (.cpu n))
    (created : p < s.spawned) (quiet : s.requests p = []) :
    ∃ now, t.Fate xs p now ∧ now ≠ .ended := by
  have created : p < t.spawned := raised.spawned ▸ created
  have here : t.sys.At xs p (.cpu n) := (raised.places p _).mpr here
  have parting : t.parting n = e.parting := (raised.parting n).trans (if_pos rfl)
  have still : t.ioQueue = s.ioQueue → t.requests p = [] := by
    intro queue
    rw [Sim.requests, queue]
    exact quiet
  rcases raised.event with ⟨none, queue⟩ | ⟨rfl, time, queue⟩ | ⟨rfl, queue, atEnd⟩
  · exact ⟨_, .runs created here (parting.trans none) (still queue), by simp⟩
  · refine ⟨_, .blocks created here parting ?_, by simp⟩
    rw [requests_append queue, quiet, if_pos rfl]
    rfl
  · refine ⟨_, .ends created here parting ?_ atEnd (still queue), by simp⟩
    rw [Sim.Counted, raised.thread, if_pos rfl]
    simp

theorem Raised.other {q : Nat} (raised : Raised n p xs s e t) (here : s.sys.At xs p (.cpu n))
    (ne : q ≠ p) (fate : s.Fate xs q lot) : t.Fate xs q lot := by
  have away : ∀ c, s.sys.At xs q (.cpu c) → c ≠ n := by
    rintro c at' rfl
    exact ne (at_cpu_unique here at')
  have requests : (t.requests q).length = (s.requests q).length := by
    rcases raised.event with ⟨_, queue⟩ | ⟨_, time, queue⟩ | ⟨_, queue, _⟩
    · rw [Sim.requests, queue, Sim.requests]
    · rw [requests_append queue, if_neg (Ne.symm ne), List.append_nil]
    · rw [Sim.requests, queue, Sim.requests]
  refine fate.congr (raised.places q) (fun c at' => ?_) (fun c at' _ => ?_)
    (fun _ => raised.once q) requests ?_ (by rw [raised.spawned])
  · rw [raised.parting, if_neg (away c at')]
  · rw [Sim.Counted, Sim.Counted, raised.thread, if_neg (away c at')]
  · rintro ⟨rest, before⟩
    exact ⟨rest, (raised.others q ne).trans before⟩

theorem Raised.inTable (raised : Raised n p xs s e t) (hp : p < cfg.processCount)
    (before : ∀ request ∈ s.ioQueue, request.1 < cfg.processCount) :
    ∀ request ∈ t.ioQueue, request.1 < cfg.processCount := by
  rcases raised.event with ⟨_, queue⟩ | ⟨_, time, queue⟩ | ⟨_, queue, _⟩
  · rwa [queue]
  · rw [queue]
    intro request mem
    rcases List.mem_append.mp mem with mem | mem
    · exact before request mem
    · rw [List.mem_singleton.mp mem]
      exact hp
  · rwa [queue]

/-- `simulate_process` with the event it raises. -/
theorem Simulates.raised {pc : SupervisorPc} (simulates : Simulates n p s (some e) t)
    (inv : Inv cfg s.sys xs) (thread : t.thread = s.thread)
    (state : ∀ c, (t.data c).state = (s.data c).state) (event : e.event = some e)
    (there : s.thread n = .asleep ∨ s.thread n = .awake) (out : s.sys.cpu n = .outside)
    (quiet : s.supervisor.creating = false) (creating : pc.creating = false) :
    Raised n p xs s e ((t.raise n e).setSupervisor pc) := by
  obtain ⟨-, places, cpu, once⟩ := simulates.inv inv
  obtain ⟨ops, ioQueue, -, created⟩ := raise_frame t n e
  have sys : ((t.raise n e).setSupervisor pc).sys = t.sys := (raise_current t n e n).2
  have there : t.thread n = .asleep ∨ t.thread n = .awake := thread ▸ there
  refine ⟨sys ▸ places, sys ▸ once, fun c => ?_, fun c => ?_, fun q ne => ?_, ?_, ?_⟩
  · rw [← thread]
    exact raise_thread there
  · refine (raise_parting there ((congrFun cpu n).trans out) event c).trans ?_
    by_cases same : c = n
    · rw [if_pos same, if_pos same]
    · rw [if_neg same, if_neg same]
      exact parting_congr (congrFun thread c) (state c) (congrArg CpuPc.parting (congrFun cpu c))
  · exact (congrFun ops q).trans (simulates.others q ne)
  · show (t.raise n e).processesCreated + pc.creating.toNat =
      s.processesCreated + s.supervisor.creating.toNat
    rw [created, simulates.counts.2, quiet, creating]
  · rcases simulates.event with ⟨noYield, noEnd, queue⟩ | ⟨yields, time, queue⟩ |
      ⟨ends, queue, rest, atEnd⟩
    · refine Or.inl ⟨?_, ioQueue.trans queue⟩
      cases e with
      | idle | running | preempt => rfl
      | yield => exact absurd rfl noYield
      | terminate => exact absurd rfl noEnd
    · exact Or.inr (Or.inl ⟨Option.some.inj yields, time, ioQueue.trans queue⟩)
    · exact Or.inr (Or.inr ⟨Option.some.inj ends, ioQueue.trans queue, rest,
        (congrFun ops p).trans atEnd⟩)

theorem Sim.Kept.simulateEvent (k : s.Kept cfg xs) (threads : s.Threads) (sound : s.Sound)
    (pc : s.supervisor = .cpus n) (current : (s.data n).current = some p)
    (running : (s.data n).state = .running)
    (ok : (s.log (.simulate n)).simulateProcess n p = some (some e, t)) :
    ((t.raise n e).setSupervisor (.waiting n false)).Kept cfg xs := by
  obtain ⟨_, supervisor, thread, state, events⟩ := simulateProcess_frame ok
  have simulates := (simulateProcess_simulates ok).of_log
  have up : s.supervisor.asleepOn = none := by simp [pc, SupervisorPc.asleepOn]
  obtain ⟨hp, here, parting, created, quiet⟩ := k.current threads up current
  have out : s.sys.cpu n = .outside := by
    refine (threads.handling n).mpr ?_
    rcases sound.running n running with pc | pc <;> simp [pc]
  have raised : Raised n p xs s e ((t.raise n e).setSupervisor (.waiting n false)) :=
    simulates.raised k.inv thread state (events e rfl) (sound.running n running) out
      (by rw [pc]; rfl) rfl
  have sys : ((t.raise n e).setSupervisor (.waiting n false)).sys = t.sys :=
    (raise_current t n e n).2
  refine k.turn (sys ▸ (simulates.inv k.inv).1) (raised.inTable hp k.inTable)
    (fun q hq lot fate => ?_) ((raise_frame t n e).2.2.1.trans simulates.counts.1)
  by_cases same : q = p
  · subst same
    obtain rfl := (fate.active k.inv here parting).1
    obtain ⟨now, after, more⟩ := raised.own here created quiet
    exact ⟨now, after, iff_of_false more (by decide)⟩
  · exact ⟨lot, raised.other here same fate, Iff.rfl⟩

theorem signal_creating (pc : SupervisorPc) (c : Nat) : (pc.signal c).creating = pc.creating := by
  cases pc with
  | waiting d woken | forcing d woken created => cases woken <;> rfl
  | sleeping | cpus _ | io | waking _ | woke _ | creat | tick | exited => rfl

theorem Sim.Kept.forcePreempt {v : Nat} {created : Bool} (k : s.Kept cfg xs) (threads : s.Threads)
    (sound : s.Sound) (pc : s.supervisor = .waking created)
    (running : (s.data v).state = .running) :
    ((s.raise v .preempt).setSupervisor (.forcing v false created)).Kept cfg xs := by
  have there := sound.running v running
  have away : s.thread v ≠ .handling := by
    rcases there with pc | pc <;> simp [pc]
  have up : s.supervisor.asleepOn = none := by simp [pc, SupervisorPc.asleepOn]
  have free : s.parting v = none := by
    by_contra parts
    exact threads.free up v (Or.inl parts)
  obtain ⟨ops, ioQueue, terminated, wereCreated⟩ := raise_frame s v .preempt
  have sys := (raise_current s v .preempt v).2
  have parts : ∀ c, ((s.raise v .preempt).setSupervisor (.forcing v false created)).parting c =
      s.parting c := by
    intro c
    refine (raise_parting there ((threads.handling v).mpr away) rfl c).trans ?_
    split
    · rename_i same
      rw [same, free]
      rfl
    · rfl
  refine k.next (sys ▸ k.inv) (fun request mem => k.inTable request (ioQueue ▸ mem))
    (fun q _ lot fate => ?_) terminated
  refine fate.congr (fun l => ?_) (fun c _ => parts c) (fun c _ parting => ?_) (fun _ once => ?_)
    ?_ ?_ ?_
  · show (s.raise v .preempt).sys.At xs q l ↔ _
    rw [sys]
  · have ne : c ≠ v := by
      rintro rfl
      exact absurd (free.symm.trans parting) (by simp)
    have pc : ((s.raise v .preempt).setSupervisor (.forcing v false created)).thread c =
        s.thread c := (raise_thread there).trans (if_neg ne)
    rw [Sim.Counted, Sim.Counted, pc]
  · show OncePerYield (s.raise v .preempt).sys q
    rw [sys]
    exact once
  · show (Sim.requests (s.raise v .preempt) q).length = _
    rw [Sim.requests, ioQueue, Sim.requests]
  · rintro ⟨rest, before⟩
    exact ⟨rest, (congrFun ops q).trans before⟩
  · show q < (s.raise v .preempt).processesCreated + created.toNat ↔
      q < s.processesCreated + s.supervisor.creating.toNat
    rw [wereCreated, pc]
    rfl

/-- `wake_up` returns. -/
theorem Sim.Kept.wakeUpReturns {created : Bool} (k : s.Kept cfg xs)
    (creating : s.supervisor.creating = created) (holds : (s.sys.waker 0).holds = none) :
    (s.wakeUpReturns created).Kept cfg xs := by
  refine k.next (k.inv.rest rfl) k.inTable (fun q _ lot fate => ?_) rfl
  have outside : WakerPc.outside.holds = (s.sys.waker 0).holds := holds.symm
  refine fate.congr (fun l => at_setWaker_same outside l) (fun _ _ => rfl)
    (fun _ _ _ => Iff.rfl) (fun _ => id) rfl id ?_
  show q < s.processesCreated + created.toNat ↔ q < s.processesCreated + s.supervisor.creating.toNat
  rw [creating]

/-- The supervisor calls `wake_up` for a process that is nowhere. -/
theorem Sim.Kept.callWakeUp {created : Bool} (k : s.Kept cfg xs) (hp : p < cfg.processCount)
    (once : OncePerYield s.sys p) (out : s.sys.waker 0 = .outside)
    (alive : ¬ s.Fate xs p .ended)
    (inTable : ∀ request ∈ t.ioQueue, request.1 < cfg.processCount) (sys : t.sys = s.sys)
    (thread : t.thread = s.thread) (data : t.data = s.data)
    (others : ∀ q, q ≠ p → t.requests q = s.requests q ∧ t.ops q = s.ops q ∧
      (q < (t.callWakeUp p created).spawned ↔ q < s.spawned))
    (quiet : t.requests p = []) (now : p < (t.callWakeUp p created).spawned)
    (terminated : t.processesTerminated = s.processesTerminated) :
    (t.callWakeUp p created).Kept cfg xs := by
  obtain ⟨ys, after⟩ := k.inv.step (.callWakeUp (w := 0) out hp once)
  obtain rfl := after.list_eq k.inv.queued
  have sys' : (t.callWakeUp p created).sys = (s.sys.markAwoken p).setWaker 0 (.readying p) := by
    rw [← sys]
    rfl
  refine k.turn (sys' ▸ after) inTable (fun q _ lot fate => ?_) terminated
  by_cases same : q = p
  · rw [same] at fate ⊢
    have other : lot ≠ .ended := fun ended => alive (ended ▸ fate)
    refine ⟨_, .runs (l := .waker 0) now ?_ trivial quiet, iff_of_false (by simp) other⟩
    rw [sys']
    simp [Sys.At, Sys.setWaker, WakerPc.holds]
  · obtain ⟨requests, ops, spawned⟩ := others q same
    refine ⟨lot, fate.congr (fun l => ?_) (fun c _ => ?_) (fun c _ _ => ?_) (fun _ before => ?_)
      (congrArg List.length requests) ?_ spawned, Iff.rfl⟩
    · rw [sys']
      by_cases waker : l = .waker 0
      · subst waker
        simp [Sys.At, Sys.setWaker, WakerPc.holds, out, Ne.symm same]
      · exact at_setWaker_other waker
    · exact parting_congr (congrFun thread c) (congrArg (fun d => (d c).state) data)
        (by rw [sys']; rfl)
    · show t.thread c = _ ∨ t.thread c = _ ↔ _
      rw [thread]
      rfl
    · rw [sys']
      exact once_congr (s := s.sys) rfl rfl (by simp [Sys.markAwoken, Sys.setWaker, same]) before
    · rintro ⟨rest, before⟩
      exact ⟨rest, ops.trans before⟩

/-- The supervisor does not sleep, and `p` has a request: it waits for it. -/
theorem Sim.Kept.waiting (k : s.Kept cfg xs) (threads : s.Threads)
    (up : s.supervisor.asleepOn = none) (hp : p < cfg.processCount)
    (request : s.requests p ≠ []) :
    OncePerYield s.sys p ∧ p < s.spawned ∧ (s.requests p).length = 1 ∧
      ¬ s.Fate xs p .ended := by
  have alive : ¬ s.Fate xs p .ended := by
    rintro (_ | _ | _ | _ | _ | ⟨_, _, _, _, _, quiet⟩ | ⟨_, _, _, quiet⟩)
    · exact request quiet
    · exact request quiet
  obtain ⟨lot, fate⟩ := k.fates p hp
  cases fate with
  | new _ _ _ quiet | runs _ _ _ quiet | ended _ _ _ quiet => exact absurd quiet request
  | ends _ _ _ _ _ quiet | counted _ _ _ _ _ quiet => exact absurd quiet request
  | @blocks l _ here blocks =>
    refine absurd ?_ request
    cases l with
    | queue | waker w => exact blocks.elim
    | cpu c => exact absurd (Or.inl (by rw [blocks]; simp)) (threads.free up c)
    | leaving c =>
      have left : (s.sys.cpu c).leaving = some p := here
      exact absurd (Or.inr (Or.inl (by simp [left]))) (threads.free up c)
  | waits created _ once one => exact ⟨once, created, one, alive⟩

/-- Time passes for the request at the head of the queue. -/
theorem Sim.Kept.ioBusy {time : UInt32} {rest : List (Nat × UInt32)} (k : s.Kept cfg xs)
    (pc : s.supervisor = .io) (head : s.ioQueue = (p, time) :: rest) :
    (Sim.setSupervisor { s.tickProcess p with
      ioQueue := (p, time - 1) :: rest } .creat).Kept cfg xs := by
  refine k.next (k.inv.tick p) (fun request mem => ?_) (fun q _ lot fate => ?_) rfl
  · rcases List.mem_cons.mp mem with same | later
    · exact same ▸ k.inTable (p, time) (head ▸ List.mem_cons_self)
    · exact k.inTable request (head ▸ List.mem_cons_of_mem _ later)
  · refine fate.congr (fun l => at_setStudent_iff rfl l) (fun _ _ => rfl) (fun _ _ _ => Iff.rfl)
      (fun _ => id) ?_ id ?_
    · show ((((p, time - 1) :: rest).filterMap fun request =>
        if request.1 = q then some request.2 else none)).length = (s.requests q).length
      rw [Sim.requests, head]
      by_cases same : p = q <;> simp [same]
    · show q < s.processesCreated + 0 ↔ q < s.processesCreated + s.supervisor.creating.toNat
      rw [pc]
      rfl

theorem Sim.Kept.ioDone {rest : List (Nat × UInt32)} {ops : List Op}
    (k : s.Kept cfg xs) (threads : s.Threads) (waking : s.Waking) (pc : s.supervisor = .io)
    (head : s.ioQueue = (p, 0) :: rest) :
    (Sim.callWakeUp { s.setOps p ops with ioQueue := rest } p false).Kept cfg xs := by
  have hp : p < cfg.processCount := k.inTable (p, 0) (head ▸ List.mem_cons_self)
  have requests : ∀ q, s.requests q = (if p = q then [0] else []) ++
      Sim.requests { s.setOps p ops with ioQueue := rest } q := by
    intro q
    simp only [Sim.requests, head]
    by_cases same : p = q <;> simp [same]
  obtain ⟨once, created, one, alive⟩ := k.waiting threads
    (by simp [pc, SupervisorPc.asleepOn]) hp (by rw [requests, if_pos rfl]; simp)
  refine k.callWakeUp hp once (waking.outside (by rw [pc]; rfl)) alive ?_ rfl rfl rfl ?_ ?_ ?_ rfl
  · exact fun request mem => k.inTable request (head ▸ List.mem_cons_of_mem _ mem)
  · intro q ne
    refine ⟨?_, if_neg ne, ?_⟩
    · rw [requests q, if_neg (Ne.symm ne)]
      rfl
    · show q < s.processesCreated + 0 ↔ q < s.processesCreated + s.supervisor.creating.toNat
      rw [pc]
      rfl
  · rw [requests, if_pos rfl] at one
    exact List.length_eq_zero_iff.mp (by simpa using one)
  · show p < s.processesCreated + 0
    have created : p < s.processesCreated + s.supervisor.creating.toNat := created
    rw [pc] at created
    exact created

theorem Sim.Kept.creat (k : s.Kept cfg xs) (waking : s.Waking) (pc : s.supervisor = .creat)
    (more : s.processesCreated < cfg.processCount) :
    (s.callWakeUp s.processesCreated true).Kept cfg xs := by
  have spawned : s.spawned = s.processesCreated := by
    rw [Sim.spawned, pc]
    rfl
  have fresh : ∀ {lot}, s.Fate xs s.processesCreated lot → lot = .new ∧
      OncePerYield s.sys s.processesCreated ∧ s.requests s.processesCreated = [] := by
    intro lot fate
    cases fate with
    | new _ _ once quiet => exact ⟨rfl, once, quiet⟩
    | runs created | blocks created | waits created => omega
    | ends created | counted created | ended created => omega
  obtain ⟨lot, fate⟩ := k.fates _ more
  obtain ⟨-, once, quiet⟩ := fresh fate
  refine k.callWakeUp more once (waking.outside (by rw [pc]; rfl))
    (fun fate => absurd (fresh fate).1 (by simp)) k.inTable rfl rfl rfl
    (fun q ne => ⟨rfl, rfl, ?_⟩) quiet ?_ rfl
  · show q < s.processesCreated + 1 ↔ _
    omega
  · exact Nat.lt_succ_self s.processesCreated

end SystemsProjects.Sched
