import SystemsProjects.Sched.Keeping

/-!
# The exit of the simulator

The supervisor returns when `processes_terminated` has come to the number of processes.
Then each of them has a fate, and no fate but the last is left.
-/

namespace SystemsProjects.Sched

/-- The runs from `start`. -/
inductive Sim.RunFrom (cfg : Config) (ok : Sim → Action → Prop) (start : Sim) : Sim → Prop
  | start : start.Start → Sim.RunFrom cfg ok start start
  | next {s a t} : Sim.RunFrom cfg ok start s → ok s a → Sim.Step cfg s a t →
      Sim.RunFrom cfg ok start t

section

variable {cfg : Config} {s t : Sim} {xs : List Nat} {p c : Nat}

/-! ## The end of a run -/

theorem signal_exited {pc : SupervisorPc} (exited : pc.signal c = .exited) : pc = .exited := by
  cases pc with
  | waiting d woken | forcing d woken created => cases woken <;> cases exited
  | sleeping | cpus _ | io | waking _ | woke _ | creat | tick => cases exited
  | exited => rfl

/-- The supervisor exits when all processes are counted. -/
theorem Sim.Run.exited {ok : Sim → Action → Prop} (run : Sim.Run cfg ok s)
    (exited : s.supervisor = .exited) : cfg.processCount ≤ s.processesTerminated := by
  induction run with
  | start start => cases start.supervisor.symm.trans exited
  | @next s a t _ _ step ih =>
    cases step with
    | lock =>
      simp only [Sim.setSupervisor] at exited
      split at exited
      · rename_i all
        exact all
      · cases exited
    | skip | endCpus | ioNone | creatNot | tick | resume | ioBusy | ioDone | creat => cases exited
    | noVictim | forceNothing | forced | forcePreempt | simulate | simulateEvent => cases exited
    | @woke created => cases created <;> cases exited
    | wakeSpuriously => exact ih (signal_exited exited)
    | @top c =>
      rw [(topOfLoop_counts s c).2]
      refine ih (signal_exited (c := c) ?_)
      rw [← (topOfLoop_spec (s := s) (c := c)).2.1]
      exact exited
    | count => exact (ih exited).trans (Nat.le_succ _)
    | spurious | recheck | callIdle | callPreempt | callYield | callTerminate => exact ih exited
    | neverHappens | contextSwitch | handler => exact ih exited

/-- A process is at the end of its program, and nowhere. -/
theorem Sim.Kept.finished (k : s.Kept cfg xs) (threads : s.Threads)
    (up : s.supervisor.asleepOn = none) (all : cfg.processCount ≤ s.processesTerminated)
    (hp : p < cfg.processCount) : s.sys.Gone xs p ∧ s.AtEnd p ∧ s.requests p = [] := by
  obtain ⟨done, card, counted⟩ := k.counted
  have inside : done ⊆ Finset.range cfg.processCount :=
    fun q mem => Finset.mem_range.mpr ((counted q).mp mem).1
  have full : done = Finset.range cfg.processCount := by
    refine Finset.eq_of_subset_of_card_le inside ?_
    rw [Finset.card_range, card]
    exact all
  have fate := ((counted p).mp (full ▸ Finset.mem_range.mpr hp)).2
  cases fate with
  | @counted c _ _ parting =>
    exact absurd (Or.inl (by rw [parting]; simp)) (threads.free up c)
  | ended _ gone finished quiet => exact ⟨gone, finished, quiet⟩

theorem Sim.Stage.times (stage : s.Stage p) (times : Relation.ReflTransGen TimeStep s t) :
    t.Stage p := by
  induction times with
  | refl => exact stage
  | tail _ step ih => exact (ih.step step).1

theorem Sim.RunFrom.run {ok : Sim → Action → Prop} {start : Sim}
    (run : Sim.RunFrom cfg ok start s) : Sim.Run cfg ok s := by
  induction run with
  | start starts => exact .start starts
  | next _ allowed step ih => exact ih.next allowed step

/-- What is accounted for at the start stays so. -/
theorem Sim.RunFrom.stage {ok : Sim → Action → Prop} {start : Sim}
    (run : Sim.RunFrom cfg ok start s) (prepared : start.Prepared p) : s.Stage p := by
  induction run with
  | start =>
    refine .cpu prepared.alternates ?_ prepared.total
    exact List.filterMap_eq_nil_iff.mpr (fun request mem => if_neg (prepared.quiet request mem))
  | next _ _ step ih => exact ih.times (sim_step_times step)

end

/-! ## One process -/

/-- One CPU, one process, and a time slice of two ticks. -/
def oneCpu : Config := ⟨1, 1, .rr, 0, 2⟩

def program : List Op := [.cpu 1, .io 1, .cpu 1, .terminate]

/-- The process computes, waits for its I/O, and computes again. -/
def oneJob : Sim := { oneBurst with
  sys := idleSys.setStudent { idleSys.student with pcbs := fun _ => ⟨10, .new, none, 0, 0, 3⟩ }
  ops := fun _ => program }

theorem oneJob_start : oneJob.Start :=
  ⟨⟨rfl, rfl, fun _ => rfl, fun _ => rfl, fun _ => rfl, fun _ => rfl, fun _ => rfl, fun _ => rfl,
    fun _ => rfl⟩, fun _ => rfl, fun _ => rfl, rfl, rfl, rfl, rfl, rfl, rfl⟩

theorem oneJob_prepared (p : Nat) : oneJob.Prepared p := ⟨by repeat constructor, rfl, nofun⟩

/-- A state of the run, by what has become of the process. -/
structure Between (s : Sim) (ops : List Op) (time : UInt32) : Prop where
  cpu : s.sys.cpu = fun _ => .outside
  waker : s.sys.waker = fun _ => .outside
  next : s.sys.student.next 0 = none
  ops : s.ops = fun p => if p = 0 then ops else program
  simulatorTime : s.simulatorTime = time
  supervisor : s.supervisor = .sleeping
  processesTerminated : s.processesTerminated = 0

/-- The process is in the queue, and the CPU is about to call `idle`. -/
structure InQueue (s : Sim) (timer : Int) (ops : List Op) (time : UInt32) : Prop extends
    Between s ops time where
  current : s.sys.student.current = fun _ => none
  head : s.sys.student.head = some 0
  tail : s.sys.student.tail = some 0
  data : s.data = fun c => if c = 0 then ⟨none, .idle, timer⟩ else ⟨none, .idle, -1⟩
  thread : s.thread = fun c => if c = 0 then .dispatch .idle else .top
  ioQueue : s.ioQueue = []

/-- The CPU has picked the process up and waits for its events. -/
structure PickedUp (s : Sim) (timer : Int) (ops : List Op) (time : UInt32) : Prop extends
    Between s ops time where
  current : s.sys.student.current = fun c => if c = 0 then some 0 else none
  head : s.sys.student.head = none
  data : s.data = fun c => if c = 0 then ⟨some 0, .running, timer⟩ else ⟨none, .idle, -1⟩
  thread : s.thread = fun c => if c = 0 then .asleep else .top
  ioQueue : s.ioQueue = []

/-- The request of the process has been served, and the CPU is about to call `idle`. -/
structure RequestOver (s : Sim) (ops : List Op) (time : UInt32) : Prop extends
    Between s ops time where
  current : s.sys.student.current = fun _ => none
  head : s.sys.student.head = none
  data : s.data = fun c => if c = 0 then ⟨none, .idle, 2⟩ else ⟨none, .idle, -1⟩
  thread : s.thread = fun c => if c = 0 then .dispatch .idle else .top
  ioQueue : s.ioQueue = [(0, 0)]

section

variable {s : Sim} {timer : Int} {ops rest : List Op} {time : UInt32}

/-- The supervisor creates the process. -/
theorem job_created : ∃ s, Sim.RunFrom oneCpu Prompt oneJob s ∧ InQueue s (-1) program 1 := by
  have may : ∀ s, Prompt s .other := fun _ => trivial
  have s₀ : Sim.RunFrom oneCpu Prompt oneJob oneJob := .start oneJob_start
  have s₁ := s₀.next (may _) (.lock rfl)
  have s₂ := s₁.next (may _) (.skip (n := 0) rfl (by decide) rfl)
  have s₃ := s₂.next (may _) (.endCpus rfl (by decide))
  have s₄ := s₃.next (may _) (.ioNone rfl rfl)
  have s₅ := s₄.next (may _) (.creat rfl rfl (by decide))
  have s₆ := s₅.next (may _) (.handler (.ready (w := 0) rfl)
    (inside_waker (w := 0) (by decide) (by decide) (fun _ => rfl) (fun _ => rfl)))
  have s₇ := s₆.next (may _) (.handler (@Step.enqueue _ _ _ 0 0 0 (fun _ => false) _ rfl rfl
      (signals_none _ (by decide)))
    (inside_waker (w := 0) (by decide) (by decide) (fun _ => rfl) (fun _ => rfl)))
  have s₈ := s₇.next (may _) (@Sim.Step.noVictim _ _ _ 0 (fun _ => 0) rfl rfl rfl)
  have s₉ := s₈.next (may _) (.woke rfl)
  have s₁₀ := s₉.next (may _) (.tick rfl)
  have s₁₁ := s₁₀.next (may _) (.top (c := 0) (by decide) rfl rfl)
  refine ⟨_, s₁₁, ⟨rfl, ?_, rfl, ?_, rfl, rfl, rfl⟩, rfl, rfl, rfl, ?_, ?_, rfl⟩
  · funext w
    cases w <;> rfl
  · funext p
    cases p <;> rfl
  · funext c
    cases c <;> rfl
  · funext c
    cases c <;> rfl

/-- The CPU picks it up. -/
theorem InQueue.pickedUp (here : InQueue s timer ops time)
    (run : Sim.RunFrom oneCpu Prompt oneJob s) :
    ∃ t, Sim.RunFrom oneCpu Prompt oneJob t ∧ PickedUp t 2 ops time := by
  have may : ∀ s, Prompt s .other := fun _ => trivial
  obtain ⟨⟨⟨pcbs, _, _, _⟩, _, _, _, _, _⟩, _, _, _, _, _, _, _, _, _⟩ := s
  obtain ⟨⟨rfl, rfl, next, rfl, rfl, rfl, rfl⟩, rfl, rfl, rfl, rfl, rfl, rfl⟩ := here
  have s₁ := run.next (may _) (.callIdle (c := 0) (by decide) rfl)
  have s₂ := s₁.next (may _) (.handler (.look (c := 0) (by decide) (Or.inl rfl))
    (inside_cpu (c := 0) (ne_of_eq_of_ne (b := .testing) rfl (by decide))
    (ne_of_eq_of_ne (b := .dequeueing none) rfl (by decide)) (fun _ => rfl) rfl))
  have s₃ := s₂.next (may _) (.handler (@Step.dequeue _ _ _ 0 none (fun _ => 0) 0 _ (by decide)
    rfl rfl) (inside_cpu (c := 0) (ne_of_eq_of_ne (b := .dequeueing none) rfl (by decide))
    (by decide) (fun _ => rfl) rfl))
  have s₄ := s₃.next (may _) (.handler (.mark (c := 0) (by decide) rfl)
    (inside_cpu (c := 0) (ne_of_eq_of_ne (b := .marking none 0) rfl (by decide)) (by decide)
    (fun _ => rfl) rfl))
  have s₅ := s₄.next (may _) (.handler (.publish (c := 0) (by decide) rfl)
    (inside_cpu (c := 0) (ne_of_eq_of_ne (b := .publishing none (some 0)) rfl (by decide))
    (by decide) (fun _ => rfl) rfl))
  have s₆ := s₅.next (may _) (.contextSwitch (c := 0) (by decide) rfl rfl rfl)
  have s₇ := s₆.next (may _) (.top (c := 0) (by decide) rfl rfl)
  refine ⟨_, s₇, ⟨?_, rfl, rfl, rfl, rfl, rfl, rfl⟩, ?_, next, ?_, ?_, rfl⟩
  · funext c
    cases c <;> rfl
  · funext c
    cases c <;> rfl
  · funext c
    cases c <;> rfl
  · funext c
    cases c <;> rfl

/-- One round of the supervisor: one tick of the burst. -/
theorem PickedUp.ticks (here : PickedUp s 2 (.cpu 1 :: rest) time)
    (run : Sim.RunFrom oneCpu Prompt oneJob s) (other : time % 10 ≠ 0) :
    ∃ t, Sim.RunFrom oneCpu Prompt oneJob t ∧ PickedUp t 1 (.cpu 0 :: rest) (time + 1) := by
  have may : ∀ s, Prompt s .other := fun _ => trivial
  obtain ⟨⟨⟨pcbs, _, _, _⟩, _, _, _, _, _⟩, _, _, _, _, _, _, _, _, _⟩ := s
  obtain ⟨⟨rfl, rfl, next, rfl, rfl, rfl, rfl⟩, rfl, rfl, rfl, rfl, rfl⟩ := here
  have s₁ := run.next (may _) (.lock rfl)
  have s₂ := s₁.next (a := .simulateProcess 0) (fun _ _ _ => rfl)
    (.simulate (n := 0) (p := 0) rfl (by decide) rfl rfl)
  have s₃ := s₂.next (may _) (.endCpus rfl (by decide))
  have s₄ := s₃.next (may _) (.ioNone rfl rfl)
  have s₅ := s₄.next (may _) (.creatNot rfl fun both => other both.1)
  have s₆ := s₅.next (may _) (.tick rfl)
  refine ⟨_, s₆, ⟨rfl, rfl, next, ?_, rfl, rfl, rfl⟩, rfl, rfl, ?_, rfl, rfl⟩
  · funext p
    cases p <;> rfl
  · funext c
    cases c <;> rfl

/-- The burst ends: the process gives its CPU up, and its request is served. -/
theorem PickedUp.yields (here : PickedUp s timer (.cpu 0 :: .io 1 :: rest) time)
    (run : Sim.RunFrom oneCpu Prompt oneJob s) (other : time % 10 ≠ 0) :
    ∃ t, Sim.RunFrom oneCpu Prompt oneJob t ∧ RequestOver t (.io 1 :: rest) (time + 1) := by
  have may : ∀ s, Prompt s .other := fun _ => trivial
  obtain ⟨⟨⟨pcbs, _, _, _⟩, _, _, _, _, _⟩, _, _, _, _, _, _, _, _, _⟩ := s
  obtain ⟨⟨rfl, rfl, next, rfl, rfl, rfl, rfl⟩, rfl, rfl, rfl, rfl, rfl⟩ := here
  have s₁ := run.next (may _) (.lock rfl)
  have s₂ := s₁.next (a := .simulateProcess 0) (fun _ _ _ => rfl)
    (.simulateEvent (n := 0) (p := 0) (e := .yield) rfl (by decide) rfl rfl)
  have s₃ := s₂.next (may _) (.recheck (c := 0) (by decide) rfl rfl)
  have s₄ := s₃.next (may _) (.callYield (c := 0) (by decide) rfl)
  have s₅ := s₄.next (may _) (.handler (.yield (c := 0) (p := 0) (by decide) rfl rfl)
    (inside_cpu (c := 0) (ne_of_eq_of_ne (b := .yielding) rfl (by decide)) (by decide)
    (fun _ => rfl) rfl))
  have s₆ := s₅.next (may _) (.handler (@Step.dequeueNone _ _ _ 0 (some 0) (fun _ => 0) _
    (by decide) rfl rfl) (inside_cpu (c := 0) (ne_of_eq_of_ne (b := .dequeueing (some 0)) rfl
    (by decide)) (by decide) (fun _ => rfl) rfl))
  have s₇ := s₆.next (may _) (.handler (.publish (c := 0) (by decide) rfl)
    (inside_cpu (c := 0) (ne_of_eq_of_ne (b := .publishing (some 0) none) rfl (by decide))
    (by decide) (fun _ => rfl) rfl))
  have s₈ := s₇.next (may _) (.contextSwitch (c := 0) (by decide) rfl rfl rfl)
  have s₉ := s₈.next (may _) (.top (c := 0) (by decide) rfl rfl)
  have s₁₀ := s₉.next (may _) (.resume rfl)
  have s₁₁ := s₁₀.next (may _) (.endCpus rfl (by decide))
  have s₁₂ := s₁₁.next (may _) (.ioBusy rfl rfl (by decide))
  have s₁₃ := s₁₂.next (may _) (.creatNot rfl fun both => other both.1)
  have s₁₄ := s₁₃.next (may _) (.tick rfl)
  refine ⟨_, s₁₄, ⟨?_, rfl, next, ?_, rfl, rfl, rfl⟩, ?_, rfl, ?_, ?_, rfl⟩
  · funext c
    cases c <;> rfl
  · funext p
    cases p <;> rfl
  · funext c
    cases c <;> rfl
  · funext c
    cases c <;> rfl
  · funext c
    cases c <;> rfl

/-- The supervisor wakes the process up. -/
theorem RequestOver.wakes (here : RequestOver s (.io 1 :: rest) time)
    (run : Sim.RunFrom oneCpu Prompt oneJob s) (other : time % 10 ≠ 0) :
    ∃ t, Sim.RunFrom oneCpu Prompt oneJob t ∧ InQueue t 2 rest (time + 1) := by
  have may : ∀ s, Prompt s .other := fun _ => trivial
  obtain ⟨⟨⟨pcbs, _, _, _⟩, _, _, _, _, _⟩, _, _, _, _, _, _, _, _, _⟩ := s
  obtain ⟨⟨rfl, rfl, next, rfl, rfl, rfl, rfl⟩, rfl, rfl, rfl, rfl, rfl⟩ := here
  have s₁ := run.next (may _) (.lock rfl)
  have s₂ := s₁.next (may _) (.skip (n := 0) rfl (by decide) rfl)
  have s₃ := s₂.next (may _) (.endCpus rfl (by decide))
  have s₄ := s₃.next (may _) (.ioDone rfl rfl rfl)
  have s₅ := s₄.next (may _) (.handler (.ready (w := 0) rfl)
    (inside_waker (w := 0) (ne_of_eq_of_ne (b := .readying 0) rfl (by decide)) (by decide)
    (fun _ => rfl) (fun _ => rfl)))
  have s₆ := s₅.next (may _) (.handler (@Step.enqueue _ _ _ 0 0 0 (fun _ => false) _ rfl rfl
      (signals_none _ fun _ _ asleep => CpuPc.noConfusion asleep))
    (inside_waker (w := 0) (ne_of_eq_of_ne (b := .enqueueing 0) rfl (by decide)) (by decide)
    (fun _ => rfl) (fun _ => rfl)))
  have s₇ := s₆.next (may _) (@Sim.Step.noVictim _ _ _ 0 (fun _ => 0) rfl rfl rfl)
  have s₈ := s₇.next (may _) (.woke rfl)
  have s₉ := s₈.next (may _) (.creatNot rfl fun both => other both.1)
  have s₁₀ := s₉.next (may _) (.tick rfl)
  refine ⟨_, s₁₀, ⟨rfl, ?_, next, ?_, rfl, rfl, rfl⟩, rfl, rfl, rfl, rfl, rfl, rfl⟩
  · funext w
    cases w <;> rfl
  · funext p
    cases p <;> rfl

/-- The process ends, and with it the run. -/
theorem PickedUp.exits (here : PickedUp s timer [.cpu 0, .terminate] time)
    (run : Sim.RunFrom oneCpu Prompt oneJob s) (other : time % 10 ≠ 0) :
    ∃ t, Sim.RunFrom oneCpu Prompt oneJob t ∧ t.supervisor = .exited := by
  have may : ∀ s, Prompt s .other := fun _ => trivial
  obtain ⟨⟨⟨pcbs, _, _, _⟩, _, _, _, _, _⟩, _, _, _, _, _, _, _, _, _⟩ := s
  obtain ⟨⟨rfl, rfl, next, rfl, rfl, rfl, rfl⟩, rfl, rfl, rfl, rfl, rfl⟩ := here
  have s₁ := run.next (may _) (.lock rfl)
  have s₂ := s₁.next (a := .simulateProcess 0) (fun _ _ _ => rfl)
    (.simulateEvent (n := 0) (p := 0) (e := .terminate) rfl (by decide) rfl rfl)
  have s₃ := s₂.next (may _) (.recheck (c := 0) (by decide) rfl rfl)
  have s₄ := s₃.next (may _) (.count (c := 0) (by decide) rfl rfl)
  have s₅ := s₄.next (may _) (.callTerminate (c := 0) (by decide) rfl)
  have s₆ := s₅.next (may _) (.handler (.terminate (c := 0) (p := 0) (by decide) rfl rfl)
    (inside_cpu (c := 0) (ne_of_eq_of_ne (b := .terminating) rfl (by decide)) (by decide)
    (fun _ => rfl) rfl))
  have s₇ := s₆.next (may _) (.handler (@Step.dequeueNone _ _ _ 0 none (fun _ => 0) _ (by decide)
    rfl rfl) (inside_cpu (c := 0) (ne_of_eq_of_ne (b := .dequeueing none) rfl (by decide))
    (by decide) (fun _ => rfl) rfl))
  have s₈ := s₇.next (may _) (.handler (.publish (c := 0) (by decide) rfl)
    (inside_cpu (c := 0) (ne_of_eq_of_ne (b := .publishing none none) rfl (by decide)) (by decide)
    (fun _ => rfl) rfl))
  have s₉ := s₈.next (may _) (.contextSwitch (c := 0) (by decide) rfl rfl rfl)
  have s₁₀ := s₉.next (may _) (.top (c := 0) (by decide) rfl rfl)
  have s₁₁ := s₁₀.next (may _) (.resume rfl)
  have s₁₂ := s₁₁.next (may _) (.endCpus rfl (by decide))
  have s₁₃ := s₁₂.next (may _) (.ioNone rfl rfl)
  have s₁₄ := s₁₃.next (may _) (.creatNot rfl fun both => other both.1)
  have s₁₅ := s₁₄.next (may _) (.tick rfl)
  have s₁₆ := s₁₅.next (may _) (.lock rfl)
  exact ⟨_, s₁₆, rfl⟩

end

theorem job_picked_up : ∃ s, Sim.RunFrom oneCpu Prompt oneJob s ∧ PickedUp s 2 program 1 := by
  obtain ⟨s, run, created⟩ := job_created
  exact created.pickedUp run

theorem job_exits : ∃ s, Sim.RunFrom oneCpu Prompt oneJob s ∧ s.supervisor = .exited := by
  obtain ⟨s, run, here⟩ := job_picked_up
  obtain ⟨s, run, here⟩ := here.ticks run (by decide)
  obtain ⟨s, run, here⟩ := here.yields run (by decide)
  obtain ⟨s, run, here⟩ := here.wakes run (by decide)
  obtain ⟨s, run, here⟩ := here.pickedUp run
  obtain ⟨s, run, here⟩ := here.ticks run (by decide)
  exact here.exits run (by decide)

/-! ## Every run -/

/-- Between the queue, the CPUs and the I/O queue no process is lost, none is at two
places, and each that has ended has been counted once. -/
theorem processes_kept {cfg : Config} {s : Sim} (run : Sim.Run cfg Prompt s) :
    ∃ xs, s.Kept cfg xs ∧ ∀ p < cfg.processCount, ∃! lot, s.Fate xs p lot := by
  obtain ⟨xs, kept⟩ := run.kept
  refine ⟨xs, kept, fun p hp => ?_⟩
  obtain ⟨lot, fate⟩ := kept.fates p hp
  exact ⟨lot, fate, fun other fate' => fate'.unique kept.inv fate⟩

theorem processes_kept_at_exit : ∃ s, Sim.Run oneCpu Prompt s ∧ s.supervisor = .exited ∧
    ∃ xs, s.Kept oneCpu xs ∧ ∀ p < oneCpu.processCount, ∃! lot, s.Fate xs p lot := by
  obtain ⟨s, run, exited⟩ := job_exits
  exact ⟨s, run.run, exited, processes_kept run.run⟩

/-- The simulator wakes a process once for each time it yields, so that each process is
scheduled once. -/
theorem simulator_exclusive {cfg : Config} {s : Sim} (run : Sim.Run cfg Prompt s) :
    Exclusive cfg s.sys := by
  obtain ⟨xs, kept⟩ := run.kept
  exact kept.inv.exclusive

theorem simulator_exclusive_running : ∃ s, Sim.Run oneCpu Prompt s ∧
    s.sys.student.current 0 = some 0 ∧ Exclusive oneCpu s.sys := by
  obtain ⟨s, run, here⟩ := job_picked_up
  exact ⟨s, run.run, congrFun here.current 0, simulator_exclusive run.run⟩

/-- Nothing is left to do. -/
structure Sim.Finished (cfg : Config) (s : Sim) : Prop where
  queue : s.sys.student.head = none
  ioQueue : s.ioQueue = []
  current : ∀ c, s.thread c ≠ .handling → (s.data c).current = none
  programs : ∀ p < cfg.processCount, s.AtEnd p

/-- The simulator exits when nothing is left to do, and then every program that was to
alternate has run to its end. -/
theorem exits_finished {cfg : Config} {start s : Sim} (run : Sim.RunFrom cfg Prompt start s)
    (exited : s.supervisor = .exited) : s.Finished cfg ∧
    ∀ p < cfg.processCount, start.Prepared p → s.ops p = [.terminate] ∧ s.remaining p = 0 := by
  obtain ⟨xs, kept⟩ := run.run.kept
  have up : s.supervisor.asleepOn = none := by simp [exited, SupervisorPc.asleepOn]
  have finished := fun p => kept.finished (p := p) run.run.threads up (run.run.exited exited)
  refine ⟨⟨?_, ?_, fun c away => ?_, fun p hp => (finished p hp).2.1⟩, fun p hp prepared => ?_⟩
  · have nil : xs = [] := by
      refine List.eq_nil_iff_forall_not_mem.mpr fun p mem => ?_
      exact (finished p (kept.inv.inTable p .queue mem)).1 .queue mem
    rw [nil] at kept
    have chain := kept.inv.queued.chain
    simpa [Links.Chain] using chain
  · refine List.eq_nil_iff_forall_not_mem.mpr fun request mem => ?_
    have quiet := (finished request.1 (kept.inTable request mem)).2.2
    have none := List.filterMap_eq_nil_iff.mp quiet request mem
    simp at none
  · have out := (run.run.threads.handling c).mpr away
    rw [run.run.threads.current c away]
    by_contra current
    obtain ⟨p, current⟩ := Option.ne_none_iff_exists'.mp current
    have here : s.sys.At xs p (.cpu c) := by simp [Sys.At, out, CpuPc.holds, current]
    exact (finished p (kept.inv.inTable p _ here)).1 _ here
  · obtain ⟨rest, ops⟩ := (finished p hp).2.1
    cases run.stage prepared with
    | cpu alternates =>
      rw [ops] at alternates
      cases alternates
    | io now => cases now.symm.trans ops
    | done now _ zero => exact ⟨now, zero⟩

theorem exits_finished_job : ∃ s, Sim.RunFrom oneCpu Prompt oneJob s ∧
    s.Finished oneCpu ∧ s.ops 0 = [.terminate] ∧ s.remaining 0 = 0 := by
  obtain ⟨s, run, exited⟩ := job_exits
  obtain ⟨finished, ended⟩ := exits_finished run exited
  exact ⟨s, run, finished, ended 0 (by decide) (oneJob_prepared 0)⟩

end SystemsProjects.Sched
