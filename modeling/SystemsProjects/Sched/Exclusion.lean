import SystemsProjects.Sched.Places

/-!
# No process is scheduled twice

As long as a process is woken once for each time it yields. If `wake_up` may be
called again for a process that is in the queue, the queue gets a cycle.
-/

namespace SystemsProjects.Sched

open Links

/-- `rq` is a list that ends, and a process that runs is in state RUNNING, not in
`rq`, and current on one CPU. -/
structure Exclusive (cfg : Config) (s : Sys) : Prop where
  queue : ∃ xs, Chain s.student.next s.student.head xs ∧ xs.Nodup ∧ s.student.tail = xs.getLast? ∧
    ∀ p ∈ xs, (s.student.pcbs p).state = .ready
  running : ∀ c < cfg.cpuCount, ∀ p, s.cpu c = .outside → s.student.current c = some p →
    (s.student.pcbs p).state = .running
  notQueued : ∀ c < cfg.cpuCount, ∀ p xs, s.cpu c = .outside → s.student.current c = some p →
    Chain s.student.next s.student.head xs → p ∉ xs
  alone : ∀ c < cfg.cpuCount, ∀ d < cfg.cpuCount, ∀ p, s.cpu c = .outside → s.cpu d = .outside →
    s.student.current c = some p → s.student.current d = some p → c = d

section

variable {cfg : Config} {s : Sys} {xs : List Nat}

theorem at_outside (xs : List Nat) {c p : Nat} (out : s.cpu c = .outside)
    (current : s.student.current c = some p) :
    s.At xs p (.cpu c) ∧ s.expects (.cpu c) = some .running := by
  simp [Sys.At, Sys.expects, out, CpuPc.holds, CpuPc.expects, current]

theorem Inv.exclusive (inv : Inv cfg s xs) : Exclusive cfg s where
  queue := ⟨xs, inv.queued.chain, inv.queued.nodup, inv.queued.tail,
    fun p hp => inv.state p .queue .ready hp rfl⟩
  running c _ p out current := by
    obtain ⟨here, expects⟩ := at_outside xs out current
    exact inv.state p (.cpu c) .running here expects
  notQueued c _ p ys out current chain mem := by
    obtain ⟨here, _⟩ := at_outside xs out current
    rw [chain.unique inv.queued.chain] at mem
    exact absurd (inv.unique p (.cpu c) .queue here mem) (by simp)
  alone c _ d _ p outc outd currentc currentd := by
    obtain ⟨here, _⟩ := at_outside xs outc currentc
    obtain ⟨there, _⟩ := at_outside xs outd currentd
    simpa using inv.unique p (.cpu c) (.cpu d) here there

/-- `enqueue` and `dequeue` return whenever they are called. -/
theorem Inv.returns (inv : Inv cfg s xs) (time : UInt32) (times : Nat → UInt32) :
    (∀ c p, s.cpu c = .requeueing p → ∃ t, s.student.enqueue time p = some t) ∧
    (∀ w p, s.waker w = .enqueueing p → ∃ t, s.student.enqueue time p = some t) ∧
    ∃ r, s.student.dequeue cfg times = some r := by
  refine ⟨fun c p pc => ?_, fun w p pc => ?_, ?_⟩
  · have had : s.At xs p (.cpu c) := by simp [Sys.At, pc, CpuPc.holds]
    obtain ⟨t, ok, _⟩ := enqueue_spec time inv.queued
      (fun mem => absurd (inv.unique p .queue (.cpu c) mem had) (by simp))
    exact ⟨t, ok⟩
  · have had : s.At xs p (.waker w) := by simp [Sys.At, pc, WakerPc.holds]
    obtain ⟨t, ok, _⟩ := enqueue_spec time inv.queued
      (fun mem => absurd (inv.unique p .queue (.waker w) mem had) (by simp))
    exact ⟨t, ok⟩
  · cases xs with
    | nil => exact ⟨_, dequeue_empty inv.queued⟩
    | cons a xs =>
      obtain ⟨_, _, _, _, _, ok, _⟩ := dequeue_spec times inv.queued inv.fits (by simp)
      exact ⟨_, ok⟩

end

/-! ## Whole handlers -/

section

variable {cfg : Config} {mayWake : Sys → Nat → Prop} {s : Sys} {c w p : Nat} {u : Student}

theorem signals_none (wakes : Nat → Bool) (awake : ∀ c < cfg.cpuCount, s.cpu c ≠ .asleep) :
    s.Signals cfg wakes := by
  rintro ⟨c, hc, asleep⟩
  exact absurd asleep (awake c hc)

/-- A call of `wake_up` with no one else on the move and no CPU asleep. -/
theorem wake_up_returns (reach : Reachable cfg mayWake s) (rr : cfg.schedulerAlgorithm = .rr)
    (hp : p < cfg.processCount) (may : mayWake s p) (rest : s.waker w = .outside)
    (awake : ∀ d < cfg.cpuCount, s.cpu d ≠ .asleep)
    (ok : (s.student.setState p .ready).enqueue 0 p = some u) :
    ∃ t, Reachable cfg mayWake t ∧ t.student = u ∧ t.cpu = s.cpu ∧ t.waker w = .outside ∧
      t.yielded = s.yielded ∧
      ∀ q, q ≠ p → t.enqueued q = s.enqueued q ∧ t.awoken q = s.awoken q := by
  have s₁ := reach.next (.callWakeUp (w := w) (p := p) rest hp may)
  have s₂ := s₁.next (.ready (w := w) (if_pos rfl))
  have s₃ := s₂.next (@Step.enqueue _ _ _ w p 0 _ _ (if_pos rfl) ok
    (signals_none (fun _ => false) awake))
  have s₄ := s₃.next (@Step.choose _ _ _ w p (fun _ => 0) (if_pos rfl))
  refine ⟨_, s₄, rfl, ?_, ?_, rfl, fun q ne => ⟨if_neg ne, if_neg ne⟩⟩
  · funext d
    exact if_neg (fun both => absurd both.2 Bool.false_ne_true)
  · simp [Sys.setWaker, Student.victimCpu, rr]

/-- A process yields and the queue is empty. -/
theorem yield_returns (reach : Reachable cfg mayWake s) (hc : c < cfg.cpuCount)
    (out : s.cpu c = .outside) (current : s.student.current c = some p)
    (empty : s.student.head = none) :
    ∃ t, Reachable cfg mayWake t ∧ t.student.head = none ∧ t.cpu = s.cpu ∧ t.waker = s.waker ∧
      t.yielded p = true := by
  have none : Student.dequeue cfg (fun _ => 0) (s.student.setState p .waiting) =
      some (none, s.student.setState p .waiting) := by
    have empty : (s.student.setState p .waiting).head = none := empty
    simp [Student.dequeue, empty]
  have s₁ := reach.next (.callYield hc out (by simp [current]))
  have s₂ := s₁.next (.yield (c := c) (p := p) hc (if_pos rfl) current)
  have s₃ := s₂.next (.dequeueNone (c := c) hc (if_pos rfl) none)
  have s₄ := s₃.next (.publish (c := c) hc (if_pos rfl))
  have s₅ := s₄.next (.contextSwitch (c := c) hc (if_pos rfl))
  refine ⟨_, s₅, empty, ?_, rfl, if_pos rfl⟩
  funext d
  rcases eq_or_ne d c with rfl | ne
  · exact (if_pos rfl).trans out.symm
  · simp [Sys.setCpu, Sys.setStudent, Sys.markYielded, ne]

/-- An idle CPU picks up the process at the head. -/
theorem idle_returns (reach : Reachable cfg mayWake s) (rr : cfg.schedulerAlgorithm = .rr)
    (hc : c < cfg.cpuCount) (out : s.cpu c = .outside) (free : s.student.current c = none)
    (head : s.student.head = some p) :
    ∃ t, Reachable cfg mayWake t ∧ t.student.current c = some p ∧
      t.student.head = s.student.next p ∧ t.cpu = s.cpu ∧ t.waker = s.waker ∧
      (∀ d, d ≠ c → t.student.current d = s.student.current d) ∧
      ∀ q, q ≠ p → t.student.next q = s.student.next q := by
  have taken : s.student.dequeue cfg (fun _ => 0) = some (some p, s.student.removeHead p) := by
    simp [Student.dequeue, head, Student.criterion, rr]
  have some : s.student.isEmpty = false := by simp [Student.isEmpty, head]
  have s₁ := reach.next (.callIdle hc out free)
  have s₂ := s₁.next (.look (c := c) hc (Or.inl (if_pos rfl)))
  have s₃ := s₂.next (.dequeue (c := c) (y := none) hc (by simp [Sys.setCpu, some]) taken)
  have s₄ := s₃.next (.mark (c := c) hc (if_pos rfl))
  have s₅ := s₄.next (.publish (c := c) hc (if_pos rfl))
  have s₆ := s₅.next (.contextSwitch (c := c) hc (if_pos rfl))
  refine ⟨_, s₆, if_pos rfl, ?_, ?_, rfl, fun d ne => ?_, fun q ne => ?_⟩
  · change ((s.student.removeHead p).setState p .running).head = _
    simp only [Student.removeHead]
    split <;> rfl
  · funext d
    rcases eq_or_ne d c with rfl | ne
    · exact (if_pos rfl).trans out.symm
    · simp [Sys.setCpu, Sys.setStudent, Sys.markYielded, Sys.markRunning, ne]
  · refine (if_neg ne).trans ?_
    change (s.student.removeHead p).current d = _
    simp only [Student.removeHead]
    split <;> rfl
  · change ((s.student.removeHead p).setState p .running).next q = _
    rw [next_setState, Student.removeHead]
    dsimp only
    rw [next_setNext, link_other ne]
    split <;> rfl

/-- If `wake_up` may be called as long as the process has yielded and not run since,
two calls after one yield link the process to itself. -/
theorem woken_twice (reach : Reachable cfg NewOrYielded s) (rr : cfg.schedulerAlgorithm = .rr)
    (hc : c < cfg.cpuCount) (hp : p < cfg.processCount) (out : s.cpu c = .outside)
    (current : s.student.current c = some p) (rest : s.waker w = .outside)
    (empty : s.student.head = none) (awake : ∀ d < cfg.cpuCount, s.cpu d ≠ .asleep) :
    ∃ t, Reachable cfg NewOrYielded t ∧ t.student.head = some p ∧ t.student.next p = some p := by
  obtain ⟨s₁, reach, empty, cpu, waker, yielded⟩ := yield_returns reach hc out current empty
  rw [← cpu] at awake
  rw [← waker] at rest
  obtain ⟨s₂, reach, student, cpu, rest, same, -⟩ :=
    wake_up_returns reach rr hp (Or.inr yielded) rest awake
    (enqueue_empty empty)
  rw [← cpu] at awake
  rw [← same] at yielded
  have ready : (s₂.student.setState p .ready).head = some p ∧
      (s₂.student.setState p .ready).tail = some p := by
    rw [student]
    exact ⟨rfl, rfl⟩
  obtain ⟨t, reach, student, _⟩ := wake_up_returns reach rr hp (Or.inr yielded) rest awake
    (enqueue_tail ready.1 ready.2)
  refine ⟨t, reach, ?_, ?_⟩
  · rw [student]
    exact ready.1
  · rw [student]
    simp [Student.next, Student.setNext, modify_pcbs]

end

/-! ## A small machine -/

/-- `n` CPUs and as many processes under round robin. -/
def roundRobin (n : Nat) : Config := ⟨n, n, .rr, 0, 1⟩

def idleSys : Sys where
  student := ⟨fun _ => ⟨10, .new, none, 0, 0, 0⟩, none, none, fun _ => none⟩
  cpu _ := .outside
  waker _ := .outside
  enqueued _ := false
  yielded _ := false
  awoken _ := false

theorem idleSys_start : Start idleSys :=
  ⟨rfl, rfl, fun _ => rfl, fun _ => rfl, fun _ => rfl, fun _ => rfl, fun _ => rfl, fun _ => rfl,
    fun _ => rfl⟩

/-- Process 0 is woken and picked up by CPU 0. -/
theorem picked_up (mayWake : Sys → Nat → Prop) (may : mayWake idleSys 0) :
    ∃ s, Reachable (roundRobin 1) mayWake s ∧ s.student.current 0 = some 0 ∧ s.student.head = none ∧
      s.cpu = idleSys.cpu ∧ s.waker 0 = .outside := by
  have start : Reachable (roundRobin 1) mayWake idleSys := .start idleSys_start
  obtain ⟨s, reach, student, cpu, rest, -⟩ := wake_up_returns (w := 0) start rfl (by decide) may rfl
    (by decide) (enqueue_empty rfl)
  have free : s.student.current 0 = none := by
    rw [student]
    rfl
  have head : s.student.head = some 0 := by
    rw [student]
    rfl
  obtain ⟨t, reach, current, head, same, waker, -⟩ := idle_returns (c := 0) reach rfl (by decide)
    (congrFun cpu 0) free head
  refine ⟨t, reach, current, ?_, same.trans cpu, (congrFun waker 0).trans rest⟩
  rw [head, student]
  rfl

/-- Two CPUs and four processes under round robin. -/
def twoCpus : Config := ⟨2, 4, .rr, 0, 1⟩

/-- The first `n` processes have been woken, and no CPU has looked yet. -/
structure Filled (s : Sys) (n : Nat) : Prop where
  queued : Queued s.student (List.range n)
  cpu : s.cpu = idleSys.cpu
  waker : s.waker 0 = .outside
  current : s.student.current = idleSys.student.current
  fresh : ∀ p, n ≤ p → OncePerYield s p

theorem filled {cfg : Config} (rr : cfg.schedulerAlgorithm = .rr) {n : Nat}
    (le : n ≤ cfg.processCount) : ∃ s, Reachable cfg OncePerYield s ∧ Filled s n := by
  induction n with
  | zero =>
    exact ⟨idleSys, .start idleSys_start, ⟨rfl, rfl, fun _ _ => rfl⟩, rfl, rfl, rfl,
      fun _ _ => ⟨Or.inl rfl, rfl⟩⟩
  | succ n ih =>
    obtain ⟨s, reach, here⟩ := ih (Nat.le_of_succ_le le)
    have queued : Queued (s.student.setState n .ready) (List.range n) :=
      here.queued.congr (next_setState _) rfl rfl
    obtain ⟨u, ok, filled, links⟩ := enqueue_spec 0 queued (p := n) (by simp)
    have awake : ∀ d < cfg.cpuCount, s.cpu d ≠ .asleep := by
      intro d _
      rw [here.cpu]
      exact nofun
    obtain ⟨t, reach, rfl, cpu, waker, yielded, others⟩ :=
      wake_up_returns reach rr le (here.fresh n (Nat.le_refl _)) here.waker awake ok
    refine ⟨t, reach, List.range_succ ▸ filled, cpu.trans here.cpu, waker,
      links.current.trans here.current, fun p lt => ?_⟩
    obtain ⟨enqueued, awoken⟩ := others p (by omega)
    obtain ⟨once, before⟩ := here.fresh p (by omega)
    refine ⟨?_, awoken.trans before⟩
    unfold NewOrYielded at once ⊢
    rwa [enqueued, yielded]

/-- Each CPU has picked a process up. -/
theorem both_busy : ∃ s, Reachable twoCpus OncePerYield s ∧ s.student.current 0 = some 0 ∧
    s.student.current 1 = some 1 ∧ Chain s.student.next s.student.head [2, 3] := by
  have slices : twoCpus.schedulerAlgorithm = .rr := rfl
  obtain ⟨s, reach, here⟩ := filled slices (n := 4) (Nat.le_refl _)
  have chain : Chain s.student.next s.student.head [0, 1, 2, 3] := here.queued.chain
  obtain ⟨head, next₀, next₁, next₂, next₃⟩ := chain
  obtain ⟨t, reach, zero, head', cpu, -, others, links⟩ := idle_returns (c := 0) reach rfl
    (by decide) (congrFun here.cpu 0) (congrFun here.current 0) head
  obtain ⟨u, reach, one, head'', -, -, others', links'⟩ := idle_returns (c := 1) reach rfl
    (by decide) (congrFun (cpu.trans here.cpu) 1)
    ((others 1 (by decide)).trans (congrFun here.current 1)) (head'.trans next₀)
  have same : ∀ q, q ≠ 0 → q ≠ 1 → u.student.next q = s.student.next q := fun q ne ne' =>
    (links' q ne').trans (links q ne)
  refine ⟨u, reach, (others' 0 (by decide)).trans zero, one, ?_, ?_, ?_⟩
  · rw [head'', links 1 (by decide), next₁]
  · rw [same 2 (by decide) (by decide), next₂]
  · show u.student.next 3 = none
    rw [same 3 (by decide) (by decide)]
    exact next₃

/-! ## Every reachable state -/

/-- If a process is woken once for each yield. -/
theorem reachable_exclusive {cfg : Config} {s : Sys} (reach : Reachable cfg OncePerYield s) :
    Exclusive cfg s := by
  obtain ⟨xs, inv⟩ := reach.inv
  exact inv.exclusive

/-- Two processes run and two are queued. -/
theorem picked_up_exclusive : ∃ s, Reachable twoCpus OncePerYield s ∧
    s.student.current 0 = some 0 ∧ s.student.current 1 = some 1 ∧
    Chain s.student.next s.student.head [2, 3] ∧ Exclusive twoCpus s := by
  obtain ⟨s, reach, zero, one, chain⟩ := both_busy
  exact ⟨s, reach, zero, one, chain, reachable_exclusive reach⟩

/-- Process 0 is woken, yields, and is woken twice. -/
theorem queue_has_cycle : ∃ s, Reachable (roundRobin 1) NewOrYielded s ∧
    ¬ ∃ xs, Chain s.student.next s.student.head xs := by
  obtain ⟨s, reach, current, empty, cpu, rest⟩ := picked_up NewOrYielded (Or.inl rfl)
  have awake : ∀ d < (roundRobin 1).cpuCount, s.cpu d ≠ .asleep := by
    rw [cpu]
    decide
  obtain ⟨t, reach, head, next⟩ := woken_twice reach rfl (by decide) (by decide) (congrFun cpu 0)
    current
    rest empty awake
  refine ⟨t, reach, ?_⟩
  rintro ⟨xs, chain⟩
  rw [head] at chain
  exact not_chain_of_loop next xs chain

end SystemsProjects.Sched
