import SystemsProjects.Sched.Handlers

/-!
# Handlers run to the end

The handlers of `student.c` in one piece, for the parts of the simulator that see
no more of them than that.
-/

namespace SystemsProjects.Sched

namespace Student

def setCurrent (s : Student) (cpuId : Nat) (process : Option Nat) : Student :=
  { s with current := fun c => if c = cpuId then process else s.current c }

/-- `schedule` up to `context_switch`, with the process that it has chosen. -/
def schedule (cfg : Config) (times : Nat → UInt32) (cpuId : Nat) (s : Student) :
    Option (Option Nat × Student) := do
  let (process, s) ← s.dequeue cfg times
  let s := process.elim s (fun p => s.setState p .running)
  return (process, s.setCurrent cpuId process)

/-- `idle`, which returns only if the queue is not empty. -/
def idle (cfg : Config) (times : Nat → UInt32) (cpuId : Nat) (s : Student) :
    Option (Option Nat × Student) :=
  if s.isEmpty then none else s.schedule cfg times cpuId

def preempt (cfg : Config) (time : UInt32) (times : Nat → UInt32) (cpuId : Nat) (s : Student) :
    Option (Option Nat × Student) := do
  let currentProcess ← s.current cpuId
  let s ← (s.setState currentProcess .ready).enqueue time currentProcess
  s.schedule cfg times cpuId

def yield (cfg : Config) (times : Nat → UInt32) (cpuId : Nat) (s : Student) :
    Option (Option Nat × Student) := do
  let currentProcess ← s.current cpuId
  (s.setState currentProcess .waiting).schedule cfg times cpuId

def terminate (cfg : Config) (times : Nat → UInt32) (cpuId : Nat) (s : Student) :
    Option (Option Nat × Student) := do
  let currentProcess ← s.current cpuId
  (s.setState currentProcess .terminated).schedule cfg times cpuId

/-- `wake_up`, with the CPU that it is going to preempt. -/
def wakeUp (cfg : Config) (time : UInt32) (times : Nat → UInt32) (process : Nat) (s : Student) :
    Option (Option Nat × Student) := do
  let s ← (s.setState process .ready).enqueue time process
  return (s.victimCpu cfg times process, s)

end Student

/-! ## What they do to the queue -/

/-- The queue is the list `xs` of READY processes, and each of the CPUs `B` has a
RUNNING process of its own or none. -/
structure Assigned (cfg : Config) (B : Nat → Prop) (s : Student) (xs : List Nat) : Prop where
  queued : Queued s xs
  ready : ∀ p ∈ xs, (s.pcbs p).state = .ready
  inTable : ∀ p ∈ xs, p < cfg.processCount
  running : ∀ {c p}, B c → s.current c = some p → (s.pcbs p).state = .running
  alone : ∀ {c d p}, B c → B d → s.current c = some p → s.current d = some p → c = d
  runs : ∀ {c p}, B c → s.current c = some p → p < cfg.processCount ∧ c < cfg.cpuCount

/-- CPU `c` has been given `process`, in `t`. -/
structure Given (s : Student) (c : Nat) (process : Option Nat) (t : Student) : Prop where
  current : ∀ d, t.current d = if d = c then process else s.current d
  remaining : ∀ r, t.remaining r = s.remaining r
  state : ∀ r, (t.pcbs r).state = if process = some r then .running else (s.pcbs r).state

/-- What `schedule` finds in the queue `xs`, and what it leaves there. -/
inductive Took (cfg : Config) (s : Student) : List Nat → Option Nat → List Nat → Prop
  | nothing : Took cfg s [] none []
  | one {before p after} (least : cfg.schedulerAlgorithm = .srtf →
      ∀ r ∈ before ++ p :: after, s.remaining p ≤ s.remaining r) :
      Took cfg s (before ++ p :: after) (some p) (before ++ after)

section

variable {cfg : Config} {B : Nat → Prop} {s t : Student} {xs : List Nat} {c p : Nat} {time : UInt32}
  {times : Nat → UInt32}

theorem Assigned.fits (a : Assigned cfg B s xs) : xs.length ≤ cfg.processCount :=
  a.queued.fits a.inTable

theorem Assigned.notQueued (a : Assigned cfg B s xs) (hc : B c) (current : s.current c = some p) :
    p ∉ xs := by
  intro mem
  exact absurd ((a.ready p mem).symm.trans (a.running hc current)) (by decide)

/-- The process of CPU `c` stops running. -/
theorem Assigned.vacate (a : Assigned cfg (fun _ => True) s xs) (current : s.current c = some p)
    (state : ProcessState) : Assigned cfg (· ≠ c) (s.setState p state) xs where
  queued := a.queued.congr (next_setState _) rfl rfl
  ready r hr := by
    have ne : r ≠ p := fun e => a.notQueued trivial current (e ▸ hr)
    exact (state_setState _).trans ((if_neg ne).trans (a.ready r hr))
  inTable := a.inTable
  running {d r} hd other := by
    have ne : r ≠ p := fun e => hd (a.alone trivial trivial (e ▸ other) current)
    exact (state_setState _).trans ((if_neg ne).trans (a.running trivial other))
  alone _ _ := a.alone trivial trivial
  runs _ := a.runs trivial

theorem Assigned.mono {B' : Nat → Prop} (a : Assigned cfg B s xs) (sub : ∀ {c}, B' c → B c) :
    Assigned cfg B' s xs :=
  ⟨a.queued, a.ready, a.inTable, fun h => a.running (sub h), fun h h' => a.alone (sub h) (sub h'),
    fun h => a.runs (sub h)⟩

/-- A process that is neither queued nor running becomes READY. -/
theorem Assigned.awaken (a : Assigned cfg B s xs) (idle : (s.pcbs p).state ≠ .ready)
    (stopped : (s.pcbs p).state ≠ .running) : Assigned cfg B (s.setState p .ready) xs where
  queued := a.queued.congr (next_setState _) rfl rfl
  ready r hr := by
    have ne : r ≠ p := fun e => idle (e ▸ a.ready r hr)
    exact (state_setState _).trans ((if_neg ne).trans (a.ready r hr))
  inTable := a.inTable
  running {d r} hd current := by
    have ne : r ≠ p := fun e => stopped (e ▸ a.running hd current)
    exact (state_setState _).trans ((if_neg ne).trans (a.running hd current))
  alone := a.alone
  runs := a.runs

/-- A READY process that no CPU has joins the queue. -/
theorem Assigned.enqueue (time : UInt32) (a : Assigned cfg B s xs)
    (ready : (s.pcbs p).state = .ready) (hp : p < cfg.processCount) (out : p ∉ xs) :
    ∃ t, s.enqueue time p = some t ∧ Assigned cfg B t (xs ++ [p]) ∧ LinksOnly s t := by
  obtain ⟨t, ok, queued, links⟩ := enqueue_spec time a.queued out
  refine ⟨t, ok, ⟨queued, ?_, ?_, ?_, ?_, ?_⟩, links⟩
  · intro r hr
    rw [links.state]
    rcases List.mem_append.mp hr with hr | hr
    · exact a.ready r hr
    · rw [List.mem_singleton.mp hr]
      exact ready
  · intro r hr
    rcases List.mem_append.mp hr with hr | hr
    · exact a.inTable r hr
    · rw [List.mem_singleton.mp hr]
      exact hp
  · intro d r hd current
    rw [links.current] at current
    rw [links.state]
    exact a.running hd current
  · rw [links.current]
    exact a.alone
  · rw [links.current]
    exact a.runs

/-- `schedule` leaves a free CPU free, or gives it a process of the queue. -/
theorem Assigned.schedule (times : Nat → UInt32) (a : Assigned cfg (· ≠ c) s xs)
    (hc : c < cfg.cpuCount) :
    ∃ process t ys, s.schedule cfg times c = some (process, t) ∧
      Assigned cfg (fun _ => True) t ys ∧ Given s c process t ∧ Took cfg s xs process ys := by
  by_cases nil : xs = []
  · subst nil
    refine ⟨none, s.setCurrent c none, [], by simp [Student.schedule, dequeue_empty a.queued], ?_,
      ⟨fun _ => rfl, fun _ => rfl, fun _ => (if_neg (by simp)).symm⟩, .nothing⟩
    have busy : ∀ {d r}, (s.setCurrent c none).current d = some r → d ≠ c ∧
        s.current d = some r := by
      intro d r current
      have ne : d ≠ c := by
        rintro rfl
        simp [Student.setCurrent] at current
      exact ⟨ne, (if_neg ne).symm.trans current⟩
    refine ⟨a.queued.congr rfl rfl rfl, a.ready, a.inTable, ?_, ?_, ?_⟩
    · exact fun _ h => a.running (busy h).1 (busy h).2
    · exact fun _ _ h h' => a.alone (busy h).1 (busy h').1 (busy h).2 (busy h').2
    · exact fun _ h => a.runs (busy h).1 (busy h).2
  · obtain ⟨before, p, after, u, rfl, ok, queued, links, least⟩ :=
      dequeue_spec times a.queued a.fits nil
    have mem : p ∈ before ++ p :: after := by simp
    have nodup := a.queued.nodup
    have fresh : p ∉ before ++ after := by
      simp only [List.nodup_append, List.nodup_cons] at nodup
      grind
    have sub : ∀ r ∈ before ++ after, r ∈ before ++ p :: after := by
      intro r hr
      simp only [List.mem_append, List.mem_cons] at hr ⊢
      grind
    have given : Given s c (some p) ((u.setState p .running).setCurrent c (some p)) := by
      refine ⟨fun d => ?_, fun r => ?_, fun r => ?_⟩
      · exact congrArg (fun f => if d = c then some p else f d) links.current
      · exact (remaining_setState _).trans (links.remaining r)
      · refine (state_setState _).trans ?_
        simp [links.state, eq_comm]
    have busy : ∀ {d r}, ((u.setState p .running).setCurrent c (some p)).current d = some r →
        d = c ∧ r = p ∨ d ≠ c ∧ s.current d = some r ∧ r ≠ p := by
      intro d r current
      rw [given.current] at current
      by_cases same : d = c
      · rw [if_pos same] at current
        exact Or.inl ⟨same, (Option.some.inj current).symm⟩
      · rw [if_neg same] at current
        exact Or.inr ⟨same, current, fun e => a.notQueued same current (e ▸ mem)⟩
    refine ⟨some p, (u.setState p .running).setCurrent c (some p), before ++ after,
      by simp [Student.schedule, ok], ⟨queued.congr (next_setState _) rfl rfl, ?_, ?_, ?_, ?_, ?_⟩,
      given, .one least⟩
    · intro r hr
      have ne : some p ≠ some r := fun e => fresh (Option.some.inj e ▸ hr)
      rw [given.state, if_neg ne]
      exact a.ready r (sub r hr)
    · exact fun r hr => a.inTable r (sub r hr)
    · intro d r _ current
      rcases busy current with ⟨_, rfl⟩ | ⟨hd, current, ne⟩
      · rw [given.state, if_pos rfl]
      · rw [given.state, if_neg (fun e => ne (Option.some.inj e).symm)]
        exact a.running hd current
    · intro d e r _ _ currentd currente
      rcases busy currentd with ⟨rfl, rfl⟩ | ⟨hd, currentd, ne⟩
      · rcases busy currente with ⟨rfl, _⟩ | ⟨_, _, ne⟩
        · rfl
        · exact absurd rfl ne
      · rcases busy currente with ⟨_, rfl⟩ | ⟨he, currente, _⟩
        · exact absurd rfl ne
        · exact a.alone hd he currentd currente
    · intro d r _ current
      rcases busy current with ⟨rfl, rfl⟩ | ⟨hd, current, _⟩
      · exact ⟨a.inTable r mem, hc⟩
      · exact a.runs hd current

end

end SystemsProjects.Sched
