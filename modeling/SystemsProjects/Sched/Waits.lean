import SystemsProjects.Sched.Exits

/-!
# The simulator does not get stuck

The supervisor waits for one CPU thread at a time, with the mutex released, and that
thread is on its way to the signal. Its steps are counted here, and no other thread takes
it back. Otherwise the supervisor itself goes on.
-/

namespace SystemsProjects.Sched

/-- The handler of an event, and not `idle` before it has found a process. -/
def CpuPc.busy : CpuPc → Bool
  | .outside | .testing | .asleep | .woken => false
  | _ => true

/-- The first section of a handler of an event is ahead. -/
def CpuPc.entry (pc : CpuPc) : Prop := pc = .preempting ∨ pc.parting ≠ none

/-- The sections to the end of the handler of an event, and two more. -/
def CpuPc.sections : CpuPc → Nat
  | .preempting => 8
  | .requeueing _ | .yielding | .terminating => 7
  | .dequeueing _ => 6
  | .marking _ _ => 5
  | .publishing _ _ => 4
  | .switching _ => 3
  | .outside | .testing | .asleep | .woken => 0

/-- The thread's sections to its signal at the top of the loop. -/
def Sim.sections (s : Sim) (c : Nat) : Nat :=
  match s.thread c with
  | .awake => 11
  | .dispatch _ => 10
  | .counted => 9
  | .handling => (s.sys.cpu c).sections
  | .top => 1
  | .asleep => 0

/-- The thread of the CPU is on its way to the signal. -/
def Sim.OnTheWay (s : Sim) (c : Nat) : Prop :=
  s.thread c = .top ∨ s.owes c ≠ none ∨ (s.thread c = .handling ∧ (s.sys.cpu c).busy = true)

structure Sim.Answering (cfg : Config) (s : Sim) : Prop where
  inside : ∀ c, cfg.cpuCount ≤ c → s.thread c = .top
  entered : ∀ c, (s.sys.cpu c).entry → s.sys.student.current c ≠ none
  waking : ∀ created, s.supervisor = .waking created → s.sys.waker 0 ≠ .outside
  waits : ∀ c, s.supervisor.asleepOn = some c → c < cfg.cpuCount ∧ s.OnTheWay c

/-- The supervisor is signalled, or the thread that it waits for is nearer to that by `k`
sections. -/
def Sim.Nearer (c k : Nat) (s t : Sim) : Prop :=
  t.supervisor.asleepOn = none ∨
    (t.supervisor.asleepOn = some c ∧ t.sections c + k ≤ s.sections c)

/-- The supervisor goes on, by itself or within `wake_up`. -/
def Sim.GoesOn (s t : Sim) : Prop :=
  t.supervisor ≠ s.supervisor ∨ t.sys.waker 0 ≠ s.sys.waker 0

/-- The supervisor has a step, or the thread has that it waits for. No step of another
thread gets in the way. -/
structure Sim.Live (cfg : Config) (s : Sim) : Prop where
  supervisor : s.supervisor.asleepOn = none → s.supervisor = .exited ∨
    ∃ a t, Sim.Step cfg s a t ∧ s.GoesOn t
  waits : ∀ c, s.supervisor.asleepOn = some c →
    ∃ a t, Sim.Step cfg s a t ∧ Prompt s a ∧ s.Nearer c 1 t
  stays : ∀ c, s.supervisor.asleepOn = some c → ∀ a t, Sim.Step cfg s a t → Prompt s a →
    s.Nearer c 0 t

section

variable {cfg : Config} {s t : Sim} {xs : List Nat} {a : Action} {c d n p : Nat} {e : CpuState}

/-! ## The handlers -/

theorem busy_setCpu {u v : Sys} {pc : CpuPc} (same : (u.cpu c).busy = true → v.cpu c = u.cpu c)
    (next : (u.cpu d).busy = true → pc.busy = true ∧ pc.sections ≤ (u.cpu d).sections)
    (busy : (u.cpu c).busy = true) :
    ((v.setCpu d pc).cpu c).busy = true ∧
      ((v.setCpu d pc).cpu c).sections ≤ (u.cpu c).sections := by
  by_cases here : c = d
  · subst here
    have now : (v.setCpu c pc).cpu c = pc := if_pos rfl
    rw [now]
    exact next busy
  · have now : (v.setCpu d pc).cpu c = v.cpu c := if_neg here
    rw [now, same busy]
    exact ⟨busy, Nat.le_refl _⟩

theorem signal_busy {u : Sys} (wakes : Nat → Bool) (busy : (u.cpu c).busy = true) :
    (u.signal wakes).cpu c = u.cpu c := by
  refine if_neg (fun sleeps => ?_)
  rw [sleeps.1] at busy
  cases busy

/-- A section of a handler goes towards its end. -/
theorem step_busy {u v : Sys} (step : Step cfg (fun _ _ => True) u v) (inside : Inside u v)
    (busy : (u.cpu c).busy = true) :
    (v.cpu c).busy = true ∧ (v.cpu c).sections ≤ (u.cpu c).sections := by
  cases step with
  | @callIdle d hc out | @callPreempt d hc out | @callYield d hc out | @callTerminate d hc out =>
    have still := (inside.1 d).mp out
    simp [Sys.setCpu] at still
  | @contextSwitch d y hc pc =>
    have still := (inside.1 d).mpr (by simp [Sys.setCpu])
    simp [pc] at still
  | look hc pc =>
    refine busy_setCpu (fun _ => rfl) (fun busy => ?_) busy
    rcases pc with pc | pc <;> simp [pc, CpuPc.busy] at busy
  | spurious hc pc =>
    refine busy_setCpu (fun _ => rfl) (fun busy => ?_) busy
    simp [pc, CpuPc.busy] at busy
  | preempt hc pc | yield hc pc | terminate hc pc | publish hc pc =>
    exact busy_setCpu (fun _ => rfl) (fun _ => by simp [pc, CpuPc.busy, CpuPc.sections]) busy
  | dequeueNone hc pc | dequeue hc pc | mark hc pc =>
    exact busy_setCpu (fun _ => rfl) (fun _ => by simp [pc, CpuPc.busy, CpuPc.sections]) busy
  | requeue hc pc =>
    exact busy_setCpu (fun busy => signal_busy (u := u.setStudent _) _ busy)
      (fun _ => by simp [pc, CpuPc.busy, CpuPc.sections]) busy
  | callWakeUp | ready | choose | forcePreempt => exact ⟨busy, Nat.le_refl _⟩
  | @enqueue w p time wakes u' pc ok signals =>
    have same : ((((u.setStudent u').signal wakes).markEnqueued p).setWaker w (.choosing p)).cpu c =
        u.cpu c := signal_busy (u := u.setStudent u') wakes busy
    rw [same]
    exact ⟨busy, Nat.le_refl _⟩

theorem inside_signal {u v : Sys} (wakes : Nat → Bool) (cpu : v.cpu = (u.signal wakes).cpu)
    (waker : v.waker = u.waker) : Inside u v := by
  refine ⟨fun d => ?_, fun w => by rw [waker]⟩
  rw [cpu]
  by_cases sleeps : u.cpu d = .asleep ∧ wakes d = true
  · simp [Sys.signal, sleeps]
  · have same : (u.signal wakes).cpu d = u.cpu d := if_neg sleeps
    rw [same]

theorem Inside.trans {u v w : Sys} (first : Inside u v) (second : Inside v w) : Inside u w :=
  ⟨fun c => (first.1 c).trans (second.1 c), fun x => (first.2 x).trans (second.2 x)⟩

/-- All sleepers may wake up at a signal. -/
theorem signals_all {u : Sys} : u.Signals cfg (fun _ => true) := fun ⟨c, hc, asleep⟩ =>
  ⟨c, hc, asleep, rfl⟩

/-- The handler of an event has a next section. -/
theorem section_enabled {u : Sys} (inv : Inv cfg u xs) (hc : c < cfg.cpuCount)
    (busy : (u.cpu c).busy = true)
    (entered : (u.cpu c).entry → u.student.current c ≠ none) :
    (∃ y, u.cpu c = .switching y) ∨
    ∃ v, Step cfg (fun _ _ => True) u v ∧ Inside u v ∧
      (v.cpu c).sections + 1 ≤ (u.cpu c).sections := by
  have returns := inv.returns 0 (fun _ => 0)
  have next : ∀ (v : Sys) (pc : CpuPc), Step cfg (fun _ _ => True) u v →
      (∀ d, v.cpu d = if d = c then pc else u.cpu d) → v.waker = u.waker → u.cpu c ≠ .outside →
      pc ≠ .outside → pc.sections + 1 ≤ (u.cpu c).sections →
      ∃ v, Step cfg (fun _ _ => True) u v ∧ Inside u v ∧
        (v.cpu c).sections + 1 ≤ (u.cpu c).sections := by
    intro v pc step cpu waker before after fewer
    refine ⟨v, step, inside_cpu before after cpu waker, ?_⟩
    rw [cpu, if_pos rfl]
    exact fewer
  cases pc : u.cpu c with
  | outside | testing | asleep | woken => simp [pc, CpuPc.busy] at busy
  | switching y => exact Or.inl ⟨y, rfl⟩
  | preempting =>
    obtain ⟨p, current⟩ := Option.ne_none_iff_exists'.mp (entered (Or.inl pc))
    rw [← pc]
    exact Or.inr (next _ (.requeueing p) (.preempt hc pc current) (fun _ => rfl) rfl (by simp [pc])
      (by simp) (by simp [pc, CpuPc.sections]))
  | requeueing p =>
    obtain ⟨v, ok⟩ := returns.1 c p pc
    refine Or.inr ⟨_, .requeue hc pc ok signals_all, ?_, ?_⟩
    · have signal : Inside u (((u.setStudent v).signal fun _ => true).markEnqueued p) :=
        inside_signal (u := u) (fun _ => true) rfl rfl
      refine signal.trans (inside_cpu (c := c) ?_ (by simp) (fun _ => rfl) rfl)
      have same : (((u.setStudent v).signal fun _ => true).markEnqueued p).cpu c = u.cpu c :=
        signal_busy (u := u.setStudent v) (fun _ => true) busy
      simp [same, pc]
    · simp [Sys.setCpu, CpuPc.sections]
  | yielding =>
    obtain ⟨p, current⟩ := Option.ne_none_iff_exists'.mp
      (entered (Or.inr (by simp [pc, CpuPc.parting])))
    rw [← pc]
    exact Or.inr (next _ (.dequeueing (some p)) (.yield hc pc current) (fun _ => rfl) rfl
      (by simp [pc]) (by simp) (by simp [pc, CpuPc.sections]))
  | terminating =>
    obtain ⟨p, current⟩ := Option.ne_none_iff_exists'.mp
      (entered (Or.inr (by simp [pc, CpuPc.parting])))
    rw [← pc]
    exact Or.inr (next _ (.dequeueing none) (.terminate hc pc current) (fun _ => rfl) rfl
      (by simp [pc]) (by simp) (by simp [pc, CpuPc.sections]))
  | dequeueing y =>
    obtain ⟨⟨q, v⟩, ok⟩ := returns.2.2
    rw [← pc]
    cases q with
    | none =>
      exact Or.inr (next _ (.publishing y none) (.dequeueNone hc pc ok) (fun _ => rfl) rfl
        (by simp [pc]) (by simp) (by simp [pc, CpuPc.sections]))
    | some p =>
      exact Or.inr (next _ (.marking y p) (.dequeue hc pc ok) (fun _ => rfl) rfl
        (by simp [pc]) (by simp) (by simp [pc, CpuPc.sections]))
  | marking y p =>
    rw [← pc]
    exact Or.inr (next _ (.publishing y (some p)) (.mark hc pc) (fun _ => rfl) rfl (by simp [pc])
      (by simp) (by simp [pc, CpuPc.sections]))
  | publishing y q =>
    rw [← pc]
    exact Or.inr (next _ (.switching y) (.publish hc pc) (fun _ => rfl) rfl (by simp [pc]) (by simp)
      (by simp [pc, CpuPc.sections]))

theorem entry_setCpu {u v : Sys} {pc : CpuPc} (other : ¬ pc.entry)
    (same : (v.cpu c).entry → (u.cpu c).entry) (entry : ((v.setCpu d pc).cpu c).entry) :
    c ≠ d ∧ (u.cpu c).entry := by
  have ne : c ≠ d := by
    rintro rfl
    have now : (v.setCpu c pc).cpu c = pc := if_pos rfl
    exact other (now ▸ entry)
  have now : (v.setCpu d pc).cpu c = v.cpu c := if_neg ne
  exact ⟨ne, same (now ▸ entry)⟩

theorem signal_entry {u : Sys} (wakes : Nat → Bool) (entry : ((u.signal wakes).cpu c).entry) :
    (u.cpu c).entry := by
  by_cases sleeps : u.cpu c = .asleep ∧ wakes c = true
  · have now : (u.signal wakes).cpu c = .woken := if_pos sleeps
    simp [now, CpuPc.entry, CpuPc.parting] at entry
  · have now : (u.signal wakes).cpu c = u.cpu c := if_neg sleeps
    rwa [now] at entry

/-- Until its first section the handler's process stays current. -/
theorem step_entry {u v : Sys} (step : Step cfg (fun _ _ => True) u v) (inside : Inside u v)
    (entry : (v.cpu c).entry) :
    (u.cpu c).entry ∧ v.student.current c = u.student.current c := by
  cases step with
  | @callIdle d hc out | @callPreempt d hc out | @callYield d hc out | @callTerminate d hc out =>
    have still := (inside.1 d).mp out
    simp [Sys.setCpu] at still
  | @contextSwitch d y hc pc =>
    have still := (inside.1 d).mpr (by simp [Sys.setCpu])
    simp [pc] at still
  | look hc pc =>
    refine ⟨(entry_setCpu ?_ id entry).2, rfl⟩
    split <;> simp [CpuPc.entry, CpuPc.parting]
  | spurious | preempt | yield | terminate | mark =>
    exact ⟨(entry_setCpu (by simp [CpuPc.entry, CpuPc.parting]) id entry).2, rfl⟩
  | requeue hc pc ok =>
    refine ⟨(entry_setCpu (by simp [CpuPc.entry, CpuPc.parting]) ?_ entry).2, ?_⟩
    · exact signal_entry (u := u.setStudent _) _
    · exact congrFun (enqueue_linksOnly ok).current c
  | dequeueNone hc pc ok | dequeue hc pc ok =>
    exact ⟨(entry_setCpu (by simp [CpuPc.entry, CpuPc.parting]) id entry).2,
      congrFun (dequeue_linksOnly ok).current c⟩
  | publish hc pc =>
    obtain ⟨ne, before⟩ := entry_setCpu (by simp [CpuPc.entry, CpuPc.parting]) id entry
    exact ⟨before, if_neg ne⟩
  | callWakeUp | ready | choose | forcePreempt => exact ⟨entry, rfl⟩
  | enqueue pc ok =>
    exact ⟨signal_entry (u := u.setStudent _) _ entry, congrFun (enqueue_linksOnly ok).current c⟩

/-! ## Who waits for whom -/

theorem onTheWay_congr (thread : t.thread c = s.thread c)
    (state : (t.data c).state = (s.data c).state) (cpu : t.sys.cpu c = s.sys.cpu c) :
    t.OnTheWay c ↔ s.OnTheWay c := by
  rw [Sim.OnTheWay, Sim.OnTheWay, owes_congr thread state, thread, cpu]

/-- The CPUs are where they were, and the supervisor does not fall asleep. -/
theorem Sim.Answering.frame (i : s.Answering cfg) (thread : t.thread = s.thread)
    (cpu : t.sys.cpu = s.sys.cpu) (current : t.sys.student.current = s.sys.student.current)
    (waking : ∀ created, t.supervisor = .waking created → t.sys.waker 0 ≠ .outside)
    (up : t.supervisor.asleepOn = none) : t.Answering cfg where
  inside c := by
    rw [thread]
    exact i.inside c
  entered c := by
    rw [cpu, current]
    exact i.entered c
  waking := waking
  waits c asleep := absurd (asleep.symm.trans up) (Option.some_ne_none c)

/-- One thread moves on. -/
theorem Sim.Answering.move (i : s.Answering cfg) (hc : c < cfg.cpuCount)
    (others : ∀ d, d ≠ c → t.thread d = s.thread d ∧ (t.data d).state = (s.data d).state ∧
      t.sys.cpu d = s.sys.cpu d)
    (current : t.sys.student.current = s.sys.student.current)
    (waker : t.sys.waker = s.sys.waker)
    (waking : ∀ created, t.supervisor = .waking created → s.supervisor = .waking created)
    (entered : (t.sys.cpu c).entry → s.sys.student.current c ≠ none)
    (supervisor : ∀ d, t.supervisor.asleepOn = some d → s.supervisor.asleepOn = some d ∧
      (d = c → s.OnTheWay c → t.OnTheWay c)) : t.Answering cfg where
  inside d hd := by
    have ne : d ≠ c := by omega
    rw [(others d ne).1]
    exact i.inside d hd
  entered d := by
    rw [current]
    by_cases here : d = c
    · exact here ▸ entered
    · rw [(others d here).2.2]
      exact i.entered d
  waking created pc := by
    rw [waker]
    exact i.waking created (waking created pc)
  waits d asleep := by
    obtain ⟨before, next⟩ := supervisor d asleep
    obtain ⟨hd, way⟩ := i.waits d before
    refine ⟨hd, ?_⟩
    by_cases here : d = c
    · exact here ▸ next here (here ▸ way)
    · obtain ⟨thread, state, cpu⟩ := others d here
      exact (onTheWay_congr thread state cpu).mpr way

/-- The state of a CPU is set to an event, and the supervisor waits. -/
theorem Sim.Answering.raise {pc : SupervisorPc} (i : s.Answering cfg)
    (there : s.thread c = .asleep ∨ s.thread c = .awake) (event : e.event = some e)
    (waits : pc.asleepOn = some c) (noWaking : ∀ created, pc ≠ .waking created) :
    ((s.raise c e).setSupervisor pc).Answering cfg := by
  have sys := (raise_current s c e c).2
  have hc : c < cfg.cpuCount := by
    by_contra out
    rcases there with pc | pc <;> simp [i.inside c (not_lt.mp out)] at pc
  refine ⟨fun d hd => ?_, fun d => ?_, fun created same => absurd same (noWaking created), ?_⟩
  · have ne : d ≠ c := by omega
    exact ((raise_thread there).trans (if_neg ne)).trans (i.inside d hd)
  · show ((s.raise c e).sys.cpu d).entry → (s.raise c e).sys.student.current d ≠ none
    rw [sys]
    exact i.entered d
  · intro d asleep
    obtain rfl : c = d := Option.some.inj (waits.symm.trans asleep)
    refine ⟨hc, Or.inr (Or.inl ?_)⟩
    show (s.raise c e).owes c ≠ none
    simp [Sim.owes, raise_thread there, raise_state, event]

theorem signal_asleepOn_of {pc : SupervisorPc} (asleep : (pc.signal c).asleepOn = some d) :
    pc.asleepOn = some d ∧ d ≠ c := by
  cases pc with
  | waiting x woken | forcing x woken _ =>
    cases woken <;> simp [SupervisorPc.signal, SupervisorPc.asleepOn] at asleep ⊢
    by_cases same : x = c <;> simp_all
  | sleeping | cpus _ | io | waking _ | woke _ | creat | tick | exited =>
    simp [SupervisorPc.signal, SupervisorPc.asleepOn] at asleep

theorem signal_waking {pc : SupervisorPc} {created : Bool}
    (waking : pc.signal c = .waking created) :
    pc = .waking created := by
  cases pc with
  | waiting x woken | forcing x woken _ => cases woken <;> cases waking
  | waking _ => exact waking
  | sleeping | cpus _ | io | woke _ | creat | tick | exited => cases waking

theorem Sim.Answering.step (i : s.Answering cfg) (sound : s.Sound) (threads : s.Threads)
    (prompt : Prompt s a) (step : Sim.Step cfg s a t) : t.Answering cfg := by
  cases step with
  | lock pc =>
    simp only [Sim.setSupervisor]
    split <;> exact i.frame rfl rfl rfl (fun _ same => by cases same) rfl
  | skip | endCpus | ioNone | creatNot | tick | resume | ioBusy =>
    exact i.frame rfl rfl rfl (fun _ same => by cases same) rfl
  | noVictim | forceNothing | forced =>
    exact i.frame rfl rfl rfl (fun _ same => by cases same) rfl
  | ioDone | creat =>
    refine i.frame rfl rfl rfl (fun _ _ => ?_) rfl
    simp [Sim.callWakeUp, Sim.setSupervisor, Sim.setSys, Sys.setWaker]
  | @woke created pc =>
    cases created <;> exact i.frame rfl rfl rfl (fun _ same => by cases same) rfl
  | @simulate n p u pc _ _ ok =>
    obtain ⟨_, _, thread, _⟩ := simulateProcess_frame ok
    have current := simulateProcess_current ok 0
    exact i.frame thread current.2.1 current.2.2.1 (fun _ same => by cases same) rfl
  | @simulateEvent n p e u pc _ current ok =>
    obtain ⟨_, supervisor, thread, state, event⟩ := simulateProcess_frame ok
    have same := simulateProcess_current ok 0
    have running := prompt p current (simulateProcess_due (s := s.log (.simulate n)) ok)
    have before : u.Answering cfg := by
      refine i.frame thread same.2.1 same.2.2.1 (fun _ waking => ?_) ?_
      · cases (supervisor.symm.trans waking).symm.trans pc
      · rw [supervisor]
        simp [Sim.log, pc, SupervisorPc.asleepOn]
    refine before.raise ?_ (event e rfl) rfl (by simp)
    rw [thread]
    exact sound.running n running
  | @forcePreempt created v pc _ state =>
    exact i.raise (sound.running v state) rfl rfl (by simp)
  | wakeSpuriously _ => exact absurd prompt id
  | @top c hc _ pc =>
    obtain ⟨_, supervisor, others, _⟩ := topOfLoop_spec (s := s) (c := c)
    obtain ⟨sys, _⟩ := topOfLoop_current s c
    refine i.move hc (fun d ne => ⟨(others d ne).1, (others d ne).2, by rw [sys]⟩) (by rw [sys])
      (by rw [sys]) (fun created waking => ?_) ?_ (fun d asleep => ?_)
    · exact signal_waking (supervisor ▸ waking)
    · rw [sys]
      exact i.entered c
    · rw [supervisor] at asleep
      obtain ⟨before, ne⟩ := signal_asleepOn_of asleep
      exact ⟨before, fun same => absurd same ne⟩
  | @spurious c hc pc =>
    refine i.move hc (fun d ne => ⟨if_neg ne, rfl, rfl⟩) rfl rfl (fun _ => id) (i.entered c)
      (fun d asleep => ⟨asleep, fun _ way => ?_⟩)
    simp [Sim.OnTheWay, Sim.owes, pc] at way
  | @recheck c hc _ pc =>
    refine i.move hc (fun d ne => ⟨if_neg ne, rfl, rfl⟩) rfl rfl (fun _ => id) (i.entered c)
      (fun d asleep => ⟨asleep, fun _ way => ?_⟩)
    have owes : s.owes c ≠ none := by simpa [Sim.OnTheWay, pc] using way
    by_cases running : (s.data c).state = .running
    · simp [Sim.owes, pc, running, CpuState.event] at owes
    · rw [if_neg running]
      refine Or.inr (Or.inl ?_)
      simpa [Sim.owes, Sim.setThread, pc] using owes
  | @callIdle c hc pc =>
    refine i.move hc (fun d ne => ⟨if_neg ne, rfl, if_neg ne⟩) rfl rfl (fun _ => id) ?_
      (fun d asleep => ⟨asleep, fun _ way => ?_⟩)
    · simp [Sim.callHandler, Sim.setThread, Sim.setSys, Sys.setCpu, CpuPc.entry, CpuPc.parting]
    · simp [Sim.OnTheWay, Sim.owes, pc, CpuState.event] at way
  | @callPreempt c hc pc | @callYield c hc pc | @callTerminate c hc pc =>
    have current := threads.busy c (by simp [Sim.Waits, pc])
    rw [threads.current c (by simp [pc])] at current
    refine i.move hc (fun d ne => ⟨if_neg ne, rfl, if_neg ne⟩) rfl rfl (fun _ => id)
      (fun _ => current) (fun d asleep => ⟨asleep, fun _ _ => Or.inr (Or.inr ⟨if_pos rfl, ?_⟩)⟩)
    simp [Sim.log, Sim.callHandler, Sim.setThread, Sim.setSys, Sys.setCpu, CpuPc.busy]
  | @count c hc _ pc =>
    refine i.move hc (fun d ne => ⟨if_neg ne, rfl, rfl⟩) rfl rfl (fun _ => id) (i.entered c)
      (fun d asleep => ⟨asleep, fun _ _ => Or.inr (Or.inl ?_)⟩)
    simp [Sim.owes, Sim.setThread]
  | @neverHappens c hc pc =>
    exact i.move hc (fun d ne => ⟨if_neg ne, rfl, rfl⟩) rfl rfl (fun _ => id) (i.entered c)
      (fun d asleep => ⟨asleep, fun _ _ => Or.inl (if_pos rfl)⟩)
  | @contextSwitch c y hc _ pc handler =>
    refine i.move hc (fun d ne => ⟨if_neg ne, ?_, if_neg ne⟩) rfl rfl (fun _ => id) ?_
      (fun d asleep => ⟨asleep, fun _ _ => Or.inl (if_pos rfl)⟩)
    · simp [Sim.setThread, Sim.setData, Sim.setSys, ne]
    · simp [Sim.setThread, Sim.setData, Sim.setSys, Sys.setCpu, CpuPc.entry, CpuPc.parting]
  | @handler u step inside =>
    refine ⟨i.inside, fun c entry => ?_, fun created pc => ?_, fun c asleep => ?_⟩
    · obtain ⟨before, current⟩ := step_entry step inside entry
      exact fun none => i.entered c before (current.symm.trans none)
    · exact fun out => i.waking created pc ((inside.2 0).mpr out)
    · obtain ⟨hc, way⟩ := i.waits c asleep
      refine ⟨hc, way.imp id (Or.imp id fun busy => ⟨busy.1, ?_⟩)⟩
      exact (step_busy step inside busy.2).1

theorem Sim.Answering.start (start : s.Start) : s.Answering cfg where
  inside c _ := start.thread c
  entered c entry := by simp [start.sys.cpu, CpuPc.entry, CpuPc.parting] at entry
  waking created pc := by cases start.supervisor.symm.trans pc
  waits c asleep := by simp [start.supervisor, SupervisorPc.asleepOn] at asleep

theorem Sim.Run.answering (run : Sim.Run cfg Prompt s) : s.Answering cfg := by
  induction run with
  | start start => exact .start start
  | next before prompt step ih => exact ih.step before.sound before.threads prompt step

/-! ## Waits -/

theorem asleepOn_up {pc : SupervisorPc} (asleep : s.supervisor.asleepOn = some c)
    (at' : s.supervisor = pc) (up : pc.asleepOn = none) : False := by
  rw [at', up] at asleep
  cases asleep

/-- A thread other than the supervisor goes on, and is no further than before. -/
theorem nearer_of_sections {k : Nat} (asleep : s.supervisor.asleepOn = some c)
    (supervisor : t.supervisor = s.supervisor) (sections : t.sections c + k ≤ s.sections c) :
    s.Nearer c k t :=
  Or.inr ⟨supervisor ▸ asleep, sections⟩

theorem sections_other (thread : t.thread c = s.thread c) (cpu : t.sys.cpu c = s.sys.cpu c) :
    t.sections c = s.sections c := by
  rw [Sim.sections, Sim.sections, thread, cpu]

theorem signal_self {pc : SupervisorPc} (asleep : pc.asleepOn = some c) :
    (pc.signal c).asleepOn = none := by
  cases pc with
  | waiting x woken | forcing x woken _ =>
    cases woken <;> simp [SupervisorPc.signal, SupervisorPc.asleepOn] at asleep ⊢
    simp [asleep]
  | sleeping | cpus _ | io | waking _ | woke _ | creat | tick | exited =>
    simp [SupervisorPc.asleepOn] at asleep

/-- No step takes the thread further from its signal. -/
theorem Sim.Answering.stays (i : s.Answering cfg) (asleep : s.supervisor.asleepOn = some c)
    (prompt : Prompt s a) (step : Sim.Step cfg s a t) : s.Nearer c 0 t := by
  have way := (i.waits c asleep).2
  -- a step of the thread of CPU `d`, which leaves the others where they are
  have other : ∀ {u : Sim} {d : Nat}, d ≠ c → u.supervisor = s.supervisor →
      (∀ x, x ≠ d → u.thread x = s.thread x ∧ u.sys.cpu x = s.sys.cpu x) → s.Nearer c 0 u := by
    intro u d ne supervisor others
    obtain ⟨thread, cpu⟩ := others c (Ne.symm ne)
    exact nearer_of_sections asleep supervisor (sections_other thread cpu).le
  cases step with
  | lock pc | skip pc | endCpus pc | ioNone pc | creatNot pc | tick pc | resume pc =>
    exact (asleepOn_up asleep pc rfl).elim
  | ioBusy pc | ioDone pc | creat pc | noVictim pc | forceNothing pc | forced pc =>
    exact (asleepOn_up asleep pc rfl).elim
  | woke pc | simulate pc | simulateEvent pc | forcePreempt pc =>
    exact (asleepOn_up asleep pc rfl).elim
  | wakeSpuriously _ => exact absurd prompt id
  | @top d hc _ pc =>
    obtain ⟨_, supervisor, others, _⟩ := topOfLoop_spec (s := s) (c := d)
    obtain ⟨sys, _⟩ := topOfLoop_current s d
    by_cases same : d = c
    · subst same
      exact Or.inl (supervisor ▸ signal_self asleep)
    · refine Or.inr ⟨supervisor ▸ signal_asleepOn (Ne.symm same) asleep, ?_⟩
      exact (sections_other (others c (Ne.symm same)).1 (by rw [sys])).le
  | @spurious d hc pc =>
    by_cases same : d = c
    · subst same
      simp [Sim.OnTheWay, Sim.owes, pc] at way
    · exact other same rfl (fun x ne => ⟨if_neg ne, rfl⟩)
  | @recheck d hc _ pc =>
    by_cases same : d = c
    · subst same
      refine nearer_of_sections asleep rfl ?_
      by_cases running : (s.data d).state = .running
      · simp [Sim.sections, Sim.setThread, running]
      · simp [Sim.sections, Sim.setThread, running, pc]
    · exact other same rfl (fun x ne => ⟨if_neg ne, rfl⟩)
  | @callIdle d hc pc | @callPreempt d hc pc | @callYield d hc pc | @callTerminate d hc pc =>
    by_cases same : d = c
    · subst same
      refine nearer_of_sections asleep rfl ?_
      simp [Sim.sections, Sim.log, Sim.callHandler, Sim.setThread, Sim.setSys, Sys.setCpu, pc,
        CpuPc.sections]
    · exact other same rfl (fun x ne => ⟨if_neg ne, if_neg ne⟩)
  | @count d hc _ pc | @neverHappens d hc pc =>
    by_cases same : d = c
    · subst same
      exact nearer_of_sections asleep rfl (by simp [Sim.sections, Sim.setThread, pc])
    · exact other same rfl (fun x ne => ⟨if_neg ne, rfl⟩)
  | @contextSwitch d y hc _ pc handler =>
    by_cases same : d = c
    · subst same
      refine nearer_of_sections asleep rfl ?_
      simp [Sim.sections, Sim.setThread, pc, handler, CpuPc.sections]
    · exact other same rfl (fun x ne => ⟨if_neg ne, if_neg ne⟩)
  | @handler u step inside =>
    refine nearer_of_sections asleep rfl ?_
    by_cases pc : s.thread c = .handling
    · have busy : (s.sys.cpu c).busy = true := by
        simpa [Sim.OnTheWay, Sim.owes, pc] using way
      simpa [Sim.sections, Sim.setSys, pc] using (step_busy step inside busy).2
    · have same : (s.setSys u).sections c = s.sections c := by
        simp only [Sim.sections, Sim.setSys]
        split <;> first | rfl | contradiction
      exact same.le

theorem holds_asleep {pc : SupervisorPc} (asleep : pc.asleepOn = some c) : pc.holds = false := by
  cases pc with
  | waiting _ _ | forcing _ _ _ | sleeping | waking _ | woke _ => rfl
  | cpus _ | io | creat | tick | exited => simp [SupervisorPc.asleepOn] at asleep

/-- The thread that the supervisor waits for has a step that takes it nearer to the signal. -/
theorem Sim.Answering.enabled (i : s.Answering cfg) (inv : Inv cfg s.sys xs)
    (asleep : s.supervisor.asleepOn = some c) :
    ∃ a t, Sim.Step cfg s a t ∧ Prompt s a ∧ s.Nearer c 1 t := by
  obtain ⟨hc, way⟩ := i.waits c asleep
  have free := holds_asleep asleep
  cases pc : s.thread c with
  | top =>
    obtain ⟨_, supervisor, _⟩ := topOfLoop_spec (s := s) (c := c)
    exact ⟨_, _, .top hc free pc, trivial, Or.inl (supervisor ▸ signal_self asleep)⟩
  | asleep => simp [Sim.OnTheWay, Sim.owes, pc] at way
  | awake =>
    have running : (s.data c).state ≠ .running := by
      intro running
      simp [Sim.OnTheWay, Sim.owes, pc, running, CpuState.event] at way
    refine ⟨_, _, .recheck hc free pc, trivial, nearer_of_sections asleep rfl ?_⟩
    simp [Sim.sections, Sim.setThread, running, pc]
  | dispatch e =>
    cases e with
    | idle | running => simp [Sim.OnTheWay, Sim.owes, pc, CpuState.event] at way
    | preempt =>
      refine ⟨_, _, .callPreempt hc pc, trivial, nearer_of_sections asleep rfl ?_⟩
      simp [Sim.sections, Sim.log, Sim.callHandler, Sim.setThread, Sim.setSys, Sys.setCpu, pc,
        CpuPc.sections]
    | yield =>
      refine ⟨_, _, .callYield hc pc, trivial, nearer_of_sections asleep rfl ?_⟩
      simp [Sim.sections, Sim.log, Sim.callHandler, Sim.setThread, Sim.setSys, Sys.setCpu, pc,
        CpuPc.sections]
    | terminate =>
      refine ⟨_, _, .count hc free pc, trivial, nearer_of_sections asleep rfl ?_⟩
      simp [Sim.sections, Sim.setThread, pc]
  | counted =>
    refine ⟨_, _, .callTerminate hc pc, trivial, nearer_of_sections asleep rfl ?_⟩
    simp [Sim.sections, Sim.log, Sim.callHandler, Sim.setThread, Sim.setSys, Sys.setCpu, pc,
      CpuPc.sections]
  | handling =>
    have busy : (s.sys.cpu c).busy = true := by simpa [Sim.OnTheWay, Sim.owes, pc] using way
    rcases section_enabled inv hc busy (i.entered c) with ⟨y, handler⟩ | ⟨u, step, inside, fewer⟩
    · refine ⟨_, _, .contextSwitch hc free pc handler, trivial, nearer_of_sections asleep rfl ?_⟩
      simp [Sim.sections, Sim.setThread, pc, handler, CpuPc.sections]
    · refine ⟨_, _, .handler step inside, trivial, nearer_of_sections asleep rfl ?_⟩
      simpa [Sim.sections, Sim.setSys, pc] using fewer

/-! ## The supervisor -/

theorem goesOn_of {pc : SupervisorPc} (at' : s.supervisor = pc) (ne : t.supervisor ≠ pc) :
    s.GoesOn t :=
  Or.inl (at' ▸ ne)

/-- `wake_up` goes on. -/
theorem Sim.Answering.wakeUp {created : Bool} (i : s.Answering cfg) (inv : Inv cfg s.sys xs)
    (pc : s.supervisor = .waking created) : ∃ a t, Sim.Step cfg s a t ∧ s.GoesOn t := by
  have step : ∀ (u : Sys) (wpc : WakerPc), Sched.Step cfg (fun _ _ => True) s.sys u →
      (∀ x, u.waker x = if x = 0 then wpc else s.sys.waker x) → Inside s.sys u →
      wpc ≠ s.sys.waker 0 → ∃ a t, Sim.Step cfg s a t ∧ s.GoesOn t := by
    intro u wpc step waker inside ne
    refine ⟨_, _, .handler step inside, Or.inr ?_⟩
    show u.waker 0 ≠ _
    rw [waker, if_pos rfl]
    exact ne
  cases waker : s.sys.waker 0 with
  | outside => exact absurd waker (i.waking created pc)
  | readying p =>
    exact step _ (.enqueueing p) (.ready waker) (fun _ => rfl)
      (inside_waker (w := 0) (by simp [waker]) (by simp) (fun _ => rfl) (fun _ => rfl))
      (by simp [waker])
  | enqueueing p =>
    obtain ⟨v, ok⟩ := (inv.returns 0 (fun _ => 0)).2.1 0 p waker
    refine step _ (.choosing p) (.enqueue waker ok signals_all) (fun _ => rfl) ?_ (by simp [waker])
    have signal : Inside s.sys (((s.sys.setStudent v).signal fun _ => true).markEnqueued p) :=
      inside_signal (u := s.sys) (fun _ => true) rfl rfl
    refine signal.trans (inside_waker (w := 0) ?_ (by simp) (fun _ => rfl) (fun _ => rfl))
    show s.sys.waker 0 ≠ .outside
    simp [waker]
  | choosing p =>
    cases victim : s.sys.student.victimCpu cfg (fun _ => 0) p with
    | none => exact ⟨_, _, .noVictim pc waker victim, goesOn_of pc (by simp [Sim.wakeUpReturns,
        Sim.setSupervisor])⟩
    | some v =>
      refine step _ (.forcing v) (@Sched.Step.choose _ _ _ 0 p (fun _ => 0) waker) (fun _ => ?_) ?_
        (by simp [waker])
      · simp [Sys.setWaker, victim]
      · exact inside_waker (w := 0) (by simp [waker]) (by simp [victim]) (fun _ => rfl)
          (fun _ => rfl)
  | forcing v =>
    by_cases state : (s.data v).state = .running
    · exact ⟨_, _, .forcePreempt pc waker state, goesOn_of pc (by simp [Sim.setSupervisor])⟩
    · exact ⟨_, _, .forceNothing pc waker state, goesOn_of pc (by simp [Sim.wakeUpReturns,
        Sim.setSupervisor])⟩

/-- `simulate_cpus` goes on. -/
theorem Sim.Kept.cpus (k : s.Kept cfg xs) (threads : s.Threads) (pc : s.supervisor = .cpus n)
    (stages : ∀ p < cfg.processCount, s.Stage p) : ∃ a t, Sim.Step cfg s a t ∧ s.GoesOn t := by
  by_cases hn : n < cfg.cpuCount
  · cases current : (s.data n).current with
    | none => exact ⟨_, _, .skip pc hn current, goesOn_of pc (by simp [Sim.setSupervisor])⟩
    | some p =>
      have up : s.supervisor.asleepOn = none := by simp [pc, SupervisorPc.asleepOn]
      have stage := stages p (k.current threads up current).1
      obtain ⟨event, t, ok⟩ :=
        (stage.congr (t := s.log (.simulate n)) rfl rfl rfl).accounted.returns
        n
      cases event with
      | none =>
        exact ⟨_, _, .simulate pc hn current ok, goesOn_of pc (by simp [Sim.setSupervisor])⟩
      | some e =>
        exact ⟨_, _, .simulateEvent pc hn current ok, goesOn_of pc (by simp [Sim.setSupervisor])⟩
  · exact ⟨_, _, .endCpus pc (not_lt.mp hn), goesOn_of pc (by simp [Sim.setSupervisor])⟩

/-- `simulate_io` goes on. -/
theorem Sim.Kept.io (k : s.Kept cfg xs) (pc : s.supervisor = .io)
    (stages : ∀ p < cfg.processCount, s.Stage p) : ∃ a t, Sim.Step cfg s a t ∧ s.GoesOn t := by
  cases head : s.ioQueue with
  | nil => exact ⟨_, _, .ioNone pc head, goesOn_of pc (by simp [Sim.setSupervisor])⟩
  | cons request rest =>
    obtain ⟨p, time⟩ := request
    by_cases zero : time = 0
    · subst zero
      have stage := stages p (k.inTable (p, 0) (head ▸ List.mem_cons_self))
      obtain ⟨busy, later, now, _⟩ := stage.waits head
      exact ⟨_, _, .ioDone pc head now, goesOn_of pc (by simp [Sim.callWakeUp, Sim.setSupervisor])⟩
    · exact ⟨_, _, .ioBusy pc head zero, goesOn_of pc (by simp [Sim.setSupervisor])⟩

theorem Sim.Answering.supervisor (i : s.Answering cfg) (kept : s.Kept cfg xs)
    (threads : s.Threads) (stages : ∀ p < cfg.processCount, s.Stage p)
    (up : s.supervisor.asleepOn = none) :
    s.supervisor = .exited ∨ ∃ a t, Sim.Step cfg s a t ∧ s.GoesOn t := by
  cases pc : s.supervisor with
  | exited => exact Or.inl rfl
  | sleeping =>
    refine Or.inr ⟨_, _, .lock pc, goesOn_of pc ?_⟩
    simp only [Sim.setSupervisor]
    split <;> simp
  | cpus n => exact Or.inr (kept.cpus threads pc stages)
  | waiting c woken =>
    cases woken with
    | false => simp [pc, SupervisorPc.asleepOn] at up
    | true => exact Or.inr ⟨_, _, .resume pc, goesOn_of pc (by simp [Sim.setSupervisor])⟩
  | io => exact Or.inr (kept.io pc stages)
  | waking created => exact Or.inr (i.wakeUp kept.inv pc)
  | forcing c woken created =>
    cases woken with
    | false => simp [pc, SupervisorPc.asleepOn] at up
    | true =>
      exact Or.inr ⟨_, _, .forced pc, goesOn_of pc (by simp [Sim.wakeUpReturns,
        Sim.setSupervisor])⟩
  | woke created =>
    refine Or.inr ⟨_, _, .woke pc, goesOn_of pc ?_⟩
    cases created <;> simp [Sim.setSupervisor]
  | creat =>
    by_cases more : s.simulatorTime % 10 = 0 ∧ s.processesCreated < cfg.processCount
    · exact Or.inr ⟨_, _, .creat pc more.1 more.2, goesOn_of pc (by simp [Sim.callWakeUp,
        Sim.setSupervisor])⟩
    · exact Or.inr ⟨_, _, .creatNot pc more, goesOn_of pc (by simp [Sim.setSupervisor])⟩
  | tick => exact Or.inr ⟨_, _, .tick pc, goesOn_of pc (by simp [Sim.setSupervisor])⟩

end

/-! ## Every run -/

/-- With programs that alternate. -/
theorem never_stuck {cfg : Config} {start s : Sim} (run : Sim.RunFrom cfg Prompt start s)
    (prepared : ∀ p < cfg.processCount, start.Prepared p) : s.Live cfg := by
  obtain ⟨xs, kept⟩ := run.run.kept
  have answering := run.run.answering
  refine ⟨fun up => ?_, fun c asleep => ?_, fun c asleep a t step prompt => ?_⟩
  · exact answering.supervisor kept run.run.threads (fun p hp => run.stage (prepared p hp)) up
  · exact answering.enabled kept.inv asleep
  · exact answering.stays asleep prompt step

theorem never_stuck_picked_up : ∃ s, Sim.RunFrom oneCpu Prompt oneJob s ∧
    s.supervisor = .sleeping ∧ s.Live oneCpu := by
  obtain ⟨s, run, here⟩ := job_picked_up
  exact ⟨s, run, here.supervisor, never_stuck run (fun p _ => oneJob_prepared p)⟩

end SystemsProjects.Sched
