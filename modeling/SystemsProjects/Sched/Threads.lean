import SystemsProjects.Sched.Delivery
import SystemsProjects.Sched.Moves

/-!
# The threads and their handlers

What the simulator has noted of a CPU, what `student.c` has in `current[]`, and where
the thread of the CPU is fit together. From an event to the end of its handler the
supervisor sleeps on that CPU, if it is prompt.
-/

namespace SystemsProjects.Sched

/-- The event on which a CPU is giving up its process for good. -/
def Sim.parting (s : Sim) (c : Nat) : Option CpuState :=
  ((s.owes c).bind CpuState.parting).or (s.sys.cpu c).parting

/-- The CPU has a process to give up, or its handler has one, or had one. -/
def Sim.Engaged (s : Sim) (c : Nat) : Prop :=
  s.parting c ≠ none ∨ (s.sys.cpu c).leaving ≠ none ∨
    (s.thread c = .handling ∧ (s.data c).current ≠ none)

def SupervisorPc.inWakeUp : SupervisorPc → Bool
  | .waking _ | .forcing _ _ _ => true
  | _ => false

/-- The thread waits for an event, or has one and is not in its handler. -/
def Sim.Waits (s : Sim) (c : Nat) : Prop :=
  s.thread c ≠ .top ∧ s.thread c ≠ .dispatch .idle ∧ s.thread c ≠ .handling

structure Sim.Threads (s : Sim) : Prop where
  handling : ∀ c, s.sys.cpu c = .outside ↔ s.thread c ≠ .handling
  current : ∀ c, s.thread c ≠ .handling → (s.data c).current = s.sys.student.current c
  awake : ∀ c, s.thread c = .awake → (s.data c).state ≠ .idle
  idle : ∀ c, s.thread c = .dispatch .idle → (s.data c).current = none
  busy : ∀ c, s.Waits c → (s.data c).current ≠ none
  held : ∀ c, s.Engaged c → s.supervisor.asleepOn = some c

/-- Only the supervisor calls `wake_up`. -/
structure Sim.Waking (s : Sim) : Prop where
  others : ∀ w, w ≠ 0 → s.sys.waker w = .outside
  outside : s.supervisor.inWakeUp = false → s.sys.waker 0 = .outside
  forcing : ∀ c woken created, s.supervisor = .forcing c woken created →
    ∃ v, s.sys.waker 0 = .forcing v

section

variable {cfg : Config} {s t : Sim} {a : Action} {c n p : Nat} {e : CpuState}

/-! ## The CPU threads -/

theorem Sim.Threads.owes_handling (pc : s.thread c = .handling) : s.owes c = none := by
  simp [Sim.owes, pc]

/-- While the supervisor does not sleep, no CPU gives up a process. -/
theorem Sim.Threads.free (i : s.Threads) (up : s.supervisor.asleepOn = none) (c : Nat) :
    ¬ s.Engaged c := fun engaged =>
  absurd ((i.held c engaged).symm.trans up) (Option.some_ne_none c)

theorem parting_ne_none : s.parting c ≠ none ↔
    (s.owes c).bind CpuState.parting ≠ none ∨ (s.sys.cpu c).parting ≠ none := by
  rw [Sim.parting, Ne, Option.or_eq_none_iff, not_and_or]

theorem parting_congr (thread : t.thread c = s.thread c)
    (state : (t.data c).state = (s.data c).state)
    (cpu : (t.sys.cpu c).parting = (s.sys.cpu c).parting) : t.parting c = s.parting c := by
  rw [Sim.parting, Sim.parting, owes_congr thread state, cpu]

/-- The threads are where they were, and the supervisor is elsewhere. -/
theorem Sim.Threads.frame (i : s.Threads) (thread : t.thread = s.thread)
    (data : ∀ c, (t.data c).current = (s.data c).current ∧ (t.data c).state = (s.data c).state)
    (cpu : t.sys.cpu = s.sys.cpu) (current : t.sys.student.current = s.sys.student.current)
    (supervisor : s.supervisor.asleepOn = none ∨
      t.supervisor.asleepOn = s.supervisor.asleepOn) : t.Threads where
  handling c := by
    rw [cpu, thread]
    exact i.handling c
  current c := by
    rw [thread, (data c).1, current]
    exact i.current c
  awake c := by
    rw [thread, (data c).2]
    exact i.awake c
  idle c := by
    rw [thread, (data c).1]
    exact i.idle c
  busy c := by
    rw [Sim.Waits, thread, (data c).1]
    exact i.busy c
  held c engaged := by
    have before : s.Engaged c := by
      unfold Sim.Engaged at engaged ⊢
      rwa [parting_congr (congrFun thread c) (data c).2 (by rw [cpu]), cpu, thread, (data c).1]
        at engaged
    rcases supervisor with up | same
    · exact absurd before (i.free up c)
    · rw [same]
      exact i.held c before

/-- One thread moves on, the others and the supervisor stay. -/
theorem Sim.Threads.move (i : s.Threads)
    (others : ∀ d, d ≠ c → t.thread d = s.thread d ∧ t.data d = s.data d ∧
      t.sys.cpu d = s.sys.cpu d ∧ t.sys.student.current d = s.sys.student.current d)
    (supervisor : ∀ d, d ≠ c → s.supervisor.asleepOn = some d → t.supervisor.asleepOn = some d)
    (handling : t.sys.cpu c = .outside ↔ t.thread c ≠ .handling)
    (current : t.thread c ≠ .handling → (t.data c).current = t.sys.student.current c)
    (awake : t.thread c = .awake → (t.data c).state ≠ .idle)
    (idle : t.thread c = .dispatch .idle → (t.data c).current = none)
    (busy : t.Waits c → (t.data c).current ≠ none)
    (held : t.Engaged c → t.supervisor.asleepOn = some c) : t.Threads where
  handling d := by
    by_cases here : d = c
    · exact here ▸ handling
    · obtain ⟨thread, _, cpu, _⟩ := others d here
      rw [cpu, thread]
      exact i.handling d
  current d := by
    by_cases here : d = c
    · exact here ▸ current
    · obtain ⟨thread, data, _, same⟩ := others d here
      rw [thread, data, same]
      exact i.current d
  awake d := by
    by_cases here : d = c
    · exact here ▸ awake
    · obtain ⟨thread, data, _, _⟩ := others d here
      rw [thread, data]
      exact i.awake d
  idle d := by
    by_cases here : d = c
    · exact here ▸ idle
    · obtain ⟨thread, data, _, _⟩ := others d here
      rw [thread, data]
      exact i.idle d
  busy d := by
    by_cases here : d = c
    · exact here ▸ busy
    · obtain ⟨thread, data, _, _⟩ := others d here
      rw [Sim.Waits, thread, data]
      exact i.busy d
  held d := by
    by_cases here : d = c
    · exact here ▸ held
    · obtain ⟨thread, data, cpu, _⟩ := others d here
      intro engaged
      unfold Sim.Engaged at engaged
      rw [parting_congr thread (by rw [data]) (by rw [cpu]), thread, data, cpu] at engaged
      exact supervisor d here (i.held d engaged)

/-- A thread that is not in a handler calls one, or goes on outside. -/
theorem Sim.Threads.engaged_outside (pc : t.thread c ≠ .handling) (out : t.sys.cpu c = .outside) :
    t.Engaged c ↔ (t.owes c).bind CpuState.parting ≠ none := by
  simp [Sim.Engaged, Sim.parting, out, CpuPc.parting, CpuPc.leaving, pc]

theorem raise_current (s : Sim) (c : Nat) (e : CpuState) (d : Nat) :
    ((s.raise c e).data d).current = (s.data d).current ∧ (s.raise c e).sys = s.sys := by
  unfold Sim.raise
  simp only [Sim.log]
  refine ⟨?_, ?_⟩
  · split <;> simp only [Sim.setThread, Sim.setData] <;> split <;> rfl
  · split <;> rfl

/-- The state of a CPU that is in its wait is set to an event. -/
theorem Sim.Threads.raise {pc : SupervisorPc} (i : s.Threads)
    (there : s.thread c = .asleep ∨ s.thread c = .awake) (event : e ≠ .idle)
    (waits : pc.asleepOn = some c) (up : s.supervisor.asleepOn = none) :
    ((s.raise c e).setSupervisor pc).Threads := by
  have away : s.thread c ≠ .handling := by
    rcases there with pc | pc <;> simp [pc]
  have now : ((s.raise c e).setSupervisor pc).thread c = .awake :=
    (raise_thread there).trans (if_pos rfl)
  have sys : ((s.raise c e).setSupervisor pc).sys = s.sys := (raise_current s c e c).2
  refine i.move (c := c) ?_ ?_ ?_ ?_ ?_ ?_ ?_ (fun _ => waits)
  · intro d ne
    refine ⟨(raise_thread there).trans (if_neg ne), ?_, by rw [sys], by rw [sys]⟩
    show (s.raise c e).data d = s.data d
    unfold Sim.raise
    simp only [Sim.log]
    split <;> simp [Sim.setThread, Sim.setData, ne]
  · intro d _ asleep
    exact absurd (asleep.symm.trans up) (Option.some_ne_none d)
  · rw [sys, now, i.handling c]
    exact iff_of_true away (by decide)
  · intro _
    rw [sys]
    exact ((raise_current s c e c).1).trans (i.current c away)
  · intro _
    show ((s.raise c e).data c).state ≠ .idle
    rw [raise_state, if_pos rfl]
    exact event
  · rw [now]
    exact fun h => absurd h (by decide)
  · intro _
    show ((s.raise c e).data c).current ≠ none
    rw [(raise_current s c e c).1]
    exact i.busy c (by rcases there with pc | pc <;> simp [Sim.Waits, pc])

theorem simulateProcess_current {q : Option CpuState} (ok : s.simulateProcess n p = some (q, t))
    (d : Nat) : (t.data d).current = (s.data d).current ∧ t.sys.cpu = s.sys.cpu ∧
      t.sys.student.current = s.sys.student.current ∧ t.sys.waker = s.sys.waker := by
  simp only [Sim.simulateProcess] at ok
  split at ok
  · split at ok
    · obtain ⟨rfl, rfl⟩ := Prod.mk.inj (Option.some.inj ok)
      refine ⟨?_, rfl, rfl, rfl⟩
      simp only [Sim.setData, Sim.tickProcess, Sim.setSys, Sim.setOps]
      split <;> rfl
    · split at ok
      · cases ok
        exact ⟨rfl, rfl, rfl, rfl⟩
      · cases ok
        exact ⟨rfl, rfl, rfl, rfl⟩
      · cases ok
        exact ⟨rfl, rfl, rfl, rfl⟩
      · cases ok
  · cases ok
    exact ⟨rfl, rfl, rfl, rfl⟩
  · cases ok
    exact ⟨rfl, rfl, rfl, rfl⟩
  · cases ok

theorem topOfLoop_current (s : Sim) (c : Nat) : (s.topOfLoop c).sys = s.sys ∧
    (∀ d, ((s.topOfLoop c).data d).current = (s.data d).current) ∧
    (∀ d, d ≠ c → (s.topOfLoop c).data d = s.data d) ∧
    ((s.topOfLoop c).thread c = .dispatch .idle ↔ (s.data c).current = none) := by
  have before : ((s.setSupervisor (s.supervisor.signal c)).data c).current = (s.data c).current :=
    rfl
  simp only [Sim.topOfLoop, before]
  split
  · rename_i none
    refine ⟨rfl, fun d => ?_, fun d ne => if_neg ne, iff_of_true (if_pos rfl) none⟩
    simp only [Sim.setThread, Sim.setData, Sim.setSupervisor]
    split <;> rfl
  · rename_i p some
    refine ⟨rfl, fun d => ?_, fun d ne => if_neg ne, iff_of_false ?_ (by simp [some])⟩
    · simp only [Sim.setThread, Sim.setData, Sim.setSupervisor]
      split <;> rfl
    · simp [Sim.setThread]

/-- A thread goes on outside of the handlers, with what it is to do next. -/
theorem Sim.Threads.advance {pc : ThreadPc} (i : s.Threads) (away : s.thread c ≠ .handling)
    (thread : ∀ d, t.thread d = if d = c then pc else s.thread d) (sys : t.sys = s.sys)
    (data : t.data = s.data) (supervisor : t.supervisor = s.supervisor) (outside : pc ≠ .handling)
    (awake : pc = .awake → (s.data c).state ≠ .idle)
    (idle : pc = .dispatch .idle → (s.data c).current = none)
    (busy : pc = .top ∨ (s.data c).current ≠ none) (owes : t.owes c = s.owes c) : t.Threads := by
  have now : t.thread c = pc := (thread c).trans (if_pos rfl)
  have out : t.sys.cpu c = .outside := by
    rw [sys]
    exact (i.handling c).mpr away
  refine i.move (c := c) (fun d ne => ⟨(thread d).trans (if_neg ne), by rw [data], by rw [sys],
    by rw [sys]⟩) (fun _ _ => supervisor ▸ id) ?_ ?_ ?_ ?_ ?_ ?_
  · rw [now]
    exact iff_of_true out outside
  · intro _
    rw [data, sys]
    exact i.current c away
  · rw [now, data]
    exact awake
  · rw [now, data]
    exact idle
  · rw [data]
    rintro ⟨top, _⟩
    exact busy.resolve_left (fun pc => top (now.trans pc))
  · rw [Sim.Threads.engaged_outside (by rwa [now]) out, owes, supervisor]
    exact fun parts => i.held c ((Sim.Threads.engaged_outside away (sys ▸ out)).mpr parts)

/-- The thread of a CPU calls a handler. -/
theorem Sim.Threads.call {entry : CpuPc} (i : s.Threads) (inside : entry ≠ .outside)
    (leaving : entry.leaving = none)
    (held : entry.parting ≠ none ∨ (s.data c).current ≠ none → s.supervisor.asleepOn = some c) :
    (s.callHandler c entry).Threads := by
  have thread : (s.callHandler c entry).thread c = .handling := if_pos rfl
  have cpu : (s.callHandler c entry).sys.cpu c = entry := if_pos rfl
  refine i.move (c := c) (fun d ne => ⟨if_neg ne, rfl, if_neg ne, rfl⟩) (fun _ _ => id) ?_ ?_ ?_ ?_
    ?_ ?_
  · rw [cpu, thread]
    exact iff_of_false inside (by simp)
  · exact fun away => absurd thread away
  · rw [thread]
    exact fun h => absurd h (by decide)
  · rw [thread]
    exact fun h => absurd h (by decide)
  · exact fun waits => absurd thread waits.2.2
  · rintro (parting | left | ⟨_, current⟩)
    · rw [Sim.parting, Sim.Threads.owes_handling thread, cpu] at parting
      exact held (Or.inl parting)
    · rw [cpu, leaving] at left
      exact absurd rfl left
    · exact held (Or.inr current)

/-- The supervisor sleeps until the handler of an event has returned. -/
theorem Sim.Threads.owed (i : s.Threads) (c : Nat) (entry : CpuPc) (sound : s.Sound)
    (owes : s.owes c ≠ none) (inside : entry ≠ .outside) (leaving : entry.leaving = none) :
    (s.callHandler c entry).Threads := by
  obtain ⟨e, owes⟩ := Option.ne_none_iff_exists'.mp owes
  exact i.call inside leaving (fun _ => (sound.owed c e owes).1)

/-- `simulate_process` raises an event, and the supervisor sleeps. -/
theorem Sim.Threads.simulateEvent (i : s.Threads) (sound : s.Sound) (pc : s.supervisor = .cpus n)
    (running : (s.data n).state = .running)
    (ok : (s.log (.simulate n)).simulateProcess n p = some (some e, t)) :
    ((t.raise n e).setSupervisor (.waiting n false)).Threads := by
  obtain ⟨_, supervisor, thread, state, event⟩ := simulateProcess_frame ok
  have same := simulateProcess_current ok
  have up : s.supervisor.asleepOn = none := by simp [SupervisorPc.asleepOn, pc]
  have before : t.Threads := i.frame thread (fun d => ⟨(same d).1, state d⟩) (same 0).2.1
    (same 0).2.2.1 (Or.inl up)
  refine before.raise ?_ ?_ rfl ((congrArg _ supervisor).trans up)
  · rw [thread]
    exact sound.running n running
  · rintro rfl
    exact absurd (event _ rfl) (by decide)

/-- The thread of a CPU is at the top of its loop. -/
theorem Sim.Threads.topOfLoop (i : s.Threads) (pc : s.thread c = .top) :
    (s.topOfLoop c).Threads := by
  obtain ⟨_, supervisor, others, here⟩ := topOfLoop_spec (s := s) (c := c)
  obtain ⟨sys, current, data, idle⟩ := topOfLoop_current s c
  have away : s.thread c ≠ .handling := by simp [pc]
  have out : (s.topOfLoop c).sys.cpu c = .outside := by
    rw [sys]
    exact (i.handling c).mpr away
  have now : (s.topOfLoop c).thread c ≠ .handling ∧ (s.topOfLoop c).thread c ≠ .awake ∧
      (s.topOfLoop c).owes c = none := by
    rcases here with ⟨thread, _⟩ | ⟨thread, _⟩ <;> simp [Sim.owes, thread, CpuState.event]
  refine i.move (c := c) (fun d ne => ⟨(others d ne).1, data d ne, by rw [sys], by rw [sys]⟩)
    ?_ (iff_of_true out now.1) ?_ (fun h => absurd h now.2.1) ?_ ?_ ?_
  · intro d ne asleep
    rw [supervisor]
    exact signal_asleepOn ne asleep
  · intro _
    rw [current, sys]
    exact i.current c away
  · intro waits
    rw [current]
    exact idle.mp waits
  · rintro ⟨_, some, _⟩
    rw [current]
    exact fun none => some (idle.mpr none)
  · rw [Sim.Threads.engaged_outside now.1 out, now.2.2]
    exact fun parts => absurd rfl parts

/-- A section of a handler leaves the thread where it is. -/
theorem Sim.Threads.inHandler {u : Sys} (i : s.Threads)
    (step : Sched.Step cfg (fun _ _ => True) s.sys u) (inside : Inside s.sys u) :
    (s.setSys u).Threads := by
  have releases := step_releases step inside
  refine ⟨fun c => ?_, fun c away => ?_, i.awake, i.idle, i.busy, fun c engaged => ?_⟩
  · exact ((inside.1 c).symm).trans (i.handling c)
  · exact (i.current c away).trans (step_current step ((i.handling c).mpr away)).symm
  · refine i.held c ?_
    rcases engaged with parting | left | busy
    · refine Or.inl (parting_ne_none.mpr ?_)
      exact (parting_ne_none.mp parting).imp id (releases.parting c)
    · rcases releases.leaving c left with left | parting
      · exact Or.inr (Or.inl left)
      · exact Or.inl (parting_ne_none.mpr (Or.inr parting))
    · exact Or.inr (Or.inr busy)

theorem Sim.Threads.step (i : s.Threads) (sound : s.Sound) (prompt : Prompt s a)
    (step : Sim.Step cfg s a t) : t.Threads := by
  cases step with
  | lock pc | skip pc | endCpus pc | ioNone pc | creatNot pc | tick pc | resume pc =>
    exact i.frame rfl (fun _ => ⟨rfl, rfl⟩) rfl rfl (Or.inl (by simp [SupervisorPc.asleepOn, pc]))
  | ioBusy pc | ioDone pc | creat pc | noVictim pc | forceNothing pc | forced pc =>
    exact i.frame rfl (fun _ => ⟨rfl, rfl⟩) rfl rfl (Or.inl (by simp [SupervisorPc.asleepOn, pc]))
  | @woke created pc =>
    cases created <;>
      exact i.frame rfl (fun _ => ⟨rfl, rfl⟩) rfl rfl
        (Or.inl (by simp [SupervisorPc.asleepOn, pc]))
  | @simulate n p u pc _ _ ok =>
    obtain ⟨_, _, thread, state, _⟩ := simulateProcess_frame ok
    have current := simulateProcess_current ok
    exact i.frame thread (fun d => ⟨(current d).1, state d⟩) (current 0).2.1 (current 0).2.2.1
      (Or.inl (by simp [SupervisorPc.asleepOn, pc]))
  | @simulateEvent n p e u pc _ current ok =>
    have running := prompt p current (simulateProcess_due (s := s.log (.simulate n)) ok)
    exact i.simulateEvent sound pc running ok
  | @forcePreempt created v pc _ state =>
    exact i.raise (sound.running v state) (by simp) rfl (by simp [SupervisorPc.asleepOn, pc])
  | wakeSpuriously _ => exact absurd prompt id
  | @top c _ _ pc => exact i.topOfLoop pc
  | @spurious c _ pc =>
    have running := sound.asleep c pc
    refine i.advance (c := c) (by simp [pc]) (fun _ => rfl) rfl rfl rfl (by simp) ?_ (by simp)
      (Or.inr (i.busy c (by simp [Sim.Waits, pc]))) ?_
    · simp [running]
    · simp [Sim.owes, Sim.setThread, pc, running, CpuState.event]
  | @recheck c _ _ pc =>
    have busy := i.busy c (by simp [Sim.Waits, pc])
    by_cases running : (s.data c).state = .running
    · rw [if_pos running]
      refine i.advance (c := c) (by simp [pc]) (fun _ => rfl) rfl rfl rfl (by simp) (by simp)
        (by simp) (Or.inr busy) ?_
      simp [Sim.owes, Sim.setThread, pc, running, CpuState.event]
    · rw [if_neg running]
      refine i.advance (c := c) (by simp [pc]) (fun _ => rfl) rfl rfl rfl (by simp) (by simp) ?_
        (Or.inr busy) ?_
      · intro idle
        exact absurd (ThreadPc.dispatch.inj idle) (i.awake c pc)
      · simp [Sim.owes, Sim.setThread, pc]
  | @callIdle c _ pc =>
    exact i.call (by simp) rfl (fun h => by simp [CpuPc.parting, i.idle c pc] at h)
  | @callPreempt c _ pc =>
    have calls := i.owed c .preempting sound (by simp [Sim.owes, pc, CpuState.event])
      (by simp) rfl
    exact calls.frame rfl (fun _ => ⟨rfl, rfl⟩) rfl rfl (Or.inr rfl)
  | @callYield c _ pc =>
    have calls := i.owed c .yielding sound (by simp [Sim.owes, pc, CpuState.event])
      (by simp) rfl
    exact calls.frame rfl (fun _ => ⟨rfl, rfl⟩) rfl rfl (Or.inr rfl)
  | @callTerminate c _ pc =>
    have calls := i.owed c .terminating sound (by simp [Sim.owes, pc]) (by simp) rfl
    exact calls.frame rfl (fun _ => ⟨rfl, rfl⟩) rfl rfl (Or.inr rfl)
  | @count c _ _ pc =>
    exact i.advance (c := c) (by simp [pc]) (fun _ => rfl) rfl rfl rfl (by simp) (by simp) (by simp)
      (Or.inr (i.busy c (by simp [Sim.Waits, pc])))
        (by simp [Sim.owes, Sim.setThread, pc, CpuState.event])
  | @neverHappens c _ pc =>
    exact i.advance (c := c) (by simp [pc]) (fun _ => rfl) rfl rfl rfl (by simp) (by simp) (by simp)
      (Or.inl rfl) (by simp [Sim.owes, Sim.setThread, pc, CpuState.event])
  | @contextSwitch c y _ _ pc handler =>
    refine i.move (c := c) (fun d ne => ⟨if_neg ne, if_neg ne, if_neg ne, rfl⟩) (fun _ _ => id) ?_
      ?_ ?_ ?_ ?_ ?_
    · simp [Sim.setThread, Sim.setData, Sim.setSys, Sys.setCpu]
    · simp [Sim.setThread, Sim.setData, Sim.setSys, Sys.setCpu, Sys.markYielded]
    · simp [Sim.setThread]
    · simp [Sim.setThread]
    · simp [Sim.Waits, Sim.setThread]
    · simp [Sim.Engaged, Sim.parting, Sim.owes, Sim.setThread, Sim.setData, Sim.setSys, Sys.setCpu,
        CpuPc.parting, CpuPc.leaving]
  | @handler u step inside => exact i.inHandler step inside

theorem Sim.Threads.start (start : s.Start) : s.Threads where
  handling c := iff_of_true (start.sys.cpu c) (by simp [start.thread])
  current c _ := by rw [start.data, start.sys.current]
  awake c awake := by simp [start.thread] at awake
  idle c idle := by simp [start.thread] at idle
  busy c waits := by simp [Sim.Waits, start.thread] at waits
  held c engaged := by
    simp [Sim.Engaged, Sim.parting, Sim.owes, start.thread, start.sys.cpu, CpuPc.parting,
      CpuPc.leaving] at engaged

theorem Sim.Run.threads (run : Sim.Run cfg Prompt s) : s.Threads := by
  induction run with
  | start start => exact .start start
  | next before prompt step ih => exact ih.step before.sound prompt step

/-! ## `wake_up` -/

/-- The supervisor is outside `wake_up`, and `wake_up` is where it was. -/
theorem Sim.Waking.frame (i : s.Waking) (waker : t.sys.waker = s.sys.waker)
    (out : s.supervisor.inWakeUp = false) (still : t.supervisor.inWakeUp = false) : t.Waking where
  others w ne := by
    rw [waker]
    exact i.others w ne
  outside _ := by
    rw [waker]
    exact i.outside out
  forcing c woken created pc := by
    rw [pc] at still
    exact absurd still (by simp [SupervisorPc.inWakeUp])

/-- And if it is in it, it stays in it. -/
theorem Sim.Waking.same (i : s.Waking) (waker : t.sys.waker = s.sys.waker)
    (inWakeUp : t.supervisor.inWakeUp = s.supervisor.inWakeUp)
    (forcing : ∀ c woken created, t.supervisor = .forcing c woken created →
      ∃ woken, s.supervisor = .forcing c woken created) : t.Waking where
  others w ne := by
    rw [waker]
    exact i.others w ne
  outside := by
    rw [waker, inWakeUp]
    exact i.outside
  forcing c woken created pc := by
    obtain ⟨before, pc⟩ := forcing c woken created pc
    rw [waker]
    exact i.forcing c before created pc

theorem Sim.Waking.call (i : s.Waking) (created : Bool) : (s.callWakeUp p created).Waking where
  others w ne := (if_neg ne).trans (i.others w ne)
  outside still := by simp [Sim.callWakeUp, Sim.setSupervisor, SupervisorPc.inWakeUp] at still
  forcing c woken created pc := by simp [Sim.callWakeUp, Sim.setSupervisor] at pc

theorem Sim.Waking.returns (i : s.Waking) (created : Bool) : (s.wakeUpReturns created).Waking where
  others w ne := (if_neg ne).trans (i.others w ne)
  outside _ := by simp [Sim.wakeUpReturns, Sim.setSupervisor, Sim.setSys, Sys.setWaker]
  forcing c woken created pc := by simp [Sim.wakeUpReturns, Sim.setSupervisor] at pc

theorem signal_inWakeUp (pc : SupervisorPc) (c : Nat) : (pc.signal c).inWakeUp = pc.inWakeUp ∧
    ∀ d woken created, pc.signal c = .forcing d woken created →
      ∃ woken, pc = .forcing d woken created := by
  cases pc with
  | waiting d woken =>
    cases woken <;> simp [SupervisorPc.signal, SupervisorPc.inWakeUp]
  | forcing d woken created =>
    cases woken <;> simp +contextual [SupervisorPc.signal, SupervisorPc.inWakeUp]
  | sleeping | cpus _ | io | waking _ | woke _ | creat | tick | exited =>
    simp [SupervisorPc.signal]

theorem Sim.Waking.step (i : s.Waking) (step : Sim.Step cfg s a t) : t.Waking := by
  cases step with
  | lock pc =>
    refine i.frame rfl (by rw [pc]; rfl) ?_
    simp only [Sim.setSupervisor]
    split <;> rfl
  | skip pc | endCpus pc | ioNone pc | creatNot pc | tick pc | resume pc | ioBusy pc =>
    exact i.frame rfl (by rw [pc]; rfl) rfl
  | @woke created pc =>
    cases created <;> exact i.frame rfl (by rw [pc]; rfl) rfl
  | @simulate n p u pc _ _ ok =>
    exact i.frame (simulateProcess_current ok 0).2.2.2 (by rw [pc]; rfl) rfl
  | @simulateEvent n p e u pc _ _ ok =>
    refine i.frame ?_ (by rw [pc]; rfl) rfl
    exact (congrArg Sys.waker (raise_current u n e 0).2).trans (simulateProcess_current ok 0).2.2.2
  | @ioDone p rest op ops pc head now =>
    have before : Sim.Waking { s.setOps p ops with ioQueue := rest } :=
      i.same rfl rfl (fun _ woken _ pc => ⟨woken, pc⟩)
    exact before.call false
  | creat pc => exact i.call true
  | noVictim | forceNothing | forced => exact i.returns _
  | @forcePreempt created v pc waker =>
    have same : ((s.raise v .preempt).setSupervisor (.forcing v false created)).sys = s.sys :=
      (raise_current s v .preempt v).2
    refine ⟨fun w ne => ?_, fun out => ?_, fun _ _ _ _ => ⟨v, ?_⟩⟩
    · rw [same]
      exact i.others w ne
    · simp [Sim.setSupervisor, SupervisorPc.inWakeUp] at out
    · rw [same, waker]
  | wakeSpuriously => exact i.same rfl (signal_inWakeUp _ _).1 (signal_inWakeUp _ _).2
  | @top c =>
    obtain ⟨sys, _⟩ := topOfLoop_current s c
    obtain ⟨_, supervisor, _⟩ := topOfLoop_spec (s := s) (c := c)
    refine i.same (congrArg _ sys) ?_ ?_
    · rw [supervisor]
      exact (signal_inWakeUp _ _).1
    · rw [supervisor]
      exact (signal_inWakeUp _ _).2
  | @handler u step inside =>
    refine ⟨fun w ne => ?_, fun out => ?_, fun c woken created pc => ?_⟩
    · exact (inside.2 w).mp (i.others w ne)
    · exact (inside.2 0).mp (i.outside out)
    · obtain ⟨v, waker⟩ := i.forcing c woken created pc
      exact ⟨v, step_forcing step inside waker⟩
  | callPreempt | callYield | callTerminate | callIdle | count | neverHappens | spurious | recheck |
    contextSwitch =>
    exact i.same rfl rfl (fun _ woken _ pc => ⟨woken, pc⟩)

theorem Sim.Waking.start (start : s.Start) : s.Waking where
  others w _ := start.sys.waker w
  outside _ := start.sys.waker 0
  forcing c woken created pc := by simp [start.supervisor] at pc

theorem Sim.Run.waking {ok : Sim → Action → Prop} (run : Sim.Run cfg ok s) : s.Waking := by
  induction run with
  | start start => exact .start start
  | next _ _ step ih => exact ih.step step

end

end SystemsProjects.Sched
