import SystemsProjects.Sched.Simulator
import SystemsProjects.Sched.Exclusion

/-!
# Events reach their handlers

An event is a value of a CPU's state, which the CPU's thread sets itself at the top
of its loop. `idle` makes a process current before that: an event raised in between
is overwritten.
-/

namespace SystemsProjects.Sched

open Answers

/-- To the thread of CPU `c` an event is a request and its handler the answer, due
when `simulate_process` is called again. -/
def roles (c : Nat) : Roles Label CpuState where
  request
    | .raise d e => if d = c then some e else none
    | _ => none
  answer
    | .call d e => if d = c then some e else none
    | _ => none
  deadline
    | .simulate d => d = c
    | _ => false

/-- Every event has had its handler called once by the next call of
`simulate_process` for the CPU. -/
def Delivered (h : List Label) : Prop := ∀ c, AnsweredOnce (roles c) h

/-- An event of the process on CPU `c` is due: its time slice ends with this tick, or
its CPU burst has ended and something else follows. -/
def Sim.due (s : Sim) (c p : Nat) : Bool :=
  match s.ops p with
  | .cpu time :: rest =>
    if 0 < time then (s.data c).preemptionTimer = 1
    else match rest with
      | .io _ :: _ | .terminate :: _ => true
      | _ => false
  | _ => false

/-- When an event is due at a call of `simulate_process` the CPU is in state
`CPU_RUNNING`, and the supervisor returns from a wait only if it is signalled. -/
def Prompt (s : Sim) : Action → Prop
  | .simulateProcess c =>
      ∀ p, (s.data c).current = some p → s.due c p = true → (s.data c).state = .running
  | .wakeSpuriously => False
  | .other => True

/-- The supervisor returns from a wait only if it is signalled. -/
def Signalled (_ : Sim) (a : Action) : Prop := a ≠ .wakeSpuriously

/-- The event that the thread of CPU `c` has yet to call the handler of. -/
def Sim.owes (s : Sim) (c : Nat) : Option CpuState :=
  match s.thread c with
  | .awake => (s.data c).state.event
  | .dispatch state => state.event
  | .counted => some .terminate
  | _ => none

structure Sim.Sound (s : Sim) : Prop where
  delivered : Delivered s.history
  running : ∀ c, (s.data c).state = .running → s.thread c = .asleep ∨ s.thread c = .awake
  asleep : ∀ c, s.thread c = .asleep → (s.data c).state = .running
  owed : ∀ c e, s.owes c = some e →
    s.supervisor.asleepOn = some c ∧ pending (roles c) s.history = some (e, 0)
  settled : ∀ c, s.owes c = none → Settled (roles c) s.history

section

variable {s t : Sim} {c n p : Nat} {e : CpuState} {q : Option CpuState} {h : List Label} {l : Label}

/-! ## Labels -/

def Label.cpuId : Label → Nat
  | .simulate c | .raise c _ | .call c _ => c

theorem roles_other (ne : l.cpuId ≠ c) :
    (roles c).request l = none ∧ (roles c).deadline l = false ∧ (roles c).answer l = none := by
  cases l <;> simp_all [roles, Label.cpuId]

theorem pending_of_ne (ne : l.cpuId ≠ c) : pending (roles c) (l :: h) = pending (roles c) h := by
  obtain ⟨request, deadline, answer⟩ := roles_other ne
  exact pending_other request deadline answer

theorem pending_called (unanswered : pending (roles c) h = some (e, 0)) :
    pending (roles c) (.call c e :: h) = some (e, 1) := by
  have request : (roles c).request (.call c e) = none := rfl
  have deadline : (roles c).deadline (.call c e) = false := rfl
  have answer : (roles c).answer (.call c e) = some e := if_pos rfl
  simp [pending, request, deadline, answer, unanswered]

/-- A label concerns one CPU. -/
theorem Delivered.cons (delivered : Delivered h) (ends : (roles l.cpuId).ends l = true →
    Settled (roles l.cpuId) h)
    (answers : ∀ e k, pending (roles l.cpuId) h = some (e, k) → (roles l.cpuId).answer l = some e →
    k = 0) :
    Delivered (l :: h) := by
  intro c
  by_cases same : l.cpuId = c
  · subst same
    exact (delivered _).cons ends answers
  · obtain ⟨request, deadline, answer⟩ := roles_other same
    refine (delivered c).cons (fun ended => ?_) (fun e k _ answered => ?_)
    · simp [Roles.ends, request, deadline] at ended
    · rw [answer] at answered
      exact absurd answered.symm (Option.some_ne_none e)

/-! ## What does not concern events -/

theorem owes_congr (thread : t.thread c = s.thread c)
    (state : (t.data c).state = (s.data c).state) :
    t.owes c = s.owes c := by
  simp only [Sim.owes, thread, state]

/-- One thread moves on, if any, and owes what it owed. -/
theorem Sim.Sound.move (i : s.Sound) (history : t.history = s.history)
    (asleepOn : t.supervisor.asleepOn = s.supervisor.asleepOn)
    (others : ∀ d, d ≠ c → t.thread d = s.thread d ∧ (t.data d).state = (s.data d).state)
    (owes : t.owes c = s.owes c)
    (running : (t.data c).state = .running → t.thread c = .asleep ∨ t.thread c = .awake)
    (asleep : t.thread c = .asleep → (t.data c).state = .running) : t.Sound := by
  have same : ∀ d, t.owes d = s.owes d := by
    intro d
    by_cases here : d = c
    · rw [here]
      exact owes
    · exact owes_congr (others d here).1 (others d here).2
  refine ⟨?_, ?_, ?_, ?_, ?_⟩
  · rw [history]
    exact i.delivered
  · intro d
    by_cases here : d = c
    · rw [here]
      exact running
    · rw [(others d here).1, (others d here).2]
      exact i.running d
  · intro d
    by_cases here : d = c
    · rw [here]
      exact asleep
    · rw [(others d here).1, (others d here).2]
      exact i.asleep d
  · rw [history, asleepOn]
    intro d
    rw [same]
    exact i.owed d
  · rw [history]
    intro d
    rw [same]
    exact i.settled d

theorem Sim.Sound.frame (i : s.Sound) (history : t.history = s.history)
    (asleepOn : t.supervisor.asleepOn = s.supervisor.asleepOn) (thread : t.thread = s.thread)
    (state : ∀ d, (t.data d).state = (s.data d).state) : t.Sound := by
  refine i.move (c := 0) history asleepOn (fun d _ => ⟨congrFun thread d, state d⟩)
    (owes_congr (congrFun thread 0) (state 0)) ?_ ?_
  · rw [congrFun thread 0, state]
    exact i.running 0
  · rw [congrFun thread 0, state]
    exact i.asleep 0

/-! ## The supervisor -/

/-- While the supervisor does not sleep nothing is owed. -/
theorem Sim.Sound.paid (i : s.Sound) (up : s.supervisor.asleepOn = none) (c : Nat) :
    s.owes c = none := by
  cases owes : s.owes c with
  | none => rfl
  | some e => exact absurd ((i.owed c e owes).1.symm.trans up) (Option.some_ne_none c)

theorem simulateProcess_frame (ok : s.simulateProcess n p = some (q, t)) :
    t.history = s.history ∧ t.supervisor = s.supervisor ∧ t.thread = s.thread ∧
      (∀ d, (t.data d).state = (s.data d).state) ∧ ∀ e, q = some e → e.event = some e := by
  simp only [Sim.simulateProcess] at ok
  split at ok
  · split at ok
    · obtain ⟨rfl, rfl⟩ := Prod.mk.inj (Option.some.inj ok)
      refine ⟨rfl, rfl, rfl, fun d => ?_, fun e event => ?_⟩
      · simp only [Sim.setData, Sim.tickProcess, Sim.setSys, Sim.setOps]
        split <;> rfl
      · split at event
        · rw [← Option.some.inj event]
          rfl
        · exact absurd event.symm (Option.some_ne_none e)
    · split at ok
      · obtain ⟨rfl, rfl⟩ := Prod.mk.inj (Option.some.inj ok)
        exact ⟨rfl, rfl, rfl, fun _ => rfl, fun e event => Option.some.inj event ▸ rfl⟩
      · obtain ⟨rfl, rfl⟩ := Prod.mk.inj (Option.some.inj ok)
        exact ⟨rfl, rfl, rfl, fun _ => rfl, fun e event => Option.some.inj event ▸ rfl⟩
      · obtain ⟨rfl, rfl⟩ := Prod.mk.inj (Option.some.inj ok)
        exact ⟨rfl, rfl, rfl, fun _ => rfl, fun e event =>
          absurd event.symm (Option.some_ne_none e)⟩
      · exact absurd ok.symm (Option.some_ne_none _)
  · obtain ⟨rfl, rfl⟩ := Prod.mk.inj (Option.some.inj ok)
    exact ⟨rfl, rfl, rfl, fun _ => rfl, fun e event => absurd event.symm (Option.some_ne_none e)⟩
  · obtain ⟨rfl, rfl⟩ := Prod.mk.inj (Option.some.inj ok)
    exact ⟨rfl, rfl, rfl, fun _ => rfl, fun e event => absurd event.symm (Option.some_ne_none e)⟩
  · exact absurd ok.symm (Option.some_ne_none _)

theorem simulateProcess_due (ok : s.simulateProcess n p = some (some e, t)) : s.due n p = true := by
  simp only [Sim.simulateProcess] at ok
  simp only [Sim.due]
  split at ok
  · rename_i time rest ops
    rw [ops]
    split at ok
    · rename_i more
      have event := (Prod.mk.inj (Option.some.inj ok)).1
      split at event
      · rename_i ended
        have ended : (s.data n).preemptionTimer - 1 = 0 := by
          simpa [Sim.setData, Sim.tickProcess, Sim.setSys, Sim.setOps] using ended
        simp only [more, if_true, decide_eq_true_eq]
        omega
      · exact absurd event.symm (Option.some_ne_none e)
    · rename_i ended
      simp only [ended, if_false]
      split at ok
      · rfl
      · rfl
      · exact absurd (Prod.mk.inj (Option.some.inj ok)).1.symm (Option.some_ne_none e)
      · exact absurd ok.symm (Option.some_ne_none _)
  · exact absurd (Prod.mk.inj (Option.some.inj ok)).1.symm (Option.some_ne_none e)
  · exact absurd (Prod.mk.inj (Option.some.inj ok)).1.symm (Option.some_ne_none e)
  · exact absurd ok.symm (Option.some_ne_none _)

/-- A tick of a CPU burst. -/
theorem simulateProcess_tick {time : UInt32} {rest : List Op} (ops : s.ops p = .cpu time :: rest)
    (more : 0 < time) (event : (if (s.data c).preemptionTimer - 1 =
    0 then some CpuState.preempt else none) = q) :
    s.simulateProcess c p = some
      (q, ((s.setOps p (.cpu (time - 1) :: rest)).tickProcess p).setData c
      (fun d => { d with preemptionTimer := d.preemptionTimer - 1 })) := by
  simp [Sim.simulateProcess, ops, more, Sim.setData, Sim.tickProcess, Sim.setSys, Sim.setOps,
    ← event]

/-- A call of `simulate_process`, before anything comes of it. -/
theorem Sim.Sound.simulate (i : s.Sound) (up : s.supervisor.asleepOn = none) :
    (s.log (.simulate n)).Sound := by
  have settled : ∀ c, Settled (roles c) (.simulate n :: s.history) := by
    intro c
    by_cases same : n = c
    · intro e k pending
      simp [Answers.pending, roles, same] at pending
    · exact (i.settled c (i.paid up c)).of_eq (pending_of_ne same)
  refine ⟨?_, i.running, i.asleep, ?_, fun c _ => settled c⟩
  · refine i.delivered.cons (fun _ => i.settled n (i.paid up n)) (fun e k _ answer => ?_)
    simp [roles] at answer
  · intro c e owes
    exact absurd (owes.symm.trans (i.paid up c)) (Option.some_ne_none e)

theorem raise_thread (there : s.thread c = .asleep ∨ s.thread c = .awake) {d : Nat} :
    (s.raise c e).thread d = if d = c then .awake else s.thread d := by
  simp only [Sim.raise, Sim.log]
  rcases there with asleep | awake
  · have asleep : (s.setData c (fun d => { d with state := e })).thread c = .asleep := asleep
    rw [if_pos asleep]
    rfl
  · have awake' : (s.setData c (fun d => { d with state := e })).thread c ≠ .asleep := by
      intro asleep
      exact absurd (awake.symm.trans asleep) (by decide)
    rw [if_neg awake']
    by_cases same : d = c
    · rw [if_pos same, same]
      exact awake
    · rw [if_neg same]
      rfl

theorem raise_state {d : Nat} : ((s.raise c e).data d).state = if d =
    c then e else (s.data d).state := by
  simp only [Sim.raise, Sim.log]
  split <;> simp only [Sim.setThread, Sim.setData] <;> split <;> rfl

theorem raise_history : (s.raise c e).history = .raise c e :: s.history := by
  simp only [Sim.raise, Sim.log]
  split <;> rfl

theorem raise_owes (paid : ∀ d, s.owes d = none)
    (there : s.thread c = .asleep ∨ s.thread c = .awake) (event : e.event = some e) {d : Nat} :
    (s.raise c e).owes d = if d = c then some e else none := by
  by_cases same : d = c
  · simp [Sim.owes, raise_thread there, raise_state, same, event]
  · have thread := (raise_thread (e := e) there (d := d)).trans (if_neg same)
    have state := (raise_state (s := s) (e := e) (d := d)).trans (if_neg same)
    rw [if_neg same, owes_congr thread state]
    exact paid d

/-- The state of a CPU that runs is set to an event, and the supervisor waits. -/
theorem Sim.Sound.raise {pc : SupervisorPc} (i : s.Sound) (up : s.supervisor.asleepOn = none)
    (running : (s.data c).state = .running) (event : e.event = some e)
    (waits : pc.asleepOn = some c) :
    ((s.raise c e).setSupervisor pc).Sound := by
  have there := i.running c running
  have owes : ∀ d, ((s.raise c e).setSupervisor pc).owes d = if d = c then some e else none :=
    fun d => raise_owes (i.paid up) there event
  refine ⟨?_, ?_, ?_, ?_, ?_⟩
  · change Delivered (s.raise c e).history
    rw [raise_history]
    refine i.delivered.cons (fun _ => i.settled c (i.paid up c)) (fun _ k _ answer => ?_)
    simp [roles] at answer
  · intro d
    change ((s.raise c e).data d).state = .running →
      (s.raise c e).thread d = .asleep ∨ (s.raise c e).thread d = .awake
    rw [raise_state, raise_thread there]
    by_cases same : d = c
    · simp [same]
    · rw [if_neg same, if_neg same]
      exact i.running d
  · intro d
    change (s.raise c e).thread d = .asleep → ((s.raise c e).data d).state = .running
    rw [raise_state, raise_thread there]
    by_cases same : d = c
    · simp [same]
    · rw [if_neg same, if_neg same]
      exact i.asleep d
  · intro d e' owed
    rw [owes] at owed
    by_cases same : d = c
    · subst same
      obtain rfl : e = e' := by simpa using owed
      refine ⟨waits, ?_⟩
      change pending (roles d) (s.raise d e).history = some (e, 0)
      rw [raise_history]
      simp [pending, roles]
    · simp [same] at owed
  · intro d owed
    have ne : c ≠ d := by
      rintro rfl
      simp [owes] at owed
    change Settled (roles d) (s.raise c e).history
    rw [raise_history]
    exact (i.settled d (i.paid up d)).of_eq (pending_of_ne ne)

/-! ## A CPU thread -/

theorem signal_asleepOn {pc : SupervisorPc} {d : Nat} (ne : d ≠ c) (asleep : pc.asleepOn = some d) :
    (pc.signal c).asleepOn = some d := by
  cases pc with
  | waiting x woken | forcing x woken _ =>
    cases woken
    · obtain rfl : x = d := by simpa [SupervisorPc.asleepOn] using asleep
      simp [SupervisorPc.signal, SupervisorPc.asleepOn, ne]
    · simp [SupervisorPc.asleepOn] at asleep
  | sleeping | cpus _ | io | waking _ | woke _ | creat | tick | exited =>
    simp [SupervisorPc.asleepOn] at asleep

theorem topOfLoop_spec : (s.topOfLoop c).history = s.history ∧
    (s.topOfLoop c).supervisor = s.supervisor.signal c ∧
    (∀ d, d ≠ c → (s.topOfLoop c).thread d = s.thread d ∧ ((s.topOfLoop c).data d).state =
    (s.data d).state) ∧
    ((s.topOfLoop c).thread c = .asleep ∧ ((s.topOfLoop c).data c).state = .running ∨
      (s.topOfLoop c).thread c = .dispatch .idle ∧ ((s.topOfLoop c).data c).state = .idle) := by
  simp only [Sim.topOfLoop]
  split
  · refine ⟨rfl, rfl, fun d ne => ⟨if_neg ne, ?_⟩, Or.inr ⟨if_pos rfl, ?_⟩⟩
    · simp [Sim.setThread, Sim.setData, Sim.setSupervisor, ne]
    · simp [Sim.setThread, Sim.setData]
  · refine ⟨rfl, rfl, fun d ne => ⟨if_neg ne, ?_⟩, Or.inl ⟨if_pos rfl, ?_⟩⟩
    · simp [Sim.setThread, Sim.setData, Sim.setSupervisor, ne]
    · simp [Sim.setThread, Sim.setData]

/-- At the top of its loop a thread owes nothing, and the supervisor may go on. -/
theorem Sim.Sound.topOfLoop (i : s.Sound) (pc : s.thread c = .top) : (s.topOfLoop c).Sound := by
  have paid : s.owes c = none := by simp [Sim.owes, pc]
  obtain ⟨history, supervisor, others, here⟩ := topOfLoop_spec (s := s) (c := c)
  have still : (s.topOfLoop c).owes c = none := by
    rcases here with ⟨thread, _⟩ | ⟨thread, _⟩
    · simp [Sim.owes, thread]
    · simp [Sim.owes, thread, CpuState.event]
  have same : ∀ d, (s.topOfLoop c).owes d = s.owes d := by
    intro d
    by_cases eq : d = c
    · rw [eq, still, paid]
    · exact owes_congr (others d eq).1 (others d eq).2
  refine ⟨?_, ?_, ?_, ?_, ?_⟩
  · rw [history]
    exact i.delivered
  · intro d
    by_cases eq : d = c
    · rw [eq]
      rcases here with ⟨thread, _⟩ | ⟨_, state⟩
      · exact fun _ => Or.inl thread
      · simp [state]
    · rw [(others d eq).1, (others d eq).2]
      exact i.running d
  · intro d
    by_cases eq : d = c
    · rw [eq]
      rcases here with ⟨_, state⟩ | ⟨thread, _⟩
      · exact fun _ => state
      · simp [thread]
    · rw [(others d eq).1, (others d eq).2]
      exact i.asleep d
  · intro d e owed
    rw [same] at owed
    have ne : d ≠ c := by
      rintro rfl
      exact absurd (owed.symm.trans paid) (Option.some_ne_none e)
    obtain ⟨waits, open'⟩ := i.owed d e owed
    rw [history, supervisor]
    exact ⟨signal_asleepOn ne waits, open'⟩
  · intro d owed
    rw [same] at owed
    rw [history]
    exact i.settled d owed

/-- An event that is raised before the thread gets to the top of its loop is
overwritten there: it has no answer, and none is owed. -/
theorem raise_overwritten : ((s.raise c e).topOfLoop c).owes c = none ∧
      pending (roles c) ((s.raise c e).topOfLoop c).history = some (e, 0) := by
  obtain ⟨history, _, _, here⟩ := topOfLoop_spec (s := s.raise c e) (c := c)
  constructor
  · rcases here with ⟨thread, _⟩ | ⟨thread, _⟩
    · simp [Sim.owes, thread]
    · simp [Sim.owes, thread, CpuState.event]
  · rw [history, raise_history]
    simp [pending, roles]

/-- A thread calls the handler that it owes. -/
theorem Sim.Sound.call {entry : CpuPc} (i : s.Sound) (owes : s.owes c = some e)
    (pc : s.thread c ≠ .asleep ∧ s.thread c ≠ .awake) :
    ((s.callHandler c entry).log (.call c e)).Sound := by
  obtain ⟨_, pending⟩ := i.owed c e owes
  have thread : ∀ d, ((s.callHandler c entry).log (.call c e)).thread d =
      if d = c then .handling else s.thread d := fun _ => rfl
  have others : ∀ d, d ≠ c → ((s.callHandler c entry).log (.call c e)).owes d = s.owes d :=
    fun d ne => owes_congr ((thread d).trans (if_neg ne)) rfl
  have here : ((s.callHandler c entry).log (.call c e)).owes c = none := by simp [Sim.owes, thread]
  have stopped : (s.data c).state ≠ .running := by
    intro running
    rcases i.running c running with asleep | awake
    · exact pc.1 asleep
    · exact pc.2 awake
  refine ⟨?_, ?_, ?_, ?_, ?_⟩
  · refine i.delivered.cons (fun ends => ?_) (fun e' k open' _ => ?_)
    · simp [Roles.ends, roles] at ends
    · change Answers.pending (roles c) s.history = some (e', k) at open'
      rw [pending] at open'
      exact (Prod.mk.inj (Option.some.inj open')).2.symm
  · intro d running
    rw [thread]
    by_cases eq : d = c
    · exact absurd (eq ▸ running) stopped
    · rw [if_neg eq]
      exact i.running d running
  · intro d
    rw [thread]
    by_cases eq : d = c
    · simp [eq]
    · rw [if_neg eq]
      exact i.asleep d
  · intro d e' owed
    have ne : d ≠ c := by
      rintro rfl
      exact absurd (owed.symm.trans here) (Option.some_ne_none e')
    rw [others d ne] at owed
    obtain ⟨waits, open'⟩ := i.owed d e' owed
    exact ⟨waits, (pending_of_ne (Ne.symm ne)).trans open'⟩
  · intro d owed
    by_cases eq : d = c
    · subst eq
      intro e' k open'
      exact (Prod.mk.inj (Option.some.inj ((pending_called pending).symm.trans open'))).2.symm
    · rw [others d eq] at owed
      exact (i.settled d owed).of_eq (pending_of_ne (Ne.symm eq))

/-- A thread that neither sleeps nor wakes up moves on. -/
theorem Sim.Sound.advance (i : s.Sound) (history : t.history = s.history)
    (supervisor : t.supervisor = s.supervisor) {pc : ThreadPc}
    (thread : ∀ d, t.thread d = if d = c then pc else s.thread d)
    (data : ∀ d, (t.data d).state = (s.data d).state)
    (before : s.thread c ≠ .asleep ∧ s.thread c ≠ .awake) (after : pc ≠ .asleep)
    (owes : t.owes c = s.owes c) : t.Sound := by
  refine i.move history (congrArg _ supervisor) (fun d ne => ⟨(thread d).trans (if_neg ne), data d⟩)
    owes ?_ ?_
  · rw [data]
    intro running
    rcases i.running c running with asleep | awake
    · exact absurd asleep before.1
    · exact absurd awake before.2
  · rw [thread, if_pos rfl]
    exact fun asleep => absurd asleep after

/-! ## One step -/

theorem Sim.Sound.step {cfg : Config} {a : Action} (i : s.Sound) (prompt : Prompt s a)
    (step : Sim.Step cfg s a t) : t.Sound := by
  cases step with
  | lock pc =>
    refine i.frame rfl ?_ rfl (fun _ => rfl)
    simp only [Sim.setSupervisor]
    split <;> simp [SupervisorPc.asleepOn, pc]
  | skip pc _ _ | endCpus pc _ | ioNone pc _ | creatNot pc _ | resume pc | tick pc =>
    exact i.frame rfl (by simp [Sim.setSupervisor, SupervisorPc.asleepOn, pc]) rfl (fun _ => rfl)
  | ioBusy pc _ _ | ioDone pc _ _ | creat pc _ _ =>
    exact i.frame rfl (by simp [Sim.callWakeUp, Sim.setSupervisor, SupervisorPc.asleepOn, pc]) rfl
      (fun _ => rfl)
  | noVictim pc _ _ | forceNothing pc _ _ | forced pc =>
    exact i.frame rfl (by simp [Sim.wakeUpReturns, Sim.setSupervisor, SupervisorPc.asleepOn, pc])
      rfl (fun _ => rfl)
  | @woke created pc =>
    cases created
    · exact i.frame rfl (by simp [Sim.setSupervisor, SupervisorPc.asleepOn, pc]) rfl (fun _ => rfl)
    · exact i.frame rfl (by simp [Sim.setSupervisor, SupervisorPc.asleepOn, pc]) rfl (fun _ => rfl)
  | handler _ _ => exact i.frame rfl rfl rfl (fun _ => rfl)
  | simulate pc _ _ ok =>
    obtain ⟨history, supervisor, thread, state, _⟩ := simulateProcess_frame ok
    have up : s.supervisor.asleepOn = none := by simp [SupervisorPc.asleepOn, pc]
    exact (i.simulate up).frame history
      (by simp [Sim.setSupervisor, Sim.log, SupervisorPc.asleepOn, pc]) thread state
  | @simulateEvent n p e t pc _ current ok =>
    obtain ⟨history, supervisor, thread, state, event⟩ := simulateProcess_frame ok
    have up : s.supervisor.asleepOn = none := by simp [SupervisorPc.asleepOn, pc]
    have running : (t.data n).state = .running :=
      (state n).trans (prompt p current (simulateProcess_due (s := s.log (.simulate n)) ok))
    have i' := (i.simulate up).frame history (congrArg _ supervisor) thread state
    exact i'.raise ((congrArg _ supervisor).trans up) running (event e rfl) rfl
  | @forcePreempt _ v pc _ state =>
    have up : s.supervisor.asleepOn = none := by simp [SupervisorPc.asleepOn, pc]
    exact i.raise up state rfl rfl
  | wakeSpuriously _ => exact absurd prompt id
  | top _ _ pc => exact i.topOfLoop pc
  | @spurious c _ pc =>
    have running := i.asleep c pc
    refine i.move (c := c) rfl rfl (fun d ne => ⟨if_neg ne, rfl⟩) ?_ (fun _ => Or.inr (if_pos rfl))
      ?_
    · simp [Sim.owes, pc, Sim.setThread, running, CpuState.event]
    · intro _
      exact running
  | @recheck c _ _ pc =>
    by_cases running : (s.data c).state = .running
    · rw [if_pos running]
      refine i.move (c := c) rfl rfl (fun d ne => ⟨if_neg ne, rfl⟩) ?_
        (fun _ => Or.inl (if_pos rfl)) (fun _ => running)
      simp [Sim.owes, pc, Sim.setThread, running, CpuState.event]
    · rw [if_neg running]
      refine i.move (c := c) rfl rfl (fun d ne => ⟨if_neg ne, rfl⟩) ?_ (fun h => absurd h running)
        ?_
      · simp [Sim.owes, pc, Sim.setThread]
      · simp [Sim.setThread]
  | callPreempt _ pc | callYield _ pc | callTerminate _ pc =>
    exact i.call (by simp [Sim.owes, pc, CpuState.event]) (by simp [pc])
  | callIdle _ pc | count _ _ pc | neverHappens _ pc =>
    exact i.advance rfl rfl (fun _ => rfl) (fun _ => rfl) (by simp [pc]) (by simp)
      (by simp [Sim.owes, pc, Sim.callHandler, Sim.setThread, CpuState.event])
  | contextSwitch _ _ pc _ =>
    refine i.advance rfl rfl (fun _ => rfl) (fun d => ?_) (by simp [pc]) (by simp)
      (by simp [Sim.owes, pc, Sim.setThread])
    simp only [Sim.setThread, Sim.setData, Sim.setSys]
    split <;> rfl

theorem Sim.Sound.start (start : s.Start) : s.Sound := by
  have owes : ∀ c, s.owes c = none := by
    intro c
    simp [Sim.owes, start.thread]
  refine ⟨?_, ?_, ?_, ?_, ?_⟩
  · rw [start.history]
    exact fun c => answeredOnce_nil
  · intro c running
    simp [start.data] at running
  · intro c asleep
    simp [start.thread] at asleep
  · intro c e owed
    exact absurd (owed.symm.trans (owes c)) (Option.some_ne_none e)
  · intro c _
    rw [start.history]
    exact settled_nil

theorem Sim.Run.sound {cfg : Config} (run : Sim.Run cfg Prompt s) : s.Sound := by
  induction run with
  | start start => exact .start start
  | next _ prompt step ih => exact ih.step prompt step

end

/-! ## One CPU and one process -/

section

variable {s t : Sys} {c w : Nat}

theorem inside_cpu {pc : CpuPc} (before : s.cpu c ≠ .outside) (after : pc ≠ .outside)
    (cpu : ∀ d, t.cpu d = if d = c then pc else s.cpu d) (waker : t.waker = s.waker) :
    Inside s t := by
  refine ⟨fun d => ?_, fun x => by rw [waker]⟩
  rw [cpu]
  by_cases same : d = c
  · simp [same, before, after]
  · rw [if_neg same]

theorem inside_waker {pc : WakerPc} (before : s.waker w ≠ .outside) (after : pc ≠ .outside)
    (waker : ∀ x, t.waker x = if x = w then pc else s.waker x) (cpu : ∀ d, t.cpu d = s.cpu d) :
    Inside s t := by
  refine ⟨fun d => by rw [cpu], fun x => ?_⟩
  rw [waker]
  by_cases same : x = w
  · simp [same, before, after]
  · rw [if_neg same]

end

/-- Its program is a CPU burst of five ticks. -/
def oneBurst : Sim where
  sys := idleSys
  data _ := ⟨none, .idle, -1⟩
  thread _ := .top
  supervisor := .sleeping
  ops _ := [.cpu 5, .terminate]
  ioQueue := []
  simulatorTime := 0
  processesTerminated := 0
  processesCreated := 0
  history := []

theorem oneBurst_start : oneBurst.Start :=
  ⟨idleSys_start, fun _ => rfl, fun _ => rfl, rfl, rfl, rfl, rfl, rfl, rfl⟩

/-- The first tick is over, and `idle` has made the process current. -/
structure SwitchedTo (s : Sim) : Prop where
  data : s.data = fun c => if c = 0 then ⟨some 0, .idle, 1⟩ else ⟨none, .idle, -1⟩
  thread : s.thread = fun _ => .top
  supervisor : s.supervisor = .sleeping
  ops : s.ops = fun _ => [.cpu 5, .terminate]
  ioQueue : s.ioQueue = []
  simulatorTime : s.simulatorTime = 1
  processesTerminated : s.processesTerminated = 0
  history : s.history = []

theorem switched_to {ok : Sim → Action → Prop} (may : ∀ s, ok s .other) :
    ∃ s, Sim.Run (roundRobin 1) ok s ∧ SwitchedTo s := by
  have s₀ : Sim.Run (roundRobin 1) ok oneBurst := .start oneBurst_start
  -- the supervisor creates the process
  have s₁ := s₀.next (may _) (.lock rfl)
  have s₂ := s₁.next (may _) (.skip (n := 0) rfl (by decide) rfl)
  have s₃ := s₂.next (may _) (.endCpus rfl (by decide))
  have s₄ := s₃.next (may _) (.ioNone rfl rfl)
  have s₅ := s₄.next (may _) (.creat rfl rfl (by decide))
  have s₆ := s₅.next (may _) (.handler (.ready (w := 0) rfl)
    (inside_waker (w := 0) (by decide) (by decide) (fun _ => rfl) (fun _ => rfl)))
  have s₇ := s₆.next (may _) (.handler (@Step.enqueue _ _ _ 0 0 0 (fun _ => false) _ rfl rfl
      (signals_none _ (by decide)))
    (inside_waker (w := 0) (by decide) (by decide) (fun _ => rfl) (fun _ => rfl)))
  have s₈ := s₇.next (may _) (@Sim.Step.noVictim _ _ _ 0 (fun _ => 0) rfl rfl rfl)
  have s₉ := s₈.next (may _) (.woke rfl)
  have s₁₀ := s₉.next (may _) (.tick rfl)
  -- the CPU picks it up
  have s₁₁ := s₁₀.next (may _) (.top (c := 0) (by decide) rfl rfl)
  have s₁₂ := s₁₁.next (may _) (.callIdle (c := 0) (by decide) rfl)
  have s₁₃ := s₁₂.next (may _) (.handler (.look (c := 0) (by decide) (Or.inl rfl))
    (inside_cpu (c := 0) (by decide) (by decide) (fun _ => rfl) rfl))
  have s₁₄ := s₁₃.next (may _) (.handler (@Step.dequeue _ _ _ 0 none (fun _ => 0) 0 _ (by decide)
    rfl rfl) (inside_cpu (c := 0) (by decide) (by decide) (fun _ => rfl) rfl))
  have s₁₅ := s₁₄.next (may _) (.handler (.mark (c := 0) (by decide) rfl)
    (inside_cpu (c := 0) (by decide) (by decide) (fun _ => rfl) rfl))
  have s₁₆ := s₁₅.next (may _) (.handler (.publish (c := 0) (by decide) rfl)
    (inside_cpu (c := 0) (by decide) (by decide) (fun _ => rfl) rfl))
  have s₁₇ := s₁₆.next (may _) (.contextSwitch (c := 0) (by decide) rfl rfl rfl)
  refine ⟨_, s₁₇, ?_, ?_, rfl, rfl, rfl, rfl, rfl, rfl⟩
  · funext c
    cases c <;> rfl
  · funext c
    cases c <;> rfl

/-! ## Every run -/

/-- If an event is due only on a CPU that is in state `CPU_RUNNING`. -/
theorem events_delivered {cfg : Config} {s : Sim} (run : Sim.Run cfg Prompt s) :
    Delivered s.history :=
  run.sound.delivered

/-- The CPU is in its wait before the tick that ends the time slice. -/
theorem preempt_delivered : ∃ s, Sim.Run (roundRobin 1) Prompt s ∧
    s.history = [.call 0 .preempt, .raise 0 .preempt, .simulate 0] ∧ Delivered s.history := by
  have may : ∀ s, Prompt s .other := fun _ => trivial
  obtain ⟨⟨sys, _, _, _, _, _, _, _, _, _⟩, run, rfl, rfl, rfl, rfl, rfl, rfl, rfl, rfl⟩ :=
    switched_to may
  have s₁ := run.next (may _) (.top (c := 0) (by decide) rfl rfl)
  have s₂ := s₁.next (may _) (.lock rfl)
  have s₃ := s₂.next (a := .simulateProcess 0) (fun _ _ _ => rfl)
    (.simulateEvent (n := 0) (p := 0) rfl (by decide) rfl
      (simulateProcess_tick rfl (by decide) rfl))
  have s₄ := s₃.next (may _) (.recheck (c := 0) (by decide) rfl rfl)
  have s₅ := s₄.next (may _) (.callPreempt (c := 0) (by decide) rfl)
  exact ⟨_, s₅, rfl, events_delivered s₅⟩

/-- The tick that ends the time slice comes before the CPU marks itself running. -/
theorem event_overwritten : ∃ s, Sim.Run (roundRobin 1) Signalled s ∧ ¬ Delivered s.history := by
  have may : ∀ s, Signalled s .other := fun _ => Action.noConfusion
  obtain ⟨⟨sys, _, _, _, _, _, _, _, _, _⟩, run, rfl, rfl, rfl, rfl, rfl, rfl, rfl, rfl⟩ :=
    switched_to may
  have s₁ := run.next (may _) (.lock rfl)
  have s₂ := s₁.next Action.noConfusion
    (.simulateEvent (n := 0) (p := 0) rfl (by decide) rfl
      (simulateProcess_tick rfl (by decide) rfl))
  have s₃ := s₂.next (may _) (.top (c := 0) (by decide) rfl rfl)
  have s₄ := s₃.next (may _) (.resume rfl)
  have s₅ := s₄.next (may _) (.endCpus rfl (by decide))
  have s₆ := s₅.next (may _) (.ioNone rfl rfl)
  have s₇ := s₆.next (may _) (.creatNot rfl (fun both =>
    absurd both.1 (show ¬ (1 : UInt32) % 10 = 0 by decide)))
  have s₈ := s₇.next (may _) (.tick rfl)
  have s₉ := s₈.next (may _) (.lock rfl)
  have s₁₀ := s₉.next Action.noConfusion
    (.simulate (n := 0) (p := 0) rfl (by decide) rfl (simulateProcess_tick rfl (by decide) rfl))
  refine ⟨_, s₁₀, fun delivered => ?_⟩
  have once := (delivered 0 [.simulate 0] [] [.simulate 0] (.raise 0 .preempt) .preempt rfl rfl
    (by simp)).2
    (.simulate 0) rfl rfl
  simp at once

end SystemsProjects.Sched
