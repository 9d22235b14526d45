import Mathlib.Algebra.GroupWithZero.Nat
import SystemsProjects.Sched.Shortest
import SystemsProjects.Sched.Simulator

/-!
# What is left of a process

`simulate_process` and `simulate_io` count a process down in three places: in its operation,
in its I/O request, and in `total_time_remaining`. They agree, whatever is scheduled.
-/

namespace SystemsProjects.Sched

def Op.time : Op → Nat
  | .cpu time | .io time => time.toNat
  | .terminate => 0

/-- The operations alternate, from one of the CPU to one of the CPU, before the last. -/
inductive Alternates : List Op → Prop
  | last (time : UInt32) : Alternates [.cpu time, .terminate]
  | more (time busy : UInt32) {rest : List Op} : Alternates rest →
      Alternates (.cpu time :: .io busy :: rest)

namespace Sim

def remaining (s : Sim) (p : Nat) : Nat := s.sys.student.remaining p

/-- `simulate_io` up to the call of `wake_up`, if there is one. -/
def simulateIo (s : Sim) : Option (Option Nat × Sim) :=
  match s.ioQueue with
  | [] => some (none, s)
  | (pcb, executionTime) :: rest =>
    if executionTime = 0 then
      match s.ops pcb with
      | _ :: ops => some (some pcb, { s.setOps pcb ops with ioQueue := rest })
      | [] => none
    else some (none, { s.tickProcess pcb with ioQueue := (pcb, executionTime - 1) :: rest })

/-- What is left of the operation that `p` is at. -/
def left (s : Sim) (p : Nat) : Op → Option Nat
  | .cpu time => some time.toNat
  | .io _ => (s.ioQueue.lookup p).map UInt32.toNat
  | .terminate => some 0

end Sim

/-- Time passes for any process on any CPU, or for the I/O queue, or there is something
else: a process is created, an event is handled, a process is given to a CPU or
taken from it. -/
inductive TimeStep : Sim → Sim → Prop
  | simulate {s t c p event} (ok : s.simulateProcess c p = some (event, t)) : TimeStep s t
  | io {s t woken} (ok : s.simulateIo = some (woken, t)) : TimeStep s t
  | schedule {s t} (ops : t.ops = s.ops) (ioQueue : t.ioQueue = s.ioQueue)
      (remaining : t.remaining = s.remaining) :
      TimeStep s t

/-- Before `p` is created. -/
structure Sim.Prepared (s : Sim) (p : Nat) : Prop where
  alternates : Alternates (s.ops p)
  total : s.remaining p = ((s.ops p).map Op.time).sum
  quiet : ∀ request ∈ s.ioQueue, request.1 ≠ p

/-- The total of `p` is what is left of the operation it is at, and the later operations. -/
structure Sim.Accounted (s : Sim) (p : Nat) : Prop where
  exact : ∃ op later now, s.ops p = op :: later ∧ s.left p op = some now ∧
    s.remaining p = now + (later.map Op.time).sum
  returns : ∀ c, ∃ event t, s.simulateProcess c p = some (event, t)
  decreases : ∀ t, TimeStep s t → t.remaining p ≤ s.remaining p
  terminates : ∀ c t, s.simulateProcess c p = some (some .terminate, t) → t.remaining p = 0

/-! ## Requests -/

/-- What the requests of `p` have left. -/
def Sim.requests (s : Sim) (p : Nat) : List UInt32 :=
  s.ioQueue.filterMap fun request => if request.1 = p then some request.2 else none

/-- Where `p` is. -/
inductive Sim.Stage (s : Sim) (p : Nat) : Prop
  | cpu (alternates : Alternates (s.ops p)) (quiet : s.requests p = [])
      (exact : s.remaining p = ((s.ops p).map Op.time).sum)
  | io {time now : UInt32} {rest : List Op} (ops : s.ops p = .io time :: rest)
      (alternates : Alternates rest)
      (request : s.requests p = [now]) (exact : s.remaining p = now.toNat + (rest.map Op.time).sum)
  | done (ops : s.ops p = [.terminate]) (quiet : s.requests p = []) (exact : s.remaining p = 0)

section

variable {s t : Sim} {c p q : Nat} {event : Option CpuState} {woken : Option Nat}

theorem lookup_requests (queue : List (Nat × UInt32)) (p : Nat) :
    queue.lookup p = (queue.filterMap fun request => if request.1 =
      p then some request.2 else none).head? := by
  induction queue with
  | nil => rfl
  | cons request queue ih =>
    obtain ⟨q, time⟩ := request
    by_cases same : q = p
    · simp [same]
    · have other : (p == q) = false := by simpa using Ne.symm same
      simp [List.lookup_cons, other, same, ih]

/-- What `simulate_process` does to a process. -/
inductive Simulated (q : Nat) (s : Sim) : Option CpuState → Sim → Prop
  | burst {time rest event t} (now : s.ops q = .cpu time :: rest) (more : 0 < time)
      (ops : t.ops = (s.setOps q (.cpu (time - 1) :: rest)).ops) (ioQueue : t.ioQueue = s.ioQueue)
      (remaining : t.remaining = (s.tickProcess q).remaining) (timer : event ≠ some .terminate) :
      Simulated q s event t
  | blocks {time rest} (now : s.ops q = .cpu 0 :: .io time :: rest) :
      Simulated q s (some .yield) ((s.setOps q (.io time :: rest)).submitIoRequest q time)
  | ends {rest} (now : s.ops q = .cpu 0 :: .terminate :: rest) :
      Simulated q s (some .terminate) (s.setOps q (.terminate :: rest))
  | again {time rest} (now : s.ops q = .cpu 0 :: .cpu time :: rest) :
      Simulated q s none (s.setOps q (.cpu time :: rest))
  | idle {op rest} (now : s.ops q = op :: rest) (other : ∀ time, op ≠ .cpu time) :
      Simulated q s none s

theorem simulateProcess_cases (ok : s.simulateProcess c q = some (event, t)) :
    Simulated q s event t := by
  unfold Sim.simulateProcess at ok
  split at ok
  · next time rest now =>
    split at ok
    · next more =>
      cases ok
      refine .burst now more rfl rfl rfl ?_
      split <;> nofun
    · next zero =>
      obtain rfl : time = 0 := by
        rw [UInt32.lt_iff_toNat_lt] at zero
        exact UInt32.toNat_inj.mp (by simpa using zero)
      split at ok
      · cases ok
        exact .blocks now
      · cases ok
        exact .ends now
      · cases ok
        exact .again now
      · cases ok
  · next now =>
    cases ok
    exact .idle now nofun
  · next now =>
    cases ok
    exact .idle now nofun
  · cases ok

/-- What `simulate_io` does. -/
inductive Served (s : Sim) : Sim → Prop
  | nothing : Served s s
  | serves {q time rest} (head : s.ioQueue = (q, time) :: rest) (more : time ≠ 0) :
      Served s { s.tickProcess q with ioQueue := (q, time - 1) :: rest }
  | completes {q rest op ops} (head : s.ioQueue = (q, 0) :: rest) (now : s.ops q = op :: ops) :
      Served s { s.setOps q ops with ioQueue := rest }

theorem simulateIo_cases (ok : s.simulateIo = some (woken, t)) : Served s t := by
  unfold Sim.simulateIo at ok
  split at ok
  · cases ok
    exact .nothing
  · next q time rest head =>
    split at ok
    · next zero =>
      subst zero
      split at ok
      · next now =>
        cases ok
        exact .completes head now
      · cases ok
    · next more =>
      cases ok
      exact .serves head more

theorem remaining_tickProcess_other (other : p ≠ q) :
    (s.tickProcess q).remaining p = s.remaining p := by
  show ((s.sys.student.tick q).pcbs p).totalTimeRemaining.toNat = _
  rw [Student.tick, modify_pcbs, if_neg other]
  rfl

theorem remaining_tickProcess (left : s.remaining p ≠ 0) :
    (s.tickProcess p).remaining p = s.remaining p - 1 :=
  (remaining_tick left).trans (if_pos rfl)

theorem setOps_ops (s : Sim) (p : Nat) (ops : List Op) : (s.setOps p ops).ops p = ops := if_pos rfl

theorem setOps_other (ops : List Op) (other : p ≠ q) : (s.setOps q ops).ops p = s.ops p :=
  if_neg other

theorem Alternates.time {time : UInt32} (time' : UInt32) {rest : List Op}
    (alternates : Alternates (.cpu time :: rest)) :
    Alternates (.cpu time' :: rest) := by
  cases alternates with
  | last => exact .last time'
  | more _ busy rest => exact .more time' busy rest

/-- Something comes after a burst. -/
theorem Alternates.two {ops : List Op} (alternates : Alternates ops) :
    ∃ time op rest, ops = .cpu time :: op :: rest := by
  cases alternates with
  | last time => exact ⟨time, _, _, rfl⟩
  | more time busy rest => exact ⟨time, _, _, rfl⟩

/-! ## What a step does to a process -/

namespace Sim.Stage

theorem congr (stage : s.Stage p) (ops : t.ops p = s.ops p) (requests : t.requests p = s.requests p)
    (remaining : t.remaining p = s.remaining p) : t.Stage p := by
  cases stage with
  | cpu alternates quiet exact =>
    apply Stage.cpu
    · rw [ops]
      exact alternates
    · rw [requests, quiet]
    · rw [remaining, ops, exact]
  | io now alternates request exact =>
    exact .io (ops.trans now) alternates (requests.trans request) (remaining.trans exact)
  | done now quiet exact =>
    exact .done (ops.trans now) (requests.trans quiet) (remaining.trans exact)

theorem simulated_other (stage : s.Stage p) (step : Simulated q s event t) (other : p ≠ q) :
    t.Stage p ∧ t.remaining p = s.remaining p := by
  cases step with
  | burst now more ops ioQueue remaining =>
    have same : t.remaining p = s.remaining p :=
      (congrFun remaining p).trans (remaining_tickProcess_other other)
    refine ⟨stage.congr ((congrFun ops p).trans (setOps_other _ other)) ?_ same, same⟩
    rw [Sim.requests, ioQueue, Sim.requests]
  | @blocks time rest now =>
    refine ⟨stage.congr (setOps_other _ other) ?_ rfl, rfl⟩
    have none : ¬q = p := fun same => other same.symm
    simp [Sim.requests, Sim.submitIoRequest, Sim.setOps, none]
  | ends now => exact ⟨stage.congr (setOps_other _ other) rfl rfl, rfl⟩
  | again now => exact ⟨stage.congr (setOps_other _ other) rfl rfl, rfl⟩
  | idle => exact ⟨stage, rfl⟩

theorem simulated (stage : s.Stage p) (step : Simulated p s event t) :
    t.Stage p ∧ t.remaining p ≤ s.remaining p ∧ (event = some .terminate → t.remaining p = 0) := by
  cases stage with
  | cpu alternates quiet exact =>
    cases step with
    | @burst time rest _ _ now more ops ioQueue remaining timer =>
      have positive : 0 < time.toNat := UInt32.lt_iff_toNat_lt.mp more
      rw [now] at alternates exact
      have total : s.remaining p = time.toNat + (rest.map Op.time).sum := exact
      have less : t.remaining p = s.remaining p - 1 :=
        (congrFun remaining p).trans (remaining_tickProcess (by omega))
      have now' : t.ops p = .cpu (time - 1) :: rest := (congrFun ops p).trans (setOps_ops s p _)
      have one : (time - 1).toNat = time.toNat - 1 :=
        UInt32.toNat_sub_of_le _ _ (UInt32.le_iff_toNat_le.mpr positive)
      refine ⟨.cpu ?_ ?_ ?_, by omega, fun ends => absurd ends timer⟩
      · rw [now']
        exact alternates.time _
      · rw [Sim.requests, ioQueue]
        exact quiet
      · have now_total : ((Op.cpu (time - 1) :: rest).map Op.time).sum = (time - 1).toNat +
          (rest.map Op.time).sum :=
          rfl
        rw [now', less, total, now_total, one]
        omega
    | @blocks time rest now =>
      rw [now] at alternates exact
      cases alternates with
      | more _ _ rest' =>
        refine ⟨.io (setOps_ops s p _) rest' (?_ : Sim.requests _ p = [time])
          (exact.trans (Nat.zero_add _)), Nat.le_refl _, nofun⟩
        have queue : ((s.setOps p (.io time :: rest)).submitIoRequest p time).requests p =
            s.requests p ++ [time] := by
          simp [Sim.requests, Sim.submitIoRequest, Sim.setOps]
        rw [queue, quiet, List.nil_append]
    | @ends rest now =>
      rw [now] at alternates exact
      cases alternates with
      | last =>
        have zero : s.remaining p = 0 := exact
        exact ⟨.done (setOps_ops s p _) quiet zero, Nat.le_refl _, fun _ => zero⟩
    | again now =>
      rw [now] at alternates
      cases alternates
    | idle now other =>
      rw [now] at alternates
      cases alternates with
      | last time => exact absurd rfl (other time)
      | more time => exact absurd rfl (other time)
  | io ops alternates request exact =>
    cases step with
    | idle => exact ⟨.io ops alternates request exact, Nat.le_refl _, nofun⟩
    | burst now | blocks now | ends now | again now =>
      rw [ops] at now
      cases now
  | done ops quiet exact =>
    cases step with
    | idle => exact ⟨.done ops quiet exact, Nat.le_refl _, nofun⟩
    | burst now | blocks now | ends now | again now =>
      rw [ops] at now
      cases now

/-- A request of `p` at the head of the queue is the one that `p` waits for. -/
theorem waits (stage : s.Stage p) {time : UInt32} {rest : List (Nat × UInt32)}
    (head : s.ioQueue = (p, time) :: rest) :
    ∃ busy later, s.ops p = .io busy :: later ∧ Alternates later ∧
      (rest.filterMap fun request => if request.1 = p then some request.2 else none) = [] ∧
      s.remaining p = time.toNat + (later.map Op.time).sum := by
  have requests : s.requests p = time :: rest.filterMap fun r =>
      if r.1 = p then some r.2 else none := by
    simp [Sim.requests, head]
  cases stage with
  | cpu _ quiet =>
    rw [quiet] at requests
    cases requests
  | done _ quiet =>
    rw [quiet] at requests
    cases requests
  | io ops alternates request exact =>
    obtain ⟨rfl, none⟩ := List.cons_eq_cons.mp (request.symm.trans requests)
    exact ⟨_, _, ops, alternates, none.symm, exact⟩

theorem requests_tail {time : UInt32} {rest : List (Nat × UInt32)}
    (head : s.ioQueue = (q, time) :: rest) (other : p ≠ q) :
    s.requests p = rest.filterMap fun request =>
      if request.1 = p then some request.2 else none := by
  have none : ¬q = p := fun same => other same.symm
  simp [Sim.requests, head, none]

theorem served (stage : s.Stage p) (step : Served s t) :
    t.Stage p ∧ t.remaining p ≤ s.remaining p := by
  cases step with
  | nothing => exact ⟨stage, Nat.le_refl _⟩
  | @serves q time rest head more =>
    by_cases same : p = q
    · subst same
      obtain ⟨busy, later, ops, alternates, none, exact⟩ := stage.waits head
      have positive : 1 ≤ time.toNat := Nat.one_le_iff_ne_zero.mpr fun zero =>
        more (UInt32.toNat_inj.mp zero)
      have one : (time - 1).toNat = time.toNat - 1 :=
        UInt32.toNat_sub_of_le _ _ (UInt32.le_iff_toNat_le.mpr positive)
      have less : (s.tickProcess p).remaining p = s.remaining p - 1 :=
        remaining_tickProcess (by omega)
      refine ⟨.io ops alternates (?_ : Sim.requests _ p = [time - 1]) ?_, ?_⟩
      · simp [Sim.requests, none]
      · show (s.tickProcess p).remaining p = _
        omega
      · show (s.tickProcess p).remaining p ≤ _
        omega
    · have kept : (s.tickProcess q).remaining p = s.remaining p := remaining_tickProcess_other same
      refine ⟨stage.congr rfl ?_ kept, kept.le⟩
      rw [requests_tail head same, requests_tail rfl same]
  | @completes q rest op ops head now =>
    by_cases same : p = q
    · subst same
      obtain ⟨busy, later, now', alternates, none, exact⟩ := stage.waits head
      obtain ⟨-, rfl⟩ := List.cons_eq_cons.mp (now.symm.trans now')
      refine ⟨.cpu ?_ none ?_, Nat.le_refl _⟩
      · show Alternates ((s.setOps p ops).ops p)
        rw [setOps_ops]
        exact alternates
      · show s.remaining p = (((s.setOps p ops).ops p).map Op.time).sum
        rw [setOps_ops, exact]
        exact Nat.zero_add _
    · refine ⟨stage.congr (setOps_other ops same) ?_ rfl, Nat.le_refl _⟩
      rw [requests_tail head same]
      rfl

theorem step (stage : s.Stage p) (step : TimeStep s t) :
    t.Stage p ∧ t.remaining p ≤ s.remaining p := by
  cases step with
  | @simulate c q event ok =>
    have step := simulateProcess_cases ok
    by_cases same : p = q
    · subst same
      obtain ⟨after, less, -⟩ := stage.simulated step
      exact ⟨after, less⟩
    · obtain ⟨after, kept⟩ := stage.simulated_other step same
      exact ⟨after, kept.le⟩
  | io ok => exact stage.served (simulateIo_cases ok)
  | schedule ops ioQueue remaining =>
    refine ⟨stage.congr (congrFun ops p) ?_ (congrFun remaining p), (congrFun remaining p).le⟩
    rw [Sim.requests, ioQueue, Sim.requests]

theorem accounted (stage : s.Stage p) : s.Accounted p where
  exact := by
    cases stage with
    | cpu alternates _ exact =>
      generalize s.ops p = ops at alternates exact ⊢
      cases alternates with
      | last time => exact ⟨_, _, _, rfl, rfl, exact⟩
      | more time busy rest => exact ⟨_, _, _, rfl, rfl, exact⟩
    | @io busy now rest ops alternates request exact =>
      refine ⟨.io busy, rest, now.toNat, ops, ?_, exact⟩
      have first : s.ioQueue.lookup p = some now := by
        rw [lookup_requests]
        exact congrArg List.head? request
      rw [Sim.left, first]
      rfl
    | done ops _ exact => exact ⟨.terminate, [], 0, ops, rfl, exact⟩
  returns c := by
    cases stage with
    | cpu alternates _ _ =>
      obtain ⟨time, op, rest, now⟩ := alternates.two
      simp only [Sim.simulateProcess, now]
      split
      · exact ⟨_, _, rfl⟩
      · cases op <;> exact ⟨_, _, rfl⟩
    | io ops => exact ⟨none, s, by simp [Sim.simulateProcess, ops]⟩
    | done ops => exact ⟨none, s, by simp [Sim.simulateProcess, ops]⟩
  decreases t step := (stage.step step).2
  terminates c t ok := (stage.simulated (simulateProcess_cases ok)).2.2 rfl

end Sim.Stage

/-- However the steps follow one another, and whatever else there is to run. -/
theorem total_exact (prepared : s.Prepared p) (run : Relation.ReflTransGen TimeStep s t) :
    t.Accounted p := by
  have start : s.Stage p := by
    refine .cpu prepared.alternates ?_ prepared.total
    apply List.filterMap_eq_nil_iff.mpr
    exact fun request mem => if_neg (prepared.quiet request mem)
  have stage : t.Stage p := by
    induction run with
    | refl => exact start
    | tail _ step ih => exact (ih.step step).1
  exact stage.accounted

/-! ## The simulator with the handlers -/

/-- No handler touches the times. -/
theorem step_remaining {cfg : Config} {mayWake : Sys → Nat → Prop} {u v : Sys}
    (step : Step cfg mayWake u v) :
    v.student.remaining = u.student.remaining := by
  funext p
  cases step with
  | callIdle | look | spurious | callPreempt | callYield | callTerminate | publish | contextSwitch |
    callWakeUp |
    choose | forcePreempt => rfl
  | preempt | yield | terminate | mark | ready => exact remaining_setState _
  | requeue _ _ ok => exact (enqueue_linksOnly ok).remaining p
  | enqueue _ ok => exact (enqueue_linksOnly ok).remaining p
  | dequeueNone _ _ ok => exact (dequeue_linksOnly ok).remaining p
  | dequeue _ _ ok => exact (dequeue_linksOnly ok).remaining p

/-- `t` is `s` but for what no time depends on. -/
structure SameTimes (s t : Sim) : Prop where
  ops : t.ops = s.ops
  ioQueue : t.ioQueue = s.ioQueue
  student : t.sys.student = s.sys.student

theorem SameTimes.times (same : SameTimes s t) : Relation.ReflTransGen TimeStep s t := by
  apply Relation.ReflTransGen.single
  apply TimeStep.schedule same.ops same.ioQueue
  funext p
  exact congrArg (fun student => Student.remaining student p) same.student

theorem raise_same (s : Sim) (c : Nat) (event : CpuState) : SameTimes s (s.raise c event) := by
  unfold Sim.raise
  by_cases asleep : (s.setData c fun d => { d with state := event }).thread c = .asleep
  · simp only [if_pos asleep]
    exact ⟨rfl, rfl, rfl⟩
  · simp only [if_neg asleep]
    exact ⟨rfl, rfl, rfl⟩

theorem topOfLoop_same (s : Sim) (c : Nat) : SameTimes s (s.topOfLoop c) := by
  unfold Sim.topOfLoop
  cases current : (s.data c).current with
  | none =>
    simp only [Sim.setSupervisor, current]
    exact ⟨rfl, rfl, rfl⟩
  | some p =>
    simp only [Sim.setSupervisor, current]
    exact ⟨rfl, rfl, rfl⟩

/-- The steps of the threads are such steps. -/
theorem sim_step_times {cfg : Config} {a : Action} (step : Sim.Step cfg s a t) :
    Relation.ReflTransGen TimeStep s t := by
  cases step with
  | @simulate n p u _ _ _ ok =>
    have before : SameTimes s (s.log (.simulate n)) := ⟨rfl, rfl, rfl⟩
    have after : SameTimes u (u.setSupervisor (.cpus (n + 1))) := ⟨rfl, rfl, rfl⟩
    exact (before.times.tail (.simulate ok)).trans after.times
  | @simulateEvent n p e u _ _ _ ok =>
    have before : SameTimes s (s.log (.simulate n)) := ⟨rfl, rfl, rfl⟩
    have after := raise_same u n e
    exact (before.times.tail (.simulate ok)).trans
      (SameTimes.times ⟨after.ops, after.ioQueue, after.student⟩)
  | @ioBusy p time rest _ head more =>
    let u : Sim := { s.tickProcess p with ioQueue := (p, time - 1) :: rest }
    have serves : s.simulateIo = some (none, u) := by
      simp only [Sim.simulateIo, head, if_neg more, u]
    have after : SameTimes u (u.setSupervisor .creat) := ⟨rfl, rfl, rfl⟩
    exact (Relation.ReflTransGen.single (.io serves)).trans after.times
  | @ioDone p rest op ops _ head now =>
    let u : Sim := { s.setOps p ops with ioQueue := rest }
    have completes : s.simulateIo = some (some p, u) := by
      simp [Sim.simulateIo, head, now, u]
    have after : SameTimes u (u.callWakeUp p false) := ⟨rfl, rfl, rfl⟩
    exact (Relation.ReflTransGen.single (.io completes)).trans after.times
  | handler step => exact .single (.schedule rfl rfl (step_remaining step))
  | woke =>
    split
    · exact SameTimes.times ⟨rfl, rfl, rfl⟩
    · exact SameTimes.times ⟨rfl, rfl, rfl⟩
  | @forcePreempt created v =>
    have same := raise_same s v .preempt
    exact SameTimes.times ⟨same.ops, same.ioQueue, same.student⟩
  | top => exact (topOfLoop_same s _).times
  | _ => exact SameTimes.times ⟨rfl, rfl, rfl⟩

/-- In each state of each run of the threads, whatever they do to one another. -/
theorem run_accounted {cfg : Config} {ok : Sim → Action → Prop} (run : Sim.Run cfg ok s) :
    ∃ start, Sim.Start start ∧ ∀ p, start.Prepared p → s.Accounted p := by
  obtain ⟨start, starts, times⟩ : ∃ start, Sim.Start start ∧
      Relation.ReflTransGen TimeStep start s := by
    induction run with
    | start starts => exact ⟨_, starts, .refl⟩
    | next _ _ step ih =>
      obtain ⟨start, starts, times⟩ := ih
      exact ⟨start, starts, times.trans (sim_step_times step)⟩
  exact ⟨start, starts, fun p prepared => total_exact prepared times⟩

end

/-- `pid3_ops` of `process.c`. -/
def pid3Ops : List Op :=
  [.cpu 9, .io 1, .cpu 6, .io 1, .cpu 8, .io 1, .cpu 7, .io 1, .cpu 6, .io 1, .cpu 8, .io 1, .cpu 7,
    .io 1, .cpu 6, .io 1, .cpu 8, .io 1, .cpu 8, .terminate]

/-- The simulator before it starts, with that process only. -/
def pid3Sim : Sim where
  sys := ⟨⟨fun _ => ⟨3, .new, none, 0, 30, 82⟩, none, none, fun _ => none⟩, fun _ => .outside,
    fun _ => .outside, fun _ => false, fun _ => false, fun _ => false⟩
  data _ := ⟨none, .idle, -1⟩
  thread _ := .top
  supervisor := .sleeping
  ops _ := pid3Ops
  ioQueue := []
  simulatorTime := 0
  processesTerminated := 0
  processesCreated := 0
  history := []

/-- It runs for two ticks on different CPUs. -/
theorem total_exact_twice : ∃ t, Relation.ReflTransGen TimeStep pid3Sim t ∧ t.remaining 3 = 80 ∧
    t.Accounted 3 := by
  have prepared : pid3Sim.Prepared 3 := ⟨by repeat constructor, by decide, nofun⟩
  have start : Relation.ReflTransGen TimeStep pid3Sim pid3Sim := .refl
  have first := start.tail (.simulate (c := 0) (p := 3) rfl)
  have second := first.tail (.simulate (c := 1) (p := 3) rfl)
  exact ⟨_, second, by decide, total_exact prepared second⟩

end SystemsProjects.Sched
