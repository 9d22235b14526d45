import SystemsProjects.Sched.Handlers
import SystemsProjects.Lib.Answers

/-!
# The simulator

The threads of `os-sim.c`, cut at their sections under `simulator_mutex`, around the
handlers of `student.c`. `student_lock` only delays the printing of the Gantt chart
and is left out, as is what is printed.
-/

namespace SystemsProjects.Sched

/-- `simulator_cpu_state_t`. -/
inductive CpuState where
  | idle | running | preempt | yield | terminate
  deriving DecidableEq

/-- The states that stand for an event. -/
def CpuState.event : CpuState → Option CpuState
  | .idle | .running => none
  | e => some e

/-- `op_t`. -/
inductive Op where
  | cpu (time : UInt32)
  | io (time : UInt32)
  | terminate

/-- `simulator_cpu_data_t`. -/
structure CpuData where
  current : Option Nat
  state : CpuState
  preemptionTimer : Int

/-- Where a CPU thread is in `simulator_cpu_thread`. -/
inductive ThreadPc where
  /-- before it locks the mutex, at the top of the loop -/
  | top
  /-- in `pthread_cond_wait` -/
  | asleep
  /-- woken, without the mutex -/
  | awake
  /-- before `switch (state)` -/
  | dispatch (state : CpuState)
  /-- before `terminate`, after `processes_terminated++` -/
  | counted
  /-- in the handler of `student.c` -/
  | handling
  deriving DecidableEq

/-- Where the supervisor is. In a wait it has been `woken` or not; `created` says
that it is `simulate_creat` that has called `wake_up`, and not `simulate_io`. -/
inductive SupervisorPc where
  /-- before it locks the mutex -/
  | sleeping
  /-- in the loop of `simulate_cpus` -/
  | cpus (n : Nat)
  /-- in the `pthread_cond_wait` of `simulate_process` -/
  | waiting (cpuId : Nat) (woken : Bool)
  | io
  /-- in `wake_up` -/
  | waking (created : Bool)
  /-- in the `pthread_cond_wait` of `force_preempt` -/
  | forcing (cpuId : Nat) (woken : Bool) (created : Bool)
  /-- returned from `wake_up`, before it locks the mutex -/
  | woke (created : Bool)
  | creat
  | tick
  | exited

/-- It has the mutex, or the program has ended. -/
def SupervisorPc.holds : SupervisorPc → Bool
  | .cpus _ | .io | .creat | .tick | .exited => true
  | _ => false

/-- The CPU whose `wakeup` it sleeps on. -/
def SupervisorPc.asleepOn : SupervisorPc → Option Nat
  | .waiting c false | .forcing c false _ => some c
  | _ => none

/-- `pthread_cond_signal(&simulator_cpu_data[c].wakeup)`, for the supervisor. -/
def SupervisorPc.signal (c : Nat) : SupervisorPc → SupervisorPc
  | .waiting d false => .waiting d (d = c)
  | .forcing d false created => .forcing d (d = c) created
  | pc => pc

/-- `simulate_process` is called for a CPU; a CPU's state is set to an event; a CPU's
thread calls the handler of an event. -/
inductive Label where
  | simulate (cpuId : Nat)
  | raise (cpuId : Nat) (event : CpuState)
  | call (cpuId : Nat) (event : CpuState)
  deriving DecidableEq

/-- Programs and the I/O queue are lists; `ops p` are the operations from
`processes[p].pc` on. The history is the newest first. -/
structure Sim where
  sys : Sys
  data : Nat → CpuData
  thread : Nat → ThreadPc
  supervisor : SupervisorPc
  ops : Nat → List Op
  ioQueue : List (Nat × UInt32)
  simulatorTime : UInt32
  processesTerminated : Nat
  processesCreated : Nat
  history : List Label

namespace Sim

def setData (s : Sim) (c : Nat) (f : CpuData → CpuData) : Sim :=
  { s with data := fun d => if d = c then f (s.data d) else s.data d }

def setThread (s : Sim) (c : Nat) (pc : ThreadPc) : Sim :=
  { s with thread := fun d => if d = c then pc else s.thread d }

def setOps (s : Sim) (p : Nat) (ops : List Op) : Sim :=
  { s with ops := fun q => if q = p then ops else s.ops q }

def setSys (s : Sim) (sys : Sys) : Sim := { s with sys := sys }

def setSupervisor (s : Sim) (pc : SupervisorPc) : Sim := { s with supervisor := pc }

def tickProcess (s : Sim) (p : Nat) : Sim :=
  s.setSys (s.sys.setStudent (s.sys.student.tick p))

def log (s : Sim) (l : Label) : Sim := { s with history := l :: s.history }

def submitIoRequest (s : Sim) (pcb : Nat) (executionTime : UInt32) : Sim :=
  { s with ioQueue := s.ioQueue ++ [(pcb, executionTime)] }

/-- `simulate_process` up to the event that it raises, if any. A program that is
read past its end has no result. -/
def simulateProcess (cpuId pcb : Nat) (s : Sim) : Option (Option CpuState × Sim) :=
  match s.ops pcb with
  | .cpu time :: rest =>
    if 0 < time then
      let s := (s.setOps pcb (.cpu (time - 1) :: rest)).tickProcess pcb
      let s := s.setData cpuId (fun d => { d with preemptionTimer := d.preemptionTimer - 1 })
      some (if (s.data cpuId).preemptionTimer = 0 then some .preempt else none, s)
    else
      let s := s.setOps pcb rest
      match rest with
      | .io time :: _ => some (some .yield, s.submitIoRequest pcb time)
      | .terminate :: _ => some (some .terminate, s)
      | .cpu _ :: _ => some (none, s)
      | [] => none
  | .io _ :: _ | .terminate :: _ => some (none, s)
  | [] => none

/-- The state is set to an event, and the CPU thread is woken if it sleeps. -/
def raise (s : Sim) (cpuId : Nat) (event : CpuState) : Sim :=
  let s := s.setData cpuId (fun d => { d with state := event })
  let s := if s.thread cpuId = .asleep then s.setThread cpuId .awake else s
  s.log (.raise cpuId event)

/-- The section at the top of the loop of a CPU thread, up to the wait or the
`switch`. -/
def topOfLoop (s : Sim) (c : Nat) : Sim :=
  let s := s.setSupervisor (s.supervisor.signal c)
  match (s.data c).current with
  | none => (s.setData c (fun d => { d with state := .idle })).setThread c (.dispatch .idle)
  | some _ => (s.setData c (fun d => { d with state := .running })).setThread c .asleep

/-- The supervisor calls `wake_up`. -/
def callWakeUp (s : Sim) (p : Nat) (created : Bool) : Sim :=
  (s.setSys ((s.sys.markAwoken p).setWaker 0 (.readying p))).setSupervisor (.waking created)

/-- `wake_up` returns to it. -/
def wakeUpReturns (s : Sim) (created : Bool) : Sim :=
  (s.setSys (s.sys.setWaker 0 .outside)).setSupervisor (.woke created)

/-- The thread of CPU `c` calls the handler for `state`. -/
def callHandler (s : Sim) (c : Nat) (entry : CpuPc) : Sim :=
  (s.setSys (s.sys.setCpu c entry)).setThread c .handling

end Sim

/-- No thread enters or leaves a handler of `student.c`. -/
def Inside (s t : Sys) : Prop :=
  (∀ c, s.cpu c = .outside ↔ t.cpu c = .outside) ∧
    (∀ w, s.waker w = .outside ↔ t.waker w = .outside)

/-- The steps that something is said about: a call of `simulate_process`, and a
return of the supervisor from a wait without a signal. -/
inductive Action where
  | simulateProcess (cpuId : Nat)
  | wakeSpuriously
  | other
  deriving DecidableEq

inductive Sim.Step (cfg : Config) : Sim → Action → Sim → Prop
  -- the supervisor
  | lock {s} (pc : s.supervisor = .sleeping) : Sim.Step cfg s .other
      (s.setSupervisor (if cfg.processCount ≤ s.processesTerminated then .exited else .cpus 0))
  | skip {s n} (pc : s.supervisor = .cpus n) (hn : n < cfg.cpuCount)
      (current : (s.data n).current = none) :
      Sim.Step cfg s .other (s.setSupervisor (.cpus (n + 1)))
  | simulate {s n p t} (pc : s.supervisor = .cpus n) (hn : n < cfg.cpuCount)
      (current : (s.data n).current = some p)
      (ok : (s.log (.simulate n)).simulateProcess n p = some (none, t)) :
      Sim.Step cfg s (.simulateProcess n) (t.setSupervisor (.cpus (n + 1)))
  | simulateEvent {s n p e t} (pc : s.supervisor = .cpus n) (hn : n < cfg.cpuCount)
      (current : (s.data n).current = some p)
      (ok : (s.log (.simulate n)).simulateProcess n p = some (some e, t)) :
      Sim.Step cfg s (.simulateProcess n) ((t.raise n e).setSupervisor (.waiting n false))
  | resume {s n} (pc : s.supervisor = .waiting n true) :
      Sim.Step cfg s .other (s.setSupervisor (.cpus (n + 1)))
  | endCpus {s n} (pc : s.supervisor = .cpus n) (hn : cfg.cpuCount ≤ n) :
      Sim.Step cfg s .other (s.setSupervisor .io)
  | ioNone {s} (pc : s.supervisor = .io) (empty : s.ioQueue = []) :
      Sim.Step cfg s .other (s.setSupervisor .creat)
  | ioBusy {s p time rest} (pc : s.supervisor = .io) (head : s.ioQueue = (p, time) :: rest)
      (more : time ≠ 0) : Sim.Step cfg s .other
      ({ s.tickProcess p with ioQueue := (p, time - 1) :: rest }.setSupervisor .creat)
  | ioDone {s p rest op ops} (pc : s.supervisor = .io) (head : s.ioQueue = (p, 0) :: rest)
      (now : s.ops p = op :: ops) : Sim.Step cfg s .other
      ({ s.setOps p ops with ioQueue := rest }.callWakeUp p false)
  | creat {s} (pc : s.supervisor = .creat) (time : s.simulatorTime % 10 = 0)
      (more : s.processesCreated < cfg.processCount) :
      Sim.Step cfg s .other (s.callWakeUp s.processesCreated true)
  | creatNot {s} (pc : s.supervisor = .creat)
      (not : ¬ (s.simulatorTime % 10 = 0 ∧ s.processesCreated < cfg.processCount)) :
      Sim.Step cfg s .other (s.setSupervisor .tick)
  | noVictim {s created p times} (pc : s.supervisor = .waking created)
      (waker : s.sys.waker 0 = .choosing p) (none : s.sys.student.victimCpu cfg times p = none) :
      Sim.Step cfg s .other (s.wakeUpReturns created)
  | forcePreempt {s created v} (pc : s.supervisor = .waking created)
      (waker : s.sys.waker 0 = .forcing v) (state : (s.data v).state = .running) :
      Sim.Step cfg s .other ((s.raise v .preempt).setSupervisor (.forcing v false created))
  | forceNothing {s created v} (pc : s.supervisor = .waking created)
      (waker : s.sys.waker 0 = .forcing v) (state : (s.data v).state ≠ .running) :
      Sim.Step cfg s .other (s.wakeUpReturns created)
  | forced {s v created} (pc : s.supervisor = .forcing v true created) :
      Sim.Step cfg s .other (s.wakeUpReturns created)
  | woke {s created} (pc : s.supervisor = .woke created) : Sim.Step cfg s .other
      (if created then { s with processesCreated := s.processesCreated + 1 }.setSupervisor .tick
        else s.setSupervisor .creat)
  | tick {s} (pc : s.supervisor = .tick) : Sim.Step cfg s .other
      ({ s with simulatorTime := s.simulatorTime + 1 }.setSupervisor .sleeping)
  | wakeSpuriously {s c} (pc : s.supervisor.asleepOn = some c) :
      Sim.Step cfg s .wakeSpuriously (s.setSupervisor (s.supervisor.signal c))
  -- a CPU thread
  | top {s c} (hc : c < cfg.cpuCount) (free : s.supervisor.holds = false) (pc : s.thread c = .top) :
      Sim.Step cfg s .other (s.topOfLoop c)
  | spurious {s c} (hc : c < cfg.cpuCount) (pc : s.thread c = .asleep) :
      Sim.Step cfg s .other (s.setThread c .awake)
  | recheck {s c} (hc : c < cfg.cpuCount) (free : s.supervisor.holds = false)
      (pc : s.thread c = .awake) : Sim.Step cfg s .other
      (s.setThread c (if (s.data c).state = .running then .asleep else .dispatch (s.data c).state))
  | callIdle {s c} (hc : c < cfg.cpuCount) (pc : s.thread c = .dispatch .idle) :
      Sim.Step cfg s .other (s.callHandler c .testing)
  | callPreempt {s c} (hc : c < cfg.cpuCount) (pc : s.thread c = .dispatch .preempt) :
      Sim.Step cfg s .other ((s.callHandler c .preempting).log (.call c .preempt))
  | callYield {s c} (hc : c < cfg.cpuCount) (pc : s.thread c = .dispatch .yield) :
      Sim.Step cfg s .other ((s.callHandler c .yielding).log (.call c .yield))
  | count {s c} (hc : c < cfg.cpuCount) (free : s.supervisor.holds = false)
      (pc : s.thread c = .dispatch .terminate) : Sim.Step cfg s .other
      { s.setThread c .counted with processesTerminated := s.processesTerminated + 1 }
  | callTerminate {s c} (hc : c < cfg.cpuCount) (pc : s.thread c = .counted) :
      Sim.Step cfg s .other ((s.callHandler c .terminating).log (.call c .terminate))
  | neverHappens {s c} (hc : c < cfg.cpuCount) (pc : s.thread c = .dispatch .running) :
      Sim.Step cfg s .other (s.setThread c .top)
  | contextSwitch {s c y} (hc : c < cfg.cpuCount) (free : s.supervisor.holds = false)
      (pc : s.thread c = .handling) (handler : s.sys.cpu c = .switching y) : Sim.Step cfg s .other
      (((s.setSys ((s.sys.markYielded y).setCpu c .outside)).setData c (fun d =>
        { d with current := s.sys.student.current c, preemptionTimer := cfg.timeslice })).setThread
        c .top)
  -- the handlers
  | handler {s t} (step : Sched.Step cfg (fun _ _ => True) s.sys t) (inside : Inside s.sys t) :
      Sim.Step cfg s .other (s.setSys t)

/-- What `start_simulator` sets up, with any programs. -/
structure Sim.Start (s : Sim) : Prop where
  sys : Sched.Start s.sys
  data : ∀ c, s.data c = ⟨none, .idle, -1⟩
  thread : ∀ c, s.thread c = .top
  supervisor : s.supervisor = .sleeping
  ioQueue : s.ioQueue = []
  simulatorTime : s.simulatorTime = 0
  processesTerminated : s.processesTerminated = 0
  processesCreated : s.processesCreated = 0
  history : s.history = []

/-- The states of runs whose steps all meet `ok`. -/
inductive Sim.Run (cfg : Config) (ok : Sim → Action → Prop) : Sim → Prop
  | start {s} : s.Start → Sim.Run cfg ok s
  | next {s a t} : Sim.Run cfg ok s → ok s a → Sim.Step cfg s a t → Sim.Run cfg ok t

end SystemsProjects.Sched
