import SystemsProjects.Sched.Queue

/-!
# The handlers of `student.c`

Any number of CPU threads and of callers of `wake_up`, cut at their sections
under a mutex. The sections under `current_mutex` are cut further, at the calls
and at the writes in them, and interleave with each other also where the mutex
would keep them apart: the runs of the program are among the runs here.
-/

namespace SystemsProjects.Sched

/-- Where the thread of a CPU is. The handlers end in `schedule`, which takes
along the process that has yielded, if any. -/
inductive CpuPc where
  | outside
  /-- in `idle`, before its first look at the queue -/
  | testing
  /-- in the `pthread_cond_wait` of `idle` -/
  | asleep
  /-- woken, before the next look -/
  | woken
  | preempting
  /-- in `preempt`, before `enqueue` -/
  | requeueing (process : Nat)
  | yielding
  | terminating
  /-- in `schedule`, before `dequeue` -/
  | dequeueing (yielded : Option Nat)
  /-- before `process->state = PROCESS_RUNNING` -/
  | marking (yielded : Option Nat) (process : Nat)
  /-- before `current[cpu_id] = process` -/
  | publishing (yielded : Option Nat) (process : Option Nat)
  /-- before `context_switch` and the return -/
  | switching (yielded : Option Nat)
  deriving DecidableEq

/-- Where a caller of `wake_up` is. -/
inductive WakerPc where
  | outside
  | readying (process : Nat)
  | enqueueing (process : Nat)
  | choosing (process : Nat)
  | forcing (victimCpu : Nat)
  deriving DecidableEq

/-- The shared state and the threads. The last three say of a process whether it
has ever been enqueued, whether its yield handler has completed since it last
ran, and whether it has been woken since its last yield. -/
structure Sys where
  student : Student
  cpu : Nat → CpuPc
  waker : Nat → WakerPc
  enqueued : Nat → Bool
  yielded : Nat → Bool
  awoken : Nat → Bool

namespace Student

/-- The loops of `wake_up` over `current[]`: the largest `key` and its CPU, and
nothing if a CPU has no process. -/
def scan (cfg : Config) (key : Nat → Nat → Nat) (s : Student) : Option (Nat × Nat) :=
  (List.range cfg.cpuCount).foldlM (fun best i => do
    let process ← s.current i
    return if best.1 < key i process then (key i process, i) else best) (0, 0)

/-- The CPU that `wake_up` preempts. -/
def victimCpu (cfg : Config) (times : Nat → UInt32) (s : Student) (process : Nat) : Option Nat :=
  match cfg.schedulerAlgorithm with
  | .srtf => do
    let (mostTimeRemaining, victim) ← s.scan cfg (fun _ p => s.remaining p)
    if mostTimeRemaining ≠ 0 ∧ mostTimeRemaining > s.remaining process then some victim else none
  | .pa => do
    let priority := fun k p => (priorityWithAge cfg (times k) (s.pcbs p)).toNat
    let newProcessPriority := priority 0 process
    let (lowestPriority, cpu) ← s.scan cfg (fun i p => priority (i + 1) p)
    if lowestPriority ≠ 0 ∧ newProcessPriority < lowestPriority then some cpu else none
  | _ => none

/-- `pcb->total_time_remaining--`, which the simulator does. -/
def tick (s : Student) (process : Nat) : Student :=
  s.modify process (fun b => { b with totalTimeRemaining := b.totalTimeRemaining - 1 })

end Student

namespace Sys

def setCpu (s : Sys) (c : Nat) (pc : CpuPc) : Sys :=
  { s with cpu := fun x => if x = c then pc else s.cpu x }

def setWaker (s : Sys) (w : Nat) (pc : WakerPc) : Sys :=
  { s with waker := fun x => if x = w then pc else s.waker x }

def setStudent (s : Sys) (student : Student) : Sys := { s with student := student }

/-- `pthread_cond_signal(&queue_not_empty)`: the sleepers among `wakes` wake up. -/
def signal (s : Sys) (wakes : Nat → Bool) : Sys :=
  { s with cpu := fun c => if s.cpu c = .asleep ∧ wakes c then .woken else s.cpu c }

/-- A signal wakes at least one sleeper if there is one. -/
def Signals (cfg : Config) (s : Sys) (wakes : Nat → Bool) : Prop :=
  (∃ c < cfg.cpuCount, s.cpu c = .asleep) → ∃ c < cfg.cpuCount, s.cpu c = .asleep ∧ wakes c

def markEnqueued (s : Sys) (p : Nat) : Sys :=
  { s with enqueued := fun q => if q = p then true else s.enqueued q }

def markRunning (s : Sys) (p : Nat) : Sys :=
  { s with yielded := fun q => if q = p then false else s.yielded q }

def markAwoken (s : Sys) (p : Nat) : Sys :=
  { s with awoken := fun q => if q = p then true else s.awoken q }

/-- The yield handler of the process, if any, is complete. -/
def markYielded (s : Sys) (p : Option Nat) : Sys :=
  { s with
    yielded := fun q => if some q = p then true else s.yielded q
    awoken := fun q => if some q = p then false else s.awoken q }

end Sys

/-- One step of one thread; `mayWake` says which process `wake_up` may be called
for. -/
inductive Step (cfg : Config) (mayWake : Sys → Nat → Prop) : Sys → Sys → Prop
  | callIdle {s c} (hc : c < cfg.cpuCount) (out : s.cpu c = .outside)
      (free : s.student.current c = none) : Step cfg mayWake s (s.setCpu c .testing)
  | look {s c} (hc : c < cfg.cpuCount) (pc : s.cpu c = .testing ∨ s.cpu c = .woken) :
      Step cfg mayWake s (s.setCpu c (if s.student.isEmpty then .asleep else .dequeueing none))
  | spurious {s c} (hc : c < cfg.cpuCount) (pc : s.cpu c = .asleep) :
      Step cfg mayWake s (s.setCpu c .woken)
  | callPreempt {s c} (hc : c < cfg.cpuCount) (out : s.cpu c = .outside)
      (busy : s.student.current c ≠ none) : Step cfg mayWake s (s.setCpu c .preempting)
  | callYield {s c} (hc : c < cfg.cpuCount) (out : s.cpu c = .outside)
      (busy : s.student.current c ≠ none) : Step cfg mayWake s (s.setCpu c .yielding)
  | callTerminate {s c} (hc : c < cfg.cpuCount) (out : s.cpu c = .outside)
      (busy : s.student.current c ≠ none) : Step cfg mayWake s (s.setCpu c .terminating)
  | preempt {s c p} (hc : c < cfg.cpuCount) (pc : s.cpu c = .preempting)
      (current : s.student.current c = some p) :
      Step cfg mayWake s ((s.setStudent (s.student.setState p .ready)).setCpu c (.requeueing p))
  | requeue {s c p time wakes t} (hc : c < cfg.cpuCount) (pc : s.cpu c = .requeueing p)
      (ok : s.student.enqueue time p = some t) (signals : s.Signals cfg wakes) :
      Step cfg mayWake s
        ((((s.setStudent t).signal wakes).markEnqueued p).setCpu c (.dequeueing none))
  | yield {s c p} (hc : c < cfg.cpuCount) (pc : s.cpu c = .yielding)
      (current : s.student.current c = some p) :
      Step cfg mayWake s
        ((s.setStudent (s.student.setState p .waiting)).setCpu c (.dequeueing (some p)))
  | terminate {s c p} (hc : c < cfg.cpuCount) (pc : s.cpu c = .terminating)
      (current : s.student.current c = some p) :
      Step cfg mayWake s
        ((s.setStudent (s.student.setState p .terminated)).setCpu c (.dequeueing none))
  | dequeueNone {s c y times t} (hc : c < cfg.cpuCount) (pc : s.cpu c = .dequeueing y)
      (ok : s.student.dequeue cfg times = some (none, t)) :
      Step cfg mayWake s ((s.setStudent t).setCpu c (.publishing y none))
  | dequeue {s c y times p t} (hc : c < cfg.cpuCount) (pc : s.cpu c = .dequeueing y)
      (ok : s.student.dequeue cfg times = some (some p, t)) :
      Step cfg mayWake s ((s.setStudent t).setCpu c (.marking y p))
  | mark {s c y p} (hc : c < cfg.cpuCount) (pc : s.cpu c = .marking y p) :
      Step cfg mayWake s (((s.setStudent (s.student.setState p .running)).markRunning p).setCpu c
        (.publishing y (some p)))
  | publish {s c y q} (hc : c < cfg.cpuCount) (pc : s.cpu c = .publishing y q) :
      Step cfg mayWake s ((s.setStudent { s.student with
        current := fun x => if x = c then q else s.student.current x }).setCpu c (.switching y))
  | contextSwitch {s c y} (hc : c < cfg.cpuCount) (pc : s.cpu c = .switching y) :
      Step cfg mayWake s ((s.markYielded y).setCpu c .outside)
  | callWakeUp {s w p} (out : s.waker w = .outside) (hp : p < cfg.processCount)
      (may : mayWake s p) : Step cfg mayWake s ((s.markAwoken p).setWaker w (.readying p))
  | ready {s w p} (pc : s.waker w = .readying p) :
      Step cfg mayWake s ((s.setStudent (s.student.setState p .ready)).setWaker w (.enqueueing p))
  | enqueue {s w p time wakes t} (pc : s.waker w = .enqueueing p)
      (ok : s.student.enqueue time p = some t) (signals : s.Signals cfg wakes) :
      Step cfg mayWake s
        ((((s.setStudent t).signal wakes).markEnqueued p).setWaker w (.choosing p))
  | choose {s w p times} (pc : s.waker w = .choosing p) :
      Step cfg mayWake s (s.setWaker w ((s.student.victimCpu cfg times p).elim .outside .forcing))
  | forcePreempt {s w v} (pc : s.waker w = .forcing v) :
      Step cfg mayWake s (s.setWaker w .outside)

/-- `rq` empty, every `current[c]` NULL and no handler called. -/
structure Start (s : Sys) : Prop where
  head : s.student.head = none
  tail : s.student.tail = none
  next : ∀ p, s.student.next p = none
  current : ∀ c, s.student.current c = none
  cpu : ∀ c, s.cpu c = .outside
  waker : ∀ w, s.waker w = .outside
  enqueued : ∀ p, s.enqueued p = false
  yielded : ∀ p, s.yielded p = false
  awoken : ∀ p, s.awoken p = false

inductive Reachable (cfg : Config) (mayWake : Sys → Nat → Prop) : Sys → Prop
  | start {s} : Start s → Reachable cfg mayWake s
  | next {s t} : Reachable cfg mayWake s → Step cfg mayWake s t → Reachable cfg mayWake t

/-- `p` has never been enqueued, or its yield handler has completed since it last
ran. -/
def NewOrYielded (s : Sys) (p : Nat) : Prop := s.enqueued p = false ∨ s.yielded p = true

/-- And it has not been woken since: `simulate_creat` calls `wake_up` once for a
process, and `simulate_io` once for a request that it has taken off its queue. -/
def OncePerYield (s : Sys) (p : Nat) : Prop := NewOrYielded s p ∧ s.awoken p = false

end SystemsProjects.Sched
