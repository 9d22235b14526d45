import SystemsProjects.Sched.Preemption
import SystemsProjects.Lib.Counting
import Mathlib.Logic.Relation

/-!
# Shortest remaining time first

`wake_up` gives up as soon as it sees a CPU without a process, and an idle CPU
takes one process only. If more processes are woken before it does than there are
idle CPUs, a short one stays behind in the queue while a long one runs. So it does if
`force_preempt` comes before the thread of its CPU has set `CPU_RUNNING`.
-/

namespace SystemsProjects.Sched

open Links Counting Function

/-- The thread of a CPU has scheduled and is on its way to the top of its loop, or has set
`CPU_RUNNING`, or will call the handler of an event. -/
inductive CpuPhase where
  | settling | running | yielding | terminating
  deriving DecidableEq

/-- The process of the CPU is about to leave it. -/
def CpuPhase.Leaving (f : CpuPhase) : Prop := f = .yielding ∨ f = .terminating

instance (f : CpuPhase) : Decidable f.Leaving := inferInstanceAs (Decidable (_ ∨ _))

/-- The state between events, and the CPU that the `wake_up` in progress has yet to
preempt. -/
structure Dispatch where
  student : Student
  phase : Nat → CpuPhase
  forcing : Option Nat

inductive Event where
  | wakeUp (process : Nat)
  | forcePreempt (cpuId : Nat)
  | raise (cpuId : Nat) (phase : CpuPhase)
  | yield (cpuId : Nat)
  | terminate (cpuId : Nat)
  | tick (cpuId : Nat)
  | settle (cpuId : Nat)
  | pickUp (cpuId : Nat)

/-- One event. A tick takes the time of a process down from what is left of it. Ticks, events that
are raised and `wake_up` come from the supervisor, which is in `wake_up` until the preemption is
done. `force_preempt` does nothing unless the state of the CPU is `CPU_RUNNING`. -/
inductive Dispatch.Step (cfg : Config) : Dispatch → Event → Dispatch → Prop
  | wakeUp {s p time times v t} (quiet : s.forcing = none) (hp : p < cfg.processCount)
      (waits : (s.student.pcbs p).state = .new ∨ (s.student.pcbs p).state = .waiting)
      (ok : s.student.wakeUp cfg time times p = some (v, t)) :
      Dispatch.Step cfg s (.wakeUp p) ⟨t, s.phase, v⟩
  | forcePreempt {s c time times q t} (forced : s.forcing = some c) (runs : s.phase c = .running)
      (ok : s.student.preempt cfg time times c = some (q, t)) :
      Dispatch.Step cfg s (.forcePreempt c) ⟨t, update s.phase c .settling, none⟩
  | forceNothing {s c} (forced : s.forcing = some c) (other : s.phase c ≠ .running) :
      Dispatch.Step cfg s (.forcePreempt c) ⟨s.student, s.phase, none⟩
  | raise {s c f} (quiet : s.forcing = none) (runs : s.phase c = .running) (leaving : f.Leaving) :
      Dispatch.Step cfg s (.raise c f) ⟨s.student, update s.phase c f, none⟩
  | yield {s c times q t} (raised : s.phase c = .yielding)
      (ok : s.student.yield cfg times c = some (q, t)) :
      Dispatch.Step cfg s (.yield c) ⟨t, update s.phase c .settling, s.forcing⟩
  | terminate {s c times q t} (raised : s.phase c = .terminating)
      (ok : s.student.terminate cfg times c = some (q, t)) :
      Dispatch.Step cfg s (.terminate c) ⟨t, update s.phase c .settling, s.forcing⟩
  | tick {s c p} (quiet : s.forcing = none) (current : s.student.current c = some p)
      (left : s.student.remaining p ≠ 0) :
      Dispatch.Step cfg s (.tick c) ⟨s.student.tick p, s.phase, none⟩
  | settle {s c p} (scheduled : s.phase c = .settling) (current : s.student.current c = some p) :
      Dispatch.Step cfg s (.settle c) ⟨s.student, update s.phase c .running, s.forcing⟩
  | pickUp {s c times q t} (hc : c < cfg.cpuCount) (scheduled : s.phase c = .settling)
      (free : s.student.current c = none) (ok : s.student.idle cfg times c = some (q, t)) :
      Dispatch.Step cfg s (.pickUp c) ⟨t, update s.phase c .settling, s.forcing⟩

structure Dispatch.Start (s : Dispatch) : Prop where
  head : s.student.head = none
  tail : s.student.tail = none
  next : ∀ p, s.student.next p = none
  current : ∀ c, s.student.current c = none
  phase : ∀ c, s.phase c = .settling
  quiet : s.forcing = none

/-- The states of runs whose events all meet `ok`. -/
inductive Dispatch.Run (cfg : Config) (ok : Dispatch → Event → Prop) : Dispatch → Prop
  | start {s} : s.Start → Dispatch.Run cfg ok s
  | next {s e t} : Dispatch.Run cfg ok s → ok s e → Dispatch.Step cfg s e t → Dispatch.Run cfg ok t

/-- The CPU has a process that is not about to leave it. -/
def Dispatch.Keeps (s : Dispatch) (c p : Nat) : Prop :=
  s.student.current c = some p ∧ ¬(s.phase c).Leaving

/-- The CPU will take the next process from the queue. -/
def Dispatch.Vacant (s : Dispatch) (c : Nat) : Prop :=
  s.student.current c = none ∨ (s.phase c).Leaving

instance (s : Dispatch) (c : Nat) : Decidable (s.Vacant c) := inferInstanceAs (Decidable (_ ∨ _))

def Dispatch.vacant (cfg : Config) (s : Dispatch) : Nat :=
  ((Finset.range cfg.cpuCount).filter s.Vacant).card

/-- How many of `xs` have less than `time` remaining. -/
def shorter (s : Student) (xs : List Nat) (time : Nat) : Nat :=
  xs.countP (fun q => s.remaining q < time)

/-- `wake_up` will preempt nothing: it finds an idle CPU, or the process with the most time
remaining is about to leave its CPU. -/
def Dispatch.PassesOver (cfg : Config) (s : Dispatch) : Prop :=
  (∃ c < cfg.cpuCount, s.student.current c = none) ∨
  ∃ v q, Largest cfg s.student s.student.remaining v q ∧ (s.phase v).Leaving

/-- A `wake_up` that will preempt nothing adds a process shorter than a running one only if the
vacant CPUs outnumber the ready processes shorter than that one. A preemption that comes before the
thread of its CPU has set `CPU_RUNNING` finds no more of them than vacant CPUs. -/
def Timely (cfg : Config) (s : Dispatch) : Event → Prop
  | .wakeUp p => s.PassesOver cfg →
      ∀ xs, Chain s.student.next s.student.head xs → ∀ c < cfg.cpuCount, ∀ q, s.Keeps c q →
        s.student.remaining p < s.student.remaining q →
        shorter s.student xs (s.student.remaining q) < s.vacant cfg
  | .forcePreempt v => s.phase v = .settling →
      ∀ xs, Chain s.student.next s.student.head xs → ∀ c < cfg.cpuCount, ∀ q, s.Keeps c q →
        shorter s.student xs (s.student.remaining q) ≤ s.vacant cfg
  | _ => True

/-- If every CPU has a process and no handler is in progress or about to be called, no ready
process has less time remaining than a running one. -/
def ShortestRun (cfg : Config) (s : Dispatch) : Prop :=
  s.forcing = none → (∀ c < cfg.cpuCount, ¬s.Vacant c) →
    ∀ xs, Chain s.student.next s.student.head xs → ∀ c < cfg.cpuCount, ∀ p,
      s.student.current c = some p → ∀ q ∈ xs, s.student.remaining p ≤ s.student.remaining q

/-- No more ready processes are shorter than a running one than there are vacant CPUs
to take them. While a preemption is outstanding there may be one more, if the
victim has as much time remaining as the running one. -/
structure Balanced (cfg : Config) (s : Dispatch) (xs : List Nat) : Prop where
  assigned : Assigned cfg (fun _ => True) s.student xs
  busy : ∀ {c}, s.phase c ≠ .settling → s.student.current c ≠ none
  few : ∀ {c p}, s.Keeps c p →
    shorter s.student xs (s.student.remaining p) ≤ s.vacant cfg ∨
    shorter s.student xs (s.student.remaining p) = s.vacant cfg + 1 ∧
      ∃ v q, s.forcing = some v ∧ s.Keeps v q ∧ s.student.remaining p ≤ s.student.remaining q

section

variable {cfg : Config} {s t : Student} {xs ys before after : List Nat} {c p : Nat}
  {time : Nat} {process : Option Nat}

theorem shorter_congr (same : ∀ r, t.remaining r = s.remaining r) :
    shorter t xs time = shorter s xs time := by
  simp only [shorter, same]

theorem shorter_split : shorter s (before ++ p :: after) time =
    shorter s (before ++ after) time + if s.remaining p < time then 1 else 0 := by
  simp only [shorter, List.countP_append, List.countP_cons, decide_eq_true_eq]
  omega

theorem shorter_append : shorter s (xs ++ [p]) time =
    shorter s xs time + if s.remaining p < time then 1 else 0 := by
  simp [shorter, List.countP_append, List.countP_cons]

theorem shorter_pos (h : 0 < shorter s xs time) : ∃ q ∈ xs, s.remaining q < time := by
  simpa [shorter, List.countP_pos_iff] using h

theorem shorter_zero (h : ∀ q ∈ xs, time ≤ s.remaining q) : shorter s xs time = 0 := by
  rw [shorter, List.countP_eq_zero]
  intro q hq
  simpa using h q hq

/-- Taking the shortest leaves one less that is shorter, if there was any. -/
theorem shorter_taken (least : ∀ r ∈ before ++ p :: after, s.remaining p ≤ s.remaining r) :
    shorter s (before ++ after) time ≤ shorter s (before ++ p :: after) time - 1 := by
  have split : shorter s (before ++ p :: after) time = _ := shorter_split
  by_cases some : 0 < shorter s (before ++ p :: after) time
  · obtain ⟨q, hq, lt⟩ := shorter_pos some
    rw [if_pos (Nat.lt_of_le_of_lt (least q hq) lt)] at split
    omega
  · omega

/-- After `schedule` a running process has nothing shorter in the queue, or it ran
before and the queue has lost one that was shorter. -/
theorem Took.shorter (took : Took cfg s xs process ys) (srtf : cfg.schedulerAlgorithm = .srtf)
    (given : Given s c process t) {d q : Nat} (current : t.current d = some q) :
    shorter t ys (t.remaining q) = 0 ∨ d ≠ c ∧ s.current d = some q ∧
      shorter t ys (t.remaining q) ≤ shorter s xs (s.remaining q) - 1 := by
  rw [shorter_congr given.remaining, given.remaining]
  cases took with
  | nothing => exact Or.inl rfl
  | @one before p after least =>
    rw [given.current] at current
    by_cases same : d = c
    · rw [if_pos same] at current
      obtain rfl := Option.some.inj current
      refine Or.inl (shorter_zero (fun r hr => least srtf r ?_))
      simp only [List.mem_append, List.mem_cons] at hr ⊢
      grind
    · rw [if_neg same] at current
      exact Or.inr ⟨same, current, shorter_taken (least srtf)⟩

/-! ## The victim of `wake_up` -/

/-- Only one CPU is the first whose process has the largest key. -/
theorem Largest.unique {key : Nat → Nat} {v w q r : Nat} (left : Largest cfg s key v q)
    (right : Largest cfg s key w r) : v = w := by
  rcases Nat.lt_trichotomy v w with lt | same | gt
  · have less := right.first v lt q left.running
    have most := left.most w right.inside r right.running
    omega
  · exact same
  · have less := left.first w gt r right.running
    have most := right.most v left.inside q left.running
    omega

/-- No victim if a CPU is idle; else the running process with the most time
remaining, if that is more than the new one has. -/
theorem victimCpu_srtf (srtf : cfg.schedulerAlgorithm = .srtf) (times : Nat → UInt32) :
    (∃ c < cfg.cpuCount, s.current c = none) ∧ s.victimCpu cfg times p = none ∨
    (∀ c < cfg.cpuCount, ∃ q, s.current c = some q ∧ s.remaining q ≤ s.remaining p) ∧
      s.victimCpu cfg times p = none ∨
    (∀ c < cfg.cpuCount, s.current c ≠ none) ∧
      ∃ v w, s.victimCpu cfg times p = some v ∧ Largest cfg s s.remaining v w := by
  cases victim : s.victimCpu cfg times p with
  | none =>
    by_cases free : ∃ c < cfg.cpuCount, s.current c = none
    · exact Or.inl ⟨free, rfl⟩
    · refine Or.inr (Or.inl ⟨fun c hc => ?_, rfl⟩)
      obtain ⟨q, current⟩ := Option.ne_none_iff_exists'.mp fun idle => free ⟨c, hc, idle⟩
      refine ⟨q, current, Nat.le_of_not_lt fun more => ?_⟩
      have busy : ∀ c < cfg.cpuCount, s.current c ≠ none := fun c hc idle => free ⟨c, hc, idle⟩
      obtain ⟨v, forces⟩ := (victimCpu_shortest srtf times).2 busy ⟨c, hc, q, current, more⟩
      rw [victim] at forces
      cases forces
  | some v =>
    obtain ⟨busy, w, largest, -⟩ := (victimCpu_shortest srtf times).1 v victim
    exact Or.inr (Or.inr ⟨busy, v, w, rfl, largest⟩)

theorem shorter_mono {later : Nat} (le : time ≤ later) : shorter s xs time ≤ shorter s xs later :=
  List.countP_mono_left (fun _ _ h => decide_eq_true (Nat.lt_of_lt_of_le (of_decide_eq_true h) le))

theorem remaining_tick {r : Nat} (left : s.remaining p ≠ 0) :
    (s.tick p).remaining r = if r = p then s.remaining r - 1 else s.remaining r := by
  simp only [Student.tick, Student.remaining, modify_pcbs]
  split
  · rename_i same
    subst same
    have pos : (1 : UInt32) ≤ (s.pcbs r).totalTimeRemaining := by
      rw [UInt32.le_iff_toNat_le]
      exact Nat.one_le_iff_ne_zero.mpr left
    simp [UInt32.toNat_sub_of_le _ _ pos]
  · rfl

theorem state_tick {r : Nat} : ((s.tick p).pcbs r).state = (s.pcbs r).state := by
  simp only [Student.tick, modify_pcbs]
  split <;> rfl

theorem next_tick : (s.tick p).next = s.next := by
  funext r
  simp only [Student.tick, Student.next, modify_pcbs]
  split <;> rfl

theorem Assigned.tick {B : Nat → Prop} (a : Assigned cfg B s xs) :
    Assigned cfg B (s.tick p) xs where
  queued := a.queued.congr next_tick rfl rfl
  ready r hr := state_tick.trans (a.ready r hr)
  inTable := a.inTable
  running hb current := state_tick.trans (a.running hb current)
  alone := a.alone
  runs := a.runs

end

/-! ## Vacant CPUs -/

section

variable {cfg : Config} {s t : Dispatch} {c p : Nat}

theorem vacant_eq (same : ∀ d, t.Vacant d ↔ s.Vacant d) : t.vacant cfg = s.vacant cfg :=
  congrArg Finset.card (Finset.filter_congr fun d _ => same d)

theorem vacant_congr (current : t.student.current = s.student.current) (phase : t.phase = s.phase) :
    t.vacant cfg = s.vacant cfg :=
  vacant_eq fun d => by rw [Dispatch.Vacant, Dispatch.Vacant, current, phase]

/-- Only the CPU `c` may be vacant in one state and not in the other. -/
theorem vacant_move (hc : c < cfg.cpuCount) (same : ∀ d, d ≠ c → (t.Vacant d ↔ s.Vacant d)) :
    t.vacant cfg + (if s.Vacant c then 1 else 0) =
      s.vacant cfg + if t.Vacant c then 1 else 0 := by
  simp only [Dispatch.vacant, Finset.card_filter]
  exact sum_move hc fun d ne => if_congr (same d ne) rfl rfl

theorem vacant_pos : 0 < s.vacant cfg ↔ ∃ c < cfg.cpuCount, s.Vacant c := by
  simp [Dispatch.vacant, Finset.card_pos, Finset.Nonempty]

theorem Dispatch.Keeps.other (keeps : s.Keeps c p) : ¬s.Vacant c := by
  rintro (free | leaving)
  · exact absurd (keeps.1.symm.trans free) (Option.some_ne_none p)
  · exact keeps.2 leaving

end

/-! ## One event -/

section

variable {cfg : Config} {s t : Dispatch} {u v : Student} {xs ys : List Nat} {c p : Nat}
  {times : Nat → UInt32} {q : Option Nat}

theorem Balanced.of_le (a : Assigned cfg (fun _ => True) s.student xs)
    (busy : ∀ {c}, s.phase c ≠ .settling → s.student.current c ≠ none)
    (le : ∀ {c p}, s.Keeps c p →
      shorter s.student xs (s.student.remaining p) ≤ s.vacant cfg) : Balanced cfg s xs :=
  ⟨a, busy, fun keeps => Or.inl (le keeps)⟩

theorem Balanced.quiet (b : Balanced cfg s xs) (quiet : s.forcing = none) (keeps : s.Keeps c p) :
    shorter s.student xs (s.student.remaining p) ≤ s.vacant cfg := by
  rcases b.few keeps with le | ⟨_, v, _, forced, _⟩
  · exact le
  · exact absurd (forced.symm.trans quiet) (Option.some_ne_none v)

theorem Assigned.scheduled (a : Assigned cfg (· ≠ c) u xs) (hc : c < cfg.cpuCount)
    (ok : u.schedule cfg times c = some (q, v)) :
    ∃ ys, Assigned cfg (fun _ => True) v ys ∧ Given u c q v ∧ Took cfg u xs q ys := by
  obtain ⟨process, t, ys, run, assigned, given, took⟩ := a.schedule times hc
  obtain ⟨rfl, rfl⟩ := Prod.mk.inj (Option.some.inj (ok.symm.trans run))
  exact ⟨ys, assigned, given, took⟩

/-- The CPU `c` has scheduled, and the others are as they were. -/
theorem scheduled_keeps {forcing : Option Nat} (others : u.current = s.student.current)
    (given : Given u c q v) {d r : Nat} (ne : d ≠ c) :
    (Dispatch.mk v (update s.phase c .settling) forcing).Keeps d r ↔ s.Keeps d r := by
  unfold Dispatch.Keeps
  dsimp only
  rw [given.current, if_neg ne, others, update_of_ne ne]

theorem scheduled_vacant (forcing : Option Nat) (others : u.current = s.student.current)
    (given : Given u c q v) (hc : c < cfg.cpuCount) :
    (Dispatch.mk v (update s.phase c .settling) forcing).vacant cfg +
      (if s.Vacant c then 1 else 0) = s.vacant cfg + if q = none then 1 else 0 := by
  have moved := vacant_move (s := s) (t := ⟨v, update s.phase c .settling, forcing⟩) hc (by
    intro d ne
    unfold Dispatch.Vacant
    dsimp only
    rw [given.current, if_neg ne, others, update_of_ne ne])
  have here : (Dispatch.mk v (update s.phase c .settling) forcing).Vacant c ↔ q = none := by
    unfold Dispatch.Vacant CpuPhase.Leaving
    dsimp only
    rw [given.current, if_pos rfl, update_self]
    simp
  rwa [if_congr here rfl rfl] at moved

theorem scheduled_busy {forcing : Option Nat} (b : Balanced cfg s xs)
    (others : u.current = s.student.current) (given : Given u c q v) {d : Nat}
    (phase : (Dispatch.mk v (update s.phase c .settling) forcing).phase d ≠ .settling) :
    v.current d ≠ none := by
  have ne : d ≠ c := by
    rintro rfl
    exact phase (update_self ..)
  dsimp only at phase
  rw [update_of_ne ne] at phase
  rw [given.current, if_neg ne, others]
  exact b.busy phase

/-- A vacant CPU takes the shortest of the ready processes. -/
theorem Balanced.take (srtf : cfg.schedulerAlgorithm = .srtf) (b : Balanced cfg s xs)
    (hc : c < cfg.cpuCount) (vacant : s.Vacant c)
    (same : ∀ r, u.remaining r = s.student.remaining r)
    (others : u.current = s.student.current) (assigned : Assigned cfg (· ≠ c) u xs)
    (ok : u.schedule cfg times c = some (q, v)) :
    ∃ ys, Balanced cfg ⟨v, update s.phase c .settling, s.forcing⟩ ys := by
  obtain ⟨ys, assigned, given, took⟩ := assigned.scheduled hc ok
  have moved := scheduled_vacant s.forcing others given hc
  rw [if_pos vacant] at moved
  refine ⟨ys, assigned, fun phase => scheduled_busy b others given phase, ?_⟩
  intro d r keeps
  rcases took.shorter srtf given keeps.1 with zero | ⟨ne, _, le⟩
  · exact Or.inl (Nat.le_trans (Nat.le_of_eq zero) (Nat.zero_le _))
  · have before := (scheduled_keeps (s := s) others given ne).mp keeps
    rw [shorter_congr same, same] at le
    dsimp only
    rcases b.few before with few | ⟨many, w, x, forced, victim, longer⟩
    · left
      split at moved <;> omega
    · have apart : w ≠ c := fun e => victim.other (e ▸ vacant)
      by_cases bound : shorter v ys (v.remaining r) ≤
        (Dispatch.mk v (update s.phase c .settling) s.forcing).vacant cfg
      · exact Or.inl bound
      · refine Or.inr ⟨by split at moved <;> omega, w, x, forced, ?_, ?_⟩
        · exact (scheduled_keeps others given apart).mpr victim
        · rw [given.remaining, given.remaining, same, same]
          exact longer

/-- A process leaves its CPU. -/
theorem Balanced.replace {state : ProcessState} (srtf : cfg.schedulerAlgorithm = .srtf)
    (b : Balanced cfg s xs) (leaving : (s.phase c).Leaving) (current : s.student.current c = some p)
    (ok : (s.student.setState p state).schedule cfg times c = some (q, v)) :
    ∃ ys, Balanced cfg ⟨v, update s.phase c .settling, s.forcing⟩ ys :=
  b.take srtf (b.assigned.runs trivial current).2 (.inr leaving) (fun _ => remaining_setState _) rfl
    (b.assigned.vacate current _) ok

/-- An idle CPU takes the shortest. -/
theorem Balanced.pickUp (srtf : cfg.schedulerAlgorithm = .srtf) (b : Balanced cfg s xs)
    (hc : c < cfg.cpuCount) (free : s.student.current c = none)
    (ok : s.student.idle cfg times c = some (q, v)) :
    ∃ ys, Balanced cfg ⟨v, update s.phase c .settling, s.forcing⟩ ys := by
  simp only [Student.idle] at ok
  split at ok
  · exact absurd ok.symm (Option.some_ne_none _)
  · exact b.take srtf hc (.inl free) (fun _ => rfl) rfl (b.assigned.mono fun _ => trivial) ok

/-- `preempt`: the process goes back into the queue before the shortest is taken. -/
theorem Balanced.preempt {time : UInt32} (srtf : cfg.schedulerAlgorithm = .srtf)
    (b : Balanced cfg s xs) (forced : s.forcing = some c) (runs : s.phase c = .running)
    (ok : s.student.preempt cfg time times c = some (q, v)) :
    ∃ ys, Balanced cfg ⟨v, update s.phase c .settling, none⟩ ys := by
  obtain ⟨p, current⟩ := Option.ne_none_iff_exists'.mp (b.busy (c := c) (by simp [runs]))
  have hc := (b.assigned.runs trivial current).2
  have keeps : s.Keeps c p := ⟨current, by simp [CpuPhase.Leaving, runs]⟩
  obtain ⟨u, enqueued, ready, links⟩ := (b.assigned.vacate current _).enqueue time
    ((state_setState _).trans (if_pos rfl)) (b.assigned.runs trivial current).1
    (b.assigned.notQueued trivial current)
  simp only [Student.preempt, current, Option.bind_eq_bind, Option.bind_some, enqueued] at ok
  obtain ⟨ys, assigned, given, took⟩ := ready.scheduled hc ok
  have same : ∀ r, u.remaining r = s.student.remaining r :=
    fun r => (links.remaining r).trans (remaining_setState _)
  have others : u.current = s.student.current := links.current
  have moved := scheduled_vacant none others given hc
  rw [if_neg keeps.other] at moved
  refine ⟨ys, .of_le assigned (fun phase => scheduled_busy b others given phase) ?_⟩
  intro d r running
  rcases took.shorter srtf given running.1 with zero | ⟨ne, _, le⟩
  · exact Nat.le_trans (Nat.le_of_eq zero) (Nat.zero_le _)
  · have before := (scheduled_keeps (s := s) others given ne).mp running
    rw [shorter_congr same, shorter_append, same] at le
    dsimp only
    rcases b.few before with few | ⟨many, w, x, victim, holds, longer⟩
    · split at le <;> omega
    · -- the process that is put back is at least as long
      obtain rfl := Option.some.inj (forced.symm.trans victim)
      obtain rfl := Option.some.inj (current.symm.trans holds.1)
      rw [if_neg (Nat.not_lt.mpr longer)] at le
      omega

/-- The state after `wake_up`, which has put the process into the queue. -/
theorem Balanced.woken {time : UInt32} (b : Balanced cfg s xs) (hp : p < cfg.processCount)
    (waits : (s.student.pcbs p).state = .new ∨ (s.student.pcbs p).state = .waiting)
    (ok : s.student.wakeUp cfg time times p = some (q, v)) :
    Assigned cfg (fun _ => True) v (xs ++ [p]) ∧ (∀ r, v.remaining r = s.student.remaining r) ∧
      v.current = s.student.current ∧ q = v.victimCpu cfg times p := by
  have idle : (s.student.pcbs p).state ≠ .ready := by
    rcases waits with state | state <;> simp [state]
  have stopped : (s.student.pcbs p).state ≠ .running := by
    rcases waits with state | state <;> simp [state]
  obtain ⟨u, enqueued, assigned, links⟩ := (b.assigned.awaken idle stopped).enqueue time
    ((state_setState _).trans (if_pos rfl)) hp (fun mem => idle (b.assigned.ready p mem))
  simp only [Student.wakeUp, Option.bind_eq_bind, Option.bind_some, enqueued, Option.pure_def,
    Option.some.injEq, Prod.mk.injEq] at ok
  obtain ⟨rfl, rfl⟩ := ok
  exact ⟨assigned, fun r => (links.remaining r).trans (remaining_setState _), links.current, rfl⟩

theorem Largest.congr {w x : Nat} (same : ∀ r, v.remaining r = u.remaining r)
    (others : v.current = u.current) (largest : Largest cfg v v.remaining w x) :
    Largest cfg u u.remaining w x := by
  obtain ⟨inside, running, most, first⟩ := largest
  simp only [same, others] at running most first
  exact ⟨inside, running, most, first⟩

/-- `wake_up` will preempt nothing, or finds nothing longer than the new process, or the longest. -/
theorem Balanced.wakeUp {time : UInt32} (srtf : cfg.schedulerAlgorithm = .srtf)
    (b : Balanced cfg s xs) (quiet : s.forcing = none) (hp : p < cfg.processCount)
    (waits : (s.student.pcbs p).state = .new ∨ (s.student.pcbs p).state = .waiting)
    (ok : s.student.wakeUp cfg time times p = some (q, v)) (timely : Timely cfg s (.wakeUp p)) :
    ∃ ys, Balanced cfg ⟨v, s.phase, q⟩ ys := by
  obtain ⟨assigned, same, others, isVictim⟩ := b.woken hp waits ok
  have more : ∀ r, shorter v (xs ++ [p]) (v.remaining r) =
    shorter s.student xs (s.student.remaining r) +
      if s.student.remaining p < s.student.remaining r then 1 else 0 := by
    intro r
    rw [shorter_congr same, shorter_append, same]
  have keeps : ∀ {d r}, (Dispatch.mk v s.phase q).Keeps d r → s.Keeps d r := by
    intro d r keeps
    exact ⟨others ▸ keeps.1, keeps.2⟩
  have vacant : (Dispatch.mk v s.phase q).vacant cfg = s.vacant cfg := vacant_congr others rfl
  have busy : ∀ {d}, (Dispatch.mk v s.phase q).phase d ≠ .settling → v.current d ≠ none := by
    intro d phase
    rw [others]
    exact b.busy phase
  -- nothing is preempted, but there is room
  have passes : s.PassesOver cfg → Balanced cfg ⟨v, s.phase, q⟩ (xs ++ [p]) := by
    intro passes
    refine .of_le assigned busy (fun {c r} running => ?_)
    dsimp only
    rw [more, vacant]
    have bound := b.quiet quiet (keeps running)
    split
    · rename_i lt
      exact timely passes xs b.assigned.queued.chain c
        (b.assigned.runs trivial (keeps running).1).2 r (keeps running) lt
    · exact bound
  refine ⟨xs ++ [p], ?_⟩
  rcases victimCpu_srtf (s := v) (p := p) srtf times with ⟨⟨d, hd, free⟩, _⟩ | ⟨longest, _⟩ |
    ⟨_, w, x, victim, largest⟩
  · exact passes (.inl ⟨d, hd, others ▸ free⟩)
  · refine .of_le assigned busy (fun {c r} running => ?_)
    dsimp only
    obtain ⟨r', running', le⟩ := longest c (assigned.runs trivial running.1).2
    obtain rfl := Option.some.inj (running.1.symm.trans running')
    rw [same, same] at le
    rw [more, vacant, if_neg (Nat.not_lt.mpr le)]
    exact b.quiet quiet (keeps running)
  · by_cases leaving : (s.phase w).Leaving
    · exact passes (.inr ⟨w, x, largest.congr same others, leaving⟩)
    · refine ⟨assigned, busy, ?_⟩
      intro c r running
      dsimp only
      have le := largest.most c (assigned.runs trivial running.1).2 r running.1
      rw [more, vacant]
      have bound := b.quiet quiet (keeps running)
      split
      · rcases Nat.lt_or_ge (shorter s.student xs (s.student.remaining r)) (s.vacant cfg) with
          lt | ge
        · exact Or.inl lt
        · exact Or.inr ⟨by omega, w, x, isVictim.trans victim, ⟨largest.running, leaving⟩, le⟩
      · exact Or.inl bound

/-- `force_preempt` does nothing. -/
theorem Balanced.forceNothing (b : Balanced cfg s xs) (forced : s.forcing = some c)
    (other : s.phase c ≠ .running) (timely : Timely cfg s (.forcePreempt c)) :
    Balanced cfg ⟨s.student, s.phase, none⟩ xs := by
  refine .of_le b.assigned b.busy (fun {d r} keeps => ?_)
  have vacant : (Dispatch.mk s.student s.phase none).vacant cfg = s.vacant cfg :=
    vacant_congr rfl rfl
  rw [vacant]
  rcases b.few (c := d) (p := r) keeps with le | ⟨_, w, x, victim, ⟨_, stays⟩, _⟩
  · exact le
  · obtain rfl := Option.some.inj (forced.symm.trans victim)
    have scheduled : s.phase c = .settling := by
      unfold CpuPhase.Leaving at stays
      cases phase : s.phase c <;> simp_all
    exact timely scheduled xs b.assigned.queued.chain d (b.assigned.runs trivial keeps.1).2 r keeps

theorem Balanced.raise {f : CpuPhase} (b : Balanced cfg s xs) (quiet : s.forcing = none)
    (runs : s.phase c = .running) :
    Balanced cfg ⟨s.student, update s.phase c f, none⟩ xs := by
  have present := b.busy (c := c) (by simp [runs])
  obtain ⟨p, current⟩ := Option.ne_none_iff_exists'.mp present
  have keeps : s.Keeps c p := ⟨current, by simp [CpuPhase.Leaving, runs]⟩
  have moved := vacant_move (s := s) (t := ⟨s.student, update s.phase c f, none⟩)
    (b.assigned.runs trivial current).2 (by
      intro d ne
      unfold Dispatch.Vacant
      dsimp only
      rw [update_of_ne ne])
  rw [if_neg keeps.other] at moved
  refine .of_le b.assigned (fun {d} phase => ?_) (fun {d r} running => ?_)
  · by_cases here : d = c
    · exact here ▸ present
    · dsimp only at phase
      rw [update_of_ne here] at phase
      exact b.busy phase
  · have before : s.Keeps d r := by
      by_cases here : d = c
      · subst here
        obtain rfl := Option.some.inj (current.symm.trans running.1)
        exact keeps
      · refine ⟨running.1, ?_⟩
        have stays := running.2
        dsimp only at stays
        rwa [update_of_ne here] at stays
    have bound := b.quiet quiet before
    dsimp only at moved ⊢
    omega

theorem Balanced.settle (b : Balanced cfg s xs) (scheduled : s.phase c = .settling)
    (current : s.student.current c = some p) :
    Balanced cfg ⟨s.student, update s.phase c .running, s.forcing⟩ xs := by
  have stays : ∀ d, (update s.phase c .running d).Leaving ↔ (s.phase d).Leaving := by
    intro d
    by_cases here : d = c
    · subst here
      simp [CpuPhase.Leaving, scheduled]
    · rw [update_of_ne here]
  have keeps : ∀ {d r}, (Dispatch.mk s.student (update s.phase c .running) s.forcing).Keeps d r ↔
      s.Keeps d r := fun {d r} => and_congr Iff.rfl (not_congr (stays d))
  have vacant : (Dispatch.mk s.student (update s.phase c .running) s.forcing).vacant cfg =
      s.vacant cfg := vacant_eq fun d => or_congr Iff.rfl (stays d)
  refine ⟨b.assigned, fun {d} phase => ?_, fun {d r} running => ?_⟩
  · by_cases here : d = c
    · rw [here, current]
      exact Option.some_ne_none p
    · dsimp only at phase
      rw [update_of_ne here] at phase
      exact b.busy phase
  · rw [vacant]
    rcases b.few (keeps.mp running) with le | ⟨many, w, x, forced, victim, longer⟩
    · exact Or.inl le
    · exact Or.inr ⟨many, w, x, forced, keeps.mpr victim, longer⟩

theorem Balanced.tick (b : Balanced cfg s xs) (quiet : s.forcing = none)
    (current : s.student.current c = some p) (left : s.student.remaining p ≠ 0) :
    Balanced cfg ⟨s.student.tick p, s.phase, none⟩ xs := by
  have out := b.assigned.notQueued trivial current
  have same : ∀ time, shorter (s.student.tick p) xs time = shorter s.student xs time := by
    intro time
    refine List.countP_congr (fun r hr => ?_)
    have ne : r ≠ p := fun e => out (e ▸ hr)
    rw [remaining_tick left, if_neg ne]
  refine .of_le b.assigned.tick b.busy (fun {d r} running => ?_)
  have keeps : s.Keeps d r := running
  have vacant : (Dispatch.mk (s.student.tick p) s.phase none).vacant cfg = s.vacant cfg :=
    vacant_congr rfl rfl
  have le : (s.student.tick p).remaining r ≤ s.student.remaining r := by
    rw [remaining_tick left]
    split <;> omega
  dsimp only
  rw [same, vacant]
  exact Nat.le_trans (shorter_mono le) (b.quiet quiet keeps)

theorem Balanced.step {e : Event} (srtf : cfg.schedulerAlgorithm = .srtf) (b : Balanced cfg s xs)
    (timely : Timely cfg s e) (step : Dispatch.Step cfg s e t) : ∃ ys, Balanced cfg t ys := by
  cases step with
  | wakeUp quiet hp waits ok => exact b.wakeUp srtf quiet hp waits ok timely
  | forcePreempt forced runs ok => exact b.preempt srtf forced runs ok
  | forceNothing forced other => exact ⟨xs, b.forceNothing forced other timely⟩
  | raise quiet runs _ => exact ⟨xs, b.raise quiet runs⟩
  | @yield c _ _ _ raised ok =>
    obtain ⟨p, current⟩ := Option.ne_none_iff_exists'.mp (b.busy (c := c) (by simp [raised]))
    exact b.replace srtf (.inl raised) current (by simpa [Student.yield, current] using ok)
  | @terminate c _ _ _ raised ok =>
    obtain ⟨p, current⟩ := Option.ne_none_iff_exists'.mp (b.busy (c := c) (by simp [raised]))
    exact b.replace srtf (.inr raised) current (by simpa [Student.terminate, current] using ok)
  | tick quiet current left => exact ⟨xs, b.tick quiet current left⟩
  | settle scheduled current => exact ⟨xs, b.settle scheduled current⟩
  | pickUp hc _ free ok => exact b.pickUp srtf hc free ok

end

/-! ## Every run -/

section

variable {cfg : Config} {s t : Dispatch} {xs : List Nat}

theorem Balanced.start (start : s.Start) : Balanced cfg s [] := by
  have busy : ∀ {c p}, s.student.current c ≠ some p := by
    intro c p current
    exact absurd (current.symm.trans (start.current c)) (Option.some_ne_none p)
  refine .of_le ⟨⟨start.head, start.tail, fun p _ => start.next p⟩, ?_, ?_, ?_, ?_, ?_⟩ ?_ ?_
  · exact fun _ h => absurd h List.not_mem_nil
  · exact fun _ h => absurd h List.not_mem_nil
  · exact fun _ current => absurd current busy
  · exact fun _ _ current => absurd current busy
  · exact fun _ current => absurd current busy
  · exact fun {c} phase => absurd (start.phase c) phase
  · exact fun keeps => absurd keeps.1 busy

theorem Dispatch.Run.balanced (srtf : cfg.schedulerAlgorithm = .srtf)
    (run : Dispatch.Run cfg (Timely cfg) s) : ∃ xs, Balanced cfg s xs := by
  induction run with
  | start start => exact ⟨[], .start start⟩
  | next _ timely step ih =>
    obtain ⟨xs, b⟩ := ih
    exact b.step srtf timely step

theorem Balanced.shortestRun (b : Balanced cfg s xs) : ShortestRun cfg s := by
  intro quiet taken ys chain c hc p running q hq
  obtain rfl := chain.unique b.assigned.queued.chain
  have none : s.vacant cfg = 0 := by
    refine Nat.eq_zero_of_not_pos (fun pos => ?_)
    obtain ⟨d, hd, free⟩ := vacant_pos.mp pos
    exact taken d hd free
  have few := b.quiet quiet ⟨running, fun leaving => taken c hc (.inr leaving)⟩
  rw [none, Nat.le_zero, shorter, List.countP_eq_zero] at few
  simpa using few q hq

/-! ## Too many that are shorter -/

/-- The states that later events lead to. -/
def Dispatch.Leads (cfg : Config) : Dispatch → Dispatch → Prop :=
  Relation.ReflTransGen (fun s t => ∃ e, Dispatch.Step cfg s e t)

theorem Dispatch.Run.weaken {ok : Dispatch → Event → Prop} (run : Dispatch.Run cfg ok s) :
    Dispatch.Run cfg (fun _ _ => True) s := by
  induction run with
  | start start => exact .start start
  | next _ _ step ih => exact ih.next trivial step

theorem Dispatch.Run.leads (run : Dispatch.Run cfg (fun _ _ => True) s)
    (leads : Dispatch.Leads cfg s t) : Dispatch.Run cfg (fun _ _ => True) t := by
  induction leads with
  | refl => exact run
  | tail _ step ih =>
    obtain ⟨_, step⟩ := step
    exact ih.next trivial step

/-- A vacant CPU can take a process: it is idle, or its process leaves it. -/
theorem vacant_takes {d : Nat} (a : Assigned cfg (fun _ => True) s.student xs)
    (busy : ∀ {c}, s.phase c ≠ .settling → s.student.current c ≠ none) (hd : d < cfg.cpuCount)
    (vacant : s.Vacant d) (filled : xs ≠ []) :
    ∃ e u q v ys, Dispatch.Step cfg s e ⟨v, update s.phase d .settling, s.forcing⟩ ∧
      (∀ r, u.remaining r = s.student.remaining r) ∧ u.current = s.student.current ∧
      Assigned cfg (fun _ => True) v ys ∧ Given u d q v ∧ Took cfg u xs q ys := by
  by_cases free : s.student.current d = none
  · have scheduled : s.phase d = .settling := by
      by_contra phase
      exact busy phase free
    have full : ¬s.student.isEmpty = true := by
      rw [a.queued.isEmpty_iff]
      exact filled
    obtain ⟨q, v, ys, run, assigned, given, took⟩ :=
      (a.mono fun _ => trivial : Assigned cfg (· ≠ d) s.student xs).schedule (fun _ => 0) hd
    exact ⟨_, s.student, q, v, ys, .pickUp hd scheduled free ((if_neg full).trans run),
      fun _ => rfl, rfl, assigned, given, took⟩
  · obtain ⟨p, current⟩ := Option.ne_none_iff_exists'.mp free
    rcases vacant.resolve_left free with raised | raised
    · obtain ⟨q, v, ys, run, assigned, given, took⟩ :=
        (a.vacate current .waiting).schedule (fun _ => 0) hd
      exact ⟨_, _, q, v, ys, .yield raised (by simpa [Student.yield, current] using run),
        fun _ => remaining_setState _, rfl, assigned, given, took⟩
    · obtain ⟨q, v, ys, run, assigned, given, took⟩ :=
        (a.vacate current .terminated).schedule (fun _ => 0) hd
      exact ⟨_, _, q, v, ys, .terminate raised (by simpa [Student.terminate, current] using run),
        fun _ => remaining_setState _, rfl, assigned, given, took⟩

/-- With more shorter processes than vacant CPUs, one is left when they have all taken
theirs. -/
theorem left_behind {k c p : Nat} (a : Assigned cfg (fun _ => True) s.student xs)
    (busy : ∀ {c}, s.phase c ≠ .settling → s.student.current c ≠ none)
    (quiet : s.forcing = none) (vacant : s.vacant cfg = k) (keeps : s.Keeps c p)
    (many : k < shorter s.student xs (s.student.remaining p)) :
    ∃ t, Dispatch.Leads cfg s t ∧ ¬ShortestRun cfg t := by
  induction k generalizing s xs with
  | zero =>
    refine ⟨s, .refl, fun shortest => ?_⟩
    obtain ⟨q, hq, lt⟩ := shorter_pos many
    have taken : ∀ d < cfg.cpuCount, ¬s.Vacant d := by
      intro d hd free
      exact absurd (vacant_pos.mpr ⟨d, hd, free⟩) (Nat.not_lt.mpr (Nat.le_of_eq vacant))
    have le := shortest quiet taken xs a.queued.chain c (a.runs trivial keeps.1).2 p keeps.1 q hq
    omega
  | succ k ih =>
    obtain ⟨d, hd, free⟩ := vacant_pos.mp (Nat.lt_of_lt_of_eq (Nat.succ_pos k) vacant.symm)
    have filled : xs ≠ [] := by
      rintro rfl
      exact absurd many (Nat.not_lt_zero _)
    obtain ⟨e, u, q, v, ys, step, same, others, assigned, given, took⟩ :=
      vacant_takes a busy hd free filled
    have moved := scheduled_vacant s.forcing others given hd
    have ne : c ≠ d := by
      rintro rfl
      exact keeps.other free
    rw [if_pos free] at moved
    have still : ∀ {c}, (update s.phase d .settling) c ≠ .settling → v.current c ≠ none := by
      intro c phase
      have ne : c ≠ d := by
        rintro rfl
        exact phase (update_self ..)
      rw [update_of_ne ne] at phase
      rw [given.current, if_neg ne, others]
      exact busy phase
    cases took with
    | nothing => exact absurd rfl filled
    | @one before r after =>
      obtain ⟨t, leads, broken⟩ := ih (s := ⟨v, update s.phase d .settling, s.forcing⟩) assigned
        still quiet (by simpa [vacant] using moved)
        ((scheduled_keeps others given ne).mpr keeps) (by
        dsimp only
        rw [shorter_congr given.remaining, given.remaining, shorter_congr same, same]
        rw [shorter_split] at many
        split at many <;> omega)
      exact ⟨t, leads.head ⟨_, step⟩, broken⟩

/-- An event that is not timely can end with a ready process shorter than a running one. -/
theorem untimely_breaks {e : Event} (srtf : cfg.schedulerAlgorithm = .srtf)
    (run : Dispatch.Run cfg (Timely cfg) s) (step : Dispatch.Step cfg s e t)
    (late : ¬Timely cfg s e) : ∃ u, Dispatch.Leads cfg s u ∧ ¬ShortestRun cfg u := by
  obtain ⟨xs, b⟩ := run.balanced srtf
  cases step with
  | @wakeUp p time times victim v quiet hp waits ok =>
    simp only [Timely, Classical.not_imp, not_forall, Nat.not_lt] at late
    obtain ⟨passes, ys, chain, c, hc, q, keeps, lt, many⟩ := late
    obtain rfl := chain.unique b.assigned.queued.chain
    obtain ⟨assigned, same, others, isVictim⟩ := b.woken hp waits ok
    have busy : ∀ {d}, s.phase d ≠ .settling → v.current d ≠ none := by
      intro d phase
      rw [others]
      exact b.busy phase
    obtain ⟨u, leads, broken⟩ := left_behind (s := ⟨v, s.phase, none⟩) (k := s.vacant cfg) assigned
      busy rfl (vacant_congr others rfl) ⟨others ▸ keeps.1, keeps.2⟩ (by
      dsimp only
      rw [shorter_congr same, shorter_append, same, if_pos lt]
      omega)
    have woken := @Dispatch.Step.wakeUp cfg _ _ time times _ _ quiet hp waits ok
    cases forcing : victim with
    | none =>
      subst forcing
      exact ⟨u, leads.head ⟨_, woken⟩, broken⟩
    | some w =>
      -- the victim is about to leave its CPU
      subst forcing
      have other : s.phase w ≠ .running := by
        rcases victimCpu_srtf (s := v) (p := p) srtf times with ⟨_, nothing⟩ | ⟨_, nothing⟩ |
          ⟨taken, w', x, isW, largest⟩
        · cases isVictim.trans nothing
        · cases isVictim.trans nothing
        · obtain rfl := Option.some.inj (isVictim.trans isW)
          rcases passes with ⟨d, hd, free⟩ | ⟨d, y, largest', leaving⟩
          · exact absurd (others ▸ free) (taken d hd)
          · obtain rfl := largest'.unique (largest.congr same others)
            rcases leaving with phase | phase <;> simp [phase]
      have drop : Dispatch.Step cfg ⟨v, s.phase, some w⟩ (.forcePreempt w) ⟨v, s.phase, none⟩ :=
        .forceNothing rfl other
      exact ⟨u, (leads.head ⟨_, drop⟩).head ⟨_, woken⟩, broken⟩
  | @forcePreempt c _ _ _ _ _ runs _ =>
    refine absurd (fun scheduled => ?_) late
    rw [runs] at scheduled
    cases scheduled
  | @forceNothing w forced other =>
    simp only [Timely, Classical.not_imp, not_forall, Nat.not_le] at late
    obtain ⟨_, ys, chain, c, _, q, keeps, many⟩ := late
    obtain rfl := chain.unique b.assigned.queued.chain
    obtain ⟨u, leads, broken⟩ := left_behind (s := ⟨s.student, s.phase, none⟩) b.assigned b.busy rfl
      (vacant_congr rfl rfl) keeps many
    exact ⟨u, leads.head ⟨_, .forceNothing forced other⟩, broken⟩
  | raise | yield | terminate | tick | settle | pickUp => exact absurd trivial late

end

/-! ## Small machines -/

/-- Two CPUs and three processes. -/
def shortestFirst : Config := ⟨2, 3, .srtf, 0, -1⟩

/-- Nothing has been woken; the processes have 10, 5 and 3 remaining. -/
def threeNew : Dispatch where
  student := ⟨fun p => ⟨0, .new, none, 0, 0, if p = 0 then 10 else if p = 1 then 5 else 3⟩, none,
    none, fun _ => none⟩
  phase := fun _ => .settling
  forcing := none

theorem threeNew_start : threeNew.Start :=
  ⟨rfl, rfl, fun _ => rfl, fun _ => rfl, fun _ => rfl, rfl⟩

/-- A wake-up that finds the queue empty and a CPU idle is timely. -/
theorem timely_empty {cfg : Config} {s : Dispatch} {p : Nat} (empty : s.student.head = none)
    (pos : 0 < s.vacant cfg) : Timely cfg s (.wakeUp p) := by
  intro _ xs chain c _ q _ _
  rw [empty, chain_none_iff] at chain
  rw [chain]
  exact pos

theorem timely_taken {cfg : Config} {s : Dispatch} {p : Nat}
    (taken : ∀ c < cfg.cpuCount, ¬s.Vacant c) : Timely cfg s (.wakeUp p) := by
  rintro (⟨c, hc, free⟩ | ⟨v, _, largest, leaving⟩)
  · exact absurd (.inl free) (taken c hc)
  · exact absurd (.inr leaving) (taken v largest.inside)

/-- Process 0 runs on CPU 0, and process 1 waits for CPU 1. -/
def secondWoken : Dispatch where
  student := ⟨fun p => if p = 0 then ⟨0, .running, none, 0, 0, 10⟩ else
    if p = 1 then ⟨0, .ready, none, 0, 0, 5⟩ else ⟨0, .new, none, 0, 0, 3⟩, some 1, some 1,
    fun c => if c = 0 then some 0 else none⟩
  phase := fun c => if c = 0 then .running else .settling
  forcing := none

theorem secondWoken_run : Dispatch.Run shortestFirst (Timely shortestFirst) secondWoken := by
  have woken : threeNew.student.wakeUp shortestFirst 0 (fun _ => 0) 0 = some (none, _) := rfl
  have first : Timely shortestFirst threeNew (.wakeUp 0) := timely_empty rfl (by decide)
  have s₁ := (Dispatch.Run.start threeNew_start).next first
    (Dispatch.Step.wakeUp rfl (by decide) (Or.inl rfl) woken)
  have s₂ := s₁.next (e := .pickUp 0) trivial (Dispatch.Step.pickUp (c := 0) (by decide) rfl rfl
    (show Student.idle shortestFirst (fun _ => 0) 0 _ = some (some 0, _) from rfl))
  have s₃ := s₂.next (e := .settle 0) trivial (Dispatch.Step.settle (p := 0) rfl rfl)
  have s₄ := s₃.next (timely_empty rfl (by decide)) (Dispatch.Step.wakeUp (p := 1) rfl (by decide)
    (Or.inl rfl) (show Student.wakeUp shortestFirst 0 (fun _ => 0) 1 _ = some (none, _) from rfl))
  suffices same : ∃ s, Dispatch.Run shortestFirst (Timely shortestFirst) s ∧ s = secondWoken by
    obtain ⟨_, run, rfl⟩ := same
    exact run
  have pcbs : ∀ s : Dispatch, s.student.pcbs = secondWoken.student.pcbs → s.student.head = some 1 →
      s.student.tail = some 1 → s.student.current = secondWoken.student.current →
      s.phase = secondWoken.phase → s.forcing = none → s = secondWoken := by
    rintro ⟨⟨_, _, _, _⟩, _, _⟩ rfl rfl rfl rfl rfl rfl
    rfl
  refine ⟨_, s₄, pcbs _ ?_ rfl rfl rfl ?_ rfl⟩
  · funext p
    by_cases zero : p = 0
    · subst zero
      rfl
    · by_cases one : p = 1
      · subst one
        rfl
      · simp [Student.setState, Student.modify, Student.removeHead, Student.setNext,
          Student.setCurrent, threeNew, secondWoken, zero, one]
  · funext c
    by_cases zero : c = 0
    · subst zero
      rfl
    · simp [threeNew, secondWoken, zero]

/-! ## Every run -/

/-- If every wake-up and every preemption is timely. -/
theorem srtf_enforced {cfg : Config} {s : Dispatch} (srtf : cfg.schedulerAlgorithm = .srtf)
    (run : Dispatch.Run cfg (Timely cfg) s) : ShortestRun cfg s := by
  obtain ⟨xs, b⟩ := run.balanced srtf
  exact b.shortestRun

/-- CPU 1 takes process 1, and then process 2 takes CPU 0 from process 0. -/
theorem three_woken_enforced : ∃ s, Dispatch.Run shortestFirst (Timely shortestFirst) s ∧
    s.forcing = none ∧ (∀ c < 2, ¬s.Vacant c) ∧
    s.student.current 0 = some 2 ∧ s.student.current 1 = some 1 ∧ s.student.head = some 0 ∧
    ShortestRun shortestFirst s := by
  have s₁ := secondWoken_run.next (e := .pickUp 1) trivial
    (Dispatch.Step.pickUp (c := 1) (by decide) rfl rfl (show Student.idle shortestFirst (fun _ => 0)
    1 _ = some (some 1, _) from rfl))
  have s₂ := s₁.next (timely_taken (by decide))
    (Dispatch.Step.wakeUp (p := 2) rfl (by decide) (Or.inl rfl)
    (show Student.wakeUp shortestFirst 0 (fun _ => 0) 2 _ = some (some 0, _) from rfl))
  have s₃ := s₂.next (e := .forcePreempt 0) (fun phase => nomatch phase)
    (Dispatch.Step.forcePreempt (c := 0) rfl rfl
    (show Student.preempt shortestFirst 0 (fun _ => 0) 0 _ = some (some 2, _) from rfl))
  exact ⟨_, s₃, rfl, by decide, rfl, rfl, rfl, srtf_enforced rfl s₃⟩

/-- Process 2 is woken as well before CPU 1 takes a process. -/
theorem two_woken_for_one_cpu : ∃ s, Dispatch.Run shortestFirst (fun _ _ => True) s ∧
    ¬ShortestRun shortestFirst s := by
  have late : ¬Timely shortestFirst secondWoken (.wakeUp 2) := by
    intro timely
    have few := timely (.inl ⟨1, by decide, rfl⟩) [1] ⟨rfl, rfl⟩ 0 (by decide) 0
      ⟨rfl, by decide⟩ (by decide)
    exact absurd few (by decide)
  have woken : Dispatch.Step shortestFirst secondWoken (.wakeUp 2) _ :=
    .wakeUp rfl (by decide) (Or.inl rfl)
    (show Student.wakeUp shortestFirst 0 (fun _ => 0) 2 _ = some (none, _) from rfl)
  obtain ⟨t, leads, broken⟩ := untimely_breaks rfl secondWoken_run woken late
  exact ⟨t, secondWoken_run.weaken.leads leads, broken⟩

end SystemsProjects.Sched
