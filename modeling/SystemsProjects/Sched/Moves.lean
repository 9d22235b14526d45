import SystemsProjects.Sched.Places
import SystemsProjects.Sched.Simulator

/-!
# Where a process goes

The sections of the handlers keep each process at one place at most. Here is what they do
to a process in the other direction: it has a next place as long as its event is not a
yield or its end.
-/

namespace SystemsProjects.Sched

/-- The events on which a CPU gives up its process for good. -/
def CpuState.parting : CpuState → Option CpuState
  | .yield => some .yield
  | .terminate => some .terminate
  | .idle | .running | .preempt => none

/-- The handler is before its first section. -/
def CpuPc.parting : CpuPc → Option CpuState
  | .yielding => some .yield
  | .terminating => some .terminate
  | _ => none

def Sys.Gone (s : Sys) (xs : List Nat) (p : Nat) : Prop := ∀ l, ¬ s.At xs p l

/-- A place that the handlers may move a process from, or have moved it to. -/
def Sys.Moving (s : Sys) : Place → Prop
  | .queue | .waker _ => True
  | .cpu c => s.cpu c ≠ .outside ∧ (s.cpu c).parting = none
  | .leaving _ => False

/-- What a section of a handler does to process `p`. -/
inductive Goes (s t : Sys) (xs ys : List Nat) (p : Nat) : Prop
  | stays {l} (was : s.At xs p l) (now : t.At ys p l)
      (parting : ∀ c, l = .cpu c → (t.cpu c).parting = (s.cpu c).parting)
  | moves {l l'} (was : s.At xs p l) (now : t.At ys p l') (before : s.Moving l)
      (after : t.Moving l')
  | leaves {c} (was : s.At xs p (.cpu c)) (pc : s.cpu c = .yielding)
      (now : t.At ys p (.leaving c))
  | ends {c} (was : s.At xs p (.cpu c)) (pc : s.cpu c = .terminating) (gone : t.Gone ys p)
  | gone (was : s.Gone xs p) (now : t.Gone ys p)
      (once : OncePerYield s p → OncePerYield t p)

section

variable {cfg : Config} {s t : Sys} {xs ys : List Nat} {p q c w : Nat} {pc : CpuPc} {l : Place}

/-- The queue is one list. -/
theorem Inv.list_eq (inv : Inv cfg s xs) (queued : Queued s.student ys) : xs = ys :=
  inv.queued.chain.unique queued.chain

theorem gone_or_at (s : Sys) (xs : List Nat) (p : Nat) : s.Gone xs p ∨ ∃ l, s.At xs p l := by
  by_cases h : ∃ l, s.At xs p l
  · exact Or.inr h
  · exact Or.inl fun l here => h ⟨l, here⟩

/-- No process moves. -/
theorem goes_stay (same : ∀ l, t.At ys p l ↔ s.At xs p l)
    (parting : ∀ c, s.At xs p (.cpu c) → (t.cpu c).parting = (s.cpu c).parting)
    (once : s.Gone xs p → OncePerYield s p → OncePerYield t p) : Goes s t xs ys p := by
  rcases gone_or_at s xs p with gone | ⟨l, here⟩
  · exact .gone gone (fun l there => gone l ((same l).mp there)) (once gone)
  · exact .stays here ((same l).mpr here) (fun c cpu => parting c (cpu ▸ here))

/-! ## Places after an update -/

theorem at_setCpu_self (c : Nat) (pc : CpuPc) :
    ((s.setCpu c pc).At xs p (.cpu c) ↔ pc.holds (s.student.current c) = some p) ∧
    ((s.setCpu c pc).At xs p (.leaving c) ↔ pc.leaving = some p) := by
  simp [Sys.At, Sys.setCpu]

theorem at_setCpu_other (cpu : l ≠ .cpu c) (leaving : l ≠ .leaving c) :
    (s.setCpu c pc).At xs p l ↔ s.At xs p l := by
  cases l with
  | queue | waker w => exact Iff.rfl
  | cpu d =>
    have ne : d ≠ c := fun same => cpu (congrArg Place.cpu same)
    simp [Sys.At, Sys.setCpu, ne]
  | leaving d =>
    have ne : d ≠ c := fun same => leaving (congrArg Place.leaving same)
    simp [Sys.At, Sys.setCpu, ne]

/-- A CPU goes on, and has and gives up what it had and gave up. -/
theorem at_setCpu_same
    (holds : pc.holds (s.student.current c) = (s.cpu c).holds (s.student.current c))
    (leaving : pc.leaving = (s.cpu c).leaving) (l : Place) :
    (s.setCpu c pc).At xs p l ↔ s.At xs p l := by
  by_cases cpu : l = .cpu c
  · subst cpu
    rw [(at_setCpu_self c pc).1, holds]
    rfl
  · by_cases left : l = .leaving c
    · subst left
      rw [(at_setCpu_self c pc).2, leaving]
      rfl
    · exact at_setCpu_other cpu left

theorem at_setWaker_other {wpc : WakerPc} (waker : l ≠ .waker w) :
    (s.setWaker w wpc).At xs p l ↔ s.At xs p l := by
  cases l with
  | queue | cpu c | leaving c => exact Iff.rfl
  | waker x =>
    have ne : x ≠ w := fun same => waker (congrArg Place.waker same)
    simp [Sys.At, Sys.setWaker, ne]

theorem at_setWaker_same {wpc : WakerPc} (holds : wpc.holds = (s.waker w).holds) (l : Place) :
    (s.setWaker w wpc).At xs p l ↔ s.At xs p l := by
  by_cases waker : l = .waker w
  · subst waker
    simp [Sys.At, Sys.setWaker, holds]
  · exact at_setWaker_other waker

theorem at_setStudent_iff {u : Student} (current : u.current = s.student.current) (l : Place) :
    (s.setStudent u).At xs p l ↔ s.At xs p l := by
  cases l with
  | queue | waker w | leaving c => exact Iff.rfl
  | cpu c => simp [Sys.At, Sys.setStudent, current]

/-- The queue is another list, without a difference for `p`. -/
theorem at_list (mem : p ∈ ys ↔ p ∈ xs) (l : Place) : s.At ys p l ↔ s.At xs p l := by
  cases l with
  | queue => exact mem
  | cpu c | waker w | leaving c => exact Iff.rfl

theorem parting_setCpu (same : pc.parting = (s.cpu c).parting) (d : Nat) :
    ((s.setCpu c pc).cpu d).parting = (s.cpu d).parting := by
  by_cases here : d = c
  · subst here
    simp [Sys.setCpu, same]
  · simp [Sys.setCpu, here]

theorem parting_signal (wakes : Nat → Bool) (d : Nat) :
    ((s.signal wakes).cpu d).parting = (s.cpu d).parting := by
  simp only [Sys.signal]
  split
  · rename_i sleeps
    rw [sleeps.1]
    rfl
  · rfl

/-! ## The sections of the handlers -/

/-- A handler step is one that `simulate_io` and `simulate_creat` have no part in. -/
theorem Step.once (step : Step cfg (fun _ _ => True) s t) (inside : Inside s t) :
    Step cfg OncePerYield s t := by
  cases step with
  | callIdle hc out free => exact .callIdle hc out free
  | look hc pc => exact .look hc pc
  | spurious hc pc => exact .spurious hc pc
  | callPreempt hc out busy => exact .callPreempt hc out busy
  | callYield hc out busy => exact .callYield hc out busy
  | callTerminate hc out busy => exact .callTerminate hc out busy
  | preempt hc pc current => exact .preempt hc pc current
  | requeue hc pc ok signals => exact .requeue hc pc ok signals
  | yield hc pc current => exact .yield hc pc current
  | terminate hc pc current => exact .terminate hc pc current
  | dequeueNone hc pc ok => exact .dequeueNone hc pc ok
  | dequeue hc pc ok => exact .dequeue hc pc ok
  | mark hc pc => exact .mark hc pc
  | publish hc pc => exact .publish hc pc
  | contextSwitch hc pc => exact .contextSwitch hc pc
  | @callWakeUp w p out =>
    have still := (inside.2 w).mp out
    simp [Sys.setWaker] at still
  | ready pc => exact .ready pc
  | enqueue pc ok signals => exact .enqueue pc ok signals
  | choose pc => exact .choose pc
  | forcePreempt pc => exact .forcePreempt pc

/-- A process joins the queue from a place that it could be moved from. -/
theorem goes_join {l₀ : Place} (had : s.At xs p l₀) (moving : s.Moving l₀)
    (others : ∀ q l, l ≠ .queue → (q = p → l ≠ l₀) → (t.At (xs ++ [p]) q l ↔ s.At xs q l))
    (parting : ∀ c, (t.cpu c).parting = (s.cpu c).parting)
    (once : ∀ q, q ≠ p → OncePerYield s q → OncePerYield t q) (q : Nat) :
    Goes s t xs (xs ++ [p]) q := by
  by_cases same : q = p
  · subst same
    have now : t.At (xs ++ [q]) q .queue := List.mem_append_right xs (List.mem_singleton_self q)
    exact .moves had now moving trivial
  · refine goes_stay (fun l => ?_) (fun c _ => parting c) (fun _ => once q same)
    by_cases queue : l = .queue
    · subst queue
      simp [Sys.At, same]
    · exact others q l queue (fun here => absurd here same)

/-- The handlers leave it open whether a process has been woken. -/
theorem once_congr (enqueued : t.enqueued p = s.enqueued p) (yielded : t.yielded p = s.yielded p)
    (awoken : t.awoken p = s.awoken p) (once : OncePerYield s p) : OncePerYield t p := by
  unfold OncePerYield NewOrYielded at *
  rw [enqueued, yielded, awoken]
  exact once

section

variable {u : Student} {y r : Option Nat} {time : UInt32}

/-- The queue makes no difference to another place. -/
theorem at_elsewhere (ys : List Nat) (queue : l ≠ .queue) : s.At ys p l ↔ s.At xs p l := by
  cases l with
  | queue => exact absurd rfl queue
  | cpu c | waker w | leaving c => exact Iff.rfl

theorem goes_preempt (pc : s.cpu c = .preempting) (current : s.student.current c = some p)
    (q : Nat) :
    Goes s ((s.setStudent (s.student.setState p .ready)).setCpu c (.requeueing p)) xs xs q := by
  refine goes_stay (fun l => ?_) (fun d _ => ?_) (fun _ once => once)
  · refine (at_setCpu_same ?_ ?_ l).trans (at_setStudent_iff rfl l)
    · simp [Sys.setStudent, Student.setState, pc, CpuPc.holds, current]
    · simp [Sys.setStudent, pc, CpuPc.leaving]
  · exact parting_setCpu (s := s.setStudent _) (by simp [pc, CpuPc.parting, Sys.setStudent]) d

theorem goes_requeue (inv : Inv cfg s xs) (pc : s.cpu c = .requeueing p)
    (ok : s.student.enqueue time p = some u) (wakes : Nat → Bool) (q : Nat) :
    Goes s ((((s.setStudent u).signal wakes).markEnqueued p).setCpu c (.dequeueing none)) xs
      (xs ++ [p]) q := by
  have had : s.At xs p (.cpu c) := by simp [Sys.At, pc, CpuPc.holds]
  obtain ⟨-, links⟩ := inv.enqueued had (by simp) ok
  refine goes_join had (by simp [Sys.Moving, pc, CpuPc.parting]) ?_ ?_ ?_ q
  · intro q l queue here
    refine Iff.trans ?_ (at_elsewhere (xs ++ [p]) queue)
    by_cases cpu : l = .cpu c
    · subst cpu
      have other : q ≠ p := fun same => here same rfl
      rw [(at_setCpu_self c _).1]
      simp [Sys.At, pc, CpuPc.holds, other.symm]
    · by_cases left : l = .leaving c
      · subst left
        rw [(at_setCpu_self c _).2]
        simp [Sys.At, pc, CpuPc.leaving]
      · exact (at_setCpu_other cpu left).trans
          ((at_signal wakes l).trans (at_setStudent_iff links.current l))
  · intro d
    refine (parting_setCpu ?_ d).trans (parting_signal (s := s.setStudent u) wakes d)
    refine Eq.trans ?_ (parting_signal (s := s.setStudent u) wakes c).symm
    simp [pc, CpuPc.parting, Sys.setStudent]
  · intro q other
    exact once_congr (by simp [Sys.markEnqueued, Sys.setCpu, Sys.signal, Sys.setStudent, other])
      rfl rfl

/-- Its process is on its way to the I/O queue. -/
theorem goes_yield (pc : s.cpu c = .yielding) (current : s.student.current c = some p) (q : Nat) :
    Goes s ((s.setStudent (s.student.setState p .waiting)).setCpu c (.dequeueing (some p))) xs xs
      q := by
  by_cases same : q = p
  · subst same
    have had : s.At xs q (.cpu c) := by simp [Sys.At, pc, CpuPc.holds, current]
    exact .leaves had pc ((at_setCpu_self c _).2.mpr (by simp [CpuPc.leaving]))
  · refine goes_stay (fun l => ?_) (fun d here => ?_) (fun _ once => once)
    · by_cases cpu : l = .cpu c
      · subst cpu
        rw [(at_setCpu_self c _).1]
        simp [Sys.At, pc, CpuPc.holds, current, Ne.symm same]
      · by_cases left : l = .leaving c
        · subst left
          rw [(at_setCpu_self c _).2]
          simp [Sys.At, pc, CpuPc.leaving, Ne.symm same]
        · exact (at_setCpu_other cpu left).trans (at_setStudent_iff rfl l)
    · have ne : d ≠ c := by
        rintro rfl
        simp [Sys.At, pc, CpuPc.holds, current, Ne.symm same] at here
      simp [Sys.setCpu, Sys.setStudent, ne]

/-- Its process is gone. -/
theorem goes_terminate (inv : Inv cfg s xs) (pc : s.cpu c = .terminating)
    (current : s.student.current c = some p) (q : Nat) :
    Goes s ((s.setStudent (s.student.setState p .terminated)).setCpu c (.dequeueing none)) xs xs
      q := by
  have had : s.At xs p (.cpu c) := by simp [Sys.At, pc, CpuPc.holds, current]
  have others : ∀ q l, l ≠ .cpu c →
      (((s.setStudent (s.student.setState p .terminated)).setCpu c (.dequeueing none)).At xs q l ↔
        s.At xs q l) := by
    intro q l cpu
    by_cases left : l = .leaving c
    · subst left
      rw [(at_setCpu_self c _).2]
      simp [Sys.At, pc, CpuPc.leaving]
    · exact (at_setCpu_other cpu left).trans (at_setStudent_iff rfl l)
  have empty : ∀ q, ¬ ((s.setStudent (s.student.setState p .terminated)).setCpu c
      (.dequeueing none)).At xs q (.cpu c) := by
    intro q
    rw [(at_setCpu_self c _).1]
    simp [CpuPc.holds]
  by_cases same : q = p
  · subst same
    refine .ends had pc (fun l here => ?_)
    by_cases cpu : l = .cpu c
    · subst cpu
      exact empty q here
    · exact cpu (inv.unique q l (.cpu c) ((others q l cpu).mp here) had)
  · have elsewhere : ¬ s.At xs q (.cpu c) := by
      simp [Sys.At, pc, CpuPc.holds, current, Ne.symm same]
    refine goes_stay (fun l => ?_) (fun d here => ?_) (fun _ once => once)
    · by_cases cpu : l = .cpu c
      · subst cpu
        exact iff_of_false (empty q) elsewhere
      · exact others q l cpu
    · have ne : d ≠ c := by
        rintro rfl
        exact elsewhere here
      simp [Sys.setCpu, Sys.setStudent, ne]

theorem goes_dequeueNone (pc : s.cpu c = .dequeueing y) (q : Nat) :
    Goes s ((s.setStudent s.student).setCpu c (.publishing y none)) xs xs q :=
  goes_stay (at_setCpu_same (s := s.setStudent _) (by simp [Sys.setStudent, pc, CpuPc.holds])
      (by simp [Sys.setStudent, pc, CpuPc.leaving]))
    (fun d _ => parting_setCpu (s := s.setStudent _) (by simp [Sys.setStudent, pc, CpuPc.parting])
      d)
    (fun _ once => once)

/-- The CPU takes the process from the queue. -/
theorem goes_dequeue {before after : List Nat} (pc : s.cpu c = .dequeueing y)
    (links : LinksOnly s.student u) (q : Nat) : Goes s ((s.setStudent u).setCpu c (.marking y p))
      (before ++ p :: after) (before ++ after) q := by
  by_cases same : q = p
  · subst same
    have had : s.At (before ++ q :: after) q .queue := by simp [Sys.At]
    refine .moves had ((at_setCpu_self c _).1.mpr (by simp [CpuPc.holds])) trivial ?_
    simp [Sys.Moving, Sys.setCpu, CpuPc.parting]
  · refine goes_stay (fun l => ?_) (fun d _ => ?_) (fun _ once => once)
    · have list : q ∈ before ++ after ↔ q ∈ before ++ p :: after := by simp [same]
      refine Iff.trans ?_ (at_list list l)
      by_cases cpu : l = .cpu c
      · subst cpu
        rw [(at_setCpu_self c _).1]
        simp [Sys.At, pc, CpuPc.holds, Ne.symm same]
      · by_cases left : l = .leaving c
        · subst left
          rw [(at_setCpu_self c _).2]
          simp [Sys.At, pc, CpuPc.leaving]
        · exact (at_setCpu_other cpu left).trans (at_setStudent_iff links.current l)
    · exact parting_setCpu (s := s.setStudent _) (by simp [Sys.setStudent, pc, CpuPc.parting]) d

theorem goes_mark (pc : s.cpu c = .marking y p) (q : Nat) :
    Goes s (((s.setStudent (s.student.setState p .running)).markRunning p).setCpu c
      (.publishing y (some p))) xs xs q := by
  have had : s.At xs p (.cpu c) := by simp [Sys.At, pc, CpuPc.holds]
  refine goes_stay (fun l => ?_) (fun d _ => ?_) (fun gone => ?_)
  · refine Iff.trans (at_setCpu_same ?_ ?_ l) (at_setStudent_iff rfl l)
    · simp [Sys.markRunning, Sys.setStudent, pc, CpuPc.holds]
    · simp [Sys.markRunning, Sys.setStudent, pc, CpuPc.leaving]
  · exact parting_setCpu (s := (s.setStudent _).markRunning p)
      (by simp [Sys.markRunning, Sys.setStudent, pc, CpuPc.parting]) d
  · have other : q ≠ p := by
      rintro rfl
      exact gone _ had
    exact once_congr rfl (by simp [Sys.markRunning, Sys.setCpu, Sys.setStudent, other]) rfl

theorem goes_publish (pc : s.cpu c = .publishing y r) (q : Nat) :
    Goes s ((s.setStudent { s.student with
      current := fun x => if x = c then r else s.student.current x }).setCpu c (.switching y))
      xs xs q := by
  refine goes_stay (fun l => ?_) (fun d _ => ?_) (fun _ once => once)
  · by_cases cpu : l = .cpu c
    · subst cpu
      rw [(at_setCpu_self c _).1]
      simp [Sys.At, Sys.setStudent, pc, CpuPc.holds]
    · by_cases left : l = .leaving c
      · subst left
        rw [(at_setCpu_self c _).2]
        simp [Sys.At, pc, CpuPc.leaving]
      · refine (at_setCpu_other cpu left).trans ?_
        cases l with
        | queue | waker w | leaving d => exact Iff.rfl
        | cpu d =>
          have ne : d ≠ c := fun same => cpu (congrArg Place.cpu same)
          simp [Sys.At, Sys.setStudent, ne]
  · exact parting_setCpu (s := s.setStudent _) (by simp [Sys.setStudent, pc, CpuPc.parting]) d

theorem goes_ready (pc : s.waker w = .readying p) (q : Nat) :
    Goes s ((s.setStudent (s.student.setState p .ready)).setWaker w (.enqueueing p)) xs xs q := by
  refine goes_stay (fun l => ?_) (fun _ _ => rfl) (fun _ once => once)
  exact (at_setWaker_same (s := s.setStudent _) (by simp [Sys.setStudent, pc, WakerPc.holds])
    l).trans (at_setStudent_iff rfl l)

theorem goes_enqueue (inv : Inv cfg s xs) (pc : s.waker w = .enqueueing p)
    (ok : s.student.enqueue time p = some u) (wakes : Nat → Bool) (q : Nat) :
    Goes s ((((s.setStudent u).signal wakes).markEnqueued p).setWaker w (.choosing p)) xs
      (xs ++ [p]) q := by
  have had : s.At xs p (.waker w) := by simp [Sys.At, pc, WakerPc.holds]
  obtain ⟨-, links⟩ := inv.enqueued had (by simp) ok
  refine goes_join had trivial ?_ ?_ ?_ q
  · intro q l queue here
    refine Iff.trans ?_ (at_elsewhere (xs ++ [p]) queue)
    by_cases waker : l = .waker w
    · subst waker
      have other : q ≠ p := fun same => here same rfl
      simp [Sys.At, Sys.setWaker, Sys.markEnqueued, pc, WakerPc.holds, other.symm]
    · exact (at_setWaker_other waker).trans
        ((at_signal wakes l).trans (at_setStudent_iff links.current l))
  · exact fun d => parting_signal (s := s.setStudent u) wakes d
  · intro q other
    exact once_congr (by simp [Sys.markEnqueued, Sys.setWaker, Sys.signal, Sys.setStudent, other])
      rfl rfl

end

theorem step_goes (inv : Inv cfg s xs) (step : Step cfg (fun _ _ => True) s t)
    (inside : Inside s t) : ∃ ys, Inv cfg t ys ∧ ∀ p, Goes s t xs ys p := by
  have allowed := step.once inside
  cases step with
  | @callIdle c hc out | @callPreempt c hc out | @callYield c hc out | @callTerminate c hc out =>
    have still := (inside.1 c).mp out
    simp [Sys.setCpu] at still
  | @contextSwitch c y hc pc =>
    have still := (inside.1 c).mpr (by simp [Sys.setCpu])
    simp [pc] at still
  | @callWakeUp w p out =>
    have still := (inside.2 w).mp out
    simp [Sys.setWaker] at still
  | @forcePreempt w v pc =>
    have still := (inside.2 w).mpr (by simp [Sys.setWaker])
    simp [pc] at still
  | @look c hc pc =>
    obtain ⟨ys, after⟩ := inv.step allowed
    obtain rfl := after.list_eq inv.queued
    refine ⟨ys, after, fun p => ?_⟩
    have holds : ∀ current, (if s.student.isEmpty then CpuPc.asleep else .dequeueing none).holds
        current = (s.cpu c).holds current ∧
        (if s.student.isEmpty then CpuPc.asleep else .dequeueing none).leaving =
        (s.cpu c).leaving ∧
        (if s.student.isEmpty then CpuPc.asleep else .dequeueing none).parting =
        (s.cpu c).parting := by
      intro current
      rcases pc with pc | pc <;> split <;> simp [pc, CpuPc.holds, CpuPc.leaving, CpuPc.parting]
    exact goes_stay (at_setCpu_same (holds _).1 (holds none).2.1)
      (fun d _ => parting_setCpu (holds none).2.2 d) (fun _ once => once)
  | @spurious c hc pc =>
    obtain ⟨ys, after⟩ := inv.step allowed
    obtain rfl := after.list_eq inv.queued
    exact ⟨ys, after, fun p => goes_stay
      (at_setCpu_same (by simp [pc, CpuPc.holds]) (by simp [pc, CpuPc.leaving]))
      (fun d _ => parting_setCpu (by simp [pc, CpuPc.parting]) d) (fun _ once => once)⟩
  | preempt hc pc current => exact ⟨xs, inv.preempt pc current, goes_preempt pc current⟩
  | requeue hc pc ok => exact ⟨_, inv.requeue pc ok _, goes_requeue inv pc ok _⟩
  | yield hc pc current => exact ⟨xs, inv.yield pc current, goes_yield pc current⟩
  | terminate hc pc current => exact ⟨xs, inv.terminate pc current, goes_terminate inv pc current⟩
  | dequeueNone hc pc ok =>
    obtain ⟨rfl, rfl⟩ := inv.dequeued_none ok
    exact ⟨[], inv.dequeueNone pc, goes_dequeueNone pc⟩
  | dequeue hc pc ok =>
    obtain ⟨before, after, rfl, queued, links⟩ := inv.dequeued ok
    exact ⟨_, inv.dequeue pc queued links, goes_dequeue pc links⟩
  | mark hc pc => exact ⟨xs, inv.mark pc, goes_mark pc⟩
  | publish hc pc => exact ⟨xs, inv.publish pc, goes_publish pc⟩
  | ready pc => exact ⟨xs, inv.ready pc, goes_ready pc⟩
  | enqueue pc ok => exact ⟨_, inv.enqueue pc ok _, goes_enqueue inv pc ok _⟩
  | @choose w p times pc =>
    obtain ⟨ys, after⟩ := inv.step allowed
    obtain rfl := after.list_eq inv.queued
    refine ⟨ys, after, fun q => goes_stay (fun l => at_setWaker_same ?_ l) (fun _ _ => rfl)
      (fun _ once => once)⟩
    cases s.student.victimCpu cfg times p <;> simp [pc, WakerPc.holds]

/-- A CPU gives up no process that it did not give up before. -/
structure Releases (s t : Sys) : Prop where
  parting : ∀ c, (t.cpu c).parting ≠ none → (s.cpu c).parting ≠ none
  leaving : ∀ c, (t.cpu c).leaving ≠ none →
    (s.cpu c).leaving ≠ none ∨ (s.cpu c).parting ≠ none

theorem releases_setCpu (same : ∀ d, (t.cpu d).parting = (s.cpu d).parting ∧
      (t.cpu d).leaving = (s.cpu d).leaving) (parting : pc.parting = none)
    (leaving : pc.leaving ≠ none → (s.cpu c).leaving ≠ none ∨ (s.cpu c).parting ≠ none) :
    Releases s (t.setCpu c pc) where
  parting d := by
    by_cases here : d = c
    · simp [here, Sys.setCpu, parting]
    · simp only [Sys.setCpu, if_neg here, (same d).1]
      exact id
  leaving d := by
    by_cases here : d = c
    · subst here
      simpa only [Sys.setCpu, if_pos] using leaving
    · simp only [Sys.setCpu, if_neg here, (same d).2]
      exact Or.inl

theorem step_releases (step : Step cfg (fun _ _ => True) s t) (inside : Inside s t) :
    Releases s t := by
  cases step with
  | @callIdle c hc out | @callPreempt c hc out | @callYield c hc out | @callTerminate c hc out =>
    have still := (inside.1 c).mp out
    simp [Sys.setCpu] at still
  | @look c hc pc =>
    refine releases_setCpu (fun _ => ⟨rfl, rfl⟩) ?_ ?_
    · split <;> rfl
    · split <;> simp [CpuPc.leaving]
  | spurious hc pc | preempt hc pc | terminate hc pc | contextSwitch hc pc =>
    exact releases_setCpu (fun _ => ⟨rfl, rfl⟩) rfl (by simp [CpuPc.leaving])
  | yield hc pc =>
    exact releases_setCpu (fun _ => ⟨rfl, rfl⟩) rfl (fun _ => Or.inr (by simp [pc, CpuPc.parting]))
  | dequeueNone hc pc | dequeue hc pc | mark hc pc | publish hc pc =>
    refine releases_setCpu (fun _ => ⟨rfl, rfl⟩) rfl (fun left => Or.inl ?_)
    simpa [pc, CpuPc.leaving] using left
  | requeue hc pc =>
    exact releases_setCpu (fun d => ⟨parting_signal (s := s.setStudent _) _ d,
      (signal_cpu (s := s.setStudent _) _ d).2.1⟩) rfl (by simp [CpuPc.leaving])
  | callWakeUp | ready | choose | forcePreempt => exact ⟨fun _ => id, fun _ => Or.inl⟩
  | @enqueue w p time wakes u pc ok signals =>
    refine ⟨fun d => ?_, fun d => ?_⟩
    · exact fun parting => parting_signal (s := s.setStudent u) wakes d ▸ parting
    · exact fun left => Or.inl ((signal_cpu (s := s.setStudent u) wakes d).2.1 ▸ left)

/-- `current[]` is written by the handlers of the CPU. -/
theorem step_current (step : Step cfg (fun _ _ => True) s t) (out : s.cpu c = .outside) :
    t.student.current c = s.student.current c := by
  cases step with
  | @publish d y q hc pc =>
    have ne : c ≠ d := by
      rintro rfl
      simp [out] at pc
    exact if_neg ne
  | requeue _ _ ok => exact congrFun (enqueue_linksOnly ok).current c
  | enqueue _ ok => exact congrFun (enqueue_linksOnly ok).current c
  | dequeueNone _ _ ok => exact congrFun (dequeue_linksOnly ok).current c
  | dequeue _ _ ok => exact congrFun (dequeue_linksOnly ok).current c
  | _ => rfl

/-- `wake_up` waits in `force_preempt`. -/
theorem step_forcing {v : Nat} (step : Step cfg (fun _ _ => True) s t) (inside : Inside s t)
    (pc : s.waker w = .forcing v) : t.waker w = .forcing v := by
  cases step with
  | @callWakeUp x p out =>
    have still := (inside.2 x).mp out
    simp [Sys.setWaker] at still
  | @ready x p at' | @enqueue x p time wakes u at' | @choose x p times at' =>
    have ne : w ≠ x := by
      rintro rfl
      simp [pc] at at'
    exact (if_neg ne).trans pc
  | @forcePreempt x u at' =>
    have still := (inside.2 x).mpr (by simp [Sys.setWaker])
    simp [at'] at still
  | _ => exact pc

end

end SystemsProjects.Sched
