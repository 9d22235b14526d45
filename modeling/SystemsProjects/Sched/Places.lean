import SystemsProjects.Sched.Handlers

/-!
# Where a process is

`preempt` has its process in the queue before it has given up `current[c]`, and
between `dequeue` and the update of `current[c]` a process is in neither. What
holds at every step is that each process is at one place only, if what a CPU is
about to overwrite does not count.
-/

namespace SystemsProjects.Sched

inductive Place where
  | queue
  | cpu (c : Nat)
  /-- with a yield handler that is not complete -/
  | leaving (c : Nat)
  | waker (w : Nat)

/-- The process that the thread of a CPU has, `current` being its `current[c]`. -/
def CpuPc.holds (current : Option Nat) : CpuPc → Option Nat
  | .outside | .preempting | .yielding | .terminating | .switching _ => current
  | .requeueing p | .marking _ p => some p
  | .publishing _ q => q
  | .testing | .asleep | .woken | .dequeueing _ => none

def CpuPc.leaving : CpuPc → Option Nat
  | .dequeueing y | .marking y _ | .publishing y _ | .switching y => y
  | _ => none

/-- The state that the process has, where that is settled. -/
def CpuPc.expects : CpuPc → Option ProcessState
  | .outside | .preempting | .yielding | .terminating | .switching _ | .publishing _ _ =>
    some .running
  | .requeueing _ => some .ready
  | _ => none

def WakerPc.holds : WakerPc → Option Nat
  | .readying p | .enqueueing p => some p
  | _ => none

def WakerPc.expects : WakerPc → Option ProcessState
  | .enqueueing _ => some .ready
  | _ => none

def Sys.At (s : Sys) (xs : List Nat) (p : Nat) : Place → Prop
  | .queue => p ∈ xs
  | .cpu c => (s.cpu c).holds (s.student.current c) = some p
  | .leaving c => (s.cpu c).leaving = some p
  | .waker w => (s.waker w).holds = some p

def Sys.expects (s : Sys) : Place → Option ProcessState
  | .queue => some .ready
  | .cpu c => (s.cpu c).expects
  | .leaving _ => none
  | .waker w => (s.waker w).expects

/-- The queue is the list `xs`; each process is at one place at most, has the
state that the place asks for, and was woken since its last yield. -/
structure Inv (cfg : Config) (s : Sys) (xs : List Nat) : Prop where
  queued : Queued s.student xs
  unique : ∀ p l l', s.At xs p l → s.At xs p l' → l = l'
  state : ∀ p l state, s.At xs p l → s.expects l = some state → (s.student.pcbs p).state = state
  awoken : ∀ p l, s.At xs p l → s.awoken p = true
  inTable : ∀ p l, s.At xs p l → p < cfg.processCount

section

variable {cfg : Config} {s t : Sys} {xs ys : List Nat} {p c w : Nat} {pc : CpuPc} {wpc : WakerPc}

/-- Only process `p` moves, and if it is anywhere, then at `place`. -/
theorem Inv.move (inv : Inv cfg s xs) (p : Nat) (place : Place) (queued : Queued t.student ys)
    (others : ∀ q l, q ≠ p → t.At ys q l →
      s.At xs q l ∧ ∀ state, t.expects l = some state → s.expects l = some state)
    (kept : ∀ q, q ≠ p →
      (t.student.pcbs q).state = (s.student.pcbs q).state ∧ t.awoken q = s.awoken q)
    (here : ∀ l, t.At ys p l → l = place ∧ t.awoken p = true ∧ p < cfg.processCount ∧
      ∀ state, t.expects place = some state → (t.student.pcbs p).state = state) : Inv cfg t ys where
  queued := queued
  unique q l l' h h' := by
    by_cases same : q = p
    · subst same
      exact (here l h).1.trans (here l' h').1.symm
    · exact inv.unique q l l' (others q l same h).1 (others q l' same h').1
  state q l state h expects := by
    by_cases same : q = p
    · subst same
      obtain ⟨rfl, _, _, has⟩ := here l h
      exact has state expects
    · obtain ⟨before, still⟩ := others q l same h
      rw [(kept q same).1]
      exact inv.state q l state before (still state expects)
  awoken q l h := by
    by_cases same : q = p
    · subst same
      exact (here l h).2.1
    · rw [(kept q same).2]
      exact inv.awoken q l (others q l same h).1
  inTable q l h := by
    by_cases same : q = p
    · subst same
      exact (here l h).2.2.1
    · exact inv.inTable q l (others q l same h).1

/-- No process moves. -/
theorem Inv.keep (inv : Inv cfg s xs) (queued : Queued t.student xs)
    (stay : ∀ q l, t.At xs q l →
      s.At xs q l ∧ ∀ state, t.expects l = some state → s.expects l = some state)
    (kept : ∀ q, (t.student.pcbs q).state = (s.student.pcbs q).state ∧ t.awoken q = s.awoken q) :
    Inv cfg t xs where
  queued := queued
  unique q l l' h h' := inv.unique q l l' (stay q l h).1 (stay q l' h').1
  state q l state h expects := by
    obtain ⟨before, still⟩ := stay q l h
    rw [(kept q).1]
    exact inv.state q l state before (still state expects)
  awoken q l h := by
    rw [(kept q).2]
    exact inv.awoken q l (stay q l h).1
  inTable q l h := inv.inTable q l (stay q l h).1

/-! ## Steps of one thread -/

theorem signal_cpu (wakes : Nat → Bool) (c : Nat) :
    ((s.signal wakes).cpu c).holds (s.student.current c) = (s.cpu c).holds (s.student.current c) ∧
    ((s.signal wakes).cpu c).leaving = (s.cpu c).leaving ∧
    ((s.signal wakes).cpu c).expects = (s.cpu c).expects := by
  simp only [Sys.signal]
  split
  · rename_i sleeps
    rw [sleeps.1]
    exact ⟨rfl, rfl, rfl⟩
  · exact ⟨rfl, rfl, rfl⟩

/-- A process is where it was before the signal. -/
theorem at_signal (wakes : Nat → Bool) (l : Place) : (s.signal wakes).At xs p l ↔ s.At xs p l := by
  cases l with
  | queue | waker w => exact Iff.rfl
  | cpu c => exact iff_of_eq (congrArg (· = some p) (signal_cpu wakes c).1)
  | leaving c => exact iff_of_eq (congrArg (· = some p) (signal_cpu wakes c).2.1)

theorem expects_signal (wakes : Nat → Bool) (l : Place) :
    (s.signal wakes).expects l = s.expects l := by
  cases l with
  | queue | waker w | leaving c => rfl
  | cpu c => exact (signal_cpu wakes c).2.2

theorem at_setStudent {u : Student} {q : Nat} {l : Place} (current : u.current = s.student.current)
    (thread : l ≠ .queue) (h : (s.setStudent u).At ys q l) : s.At xs q l := by
  cases l with
  | queue => exact absurd rfl thread
  | waker w => exact h
  | cpu c => simpa only [Sys.At, Sys.setStudent, current] using h
  | leaving c => exact h

/-- A process is where it was, unless its place is on the CPU that goes on. -/
theorem at_setCpu {q : Nat} {l : Place} (h : (s.setCpu c pc).At xs q l) :
    l = .cpu c ∧ pc.holds (s.student.current c) = some q ∨ l = .leaving c ∧ pc.leaving = some q ∨
    l ≠ .cpu c ∧ l ≠ .leaving c ∧ s.At xs q l ∧ (s.setCpu c pc).expects l = s.expects l := by
  cases l with
  | queue => exact Or.inr (Or.inr ⟨by simp, by simp, h, rfl⟩)
  | waker w => exact Or.inr (Or.inr ⟨by simp, by simp, h, rfl⟩)
  | cpu x =>
    by_cases same : x = c
    · subst same
      exact Or.inl ⟨rfl, by simpa [Sys.At, Sys.setCpu] using h⟩
    · refine Or.inr (Or.inr ⟨by simpa using same, by simp, ?_, ?_⟩)
      · simpa [Sys.At, Sys.setCpu, same] using h
      · simp [Sys.expects, Sys.setCpu, same]
  | leaving x =>
    by_cases same : x = c
    · subst same
      exact Or.inr (Or.inl ⟨rfl, by simpa [Sys.At, Sys.setCpu] using h⟩)
    · refine Or.inr (Or.inr ⟨by simp, by simpa using same, ?_, rfl⟩)
      simpa [Sys.At, Sys.setCpu, same] using h

theorem at_setWaker {q : Nat} {l : Place} (h : (s.setWaker w wpc).At xs q l) :
    l = .waker w ∧ wpc.holds = some q ∨
    l ≠ .waker w ∧ s.At xs q l ∧ (s.setWaker w wpc).expects l = s.expects l := by
  cases l with
  | queue => exact Or.inr ⟨by simp, h, rfl⟩
  | cpu x => exact Or.inr ⟨by simp, h, rfl⟩
  | leaving x => exact Or.inr ⟨by simp, h, rfl⟩
  | waker x =>
    by_cases same : x = w
    · subst same
      exact Or.inl ⟨rfl, by simpa [Sys.At, Sys.setWaker] using h⟩
    · refine Or.inr ⟨by simpa using same, ?_, ?_⟩
      · simpa [Sys.At, Sys.setWaker, same] using h
      · simp [Sys.expects, Sys.setWaker, same]

/-- A CPU goes on and keeps what it has, or less. -/
theorem Inv.advance (inv : Inv cfg s xs)
    (holds : ∀ q, pc.holds (s.student.current c) = some q →
      (s.cpu c).holds (s.student.current c) = some q ∧ pc.expects = (s.cpu c).expects)
    (leaving : ∀ q, pc.leaving = some q → (s.cpu c).leaving = some q) :
    Inv cfg (s.setCpu c pc) xs := by
  refine inv.keep inv.queued ?_ (fun _ => ⟨rfl, rfl⟩)
  intro q l h
  rcases at_setCpu h with ⟨rfl, has⟩ | ⟨rfl, gone⟩ | ⟨_, _, before, same⟩
  · obtain ⟨before, same⟩ := holds q has
    refine ⟨before, fun state => ?_⟩
    simp only [Sys.expects, Sys.setCpu, ↓reduceIte, same]
    exact id
  · exact ⟨leaving q gone, fun _ none => absurd none (by simp [Sys.expects])⟩
  · exact ⟨before, fun state => same ▸ id⟩

/-- A caller of `wake_up` goes on without a process. -/
theorem Inv.rest (inv : Inv cfg s xs) (holds : wpc.holds = none) :
    Inv cfg (s.setWaker w wpc) xs := by
  refine inv.keep inv.queued ?_ (fun _ => ⟨rfl, rfl⟩)
  intro q l h
  rcases at_setWaker h with ⟨rfl, has⟩ | ⟨_, before, same⟩
  · simp [holds] at has
  · exact ⟨before, fun state => same ▸ id⟩

/-- A CPU goes on with its process `p`, which is at `place` then or nowhere. -/
theorem Inv.goOn {u : Student} (inv : Inv cfg s xs) (had : s.At xs p (.cpu c)) (place : Place)
    (queued : Queued u xs) (current : u.current = s.student.current)
    (kept : ∀ q, q ≠ p → (u.pcbs q).state = (s.student.pcbs q).state)
    (holds : ∀ q, pc.holds (u.current c) = some q → q = p ∧ place = .cpu c)
    (leaving : ∀ q, pc.leaving = some q → q = p ∧ place = .leaving c ∨ (s.cpu c).leaving = some q)
    (state : ∀ state, pc.expects = some state → (u.pcbs p).state = state) :
    Inv cfg ((s.setStudent u).setCpu c pc) xs := by
  have apart : ∀ q, (s.cpu c).leaving = some q → q ≠ p := by
    rintro q gone rfl
    exact absurd (inv.unique q (.cpu c) (.leaving c) had gone) (by simp)
  refine inv.move p place queued ?_ (fun q ne => ⟨kept q ne, rfl⟩) ?_
  · intro q l ne h
    rcases at_setCpu h with ⟨rfl, has⟩ | ⟨rfl, gone⟩ | ⟨_, _, before, same⟩
    · exact absurd (holds q has).1 ne
    · rcases leaving q gone with ⟨rfl, _⟩ | gone
      · exact absurd rfl ne
      · exact ⟨gone, fun _ none => absurd none (by simp [Sys.expects])⟩
    · refine ⟨?_, fun state => same ▸ id⟩
      by_cases inQueue : l = .queue
      · subst inQueue
        exact before
      · exact at_setStudent current inQueue before
  · intro l h
    have spot : l = place ∧ (l = .cpu c ∨ l = .leaving c) := by
      rcases at_setCpu h with ⟨rfl, has⟩ | ⟨rfl, gone⟩ | ⟨ne, _, before, _⟩
      · exact ⟨(holds p has).2.symm, Or.inl rfl⟩
      · rcases leaving p gone with ⟨_, here⟩ | gone
        · exact ⟨here.symm, Or.inr rfl⟩
        · exact absurd rfl (apart p gone)
      · refine absurd (inv.unique p l (.cpu c) ?_ had) ne
        by_cases inQueue : l = .queue
        · subst inQueue
          exact before
        · exact at_setStudent current inQueue before
    obtain ⟨rfl, rfl | rfl⟩ := spot
    · refine ⟨rfl, inv.awoken p _ had, inv.inTable p _ had, fun st expects => state st ?_⟩
      simpa [Sys.expects, Sys.setCpu] using expects
    · exact ⟨rfl, inv.awoken p _ had, inv.inTable p _ had, fun _ none =>
        absurd none (by simp [Sys.expects])⟩

/-- A process joins the queue from the place that it was at. -/
theorem Inv.join (inv : Inv cfg s xs) {l₀ : Place} (had : s.At xs p l₀)
    (ready : (s.student.pcbs p).state = .ready) (queued : Queued t.student (xs ++ [p]))
    (links : LinksOnly s.student t.student) (awoken : t.awoken = s.awoken)
    (others : ∀ q l, l ≠ .queue → t.At (xs ++ [p]) q l →
      l ≠ l₀ ∧ s.At xs q l ∧ t.expects l = s.expects l) : Inv cfg t (xs ++ [p]) := by
  refine inv.move p .queue queued ?_ (fun q _ => ⟨links.state q, congrFun awoken q⟩) ?_
  · intro q l ne h
    by_cases inQueue : l = .queue
    · subst inQueue
      refine ⟨?_, fun _ => id⟩
      exact (List.mem_append.mp h).resolve_right (fun last => ne (List.mem_singleton.mp last))
    · obtain ⟨_, before, same⟩ := others q l inQueue h
      exact ⟨before, fun state => same ▸ id⟩
  · intro l h
    refine ⟨?_, ?_, inv.inTable p l₀ had, ?_⟩
    · by_contra inQueue
      obtain ⟨moved, before, _⟩ := others p l inQueue h
      exact moved (inv.unique p l l₀ before had)
    · rw [awoken]
      exact inv.awoken p l₀ had
    · rintro state expects
      rw [links.state, ready]
      exact Option.some.inj expects

theorem Inv.fits (inv : Inv cfg s xs) : xs.length ≤ cfg.processCount :=
  inv.queued.fits (fun p hp => inv.inTable p .queue hp)

/-! ## The sections of the handlers -/

section

variable {u : Student} {y q : Option Nat} {time : UInt32} {times : Nat → UInt32} {l₀ : Place}

/-- What `enqueue` does with a process that is elsewhere. -/
theorem Inv.enqueued (inv : Inv cfg s xs) (had : s.At xs p l₀) (elsewhere : l₀ ≠ .queue)
    (ok : s.student.enqueue time p = some u) :
    Queued u (xs ++ [p]) ∧ LinksOnly s.student u := by
  have out : p ∉ xs := fun mem => elsewhere (inv.unique p .queue l₀ mem had).symm
  obtain ⟨u', ok', queued, links⟩ := enqueue_spec time inv.queued out
  obtain rfl : u' = u := Option.some.inj (ok'.symm.trans ok)
  exact ⟨queued, links⟩

theorem Inv.dequeued_none (inv : Inv cfg s xs) (ok : s.student.dequeue cfg times = some (none, u)) :
    xs = [] ∧ u = s.student := by
  have nil : xs = [] := by
    by_contra filled
    obtain ⟨_, _, _, _, _, some, _⟩ := dequeue_spec times inv.queued inv.fits filled
    simp [ok] at some
  subst nil
  rw [dequeue_empty inv.queued] at ok
  cases ok
  exact ⟨rfl, rfl⟩

theorem Inv.dequeued (inv : Inv cfg s xs) (ok : s.student.dequeue cfg times = some (some p, u)) :
    ∃ before after, xs = before ++ p :: after ∧ Queued u (before ++ after) ∧
      LinksOnly s.student u := by
  have filled : xs ≠ [] := by
    rintro rfl
    simp [dequeue_empty inv.queued] at ok
  obtain ⟨before, p', after, u', rfl, ok', queued, links, _⟩ :=
    dequeue_spec times inv.queued inv.fits filled
  obtain ⟨rfl, rfl⟩ : p' = p ∧ u' = u := by simpa using ok'.symm.trans ok
  exact ⟨before, after, rfl, queued, links⟩

theorem Inv.preempt (inv : Inv cfg s xs) (pc : s.cpu c = .preempting)
    (current : s.student.current c = some p) :
    Inv cfg ((s.setStudent (s.student.setState p .ready)).setCpu c (.requeueing p)) xs := by
  have had : s.At xs p (.cpu c) := by simp [Sys.At, pc, CpuPc.holds, current]
  refine inv.goOn had (.cpu c) (inv.queued.congr (next_setState _) rfl rfl) rfl ?_ ?_ ?_ ?_
  · exact fun q ne => (state_setState _).trans (if_neg ne)
  · simp [CpuPc.holds, eq_comm]
  · simp [CpuPc.leaving]
  · simp [CpuPc.expects, state_setState]

theorem Inv.requeue (inv : Inv cfg s xs) (pc : s.cpu c = .requeueing p)
    (ok : s.student.enqueue time p = some u) (wakes : Nat → Bool) :
    Inv cfg ((((s.setStudent u).signal wakes).markEnqueued p).setCpu c (.dequeueing none))
      (xs ++ [p]) := by
  have had : s.At xs p (.cpu c) := by simp [Sys.At, pc, CpuPc.holds]
  obtain ⟨queued, links⟩ := inv.enqueued had (by simp) ok
  have ready := inv.state p (.cpu c) .ready had (by simp [Sys.expects, pc, CpuPc.expects])
  refine inv.join had ready queued links rfl ?_
  intro q l thread h
  rcases at_setCpu h with ⟨rfl, has⟩ | ⟨rfl, gone⟩ | ⟨ne, _, before, same⟩
  · simp [CpuPc.holds] at has
  · simp [CpuPc.leaving] at gone
  · have before := (at_signal wakes l).mp before
    exact ⟨ne, at_setStudent links.current thread before, same.trans (expects_signal wakes l)⟩

theorem Inv.yield (inv : Inv cfg s xs) (pc : s.cpu c = .yielding)
    (current : s.student.current c = some p) :
    Inv cfg ((s.setStudent (s.student.setState p .waiting)).setCpu c (.dequeueing (some p)))
      xs := by
  have had : s.At xs p (.cpu c) := by simp [Sys.At, pc, CpuPc.holds, current]
  refine inv.goOn had (.leaving c) (inv.queued.congr (next_setState _) rfl rfl) rfl ?_ ?_ ?_ ?_
  · exact fun q ne => (state_setState _).trans (if_neg ne)
  · simp [CpuPc.holds]
  · simp [CpuPc.leaving, eq_comm]
  · simp [CpuPc.expects]

theorem Inv.terminate (inv : Inv cfg s xs) (pc : s.cpu c = .terminating)
    (current : s.student.current c = some p) :
    Inv cfg ((s.setStudent (s.student.setState p .terminated)).setCpu c (.dequeueing none)) xs := by
  have had : s.At xs p (.cpu c) := by simp [Sys.At, pc, CpuPc.holds, current]
  refine inv.goOn had (.leaving c) (inv.queued.congr (next_setState _) rfl rfl) rfl ?_ ?_ ?_ ?_
  · exact fun q ne => (state_setState _).trans (if_neg ne)
  · simp [CpuPc.holds]
  · simp [CpuPc.leaving]
  · simp [CpuPc.expects]

theorem Inv.dequeueNone (inv : Inv cfg s xs) (pc : s.cpu c = .dequeueing y) :
    Inv cfg ((s.setStudent s.student).setCpu c (.publishing y none)) xs :=
  inv.advance (by simp [CpuPc.holds]) (by simp [pc, CpuPc.leaving])

theorem Inv.dequeue {before after : List Nat} (inv : Inv cfg s (before ++ p :: after))
    (pc : s.cpu c = .dequeueing y) (queued : Queued u (before ++ after))
    (links : LinksOnly s.student u) :
    Inv cfg ((s.setStudent u).setCpu c (.marking y p)) (before ++ after) := by
  have had : s.At (before ++ p :: after) p .queue := by simp [Sys.At]
  have gone : p ∉ before ++ after := by
    have nodup := inv.queued.nodup
    simp only [List.nodup_append, List.nodup_cons] at nodup
    grind
  have fewer : ∀ q l, (s.setStudent u).At (before ++ after) q l →
      s.At (before ++ p :: after) q l := by
    intro q l h
    by_cases inQueue : l = .queue
    · subst inQueue
      simp only [Sys.At, List.mem_append, List.mem_cons] at h ⊢
      grind
    · exact at_setStudent links.current inQueue h
  refine inv.move p (.cpu c) queued ?_ (fun q _ => ⟨links.state q, rfl⟩) ?_
  · intro q l ne h
    rcases at_setCpu h with ⟨rfl, has⟩ | ⟨rfl, left⟩ | ⟨_, _, h, same⟩
    · exact absurd (by simpa [CpuPc.holds] using has.symm) ne
    · refine ⟨?_, fun _ none => absurd none (by simp [Sys.expects])⟩
      simpa [Sys.At, pc, CpuPc.leaving] using left
    · exact ⟨fewer q l h, fun state => same ▸ id⟩
  · intro l h
    rcases at_setCpu h with ⟨rfl, _⟩ | ⟨rfl, left⟩ | ⟨_, _, h, _⟩
    · exact ⟨rfl, inv.awoken p _ had, inv.inTable p _ had, by simp [Sys.expects, Sys.setCpu,
        CpuPc.expects]⟩
    · have left : s.At (before ++ p :: after) p (.leaving c) := by
        simpa [Sys.At, pc, CpuPc.leaving] using left
      exact absurd (inv.unique p _ _ had left) (by simp)
    · obtain rfl := inv.unique p _ _ (fewer p l h) had
      exact absurd h gone

theorem Inv.mark (inv : Inv cfg s xs) (pc : s.cpu c = .marking y p) :
    Inv cfg (((s.setStudent (s.student.setState p .running)).markRunning p).setCpu c
      (.publishing y (some p))) xs := by
  have had : s.At xs p (.cpu c) := by simp [Sys.At, pc, CpuPc.holds]
  have next : Inv cfg ((s.setStudent (s.student.setState p .running)).setCpu c
      (.publishing y (some p))) xs := by
    refine inv.goOn had (.cpu c) (inv.queued.congr (next_setState _) rfl rfl) rfl ?_ ?_ ?_ ?_
    · exact fun q ne => (state_setState _).trans (if_neg ne)
    · simp [CpuPc.holds, eq_comm]
    · simp [pc, CpuPc.leaving]
    · simp [CpuPc.expects, state_setState]
  exact ⟨next.queued, next.unique, next.state, next.awoken, next.inTable⟩

theorem Inv.publish (inv : Inv cfg s xs) (pc : s.cpu c = .publishing y q) :
    Inv cfg ((s.setStudent { s.student with
      current := fun x => if x = c then q else s.student.current x }).setCpu c (.switching y))
      xs := by
  refine inv.keep (inv.queued.congr rfl rfl rfl) ?_ (fun _ => ⟨rfl, rfl⟩)
  intro r l h
  rcases at_setCpu h with ⟨rfl, has⟩ | ⟨rfl, left⟩ | ⟨ne, _, h, same⟩
  · refine ⟨?_, by simp [Sys.expects, Sys.setCpu, pc, CpuPc.expects]⟩
    simpa [Sys.At, Sys.setStudent, pc, CpuPc.holds] using has
  · refine ⟨?_, fun _ none => absurd none (by simp [Sys.expects])⟩
    simpa [Sys.At, pc, CpuPc.leaving] using left
  · refine ⟨?_, fun state => same ▸ id⟩
    cases l with
    | queue | leaving x | waker w => exact h
    | cpu x =>
      have other : x ≠ c := fun e => ne (e ▸ rfl)
      simpa [Sys.At, Sys.setStudent, other] using h

theorem Inv.contextSwitch (inv : Inv cfg s xs) (pc : s.cpu c = .switching y) :
    Inv cfg ((s.markYielded y).setCpu c .outside) xs := by
  have stay : ∀ q l, ((s.markYielded y).setCpu c .outside).At xs q l → l ≠ .leaving c ∧
      s.At xs q l ∧ ∀ state, ((s.markYielded y).setCpu c .outside).expects l = some state →
        s.expects l = some state := by
    intro q l h
    rcases at_setCpu h with ⟨rfl, has⟩ | ⟨rfl, left⟩ | ⟨_, ne, h, same⟩
    · refine ⟨by simp, ?_, by simp [Sys.expects, Sys.setCpu, pc, CpuPc.expects]⟩
      simpa [Sys.At, pc, CpuPc.holds, Sys.markYielded] using has
    · simp [CpuPc.leaving] at left
    · exact ⟨ne, h, fun state => same ▸ id⟩
  cases y with
  | none => exact inv.keep inv.queued (fun q l h => (stay q l h).2) (fun _ => ⟨rfl, rfl⟩)
  | some p =>
    have had : s.At xs p (.leaving c) := by simp [Sys.At, pc, CpuPc.leaving]
    refine inv.move p .queue inv.queued (fun q l _ h => (stay q l h).2) (fun q ne => ⟨rfl, ?_⟩) ?_
    · simp [Sys.markYielded, Sys.setCpu, ne]
    · intro l h
      obtain ⟨ne, before, _⟩ := stay p l h
      exact absurd (inv.unique p _ _ before had) ne

theorem Inv.callWakeUp (inv : Inv cfg s xs) (hp : p < cfg.processCount) (may : OncePerYield s p) :
    Inv cfg ((s.markAwoken p).setWaker w (.readying p)) xs := by
  have nowhere : ∀ l, ¬ s.At xs p l := by
    intro l h
    exact absurd ((inv.awoken p l h).symm.trans may.2) (by simp)
  refine inv.move p (.waker w) inv.queued ?_ (fun q ne => ⟨rfl, ?_⟩) ?_
  · intro q l ne h
    rcases at_setWaker h with ⟨rfl, has⟩ | ⟨_, h, same⟩
    · exact absurd (by simpa [WakerPc.holds] using has.symm) ne
    · exact ⟨h, fun state => same ▸ id⟩
  · simp [Sys.markAwoken, Sys.setWaker, ne]
  · intro l h
    rcases at_setWaker h with ⟨rfl, _⟩ | ⟨_, h, _⟩
    · refine ⟨rfl, ?_, hp, ?_⟩
      · simp [Sys.markAwoken, Sys.setWaker]
      · simp [Sys.expects, Sys.setWaker, WakerPc.expects]
    · exact absurd h (nowhere l)

theorem Inv.ready (inv : Inv cfg s xs) (pc : s.waker w = .readying p) :
    Inv cfg ((s.setStudent (s.student.setState p .ready)).setWaker w (.enqueueing p)) xs := by
  have had : s.At xs p (.waker w) := by simp [Sys.At, pc, WakerPc.holds]
  refine inv.move p (.waker w) (inv.queued.congr (next_setState _) rfl rfl) ?_
    (fun q ne => ⟨(state_setState _).trans (if_neg ne), rfl⟩) ?_
  · intro q l ne h
    rcases at_setWaker h with ⟨rfl, has⟩ | ⟨_, h, same⟩
    · exact absurd (by simpa [WakerPc.holds] using has.symm) ne
    · exact ⟨h, fun state => same ▸ id⟩
  · intro l h
    have spot : l = .waker w := by
      rcases at_setWaker h with ⟨rfl, _⟩ | ⟨_, h, _⟩
      · rfl
      · exact inv.unique p l (.waker w) h had
    refine ⟨spot, inv.awoken p _ had, inv.inTable p _ had, ?_⟩
    simp [Sys.expects, Sys.setWaker, WakerPc.expects, Sys.setStudent, state_setState]

theorem Inv.enqueue (inv : Inv cfg s xs) (pc : s.waker w = .enqueueing p)
    (ok : s.student.enqueue time p = some u) (wakes : Nat → Bool) :
    Inv cfg ((((s.setStudent u).signal wakes).markEnqueued p).setWaker w (.choosing p))
      (xs ++ [p]) := by
  have had : s.At xs p (.waker w) := by simp [Sys.At, pc, WakerPc.holds]
  obtain ⟨queued, links⟩ := inv.enqueued had (by simp) ok
  have ready := inv.state p (.waker w) .ready had (by simp [Sys.expects, pc, WakerPc.expects])
  refine inv.join had ready queued links rfl ?_
  intro q l thread h
  rcases at_setWaker h with ⟨rfl, has⟩ | ⟨ne, before, same⟩
  · simp [WakerPc.holds] at has
  · have before := (at_signal wakes l).mp before
    exact ⟨ne, at_setStudent links.current thread before, same.trans (expects_signal wakes l)⟩

end

/-! ## Every step -/

theorem Inv.step (inv : Inv cfg s xs) (step : Step cfg OncePerYield s t) : ∃ ys, Inv cfg t ys := by
  cases step with
  | callIdle => exact ⟨xs, inv.advance (by simp [CpuPc.holds]) (by simp [CpuPc.leaving])⟩
  | look =>
    refine ⟨xs, inv.advance ?_ ?_⟩
    · split <;> simp [CpuPc.holds]
    · split <;> simp [CpuPc.leaving]
  | spurious => exact ⟨xs, inv.advance (by simp [CpuPc.holds]) (by simp [CpuPc.leaving])⟩
  | callPreempt hc out busy | callYield hc out busy | callTerminate hc out busy =>
    exact ⟨xs, inv.advance (by simp [out, CpuPc.holds, CpuPc.expects]) (by simp [CpuPc.leaving])⟩
  | preempt hc pc current => exact ⟨xs, inv.preempt pc current⟩
  | requeue hc pc ok => exact ⟨_, inv.requeue pc ok _⟩
  | yield hc pc current => exact ⟨xs, inv.yield pc current⟩
  | terminate hc pc current => exact ⟨xs, inv.terminate pc current⟩
  | dequeueNone hc pc ok =>
    obtain ⟨rfl, rfl⟩ := inv.dequeued_none ok
    exact ⟨[], inv.dequeueNone pc⟩
  | dequeue hc pc ok =>
    obtain ⟨before, after, rfl, queued, links⟩ := inv.dequeued ok
    exact ⟨before ++ after, inv.dequeue pc queued links⟩
  | mark hc pc => exact ⟨xs, inv.mark pc⟩
  | publish hc pc => exact ⟨xs, inv.publish pc⟩
  | contextSwitch hc pc => exact ⟨xs, inv.contextSwitch pc⟩
  | callWakeUp out hp may => exact ⟨xs, inv.callWakeUp hp may⟩
  | ready pc => exact ⟨xs, inv.ready pc⟩
  | enqueue pc ok => exact ⟨_, inv.enqueue pc ok _⟩
  | @choose w p times pc =>
    refine ⟨xs, inv.rest ?_⟩
    cases s.student.victimCpu cfg times p <;> simp [WakerPc.holds]
  | forcePreempt => exact ⟨xs, inv.rest (by simp [WakerPc.holds])⟩

theorem Start.inv (start : Start s) : Inv cfg s [] := by
  have nowhere : ∀ p l, ¬ s.At [] p l := by
    intro p l h
    cases l with
    | queue => exact absurd h List.not_mem_nil
    | cpu c => simp [Sys.At, start.cpu, CpuPc.holds, start.current] at h
    | leaving c => simp [Sys.At, start.cpu, CpuPc.leaving] at h
    | waker w => simp [Sys.At, start.waker, WakerPc.holds] at h
  exact ⟨⟨start.head, start.tail, fun p _ => start.next p⟩, fun p l _ h => absurd h (nowhere p l),
    fun p l _ h => absurd h (nowhere p l), fun p l h => absurd h (nowhere p l),
    fun p l h => absurd h (nowhere p l)⟩

theorem Reachable.inv (reach : Reachable cfg OncePerYield s) : ∃ xs, Inv cfg s xs := by
  induction reach with
  | start start => exact ⟨[], start.inv⟩
  | next _ step ih =>
    obtain ⟨xs, inv⟩ := ih
    exact inv.step step

end

end SystemsProjects.Sched
