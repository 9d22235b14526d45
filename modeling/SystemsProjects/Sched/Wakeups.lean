import SystemsProjects.Sched.Exclusion
import SystemsProjects.Lib.Counting

/-!
# No CPU sleeps through available work

`enqueue` wakes one sleeper, and what it has been woken for may be gone when it
looks again. While someone sleeps, though, there is a thread on its way to a
look or a `dequeue` for every process in the queue.
-/

namespace SystemsProjects.Sched

open Links Counting

/-- Woken, and has not yet looked at the queue again. -/
def CpuPc.rechecks : CpuPc → Bool
  | .woken => true
  | _ => false

/-- Past the wait loop of `idle`, or in another handler, and before `dequeue`. -/
def CpuPc.dequeues : CpuPc → Bool
  | .preempting | .requeueing _ | .yielding | .terminating | .dequeueing _ => true
  | _ => false

/-- The number of CPU threads whose position is in `p`. -/
def Sys.threads (cfg : Config) (s : Sys) (p : CpuPc → Bool) : Nat :=
  ((Finset.range cfg.cpuCount).filter (fun c => p (s.cpu c))).card

def CpuPc.weight : CpuPc → Nat
  | .woken | .preempting | .requeueing _ | .yielding | .terminating | .dequeueing _ => 1
  | _ => 0

def Sys.onTheWay (cfg : Config) (s : Sys) : Nat :=
  ∑ c ∈ Finset.range cfg.cpuCount, (s.cpu c).weight

def Sys.Sleeper (cfg : Config) (s : Sys) : Prop := ∃ c < cfg.cpuCount, s.cpu c = .asleep

/-- If someone sleeps, `k` threads are on their way. -/
def Covers (cfg : Config) (s : Sys) (k : Nat) : Prop := s.Sleeper cfg → k ≤ s.onTheWay cfg

section

variable {cfg : Config} {s t : Sys} {xs ys : List Nat} {c k : Nat} {pc : CpuPc}

theorem onTheWay_eq : s.onTheWay cfg = s.threads cfg CpuPc.rechecks +
    s.threads cfg CpuPc.dequeues := by
  have split : ∀ pc : CpuPc, pc.weight = (if pc.rechecks then 1 else 0) +
      if pc.dequeues then 1 else 0 := by
    intro pc
    cases pc <;> rfl
  simp only [Sys.onTheWay, Sys.threads, split, Finset.card_filter, Finset.sum_add_distrib]

/-- One thread moves on, without falling asleep. -/
theorem Covers.move (h : Covers cfg s k) (hc : c < cfg.cpuCount) (awake : pc ≠ .asleep) {j : Nat}
    (le : j + (s.cpu c).weight ≤ k + pc.weight) : Covers cfg (s.setCpu c pc) j := by
  rintro ⟨d, hd, asleep⟩
  have ne : d ≠ c := by
    rintro rfl
    exact awake ((if_pos rfl).symm.trans asleep)
  have before : s.cpu d = .asleep := (if_neg ne).symm.trans asleep
  have covered := h ⟨d, hd, before⟩
  have moved := sum_move (f := fun x => (s.cpu x).weight)
    (g := fun x => ((s.setCpu c pc).cpu x).weight) hc
    (fun x ne => congrArg CpuPc.weight (if_neg ne))
  simp only [Sys.setCpu, if_true] at moved
  simp only [Sys.onTheWay, Sys.setCpu] at covered ⊢
  omega

/-- A signal makes up for one more process. -/
theorem Covers.signal {wakes : Nat → Bool} (h : Covers cfg s k) (signals : s.Signals cfg wakes) :
    Covers cfg (s.signal wakes) (k + 1) := by
  rintro ⟨d, hd, asleep⟩
  have before : s.cpu d = .asleep := by
    simp only [Sys.signal] at asleep
    split at asleep
    · cases asleep
    · exact asleep
  obtain ⟨c, hc, sleeps, woken⟩ := signals ⟨d, hd, before⟩
  have grown : s.onTheWay cfg + 1 ≤ (s.signal wakes).onTheWay cfg := by
    refine sum_grows hc (fun x => ?_) ?_
    · simp only [Sys.signal]
      split
      · rename_i both
        rw [both.1]
        decide
      · exact Nat.le_refl _
    · simp [Sys.signal, sleeps, woken, CpuPc.weight]
  exact Nat.le_trans (Nat.succ_le_succ (h ⟨d, hd, before⟩)) grown

/-- The list `xs` of the queue is covered. -/
theorem Step.covers (step : Step cfg OncePerYield s t) (inv : Inv cfg s xs) (inv' : Inv cfg t ys)
    (h : Covers cfg s xs.length) : Covers cfg t ys.length := by
  -- while the links stay as they are, so does the list
  have same : ∀ {zs}, Queued t.student zs → ys = zs := fun q => inv'.queued.chain.unique q.chain
  cases step with
  | callIdle hc out free =>
    obtain rfl := same inv.queued
    exact h.move hc (by simp) (by simp [out, CpuPc.weight])
  | @look c hc pc =>
    obtain rfl := same inv.queued
    cases empty : s.student.isEmpty with
    | true =>
      obtain rfl := inv.queued.isEmpty_iff.mp empty
      exact fun _ => Nat.zero_le _
    | false =>
      refine h.move hc (by simp) ?_
      rcases pc with pc | pc <;> simp [pc, CpuPc.weight]
  | spurious hc pc =>
    obtain rfl := same inv.queued
    exact h.move hc (by simp) (by simp [pc, CpuPc.weight])
  | callPreempt hc out busy =>
    obtain rfl := same inv.queued
    exact h.move hc (by simp) (by simp [out, CpuPc.weight])
  | callYield hc out busy =>
    obtain rfl := same inv.queued
    exact h.move hc (by simp) (by simp [out, CpuPc.weight])
  | callTerminate hc out busy =>
    obtain rfl := same inv.queued
    exact h.move hc (by simp) (by simp [out, CpuPc.weight])
  | preempt hc pc current =>
    obtain rfl := same (inv.queued.congr (next_setState _) rfl rfl)
    exact h.move hc (by simp) (by simp [pc, CpuPc.weight])
  | @requeue c p time wakes u hc pc ok signals =>
    have had : s.At xs p (.cpu c) := by simp [Sys.At, pc, CpuPc.holds]
    obtain ⟨u', ok', queued, _⟩ := enqueue_spec time inv.queued
      (fun mem => absurd (inv.unique p .queue (.cpu c) mem had) (by simp))
    obtain rfl : u' = u := Option.some.inj (ok'.symm.trans ok)
    obtain rfl := same queued
    have signaled : Covers cfg (s.signal wakes) (xs.length + 1) := h.signal signals
    refine signaled.move hc (by simp) ?_
    simp [Sys.signal, pc, CpuPc.weight]
  | yield hc pc current =>
    obtain rfl := same (inv.queued.congr (next_setState _) rfl rfl)
    exact h.move hc (by simp) (by simp [pc, CpuPc.weight])
  | terminate hc pc current =>
    obtain rfl := same (inv.queued.congr (next_setState _) rfl rfl)
    exact h.move hc (by simp) (by simp [pc, CpuPc.weight])
  | @dequeueNone c y times u hc pc ok =>
    cases xs with
    | nil =>
      rw [dequeue_empty inv.queued] at ok
      cases ok
      obtain rfl := same inv.queued
      exact fun _ => Nat.zero_le _
    | cons a xs =>
      obtain ⟨_, _, _, _, _, some, _⟩ := dequeue_spec times inv.queued inv.fits (by simp)
      simp [ok] at some
  | @dequeue c y times p u hc pc ok =>
    have filled : xs ≠ [] := by
      rintro rfl
      simp [dequeue_empty inv.queued] at ok
    obtain ⟨before, p', after, u', rfl, ok', queued, _⟩ :=
      dequeue_spec times inv.queued inv.fits filled
    obtain ⟨rfl, rfl⟩ : p' = p ∧ u' = u := by simpa using ok'.symm.trans ok
    obtain rfl := same queued
    refine h.move hc (by simp) ?_
    simp only [pc, CpuPc.weight, List.length_append, List.length_cons]
    omega
  | mark hc pc =>
    obtain rfl := same (inv.queued.congr (next_setState _) rfl rfl)
    exact h.move hc (by simp) (by simp [pc, CpuPc.weight])
  | publish hc pc =>
    obtain rfl := same (inv.queued.congr rfl rfl rfl)
    exact h.move hc (by simp) (by simp [pc, CpuPc.weight])
  | contextSwitch hc pc =>
    obtain rfl := same inv.queued
    exact h.move hc (by simp) (by simp [pc, CpuPc.weight])
  | callWakeUp out hp may =>
    obtain rfl := same inv.queued
    exact h
  | ready pc =>
    obtain rfl := same (inv.queued.congr (next_setState _) rfl rfl)
    exact h
  | @enqueue w p time wakes u pc ok signals =>
    have had : s.At xs p (.waker w) := by simp [Sys.At, pc, WakerPc.holds]
    obtain ⟨u', ok', queued, _⟩ := enqueue_spec time inv.queued
      (fun mem => absurd (inv.unique p .queue (.waker w) mem had) (by simp))
    obtain rfl : u' = u := Option.some.inj (ok'.symm.trans ok)
    obtain rfl := same queued
    have signaled : Covers cfg (s.signal wakes) (xs.length + 1) := h.signal signals
    rw [List.length_append, List.length_singleton]
    exact signaled
  | choose pc =>
    obtain rfl := same inv.queued
    exact h
  | forcePreempt pc =>
    obtain rfl := same inv.queued
    exact h

theorem Reachable.covers (reach : Reachable cfg OncePerYield s) :
    ∃ xs, Inv cfg s xs ∧ Covers cfg s xs.length := by
  induction reach with
  | start start => exact ⟨[], start.inv, fun _ => Nat.zero_le _⟩
  | next _ step ih =>
    obtain ⟨xs, inv, covers⟩ := ih
    obtain ⟨ys, inv'⟩ := inv.step step
    exact ⟨ys, inv', step.covers inv inv' covers⟩

end

/-- While a CPU sleeps in `idle`, there are at least as many threads on their way
to a look or to a `dequeue` as processes in `rq`, so at least one if there is a
process. -/
theorem no_sleep_through_work {cfg : Config} {s : Sys} (reach : Reachable cfg OncePerYield s) :
    ∃ xs, Chain s.student.next s.student.head xs ∧ (s.Sleeper cfg →
      xs.length ≤ s.threads cfg CpuPc.rechecks + s.threads cfg CpuPc.dequeues ∧
      (xs ≠ [] → ∃ c < cfg.cpuCount, (s.cpu c).rechecks ∨ (s.cpu c).dequeues)) := by
  obtain ⟨xs, inv, covers⟩ := reach.covers
  refine ⟨xs, inv.queued.chain, fun sleeper => ⟨?_, fun filled => ?_⟩⟩
  · rw [← onTheWay_eq]
    exact covers sleeper
  · have some : 0 < s.onTheWay cfg :=
      Nat.lt_of_lt_of_le (List.length_pos_iff.mpr filled) (covers sleeper)
    obtain ⟨c, hc, pos⟩ := exists_pos some
    refine ⟨c, hc, ?_⟩
    cases pc : s.cpu c <;> simp [pc, CpuPc.weight, CpuPc.rechecks, CpuPc.dequeues] at pos ⊢

/-- Both CPUs sleep, a process is woken, and the signal goes to CPU 0. -/
theorem work_for_two_sleepers : ∃ s, Reachable (roundRobin 2) OncePerYield s ∧ s.cpu 1 = .asleep ∧
    s.student.head = some 0 ∧ ∃ c < 2, (s.cpu c).rechecks ∨ (s.cpu c).dequeues := by
  have s₀ : Reachable (roundRobin 2) OncePerYield idleSys := .start idleSys_start
  have s₁ := s₀.next (.callIdle (c := 0) (by decide) rfl rfl)
  have s₂ := s₁.next (.look (c := 0) (by decide) (Or.inl rfl))
  have s₃ := s₂.next (.callIdle (c := 1) (by decide) rfl rfl)
  have s₄ := s₃.next (.look (c := 1) (by decide) (Or.inl rfl))
  have s₅ := s₄.next (.callWakeUp (w := 0) (p := 0) rfl (by decide) ⟨Or.inl rfl, rfl⟩)
  have s₆ := s₅.next (.ready (w := 0) rfl)
  have s₇ := s₆.next (@Step.enqueue _ _ _ 0 0 0 (fun c => c == 0) _ rfl rfl
    (fun _ => ⟨0, by decide, rfl, rfl⟩))
  refine ⟨_, s₇, rfl, rfl, ?_⟩
  obtain ⟨xs, chain, covered⟩ := no_sleep_through_work s₇
  refine (covered ⟨1, by decide, rfl⟩).2 ?_
  rintro rfl
  exact Option.some_ne_none 0 chain

end SystemsProjects.Sched
