import SystemsProjects.Sched.Aging

/-!
# The ready queue is a list

Over all sequences of `enqueue` and `dequeue`, each of them under `queue_mutex`. In
between, the rest of the program may change the processes, but no `next`.
-/

namespace SystemsProjects.Sched

open Links

/-- The processes in `rq`. -/
def Student.contents (cfg : Config) (s : Student) : List Nat := walk s.next cfg.processCount s.head

/-- A call on the queue, or something else. -/
inductive QueueStep (cfg : Config) : Student → Student → Prop
  | enqueue {s t p} (time : UInt32) (process : p < cfg.processCount) (new : p ∉ s.contents cfg)
      (ok : s.enqueue time p = some t) : QueueStep cfg s t
  | dequeue {s t p} (times : Nat → UInt32) (ok : s.dequeue cfg times = some (p, t)) :
      QueueStep cfg s t
  | elsewhere {s t} (next : t.next = s.next) (head : t.head = s.head) (tail : t.tail = s.tail) :
      QueueStep cfg s t

inductive QueueReachable (cfg : Config) : Student → Prop
  | start {s} (head : s.head = none) (tail : s.tail = none) (next : ∀ p, s.next p = none) :
      QueueReachable cfg s
  | next {s t} : QueueReachable cfg s → QueueStep cfg s t → QueueReachable cfg t

/-- `p`, between the others of the list, is the one that the policy selects. Which
it is under PA depends on the clock. -/
def Selects (cfg : Config) (s : Student) (before : List Nat) (p : Nat) (after : List Nat) : Prop :=
  match cfg.schedulerAlgorithm with
  | .rr => before = []
  | .fcfs => FirstLeast (fun r => (s.pcbs r).arrivalTime.toNat) before p after
  | .srtf => FirstLeast (fun r => s.remaining r) before p after
  | .pa => True

/-- `rq` is the list `xs`, and so are the calls on it. -/
structure IsList (cfg : Config) (s : Student) (xs : List Nat) : Prop where
  chain : Chain s.next s.head xs
  head : s.head = none ↔ xs = []
  tail : ∀ p, xs.getLast? = some p → s.tail = some p ∧ s.next p = none
  outside : ∀ p, p ∉ xs → s.next p = none
  enqueue : ∀ time p, p < cfg.processCount → p ∉ xs →
    ∃ t, s.enqueue time p = some t ∧ t.contents cfg = xs ++ [p]
  dequeueNull : ∀ times t, s.dequeue cfg times = some (none, t) → xs = [] ∧ t = s
  dequeue : ∀ times, xs ≠ [] → ∃ before p after t, xs = before ++ p :: after ∧
    s.dequeue cfg times = some (some p, t) ∧ t.contents cfg = before ++ after ∧
    Selects cfg s before p after
  dequeueEmpty : ∀ times, xs = [] → s.dequeue cfg times = some (none, s)

section

variable {cfg : Config} {s t : Student} {xs before after : List Nat} {p m : Nat}
  {times : Nat → UInt32}

theorem Queued.contents (q : Queued s xs) (inside : ∀ p ∈ xs, p < cfg.processCount) :
    s.contents cfg = xs :=
  q.chain.walk (q.fits inside)

/-- A process is in one place of the list only. -/
theorem split_unique {before' after' : List Nat} (once : (before ++ p :: after).Nodup)
    (same : before ++ p :: after = before' ++ p :: after') : before = before' ∧ after = after' := by
  obtain ⟨out, later⟩ := List.nodup_middle.mp once |> List.nodup_cons.mp |>.1 |> mt
    List.mem_append.mpr |> not_or.mp
  obtain ⟨rfl, -, rfl⟩ := (List.append_cons_inj_of_notMem out later).mp same
  exact ⟨rfl, rfl⟩

/-- Under a criterion that does not depend on the time the first of the least is returned. -/
theorem dequeue_firstLeast {key : Nat → Nat} (order : s.criterion cfg times = some fun _ => key)
    (q : Queued s (before ++ p :: after)) (fits : (before ++ p :: after).length ≤ cfg.processCount)
    (ok : s.dequeue cfg times = some (some p, t)) : FirstLeast (fun r => key r) before p after := by
  have filled : before ++ p :: after ≠ [] := by simp
  obtain ⟨before', m, after', split, first⟩ := exists_firstLeast (fun r => (key r : Int)) filled
  have least : ∃ t, s.dequeue cfg times = some (some m, t) := by
    apply dequeue_least order (split ▸ q) (split ▸ fits)
    · exact fun r mem _ _ _ => Int.ofNat_lt.mp (first.before r mem)
    · exact fun r mem _ _ _ => Int.ofNat_le.mp (first.after r mem)
  obtain ⟨t', ok'⟩ := least
  rw [ok] at ok'
  cases ok'
  obtain ⟨rfl, rfl⟩ := split_unique q.nodup split
  exact first

theorem dequeue_selects (q : Queued s (before ++ p :: after))
    (fits : (before ++ p :: after).length ≤ cfg.processCount)
    (ok : s.dequeue cfg times = some (some p, t)) : Selects cfg s before p after := by
  unfold Selects
  cases policy : cfg.schedulerAlgorithm with
  | pa => trivial
  | rr =>
    have order : s.criterion cfg times = none := by rw [Student.criterion, policy]
    have head : s.head = (before ++ p :: after).head? := q.chain.head_eq
    cases before with
    | nil => rfl
    | cons a before =>
      rw [List.cons_append, List.head?_cons] at head
      simp only [Student.dequeue, head, order, Option.some.injEq, Prod.mk.injEq] at ok
      obtain ⟨rfl, -⟩ := ok
      exact absurd (List.mem_append_right _ List.mem_cons_self) (List.nodup_cons.mp q.nodup).1
  | fcfs =>
    apply dequeue_firstLeast _ q fits ok
    rw [Student.criterion, policy]
  | srtf =>
    apply dequeue_firstLeast _ q fits ok
    rw [Student.criterion, policy]

/-! ## Runs -/

/-- What a run keeps. -/
structure Listed (cfg : Config) (s : Student) (xs : List Nat) : Prop where
  queued : Queued s xs
  inside : ∀ p ∈ xs, p < cfg.processCount

theorem Listed.fits (h : Listed cfg s xs) : xs.length ≤ cfg.processCount := h.queued.fits h.inside

theorem Listed.contents (h : Listed cfg s xs) : s.contents cfg = xs := h.queued.contents h.inside

theorem Listed.enqueue (h : Listed cfg s xs) (time : UInt32) (process : p < cfg.processCount)
    (new : p ∉ xs) :
    ∃ t, s.enqueue time p = some t ∧ Listed cfg t (xs ++ [p]) := by
  obtain ⟨t, ok, queued, _⟩ := enqueue_spec time h.queued new
  refine ⟨t, ok, queued, fun r mem => ?_⟩
  obtain old | here := List.mem_append.mp mem
  · exact h.inside r old
  · exact List.mem_singleton.mp here ▸ process

theorem Listed.dequeue (h : Listed cfg s xs) (times : Nat → UInt32) (filled : xs ≠ []) :
    ∃ before p after t, xs = before ++ p :: after ∧ s.dequeue cfg times = some (some p, t) ∧
      Listed cfg t (before ++ after) ∧ Selects cfg s before p after := by
  obtain ⟨before, p, after, t, rfl, ok, queued, -, -⟩ := dequeue_spec times h.queued h.fits filled
  refine ⟨before, p, after, t, rfl, ok, ⟨queued, fun r mem => ?_⟩,
    dequeue_selects h.queued h.fits ok⟩
  obtain mem | mem := List.mem_append.mp mem
  · exact h.inside r (List.mem_append_left _ mem)
  · exact h.inside r (List.mem_append_right _ (List.mem_cons_of_mem p mem))

theorem Listed.step (h : Listed cfg s xs) (step : QueueStep cfg s t) : ∃ ys, Listed cfg t ys := by
  cases step with
  | enqueue time process new ok =>
    rw [h.contents] at new
    obtain ⟨t', ok', listed⟩ := h.enqueue time process new
    rw [ok] at ok'
    cases ok'
    exact ⟨_, listed⟩
  | dequeue times ok =>
    by_cases empty : xs = []
    · subst empty
      rw [dequeue_empty h.queued] at ok
      cases ok
      exact ⟨[], h⟩
    · obtain ⟨before, p, after, t', -, ok', listed, -⟩ := h.dequeue times empty
      rw [ok] at ok'
      cases ok'
      exact ⟨_, listed⟩
  | elsewhere next head tail => exact ⟨xs, h.queued.congr next head tail, h.inside⟩

theorem QueueReachable.listed (reach : QueueReachable cfg s) : ∃ xs, Listed cfg s xs := by
  induction reach with
  | start head tail next => exact ⟨[], ⟨head, tail, fun p _ => next p⟩, nofun⟩
  | next _ step ih =>
    obtain ⟨xs, listed⟩ := ih
    exact listed.step step

theorem Listed.isList (h : Listed cfg s xs) : IsList cfg s xs where
  chain := h.queued.chain
  head := by rw [h.queued.chain.head_eq, List.head?_eq_none_iff]
  tail p last := ⟨h.queued.tail.trans last, h.queued.chain.next_last last⟩
  outside := h.queued.unlinked
  enqueue time p process new := by
    obtain ⟨t, ok, listed⟩ := h.enqueue time process new
    exact ⟨t, ok, listed.contents⟩
  dequeueNull times t ok := by
    by_cases empty : xs = []
    · subst empty
      rw [dequeue_empty h.queued] at ok
      cases ok
      exact ⟨rfl, rfl⟩
    · obtain ⟨before, p, after, t', -, ok', -⟩ := h.dequeue times empty
      rw [ok] at ok'
      cases ok'
  dequeue times filled := by
    obtain ⟨before, p, after, t, split, ok, listed, selects⟩ := h.dequeue times filled
    exact ⟨before, p, after, t, split, ok, listed.contents, selects⟩
  dequeueEmpty times empty := by
    subst empty
    exact dequeue_empty h.queued

end

/-- In every reachable state. -/
theorem queue_is_list {cfg : Config} {s : Student} (reach : QueueReachable cfg s) :
    IsList cfg s (s.contents cfg) := by
  obtain ⟨xs, listed⟩ := reach.listed
  rw [listed.contents]
  exact listed.isList

/-- Two processes under SRTF, neither of them ready yet. -/
def twoNew : Student where
  pcbs p := ⟨10, .new, none, 0, 0, if p = 1 then 3 else 5⟩
  head := none
  tail := none
  current _ := none

def shortestConfig : Config := ⟨1, 2, .srtf, 0, -1⟩

/-- Once both are enqueued, the second is taken. -/
theorem queue_is_list_two : ∃ s, QueueReachable shortestConfig s ∧ IsList shortestConfig s [0, 1] ∧
    (s.dequeue shortestConfig fun _ => 0).map Prod.fst = some (some 1) := by
  have start : QueueReachable shortestConfig twoNew := .start rfl rfl fun _ => rfl
  have first := start.next (.enqueue 0 (by decide) (by decide) (enqueue_empty (p := 0) rfl))
  have second := first.next (.enqueue 0 (by decide) (by decide) (enqueue_tail (p := 1) rfl rfl))
  exact ⟨_, second, queue_is_list second, by decide⟩

end SystemsProjects.Sched
