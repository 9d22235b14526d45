import SystemsProjects.Lib.Links

/-!
# The ready queue

`enqueue` and `dequeue` of `student.c`. A `pcb_t *` is an index into `processes[]`,
`NULL` is `none`. A walk of more steps than there are processes never ends; it
and the use of a `NULL` tail have no result.
-/

namespace SystemsProjects.Sched

open Links

inductive ProcessState where
  | new | ready | running | waiting | terminated
  deriving DecidableEq

inductive SchedAlgorithm where
  | fcfs | pa | rr | srtf
  deriving DecidableEq

structure Pcb where
  priority : UInt32
  state : ProcessState
  next : Option Nat
  enqueueTime : UInt32
  arrivalTime : UInt32
  totalTimeRemaining : UInt32
  deriving DecidableEq

/-- The static variables of `student.c`, and `processes[]`. -/
structure Student where
  pcbs : Nat → Pcb
  head : Option Nat
  tail : Option Nat
  current : Nat → Option Nat

/-- What `main` sets from the command line, and `PROCESS_COUNT`. -/
structure Config where
  cpuCount : Nat
  processCount : Nat
  schedulerAlgorithm : SchedAlgorithm
  ageWeight : UInt32
  timeslice : Int

/-- The conversion to `double` is exact, so the result stays an `unsigned int`. -/
def priorityWithAge (cfg : Config) (currentTime : UInt32) (process : Pcb) : UInt32 :=
  process.priority - (currentTime - process.enqueueTime) * cfg.ageWeight

namespace Student

def next (s : Student) (p : Nat) : Option Nat := (s.pcbs p).next

def remaining (s : Student) (p : Nat) : Nat := (s.pcbs p).totalTimeRemaining.toNat

/-- `processes[p]` changed by `f`. -/
def modify (s : Student) (p : Nat) (f : Pcb → Pcb) : Student :=
  { s with pcbs := fun r => if r = p then f (s.pcbs r) else s.pcbs r }

def setNext (s : Student) (p : Nat) (n : Option Nat) : Student :=
  s.modify p (fun b => { b with next := n })

def setState (s : Student) (p : Nat) (state : ProcessState) : Student :=
  s.modify p (fun b => { b with state := state })

def isEmpty (s : Student) : Bool := s.head.isNone

/-- `enqueue`; `time` is what `get_current_time` returns. -/
def enqueue (time : UInt32) (s : Student) (process : Nat) : Option Student := do
  let s ← if s.isEmpty then some { s with head := some process, tail := some process }
    else do
      let tail ← s.tail
      some { s.setNext tail (some process) with tail := some process }
  return s.modify process (fun b => { b with enqueueTime := time })

/-- What the policy compares: the `k`-th evaluation of it in one `dequeue`, at
which `get_current_time` returns `times k`. Round robin compares nothing. -/
def criterion (cfg : Config) (times : Nat → UInt32) (s : Student) : Option (Nat → Nat → Nat) :=
  match cfg.schedulerAlgorithm with
  | .pa => some fun k p => (priorityWithAge cfg (times k) (s.pcbs p)).toNat
  | .srtf => some fun _ p => s.remaining p
  | .rr => none
  | .fcfs => some fun _ p => (s.pcbs p).arrivalTime.toNat

/-- The loop of `dequeue`: from `curr` on, `found` is the pair of `chosen_prev` and
`chosen`, and `best` what the criterion gave for the latter. -/
def choose (key : Nat → Nat → Nat) (next : Nat → Option Nat) :
    Nat → Nat → Option Nat → Option Nat → Option Nat × Nat → Nat → Option (Option Nat × Nat)
  | _, _, none, _, found, _ => some found
  | 0, _, some _, _, _, _ => none
  | fuel + 1, k, some curr, prev, found, best =>
    if key k curr < best then
      choose key next fuel (k + 2) (next curr) (some curr) (prev, curr) (key (k + 1) curr)
    else choose key next fuel (k + 1) (next curr) (some curr) found best

def removeHead (s : Student) (process : Nat) : Student :=
  let s := { s with head := s.next process }
  let s := if s.tail = some process then { s with tail := none } else s
  s.setNext process none

def removeAfter (s : Student) (chosenPrev chosen : Nat) : Student :=
  let s := s.setNext chosenPrev (s.next chosen)
  let s := if s.tail = some chosen then { s with tail := some chosenPrev } else s
  s.setNext chosen none

/-- `dequeue`: the process, or `none` for an empty queue. -/
def dequeue (cfg : Config) (times : Nat → UInt32) (s : Student) : Option (Option Nat × Student) :=
  match s.head with
  | none => some (none, s)
  | some head =>
    match s.criterion cfg times with
    | none => some (some head, s.removeHead head)
    | some key => do
      let (chosenPrev, chosen) ←
        choose key s.next cfg.processCount 1 (some head) none (none, head) (key 0 head)
      match chosenPrev with
      | none => some (some head, s.removeHead head)
      | some prev => some (some chosen, s.removeAfter prev chosen)

end Student

/-! ## The queue as a list -/

/-- `rq` is the list `xs` of processes, and no process outside it has a link. -/
structure Queued (s : Student) (xs : List Nat) : Prop where
  chain : Chain s.next s.head xs
  tail : s.tail = xs.getLast?
  unlinked : ∀ p, p ∉ xs → s.next p = none

/-- `t` is `s` but for the queue and the enqueue times. -/
structure LinksOnly (s t : Student) : Prop where
  current : t.current = s.current
  state : ∀ p, (t.pcbs p).state = (s.pcbs p).state
  remaining : ∀ p, t.remaining p = s.remaining p

section

variable {s t : Student} {xs ys : List Nat} {p r : Nat} {cfg : Config} {time : UInt32}
  {times : Nat → UInt32}

theorem Queued.nodup (q : Queued s xs) : xs.Nodup := q.chain.nodup

theorem Queued.fits (q : Queued s xs) {n : Nat} (lt : ∀ p ∈ xs, p < n) : xs.length ≤ n := by
  have sub : xs ⊆ List.range n := fun p hp => List.mem_range.mpr (lt p hp)
  simpa using (List.subperm_of_subset q.nodup sub).length_le

theorem Queued.isEmpty_iff (q : Queued s xs) : s.isEmpty = true ↔ xs = [] := by
  rw [Student.isEmpty, q.chain.head_eq, Option.isNone_iff_eq_none, List.head?_eq_none_iff]

@[simp] theorem modify_head (f : Pcb → Pcb) : (s.modify p f).head = s.head := rfl
@[simp] theorem modify_tail (f : Pcb → Pcb) : (s.modify p f).tail = s.tail := rfl
@[simp] theorem modify_current (f : Pcb → Pcb) : (s.modify p f).current = s.current := rfl

theorem modify_pcbs (f : Pcb → Pcb) :
    (s.modify p f).pcbs r = if r = p then f (s.pcbs r) else s.pcbs r := rfl

theorem next_setNext (n : Option Nat) : (s.setNext p n).next = link s.next p n := by
  funext r
  simp only [Student.next, Student.setNext, modify_pcbs, link]
  split <;> rfl

@[simp] theorem next_modify_time :
    (s.modify p (fun b => { b with enqueueTime := time })).next = s.next := by
  funext r
  simp only [Student.next, modify_pcbs]
  split <;> rfl

@[simp] theorem next_setState (state : ProcessState) : (s.setState p state).next = s.next := by
  funext r
  simp only [Student.next, Student.setState, modify_pcbs]
  split <;> rfl

theorem state_setState (state : ProcessState) :
    ((s.setState p state).pcbs r).state = if r = p then state else (s.pcbs r).state := by
  simp only [Student.setState, modify_pcbs]
  split <;> rfl

@[simp] theorem remaining_setState (state : ProcessState) :
    (s.setState p state).remaining r = s.remaining r := by
  simp only [Student.remaining, Student.setState, modify_pcbs]
  split <;> rfl

theorem LinksOnly.trans {u : Student} (h : LinksOnly s t) (h' : LinksOnly t u) : LinksOnly s u :=
  ⟨h'.current.trans h.current, fun p => (h'.state p).trans (h.state p),
    fun p => (h'.remaining p).trans (h.remaining p)⟩

theorem linksOnly_setNext (n : Option Nat) : LinksOnly s (s.setNext p n) := by
  refine ⟨rfl, fun r => ?_, fun r => ?_⟩
  · simp only [Student.setNext, modify_pcbs]
    split <;> rfl
  · simp only [Student.remaining, Student.setNext, modify_pcbs]
    split <;> rfl

theorem linksOnly_time :
    LinksOnly s (s.modify p (fun b => { b with enqueueTime := time })) := by
  refine ⟨rfl, fun r => ?_, fun r => ?_⟩
  · simp only [modify_pcbs]
    split <;> rfl
  · simp only [Student.remaining, modify_pcbs]
    split <;> rfl

theorem linksOnly_ends (h l : Option Nat) : LinksOnly s { s with head := h, tail := l } :=
  ⟨rfl, fun _ => rfl, fun _ => rfl⟩

/-- The queue does not depend on the states of processes. -/
theorem Queued.congr (q : Queued s xs) (next : t.next = s.next) (head : t.head = s.head)
    (tail : t.tail = s.tail) : Queued t xs := by
  refine ⟨?_, tail.trans q.tail, ?_⟩
  · rw [next, head]
    exact q.chain
  · rw [next]
    exact q.unlinked

/-! ## `enqueue` -/

theorem enqueue_empty (empty : s.head = none) : s.enqueue time p =
    some ({ s with head := some p, tail := some p }.modify p (fun b =>
    { b with enqueueTime := time })) := by
  simp [Student.enqueue, Student.isEmpty, empty]

theorem enqueue_tail {a l : Nat} (head : s.head = some a) (tail : s.tail = some l) :
    s.enqueue time p =
    some ({ s.setNext l (some p) with tail := some p }.modify p (fun b =>
    { b with enqueueTime := time })) := by
  simp [Student.enqueue, Student.isEmpty, head, tail]

theorem enqueue_spec (time : UInt32) (q : Queued s xs) (new : p ∉ xs) :
    ∃ t, s.enqueue time p = some t ∧ Queued t (xs ++ [p]) ∧ LinksOnly s t := by
  cases head : s.head with
  | none =>
    obtain rfl : xs = [] := chain_none_iff.mp (head ▸ q.chain)
    refine ⟨_, enqueue_empty head, ⟨?_, rfl, ?_⟩, (linksOnly_ends _ _).trans linksOnly_time⟩
    · rw [next_modify_time]
      exact ⟨rfl, q.unlinked p new⟩
    · rw [next_modify_time]
      exact fun r _ => q.unlinked r List.not_mem_nil
  | some a =>
    have filled : xs ≠ [] := by
      rintro rfl
      exact Option.some_ne_none a (head.symm.trans q.chain)
    obtain ⟨l, last⟩ := Option.ne_none_iff_exists'.mp (mt List.getLast?_eq_none_iff.mp filled)
    refine ⟨_, enqueue_tail head (q.tail.trans last), ⟨?_, ?_, ?_⟩,
      ((linksOnly_setNext _).trans (linksOnly_ends _ _)).trans linksOnly_time⟩
    · rw [next_modify_time]
      have chain := q.chain.append last new (q.unlinked p new)
      rwa [← next_setNext] at chain
    · simp
    · intro r hr
      rw [next_modify_time]
      have outside : r ∉ xs := fun h => hr (List.mem_append_left _ h)
      have ne : r ≠ l := by
        rintro rfl
        exact outside (List.mem_of_getLast? last)
      change (s.setNext l (some p)).next r = none
      rw [next_setNext, link_other ne]
      exact q.unlinked r outside

/-! ## `dequeue` -/

/-- `chosen` is in the list and `prev` is the process before it. -/
def Splits (xs : List Nat) (prev : Option Nat) (chosen : Nat) : Prop :=
  ∃ before after, xs = before ++ chosen :: after ∧ prev = before.getLast?

/-- The walk ends, and what it finds is in the queue. -/
theorem choose_splits (key : Nat → Nat → Nat) (k best : Nat) (found : Option Nat × Nat)
    (seen : List Nat) {next : Nat → Option Nat} {fuel : Nat} {curr : Option Nat} {rest : List Nat}
    (chain : Chain next curr rest) (fits : rest.length ≤ fuel)
    (here : Splits (seen ++ rest) found.1 found.2) :
    ∃ prev chosen, Student.choose key next fuel k curr seen.getLast? found best =
      some (prev, chosen) ∧
      Splits (seen ++ rest) prev chosen := by
  induction rest generalizing seen fuel k curr found best with
  | nil =>
    obtain rfl : curr = none := chain
    exact ⟨found.1, found.2, by simp [Student.choose], here⟩
  | cons a rest ih =>
    obtain ⟨rfl, chain⟩ := chain
    cases fuel with
    | zero => simp at fits
    | succ fuel =>
      have fits : rest.length ≤ fuel := by simpa using fits
      have regroup : seen ++ a :: rest = (seen ++ [a]) ++ rest := by simp
      have last : some a = (seen ++ [a]).getLast? := by simp
      have better : Splits ((seen ++ [a]) ++ rest) seen.getLast? a :=
        ⟨seen, rest, regroup.symm, rfl⟩
      simp only [Student.choose]
      rw [regroup] at here ⊢
      rw [last]
      split
      · exact ih _ _ _ _ chain fits better
      · exact ih _ _ _ _ chain fits here

/-- With a criterion that does not change, what it finds is a least process. -/
theorem choose_least (seen : List Nat) {key : Nat → Nat} {next : Nat → Option Nat} {fuel k : Nat}
    {curr prev : Option Nat} {found result : Option Nat × Nat} {rest : List Nat}
    (chain : Chain next curr rest) (least : ∀ q ∈ seen, key found.2 ≤ key q)
    (ok : Student.choose (fun _ => key) next fuel k curr prev found (key found.2) = some result) :
    ∀ q ∈ seen ++ rest, key result.2 ≤ key q := by
  induction rest generalizing seen fuel k curr prev found with
  | nil =>
    obtain rfl : curr = none := chain
    simp only [Student.choose, Option.some.injEq] at ok
    rw [← ok, List.append_nil]
    exact least
  | cons a rest ih =>
    obtain ⟨rfl, chain⟩ := chain
    cases fuel with
    | zero => simp [Student.choose] at ok
    | succ fuel =>
      have regroup : seen ++ a :: rest = (seen ++ [a]) ++ rest := by simp
      simp only [Student.choose] at ok
      rw [regroup]
      split at ok
      · rename_i better
        refine ih _ chain ?_ ok
        intro q hq
        rcases List.mem_append.mp hq with hq | hq
        · exact Nat.le_trans (Nat.le_of_lt better) (least q hq)
        · exact Nat.le_of_eq (congrArg key (List.mem_singleton.mp hq).symm)
      · rename_i worse
        refine ih _ chain ?_ ok
        intro q hq
        rcases List.mem_append.mp hq with hq | hq
        · exact least q hq
        · rw [List.mem_singleton.mp hq]
          exact Nat.le_of_not_lt worse

theorem removeHead_linksOnly (s : Student) (p : Nat) : LinksOnly s (s.removeHead p) := by
  simp only [Student.removeHead]
  split <;> exact (linksOnly_ends _ _).trans (linksOnly_setNext none)

theorem removeAfter_linksOnly (s : Student) (p r : Nat) : LinksOnly s (s.removeAfter p r) := by
  have first : LinksOnly s (s.setNext p (s.next r)) := linksOnly_setNext _
  simp only [Student.removeAfter]
  split <;> exact (first.trans (linksOnly_ends _ _)).trans (linksOnly_setNext none)

theorem removeHead_spec (q : Queued s (p :: xs)) :
    Queued (s.removeHead p) xs ∧ LinksOnly s (s.removeHead p) := by
  have fresh := (List.nodup_cons.mp q.nodup).1
  have next : (s.removeHead p).next = link s.next p none := by
    simp only [Student.removeHead]
    split <;> exact next_setNext none
  refine ⟨⟨?_, ?_, ?_⟩, removeHead_linksOnly s p⟩
  · rw [next]
    have chain := q.chain.2.link_outside (b := none) fresh
    simp only [Student.removeHead]
    split <;> exact chain
  · have only : s.tail = some p ↔ xs = [] := by
      rw [q.tail]
      cases xs with
      | nil => simp
      | cons a xs =>
        have ne : (a :: xs).getLast? ≠ some p := fun last => fresh (List.mem_of_getLast? last)
        simp only [List.getLast?_cons_cons, reduceCtorEq, iff_false]
        exact ne
    simp only [Student.removeHead]
    split
    · rename_i last
      obtain rfl := only.mp last
      rfl
    · rename_i more
      have filled : xs ≠ [] := fun nil => more (only.mpr nil)
      change s.tail = xs.getLast?
      rw [q.tail]
      obtain ⟨a, ys, rfl⟩ := List.exists_cons_of_ne_nil filled
      exact List.getLast?_cons_cons
  · intro r hr
    rw [next]
    by_cases same : r = p
    · rw [same, link_self]
    · rw [link_other same]
      refine q.unlinked r (fun mem => ?_)
      exact (List.mem_cons.mp mem).elim same hr

theorem removeAfter_spec (q : Queued s (xs ++ p :: r :: ys)) :
    Queued (s.removeAfter p r) (xs ++ p :: ys) ∧ LinksOnly s (s.removeAfter p r) := by
  have nodup := q.nodup
  have fresh : r ∉ xs ++ p :: ys := by
    simp only [List.nodup_append, List.nodup_cons] at nodup
    grind
  have next : (s.removeAfter p r).next = link (link s.next p (s.next r)) r none := by
    have first : ∀ u : Student, u.pcbs = (s.setNext p (s.next r)).pcbs →
        (u.setNext r none).next = link (link s.next p (s.next r)) r none := by
      intro u same
      rw [next_setNext]
      congr 1
      rw [← next_setNext]
      funext a
      simp only [Student.next, same]
    simp only [Student.removeAfter]
    split <;> exact first _ rfl
  refine ⟨⟨?_, ?_, ?_⟩, removeAfter_linksOnly s p r⟩
  · rw [next]
    have chain := q.chain.unlink.link_outside (b := none) fresh
    simp only [Student.removeAfter]
    split <;> exact chain
  · simp only [Student.removeAfter]
    rcases List.eq_nil_or_concat ys with rfl | ⟨zs, l, rfl⟩
    · have last : (s.setNext p (s.next r)).tail = some r := by
        change s.tail = some r
        rw [q.tail]
        simp
      rw [if_pos last]
      simp [Student.setNext]
    · have last : s.tail = some l :=
        q.tail.trans (List.getLast?_eq_some_iff.mpr ⟨xs ++ p :: r :: zs, by simp⟩)
      have ne : (s.setNext p (s.next r)).tail ≠ some r := by
        change s.tail ≠ some r
        rw [last]
        simp only [List.nodup_append, List.nodup_cons] at nodup
        grind
      rw [if_neg ne]
      exact last.trans (List.getLast?_eq_some_iff.mpr ⟨xs ++ p :: zs, by simp⟩).symm
  · intro a ha
    rw [next]
    by_cases same : a = r
    · rw [same, link_self]
    · have ne : a ≠ p := by
        rintro rfl
        exact ha (by simp)
      rw [link_other same, link_other ne]
      refine q.unlinked a (fun mem => ha ?_)
      simp only [List.mem_append, List.mem_cons] at mem ⊢
      grind

/-- A process of the queue is taken out, under SRTF one with the least time
remaining. -/
theorem dequeue_spec (times : Nat → UInt32) (q : Queued s xs) (fits : xs.length ≤ cfg.processCount)
    (filled : xs ≠ []) :
    ∃ before p after t, xs = before ++ p :: after ∧ s.dequeue cfg times = some (some p, t) ∧
      Queued t (before ++ after) ∧ LinksOnly s t ∧
      (cfg.schedulerAlgorithm = .srtf → ∀ r ∈ xs, s.remaining p ≤ s.remaining r) := by
  obtain ⟨a, ys, rfl⟩ := List.exists_cons_of_ne_nil filled
  have head : s.head = some a := q.chain.1
  obtain ⟨first, same⟩ := removeHead_spec q
  cases order : s.criterion cfg times with
  | none =>
    refine ⟨[], a, ys, s.removeHead a, rfl, ?_, first, same, fun srtf => ?_⟩
    · simp [Student.dequeue, head, order]
    · simp [Student.criterion, srtf] at order
  | some key =>
    obtain ⟨prev, chosen, run, before, after, split, last⟩ :=
      choose_splits key 1 (key 0 a) (none, a) [] q.chain fits
        ⟨[], ys, rfl, rfl⟩
    rw [head, List.getLast?_nil] at run
    have least : cfg.schedulerAlgorithm = .srtf →
        ∀ r ∈ a :: ys, s.remaining chosen ≤ s.remaining r := by
      intro srtf
      obtain rfl : (fun _ p => s.remaining p) = key := by
        simpa [Student.criterion, srtf] using order
      exact choose_least [] (head ▸ q.chain) (fun _ h => absurd h List.not_mem_nil) run
    cases prev with
    | none =>
      obtain rfl : before = [] := List.getLast?_eq_none_iff.mp last.symm
      obtain ⟨rfl, rfl⟩ := List.cons_eq_cons.mp split
      refine ⟨[], a, ys, s.removeHead a, rfl, ?_, first, same, least⟩
      simp [Student.dequeue, head, order, run]
    | some prev =>
      obtain ⟨front, rfl⟩ := List.getLast?_eq_some_iff.mp last.symm
      have regroup : a :: ys = front ++ prev :: chosen :: after := by simpa using split
      obtain ⟨taken, same⟩ := removeAfter_spec (regroup ▸ q)
      refine ⟨front ++ [prev], chosen, after, s.removeAfter prev chosen, split, ?_, ?_, same, least⟩
      · simp [Student.dequeue, head, order, run]
      · simpa using taken

/-- Whatever state the queue is in. -/
theorem enqueue_linksOnly (ok : s.enqueue time p = some t) : LinksOnly s t := by
  cases head : s.head with
  | none =>
    rw [enqueue_empty head] at ok
    cases ok
    exact (linksOnly_ends _ _).trans linksOnly_time
  | some a =>
    cases tail : s.tail with
    | none => simp [Student.enqueue, Student.isEmpty, head, tail] at ok
    | some l =>
      rw [enqueue_tail head tail] at ok
      cases ok
      exact ((linksOnly_setNext _).trans (linksOnly_ends _ _)).trans linksOnly_time

theorem dequeue_linksOnly {r : Option Nat} (ok : s.dequeue cfg times = some (r, t)) :
    LinksOnly s t := by
  unfold Student.dequeue at ok
  split at ok
  · cases ok
    exact ⟨rfl, fun _ => rfl, fun _ => rfl⟩
  · split at ok
    · cases ok
      exact removeHead_linksOnly s _
    · obtain ⟨⟨prev, chosen⟩, -, ok⟩ := Option.bind_eq_some_iff.mp ok
      cases prev with
      | none =>
        cases ok
        exact removeHead_linksOnly s _
      | some prev =>
        cases ok
        exact removeAfter_linksOnly s prev chosen

theorem dequeue_empty (q : Queued s []) : s.dequeue cfg times = some (none, s) := by
  have head : s.head = none := q.chain
  simp [Student.dequeue, head]

end

end SystemsProjects.Sched
