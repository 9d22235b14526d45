import SystemsProjects.Sched.Sequential

/-!
# Which CPU `wake_up` preempts

Under SRTF and PA, the first of those whose process has the largest key, if the key of the
woken process is smaller, and no CPU is without a process.
-/

namespace SystemsProjects.Sched

/-- What `wake_up` does in its order: `lock` and `unlock` are those of `current_mutex`. -/
inductive WakeAction where
  | lock
  | unlock
  | ready (process : Nat)
  | enqueue (process : Nat)
  | forcePreempt (cpuId : Nat)
  deriving DecidableEq

namespace Student

/-- What `wake_up` does once the process is in the queue, with each of its exits. -/
def preemptActions (cfg : Config) (times : Nat → UInt32) (process : Nat) (s : Student) :
    List WakeAction :=
  match cfg.schedulerAlgorithm with
  | .srtf =>
    match s.scan cfg (fun _ p => s.remaining p) with
    | none => [.unlock]
    | some (mostTimeRemaining, victimCpu) =>
      .unlock ::
        if mostTimeRemaining ≠ 0 then
          if mostTimeRemaining > s.remaining process then [.forcePreempt victimCpu] else []
        else []
  | .pa =>
    let priority := fun k p => (priorityWithAge cfg (times k) (s.pcbs p)).toNat
    let newProcessPriority := priority 0 process
    match s.scan cfg (fun i p => priority (i + 1) p) with
    | none => [.unlock]
    | some (lowestPriority, lowestPriorityCpu) =>
      .unlock ::
        if lowestPriority ≠ 0 then
          if newProcessPriority < lowestPriority then [.forcePreempt lowestPriorityCpu] else []
        else []
  | _ => [.unlock]

/-- `wake_up`, with what it does. -/
def wakeUpActions (cfg : Config) (time : UInt32) (times : Nat → UInt32) (process : Nat)
    (s : Student) :
    Option (List WakeAction × Student) := do
  let s ← (s.setState process .ready).enqueue time process
  return ([.lock, .ready process, .enqueue process] ++ s.preemptActions cfg times process, s)

end Student

/-- What the policy compares at the time `now`, if it preempts. -/
def preemptKey (cfg : Config) (now : UInt32) (s : Student) : Option (Nat → Nat) :=
  match cfg.schedulerAlgorithm with
  | .srtf => some s.remaining
  | .pa => some fun p => (priorityWithAge cfg now (s.pcbs p)).toNat
  | _ => none

/-- CPU `v` runs `q`, whose key is the largest, and it is the first such CPU. -/
structure Largest (cfg : Config) (s : Student) (key : Nat → Nat) (v q : Nat) : Prop where
  inside : v < cfg.cpuCount
  running : s.current v = some q
  most : ∀ i < cfg.cpuCount, ∀ r, s.current i = some r → key r ≤ key q
  first : ∀ i < v, ∀ r, s.current i = some r → key r < key q

section

variable {cfg : Config} {s t : Student} {key : Nat → Nat} {p v q : Nat} {times : Nat → UInt32}
  {now : UInt32}

/-! ## The loop -/

/-- The loop has looked at the first `n` CPUs. -/
structure Scanned (s : Student) (key : Nat → Nat) (n : Nat) (best : Nat × Nat) : Prop where
  most : ∀ i < n, ∃ r, s.current i = some r ∧ key r ≤ best.1
  victim : best.1 ≠ 0 → best.2 < n ∧ (∃ q, s.current best.2 = some q ∧ key q = best.1) ∧
    ∀ i < best.2, ∀ r, s.current i = some r → key r < best.1

theorem scanned_next {n : Nat} {best : Nat × Nat} (scanned : Scanned s key n best)
    (current : s.current n = some p) :
    Scanned s key (n + 1) (if best.1 < key p then (key p, n) else best) := by
  split
  · next more =>
    constructor
    · intro i less
      obtain less | rfl := Nat.lt_succ_iff_lt_or_eq.mp less
      · obtain ⟨r, running, le⟩ := scanned.most i less
        exact ⟨r, running, Nat.le_trans le (Nat.le_of_lt more)⟩
      · exact ⟨p, current, Nat.le_refl _⟩
    · intro _
      refine ⟨Nat.lt_succ_self n, ⟨p, current, rfl⟩, fun i less r running => ?_⟩
      obtain ⟨r', running', le⟩ := scanned.most i less
      cases running.symm.trans running'
      exact Nat.lt_of_le_of_lt le more
  · next enough =>
    constructor
    · intro i less
      obtain less | rfl := Nat.lt_succ_iff_lt_or_eq.mp less
      · exact scanned.most i less
      · exact ⟨p, current, Nat.le_of_not_lt enough⟩
    · intro some
      obtain ⟨inside, rest⟩ := scanned.victim some
      exact ⟨Nat.lt_succ_of_lt inside, rest⟩

theorem foldlM_scanned (s : Student) (key : Nat → Nat) (n : Nat) :
    (∃ i < n, s.current i = none) ∧ (List.range n).foldlM (fun (best : Nat × Nat) i => do
      let process ← s.current i
      return if best.1 < key process then (key process, i) else best) (0, 0) = none ∨
    ∃ best, (List.range n).foldlM (fun (best : Nat × Nat) i => do
      let process ← s.current i
      return if best.1 < key process then (key process, i) else best) (0, 0) = some best ∧ Scanned s
        key n best := by
  induction n with
  | zero => exact Or.inr ⟨(0, 0), rfl, fun _ less => absurd less (Nat.not_lt_zero _), fun h =>
    absurd rfl h⟩
  | succ n ih =>
    rw [List.range_succ, List.foldlM_append]
    obtain ⟨⟨i, less, idle⟩, none⟩ | ⟨best, run, scanned⟩ := ih
    · rw [none]
      exact Or.inl ⟨⟨i, Nat.lt_succ_of_lt less, idle⟩, rfl⟩
    · rw [run]
      cases current : s.current n with
      | none => exact Or.inl ⟨⟨n, Nat.lt_succ_self n, current⟩, by simp [current]⟩
      | some p => exact Or.inr ⟨_, by simp [current], scanned_next scanned current⟩

theorem scan_spec (cfg : Config) (s : Student) (key : Nat → Nat) :
    (∃ i < cfg.cpuCount, s.current i = none) ∧ s.scan cfg (fun _ => key) = none ∨
    ∃ best, s.scan cfg (fun _ => key) = some best ∧ Scanned s key cfg.cpuCount best :=
  foldlM_scanned s key cfg.cpuCount

/-- What a scan and the tests behind it come to. -/
theorem scan_forces (cfg : Config) (s : Student) (key : Nat → Nat) (limit : Nat) :
    ((s.scan cfg fun _ => key).bind fun best => if best.1 ≠ 0 ∧
    best.1 > limit then some best.2 else none) = some v ↔
      (∀ i < cfg.cpuCount, s.current i ≠ none) ∧ ∃ q, Largest cfg s key v q ∧ limit < key q := by
  obtain ⟨⟨i, less, idle⟩, scan⟩ | ⟨best, scan, scanned⟩ := scan_spec cfg s key
  · rw [scan]
    exact iff_of_false nofun fun ⟨busy, _⟩ => busy i less idle
  · rw [scan, Option.bind_some]
    have busy : ∀ i < cfg.cpuCount, s.current i ≠ none := fun i less idle => by
      obtain ⟨r, running, -⟩ := scanned.most i less
      rw [idle] at running
      cases running
    constructor
    · intro forces
      split at forces
      · next test =>
        obtain rfl := Option.some.inj forces
        obtain ⟨inside, ⟨q, running, same⟩, first⟩ := scanned.victim test.1
        refine ⟨busy, q, ⟨inside, running, fun i less r here => ?_, same ▸ first⟩, same ▸ test.2⟩
        obtain ⟨r', running', le⟩ := scanned.most i less
        cases here.symm.trans running'
        exact same ▸ le
      · cases forces
    · rintro ⟨-, q, largest, more⟩
      obtain ⟨q', running', le⟩ := scanned.most v largest.inside
      cases largest.running.symm.trans running'
      have test : best.1 ≠ 0 ∧ best.1 > limit := by omega
      obtain ⟨inside, ⟨r, running, same⟩, first⟩ := scanned.victim test.1
      have most := largest.most best.2 inside r running
      have here : best.2 = v := by
        obtain less | same | more := Nat.lt_trichotomy best.2 v
        · have := largest.first best.2 less r running
          omega
        · exact same
        · have := first v more q largest.running
          omega
      rw [if_pos test, here]

theorem exists_largest (busy : ∀ i < cfg.cpuCount, s.current i ≠ none) {i r limit : Nat}
    (inside : i < cfg.cpuCount) (running : s.current i = some r) (more : limit < key r) :
    ∃ v q, Largest cfg s key v q ∧ limit < key q := by
  obtain ⟨⟨j, less, idle⟩, -⟩ | ⟨best, scan, scanned⟩ := scan_spec cfg s key
  · exact absurd idle (busy j less)
  · obtain ⟨r', running', le⟩ := scanned.most i inside
    cases running.symm.trans running'
    have test : best.1 ≠ 0 ∧ best.1 > limit := by omega
    exact ⟨best.2, ((scan_forces cfg s key limit).mp
      (by rw [scan, Option.bind_some, if_pos test])).2⟩

/-! ## The victim -/

theorem victimCpu_eq (times : Nat → UInt32) (still : ∀ k, times k = now) :
    s.victimCpu cfg times p = (preemptKey cfg now s).bind fun key =>
      (s.scan cfg fun _ => key).bind fun best => if best.1 ≠ 0 ∧
      best.1 > key p then some best.2 else none := by
  unfold Student.victimCpu preemptKey
  cases cfg.schedulerAlgorithm with
  | fcfs => rfl
  | rr => rfl
  | srtf => rfl
  | pa =>
    simp only [still]
    rfl

/-- `wake_up` forces the first CPU with the largest key, if that is larger than the key
of the woken process. -/
theorem victimCpu_iff (times : Nat → UInt32) (still : ∀ k, times k = now) :
    s.victimCpu cfg times p = some v ↔ ∃ key, preemptKey cfg now s = some key ∧
      (∀ i < cfg.cpuCount, s.current i ≠ none) ∧ ∃ q, Largest cfg s key v q ∧ key p < key q := by
  rw [victimCpu_eq times still]
  cases preemptKey cfg now s with
  | none => exact iff_of_false nofun nofun
  | some key =>
    rw [Option.bind_some, scan_forces]
    constructor
    · rintro ⟨busy, forces⟩
      exact ⟨key, rfl, busy, forces⟩
    · rintro ⟨_, same, rest⟩
      cases same
      exact rest

theorem victimCpu_shortest (srtf : cfg.schedulerAlgorithm = .srtf) (times : Nat → UInt32) :
    (∀ v, s.victimCpu cfg times p = some v → (∀ i < cfg.cpuCount, s.current i ≠ none) ∧
      ∃ q, Largest cfg s s.remaining v q ∧ s.remaining p < s.remaining q) ∧
    ((∀ i < cfg.cpuCount, s.current i ≠ none) →
      (∃ i < cfg.cpuCount, ∃ r, s.current i = some r ∧ s.remaining p < s.remaining r) →
      ∃ v, s.victimCpu cfg times p = some v) := by
  have victim : s.victimCpu cfg times p = (s.scan cfg fun _ => s.remaining).bind fun best =>
      if best.1 ≠ 0 ∧ best.1 > s.remaining p then some best.2 else none := by
    unfold Student.victimCpu
    rw [srtf]
    rfl
  rw [victim]
  constructor
  · exact fun v => (scan_forces cfg s s.remaining (s.remaining p)).mp
  · rintro busy ⟨i, inside, r, running, more⟩
    obtain ⟨v, forces⟩ := exists_largest busy inside running more
    exact ⟨v, (scan_forces cfg s s.remaining (s.remaining p)).mpr ⟨busy, forces⟩⟩

/-! ## The calls -/

/-- Every exit unlocks once, and first. -/
theorem preemptActions_eq (times : Nat → UInt32) :
    s.preemptActions cfg times p = .unlock ::
      (s.victimCpu cfg times p).toList.map .forcePreempt := by
  unfold Student.preemptActions Student.victimCpu
  cases cfg.schedulerAlgorithm with
  | fcfs => rfl
  | rr => rfl
  | srtf =>
    cases s.scan cfg fun _ p => s.remaining p with
    | none => rfl
    | some best =>
      by_cases most : best.1 = 0 <;> by_cases more : best.1 > s.remaining p <;> simp [most, more]
  | pa =>
    dsimp only
    cases s.scan cfg fun i p => (priorityWithAge cfg (times (i + 1)) (s.pcbs p)).toNat with
    | none => rfl
    | some best =>
      by_cases most : best.1 = 0 <;>
        by_cases more : (priorityWithAge cfg (times 0) (s.pcbs p)).toNat <
          best.1 <;> simp [most, more]

/-- Both models of `wake_up` agree. -/
theorem wakeUpActions_wakeUp (time : UInt32) (times : Nat → UInt32) :
    s.wakeUpActions cfg time times p =
    (s.wakeUp cfg time times p).map fun r =>
      ([.lock, .ready p, .enqueue p, .unlock] ++ r.1.toList.map .forcePreempt, r.2) := by
  unfold Student.wakeUpActions Student.wakeUp
  cases (s.setState p .ready).enqueue time p with
  | none => rfl
  | some t => simp [preemptActions_eq]

end

/-- What the call of `wake_up` for `p` does; `t` is the state once `p` is in the queue. -/
structure WakesUp (cfg : Config) (now : UInt32) (s : Student) (p : Nat) (actions : List WakeAction)
    (t : Student) : Prop where
  enqueued : (s.setState p .ready).enqueue now p = some t
  ready : (t.pcbs p).state = .ready
  current : t.current = s.current
  calls : ∃ forced : Option Nat, actions = [.lock, .ready p, .enqueue p, .unlock] ++
    forced.toList.map .forcePreempt
  idle : (∃ i < cfg.cpuCount, t.current i = none) → ∀ v, .forcePreempt v ∉ actions
  rest : cfg.schedulerAlgorithm = .fcfs ∨ cfg.schedulerAlgorithm = .rr →
    ∀ v, .forcePreempt v ∉ actions
  preempts : ∀ key, preemptKey cfg now t = some key → (∀ i < cfg.cpuCount, t.current i ≠ none) →
    ((∃ v, .forcePreempt v ∈ actions) ↔
      ∃ i < cfg.cpuCount, ∃ r, t.current i = some r ∧ key p < key r)
  victim : ∀ key v, preemptKey cfg now t = some key → .forcePreempt v ∈ actions →
    ∃ q, Largest cfg t key v q

section

variable {s : Student}

/-- `enqueue` needs a last process in a queue that is not empty, and leaves `current[]`. -/
theorem enqueue_readied (now : UInt32) (p : Nat) (queue : s.head ≠ none → s.tail ≠ none) :
    ∃ t, (s.setState p .ready).enqueue now p = some t ∧ (t.pcbs p).state = .ready ∧
      t.current = s.current := by
  have own : ((s.setState p .ready).pcbs p).state = .ready :=
    (state_setState .ready).trans (if_pos rfl)
  cases head : s.head with
  | none =>
    refine ⟨_, enqueue_empty (s := s.setState p .ready) head, ?_, rfl⟩
    rw [linksOnly_time.state]
    exact own
  | some a =>
    obtain ⟨l, tail⟩ := Option.ne_none_iff_exists'.mp
      (queue (by rw [head]; exact Option.some_ne_none a))
    refine ⟨_, enqueue_tail (s := s.setState p .ready) head tail, ?_, rfl⟩
    rw [linksOnly_time.state]
    exact ((linksOnly_setNext (some p)).state p).trans own

end

theorem wake_up_preempts (cfg : Config) (now : UInt32) (s : Student) (p : Nat)
    (queue : s.head ≠ none → s.tail ≠ none) :
    ∃ actions t, s.wakeUpActions cfg now (fun _ => now) p = some (actions, t) ∧
      WakesUp cfg now s p actions t := by
  obtain ⟨t, ok, ready, current⟩ := enqueue_readied now p queue
  let actions : List WakeAction := [.lock, .ready p, .enqueue p, .unlock] ++
    (t.victimCpu cfg (fun _ => now) p).toList.map .forcePreempt
  have forces : ∀ v, .forcePreempt v ∈ actions ↔ t.victimCpu cfg (fun _ => now) p = some v := by
    intro v
    simp [actions]
  have spec : ∀ v, .forcePreempt v ∈ actions ↔ ∃ key, preemptKey cfg now t = some key ∧
      (∀ i < cfg.cpuCount, t.current i ≠ none) ∧ ∃ q, Largest cfg t key v q ∧ key p < key q :=
    fun v => (forces v).trans (victimCpu_iff _ fun _ => rfl)
  refine ⟨actions, t, ?_, ok, ready, current, ⟨_, rfl⟩, ?_, ?_, ?_, ?_⟩
  · simp only [Student.wakeUpActions, ok, preemptActions_eq]
    rfl
  · rintro ⟨i, inside, idle⟩ v called
    obtain ⟨-, -, busy, -⟩ := (spec v).mp called
    exact busy i inside idle
  · rintro policy v called
    obtain ⟨key, compares, -⟩ := (spec v).mp called
    unfold preemptKey at compares
    obtain fcfs | rr := policy
    · rw [fcfs] at compares
      cases compares
    · rw [rr] at compares
      cases compares
  · intro key compares busy
    constructor
    · rintro ⟨v, called⟩
      obtain ⟨key', same, -, q, largest, more⟩ := (spec v).mp called
      cases compares.symm.trans same
      exact ⟨v, largest.inside, q, largest.running, more⟩
    · rintro ⟨i, inside, r, running, more⟩
      obtain ⟨v, forced⟩ := exists_largest busy inside running more
      exact ⟨v, (spec v).mpr ⟨key, compares, busy, forced⟩⟩
  · intro key v compares called
    obtain ⟨key', same, -, q, largest, -⟩ := (spec v).mp called
    cases compares.symm.trans same
    exact ⟨q, largest⟩

/-- Two CPUs that run processes of 5 ticks each, and a third process that waits. -/
def twoRunning (remaining : UInt32) : Student where
  pcbs p := ⟨10, if p < 2 then .running else .waiting, none, 0, 0, if p < 2 then 5 else remaining⟩
  head := none
  tail := none
  current c := some c

/-- The first of the two is preempted for a process of 3 ticks. -/
theorem wake_up_preempts_first : ∃ t, (twoRunning 3).wakeUpActions ⟨2, 3, .srtf, 0, -1⟩ 0
    (fun _ => 0) 2 =
      some ([.lock, .ready 2, .enqueue 2, .unlock, .forcePreempt 0], t) ∧
    WakesUp ⟨2, 3, .srtf, 0, -1⟩ 0 (twoRunning 3) 2
    [.lock, .ready 2, .enqueue 2, .unlock, .forcePreempt 0] t := by
  obtain ⟨actions, t, run, wakes⟩ := wake_up_preempts ⟨2, 3, .srtf, 0, -1⟩ 0 (twoRunning 3) 2
    (fun h => h)
  have calls : ((twoRunning 3).wakeUpActions ⟨2, 3, .srtf, 0, -1⟩ 0 (fun _ => 0) 2).map Prod.fst =
      some [.lock, .ready 2, .enqueue 2, .unlock, .forcePreempt 0] := by decide
  rw [run] at calls
  obtain rfl := Option.some.inj calls
  exact ⟨t, run, wakes⟩

end SystemsProjects.Sched
