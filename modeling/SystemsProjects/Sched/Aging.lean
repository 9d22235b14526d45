import SystemsProjects.Sched.Queue
import Mathlib.Tactic.Ring

/-!
# Priority aging

The documented key is an integer, and all processes age at the same rate. The code
computes it in `unsigned int`, and reads the clock anew for each comparison.
-/

namespace SystemsProjects.Sched

open Links

/-- Priority With Age = Priority - (Current Time - Enqueue Time) * Age Weight. -/
def agedPriority (cfg : Config) (currentTime : UInt32) (process : Pcb) : Int :=
  process.priority.toNat - (currentTime.toNat - process.enqueueTime.toNat) * cfg.ageWeight.toNat

/-- The part of it that does not depend on the time. -/
def fixedPriority (cfg : Config) (process : Pcb) : Int :=
  process.priority.toNat + cfg.ageWeight.toNat * process.enqueueTime.toNat

/-- `m` is the first in the list with the least key. -/
structure FirstLeast (key : Nat → Int) (before : List Nat) (m : Nat) (after : List Nat) : Prop where
  before : ∀ p ∈ before, key m < key p
  after : ∀ p ∈ after, key m ≤ key p

/-- What the code computes for `m` at one reading of the clock is less than for those before
it at any earlier reading, and not more than for those after it at any later one. -/
def Undercuts (cfg : Config) (s : Student) (readable : UInt32 → Prop) (before : List Nat) (m : Nat)
    (after : List Nat) : Prop :=
  ∀ t t', readable t → readable t' → t ≤ t' →
    (∀ p ∈ before, priorityWithAge cfg t' (s.pcbs m) < priorityWithAge cfg t (s.pcbs p)) ∧
    ∀ p ∈ after, priorityWithAge cfg t (s.pcbs m) ≤ priorityWithAge cfg t' (s.pcbs p)

theorem agedPriority_eq (cfg : Config) (currentTime : UInt32) (process : Pcb) :
    agedPriority cfg currentTime process =
      fixedPriority cfg process - cfg.ageWeight.toNat * currentTime.toNat := by
  unfold agedPriority fixedPriority
  ring

/-- Which process is first does not depend on the time. -/
theorem firstLeast_aged {cfg : Config} {s : Student} {before after : List Nat} {m : Nat}
    (currentTime : UInt32) :
    FirstLeast (fun p => agedPriority cfg currentTime (s.pcbs p)) before m after ↔
      FirstLeast (fun p => fixedPriority cfg (s.pcbs p)) before m after := by
  simp only [agedPriority_eq]
  constructor
  · rintro ⟨less, least⟩
    exact ⟨fun p mem => by have := less p mem; omega, fun p mem => by have := least p mem; omega⟩
  · rintro ⟨less, least⟩
    exact ⟨fun p mem => by have := less p mem; omega, fun p mem => by have := least p mem; omega⟩

/-- There is one in each queue that is not empty. -/
theorem exists_firstLeast (key : Nat → Int) {xs : List Nat} (filled : xs ≠ []) :
    ∃ before m after, xs = before ++ m :: after ∧ FirstLeast key before m after := by
  induction xs with
  | nil => exact absurd rfl filled
  | cons a xs ih =>
    by_cases last : xs = []
    · subst last
      exact ⟨[], a, [], rfl, fun p mem => absurd mem List.not_mem_nil,
        fun p mem => absurd mem List.not_mem_nil⟩
    obtain ⟨before, m, after, rfl, less, least⟩ := ih last
    by_cases better : key m < key a
    · refine ⟨a :: before, m, after, rfl, fun p mem => ?_, least⟩
      obtain rfl | mem := List.mem_cons.mp mem
      · exact better
      · exact less p mem
    · refine ⟨[], a, before ++ m :: after, rfl, fun p mem => absurd mem List.not_mem_nil,
        fun p mem => ?_⟩
      have first : key a ≤ key m := not_lt.mp better
      obtain mem | mem := List.mem_append.mp mem
      · exact first.trans (less p mem).le
      · obtain rfl | mem := List.mem_cons.mp mem
        · exact first
        · exact first.trans (least p mem)

/-! ## The loop -/

section

variable {key : Nat → Nat → Nat} {next : Nat → Option Nat} {fuel k m best : Nat}
  {curr prev : Option Nat} {found : Option Nat × Nat} {rest after : List Nat}

/-- What is found at last is what was found before, or comes later. -/
theorem choose_mem {result : Option Nat × Nat} (chain : Chain next curr rest)
    (ok : Student.choose key next fuel k curr prev found best = some result) :
    result.2 = found.2 ∨ result.2 ∈ rest := by
  induction rest generalizing fuel k curr prev found best with
  | nil =>
    obtain rfl : curr = none := chain
    simp only [Student.choose, Option.some.injEq] at ok
    exact .inl (congrArg Prod.snd ok.symm)
  | cons a rest ih =>
    obtain ⟨rfl, chain⟩ := chain
    cases fuel with
    | zero => simp [Student.choose] at ok
    | succ fuel =>
      simp only [Student.choose] at ok
      split at ok
      · obtain same | mem := ih chain ok
        · exact .inr (same ▸ List.mem_cons_self)
        · exact .inr (List.mem_cons_of_mem a mem)
      · obtain same | mem := ih chain ok
        · exact .inl same
        · exact .inr (List.mem_cons_of_mem a mem)

/-- Nothing that comes later is better. -/
theorem choose_keeps (chain : Chain next curr rest) (fits : rest.length ≤ fuel)
    (worse : ∀ p ∈ rest, ∀ j, k ≤ j → best ≤ key j p) :
    Student.choose key next fuel k curr prev found best = some found := by
  induction rest generalizing fuel k curr prev with
  | nil =>
    obtain rfl : curr = none := chain
    simp [Student.choose]
  | cons a rest ih =>
    obtain ⟨rfl, chain⟩ := chain
    cases fuel with
    | zero => simp at fits
    | succ fuel =>
      have here := worse a List.mem_cons_self k (Nat.le_refl k)
      rw [Student.choose, if_neg (Nat.not_lt.mpr here)]
      apply ih chain (by simpa using fits)
      exact fun p mem j le => worse p (List.mem_cons_of_mem a mem) j (by omega)

/-- The loop finds `m` if it undercuts what is kept when it comes to it, and is then not
undercut itself. -/
theorem choose_finds (seen : List Nat) (found : Option Nat × Nat)
    (chain : Chain next curr (rest ++ m :: after)) (fits : (rest ++ m :: after).length ≤ fuel)
    (undercuts : ∀ j, k ≤ j → key j m < best)
    (before : ∀ p ∈ rest, ∀ i j, i ≤ j → key j m < key i p)
    (later : ∀ p ∈ after, ∀ i j, i ≤ j → key i m ≤ key j p) :
    Student.choose key next fuel k curr seen.getLast? found best =
      some ((seen ++ rest).getLast?, m) := by
  induction rest generalizing seen fuel k curr found best with
  | nil =>
    obtain ⟨rfl, chain⟩ := chain
    cases fuel with
    | zero => simp at fits
    | succ fuel =>
      rw [Student.choose, if_pos (undercuts k (Nat.le_refl k)), List.append_nil]
      apply choose_keeps chain (by simpa using fits)
      exact fun p mem j le => later p mem (k + 1) j (by omega)
  | cons a rest ih =>
    obtain ⟨rfl, chain⟩ := chain
    cases fuel with
    | zero => simp at fits
    | succ fuel =>
      have fits : (rest ++ m :: after).length ≤ fuel := by simpa using fits
      have regroup : seen ++ a :: rest = (seen ++ [a]) ++ rest := by simp
      have last : some a = (seen ++ [a]).getLast? := by simp
      have others : ∀ p ∈ rest, ∀ i j, i ≤ j → key j m < key i p :=
        fun p mem => before p (List.mem_cons_of_mem a mem)
      rw [Student.choose, regroup, last]
      split
      · apply ih _ _ chain fits _ others
        exact fun j le => before a List.mem_cons_self (k + 1) j (by omega)
      · apply ih _ _ chain fits _ others
        exact fun j le => undercuts j (by omega)

/-- The head is compared with itself first. -/
theorem choose_head (chain : Chain next (some m) (m :: after)) (fits : (m :: after).length ≤ fuel)
    (later : ∀ p ∈ after, ∀ i j, i ≤ j → key i m ≤ key j p) :
    Student.choose key next fuel 1 (some m) none (none, m) (key 0 m) = some (none, m) := by
  cases fuel with
  | zero => simp at fits
  | succ fuel =>
    have fits : after.length ≤ fuel := by simpa using fits
    rw [Student.choose]
    split
    · exact choose_keeps chain.2 fits (fun p mem j le => later p mem 2 j (by omega))
    · exact choose_keeps chain.2 fits (fun p mem j _ => later p mem 0 j (Nat.zero_le j))

/-- While the clock stands still the loop keeps the least key; it comes to what follows
`rest` at its `n`-th evaluation, whatever the clock does from then on. -/
theorem choose_still (f : Nat → Nat) (k : Nat) (prev : Option Nat) (found : Option Nat × Nat)
    (chain : Chain next curr (rest ++ after)) (fits : (rest ++ after).length ≤ fuel)
    (kept : best = f found.2) :
    ∃ n fuel' curr' prev' found', k ≤ n ∧ Chain next curr' after ∧ after.length ≤ fuel' ∧
      (∀ key : Nat → Nat → Nat, (∀ j < n, key j = f) →
        Student.choose key next fuel k curr prev found best =
          Student.choose key next fuel' n curr' prev' found' (f found'.2)) ∧
      (found'.2 = found.2 ∨ found'.2 ∈ rest) ∧ f found'.2 ≤ best ∧
      ∀ p ∈ rest, f found'.2 ≤ f p := by
  induction rest generalizing fuel k curr prev found best with
  | nil =>
    exact ⟨k, fuel, curr, prev, found, Nat.le_refl k, chain, fits, fun key _ => by rw [kept],
      .inl rfl, kept.ge, fun p mem => absurd mem List.not_mem_nil⟩
  | cons a rest ih =>
    obtain ⟨rfl, chain⟩ := chain
    cases fuel with
    | zero => simp at fits
    | succ fuel =>
      have fits : (rest ++ after).length ≤ fuel := by simpa using fits
      by_cases better : f a < best
      · obtain ⟨n, fuel', curr', prev', found', le, chain', fits', same, which, least, all⟩ :=
          ih (k + 2) (some a) (prev, a) chain fits rfl
        refine ⟨n, fuel', curr', prev', found', by omega, chain', fits', fun key agree => ?_, ?_,
          ?_, ?_⟩
        · rw [Student.choose, agree k (by omega), agree (k + 1) (by omega), if_pos better]
          exact same key agree
        · obtain eq | mem := which
          · exact .inr (eq ▸ List.mem_cons_self)
          · exact .inr (List.mem_cons_of_mem a mem)
        · exact least.trans better.le
        · intro p mem
          obtain rfl | mem := List.mem_cons.mp mem
          · exact least
          · exact all p mem
      · obtain ⟨n, fuel', curr', prev', found', le, chain', fits', same, which, least, all⟩ :=
          ih (k + 1) (some a) found chain fits kept
        refine ⟨n, fuel', curr', prev', found', by omega, chain', fits', fun key agree => ?_, ?_,
          least, ?_⟩
        · rw [Student.choose, agree k (by omega), if_neg better]
          exact same key agree
        · obtain eq | mem := which
          · exact .inl eq
          · exact .inr (List.mem_cons_of_mem a mem)
        · intro p mem
          obtain rfl | mem := List.mem_cons.mp mem
          · exact least.trans (Nat.not_lt.mp better)
          · exact all p mem

end

/-! ## `dequeue` -/

section

variable {cfg : Config} {s : Student} {before after : List Nat} {m : Nat}

/-- The key of the process at the `k`-th evaluation. -/
def evaluated (cfg : Config) (s : Student) (times : Nat → UInt32) (k p : Nat) : Nat :=
  (priorityWithAge cfg (times k) (s.pcbs p)).toNat

theorem criterion_pa (times : Nat → UInt32) (pa : cfg.schedulerAlgorithm = .pa) :
    s.criterion cfg times = some (evaluated cfg s times) := by
  rw [Student.criterion, pa]
  rfl

/-- What `dequeue` returns is what the loop finds. -/
theorem dequeue_chosen {times : Nat → UInt32} {key : Nat → Nat → Nat}
    (order : s.criterion cfg times = some key) {xs : List Nat} {head : Nat}
    (q : Queued s (head :: xs)) (fits : (head :: xs).length ≤ cfg.processCount) :
    ∃ prev chosen t, Student.choose key s.next cfg.processCount 1 (some head) none (none, head)
      (key 0 head) =
        some (prev, chosen) ∧ s.dequeue cfg times = some (some chosen, t) := by
  have first : s.head = some head := q.chain.1
  obtain ⟨prev, chosen, run, front, back, split, last⟩ :=
    choose_splits key 1 (key 0 head) (none, head) [] q.chain fits ⟨[], xs, rfl, rfl⟩
  rw [first, List.getLast?_nil] at run
  cases prev with
  | none =>
    obtain rfl : front = [] := List.getLast?_eq_none_iff.mp last.symm
    obtain ⟨rfl, -⟩ := List.cons_eq_cons.mp split
    exact ⟨none, head, s.removeHead head, run, by simp [Student.dequeue, first, order, run]⟩
  | some prev =>
    exact ⟨some prev, chosen, s.removeAfter prev chosen, run,
      by simp [Student.dequeue, first, order, run]⟩

/-- It returns `m` if at no two evaluations `m` is undercut. -/
theorem dequeue_least {times : Nat → UInt32} {key : Nat → Nat → Nat}
    (order : s.criterion cfg times = some key) (q : Queued s (before ++ m :: after))
    (fits : (before ++ m :: after).length ≤ cfg.processCount)
    (less : ∀ p ∈ before, ∀ i j, i ≤ j → key j m < key i p)
    (least : ∀ p ∈ after, ∀ i j, i ≤ j → key i m ≤ key j p) :
    ∃ t, s.dequeue cfg times = some (some m, t) := by
  cases before with
  | nil =>
    obtain ⟨prev, chosen, t, run, returns⟩ := dequeue_chosen order q fits
    have chain : Chain s.next (some m) (m :: after) := q.chain.1 ▸ q.chain
    rw [choose_head chain fits least] at run
    cases run
    exact ⟨t, returns⟩
  | cons head before =>
    obtain ⟨prev, chosen, t, run, returns⟩ := dequeue_chosen order q fits
    have chain : Chain s.next (some head) ((head :: before) ++ m :: after) := q.chain.1 ▸ q.chain
    have finds := choose_finds [] (none, head) (k := 1) chain fits
      (fun j _ => less head List.mem_cons_self 0 j (Nat.zero_le j)) less least
    rw [List.getLast?_nil, run] at finds
    cases finds
    exact ⟨t, returns⟩

theorem undercuts_dequeue {readable : UInt32 → Prop} (q : Queued s (before ++ m :: after))
    (inside : ∀ p ∈ before ++ m :: after, p < cfg.processCount) (pa : cfg.schedulerAlgorithm = .pa)
    (undercuts : Undercuts cfg s readable before m after) {times : Nat → UInt32}
    (advances : ∀ i j, i ≤ j → times i ≤ times j) (read : ∀ k, readable (times k)) :
    ∃ t, s.dequeue cfg times = some (some m, t) := by
  apply dequeue_least (criterion_pa times pa) q (q.fits inside)
  · intro p mem i j le
    exact UInt32.lt_iff_toNat_lt.mp ((undercuts _ _ (read i) (read j) (advances i j le)).1 p mem)
  · intro p mem i j le
    exact UInt32.le_iff_toNat_le.mp ((undercuts _ _ (read i) (read j) (advances i j le)).2 p mem)

/-- A clock that stands still until the loop comes to `p`, and moves on then: until then the
least key is kept. -/
theorem dequeue_jump {front back : List Nat} {p : Nat} (q : Queued s (front ++ p :: back))
    (inside : ∀ r ∈ front ++ p :: back, r < cfg.processCount) (pa : cfg.schedulerAlgorithm = .pa)
    (filled : front ≠ []) {t t' : UInt32} (le : t ≤ t') :
    ∃ times : Nat → UInt32, (∀ i j, i ≤ j → times i ≤ times j) ∧ (∀ k, times k = t ∨ times k = t') ∧
    ∃ kept ∈ front, (∀ r ∈ front, priorityWithAge cfg t (s.pcbs kept) ≤
    priorityWithAge cfg t (s.pcbs r)) ∧
    ∀ chosen u, s.dequeue cfg times = some (some chosen, u) →
      (priorityWithAge cfg t' (s.pcbs p) < priorityWithAge cfg t (s.pcbs kept) → chosen ∈ p ::
      back) ∧
      (priorityWithAge cfg t (s.pcbs kept) ≤ priorityWithAge cfg t' (s.pcbs p) →
        chosen = kept ∨ chosen ∈ back) := by
  obtain ⟨head, front, rfl⟩ := List.exists_cons_of_ne_nil filled
  have fits := q.fits inside
  have chain : Chain s.next (some head) ((head :: front) ++ p :: back) := q.chain.1 ▸ q.chain
  let f := fun r => (priorityWithAge cfg t (s.pcbs r)).toNat
  obtain ⟨n, fuel', curr', prev', found', from_one, chain', fits', same, which, -, least⟩ :=
    choose_still f 1 none (none, head) chain fits rfl
  obtain ⟨rfl, chain'⟩ := chain'
  have kept : found'.2 ∈ head :: front := by
    obtain eq | mem := which
    · exact eq ▸ List.mem_cons_self
    · exact mem
  let times : Nat → UInt32 := fun k => if k < n then t else t'
  have still : ∀ j < n, evaluated cfg s times j = f := fun j lt => by
    funext r
    simp only [evaluated, times, if_pos lt, f]
  have moved : evaluated cfg s times n p = (priorityWithAge cfg t' (s.pcbs p)).toNat := by
    simp only [evaluated, times, if_neg (Nat.lt_irrefl n)]
  refine ⟨times, ?_, ?_, found'.2, kept, fun r mem => UInt32.le_iff_toNat_le.mpr (least r mem), ?_⟩
  · intro i j le_ij
    simp only [times]
    split
    · split
      · exact UInt32.le_refl t
      · exact le
    · rw [if_neg (by omega)]
      exact UInt32.le_refl t'
  · intro k
    simp only [times]
    split
    · exact .inl rfl
    · exact .inr rfl
  · intro chosen u returns
    obtain ⟨prev, chosen', u', run, returns'⟩ := dequeue_chosen (criterion_pa times pa) q fits
    rw [returns] at returns'
    cases returns'
    rw [still 0 (by omega), same _ still] at run
    cases fuel' with
    | zero => simp at fits'
    | succ fuel' =>
      rw [Student.choose, moved] at run
      constructor
      · intro less
        rw [if_pos (UInt32.lt_iff_toNat_lt.mp less)] at run
        exact List.mem_cons.mpr (choose_mem chain' run)
      · intro not_less
        rw [if_neg (Nat.not_lt.mpr (UInt32.le_iff_toNat_le.mp not_less))] at run
        exact choose_mem chain' run

theorem dequeue_undercuts {readable : UInt32 → Prop} (q : Queued s (before ++ m :: after))
    (inside : ∀ p ∈ before ++ m :: after, p < cfg.processCount) (pa : cfg.schedulerAlgorithm = .pa)
    (picks : ∀ times : Nat → UInt32, (∀ i j, i ≤ j → times i ≤ times j) →
    (∀ k, readable (times k)) →
      ∃ t, s.dequeue cfg times = some (some m, t)) :
    Undercuts cfg s readable before m after := by
  intro t t' read read' le
  have once := q.nodup
  have reads : ∀ {times : Nat → UInt32}, (∀ k, times k = t ∨ times k = t') →
      ∀ k, readable (times k) := by
    intro times only k
    obtain eq | eq := only k
    · exact eq ▸ read
    · exact eq ▸ read'
  constructor
  · intro p mem
    obtain ⟨times, advances, only, kept, among, least, result⟩ :=
      dequeue_jump q inside pa (List.ne_nil_of_mem mem) le
    obtain ⟨u, returns⟩ := picks times advances (reads only)
    by_contra worse
    have not_less := UInt32.le_trans (least p mem) (UInt32.not_lt.mp worse)
    have other : m ∉ before ∧ m ∉ after := by
      simp only [List.nodup_append, List.nodup_cons] at once
      grind
    obtain eq | later := (result m u returns).2 not_less
    · exact other.1 (eq ▸ among)
    · exact other.2 later
  · intro p mem
    obtain ⟨between, back, rfl⟩ := List.append_of_mem mem
    have regroup : before ++ m :: (between ++ p :: back) =
        (before ++ m :: between) ++ p :: back := by
      simp
    rw [regroup] at q inside once
    obtain ⟨times, advances, only, kept, among, least, result⟩ :=
      dequeue_jump q inside pa (by simp) le
    obtain ⟨u, returns⟩ := picks times advances (reads only)
    have other : m ∉ p :: back := by
      simp only [List.nodup_append, List.nodup_cons] at once
      grind
    by_contra worse
    have less := UInt32.not_le.mp worse
    by_cases better : priorityWithAge cfg t' (s.pcbs p) < priorityWithAge cfg t (s.pcbs kept)
    · exact other ((result m u returns).1 better)
    · obtain eq | later := (result m u returns).2 (UInt32.not_lt.mp better)
      · exact better (eq ▸ less)
      · exact other (List.mem_cons_of_mem p later)

/-- The unsigned key is the documented one if that is not negative. -/
theorem priorityWithAge_toNat {cfg : Config} {currentTime : UInt32} {process : Pcb}
    (later : process.enqueueTime ≤ currentTime)
    (positive : 0 ≤ agedPriority cfg currentTime process) :
    ((priorityWithAge cfg currentTime process).toNat : Int) =
    agedPriority cfg currentTime process := by
  unfold agedPriority at positive ⊢
  have le := UInt32.le_iff_toNat_le.mp later
  have age : (currentTime - process.enqueueTime).toNat =
    currentTime.toNat - process.enqueueTime.toNat :=
    UInt32.toNat_sub_of_le _ _ later
  have small := process.priority.toNat_lt
  rw [← Int.ofNat_sub le, ← Int.natCast_mul] at positive ⊢
  have fits : (currentTime.toNat - process.enqueueTime.toNat) * cfg.ageWeight.toNat ≤
      process.priority.toNat := by omega
  have product : ((currentTime - process.enqueueTime) * cfg.ageWeight).toNat =
      (currentTime.toNat - process.enqueueTime.toNat) * cfg.ageWeight.toNat := by
    rw [UInt32.toNat_mul, age, Nat.mod_eq_of_lt (by omega)]
  unfold priorityWithAge
  rw [UInt32.toNat_sub_of_le _ _ (UInt32.le_iff_toNat_le.mpr (by omega)), product]
  omega

/-- With a clock that stands still and no negative key the code picks the right process. -/
theorem undercuts_still {currentTime : UInt32}
    (first : FirstLeast (fun p => fixedPriority cfg (s.pcbs p)) before m after)
    (waited : ∀ p ∈ before ++ m :: after, (s.pcbs p).enqueueTime ≤ currentTime ∧
      0 ≤ agedPriority cfg currentTime (s.pcbs p)) :
    Undercuts cfg s (fun t => t = currentTime) before m after := by
  obtain ⟨less, least⟩ := (firstLeast_aged currentTime).mpr first
  have exact_key : ∀ p ∈ before ++ m :: after,
      ((priorityWithAge cfg currentTime (s.pcbs p)).toNat : Int) =
        agedPriority cfg currentTime (s.pcbs p) :=
    fun p mem => priorityWithAge_toNat (waited p mem).1 (waited p mem).2
  have own := exact_key m (List.mem_append_right _ List.mem_cons_self)
  rintro t t' rfl rfl -
  constructor
  · intro p mem
    have key := exact_key p (List.mem_append_left _ mem)
    have := less p mem
    exact UInt32.lt_iff_toNat_lt.mpr (by omega)
  · intro p mem
    have key := exact_key p (List.mem_append_right _ (List.mem_cons_of_mem m mem))
    have := least p mem
    exact UInt32.le_iff_toNat_le.mpr (by omega)

/-- The first process with the least key is what `dequeue` returns, whatever the clock does
in the meantime, if and only if it undercuts the others also in unsigned arithmetic and at
any two readings of the clock. -/
theorem aging_picks_first (q : Queued s (before ++ m :: after))
    (inside : ∀ p ∈ before ++ m :: after, p < cfg.processCount) (pa : cfg.schedulerAlgorithm = .pa)
    (first : FirstLeast (fun p => fixedPriority cfg (s.pcbs p)) before m after)
    (readable : UInt32 → Prop) :
    (∀ currentTime, FirstLeast (fun p => agedPriority cfg currentTime (s.pcbs p)) before m after) ∧
    ((∀ times : Nat → UInt32, (∀ i j, i ≤ j → times i ≤ times j) → (∀ k, readable (times k)) →
      ∃ t, s.dequeue cfg times = some (some m, t)) ↔ Undercuts cfg s readable before m after) := by
  refine ⟨fun currentTime => (firstLeast_aged currentTime).mpr first, dequeue_undercuts q inside pa,
    ?_⟩
  exact fun undercuts times advances read => undercuts_dequeue q inside pa undercuts advances read

end

/-- Two processes that are ready, the second with priority 5 and since a tick later. -/
def twoReady (priority : UInt32) : Student where
  pcbs p := ⟨if p = 1 then 5 else priority, .ready, if p = 0 then some 1 else none,
    if p = 1 then 1 else 0, 0, 0⟩
  head := some 0
  tail := some 1
  current _ := none

def agingConfig : Config := ⟨1, 2, .pa, 1, -1⟩

theorem twoReady_queued (priority : UInt32) : Queued (twoReady priority) ([] ++ 0 :: [1]) := by
  refine ⟨⟨rfl, rfl, rfl⟩, rfl, fun p other => ?_⟩
  have ne : p ≠ 0 := by
    rintro rfl
    exact other List.mem_cons_self
  exact if_neg ne

/-- The first has waited longer than its priority is high: its key is huge. -/
theorem waiting_loses : ¬ ∀ (cfg : Config) (s : Student) (before after : List Nat) (m : Nat)
    (times : Nat → UInt32), Queued s (before ++ m :: after) →
    (∀ p ∈ before ++ m :: after, p < cfg.processCount) → cfg.schedulerAlgorithm = .pa →
    FirstLeast (fun p => fixedPriority cfg (s.pcbs p)) before m after →
    (∀ i j, i ≤ j → times i ≤ times j) →
    (∀ k, ∀ p ∈ before ++ m :: after, (s.pcbs p).enqueueTime ≤ times k) →
    ∃ t, s.dequeue cfg times = some (some m, t) := by
  intro law
  obtain ⟨t, returns⟩ := law agingConfig (twoReady 0) [] [1] 0 (fun _ => 1) (twoReady_queued 0)
    (by decide) rfl ⟨by decide, by decide⟩ (fun _ _ _ => UInt32.le_refl 1) (fun _ => by decide)
  have other : ((twoReady 0).dequeue agingConfig (fun _ => 1)).map Prod.fst = some (some 1) := by
    decide
  rw [returns] at other
  exact absurd (Option.some.inj (Option.some.inj other)) (by decide)

/-- A priority of 3 is high enough, also if a tick passes after the first look at the clock. -/
theorem aging_picks_first_still : ∃ t,
    (twoReady 3).dequeue agingConfig (fun k => if k = 0 then 1 else 2) = some (some 0, t) := by
  have undercuts : Undercuts agingConfig (twoReady 3) (fun t => t = 1 ∨ t = 2) [] 0 [1] := by
    rintro t t' (rfl | rfl) (rfl | rfl) <;> decide
  have picks := (aging_picks_first (twoReady_queued 3) (by decide)
    (rfl : agingConfig.schedulerAlgorithm = .pa) ⟨by decide, by decide⟩
    (fun t => t = 1 ∨ t = 2)).2.mpr undercuts
  refine picks (fun k => if k = 0 then 1 else 2) (fun i j le => ?_) (fun k => ?_)
  · split_ifs
    · decide
    · decide
    · omega
    · decide
  · split_ifs
    · exact Or.inl rfl
    · exact Or.inr rfl

end SystemsProjects.Sched
