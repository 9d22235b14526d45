import Mathlib.Data.List.Basic

/-!
# Counted loops that can fail

A `for` loop over `0 … n - 1` whose body may fail is a monadic fold over
`List.range n`. One rule serves all of them: what holds before round `i` is
indexed by `i`.
-/

namespace SystemsProjects.Loops

variable {ε α : Type} {n : Nat}

theorem bind_ok {β : Type} {x : Except ε α} {f : α → Except ε β} {b : β} :
    x >>= f = .ok b ↔ ∃ a, x = .ok a ∧ f a = .ok b := by
  cases x with
  | error e => simp [bind, Except.bind]
  | ok a => simp [bind, Except.bind]

theorem bind_error {β : Type} {x : Except ε α} {f : α → Except ε β} {e : ε} :
    x >>= f = .error e ↔ x = .error e ∨ ∃ a, x = .ok a ∧ f a = .error e := by
  cases x with
  | error e => simp [bind, Except.bind]
  | ok a => simp [bind, Except.bind]

/-- A check, and then the rest. -/
theorem check_ok {x : Except ε Unit} {rest : Except ε α} {a : α} :
    (x >>= fun _ => rest) = .ok a ↔ x = .ok () ∧ rest = .ok a := by
  cases x with
  | error e => simp [bind, Except.bind]
  | ok => simp [bind, Except.bind]

theorem check_error {x : Except ε Unit} {rest : Except ε α} {e : ε} :
    (x >>= fun _ => rest) = .error e ↔ x = .error e ∨ x = .ok () ∧ rest = .error e := by
  cases x with
  | error e => simp [bind, Except.bind]
  | ok => simp [bind, Except.bind]

/-- A loop over the entries of a list is at the first of those that are left. -/
theorem drop_cons {l rest : List α} {a : α} {i : Nat} (left : l.drop i = a :: rest) :
    l[i]? = some a ∧ l.drop (i + 1) = rest := by
  constructor
  · rw [← List.head?_drop, left]
    rfl
  · rw [← List.tail_drop, left]
    rfl

/-- The loop runs to its end if each round does and hands on what the next one
needs. -/
theorem foldlM_range {f : α → Nat → Except ε α} {a : α} (P : Nat → α → Prop) (start : P 0 a)
    (round : ∀ i a, i < n → P i a → ∃ b, f a i = .ok b ∧ P (i + 1) b) :
    ∃ b, (List.range n).foldlM f a = .ok b ∧ P n b := by
  induction n with
  | zero => exact ⟨a, rfl, start⟩
  | succ n ih =>
    obtain ⟨b, run, hb⟩ := ih (fun i a hi => round i a (Nat.lt_succ_of_lt hi))
    obtain ⟨c, last, hc⟩ := round n b (Nat.lt_succ_self n) hb
    refine ⟨c, ?_, hc⟩
    rw [List.range_succ, List.foldlM_append, run]
    simp [bind, Except.bind, pure, Except.pure, last]

/-- A loop that runs to its end has had each round meet its condition, if a round that meets
it hands on what the next one needs. -/
theorem foldlM_range_holds {f : α → Nat → Except ε α} {a b : α} {C : Nat → Prop}
    (P : Nat → α → Prop) (start : P 0 a)
    (pass : ∀ i a, i < n → P i a → C i → ∃ b, f a i = .ok b ∧ P (i + 1) b)
    (refuse : ∀ i a b, i < n → P i a → f a i = .ok b → C i)
    (run : (List.range n).foldlM f a = .ok b) :
    ∀ i < n, C i := by
  induction n generalizing b with
  | zero => exact fun i below => absurd below (Nat.not_lt_zero i)
  | succ n ih =>
    rw [List.range_succ, List.foldlM_append] at run
    obtain ⟨c, prior, last⟩ := bind_ok.mp run
    rw [List.foldlM_cons] at last
    obtain ⟨d, final, _⟩ := bind_ok.mp last
    have before : ∀ i < n, C i :=
      ih (fun i a below => pass i a (by omega)) (fun i a b below => refuse i a b (by omega)) prior
    have handed : P n c := by
      obtain ⟨c', run', handed⟩ := foldlM_range (n := n) P start
        fun i a below held => pass i a (by omega) held (before i below)
      obtain rfl : c' = c := Except.ok.inj (run'.symm.trans prior)
      exact handed
    intro i below
    rcases Nat.lt_succ_iff_lt_or_eq.mp below with earlier | rfl
    · exact before i earlier
    · exact refuse i c d below handed final

/-- Where a round fails that all before it lead to, the loop does. -/
theorem foldlM_range_stops {f : α → Nat → Except ε α} {a : α} {k : Nat} {e : ε} (P : Nat → α → Prop)
    (inside : k < n) (start : P 0 a) (round : ∀ i a, i < k → P i a → ∃ b, f a i = .ok b ∧
    P (i + 1) b)
    (stop : ∀ a, P k a → f a k = .error e) : (List.range n).foldlM f a = .error e := by
  obtain ⟨m, rfl⟩ : ∃ m, n = k + (m + 1) := ⟨n - k - 1, by omega⟩
  obtain ⟨b, run, held⟩ := foldlM_range P start round
  rw [List.range_add, List.foldlM_append, run, List.range_succ_eq_map, List.map_cons]
  simp [bind, Except.bind, stop b held]

/-- A loop that fails does so in some round, after those before it. -/
theorem foldlM_range_error {f : α → Nat → Except ε α} {a : α} {e : ε}
    (run : (List.range n).foldlM f a = .error e) :
    ∃ k < n, ∃ b, (List.range k).foldlM f a = .ok b ∧ f b k = .error e := by
  induction n with
  | zero => cases run
  | succ n ih =>
    rw [List.range_succ, List.foldlM_append] at run
    rcases bind_error.mp run with earlier | ⟨b, prior, last⟩
    · obtain ⟨k, less, b, prior, fails⟩ := ih earlier
      exact ⟨k, by omega, b, prior, fails⟩
    · rw [List.foldlM_cons] at last
      rcases bind_error.mp last with fails | ⟨c, _, none⟩
      · exact ⟨n, Nat.lt_succ_self n, b, prior, fails⟩
      · cases none

/-- Rounds that end alike make loops that end alike. -/
theorem foldlM_ok_congr {f g : α → Nat → Except ε α} {l : List Nat} {a b : α}
    (same : ∀ a i b, f a i = .ok b ↔ g a i = .ok b) :
    l.foldlM f a = .ok b ↔ l.foldlM g a = .ok b := by
  induction l generalizing a with
  | nil => rfl
  | cons i l ih => simp only [List.foldlM_cons, bind_ok, same, ih]

/-- What every round keeps, the loop keeps, also when it may fail. -/
theorem foldlM_ok {body : α → Nat → Except ε α} {l : List Nat} {a b : α} (P : α → Prop)
    (start : P a) (round : ∀ i a b, P a → body a i = .ok b → P b)
    (run : l.foldlM body a = .ok b) : P b := by
  induction l generalizing a with
  | nil =>
    cases run
    exact start
  | cons i l ih =>
    rw [List.foldlM_cons] at run
    cases first : body a i with
    | error e => simp [first, bind, Except.bind] at run
    | ok c =>
      rw [first] at run
      exact ih (round i a c start first) run

/-- A loop of checks passes if each check does. -/
theorem forM_ok {check : Nat → Except ε PUnit} {l : List Nat} (pass : ∀ i ∈ l, check i = .ok ()) :
    forM l check = .ok () := by
  induction l with
  | nil => rfl
  | cons i l ih =>
    rw [List.forM_cons, pass i List.mem_cons_self]
    exact ih (fun j hj => pass j (List.mem_cons_of_mem i hj))

/-- And it passes only then. -/
theorem forM_iff {check : Nat → Except ε PUnit} {l : List Nat} :
    forM l check = .ok () ↔ ∀ i ∈ l, check i = .ok () := by
  refine ⟨fun run => ?_, forM_ok⟩
  induction l with
  | nil => exact nofun
  | cons i l ih =>
    rw [List.forM_cons] at run
    obtain ⟨⟨⟩, first, rest⟩ := bind_ok.mp run
    rintro j (_ | ⟨_, hj⟩)
    · exact first
    · exact ih rest j hj

theorem forM_error {check : Nat → Except ε Unit} {l : List Nat} {e : ε}
    (run : forM l check = .error e) :
    ∃ i ∈ l, check i = .error e := by
  induction l with
  | nil => cases run
  | cons i l ih =>
    rw [List.forM_cons] at run
    rcases bind_error.mp run with first | ⟨_, _, rest⟩
    · exact ⟨i, List.mem_cons_self, first⟩
    · obtain ⟨j, hj, fails⟩ := ih rest
      exact ⟨j, List.mem_cons_of_mem i hj, fails⟩

end SystemsProjects.Loops
