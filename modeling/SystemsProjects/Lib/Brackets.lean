import Mathlib.Data.List.Infix
import Mathlib.Data.Nat.Find

/-!
# Stacks that grow and shrink by one

A stack changes at its top. What was pushed at some time stays until it is popped, and then the
stack is what it was before.
-/

namespace SystemsProjects.Brackets

variable {α : Type}

/-- The stack is pushed, popped or left alone. -/
inductive Changes : List α → List α → Prop
  | same (s : List α) : Changes s s
  | push (x : α) (s : List α) : Changes s (x :: s)
  | pop (x : α) (s : List α) : Changes (x :: s) s

/-- What was pushed is popped at last, above it nothing is left then, and below it nothing has
changed. -/
theorem popped {s : Nat → List α} {n last : Nat} {x : α}
    (changes : ∀ m, n < m → Changes (s m) (s (m + 1))) (pushed : s (n + 1) = x :: s n)
    (le : n < last) (gone : ¬(x :: s n) <:+ s last) :
    ∃ m, n < m ∧ m < last ∧ s m = x :: s n ∧ s (m + 1) = s n ∧ ∀ k, n < k → k ≤ m →
      (x :: s n) <:+ s k := by
  classical
  have ends : ∃ m, n < m ∧ ¬(x :: s n) <:+ s m := ⟨last, le, gone⟩
  obtain ⟨after, away⟩ := Nat.find_spec ends
  have stays : ∀ k, n < k → k < Nat.find ends → (x :: s n) <:+ s k := by
    intro k above before
    by_contra missing
    exact Nat.find_min ends before ⟨above, missing⟩
  have first : Nat.find ends ≠ n + 1 := by
    intro same
    rw [same, pushed] at away
    exact away (List.suffix_refl _)
  obtain ⟨m, found⟩ : ∃ m, Nat.find ends = m + 1 := ⟨Nat.find ends - 1, by omega⟩
  rw [found] at away after first stays
  have here := stays m (by omega) (by omega)
  have before : m + 1 ≤ last := found ▸ Nat.find_min' ends ⟨le, gone⟩
  have step := changes m (by omega)
  refine ⟨m, by omega, by omega, ?_⟩
  have both : s m = x :: s n ∧ s (m + 1) = s n := by
    generalize s m = t, s (m + 1) = t' at step here away
    cases step with
    | same => exact absurd here away
    | push y => exact absurd (here.trans (List.suffix_cons y _)) away
    | pop y =>
      obtain same | deeper := List.suffix_cons_iff.mp here
      · obtain ⟨rfl, rfl⟩ := List.cons.inj same
        exact ⟨rfl, rfl⟩
      · exact absurd deeper away
  exact ⟨both.1, both.2, fun k above most => stays k above (by omega)⟩

end SystemsProjects.Brackets
