import Mathlib.Data.List.Basic

/-!
# Two fields and a separator

Two fields that are joined with a separator come apart into two again if and only if
neither contains it.
-/

namespace SystemsProjects.Split

variable {α : Type*} [DecidableEq α] {x : α} {l l' left right : List α}

theorem splitOn_append (left right : List α) :
    (left ++ x :: right).splitOn x = left.splitOn x ++ right.splitOn x :=
  List.splitOnP_append_cons left right (beq_self_eq_true x)

/-- A list stays whole if it does not contain the separator. -/
theorem splitOn_singleton : l.splitOn x = [l'] ↔ l' = l ∧ x ∉ l := by
  constructor
  · intro whole
    constructor
    · have back := l.intercalate_splitOn x
      rw [whole] at back
      simpa [List.intercalate] using back
    · intro mem
      obtain ⟨left, right, rfl⟩ := List.append_of_mem mem
      have pieces := congrArg List.length whole
      rw [splitOn_append, List.length_append] at pieces
      have some_left := List.length_pos_of_ne_nil (List.splitOn_ne_nil x left)
      have some_right := List.length_pos_of_ne_nil (List.splitOn_ne_nil x right)
      simp at pieces
      omega
  · rintro ⟨rfl, absent⟩
    apply List.splitOnP_eq_singleton
    intro y mem
    apply beq_false_of_ne
    rintro rfl
    exact absent mem

/-- The first piece ends before the first separator. -/
theorem splitOn_cons {piece next : List α} {rest : List (List α)} :
    l.splitOn x = piece :: next :: rest ↔
    ∃ tail, l = piece ++ x :: tail ∧ x ∉ piece ∧ tail.splitOn x = next :: rest := by
  constructor
  · intro pieces
    by_cases mem : x ∈ l
    · obtain ⟨front, tail, rfl, absent⟩ := List.eq_append_cons_of_mem mem
      rw [splitOn_append, splitOn_singleton.mpr ⟨rfl, absent⟩] at pieces
      obtain ⟨rfl, tail'⟩ := List.cons.inj pieces
      exact ⟨tail, rfl, absent, tail'⟩
    · rw [splitOn_singleton.mpr ⟨rfl, mem⟩] at pieces
      cases pieces
  · rintro ⟨tail, rfl, absent, pieces⟩
    rw [splitOn_append, splitOn_singleton.mpr ⟨rfl, absent⟩, pieces]
    rfl

theorem splitOn_pair {left' right' : List α} : (left ++ x :: right).splitOn x = [left', right'] ↔
    (left' = left ∧ x ∉ left) ∧ right' = right ∧ x ∉ right := by
  rw [splitOn_append, ← splitOn_singleton, ← splitOn_singleton]
  constructor
  · intro pieces
    obtain ⟨a, as, eq⟩ := List.exists_cons_of_ne_nil (List.splitOn_ne_nil x left)
    obtain ⟨b, bs, eq'⟩ := List.exists_cons_of_ne_nil (List.splitOn_ne_nil x right)
    rw [eq, eq'] at pieces ⊢
    cases as with
    | nil => simpa using pieces
    | cons c as => simp at pieces
  · rintro ⟨whole, whole'⟩
    rw [whole, whole']
    rfl

end SystemsProjects.Split
