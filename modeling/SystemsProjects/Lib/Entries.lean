import Mathlib.Data.List.Basic
import Mathlib.Data.List.InsertIdx

/-!
# Taking one entry out of a list

By its value or by its index: the two agree if there are only copies of it between
the first entry with the value and the index.
-/

namespace SystemsProjects.Entries

variable {α : Type*} [BEq α] [LawfulBEq α] {l : List α} {a x : α} {k : Nat}

theorem erase_eq_eraseIdx (here : l[k]? = some a)
    (copies : ∀ i ≤ k, l.idxOf a ≤ i → l[i]? = some a) :
    l.erase a = l.eraseIdx k := by
  induction l generalizing k with
  | nil => simp at here
  | cons x l ih =>
    by_cases first : x = a
    · subst first
      rw [List.erase_cons_head]
      cases k with
      | zero => rfl
      | succ k =>
        have again : ∀ i ≤ k, l[i]? = some x := fun i le => copies (i + 1) (by omega) (by simp)
        have rest := ih (again k (Nat.le_refl k)) (fun i le _ => again i le)
        rw [List.eraseIdx_cons_succ, ← rest]
        cases l with
        | nil => simp at here
        | cons y l =>
          obtain rfl : y = x := by simpa using again 0 (Nat.zero_le k)
          rw [List.erase_cons_head]
    · cases k with
      | zero => exact absurd (by simpa using here) first
      | succ k =>
        have later : ∀ i ≤ k, l.idxOf a ≤ i → l[i]? = some a := by
          intro i le from'
          have there := copies (i + 1) (by omega) (by
            rw [List.idxOf_cons_ne _ first]
            omega)
          simpa using there
        rw [List.erase_cons_tail (by simpa using first), List.eraseIdx_cons_succ,
          ih (by simpa using here) later]

theorem ne_cons_erase (ne : x ≠ a) : l ≠ x :: l.erase a := by
  induction l generalizing x with
  | nil => exact (List.cons_ne_nil x _).symm
  | cons y l ih =>
    intro same
    obtain ⟨rfl, rest⟩ := List.cons_eq_cons.mp same
    rw [List.erase_cons_tail (by simpa using ne)] at rest
    exact ih ne rest

theorem copies_of_erase_eq (inside : k < l.length) (same : l.erase a = l.eraseIdx k) :
    l[k]? = some a ∧ ∀ i ≤ k, l.idxOf a ≤ i → l[i]? = some a := by
  induction l generalizing k with
  | nil => exact absurd inside (Nat.not_lt_zero k)
  | cons x l ih =>
    by_cases first : x = a
    · subst first
      rw [List.erase_cons_head] at same
      cases k with
      | zero => exact ⟨rfl, fun i le _ => by simp [Nat.le_zero.mp le]⟩
      | succ k =>
        rw [List.eraseIdx_cons_succ] at same
        cases l with
        | nil => exact absurd inside (by simp)
        | cons y l =>
          obtain ⟨rfl, rest⟩ := List.cons_eq_cons.mp same
          obtain ⟨here, copies⟩ := ih (by simpa using inside)
            ((List.erase_cons_head y l).trans rest)
          refine ⟨by simpa using here, fun i le _ => ?_⟩
          cases i with
          | zero => rfl
          | succ i => simpa using copies i (by omega) (by simp)
    · rw [List.erase_cons_tail (by simpa using first)] at same
      cases k with
      | zero => exact absurd same.symm (ne_cons_erase first)
      | succ k =>
        rw [List.eraseIdx_cons_succ] at same
        obtain ⟨here, copies⟩ := ih (by simpa using inside) (List.cons_eq_cons.mp same).2
        refine ⟨by simpa using here, fun i le from' => ?_⟩
        rw [List.idxOf_cons_ne _ first] at from'
        cases i with
        | zero => exact absurd from' (Nat.not_succ_le_zero _)
        | succ i => simpa using copies i (by omega) (by omega)

/-- A filter that keeps all entries up to an index leaves what is there. -/
theorem getElem?_filter {β : Type*} {l : List β} {p : β → Bool} {k : Nat}
    (kept : ∀ x ∈ l.take (k + 1), p x = true) : (l.filter p)[k]? = l[k]? := by
  have parts : l.filter p = l.take (k + 1) ++ (l.drop (k + 1)).filter p := by
    conv_lhs => rw [← List.take_append_drop (k + 1) l]
    rw [List.filter_append, List.filter_eq_self.mpr kept]
  by_cases inside : k < l.length
  · rw [parts, List.getElem?_append_left (by rw [List.length_take]; omega),
      List.getElem?_take_of_lt (Nat.lt_succ_self k)]
  · rw [parts, List.take_of_length_le (by omega), List.drop_eq_nil_of_le (by omega),
      List.filter_nil, List.append_nil]

/-- Taking out an entry at an index or behind it leaves those before. -/
theorem take_erase (behind : k ≤ l.idxOf a) : (l.erase a).take k = l.take k := by
  rw [List.erase_eq_eraseIdx_of_idxOf rfl, List.take_eraseIdx_eq_take_of_le l k _ behind]

end SystemsProjects.Entries
