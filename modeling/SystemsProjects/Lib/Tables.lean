import Mathlib.Data.List.Basic
import Mathlib.Data.List.Nodup

/-!
# Association lists

A list of keys and values is a table. If each key occurs once, the order does not matter.
-/

namespace SystemsProjects.Tables

variable {α β : Type}

theorem mem_of_lookup [BEq α] [LawfulBEq α] {l : List (α × β)} {k : α} {v : β}
    (found : l.lookup k = some v) : (k, v) ∈ l := by
  induction l with
  | nil => cases found
  | cons entry l ih =>
    rw [List.lookup_cons] at found
    split at found
    · next same =>
      rw [eq_of_beq same, ← Option.some.inj found]
      exact List.mem_cons_self
    · exact List.mem_cons_of_mem _ (ih found)

theorem lookup_iff_mem [BEq α] [LawfulBEq α] {l : List (α × β)} {k : α} {v : β}
    (once : (l.map Prod.fst).Nodup) :
    l.lookup k = some v ↔ (k, v) ∈ l := by
  induction l with
  | nil => simp
  | cons entry l ih =>
    obtain ⟨k', v'⟩ := entry
    obtain ⟨absent, once⟩ := List.nodup_cons.mp once
    by_cases same : k = k'
    · subst same
      have others : (k, v) ∉ l := fun mem => absent (List.mem_map.mpr ⟨_, mem, rfl⟩)
      simp [others, eq_comm]
    · have ne : (k == k') = false := beq_false_of_ne same
      rw [List.lookup_cons, ne, ih once]
      simp [same]

/-- Values under consecutive numbers. -/
def numbered : Nat → List β → List (Nat × β)
  | _, [] => []
  | n, v :: vs => (n, v) :: numbered (n + 1) vs

@[simp]
theorem length_numbered (n : Nat) (vs : List β) : (numbered n vs).length = vs.length := by
  induction vs generalizing n with
  | nil => rfl
  | cons v vs ih => simp [numbered, ih]

theorem numbered_append (n : Nat) (vs ws : List β) :
    numbered n (vs ++ ws) = numbered n vs ++ numbered (n + vs.length) ws := by
  induction vs generalizing n with
  | nil => rfl
  | cons v vs ih =>
    rw [List.cons_append, numbered, numbered, ih, List.length_cons, List.cons_append]
    congr 3
    omega

theorem lookup_numbered (n k : Nat) (vs : List β) : (numbered n vs).lookup (n + k) = vs[k]? := by
  induction vs generalizing n k with
  | nil => rfl
  | cons v vs ih =>
    cases k with
    | zero => simp [numbered]
    | succ k =>
      have ne : (n + (k + 1) == n) = false := beq_false_of_ne (by omega)
      have regroup : n + (k + 1) = n + 1 + k := by omega
      rw [numbered, List.lookup_cons, ne, regroup, ih, List.getElem?_cons_succ]

/-! ## Dictionaries -/

/-- A key that is there keeps its place. -/
def insert [BEq α] (l : List (α × β)) (k : α) (v : β) : List (α × β) :=
  if (l.lookup k).isSome then l.map fun entry => if entry.1 == k then (k, v) else entry
  else l ++ [(k, v)]

theorem lookup_replace_self [BEq α] [LawfulBEq α] {l : List (α × β)} {k : α} (v : β)
    (known : (l.lookup k).isSome = true) :
    (l.map fun entry => if entry.1 == k then (k, v) else entry).lookup k = some v := by
  induction l with
  | nil => cases known
  | cons entry l ih =>
    rw [List.map_cons, List.lookup_cons]
    rw [List.lookup_cons] at known
    by_cases same : entry.1 = k
    · simp [same]
    · have ne : (k == entry.1) = false := beq_false_of_ne (Ne.symm same)
      rw [ne] at known
      simpa [same, ne] using ih known

theorem lookup_replace_other [BEq α] [LawfulBEq α] (l : List (α × β)) {k k' : α} (v : β)
    (other : k' ≠ k) :
    (l.map fun entry => if entry.1 == k then (k, v) else entry).lookup k' = l.lookup k' := by
  induction l with
  | nil => rfl
  | cons entry l ih =>
    rw [List.map_cons, List.lookup_cons, List.lookup_cons, ih]
    by_cases same : entry.1 = k
    · have ne : (k' == k) = false := beq_false_of_ne other
      simp [same, ne]
    · simp [same]

theorem lookup_insert [BEq α] [LawfulBEq α] (l : List (α × β)) (k k' : α) (v : β) :
    (insert l k v).lookup k' = if k' == k then some v else l.lookup k' := by
  unfold insert
  by_cases same : k' = k
  · subst same
    rw [if_pos (beq_self_eq_true k')]
    split
    · next known => exact lookup_replace_self v known
    · next unknown =>
      have fresh : l.lookup k' = none := Option.not_isSome_iff_eq_none.mp unknown
      simp [List.lookup_append, fresh]
  · have ne : (k' == k) = false := beq_false_of_ne same
    rw [ne]
    split
    · exact lookup_replace_other l v same
    · simp [List.lookup_append, List.lookup_cons, ne]

/-- The entries one after the other. -/
def insertAll [BEq α] (entries : List (α × β)) : List (α × β) :=
  entries.foldl (fun l entry => insert l entry.1 entry.2) []

theorem lookup_foldr_insert [BEq α] [LawfulBEq α] (entries : List (α × β)) (k : α) :
    (entries.foldr (fun entry l => insert l entry.1 entry.2) []).lookup k = entries.lookup k := by
  induction entries with
  | nil => rfl
  | cons entry entries ih =>
    rw [List.foldr_cons, lookup_insert, ih, List.lookup_cons]
    cases k == entry.1 <;> rfl

/-- The last entry of a key counts. -/
theorem lookup_insertAll [BEq α] [LawfulBEq α] {entries : List (α × β)} {k : α} {v : β} :
    (insertAll entries).lookup k = some v ↔
      ∃ front rest, entries = front ++ (k, v) :: rest ∧ k ∉ rest.map Prod.fst := by
  rw [insertAll, List.foldl_eq_foldr_reverse, lookup_foldr_insert, List.lookup_eq_some_iff]
  constructor
  · rintro ⟨rest, front, split, absent⟩
    refine ⟨front.reverse, rest.reverse, ?_, ?_⟩
    · simpa using congrArg List.reverse split
    · intro later
      obtain ⟨entry, mem, same⟩ := List.mem_map.mp later
      exact bne_iff_ne.mp (absent entry (List.mem_reverse.mp mem)) same.symm
  · rintro ⟨front, rest, rfl, absent⟩
    refine ⟨rest.reverse, front.reverse, by simp, fun entry mem => bne_iff_ne.mpr ?_⟩
    rintro rfl
    exact absent (List.mem_map_of_mem (List.mem_reverse.mp mem))

end SystemsProjects.Tables
