import Mathlib.Data.List.Perm.Subperm
import SystemsProjects.Lib.Links

/-!
# A heap of allocated cells

Cells are allocated at an address chosen from outside, read, overwritten and
freed. A linked list whose nodes are live is at most as long as the heap, so a
walk that takes more steps than there are cells never ends.
-/

namespace SystemsProjects.Heaps

open SystemsProjects.Links

/-- The live cells, each with its address. -/
abbrev Heap (α : Type) := List (Nat × α)

namespace Heap

variable {α : Type}

def read : Heap α → Nat → Option α
  | [], _ => none
  | (b, v) :: h, a => if b = a then some v else read h a

def alloc (h : Heap α) (a : Nat) (v : α) : Heap α := (a, v) :: h

/-- The cell at `a`, if live, changed by `f`. -/
def modify : Heap α → Nat → (α → α) → Heap α
  | [], _, _ => []
  | (b, v) :: h, a, f => (b, if b = a then f v else v) :: modify h a f

def free : Heap α → Nat → Heap α
  | [], _ => []
  | (b, v) :: h, a => if b = a then free h a else (b, v) :: free h a

@[simp] theorem read_alloc (h : Heap α) (a b : Nat) (v : α) :
    read (alloc h a v) b = if a = b then some v else read h b := rfl

@[simp] theorem read_modify (h : Heap α) (a b : Nat) (f : α → α) :
    read (modify h a f) b = if a = b then (read h b).map f else read h b := by
  induction h with
  | nil => simp [modify, read]
  | cons c h ih =>
    obtain ⟨x, v⟩ := c
    simp only [modify, read, ih]
    by_cases hx : x = b
    · subst hx
      by_cases ha : a = x
      · simp [ha]
      · simp [ha, Ne.symm ha]
    · simp [hx]

@[simp] theorem read_free (h : Heap α) (a b : Nat) :
    read (free h a) b = if a = b then none else read h b := by
  induction h with
  | nil => simp [free, read]
  | cons c h ih =>
    obtain ⟨x, v⟩ := c
    simp only [free]
    by_cases hx : x = a
    · subst hx
      by_cases hb : x = b
      · subst hb
        simpa using ih
      · simp [hb, ih, read]
    · by_cases hb : x = b
      · subst hb
        simp [hx, read, Ne.symm hx]
      · simp [hx, hb, ih, read]

theorem mem_of_read {h : Heap α} {a : Nat} {v : α} (live : read h a = some v) :
    a ∈ h.map Prod.fst := by
  induction h with
  | nil => cases live
  | cons c h ih =>
    obtain ⟨x, w⟩ := c
    simp only [read] at live
    by_cases hx : x = a
    · simp [hx]
    · rw [if_neg hx] at live
      exact List.mem_cons_of_mem _ (ih live)

/-- The links of live cells, given the link stored in each. -/
def links (h : Heap α) (next : α → Option Nat) (a : Nat) : Option Nat :=
  (read h a).bind next

theorem chain_length_le {h : Heap α} {next : α → Option Nat} {head : Option Nat} {xs : List Nat}
    (chain : Chain (links h next) head xs) (live : ∀ a ∈ xs, (read h a).isSome) :
    xs.length ≤ h.length := by
  have sub : xs ⊆ h.map Prod.fst := by
    intro a ha
    obtain ⟨v, hv⟩ := Option.isSome_iff_exists.mp (live a ha)
    exact mem_of_read hv
  have := (List.subperm_of_subset chain.nodup sub).length_le
  simpa using this

/-- An address above every live one. -/
def bump (h : Heap α) : Nat := h.foldr (fun c n => max c.1 n) 0 + 1

/-- An allocator that never runs out. -/
theorem read_bump (h : Heap α) : read h (bump h) = none := by
  have above : ∀ (h : Heap α) (a : Nat), h.foldr (fun c n => max c.1 n) 0 < a →
      read h a = none := by
    intro h a
    induction h with
    | nil => exact fun _ => rfl
    | cons c h ih =>
      obtain ⟨x, v⟩ := c
      intro lt
      simp only [List.foldr_cons] at lt
      rw [read, if_neg (by omega)]
      exact ih (by omega)
  exact above h _ (Nat.lt_succ_self _)

end Heap

end SystemsProjects.Heaps
