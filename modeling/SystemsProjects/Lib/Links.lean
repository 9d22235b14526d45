import Mathlib.Data.List.Nodup
import Mathlib.Data.List.Perm.Subperm

/-!
# Singly linked lists

`Chain next head xs` says that the links `next` lead from `head` through
exactly the nodes `xs` and end there. A chain determines its nodes and never
repeats one, so the loops that follow links are inductions on `xs`.
-/

namespace SystemsProjects.Links

variable {α : Type}

def Chain (next : α → Option α) : Option α → List α → Prop
  | head, [] => head = none
  | head, a :: xs => head = some a ∧ Chain next (next a) xs

@[simp] theorem chain_nil {next : α → Option α} {head : Option α} :
    Chain next head [] ↔ head = none := Iff.rfl

@[simp] theorem chain_cons {next : α → Option α} {head : Option α} {a : α} {xs : List α} :
    Chain next head (a :: xs) ↔ head = some a ∧ Chain next (next a) xs := Iff.rfl

theorem chain_none_iff {next : α → Option α} {xs : List α} : Chain next none xs ↔ xs = [] := by
  cases xs <;> simp

theorem Chain.head_eq {next : α → Option α} {head : Option α} {xs : List α}
    (h : Chain next head xs) : head = xs.head? := by
  cases xs with
  | nil => exact h
  | cons a xs => exact h.1

theorem Chain.congr {next next' : α → Option α} {head : Option α} {xs : List α}
    (h : Chain next head xs) (agree : ∀ a ∈ xs, next' a = next a) : Chain next' head xs := by
  induction xs generalizing head with
  | nil => exact h
  | cons a xs ih =>
    obtain ⟨rfl, rest⟩ := h
    refine ⟨rfl, ?_⟩
    rw [agree a List.mem_cons_self]
    exact ih rest (fun b hb => agree b (List.mem_cons_of_mem a hb))

/-- Links lead to one list only. -/
theorem Chain.unique {next : α → Option α} {head : Option α} {xs ys : List α}
    (hx : Chain next head xs) (hy : Chain next head ys) : xs = ys := by
  induction xs generalizing head ys with
  | nil =>
    cases hx
    exact (chain_none_iff.mp hy).symm
  | cons a xs ih =>
    obtain ⟨rfl, rest⟩ := hx
    cases ys with
    | nil => cases hy
    | cons b ys =>
      obtain ⟨hb, resty⟩ := hy
      cases hb
      rw [ih rest resty]

theorem Chain.suffix {next : α → Option α} {head : Option α} {xs ys : List α} {a : α}
    (h : Chain next head (xs ++ a :: ys)) : Chain next (some a) (a :: ys) := by
  induction xs generalizing head with
  | nil => exact ⟨rfl, h.2⟩
  | cons b xs ih => exact ih h.2

/-- A node seen again would lead to the same end twice, at two distances. -/
theorem Chain.nodup {next : α → Option α} {head : Option α} {xs : List α}
    (h : Chain next head xs) : xs.Nodup := by
  induction xs generalizing head with
  | nil => exact List.nodup_nil
  | cons a xs ih =>
    refine List.nodup_cons.mpr ⟨fun again => ?_, ih h.2⟩
    obtain ⟨before, after, rfl⟩ := List.append_of_mem again
    have first : Chain next (some a) (a :: (before ++ a :: after)) := ⟨rfl, h.2⟩
    have second : Chain next (some a) (a :: after) := Chain.suffix h.2
    have same := congrArg List.length (first.unique second)
    simp only [List.length_cons, List.length_append] at same
    omega

/-- The link of a node in the chain leads to the node after it. -/
theorem Chain.next_eq {next : α → Option α} {head : Option α} {xs ys : List α} {a : α}
    (h : Chain next head (xs ++ a :: ys)) : next a = ys.head? := by
  have tail : Chain next (next a) ys := h.suffix.2
  exact tail.head_eq

theorem Chain.next_last {next : α → Option α} {head : Option α} {xs : List α} {a : α}
    (h : Chain next head xs) (last : xs.getLast? = some a) : next a = none := by
  obtain ⟨ys, rfl⟩ := List.getLast?_eq_some_iff.mp last
  exact h.next_eq

/-- A link back to its own node has no end. -/
theorem not_chain_of_loop {next : α → Option α} {a : α} (loop : next a = some a) (xs : List α) :
    ¬ Chain next (some a) xs := by
  induction xs with
  | nil => exact Option.some_ne_none a
  | cons b xs ih =>
    rintro ⟨e, rest⟩
    cases e
    rw [loop] at rest
    exact ih rest

/-- The first `n` nodes from `head` on, or all of them. -/
def walk (next : α → Option α) : Nat → Option α → List α
  | n + 1, some a => a :: walk next n (next a)
  | _, _ => []

theorem Chain.walk {next : α → Option α} {n : Nat} {head : Option α} {xs : List α}
    (h : Chain next head xs) (fits : xs.length ≤ n) : Links.walk next n head = xs := by
  induction xs generalizing n head with
  | nil =>
    obtain rfl : head = none := h
    cases n <;> rfl
  | cons a xs ih =>
    obtain ⟨rfl, rest⟩ := h
    cases n with
    | zero => simp at fits
    | succ n => rw [Links.walk, ih rest (by simpa using fits)]

section Update

variable [DecidableEq α] {next : α → Option α}

/-- The links with the one out of `a` set to `b`. -/
def link (next : α → Option α) (a : α) (b : Option α) : α → Option α :=
  fun x => if x = a then b else next x

@[simp] theorem link_self (next : α → Option α) (a : α) (b : Option α) : link next a b a = b :=
  if_pos rfl

theorem link_other {a x : α} {b : Option α} (h : x ≠ a) : link next a b x = next x := if_neg h

/-- Appending at the tail: the old last node is linked to the new one. -/
theorem Chain.append {head : Option α} {xs : List α} {t a : α} (h : Chain next head xs)
    (last : xs.getLast? = some t) (new : a ∉ xs) (ends : next a = none) :
    Chain (link next t (some a)) head (xs ++ [a]) := by
  obtain ⟨ys, rfl⟩ := List.getLast?_eq_some_iff.mp last
  have nodup := h.nodup
  clear last
  induction ys generalizing head with
  | nil =>
    obtain ⟨rfl, _⟩ := h
    have ne : a ≠ t := by simpa using new
    simp [link_other ne, ends]
  | cons b ys ih =>
    obtain ⟨rfl, rest⟩ := h
    have ne : b ≠ t := by
      have := (List.nodup_cons.mp nodup).1
      rintro rfl
      simp at this
    refine ⟨rfl, ?_⟩
    rw [link_other ne]
    exact ih rest (fun mem => new (List.mem_cons_of_mem b mem)) (List.nodup_cons.mp nodup).2

/-- Unlinking a node that has a predecessor. -/
theorem Chain.unlink {head : Option α} {xs ys : List α} {p a : α}
    (h : Chain next head (xs ++ p :: a :: ys)) :
    Chain (link next p (next a)) head (xs ++ p :: ys) := by
  have nodup := h.nodup
  induction xs generalizing head with
  | nil =>
    obtain ⟨rfl, _, rest⟩ := h
    have absent : p ∉ ys := fun mem =>
      (List.nodup_cons.mp nodup).1 (List.mem_cons_of_mem a mem)
    refine ⟨rfl, ?_⟩
    rw [link_self]
    exact rest.congr (fun b hb => link_other (fun e => absent (e ▸ hb)))
  | cons b xs ih =>
    obtain ⟨rfl, rest⟩ := h
    have ne : b ≠ p := by
      have := (List.nodup_cons.mp nodup).1
      rintro rfl
      simp at this
    refine ⟨rfl, ?_⟩
    rw [link_other ne]
    exact ih rest (List.nodup_cons.mp nodup).2

/-- Cutting the link of a node outside the chain changes nothing in it. -/
theorem Chain.link_outside {head : Option α} {xs : List α} {a : α} {b : Option α}
    (h : Chain next head xs) (out : a ∉ xs) : Chain (link next a b) head xs :=
  h.congr (fun _ hx => link_other (fun e => out (e ▸ hx)))

end Update

end SystemsProjects.Links
