import Mathlib.Data.List.Basic

/-!
# Requests that are answered once

A history of labels, the newest first, as one recipient sees it: requests to it,
its answers, and deadlines. A request is also a deadline for the one before.
-/

namespace SystemsProjects.Answers

/-- What a label is to the recipient. -/
structure Roles (L E : Type*) where
  request : L → Option E
  answer : L → Option E
  deadline : L → Bool

variable {L E : Type*} [DecidableEq E] {r : Roles L E} {h : List L} {l : L}

def Roles.ends (r : Roles L E) (l : L) : Bool := r.deadline l || (r.request l).isSome

/-- A request has had one answer when the time for it ends, and never has more. -/
def AnsweredOnce (r : Roles L E) (h : List L) : Prop :=
  ∀ after window before l e, h = after ++ window ++ l :: before → r.request l = some e →
    (∀ x ∈ window, r.ends x = false) →
    window.countP (fun x => r.answer x = some e) ≤ 1 ∧
    ∀ x ∈ after.getLast?, r.ends x = true → window.countP (fun x => r.answer x = some e) = 1

/-- The request whose time has not ended, and the number of its answers so far. -/
def pending (r : Roles L E) : List L → Option (E × Nat)
  | [] => none
  | l :: h =>
    match r.request l with
    | some e => some (e, 0)
    | none =>
      if r.deadline l then none
      else (pending r h).map (fun p => if r.answer l = some p.1 then (p.1, p.2 + 1) else p)

/-- Nothing is pending, or it has been answered. -/
def Settled (r : Roles L E) (h : List L) : Prop := ∀ e k, pending r h = some (e, k) → k = 1

theorem pending_window {window before : List L} {e : E} (request : r.request l = some e)
    (still : ∀ x ∈ window, r.ends x = false) : pending r (window ++ l :: before) =
      some (e, window.countP (fun x => r.answer x = some e)) := by
  induction window with
  | nil => simp [pending, request]
  | cons x window ih =>
    have here := still x List.mem_cons_self
    simp only [Roles.ends, Bool.or_eq_false_iff, Option.isSome_eq_false_iff,
      Option.isNone_iff_eq_none] at here
    have rest := ih (fun y hy => still y (List.mem_cons_of_mem x hy))
    simp only [List.cons_append, pending, here.1, here.2, rest, Option.map_some, List.countP_cons,
      decide_eq_true_eq, Bool.false_eq_true, if_false]
    split <;> rfl

/-- A new label keeps it up if it ends the time of an answered request only, and
answers a request that has had no answer. -/
theorem AnsweredOnce.cons (once : AnsweredOnce r h) (ends : r.ends l = true → Settled r h)
    (answers : ∀ e k, pending r h = some (e, k) → r.answer l = some e → k = 0) :
    AnsweredOnce r (l :: h) := by
  intro after window before m e split request still
  cases after with
  | nil =>
    refine ⟨?_, fun _ none => absurd none (by simp)⟩
    cases window with
    | nil => simp
    | cons x window =>
      obtain ⟨rfl, rfl⟩ := List.cons_eq_cons.mp split
      have still := fun y hy => still y (List.mem_cons_of_mem l hy)
      rw [List.countP_cons]
      by_cases answer : r.answer l = some e
      · rw [answers e _ (pending_window request still) answer]
        split <;> omega
      · have le := (once [] window before m e rfl request still).1
        simp only [answer, decide_false, Bool.false_eq_true, if_false]
        exact le
  | cons x after =>
    obtain ⟨rfl, rfl⟩ := List.cons_eq_cons.mp split
    obtain ⟨le, last⟩ := once after window before m e rfl request still
    refine ⟨le, ?_⟩
    cases after with
    | nil =>
      intro x hx ended
      obtain rfl : l = x := by simpa using hx
      exact ends ended e _ (pending_window request still)
    | cons y after =>
      rw [List.getLast?_cons_cons]
      exact last

/-- A label that is nothing to the recipient. -/
theorem pending_other (request : r.request l = none) (deadline : r.deadline l = false)
    (answer : r.answer l = none) : pending r (l :: h) = pending r h := by
  simp [pending, request, deadline, answer]

theorem answeredOnce_nil : AnsweredOnce r [] := by
  intro after window before l e split
  simp at split

theorem settled_nil : Settled r [] := by
  intro e k pending
  simp [Answers.pending] at pending

theorem Settled.of_eq {h' : List L} (settled : Settled r h) (eq : pending r h' = pending r h) :
    Settled r h' := by
  intro e k pending
  exact settled e k (eq ▸ pending)

end SystemsProjects.Answers
