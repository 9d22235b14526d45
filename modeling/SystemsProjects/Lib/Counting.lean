import Mathlib.Algebra.BigOperators.Group.Finset.Piecewise
import Mathlib.Algebra.Order.BigOperators.Group.Finset

/-!
# Counting threads

Sums of weights over `n` threads of which one moves, or some do.
-/

namespace SystemsProjects.Counting

open Finset

variable {n c : Nat} {f g : Nat → Nat}

theorem sum_move (hc : c < n) (same : ∀ x, x ≠ c → g x = f x) :
    ∑ x ∈ range n, g x + f c = ∑ x ∈ range n, f x + g c := by
  have others : ∑ x ∈ (range n).erase c, g x = ∑ x ∈ (range n).erase c, f x :=
    sum_congr rfl (fun x hx => same x (ne_of_mem_erase hx))
  rw [← add_sum_erase _ g (mem_range.mpr hc), ← add_sum_erase _ f (mem_range.mpr hc), others]
  omega

/-- One weight grows and none shrinks. -/
theorem sum_grows (hc : c < n) (le : ∀ x, f x ≤ g x) (lt : f c < g c) :
    ∑ x ∈ range n, f x + 1 ≤ ∑ x ∈ range n, g x :=
  sum_lt_sum (fun x _ => le x) ⟨c, mem_range.mpr hc, lt⟩

theorem exists_pos (pos : 0 < ∑ x ∈ range n, f x) : ∃ c < n, 0 < f c := by
  obtain ⟨c, hc, ne⟩ := exists_ne_zero_of_sum_ne_zero pos.ne'
  exact ⟨c, mem_range.mp hc, Nat.pos_of_ne_zero ne⟩

end SystemsProjects.Counting
