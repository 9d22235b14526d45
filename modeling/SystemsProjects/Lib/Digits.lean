import Mathlib.Data.Nat.Bitwise
import Mathlib.Tactic.Ring

/-!
# Strings of binary digits

Numbers written with a fixed count of binary digits, the most significant first, and the
numbers that such strings stand for.
-/

namespace SystemsProjects.Digits

/-- The lowest `width` digits of a number. -/
def digits : Nat → Nat → List Bool
  | 0, _ => []
  | width + 1, n => n.testBit width :: digits width n

/-- The number that a string of digits stands for. -/
def value : List Bool → Nat
  | [] => 0
  | d :: ds => d.toNat * 2 ^ ds.length + value ds

/-- At least `width` digits, and more where the number needs them. -/
def format (width n : Nat) : List Bool := digits (max width (n.log2 + 1)) n

@[simp]
theorem length_digits (width n : Nat) : (digits width n).length = width := by
  induction width with
  | zero => rfl
  | succ width ih => simp [digits, ih]

theorem value_lt (ds : List Bool) : value ds < 2 ^ ds.length := by
  induction ds with
  | nil => exact Nat.one_pos
  | cons d ds ih =>
    have one : d.toNat * 2 ^ ds.length ≤ 2 ^ ds.length := by cases d <;> simp
    rw [value, List.length_cons, Nat.pow_succ]
    omega

theorem value_digits (width n : Nat) : value (digits width n) = n % 2 ^ width := by
  induction width with
  | zero => simp [digits, value, Nat.mod_one]
  | succ width ih =>
    rw [digits, value, length_digits, ih, Nat.toNat_testBit, Nat.mod_pow_succ]
    ring

/-- The upper digits are those of the quotient. -/
theorem digits_add (upper lower n : Nat) :
    digits (upper + lower) n = digits upper (n / 2 ^ lower) ++ digits lower n := by
  induction upper with
  | zero => simp [digits]
  | succ upper ih =>
    rw [Nat.succ_add, digits, digits, ih, Nat.testBit_div_two_pow]
    rfl

/-- Digits further up do not matter. -/
theorem digits_mod {width upto : Nat} (le : width ≤ upto) (n : Nat) :
    digits width (n % 2 ^ upto) = digits width n := by
  induction width with
  | zero => rfl
  | succ width ih =>
    have inside : width < upto := le
    rw [digits, digits, ih (by omega), Nat.testBit_mod_two_pow, decide_eq_true inside,
      Bool.true_and]

theorem digits_value (ds : List Bool) : digits ds.length (value ds) = ds := by
  induction ds with
  | nil => rfl
  | cons d ds ih =>
    have less := value_lt ds
    have top : (d.toNat * 2 ^ ds.length + value ds).testBit ds.length = d := by
      rw [Nat.mul_comm, Nat.testBit_two_pow_mul_add d.toNat less, if_neg (Nat.lt_irrefl _),
        Nat.sub_self]
      cases d <;> rfl
    have rest : (d.toNat * 2 ^ ds.length + value ds) % 2 ^ ds.length = value ds := by
      rw [Nat.mul_add_mod_self_right, Nat.mod_eq_of_lt less]
    rw [value, List.length_cons, digits, top, ← digits_mod (Nat.le_refl _), rest, ih]

theorem testBit_top {n k : Nat} (lt : n < 2 ^ (k + 1)) : n.testBit k = decide (2 ^ k ≤ n) := by
  by_cases upper : 2 ^ k ≤ n
  · obtain ⟨m, rfl⟩ := Nat.exists_eq_add_of_le upper
    have small : m < 2 ^ k := by
      rw [Nat.pow_succ] at lt
      omega
    rw [Nat.testBit_two_pow_add_eq, Nat.testBit_lt_two_pow small, decide_eq_true upper]
    rfl
  · rw [Nat.testBit_lt_two_pow (Nat.lt_of_not_le upper), decide_eq_false upper]

theorem format_of_lt {width n : Nat} (wide : 0 < width) (lt : n < 2 ^ width) :
    format width n = digits width n := by
  unfold format
  by_cases zero : n = 0
  · subst zero
    rw [Nat.log2_zero, Nat.max_eq_left wide]
  · rw [Nat.max_eq_left ((Nat.log2_lt zero).mpr lt)]

theorem digits_zero (width : Nat) : digits width 0 = List.replicate width false := by
  induction width with
  | zero => rfl
  | succ width ih => rw [digits, ih, Nat.zero_testBit, List.replicate_succ]

/-- A number with fewer digits is written with leading zeros. -/
theorem zeros_digits {width narrow n : Nat} (le : narrow ≤ width) (lt : n < 2 ^ narrow) :
    List.replicate (width - narrow) false ++ digits narrow n = digits width n := by
  have wide := digits_add (width - narrow) narrow n
  rw [Nat.sub_add_cancel le, Nat.div_eq_of_lt lt, digits_zero] at wide
  exact wide.symm

theorem length_format_one (n : Nat) : (format 1 n).length = n.log2 + 1 := by
  rw [format, length_digits, Nat.max_eq_right (by omega)]

/-- The digits of a number are no more than `width` if it is below the power of 2. -/
theorem length_format_one_le {width n : Nat} (wide : 0 < width) :
    (format 1 n).length ≤ width ↔ n < 2 ^ width := by
  rw [length_format_one]
  by_cases zero : n = 0
  · subst zero
    simp only [Nat.log2_zero, Nat.two_pow_pos, iff_true]
    omega
  · rw [← Nat.log2_lt zero, Nat.succ_le_iff]

theorem zeros_format_one {width n : Nat} (lt : n < 2 ^ width) (wide : 0 < width) :
    List.replicate (width - (format 1 n).length) false ++ format 1 n = digits width n := by
  have le := (length_format_one_le wide).mpr lt
  rw [length_format_one] at le ⊢
  have same : format 1 n = digits (n.log2 + 1) n := by
    rw [format, Nat.max_eq_right (by omega)]
  rw [same]
  exact zeros_digits le Nat.lt_log2_self

end SystemsProjects.Digits
