import SystemsProjects.Irq.Stepping
import Mathlib.Tactic.Ring

/-!
# Powers

The program computes a power by calling itself and multiplying. Its routines leave the stack as
they found it.
-/

namespace SystemsProjects.Irq

open Lc Register

namespace View

/-- The instructions stand in the code from an address on. -/
def Placed (L : Layout) (p : Nat) (is : List Instr) : Prop :=
  ∀ k i, is[k]? = some i → L.code (p + k) = some (.ordinary i)

/-- A routine has changed no more than these registers. -/
structure Apart (changed : List (Fin 16)) (v w : View) : Prop where
  MEM : w.MEM = v.MEM
  IE : w.IE = v.IE
  REGS : ∀ r, r ∉ changed → w.REGS r = v.REGS r

theorem Apart.trans {changed : List (Fin 16)} {u v w : View} (first : Apart changed u v)
    (second : Apart changed v w) : Apart changed u w where
  MEM := second.MEM.trans first.MEM
  IE := second.IE.trans first.IE
  REGS r other := (second.REGS r other).trans (first.REGS r other)

theorem Apart.refl (changed : List (Fin 16)) (v : View) : Apart changed v v :=
  ⟨rfl, rfl, fun _ _ => rfl⟩

theorem Apart.set {changed : List (Fin 16)} {v w : View} (apart : Apart changed v w) {r : Fin 16}
    (mem : r ∈ changed) (x : Nat) : Apart changed v (w.set r x) where
  MEM := apart.MEM
  IE := apart.IE
  REGS q other := by
    rw [set_other w r x (by rintro rfl; exact other mem), apart.REGS q other]

theorem Apart.goto {changed : List (Fin 16)} {v w : View} (apart : Apart changed v w) (pc : Nat) :
    Apart changed v (w.goto pc) := ⟨apart.MEM, apart.IE, apart.REGS⟩

/-! ## Multiplication -/

/-- The routine `MULT`, from its label on. -/
def multiply : List Instr :=
  [.add v0 zero zero, .addi t0 zero 0, .add v0 v0 a0, .addi t0 t0 1, .blt t0 a1 (-3), .jalr ra zero]

/-- The loop `AGAIN` and the return behind it. -/
def again : List Instr := [.add v0 v0 a0, .addi t0 t0 1, .blt t0 a1 (-3), .jalr ra zero]

section

variable {L : Layout} {v : View} {q x y : Nat}

theorem signed_of_lt {n : Nat} (small : n < 2 ^ 31) : signed n = n := by
  unfold signed
  rw [Int.bmod_def]
  omega

theorem wrap_add {m n : Nat} (small : m + n < 2 ^ 32) : wrap (m + n) = m + n :=
  wrap_of_lt (n := m + n) small

theorem Placed.here {p k : Nat} {is : List Instr} {i : Instr} (placed : Placed L p is)
    (instr : is[k]? = some i) (PC : v.PC = p + k) : L.code v.PC = some (.ordinary i) := by
  rw [PC]
  exact placed k i instr

theorem placed_of_all {p : Nat} {is : List Instr}
    (all : ∀ k : Fin is.length, L.code (p + k) = some (.ordinary is[k])) : Placed L p is := by
  intro k i here
  obtain ⟨low, same⟩ := List.getElem?_eq_some_iff.mp here
  rw [← same]
  exact all ⟨k, low⟩

theorem Placed.drop {p : Nat} {is : List Instr} (placed : Placed L p is) (n : Nat) :
    Placed L (p + n) (is.drop n) := by
  intro k i here
  rw [Nat.add_assoc]
  exact placed (n + k) i (by rw [← here, List.getElem?_drop])

/-- A part of the instructions stands in its place. -/
theorem Placed.part {p : Nat} {is js : List Instr} (placed : Placed L p is) (n : Nat)
    (part : (is.drop n).take js.length = js) : Placed L (p + n) js := by
  intro k i here
  rw [← part, List.getElem?_take] at here
  split at here
  · exact placed.drop n k i here
  · cases here

/-- The two additions of one round. -/
theorem again_adds (placed : Placed L q again) (low : q + 4 < 2 ^ 24) (small : x * y < 2 ^ 31)
    (bound : y < 2 ^ 31) (ready : Ready L v) (PC : v.PC = q) (left : v.REGS a0 = x)
    (more : v.REGS t0 < y) (sum : v.REGS v0 = v.REGS t0 * x) :
    ∃ w, Goes L v w ∧ w.PC = q + 2 ∧ w.REGS t0 = v.REGS t0 + 1 ∧ w.REGS v0 = (v.REGS t0 + 1) * x ∧
      Apart [v0, t0] v w := by
  have most : (v.REGS t0 + 1) * x ≤ x * y := by
    rw [Nat.mul_comm]
    exact Nat.mul_le_mul_left x more
  have added : wrap (v.REGS v0 + v.REGS a0) = (v.REGS t0 + 1) * x := by
    have total : v.REGS v0 + v.REGS a0 = (v.REGS t0 + 1) * x := by rw [sum, left, Nat.succ_mul]
    rw [wrap_add (by omega), total]
  have counted : wrap (v.REGS t0 + 1) = v.REGS t0 + 1 := wrap_of_lt (n := v.REGS t0 + 1) (by omega)
  have once := ready.here.step (ready.add (placed.here (k := 0) rfl PC) (by decide) added
    (by decide) (by decide) (by omega))
  have twice := once.step (once.ready.addi (y := v.REGS t0 + 1)
    (placed.here (k := 1) rfl (by simp [PC])) (by decide) (by simpa +decide using counted)
    (by decide) (by decide) (by simp; omega))
  exact ⟨_, twice, by simp [PC], by simp, by simp +decide,
    ((Apart.refl _ v).set (by decide) _).set (by decide) _⟩

/-- The loop from its first instruction on, by induction on the rounds that are left. -/
theorem again_loops (placed : Placed L q again) (low : q + 4 < 2 ^ 24) (small : x * y < 2 ^ 31)
    (bound : y < 2 ^ 31) (left : Nat) : ∀ {v : View}, Ready L v → v.PC = q → v.REGS a0 = x →
      v.REGS a1 = y → v.REGS t0 + (left + 1) = y → v.REGS v0 = v.REGS t0 * x →
      ∃ w, Goes L v w ∧ w.PC = q + 3 ∧ w.REGS v0 = x * y ∧ Apart [v0, t0] v w := by
  induction left with
  | zero =>
    intro v ready PC x_eq y_eq count sum
    obtain ⟨w, goes, PC', counted, product, apart⟩ :=
      again_adds placed low small bound ready PC x_eq (by omega) sum
    have limit : w.REGS a1 = y := by rw [apart.REGS a1 (by decide), y_eq]
    have ends : ¬signed (w.REGS t0) < signed (w.REGS a1) := by
      rw [limit, counted, count]
      exact lt_irrefl _
    have exit := goes.step (goes.ready.not_less (placed.here (k := 2) rfl PC') (by decide) ends
      (by omega))
    refine ⟨_, exit, by simp [PC'], ?_, apart.goto _⟩
    rw [goto_REGS, product, count, Nat.mul_comm]
  | succ left ih =>
    intro v ready PC x_eq y_eq count sum
    obtain ⟨w, goes, PC', counted, product, apart⟩ :=
      again_adds placed low small bound ready PC x_eq (by omega) sum
    have factor : w.REGS a0 = x := by rw [apart.REGS a0 (by decide), x_eq]
    have limit : w.REGS a1 = y := by rw [apart.REGS a1 (by decide), y_eq]
    have less : signed (w.REGS t0) < signed (w.REGS a1) := by
      rw [limit, counted, signed_of_lt bound, signed_of_lt (by omega)]
      omega
    have target : wrap (w.PC + 1 + -3) = q := by
      unfold wrap
      omega
    have jump := goes.step (goes.ready.less (placed.here (k := 2) rfl PC') (by decide) less target)
    obtain ⟨x', rest, last, total, apart'⟩ := ih jump.ready rfl factor limit (by simp; omega)
      (by rw [goto_REGS, product, counted])
    exact ⟨x', jump.trans rest, last, total, (apart.goto q).trans apart'⟩

end

/-- A routine at `q` returns the product of its two arguments, which is small. -/
def Multiplies (L : Layout) (q : Nat) : Prop :=
  ∀ {v : View} {x y : Nat}, Ready L v → v.PC = q → v.REGS a0 = x → v.REGS a1 = y → 0 < y →
    y < 2 ^ 31 →
    x * y < 2 ^ 31 → ∃ w, Goes L v w ∧ w.PC = v.REGS ra ∧ w.REGS v0 = x * y ∧ Apart [v0, t0] v w

/-- From the loop on the routine returns the product. -/
theorem again_returns {L : Layout} {q : Nat} {u v : View} {x y : Nat} (placed : Placed L q again)
    (low : q + 4 < 2 ^ 24) (goes : Goes L u v) (PC : v.PC = q) (apart : Apart [v0, t0] u v)
    (x_eq : u.REGS a0 = x) (y_eq : u.REGS a1 = y) (product : v.REGS v0 = 0) (count : v.REGS t0 = 0)
    (positive : 0 < y) (bound : y < 2 ^ 31) (small : x * y < 2 ^ 31) :
    ∃ w, Goes L u w ∧ w.PC = u.REGS ra ∧ w.REGS v0 = x * y ∧ Apart [v0, t0] u w := by
  obtain ⟨w, loop, PC', total, apart'⟩ := again_loops placed low small bound (y - 1) goes.ready PC
    (by rw [apart.REGS a0 (by decide), x_eq]) (by rw [apart.REGS a1 (by decide), y_eq]) (by omega)
    (by rw [product, count, Nat.zero_mul])
  have whole := apart.trans apart'
  have back : w.REGS ra = u.REGS ra := whole.REGS ra (by decide)
  have done := (goes.trans loop).step (loop.ready.leave (placed.here (k := 3) rfl PC') (by decide))
  exact ⟨_, done, back, total, whole.goto _⟩

theorem multiplies {L : Layout} {q : Nat} (placed : Placed L q multiply) (low : q + 6 < 2 ^ 24) :
    Multiplies L q := by
  intro v x y ready PC x_eq y_eq positive bound small
  have first := ready.here.step (ready.add (y := 0) (placed.here (k := 0) rfl PC) (by decide)
    (by simp [ready.zero]; rfl) (by decide) (by decide) (by omega))
  have second := first.step (first.ready.addi (y := 0) (placed.here (k := 1) rfl (by simp [PC]))
    (by decide) (by simp +decide [ready.zero]) (by decide) (by decide) (by simp; omega))
  have loop : Placed L (q + 2) again := placed.drop 2
  have apart : Apart [v0, t0] v _ := ((Apart.refl _ v).set (r := v0) (by decide) 0).set (r := t0)
    (by decide) 0
  exact again_returns loop (by omega) second (by simp [PC]) apart x_eq y_eq (by simp +decide)
    (by simp)
    positive bound small

/-! ## Powers -/

/-- The routine `POW`, from its label on, with `MULT` behind it. -/
def power : List Instr :=
  [.addi sp sp (-1), .sw fp sp 0, .addi fp sp 0, .blt zero a1 1, .beq zero zero 15,
   .blt zero a0 1, .beq zero zero 16,
   .addi a1 a1 (-1), .lea at' (-9), .addi sp sp (-2), .sw ra fp (-1), .sw a0 fp (-2), .jalr at' ra,
   .add a1 v0 zero, .lw a0 fp (-2), .lea at' 11, .jalr at' ra, .lw ra fp (-1), .addi sp sp 2,
   .beq zero zero 4, .add v0 zero zero, .addi v0 v0 1, .beq zero zero 1,
   .add v0 zero zero,
   .lw fp fp 0, .addi sp sp 1, .jalr ra zero]

/-- The stack lies above the image, away from the cells of the handlers. -/
structure Stacked (L : Layout) : Prop where
  floor : L.size ≤ L.floor
  top : L.top ≤ 2 ^ 24
  free : ∀ a, L.floor ≤ a → a < L.top → L.shared a = false

/-- In the body of `POW`, called from `v`: the old frame pointer is on the stack. -/
structure Framed (L : Layout) (v w : View) : Prop where
  stack : w.REGS sp = v.REGS sp - 1
  frame : w.REGS fp = v.REGS sp - 1
  saved : w.MEM (v.REGS sp - 1) = some (v.REGS fp)
  MEM : ∀ a, a < L.size ∨ v.REGS sp ≤ a → w.MEM a = v.MEM a
  IE : w.IE = v.IE
  REGS : ∀ r, r ∉ [at', v0, a1, t0, sp, fp] → w.REGS r = v.REGS r

/-- In the body of `POW`, when it has also saved the address to return to and its base. -/
structure Calling (L : Layout) (v w : View) : Prop where
  stack : w.REGS sp = v.REGS sp - 3
  frame : w.REGS fp = v.REGS sp - 1
  saved : w.MEM (v.REGS sp - 1) = some (v.REGS fp)
  link : w.MEM (v.REGS sp - 2) = some (v.REGS ra)
  argument : w.MEM (v.REGS sp - 3) = some (v.REGS a0)
  MEM : ∀ a, a < L.size ∨ v.REGS sp ≤ a → w.MEM a = v.MEM a
  IE : w.IE = v.IE
  REGS : ∀ r, r ∉ [at', v0, a0, a1, t0, sp, fp, ra] → w.REGS r = v.REGS r

section

variable {L : Layout} {v w : View} {p b e : Nat}

/-- A routine that returns leaves the frame as it is. -/
theorem Calling.apart {x : View} (calling : Calling L v w) {changed : List (Fin 16)}
    (apart : Apart changed w x) (few : ∀ r, r ∈ changed → r ∈ [at', v0, a1, t0]) :
    Calling L v x := by
  have other : ∀ r, r ∉ [at', v0, a1, t0] → x.REGS r = w.REGS r := by
    intro r kept
    exact apart.REGS r (fun member => kept (few r member))
  constructor
  · rw [other sp (by decide), calling.stack]
  · rw [other fp (by decide), calling.frame]
  · rw [apart.MEM, calling.saved]
  · rw [apart.MEM, calling.link]
  · rw [apart.MEM, calling.argument]
  · rw [apart.MEM]
    exact calling.MEM
  · rw [apart.IE, calling.IE]
  · intro r kept
    rw [other r (by
        simp only [List.mem_cons, List.not_mem_nil, or_false, not_or] at kept ⊢; simp [kept]),
      calling.REGS r kept]

theorem power_enter (stacked : Stacked L) (placed : Placed L p power) (low : p + 27 < 2 ^ 24)
    (ready : Ready L v) (PC : v.PC = p) (deep : L.floor + 1 ≤ v.REGS sp) :
    ∃ w, Goes L v w ∧ w.PC = p + 3 ∧ w.REGS a1 = v.REGS a1 ∧ Framed L v w := by
  have top := stacked.top
  have least := stacked.floor
  have most := ready.room.2
  have pushed := ready.here.step (ready.push (k := 1) rfl (placed.here (k := 0) rfl PC) (by omega)
    deep (by omega))
  have stored := pushed.step (pushed.ready.store (a := v.REGS sp - 1)
    (placed.here (k := 1) rfl (by simp [PC])) (by decide)
    (by simp; exact wrap_of_lt (n := v.REGS sp - 1) (by omega))
    (stacked.free _ (by omega) (by omega)) (Or.inr (Or.inl ⟨by omega, by simp⟩)) (Or.inr (by simp))
    (by simp; omega))
  have framed := stored.step (stored.ready.addi (y := v.REGS sp - 1)
    (placed.here (k := 2) rfl (by simp [PC])) (by decide)
    (by simp; exact wrap_of_lt (n := v.REGS sp - 1) (by omega)) (by decide) (by decide)
    (by simp; omega))
  refine ⟨_, framed, by simp [PC], by simp +decide,
    ⟨by simp +decide, by simp, by simp +decide, ?_, rfl, ?_⟩⟩
  · intro a outside
    simp only [set_MEM, store_MEM]
    exact Function.update_of_ne (by omega) ..
  · intro r other
    simp only [List.mem_cons, List.not_mem_nil, or_false, not_or] at other
    simp [other]

theorem power_leave (stacked : Stacked L) (placed : Placed L p power) (low : p + 27 < 2 ^ 24)
    (first : Ready L v) (deep : L.floor + 1 ≤ v.REGS sp) (framed : Framed L v w) (ready : Ready L w)
    (PC : w.PC = p + 24) :
    ∃ x, Goes L w x ∧ x.PC = v.REGS ra ∧ x.REGS v0 = w.REGS v0 ∧ Apart [at', v0, a1, t0] v x := by
  have top := stacked.top
  have least := stacked.floor
  have most := first.room.2
  have frame := framed.frame
  have stack := framed.stack
  have loaded := ready.here.step (ready.load (y := v.REGS fp) (a := v.REGS sp - 1)
    (placed.here (k := 24) rfl PC) (by decide)
    (by rw [frame]; simp; exact wrap_of_lt (n := v.REGS sp - 1) (by omega)) (by omega) framed.saved
    (by decide) (by decide) (by omega))
  have popped := loaded.step (loaded.ready.pop (k := 1) rfl
    (placed.here (k := 25) rfl (by simp [PC])) (by omega) (by simp +decide; omega) (by simp; omega))
  have done := popped.step (popped.ready.leave (placed.here (k := 26) rfl (by simp [PC]))
    (by decide))
  have link := framed.REGS ra (by decide)
  refine ⟨_, done, by simp +decide [link], by simp +decide, ⟨?_, framed.IE, ?_⟩⟩
  · funext a
    have sum : v.REGS sp - 1 + 1 = v.REGS sp := by omega
    simp +decide only [goto_MEM, pop_MEM, set_MEM, set_other, ne_eq, stack, sum]
    unfold forget
    split
    · next under => exact (first.below a under.1 under.2).symm
    · next outside => exact framed.MEM a (by omega)
  · intro r other
    simp only [List.mem_cons, List.not_mem_nil, or_false, not_or] at other
    by_cases own : r = sp
    · subst own
      simp +decide [stack]
      omega
    · by_cases old : r = fp
      · subst old
        simp +decide
      · simp [own, old]
        apply framed.REGS
        simp [other, own, old]

/-- The body prepares to call itself with the exponent that is one less. -/
theorem power_call (stacked : Stacked L) (placed : Placed L p power) (low : p + 27 < 2 ^ 24)
    (first : Ready L v) (deep : L.floor + 3 ≤ v.REGS sp) (framed : Framed L v w) (ready : Ready L w)
    (PC : w.PC = p + 7) (exponent : w.REGS a1 = e + 1) (small : e < 2 ^ 31) :
    ∃ x, Goes L w x ∧ x.PC = p ∧ x.REGS ra = p + 13 ∧ x.REGS a0 = v.REGS a0 ∧ x.REGS a1 = e ∧
      Calling L v x := by
  have top := stacked.top
  have least := stacked.floor
  have most := first.room.2
  have stack := framed.stack
  have frame := framed.frame
  have link := framed.REGS ra (by decide)
  have base := framed.REGS a0 (by decide)
  have counted := ready.here.step (ready.addi (y := e) (placed.here (k := 7) rfl PC) (by decide)
    (by rw [exponent]; unfold wrap; omega) (by decide) (by decide) (by omega))
  have aimed := counted.step (counted.ready.lea (y := p) (placed.here (k := 8) rfl (by simp [PC]))
    (by decide) (by simp [PC]; unfold wrap; omega) (by decide) (by decide) (by simp; omega))
  have pushed := aimed.step (aimed.ready.push (k := 2) rfl (placed.here (k := 9) rfl (by simp [PC]))
    (by omega) (by simp +decide [stack]; omega) (by simp; omega))
  have linked := pushed.step (pushed.ready.store (a := v.REGS sp - 2)
    (placed.here (k := 10) rfl (by simp [PC])) (by decide)
    (by simp +decide [frame]; unfold wrap; omega) (stacked.free _ (by omega) (by omega))
    (Or.inr (Or.inl ⟨by omega, by simp +decide [stack]; omega⟩))
    (Or.inr (by simp +decide [stack]; omega)) (by simp; omega))
  have stored := linked.step (linked.ready.store (a := v.REGS sp - 3)
    (placed.here (k := 11) rfl (by simp [PC])) (by decide)
    (by simp +decide [frame]; unfold wrap; omega) (stacked.free _ (by omega) (by omega))
    (Or.inr (Or.inl ⟨by omega, by simp +decide [stack]; omega⟩))
    (Or.inr (by simp +decide [stack]; omega)) (by simp; omega))
  have called := stored.step (stored.ready.call (placed.here (k := 12) rfl (by simp [PC]))
    (by decide) (by decide) (by decide) (by decide) (by simp; omega))
  refine ⟨_, called, by simp +decide, by simp [PC], by simp +decide [base], by simp +decide, ?_⟩
  constructor
  · simp +decide [stack]
    omega
  · simp +decide [frame]
  · simp only [goto_MEM, set_MEM, store_MEM]
    rw [Function.update_of_ne (by omega), Function.update_of_ne (by omega), framed.saved]
  · simp +decide only [goto_MEM, set_MEM, store_MEM, set_other, ne_eq, link]
    rw [Function.update_of_ne (by omega), Function.update_self]
  · simp +decide [base]
  · intro a outside
    simp only [goto_MEM, set_MEM, store_MEM]
    rw [Function.update_of_ne (by omega), Function.update_of_ne (by omega), framed.MEM a outside]
  · exact framed.IE
  · intro r other
    simp only [List.mem_cons, List.not_mem_nil, or_false, not_or] at other
    have kept := framed.REGS r (by simp [other])
    simp [other, kept]

/-- The body prepares to multiply what its own call returned. -/
theorem power_multiply (stacked : Stacked L) (placed : Placed L p power) (low : p + 27 < 2 ^ 24)
    (first : Ready L v) (deep : L.floor + 3 ≤ v.REGS sp) (calling : Calling L v w)
    (ready : Ready L w) (PC : w.PC = p + 13) (small : w.REGS v0 < 2 ^ 31) :
    ∃ x, Goes L w x ∧ x.PC = p + 27 ∧ x.REGS ra = p + 17 ∧ x.REGS a0 = v.REGS a0 ∧
      x.REGS a1 = w.REGS v0 ∧ Calling L v x := by
  have top := stacked.top
  have least := stacked.floor
  have most := first.room.2
  have frame := calling.frame
  have sum : wrap (w.REGS v0 + w.REGS Register.zero) = w.REGS v0 := by
    have zero : w.REGS Register.zero = 0 := ready.zero
    rw [zero]
    exact wrap_of_lt (n := w.REGS v0) (by omega)
  have moved := ready.here.step (ready.add (placed.here (k := 13) rfl PC) (by decide) sum
    (by decide) (by decide) (by omega))
  have loaded := moved.step (moved.ready.load (a := v.REGS sp - 3)
    (placed.here (k := 14) rfl (by simp [PC])) (by decide)
    (by simp +decide [frame]; unfold wrap; omega) (by omega) calling.argument (by decide)
    (by decide) (by simp; omega))
  have aimed := loaded.step (loaded.ready.lea (y := p + 27)
    (placed.here (k := 15) rfl (by simp [PC])) (by decide) (by simp [PC]; unfold wrap; omega)
    (by decide) (by decide) (by simp; omega))
  have called := aimed.step (aimed.ready.call (placed.here (k := 16) rfl (by simp [PC])) (by decide)
    (by decide) (by decide) (by decide) (by simp; omega))
  refine ⟨_, called, by simp +decide, by simp [PC], by simp +decide, by simp +decide, ?_⟩
  refine ⟨?_, ?_, calling.saved, calling.link, calling.argument, calling.MEM, calling.IE, ?_⟩
  · simp +decide [calling.stack]
  · simp +decide [frame]
  · intro r other
    simp only [List.mem_cons, List.not_mem_nil, or_false, not_or] at other
    have kept := calling.REGS r (by simp [other])
    simp [other, kept]

/-- The body drops what it saved, but for the frame pointer. -/
theorem power_drop (stacked : Stacked L) (placed : Placed L p power) (low : p + 27 < 2 ^ 24)
    (first : Ready L v) (deep : L.floor + 3 ≤ v.REGS sp) (calling : Calling L v w)
    (ready : Ready L w) (PC : w.PC = p + 17) (base : w.REGS a0 = v.REGS a0) :
    ∃ x, Goes L w x ∧ x.PC = p + 24 ∧ x.REGS v0 = w.REGS v0 ∧ Framed L v x := by
  have top := stacked.top
  have least := stacked.floor
  have most := first.room.2
  have frame := calling.frame
  have stack := calling.stack
  have loaded := ready.here.step (ready.load (a := v.REGS sp - 2) (placed.here (k := 17) rfl PC)
    (by decide) (by rw [frame]; unfold wrap; omega) (by omega) calling.link (by decide) (by decide)
    (by omega))
  have popped := loaded.step (loaded.ready.pop (k := 2) rfl
    (placed.here (k := 18) rfl (by simp [PC])) (by omega) (by simp +decide [stack]; omega)
    (by simp; omega))
  have jumped := popped.step (popped.ready.equal (n := p + 24)
    (placed.here (k := 19) rfl (by simp [PC])) (by decide) rfl (by simp [PC]; unfold wrap; omega))
  have sum : v.REGS sp - 3 + 2 = v.REGS sp - 1 := by omega
  have kept : ∀ a, ¬(L.size ≤ a ∧ a < v.REGS sp - 1) →
      forget L (v.REGS sp - 1) w.MEM a = w.MEM a := by
    intro a outside
    exact if_neg outside
  refine ⟨_, jumped, rfl, by simp +decide, ⟨?_, ?_, ?_, ?_, calling.IE, ?_⟩⟩
  · simp +decide [stack, sum]
  · simp +decide [frame]
  · simp +decide only [goto_MEM, pop_MEM, set_MEM, set_other, ne_eq, stack, sum]
    rw [kept _ (by omega), calling.saved]
  · intro a outside
    simp +decide only [goto_MEM, pop_MEM, set_MEM, set_other, ne_eq, stack, sum]
    rw [kept _ (by omega), calling.MEM a outside]
  · intro r other
    simp only [List.mem_cons, List.not_mem_nil, or_false, not_or] at other
    by_cases link : r = ra
    · subst link
      simp +decide
    · by_cases argument : r = a0
      · subst argument
        simp +decide [base]
      · have same := calling.REGS r (by simp [other, link, argument])
        simp [other, link, same]

/-- A power with the exponent 0 is 1. -/
theorem power_one (placed : Placed L p power) (low : p + 27 < 2 ^ 24) (framed : Framed L v w)
    (ready : Ready L w) (PC : w.PC = p + 3) (none : w.REGS a1 = 0) :
    ∃ x, Goes L w x ∧ x.PC = p + 24 ∧ x.REGS v0 = 1 ∧ Framed L v x := by
  have zero : w.REGS Register.zero = 0 := ready.zero
  have first := ready.here.step (ready.not_less (placed.here (k := 3) rfl PC) (by decide)
    (by rw [none, zero]; exact lt_irrefl _) (by omega))
  have second := first.step (first.ready.equal (n := p + 20)
    (placed.here (k := 4) rfl (by simp [PC])) (by decide) rfl (by simp [PC]; unfold wrap; omega))
  have third := second.step (second.ready.add (y := 0) (placed.here (k := 20) rfl rfl) (by decide)
    (by simp [zero]; rfl) (by decide) (by decide) (by simp; omega))
  have fourth := third.step (third.ready.addi (y := 1) (placed.here (k := 21) rfl rfl) (by decide)
    (by simp; rfl) (by decide) (by decide) (by simp; omega))
  have fifth := fourth.step (fourth.ready.equal (n := p + 24) (placed.here (k := 22) rfl rfl)
    (by decide) rfl (by simp; unfold wrap; omega))
  refine ⟨_, fifth, rfl, by simp, ⟨?_, ?_, framed.saved, framed.MEM, framed.IE, ?_⟩⟩
  · simp +decide [framed.stack]
  · simp +decide [framed.frame]
  · intro r other
    have kept := framed.REGS r other
    simp only [List.mem_cons, List.not_mem_nil, or_false, not_or] at other
    simp [other, kept]

/-- With another exponent the body looks at the base. -/
theorem power_more (placed : Placed L p power) (low : p + 27 < 2 ^ 24) (ready : Ready L w)
    (PC : w.PC = p + 3) (more : 0 < w.REGS a1) (small : w.REGS a1 < 2 ^ 31) :
    Goes L w (w.goto (p + 5)) := by
  have zero : w.REGS Register.zero = 0 := ready.zero
  have positive : signed (w.REGS Register.zero) < signed (w.REGS a1) := by
    rw [zero, signed_of_lt small, signed_of_lt (by decide)]
    omega
  exact ready.here.step (ready.less (n := p + 5) (placed.here (k := 3) rfl PC) (by decide) positive
    (by simp [PC]; unfold wrap; omega))

/-- A power of 0 is 0. -/
theorem power_zero (placed : Placed L p power) (low : p + 27 < 2 ^ 24) (framed : Framed L v w)
    (ready : Ready L w) (PC : w.PC = p + 5) (none : w.REGS a0 = 0) :
    ∃ x, Goes L w x ∧ x.PC = p + 24 ∧ x.REGS v0 = 0 ∧ Framed L v x := by
  have zero : w.REGS Register.zero = 0 := ready.zero
  have first := ready.here.step (ready.not_less (placed.here (k := 5) rfl PC) (by decide)
    (by rw [none, zero]; exact lt_irrefl _) (by omega))
  have second := first.step (first.ready.equal (n := p + 23)
    (placed.here (k := 6) rfl (by simp [PC])) (by decide) rfl (by simp [PC]; unfold wrap; omega))
  have third := second.step (second.ready.add (y := 0) (placed.here (k := 23) rfl rfl) (by decide)
    (by simp [zero]; rfl) (by decide) (by decide) (by simp; omega))
  refine ⟨_, third, rfl, by simp, ⟨?_, ?_, framed.saved, framed.MEM, framed.IE, ?_⟩⟩
  · simp +decide [framed.stack]
  · simp +decide [framed.frame]
  · intro r other
    have kept := framed.REGS r other
    simp only [List.mem_cons, List.not_mem_nil, or_false, not_or] at other
    simp [other, kept]

theorem power_work (placed : Placed L p power) (low : p + 27 < 2 ^ 24) (ready : Ready L w)
    (PC : w.PC = p + 5) (positive : 0 < w.REGS a0) (small : w.REGS a0 < 2 ^ 31) :
    Goes L w (w.goto (p + 7)) := by
  have zero : w.REGS Register.zero = 0 := ready.zero
  have taken : signed (w.REGS Register.zero) < signed (w.REGS a0) := by
    rw [zero, signed_of_lt small, signed_of_lt (by decide)]
    omega
  exact ready.here.step (ready.less (n := p + 7) (placed.here (k := 5) rfl PC) (by decide) taken
    (by simp [PC]; unfold wrap; omega))

theorem Framed.goto (framed : Framed L v w) (pc : Nat) : Framed L v (w.goto pc) :=
  ⟨framed.stack, framed.frame, framed.saved, framed.MEM, framed.IE, framed.REGS⟩

/-- `POW` returns the power of its arguments, by induction on the exponent. Each call needs three
words of the stack, the last one only one. -/
theorem power_returns (stacked : Stacked L) (placed : Placed L p power) (low : p + 27 < 2 ^ 24)
    (multiplies : Multiplies L (p + 27)) (base : b < 2 ^ 31) (e : Nat) :
    ∀ {v : View}, Ready L v → v.PC = p →
      v.REGS a0 = b → v.REGS a1 = e → b ^ e < 2 ^ 31 → L.floor + (3 * e + 1) ≤ v.REGS sp →
      ∃ w, Goes L v w ∧ w.PC = v.REGS ra ∧ w.REGS v0 = b ^ e ∧ Apart [at', v0, a1, t0] v w := by
  induction e with
  | zero =>
    intro v ready PC b_eq e_eq _ deep
    obtain ⟨w, enter, PC', exponent, framed⟩ := power_enter stacked placed low ready PC (by omega)
    obtain ⟨x, body, PC'', one, framed'⟩ :=
      power_one placed low framed enter.ready PC' (by rw [exponent, e_eq])
    obtain ⟨y, leave, back, value, apart⟩ :=
      power_leave stacked placed low ready (by omega) framed' body.ready PC''
    exact ⟨y, (enter.trans body).trans leave, back, by rw [value, one, Nat.pow_zero], apart⟩
  | succ e ih =>
    intro v ready PC b_eq e_eq small deep
    have top := stacked.top
    have most := ready.room.2
    obtain ⟨w, enter, PC', exponent, framed⟩ := power_enter stacked placed low ready PC (by omega)
    rw [e_eq] at exponent
    have more := power_more placed low enter.ready PC' (by omega) (by omega)
    have base' : w.REGS a0 = b := by rw [framed.REGS a0 (by decide), b_eq]
    by_cases none : b = 0
    · obtain ⟨x, body, PC'', zero, framed'⟩ :=
        power_zero placed low (framed.goto (p + 5)) more.ready rfl (by rw [goto_REGS, base', none])
      obtain ⟨y, leave, back, value, apart⟩ :=
        power_leave stacked placed low ready (by omega) framed' body.ready PC''
      refine ⟨y, ((enter.trans more).trans body).trans leave, back, ?_, apart⟩
      rw [value, zero, none, Nat.zero_pow e.succ_pos]
    · have positive : 0 < b := by omega
      have work := power_work placed low more.ready rfl (by rw [goto_REGS, base']; exact positive)
        (by rw [goto_REGS, base']; exact base)
      have product : b * b ^ e = b ^ (e + 1) := by rw [Nat.pow_succ, Nat.mul_comm]
      have less : b ^ e < 2 ^ 31 := by
        have grows : b ^ e ≤ b ^ (e + 1) := Nat.pow_le_pow_right positive e.le_succ
        omega
      obtain ⟨x, call, PCx, linkx, basex, exponentx, calling⟩ :=
        power_call stacked placed low ready (by omega)
        ((framed.goto (p + 5)).goto (p + 7)) work.ready rfl exponent (by omega)
      -- the call returns behind itself, by the induction
      obtain ⟨y, inner, backy, valuey, aparty⟩ :=
        ih call.ready PCx (by rw [basex, b_eq]) exponentx less
        (by rw [calling.stack]; omega)
      have calling' := calling.apart aparty (fun _ member => member)
      have value : y.REGS v0 = b ^ e := valuey
      obtain ⟨z, multiply, PCz, linkz, basez, exponentz, callingz⟩ :=
        power_multiply stacked placed low ready (by omega) calling' inner.ready
          (by rw [backy, linkx])
          (by rw [value]; exact less)
      obtain ⟨t, times, backt, valuet, apartt⟩ :=
        multiplies multiply.ready PCz (by rw [basez, b_eq])
        (by rw [exponentz, value]) (Nat.pow_pos positive) less (by rw [product]; exact small)
      have callingt := callingz.apart apartt (by decide)
      obtain ⟨u, drop, PCu, valueu, framedu⟩ :=
        power_drop stacked placed low ready (by omega) callingt times.ready
        (by rw [backt, linkz]) (by rw [apartt.REGS a0 (by decide), basez])
      obtain ⟨s, leave, back, values, apart⟩ :=
        power_leave stacked placed low ready (by omega) framedu drop.ready PCu
      have before := ((enter.trans more).trans work).trans call
      have after := ((inner.trans multiply).trans times).trans (drop.trans leave)
      exact ⟨s, before.trans after, back, by rw [values, valueu, valuet, product], apart⟩

end

end View

end SystemsProjects.Irq
