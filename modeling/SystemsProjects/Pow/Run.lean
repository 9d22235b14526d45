import SystemsProjects.Pow.Views

/-!
# A run of `pow.s`

From address 0 the program comes to the `halt` behind the store to `ANS`, with its stack as it was.
-/

namespace SystemsProjects.Pow

open Lc Irq Digits Register View

theorem placed_main : Placed layout 0 main := placed_of_all (by decide +kernel)

theorem placed_routines : Placed layout 48 routines := placed_of_all (by decide +kernel)

theorem stacked : Stacked layout where
  floor := Nat.le_refl 83
  top := by decide
  free _ _ _ := rfl

/-- What the program knows when it has a stack. -/
def loaded (base exp : Nat) : View where
  PC := 2
  REGS := Function.update (fun _ => 0) sp 0xA000
  MEM a := if a < 83 then some ((loadProgram (image base exp)).MEM a) else none
  IE := true

section

variable {base exp : Nat}

theorem loaded_sound : (loaded base exp).Sound layout where
  below a low _ := if_neg (by
    replace low : 83 ≤ a := low
    omega)
  cells _ shared := by cases shared
  vectors _ device := by
    match device with
    | 0 => rfl
    | 1 => rfl
  room := by
    show Room layout 0xA000
    decide

theorem image_word (base exp a : Nat) {w : List Bool} (here : (image base exp)[a]? = some w) :
    (loadProgram (image base exp)).MEM a = uint w := by
  unfold loadProgram
  dsimp only
  rw [here]
  rfl

/-- The first two instructions make the stack. -/
theorem starts (base exp : Nat) : ∃ s, Follows layout (loadProgram (image base exp)).MEM
    (loaded base exp) s ∧
    ∀ k, (loadProgram (image base exp)).run (k + 2) = s.run k := by
  have word₀ := image_word base exp 0 rfl
  have word₁ := image_word base exp 1 rfl
  have word₈₂ := image_word base exp 82 rfl
  have REGS₀ : (loadProgram (image base exp)).REGS = fun _ => 0 := rfl
  have PC₀ : (loadProgram (image base exp)).PC = 0 := rfl
  have running₀ : (loadProgram (image base exp)).HALTED = false := rfl
  have known₀ : ∀ a x, (loaded base exp).MEM a = some x →
      (loadProgram (image base exp)).MEM a = x := by
    intro a x known
    unfold loaded at known
    dsimp only at known
    split at known
    · exact Option.some.inj known
    · cases known
  have zero : ∀ x, Function.update (Function.update (fun _ => 0) sp x) 0 0 =
      Function.update (fun _ => 0) sp x := by
    intro x
    have other : (0 : Fin 16) ≠ sp := by decide
    have kept := Function.update_of_ne other x fun _ => 0
    exact Function.update_eq_self_iff.mpr kept.symm
  generalize loadProgram (image base exp) = s₀ at *
  -- `lea $sp, initsp`
  have first := fetches (s := s₀) (i := .lea sp 81) (by omega) (by rw [PC₀]; exact word₀)
    (by decide)
  have MEM₁ : ((Instr.lea sp 81).effect s₀).MEM = s₀.MEM := rfl
  have PC₁ : ((Instr.lea sp 81).effect s₀).PC = 1 := by
    show wrap (s₀.PC + 1) = 1
    rw [PC₀]
    rfl
  have REGS₁ : ((Instr.lea sp 81).effect s₀).REGS = Function.update (fun _ => 0) sp 82 := by
    show Function.update (Function.update s₀.REGS sp (wrap (s₀.PC + 1 + 81))) 0 0 = _
    rw [REGS₀, PC₀]
    exact zero 82
  have running₁ : ((Instr.lea sp 81).effect s₀).HALTED = false := running₀
  generalize (Instr.lea sp 81).effect s₀ = s₁ at *
  -- `lw $sp, 0($sp)`
  have second := fetches (s := s₁) (i := .lw sp sp 0) (by omega) (by rw [PC₁, MEM₁]; exact word₁)
    (by decide)
  have MEM₂ : ((Instr.lw sp sp 0).effect s₁).MEM = s₀.MEM := MEM₁
  have PC₂ : ((Instr.lw sp sp 0).effect s₁).PC = 2 := by
    show wrap (s₁.PC + 1) = 2
    rw [PC₁]
    rfl
  have REGS₂ : ((Instr.lw sp sp 0).effect s₁).REGS = Function.update (fun _ => 0) sp 0xA000 := by
    have top : s₁.accessMem (wrap (s₁.REGS sp + 0)) = 0xA000 := by
      rw [REGS₁, Function.update_self]
      show s₁.MEM 82 = _
      rw [MEM₁, word₈₂]
      decide
    show Function.update (Function.update s₁.REGS sp (s₁.accessMem (wrap (s₁.REGS sp + 0)))) 0 0 = _
    rw [top, REGS₁, Function.update_idem]
    exact zero 0xA000
  have running₂ : ((Instr.lw sp sp 0).effect s₁).HALTED = false := running₁
  generalize (Instr.lw sp sp 0).effect s₁ = s₂ at *
  refine ⟨s₂, ⟨⟨PC₂, fun r _ => congrFun REGS₂ r, ?_, rfl⟩, loaded_sound, running₂, ?_⟩, fun k =>
    ?_⟩
  · intro a x known
    rw [MEM₂]
    exact known₀ a x known
  · intro a _ _
    rw [MEM₂]
  · rw [run_step running₀ first, run_step running₁ second]

end

/-! ## The tests -/

section

variable {v : View} {q x : Nat}

/-- An instruction of a test puts what it computes of `$t0` and `$t1` into `$t2`. -/
structure Tests (i : Instr) (f : Int → Int → Int) : Prop where
  free : k0 ∉ Irq.registers i
  silent : ∀ v : View, v.perform layout i = v.commit layout (i.effect v.machine) v.MEM
  acts : ∀ v : View, i.act v.machine =
    (v.machine.setPC (wrap (v.PC + 1))).setReg t2
    (wrap (f (signed (v.REGS t0)) (signed (v.REGS t1))))

theorem tests_min : Tests (.min t2 t0 t1) Min.min := ⟨by decide, fun _ => rfl, fun _ => rfl⟩

theorem tests_max : Tests (.max t2 t0 t1) Max.max := ⟨by decide, fun _ => rfl, fun _ => rfl⟩

theorem check_passes {i : Instr} {f : Int → Int → Int} {y : Int} {r : Fin 16} (tests : Tests i f)
    (placed : Placed layout q (check i y r)) (named : r = t0 ∨ r = t1)
    (result : wrap (f (signed x) (signed (wrap y))) = if r = t0 then x else wrap y)
    (ready : Ready layout v) (PC : v.PC = q) (low : q < 2 ^ 23) (left : v.REGS t0 = x) :
    ∃ w, Goes layout v w ∧ w.PC = q + 4 ∧ w.REGS t0 = x ∧ Apart [t0, t1, t2] v w := by
  have zero : v.REGS Register.zero = 0 := ready.zero
  have first : layout.code v.PC = some (.ordinary (.addi t1 Register.zero y)) :=
    placed.here (k := 0) rfl PC
  have g0 := ready.here.step (ready.addi (y := wrap y) first
    (by show k0 ∉ [t1, Register.zero]; decide) (by rw [zero]; simp) (by decide) (by decide)
    (by omega))
  have acts : i.act (v.set t1 (wrap y)).machine =
      ((v.set t1 (wrap y)).machine.setPC (wrap ((v.set t1 (wrap y)).PC + 1))).setReg t2
        (if r = t0 then x else wrap y) := by
    rw [tests.acts, ← result]
    simp +decide [left]
  have g1 := g0.step (g0.ready.set (placed.here (k := 1) rfl (by simp [PC])) tests.free
    (tests.silent _) acts (by decide) (by decide) (by simp; omega))
  have g2 := g1.step (g1.ready.equal (n := q + 4) (placed.here (k := 2) rfl (by simp [PC]))
    (by rcases named with rfl | rfl <;> decide)
    (by rcases named with rfl | rfl <;> simp +decide [left]) (by simp [PC]; unfold wrap; omega))
  exact ⟨_, g2, rfl, by simp +decide [left],
    (((Apart.refl _ v).set (by decide) _).set (by decide) _).goto _⟩

/-- The test of `beq`. -/
theorem equal_passes (ready : Ready layout v) (PC : v.PC = 7) :
    ∃ w, Goes layout v w ∧ w.PC = 14 ∧ Apart [t0, t1, t2] v w := by
  have placed : Placed layout 7 checks := placed_main.part 7 rfl
  have zero : v.REGS Register.zero = 0 := ready.zero
  have g0 := ready.here.step (ready.add (y := 0) (placed.here (k := 0) rfl PC) (by decide)
    (by rw [zero]; rfl) (by decide) (by decide) (by omega))
  have g1 := g0.step (g0.ready.add (y := 0) (placed.here (k := 1) rfl (by simp [PC])) (by decide)
    (by simp +decide [zero]) (by decide) (by decide) (by simp [PC]))
  have g2 := g1.step (g1.ready.add (y := 0) (placed.here (k := 2) rfl (by simp [PC])) (by decide)
    (by simp +decide [zero]) (by decide) (by decide) (by simp [PC]))
  have g3 := g2.step (g2.ready.addi (y := 1) (placed.here (k := 3) rfl (by simp [PC])) (by decide)
    (by simp +decide) (by decide) (by decide) (by simp [PC]))
  have g4 := g3.step (g3.ready.addi (y := 1) (placed.here (k := 4) rfl (by simp [PC])) (by decide)
    (by simp +decide) (by decide) (by decide) (by simp [PC]))
  have g5 := g4.step (g4.ready.equal (n := 14) (placed.here (k := 5) rfl (by simp [PC])) (by decide)
    (by simp +decide) (by simp +decide [PC]))
  have cleared := ((Apart.refl [t0, t1, t2] v).set (r := t0) (by decide) 0).set (r := t1)
    (by decide) 0
  have counted := ((cleared.set (r := t2) (by decide) 0).set (r := t0) (by decide) 1).set (r := t1)
    (by decide) 1
  exact ⟨_, g5, rfl, counted.goto 14⟩

/-- The tests of `min`. -/
theorem mins_pass (ready : Ready layout v) (PC : v.PC = 14) :
    ∃ w, Goes layout v w ∧ w.PC = 27 ∧ Apart [t0, t1, t2] v w := by
  have placed : Placed layout 7 checks := placed_main.part 7 rfl
  have zero : v.REGS Register.zero = 0 := ready.zero
  have start := ready.here.step (ready.addi (y := 10) (placed.here (k := 7) rfl PC) (by decide)
    (by rw [zero]; rfl) (by decide) (by decide) (by omega))
  obtain ⟨v₁, first, PC₁, left₁, apart₁⟩ :=
    check_passes (x := 10) tests_min (placed.part 8 rfl) (Or.inr rfl)
    (by decide) start.ready (by simp [PC]) (by decide) (by simp)
  obtain ⟨v₂, second, PC₂, left₂, apart₂⟩ :=
    check_passes (x := 10) tests_min (placed.part 12 rfl) (Or.inl rfl)
    (by decide) first.ready PC₁ (by decide) left₁
  obtain ⟨v₃, third, PC₃, _, apart₃⟩ := check_passes (x := 10) tests_min (placed.part 16 rfl)
    (Or.inl rfl)
    (by decide) second.ready PC₂ (by decide) left₂
  have apart := (Apart.refl [t0, t1, t2] v).set (r := t0) (by decide) 10
  exact ⟨v₃, ((start.trans first).trans second).trans third, PC₃,
    ((apart.trans apart₁).trans apart₂).trans apart₃⟩

/-- The tests of `max`. -/
theorem maxs_pass (ready : Ready layout v) (PC : v.PC = 27) :
    ∃ w, Goes layout v w ∧ w.PC = 40 ∧ Apart [t0, t1, t2] v w := by
  have placed : Placed layout 7 checks := placed_main.part 7 rfl
  have zero : v.REGS Register.zero = 0 := ready.zero
  have start := ready.here.step
    (ready.addi (y := 2 ^ 32 - 2) (placed.here (k := 20) rfl PC) (by decide) (by rw [zero]; rfl)
    (by decide) (by decide) (by omega))
  obtain ⟨v₁, first, PC₁, left₁, apart₁⟩ :=
    check_passes (x := 2 ^ 32 - 2) tests_max (placed.part 21 rfl) (Or.inl rfl) (by decide)
    start.ready (by simp [PC]) (by decide) (by simp)
  obtain ⟨v₂, second, PC₂, left₂, apart₂⟩ :=
    check_passes (x := 2 ^ 32 - 2) tests_max (placed.part 25 rfl)
    (Or.inl rfl) (by decide) first.ready PC₁ (by decide) left₁
  obtain ⟨v₃, third, PC₃, _, apart₃⟩ :=
    check_passes (x := 2 ^ 32 - 2) tests_max (placed.part 29 rfl)
    (Or.inr rfl) (by decide) second.ready PC₂ (by decide) left₂
  have apart := (Apart.refl [t0, t1, t2] v).set (r := t0) (by decide) (2 ^ 32 - 2)
  exact ⟨v₃, ((start.trans first).trans second).trans third, PC₃,
  ((apart.trans apart₁).trans apart₂).trans apart₃⟩

end

/-! ## The call -/

section

variable {v : View} {b e : Nat}

theorem mult_multiplies : Multiplies layout 75 := by
  intro v x y ready PC x_eq y_eq positive bound small
  have placed : Placed layout 75 mult := placed_routines.part 27 rfl
  have first := ready.here.step (ready.add (y := 0) (placed.here (k := 0) rfl PC) (by decide)
    (by simp [ready.zero]; rfl) (by decide) (by decide) (by omega))
  have second := first.step (first.ready.addi (y := 0) (placed.here (k := 1) rfl (by simp [PC]))
    (by decide) (by simp +decide [ready.zero]) (by decide) (by decide) (by simp [PC]))
  have third := second.step (second.ready.equal (n := 78) (placed.here (k := 2) rfl (by simp [PC]))
    (by decide) rfl (by simp +decide [PC]))
  have apart : Apart [v0, t0] v _ :=
    (((Apart.refl _ v).set (r := v0) (by decide) 0).set (r := t0) (by decide) 0).goto 78
  exact again_returns (placed.part 3 rfl) (by decide) third rfl apart x_eq y_eq (by simp +decide)
    (by simp)
    positive bound small

/-- `main` loads the arguments and the address of `POW`. -/
theorem main_loads (ready : Ready layout v) (PC : v.PC = 2) (base : v.MEM 45 = some b)
    (exponent : v.MEM 46 = some e) :
    ∃ w, Goes layout v w ∧ w.PC = 7 ∧ w.REGS a0 = b ∧ w.REGS a1 = e ∧ w.REGS at' = 48 ∧
      Apart [a0, a1, at'] v w := by
  have placed : Placed layout 0 main := placed_main
  have g0 := ready.here.step (ready.lea (y := 45) (placed.here (k := 2) rfl PC) (by decide)
    (by rw [PC]; rfl) (by decide) (by decide) (by omega))
  have g1 := g0.step (g0.ready.load (a := 45) (placed.here (k := 3) rfl (by simp [PC])) (by decide)
    (by simp +decide) (by decide) base (by decide) (by decide) (by simp [PC]))
  have g2 := g1.step (g1.ready.lea (y := 46) (placed.here (k := 4) rfl (by simp [PC])) (by decide)
    (by simp [PC]; rfl) (by decide) (by decide) (by simp [PC]))
  have g3 := g2.step (g2.ready.load (a := 46) (placed.here (k := 5) rfl (by simp [PC])) (by decide)
    (by simp +decide) (by decide) exponent (by decide) (by decide) (by simp [PC]))
  have g4 := g3.step (g3.ready.lea (y := 48) (placed.here (k := 6) rfl (by simp [PC])) (by decide)
    (by simp [PC]; rfl) (by decide) (by decide) (by simp [PC]))
  have first := ((Apart.refl [a0, a1, at'] v).set (r := a0) (by decide) 45).set (r := a0)
    (by decide) b
  have second := (first.set (r := a1) (by decide) 46).set (r := a1) (by decide) e
  exact ⟨_, g4, by simp [PC], by simp +decide, by simp +decide, by simp, second.set (by decide) 48⟩

/-- `main` calls `POW` and stores what it returns. -/
theorem main_calls (ready : Ready layout v) (PC : v.PC = 40) (target : v.REGS at' = 48)
    (base : v.REGS a0 = b) (exponent : v.REGS a1 = e) (base_small : b < 2 ^ 31)
    (small : b ^ e < 2 ^ 31) (deep : 83 + (3 * e + 1) ≤ v.REGS sp) :
    ∃ w, Goes layout v w ∧ w.PC = 43 ∧ w.MEM 47 = some (b ^ e) ∧ w.REGS sp = v.REGS sp ∧
      w.REGS fp = v.REGS fp := by
  have placed : Placed layout 40 call := placed_main.part 40 rfl
  have g0 := ready.here.step (ready.call (placed.here (k := 0) rfl PC) (by decide) (by decide)
    (by decide) (by decide) (by omega))
  obtain ⟨w, power, back, value, apart⟩ :=
    power_returns stacked (placed_routines.part 0 rfl) (by decide)
    mult_multiplies base_small e g0.ready target (by simp +decide [base])
      (by simp +decide [exponent]) small
    (by simp +decide; exact deep)
  have PC' : w.PC = 41 := by
    rw [back]
    simp [PC]
  have g1 := (g0.trans power).step
    (power.ready.lea (y := 47) (placed.here (k := 1) rfl PC') (by decide) (by rw [PC']; rfl)
    (by decide) (by decide) (by omega))
  have g2 := g1.step (g1.ready.store (a := 47) (placed.here (k := 2) rfl (by simp [PC']))
  (by decide)
    (by simp +decide) rfl (Or.inl rfl) (Or.inl (by decide)) (by simp [PC']))
  refine ⟨_, g2, by simp [PC'], by simp +decide [value], ?_, ?_⟩
  · simp +decide [apart.REGS sp (by decide)]
  · simp +decide [apart.REGS fp (by decide)]

end

/-! ## The whole run -/

/-- The simulator has halted behind the store to `ANS`; the power stands there, the stack is as it
was, and no other word of the program has changed. -/
structure Ends (symbols : SymbolTable) (out : List (List Bool)) (b e : Nat) (s : Machine) :
    Prop where
  halted : s.HALTED = true
  store : out[s.PC - 1]? = some (Instr.sw v0 a0 0).encode
  halt : out[s.PC]? = some Instr.halt.encode
  answer : ∃ ans, symbols.lookup "ans".toList = some ans ∧ s.MEM ans = b ^ e ∧
    ∀ a < out.length, a ≠ ans → s.MEM a = (loadProgram out).MEM a
  base : ∃ a, symbols.lookup "base".toList = some a ∧ s.MEM a = b
  exponent : ∃ a, symbols.lookup "exp".toList = some a ∧ s.MEM a = e
  stack : s.REGS sp = 0xA000
  frame : s.REGS fp = (loadProgram out).REGS fp

section

variable {b e : Nat}

/-- The words of `BASE` and `EXP`. -/
theorem data_words (base_small : b < 2 ^ 31) (exp_small : e < 2 ^ 31) :
    (loadProgram (image b e)).MEM 45 = b ∧ (loadProgram (image b e)).MEM 46 = e := by
  constructor
  · rw [image_word b e 45 rfl, uint, value_digits]
    omega
  · rw [image_word b e 46 rfl, uint, value_digits]
    omega

/-- From its stack on the program goes to its `halt`. -/
theorem loaded_ends (base_small : b < 2 ^ 31) (small : b ^ e < 2 ^ 31)
    (deep : 83 + (3 * e + 1) ≤ 0xA000) :
    ∃ w, Goes layout (loaded b e) w ∧ w.PC = 43 ∧ w.MEM 47 = some (b ^ e) ∧ w.REGS sp = 0xA000 ∧
      w.REGS fp = 0 := by
  have sound : (loaded b e).Sound layout := loaded_sound
  have ready : Ready layout (loaded b e) := ⟨rfl, sound.below, sound.room⟩
  obtain ⟨base, exponent⟩ := data_words base_small (e := e) (by omega)
  obtain ⟨v₁, loads, PC₁, base₁, exponent₁, target₁, apart₁⟩ :=
    main_loads ready rfl (congrArg some base)
    (congrArg some exponent)
  obtain ⟨v₂, equal, PC₂, apart₂⟩ := equal_passes loads.ready PC₁
  obtain ⟨v₃, mins, PC₃, apart₃⟩ := mins_pass equal.ready PC₂
  obtain ⟨v₄, maxs, PC₄, apart₄⟩ := maxs_pass mins.ready PC₃
  have apart := (apart₂.trans apart₃).trans apart₄
  have stack : v₄.REGS sp = 0xA000 := by
    rw [apart.REGS sp (by decide), apart₁.REGS sp (by decide)]
    rfl
  have frame : v₄.REGS fp = 0 := by
    rw [apart.REGS fp (by decide), apart₁.REGS fp (by decide)]
    rfl
  obtain ⟨w, calls, PC', answer, stack', frame'⟩ := main_calls maxs.ready PC₄
    (by rw [apart.REGS at' (by decide), target₁]) (by rw [apart.REGS a0 (by decide), base₁])
    (by rw [apart.REGS a1 (by decide), exponent₁]) base_small small (by rw [stack]; exact deep)
  exact ⟨w, (((loads.trans equal).trans mins).trans maxs).trans calls, PC',
    answer, by rw [stack', stack], by rw [frame', frame]⟩

/-- With a base and an exponent whose power is small and that have room for the stack, `pow.s`
assembles, and the simulator ends with the power. -/
theorem pow_computes {u : Unicode} (lowers : Lowers u) (base_small : b < 2 ^ 31)
    (small : b ^ e < 2 ^ 31) (deep : 3 * e + 1 < 0xA000 - (instructions u (source b e)).length) :
    ∃ p out, Assembles u (source b e) p ∧ outputGenerator p.results = some out ∧
      ∃ n s, (loadProgram out).run n = .ok s ∧
        Ends (pass1 u (source b e) .start).symbolTable out b e s := by
  rw [length_instructions lowers] at deep
  have exp_small : e < 2 ^ 31 := by omega
  obtain ⟨table, p, assembles, output⟩ := assembles lowers base_small exp_small
  refine ⟨p, image b e, assembles, output, ?_⟩
  rw [table]
  obtain ⟨s, follows, starts⟩ := starts b e
  obtain ⟨w, ⟨runs, _⟩, PC, answer, stack, frame⟩ := loaded_ends base_small small (by omega)
  obtain ⟨n, t, follows', reaches⟩ := follows.runs fixed (holds b e) runs
  have last := follows'.halts fixed (holds b e) (by rw [PC]; rfl)
  have PC' : (Instr.halt.effect t).PC = 43 := follows'.sees.PC.trans PC
  have REGS : ∀ r, r ≠ 0 → r ≠ k0 → (Instr.halt.effect t).REGS r = w.REGS r := by
    intro r nonzero other
    exact (Function.update_of_ne nonzero ..).trans (follows'.sees.REGS r other)
  have image : ∀ a < 83, a ≠ 47 → t.MEM a = (loadProgram (image b e)).MEM a := by
    intro a low other
    exact follows'.image a low (decide_eq_false other)
  obtain ⟨base, exponent⟩ := data_words base_small exp_small
  refine ⟨n + 1 + 2, Instr.halt.effect t, by rw [starts, reaches, last], ?_⟩
  constructor
  · rfl
  · rw [PC']
    rfl
  · rw [PC']
    rfl
  · exact ⟨47, by decide, follows'.sees.MEM 47 _ answer, image⟩
  · exact ⟨45, by decide, (image 45 (by decide) (by decide)).trans base⟩
  · exact ⟨46, by decide, (image 46 (by decide) (by decide)).trans exponent⟩
  · rw [REGS sp (by decide) (by decide), stack]
  · rw [REGS fp (by decide) (by decide), frame]
    rfl

/-- The sample in the source. -/
theorem pow_computes_sample : ∃ p out, Assembles ascii (source 2 8) p ∧
    outputGenerator p.results = some out ∧
    ∃ n s, (loadProgram out).run n = .ok s ∧ Ends (pass1 ascii (source 2 8) .start).symbolTable out
    2 8 s :=
  pow_computes (fun _ _ => rfl) (by decide) (by decide)
    (by rw [length_instructions fun _ _ => rfl]; decide)

end

end SystemsProjects.Pow
