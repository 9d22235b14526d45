import SystemsProjects.Lc.Words

/-!
# The memory of the simulator

`access_mem` takes an address modulo 2^24, for a fetch and for a load. A store writes the whole
address as a key of `MEM`. So what is stored past 2^24 is not read again.
-/

namespace SystemsProjects.Lc

open Digits

namespace Machine

variable (s : Machine)

/-! ## Accesses -/

/-- The instruction that comes next. -/
def ireg : List Bool := format32 (s.accessMem s.PC)

def op : Option Op := opName (bitRange s.ireg 31 28)

/-- The effective address of an `LW` or `SW`. -/
def address : Nat := forceUnsigned (s.REGS (regno (bitRange s.ireg 23 20)) +
    int2c (bitRange s.ireg 19 0)) 32

/-- The register that an `LW` loads or an `SW` stores. -/
def register : Fin 16 := regno (bitRange s.ireg 27 24)

/-- What the `SW` instructions among the first `k` have stored and where, the latest first. -/
def written : Nat → List (Nat × Nat)
  | 0 => []
  | k + 1 =>
    match s.steps k with
    | .ok t => if t.op = some .SW then (t.address, t.REGS t.register) :: written k else written k
    | .error _ => written k

/-- The value of the latest `SW` at the address, or else the word that is there at first. -/
def lastWord (k a : Nat) : Nat := ((s.written k).lookup a).getD (s.accessMem a)

/-- An `LW` or `SW` comes next. -/
def Accesses : Prop := s.op = some .LW ∨ s.op = some .SW

end Machine

/-- For the first `n` instructions memory is one array of 2^24 words. -/
structure Coherent (s : Machine) (n : Nat) : Prop where
  /-- An `LW` loads the value of the latest `SW` at its address. -/
  loads : ∀ k < n, ∀ t t', s.steps k = .ok t → t.stepInstruction = .ok t' → t.op = some .LW →
    t.register ≠ 0 → t'.REGS t.register = s.lastWord k t.address
  /-- A fetch reads the value of the latest `SW` at its address, truncated. -/
  fetches : ∀ k ≤ n, ∀ t, s.steps k = .ok t → t.accessMem t.PC = s.lastWord k (t.PC % 2 ^ 24)
  /-- An address in the range that reads as the cell of an `LW` or `SW` also writes as it. -/
  cells : ∀ k < n, ∀ t, s.steps k = .ok t → t.Accesses → ∀ a < 2 ^ 24,
    (∀ m : Machine, m.accessMem a = m.accessMem t.address) →
    ∀ (m : Machine) (v : Nat), m.store a v = m.store t.address v

section

variable {s t t' : Machine} {k n a : Nat}

/-! ## One step -/

/-- The instruction that is executed is the one of `ireg` and `op`. -/
theorem step_op (step : t.stepInstruction = .ok t') :
    ∃ op, t.op = some op ∧ t' = ((t.setPC (t.PC + 1)).execute t.ireg op).setReg 0 0 := by
  unfold Machine.stepInstruction at step
  dsimp only at step
  split at step
  · cases step
  · rename_i op named
    exact ⟨op, named, (Except.ok.inj step).symm⟩

/-- An `SW` writes one key, and no other instruction writes any. -/
theorem step_MEM (step : t.stepInstruction = .ok t') : t'.MEM a =
    if t.op = some .SW ∧ a = t.address then t.REGS t.register else t.MEM a := by
  obtain ⟨op, named, rfl⟩ := step_op step
  rw [named, Machine.setReg_MEM]
  cases op with
  | SW =>
    rw [Machine.execute, Machine.store_MEM]
    simp only [true_and]
    rfl
  | BEQ | BLT =>
    rw [if_neg (by simp), Machine.execute]
    split <;> rfl
  | _ => rw [if_neg (by simp)]; rfl

/-- What an `LW` leaves in its register. -/
theorem step_load (step : t.stepInstruction = .ok t') (load : t.op = some .LW)
    (kept : t.register ≠ 0) :
    t'.REGS t.register = t.accessMem t.address := by
  obtain ⟨op, named, rfl⟩ := step_op step
  obtain rfl := Option.some.inj (load.symm.trans named)
  rw [Machine.setReg_REGS, if_neg kept, Machine.execute]
  exact (Machine.setReg_REGS ..).trans (if_pos rfl)

/-! ## Runs -/

theorem written_succ (reached : s.steps k = .ok t) : s.written (k + 1) =
    if t.op = some .SW then (t.address, t.REGS t.register) :: s.written k else s.written k := by
  rw [Machine.written, reached]

/-- Each key of `MEM` holds what has been stored there last. -/
theorem steps_MEM (reached : s.steps k = .ok t) (a : Nat) :
    t.MEM a = ((s.written k).lookup a).getD (s.MEM a) := by
  induction k generalizing t with
  | zero =>
    obtain rfl := Except.ok.inj reached
    rfl
  | succ k ih =>
    obtain ⟨before, reached, step⟩ := steps_succ reached
    rw [step_MEM step, written_succ reached]
    by_cases store : before.op = some .SW
    · rw [if_pos store]
      by_cases here : a = before.address
      · rw [if_pos ⟨store, here⟩, here, List.lookup_cons_self]
        rfl
      · rw [if_neg (fun both => here both.2), List.lookup_cons, beq_false_of_ne here]
        exact ih reached
    · rw [if_neg store, if_neg (fun both => store both.1)]
      exact ih reached

theorem steps_accessMem (reached : s.steps k = .ok t) (a : Nat) :
    t.accessMem a = s.lastWord k (a % 2 ^ 24) := by
  rw [accessMem_eq, steps_MEM reached, Machine.lastWord, accessMem_eq, Nat.mod_mod]

/-- Memory is coherent if and only if no `LW` and no `SW` has an effective address of 2^24 or
more. -/
theorem memory_coherent (s : Machine) (n : Nat) :
    Coherent s n ↔ ∀ k < n, ∀ t, s.steps k = .ok t → t.Accesses → t.address < 2 ^ 24 := by
  constructor
  · intro coherent k lt t reached accesses
    have reads : ∀ m : Machine, m.accessMem (t.address % 2 ^ 24) = m.accessMem t.address := by
      intro m
      rw [accessMem_eq, accessMem_eq, Nat.mod_mod]
    have least : t.address % 2 ^ 24 < 2 ^ 24 := Nat.mod_lt _ (by decide)
    have same := coherent.cells k lt t reached accesses _ least reads (loadProgram []) 1
    by_contra high
    have ne : t.address % 2 ^ 24 ≠ t.address := by omega
    -- the two stores are apart at the address itself
    have apart := congrArg (fun m : Machine => m.MEM t.address) same
    rw [Machine.store_MEM, Machine.store_MEM, if_neg ne.symm, if_pos rfl] at apart
    cases apart
  · intro low
    refine ⟨?_, fun k _ t reached => steps_accessMem reached t.PC, ?_⟩
    · intro k lt t t' reached step load kept
      have inside := low k lt t reached (.inl load)
      rw [step_load step load kept, steps_accessMem reached, Nat.mod_eq_of_lt inside]
    · intro k lt t reached accesses a inside reads m v
      have inside' := low k lt t reached accesses
      by_contra ne
      have apart : a ≠ t.address := fun same => ne (by rw [same])
      have read := reads ((loadProgram []).store a 1)
      rw [accessMem_eq, accessMem_eq, Nat.mod_eq_of_lt inside, Nat.mod_eq_of_lt inside',
        Machine.store_MEM, Machine.store_MEM, if_pos rfl, if_neg apart.symm] at read
      cases read

end

/-- A store at the last address, and a load from there. -/
def pastRange : List (List Bool) :=
  [digits 32 0x26000001, -- addi $t0, $zero, 1
   digits 32 0x460fffff, -- sw $t0, -1($zero)
   digits 32 0x370fffff] -- lw $t1, -1($zero)

/-- The load does not see the store. -/
theorem store_not_loaded : ¬ ∀ (s : Machine) (n : Nat), (∀ r, s.REGS r < 2 ^ 32) →
    Coherent s n := by
  intro law
  have here : ((loadProgram pastRange).steps 2).toOption.map
    (fun t => (t.op, t.register, t.accessMem t.address,
      (loadProgram pastRange).lastWord 2 t.address)) = some (some .LW, 7, 0, 1) := by
    decide +kernel
  have goes : ((loadProgram pastRange).steps 3).toBool = true := by decide +kernel
  cases run : (loadProgram pastRange).steps 3 with
  | error op => simp [run, Except.toBool] at goes
  | ok t' =>
    obtain ⟨t, reached, step⟩ := steps_succ run
    rw [reached] at here
    obtain ⟨load, here⟩ := Prod.mk.inj (Option.some.inj here)
    obtain ⟨register, here⟩ := Prod.mk.inj here
    obtain ⟨read, latest⟩ := Prod.mk.inj here
    have kept : t.register ≠ 0 := by
      rw [register]
      decide
    have seen := (law (loadProgram pastRange) 3 fun _ => Nat.two_pow_pos 32).loads 2 (by decide) t
      t' reached step load kept
    rw [step_load step load kept, read, latest] at seen
    cases seen

end SystemsProjects.Lc
