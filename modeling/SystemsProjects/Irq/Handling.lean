import SystemsProjects.Irq.Nesting
import SystemsProjects.Irq.Phases

/-!
# The handlers go through their phases

Where a handler stands in the code and what its registers hold tell its phase. Each of its commands
leaves it in its phase or makes a step of the phases.
-/

namespace SystemsProjects.Irq

open Lc Register

def cells (mem : Nat → Nat) : Cells where
  ticks := mem 0xFFFF
  range := mem 0xFFFE
  maxval := signed (mem 0xFFFD)
  minval := signed (mem 0xFFFC)

/-- The commands between which a handler stays in one phase. -/
inductive Stage
  | idle | timing | counting | timed | arrived | fresh | compared | raising | raised | weighing |
      weighed
  | lowering | lowered | rechecking | rechecked | settled | halfway | subtracting | negating |
      adding | ranging
deriving DecidableEq

/-- The handler of the timer starts at 77, that of the distance tracker at 103; `RVAL` is 125,
`MAX` 138, `MIN` 148 and `TEARDOWN` 158. -/
def stage (pc : Nat) : Stage :=
  if pc < 77 then .idle
  else if pc < 90 then .timing
  else if pc = 90 then .counting
  else if pc = 91 then .timed
  else if pc < 103 then .idle
  else if pc < 115 then .arrived
  else if pc < 118 then .fresh
  else if pc < 120 then .compared
  else if pc < 123 then .raised
  else if pc < 125 then .weighed
  else if pc < 128 then .settled
  else if pc < 131 then .halfway
  else if pc = 131 then .subtracting
  else if pc = 132 then .negating
  else if pc = 133 then .adding
  else if pc < 137 then .ranging
  else if pc = 137 then .idle
  else if pc < 141 then .raising
  else if pc < 144 then .raised
  else if pc = 144 then .weighing
  else if pc < 147 then .weighed
  else if pc = 147 then .settled
  else if pc < 151 then .lowering
  else if pc < 154 then .lowered
  else if pc = 154 then .rechecking
  else if pc < 157 then .rechecked
  else if pc = 157 then .settled
  else .idle

example : address .timer_handler = 77 ∧ address .distance_tracker_handler = 103 ∧
  address .RVAL = 125 ∧
    address .MAX = 138 ∧ address .MIN = 148 ∧ address .TEARDOWN = 158 := by decide +kernel

/-- The phase when `$s0`, `$s1` and `$s2` hold these words. -/
def Stage.phase (x y z : Nat) : Stage → Phase
  | idle => .idle
  | timing => .timing
  | counting => .timed (wrap (y + 1))
  | timed => .timed y
  | arrived => .arrived
  | fresh => .fresh (signed x)
  | compared => .compared (signed x) (signed z)
  | raising => .raising (signed x)
  | raised => .raised (signed x)
  | weighing => if x = z then .settled else .weighed (signed x) (signed z)
  | weighed => .weighed (signed x) (signed z)
  | lowering => .lowering (signed x)
  | lowered => .lowered (signed x)
  | rechecking => if x = z then .settled else .rechecked (signed x) (signed z)
  | rechecked => .rechecked (signed x) (signed z)
  | settled => .settled
  | halfway => .halfway (signed x)
  | subtracting => .ranging (wrap (x - z))
  | negating => .ranging (wrap (x + z + 1))
  | adding => .ranging (wrap (x + z))
  | ranging => .ranging y

/-- The registers that tell the phase. -/
def Stage.uses : Stage → List (Fin 16)
  | idle | timing | arrived | settled => []
  | counting | timed | ranging => [s1]
  | fresh | raising | raised | lowering | lowered | halfway => [s0]
  | _ => [s0, s2]

def Processor.phase (t : Processor) : Phase :=
  (stage t.PC).phase (t.REGS s0) (t.REGS s1) (t.REGS s2)

/-- The register that a command writes. -/
def Command.dest : Command → Option (Fin 16)
  | ordinary (.add dr _ _) | ordinary (.nand dr _ _) | ordinary (.min dr _ _) | ordinary
      (.max dr _ _)
  | ordinary (.addi dr _ _) | ordinary (.lw dr _ _) | ordinary (.lea dr _) | ordinary (.inc dr)
  | ordinary (.jalr _ dr) | input dr _ => some dr
  | _ => none

/-- The value that a command reads from a device. -/
def Command.heard (value : Nat) : Command → Option Int
  | input _ _ => some (signed value)
  | _ => none

/-- A command that goes on behind itself and at most writes to the frame. -/
def Command.straight : Command → Bool
  | ordinary (.beq ..) | ordinary (.blt ..) | ordinary (.jalr ..) | ordinary .halt | reti | input
      .. => false
  | ordinary (.sw _ base _) => base = sp
  | _ => true

/-- The handler stays in its phase here, whatever the command computes. -/
def Stays (pc : Nat) : Bool :=
  (code pc).any fun c =>
    c.straight && decide (stage (pc + 1) = stage pc) &&
      c.dest.all fun dr => (stage pc).uses.all fun used => decide (used ≠ dr)

/-- The other places where a handler can be. -/
def turning : List Nat :=
  [89, 90, 91, 114, 117, 119, 122, 124, 127, 130, 131, 132, 133, 136, 137, 140, 143, 144, 146, 147,
    150, 153, 154, 156, 157]

/-- The order in which the commands of a handler follow each other in one phase. -/
def order (pc : Nat) : Nat := if 138 ≤ pc ∧ pc ≤ 157 then 400 - pc else 175 - pc

theorem places_checked : Shape.table.all (fun entry =>
    Stays entry.1 || decide (code entry.1 = some .reti) || decide (entry.1 ∈ turning)) = true := by
  decide +kernel

/-- What the handlers do at these places. -/
def turns : List (Nat × Command) :=
  [(89, .ordinary (.lw s1 s0 0)), (90, .ordinary (.addi s1 s1 1)), (91, .ordinary (.sw s1 s0 0)),
    (114, .input s0 1), (117, .ordinary (.lw s2 s1 0)), (119, .ordinary (.beq s1 s0 18)),
    (122, .ordinary (.lw s2 s1 0)), (124, .ordinary (.beq s1 s0 23)),
    (127, .ordinary (.lw s0 s1 0)), (130, .ordinary (.lw s2 s1 0)),
    (131, .ordinary (.nand s2 s2 s2)), (132, .ordinary (.addi s2 s2 1)),
    (133, .ordinary (.add s1 s0 s2)), (136, .ordinary (.sw s1 s0 0)),
    (137, .ordinary (.beq Register.zero Register.zero 20)), (140, .ordinary (.sw s1 s2 0)),
    (143, .ordinary (.lw s2 s1 0)), (144, .ordinary (.beq s0 s2 (-20))),
    (146, .ordinary (.beq s1 s0 1)), (147, .ordinary (.beq Register.zero Register.zero (-23))),
    (150, .ordinary (.sw s1 s2 0)), (153, .ordinary (.lw s2 s1 0)),
    (154, .ordinary (.beq s0 s2 (-30))), (156, .ordinary (.beq s1 s0 (-19))),
    (157, .ordinary (.beq Register.zero Register.zero (-33)))]

theorem turns_checked : turns.all (fun entry => decide (code entry.1 = some entry.2)) = true := by
  decide +kernel

theorem code_turn {pc : Nat} {cmd : Command} (turn : turns.lookup pc = some cmd) :
    code pc = some cmd :=
  of_decide_eq_true (List.all_eq_true.mp turns_checked _ (Tables.mem_of_lookup turn))

theorem order_succ {pc : Nat} (low : pc < 175) (other : pc ≠ 137) (last : pc ≠ 157) :
    order (pc + 1) < order pc := by
  unfold order
  split <;> split <;> omega

/-- The phase depends only on some registers. -/
theorem Stage.phase_congr (st : Stage) {REGS REGS' : Fin 16 → Nat}
    (same : ∀ r ∈ st.uses, REGS' r = REGS r) :
    st.phase (REGS' s0) (REGS' s1) (REGS' s2) = st.phase (REGS s0) (REGS s1) (REGS s2) := by
  cases st <;> simp only [Stage.uses, List.mem_cons, List.not_mem_nil, or_false, forall_eq_or_imp,
    forall_eq] at same <;>
    simp only [Stage.phase, same]

/-! ## The words that decide -/

/-- All words of the machine fit 32 bits. -/
structure Words (p : Processor) : Prop where
  registers : ∀ r, p.REGS r < 2 ^ 32
  memory : ∀ a, p.MEM a < 2 ^ 32

theorem signed_injective {x y : Nat} (left : x < 2 ^ 32) (right : y < 2 ^ 32) :
    signed x = signed y ↔ x = y := by
  unfold signed
  rw [Int.bmod_def, Int.bmod_def]
  omega

theorem wrap_signed {x : Nat} (small : x < 2 ^ 32) : wrap (signed x) = x := by
  unfold signed wrap
  rw [Int.bmod_def]
  omega

/-- The test of a handler after `max`. -/
theorem wrap_max_eq {x z : Nat} (left : x < 2 ^ 32) (right : z < 2 ^ 32) :
    wrap (max (signed x) (signed z)) = x ↔ signed z ≤ signed x := by
  rcases le_total (signed z) (signed x) with most | less
  · rw [max_eq_left most, wrap_signed left]
    exact iff_of_true rfl most
  · rw [max_eq_right less, wrap_signed right, ← signed_injective right left]
    exact ⟨fun same => same.le, fun most => le_antisymm most less⟩

theorem wrap_min_eq {x z : Nat} (left : x < 2 ^ 32) (right : z < 2 ^ 32) :
    wrap (min (signed x) (signed z)) = x ↔ signed x ≤ signed z := by
  rcases le_total (signed x) (signed z) with least | more
  · rw [min_eq_left least, wrap_signed left]
    exact iff_of_true rfl least
  · rw [min_eq_right more, wrap_signed right, ← signed_injective right left]
    exact ⟨fun same => same.ge, fun least => le_antisymm more least⟩

theorem wrap_sub_signed (x z : Nat) : wrap (signed x - signed z) = wrap (x - z) := by
  unfold signed wrap
  rw [Int.bmod_def, Int.bmod_def]
  omega

/-- The handler negates by complement. -/
theorem wrap_complement (x z : Nat) (small : z < 2 ^ 32) :
    wrap (x + wrap (~~~((z &&& z : Nat) : Int)) + 1) = wrap (x - z) := by
  rw [Nat.and_self]
  have flip : ~~~(z : Int) = -z - 1 := by
    show Int.negSucc z = -z - 1
    omega
  rw [flip]
  unfold wrap
  omega

/-! ## A handler makes its steps -/

section

variable {got : Source → Nat} {c t : Processor} {cmd : Command} {sh next : Shape} {value : Nat}

/-- What is known of a register at a command. -/
def factsAt (pc : Nat) (r : Fin 16) : Option Symbol := (Shape.along pc).bind fun sh => sh.facts r

/-- What the registers hold at these places. -/
def turnFacts : List ((Nat × Fin 16) × Symbol) :=
  [((89, s0), .const 0xFFFF), ((91, s0), .const 0xFFFF), ((117, s1), .const 0xFFFD),
    ((122, s1), .const 0xFFFC), ((127, s1), .const 0xFFFD), ((130, s1), .const 0xFFFC),
    ((136, s0), .const 0xFFFE), ((140, s2), .const 0xFFFD), ((143, s1), .const 0xFFFC),
    ((150, s2), .const 0xFFFC), ((153, s1), .const 0xFFFD), ((119, s0), .got .device),
    ((119, s2), .got (.cell 0xFFFD)), ((119, s1), .max (.got .device) (.got (.cell 0xFFFD))),
    ((156, s0), .got .device), ((156, s2), .got (.cell 0xFFFD)),
    ((156, s1), .max (.got .device) (.got (.cell 0xFFFD))),
    ((124, s0), .got .device), ((124, s2), .got (.cell 0xFFFC)),
    ((124, s1), .min (.got .device) (.got (.cell 0xFFFC))),
    ((146, s0), .got .device), ((146, s2), .got (.cell 0xFFFC)),
    ((146, s1), .min (.got .device) (.got (.cell 0xFFFC))),
    ((140, s0), .got .device), ((140, s1), .got .device), ((150, s0), .got .device),
    ((150, s1), .got .device)]

theorem turnFacts_checked : turnFacts.all (fun entry =>
    decide (factsAt entry.1.1 entry.1.2 = some entry.2)) = true := by
  decide +kernel

theorem facts_turn {pc : Nat} {r : Fin 16} {s : Symbol} (turn : turnFacts.lookup (pc, r) = some s) :
    factsAt pc r = some s :=
  of_decide_eq_true (List.all_eq_true.mp turnFacts_checked _ (Tables.mem_of_lookup turn))

theorem Handles.known {mem : Nat → Nat} (handles : Handles got mem c t) {pc : Nat} (PC : t.PC = pc)
    {r : Fin 16} {s : Symbol} (known : factsAt pc r = some s) : t.REGS r = s.eval got := by
  obtain ⟨sh, along, holds⟩ := handles
  unfold factsAt at known
  rw [← PC, along, Option.bind_some] at known
  exact holds.facts r s known

/-- A command changes no register but one. -/
theorem effect_other (zero : t.REGS 0 = 0) {r : Fin 16} (other : cmd.dest ≠ some r)
    (after : sh.after t.PC cmd = some next) :
    (cmd.effect value t).REGS r = t.REGS r := by
  have apart : ∀ dr v, some dr ≠ some r → Function.update (Function.update t.REGS dr v) 0 0 r =
      t.REGS r := by
    intro dr v differs
    exact Shape.written_other zero (fun same => differs (by rw [same])) v
  have kept : Function.update t.REGS 0 0 r = t.REGS r := by rw [← zero, Function.update_eq_self]
  cases cmd with
  | ordinary i =>
    cases i with
    | add dr | nand dr | min dr | max dr | addi dr | lw dr | lea dr => exact apart dr _ other
    | sw => exact kept
    | beq sr1 sr2 offset => rw [(Shape.beq_same zero sr1 sr2 offset value).1]
    | halt | inc | noop | jalr | blt => cases after
  | input dr addr => exact apart dr _ other
  | _ => rfl

/-- A straight command writes no shared cell. -/
theorem effect_cells (holds : sh.Holds got t.MEM c t) (high : Shape.Sheltered (c.REGS sp))
    (small : sh.pushed < 8) (after : sh.after t.PC cmd = some next)
    (straight : cmd.straight = true) :
    cells (cmd.effect value t).MEM = cells t.MEM := by
  have kept : ∀ a, Shared a → (cmd.effect value t).MEM a = t.MEM a := by
    rintro a ⟨least, most⟩
    cases cmd with
    | ordinary i =>
      cases i with
      | sw sr base offset =>
        replace straight : base = sp := of_decide_eq_true straight
        subst straight
        replace after : sh.save sr offset = some next := after
        unfold Shape.save at after
        split at after
        · next k here =>
          have address := holds.address high here
          obtain ⟨positive, fits, _⟩ := Shape.slot_eq here
          obtain ⟨_, apart⟩ := high
          have other : a ≠ wrap (t.REGS sp + offset) := by omega
          exact Function.update_of_ne other ..
        · cases after
      | beq => cases straight
      | halt | inc | noop | jalr | blt => cases after
      | _ => rfl
    | _ => rfl
  unfold cells
  rw [kept 0xFFFF (by decide), kept 0xFFFE (by decide), kept 0xFFFD (by decide),
    kept 0xFFFC (by decide)]

/-- Where nothing turns, the phase and the cells stay as they are. -/
theorem Handles.keeps (handles : Handles got t.MEM c t) (zero : t.REGS 0 = 0)
    (loaded : Loaded t.MEM) (low : 175 ≤ t.REGS sp) (high : Shape.Sheltered (c.REGS sp))
    (here : code t.PC = some cmd) (more : cmd ≠ .reti) (stays : Stays t.PC = true) (value : Nat) :
    (cmd.effect value t).phase = t.phase ∧ cells (cmd.effect value t).MEM = cells t.MEM ∧
      (cmd.effect value t).PC = t.PC + 1 ∧ cmd.heard value = none := by
  obtain ⟨sh, next, along, after, _, _⟩ := handles.step zero loaded low high here more value
  obtain ⟨sh', along', holds⟩ := handles
  obtain rfl : sh' = sh := Option.some.inj (along'.symm.trans along)
  unfold Stays at stays
  rw [here, Option.any_some, Bool.and_eq_true, Bool.and_eq_true] at stays
  obtain ⟨⟨straight, same⟩, free⟩ := stays
  replace same : stage (t.PC + 1) = stage t.PC := of_decide_eq_true same
  have PC : (cmd.effect value t).PC = t.PC + 1 := by
    apply Shape.effect_PC (code_lt here) after
    rintro sr1 sr2 offset rfl
    cases straight
  refine ⟨?_, effect_cells holds high (Shape.along_small along) after straight, PC, ?_⟩
  · unfold Processor.phase
    rw [PC, same]
    apply Stage.phase_congr
    intro r used
    apply effect_other zero _ after
    intro dest
    rw [dest, Option.all_some] at free
    exact of_decide_eq_true (List.all_eq_true.mp free r used) rfl
  · cases cmd with
    | input => cases straight
    | _ => rfl

/-- A handler `t` becomes `t'` with one command. -/
inductive Advances (heard : Option Int) (t t' : Processor) : Prop
  | keeps (phase : t'.phase = t.phase) (same : cells t'.MEM = cells t.MEM)
      (later : order t'.PC < order t.PC)
      (silent : heard = none)
  | moves (move : Phase.Move heard (cells t.MEM) t.phase (cells t'.MEM) t'.phase)

/-- A command that only computes a register. -/
structure Computes (pc : Nat) (dr : Fin 16) (v : Nat) (t t' : Processor) : Prop where
  PC : t'.PC = pc + 1
  REGS : t'.REGS = Function.update t.REGS dr v
  MEM : t'.MEM = t.MEM

theorem zeroed (zero : t.REGS 0 = 0) {dr : Fin 16} (nonzero : dr ≠ 0) (v : Nat) :
    Function.update (Function.update t.REGS dr v) 0 0 = Function.update t.REGS dr v := by
  apply Function.update_eq_self_iff.mpr
  rw [Function.update_of_ne nonzero.symm, zero]

theorem computes (cmd : Command) (value : Nat) (zero : t.REGS 0 = 0) {pc : Nat} (PC : t.PC = pc)
    (low : pc < 175) (dr : Fin 16) (nonzero : dr ≠ 0) {v : Nat}
    (next : (cmd.effect value t).PC = wrap (t.PC + 1)) (REGS : (cmd.effect value t).REGS =
    Function.update (Function.update t.REGS dr v) 0 0)
    (MEM : (cmd.effect value t).MEM = t.MEM) : Computes pc dr v t (cmd.effect value t) := by
  refine ⟨?_, by rw [REGS, zeroed zero nonzero], MEM⟩
  rw [next, ← PC]
  exact wrap_of_lt (n := t.PC + 1) (by omega)

/-- A handler loads one of the cells. -/
theorem Handles.loads (handles : Handles got t.MEM c t) (zero : t.REGS 0 = 0) {pc a : Nat}
    (PC : t.PC = pc) (dr base : Fin 16) (known : factsAt pc base = some (.const a)) (low : pc < 175)
    (small : a < 2 ^ 24) (nonzero : dr ≠ 0) (value : Nat) :
    Computes pc dr (t.MEM a) t ((Command.ordinary (.lw dr base 0)).effect value t) := by
  have address : wrap (t.REGS base + 0) = a := by
    rw [handles.known PC known, Int.add_zero]
    exact wrap_of_lt (n := a) (by omega)
  apply computes _ value zero PC low dr nonzero rfl _ rfl
  rw [Facts.lw_REGS, address, Facts.accessMem_low small]

/-- A handler stores to one of the cells. -/
theorem Handles.stores (handles : Handles got t.MEM c t) (zero : t.REGS 0 = 0) {pc a : Nat}
    (PC : t.PC = pc) (sr base : Fin 16) (known : factsAt pc base = some (.const a)) (low : pc < 175)
    (small : a < 2 ^ 24) (value : Nat) :
    ((Command.ordinary (.sw sr base 0)).effect value t).PC = pc + 1 ∧
      ((Command.ordinary (.sw sr base 0)).effect value t).REGS = t.REGS ∧
      ((Command.ordinary (.sw sr base 0)).effect value t).MEM =
      Function.update t.MEM a (t.REGS sr) := by
  have address : wrap (t.REGS base + 0) = a := by
    rw [handles.known PC known, Int.add_zero]
    exact wrap_of_lt (n := a) (by omega)
  refine ⟨?_, ?_, ?_⟩
  · rw [← PC]
    exact wrap_of_lt (n := t.PC + 1) (by omega)
  · show Function.update t.REGS 0 0 = t.REGS
    rw [← zero, Function.update_eq_self]
  · show Function.update t.MEM (wrap (t.REGS base + 0)) (t.REGS sr) = _
    rw [address]

/-- The branches of a handler. -/
theorem branch_effect (zero : t.REGS 0 = 0) {pc : Nat} (PC : t.PC = pc) (sr1 sr2 : Fin 16)
    (offset : Int) (there : Nat) (low : pc < 175) (target : wrap (pc + 1 + offset) = there)
    (value : Nat) :
    ((Command.ordinary (.beq sr1 sr2 offset)).effect value t).PC =
        (if t.REGS sr1 = t.REGS sr2 then there else pc + 1) ∧
      ((Command.ordinary (.beq sr1 sr2 offset)).effect value t).REGS = t.REGS ∧
      ((Command.ordinary (.beq sr1 sr2 offset)).effect value t).MEM = t.MEM := by
  refine ⟨?_, Shape.beq_same zero sr1 sr2 offset value⟩
  have next : wrap (t.PC + 1) = pc + 1 := by
    rw [← PC]
    exact wrap_of_lt (n := t.PC + 1) (by omega)
  rw [← target, ← next, ← PC]
  show (Instr.act _ t.toMachine).PC = _
  simp only [Instr.act, apply_ite Machine.PC, Machine.setPC_PC]

theorem cells_ticks (mem : Nat → Nat) (v : Nat) :
    cells (Function.update mem 0xFFFF v) = { cells mem with ticks := v } := by
  simp [cells]

theorem cells_range (mem : Nat → Nat) (v : Nat) :
    cells (Function.update mem 0xFFFE v) = { cells mem with range := v } := by
  simp [cells]

theorem cells_maxval (mem : Nat → Nat) (v : Nat) :
    cells (Function.update mem 0xFFFD v) = { cells mem with maxval := signed v } := by
  simp [cells]

theorem cells_minval (mem : Nat → Nat) (v : Nat) :
    cells (Function.update mem 0xFFFC v) = { cells mem with minval := signed v } := by
  simp [cells]

/-- The command at a place of the code. -/
theorem command_eq {pc : Nat} (PC : t.PC = pc) (here : code t.PC = some cmd) {cmd' : Command}
    (word : code pc = some cmd') : cmd = cmd' := by
  rw [PC, word] at here
  exact (Option.some.inj here).symm

/-- The timer loads the ticks, counts one and stores them. -/
theorem Handles.timer (handles : Handles got t.MEM c t) (zero : t.REGS 0 = 0)
    (here : code t.PC = some cmd) (value : Nat) (place : t.PC = 89 ∨ t.PC = 90 ∨ t.PC = 91) :
    Advances (cmd.heard value) t (cmd.effect value t) := by
  rcases place with PC | PC | PC
  · have word : code 89 = some (.ordinary (.lw s1 s0 0)) := code_turn rfl
    obtain rfl := command_eq PC here word
    have loads := handles.loads zero (a := 0xFFFF) PC s1 s0 (facts_turn rfl) (by decide)
      (by decide) (by decide) value
    have now : t.phase = .timing := by simp [Processor.phase, PC, stage, Stage.phase]
    have after : ((Command.ordinary (.lw s1 s0 0)).effect value t).phase =
        .timed (wrap ((cells t.MEM).ticks + 1)) := by
      simp [Processor.phase, loads.PC, loads.REGS, stage, Stage.phase, cells]
    apply Advances.moves
    rw [now, after, loads.MEM]
    exact .count _
  · have word : code 90 = some (.ordinary (.addi s1 s1 1)) := code_turn rfl
    obtain rfl := command_eq PC here word
    have counts := computes (.ordinary (.addi s1 s1 1)) value zero PC (by decide) s1
      (by decide) rfl rfl rfl
    apply Advances.keeps _ (by rw [counts.MEM]) (by rw [counts.PC, PC]; decide) rfl
    simp [Processor.phase, counts.PC, counts.REGS, PC, stage, Stage.phase]
  · have word : code 91 = some (.ordinary (.sw s1 s0 0)) := code_turn rfl
    obtain rfl := command_eq PC here word
    obtain ⟨PC', REGS', MEM'⟩ := handles.stores zero (a := 0xFFFF) PC s1 s0 (facts_turn rfl)
      (by decide) (by decide) value
    have now : t.phase = .timed (t.REGS s1) := by simp [Processor.phase, PC, stage, Stage.phase]
    have after : ((Command.ordinary (.sw s1 s0 0)).effect value t).phase = .idle := by
      simp [Processor.phase, PC', stage, Stage.phase]
    apply Advances.moves
    rw [now, after, MEM', cells_ticks]
    exact .tick _ _

/-- The distance tracker reads a value and looks at the greatest one. -/
theorem Handles.reads (handles : Handles got t.MEM c t) (zero : t.REGS 0 = 0)
    (here : code t.PC = some cmd) (value : Nat) (place : t.PC = 114 ∨ t.PC = 117) :
    Advances (cmd.heard value) t (cmd.effect value t) := by
  rcases place with PC | PC
  · have word : code 114 = some (.input s0 1) := code_turn rfl
    obtain rfl := command_eq PC here word
    have REGS : ((Command.input s0 1).effect value t).REGS = Function.update t.REGS s0 value :=
      zeroed zero (by decide) value
    have now : t.phase = .arrived := by simp [Processor.phase, PC, stage, Stage.phase]
    have after : ((Command.input s0 1).effect value t).phase = .fresh (signed value) := by
      have PC' : ((Command.input s0 1).effect value t).PC = 115 := congrArg (· + 1) PC
      simp [Processor.phase, PC', REGS, stage, Stage.phase]
    apply Advances.moves
    rw [now, after]
    exact .read _ _
  · have word : code 117 = some (.ordinary (.lw s2 s1 0)) := code_turn rfl
    obtain rfl := command_eq PC here word
    have loads := handles.loads zero (a := 0xFFFD) PC s2 s1 (facts_turn rfl) (by decide)
      (by decide) (by decide) value
    have now : t.phase = .fresh (signed (t.REGS s0)) := by
      simp [Processor.phase, PC, stage, Stage.phase]
    have after : ((Command.ordinary (.lw s2 s1 0)).effect value t).phase =
        .compared (signed (t.REGS s0)) (cells t.MEM).maxval := by
      simp +decide [Processor.phase, loads.PC, loads.REGS, stage, Stage.phase, cells]
    apply Advances.moves
    rw [now, after, loads.MEM]
    exact .compare _ _

/-- What the handler has made of two words before it branches. -/
theorem Handles.maximum (handles : Handles got t.MEM c t) (words : Words t)
    (place : t.PC = 119 ∨ t.PC = 156) :
    t.REGS s1 = t.REGS s0 ↔ signed (t.REGS s2) ≤ signed (t.REGS s0) := by
  have made : t.REGS s1 = wrap (max (signed (t.REGS s0)) (signed (t.REGS s2))) := by
    rcases place with PC | PC
    all_goals
      rw [handles.known PC (r := s0) (s := .got .device) (facts_turn rfl),
        handles.known PC (r := s2) (s := .got (.cell 0xFFFD)) (facts_turn rfl),
        handles.known PC (r := s1) (s := .max (.got .device) (.got (.cell 0xFFFD)))
        (facts_turn rfl)]
      rfl
  rw [made]
  exact wrap_max_eq (words.registers s0) (words.registers s2)

theorem Handles.minimum (handles : Handles got t.MEM c t) (words : Words t)
    (place : t.PC = 124 ∨ t.PC = 146) :
    t.REGS s1 = t.REGS s0 ↔ signed (t.REGS s0) ≤ signed (t.REGS s2) := by
  have made : t.REGS s1 = wrap (min (signed (t.REGS s0)) (signed (t.REGS s2))) := by
    rcases place with PC | PC
    all_goals
      rw [handles.known PC (r := s0) (s := .got .device) (facts_turn rfl),
        handles.known PC (r := s2) (s := .got (.cell 0xFFFC)) (facts_turn rfl),
        handles.known PC (r := s1) (s := .min (.got .device) (.got (.cell 0xFFFC)))
        (facts_turn rfl)]
      rfl
  rw [made]
  exact wrap_min_eq (words.registers s0) (words.registers s2)

/-- A value that is as great as the greatest one seen is to be stored. -/
theorem Handles.greater (handles : Handles got t.MEM c t) (zero : t.REGS 0 = 0) (words : Words t)
    (here : code t.PC = some cmd) (value : Nat) (place : t.PC = 119 ∨ t.PC = 156) :
    Advances (cmd.heard value) t (cmd.effect value t) := by
  have test := handles.maximum words place
  rcases place with PC | PC
  · have word : code 119 = some (.ordinary (.beq s1 s0 18)) := code_turn rfl
    obtain rfl := command_eq PC here word
    obtain ⟨PC', REGS', MEM'⟩ := branch_effect zero PC s1 s0 18 138
      (by decide) (by decide) value
    have now : t.phase = .compared (signed (t.REGS s0)) (signed (t.REGS s2)) := by
      simp [Processor.phase, PC, stage, Stage.phase]
    apply Advances.moves
    rw [now, MEM']
    by_cases most : signed (t.REGS s2) ≤ signed (t.REGS s0)
    · rw [if_pos (test.mpr most)] at PC'
      have after : ((Command.ordinary (.beq s1 s0 18)).effect value t).phase =
          .raising (signed (t.REGS s0)) := by
        simp [Processor.phase, PC', REGS', stage, Stage.phase]
      rw [after]
      exact .greater _ _ _ most
    · rw [if_neg (fun same => most (test.mp same))] at PC'
      have after : ((Command.ordinary (.beq s1 s0 18)).effect value t).phase =
          .raised (signed (t.REGS s0)) := by
        simp [Processor.phase, PC', REGS', stage, Stage.phase]
      rw [after]
      exact .within _ _ _ (not_le.mp most)
  · have word : code 156 = some (.ordinary (.beq s1 s0 (-19))) := code_turn rfl
    obtain rfl := command_eq PC here word
    obtain ⟨PC', REGS', MEM'⟩ := branch_effect zero PC s1 s0 (-19) 138
      (by decide) (by decide) value
    have now : t.phase = .rechecked (signed (t.REGS s0)) (signed (t.REGS s2)) := by
      simp [Processor.phase, PC, stage, Stage.phase]
    apply Advances.moves
    rw [now, MEM']
    by_cases most : signed (t.REGS s2) ≤ signed (t.REGS s0)
    · rw [if_pos (test.mpr most)] at PC'
      have after : ((Command.ordinary (.beq s1 s0 (-19))).effect value t).phase =
          .raising (signed (t.REGS s0)) := by
        simp [Processor.phase, PC', REGS', stage, Stage.phase]
      rw [after]
      exact .again _ _ _ most
    · rw [if_neg (fun same => most (test.mp same))] at PC'
      have after : ((Command.ordinary (.beq s1 s0 (-19))).effect value t).phase = .settled := by
        simp [Processor.phase, PC', stage, Stage.phase]
      rw [after]
      exact .stay _ _ _ (not_le.mp most)

/-- A value that is as small as the least one seen is to be stored. -/
theorem Handles.smaller (handles : Handles got t.MEM c t) (zero : t.REGS 0 = 0) (words : Words t)
    (here : code t.PC = some cmd) (value : Nat) (place : t.PC = 124 ∨ t.PC = 146) :
    Advances (cmd.heard value) t (cmd.effect value t) := by
  have test := handles.minimum words place
  have now : t.phase = .weighed (signed (t.REGS s0)) (signed (t.REGS s2)) := by
    rcases place with PC | PC <;> simp [Processor.phase, PC, stage, Stage.phase]
  obtain ⟨offset, pc, PC, word, target, next⟩ : ∃ offset pc, t.PC = pc ∧
      code pc = some (.ordinary (.beq s1 s0 offset)) ∧ wrap (pc + 1 + offset) = 148 ∧
      stage (pc + 1) = .settled := by
    rcases place with PC | PC
    · exact ⟨23, 124, PC, code_turn rfl, by decide, by decide⟩
    · exact ⟨1, 146, PC, code_turn rfl, by decide, by decide⟩
  obtain rfl := command_eq PC here word
  obtain ⟨PC', REGS', MEM'⟩ := branch_effect zero PC s1 s0 _ _ (by omega) target value
  apply Advances.moves
  rw [now, MEM']
  by_cases least : signed (t.REGS s0) ≤ signed (t.REGS s2)
  · rw [if_pos (test.mpr least)] at PC'
    have after : ((Command.ordinary (.beq s1 s0 offset)).effect value t).phase =
        .lowering (signed (t.REGS s0)) := by
      simp [Processor.phase, PC', REGS', stage, Stage.phase]
    rw [after]
    exact .smaller _ _ _ least
  · rw [if_neg (fun same => least (test.mp same))] at PC'
    have after : ((Command.ordinary (.beq s1 s0 offset)).effect value t).phase = .settled := by
      unfold Processor.phase
      rw [PC', next]
      rfl
    rw [after]
    exact .between _ _ _ (not_le.mp least)

/-- The handler stores its value as the greatest or the least one. -/
theorem Handles.settles (handles : Handles got t.MEM c t) (zero : t.REGS 0 = 0)
    (here : code t.PC = some cmd) (value : Nat) (place : t.PC = 140 ∨ t.PC = 150) :
    Advances (cmd.heard value) t (cmd.effect value t) := by
  have same : t.REGS s1 = t.REGS s0 := by
    rcases place with PC | PC
    all_goals
      rw [handles.known PC (r := s0) (s := .got .device) (facts_turn rfl),
        handles.known PC (r := s1) (s := .got .device) (facts_turn rfl)]
  rcases place with PC | PC
  · have word : code 140 = some (.ordinary (.sw s1 s2 0)) := code_turn rfl
    obtain rfl := command_eq PC here word
    obtain ⟨PC', REGS', MEM'⟩ := handles.stores zero (a := 0xFFFD) PC s1 s2 (facts_turn rfl)
      (by decide) (by decide) value
    have now : t.phase = .raising (signed (t.REGS s0)) := by
      simp [Processor.phase, PC, stage, Stage.phase]
    have after : ((Command.ordinary (.sw s1 s2 0)).effect value t).phase =
        .raised (signed (t.REGS s0)) := by
      simp [Processor.phase, PC', REGS', stage, Stage.phase]
    apply Advances.moves
    rw [now, after, MEM', cells_maxval, same]
    exact .raise _ _
  · have word : code 150 = some (.ordinary (.sw s1 s2 0)) := code_turn rfl
    obtain rfl := command_eq PC here word
    obtain ⟨PC', REGS', MEM'⟩ := handles.stores zero (a := 0xFFFC) PC s1 s2 (facts_turn rfl)
      (by decide) (by decide) value
    have now : t.phase = .lowering (signed (t.REGS s0)) := by
      simp [Processor.phase, PC, stage, Stage.phase]
    have after : ((Command.ordinary (.sw s1 s2 0)).effect value t).phase =
        .lowered (signed (t.REGS s0)) := by
      simp [Processor.phase, PC', REGS', stage, Stage.phase]
    apply Advances.moves
    rw [now, after, MEM', cells_minval, same]
    exact .lower _ _

/-- The handler looks at the least value. -/
theorem Handles.weighs (handles : Handles got t.MEM c t) (zero : t.REGS 0 = 0)
    (here : code t.PC = some cmd) (value : Nat) (place : t.PC = 122 ∨ t.PC = 143) :
    Advances (cmd.heard value) t (cmd.effect value t) := by
  have now : t.phase = .raised (signed (t.REGS s0)) := by
    rcases place with PC | PC <;> simp [Processor.phase, PC, stage, Stage.phase]
  apply Advances.moves
  rw [now]
  rcases place with PC | PC
  · have word : code 122 = some (.ordinary (.lw s2 s1 0)) := code_turn rfl
    obtain rfl := command_eq PC here word
    have loads := handles.loads zero (a := 0xFFFC) PC s2 s1 (facts_turn rfl) (by decide)
      (by decide) (by decide) value
    have after : ((Command.ordinary (.lw s2 s1 0)).effect value t).phase =
        .weighed (signed (t.REGS s0)) (cells t.MEM).minval := by
      simp +decide [Processor.phase, loads.PC, loads.REGS, stage, Stage.phase, cells]
    rw [after, loads.MEM]
    exact .weigh _ _
  · have word : code 143 = some (.ordinary (.lw s2 s1 0)) := code_turn rfl
    obtain rfl := command_eq PC here word
    have loads := handles.loads zero (a := 0xFFFC) PC s2 s1 (facts_turn rfl) (by decide)
      (by decide) (by decide) value
    have after : ((Command.ordinary (.lw s2 s1 0)).effect value t).phase =
        if t.REGS s0 = t.MEM 0xFFFC then .settled else .weighed (signed (t.REGS s0))
        (cells t.MEM).minval := by
      simp +decide [Processor.phase, loads.PC, loads.REGS, stage, Stage.phase, cells]
    rw [after, loads.MEM]
    split
    · next same =>
      have least : signed (t.REGS s0) = (cells t.MEM).minval := by simp [cells, same]
      rw [least]
      exact .least _
    · exact .weigh _ _

/-- The handler looks at the greatest value again. -/
theorem Handles.rechecks (handles : Handles got t.MEM c t) (zero : t.REGS 0 = 0) (words : Words t)
    (here : code t.PC = some cmd) (value : Nat) (PC : t.PC = 153) :
    Advances (cmd.heard value) t (cmd.effect value t) := by
  have word : code 153 = some (.ordinary (.lw s2 s1 0)) := code_turn rfl
  obtain rfl := command_eq PC here word
  have loads := handles.loads zero (a := 0xFFFD) PC s2 s1 (facts_turn rfl) (by decide)
    (by decide) (by decide) value
  have now : t.phase = .lowered (signed (t.REGS s0)) := by
    simp [Processor.phase, PC, stage, Stage.phase]
  have after : ((Command.ordinary (.lw s2 s1 0)).effect value t).phase =
      if t.REGS s0 = t.MEM 0xFFFD then .settled else .rechecked (signed (t.REGS s0))
      (cells t.MEM).maxval := by
    simp +decide [Processor.phase, loads.PC, loads.REGS, stage, Stage.phase, cells]
  apply Advances.moves
  rw [now, after, loads.MEM]
  split
  · next same =>
    have most : signed (t.REGS s0) = (cells t.MEM).maxval := by simp [cells, same]
    rw [most]
    exact .most _
  · next other =>
    apply Phase.Move.recheck
    intro same
    replace same : signed (t.REGS s0) = signed (t.MEM 0xFFFD) := by simpa [cells] using same
    exact other ((signed_injective (words.registers s0) (words.memory 0xFFFD)).mp same)

/-- The handler loads both ends of the range. -/
theorem Handles.spans (handles : Handles got t.MEM c t) (zero : t.REGS 0 = 0)
    (here : code t.PC = some cmd) (value : Nat) (place : t.PC = 127 ∨ t.PC = 130) :
    Advances (cmd.heard value) t (cmd.effect value t) := by
  rcases place with PC | PC
  · have word : code 127 = some (.ordinary (.lw s0 s1 0)) := code_turn rfl
    obtain rfl := command_eq PC here word
    have loads := handles.loads zero (a := 0xFFFD) PC s0 s1 (facts_turn rfl) (by decide)
      (by decide) (by decide) value
    have now : t.phase = .settled := by simp [Processor.phase, PC, stage, Stage.phase]
    have after : ((Command.ordinary (.lw s0 s1 0)).effect value t).phase =
        .halfway (cells t.MEM).maxval := by
      simp +decide [Processor.phase, loads.PC, loads.REGS, stage, Stage.phase, cells]
    apply Advances.moves
    rw [now, after, loads.MEM]
    exact .half _
  · have word : code 130 = some (.ordinary (.lw s2 s1 0)) := code_turn rfl
    obtain rfl := command_eq PC here word
    have loads := handles.loads zero (a := 0xFFFC) PC s2 s1 (facts_turn rfl) (by decide)
      (by decide) (by decide) value
    have now : t.phase = .halfway (signed (t.REGS s0)) := by
      simp [Processor.phase, PC, stage, Stage.phase]
    have after : ((Command.ordinary (.lw s2 s1 0)).effect value t).phase =
        .ranging (wrap (signed (t.REGS s0) - (cells t.MEM).minval)) := by
      simp +decide [Processor.phase, loads.PC, loads.REGS, stage, Stage.phase, cells,
        wrap_sub_signed]
    apply Advances.moves
    rw [now, after, loads.MEM]
    exact .whole _ _

/-- The handler subtracts and stores the range. -/
theorem Handles.subtracts (handles : Handles got t.MEM c t) (zero : t.REGS 0 = 0) (words : Words t)
    (here : code t.PC = some cmd) (value : Nat)
    (place : t.PC = 131 ∨ t.PC = 132 ∨ t.PC = 133 ∨ t.PC = 136) :
    Advances (cmd.heard value) t (cmd.effect value t) := by
  rcases place with PC | PC | PC | PC
  · have word : code 131 = some (.ordinary (.nand s2 s2 s2)) := code_turn rfl
    obtain rfl := command_eq PC here word
    have flips := computes (.ordinary (.nand s2 s2 s2)) value zero PC (by decide) s2
      (by decide) rfl rfl rfl
    apply Advances.keeps _ (by rw [flips.MEM]) (by rw [flips.PC, PC]; decide) rfl
    have same := wrap_complement (t.REGS s0) (t.REGS s2) (words.registers s2)
    unfold Processor.phase
    rw [flips.PC, flips.REGS, PC, Function.update_of_ne (by decide), Function.update_self]
    exact congrArg Phase.ranging same
  · have word : code 132 = some (.ordinary (.addi s2 s2 1)) := code_turn rfl
    obtain rfl := command_eq PC here word
    have negates := computes (.ordinary (.addi s2 s2 1)) value zero PC (by decide) s2
      (by decide) rfl rfl rfl
    apply Advances.keeps _ (by rw [negates.MEM]) (by rw [negates.PC, PC]; decide) rfl
    have same : wrap (t.REGS s0 + wrap (t.REGS s2 + 1)) = wrap (t.REGS s0 + t.REGS s2 + 1) := by
      unfold wrap
      omega
    simpa +decide [Processor.phase, negates.PC, negates.REGS, PC, stage, Stage.phase] using same
  · have word : code 133 = some (.ordinary (.add s1 s0 s2)) := code_turn rfl
    obtain rfl := command_eq PC here word
    have adds := computes (.ordinary (.add s1 s0 s2)) value zero PC (by decide) s1
      (by decide) rfl rfl rfl
    apply Advances.keeps _ (by rw [adds.MEM]) (by rw [adds.PC, PC]; decide) rfl
    simp +decide [Processor.phase, adds.PC, adds.REGS, PC, stage, Stage.phase]
  · have word : code 136 = some (.ordinary (.sw s1 s0 0)) := code_turn rfl
    obtain rfl := command_eq PC here word
    obtain ⟨PC', REGS', MEM'⟩ := handles.stores zero (a := 0xFFFE) PC s1 s0 (facts_turn rfl)
      (by decide) (by decide) value
    have now : t.phase = .ranging (t.REGS s1) := by simp [Processor.phase, PC, stage, Stage.phase]
    have after : ((Command.ordinary (.sw s1 s0 0)).effect value t).phase = .idle := by
      simp [Processor.phase, PC', stage, Stage.phase]
    apply Advances.moves
    rw [now, after, MEM', cells_range]
    exact .span _ _

/-- The branches that only lead on. -/
theorem Handles.leads (zero : t.REGS 0 = 0) (here : code t.PC = some cmd) (value : Nat)
    (place : t.PC = 137 ∨ t.PC = 147 ∨ t.PC = 157) :
    Advances (cmd.heard value) t (cmd.effect value t) := by
  obtain ⟨offset, pc, there, PC, word, target, same, later⟩ : ∃ offset pc there, t.PC = pc ∧
      code pc = some (.ordinary (.beq Register.zero Register.zero offset)) ∧
      wrap (pc + 1 + offset) = there ∧
      (∀ x y z, (stage there).phase x y z = (stage pc).phase x y z) ∧ order there < order pc := by
    rcases place with PC | PC | PC
    · exact ⟨20, 137, 158, PC, code_turn rfl, by decide, fun _ _ _ => rfl, by decide⟩
    · exact ⟨-23, 147, 125, PC, code_turn rfl, by decide, fun _ _ _ => rfl, by decide⟩
    · exact ⟨-33, 157, 125, PC, code_turn rfl, by decide, fun _ _ _ => rfl, by decide⟩
  obtain rfl := command_eq PC here word
  obtain ⟨PC', REGS', MEM'⟩ := branch_effect zero PC Register.zero Register.zero _ _ (by omega)
    target value
  rw [if_pos rfl] at PC'
  apply Advances.keeps _ (by rw [MEM']) (by rw [PC', PC]; exact later) rfl
  unfold Processor.phase
  rw [PC', REGS', PC]
  exact same _ _ _

/-- The branches where a value has been seen before. -/
theorem Handles.sees (zero : t.REGS 0 = 0) (here : code t.PC = some cmd) (value : Nat)
    (place : t.PC = 144 ∨ t.PC = 154) : Advances (cmd.heard value) t (cmd.effect value t) := by
  obtain ⟨offset, pc, PC, word, target, other, same, later⟩ : ∃ offset pc, t.PC = pc ∧
      code pc = some (.ordinary (.beq s0 s2 offset)) ∧ wrap (pc + 1 + offset) = 125 ∧
      (∀ x y z, x ≠ z → (stage (pc + 1)).phase x y z = (stage pc).phase x y z) ∧
      (∀ x y z, x = z → (stage 125).phase x y z = (stage pc).phase x y z) ∧
      order (pc + 1) < order pc ∧ order 125 < order pc := by
    rcases place with PC | PC
    · exact ⟨-20, 144, PC, code_turn rfl, by decide, fun _ _ _ other => (if_neg other).symm,
        fun _ _ _ same => (if_pos same).symm, by decide⟩
    · exact ⟨-30, 154, PC, code_turn rfl, by decide, fun _ _ _ other => (if_neg other).symm,
        fun _ _ _ same => (if_pos same).symm, by decide⟩
  obtain rfl := command_eq PC here word
  obtain ⟨PC', REGS', MEM'⟩ := branch_effect zero PC s0 s2 _ _ (by omega) target value
  by_cases equal : t.REGS s0 = t.REGS s2
  · rw [if_pos equal] at PC'
    apply Advances.keeps _ (by rw [MEM']) (by rw [PC', PC]; exact later.2) rfl
    unfold Processor.phase
    rw [PC', REGS', PC]
    exact same _ _ _ equal
  · rw [if_neg equal] at PC'
    apply Advances.keeps _ (by rw [MEM']) (by rw [PC', PC]; exact later.1) rfl
    unfold Processor.phase
    rw [PC', REGS', PC]
    exact other _ _ _ equal

/-- Each command of a handler keeps its phase or makes a step of the phases. -/
theorem Handles.advances (handles : Handles got t.MEM c t) (zero : t.REGS 0 = 0)
    (loaded : Loaded t.MEM) (words : Words t) (low : 175 ≤ t.REGS sp)
    (high : Shape.Sheltered (c.REGS sp)) (here : code t.PC = some cmd) (more : cmd ≠ .reti)
    (value : Nat) : Advances (cmd.heard value) t (cmd.effect value t) := by
  have place : Stays t.PC = true ∨ t.PC ∈ turning := by
    obtain ⟨sh, along, _⟩ := handles
    have check := List.all_eq_true.mp places_checked _ (Tables.mem_of_lookup along)
    simp only [Bool.or_eq_true, decide_eq_true_eq] at check
    obtain (stays | returns) | turns := check
    · exact Or.inl stays
    · rw [here] at returns
      exact absurd (Option.some.inj returns) more
    · exact Or.inr turns
  obtain stays | turns := place
  · obtain ⟨phase, same, PC, silent⟩ := handles.keeps zero loaded low high here more stays value
    refine .keeps phase same ?_ silent
    have straight : t.PC ≠ 137 ∧ t.PC ≠ 157 := by
      constructor
      all_goals
        intro PC
        rw [PC] at stays
        exact absurd stays (by decide +kernel)
    rw [PC]
    exact order_succ (code_lt here) straight.1 straight.2
  · simp only [turning, List.mem_cons, List.not_mem_nil, or_false] at turns
    have case : (t.PC = 89 ∨ t.PC = 90 ∨ t.PC = 91) ∨ (t.PC = 114 ∨ t.PC = 117) ∨
      (t.PC = 119 ∨ t.PC = 156) ∨
        (t.PC = 124 ∨ t.PC = 146) ∨ (t.PC = 140 ∨ t.PC = 150) ∨ (t.PC = 122 ∨ t.PC = 143) ∨
        t.PC = 153 ∨
        (t.PC = 127 ∨ t.PC = 130) ∨ (t.PC = 131 ∨ t.PC = 132 ∨ t.PC = 133 ∨ t.PC = 136) ∨
        (t.PC = 137 ∨ t.PC = 147 ∨ t.PC = 157) ∨ (t.PC = 144 ∨ t.PC = 154) := by
      omega
    rcases case with at' | at' | at' | at' | at' | at' | at' | at' | at' | at' | at'
    · exact handles.timer zero here value at'
    · exact handles.reads zero here value at'
    · exact handles.greater zero words here value at'
    · exact handles.smaller zero words here value at'
    · exact handles.settles zero here value at'
    · exact handles.weighs zero here value at'
    · exact handles.rechecks zero words here value at'
    · exact handles.spans zero here value at'
    · exact handles.subtracts zero words here value at'
    · exact Handles.leads zero here value at'
    · exact Handles.sees zero here value at'

end

end SystemsProjects.Irq
