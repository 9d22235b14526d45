import SystemsProjects.Irq.Facts
import SystemsProjects.Lib.Tables
import Mathlib.Data.Fintype.Basic

/-!
# The frames of the handlers

At each command of a handler it is fixed how deep its frame is, which registers are saved where,
and which registers may differ from those of the program that it interrupted. The table of these
shapes is checked against the code.
-/

namespace SystemsProjects.Irq

open Lc Register

/-- The frame of a handler at one of its commands. Slot `k` is the word `k` below the stack pointer
of the interrupted program. -/
structure Shape where
  pushed : Nat
  saved : Nat → Option (Fin 16)
  changed : Fin 16 → Bool
  facts : Facts
  enabled : Bool
  linked : Bool

namespace Shape

/-- The frame when the interrupt has been taken. -/
def entry : Shape where
  pushed := 0
  saved _ := none
  changed _ := false
  facts := Facts.base
  enabled := false
  linked := true

/-- A register that the handler may use after it has saved it. -/
def change (sh : Shape) (dr : Fin 16) : Option Shape :=
  if dr = zero ∨ dr = k0 ∨ dr = sp then none
  else some { sh with changed := Function.update sh.changed dr true }

/-- The slot that is `offset` above the stack pointer. -/
def slot (sh : Shape) (offset : Int) : Option Nat :=
  if 0 ≤ offset ∧ offset < sh.pushed then some (sh.pushed - offset.toNat) else none

/-- The register still holds what the interrupted program has in it; `$k0` holds the address to
return to. -/
def intact (sh : Shape) (r : Fin 16) : Bool :=
  if r = k0 then sh.linked else r != sp && !sh.changed r

/-- Pushing and popping. What was popped is not relied on again. -/
def move (sh : Shape) (imm : Int) : Option Shape :=
  if -8 ≤ imm ∧ imm ≤ sh.pushed then
    some { sh with
      pushed := (sh.pushed - imm).toNat
      saved := fun k => if k ≤ sh.pushed then sh.saved k else none }
  else none

/-- A register is saved in a slot while it is intact. -/
def save (sh : Shape) (sr : Fin 16) (offset : Int) : Option Shape :=
  match sh.slot offset with
  | some k => if sh.intact sr then some { sh with saved := Function.update sh.saved k (some sr) }
    else none
  | none => none

/-- Any other store goes to a cell that the handlers share. -/
def share (sh : Shape) (r : Fin 16) (offset : Int) : Option Shape :=
  match sh.facts.target r offset with
  | some a => if Shared a then some sh else none
  | none => none

/-- A register is loaded from its own slot. -/
def restore (sh : Shape) (dr : Fin 16) (offset : Int) : Option Shape :=
  match sh.slot offset with
  | some k =>
    if sh.saved k = some dr ∧ dr ≠ zero ∧ dr ≠ sp then
      if dr = k0 then if sh.enabled then none else some { sh with linked := true }
      else some { sh with changed := Function.update sh.changed dr false }
    else none
  | none => none

/-- The frame after a command, if the command treats the frame properly. -/
def after (sh : Shape) (pc : Nat) (c : Command) : Option Shape :=
  let next := { sh with facts := sh.facts.after pc c }
  match c with
  | .ordinary (.addi dr sr1 imm) =>
    if dr = sp then if sr1 = sp then next.move imm else none else next.change dr
  | .ordinary (.sw sr r offset) => if r = sp then next.save sr offset else next.share r offset
  | .ordinary (.lw dr r offset) => if r = sp then next.restore dr offset else next.change dr
  | .ordinary (.add dr _ _) | .ordinary (.nand dr _ _) | .ordinary (.min dr _ _)
  | .ordinary (.max dr _ _) | .ordinary (.lea dr _) | .input dr _ => next.change dr
  | .ordinary (.beq _ _ _) => some next
  | .ei => some { next with enabled := true, linked := false }
  | .di => some { next with enabled := false }
  | _ => none

/-- Where the handler goes on, with what it learns from a branch. -/
def successors (sh : Shape) (pc : Nat) : Command → List (Nat × Facts)
  | .ordinary (.beq sr1 sr2 offset) =>
    let there := wrap (pc + 1 + offset)
    if sr1 = sr2 then [(there, sh.facts)]
    else [(there, sh.facts.learn sr1 (sh.facts sr2)), (pc + 1, sh.facts)]
  | _ => [(pc + 1, sh.facts)]

/-- What holds in the first shape holds in the second. -/
def Entails (sh weaker : Shape) : Prop :=
  sh.pushed = weaker.pushed ∧ sh.enabled = weaker.enabled ∧ (weaker.linked → sh.linked) ∧
  (∀ k < 8, weaker.saved k ≠ none → sh.saved k = weaker.saved k) ∧
  (∀ r, sh.changed r → weaker.changed r) ∧
  ∀ r, weaker.facts r ≠ none → sh.facts r = weaker.facts r

instance (sh weaker : Shape) : Decidable (sh.Entails weaker) := inferInstanceAs (Decidable (_ ∧ _))

/-- The shapes along commands that follow each other. -/
def trace (pc : Nat) (sh : Shape) : Nat → List (Nat × Shape)
  | 0 => []
  | length + 1 => (pc, sh) :: match (code pc).bind (sh.after pc) with
    | some next => trace (pc + 1) next length
    | none => []

/-- The frame in the device code of the distance tracker. -/
def body (facts : Facts) : Shape where
  pushed := 7
  saved := fun
    | 1 => some k0
    | 2 => some t2
    | 3 => some t1
    | 4 => some t0
    | 5 => some s2
    | 6 => some s1
    | 7 => some s0
    | _ => none
  changed r := r = s0 || r = s1 || r = s2
  facts := facts
  enabled := true
  linked := false

/-- The value read is in `$s0`. -/
def reading : Facts := Facts.base.learn s0 (some (.got .device))

/-- The value read is in `$s0` and `$s1`. -/
def chosen : Facts := reading.learn s1 (some (.got .device))

/-- The shape at each command of a handler. -/
def table : List (Nat × Shape) :=
  trace (address .timer_handler) entry 26 ++ trace (address .distance_tracker_handler) entry 22 ++
  trace (address .RVAL) (body Facts.base) 13 ++ trace (address .MAX) (body chosen) 10 ++
  trace (address .MIN) (body chosen) 10 ++ trace (address .TEARDOWN) (body Facts.base) 12

/-- The shape at a command. -/
def along (pc : Nat) : Option Shape := table.lookup pc

/-- At its end a handler has given everything back; before that it stays in the table. -/
def checked (pc : Nat) (sh : Shape) : Bool :=
  match code pc with
  | some .reti => decide (sh.pushed = 0 ∧ sh.linked ∧ ∀ r, sh.changed r = false)
  | some c =>
    match sh.after pc c with
    | some next => (next.successors pc c).all fun edge =>
      (along edge.1).any fun weaker =>
        decide ({ next with facts := edge.2 }.Entails weaker ∧ weaker.pushed < 8)
    | none => false
  | none => false

theorem table_checked : table.all (fun entry => checked entry.1 entry.2) = true := by decide +kernel

/-- While interrupts are enabled nothing is known of `$k0`. -/
theorem table_linked :
    table.all (fun entry =>
      !entry.2.enabled || (!entry.2.linked && decide (entry.2.facts k0 = none))) = true := by
  decide +kernel

theorem table_small : table.all (fun entry => decide (entry.2.pushed < 8)) = true := by
  decide +kernel

theorem along_small {pc : Nat} {sh : Shape} (shape : along pc = some sh) : sh.pushed < 8 :=
  of_decide_eq_true (List.all_eq_true.mp table_small _ (Tables.mem_of_lookup shape))

/-- The seven words below this address lie in the memory, and none of them is a cell of the
handlers. -/
def Sheltered (top : Nat) : Prop := top ≤ 2 ^ 24 ∧ (top ≤ 0xFFFC ∨ 0xFFFF + 8 ≤ top)

theorem sheltered_low {top : Nat} (low : top ≤ 0xA000) : Sheltered top := ⟨by omega, by omega⟩

/-! ## What a shape says -/

/-- What the shape says of the handler `t` that interrupted `c`. -/
structure Holds (sh : Shape) (got : Source → Nat) (mem : Nat → Nat) (c t : Processor) : Prop where
  stack : t.REGS sp + sh.pushed = c.REGS sp
  slots : ∀ k r, 0 < k → k ≤ sh.pushed → sh.saved k = some r →
    mem (c.REGS sp - k) = if r = k0 then c.PC else c.REGS r
  kept : ∀ r, r ≠ k0 → r ≠ sp → sh.changed r = false → t.REGS r = c.REGS r
  facts : sh.facts.Hold got t.REGS
  linked : sh.linked = true → t.REGS k0 = c.PC
  enabled : t.IE = sh.enabled

variable {sh weaker next : Shape} {got : Source → Nat} {mem : Nat → Nat} {c t : Processor}
  {cmd : Command} {value : Nat}

theorem Holds.intact (holds : sh.Holds got mem c t) {r : Fin 16} (same : sh.intact r = true) :
    t.REGS r = if r = k0 then c.PC else c.REGS r := by
  unfold Shape.intact at same
  split at same
  · next link =>
    rw [if_pos link, link]
    exact holds.linked same
  · next other =>
    rw [if_neg other]
    obtain ⟨own, kept⟩ := Bool.and_eq_true_iff.mp same
    exact holds.kept r other (by simpa using own) (by simpa using kept)

/-- A handler that is interrupted itself keeps its frame while nothing is written there. -/
theorem Holds.frame (holds : sh.Holds got mem c t) {mem' : Nat → Nat}
    (same : ∀ a, t.REGS sp ≤ a → a < c.REGS sp → mem' a = mem a) : sh.Holds got mem' c t where
  stack := holds.stack
  slots k r positive most here := by
    have stack := holds.stack
    rw [same _ (by omega) (by omega)]
    exact holds.slots k r positive most here
  kept := holds.kept
  facts := holds.facts
  linked := holds.linked
  enabled := holds.enabled

theorem Holds.weaken (holds : sh.Holds got mem c t) (entails : sh.Entails weaker)
    (small : weaker.pushed < 8) : weaker.Holds got mem c t := by
  obtain ⟨pushed, enabled, linked, saved, changed, facts⟩ := entails
  constructor
  · rw [← pushed]
    exact holds.stack
  · intro k r positive most here
    have same := saved k (by omega) (by rw [here]; exact Option.some_ne_none r)
    exact holds.slots k r positive (by omega) (by rw [same, here])
  · intro r link own kept
    apply holds.kept r link own
    by_contra more
    rw [changed r (by simpa using more)] at kept
    cases kept
  · intro r s known
    have same := facts r (by rw [known]; exact Option.some_ne_none s)
    exact holds.facts r s (by rw [same, known])
  · intro link
    exact holds.linked (linked link)
  · rw [holds.enabled, enabled]

theorem slot_eq {offset : Int} {k : Nat} (here : sh.slot offset = some k) :
    0 < k ∧ k ≤ sh.pushed ∧ (sh.pushed : Int) - k = offset := by
  unfold slot at here
  split at here
  · cases Option.some.inj here
    omega
  · cases here

/-- The address of a slot. -/
theorem Holds.address (holds : sh.Holds got mem c t) (high : Sheltered (c.REGS sp)) {offset : Int}
    {k : Nat} (here : sh.slot offset = some k) : wrap (t.REGS sp + offset) = c.REGS sp - k := by
  have stack := holds.stack
  have top := high.1
  obtain ⟨positive, most, place⟩ := slot_eq here
  unfold wrap
  omega

/-- A register other than the one that is written. -/
theorem written_other {REGS : Fin 16 → Nat} (zero : REGS 0 = 0) {r dr : Fin 16} (other : r ≠ dr)
    (v : Nat) :
    Function.update (Function.update REGS dr v) 0 0 r = REGS r := by
  by_cases first : r = 0
  · rw [first, Function.update_self, zero]
  · rw [Function.update_of_ne first, Function.update_of_ne other]

theorem written_same {REGS : Fin 16 → Nat} {dr : Fin 16} (nonzero : dr ≠ 0) (v : Nat) :
    Function.update (Function.update REGS dr v) 0 0 dr = v := by
  rw [Function.update_of_ne nonzero, Function.update_self]

/-- A command that only gives a register a new value. -/
theorem Holds.change (holds : sh.Holds got mem c t) {dr : Fin 16} {facts : Facts}
    {got' : Source → Nat} {t' : Processor} {v : Nat}
    (change : { sh with facts := facts }.change dr = some next)
      (REGS : t'.REGS = Function.update (Function.update t.REGS dr v) 0 0) (zero : t.REGS 0 = 0)
    (IE : t'.IE = t.IE) (learnt : facts.Hold got' t'.REGS) : next.Holds got' mem c t' := by
  unfold Shape.change at change
  split at change
  · cases change
  · next free =>
    cases Option.some.inj change
    simp only [not_or] at free
    have same : ∀ r, r ≠ dr → t'.REGS r = t.REGS r := by
      intro r other
      rw [REGS, written_other zero other]
    constructor
    · rw [same sp (Ne.symm free.2.2)]
      exact holds.stack
    · exact holds.slots
    · intro r link own kept
      replace kept : Function.update sh.changed dr true r = false := kept
      by_cases here : r = dr
      · rw [here, Function.update_self] at kept
        cases kept
      · rw [Function.update_of_ne here] at kept
        rw [same r here]
        exact holds.kept r link own kept
    · exact learnt
    · intro link
      rw [same k0 (Ne.symm free.2.1)]
      exact holds.linked link
    · rw [IE]
      exact holds.enabled

theorem beq_same (zero : t.REGS 0 = 0) (sr1 sr2 : Fin 16) (offset : Int) (value : Nat) :
    ((Command.ordinary (.beq sr1 sr2 offset)).effect value t).REGS = t.REGS ∧
    ((Command.ordinary (.beq sr1 sr2 offset)).effect value t).MEM = t.MEM := by
  constructor
  · show Function.update (Instr.act _ t.toMachine).REGS 0 0 = _
    rw [Facts.beq_REGS, ← zero, Function.update_eq_self]
  · show (Instr.act _ t.toMachine).MEM = _
    simp only [Instr.act, apply_ite Machine.MEM, Machine.setPC_MEM, ite_self]

/-- A command that changes no register. -/
theorem Holds.relearn (holds : sh.Holds got mem c t) {t' : Processor} (REGS : t'.REGS = t.REGS)
    (IE : t'.IE = t.IE) {facts : Facts} {got' : Source → Nat} (learnt : facts.Hold got' t'.REGS) :
    { sh with facts := facts }.Holds got' mem c t' where
  stack := by
    rw [REGS]
    exact holds.stack
  slots := holds.slots
  kept := by
    rw [REGS]
    exact holds.kept
  facts := learnt
  linked := by
    rw [REGS]
    exact holds.linked
  enabled := by
    rw [IE]
    exact holds.enabled

theorem Holds.move (holds : sh.Holds got mem c t) (low : 8 ≤ t.REGS sp)
    (high : Sheltered (c.REGS sp)) {imm : Int} {facts : Facts} {got' : Source → Nat}
    {t' : Processor} (move : { sh with facts := facts }.move imm = some next)
    (REGS : t'.REGS = Function.update (Function.update t.REGS sp (wrap (t.REGS sp + imm))) 0 0)
    (zero : t.REGS 0 = 0) (IE : t'.IE = t.IE) (learnt : facts.Hold got' t'.REGS) :
    next.Holds got' mem c t' := by
  have stack := holds.stack
  have top := high.1
  unfold Shape.move at move
  split at move
  · next range =>
    cases Option.some.inj move
    have moved : wrap (t.REGS sp + imm) + (sh.pushed - imm).toNat = c.REGS sp := by
      obtain ⟨least, most⟩ : -8 ≤ imm ∧ imm ≤ sh.pushed := range
      unfold wrap
      omega
    constructor
    · rw [REGS, written_same (by decide)]
      exact moved
    · intro k r positive _ here
      dsimp only at here
      split at here
      · next most => exact holds.slots k r positive most here
      · cases here
    · intro r link own kept
      rw [REGS, written_other zero own]
      exact holds.kept r link own kept
    · exact learnt
    · intro link
      rw [REGS, written_other zero (by decide)]
      exact holds.linked link
    · rw [IE]
      exact holds.enabled
  · cases move

theorem Holds.save (holds : sh.Holds got mem c t) (high : Sheltered (c.REGS sp)) {sr : Fin 16}
    {offset : Int} (save : sh.save sr offset = some next) :
    next.Holds got (Function.update mem (wrap (t.REGS sp + offset)) (t.REGS sr)) c t := by
  have stack := holds.stack
  unfold Shape.save at save
  split at save
  · next k here =>
    obtain ⟨positive, most, _⟩ := slot_eq here
    rw [holds.address high here]
    split at save
    · next same =>
      cases Option.some.inj save
      constructor
      · exact stack
      · intro k' r positive' most' here
        replace here : Function.update sh.saved k (some sr) k' = some r := here
        replace most' : k' ≤ sh.pushed := most'
        by_cases own : k' = k
        · subst own
          rw [Function.update_self] at here ⊢
          cases Option.some.inj here
          exact holds.intact same
        · rw [Function.update_of_ne own] at here
          rw [Function.update_of_ne (by omega)]
          exact holds.slots k' r positive' most' here
      · exact holds.kept
      · exact holds.facts
      · exact holds.linked
      · exact holds.enabled
    · cases save
  · cases save

theorem Holds.share (holds : sh.Holds got mem c t) (high : Sheltered (c.REGS sp))
    (small : sh.pushed < 8) {sr r : Fin 16} {offset : Int}
    (share : sh.share r offset = some next) :
    next.Holds got (Function.update mem (wrap (t.REGS r + offset)) (t.REGS sr)) c t := by
  unfold Shape.share at share
  split at share
  · next a known =>
    split at share
    · next shared =>
      cases Option.some.inj share
      rw [holds.facts.target known]
      apply holds.frame
      intro b above below
      have stack := holds.stack
      obtain ⟨_, apart⟩ := high
      obtain ⟨least, most⟩ := shared
      exact Function.update_of_ne (by omega) ..
    · cases share
  · cases share

theorem Holds.restore (holds : sh.Holds got t.MEM c t) (high : Sheltered (c.REGS sp)) {dr : Fin 16}
    {offset : Int} {facts : Facts} {got' : Source → Nat} {t' : Processor}
    (restore : { sh with facts := facts }.restore dr offset = some next)
    (REGS : t'.REGS =
      Function.update (Function.update t.REGS dr (t.accessMem (wrap (t.REGS sp + offset)))) 0 0)
    (zero : t.REGS 0 = 0) (IE : t'.IE = t.IE) (learnt : facts.Hold got' t'.REGS) :
    next.Holds got' t.MEM c t' := by
  have stack := holds.stack
  have top := high.1
  unfold Shape.restore at restore
  split at restore
  · next k here =>
    obtain ⟨positive, most, _⟩ := slot_eq here
    split at restore
    · next place =>
      obtain ⟨saved, nonzero, own⟩ := place
      have word : t.accessMem (wrap (t.REGS sp + offset)) = if dr =
          k0 then c.PC else c.REGS dr := by
        rw [holds.address high here, Facts.accessMem_low (by omega)]
        exact holds.slots k dr positive most saved
      have others : ∀ r, r ≠ dr → t'.REGS r = t.REGS r := by
        intro r other
        rw [REGS, written_other zero other]
      have same : t'.REGS dr = if dr = k0 then c.PC else c.REGS dr := by
        rw [REGS, written_same nonzero, word]
      have stack' : t'.REGS sp + sh.pushed = c.REGS sp := by
        rw [others sp own.symm]
        exact stack
      have enabled : t'.IE = sh.enabled := by
        rw [IE]
        exact holds.enabled
      split at restore
      · next link =>
        split at restore
        · cases restore
        · cases Option.some.inj restore
          rw [if_pos link, link] at same
          rw [link] at others
          have kept : ∀ r, r ≠ k0 → r ≠ sp → sh.changed r = false → t'.REGS r = c.REGS r := by
            intro r link' own' kept
            rw [others r link']
            exact holds.kept r link' own' kept
          exact ⟨stack', holds.slots, kept, learnt, fun _ => same, enabled⟩
      · next link =>
        cases Option.some.inj restore
        rw [if_neg link] at same
        have kept : ∀ r, r ≠ k0 → r ≠ sp → Function.update sh.changed dr false r = false →
            t'.REGS r = c.REGS r := by
          intro r link' own' kept
          by_cases here : r = dr
          · rw [here, same]
          · rw [Function.update_of_ne here] at kept
            rw [others r here]
            exact holds.kept r link' own' kept
        have linked : sh.linked = true → t'.REGS k0 = c.PC := by
          intro linked
          rw [others k0 (Ne.symm link)]
          exact holds.linked linked
        exact ⟨stack', holds.slots, kept, learnt, linked, enabled⟩
    · cases restore
  · cases restore

/-- The shape after a command holds after its effect. -/
theorem Holds.after (holds : sh.Holds got t.MEM c t) (zero : t.REGS 0 = 0) (loaded : Loaded t.MEM)
    (low : 175 ≤ t.REGS sp) (high : Sheltered (c.REGS sp)) (small : sh.pushed < 8)
    (after : sh.after t.PC cmd = some next) (value : Nat) :
    next.Holds (sh.facts.gain got t value cmd) (cmd.effect value t).MEM c (cmd.effect value t) := by
  have learnt := holds.facts.after zero loaded cmd value
  cases cmd with
  | reti => cases after
  | ei =>
    cases Option.some.inj after
    exact ⟨holds.stack, holds.slots, holds.kept, learnt, nofun, rfl⟩
  | di =>
    cases Option.some.inj after
    exact ⟨holds.stack, holds.slots, holds.kept, learnt, holds.linked, rfl⟩
  | input dr addr => exact holds.change after rfl zero rfl learnt
  | ordinary i =>
    cases i with
    | halt | inc | noop | jalr | blt => cases after
    | add dr | nand dr | min dr | max dr | lea dr => exact holds.change after rfl zero rfl learnt
    | beq sr1 sr2 offset =>
      cases Option.some.inj after
      obtain ⟨REGS, MEM⟩ := beq_same zero sr1 sr2 offset value
      rw [MEM]
      exact holds.relearn REGS rfl learnt
    | addi dr sr1 imm =>
      replace after : (if dr = sp then if sr1 = sp then _ else none else _) = some next := after
      split at after
      · next own =>
        split at after
        · next from' =>
          subst own from'
          exact holds.move (by omega) high after rfl zero rfl learnt
        · cases after
      · exact holds.change after rfl zero rfl learnt
    | sw sr r offset =>
      have REGS : ((Command.ordinary (.sw sr r offset)).effect value t).REGS = t.REGS := by
        show Function.update t.REGS 0 0 = _
        rw [← zero, Function.update_eq_self]
      replace after : (if r = sp then sh.save sr offset else sh.share r offset) = some next := after
      have kept : next.Holds got
          (Function.update t.MEM (wrap (t.REGS r + offset)) (t.REGS sr)) c t := by
        split at after
        · next own =>
          subst own
          exact holds.save high after
        · exact holds.share high small after
      exact kept.relearn REGS rfl (REGS ▸ kept.facts)
    | lw dr r offset =>
      replace after : (if r = sp then _ else _) = some next := after
      have REGS := Facts.lw_REGS t dr r offset value
      split at after
      · next own =>
        subst own
        exact holds.restore high after REGS zero rfl learnt
      · exact holds.change after REGS zero rfl learnt

/-- A handler writes to its own frame and to the shared cells. -/
theorem Holds.writes (holds : sh.Holds got t.MEM c t) (zero : t.REGS 0 = 0)
    (high : Sheltered (c.REGS sp)) (after : sh.after t.PC cmd = some next) (value : Nat) {a : Nat}
    (outside : a < t.REGS sp ∨ c.REGS sp ≤ a) (own : ¬Shared a) :
    (cmd.effect value t).MEM a = t.MEM a := by
  have stack := holds.stack
  cases cmd with
  | ordinary i =>
    cases i with
    | beq sr1 sr2 offset => rw [(beq_same zero sr1 sr2 offset value).2]
    | sw sr r offset =>
      have target : wrap (t.REGS r + offset) ≠ a := by
        replace after : (if r = sp then sh.save sr offset else sh.share r offset) = some next :=
          after
        split at after
        · next base =>
          subst base
          unfold Shape.save at after
          split at after
          · next k here =>
            obtain ⟨positive, most, _⟩ := slot_eq here
            rw [holds.address high here]
            omega
          · cases after
        · unfold Shape.share at after
          split at after
          · next b known =>
            split at after
            · next shared =>
              rw [holds.facts.target known]
              rintro rfl
              exact own shared
            · cases after
          · cases after
      exact Function.update_of_ne (Ne.symm target) ..
    | halt | inc | noop | jalr | blt => cases after
    | _ => rfl
  | _ => rfl

/-- The next command, unless the command is a jump. -/
theorem effect_PC (low : t.PC < 175) (after : sh.after t.PC cmd = some next)
    (straight : ∀ sr1 sr2 offset, cmd ≠ .ordinary (.beq sr1 sr2 offset)) :
    (cmd.effect value t).PC = t.PC + 1 := by
  have wrapped : wrap (t.PC + 1) = t.PC + 1 := wrap_of_lt (n := t.PC + 1) (by omega)
  cases cmd with
  | reti => cases after
  | ordinary i =>
    cases i with
    | beq sr1 sr2 offset => exact absurd rfl (straight sr1 sr2 offset)
    | halt | inc | noop | jalr | blt => cases after
    | _ => exact wrapped
  | _ => rfl

/-- A handler goes on at one of the successors. -/
theorem Holds.goes (holds : next.Holds got mem c (cmd.effect value t)) (zero : t.REGS 0 = 0)
    (after : sh.after t.PC cmd = some next) (low : t.PC < 175) :
    ∃ facts, ((cmd.effect value t).PC, facts) ∈ next.successors t.PC cmd ∧
      facts.Hold got (cmd.effect value t).REGS := by
  by_cases branch : ∃ sr1 sr2 offset, cmd = .ordinary (.beq sr1 sr2 offset)
  · obtain ⟨sr1, sr2, offset, rfl⟩ := branch
    have REGS := (beq_same zero sr1 sr2 offset value).1
    have wrapped : wrap (t.PC + 1) = t.PC + 1 := wrap_of_lt (n := t.PC + 1) (by omega)
    have PC : ((Command.ordinary (.beq sr1 sr2 offset)).effect value t).PC =
        if t.REGS sr1 = t.REGS sr2 then wrap (t.PC + 1 + offset) else t.PC + 1 := by
      rw [← wrapped]
      show (Instr.act _ t.toMachine).PC = _
      simp only [Instr.act, apply_ite Machine.PC, Machine.setPC_PC]
    by_cases same : sr1 = sr2
    · rw [PC, if_pos (by rw [same])]
      exact ⟨next.facts, by simp [successors, same], holds.facts⟩
    · by_cases equal : t.REGS sr1 = t.REGS sr2
      · rw [PC, if_pos equal]
        have equate := holds.facts.equate
          ((congrFun REGS sr1).trans (equal.trans (congrFun REGS sr2).symm))
        exact ⟨_, by simp [successors, same], equate⟩
      · rw [PC, if_neg equal]
        exact ⟨next.facts, by simp [successors, same], holds.facts⟩
  · simp only [not_exists] at branch
    rw [effect_PC low after branch]
    have only : (t.PC + 1, next.facts) ∈ next.successors t.PC cmd := by
      unfold successors
      split
      · next sr1 sr2 offset => exact absurd rfl (branch sr1 sr2 offset)
      · exact List.mem_singleton_self _
    exact ⟨next.facts, only, holds.facts⟩

end Shape

/-- The handler `t` interrupted `c`, and its frame is as it should be. -/
def Handles (got : Source → Nat) (mem : Nat → Nat) (c t : Processor) : Prop :=
  ∃ sh, Shape.along t.PC = some sh ∧ sh.Holds got mem c t

/-- The processor goes on where the interrupt stopped it. -/
structure Resumes (c p : Processor) : Prop where
  PC : p.PC = c.PC
  REGS : ∀ r, r ≠ k0 → p.REGS r = c.REGS r
  IE : p.IE = true

section

variable {got : Source → Nat} {c t : Processor} {cmd : Command}

/-- A handler is always at one of its commands. -/
theorem Handles.command {mem : Nat → Nat} (handles : Handles got mem c t) :
    ∃ cmd, code t.PC = some cmd := by
  obtain ⟨sh, shape, _⟩ := handles
  have checked := List.all_eq_true.mp Shape.table_checked _ (Tables.mem_of_lookup shape)
  cases here : code t.PC with
  | some cmd => exact ⟨cmd, rfl⟩
  | none =>
    unfold Shape.checked at checked
    dsimp only at checked
    rw [here] at checked
    cases checked

/-- A handler that does not return yet still has its frame after a command. -/
theorem Handles.step (handles : Handles got t.MEM c t) (zero : t.REGS 0 = 0) (loaded : Loaded t.MEM)
    (low : 175 ≤ t.REGS sp) (high : Shape.Sheltered (c.REGS sp)) (here : code t.PC = some cmd)
    (more : cmd ≠ .reti) (value : Nat) :
    ∃ sh next, Shape.along t.PC = some sh ∧ sh.after t.PC cmd = some next ∧
      Handles (sh.facts.gain got t value cmd) (cmd.effect value t).MEM c (cmd.effect value t) ∧
      ∀ a, a < t.REGS sp ∨ c.REGS sp ≤ a → ¬Shared a → (cmd.effect value t).MEM a = t.MEM a := by
  obtain ⟨sh, shape, holds⟩ := handles
  have checked := List.all_eq_true.mp Shape.table_checked _ (Tables.mem_of_lookup shape)
  unfold Shape.checked at checked
  dsimp only at checked
  rw [here] at checked
  split at checked
  · next same => exact absurd (Option.some.inj same) more
  · next c' _ same =>
    cases Option.some.inj same
    split at checked
    · next next after =>
      have small := Shape.along_small shape
      have kept := holds.after zero loaded low high small after value
      obtain ⟨facts, edge, learnt⟩ := kept.goes zero after (code_lt here)
      have edges := List.all_eq_true.mp checked _ edge
      obtain ⟨weaker, found, entails⟩ := (Option.any_eq_true _ _).mp edges
      obtain ⟨entails, small⟩ := of_decide_eq_true entails
      have moved := kept.relearn rfl rfl learnt
      refine ⟨sh, next, shape, after, ⟨weaker, found, moved.weaken entails small⟩, ?_⟩
      intro a outside own
      exact holds.writes zero high after value outside own
    · cases checked
  · cases checked

/-- A handler that was interrupted itself goes on with its frame. -/
theorem Handles.resume {mem : Nat → Nat} {b p : Processor} (handles : Handles got mem b c)
    (on : c.IE = true) (resumes : Resumes c p) : Handles got mem b p := by
  obtain ⟨sh, shape, holds⟩ := handles
  have check := List.all_eq_true.mp Shape.table_linked _ (Tables.mem_of_lookup shape)
  rw [← holds.enabled, on, Bool.not_true, Bool.false_or] at check
  obtain ⟨unlinked, unknown⟩ := Bool.and_eq_true_iff.mp check
  replace unlinked : sh.linked = false := by simpa using unlinked
  replace unknown : sh.facts k0 = none := of_decide_eq_true unknown
  refine ⟨sh, by rw [resumes.PC]; exact shape, ?_⟩
  constructor
  · rw [resumes.REGS sp (by decide)]
    exact holds.stack
  · exact holds.slots
  · intro r link own kept
    rw [resumes.REGS r link]
    exact holds.kept r link own kept
  · intro r s known
    have other : r ≠ k0 := by
      rintro rfl
      rw [unknown] at known
      cases known
    rw [resumes.REGS r other]
    exact holds.facts r s known
  · rw [unlinked]
    nofun
  · rw [resumes.IE, ← on, holds.enabled]

/-- A handler that returns has given everything back. -/
theorem Handles.return (handles : Handles got t.MEM c t) (here : code t.PC = some .reti)
    (value : Nat) :
    Resumes c (Command.reti.effect value t) := by
  obtain ⟨sh, shape, holds⟩ := handles
  have checked := List.all_eq_true.mp Shape.table_checked _ (Tables.mem_of_lookup shape)
  unfold Shape.checked at checked
  dsimp only at checked
  rw [here] at checked
  obtain ⟨pushed, linked, changed⟩ := of_decide_eq_true checked
  constructor
  · exact holds.linked linked
  · intro r link
    by_cases own : r = sp
    · have stack := holds.stack
      rw [own]
      show t.REGS sp = _
      omega
    · exact holds.kept r link own (changed r)
  · rfl

end

end SystemsProjects.Irq
