import SystemsProjects.Irq.Program
import Mathlib.Logic.Function.Basic
import Mathlib.Data.Fin.VecNotation

/-!
# The program as it sees itself

A program that is interrupted cannot rely on `$k0`, on the words below its stack pointer or on the
cells of the handlers. Its view of the machine leaves these out and moves one instruction at a
time, as if nothing happened in between.
-/

namespace SystemsProjects.Irq

open Lc Register

/-- Where a program and its stack lie. -/
structure Layout where
  code : Nat → Option Command
  /-- The image ends here. -/
  size : Nat
  /-- The stack stays between these addresses. -/
  floor : Nat
  top : Nat
  /-- The words of the image that the program may write at any time. -/
  own : Nat → Bool
  /-- The cells of the handlers. -/
  shared : Nat → Bool
  vector : Fin 2 → Nat

/-- What a program knows of the machine. -/
structure View where
  PC : Nat
  REGS : Fin 16 → Nat
  MEM : Nat → Option Nat
  IE : Bool

/-- The registers that an instruction names. -/
def registers : Instr → List (Fin 16)
  | .add dr sr1 sr2 | .nand dr sr1 sr2 | .min dr sr1 sr2 | .max dr sr1 sr2 => [dr, sr1, sr2]
  | .addi r r' _ | .lw r r' _ | .sw r r' _ | .beq r r' _ | .blt r r' _ | .jalr r r' => [r, r']
  | .lea dr _ | .inc dr => [dr]
  | .halt | .noop => []

namespace View

/-- A machine that agrees with the view. -/
def machine (v : View) : Machine where
  PC := v.PC
  MEM a := (v.MEM a).getD 0
  REGS := v.REGS
  HALTED := false

/-- What lies below the stack pointer is not relied on. -/
def forget (L : Layout) (sp : Nat) (mem : Nat → Option Nat) (a : Nat) : Option Nat :=
  if L.size ≤ a ∧ a < sp then none else mem a

/-- The stack pointer has room on both sides. -/
def Room (L : Layout) (sp : Nat) : Prop := L.floor ≤ sp ∧ sp ≤ L.top

instance (L : Layout) (sp : Nat) : Decidable (Room L sp) := inferInstanceAs (Decidable (_ ∧ _))

/-- The view after an instruction that leaves the machine and the memory like this. -/
def commit (L : Layout) (v : View) (s : Machine) (mem : Nat → Option Nat) : Option View :=
  if Room L (s.REGS sp) then
    some { PC := s.PC, REGS := s.REGS, MEM := forget L (s.REGS sp) mem, IE := v.IE }
  else none

/-- The program may write this word. -/
def Writable (L : Layout) (v : View) (a : Nat) : Prop :=
  L.own a = true ∨ (L.size ≤ a ∧ v.REGS sp ≤ a) ∨ (a < 2 ∧ v.IE = false)

instance (L : Layout) (v : View) (a : Nat) : Decidable (Writable L v a) :=
  inferInstanceAs (Decidable (_ ∨ _))

/-- An instruction that relies on nothing that an interrupt may change. -/
def perform (L : Layout) (v : View) (i : Instr) : Option View :=
  let s := i.effect v.machine
  match i with
  | .lw _ base offset =>
    let a := wrap (v.REGS base + offset)
    if a < 2 ^ 24 ∧ (v.MEM a).isSome then v.commit L s v.MEM else none
  | .sw sr base offset =>
    let a := wrap (v.REGS base + offset)
    if L.shared a then if v.IE then none else v.commit L s v.MEM
    else if Writable L v a then v.commit L s (Function.update v.MEM a (some (v.REGS sr)))
    else none
  | .halt => none
  | _ => v.commit L s v.MEM

/-- Interrupts are enabled when the handlers are in place. -/
def enable (L : Layout) (v : View) : Option View :=
  if ∀ device : Fin 2, v.MEM device = some (L.vector device) then
    some { v with PC := v.PC + 1, IE := true }
  else none

def step (L : Layout) (v : View) : Option View :=
  match L.code v.PC with
  | some (.ordinary i) => if k0 ∈ registers i then none else v.perform L i
  | some .ei => v.enable L
  | _ => none

def steps (L : Layout) (v : View) : Nat → Option View
  | 0 => some v
  | n + 1 => (v.steps L n).bind (step L)

/-- The view is true of a processor, here `c`, when the memory is `mem`. -/
structure Sees (v : View) (mem : Nat → Nat) (c : Processor) : Prop where
  PC : c.PC = v.PC
  REGS : ∀ r, r ≠ k0 → c.REGS r = v.REGS r
  MEM : ∀ a x, v.MEM a = some x → mem a = x
  IE : c.IE = v.IE

/-- The view does not rely on what interrupts may change. -/
structure Sound (L : Layout) (v : View) : Prop where
  below : ∀ a, L.size ≤ a → a < v.REGS sp → v.MEM a = none
  cells : ∀ a, L.shared a = true → v.MEM a = none
  vectors : v.IE = true → ∀ device : Fin 2, v.MEM device = some (L.vector device)
  room : Room L (v.REGS sp)

/-! ## A view stays true -/

/-- Machines that agree but for `$k0`. -/
structure Agree (s s' : Machine) : Prop where
  PC : s.PC = s'.PC
  REGS : ∀ r, r ≠ k0 → s.REGS r = s'.REGS r

section

variable {s s' : Machine}

theorem Agree.setReg (agree : Agree s s') (r : Fin 16) {v v' : Nat} (same : v = v') :
    Agree (s.setReg r v) (s'.setReg r v') where
  PC := agree.PC
  REGS q other := by
    rw [Machine.setReg_REGS, Machine.setReg_REGS, same, agree.REGS q other]

theorem Agree.setPC (agree : Agree s s') {v v' : Nat} (same : v = v') :
    Agree (s.setPC v) (s'.setPC v') where
  PC := same
  REGS := agree.REGS

/-- An instruction that neither names `$k0` nor loads something else does the same. -/
theorem Agree.effect (agree : Agree s s') {i : Instr} (free : k0 ∉ registers i)
    (load : ∀ dr base offset, i = .lw dr base offset →
      s.accessMem (wrap (s.REGS base + offset)) = s'.accessMem (wrap (s'.REGS base + offset))) :
    Agree (i.effect s) (i.effect s') := by
  have PC := agree.PC
  have next : Agree (s.setPC (wrap (s.PC + 1))) (s'.setPC (wrap (s'.PC + 1))) :=
    agree.setPC (by rw [PC])
  have reg : ∀ r ∈ registers i, s.REGS r = s'.REGS r := by
    intro r named
    exact agree.REGS r (by rintro rfl; exact free named)
  apply Agree.setReg _ 0 rfl
  cases i with
  | add dr sr1 sr2 | nand dr sr1 sr2 | min dr sr1 sr2 | max dr sr1 sr2 =>
    have left := reg sr1 (by simp [registers])
    have right := reg sr2 (by simp [registers])
    exact next.setReg dr (by rw [left, right])
  | addi dr sr1 imm =>
    have left := reg sr1 (by simp [registers])
    exact next.setReg dr (by rw [left])
  | inc dr =>
    have left := reg dr (by simp [registers])
    exact next.setReg dr (by rw [left])
  | lw dr base offset => exact next.setReg dr (load dr base offset rfl)
  | lea dr offset => exact next.setReg dr (by rw [PC])
  | sw sr base offset => exact ⟨next.PC, next.REGS⟩
  | noop => exact next
  | halt => exact ⟨PC, agree.REGS⟩
  | beq sr1 sr2 offset | blt sr1 sr2 offset =>
    have left := reg sr1 (by simp [registers])
    have right := reg sr2 (by simp [registers])
    simp only [Instr.act]
    rw [left, right]
    split
    · exact agree.setPC (by rw [PC])
    · exact next
  | jalr target ra =>
    simp only [Instr.act]
    have linked : Agree (if ra = 0 then s else s.setReg ra (wrap (s.PC + 1)))
        (if ra = 0 then s' else s'.setReg ra (wrap (s'.PC + 1))) := by
      split
      · exact agree
      · exact agree.setReg ra (by rw [PC])
    exact linked.setPC (linked.REGS target (by rintro rfl; exact free (by simp [registers])))

theorem effect_MEM (s : Machine) {i : Instr} (unstored : ∀ sr base offset, i ≠ .sw sr base offset) :
    (i.effect s).MEM = s.MEM := by
  have act : (i.act s).MEM = s.MEM := by
    cases i with
    | sw sr base offset => exact absurd rfl (unstored sr base offset)
    | beq | blt | jalr =>
      simp only [Instr.act, apply_ite Machine.MEM, Machine.setPC_MEM, Machine.setReg_MEM, ite_self]
    | _ => rfl
  rw [Instr.effect, Machine.setReg_MEM, act]

end

variable {L : Layout} {v v' : View} {p : Processor} {i : Instr} {dr base : Fin 16} {offset : Int}

theorem Sees.agree (sees : v.Sees p.MEM p) : Agree p.toMachine v.machine :=
  ⟨sees.PC, sees.REGS⟩

/-- The words that an instruction may change, as the view sees it. -/
theorem commit_sees {s : Machine} {mem : Nat → Option Nat} (done : v.commit L s mem = some v')
    {p' : Processor} (agree : Agree p'.toMachine s) (IE : p'.IE = v.IE)
    (MEM : ∀ a x, mem a = some x → p'.MEM a = x) : v'.Sees p'.MEM p' := by
  unfold commit at done
  split at done
  · cases Option.some.inj done
    constructor
    · exact agree.PC
    · exact agree.REGS
    · intro a x known
      dsimp only [forget] at known
      split at known
      · cases known
      · exact MEM a x known
    · exact IE
  · cases done

theorem commit_sound {s : Machine} {mem : Nat → Option Nat} (done : v.commit L s mem = some v')
    (cells : ∀ a, L.shared a = true → mem a = none)
    (vectors : v.IE = true → ∀ device : Fin 2, mem device = some (L.vector device))
    (small : 2 ≤ L.size) :
    v'.Sound L := by
  unfold commit at done
  split at done
  · next room =>
    cases Option.some.inj done
    constructor
    · intro a low below
      exact if_pos ⟨low, below⟩
    · intro a shared
      dsimp only [forget]
      rw [cells a shared, ite_self]
    · intro IE device
      dsimp only [forget]
      rw [if_neg (by omega), vectors IE device]
    · exact room
  · cases done

/-- A program writes only where it may; no cell of the handlers once interrupts are enabled. -/
structure Keeps (L : Layout) (v : View) (p p' : Processor) : Prop where
  word : ∀ a, L.shared a = false → ¬Writable L v a → p'.MEM a = p.MEM a
  cell : ∀ a, L.shared a = true → v.IE = true → p'.MEM a = p.MEM a

theorem Keeps.same {p' : Processor} (MEM : p'.MEM = p.MEM) : Keeps L v p p' := by
  constructor
  · intro a _ _
    rw [MEM]
  · intro a _ _
    rw [MEM]

theorem Sees.load (sees : v.Sees p.MEM p) (free : k0 ∉ registers (.lw dr base offset))
    (low : wrap (v.REGS base + offset) < 2 ^ 24)
    (known : (v.MEM (wrap (v.REGS base + offset))).isSome) :
    p.accessMem (wrap (p.REGS base + offset)) =
      v.machine.accessMem (wrap (v.REGS base + offset)) := by
  have base : p.REGS base = v.REGS base :=
    sees.REGS base (by rintro rfl; exact free (by simp [registers]))
  obtain ⟨x, here⟩ := Option.isSome_iff_exists.mp known
  rw [base]
  unfold Machine.accessMem
  rw [if_neg (by omega), sees.MEM _ x here]
  unfold machine
  dsimp only
  rw [here, Option.getD_some]

theorem Sees.store (sees : v.Sees p.MEM p) (sound : v.Sound L) (small : 2 ≤ L.size)
    (others : ∀ a < 2, L.own a = false) {sr : Fin 16} (free : k0 ∉ registers (.sw sr base offset))
    (done : v.perform L (.sw sr base offset) = some v') (value : Nat) :
    v'.Sees ((Command.ordinary (.sw sr base offset)).effect value p).MEM
        ((Command.ordinary (.sw sr base offset)).effect value p) ∧
      v'.Sound L ∧ Keeps L v p ((Command.ordinary (.sw sr base offset)).effect value p) := by
  have stored : p.REGS sr = v.REGS sr :=
    sees.REGS sr (by rintro rfl; exact free (by simp [registers]))
  have address : p.REGS base = v.REGS base :=
    sees.REGS base (by rintro rfl; exact free (by simp [registers]))
  have agree := sees.agree.effect free (i := .sw sr base offset) nofun
  have MEM : ((Command.ordinary (.sw sr base offset)).effect value p).MEM =
      Function.update p.MEM (wrap (v.REGS base + offset)) (v.REGS sr) := by
    rw [← stored, ← address]
    rfl
  unfold View.perform at done
  dsimp only at done
  split at done
  · next cell =>
    split at done
    · cases done
    · next disabled =>
      have apart : ∀ a x, v.MEM a = some x →
          ((Command.ordinary (.sw sr base offset)).effect value p).MEM a = x := by
        intro a x known
        have other : a ≠ wrap (v.REGS base + offset) := by
          rintro rfl
          rw [sound.cells _ cell] at known
          cases known
        rw [MEM, Function.update_of_ne other, sees.MEM a x known]
      refine ⟨commit_sees done agree sees.IE apart,
        commit_sound done sound.cells sound.vectors small, ?_, ?_⟩
      · intro a word _
        rw [MEM, Function.update_of_ne]
        rintro rfl
        rw [cell] at word
        cases word
      · intro a _ enabled
        exact absurd enabled disabled
  · next word =>
    split at done
    · next writable =>
      refine ⟨commit_sees done agree sees.IE ?_, commit_sound done ?_ ?_ small, ?_, ?_⟩
      · intro a x known
        rw [MEM]
        by_cases here : a = wrap (v.REGS base + offset)
        · rw [here, Function.update_self] at known ⊢
          exact Option.some.inj known
        · rw [Function.update_of_ne here] at known ⊢
          exact sees.MEM a x known
      · intro a shared
        rw [Function.update_of_ne, sound.cells a shared]
        rintro rfl
        exact word shared
      · intro enabled device
        rw [Function.update_of_ne, sound.vectors enabled device]
        rintro same
        rw [← same] at writable
        rcases writable with own | ⟨above, _⟩ | ⟨_, disabled⟩
        · rw [others device device.isLt] at own
          cases own
        · omega
        · rw [enabled] at disabled
          cases disabled
      · intro a _ unwritable
        rw [MEM, Function.update_of_ne]
        rintro rfl
        exact unwritable writable
      · intro a shared _
        rw [MEM, Function.update_of_ne]
        rintro rfl
        exact word shared
    · cases done

/-- An instruction of the program has the effect that the view shows. -/
theorem Sees.perform (sees : v.Sees p.MEM p) (sound : v.Sound L) (small : 2 ≤ L.size)
    (others : ∀ a < 2, L.own a = false) (free : k0 ∉ registers i) (done : v.perform L i = some v')
    (value : Nat) :
    v'.Sees ((Command.ordinary i).effect value p).MEM ((Command.ordinary i).effect value p) ∧
      v'.Sound L ∧ Keeps L v p ((Command.ordinary i).effect value p) := by
  have silent : (∀ dr base offset, i ≠ .lw dr base offset) →
    (∀ sr base offset, i ≠ .sw sr base offset) →
      v.commit L (i.effect v.machine) v.MEM = some v' →
      v'.Sees ((Command.ordinary i).effect value p).MEM ((Command.ordinary i).effect value p) ∧
        v'.Sound L ∧ Keeps L v p ((Command.ordinary i).effect value p) := by
    intro unloaded unstored done
    have MEM : ((Command.ordinary i).effect value p).MEM = p.MEM := effect_MEM p.toMachine unstored
    have agree := sees.agree.effect free (fun dr base offset same =>
      absurd same (unloaded dr base offset))
    exact ⟨commit_sees done agree sees.IE (by rw [MEM]; exact sees.MEM),
      commit_sound done sound.cells sound.vectors small, Keeps.same MEM⟩
  cases i with
  | halt => cases done
  | lw dr base offset =>
    unfold View.perform at done
    dsimp only at done
    split at done
    · next there =>
      have load : ∀ dr' base' offset', Instr.lw dr base offset = .lw dr' base' offset' →
          p.accessMem (wrap (p.REGS base' + offset')) =
            v.machine.accessMem (wrap (v.machine.REGS base' + offset')) := by
        rintro _ _ _ ⟨⟩
        exact sees.load free there.1 there.2
      exact ⟨commit_sees done (sees.agree.effect free load) sees.IE sees.MEM,
        commit_sound done sound.cells sound.vectors small, Keeps.same rfl⟩
    · cases done
  | sw sr base offset => exact sees.store sound small others free done value
  | _ => exact silent nofun nofun done

/-- A step of the view is a step of the processor. -/
theorem Sees.step (sees : v.Sees p.MEM p) (sound : v.Sound L) (small : 2 ≤ L.size)
    (others : ∀ a < 2, L.own a = false) {cmd : Command} (here : L.code v.PC = some cmd)
    (done : v.step L = some v') (value : Nat) :
    v'.Sees (cmd.effect value p).MEM (cmd.effect value p) ∧ v'.Sound L ∧
      Keeps L v p (cmd.effect value p) := by
  unfold View.step at done
  rw [here] at done
  split at done
  · next i same =>
    cases Option.some.inj same
    split at done
    · cases done
    · next free => exact sees.perform sound small others free done value
  · next same =>
    cases Option.some.inj same
    unfold View.enable at done
    split at done
    · next ready =>
      cases Option.some.inj done
      refine ⟨⟨?_, sees.REGS, sees.MEM, rfl⟩,
        ⟨sound.below, sound.cells, fun _ => ready, sound.room⟩, Keeps.same rfl⟩
      show p.PC + 1 = v.PC + 1
      rw [sees.PC]
    · cases done
  · cases done

/-- All that a step of a view can do: it makes no word unknown, apart from what it forgets. -/
theorem step_cases (step : v.step L = some v') :
    (∃ i mem, L.code v.PC = some (.ordinary i) ∧ v.commit L (i.effect v.machine) mem = some v' ∧
      ∀ a, (v.MEM a).isSome = true → (mem a).isSome = true) ∨
    (L.code v.PC = some .ei ∧ v' = { v with PC := v.PC + 1, IE := true }) := by
  unfold View.step at step
  split at step
  · next i here =>
    left
    split at step
    · cases step
    · unfold View.perform at step
      dsimp only at step
      split at step
      · split at step
        · exact ⟨_, _, here, step, fun _ => id⟩
        · cases step
      · split at step
        · split at step
          · cases step
          · exact ⟨_, _, here, step, fun _ => id⟩
        · split at step
          · refine ⟨_, _, here, step, fun a known => ?_⟩
            unfold Function.update
            split
            · next same =>
              subst same
              rfl
            · exact known
          · cases step
      · cases step
      · exact ⟨_, _, here, step, fun _ => id⟩
  · next here =>
    right
    unfold View.enable at step
    split at step
    · exact ⟨here, (Option.some.inj step).symm⟩
    · cases step
  · cases step

/-- What a program knows outside the stack it never forgets. -/
theorem step_known (step : v.step L = some v') {a : Nat} (outside : ¬(L.size ≤ a ∧ a < L.top))
    (known : (v.MEM a).isSome = true) : (v'.MEM a).isSome = true := by
  obtain ⟨i, mem, _, done, keeps⟩ | ⟨_, rfl⟩ := step_cases step
  · unfold commit at done
    split at done
    · next room =>
      cases Option.some.inj done
      have top := room.2
      dsimp only [forget]
      rw [if_neg (by omega)]
      exact keeps a known
    · cases done
  · exact known

theorem steps_known {n : Nat} (steps : v.steps L n = some v') {a : Nat}
    (outside : ¬(L.size ≤ a ∧ a < L.top)) (known : (v.MEM a).isSome = true) :
    (v'.MEM a).isSome = true := by
  induction n generalizing v' with
  | zero =>
    cases Option.some.inj steps
    exact known
  | succ n ih =>
    obtain ⟨w, before, last⟩ := Option.bind_eq_some_iff.mp steps
    exact step_known last outside (ih before)

/-- The view of `prj2.s`, which reaches down 25 words below its first stack pointer. -/
def prj2Layout : Layout where
  code := code
  size := prj2.length
  floor := 0xA000 - 25
  top := 0xA000
  own a := a = address .ANS
  shared a := Shared a
  vector := ![address .timer_handler, address .distance_tracker_handler]

theorem steps_add (v : View) (m n : Nat) :
    v.steps L (m + n) = (v.steps L m).bind fun w => w.steps L n := by
  induction n with
  | zero => exact (Option.bind_fun_some _).symm
  | succ n ih =>
    rw [← Nat.add_assoc, View.steps, ih, Option.bind_assoc]
    rfl

end View

end SystemsProjects.Irq
