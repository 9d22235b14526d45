import SystemsProjects.Lc.Isa
import Mathlib.Data.List.Basic
import Mathlib.Data.List.MinMax

/-!
# The phases of the handlers

What the handlers are for: one counts the ticks of a timer, the other one tracks the range of the
distances that it reads. A handler that has looked at a cell decides by what it saw, and stores
later.
-/

namespace SystemsProjects.Irq

open Lc

/-- The cells that the handlers share. Distances are signed. -/
structure Cells where
  ticks : Nat
  range : Nat
  maxval : Int
  minval : Int
deriving DecidableEq

/-- How far a handler has come with the cells, and what it remembers of them. -/
inductive Phase
  /-- It has nothing to do with the cells any more. -/
  | idle
  | timing
  | timed (count : Nat)
  | arrived
  | fresh (d : Int)
  | compared (d x : Int)
  | raising (d : Int)
  | raised (d : Int)
  | weighed (d y : Int)
  | lowering (d : Int)
  | lowered (d : Int)
  | rechecked (d x : Int)
  | settled
  | halfway (x : Int)
  | ranging (range : Nat)
deriving DecidableEq

namespace Phase

/-- One step of a handler, with the value that it reads if it reads one. -/
inductive Move : Option Int → Cells → Phase → Cells → Phase → Prop
  | count (c : Cells) : Move none c .timing c (.timed (wrap (c.ticks + 1)))
  | tick (c : Cells) (count : Nat) : Move none c (.timed count) { c with ticks := count } .idle
  | read (c : Cells) (d : Int) : Move (some d) c .arrived c (.fresh d)
  | compare (c : Cells) (d : Int) : Move none c (.fresh d) c (.compared d c.maxval)
  | greater (c : Cells) (d x : Int) (most : x ≤ d) : Move none c (.compared d x) c (.raising d)
  | within (c : Cells) (d x : Int) (less : d < x) : Move none c (.compared d x) c (.raised d)
  | raise (c : Cells) (d : Int) : Move none c (.raising d) { c with maxval := d } (.raised d)
  | weigh (c : Cells) (d : Int) : Move none c (.raised d) c (.weighed d c.minval)
  | least (c : Cells) : Move none c (.raised c.minval) c .settled
  | smaller (c : Cells) (d y : Int) (least : d ≤ y) : Move none c (.weighed d y) c (.lowering d)
  | between (c : Cells) (d y : Int) (more : y < d) : Move none c (.weighed d y) c .settled
  | lower (c : Cells) (d : Int) : Move none c (.lowering d) { c with minval := d } (.lowered d)
  | recheck (c : Cells) (d : Int) (other : d ≠ c.maxval) :
    Move none c (.lowered d) c (.rechecked d c.maxval)
  | most (c : Cells) : Move none c (.lowered c.maxval) c .settled
  | again (c : Cells) (d x : Int) (most : x ≤ d) : Move none c (.rechecked d x) c (.raising d)
  | stay (c : Cells) (d x : Int) (less : d < x) : Move none c (.rechecked d x) c .settled
  | half (c : Cells) : Move none c .settled c (.halfway c.maxval)
  | whole (c : Cells) (x : Int) : Move none c (.halfway x) c (.ranging (wrap (x - c.minval)))
  | span (c : Cells) (range : Nat) : Move none c (.ranging range) { c with range := range } .idle

/-- An interrupted handler would lose no update if one that interrupts it read the value. -/
def Accepts (now : Cells) (v : Int) : Phase → Prop
  | compared d x => x ≤ d → v ≤ d
  | raising d => v ≤ d
  | weighed d y => d ≤ y → d ≤ v
  | lowering d => d ≤ v
  | halfway _ => v ≤ now.maxval
  | ranging _ => v ≤ now.maxval ∧ now.minval ≤ v
  | _ => True

instance (now : Cells) (v : Int) (ph : Phase) : Decidable (ph.Accepts now v) := by
  cases ph <;> unfold Accepts <;> infer_instance

/-- The handler counts on a tick that it has loaded. -/
def Timed : Phase → Prop
  | timed _ => True
  | _ => False

instance (ph : Phase) : Decidable ph.Timed := by
  cases ph <;> unfold Timed <;> infer_instance

/-- A tick is still to be stored. -/
def ticking : Phase → Bool
  | timing | timed _ => true
  | _ => false

/-- A value may still be stored as the greatest one. -/
def HoldsMax (v : Int) : Phase → Prop
  | fresh d | compared d _ | raising d => d = v
  | _ => False

/-- A value may still be stored as the least one. -/
def HoldsMin (v : Int) : Phase → Prop
  | fresh d | compared d _ | raising d | raised d | weighed d _ | lowering d => d = v
  | _ => False

/-- The range is still to be stored. -/
def Spanning : Phase → Prop
  | idle | timing | timed _ => False
  | _ => True

/-- What a handler remembers is still good for what it will store. -/
def Right (now : Cells) : Phase → Prop
  | timed count => count = wrap (now.ticks + 1)
  | compared d x => x ≤ now.maxval ∧ (x ≤ d → now.maxval ≤ d)
  | raising d => now.maxval ≤ d
  | raised d => d ≤ now.maxval
  | weighed d y => d ≤ now.maxval ∧ now.minval ≤ y ∧ (d ≤ y → d ≤ now.minval)
  | lowering d => d ≤ now.maxval ∧ d ≤ now.minval
  | lowered d => d ≤ now.maxval ∧ now.minval ≤ d
  | rechecked d x => d < x
  | halfway x => x = now.maxval
  | ranging range => range = wrap (now.maxval - now.minval)
  | _ => True

/-- How far a handler that is not interrupted is from its end. The handler that has stored the
greatest value itself does not store it again. -/
def rank (now : Cells) : Phase → Nat
  | idle => 0
  | ranging _ | timed _ => 1
  | halfway _ | timing => 2
  | settled => 3
  | rechecked d x => if d < x then 4 else 26
  | lowered d => if d = now.maxval then 5 else 27
  | lowering d => if d = now.maxval then 6 else 28
  | weighed d _ => if d = now.maxval then 7 else 29
  | raised d => if d = now.maxval then 8 else 30
  | raising _ => 25
  | compared _ _ => 31
  | fresh _ => 32
  | arrived => 33

theorem Move.rank_lt {heard : Option Int} {now now' : Cells} {ph ph' : Phase}
    (move : Move heard now ph now' ph') :
    ph'.rank now' < ph.rank now := by
  cases move with
  | within | weigh | smaller | lower | between | least =>
    simp only [rank]
    split <;> omega
  | recheck _ d other =>
    simp only [rank, if_neg other]
    split <;> omega
  | again _ d x most => simp [rank, not_lt.mpr most]
  | stay _ d x less => simp [rank, less]
  | _ => simp [rank]

/-- A handler reads once, before everything else. -/
theorem Move.arrived {heard : Option Int} {now now' : Cells} {ph ph' : Phase}
    (move : Move heard now ph now' ph') :
    ph' ≠ .arrived ∧ (heard.isSome = true ↔ ph = .arrived) := by
  cases move <;> simp

/-- The handler `lower` was interrupted by `upper`, or by one that `upper` interrupted. -/
def Bears (now : Cells) (upper lower : Phase) : Prop :=
  (lower.Timed → upper.ticking = false) ∧ ∀ v, upper.HoldsMin v → lower.Accepts now v

end Phase

open Phase

/-- The handlers have kept account of all updates since the cells were `start`, the last one to be
interrupted first in the list. -/
structure Kept (start : Cells) (timers distances : Nat) (reads : List Int) (now : Cells)
    (phases : List Phase) : Prop where
  right : ∀ ph ∈ phases, ph.Right now
  bears : phases.Pairwise (Phase.Bears now)
  ticks : wrap (now.ticks + phases.countP Phase.ticking) = wrap (start.ticks + timers)
  origin : ∀ ph ∈ phases, ∀ v, ph.HoldsMin v → v ∈ reads
  above : ∀ v ∈ start.maxval :: reads, v ≤ now.maxval ∨ ∃ ph ∈ phases, ph.HoldsMax v
  below : ∀ v ∈ start.minval :: reads, now.minval ≤ v ∨ ∃ ph ∈ phases, ph.HoldsMin v
  maxval : now.maxval ∈ start.maxval :: reads
  minval : now.minval ∈ start.minval :: reads
  range : distances = 0 ∨ now.range = wrap (now.maxval - now.minval) ∨ ∃ ph ∈ phases, ph.Spanning

/-! ## A step keeps account -/

section

variable {start now now' : Cells} {timers distances : Nat} {reads : List Int}
  {phases rest : List Phase}
  {ph ph' : Phase} {v : Int}

/-- Cells that have moved apart accept what they accepted before. -/
theorem Phase.Accepts.mono (accepts : ph.Accepts now v) (more : now.maxval ≤ now'.maxval)
    (less : now'.minval ≤ now.minval) : ph.Accepts now' v := by
  cases ph with
  | halfway x => exact le_trans accepts more
  | ranging r => exact ⟨le_trans accepts.1 more, le_trans less accepts.2⟩
  | _ => exact accepts

/-- A value that is stored as the greatest one leaves right what accepted it. -/
theorem Phase.Right.raise (right : ph.Right now) (accepts : ph.Accepts now v)
    (more : now.maxval ≤ v) :
    ph.Right { now with maxval := v } := by
  cases ph with
  | compared d x => exact ⟨right.1.trans more, accepts⟩
  | raising d => exact accepts
  | raised d => exact le_trans right more
  | weighed d y => exact ⟨right.1.trans more, right.2⟩
  | lowering d | lowered d => exact ⟨right.1.trans more, right.2⟩
  | halfway x =>
    have same : v = now.maxval := le_antisymm accepts more
    exact right.trans same.symm
  | ranging r =>
    have same : v = now.maxval := le_antisymm accepts.1 more
    subst same
    exact right
  | _ => exact right

theorem Phase.Right.lower (right : ph.Right now) (accepts : ph.Accepts now v)
    (less : v ≤ now.minval) :
    ph.Right { now with minval := v } := by
  cases ph with
  | weighed d y => exact ⟨right.1, less.trans right.2.1, accepts⟩
  | lowering d => exact ⟨right.1, accepts⟩
  | lowered d => exact ⟨right.1, less.trans right.2⟩
  | ranging r =>
    have same : v = now.minval := le_antisymm less accepts.2
    subst same
    exact right
  | _ => exact right

theorem Phase.Right.tick (right : ph.Right now) (other : ¬ph.Timed) (count : Nat) :
    ph.Right { now with ticks := count } := by
  cases ph with
  | timed n => exact absurd trivial other
  | _ => exact right

/-- At the start nothing has happened yet. -/
theorem Kept.initial (cells : Cells) : Kept cells 0 0 [] cells [.idle] where
  right := List.forall_mem_singleton.mpr trivial
  bears := List.pairwise_singleton ..
  ticks := rfl
  origin := List.forall_mem_singleton.mpr nofun
  above _ member := Or.inl (List.mem_singleton.mp member).le
  below _ member := Or.inl (List.mem_singleton.mp member).ge
  maxval := List.mem_singleton_self _
  minval := List.mem_singleton_self _
  range := Or.inl rfl

theorem wrap_succ {a b : Int} (same : wrap a = wrap b) : wrap (a + 1) = wrap (b + 1) := by
  unfold wrap at same ⊢
  omega

/-- A timer interrupt is counted while no handler is about to store the ticks. -/
theorem Kept.timer (kept : Kept start timers distances reads now phases)
    (free : ∀ ph ∈ phases, ¬ph.Timed) :
    Kept start (timers + 1) distances reads now (.timing :: phases) where
  right := List.forall_mem_cons.mpr ⟨trivial, kept.right⟩
  bears := List.pairwise_cons.mpr ⟨fun lower member =>
    ⟨fun timed => absurd timed (free lower member), nofun⟩, kept.bears⟩
  ticks := by
    have more := wrap_succ kept.ticks
    rw [List.countP_cons_of_pos rfl]
    push_cast
    rw [← Int.add_assoc, more, Int.add_assoc]
  origin := List.forall_mem_cons.mpr ⟨nofun, kept.origin⟩
  above v member := by
    obtain done | ⟨ph, there, holds⟩ := kept.above v member
    · exact Or.inl done
    · exact Or.inr ⟨ph, List.mem_cons_of_mem _ there, holds⟩
  below v member := by
    obtain done | ⟨ph, there, holds⟩ := kept.below v member
    · exact Or.inl done
    · exact Or.inr ⟨ph, List.mem_cons_of_mem _ there, holds⟩
  maxval := kept.maxval
  minval := kept.minval
  range := by
    obtain none | right | ⟨ph, there, spans⟩ := kept.range
    · exact Or.inl none
    · exact Or.inr (Or.inl right)
    · exact Or.inr (Or.inr ⟨ph, List.mem_cons_of_mem _ there, spans⟩)

theorem Kept.distance (kept : Kept start timers distances reads now phases) :
    Kept start timers (distances + 1) reads now (.arrived :: phases) where
  right := List.forall_mem_cons.mpr ⟨trivial, kept.right⟩
  bears := List.pairwise_cons.mpr ⟨fun _ _ => ⟨fun _ => rfl, nofun⟩, kept.bears⟩
  ticks := by
    rw [List.countP_cons_of_neg (by decide)]
    exact kept.ticks
  origin := List.forall_mem_cons.mpr ⟨nofun, kept.origin⟩
  above v member := by
    obtain done | ⟨ph, there, holds⟩ := kept.above v member
    · exact Or.inl done
    · exact Or.inr ⟨ph, List.mem_cons_of_mem _ there, holds⟩
  below v member := by
    obtain done | ⟨ph, there, holds⟩ := kept.below v member
    · exact Or.inl done
    · exact Or.inr ⟨ph, List.mem_cons_of_mem _ there, holds⟩
  maxval := kept.maxval
  minval := kept.minval
  range := Or.inr (Or.inr ⟨_, List.mem_cons_self, trivial⟩)

/-- A handler that is done with the cells may go. -/
theorem Kept.leave (kept : Kept start timers distances reads now (.idle :: rest)) :
    Kept start timers distances reads now rest where
  right := (List.forall_mem_cons.mp kept.right).2
  bears := (List.pairwise_cons.mp kept.bears).2
  ticks := by
    have ticks := kept.ticks
    rw [List.countP_cons_of_neg (by decide)] at ticks
    exact ticks
  origin := (List.forall_mem_cons.mp kept.origin).2
  above v member := by
    obtain done | ⟨ph, there, holds⟩ := kept.above v member
    · exact Or.inl done
    · obtain rfl | there := List.mem_cons.mp there
      · exact holds.elim
      · exact Or.inr ⟨ph, there, holds⟩
  below v member := by
    obtain done | ⟨ph, there, holds⟩ := kept.below v member
    · exact Or.inl done
    · obtain rfl | there := List.mem_cons.mp there
      · exact holds.elim
      · exact Or.inr ⟨ph, there, holds⟩
  maxval := kept.maxval
  minval := kept.minval
  range := by
    obtain none | right | ⟨ph, there, spans⟩ := kept.range
    · exact Or.inl none
    · exact Or.inr (Or.inl right)
    · obtain rfl | there := List.mem_cons.mp there
      · exact spans.elim
      · exact Or.inr (Or.inr ⟨ph, there, spans⟩)

/-- How a handler may change from one phase to another while the cells become `now`. -/
structure Phase.Passes (now : Cells) (ph ph' : Phase) : Prop where
  right : ph'.Right now
  ticking : ph'.ticking = true → ph.ticking = true
  holds : ∀ v, ph'.HoldsMin v → ph.HoldsMin v
  max : ∀ v, ph.HoldsMax v → ph'.HoldsMax v ∨ v ≤ now.maxval
  min : ∀ v, ph.HoldsMin v → ph'.HoldsMin v ∨ now.minval ≤ v
  spans : ph.Spanning → ph'.Spanning ∨ now.range = wrap (now.maxval - now.minval)

/-- The handlers below stay right, and what they accepted stays accepted. -/
theorem Kept.passes (kept : Kept start timers distances reads now (ph :: rest))
    (passes : ph.Passes now' ph') (right : ∀ lower ∈ rest, lower.Right now')
    (more : now.maxval ≤ now'.maxval) (less : now'.minval ≤ now.minval)
    (ticks : wrap (now'.ticks + (ph' :: rest).countP ticking) =
    wrap (now.ticks + (ph :: rest).countP ticking))
    (maxval : now'.maxval ∈ start.maxval :: reads) (minval : now'.minval ∈ start.minval :: reads)
    (range : now.range = wrap (now.maxval - now.minval) →
      now'.range = wrap (now'.maxval - now'.minval) ∨ ph'.Spanning) :
    Kept start timers distances reads now' (ph' :: rest) where
  right := List.forall_mem_cons.mpr ⟨passes.right, right⟩
  bears := by
    obtain ⟨own, others⟩ := List.pairwise_cons.mp kept.bears
    refine List.pairwise_cons.mpr ⟨?_, others.imp ?_⟩
    · intro lower member
      obtain ⟨apart, accepts⟩ := own lower member
      refine ⟨?_, fun v holds => (accepts v (passes.holds v holds)).mono more less⟩
      intro timed
      have none := apart timed
      cases still : ph'.ticking with
      | false => rfl
      | true =>
        rw [passes.ticking still] at none
        cases none
    · rintro upper lower ⟨apart, accepts⟩
      exact ⟨apart, fun v holds => (accepts v holds).mono more less⟩
  ticks := ticks.trans kept.ticks
  origin := by
    obtain ⟨own, others⟩ := List.forall_mem_cons.mp kept.origin
    exact List.forall_mem_cons.mpr ⟨fun v holds => own v (passes.holds v holds), others⟩
  above v member := by
    obtain done | ⟨held, there, holds⟩ := kept.above v member
    · exact Or.inl (done.trans more)
    · obtain rfl | there := List.mem_cons.mp there
      · obtain still | done := passes.max v holds
        · exact Or.inr ⟨ph', List.mem_cons_self, still⟩
        · exact Or.inl done
      · exact Or.inr ⟨held, List.mem_cons_of_mem _ there, holds⟩
  below v member := by
    obtain done | ⟨held, there, holds⟩ := kept.below v member
    · exact Or.inl (less.trans done)
    · obtain rfl | there := List.mem_cons.mp there
      · obtain still | done := passes.min v holds
        · exact Or.inr ⟨ph', List.mem_cons_self, still⟩
        · exact Or.inl done
      · exact Or.inr ⟨held, List.mem_cons_of_mem _ there, holds⟩
  maxval := maxval
  minval := minval
  range := by
    obtain none | same | ⟨held, there, spans⟩ := kept.range
    · exact Or.inl none
    · obtain same | spans := range same
      · exact Or.inr (Or.inl same)
      · exact Or.inr (Or.inr ⟨ph', List.mem_cons_self, spans⟩)
    · obtain rfl | there := List.mem_cons.mp there
      · obtain spans | same := passes.spans spans
        · exact Or.inr (Or.inr ⟨ph', List.mem_cons_self, spans⟩)
        · exact Or.inr (Or.inl same)
      · exact Or.inr (Or.inr ⟨held, List.mem_cons_of_mem _ there, spans⟩)

/-- The handler goes on without a store. -/
theorem Kept.silent (kept : Kept start timers distances reads now (ph :: rest))
    (passes : ph.Passes now ph') (ticking : ph'.ticking = ph.ticking) :
    Kept start timers distances reads now (ph' :: rest) := by
  apply kept.passes passes (List.forall_mem_cons.mp kept.right).2 le_rfl le_rfl _ kept.maxval
    kept.minval
  · exact Or.inl
  · rw [List.countP_cons, List.countP_cons, ticking]

theorem Phase.Passes.of_silent (right : ph'.Right now)
    (ticking : ph'.ticking = true → ph.ticking = true) (holds : ∀ v, ph'.HoldsMin v → ph.HoldsMin v)
    (max : ∀ v, ph.HoldsMax v → ph'.HoldsMax v) (min : ∀ v, ph.HoldsMin v → ph'.HoldsMin v)
    (spans : ph'.Spanning) : ph.Passes now ph' :=
  ⟨right, ticking, holds, fun v held => Or.inl (max v held), fun v held => Or.inl (min v held),
    fun _ => Or.inl spans⟩

/-- The value of a handler becomes the greatest one. -/
theorem Kept.raise {d : Int} (kept : Kept start timers distances reads now (.raising d :: rest)) :
    Kept start timers distances reads { now with maxval := d } (.raised d :: rest) := by
  obtain ⟨most, others⟩ := List.forall_mem_cons.mp kept.right
  have own := (List.forall_mem_cons.mp kept.origin).1 d rfl
  have accepts := (List.pairwise_cons.mp kept.bears).1
  have passes : (Phase.raising d).Passes { now with maxval := d } (.raised d) := by
    refine ⟨le_refl d, nofun, fun v holds => holds, ?_, fun v holds => Or.inl holds, fun _ =>
      Or.inl trivial⟩
    rintro v rfl
    exact Or.inr le_rfl
  apply kept.passes passes _ most le_rfl rfl (List.mem_cons_of_mem _ own) kept.minval
    (fun _ => Or.inr trivial)
  intro lower member
  exact (others lower member).raise ((accepts lower member).2 d rfl) most

/-- The value of a handler becomes the least one. -/
theorem Kept.lower {d : Int} (kept : Kept start timers distances reads now (.lowering d :: rest)) :
    Kept start timers distances reads { now with minval := d } (.lowered d :: rest) := by
  obtain ⟨⟨most, least⟩, others⟩ := List.forall_mem_cons.mp kept.right
  have own := (List.forall_mem_cons.mp kept.origin).1 d rfl
  have accepts := (List.pairwise_cons.mp kept.bears).1
  have passes : (Phase.lowering d).Passes { now with minval := d } (.lowered d) := by
    refine ⟨⟨most, le_refl d⟩, nofun, nofun, nofun, ?_, fun _ => Or.inl trivial⟩
    rintro v rfl
    exact Or.inr le_rfl
  apply kept.passes passes _ le_rfl least rfl kept.maxval (List.mem_cons_of_mem _ own)
    (fun _ => Or.inr trivial)
  intro lower member
  exact (others lower member).lower ((accepts lower member).2 d rfl) least

/-- A handler stores the tick that it has counted. -/
theorem Kept.tick {count : Nat}
    (kept : Kept start timers distances reads now (.timed count :: rest)) :
    Kept start timers distances reads { now with ticks := count } (.idle :: rest) := by
  obtain ⟨counted, others⟩ := List.forall_mem_cons.mp kept.right
  have bears := (List.pairwise_cons.mp kept.bears).1
  have passes : (Phase.timed count).Passes { now with ticks := count } .idle :=
    ⟨trivial, nofun, nofun, nofun, nofun, nofun⟩
  apply kept.passes passes _ le_rfl le_rfl _ kept.maxval kept.minval (fun same => Or.inl same)
  · intro lower member
    apply (others lower member).tick
    intro timed
    exact Bool.noConfusion ((bears lower member).1 timed)
  · rw [List.countP_cons_of_neg (by decide), List.countP_cons_of_pos rfl]
    replace counted : count = wrap (now.ticks + 1) := counted
    dsimp only
    rw [counted]
    unfold wrap
    omega

/-- A handler stores the range. -/
theorem Kept.span {r : Nat} (kept : Kept start timers distances reads now (.ranging r :: rest)) :
    Kept start timers distances reads { now with range := r } (.idle :: rest) := by
  obtain ⟨right, others⟩ := List.forall_mem_cons.mp kept.right
  replace right : r = wrap (now.maxval - now.minval) := right
  have passes : (Phase.ranging r).Passes { now with range := r } .idle :=
    ⟨trivial, nofun, nofun, nofun, nofun, fun _ => Or.inr right⟩
  apply kept.passes passes _ le_rfl le_rfl _ kept.maxval kept.minval (fun _ => Or.inl right)
  · intro lower member
    have same := others lower member
    cases lower <;> exact same
  · rw [List.countP_cons_of_neg (by decide), List.countP_cons_of_neg Bool.false_ne_true]

/-- A step that reads no value keeps account. -/
theorem Kept.move (kept : Kept start timers distances reads now (ph :: rest))
    (move : Move none now ph now' ph') :
    Kept start timers distances reads now' (ph' :: rest) := by
  have right := (List.forall_mem_cons.mp kept.right).1
  cases move with
  | count => exact kept.silent ⟨rfl, fun _ => rfl, nofun, nofun, nofun, nofun⟩ rfl
  | tick => exact kept.tick
  | compare _ d =>
    exact kept.silent (.of_silent ⟨le_rfl, id⟩ nofun (fun _ => id) (fun _ => id) (fun _ => id)
      trivial) rfl
  | greater _ d x most =>
    exact kept.silent (.of_silent (right.2 most) nofun (fun _ => id) (fun _ => id) (fun _ => id)
      trivial) rfl
  | within _ d x less =>
    have small : d ≤ now.maxval := less.le.trans right.1
    refine kept.silent ⟨small, nofun, fun _ => id, ?_, fun _ => Or.inl, fun _ => Or.inl trivial⟩ rfl
    rintro v rfl
    exact Or.inr small
  | raise => exact kept.raise
  | weigh _ d =>
    exact kept.silent (.of_silent ⟨right, le_rfl, id⟩ nofun (fun _ => id) nofun (fun _ => id)
      trivial) rfl
  | least =>
    refine kept.silent ⟨trivial, nofun, nofun, nofun, ?_, fun _ => Or.inl trivial⟩ rfl
    rintro v rfl
    exact Or.inr le_rfl
  | smaller _ d y least =>
    exact kept.silent (.of_silent ⟨right.1, right.2.2 least⟩ nofun (fun _ => id) nofun (fun _ => id)
      trivial) rfl
  | between _ d y more =>
    have large : now.minval ≤ d := right.2.1.trans more.le
    refine kept.silent ⟨trivial, nofun, nofun, nofun, ?_, fun _ => Or.inl trivial⟩ rfl
    rintro v rfl
    exact Or.inr large
  | lower => exact kept.lower
  | recheck _ d other =>
    exact kept.silent (.of_silent (lt_of_le_of_ne right.1 other) nofun nofun nofun nofun trivial)
      rfl
  | most => exact kept.silent (.of_silent trivial nofun nofun nofun nofun trivial) rfl
  | again _ d x most => exact absurd right (not_lt.mpr most)
  | stay _ d x less => exact kept.silent (.of_silent trivial nofun nofun nofun nofun trivial) rfl
  | half => exact kept.silent (.of_silent rfl nofun nofun nofun nofun trivial) rfl
  | whole _ x =>
    replace right : x = now.maxval := right
    subst right
    exact kept.silent (.of_silent rfl nofun nofun nofun nofun trivial) rfl
  | span => exact kept.span

/-- A handler reads a value that those it interrupted accept. -/
theorem Kept.read {d : Int} (kept : Kept start timers distances reads now (.arrived :: rest))
    (accepted : ∀ lower ∈ rest, lower.Accepts now d) :
    Kept start timers distances (d :: reads) now (.fresh d :: rest) where
  right := List.forall_mem_cons.mpr ⟨trivial, (List.forall_mem_cons.mp kept.right).2⟩
  bears := by
    refine List.pairwise_cons.mpr ⟨?_, (List.pairwise_cons.mp kept.bears).2⟩
    intro lower member
    refine ⟨fun _ => rfl, ?_⟩
    rintro v rfl
    exact accepted lower member
  ticks := kept.ticks
  origin := by
    refine List.forall_mem_cons.mpr ⟨?_, ?_⟩
    · rintro v rfl
      exact List.mem_cons_self
    · intro lower member v holds
      exact List.mem_cons_of_mem _ (kept.origin lower (List.mem_cons_of_mem _ member) v holds)
  above v member := by
    have old : v = d ∨ v ∈ start.maxval :: reads := by
      simp only [List.mem_cons] at member ⊢
      tauto
    obtain rfl | old := old
    · exact Or.inr ⟨_, List.mem_cons_self, rfl⟩
    · obtain done | ⟨held, there, holds⟩ := kept.above v old
      · exact Or.inl done
      · obtain rfl | there := List.mem_cons.mp there
        · exact holds.elim
        · exact Or.inr ⟨held, List.mem_cons_of_mem _ there, holds⟩
  below v member := by
    have old : v = d ∨ v ∈ start.minval :: reads := by
      simp only [List.mem_cons] at member ⊢
      tauto
    obtain rfl | old := old
    · exact Or.inr ⟨_, List.mem_cons_self, rfl⟩
    · obtain done | ⟨held, there, holds⟩ := kept.below v old
      · exact Or.inl done
      · obtain rfl | there := List.mem_cons.mp there
        · exact holds.elim
        · exact Or.inr ⟨held, List.mem_cons_of_mem _ there, holds⟩
  maxval := by
    have old := kept.maxval
    simp only [List.mem_cons] at old ⊢
    tauto
  minval := by
    have old := kept.minval
    simp only [List.mem_cons] at old ⊢
    tauto
  range := Or.inr (Or.inr ⟨_, List.mem_cons_self, trivial⟩)

theorem Kept.hear {d : Int} (kept : Kept start timers distances reads now (ph :: rest))
    (move : Move (some d) now ph now' ph') (accepted : ∀ lower ∈ rest, lower.Accepts now d) :
    Kept start timers distances (d :: reads) now' (ph' :: rest) := by
  cases move with
  | read => exact kept.read accepted

end

/-! ## What is kept in the end -/

/-- No update has been lost: the cells are what they were, with all ticks and values counted in. -/
structure Updated (start : Cells) (timers distances : Nat) (reads : List Int) (now : Cells) :
    Prop where
  ticks : now.ticks = wrap (start.ticks + timers)
  maxval : now.maxval = reads.foldr max start.maxval
  minval : now.minval = reads.foldr min start.minval
  range : 0 < distances → now.range = wrap (now.maxval - now.minval)

section

variable {start now : Cells} {timers distances : Nat} {reads : List Int}

theorem foldr_max_le (reads : List Int) (x m : Int) (most : ∀ v ∈ x :: reads, v ≤ m) :
    reads.foldr max x ≤ m := by
  induction reads with
  | nil => exact most x List.mem_cons_self
  | cons v reads ih =>
    apply max_le (most v (by simp))
    apply ih
    intro w member
    apply most
    simp only [List.mem_cons] at member ⊢
    tauto

theorem le_foldr_max (reads : List Int) (x v : Int) (member : v ∈ x :: reads) :
    v ≤ reads.foldr max x := by
  induction reads with
  | nil => exact (List.mem_singleton.mp member).le
  | cons w reads ih =>
    have old : v = w ∨ v ∈ x :: reads := by
      simp only [List.mem_cons] at member ⊢
      tauto
    obtain rfl | old := old
    · exact le_max_left ..
    · exact (ih old).trans (le_max_right ..)

theorem le_foldr_min (reads : List Int) (x m : Int) (least : ∀ v ∈ x :: reads, m ≤ v) :
    m ≤ reads.foldr min x := by
  induction reads with
  | nil => exact least x List.mem_cons_self
  | cons v reads ih =>
    apply le_min (least v (by simp))
    apply ih
    intro w member
    apply least
    simp only [List.mem_cons] at member ⊢
    tauto

theorem foldr_min_le (reads : List Int) (x v : Int) (member : v ∈ x :: reads) :
    reads.foldr min x ≤ v := by
  induction reads with
  | nil => exact (List.mem_singleton.mp member).ge
  | cons w reads ih =>
    have old : v = w ∨ v ∈ x :: reads := by
      simp only [List.mem_cons] at member ⊢
      tauto
    obtain rfl | old := old
    · exact min_le_left ..
    · exact (min_le_right ..).trans (ih old)

/-- When all handlers have returned nothing is still to be stored. -/
theorem Kept.updated (kept : Kept start timers distances reads now [.idle])
    (small : now.ticks < 2 ^ 32) :
    Updated start timers distances reads now := by
  constructor
  · rw [← kept.ticks, List.countP_cons_of_neg (by decide)]
    exact (wrap_of_lt (n := now.ticks) small).symm
  · apply le_antisymm (le_foldr_max reads _ _ kept.maxval)
    apply foldr_max_le
    intro v member
    obtain done | ⟨ph, there, holds⟩ := kept.above v member
    · exact done
    · rw [List.mem_singleton.mp there] at holds
      exact holds.elim
  · apply le_antisymm _ (foldr_min_le reads _ _ kept.minval)
    apply le_foldr_min
    intro v member
    obtain done | ⟨ph, there, holds⟩ := kept.below v member
    · exact done
    · rw [List.mem_singleton.mp there] at holds
      exact holds.elim
  · intro some
    obtain none | same | ⟨ph, there, spans⟩ := kept.range
    · omega
    · exact same
    · rw [List.mem_singleton.mp there] at spans
      exact spans.elim

end

end SystemsProjects.Irq
