import SystemsProjects.Vm.Progress
import Mathlib.Data.Finset.Card
import Mathlib.Data.Finset.Prod

/-!
# The swap space over runs

No slot is leaked and none is shared, as long as the 64-bit counter `SWAP_ID`
has not come round: `create_entry` hands out id 0 on its call number 2^64, and
0 is what an entry without a slot has for a sid.
-/

namespace SystemsProjects.Vm

open VM Heaps

/-- The number of `create_entry` calls of a run. -/
def entriesCreated : List Moment → Nat
  | [] => 0
  | m :: h => entriesCreated h + if m.after.swap.swapId = m.before.swap.swapId then 0 else 1

/-- The largest size of the swap queue in a run. -/
def peakSize : List Moment → Nat
  | [] => 0
  | m :: h => max (peakSize h) m.after.swap.size

section

variable {R : Nat → Prop} {env : Env} {s t : VM} {xs ys : List Slot} {op : Op} {b : UInt8}
  {h : List Moment}

/-! ## One operation -/

/-- What an operation may do to the swap queue. -/
inductive SwapEffect (s : VM) (xs : List Slot) (t : VM) (ys : List Slot) : Prop
  | same (ids : ids ys = ids xs) (swapId : t.swap.swapId = s.swap.swapId)
      (sizeMax : t.swap.sizeMax = s.swap.sizeMax)
  | created (absent : 0 ∉ ids xs) (ids : ids ys = ids xs ++ [s.swap.swapId])
      (swapId : t.swap.swapId = uint64 (s.swap.swapId + 1))
      (sizeMax : t.swap.sizeMax = max s.swap.sizeMax t.swap.size)
  | released (slots : ∀ x ∈ ys, x ∈ xs) (zero : 0 ∈ ids xs → 0 ∈ ids ys)
      (swapId : t.swap.swapId = s.swap.swapId) (sizeMax : t.swap.sizeMax = s.swap.sizeMax)

theorem Freed.swapEffect {v : Nat} (inv : Inv R s xs) (h : Freed R s xs v t ys) :
    SwapEffect s xs t ys := by
  cases h.idsMoved inv with
  | same ids swapId sizeMax _ => exact .same ids swapId sizeMax
  | created _ _ _ _ absent ids swapId sizeMax _ _ => exact .created absent ids swapId sizeMax

/-- A change of the swap queue seen from states with the same queues. -/
theorem SwapEffect.congr {s' t' : VM} (h : SwapEffect s xs t ys) (before : s'.swap = s.swap)
    (after : t'.swap = t.swap) : SwapEffect s' xs t' ys := by
  cases h with
  | same ids swapId sizeMax =>
    rw [← before, ← after] at swapId sizeMax
    exact .same ids swapId sizeMax
  | created absent ids swapId sizeMax =>
    rw [← before] at ids
    rw [← before, ← after] at swapId sizeMax
    exact .created absent ids swapId sizeMax
  | released slots zero swapId sizeMax =>
    rw [← before, ← after] at swapId sizeMax
    exact .released slots zero swapId sizeMax

theorem Effect.swapEffect (inv : Inv s.Running s xs) (effect : Effect env s xs op b t ys) :
    SwapEffect s xs t ys := by
  cases effect with
  | started _ _ _ _ _ usage freed _ started =>
    have moved := freed.swapEffect (usage.inv inv.startPrelude)
    exact moved.congr usage.swap.symm started.swap
  | switched => exact .same rfl rfl rfl
  | stopped _ stopped =>
    refine .released (fun x hx => ((stopped.slots x).mp hx).1) ?_ stopped.swapId stopped.sizeMax
    intro zero
    obtain ⟨x, hx, id⟩ := List.mem_map.mp zero
    exact List.mem_map.mpr ⟨x, (stopped.slots x).mpr ⟨hx, fun _ _ _ => id⟩, id⟩
  | aged usage => exact .same rfl (by rw [usage.swap]) (by rw [usage.swap])
  | accessed _ _ present _ _ touched =>
    cases present with
    | hit => exact .same rfl (by rw [touched.swap]) (by rw [touched.swap])
    | miss _ select _ _ freed loaded _ =>
      have usage := env.select_usage inv.framesOwned select
      have moved := freed.swapEffect (usage.inv inv)
      exact moved.congr usage.swap.symm (touched.swap.trans loaded.swap)

/-! ## How long the queue can get -/

/-- Each slot but the one with id 0 belongs to an entry of its own. -/
theorem Inv.length_le (inv : Inv R s xs) : xs.length ≤ maxPid * numPages + 1 := by
  classical
  have cover : (ids xs).toFinset ⊆ insert 0
    (((Finset.range maxPid) ×ˢ (Finset.range numPages)).image
      (fun k => s.entry k.1 k.2 .sid)) := by
    intro i hi
    rw [Finset.mem_insert]
    by_cases zero : i = 0
    · exact Or.inl zero
    · obtain ⟨p, v, hp, hv, sid⟩ := inv.idOwned i (List.mem_toFinset.mp hi) zero
      right
      rw [Finset.mem_image]
      refine ⟨(p, v), ?_, sid⟩
      rw [Finset.mem_product, Finset.mem_range, Finset.mem_range]
      exact ⟨inv.pidLt hp, hv⟩
  calc xs.length = (ids xs).length := by simp
    _ = (ids xs).toFinset.card := (List.toFinset_card_of_nodup inv.idsDistinct).symm
    _ ≤ _ := Finset.card_le_card cover
    _ ≤ _ := Finset.card_insert_le _ _
    _ ≤ ((Finset.range maxPid) ×ˢ (Finset.range numPages)).card + 1 :=
      Nat.add_le_add_right Finset.card_image_le 1
    _ = maxPid * numPages + 1 := by rw [Finset.card_product, Finset.card_range, Finset.card_range]

theorem Inv.size_eq (inv : Inv R s xs) : s.swap.size = xs.length := by
  rw [inv.rep.size, uint64]
  apply Nat.mod_eq_of_lt
  have := inv.length_le
  rw [maxPid_eq, numPages_eq] at this
  omega

theorem SwapEffect.sizeMax (inv : Inv R s xs) {R' : Nat → Prop} (after : Inv R' t ys)
    (effect : SwapEffect s xs t ys) (below : s.swap.size ≤ s.swap.sizeMax) :
    t.swap.sizeMax = max s.swap.sizeMax t.swap.size := by
  have size := inv.size_eq
  have size' := after.size_eq
  cases effect with
  | same ids' _ sizeMax =>
    have same : ys.length = xs.length := by simpa using congrArg List.length ids'
    rw [sizeMax, Nat.max_eq_left (by omega)]
  | created _ _ _ sizeMax => exact sizeMax
  | released slots _ _ sizeMax =>
    have nodup : ys.Nodup := after.idsDistinct.of_map _
    have fewer : ys.length ≤ xs.length := (nodup.subperm slots).length_le
    rw [sizeMax, Nat.max_eq_left (by omega)]

/-! ## The counter -/

/-- The ids that have been handed out, counted. -/
structure Counted (n : Nat) (s : VM) (xs : List Slot) : Prop where
  swapId : s.swap.swapId = uint64 (n + 1)
  issued : ∀ i ∈ ids xs, ∃ k < n, i = uint64 (k + 1)
  le : n ≤ 2 ^ 64
  wrapped : n = 2 ^ 64 → 0 ∈ ids xs

theorem Counted.zero_iff {n : Nat} (h : Counted n s xs) : 0 ∈ ids xs ↔ n = 2 ^ 64 := by
  constructor
  · intro zero
    obtain ⟨k, hk, e⟩ := h.issued 0 zero
    have le := h.le
    simp only [uint64] at e
    omega
  · exact h.wrapped

theorem uint64_succ_ne {n : Nat} (_ : n < 2 ^ 64) : uint64 (n + 1) ≠ n := by
  simp only [uint64]
  omega

theorem entriesCreated_cons (m : Moment) (h : List Moment) : entriesCreated (m :: h) =
    entriesCreated h + if m.after.swap.swapId = m.before.swap.swapId then 0 else 1 := rfl

theorem entriesCreated_lt {n : Nat} (short : h.length < n) : entriesCreated h < n := by
  induction h generalizing n with
  | nil => exact short
  | cons m h ih =>
    rw [List.length_cons] at short
    have before := ih (Nat.lt_sub_of_add_lt short)
    rw [entriesCreated_cons]
    split <;> omega

theorem SwapEffect.counted (op : Op) (b : UInt8) (inv : Inv R s xs) (effect : SwapEffect s xs t ys)
    (before : Counted (entriesCreated h) s xs) :
    Counted (entriesCreated (⟨s, op, b, t⟩ :: h)) t ys := by
  rw [entriesCreated_cons]
  cases effect with
  | same ids swapId _ =>
    rw [if_pos swapId, Nat.add_zero]
    refine ⟨swapId.trans before.swapId, ?_, before.le, ?_⟩
    · rw [ids]
      exact before.issued
    · rw [ids]
      exact before.wrapped
  | created absent ids swapId _ =>
    have few : entriesCreated h ≠ 2 ^ 64 := fun e => absent (before.wrapped e)
    have le := before.le
    have moved : t.swap.swapId ≠ s.swap.swapId := by
      rw [swapId]
      exact uint64_succ_ne inv.swapIdLt
    rw [if_neg moved]
    refine ⟨?_, ?_, by omega, ?_⟩
    · rw [swapId, before.swapId, uint64, uint64, uint64, Nat.mod_add_mod]
    · intro i hi
      rw [ids] at hi
      rcases List.mem_append.mp hi with hi | hi
      · obtain ⟨k, hk, e⟩ := before.issued i hi
        exact ⟨k, by omega, e⟩
      · exact ⟨entriesCreated h, by omega, (List.mem_singleton.mp hi).trans before.swapId⟩
    · intro last
      rw [ids, before.swapId, last]
      exact List.mem_append_right _ (by decide)
  | released slots zero swapId _ =>
    rw [if_pos swapId, Nat.add_zero]
    refine ⟨swapId.trans before.swapId, ?_, before.le, fun last => zero (before.wrapped last)⟩
    intro i hi
    obtain ⟨x, hx, e⟩ := List.mem_map.mp hi
    exact before.issued i (e ▸ List.mem_map_of_mem (slots x hx))

end

/-! ## Over runs -/

section

variable {env : Env} {s : VM} {h : List Moment} {mem : Bytes.ByteMem} {replacement : Replacement}
  {check : Bool}

/-- `swap_queue` is the list `xs` of slots, and they are exactly what the page
table entries of running processes name. -/
structure Accounted (s : VM) (xs : List Slot) : Prop where
  chain : Links.Chain (s.swap.heap.links SwapEntry.next) s.swap.head (blocks xs)
  holds : ∀ x ∈ xs, Holds s.swap.heap x
  tail : s.swap.tail = (blocks xs).getLast?
  size : s.swap.size = xs.length
  distinct : (ids xs).Nodup
  nonzero : 0 ∉ ids xs
  named : ∀ i, i ∈ ids xs ↔ i ≠ 0 ∧ ∃ p v, s.Running p ∧ v < numPages ∧ s.entry p v .sid = i
  unshared : ∀ p v r w, s.Running p → v < numPages → s.Running r → w < numPages →
    s.entry p v .sid ≠ 0 → s.entry p v .sid = s.entry r w .sid → p = r ∧ v = w
  empty : (∀ p, ¬ s.Running p) → xs = [] ∧ s.swap.head = none ∧ s.swap.tail = none ∧ s.swap.size = 0

theorem Inv.accounted {xs : List Slot} (inv : Inv s.Running s xs) (nonzero : 0 ∉ ids xs) :
    Accounted s xs where
  chain := inv.rep.chain
  holds := inv.rep.holds
  tail := inv.rep.tail
  size := inv.size_eq
  distinct := inv.idsDistinct
  nonzero := nonzero
  named i := by
    constructor
    · intro hi
      have ne : i ≠ 0 := fun e => nonzero (e ▸ hi)
      exact ⟨ne, inv.idOwned i hi ne⟩
    · rintro ⟨ne, p, v, hp, hv, rfl⟩
      exact inv.sidQueued hp hv ne
  unshared p v r w hp hv hr hw := inv.sidInj hp hv hr hw
  empty none := by
    have nil : xs = [] := by
      rw [List.eq_nil_iff_forall_not_mem]
      intro x hx
      have hi : x.id ∈ ids xs := List.mem_map_of_mem hx
      obtain ⟨p, _, hp, _⟩ := inv.idOwned x.id hi (fun e => nonzero (e ▸ hi))
      exact none p hp
    subst nil
    exact ⟨rfl, inv.rep.chain, inv.rep.tail, inv.size_eq⟩

theorem run_counted (run : Run env (initial mem replacement check) h s) :
    ∃ xs, Inv s.Running s xs ∧ Counted (entriesCreated h) s xs ∧ s.swap.size ≤ s.swap.sizeMax ∧
      s.swap.sizeMax = peakSize h := by
  refine run.invariant (fun h s xs => Counted (entriesCreated h) s xs ∧ s.swap.size ≤
    s.swap.sizeMax ∧
      s.swap.sizeMax = peakSize h) ⟨?_, Nat.le_refl 0, rfl⟩ ?_
  · refine ⟨rfl, by simp, Nat.zero_le _, ?_⟩
    intro e
    exact absurd e.symm (Nat.pos_of_neZero (2 ^ 64)).ne'
  · rintro h s xs op b t ys inv ⟨counted, below, top⟩ effect after
    have swap := effect.swapEffect inv
    have grown := swap.sizeMax inv after below
    refine ⟨swap.counted op b inv counted, ?_, ?_⟩
    · rw [grown]
      exact Nat.le_max_right _ _
    · rw [grown, top]
      rfl

/-- In a run with fewer than 2^64 `create_entry` calls the swap queue is the list
of the slots that the running processes' entries name, its size and its largest
size are right, and the next operation does not make `swap_read` or `swap_free`
panic: it succeeds, or `calloc` has returned NULL. -/
theorem run_swap_accounted (run : Run env (initial mem replacement check) h s)
    (few : entriesCreated h < 2 ^ 64) :
    (∃ xs, Accounted s xs) ∧ s.swap.sizeMax = peakSize h ∧
    ∀ op : Op, op.Legal env s → (∃ b t, op.exec env s = .ok (b, t)) ∨
      op.exec env s = .error allocFailed ∧ ∃ heap, env.calloc heap = none := by
  obtain ⟨xs, inv, counted, _, top⟩ := run_counted run
  have nonzero : 0 ∉ ids xs := fun zero => few.ne (counted.zero_iff.mp zero)
  refine ⟨⟨xs, inv.accounted nonzero⟩, top, ?_⟩
  intro op legal
  rcases exec_spec inv legal with failed | ⟨b, t, _, ok, _⟩
  · exact Or.inr failed
  · exact Or.inl ⟨b, t, ok⟩

end

end SystemsProjects.Vm
