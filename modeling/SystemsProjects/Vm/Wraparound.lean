import SystemsProjects.Vm.FlatMemory
import SystemsProjects.Vm.Policies

/-!
# When `SWAP_ID` comes round

A process that writes to more pages than there are frames, and is stopped, uses
up at least one id. Doing so again and again, under the program's own RANDOM
policy, gets to the `create_entry` call that hands out id 0, and the page that
is saved under it is lost.
-/

namespace SystemsProjects.Vm

open VM Heaps

section

variable {s t : VM} {xs ys : List Slot} {h : List Moment} {op : Op} {b : UInt8}

theorem pageSize_pos : 0 < pageSize := by
  rw [pageSize_eq]
  decide

theorem numFrames_lt {v : Nat} (hv : v < numFrames) : v < numPages := by
  rw [numFrames_eq] at hv
  rw [numPages_eq]
  omega

/-- An operation creates an entry, or it leaves no id in the queue that was not
there. -/
theorem SwapEffect.created_or_fewer (op : Op) (b : UInt8) (h : List Moment)
    (inv : Inv s.Running s xs) (effect : SwapEffect s xs t ys) :
    entriesCreated (⟨s, op, b, t⟩ :: h) = entriesCreated h + 1 ∨
    entriesCreated (⟨s, op, b, t⟩ :: h) = entriesCreated h ∧ ∀ i ∈ ids ys, i ∈ ids xs := by
  rw [entriesCreated_cons]
  cases effect with
  | same ids swapId _ =>
    right
    rw [if_pos swapId, ids]
    exact ⟨rfl, fun _ hi => hi⟩
  | created _ _ swapId _ =>
    left
    rw [if_neg]
    rw [swapId]
    exact uint64_succ_ne inv.swapIdLt
  | released slots _ swapId _ =>
    right
    rw [if_pos swapId]
    refine ⟨rfl, fun i hi => ?_⟩
    obtain ⟨x, hx, rfl⟩ := List.mem_map.mp hi
    exact List.mem_map_of_mem (slots x hx)

/-! ## One round -/

/-- Process 0 has been started after the run `h₀` and has written 1 to its first `k` pages, and
an id in the queue is that of an entry created since. -/
structure Writing (h₀ : List Moment) (k : Nat) (h : List Moment) (s : VM) (xs : List Slot) : Prop
    extends Alone h s xs where
  length : h.length = h₀.length + (k + 2)
  written : ∀ v < k, lastWritten 0 (v * pageSize) h = 1
  le : entriesCreated h₀ ≤ entriesCreated h
  fewer : entriesCreated h = entriesCreated h₀ → ∀ i ∈ ids xs, i = 0

/-- Neither of two runs in a row has created an entry if the whole has not. -/
theorem fewer_step {h₀ : List Moment} (op : Op) (b : UInt8) (inv : Inv s.Running s xs)
    (effect : SwapEffect s xs t ys) (le : entriesCreated h₀ ≤ entriesCreated h)
    (fewer : entriesCreated h = entriesCreated h₀ → ∀ i ∈ ids xs, i = 0) :
    entriesCreated h₀ ≤ entriesCreated (⟨s, op, b, t⟩ :: h) ∧
    (entriesCreated (⟨s, op, b, t⟩ :: h) = entriesCreated h₀ → ∀ i ∈ ids ys, i = 0) := by
  rcases effect.created_or_fewer op b h inv with created | ⟨same, sub⟩
  · refine ⟨by omega, fun e => absurd e (by omega)⟩
  · refine ⟨by omega, fun e i hi => fewer (by omega) i (sub i hi)⟩

/-- The round begins with a START and a context switch. -/
theorem writing_start (run : Run standardEnv zeroed h s) (inv : Inv s.Running s xs)
    (policy : s.replacement = .random) (idle : ∀ p, ¬ s.Running p) :
    ∃ h' t ys, Writing h 0 h' t ys := by
  have zeroIds : ∀ i ∈ ids xs, i = 0 := by
    intro i hi
    by_contra ne
    obtain ⟨p, _, hp, _⟩ := inv.idOwned i hi ne
    exact idle p hp
  obtain ⟨t, ys, effect, a⟩ := alone_start run inv policy idle
  have swap := fewer_step (h := h) (.procInit 0) 0 inv (effect.swapEffect inv)
    (Nat.le_refl _) (fun _ => zeroIds)
  -- the context switch leaves the swap queue as it is
  have same : entriesCreated (⟨t, .contextSwitch 0, 0, contextSwitch 0 t⟩ ::
    ⟨s, .procInit 0, 0, t⟩ :: h) =
      entriesCreated (⟨s, .procInit 0, 0, t⟩ :: h) := by
    rw [entriesCreated_cons]
    exact (congrArg _ (if_pos rfl)).trans (Nat.add_zero _)
  refine ⟨_, _, ys, a, rfl, fun _ lt => absurd lt (Nat.not_lt_zero _), ?_, ?_⟩
  · rw [same]
    exact swap.1
  · rw [same]
    exact swap.2

theorem page_addr_lt {k : Nat} (hk : k < numFrames) : k * pageSize < 2 ^ vaddrLen := by
  simp only [numFrames_eq, pageSize_eq, vaddrLen] at *
  omega

theorem vaddrVpn_page {k : Nat} (hk : k < numFrames) : vaddrVpn (k * pageSize) = k := by
  have split := vaddr_split (page_addr_lt hk)
  have offset := vaddrOffset_lt (k * pageSize)
  exact (page_offset_inj offset pageSize_pos (split.trans (Nat.add_zero _).symm)).1

/-- It goes on with a write to the next page. -/
theorem Writing.next {h₀ : List Moment} {k : Nat} (w : Writing h₀ k h s xs) (hk : k < numFrames) :
    ∃ h' t ys, Writing h₀ (k + 1) h' t ys := by
  obtain ⟨b, t, ys, effect, a⟩ := w.access (k * pageSize) 'w' 1 (page_addr_lt hk)
  have swap := fewer_step (.memAccess (k * pageSize) 'w' 1) b w.inv
    (effect.swapEffect w.inv) w.le w.fewer
  refine ⟨_, t, ys, a, ?_, ?_, swap.1, swap.2⟩
  · rw [List.length_cons, w.length]
    omega
  intro v hv
  simp only [lastWritten, w.current, true_and]
  split
  · rfl
  · rename_i other
    rcases Nat.lt_succ_iff_lt_or_eq.mp hv with lt | rfl
    · exact w.written v lt
    · exact absurd rfl other

theorem writing_all (run : Run standardEnv zeroed h s) (inv : Inv s.Running s xs)
    (policy : s.replacement = .random) (idle : ∀ p, ¬ s.Running p) {k : Nat} (hk : k ≤ numFrames) :
    ∃ h' t ys, Writing h k h' t ys := by
  induction k with
  | zero => exact writing_start run inv policy idle
  | succ k ih =>
    obtain ⟨_, _, _, w⟩ := ih (by omega)
    exact w.next (by omega)

/-- There are fewer frames than pages written. -/
theorem Writing.page_out {h₀ : List Moment} (w : Writing h₀ numFrames h s xs) :
    ∃ v < numFrames, s.entry 0 v .valid = 0 := by
  classical
  by_contra none
  have on : s.Running 0 := by
    rw [w.alone]
  have valid : ∀ v < numFrames, s.entry 0 v .valid ≠ 0 := fun v hv out => none ⟨v, hv, out⟩
  have into : Set.MapsTo (fun v => s.entry 0 v .pfn) (Finset.range numFrames)
      (Finset.Ico 1 numFrames) := by
    intro v hv
    have lt := Finset.mem_range.mp hv
    have own := w.inv.owns on (numFrames_lt lt) (valid v lt)
    exact Finset.mem_coe.mpr (Finset.mem_Ico.mpr ⟨own.pos, own.lt⟩)
  obtain ⟨v, hv, u, hu, ne, same⟩ := Finset.exists_ne_map_eq_of_card_lt_of_maps_to (by decide) into
  have hv' := Finset.mem_range.mp hv
  have hu' := Finset.mem_range.mp hu
  exact ne (w.inv.entry_inj on (numFrames_lt hv') on (numFrames_lt hu') (valid v hv') (valid u hu')
    same).2

/-! ## Round after round -/

/-- Process 0 runs and is the current one, and its page `v`, to which it wrote 1,
is neither in memory nor in a slot of the queue that it knows of. -/
structure Lost (h : List Moment) (s : VM) (xs : List Slot) (v : Nat) : Prop
    extends Alone h s xs where
  lt : v < numFrames
  out : s.entry 0 v .valid = 0
  unsaved : s.entry 0 v .sid = 0
  written : lastWritten 0 (v * pageSize) h = 1

/-- A whole round loses a page or creates an entry. -/
theorem round (run : Run standardEnv zeroed h s) (inv : Inv s.Running s xs)
    (policy : s.replacement = .random) (idle : ∀ p, ¬ s.Running p) :
    (∃ h' t ys v, Lost h' t ys v) ∨
    ∃ h' t ys, Run standardEnv zeroed h' t ∧ Inv t.Running t ys ∧ t.replacement = .random ∧
      (∀ p, ¬ t.Running p) ∧ entriesCreated h < entriesCreated h' := by
  obtain ⟨h₁, u, zs, w⟩ := writing_all run inv policy idle (Nat.le_refl numFrames)
  obtain ⟨v, hv, out⟩ := w.page_out
  by_cases unsaved : u.entry 0 v .sid = 0
  · exact Or.inl ⟨h₁, u, zs, v, w.toAlone, hv, out, unsaved, w.written v hv⟩
  · right
    have queued := w.inv.sidQueued w.running (numFrames_lt hv) unsaved
    have created : entriesCreated h < entriesCreated h₁ := by
      refine Nat.lt_of_le_of_ne w.le (fun same => unsaved ?_)
      exact w.fewer same.symm _ queued
    obtain ⟨t, ys, run₂, inv₂, policy₂, idle₂⟩ := w.stop
    exact ⟨_, t, ys, run₂, inv₂, policy₂, idle₂, Nat.lt_of_lt_of_le created (Nat.le_add_right _ _)⟩

/-- Enough rounds lose a page, for the counter cannot go on for ever. -/
theorem page_lost : ∃ h s xs v, Lost h s xs v := by
  by_contra kept
  have rounds : ∀ n, ∃ h s xs, Run standardEnv zeroed h s ∧ Inv s.Running s xs ∧
      s.replacement = .random ∧ (∀ p, ¬ s.Running p) ∧ n ≤ entriesCreated h := by
    intro n
    induction n with
    | zero => exact ⟨[], zeroed, [], .start, inv_initial, rfl, initial_idle, Nat.le_refl 0⟩
    | succ n ih =>
      obtain ⟨_, _, _, run, inv, policy, idle, le⟩ := ih
      rcases round run inv policy idle with lost | ⟨h, s, xs, run, inv, policy, idle, more⟩
      · exact absurd lost kept
      · exact ⟨h, s, xs, run, inv, policy, idle, Nat.le_trans (Nat.succ_le_succ le) more⟩
  obtain ⟨h, s, _, run, _, _, _, many⟩ := rounds (2 ^ 64 + 1)
  obtain ⟨_, _, counted, _⟩ := run_counted run
  exact absurd (Nat.le_trans many counted.le) (Nat.not_succ_le_self _)

/-- The id 0 is in the queue by then. -/
theorem Lost.zero_issued {v : Nat} (lost : Lost h s xs v) :
    ∃ zs, Inv s.Running s zs ∧ 0 ∈ ids zs ∧ entriesCreated h = 2 ^ 64 := by
  obtain ⟨zs, inv, counted, agrees⟩ := run_agrees lost.run
  rcases Nat.lt_or_eq_of_le counted.le with few | all
  · obtain ⟨page, backing, same⟩ := (agrees few).onDisk lost.running (numFrames_lt lost.lt)
      (Or.inl lost.out)
    rw [lost.unsaved] at backing
    rcases backing with ⟨_, rfl⟩ | ⟨ne, _⟩
    · have zero := same 0 pageSize_pos
      rw [Nat.add_zero, flat_after_eq, lost.written] at zero
      exact absurd zero (by decide)
    · exact absurd rfl ne
  · exact ⟨zs, inv, counted.zero_iff.mpr all, all⟩

/-- A read of the lost page gives 0. -/
theorem Lost.reads_zero {v : Nat} (lost : Lost h s xs v) :
    ∃ t, memAccess standardEnv (v * pageSize) 'r' 0 s = .ok (0, t) := by
  have vpn := vaddrVpn_page lost.lt
  have legal := lost.legal (v * pageSize) 'r' 0 (page_addr_lt lost.lt)
  rcases exec_spec lost.inv legal with ⟨_, _, none⟩ | ⟨b, t, ys, ok, effect, _⟩
  · exact absurd none (standardEnv_alloc _)
  · cases effect with
    | @accessed r _ _ _ u _ _ _ _ cur present middle valid touched =>
      obtain rfl : r = 0 := Option.some.inj (cur.current.symm.trans lost.current)
      have result := touched.result
      rw [vpn] at present valid result
      cases present with
      | hit => exact absurd lost.out valid
      | @miss c f _ i _ page invalid select hi unprotected freed loaded backing =>
        have usage := standardEnv.select_usage lost.inv.framesOwned select
        have outc : c.entry 0 v .valid = 0 := by
          rw [usage.entry lost.inv cur.running (numFrames_lt lost.lt) (by decide)]
          exact lost.out
        have sid : f.entry 0 v .sid = 0 := by
          rw [freed.kept 0 v cur.running (numFrames_lt lost.lt) (fun here => here.2.2.1 outc),
            usage.entry lost.inv cur.running (numFrames_lt lost.lt) (by decide)]
          exact lost.unsaved
        rw [sid] at backing
        rcases backing with ⟨_, rfl⟩ | ⟨ne, _⟩
        · rw [if_pos rfl, loaded.pfn, loaded.loaded _ (vaddrOffset_lt _)] at result
          exact ⟨t, result ▸ ok⟩
        · exact absurd rfl ne

/-- In some run a read does not return the byte last written. -/
theorem read_returns_stale : ∃ h s addr, Run standardEnv zeroed h s ∧
    Op.Legal standardEnv s (.memAccess addr 'r' 0) ∧ s.currentProcess = some 0 ∧
    ∃ t, memAccess standardEnv addr 'r' 0 s = .ok (0, t) ∧ lastWritten 0 addr h = 1 := by
  obtain ⟨h, s, xs, v, lost⟩ := page_lost
  obtain ⟨t, read⟩ := lost.reads_zero
  exact ⟨h, s, v * pageSize, lost.run,
    lost.legal (v * pageSize) 'r' 0 (page_addr_lt lost.lt),
    lost.current, t, read, lost.written⟩

/-- In some run a slot of the swap queue has the id 0. -/
theorem zero_id_queued : ∃ h s xs, Run standardEnv zeroed h s ∧ SwapRep s.swap xs ∧ 0 ∈ ids xs := by
  obtain ⟨h, s, _, _, lost⟩ := page_lost
  obtain ⟨zs, inv, zero, _⟩ := lost.zero_issued
  exact ⟨h, s, zs, lost.run, inv.rep, zero⟩

/-- One round is short, so it is all in order, and a page that it wrote to is in the queue. -/
theorem round_swap_accounted : ∃ h s xs, Run standardEnv zeroed h s ∧ Accounted s xs ∧ xs ≠ [] ∧
    s.swap.sizeMax = peakSize h ∧
    ∃ b t, Op.exec standardEnv (.procCleanup 0) s = .ok (b, t) := by
  obtain ⟨h, s, xs, w⟩ := writing_all .start inv_initial rfl initial_idle (Nat.le_refl numFrames)
  have short : h.length = 66 := w.length
  have few : entriesCreated h < 2 ^ 64 := entriesCreated_lt (by omega)
  obtain ⟨v, hv, out⟩ := w.page_out
  have saved : s.entry 0 v .sid ≠ 0 := by
    intro unsaved
    have lost : Lost h s xs v := ⟨w.toAlone, hv, out, unsaved, w.written v hv⟩
    obtain ⟨_, _, _, all⟩ := lost.zero_issued
    exact few.ne all
  obtain ⟨⟨zs, accounted⟩, top, next⟩ := run_swap_accounted w.run few
  have queued := (accounted.named _).mpr ⟨saved, 0, v, w.running, numFrames_lt hv, rfl⟩
  refine ⟨h, s, zs, w.run, accounted, ?_, top, ?_⟩
  · rintro rfl
    exact List.not_mem_nil queued
  · rcases next (.procCleanup 0) w.running with ok | ⟨_, _, none⟩
    · exact ok
    · exact absurd none (standardEnv_alloc _)

end

end SystemsProjects.Vm
