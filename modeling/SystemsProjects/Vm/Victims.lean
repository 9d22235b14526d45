import SystemsProjects.Vm.Runs

/-!
# Choosing a victim

`select_victim_frame` under each policy: what it returns, when it returns at
all, and that it touches usage records only.
-/

namespace SystemsProjects.Vm

open VM Heaps

/-- A frame that may be evicted. -/
def Evictable (s : VM) (f : Nat) : Prop := f < numFrames ∧ s.fte f .isProtected = 0

/-- Every frame that may be evicted is in use. -/
def NoneFree (s : VM) : Prop := ∀ f, Evictable s f → s.fte f .mapped ≠ 0

section

variable {s t : VM} {f v : Nat} {prng : Nat → Nat}

/-! ## Free frames, RANDOM and APPROX_LRU -/

theorem freeFrameOf_some (h : freeFrameOf s = some v) : Evictable s v ∧ s.fte v .mapped = 0 := by
  have found := List.find?_some h
  have inside := List.mem_range.mp (List.mem_of_find?_eq_some h)
  simp only [decide_eq_true_eq] at found
  exact ⟨⟨inside, found.1⟩, found.2⟩

theorem freeFrameOf_none (h : freeFrameOf s = none) : NoneFree s := by
  rintro f ⟨hf, unprotected⟩ unmapped
  have missed := List.find?_eq_none.mp h f (List.mem_range.mpr hf)
  simp [unprotected, unmapped] at missed

/-- Draws leave everything but their own count alone. -/
theorem usage_prngCalls (s : VM) (n : Nat) : UsageOnly s { s with prngCalls := n } :=
  ⟨rfl, rfl, rfl, rfl, rfl, rfl, fun _ _ _ _ => rfl, fun _ _ _ _ _ _ _ => rfl, fun _ _ _ _ _ _ =>
    rfl⟩

theorem russianRoulette_spec (prng : Nat → Nat) (is : List Nat) (found : Nat) (s : VM) :
    (∃ n, (russianRoulette prng is found s).2.2 = { s with prngCalls := n }) ∧
    ((∃ i ∈ is, s.fte i .isProtected = 0 ∧ (russianRoulette prng is found s).1 = some i) ∨
      (russianRoulette prng is found s).1 = none ∧
        ((∃ i ∈ is, s.fte i .isProtected = 0 ∧ (russianRoulette prng is found s).2.1 = i) ∨
          (∀ i ∈ is, s.fte i .isProtected ≠ 0) ∧
          (russianRoulette prng is found s).2.1 = found)) := by
  induction is generalizing found s with
  | nil => exact ⟨⟨s.prngCalls, rfl⟩, Or.inr ⟨rfl, Or.inr ⟨by simp, rfl⟩⟩⟩
  | cons i is ih =>
    by_cases unprotected : s.fte i .isProtected = 0
    · by_cases fired : prng s.prngCalls % 2 ≠ 0
      · simp only [russianRoulette, if_pos unprotected, if_pos fired]
        exact ⟨⟨_, rfl⟩, Or.inl ⟨i, List.mem_cons_self, unprotected, rfl⟩⟩
      · simp only [russianRoulette, if_pos unprotected, if_neg fired]
        obtain ⟨⟨n, state⟩, outcome⟩ := ih i { s with prngCalls := s.prngCalls + 1 }
        refine ⟨⟨n, state⟩, ?_⟩
        rcases outcome with ⟨j, hj, free, hit⟩ | ⟨missed, ⟨j, hj, free, last⟩ | ⟨_, last⟩⟩
        · exact Or.inl ⟨j, List.mem_cons_of_mem i hj, free, hit⟩
        · exact Or.inr ⟨missed, Or.inl ⟨j, List.mem_cons_of_mem i hj, free, last⟩⟩
        · exact Or.inr ⟨missed, Or.inl ⟨i, List.mem_cons_self, unprotected, last⟩⟩
    · simp only [russianRoulette, if_neg unprotected]
      obtain ⟨state, outcome⟩ := ih found s
      refine ⟨state, ?_⟩
      rcases outcome with ⟨j, hj, free, hit⟩ | ⟨missed, ⟨j, hj, free, last⟩ | ⟨all, last⟩⟩
      · exact Or.inl ⟨j, List.mem_cons_of_mem i hj, free, hit⟩
      · exact Or.inr ⟨missed, Or.inl ⟨j, List.mem_cons_of_mem i hj, free, last⟩⟩
      · refine Or.inr ⟨missed, Or.inr ⟨?_, last⟩⟩
        rintro j (_ | ⟨_, hj⟩)
        · exact unprotected
        · exact all j hj

/-- The APPROX_LRU loop ends on a frame that beats the counts before it, or on
what it started with. -/
theorem leastReferenced_spec (is : List Nat) (best : Nat × Nat) :
    (∃ i ∈ is, s.fte i .isProtected = 0 ∧ s.fte i .refCount < best.1 ∧
      (leastReferenced s is best).2 = i) ∨
    (∀ i ∈ is, s.fte i .isProtected = 0 → best.1 ≤ s.fte i .refCount) ∧
      (leastReferenced s is best).2 = best.2 := by
  induction is generalizing best with
  | nil => exact Or.inr ⟨by simp, rfl⟩
  | cons i is ih =>
    by_cases better : s.fte i .isProtected = 0 ∧ s.fte i .refCount < best.1
    · simp only [leastReferenced, if_pos better]
      rcases ih (s.fte i .refCount, i) with ⟨j, hj, free, lt, last⟩ | ⟨_, last⟩
      · exact Or.inl ⟨j, List.mem_cons_of_mem i hj, free, lt.trans better.2, last⟩
      · exact Or.inl ⟨i, List.mem_cons_self, better.1, better.2, last⟩
    · simp only [leastReferenced, if_neg better]
      rcases ih best with ⟨j, hj, free, lt, last⟩ | ⟨all, last⟩
      · exact Or.inl ⟨j, List.mem_cons_of_mem i hj, free, lt, last⟩
      · refine Or.inr ⟨?_, last⟩
        rintro j (_ | ⟨_, hj⟩) free
        · exact Nat.le_of_not_lt (fun lt => better ⟨free, lt⟩)
        · exact all j hj free

/-! ## CLOCKSWEEP -/

/-- Every frame that may be evicted leads to an entry of a page table. -/
structure Sweepable (s : VM) : Prop where
  owned : FramesOwned s
  full : NoneFree s

theorem Sweepable.usage (h : Sweepable s) (usage : UsageOnly s t) : Sweepable t where
  owned := usage.framesOwned h.owned
  full := by
    rintro f ⟨hf, unprotected⟩
    rw [usage.fte f hf _ (by decide)] at unprotected ⊢
    exact h.full f ⟨hf, unprotected⟩

/-- The entry that frame `f` belongs to, and where it is. -/
structure EntryOf (s : VM) (f p b : Nat) : Prop where
  owner : s.fte f .process = pcbPtr p
  small : p < maxPid
  table : (s.procs p).savedPtbr = b
  pos : 0 < b
  lt : b < numFrames
  locked : s.fte b .isProtected ≠ 0
  vpn : s.fte f .vpn < numPages

theorem Sweepable.entryOf (h : Sweepable s) (hf : Evictable s f) : ∃ p b, EntryOf s f p b := by
  obtain ⟨p, small, owner, vpn, pos, lt, locked⟩ := h.owned f hf.1 hf.2 (h.full f hf)
  exact ⟨p, _, owner, small, rfl, pos, lt, locked, vpn⟩

/-- That entry is what the sweep looks up. -/
theorem EntryOf.lookup {p b : Nat} (at' : EntryOf s f p b) :
    s.pcb (s.fte f .process) .savedPtbr = .ok b ∧
      entryAt b (s.fte f .vpn) = .ok (pteAddr b (s.fte f .vpn)) := by
  refine ⟨?_, entryAt_eq at'.lt at'.vpn⟩
  rw [at'.owner, ← at'.table]
  exact pcb_savedPtbr at'.small (at'.table ▸ at'.lt)

/-- Frame `f` has not been referenced since its bit was last cleared. -/
def Idle (s : VM) (f : Nat) : Prop :=
  ∀ p b, EntryOf s f p b → s.pte (pteAddr b (s.fte f .vpn)) .referenced = 0

/-- One round of the sweep, at the frame after `curr`: it ends there, or it goes
on from a frame that was not idle, with that frame idle and no idle frame
disturbed. -/
theorem clockSweep_round (h : Sweepable s) (limit curr : Nat) :
    (Evictable s ((curr + 1) % numFrames) ∧ clockSweep (limit + 1) curr s =
      .ok ((curr + 1) % numFrames, { s with lastEvicted := (curr + 1) % numFrames })) ∨
    ∃ t, clockSweep (limit + 1) curr s = clockSweep limit ((curr + 1) % numFrames) t ∧
      UsageOnly s t ∧ (Evictable s ((curr + 1) % numFrames) → ¬ Idle s ((curr + 1) % numFrames)) ∧
      ∀ f, Evictable s f → (f = (curr + 1) % numFrames ∨ Idle s f) → Idle t f := by
  have inside : (curr + 1) % numFrames < numFrames := Nat.mod_lt _ (by decide)
  by_cases unprotected : s.fte ((curr + 1) % numFrames) .isProtected = 0
  · have here : Evictable s ((curr + 1) % numFrames) := ⟨inside, unprotected⟩
    obtain ⟨p, b, at'⟩ := h.entryOf here
    obtain ⟨table, entry⟩ := at'.lookup
    by_cases idle : s.pte (pteAddr b (s.fte ((curr + 1) % numFrames) .vpn)) .referenced = 0
    · left
      refine ⟨here, ?_⟩
      simp only [clockSweep, if_pos unprotected, table, entry, bind, Except.bind, if_pos idle]
      rfl
    · right
      have usage := usage_setReferenced (s := s) (x := 0) at'.pos at'.vpn at'.locked
      refine ⟨_, ?_, usage, fun _ still => idle (still p b at'), ?_⟩
      · simp only [clockSweep, if_pos unprotected, table, entry, bind, Except.bind, if_neg idle]
      · intro f hf reason p' b' there
        have old : EntryOf s f p' b' := by
          refine ⟨?_, there.small, ?_, there.pos, there.lt, ?_, ?_⟩
          · rw [← usage.fte f hf.1 _ (by decide)]
            exact there.owner
          · rw [← usage.procs]
            exact there.table
          · rw [← usage.fte b' there.lt _ (by decide)]
            exact there.locked
          · rw [← usage.fte f hf.1 _ (by decide)]
            exact there.vpn
        rw [usage.fte f hf.1 _ (by decide), pte_setPte at'.vpn old.vpn]
        split
        · rfl
        · rename_i apart
          rcases reason with rfl | still
          · have same : p' = p := pcbPtr_inj (old.owner.symm.trans at'.owner)
            subst same
            exact absurd ⟨old.table.symm.trans at'.table, rfl, rfl⟩ apart
          · exact still p' b' old
  · right
    refine ⟨s, ?_, UsageOnly.refl s, fun here => absurd here.2 unprotected, ?_⟩
    · simp only [clockSweep, if_neg unprotected]
    · rintro f hf (rfl | idle)
      · exact absurd hf.2 unprotected
      · exact idle

theorem clockSweep_ok (h : Sweepable s) {limit curr : Nat}
    (ok : clockSweep limit curr s = .ok (v, t)) : Evictable s v ∧ UsageOnly s t := by
  induction limit generalizing curr s with
  | zero => cases ok
  | succ limit ih =>
    rcases clockSweep_round h limit curr with ⟨here, stop⟩ | ⟨u, go, usage, _, _⟩
    · rw [stop] at ok
      cases ok
      exact ⟨here, ⟨rfl, rfl, rfl, rfl, rfl, rfl, fun _ _ _ _ => rfl, fun _ _ _ _ _ _ _ => rfl,
        fun _ _ _ _ _ _ => rfl⟩⟩
    · rw [go] at ok
      obtain ⟨⟨hv, unprotected⟩, more⟩ := ih (h.usage usage) ok
      refine ⟨⟨hv, ?_⟩, usage.trans more⟩
      rw [← usage.fte v hv _ (by decide)]
      exact unprotected

theorem Evictable.usage (hf : Evictable s f) (usage : UsageOnly s t) : Evictable t f := by
  refine ⟨hf.1, ?_⟩
  rw [usage.fte f hf.1 _ (by decide)]
  exact hf.2

/-- A sweep that comes to an idle frame within `limit` rounds ends. -/
theorem clockSweep_idle (h : Sweepable s) (hf : Evictable s f) (idle : Idle s f)
    {limit curr d : Nat} (pos : 0 < d) (ahead : (curr + d) % numFrames = f) (enough : d ≤ limit) :
    ∃ v t, clockSweep limit curr s = .ok (v, t) := by
  induction d generalizing limit curr s with
  | zero => exact absurd pos (Nat.lt_irrefl 0)
  | succ d ih =>
    obtain ⟨limit, rfl⟩ : ∃ n, limit = n + 1 := ⟨limit - 1, by omega⟩
    rcases clockSweep_round h limit curr with ⟨_, stop⟩ | ⟨t, go, usage, busy, keeps⟩
    · exact ⟨_, _, stop⟩
    · by_cases last : d = 0
      · subst last
        rw [← ahead] at hf idle
        exact absurd idle (busy hf)
      · rw [go]
        refine ih (h.usage usage) (hf.usage usage) (keeps f hf (Or.inr idle)) (by omega) ?_
          (by omega)
        rw [Nat.mod_add_mod, Nat.add_assoc, Nat.add_comm 1 d]
        exact ahead

/-- A sweep that comes to a frame it may evict ends at the latest one turn later. -/
theorem clockSweep_reaches (h : Sweepable s) (hf : Evictable s f) {limit curr d : Nat}
    (pos : 0 < d) (ahead : (curr + d) % numFrames = f) (enough : d + numFrames ≤ limit) :
    ∃ v t, clockSweep limit curr s = .ok (v, t) := by
  induction d generalizing limit curr s with
  | zero => exact absurd pos (Nat.lt_irrefl 0)
  | succ d ih =>
    obtain ⟨limit, rfl⟩ : ∃ n, limit = n + 1 := ⟨limit - 1, by omega⟩
    rcases clockSweep_round h limit curr with ⟨_, stop⟩ | ⟨t, go, usage, _, keeps⟩
    · exact ⟨_, _, stop⟩
    · rw [go]
      by_cases last : d = 0
      · -- this round was at `f`, which is idle from now on
        subst last
        rw [ahead] at keeps ⊢
        refine clockSweep_idle (h.usage usage) (hf.usage usage) (keeps f hf (Or.inl rfl))
          (d := numFrames) (by decide) ?_ (by omega)
        rw [Nat.add_mod_right]
        exact Nat.mod_eq_of_lt hf.1
      · refine ih (h.usage usage) (hf.usage usage) (by omega) ?_ (by omega)
        rw [Nat.mod_add_mod, Nat.add_assoc, Nat.add_comm 1 d]
        exact ahead

/-- Two turns are enough, wherever the hand stands. -/
theorem clockSweep_ends (h : Sweepable s) (hf : Evictable s f) {limit : Nat} (curr : Nat)
    (enough : 2 * numFrames ≤ limit) : ∃ v t, clockSweep limit curr s = .ok (v, t) := by
  have hand : curr % numFrames < numFrames := Nat.mod_lt _ (by decide)
  have inside := hf.1
  by_cases before : curr % numFrames < f
  · refine clockSweep_reaches h hf (d := f - curr % numFrames) (by omega) ?_ (by omega)
    rw [← Nat.mod_add_mod, Nat.add_sub_cancel' before.le]
    exact Nat.mod_eq_of_lt inside
  · refine clockSweep_reaches h hf (d := f + numFrames - curr % numFrames) (by omega) ?_ (by omega)
    rw [← Nat.mod_add_mod, Nat.add_sub_cancel' (by omega), Nat.add_mod_right]
    exact Nat.mod_eq_of_lt inside

/-- With every frame protected the sweep never ends. -/
theorem clockSweep_endless (locked : ∀ f < numFrames, s.fte f .isProtected ≠ 0) (limit curr : Nat) :
    clockSweep limit curr s = .error .endless := by
  induction limit generalizing curr with
  | zero => rfl
  | succ limit ih =>
    simp only [clockSweep, if_neg (locked _ (Nat.mod_lt _ (by decide)))]
    exact ih _

/-! ## `select_victim_frame` -/

/-- Whatever is chosen, only usage records are touched on the way. -/
theorem selectVictimFrame_usage {limit : Nat} (owned : FramesOwned s)
    (ok : selectVictimFrame prng limit s = .ok (v, t)) : UsageOnly s t := by
  unfold selectVictimFrame at ok
  cases free : freeFrameOf s with
  | some i =>
    simp only [free] at ok
    cases ok
    exact UsageOnly.refl s
  | none =>
    simp only [free] at ok
    cases policy : s.replacement with
    | random =>
      simp only [policy] at ok
      obtain ⟨⟨n, state⟩, _⟩ := russianRoulette_spec prng (List.range numFrames) numFrames s
      generalize russianRoulette prng (List.range numFrames) numFrames s = outcome at ok state
      obtain ⟨hit, found, s'⟩ := outcome
      obtain rfl : s' = { s with prngCalls := n } := state
      cases hit with
      | some i =>
        cases ok
        exact usage_prngCalls s n
      | none =>
        simp only at ok
        split at ok
        · cases ok
          exact usage_prngCalls s n
        · cases ok
    | approxLru =>
      simp only [policy] at ok
      cases ok
      exact UsageOnly.refl s
    | clocksweep =>
      simp only [policy] at ok
      exact (clockSweep_ok ⟨owned, freeFrameOf_none free⟩ ok).2

/-- The program's own environment: its victim selection, followed for `limit`
rounds, and the allocator of the C library. -/
def programEnv (prng : Nat → Nat) (limit : Nat) (calloc : Heap SwapEntry → Option Nat)
    (fresh : ∀ {h a}, calloc h = some a → h.read a = none) : Env where
  select := selectVictimFrame prng limit
  select_usage := selectVictimFrame_usage
  calloc := calloc
  fresh := fresh

/-! ## The contract -/

/-- What a caller of `select_victim_frame` counts on: it comes to an end, with a
frame that may be evicted, a free one if there is one, or with a panic when every
frame is protected. -/
def Contract (prng : Nat → Nat) (c : VM) : Prop :=
  ∃ limit, match selectVictimFrame prng limit c with
    | .ok (v, _) =>
      Evictable c v ∧ ((∃ f, Evictable c f ∧ c.fte f .mapped = 0) → c.fte v .mapped = 0)
    | .error e => e = outOfMemory ∧ ∀ f < numFrames, c.fte f .isProtected ≠ 0

/-- When `select_victim_frame` keeps the contract: always under RANDOM, under
APPROX_LRU if some frame is free or has a count below 255, under CLOCKSWEEP if
some frame is not protected. -/
def CanSelect (c : VM) : Prop :=
  match c.replacement with
  | .random => True
  | .approxLru => ∃ f, Evictable c f ∧ (c.fte f .mapped = 0 ∨ c.fte f .refCount < 255)
  | .clocksweep => ∃ f, Evictable c f

theorem contract_free (free : freeFrameOf s = some v) : Contract prng s := by
  obtain ⟨here, unmapped⟩ := freeFrameOf_some free
  refine ⟨0, ?_⟩
  simp only [selectVictimFrame, free]
  exact ⟨here, fun _ => unmapped⟩

theorem noneFree_iff : NoneFree s ↔ ¬ ∃ f, Evictable s f ∧ s.fte f .mapped = 0 := by
  constructor
  · rintro full ⟨f, hf, unmapped⟩
    exact full f hf unmapped
  · exact fun none f hf unmapped => none ⟨f, hf, unmapped⟩

theorem contract_random (policy : s.replacement = .random) : Contract prng s := by
  cases free : freeFrameOf s with
  | some v => exact contract_free free
  | none =>
    have full := noneFree_iff.mp (freeFrameOf_none free)
    refine ⟨0, ?_⟩
    simp only [selectVictimFrame, free, policy]
    obtain ⟨_, outcome⟩ := russianRoulette_spec prng (List.range numFrames) numFrames s
    generalize russianRoulette prng (List.range numFrames) numFrames s = r at outcome
    obtain ⟨hit, found, t⟩ := r
    rcases outcome with ⟨i, hi, unprotected, rfl⟩ | ⟨rfl, ⟨i, hi, unprotected, rfl⟩ | ⟨locked, rfl⟩⟩
    · exact ⟨⟨List.mem_range.mp hi, unprotected⟩, fun some => absurd some full⟩
    · simp only [if_pos (List.mem_range.mp hi)]
      exact ⟨⟨List.mem_range.mp hi, unprotected⟩, fun some => absurd some full⟩
    · simp only [Nat.lt_irrefl, if_false]
      exact ⟨trivial, fun f hf => locked f (List.mem_range.mpr hf)⟩

theorem contract_approxLru (policy : s.replacement = .approxLru) :
    Contract prng s ↔ ∃ f, Evictable s f ∧ (s.fte f .mapped = 0 ∨ s.fte f .refCount < 255) := by
  cases free : freeFrameOf s with
  | some v =>
    obtain ⟨here, unmapped⟩ := freeFrameOf_some free
    exact ⟨fun _ => ⟨v, here, Or.inl unmapped⟩, fun _ => contract_free free⟩
  | none =>
    have full := freeFrameOf_none free
    simp only [Contract, selectVictimFrame, free, policy]
    rcases leastReferenced_spec (s := s) (List.range numFrames) (255, noFrame) with
      ⟨i, hi, unprotected, lt, last⟩ | ⟨saturated, last⟩
    · rw [last]
      have here : Evictable s i := ⟨List.mem_range.mp hi, unprotected⟩
      exact ⟨fun _ => ⟨i, here, Or.inr lt⟩,
        fun _ => ⟨0, here, fun some => absurd some (noneFree_iff.mp full)⟩⟩
    · rw [last]
      constructor
      · rintro ⟨_, outside, _⟩
        exact absurd outside.1 (by decide)
      · rintro ⟨f, hf, unmapped | lt⟩
        · exact absurd unmapped (full f hf)
        · exact absurd lt (Nat.not_lt.mpr (saturated f (List.mem_range.mpr hf.1) hf.2))

theorem contract_clocksweep (policy : s.replacement = .clocksweep) (owned : FramesOwned s) :
    Contract prng s ↔ ∃ f, Evictable s f := by
  cases free : freeFrameOf s with
  | some v => exact ⟨fun _ => ⟨v, (freeFrameOf_some free).1⟩, fun _ => contract_free free⟩
  | none =>
    have sweep : Sweepable s := ⟨owned, freeFrameOf_none free⟩
    simp only [Contract, selectVictimFrame, free, policy]
    constructor
    · rintro ⟨limit, outcome⟩
      by_contra none
      have locked : ∀ f < numFrames, s.fte f .isProtected ≠ 0 :=
        fun f hf unprotected => none ⟨f, hf, unprotected⟩
      rw [clockSweep_endless locked] at outcome
      exact absurd outcome.1 (by decide)
    · rintro ⟨f, hf⟩
      obtain ⟨v, t, ok⟩ := clockSweep_ends sweep hf s.lastEvicted (Nat.le_refl _)
      refine ⟨2 * numFrames, ?_⟩
      rw [ok]
      exact ⟨(clockSweep_ok sweep ok).1, fun some => absurd some (noneFree_iff.mp sweep.full)⟩

theorem contract_iff (owned : s.replacement = .clocksweep → FramesOwned s) :
    Contract prng s ↔ CanSelect s := by
  unfold CanSelect
  cases policy : s.replacement with
  | random => exact ⟨fun _ => trivial, fun _ => contract_random policy⟩
  | approxLru => exact contract_approxLru policy
  | clocksweep => exact contract_clocksweep policy (owned policy)

theorem select_free {env : Env} {limit : Nat} (own : env.select = selectVictimFrame prng limit)
    (free : freeFrameOf s = some f) : env.select s = .ok (f, s) := by
  simp only [own, selectVictimFrame, free]

/-- Every select_victim_frame call with a free frame is as it should be. -/
theorem victimOk_free {env : Env} {limit : Nat} (own : env.select = selectVictimFrame prng limit)
    (free : freeFrameOf s = some v) : VictimOk env s := by
  refine ⟨v, s, ?_, (freeFrameOf_some free).1⟩
  simp only [own, selectVictimFrame, free]

theorem victimOk_random {env : Env} {limit : Nat} (own : env.select = selectVictimFrame prng limit)
    (policy : s.replacement = .random) (hf : Evictable s f) : VictimOk env s := by
  cases free : freeFrameOf s with
  | some v => exact victimOk_free own free
  | none =>
    obtain ⟨_, outcome⟩ := russianRoulette_spec prng (List.range numFrames) numFrames s
    cases run : russianRoulette prng (List.range numFrames) numFrames s with
    | mk hit rest =>
    obtain ⟨found, t⟩ := rest
    rw [run] at outcome
    rcases outcome with ⟨i, hi, unprotected, rfl⟩ | ⟨rfl, ⟨i, hi, unprotected, rfl⟩ | ⟨locked, _⟩⟩
    · refine ⟨i, t, ?_, List.mem_range.mp hi, unprotected⟩
      simp only [own, selectVictimFrame, free, policy, run]
    · refine ⟨found, t, ?_, List.mem_range.mp hi, unprotected⟩
      simp only [own, selectVictimFrame, free, policy, run, if_pos (List.mem_range.mp hi)]
    · exact absurd hf.2 (locked f (List.mem_range.mpr hf.1))

/-! ## Free frames under the invariant -/

section

variable {R : Nat → Prop} {xs : List Slot}

theorem Inv.evictable (inv : Inv R s xs) (hf : f < numFrames) (pos : 0 < f)
    (noTable : ∀ p, R p → (s.procs p).savedPtbr ≠ f) : Evictable s f := by
  refine ⟨hf, ?_⟩
  by_contra locked
  rcases inv.protectedFrame hf locked with zero | ⟨p, hp, table⟩
  · omega
  · exact noTable p hp table

/-- While no page is in memory every frame that may be evicted is free. -/
theorem Inv.unmapped (inv : Inv R s xs)
    (noPages : ∀ p w, R p → w < numPages → s.entry p w .valid = 0) (hf : Evictable s f) :
    s.fte f .mapped = 0 := by
  by_contra mapped
  obtain ⟨p, w, hp, hw, valid, _⟩ := inv.owned hf.1 hf.2 mapped
  exact valid (noPages p w hp hw)

theorem Inv.free (inv : Inv R s xs)
    (noPages : ∀ p w, R p → w < numPages → s.entry p w .valid = 0) (hf : Evictable s f) :
    ∃ i, freeFrameOf s = some i := by
  cases free : freeFrameOf s with
  | some i => exact ⟨i, rfl⟩
  | none => exact absurd (inv.unmapped noPages hf) (freeFrameOf_none free f hf)

/-- With no process running, frame 1 is the first free one. -/
theorem Inv.free_first (inv : Inv R s xs) (idle : ∀ p, ¬ R p) : freeFrameOf s = some 1 := by
  have one : Evictable s 1 := inv.evictable (by decide) (by decide) (fun p hp => absurd hp (idle p))
  have unmapped := inv.unmapped (fun p _ hp => absurd hp (idle p)) one
  have zero := inv.frameZero
  rw [freeFrameOf, List.find?_range_eq_some]
  refine ⟨by simp [one.2, unmapped], by decide, ?_⟩
  intro j hj
  obtain rfl : j = 0 := by omega
  simp [zero]

end

end

end SystemsProjects.Vm
