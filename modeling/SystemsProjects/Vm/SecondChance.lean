import SystemsProjects.Vm.Victims

/-!
# The clock sweep gives a second chance

The hand of CLOCKSWEEP goes round the frames. The first frame that it may evict and that has
not been referenced is the victim, and those it has passed lose their referenced bits: after
one turn none is left, and the sweep ends in the second.
-/

namespace SystemsProjects.Vm

open VM Bytes

/-- The process whose page is in frame `f`. -/
def frameOwner (s : VM) (f : Nat) : Nat := (s.fte f .process - procsBase) / pcbSize

/-- The page table entry of the page in frame `f`. -/
def frameEntry (s : VM) (f : Nat) : Nat :=
  pteAddr (s.procs (frameOwner s f)).savedPtbr (s.fte f .vpn)

def frameReferenced (s : VM) (f : Nat) : Nat := s.pte (frameEntry s f) .referenced

/-- The byte that has the referenced bit of the page in frame `f`. -/
def referencedAt (s : VM) (f : Nat) : Nat := frameEntry s f + pteLayout.offset .referenced

/-- Where the hand is after `k` frames have been passed. -/
def handAt (s : VM) (k : Nat) : Nat := (s.lastEvicted + 1 + k) % numFrames

/-- The sweep can be made: every frame that may be evicted has a page, whose entry is in a
page table and not in the frame table, and no two of them have the same entry. -/
structure Clockable (s : VM) : Prop where
  policy : s.replacement = .clocksweep
  hand : s.lastEvicted < numFrames
  some : ∃ f, Evictable s f
  full : NoneFree s
  owner : ∀ f, Evictable s f → s.fte f .process = pcbPtr (frameOwner s f) ∧ frameOwner s f < maxPid
  table : ∀ f, Evictable s f → (s.procs (frameOwner s f)).savedPtbr < numFrames
  vpn : ∀ f, Evictable s f → s.fte f .vpn < numPages
  outside : ∀ f, Evictable s f → fteAddr numFrames ≤ frameEntry s f
  apart : ∀ f g, Evictable s f → Evictable s g → frameEntry s f = frameEntry s g → f = g

/-- `t` is `s` but for the referenced bits of the frames `passed`, which are clear in `t`. -/
structure Passed (s : VM) (passed : Nat → Prop) (t : VM) : Prop where
  rest : t = { s with mem := t.mem }
  cleared : ∀ f, passed f → t.mem (referencedAt s f) = 0
  kept : ∀ a, (∀ f, passed f → a ≠ referencedAt s f) → t.mem a = s.mem a

/-- And `last_evicted` is the victim. -/
structure Swept (s : VM) (passed : Nat → Prop) (victim : Nat) (t : VM) : Prop where
  rest : t = { s with mem := t.mem, lastEvicted := victim }
  cleared : ∀ f, passed f → t.mem (referencedAt s f) = 0
  kept : ∀ a, (∀ f, passed f → a ≠ referencedAt s f) → t.mem a = s.mem a

/-- The first frame from the hand on that may be evicted and has not been referenced. -/
structure FirstIdle (s : VM) (k victim : Nat) : Prop where
  inside : k < numFrames
  place : victim = handAt s k
  evictable : Evictable s victim
  idle : frameReferenced s victim = 0
  before : ∀ j < k, Evictable s (handAt s j) → frameReferenced s (handAt s j) ≠ 0

/-- All have been referenced, and it is the first that may be evicted. -/
structure FirstAgain (s : VM) (k victim : Nat) : Prop where
  inside : k < numFrames
  place : victim = handAt s k
  evictable : Evictable s victim
  busy : ∀ f, Evictable s f → frameReferenced s f ≠ 0
  before : ∀ j < k, ¬Evictable s (handAt s j)

section

variable {s t : VM} {P : Nat → Prop} {f v k limit : Nat}

theorem frameOwner_eq {p : Nat} (owner : s.fte f .process = pcbPtr p) : frameOwner s f = p := by
  rw [frameOwner, owner]
  simp only [pcbPtr, procsBase, pcbSize]
  omega

/-- Under the invariant the sweep can be made whenever it is asked for. -/
theorem Inv.clockable {R : Nat → Prop} {xs : List Slot} (inv : Inv R s xs)
    (policy : s.replacement = .clocksweep) (hand : s.lastEvicted < numFrames)
    (some : ∃ f, Evictable s f) (full : NoneFree s) : Clockable s := by
  have owned : ∀ f, Evictable s f → ∃ p w, R p ∧ w < numPages ∧ Owns s f p w := by
    intro f here
    obtain ⟨p, w, hp, hw, valid, rfl⟩ := inv.owned here.1 here.2 (full f here)
    exact ⟨p, w, hp, hw, inv.owns hp hw valid⟩
  have entry : ∀ {f p w}, Owns s f p w → frameEntry s f = pteAddr (s.procs p).savedPtbr w := by
    intro f p w own
    rw [frameEntry, frameOwner_eq own.process, own.vpn]
  constructor
  · exact policy
  · exact hand
  · exact some
  · exact full
  · intro f here
    obtain ⟨p, w, hp, hw, own⟩ := owned f here
    rw [frameOwner_eq own.process]
    exact ⟨own.process, inv.pidLt hp⟩
  · intro f here
    obtain ⟨p, w, hp, hw, own⟩ := owned f here
    rw [frameOwner_eq own.process]
    exact inv.tableLt hp
  · intro f here
    obtain ⟨p, w, hp, hw, own⟩ := owned f here
    rw [own.vpn]
    exact hw
  · intro f here
    obtain ⟨p, w, hp, hw, own⟩ := owned f here
    have positive := inv.tablePos hp
    rw [entry own]
    simp only [fteAddr, fteLayout, pteAddr, frameAddr, pageSize_eq, numFrames_eq]
    omega
  · intro f g hf hg same
    obtain ⟨p, w, hp, hw, ownf⟩ := owned f hf
    obtain ⟨r, x, hr, hx, owng⟩ := owned g hg
    rw [entry ownf, entry owng] at same
    obtain ⟨table, rfl⟩ := pteAddr_inj hx hw same
    obtain rfl := inv.tableInj hp hr table
    obtain ⟨q, y, hq, hy, validf, pfnf⟩ := inv.owned hf.1 hf.2 (full f hf)
    obtain ⟨q', y', hq', hy', validg, pfng⟩ := inv.owned hg.1 hg.2 (full g hg)
    have hereF := inv.owns hq hy validf
    have hereG := inv.owns hq' hy' validg
    rw [pfnf] at hereF
    rw [pfng] at hereG
    obtain rfl := pcbPtr_inj (hereF.process.symm.trans ownf.process)
    obtain rfl := pcbPtr_inj (hereG.process.symm.trans owng.process)
    obtain rfl : y = w := hereF.vpn.symm.trans ownf.vpn
    obtain rfl : y' = y := hereG.vpn.symm.trans owng.vpn
    exact pfnf.symm.trans pfng

theorem pte_referenced (s : VM) (a : Nat) : s.pte a .referenced =
    (s.mem (a + pteLayout.offset .referenced)).toNat := by
  show (s.mem _).toNat + 256 * 0 = _
  rw [Nat.mul_zero, Nat.add_zero]

/-! ## What the sweep reads -/

theorem Passed.fte (passed : Passed s P t) (h : Clockable s) (only : ∀ f, P f → Evictable s f)
    {i : Nat} (inside : i < numFrames) (F : FteField) : t.fte i F = s.fte i F := by
  apply load_congr
  intro x lo hi
  apply passed.kept
  rintro f mem rfl
  have far := h.outside f (only f mem)
  have place := fteLayout.inside F
  have stride : fteLayout.stride = 24 := rfl
  simp only [fteAddr, referencedAt, stride, numFrames_eq] at *
  omega

theorem Passed.evictable (passed : Passed s P t) (h : Clockable s)
    (only : ∀ f, P f → Evictable s f) :
    Evictable t f ↔ Evictable s f := by
  constructor
  · rintro ⟨inside, unprotected⟩
    exact ⟨inside, (passed.fte h only inside _).symm.trans unprotected⟩
  · rintro ⟨inside, unprotected⟩
    exact ⟨inside, (passed.fte h only inside _).trans unprotected⟩

theorem Passed.procs (passed : Passed s P t) : t.procs = s.procs := by rw [passed.rest]

theorem Passed.referenced_of (passed : Passed s P t) (here : P f) :
    t.pte (frameEntry s f) .referenced = 0 := by
  rw [pte_referenced]
  exact congrArg UInt8.toNat (passed.cleared f here)

theorem Passed.referenced_not (passed : Passed s P t) (h : Clockable s)
    (only : ∀ f, P f → Evictable s f) (here : Evictable s f) (new : ¬P f) :
    t.pte (frameEntry s f) .referenced = frameReferenced s f := by
  rw [frameReferenced, pte_referenced, pte_referenced]
  congr 1
  apply passed.kept
  intro g mem same
  obtain rfl := h.apart f g here (only g mem) (Nat.add_right_cancel same)
  exact new mem

theorem Passed.none (s : VM) : Passed s (fun _ => False) s := ⟨rfl, nofun, fun _ _ => rfl⟩

theorem Passed.congr {Q : Nat → Prop} (passed : Passed s P t) (same : ∀ f, Q f ↔ P f) :
    Passed s Q t := by
  refine ⟨passed.rest, fun f here => passed.cleared f ((same f).mp here), fun a other => ?_⟩
  exact passed.kept a fun f here => other f ((same f).mpr here)

theorem setPte_referenced (t : VM) (entry a : Nat) :
    (t.setPte entry .referenced 0).mem a = if a = entry +
    pteLayout.offset .referenced then 0 else t.mem a := by
  simp only [VM.setPte, Layout.set, store]
  have size : pteLayout.size .referenced = 1 := rfl
  by_cases same : a = entry + pteLayout.offset .referenced
  · subst same
    rw [if_pos rfl]
    refine (splice_inside (Nat.le_refl _) ?_).trans ?_
    · omega
    · rw [Nat.zero_div]
      rfl
  · rw [if_neg same]
    apply splice_outside
    omega

theorem Passed.clear (passed : Passed s P t) (f : Nat) :
    Passed s (fun g => P g ∨ g = f) (t.setPte (frameEntry s f) .referenced 0) := by
  constructor
  · conv_lhs => rw [passed.rest]
    rfl
  · rintro g (old | rfl)
    · rw [setPte_referenced]
      split
      · rfl
      · exact passed.cleared g old
    · rw [setPte_referenced]
      exact if_pos rfl
  · intro a other
    have apart : a ≠ frameEntry s f + pteLayout.offset .referenced := other f (Or.inr rfl)
    rw [setPte_referenced, if_neg apart]
    exact passed.kept a fun g old => other g (Or.inl old)

theorem Passed.swept (passed : Passed s P t) (v : Nat) :
    Swept s P v { t with lastEvicted := v } := by
  refine ⟨?_, passed.cleared, passed.kept⟩
  conv_lhs => rw [passed.rest]

/-! ## One round -/

section

variable (passed : Passed s P t) (h : Clockable s) (only : ∀ f, P f → Evictable s f)

include passed h only

theorem Passed.skip {curr : Nat} (locked : ¬Evictable s ((curr + 1) % numFrames)) (limit : Nat) :
    clockSweep (limit + 1) curr t = clockSweep limit ((curr + 1) % numFrames) t := by
  have inside : (curr + 1) % numFrames < numFrames := Nat.mod_lt _ (by decide)
  have unread : t.fte ((curr + 1) % numFrames) .isProtected ≠ 0 := by
    rw [passed.fte h only inside]
    exact fun unprotected => locked ⟨inside, unprotected⟩
  simp only [clockSweep, if_neg unread]

/-- The frame whose turn it is has a page, and its entry is read. -/
theorem Passed.round {curr : Nat} (here : Evictable s ((curr + 1) % numFrames)) (limit : Nat) :
    clockSweep (limit + 1) curr t =
      if t.pte (frameEntry s ((curr + 1) % numFrames)) .referenced = 0 then
        .ok ((curr + 1) % numFrames, { t with lastEvicted := (curr + 1) % numFrames })
      else clockSweep limit ((curr + 1) % numFrames)
        (t.setPte (frameEntry s ((curr + 1) % numFrames)) .referenced 0) := by
  obtain ⟨owner, small⟩ := h.owner _ here
  have table : t.pcb (t.fte ((curr + 1) % numFrames) .process) .savedPtbr =
      .ok (s.procs (frameOwner s ((curr + 1) % numFrames))).savedPtbr := by
    rw [passed.fte h only here.1, owner, ← passed.procs]
    exact pcb_savedPtbr small (passed.procs ▸ h.table _ here)
  have entry : entryAt (s.procs (frameOwner s ((curr + 1) % numFrames))).savedPtbr
    (t.fte ((curr + 1) % numFrames) .vpn) =
      .ok (frameEntry s ((curr + 1) % numFrames)) := by
    rw [passed.fte h only here.1]
    exact entryAt_eq (h.table _ here) (h.vpn _ here)
  have unprotected : t.fte ((curr + 1) % numFrames) .isProtected = 0 :=
    (passed.fte h only here.1 _).trans here.2
  simp only [clockSweep, if_pos unprotected, table, entry, bind, Except.bind]
  rfl

theorem Passed.stop {curr : Nat} (here : Evictable s ((curr + 1) % numFrames))
    (idle : P ((curr + 1) % numFrames) ∨ frameReferenced s ((curr + 1) % numFrames) = 0)
    (limit : Nat) :
    clockSweep (limit + 1) curr t = .ok ((curr + 1) % numFrames,
      { t with lastEvicted := (curr + 1) % numFrames }) := by
  rw [passed.round h only here, if_pos]
  by_cases old : P ((curr + 1) % numFrames)
  · exact passed.referenced_of old
  · rw [passed.referenced_not h only here old]
    exact idle.resolve_left old

theorem Passed.go {curr : Nat} (here : Evictable s ((curr + 1) % numFrames))
    (new : ¬P ((curr + 1) % numFrames)) (busy : frameReferenced s ((curr + 1) % numFrames) ≠ 0)
    (limit : Nat) :
    clockSweep (limit + 1) curr t = clockSweep limit ((curr + 1) % numFrames)
      (t.setPte (frameEntry s ((curr + 1) % numFrames)) .referenced 0) := by
  rw [passed.round h only here, if_neg]
  rw [passed.referenced_not h only here new]
  exact busy

end

/-! ## The two turns -/

theorem handAt_succ (s : VM) (k : Nat) : ((s.lastEvicted + k) % numFrames + 1) % numFrames =
    handAt s k := by
  rw [handAt, Nat.mod_add_mod, Nat.add_right_comm]

theorem handAt_inj {j k : Nat} (hj : j < numFrames) (hk : k < numFrames)
    (same : handAt s j = handAt s k) : j = k := by
  simp only [handAt, numFrames_eq] at *
  omega

theorem handAt_reaches (h : Clockable s) (hf : f < numFrames) :
    ∃ k < numFrames, f = handAt s k := by
  have hand := h.hand
  refine ⟨(f + numFrames - 1 - s.lastEvicted) % numFrames, Nat.mod_lt _ (by decide), ?_⟩
  simp only [handAt, numFrames_eq] at *
  omega

/-- The frames that the hand has passed after `k` rounds. -/
def PassedBy (s : VM) (k f : Nat) : Prop := Evictable s f ∧ ∃ j < k, f = handAt s j

/-- In the first turn the hand passes the frames that have been referenced. -/
theorem clockSweep_first (h : Clockable s) (inside : k ≤ numFrames)
    (busy : ∀ j < k, Evictable s (handAt s j) → frameReferenced s (handAt s j) ≠ 0) :
    ∃ t, Passed s (PassedBy s k) t ∧ ∀ limit,
      clockSweep (limit + k) s.lastEvicted s =
        clockSweep limit ((s.lastEvicted + k) % numFrames) t := by
  induction k with
  | zero =>
    refine ⟨s, (Passed.none s).congr fun f => ⟨?_, nofun⟩, fun limit => ?_⟩
    · rintro ⟨_, j, below, _⟩
      exact Nat.not_lt_zero j below
    · rw [Nat.add_zero, Nat.add_zero, Nat.mod_eq_of_lt h.hand]
  | succ k ih =>
    obtain ⟨t, passed, run⟩ := ih (by omega) fun j less => busy j (by omega)
    have next : ((s.lastEvicted + k) % numFrames + 1) % numFrames =
        (s.lastEvicted + (k + 1)) % numFrames := by
      rw [Nat.mod_add_mod, Nat.add_assoc]
    have hand := handAt_succ s k
    by_cases here : Evictable s (handAt s k)
    · have new : ¬PassedBy s k (handAt s k) := by
        rintro ⟨_, j, less, same⟩
        exact absurd (handAt_inj (by omega) (by omega) same) (by omega)
      refine ⟨_, (passed.clear (handAt s k)).congr fun f => ?_, fun limit => ?_⟩
      · constructor
        · rintro ⟨hf, j, less, rfl⟩
          by_cases last : j = k
          · exact Or.inr (congrArg _ last)
          · exact Or.inl ⟨hf, j, by omega, rfl⟩
        · rintro (⟨hf, j, less, rfl⟩ | rfl)
          · exact ⟨hf, j, by omega, rfl⟩
          · exact ⟨here, k, by omega, rfl⟩
      · rw [← Nat.add_assoc, Nat.add_right_comm, run, ← next]
        rw [← hand] at here new ⊢
        exact passed.go h (fun _ old => old.1) here new (hand ▸ busy k (by omega) (hand ▸ here))
          limit
    · refine ⟨t, passed.congr fun f => ?_, fun limit => ?_⟩
      · constructor
        · rintro ⟨hf, j, less, rfl⟩
          refine ⟨hf, j, Nat.lt_of_le_of_ne (by omega) ?_, rfl⟩
          rintro rfl
          exact here hf
        · rintro ⟨hf, j, less, rfl⟩
          exact ⟨hf, j, by omega, rfl⟩
      · rw [← Nat.add_assoc, Nat.add_right_comm, run, ← next]
        rw [← hand] at here
        exact passed.skip h (fun _ old => old.1) here limit

/-- In the second it passes the protected frames only. -/
theorem clockSweep_second (h : Clockable s) (passed : Passed s (Evictable s) t)
    (locked : ∀ j < k, ¬Evictable s (handAt s j)) (limit : Nat) :
    clockSweep (limit + k) (s.lastEvicted % numFrames) t =
      clockSweep limit ((s.lastEvicted + k) % numFrames) t := by
  induction k generalizing limit with
  | zero => rfl
  | succ k ih =>
    have next : ((s.lastEvicted + k) % numFrames + 1) % numFrames =
        (s.lastEvicted + (k + 1)) % numFrames := by
      rw [Nat.mod_add_mod, Nat.add_assoc]
    rw [← Nat.add_assoc, Nat.add_right_comm, ih (fun j less => locked j (by omega)), ← next]
    refine passed.skip h (fun _ here => here) ?_ limit
    rw [handAt_succ]
    exact locked k (by omega)

/-- The sweep ends within two turns of the hand, at the first frame that has not been
referenced or, when there is none, at the first of all; the frames that it has passed lose
their referenced bits and nothing else is written but `last_evicted`. -/
theorem second_chance (prng : Nat → Nat) (h : Clockable s) (enough : 2 * numFrames ≤ limit) :
    ∃ victim t, selectVictimFrame prng limit s = .ok (victim, t) ∧
      ((∃ k, FirstIdle s k victim ∧ Swept s (PassedBy s k) victim t) ∨
        ∃ k, FirstAgain s k victim ∧ Swept s (Evictable s) victim t) := by
  have none : freeFrameOf s = none := by
    cases free : freeFrameOf s with
    | none => rfl
    | some f => exact absurd (freeFrameOf_some free).2 (h.full f (freeFrameOf_some free).1)
  have select : selectVictimFrame prng limit s = clockSweep limit s.lastEvicted s := by
    simp only [selectVictimFrame, none, h.policy]
  rw [select]
  classical
  by_cases found : ∃ k, k < numFrames ∧ Evictable s (handAt s k) ∧
    frameReferenced s (handAt s k) = 0
  · obtain ⟨inside, here, idle⟩ := Nat.find_spec found
    have before := fun j (less : j < Nat.find found) => Nat.find_min found less
    generalize Nat.find found = k at inside here idle before
    have busy : ∀ j < k, Evictable s (handAt s j) → frameReferenced s (handAt s j) ≠ 0 :=
      fun j less hj zero => before j less ⟨by omega, hj, zero⟩
    obtain ⟨t, passed, run⟩ := clockSweep_first h inside.le busy
    obtain ⟨rest, rfl⟩ : ∃ rest, limit = rest + 1 + k := ⟨limit - 1 - k, by omega⟩
    refine ⟨_, _, ?_, Or.inl ⟨k, ⟨inside, rfl, here, idle, busy⟩, passed.swept _⟩⟩
    rw [run]
    have hand := handAt_succ s k
    rw [← hand] at here idle ⊢
    exact passed.stop h (fun _ old => old.1) here (Or.inr idle) rest
  · have busy : ∀ f, Evictable s f → frameReferenced s f ≠ 0 := by
      intro f hf zero
      obtain ⟨k, inside, rfl⟩ := handAt_reaches h hf.1
      exact found ⟨k, inside, hf, zero⟩
    obtain ⟨t, passed, run⟩ := clockSweep_first h (Nat.le_refl _) fun j _ => busy _
    have all : Passed s (Evictable s) t := by
      refine passed.congr fun f => ⟨fun hf => ⟨hf, ?_⟩, fun old => old.1⟩
      obtain ⟨k, inside, same⟩ := handAt_reaches h hf.1
      exact ⟨k, inside, same⟩
    have again : ∃ k, k < numFrames ∧ Evictable s (handAt s k) := by
      obtain ⟨f, hf⟩ := h.some
      obtain ⟨k, inside, rfl⟩ := handAt_reaches h hf.1
      exact ⟨k, inside, hf⟩
    obtain ⟨inside, here⟩ := Nat.find_spec again
    have before := fun j (less : j < Nat.find again) => Nat.find_min again less
    generalize Nat.find again = k at inside here before
    have locked : ∀ j < k, ¬Evictable s (handAt s j) :=
      fun j less hj => before j less ⟨by omega, hj⟩
    obtain ⟨rest, rfl⟩ : ∃ rest, limit = rest + 1 + k + numFrames :=
      ⟨limit - 1 - k - numFrames, by omega⟩
    refine ⟨_, _, ?_, Or.inr ⟨k, ⟨inside, rfl, here, busy, locked⟩, all.swept _⟩⟩
    rw [run, Nat.add_mod_right, clockSweep_second h all locked]
    have hand := handAt_succ s k
    rw [← hand] at here ⊢
    exact all.stop h (fun _ old => old) here (Or.inl here) rest

/-- The frame table has pages in frames 1 and 2, and the page table in frame 3 says that the
first of them has been referenced. -/
def pairMem : ByteMem := fun a =>
  if a = fteAddr 1 ∨ a = fteAddr 2 then 0
  else if a < fteAddr numFrames ∧ a % fteLayout.stride = 0 then 1
  else if a = fteAddr 1 + 1 ∨ a = fteAddr 2 + 1 ∨ a = fteAddr 2 + 16 ∨ a = pteAddr 3 0 + 4 then 1
  else if a = fteAddr 1 + 9 ∨ a = fteAddr 2 + 9 then 16
  else 0

/-- They are the pages 0 and 1 of process 0. -/
def pair : VM :=
  { VM.boot pairMem .clocksweep false with procs := fun p => ⟨p, .running, 3⟩ }

theorem evictable_pair : Evictable pair f ↔ f = 1 ∨ f = 2 := by
  have all : ∀ f < numFrames, pair.fte f .isProtected = 0 ↔ f = 1 ∨ f = 2 := by decide +kernel
  constructor
  · exact fun here => (all f here.1).mp here.2
  · rintro (rfl | rfl)
    · exact ⟨by decide, by decide⟩
    · exact ⟨by decide, by decide⟩

theorem process_pair (here : Evictable pair f) : pair.fte f .process = pcbPtr 0 := by
  rcases evictable_pair.mp here with rfl | rfl <;> decide

theorem clockable_pair : Clockable pair where
  policy := rfl
  hand := by decide
  some := ⟨1, evictable_pair.mpr (.inl rfl)⟩
  full := by
    intro f here
    rcases evictable_pair.mp here with rfl | rfl <;> decide
  owner := by
    intro f here
    rw [frameOwner_eq (process_pair here)]
    exact ⟨process_pair here, by decide⟩
  table := fun _ _ => (by decide : 3 < numFrames)
  vpn := by
    intro f here
    rcases evictable_pair.mp here with rfl | rfl <;> decide
  outside := by
    intro f here
    rcases evictable_pair.mp here with rfl | rfl <;> decide
  apart := by
    intro f g hf hg
    rcases evictable_pair.mp hf with rfl | rfl <;> rcases evictable_pair.mp hg with rfl | rfl <;>
      decide

/-- The hand passes frame 1, whose referenced bit is cleared, and stops at frame 2. -/
theorem second_chance_pair : frameReferenced pair 1 = 1 ∧
    ∃ t, selectVictimFrame (fun _ => 0) 128 pair = .ok (2, t) ∧ t.lastEvicted = 2 ∧
      t.mem (referencedAt pair 1) = 0 := by
  have idle : frameReferenced pair 2 = 0 := by decide
  have busy : frameReferenced pair 1 = 1 := by decide
  have two : Evictable pair 2 := evictable_pair.mpr (.inr rfl)
  obtain ⟨victim, t, select, outcome⟩ := second_chance (fun _ => 0) clockable_pair (Nat.le_refl _)
  rcases outcome with ⟨k, first, swept⟩ | ⟨_, again, _⟩
  · have chosen : victim = 2 := by
      rcases evictable_pair.mp first.evictable with rfl | rfl
      · exact absurd (busy.symm.trans first.idle) (by decide)
      · rfl
    have place : 2 = (0 + 1 + k) % 64 := chosen.symm.trans first.place
    have inside : k < 64 := first.inside
    have passed : PassedBy pair k 1 := ⟨evictable_pair.mpr (.inl rfl), 0, by omega, by decide⟩
    refine ⟨busy, t, chosen ▸ select, ?_, swept.cleared 1 passed⟩
    rw [swept.rest]
    exact chosen
  · exact absurd idle (again.busy 2 two)

end

end SystemsProjects.Vm
