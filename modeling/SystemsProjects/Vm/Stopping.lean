import SystemsProjects.Vm.Starting

/-!
# Stopping

`proc_cleanup` empties the page table entry by entry. While the loop runs the
process still counts as having a page table, so every round keeps the invariant;
the table frame is given back at the end.
-/

namespace SystemsProjects.Vm

open VM Loops

variable {R : Nat → Prop} {env : Env} {s t u : VM} {xs ys zs : List Slot} {p w v : Nat}

/-! ## One entry -/

/-- The page of a valid entry is dropped. -/
theorem Inv.unmap (inv : Inv R s xs) (hp : R p) (hw : w < numPages)
    (valid : s.entry p w .valid ≠ 0) :
    Inv R ((s.setPte (pteAddr (s.procs p).savedPtbr w) .valid 0).setFte (s.entry p w .pfn)
      .mapped 0) xs := by
  have own := inv.owns hp hw valid
  have pos := inv.tablePos hp
  have fte : ∀ i < numFrames, ∀ F, ((s.setPte (pteAddr (s.procs p).savedPtbr w) .valid 0).setFte
      (s.entry p w .pfn) .mapped 0).fte i F =
      if i = s.entry p w .pfn ∧ F = .mapped then 0 else s.fte i F := by
    intro i hi F
    rw [fte_setFte, fte_setPte hi pos, Nat.zero_mod]
  have entry : ∀ r x G, R r → x < numPages →
      ((s.setPte (pteAddr (s.procs p).savedPtbr w) .valid 0).setFte
        (s.entry p w .pfn) .mapped 0).entry r x G =
      if (r = p ∧ x = w) ∧ G = .valid then 0 else s.entry r x G := by
    intro r x G hr hx
    rw [VM.entry, setFte_procs, setPte_procs, pte_setFte own.lt (inv.tablePos hr),
      pte_setPte hw hx, Nat.zero_mod]
    by_cases here : r = p ∧ x = w
    · obtain ⟨rfl, rfl⟩ := here
      simp [VM.entry]
    · have apart : ¬ ((s.procs r).savedPtbr = (s.procs p).savedPtbr ∧ x = w ∧ G = .valid) := by
        rintro ⟨same, rfl, _⟩
        exact here ⟨inv.tableInj hr hp same, rfl⟩
      rw [if_neg apart, if_neg (fun e => here e.1), VM.entry]
  have still : ∀ {r x}, R r → x < numPages →
      ((s.setPte (pteAddr (s.procs p).savedPtbr w) .valid 0).setFte
        (s.entry p w .pfn) .mapped 0).entry r x .valid ≠ 0 →
      ¬ (r = p ∧ x = w) ∧ s.entry r x .valid ≠ 0 := by
    intro r x hr hx there
    rw [entry r x _ hr hx] at there
    by_cases here : r = p ∧ x = w
    · simp [here] at there
    · exact ⟨here, by simpa [here] using there⟩
  refine inv.remap (fun _ _ => rfl) rfl ?_ ?_ ?_ ?_ ?_ ?_
  · intro i hi
    rw [fte i hi, if_neg (by simp)]
  · intro r x hr hx
    rw [entry r x _ hr hx, if_neg (by simp)]
  · intro r x hr hx
    rw [entry r x _ hr hx]
    split
    · exact Nat.zero_le 1
    · exact inv.validBit hr hx
  · intro r x hr hx
    rw [entry r x _ hr hx, if_neg (by simp)]
    exact inv.dirtyBit hr hx
  · intro r x hr hx there
    obtain ⟨other, before⟩ := still hr hx there
    rw [entry r x _ hr hx, if_neg (by simp)]
    have apart : s.entry r x .pfn ≠ s.entry p w .pfn :=
      fun e => other (inv.entry_inj hr hx hp hw before valid e)
    exact (inv.owns hr hx before).congr
      (fun F _ => (fte _ (inv.owns hr hx before).lt F).trans (if_neg (fun e => apart e.1)))
  · intro f hf unprotected mapped
    rw [fte f hf, if_neg (by simp)] at unprotected
    by_cases here : f = s.entry p w .pfn
    · rw [fte f hf, if_pos ⟨here, rfl⟩] at mapped
      exact absurd rfl mapped
    · rw [fte f hf, if_neg (fun e => here e.1)] at mapped
      obtain ⟨r, x, hr, hx, before, pfn⟩ := inv.owned hf unprotected mapped
      have other : ¬ (r = p ∧ x = w) := by
        rintro ⟨rfl, rfl⟩
        exact here pfn.symm
      refine ⟨r, x, hr, hx, ?_, ?_⟩
      · rw [entry r x _ hr hx, if_neg (fun e => other e.1)]
        exact before
      · rw [entry r x _ hr hx, if_neg (by simp)]
        exact pfn

/-- The slot of an entry is given back. -/
theorem Inv.releaseSlot {q : SwapSpace} (inv : Inv R s xs) (hp : R p) (hw : w < numPages)
    (saved : s.entry p w .sid ≠ 0)
    (rep : SwapRep q (xs.filter (fun x => x.id ≠ s.entry p w .sid)))
    (swapId : q.swapId = s.swap.swapId) :
    Inv R ((s.setSwap q).setPte (pteAddr (s.procs p).savedPtbr w) .sid 0)
      (xs.filter (fun x => x.id ≠ s.entry p w .sid)) := by
  have pos := inv.tablePos hp
  have fte : ∀ i < numFrames, ∀ F, ((s.setSwap q).setPte (pteAddr (s.procs p).savedPtbr w) .sid
      0).fte i F = s.fte i F := fun i hi F => fte_setPte hi pos
  have entry : ∀ r x G, R r → x < numPages →
      ((s.setSwap q).setPte (pteAddr (s.procs p).savedPtbr w) .sid 0).entry r x G =
      if (r = p ∧ x = w) ∧ G = .sid then 0 else s.entry r x G := by
    intro r x G hr hx
    rw [VM.entry, setPte_procs, setSwap_procs, pte_setPte hw hx, Nat.zero_mod, setSwap_pte]
    by_cases here : r = p ∧ x = w
    · obtain ⟨rfl, rfl⟩ := here
      simp [VM.entry]
    · have apart : ¬ ((s.procs r).savedPtbr = (s.procs p).savedPtbr ∧ x = w ∧ G = .sid) := by
        rintro ⟨same, rfl, _⟩
        exact here ⟨inv.tableInj hr hp same, rfl⟩
      rw [if_neg apart, if_neg (fun e => here e.1), VM.entry]
  have mem : ∀ i, i ∈ ids (xs.filter (fun x => x.id ≠ s.entry p w .sid)) ↔
      i ∈ ids xs ∧ i ≠ s.entry p w .sid := by
    intro i
    simp only [ids, List.mem_map, List.mem_filter, decide_eq_true_eq]
    constructor
    · rintro ⟨x, ⟨hx, ne⟩, rfl⟩
      exact ⟨⟨x, hx, rfl⟩, ne⟩
    · rintro ⟨⟨x, hx, rfl⟩, ne⟩
      exact ⟨x, ⟨hx, ne⟩, rfl⟩
  have kept : ∀ {r x}, R r → x < numPages →
      ((s.setSwap q).setPte (pteAddr (s.procs p).savedPtbr w) .sid 0).entry r x .sid ≠ 0 →
      ¬ (r = p ∧ x = w) := by
    rintro r x hr hx ne here
    rw [entry r x _ hr hx, if_pos ⟨here, rfl⟩] at ne
    exact ne rfl
  refine ⟨rep, inv.pidLt, ?_, inv.tablePos, inv.tableLt, ?_, inv.tableInj, ?_, ?_, ?_, ?_, ?_, ?_,
    ?_, ?_, ?_, ?_, ?_⟩
  · rw [fte 0 (by decide)]
    exact inv.frameZero
  · intro r hr
    rw [setPte_procs, setSwap_procs, fte _ (inv.tableLt hr)]
    exact inv.tableProtected hr
  · intro f hf locked
    rw [fte f hf] at locked
    exact inv.protectedFrame hf locked
  · intro r x hr hx
    rw [entry r x _ hr hx, if_neg (by simp)]
    exact inv.validBit hr hx
  · intro r x hr hx
    rw [entry r x _ hr hx, if_neg (by simp)]
    exact inv.dirtyBit hr hx
  · intro r x hr hx
    rw [entry r x _ hr hx, if_neg (by simp), entry r x _ hr hx, if_neg (by simp)]
    intro valid
    have own := inv.owns hr hx valid
    exact own.congr (fun F _ => fte _ own.lt F)
  · intro f hf unprotected mapped
    rw [fte f hf] at unprotected mapped
    obtain ⟨r, x, hr, hx, valid, pfn⟩ := inv.owned hf unprotected mapped
    refine ⟨r, x, hr, hx, ?_, ?_⟩
    · rw [entry r x _ hr hx, if_neg (by simp)]
      exact valid
    · rw [entry r x _ hr hx, if_neg (by simp)]
      exact pfn
  · intro r x hr hx ne
    have other := kept hr hx ne
    rw [entry r x _ hr hx, if_neg (fun e => other e.1)] at ne ⊢
    exact (mem _).mpr ⟨inv.sidQueued hr hx ne, fun e => other (inv.sidInj hr hx hp hw ne e)⟩
  · intro r x r' x' hr hx hr' hx' ne same
    have other := kept hr hx ne
    have other' := kept hr' hx' (same ▸ ne)
    rw [entry r x _ hr hx, if_neg (fun e => other e.1)] at ne same
    rw [entry r' x' _ hr' hx', if_neg (fun e => other' e.1)] at same
    exact inv.sidInj hr hx hr' hx' ne same
  · intro i hi ne
    obtain ⟨hi, apart⟩ := (mem i).mp hi
    obtain ⟨r, x, hr, hx, sid⟩ := inv.idOwned i hi ne
    have other : ¬ (r = p ∧ x = w) := by
      rintro ⟨rfl, rfl⟩
      exact apart sid.symm
    refine ⟨r, x, hr, hx, ?_⟩
    rw [entry r x _ hr hx, if_neg (fun e => other e.1)]
    exact sid
  · exact inv.idsDistinct.sublist (List.filter_sublist.map _)
  · rw [setPte_swap, setSwap_swap, swapId]
    rcases inv.idsFresh with zero | below
    · exact Or.inl ((mem 0).mpr ⟨zero, Ne.symm saved⟩)
    · exact Or.inr (fun i hi => below i ((mem i).mp hi).1)
  · rw [setPte_swap, setSwap_swap, swapId]
    exact inv.swapIdLt

/-- `t` is `s` up to entry `w` of the page table in frame `b`, the `mapped` marks
and the swap queue. -/
structure EntryOnly (b w : Nat) (s t : VM) : Prop where
  procs : t.procs = s.procs
  ptbr : t.ptbr = s.ptbr
  currentProcess : t.currentProcess = s.currentProcess
  replacement : t.replacement = s.replacement
  isProtected : ∀ i < numFrames, t.fte i .isProtected = s.fte i .isProtected
  pte : ∀ a x, 0 < a → x < numPages → ¬ (a = b ∧ x = w) → ∀ G,
    t.pte (pteAddr a x) G = s.pte (pteAddr a x) G
  byte : ∀ f, 0 < f → f ≠ b → ∀ o < pageSize, t.byte f o = s.byte f o

theorem EntryOnly.refl (b w : Nat) (s : VM) : EntryOnly b w s s :=
  ⟨rfl, rfl, rfl, rfl, fun _ _ => rfl, fun _ _ _ _ _ _ => rfl, fun _ _ _ _ _ => rfl⟩

theorem EntryOnly.trans {b : Nat} (h : EntryOnly b w s t) (k : EntryOnly b w t u) :
    EntryOnly b w s u where
  procs := k.procs.trans h.procs
  ptbr := k.ptbr.trans h.ptbr
  currentProcess := k.currentProcess.trans h.currentProcess
  replacement := k.replacement.trans h.replacement
  isProtected i hi := (k.isProtected i hi).trans (h.isProtected i hi)
  pte a x ha hx other G := (k.pte a x ha hx other G).trans (h.pte a x ha hx other G)
  byte f hf ne o ho := (k.byte f hf ne o ho).trans (h.byte f hf ne o ho)

theorem entryOnly_unmap {b f : Nat} (hf : f < numFrames) (pos : 0 < b) (hw : w < numPages) :
    EntryOnly b w s ((s.setPte (pteAddr b w) .valid 0).setFte f .mapped 0) where
  procs := rfl
  ptbr := rfl
  currentProcess := rfl
  replacement := rfl
  isProtected i hi := by simp [fte_setPte hi pos]
  pte a x ha hx other G := by
    rw [pte_setFte hf ha, pte_setPte hw hx, if_neg (fun e => other ⟨e.1, e.2.1⟩)]
  byte g hg ne o ho := by rw [byte_setFte hf hg, byte_setPte hw ho ne]

theorem entryOnly_release {b : Nat} {q : SwapSpace} (pos : 0 < b) (hw : w < numPages) :
    EntryOnly b w s ((s.setSwap q).setPte (pteAddr b w) .sid 0) where
  procs := rfl
  ptbr := rfl
  currentProcess := rfl
  replacement := rfl
  isProtected i hi := fte_setPte hi pos
  pte a x _ hx other G := by
    rw [pte_setPte hw hx, if_neg (fun e => other ⟨e.1, e.2.1⟩)]
    rfl
  byte g _ ne o ho := byte_setPte hw ho ne

/-- One round of the loop of `proc_cleanup`. -/
theorem cleanupEntry_spec (inv : Inv R s xs) (hp : R p) (hw : w < numPages) :
    ∃ t ys, cleanupEntry (s.procs p).savedPtbr s w = .ok t ∧ Inv R t ys ∧
      EntryOnly (s.procs p).savedPtbr w s t ∧ t.entry p w .valid = 0 ∧ t.entry p w .sid = 0 ∧
      (∀ x, x ∈ ys ↔ x ∈ xs ∧ (s.entry p w .sid = x.id → x.id = 0)) ∧
      t.swap.swapId = s.swap.swapId ∧ t.swap.sizeMax = s.swap.sizeMax := by
  have pos := inv.tablePos hp
  have entry : entryAt (s.procs p).savedPtbr w = .ok (pteAddr (s.procs p).savedPtbr w) :=
    entryAt_eq (inv.tableLt hp) hw
  -- the page is dropped first
  obtain ⟨m, first, invm, only, invalid, sid, swap⟩ : ∃ m,
      (∀ u, swapExists m (pteAddr (s.procs p).savedPtbr w) = false ∧ u = m ∨
          swapExists m (pteAddr (s.procs p).savedPtbr w) = true ∧
            swapFree m (pteAddr (s.procs p).savedPtbr w) = .ok u →
        cleanupEntry (s.procs p).savedPtbr s w = .ok u) ∧
      Inv R m xs ∧ EntryOnly (s.procs p).savedPtbr w s m ∧ m.entry p w .valid = 0 ∧
      m.entry p w .sid = s.entry p w .sid ∧ m.swap = s.swap := by
    by_cases valid : s.entry p w .valid = 0
    · refine ⟨s, ?_, inv, EntryOnly.refl _ _ _, valid, rfl, rfl⟩
      have there : s.pte (pteAddr (s.procs p).savedPtbr w) .valid = 0 := valid
      rintro u (⟨none, rfl⟩ | ⟨some, freed⟩)
      · simp [cleanupEntry, entry, there, none, bind, Except.bind, pure, Except.pure]
      · simp [cleanupEntry, entry, there, some, freed, bind, Except.bind, pure, Except.pure]
    · have own := inv.owns hp hw valid
      have there : s.pte (pteAddr (s.procs p).savedPtbr w) .valid ≠ 0 := valid
      have pfn : s.pte (pteAddr (s.procs p).savedPtbr w) .pfn = s.entry p w .pfn := rfl
      refine ⟨_, ?_, inv.unmap hp hw valid, entryOnly_unmap own.lt pos hw, ?_, ?_, rfl⟩
      · rintro u (⟨none, rfl⟩ | ⟨some, freed⟩)
        · simp [cleanupEntry, entry, there, pfn, fteAddr_inMem own.lt, none, bind, Except.bind,
            pure, Except.pure]
        · simp [cleanupEntry, entry, there, pfn, fteAddr_inMem own.lt, some, freed, bind,
            Except.bind, pure, Except.pure]
      · rw [VM.entry, setFte_procs, setPte_procs, pte_setFte own.lt pos, pte_setPte hw hw]
        simp
      · rw [VM.entry, setFte_procs, setPte_procs, pte_setFte own.lt pos, pte_setPte hw hw]
        simp [VM.entry]
  have table : (m.procs p).savedPtbr = (s.procs p).savedPtbr := by rw [only.procs]
  have sid' : m.pte (pteAddr (s.procs p).savedPtbr w) .sid = s.entry p w .sid := by
    rw [← sid, VM.entry, table]
  by_cases saved : s.entry p w .sid = 0
  · refine ⟨m, xs, first m (Or.inl ⟨?_, rfl⟩), invm, only, invalid, sid.trans saved, ?_,
      by rw [swap], by rw [swap]⟩
    · simp [swapExists, sid', saved]
    · intro x
      rw [saved]
      exact ⟨fun hx => ⟨hx, Eq.symm⟩, And.left⟩
  · have present : m.pte (pteAddr (s.procs p).savedPtbr w) .sid ∈ ids xs := by
      rw [sid']
      exact inv.sidQueued hp hw saved
    obtain ⟨q, freed, rep, swapId, sizeMax⟩ := swapFree_spec invm.rep invm.idsDistinct present
    rw [sid', ← sid] at rep
    have release := invm.releaseSlot hp hw (sid.trans_ne saved) rep swapId
    rw [table, sid] at release
    refine ⟨_, _, first _ (Or.inr ⟨?_, freed⟩), release, only.trans (entryOnly_release pos hw), ?_,
      ?_, ?_, by simp [swapId, swap], by simp [sizeMax, swap]⟩
    · simp [swapExists, sid', saved]
    · rw [VM.entry, table] at invalid
      simp [VM.entry, table, pte_setPte hw hw, invalid]
    · simp [VM.entry, table, pte_setPte hw hw]
    · intro x
      simp only [List.mem_filter, decide_eq_true_eq]
      constructor
      · exact fun h => ⟨h.1, fun e => absurd e.symm h.2⟩
      · exact fun h => ⟨h.1, fun e => saved (e.symm.trans (h.2 e.symm))⟩

/-! ## The loop -/

/-- The entries of `p` below `k` are empty, the slots their sids named are gone,
and the rest of the state is as in `s`. -/
structure Cleaned (R : Nat → Prop) (s : VM) (xs : List Slot) (p k : Nat) (t : VM)
    (ys : List Slot) : Prop where
  inv : Inv R t ys
  procs : t.procs = s.procs
  ptbr : t.ptbr = s.ptbr
  currentProcess : t.currentProcess = s.currentProcess
  replacement : t.replacement = s.replacement
  isProtected : ∀ i < numFrames, t.fte i .isProtected = s.fte i .isProtected
  empty : ∀ x < k, t.entry p x .valid = 0 ∧ t.entry p x .sid = 0
  pte : ∀ b x, 0 < b → x < numPages → (b = (s.procs p).savedPtbr → k ≤ x) → ∀ G,
    t.pte (pteAddr b x) G = s.pte (pteAddr b x) G
  byte : ∀ f, 0 < f → f ≠ (s.procs p).savedPtbr → ∀ o < pageSize, t.byte f o = s.byte f o
  slots : ∀ x, x ∈ ys ↔ x ∈ xs ∧ ∀ i < k, s.entry p i .sid = x.id → x.id = 0
  swapId : t.swap.swapId = s.swap.swapId
  sizeMax : t.swap.sizeMax = s.swap.sizeMax

theorem Cleaned.next {k : Nat} (h : Cleaned R s xs p k t ys) (hp : R p) (hk : k < numPages) :
    ∃ u, cleanupEntry (s.procs p).savedPtbr t k = .ok u ∧ ∃ zs, Cleaned R s xs p (k + 1) u zs := by
  have table : (t.procs p).savedPtbr = (s.procs p).savedPtbr := by rw [h.procs]
  have pos : 0 < (s.procs p).savedPtbr := table ▸ h.inv.tablePos hp
  obtain ⟨u, zs, ok, inv, only, invalid, sid, slots, swapId, sizeMax⟩ :=
    cleanupEntry_spec h.inv hp hk
  rw [table] at ok only
  have entry : t.entry p k .sid = s.entry p k .sid := by
    rw [VM.entry, table]
    exact h.pte _ k pos hk (fun _ => Nat.le_refl k) _
  refine ⟨u, ok, zs, inv, only.procs.trans h.procs, only.ptbr.trans h.ptbr,
    only.currentProcess.trans h.currentProcess, only.replacement.trans h.replacement, ?_, ?_, ?_,
    ?_, ?_, swapId.trans h.swapId,
    sizeMax.trans h.sizeMax⟩
  · exact fun i hi => (only.isProtected i hi).trans (h.isProtected i hi)
  · intro x hx
    by_cases last : x = k
    · rw [last]
      exact ⟨invalid, sid⟩
    · have same : ∀ G, u.entry p x G = t.entry p x G := by
        intro G
        rw [VM.entry, VM.entry, only.procs, table]
        exact only.pte _ x pos (by omega) (fun e => last e.2) G
      rw [same, same]
      exact h.empty x (by omega)
  · intro b x hb hx above G
    rw [only.pte b x hb hx (fun e => absurd (above e.1) (by omega)) G]
    exact h.pte b x hb hx (fun e => Nat.le_of_succ_le (above e)) G
  · exact fun f hf ne o ho => (only.byte f hf ne o ho).trans (h.byte f hf ne o ho)
  · intro x
    rw [slots, h.slots, entry]
    constructor
    · rintro ⟨⟨hx, before⟩, here⟩
      refine ⟨hx, fun i hi => ?_⟩
      rcases Nat.lt_succ_iff_lt_or_eq.mp hi with lt | rfl
      · exact before i lt
      · exact here
    · rintro ⟨hx, all⟩
      exact ⟨⟨hx, fun i hi => all i (Nat.lt_succ_of_lt hi)⟩, all k (by omega)⟩

theorem cleaned_all (inv : Inv R s xs) (hp : R p) :
    ∃ t, (List.range numPages).foldlM (cleanupEntry (s.procs p).savedPtbr) s = .ok t ∧
      ∃ ys, Cleaned R s xs p numPages t ys := by
  refine foldlM_range (fun k t => ∃ ys, Cleaned R s xs p k t ys) ⟨xs, ?_⟩ ?_
  · exact ⟨inv, rfl, rfl, rfl, rfl, fun _ _ => rfl, fun _ h => absurd h (Nat.not_lt_zero _),
      fun _ _ _ _ _ _ => rfl, fun _ _ _ _ _ => rfl,
      fun x => ⟨fun hx => ⟨hx, fun _ h => absurd h (Nat.not_lt_zero _)⟩, And.left⟩, rfl, rfl⟩
  · rintro k t hk ⟨ys, cleaned⟩
    exact cleaned.next hp hk

/-! ## `proc_cleanup` -/

/-- Process `p` has given back its page table, its pages and its slots. -/
structure Stopped (R : Nat → Prop) (s : VM) (xs : List Slot) (p : Nat) (t : VM)
    (ys : List Slot) : Prop where
  procs : t.procs = s.procs
  ptbr : t.ptbr = s.ptbr
  currentProcess : t.currentProcess = s.currentProcess
  replacement : t.replacement = s.replacement
  isProtected : ∀ i < numFrames, t.fte i .isProtected =
    if i = (s.procs p).savedPtbr then 0 else s.fte i .isProtected
  pte : ∀ b x, 0 < b → x < numPages → b ≠ (s.procs p).savedPtbr → ∀ G,
    t.pte (pteAddr b x) G = s.pte (pteAddr b x) G
  byte : ∀ f, 0 < f → f ≠ (s.procs p).savedPtbr → ∀ o < pageSize, t.byte f o = s.byte f o
  slots : ∀ x, x ∈ ys ↔ x ∈ xs ∧ ∀ i < numPages, s.entry p i .sid = x.id → x.id = 0
  swapId : t.swap.swapId = s.swap.swapId
  sizeMax : t.swap.sizeMax = s.swap.sizeMax

/-- `proc_cleanup` after its loop. -/
def releaseTable (ptbr : Nat) (s : VM) : VM :=
  let s := if s.fte ptbr .isProtected ≠ 0 then s.setFte ptbr .isProtected 0 else s
  s.setFte ptbr .mapped 0

/-- A process with an empty page table leaves the processes that have one. -/
theorem Inv.leave (inv : Inv R s xs) (hp : R p)
    (empty : ∀ w < numPages, s.entry p w .valid = 0 ∧ s.entry p w .sid = 0) :
    Inv (fun r => R r ∧ r ≠ p) (releaseTable (s.procs p).savedPtbr s) xs := by
  have hb := inv.tableLt hp
  have fte : ∀ i F, (releaseTable (s.procs p).savedPtbr s).fte i F =
      if i = (s.procs p).savedPtbr ∧ (F = .isProtected ∨ F = .mapped) then 0 else s.fte i F := by
    intro i F
    by_cases here : i = (s.procs p).savedPtbr
    · cases F <;> simp [releaseTable, here, inv.tableProtected hp]
    · cases F <;> simp [releaseTable, here, inv.tableProtected hp]
  have procs : (releaseTable (s.procs p).savedPtbr s).procs = s.procs := by
    simp [releaseTable, inv.tableProtected hp]
  have swap : (releaseTable (s.procs p).savedPtbr s).swap = s.swap := by
    simp [releaseTable, inv.tableProtected hp]
  have entry : ∀ r x G, R r → (releaseTable (s.procs p).savedPtbr s).entry r x G =
      s.entry r x G := by
    intro r x G hr
    rw [VM.entry, procs, VM.entry, releaseTable, if_pos (inv.tableProtected hp)]
    rw [pte_setFte hb (inv.tablePos hr), pte_setFte hb (inv.tablePos hr)]
  have apart : ∀ {r}, R r → r ≠ p → (s.procs r).savedPtbr ≠ (s.procs p).savedPtbr :=
    fun hr ne same => ne (inv.tableInj hr hp same)
  refine ⟨swap ▸ inv.rep, fun h => inv.pidLt h.1, ?_, ?_, ?_, ?_, ?_, ?_, ?_, ?_, ?_, ?_, ?_, ?_,
    ?_, inv.idsDistinct, swap ▸ inv.idsFresh, swap ▸ inv.swapIdLt⟩
  · rw [fte, if_neg (fun e => (inv.tablePos hp).ne e.1)]
    exact inv.frameZero
  · rintro r ⟨hr, _⟩
    rw [procs]
    exact inv.tablePos hr
  · rintro r ⟨hr, _⟩
    rw [procs]
    exact inv.tableLt hr
  · rintro r ⟨hr, ne⟩
    rw [procs, fte, if_neg (fun e => apart hr ne e.1)]
    exact inv.tableProtected hr
  · rintro r r' ⟨hr, _⟩ ⟨hr', _⟩
    rw [procs]
    exact inv.tableInj hr hr'
  · intro f hf locked
    rw [fte] at locked
    by_cases here : f = (s.procs p).savedPtbr
    · simp [here] at locked
    · rw [if_neg (fun e => here e.1)] at locked
      rcases inv.protectedFrame hf locked with zero | ⟨r, hr, table⟩
      · exact Or.inl zero
      · refine Or.inr ⟨r, ⟨hr, ?_⟩, ?_⟩
        · rintro rfl
          exact here table.symm
        · rw [procs]
          exact table
  · rintro r x ⟨hr, _⟩ hx
    rw [entry r x _ hr]
    exact inv.validBit hr hx
  · rintro r x ⟨hr, _⟩ hx
    rw [entry r x _ hr]
    exact inv.dirtyBit hr hx
  · rintro r x ⟨hr, _⟩ hx
    rw [entry r x _ hr, entry r x _ hr]
    intro valid
    have own := inv.owns hr hx valid
    have ne := inv.pfn_ne_table hr hx valid hp
    exact own.congr (fun F _ => (fte _ F).trans (if_neg (fun e => ne e.1)))
  · intro f hf unprotected mapped
    rw [fte] at unprotected mapped
    have ne : f ≠ (s.procs p).savedPtbr := by
      rintro rfl
      simp at mapped
    rw [if_neg (fun e => ne e.1)] at unprotected mapped
    obtain ⟨r, x, hr, hx, valid, pfn⟩ := inv.owned hf unprotected mapped
    refine ⟨r, x, ⟨hr, ?_⟩, hx, (entry r x _ hr).trans_ne valid, (entry r x _ hr).trans pfn⟩
    rintro rfl
    exact valid (empty x hx).1
  · rintro r x ⟨hr, _⟩ hx
    rw [entry r x _ hr]
    exact inv.sidQueued hr hx
  · rintro r x r' x' ⟨hr, _⟩ hx ⟨hr', _⟩ hx'
    rw [entry r x _ hr, entry r' x' _ hr']
    exact inv.sidInj hr hx hr' hx'
  · intro i hi ne
    obtain ⟨r, x, hr, hx, sid⟩ := inv.idOwned i hi ne
    refine ⟨r, x, ⟨hr, ?_⟩, hx, (entry r x _ hr).trans sid⟩
    rintro rfl
    exact ne (sid.symm.trans (empty x hx).2)

/-- `proc_cleanup` of a process that has a page table always runs to its end. -/
theorem procCleanup_spec (inv : Inv R s xs) (hp : R p) :
    ∃ t ys, procCleanup p s = .ok t ∧ Stopped R s xs p t ys ∧
      Inv (fun r => R r ∧ r ≠ p) t ys := by
  obtain ⟨m, loop, ys, cleaned⟩ := cleaned_all inv hp
  have table : (m.procs p).savedPtbr = (s.procs p).savedPtbr := by rw [cleaned.procs]
  have hb := inv.tableLt hp
  have locked : m.fte (s.procs p).savedPtbr .isProtected ≠ 0 := by
    rw [cleaned.isProtected _ hb]
    exact inv.tableProtected hp
  have leave := cleaned.inv.leave hp cleaned.empty
  rw [table] at leave
  refine ⟨releaseTable (s.procs p).savedPtbr m, ys, ?_, ?_, leave⟩
  · simp [procCleanup, loop, fteAddr_inMem hb, releaseTable, bind, Except.bind, pure, Except.pure]
  · refine ⟨?_, ?_, ?_, ?_, ?_, ?_, ?_, cleaned.slots, ?_, ?_⟩
    · simp [releaseTable, locked, cleaned.procs]
    · simp [releaseTable, locked, cleaned.ptbr]
    · simp [releaseTable, locked, cleaned.currentProcess]
    · simp [releaseTable, locked, cleaned.replacement]
    · intro i hi
      by_cases here : i = (s.procs p).savedPtbr
      · simp [releaseTable, locked, here]
      · simp [releaseTable, locked, here, cleaned.isProtected i hi]
    · intro b x hb' hx ne G
      simp only [releaseTable, if_pos locked, pte_setFte hb hb']
      exact cleaned.pte b x hb' hx (fun e => absurd e ne) G
    · intro f hf ne o ho
      simp only [releaseTable, if_pos locked, byte_setFte hb hf]
      exact cleaned.byte f hf ne o ho
    · simp [releaseTable, locked, cleaned.swapId]
    · simp [releaseTable, locked, cleaned.sizeMax]

end SystemsProjects.Vm
