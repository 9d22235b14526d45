import SystemsProjects.Vm.Invariant

/-!
# Eviction

What `free_frame` does to a state that satisfies the invariant, whichever
unprotected frame the victim is.
-/

namespace SystemsProjects.Vm

/-- What happened to the swap queue when page `w` of `p` left frame `v`. -/
inductive SwapMoved (s : VM) (xs : List Slot) (p w v : Nat) : VM → List Slot → Prop
  | clean {t : VM} (clean : s.entry p w .dirty = 0) (sid : t.entry p w .sid = s.entry p w .sid)
      (swap : t.swap = s.swap) : SwapMoved s xs p w v t xs
  | rewritten {t : VM} {x : Slot} {page : Nat → UInt8} (dirty : s.entry p w .dirty ≠ 0)
      (sid : t.entry p w .sid = s.entry p w .sid) (hx : x ∈ xs) (id : x.id = s.entry p w .sid)
      (copy : ∀ o < pageSize, page o = s.byte v o) (swapId : t.swap.swapId = s.swap.swapId)
      (size : t.swap.size = s.swap.size) (sizeMax : t.swap.sizeMax = s.swap.sizeMax) :
      SwapMoved s xs p w v t (writeSlot xs x.block page)
  | created {t : VM} {a : Nat} {page : Nat → UInt8} (dirty : s.entry p w .dirty ≠ 0)
      (absent : s.entry p w .sid ∉ ids xs) (sid : t.entry p w .sid = s.swap.swapId)
      (copy : ∀ o < pageSize, page o = s.byte v o)
      (swapId : t.swap.swapId = uint64 (s.swap.swapId + 1))
      (size : t.swap.size = uint64 (s.swap.size + 1))
      (sizeMax : t.swap.sizeMax = max s.swap.sizeMax (uint64 (s.swap.size + 1))) :
      SwapMoved s xs p w v t (xs ++ [⟨a, s.swap.swapId, page⟩])

/-- Page `w` of `p` has left frame `v`, which the frame table still lists. -/
structure Evicted (s : VM) (xs : List Slot) (p w v : Nat) (t : VM) (ys : List Slot) : Prop where
  procs : t.procs = s.procs
  ptbr : t.ptbr = s.ptbr
  currentProcess : t.currentProcess = s.currentProcess
  replacement : t.replacement = s.replacement
  fte : ∀ i < numFrames, ∀ F, t.fte i F = s.fte i F
  pte : ∀ b u, 0 < b → u < numPages → ¬ (b = (s.procs p).savedPtbr ∧ u = w) → ∀ G,
    t.pte (pteAddr b u) G = s.pte (pteAddr b u) G
  pfn : t.entry p w .pfn = s.entry p w .pfn
  valid : t.entry p w .valid = 0
  dirty : t.entry p w .dirty = 0
  byte : ∀ f, 0 < f → f ≠ (s.procs p).savedPtbr → ∀ o < pageSize, t.byte f o = s.byte f o
  rep : SwapRep t.swap ys
  moved : SwapMoved s xs p w v t ys

section

variable {R : Nat → Prop} {env : Env} {s t u : VM} {xs ys : List Slot} {p w v : Nat}

theorem SwapMoved.congr (h : SwapMoved s xs p w v t ys) (swap : u.swap = t.swap)
    (sid : u.entry p w .sid = t.entry p w .sid) : SwapMoved s xs p w v u ys := by
  cases h with
  | clean clean sid' swap' => exact .clean clean (sid.trans sid') (swap.trans swap')
  | rewritten dirty sid' hx id copy swapId size sizeMax =>
    rw [← swap] at swapId size sizeMax
    exact .rewritten dirty (sid.trans sid') hx id copy swapId size sizeMax
  | created dirty absent sid' copy swapId size sizeMax =>
    rw [← swap] at swapId size sizeMax
    exact .created dirty absent (sid.trans sid') copy swapId size sizeMax

/-- The page is on disk, if it has to be, and its entry is clean; `valid` and
`referenced` are still to be cleared. -/
structure Saved (s : VM) (xs : List Slot) (p w v : Nat) (t : VM) (ys : List Slot) : Prop where
  procs : t.procs = s.procs
  ptbr : t.ptbr = s.ptbr
  currentProcess : t.currentProcess = s.currentProcess
  replacement : t.replacement = s.replacement
  fte : ∀ i < numFrames, ∀ F, t.fte i F = s.fte i F
  pte : ∀ b u, 0 < b → u < numPages → ¬ (b = (s.procs p).savedPtbr ∧ u = w) → ∀ G,
    t.pte (pteAddr b u) G = s.pte (pteAddr b u) G
  pfn : t.entry p w .pfn = s.entry p w .pfn
  dirty : t.entry p w .dirty = 0
  byte : ∀ f, 0 < f → f ≠ (s.procs p).savedPtbr → ∀ o < pageSize, t.byte f o = s.byte f o
  rep : SwapRep t.swap ys
  moved : SwapMoved s xs p w v t ys

theorem Saved.evicted (h : Saved s xs p w v t ys) (hw : w < numPages)
    (pos : 0 < (s.procs p).savedPtbr) :
    Evicted s xs p w v ((t.setPte (pteAddr (s.procs p).savedPtbr w) .valid 0).setPte
      (pteAddr (s.procs p).savedPtbr w) .referenced 0) ys := by
  have entry : ∀ G, ((t.setPte (pteAddr (s.procs p).savedPtbr w) .valid 0).setPte
      (pteAddr (s.procs p).savedPtbr w) .referenced 0).entry p w G =
      if G = .referenced then 0 else if G = .valid then 0 else t.entry p w G := by
    intro G
    simp only [VM.entry, VM.setPte_procs, h.procs, VM.pte_setPte hw hw, true_and, Nat.zero_mod]
  refine ⟨h.procs, h.ptbr, h.currentProcess, h.replacement, ?_, ?_, ?_, ?_, ?_, ?_, h.rep, ?_⟩
  · intro i hi F
    rw [VM.fte_setPte hi pos, VM.fte_setPte hi pos, h.fte i hi]
  · intro b x hb hx other G
    have none : ∀ P, ¬ (b = (s.procs p).savedPtbr ∧ x = w ∧ P) := fun P e => other ⟨e.1, e.2.1⟩
    rw [VM.pte_setPte hw hx, if_neg (none _), VM.pte_setPte hw hx, if_neg (none _)]
    exact h.pte b x hb hx other G
  · rw [entry]
    simpa using h.pfn
  · simp [entry]
  · rw [entry]
    simpa using h.dirty
  · intro f hf ne o ho
    rw [VM.byte_setPte hw ho ne, VM.byte_setPte hw ho ne]
    exact h.byte f hf ne o ho
  · exact h.moved.congr rfl (by simp [entry])

theorem evict_spec (inv : Inv R s xs) (hp : R p) (hw : w < numPages)
    (valid : s.entry p w .valid ≠ 0) (pfn : s.entry p w .pfn = v) :
    (evict env v s = .error allocFailed ∧ ∃ heap, env.calloc heap = none) ∨
    ∃ t ys, evict env v s = .ok t ∧ Evicted s xs p w v t ys := by
  have own := inv.owns hp hw valid
  rw [pfn] at own
  have pos := inv.tablePos hp
  have notTable : v ≠ (s.procs p).savedPtbr := pfn ▸ inv.pfn_ne_table hp hw valid hp
  have room : frameAddr v + pageSize ≤ memSize := frame_room own.lt
  have follow : s.pcb (s.fte v .process) .savedPtbr = .ok (s.procs p).savedPtbr := by
    rw [own.process]
    exact VM.pcb_savedPtbr (inv.pidLt hp) (inv.tableLt hp)
  have entry : entryAt (s.procs p).savedPtbr (s.fte v .vpn) =
      .ok (pteAddr (s.procs p).savedPtbr w) := by
    rw [own.vpn]
    exact entryAt_eq (inv.tableLt hp) hw
  have pfn' : s.pte (pteAddr (s.procs p).savedPtbr w) .pfn = v := pfn
  by_cases dirty : s.pte (pteAddr (s.procs p).savedPtbr w) .dirty = 0
  · right
    have saved : Saved s xs p w v s xs :=
      ⟨rfl, rfl, rfl, rfl, fun _ _ _ => rfl, fun _ _ _ _ _ _ => rfl, rfl, dirty,
        fun _ _ _ _ _ => rfl, inv.rep, .clean dirty rfl rfl⟩
    refine ⟨_, xs, ?_, saved.evicted hw pos⟩
    simp [evict, follow, entry, dirty, bind, Except.bind, pure, Except.pure]
  · -- the three ways `swap_write` can go
    have after : ∀ (u : VM) (ys : List Slot),
        swapWrite env s (pteAddr (s.procs p).savedPtbr w) (frameAddr v) = .ok u →
        u.procs = s.procs → u.ptbr = s.ptbr → u.currentProcess = s.currentProcess →
        u.replacement = s.replacement →
        (∀ i < numFrames, ∀ F, u.fte i F = s.fte i F) →
        (∀ b x, 0 < b → x < numPages → ¬ (b = (s.procs p).savedPtbr ∧ x = w) → ∀ G,
          u.pte (pteAddr b x) G = s.pte (pteAddr b x) G) →
        u.entry p w .pfn = s.entry p w .pfn →
        (∀ f, 0 < f → f ≠ (s.procs p).savedPtbr → ∀ o < pageSize, u.byte f o = s.byte f o) →
        SwapRep u.swap ys → SwapMoved s xs p w v u ys →
        ∃ t ys, evict env v s = .ok t ∧ Evicted s xs p w v t ys := by
      intro u ys write procs ptbr current policy fte pte pfn byte rep moved
      have clean : ∀ G, (VM.setPte (u.setStats (fun c =>
          { c with writebacks := uint64 (c.writebacks + 1) }))
          (pteAddr (s.procs p).savedPtbr w) .dirty 0).entry p w G =
          if G = .dirty then 0 else u.entry p w G := by
        intro G
        simp only [VM.entry, VM.setPte_procs, VM.setStats_procs, procs, VM.pte_setPte hw hw,
          true_and, Nat.zero_mod, VM.setStats_pte]
      have saved : Saved s xs p w v (VM.setPte (u.setStats (fun c =>
          { c with writebacks := uint64 (c.writebacks + 1) }))
          (pteAddr (s.procs p).savedPtbr w) .dirty 0) ys := by
        refine ⟨procs, ptbr, current, policy, ?_, ?_, ?_, ?_, ?_, rep, ?_⟩
        · intro i hi F
          rw [VM.fte_setPte hi pos]
          exact fte i hi F
        · intro b x hb hx other G
          rw [VM.pte_setPte hw hx, if_neg (fun e => other ⟨e.1, e.2.1⟩)]
          exact pte b x hb hx other G
        · rw [clean]
          simpa using pfn
        · exact (clean .dirty).trans (if_pos rfl)
        · intro f hf ne o ho
          rw [VM.byte_setPte hw ho ne]
          exact byte f hf ne o ho
        · exact moved.congr rfl ((clean .sid).trans (if_neg (by decide)))
      refine ⟨_, ys, ?_, saved.evicted hw pos⟩
      simp [evict, follow, entry, dirty, pfn', write, bind, Except.bind, pure, Except.pure]
    by_cases present : s.entry p w .sid ∈ ids xs
    · right
      obtain ⟨x, hx, id, q', write, rep, swapId, size, sizeMax⟩ :=
        swapWrite_present env inv.rep present room
      exact after _ _ write rfl rfl rfl rfl (fun _ _ _ => rfl) (fun _ _ _ _ _ _ => rfl) rfl
        (fun _ _ _ _ _ => rfl) rep
        (.rewritten dirty rfl hx id (fun _ _ => rfl) swapId size sizeMax)
    · rcases swapWrite_absent env inv.rep present room with
        ⟨failed, exhausted⟩ | ⟨a, q', outside, write, rep, swapId, size, sizeMax⟩
      · left
        refine ⟨?_, exhausted⟩
        simp [evict, follow, entry, dirty, pfn', failed, bind, Except.bind]
      · right
        have sid : ((s.setSwap q').setPte (pteAddr (s.procs p).savedPtbr w) .sid
            s.swap.swapId).entry p w .sid = s.swap.swapId := by
          have small : s.swap.swapId % 256 ^ pteLayout.size .sid = s.swap.swapId :=
            Nat.mod_eq_of_lt (by simpa [pteLayout] using inv.swapIdLt)
          simp only [VM.entry, VM.setPte_procs, VM.setSwap_procs, VM.pte_setPte hw hw, small,
            and_self, ↓reduceIte]
        have copy : ∀ o < pageSize, pageAt (s.setPte (pteAddr (s.procs p).savedPtbr w) .sid
            s.swap.swapId) (frameAddr v) o = s.byte v o := by
          intro o ho
          exact VM.byte_setPte hw ho notTable
        refine after _ _ write rfl rfl rfl rfl ?_ ?_ ?_ ?_ rep
          (.created dirty present sid copy swapId size sizeMax)
        · exact fun i hi F => VM.fte_setPte hi pos
        · intro b x hb hx other G
          rw [VM.pte_setPte hw hx, if_neg (fun e => other ⟨e.1, e.2.1⟩)]
          rfl
        · simp [VM.entry, VM.pte_setPte hw hw]
        · exact fun f hf ne o ho => VM.byte_setPte hw ho ne

end

/-! ## `free_frame` -/

/-- Page `w` of `p` is the one in frame `v`. -/
def InFrame (R : Nat → Prop) (s : VM) (v p w : Nat) : Prop :=
  R p ∧ w < numPages ∧ s.entry p w .valid ≠ 0 ∧ s.entry p w .pfn = v

/-- Frame `v` has been emptied: the page that was in it is out of memory, and
nothing else has moved. -/
structure Freed (R : Nat → Prop) (s : VM) (xs : List Slot) (v : Nat) (t : VM) (ys : List Slot) :
    Prop where
  procs : t.procs = s.procs
  ptbr : t.ptbr = s.ptbr
  currentProcess : t.currentProcess = s.currentProcess
  replacement : t.replacement = s.replacement
  fte : ∀ i < numFrames, ∀ F, t.fte i F = if i = v ∧ F ≠ .isProtected then 0 else s.fte i F
  byte : ∀ f < numFrames, s.fte f .isProtected = 0 → ∀ o < pageSize, t.byte f o = s.byte f o
  rep : SwapRep t.swap ys
  left : ∀ p w, InFrame R s v p w → t.entry p w .valid = 0 ∧ t.entry p w .dirty = 0 ∧
    SwapMoved s xs p w v t ys
  kept : ∀ p w, R p → w < numPages → ¬ InFrame R s v p w → ∀ G,
    t.entry p w G = s.entry p w G
  idle : (∀ p w, ¬ InFrame R s v p w) → ys = xs ∧ t.swap = s.swap

section

variable {R : Nat → Prop} {env : Env} {s t : VM} {xs ys : List Slot} {v : Nat}

theorem fte_clearFrame (i : Nat) (F : FteField) :
    (clearFrame v s).fte i F = if i = v ∧ F ≠ .isProtected then 0 else s.fte i F := by
  by_cases hi : i = v
  · cases F <;> simp [clearFrame, hi]
  · simp [clearFrame, hi]

theorem pte_clearFrame {b w : Nat} {G : PteField} (hv : v < numFrames) (hb : 0 < b) :
    (clearFrame v s).pte (pteAddr b w) G = s.pte (pteAddr b w) G := by
  simp only [clearFrame, VM.pte_setFte hv hb]

theorem byte_clearFrame {f o : Nat} (hv : v < numFrames) (hf : 0 < f) :
    (clearFrame v s).byte f o = s.byte f o := by
  simp only [clearFrame, VM.byte_setFte hv hf]

theorem InFrame.unique (inv : Inv R s xs) {p w r u : Nat} (h : InFrame R s v p w)
    (k : InFrame R s v r u) : p = r ∧ w = u :=
  inv.entry_inj h.1 h.2.1 k.1 k.2.1 h.2.2.1 k.2.2.1 (h.2.2.2.trans k.2.2.2.symm)

theorem Inv.pos_of_unprotected (inv : Inv R s xs) {f : Nat} (h : s.fte f .isProtected = 0) :
    0 < f := by
  rcases Nat.eq_zero_or_pos f with rfl | pos
  · exact absurd h inv.frameZero
  · exact pos

theorem Evicted.freed (inv : Inv R s xs) {p w : Nat} (here : InFrame R s v p w)
    (h : Evicted s xs p w v t ys) : Freed R s xs v (clearFrame v t) ys := by
  obtain ⟨hp, hw, valid, pfn⟩ := here
  have own := inv.owns hp hw valid
  rw [pfn] at own
  have pos := inv.tablePos hp
  have entry : ∀ r u G, R r → (clearFrame v t).entry r u G = t.entry r u G := by
    intro r u G hr
    have posr : 0 < (t.procs r).savedPtbr := h.procs ▸ inv.tablePos hr
    exact pte_clearFrame own.lt posr
  refine ⟨h.procs, h.ptbr, h.currentProcess, h.replacement, ?_, ?_, h.rep, ?_, ?_, ?_⟩
  · intro i hi F
    rw [fte_clearFrame, h.fte i hi]
  · intro f hf unprotected o ho
    have ne : f ≠ (s.procs p).savedPtbr := fun e => inv.tableProtected hp (e ▸ unprotected)
    rw [byte_clearFrame own.lt (inv.pos_of_unprotected unprotected)]
    exact h.byte f (inv.pos_of_unprotected unprotected) ne o ho
  · intro r u there
    obtain ⟨rfl, rfl⟩ := there.unique inv ⟨hp, hw, valid, pfn⟩
    rw [entry _ _ _ hp, entry _ _ _ hp]
    exact ⟨h.valid, h.dirty, h.moved.congr rfl (entry _ _ _ hp)⟩
  · intro r u hr hu out G
    have other : ¬ ((s.procs r).savedPtbr = (s.procs p).savedPtbr ∧ u = w) := by
      rintro ⟨same, rfl⟩
      obtain rfl := inv.tableInj hr hp same
      exact out ⟨hp, hw, valid, pfn⟩
    rw [entry _ _ _ hr]
    simp only [VM.entry, h.procs]
    exact h.pte _ u (inv.tablePos hr) hu other G
  · exact fun none => absurd ⟨hp, hw, valid, pfn⟩ (none p w)

theorem freed_unmapped (inv : Inv R s xs) (hv : v < numFrames) (mapped : s.fte v .mapped = 0) :
    Freed R s xs v (clearFrame v s) xs := by
  have out : ∀ p w, ¬ InFrame R s v p w := by
    rintro p w ⟨hp, hw, valid, rfl⟩
    exact (inv.owns hp hw valid).mapped mapped
  refine ⟨rfl, rfl, rfl, rfl, fun i _ F => fte_clearFrame i F, ?_, inv.rep, ?_, ?_,
    fun _ => ⟨rfl, rfl⟩⟩
  · exact fun f _ unprotected o _ => byte_clearFrame hv (inv.pos_of_unprotected unprotected)
  · exact fun p w here => absurd here (out p w)
  · exact fun p w hp _ _ G => pte_clearFrame hv (inv.tablePos hp)

/-- `free_frame` on a victim that may be evicted: it fails only when no memory
is left for a swap entry. -/
theorem freeFrame_spec (inv : Inv R s xs) (select : env.select s = .ok (v, t))
    (hv : v < numFrames) (unprotected : s.fte v .isProtected = 0) :
    (freeFrame env s = .error allocFailed ∧ ∃ heap, env.calloc heap = none) ∨
    ∃ u ys, freeFrame env s = .ok (v, u) ∧ Freed R t xs v u ys := by
  have usage := env.select_usage inv.framesOwned select
  have invt := usage.inv inv
  have unprotected' : t.fte v .isProtected = 0 := by
    rw [usage.fte v hv _ (by decide)]
    exact unprotected
  by_cases mapped : t.fte v .mapped = 0
  · right
    refine ⟨_, xs, ?_, freed_unmapped invt hv mapped⟩
    simp [freeFrame, select, fteAddr_inMem hv, mapped, bind, Except.bind, pure, Except.pure]
  · obtain ⟨p, w, hp, hw, valid, pfn⟩ := invt.owned hv unprotected' mapped
    rcases evict_spec invt hp hw valid pfn with ⟨failed, exhausted⟩ | ⟨u, ys, ok, evicted⟩
    · left
      refine ⟨?_, exhausted⟩
      simp [freeFrame, select, fteAddr_inMem hv, mapped, failed, bind, Except.bind]
    · right
      refine ⟨_, ys, ?_, evicted.freed invt ⟨hp, hw, valid, pfn⟩⟩
      simp [freeFrame, select, fteAddr_inMem hv, mapped, ok, bind, Except.bind, pure, Except.pure]

end

end SystemsProjects.Vm
