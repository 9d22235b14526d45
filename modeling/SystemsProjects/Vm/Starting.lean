import SystemsProjects.Vm.Access
import SystemsProjects.Lib.Loops

/-!
# Starting, switching and ageing

`system_init`, `proc_init`, `context_switch` and `daemon_update` keep the
invariant.
-/

namespace SystemsProjects.Vm

open VM Loops

section

variable {R : Nat → Prop} {env : Env} {s t : VM} {xs ys : List Slot} {p v : Nat}

/-! ## `proc_init` -/

/-- Process `p` has an empty page table in the frame `v`. -/
structure Started (s : VM) (p v : Nat) (t : VM) : Prop where
  table : (t.procs p).savedPtbr = v
  procs : ∀ r, r ≠ p → t.procs r = s.procs r
  state : (t.procs p).state = (s.procs p).state
  pid : (t.procs p).pid = (s.procs p).pid
  ptbr : t.ptbr = s.ptbr
  currentProcess : t.currentProcess = s.currentProcess
  replacement : t.replacement = s.replacement
  swap : t.swap = s.swap
  fte : ∀ i < numFrames, i ≠ v → ∀ F, t.fte i F = s.fte i F
  isProtected : t.fte v .isProtected = 1
  pte : ∀ b u, 0 < b → b ≠ v → u < numPages → ∀ G, t.pte (pteAddr b u) G = s.pte (pteAddr b u) G
  empty : ∀ u < numPages, ∀ G, t.entry p u G = 0
  byte : ∀ f, 0 < f → f ≠ v → ∀ o < pageSize, t.byte f o = s.byte f o

theorem started_initTable (posv : 0 < v) (hv : v < numFrames) :
    Started s p v (initTable p v s) := by
  have procs : ∀ r, (initTable p v s).procs r =
      if r = p then { s.procs r with savedPtbr := v } else s.procs r := fun _ => rfl
  have pte : ∀ b u G, 0 < b → (initTable p v s).pte (pteAddr b u) G =
      (s.memset (frameAddr v) pageSize 0).pte (pteAddr b u) G := by
    intro b u G hb
    simp only [initTable, setProc_pte, pte_setFte hv hb]
  refine ⟨?_, ?_, ?_, ?_, rfl, rfl, rfl, rfl, ?_, ?_, ?_, ?_, ?_⟩
  · rw [procs, if_pos rfl]
  · intro r ne
    rw [procs, if_neg ne]
  · rw [procs, if_pos rfl]
  · rw [procs, if_pos rfl]
  · intro i hi ne F
    simp only [initTable, setProc_fte, fte_setFte, ne, false_and, ↓reduceIte, memset_eq]
    exact fte_fillFrame hi posv
  · simp [initTable, fteLayout]
  · intro b u hb ne hu G
    rw [pte b u G hb, memset_eq, pte_fillFrame hu ne]
  · intro u hu G
    rw [VM.entry, procs, if_pos rfl, pte v u G posv, pte_memset_zero hu]
  · intro f hf ne o ho
    simp only [initTable, setProc_byte, byte_setFte hv hf, memset_eq]
    rw [byte_fillFrame ho, if_neg ne]

theorem Started.table_eq (h : Started s p v t) (out : ¬ R p) {r : Nat} (hr : R r) :
    (t.procs r).savedPtbr = (s.procs r).savedPtbr := by
  rw [h.procs r (fun e => out (e ▸ hr))]

section

variable (inv : Inv R s xs) (h : Started s p v t) (out : ¬ R p)
  (unprotected : s.fte v .isProtected = 0)

include inv h out unprotected

theorem Started.entry_other {r u : Nat} (hr : R r) (hu : u < numPages) (G : PteField) :
    t.entry r u G = s.entry r u G := by
  have ne : r ≠ p := fun e => out (e ▸ hr)
  rw [VM.entry, h.procs r ne]
  exact h.pte _ u (inv.tablePos hr) (inv.table_ne unprotected hr) hu G

/-- Process `p` joins the processes that have page tables. -/
theorem Started.preserves (hp : p < maxPid) (posv : 0 < v) (hv : v < numFrames)
    (unmapped : s.fte v .mapped = 0) : Inv (fun r => R r ∨ r = p) t xs := by
  have other := fun {r u} (hr : R r) => h.entry_other inv out unprotected hr (u := u)
  have table := fun {r} (hr : R r) => h.table_eq out hr
  have elsewhere : ∀ {r}, R r → (s.procs r).savedPtbr ≠ v := fun hr => inv.table_ne unprotected hr
  refine ⟨h.swap ▸ inv.rep, ?_, ?_, ?_, ?_, ?_, ?_, ?_, ?_, ?_, ?_, ?_, ?_, ?_, ?_,
    inv.idsDistinct, h.swap ▸ inv.idsFresh, h.swap ▸ inv.swapIdLt⟩
  · rintro r (hr | rfl)
    · exact inv.pidLt hr
    · exact hp
  · rw [h.fte 0 (by decide) posv.ne]
    exact inv.frameZero
  · rintro r (hr | rfl)
    · rw [table hr]
      exact inv.tablePos hr
    · rw [h.table]
      exact posv
  · rintro r (hr | rfl)
    · rw [table hr]
      exact inv.tableLt hr
    · rw [h.table]
      exact hv
  · rintro r (hr | rfl)
    · rw [table hr, h.fte _ (inv.tableLt hr) (elsewhere hr)]
      exact inv.tableProtected hr
    · rw [h.table, h.isProtected]
      decide
  · rintro r r' (hr | rfl) (hr' | rfl) same
    · rw [table hr, table hr'] at same
      exact inv.tableInj hr hr' same
    · rw [table hr, h.table] at same
      exact absurd same (elsewhere hr)
    · rw [table hr', h.table] at same
      exact absurd same.symm (elsewhere hr')
    · rfl
  · intro f hf locked
    by_cases here : f = v
    · exact Or.inr ⟨p, Or.inr rfl, h.table.trans here.symm⟩
    · rw [h.fte f hf here] at locked
      rcases inv.protectedFrame hf locked with zero | ⟨r, hr, at'⟩
      · exact Or.inl zero
      · exact Or.inr ⟨r, Or.inl hr, (table hr).trans at'⟩
  · rintro r u (hr | rfl) hu
    · rw [other hr hu]
      exact inv.validBit hr hu
    · exact (h.empty u hu _).trans_le (Nat.zero_le 1)
  · rintro r u (hr | rfl) hu
    · rw [other hr hu]
      exact inv.dirtyBit hr hu
    · exact (h.empty u hu _).trans_le (Nat.zero_le 1)
  · rintro r u (hr | rfl) hu valid
    · rw [other hr hu] at valid ⊢
      have own := inv.owns hr hu valid
      have ne : s.entry r u .pfn ≠ v := fun e => own.mapped (e ▸ unmapped)
      exact own.congr (fun F _ => h.fte _ own.lt ne F)
    · exact absurd (h.empty u hu _) valid
  · intro f hf unprotectedf mapped
    have ne : f ≠ v := by
      rintro rfl
      rw [h.isProtected] at unprotectedf
      exact absurd unprotectedf (by decide)
    rw [h.fte f hf ne] at unprotectedf mapped
    obtain ⟨r, u, hr, hu, valid, pfn⟩ := inv.owned hf unprotectedf mapped
    refine ⟨r, u, Or.inl hr, hu, ?_, ?_⟩
    · rw [other hr hu]
      exact valid
    · rw [other hr hu]
      exact pfn
  · rintro r u (hr | rfl) hu ne
    · rw [other hr hu] at ne ⊢
      exact inv.sidQueued hr hu ne
    · exact absurd (h.empty u hu _) ne
  · rintro r u r' u' (hr | rfl) hu (hr' | rfl) hu' ne same
    · rw [other hr hu] at ne same
      rw [other hr' hu'] at same
      exact inv.sidInj hr hu hr' hu' ne same
    · exact absurd (same.trans (h.empty u' hu' _)) ne
    · exact absurd (h.empty u hu _) ne
    · exact absurd (h.empty u hu _) ne
  · intro i hi ne
    obtain ⟨r, u, hr, hu, sid⟩ := inv.idOwned i hi ne
    exact ⟨r, u, Or.inl hr, hu, (other hr hu _).trans sid⟩

end

/-- `proc_init` frees a frame `v` and makes it the page table of `p`, or runs
out of memory for a swap entry. -/
theorem procInit_spec {c : VM} (inv : Inv R s xs) (out : ¬ R p) (hp : p < maxPid)
    (select : env.select s = .ok (v, c)) (hv : v < numFrames)
    (unprotected : s.fte v .isProtected = 0) :
    (procInit env p s = .error allocFailed ∧ ∃ heap, env.calloc heap = none) ∨
    ∃ f ys t, procInit env p s = .ok t ∧ Freed R c xs v f ys ∧ Started f p v t ∧ Inv R f ys ∧
      Inv (fun r => R r ∨ r = p) t ys := by
  rcases freeFrame_spec inv select hv unprotected with ⟨failed, exhausted⟩ | ⟨f, ys, ok, freed⟩
  · left
    refine ⟨?_, exhausted⟩
    simp [procInit, failed, bind, Except.bind]
  · right
    have usage := env.select_usage inv.framesOwned select
    have invf := freed.preserves (usage.inv inv) hv
    have unprotectedf : f.fte v .isProtected = 0 := by
      rw [freed.protected_eq hv, usage.fte v hv _ (by decide)]
      exact unprotected
    have unmapped : f.fte v .mapped = 0 := by
      rw [freed.fte v hv, if_pos (by simp)]
    have posv := inv.pos_of_unprotected unprotected
    have started : Started f p v (initTable p v f) := started_initTable posv hv
    refine ⟨f, ys, initTable p v f, ?_, freed, started, invf,
      started.preserves invf out unprotectedf hp posv hv unmapped⟩
    simp [procInit, ok, frame_inMem hv, initTable, bind, Except.bind, pure, Except.pure]

/-! ## `daemon_update` -/

theorem UsageOnly.refl (s : VM) : UsageOnly s s :=
  ⟨rfl, rfl, rfl, rfl, rfl, rfl, fun _ _ _ _ => rfl, fun _ _ _ _ _ _ _ => rfl, fun _ _ _ _ _ _ =>
    rfl⟩

theorem UsageOnly.trans {u : VM} (h : UsageOnly s t) (k : UsageOnly t u) : UsageOnly s u where
  ptbr := k.ptbr.trans h.ptbr
  currentProcess := k.currentProcess.trans h.currentProcess
  replacement := k.replacement.trans h.replacement
  procs := k.procs.trans h.procs
  swap := k.swap.trans h.swap
  stats := k.stats.trans h.stats
  fte i hi F ne := (k.fte i hi F ne).trans (h.fte i hi F ne)
  pte f pos hf w hw G ne := (k.pte f pos hf w hw G ne).trans (h.pte f pos hf w hw G ne)
  byte f pos hf unprotected o ho := by
    have unprotectedt : t.fte f .isProtected = 0 := by
      rw [h.fte f hf _ (by decide)]
      exact unprotected
    exact (k.byte f pos hf unprotectedt o ho).trans (h.byte f pos hf unprotected o ho)

theorem UsageOnly.framesOwned (h : UsageOnly s t) (owned : FramesOwned s) : FramesOwned t := by
  intro f hf unprotected mapped
  rw [h.fte f hf _ (by decide)] at unprotected mapped
  obtain ⟨p, hp, process, vpn, pos, lt, locked⟩ := owned f hf unprotected mapped
  refine ⟨p, hp, ?_, ?_, ?_, ?_, ?_⟩
  · rw [h.fte f hf _ (by decide)]
    exact process
  · rw [h.fte f hf _ (by decide)]
    exact vpn
  · rw [h.procs]
    exact pos
  · rw [h.procs]
    exact lt
  · rw [h.procs, h.fte _ lt _ (by decide)]
    exact locked

/-- Setting the referenced bit of an entry of a page table. -/
theorem usage_setReferenced {b w x : Nat} (pos : 0 < b) (hw : w < numPages)
    (locked : s.fte b .isProtected ≠ 0) :
    UsageOnly s (s.setPte (pteAddr b w) .referenced x) where
  ptbr := rfl
  currentProcess := rfl
  replacement := rfl
  procs := rfl
  swap := rfl
  stats := rfl
  fte i hi F _ := fte_setPte hi pos
  pte f _ _ u hu G ne := by rw [pte_setPte hw hu, if_neg (fun e => ne e.2.2)]
  byte f _ _ unprotected o ho :=
    byte_setPte hw ho (fun e => locked (e ▸ unprotected))

theorem usage_setRefCount {i x : Nat} (hi : i < numFrames) :
    UsageOnly s (s.setFte i .refCount x) where
  ptbr := rfl
  currentProcess := rfl
  replacement := rfl
  procs := rfl
  swap := rfl
  stats := rfl
  fte j _ F ne := by simp [ne]
  pte f pos _ u _ G _ := pte_setFte hi pos
  byte f pos _ _ o _ := byte_setFte hi pos

/-- The entry a frame in use belongs to can be reached. -/
theorem FramesOwned.entry (owned : FramesOwned s) {f : Nat} (hf : f < numFrames)
    (unprotected : s.fte f .isProtected = 0) (mapped : s.fte f .mapped ≠ 0) :
    ∃ p, s.pcb (s.fte f .process) .savedPtbr = .ok (s.procs p).savedPtbr ∧
      0 < (s.procs p).savedPtbr ∧
      (s.procs p).savedPtbr < numFrames ∧ s.fte (s.procs p).savedPtbr .isProtected ≠ 0 ∧
      s.fte f .vpn < numPages ∧ entryAt (s.procs p).savedPtbr (s.fte f .vpn) =
        .ok (pteAddr (s.procs p).savedPtbr (s.fte f .vpn)) := by
  obtain ⟨p, hp, process, vpn, pos, lt, locked⟩ := owned f hf unprotected mapped
  refine ⟨p, ?_, pos, lt, locked, vpn, entryAt_eq lt vpn⟩
  rw [process]
  exact pcb_savedPtbr hp lt

theorem ageFrame_usage (owned : FramesOwned s) {i : Nat} (hi : i < numFrames) :
    ∃ t, ageFrame s i = .ok t ∧ UsageOnly s t := by
  by_cases used : s.fte i .mapped ≠ 0 ∧ s.fte i .isProtected = 0
  · obtain ⟨p, table, pos, lt, locked, vpn, entry⟩ := owned.entry hi used.2 used.1
    have count := usage_setRefCount (s := s) (i := i)
      (x := (s.pte (pteAddr (s.procs p).savedPtbr (s.fte i .vpn)) .referenced <<< 7) |||
        (s.fte i .refCount >>> 1)) hi
    refine ⟨_, ?_, count.trans (usage_setReferenced (x := 0) pos vpn ?_)⟩
    · simp [ageFrame, used, table, entry, bind, Except.bind, pure, Except.pure]
    · rw [count.fte _ lt _ (by decide)]
      exact locked
  · refine ⟨s, ?_, UsageOnly.refl s⟩
    simp only [ageFrame, if_neg used]
    rfl

theorem daemonUpdate_usage (owned : FramesOwned s) :
    ∃ t, daemonUpdate s = .ok t ∧ UsageOnly s t := by
  refine foldlM_range (fun _ t => UsageOnly s t) (UsageOnly.refl s) ?_
  intro i t hi usage
  obtain ⟨u, ok, more⟩ := ageFrame_usage (usage.framesOwned owned) hi
  exact ⟨u, ok, usage.trans more⟩

/-! ## `system_init` -/

theorem fte_systemInit {i : Nat} {F : FteField} (hi : i < numFrames) :
    (systemInit s).fte i F = if i = 0 ∧ F = .isProtected then 1 else 0 := by
  have zero : ∀ F, (s.memset (fteAddr 0) (numFrames * fteLayout.stride) 0).fte i F = 0 := by
    intro F
    apply Bytes.Layout.get_fill_zero
    all_goals
      simp only [fteAddr, fteLayout, numFrames_eq] at *
      omega
  by_cases here : i = 0 ∧ F = .isProtected
  · obtain ⟨rfl, rfl⟩ := here
    simp [systemInit, fteLayout]
  · rw [systemInit, fte_setFte, if_neg here, if_neg here]
    exact zero F

/-- After `system_init` no process runs and nothing is in swap. -/
theorem inv_systemInit (mem : Bytes.ByteMem) (replacement : Replacement) (check : Bool) :
    Inv (fun _ => False) (systemInit (VM.boot mem replacement check)) [] where
  rep := ⟨rfl, rfl, rfl, by simp, by simp [systemInit, boot, Heaps.Heap.read, memset, setFte]⟩
  pidLt := False.elim
  frameZero := by
    rw [fte_systemInit (by decide)]
    decide
  tablePos := False.elim
  tableLt := False.elim
  tableProtected := False.elim
  tableInj := False.elim
  protectedFrame hf locked := by
    rw [fte_systemInit hf] at locked
    left
    by_contra ne
    simp [ne] at locked
  validBit := False.elim
  dirtyBit := False.elim
  owns := False.elim
  owned hf _ mapped := by
    rw [fte_systemInit hf] at mapped
    simp at mapped
  sidQueued := False.elim
  sidInj := False.elim
  idOwned := by simp
  idsDistinct := by simp
  idsFresh := Or.inr (by simp)
  swapIdLt := by
    change 1 < 2 ^ 64
    decide

end

end SystemsProjects.Vm
