import SystemsProjects.Vm.Fields
import SystemsProjects.Vm.SwapQueue

/-!
# The invariant of the paging simulator

`Inv R s xs`: the frame table and the page tables of the processes `R` are
inverse to each other, page tables sit in protected frames of their own, and
the swap queue, which is the list `xs`, holds what the entries' sids name.
-/

namespace SystemsProjects.Vm

/-- Frame `f` holds page `v` of process `p`, as the frame table has it. -/
structure Owns (s : VM) (f p v : Nat) : Prop where
  pos : 0 < f
  lt : f < numFrames
  unprotected : s.fte f .isProtected = 0
  mapped : s.fte f .mapped ≠ 0
  process : s.fte f .process = pcbPtr p
  vpn : s.fte f .vpn = v

theorem Owns.congr {s t : VM} {f p v : Nat} (own : Owns s f p v)
    (same : ∀ F, F ≠ .refCount → t.fte f F = s.fte f F) : Owns t f p v := by
  refine ⟨own.pos, own.lt, ?_, ?_, ?_, ?_⟩
  · rw [same _ (by decide)]
    exact own.unprotected
  · rw [same _ (by decide)]
    exact own.mapped
  · rw [same _ (by decide)]
    exact own.process
  · rw [same _ (by decide)]
    exact own.vpn

/-- Ids are never 0 and below `SWAP_ID`, until the counter has come round to 0. -/
def IdsFresh (ids : List Nat) (swapId : Nat) : Prop :=
  0 ∈ ids ∨ ∀ i ∈ ids, swapId = 0 ∨ i < swapId

structure Inv (R : Nat → Prop) (s : VM) (xs : List Slot) : Prop where
  rep : SwapRep s.swap xs
  pidLt : ∀ {p}, R p → p < maxPid
  frameZero : s.fte 0 .isProtected ≠ 0
  tablePos : ∀ {p}, R p → 0 < (s.procs p).savedPtbr
  tableLt : ∀ {p}, R p → (s.procs p).savedPtbr < numFrames
  tableProtected : ∀ {p}, R p → s.fte (s.procs p).savedPtbr .isProtected ≠ 0
  tableInj : ∀ {p r}, R p → R r →
    (s.procs p).savedPtbr = (s.procs r).savedPtbr → p = r
  protectedFrame : ∀ {f}, f < numFrames → s.fte f .isProtected ≠ 0 →
    f = 0 ∨ ∃ p, R p ∧ (s.procs p).savedPtbr = f
  validBit : ∀ {p v}, R p → v < numPages → s.entry p v .valid ≤ 1
  dirtyBit : ∀ {p v}, R p → v < numPages → s.entry p v .dirty ≤ 1
  owns : ∀ {p v}, R p → v < numPages → s.entry p v .valid ≠ 0 →
    Owns s (s.entry p v .pfn) p v
  owned : ∀ {f}, f < numFrames → s.fte f .isProtected = 0 → s.fte f .mapped ≠ 0 →
    ∃ p v, R p ∧ v < numPages ∧ s.entry p v .valid ≠ 0 ∧ s.entry p v .pfn = f
  sidQueued : ∀ {p v}, R p → v < numPages → s.entry p v .sid ≠ 0 →
    s.entry p v .sid ∈ ids xs
  sidInj : ∀ {p v r w}, R p → v < numPages → R r → w < numPages →
    s.entry p v .sid ≠ 0 → s.entry p v .sid = s.entry r w .sid → p = r ∧ v = w
  idOwned : ∀ i ∈ ids xs, i ≠ 0 → ∃ p v, R p ∧ v < numPages ∧ s.entry p v .sid = i
  idsDistinct : (ids xs).Nodup
  idsFresh : IdsFresh (ids xs) s.swap.swapId
  swapIdLt : s.swap.swapId < 2 ^ 64

theorem pcbPtr_inj {p r : Nat} (h : pcbPtr p = pcbPtr r) : p = r := by
  simp only [pcbPtr, procsBase, pcbSize] at h
  omega

theorem pcbPtr_lt {p : Nat} (h : p < maxPid) : pcbPtr p < 2 ^ 64 := by
  simp only [pcbPtr, procsBase, pcbSize, maxPid_eq] at *
  omega

theorem entryAt_eq {base w : Nat} (hb : base < numFrames) (hw : w < numPages) :
    entryAt base w = .ok (pteAddr base w) := by
  have room : pteAddr base w + pteLayout.stride ≤ memSize := by
    simp only [pteAddr, frameAddr, pteLayout, pageSize_eq, numFrames_eq, numPages_eq,
      memSize_eq] at *
    omega
  simp only [entryAt, inMem, if_pos room]
  rfl

theorem fteAddr_inMem {i : Nat} (hi : i < numFrames) :
    inMem (fteAddr i) fteLayout.stride = .ok () := by
  apply if_pos
  simp only [fteAddr, fteLayout, numFrames_eq, memSize_eq] at *
  omega

theorem frame_room {f : Nat} (hf : f < numFrames) : frameAddr f + pageSize ≤ memSize := by
  simp only [frameAddr, pageSize_eq, numFrames_eq, memSize_eq] at *
  omega

theorem frame_inMem {f : Nat} (hf : f < numFrames) : inMem (frameAddr f) pageSize = .ok () :=
  if_pos (frame_room hf)

theorem byte_inMem {f o : Nat} (hf : f < numFrames) (ho : o < pageSize) :
    inMem (frameAddr f + o) 1 = .ok () := by
  apply if_pos
  simp only [frameAddr, pageSize_eq, numFrames_eq, memSize_eq] at *
  omega

namespace Inv

variable {R : Nat → Prop} {s t : VM} {xs : List Slot}

theorem framesOwned (inv : Inv R s xs) : FramesOwned s := by
  intro f hf unprotected mapped
  obtain ⟨p, v, hp, hv, valid, rfl⟩ := inv.owned hf unprotected mapped
  have own := inv.owns hp hv valid
  have vpn : s.fte (s.entry p v .pfn) .vpn < numPages := by
    rw [own.vpn]
    exact hv
  exact ⟨p, inv.pidLt hp, own.process, vpn, inv.tablePos hp, inv.tableLt hp, inv.tableProtected hp⟩

/-- Two valid entries never share a frame. -/
theorem entry_inj (inv : Inv R s xs) {p v r w : Nat} (hp : R p) (hv : v < numPages)
    (hr : R r) (hw : w < numPages) (validp : s.entry p v .valid ≠ 0)
    (validr : s.entry r w .valid ≠ 0) (same : s.entry p v .pfn = s.entry r w .pfn) :
    p = r ∧ v = w := by
  have ownp := inv.owns hp hv validp
  have ownr := inv.owns hr hw validr
  rw [← same] at ownr
  exact ⟨pcbPtr_inj (ownp.process.symm.trans ownr.process), ownp.vpn.symm.trans ownr.vpn⟩

/-- A data frame is nobody's page table. -/
theorem pfn_ne_table (inv : Inv R s xs) {p v r : Nat} (hp : R p) (hv : v < numPages)
    (valid : s.entry p v .valid ≠ 0) (hr : R r) :
    s.entry p v .pfn ≠ (s.procs r).savedPtbr := by
  intro same
  exact inv.tableProtected hr (same ▸ (inv.owns hp hv valid).unprotected)

/-- A page table is never in an unprotected frame. -/
theorem table_ne (inv : Inv R s xs) {v r : Nat} (unprotected : s.fte v .isProtected = 0)
    (hr : R r) : (s.procs r).savedPtbr ≠ v :=
  fun e => inv.tableProtected hr (e ▸ unprotected)

/-- A step that keeps the page tables where they are and the sids as they are
need only answer for the mappings. -/
theorem remap (inv : Inv R s xs)
    (table : ∀ p, R p → (t.procs p).savedPtbr = (s.procs p).savedPtbr) (swap : t.swap = s.swap)
    (isProtected : ∀ i < numFrames, t.fte i .isProtected = s.fte i .isProtected)
    (sid : ∀ p v, R p → v < numPages → t.entry p v .sid = s.entry p v .sid)
    (validBit : ∀ p v, R p → v < numPages → t.entry p v .valid ≤ 1)
    (dirtyBit : ∀ p v, R p → v < numPages → t.entry p v .dirty ≤ 1)
    (owns : ∀ p v, R p → v < numPages → t.entry p v .valid ≠ 0 → Owns t (t.entry p v .pfn) p v)
    (owned : ∀ f < numFrames, t.fte f .isProtected = 0 → t.fte f .mapped ≠ 0 →
      ∃ p v, R p ∧ v < numPages ∧ t.entry p v .valid ≠ 0 ∧ t.entry p v .pfn = f) :
    Inv R t xs where
  rep := swap ▸ inv.rep
  pidLt := inv.pidLt
  frameZero := by
    rw [isProtected 0 (by decide)]
    exact inv.frameZero
  tablePos hp := by
    rw [table _ hp]
    exact inv.tablePos hp
  tableLt hp := by
    rw [table _ hp]
    exact inv.tableLt hp
  tableProtected hp := by
    rw [table _ hp, isProtected _ (inv.tableLt hp)]
    exact inv.tableProtected hp
  tableInj hp hr := by
    rw [table _ hp, table _ hr]
    exact inv.tableInj hp hr
  protectedFrame hf := by
    rw [isProtected _ hf]
    intro locked
    rcases inv.protectedFrame hf locked with zero | ⟨p, hp, here⟩
    · exact Or.inl zero
    · exact Or.inr ⟨p, hp, (table p hp).trans here⟩
  validBit := validBit _ _
  dirtyBit := dirtyBit _ _
  owns := owns _ _
  owned := owned _
  sidQueued hp hv := by
    rw [sid _ _ hp hv]
    exact inv.sidQueued hp hv
  sidInj hp hv hr hw := by
    rw [sid _ _ hp hv, sid _ _ hr hw]
    exact inv.sidInj hp hv hr hw
  idOwned i hi ne := by
    obtain ⟨p, v, hp, hv, same⟩ := inv.idOwned i hi ne
    refine ⟨p, v, hp, hv, ?_⟩
    rw [sid p v hp hv]
    exact same
  idsDistinct := inv.idsDistinct
  idsFresh := swap ▸ inv.idsFresh
  swapIdLt := swap ▸ inv.swapIdLt

/-- The invariant reads memory, the swap queue and the page table registers of
`R`, and nothing else of the state. -/
theorem congr (inv : Inv R s xs) (mem : t.mem = s.mem) (swap : t.swap = s.swap)
    (table : ∀ p, R p → (t.procs p).savedPtbr = (s.procs p).savedPtbr) : Inv R t xs := by
  have fte : ∀ i F, t.fte i F = s.fte i F := fun i F => by rw [VM.fte, mem, VM.fte]
  have entry : ∀ p v G, R p → t.entry p v G = s.entry p v G := by
    intro p v G hp
    rw [VM.entry, VM.pte, mem, table p hp, VM.entry, VM.pte]
  refine inv.remap table swap (fun i _ => fte i _) (fun p v hp _ => entry p v _ hp) ?_ ?_ ?_ ?_
  · intro p v hp hv
    rw [entry p v _ hp]
    exact inv.validBit hp hv
  · intro p v hp hv
    rw [entry p v _ hp]
    exact inv.dirtyBit hp hv
  · intro p v hp hv
    rw [entry p v _ hp, entry p v _ hp]
    exact fun valid => (inv.owns hp hv valid).congr (fun F _ => fte _ F)
  · intro f hf
    rw [fte, fte]
    intro unprotected mapped
    obtain ⟨p, v, hp, hv, valid, pfn⟩ := inv.owned hf unprotected mapped
    exact ⟨p, v, hp, hv, (entry p v _ hp).trans_ne valid, (entry p v _ hp).trans pfn⟩

end Inv

/-! ## Usage records do not matter -/

namespace UsageOnly

variable {R : Nat → Prop} {s t : VM} {xs : List Slot}

theorem owns (h : UsageOnly s t) {f p v : Nat} (own : Owns s f p v) : Owns t f p v :=
  own.congr (fun F => h.fte f own.lt F)

theorem entry (h : UsageOnly s t) (inv : Inv R s xs) {p v : Nat} (hp : R p)
    (hv : v < numPages) {g : PteField} (hg : g ≠ .referenced) : t.entry p v g = s.entry p v g := by
  simp only [VM.entry, h.procs]
  exact h.pte _ (inv.tablePos hp) (inv.tableLt hp) v hv g hg

theorem inv (h : UsageOnly s t) (inv : Inv R s xs) : Inv R t xs := by
  refine inv.remap (fun p _ => by rw [h.procs]) h.swap (fun i hi => h.fte i hi _ (by decide))
    ?_ ?_ ?_ ?_ ?_
  · exact fun p v hp hv => h.entry inv hp hv (by decide)
  · intro p v hp hv
    rw [h.entry inv hp hv (by decide)]
    exact inv.validBit hp hv
  · intro p v hp hv
    rw [h.entry inv hp hv (by decide)]
    exact inv.dirtyBit hp hv
  · intro p v hp hv
    rw [h.entry inv hp hv (by decide), h.entry inv hp hv (by decide)]
    exact fun valid => h.owns (inv.owns hp hv valid)
  · intro f hf
    rw [h.fte _ hf _ (by decide), h.fte _ hf _ (by decide)]
    intro unprotected mapped
    obtain ⟨p, v, hp, hv, valid, pfn⟩ := inv.owned hf unprotected mapped
    refine ⟨p, v, hp, hv, ?_, ?_⟩
    · rw [h.entry inv hp hv (by decide)]
      exact valid
    · rw [h.entry inv hp hv (by decide)]
      exact pfn

end UsageOnly

end SystemsProjects.Vm
