import SystemsProjects.Vm.Freeing

/-!
# Page faults and memory accesses

What `page_fault` and `mem_access` do to a state that satisfies the invariant.
-/

namespace SystemsProjects.Vm

open VM

/-- The page behind an entry with this sid: the slot of the queue that the sid
names, or all zero. -/
def Backing (xs : List Slot) (sid : Nat) (page : Nat → UInt8) : Prop :=
  (sid = 0 ∧ page = fun _ => 0) ∨ (sid ≠ 0 ∧ ∃ x ∈ xs, x.id = sid ∧ x.page = page)

/-- Page `w` of `p` has been read into the empty frame `v`. -/
structure Loaded (s : VM) (p w v : Nat) (page : Nat → UInt8) (t : VM) : Prop where
  procs : t.procs = s.procs
  ptbr : t.ptbr = s.ptbr
  currentProcess : t.currentProcess = s.currentProcess
  replacement : t.replacement = s.replacement
  swap : t.swap = s.swap
  fte : ∀ i < numFrames, i ≠ v → ∀ F, t.fte i F = s.fte i F
  owns : Owns t v p w
  refCount : t.fte v .refCount = 0
  pte : ∀ b u, 0 < b → b ≠ v → u < numPages → ¬ (b = (s.procs p).savedPtbr ∧ u = w) → ∀ G,
    t.pte (pteAddr b u) G = s.pte (pteAddr b u) G
  valid : t.entry p w .valid = 1
  dirty : t.entry p w .dirty = 0
  pfn : t.entry p w .pfn = v
  sid : t.entry p w .sid = s.entry p w .sid
  loaded : ∀ o < pageSize, t.byte v o = page o
  byte : ∀ f, 0 < f → f ≠ v → f ≠ (s.procs p).savedPtbr → ∀ o < pageSize, t.byte f o = s.byte f o

section

variable {R : Nat → Prop} {env : Env} {s t u : VM} {xs ys : List Slot} {p w v n : Nat}
  {page : Nat → UInt8}

theorem fte_mapFrame {b i : Nat} {F : FteField} (hi : i < numFrames) (hb : 0 < b) :
    (mapFrame (pteAddr b w) v n s).fte i F =
      if i = v then
        match F with
        | .isProtected => 0
        | .mapped => 1
        | .process => currentPtr s % 2 ^ 64
        | .vpn => n % 2 ^ 16
        | .refCount => 0
      else s.fte i F := by
  have current : ∀ (a x : Nat) (G : PteField), currentPtr (s.setPte a G x) = currentPtr s :=
    fun _ _ _ => rfl
  by_cases here : i = v
  · cases F <;> simp [mapFrame, here, fteLayout, currentPtr]
  · cases F <;> simp [mapFrame, here, fte_setPte hi hb]

theorem pte_mapFrame {b a x : Nat} {G : PteField} (hw : w < numPages) (hx : x < numPages)
    (hv : v < numFrames) (ha : 0 < a) :
    (mapFrame (pteAddr b w) v n s).pte (pteAddr a x) G =
      if a = b ∧ x = w then
        match G with
        | .pfn => v
        | .valid => 1
        | .dirty => 0
        | G => s.pte (pteAddr a x) G
      else s.pte (pteAddr a x) G := by
  have small : v < 65536 := by
    rw [numFrames_eq] at hv
    omega
  by_cases here : a = b ∧ x = w
  · obtain ⟨rfl, rfl⟩ := here
    cases G <;> simp [mapFrame, pte_setFte hv ha, pte_setPte hw hw, small, pteLayout]
  · have other : ∀ P, ¬ (a = b ∧ x = w ∧ P) := fun P e => here ⟨e.1, e.2.1⟩
    simp [mapFrame, pte_setFte hv ha, pte_setPte hw hx, here, other]

theorem byte_mapFrame {b f o : Nat} (hw : w < numPages) (hv : v < numFrames) (hf : 0 < f)
    (ne : f ≠ b) (ho : o < pageSize) :
    (mapFrame (pteAddr b w) v n s).byte f o = s.byte f o := by
  simp only [mapFrame, setStats_byte, byte_setFte hv hf, byte_setPte hw ho ne]

/-! ## A page into an empty frame -/

/-- A page written over frame `v` leaves the tables in other frames alone. -/
theorem fte_fillFrame {i : Nat} {F : FteField} (hi : i < numFrames) (hv : 0 < v) :
    (s.memcpy (frameAddr v) pageSize page).fte i F = s.fte i F := by
  rw [← Nat.add_zero (frameAddr v)]
  exact fte_memcpy hi hv

theorem pte_fillFrame {b x : Nat} {G : PteField} (hx : x < numPages) (ne : b ≠ v) :
    (s.memcpy (frameAddr v) pageSize page).pte (pteAddr b x) G = s.pte (pteAddr b x) G := by
  rw [← Nat.add_zero (frameAddr v)]
  exact pte_memcpy hx ne (Nat.zero_add _).le

theorem byte_fillFrame {f o : Nat} (ho : o < pageSize) :
    (s.memcpy (frameAddr v) pageSize page).byte f o = if f = v then page o else s.byte f o := by
  have read := byte_memcpy (s := s) (f := v) (g := f) (o := 0) (n := pageSize) page
    ho (Nat.zero_add _).le
  simpa [ho] using read

theorem loaded_mapFrame (page : Nat → UInt8) (inv : Inv R s xs) (hp : R p) (hw : w < numPages)
    (hv : v < numFrames) (unprotected : s.fte v .isProtected = 0)
    (current : s.currentProcess = some p) :
    Loaded s p w v page (mapFrame (pteAddr (s.procs p).savedPtbr w) v w
      (s.memcpy (frameAddr v) pageSize page)) := by
  have pos := inv.tablePos hp
  have posv := inv.pos_of_unprotected unprotected
  have notTable := inv.table_ne unprotected hp
  have ptr : currentPtr (s.memcpy (frameAddr v) pageSize page) % 2 ^ 64 = pcbPtr p := by
    have : currentPtr (s.memcpy (frameAddr v) pageSize page) = pcbPtr p := by
      simp only [currentPtr, memcpy_currentProcess, current, Option.elim_some]
    rw [this]
    exact Nat.mod_eq_of_lt (pcbPtr_lt (inv.pidLt hp))
  have small : w % 2 ^ 16 = w := by
    rw [numPages_eq] at hw
    omega
  have entry : ∀ G, VM.entry (mapFrame (pteAddr (s.procs p).savedPtbr w) v w
      (s.memcpy (frameAddr v) pageSize page)) p w G =
      match G with
      | .pfn => v
      | .valid => 1
      | .dirty => 0
      | G => s.entry p w G := by
    intro G
    have read := pte_mapFrame (s := s.memcpy (frameAddr v) pageSize page)
      (b := (s.procs p).savedPtbr)
      (a := (s.procs p).savedPtbr) (n := w) (G := G) hw hw hv pos
    rw [if_pos ⟨rfl, rfl⟩] at read
    refine read.trans ?_
    cases G
    · rfl
    · rfl
    · rfl
    · exact pte_fillFrame hw notTable
    · exact pte_fillFrame hw notTable
  refine ⟨rfl, rfl, rfl, rfl, rfl, ?_, ⟨posv, hv, ?_, ?_, ?_, ?_⟩, ?_, ?_, entry .valid,
    entry .dirty, entry .pfn, entry .sid, ?_, ?_⟩
  · intro i hi ne F
    rw [fte_mapFrame hi pos, if_neg ne, fte_fillFrame hi posv]
  · simp [fte_mapFrame hv pos]
  · simp [fte_mapFrame hv pos]
  · simpa [fte_mapFrame hv pos] using ptr
  · simpa [fte_mapFrame hv pos] using small
  · simp [fte_mapFrame hv pos]
  · intro b x hb ne hx other G
    rw [pte_mapFrame hw hx hv hb, if_neg other, pte_fillFrame hx ne]
  · intro o ho
    rw [byte_mapFrame hw hv posv notTable.symm ho, byte_fillFrame ho, if_pos rfl]
  · intro f hf ne other o ho
    rw [byte_mapFrame hw hv hf other ho, byte_fillFrame ho, if_neg ne]

section

variable (inv : Inv R s xs) (hp : R p) (hw : w < numPages) (h : Loaded s p w v page t)

include inv hp h

theorem Loaded.entry_other (unprotected : s.fte v .isProtected = 0) {r x : Nat} (hr : R r)
    (hx : x < numPages) (other : ¬ (r = p ∧ x = w)) (G : PteField) :
    t.entry r x G = s.entry r x G := by
  simp only [VM.entry, h.procs]
  apply h.pte _ x (inv.tablePos hr) (inv.table_ne unprotected hr) hx
  rintro ⟨same, rfl⟩
  exact other ⟨inv.tableInj hr hp same, rfl⟩

include hw

theorem Loaded.preserves (unprotected : s.fte v .isProtected = 0) (unmapped : s.fte v .mapped = 0)
    (invalid : s.entry p w .valid = 0) : Inv R t xs := by
  have other : ∀ {r x}, R r → x < numPages → ¬ (r = p ∧ x = w) → ∀ G,
      t.entry r x G = s.entry r x G := h.entry_other inv hp unprotected
  refine inv.remap (fun r _ => by rw [h.procs]) h.swap ?_ ?_ ?_ ?_ ?_ ?_
  · intro i hi
    by_cases here : i = v
    · rw [here, h.owns.unprotected, unprotected]
    · exact h.fte i hi here _
  · intro r x hr hx
    by_cases here : r = p ∧ x = w
    · obtain ⟨rfl, rfl⟩ := here
      exact h.sid
    · exact other hr hx here _
  · intro r x hr hx
    by_cases here : r = p ∧ x = w
    · obtain ⟨rfl, rfl⟩ := here
      exact h.valid.le
    · rw [other hr hx here]
      exact inv.validBit hr hx
  · intro r x hr hx
    by_cases here : r = p ∧ x = w
    · obtain ⟨rfl, rfl⟩ := here
      exact h.dirty.trans_le (Nat.zero_le 1)
    · rw [other hr hx here]
      exact inv.dirtyBit hr hx
  · intro r x hr hx valid
    by_cases here : r = p ∧ x = w
    · obtain ⟨rfl, rfl⟩ := here
      rw [h.pfn]
      exact h.owns
    · rw [other hr hx here] at valid ⊢
      have own := inv.owns hr hx valid
      have ne : s.entry r x .pfn ≠ v := fun e => own.mapped (e ▸ unmapped)
      exact own.congr (fun F _ => h.fte _ own.lt ne F)
  · intro f hf unprotectedf mapped
    by_cases here : f = v
    · subst here
      exact ⟨p, w, hp, hw, by rw [h.valid]; decide, h.pfn⟩
    · rw [h.fte f hf here] at unprotectedf mapped
      obtain ⟨r, x, hr, hx, valid, pfn⟩ := inv.owned hf unprotectedf mapped
      have elsewhere : ¬ (r = p ∧ x = w) := by
        rintro ⟨rfl, rfl⟩
        exact valid invalid
      refine ⟨r, x, hr, hx, ?_, ?_⟩
      · rw [other hr hx elsewhere]
        exact valid
      · rw [other hr hx elsewhere]
        exact pfn

end

/-! ## `page_fault` -/

/-- The process the registers point at, and that it is one of `R`. -/
structure Current (R : Nat → Prop) (s : VM) (p : Nat) : Prop where
  running : R p
  current : s.currentProcess = some p
  ptbr : s.ptbr = (s.procs p).savedPtbr

/-- `page_fault` frees a frame `v` and reads the page into it, or runs out of
memory for a swap entry. `c` is the state in which the victim was chosen. -/
theorem pageFault_spec {addr : Nat} {c : VM} (inv : Inv R s xs) (cur : Current R s p)
    (hw : vaddrVpn addr < numPages) (invalid : s.entry p (vaddrVpn addr) .valid = 0)
    (select : env.select s = .ok (v, c)) (hv : v < numFrames)
    (unprotected : s.fte v .isProtected = 0) :
    (pageFault env addr s = .error allocFailed ∧ ∃ heap, env.calloc heap = none) ∨
    ∃ f ys page t, pageFault env addr s = .ok t ∧ Freed R c xs v f ys ∧
      Loaded f p (vaddrVpn addr) v page t ∧ Backing ys (f.entry p (vaddrVpn addr) .sid) page ∧
      Inv R t ys := by
  have usage := env.select_usage inv.framesOwned select
  have invc := usage.inv inv
  have entry : entryAt s.ptbr (vaddrVpn addr) =
      .ok (pteAddr (s.procs p).savedPtbr (vaddrVpn addr)) := by
    rw [cur.ptbr]
    exact entryAt_eq (inv.tableLt cur.running) hw
  rcases freeFrame_spec inv select hv unprotected with ⟨failed, exhausted⟩ | ⟨f, ys, ok, freed⟩
  · left
    refine ⟨?_, exhausted⟩
    simp [pageFault, entry, failed, bind, Except.bind]
  · right
    have invf := freed.preserves invc hv
    have unprotectedc : c.fte v .isProtected = 0 := by
      rw [usage.fte v hv _ (by decide)]
      exact unprotected
    have unprotectedf : f.fte v .isProtected = 0 := by
      rw [freed.protected_eq hv]
      exact unprotectedc
    have unmapped : f.fte v .mapped = 0 := by
      rw [freed.fte v hv, if_pos (by simp)]
    have current : f.currentProcess = some p := by
      rw [freed.currentProcess, usage.currentProcess]
      exact cur.current
    have procs : f.procs = s.procs := freed.procs.trans usage.procs
    have invalidc : c.entry p (vaddrVpn addr) .valid = 0 := by
      rw [usage.entry inv cur.running hw (by decide)]
      exact invalid
    have invalidf : f.entry p (vaddrVpn addr) .valid = 0 := by
      rw [freed.kept p _ cur.running hw (fun here => here.2.2.1 invalidc)]
      exact invalidc
    have loaded : ∀ page, Loaded f p (vaddrVpn addr) v page
        (mapFrame (pteAddr (s.procs p).savedPtbr (vaddrVpn addr)) v (vaddrVpn addr)
          (f.memcpy (frameAddr v) pageSize page)) := by
      intro page
      have := loaded_mapFrame page invf cur.running hw hv unprotectedf current
      rwa [procs] at this
    have sid : f.pte (pteAddr (s.procs p).savedPtbr (vaddrVpn addr)) .sid =
        f.entry p (vaddrVpn addr) .sid := by rw [VM.entry, procs]
    by_cases saved : f.entry p (vaddrVpn addr) .sid = 0
    · refine ⟨f, ys, fun _ => 0, _, ?_, freed, loaded _, Or.inl ⟨saved, rfl⟩,
        (loaded _).preserves invf cur.running hw unprotectedf unmapped invalidf⟩
      simp [pageFault, entry, ok, swapExists, sid, saved, frame_inMem hv, memset_eq, bind,
        Except.bind, pure, Except.pure]
    · obtain ⟨x, hx, id⟩ := List.mem_map.mp (invf.sidQueued cur.running hw saved)
      have read := swapRead_spec invf.rep invf.idsDistinct hx (sid.trans id.symm) (frame_room hv)
      refine ⟨f, ys, x.page, _, ?_, freed, loaded _, Or.inr ⟨saved, x, hx, id, rfl⟩,
        (loaded _).preserves invf cur.running hw unprotectedf unmapped invalidf⟩
      simp [pageFault, entry, ok, swapExists, sid, saved, read, bind, Except.bind, pure,
        Except.pure]

/-! ## `mem_access` -/

/-- The access itself: page `w` of `p` is in memory and byte `o` is used. -/
structure Touched (s : VM) (p w : Nat) (access : Char) (o : Nat) (data b : UInt8) (t : VM) :
    Prop where
  procs : t.procs = s.procs
  ptbr : t.ptbr = s.ptbr
  currentProcess : t.currentProcess = s.currentProcess
  replacement : t.replacement = s.replacement
  swap : t.swap = s.swap
  fte : ∀ i < numFrames, ∀ F, t.fte i F = s.fte i F
  pte : ∀ a u, 0 < a → a ≠ s.entry p w .pfn → u < numPages →
    ¬ (a = (s.procs p).savedPtbr ∧ u = w) → ∀ G, t.pte (pteAddr a u) G = s.pte (pteAddr a u) G
  entry : ∀ G, G ≠ .referenced → G ≠ .dirty → t.entry p w G = s.entry p w G
  referenced : t.entry p w .referenced = 1
  dirty : t.entry p w .dirty = if access = 'w' then 1 else s.entry p w .dirty
  byte : ∀ f, 0 < f → f ≠ (s.procs p).savedPtbr → ∀ x < pageSize,
    t.byte f x = if access = 'w' ∧ f = s.entry p w .pfn ∧ x = o then data else s.byte f x
  result : b = if access = 'r' then s.byte (s.entry p w .pfn) o else if access =
    'w' then data else 0

theorem touch_spec (addr : Nat) (access : Char) (data : UInt8) (inv : Inv R s xs) (hp : R p)
    (hw : w < numPages) (valid : s.entry p w .valid ≠ 0) :
    ∃ b t, touch (pteAddr (s.procs p).savedPtbr w) addr access data s = .ok (b, t) ∧
      Touched s p w access (vaddrOffset addr) data b t := by
  have own := inv.owns hp hw valid
  have pos := inv.tablePos hp
  have notTable := inv.table_ne own.unprotected hp
  have ho : vaddrOffset addr < pageSize := Nat.mod_lt _ (by decide)
  have room := byte_inMem own.lt ho
  have oneByte : vaddrOffset addr + 1 ≤ pageSize := ho
  let mark := (s.setStats (fun c => { c with accesses := uint64 (c.accesses + 1) })).setPte
    (pteAddr (s.procs p).savedPtbr w) .referenced 1
  have marked : ∀ a u G, u < numPages → mark.pte (pteAddr a u) G =
      if a = (s.procs p).savedPtbr ∧ u = w ∧ G = .referenced then 1 else s.pte (pteAddr a u) G := by
    intro a u G hu
    simp [mark, pte_setPte hw hu, pteLayout]
  by_cases write : access = 'w'
  · subst write
    let wrote := VM.setPte (mark.memset (frameAddr (s.entry p w .pfn) + vaddrOffset addr) 1 data)
      (pteAddr (s.procs p).savedPtbr w) .dirty 1
    have written : ∀ a u G, a ≠ s.entry p w .pfn → u < numPages → wrote.pte (pteAddr a u) G =
        if a = (s.procs p).savedPtbr ∧ u = w ∧ G = .dirty then 1 else mark.pte (pteAddr a u) G := by
      intro a u G ne hu
      simp only [wrote, pte_setPte hw hu, memset_eq]
      rw [pte_memcpy hu ne oneByte]
      rfl
    refine ⟨data, wrote, ?_, rfl, rfl, rfl, rfl, rfl, ?_, ?_, ?_, ?_, ?_, ?_, rfl⟩
    · simp only [touch, setStats_pte]
      rw [show s.pte (pteAddr (s.procs p).savedPtbr w) .pfn = s.entry p w .pfn from rfl]
      simp [room, bind, Except.bind, pure, Except.pure, mark, wrote]
    · intro i hi F
      simp only [wrote, memset_eq]
      rw [fte_setPte hi pos, fte_memcpy hi own.pos]
      exact fte_setPte hi pos
    · intro a u _ ne hu other G
      rw [written a u G ne hu, if_neg (fun e => other ⟨e.1, e.2.1⟩), marked a u G hu,
        if_neg (fun e => other ⟨e.1, e.2.1⟩)]
    · intro G ne ne'
      refine (written _ _ _ notTable hw).trans ?_
      rw [if_neg (fun e => ne' e.2.2), marked _ _ _ hw, if_neg (fun e => ne e.2.2)]
      rfl
    · refine (written _ _ _ notTable hw).trans ?_
      rw [if_neg (by simp), marked _ _ _ hw, if_pos ⟨rfl, rfl, rfl⟩]
    · exact (written _ _ _ notTable hw).trans (if_pos ⟨rfl, rfl, rfl⟩)
    · intro f hf ne x hx
      have move : x = vaddrOffset addr ↔ vaddrOffset addr ≤ x ∧ x < vaddrOffset addr + 1 := by omega
      simp only [wrote, memset_eq]
      rw [byte_setPte hw hx ne, byte_memcpy _ hx oneByte]
      simp only [true_and, move]
      congr 1
      exact byte_setPte hw hx ne
  · refine ⟨if access = 'r' then mark.byte (s.entry p w .pfn) (vaddrOffset addr) else 0, mark, ?_,
      rfl, rfl, rfl, rfl, rfl, ?_, ?_, ?_, ?_, ?_, ?_, ?_⟩
    · simp only [touch, setStats_pte]
      rw [show s.pte (pteAddr (s.procs p).savedPtbr w) .pfn = s.entry p w .pfn from rfl]
      by_cases read : access = 'r'
      · simp [read, room, bind, Except.bind, pure, Except.pure, mark]
      · simp [read, write, pure, Except.pure, mark]
    · exact fun i hi F => fte_setPte hi pos
    · intro a u _ _ hu other G
      rw [marked a u G hu, if_neg (fun e => other ⟨e.1, e.2.1⟩)]
    · intro G ne _
      exact (marked _ _ _ hw).trans (if_neg (fun e => ne e.2.2))
    · exact (marked _ _ _ hw).trans (if_pos ⟨rfl, rfl, rfl⟩)
    · rw [if_neg write]
      exact (marked _ _ _ hw).trans (if_neg (by simp))
    · intro f _ ne x hx
      rw [if_neg (fun e => write e.1)]
      exact byte_setPte hw hx ne
    · have kept : mark.byte (s.entry p w .pfn) (vaddrOffset addr) =
          s.byte (s.entry p w .pfn) (vaddrOffset addr) := byte_setPte hw ho notTable.symm
      rw [kept, if_neg write]

section

variable {access : Char} {o : Nat} {data b : UInt8} (inv : Inv R s xs) (hp : R p)
  (hw : w < numPages) (valid : s.entry p w .valid ≠ 0) (h : Touched s p w access o data b t)

include inv hp h valid hw

theorem Touched.entry_other {r x : Nat} (hr : R r) (hx : x < numPages)
    (other : ¬ (r = p ∧ x = w)) (G : PteField) : t.entry r x G = s.entry r x G := by
  have unprotected := (inv.owns hp hw valid).unprotected
  simp only [VM.entry, h.procs]
  apply h.pte _ x (inv.tablePos hr) (inv.table_ne unprotected hr) hx
  rintro ⟨same, rfl⟩
  exact other ⟨inv.tableInj hr hp same, rfl⟩

/-- An access changes the two usage bits of its own entry only. -/
theorem Touched.entry_eq {r x : Nat} (hr : R r) (hx : x < numPages) {G : PteField}
    (ne : G ≠ .referenced) (ne' : G ≠ .dirty) : t.entry r x G = s.entry r x G := by
  by_cases here : r = p ∧ x = w
  · obtain ⟨rfl, rfl⟩ := here
    exact h.entry G ne ne'
  · exact h.entry_other inv hp hw valid hr hx here G

theorem Touched.preserves : Inv R t xs := by
  have same : ∀ r x, R r → x < numPages → ∀ {G}, G ≠ .referenced → G ≠ .dirty →
      t.entry r x G = s.entry r x G :=
    fun r x hr hx _ ne ne' => h.entry_eq inv hp hw valid hr hx ne ne'
  refine inv.remap (fun r _ => by rw [h.procs]) h.swap (fun i hi => h.fte i hi _) ?_ ?_ ?_ ?_ ?_
  · exact fun r x hr hx => same r x hr hx (by decide) (by decide)
  · intro r x hr hx
    rw [same r x hr hx (by decide) (by decide)]
    exact inv.validBit hr hx
  · intro r x hr hx
    by_cases here : r = p ∧ x = w
    · obtain ⟨rfl, rfl⟩ := here
      rw [h.dirty]
      split
      · exact Nat.le_refl 1
      · exact inv.dirtyBit hp hw
    · rw [h.entry_other inv hp hw valid hr hx here]
      exact inv.dirtyBit hr hx
  · intro r x hr hx
    rw [same r x hr hx (by decide) (by decide), same r x hr hx (by decide) (by decide)]
    intro mapped
    have own := inv.owns hr hx mapped
    exact own.congr (fun F _ => h.fte _ own.lt F)
  · intro f hf
    rw [h.fte f hf, h.fte f hf]
    intro unprotected mapped
    obtain ⟨r, x, hr, hx, there, pfn⟩ := inv.owned hf unprotected mapped
    refine ⟨r, x, hr, hx, ?_, ?_⟩
    · rw [same r x hr hx (by decide) (by decide)]
      exact there
    · rw [same r x hr hx (by decide) (by decide)]
      exact pfn

end

/-- The page of the access is in memory in `m`: it was there, or it has been
faulted into `v`. -/
inductive Present (R : Nat → Prop) (env : Env) (s : VM) (xs : List Slot) (p w : Nat) :
    VM → List Slot → Prop
  | hit (valid : s.entry p w .valid ≠ 0) : Present R env s xs p w s xs
  | miss {c f m : VM} {v : Nat} {ys : List Slot} {page : Nat → UInt8}
      (invalid : s.entry p w .valid = 0) (select : env.select s = .ok (v, c))
      (hv : v < numFrames) (unprotected : s.fte v .isProtected = 0)
      (freed : Freed R c xs v f ys) (loaded : Loaded f p w v page m)
      (backing : Backing ys (f.entry p w .sid) page) : Present R env s xs p w m ys

theorem Present.procs {m : VM} (inv : Inv R s xs) (h : Present R env s xs p w m ys) :
    m.procs = s.procs := by
  cases h with
  | hit => rfl
  | miss _ select _ _ freed loaded _ =>
    rw [loaded.procs, freed.procs, (env.select_usage inv.framesOwned select).procs]

theorem Present.registers {m : VM} (inv : Inv R s xs) (h : Present R env s xs p w m ys) :
    m.ptbr = s.ptbr ∧ m.currentProcess = s.currentProcess ∧ m.replacement = s.replacement := by
  cases h with
  | hit => exact ⟨rfl, rfl, rfl⟩
  | miss _ select _ _ freed loaded _ =>
    have usage := env.select_usage inv.framesOwned select
    exact ⟨loaded.ptbr.trans (freed.ptbr.trans usage.ptbr),
      loaded.currentProcess.trans (freed.currentProcess.trans usage.currentProcess),
      loaded.replacement.trans (freed.replacement.trans usage.replacement)⟩

/-- Every select_victim_frame call from `s` gives an unprotected frame. -/
def VictimOk (env : Env) (s : VM) : Prop :=
  ∃ v c, env.select s = .ok (v, c) ∧ v < numFrames ∧ s.fte v .isProtected = 0

theorem memAccess_spec {addr : Nat} (access : Char) (data : UInt8) (inv : Inv R s xs)
    (cur : Current R s p) (hw : vaddrVpn addr < numPages)
    (victim : s.entry p (vaddrVpn addr) .valid = 0 → VictimOk env s) :
    (memAccess env addr access data s = .error allocFailed ∧ ∃ heap, env.calloc heap = none) ∨
    ∃ m ys b t, memAccess env addr access data s = .ok (b, t) ∧
      Present R env s xs p (vaddrVpn addr) m ys ∧ Inv R m ys ∧
      m.entry p (vaddrVpn addr) .valid ≠ 0 ∧
      Touched m p (vaddrVpn addr) access (vaddrOffset addr) data b t ∧ Inv R t ys := by
  have entry : entryAt s.ptbr (vaddrVpn addr) =
      .ok (pteAddr (s.procs p).savedPtbr (vaddrVpn addr)) := by
    rw [cur.ptbr]
    exact entryAt_eq (inv.tableLt cur.running) hw
  by_cases valid : s.entry p (vaddrVpn addr) .valid = 0
  · obtain ⟨v, c, select, hv, unprotected⟩ := victim valid
    have invalid : s.pte (pteAddr (s.procs p).savedPtbr (vaddrVpn addr)) .valid = 0 := valid
    rcases pageFault_spec inv cur hw valid select hv unprotected with
      ⟨failed, exhausted⟩ | ⟨f, ys, page, m, ok, freed, loaded, backing, invm⟩
    · left
      refine ⟨?_, exhausted⟩
      simp [memAccess, entry, invalid, failed, bind, Except.bind]
    · right
      have procs : m.procs = s.procs := by
        rw [loaded.procs, freed.procs, (env.select_usage inv.framesOwned select).procs]
      have validm : m.entry p (vaddrVpn addr) .valid ≠ 0 := by
        rw [loaded.valid]
        decide
      obtain ⟨b, t, touched, effect⟩ := touch_spec addr access data
        invm cur.running hw validm
      rw [procs] at touched
      refine ⟨m, ys, b, t, ?_, .miss valid select hv unprotected freed loaded backing, invm, validm,
        effect, effect.preserves invm cur.running hw validm⟩
      simp [memAccess, entry, invalid, ok, touched, bind, Except.bind]
  · right
    have mapped : s.pte (pteAddr (s.procs p).savedPtbr (vaddrVpn addr)) .valid ≠ 0 := valid
    obtain ⟨b, t, touched, effect⟩ := touch_spec addr access data
      inv cur.running hw valid
    refine ⟨s, xs, b, t, ?_, .hit valid, inv, valid, effect,
      effect.preserves inv cur.running hw valid⟩
    simp [memAccess, entry, mapped, touched, bind, Except.bind, pure, Except.pure]

end

end SystemsProjects.Vm
