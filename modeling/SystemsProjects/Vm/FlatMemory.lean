import SystemsProjects.Vm.SwapRuns

/-!
# Virtual memory refines a flat memory

What a process sees is one byte array of its own, empty at its start. A page is
the copy in its frame while it is valid; while it is invalid or clean it is also
the page behind its sid.
-/

namespace SystemsProjects.Vm

open VM

/-- The memory that the processes see: a byte for each process and address. -/
abbrev Flat := Nat → Nat → UInt8

def Flat.empty : Flat := fun _ _ => 0

/-- Process `p` starts with nothing written. -/
def Flat.clear (m : Flat) (p : Nat) : Flat := fun r a => if r = p then 0 else m r a

def Flat.write (m : Flat) (p addr : Nat) (data : UInt8) : Flat :=
  fun r a => if r = p ∧ a = addr then data else m r a

/-- An operation on the flat memory, when `current` is the current process. -/
def Flat.step (m : Flat) (current : Option Nat) : Op → Flat
  | .procInit p => m.clear p
  | .memAccess addr access data =>
    if access = 'w' then current.elim m (fun p => m.write p addr data) else m
  | _ => m

/-- The flat memory after a run. -/
def Flat.after : List Moment → Flat
  | [] => Flat.empty
  | m :: h => (Flat.after h).step m.before.currentProcess m.op

/-- The byte most recently written to `addr` by `p` since its last `proc_init`,
or 0 if there was none. -/
def lastWritten (p addr : Nat) : List Moment → UInt8
  | [] => 0
  | m :: h =>
    match m.op with
    | .procInit r => if r = p then 0 else lastWritten p addr h
    | .memAccess a access data =>
      if access = 'w' ∧ m.before.currentProcess = some p ∧ a = addr then data
      else lastWritten p addr h
    | _ => lastWritten p addr h

theorem flat_after_eq (p addr : Nat) (h : List Moment) :
    Flat.after h p addr = lastWritten p addr h := by
  induction h with
  | nil => rfl
  | cons m h ih =>
    rw [Flat.after, lastWritten, ← ih]
    cases m.op with
    | procInit r =>
      simp only [Flat.step, Flat.clear]
      by_cases same : p = r
      · rw [if_pos same, if_pos same.symm]
      · rw [if_neg same, if_neg (Ne.symm same)]
    | memAccess a access data =>
      by_cases write : access = 'w'
      · cases current : m.before.currentProcess with
        | none => simp [Flat.step]
        | some r =>
          simp only [Flat.step, write, Option.elim_some, Flat.write, Option.some.injEq, true_and,
            ↓reduceIte]
          by_cases same : p = r ∧ addr = a
          · rw [if_pos same, if_pos ⟨same.1.symm, same.2.symm⟩]
          · rw [if_neg same, if_neg (fun e => same ⟨e.1.symm, e.2.symm⟩)]
      · simp [Flat.step, write]
    | contextSwitch => rfl
    | procCleanup => rfl
    | daemonUpdate => rfl

/-! ## The agreement -/

/-- The pages of the processes `R` hold what the flat memory says. -/
structure Agrees (R : Nat → Prop) (s : VM) (xs : List Slot) (m : Flat) : Prop where
  inMemory : ∀ {p v}, R p → v < numPages → s.entry p v .valid ≠ 0 → ∀ o < pageSize,
    s.byte (s.entry p v .pfn) o = m p (v * pageSize + o)
  onDisk : ∀ {p v}, R p → v < numPages → (s.entry p v .valid = 0 ∨ s.entry p v .dirty = 0) →
    ∃ page, Backing xs (s.entry p v .sid) page ∧ ∀ o < pageSize, page o = m p (v * pageSize + o)

section

variable {R : Nat → Prop} {env : Env} {s t : VM} {xs ys : List Slot} {m : Flat} {p w v : Nat}
  {page : Nat → UInt8}

theorem Backing.unique {sid : Nat} {page' : Nat → UInt8} (distinct : (ids xs).Nodup)
    (h : Backing xs sid page) (h' : Backing xs sid page') : page = page' := by
  rcases h with ⟨zero, rfl⟩ | ⟨ne, x, hx, id, rfl⟩
  · rcases h' with ⟨_, rfl⟩ | ⟨ne, _⟩
    · rfl
    · exact absurd zero ne
  · rcases h' with ⟨zero, _⟩ | ⟨_, y, hy, id', rfl⟩
    · exact absurd zero ne
    · rw [slot_unique distinct hx hy (id.trans id'.symm)]

/-- A backing page is still there if its slot is. -/
theorem Backing.mono {sid : Nat} (h : Backing xs sid page)
    (kept : ∀ x ∈ xs, x.id = sid → sid ≠ 0 → x ∈ ys) : Backing ys sid page := by
  rcases h with zero | ⟨ne, x, hx, id, same⟩
  · exact Or.inl zero
  · exact Or.inr ⟨ne, x, kept x hx id ne, id, same⟩

/-- Where nothing the processes see has moved, they see the same. -/
theorem Agrees.congr (agrees : Agrees R s xs m)
    (entry : ∀ p v, R p → v < numPages → ∀ G, G ≠ .referenced → t.entry p v G = s.entry p v G)
    (byte : ∀ p v, R p → v < numPages → s.entry p v .valid ≠ 0 → ∀ o < pageSize,
      t.byte (s.entry p v .pfn) o = s.byte (s.entry p v .pfn) o)
    (slots : ∀ p v, R p → v < numPages → ∀ x ∈ xs, x.id = s.entry p v .sid →
      s.entry p v .sid ≠ 0 → x ∈ ys) : Agrees R t ys m where
  inMemory {p v} hp hv := by
    rw [entry p v hp hv _ (by decide), entry p v hp hv _ (by decide)]
    intro valid o ho
    rw [byte p v hp hv valid o ho]
    exact agrees.inMemory hp hv valid o ho
  onDisk {p v} hp hv := by
    rw [entry p v hp hv _ (by decide), entry p v hp hv _ (by decide),
      entry p v hp hv _ (by decide)]
    intro clean
    obtain ⟨page, backing, same⟩ := agrees.onDisk hp hv clean
    exact ⟨page, backing.mono (slots p v hp hv), same⟩

theorem Agrees.usage (agrees : Agrees R s xs m) (inv : Inv R s xs) (h : UsageOnly s t) :
    Agrees R t xs m := by
  refine agrees.congr (fun p v hp hv G ne => h.entry inv hp hv ne) ?_ (fun _ _ _ _ x hx _ _ => hx)
  intro p v hp hv valid o ho
  have own := inv.owns hp hv valid
  exact h.byte _ own.pos own.lt own.unprotected o ho

/-- The slots of other pages survive an eviction. -/
theorem SwapMoved.kept (inv : Inv R s xs) (moved : SwapMoved s xs p w v t ys) (hp : R p)
    (hw : w < numPages) {r u : Nat} (hr : R r) (hu : u < numPages) (other : ¬ (r = p ∧ u = w))
    {x : Slot} (hx : x ∈ xs) (id : x.id = s.entry r u .sid) (ne : s.entry r u .sid ≠ 0) :
    x ∈ ys := by
  cases moved with
  | clean => exact hx
  | @rewritten y page' _ _ hy idy _ _ _ _ =>
    have apart : x.block ≠ y.block := by
      intro same
      obtain rfl := inv.rep.block_inj hx hy same
      exact other (inv.sidInj hr hu hp hw ne (id.symm.trans idy))
    have mem := mem_writeSlot y.block page' hx
    rwa [if_neg apart] at mem
  | created => exact List.mem_append_left _ hx

/-- The page that leaves memory is behind its sid afterwards. -/
theorem SwapMoved.backing (agrees : Agrees R s xs m)
    (moved : SwapMoved s xs p w v t ys) (hp : R p) (hw : w < numPages)
    (valid : s.entry p w .valid ≠ 0) (pfn : s.entry p w .pfn = v) (nonzero : 0 ∉ ids ys) :
    ∃ page, Backing ys (t.entry p w .sid) page ∧
      ∀ o < pageSize, page o = m p (w * pageSize + o) := by
  have copied : ∀ page : Nat → UInt8, (∀ o < pageSize, page o = s.byte v o) →
      ∀ o < pageSize, page o = m p (w * pageSize + o) := by
    intro page copy o ho
    rw [copy o ho, ← pfn]
    exact agrees.inMemory hp hw valid o ho
  cases moved with
  | clean clean sid _ =>
    rw [sid]
    exact agrees.onDisk hp hw (Or.inr clean)
  | @rewritten x page _ sid hx id copy _ _ _ =>
    have mem := mem_writeSlot x.block page hx
    rw [if_pos rfl] at mem
    have ne : s.entry p w .sid ≠ 0 := by
      intro zero
      rw [ids_writeSlot] at nonzero
      exact nonzero (zero ▸ id ▸ List.mem_map_of_mem hx)
    rw [sid]
    exact ⟨page, Or.inr ⟨ne, _, mem, id, rfl⟩, copied page copy⟩
  | @created a page _ _ sid copy _ _ _ =>
    have mem : (⟨a, s.swap.swapId, page⟩ : Slot) ∈ xs ++ [⟨a, s.swap.swapId, page⟩] := by simp
    have ne : s.swap.swapId ≠ 0 := fun zero => nonzero (zero ▸ List.mem_map_of_mem mem)
    rw [sid]
    exact ⟨page, Or.inr ⟨ne, _, mem, rfl, rfl⟩, copied page copy⟩

theorem Agrees.freed (agrees : Agrees R s xs m) (inv : Inv R s xs) (h : Freed R s xs v t ys)
    (nonzero : 0 ∉ ids ys) : Agrees R t ys m where
  inMemory {r u} hr hu valid o ho := by
    obtain ⟨out, _⟩ := h.kept_of_valid hr hu valid
    rw [h.kept r u hr hu out] at valid ⊢
    have own := inv.owns hr hu valid
    rw [h.byte _ own.lt own.unprotected o ho]
    exact agrees.inMemory hr hu valid o ho
  onDisk {r u} hr hu clean := by
    by_cases here : InFrame R s v r u
    · obtain ⟨_, _, valid, pfn⟩ := here
      exact (h.left r u ⟨hr, hu, valid, pfn⟩).2.2.backing agrees hr hu valid pfn nonzero
    · rw [h.kept r u hr hu here, h.kept r u hr hu here] at clean
      rw [h.kept r u hr hu here]
      obtain ⟨page, backing, same⟩ := agrees.onDisk hr hu clean
      refine ⟨page, backing.mono (fun x hx id ne => ?_), same⟩
      by_cases left : ∃ p w, InFrame R s v p w
      · obtain ⟨p, w, there⟩ := left
        have other : ¬ (r = p ∧ u = w) := by
          rintro ⟨rfl, rfl⟩
          exact here there
        exact (h.left p w there).2.2.kept inv there.1 there.2.1 hr hu other hx id ne
      · have idle := h.idle (fun p w there => left ⟨p, w, there⟩)
        rwa [idle.1]

/-- Reading a page into an empty frame shows the process what it saw before. -/
theorem Agrees.loaded (agrees : Agrees R s xs m) (inv : Inv R s xs) (hp : R p) (hw : w < numPages)
    (h : Loaded s p w v page t) (unprotected : s.fte v .isProtected = 0)
    (unmapped : s.fte v .mapped = 0) (invalid : s.entry p w .valid = 0)
    (backing : Backing xs (s.entry p w .sid) page) : Agrees R t xs m where
  inMemory {r u} hr hu valid o ho := by
    by_cases here : r = p ∧ u = w
    · obtain ⟨rfl, rfl⟩ := here
      obtain ⟨page', backing', same⟩ := agrees.onDisk hp hw (Or.inl invalid)
      rw [h.pfn, h.loaded o ho, backing.unique inv.idsDistinct backing']
      exact same o ho
    · rw [h.entry_other inv hp unprotected hr hu here] at valid ⊢
      have own := inv.owns hr hu valid
      have ne : s.entry r u .pfn ≠ v := fun e => own.mapped (e ▸ unmapped)
      rw [h.byte _ own.pos ne (inv.pfn_ne_table hr hu valid hp) o ho]
      exact agrees.inMemory hr hu valid o ho
  onDisk {r u} hr hu clean := by
    by_cases here : r = p ∧ u = w
    · obtain ⟨rfl, rfl⟩ := here
      rw [h.sid]
      exact agrees.onDisk hp hw (Or.inl invalid)
    · rw [h.entry_other inv hp unprotected hr hu here,
        h.entry_other inv hp unprotected hr hu here] at clean
      rw [h.entry_other inv hp unprotected hr hu here]
      exact agrees.onDisk hr hu clean

theorem page_offset_inj {v w o x : Nat} (ho : o < pageSize) (hx : x < pageSize)
    (same : v * pageSize + o = w * pageSize + x) : v = w ∧ o = x := by
  simp only [pageSize_eq] at *
  omega

/-- An access reads the flat memory, or writes it. -/
theorem Agrees.touched {access : Char} {o : Nat} {data b : UInt8} (agrees : Agrees R s xs m)
    (inv : Inv R s xs) (hp : R p) (hw : w < numPages) (valid : s.entry p w .valid ≠ 0)
    (ho : o < pageSize) (h : Touched s p w access o data b t) :
    Agrees R t xs (if access = 'w' then m.write p (w * pageSize + o) data else m) := by
  have notTable : ∀ r u, R r → u < numPages → s.entry r u .valid ≠ 0 →
      s.entry r u .pfn ≠ (s.procs p).savedPtbr :=
    fun r u hr hu there => inv.pfn_ne_table hr hu there hp
  have same : ∀ r u, R r → u < numPages → ∀ {G}, G ≠ .referenced → G ≠ .dirty →
      t.entry r u G = s.entry r u G :=
    fun r u hr hu _ ne ne' => h.entry_eq inv hp hw valid hr hu ne ne'
  -- a byte of another page is not the one that is written
  have elsewhere : ∀ r u x, x < pageSize → ¬ (r = p ∧ u = w) →
      (if access = 'w' then m.write p (w * pageSize + o) data else m) r (u * pageSize + x) =
        m r (u * pageSize + x) := by
    intro r u x hx other
    split
    · refine if_neg (fun e => other ⟨e.1, ?_⟩)
      exact (page_offset_inj hx ho e.2).1
    · rfl
  refine ⟨?_, ?_⟩
  · intro r u hr hu there x hx
    rw [same r u hr hu (by decide) (by decide)] at there ⊢
    have own := inv.owns hr hu there
    rw [h.byte _ own.pos (notTable r u hr hu there) x hx]
    by_cases here : r = p ∧ u = w
    · obtain ⟨rfl, rfl⟩ := here
      by_cases write : access = 'w'
      · simp only [write, if_true, true_and, Flat.write]
        by_cases spot : x = o
        · rw [if_pos spot, if_pos (by rw [spot])]
        · rw [if_neg spot, if_neg (fun e => spot (page_offset_inj hx ho e).2)]
          exact agrees.inMemory hp hw valid x hx
      · simp only [write, if_false, false_and]
        exact agrees.inMemory hp hw valid x hx
    · rw [elsewhere r u x hx here]
      have apart : s.entry r u .pfn ≠ s.entry p w .pfn :=
        fun e => here (inv.entry_inj hr hu hp hw there valid e)
      rw [if_neg (fun e => apart e.2.1)]
      exact agrees.inMemory hr hu there x hx
  · intro r u hr hu clean
    by_cases here : r = p ∧ u = w
    · obtain ⟨rfl, rfl⟩ := here
      have stillValid : t.entry r u .valid ≠ 0 := by
        rw [same r u hp hw (by decide) (by decide)]
        exact valid
      have dirty := clean.resolve_left stillValid
      rw [h.dirty] at dirty
      by_cases write : access = 'w'
      · rw [if_pos write] at dirty
        exact absurd dirty (by decide)
      · rw [if_neg write] at dirty ⊢
        rw [same r u hp hw (by decide) (by decide)]
        exact agrees.onDisk hp hw (Or.inr dirty)
    · rw [h.entry_other inv hp hw valid hr hu here, h.entry_other inv hp hw valid hr hu here]
        at clean
      rw [h.entry_other inv hp hw valid hr hu here]
      obtain ⟨page, backing, eq⟩ := agrees.onDisk hr hu clean
      exact ⟨page, backing, fun x hx => (eq x hx).trans (elsewhere r u x hx here).symm⟩

theorem Agrees.started (agrees : Agrees R s xs m) (inv : Inv R s xs) (h : Started s p v t)
    (out : ¬ R p) (unprotected : s.fte v .isProtected = 0) (unmapped : s.fte v .mapped = 0) :
    Agrees (fun r => R r ∨ r = p) t xs (m.clear p) := by
  have other := fun {r u} (hr : R r) => h.entry_other inv out unprotected hr (u := u)
  have old : ∀ r a, R r → m.clear p r a = m r a := by
    intro r a hr
    refine if_neg ?_
    rintro rfl
    exact out hr
  refine ⟨?_, ?_⟩
  · rintro r u (hr | rfl) hu valid o ho
    · rw [other hr hu] at valid ⊢
      have own := inv.owns hr hu valid
      have ne : s.entry r u .pfn ≠ v := fun e => own.mapped (e ▸ unmapped)
      rw [h.byte _ own.pos ne o ho, old r _ hr]
      exact agrees.inMemory hr hu valid o ho
    · exact absurd (h.empty u hu _) valid
  · rintro r u (hr | rfl) hu clean
    · rw [other hr hu, other hr hu] at clean
      rw [other hr hu]
      obtain ⟨page, backing, eq⟩ := agrees.onDisk hr hu clean
      exact ⟨page, backing, fun o ho => (eq o ho).trans (old r _ hr).symm⟩
    · exact ⟨fun _ => 0, Or.inl ⟨h.empty u hu _, rfl⟩, fun o _ => (if_pos rfl).symm⟩

theorem Agrees.stopped (agrees : Agrees R s xs m) (inv : Inv R s xs) (hp : R p)
    (h : Stopped R s xs p t ys) : Agrees (fun r => R r ∧ r ≠ p) t ys m := by
  have fewer : Agrees (fun r => R r ∧ r ≠ p) s xs m :=
    ⟨fun hr => agrees.inMemory hr.1, fun hr => agrees.onDisk hr.1⟩
  refine fewer.congr ?_ ?_ ?_
  · rintro r u ⟨hr, ne⟩ hu G _
    rw [VM.entry, h.procs]
    exact h.pte _ u (inv.tablePos hr) hu (fun same => ne (inv.tableInj hr hp same)) G
  · rintro r u ⟨hr, _⟩ hu valid o ho
    exact h.byte _ (inv.owns hr hu valid).pos (inv.pfn_ne_table hr hu valid hp) o ho
  · rintro r u ⟨hr, ne⟩ hu x hx id saved
    refine (h.slots x).mpr ⟨hx, fun i hi same => ?_⟩
    have nonzero : s.entry p i .sid ≠ 0 := by
      rw [same, id]
      exact saved
    exact absurd (inv.sidInj hp hi hr hu nonzero (same.trans id)).1.symm ne

end

/-! ## Over runs -/

section

variable {env : Env} {s t : VM} {xs ys : List Slot} {h : List Moment} {mem : Bytes.ByteMem}
  {replacement : Replacement} {check : Bool} {op : Op} {b : UInt8}

theorem vaddrOffset_lt (addr : Nat) : vaddrOffset addr < pageSize := Nat.mod_lt _ (by decide)

theorem vaddr_split {addr : Nat} (small : addr < 2 ^ vaddrLen) :
    vaddrVpn addr * pageSize + vaddrOffset addr = addr := by
  have shift : addr >>> 14 = addr / 2 ^ 14 := Nat.shiftRight_eq_div_pow _ _
  simp only [vaddrVpn, vaddrOffset, offsetLen, vaddrLen, pageSize_eq, shift] at *
  omega

/-- The page of an access is in memory and agrees. -/
theorem Present.agrees {R : Nat → Prop} {p w : Nat} {m : Flat} {u : VM} (inv : Inv R s xs)
    (agrees : Agrees R s xs m) (hp : R p) (hw : w < numPages)
    (present : Present R env s xs p w u ys) (nonzero : 0 ∉ ids ys) : Agrees R u ys m := by
  cases present with
  | hit => exact agrees
  | @miss c f _ v _ page invalid select hv unprotected freed loaded backing =>
    have usage := env.select_usage inv.framesOwned select
    have invc := usage.inv inv
    have unprotectedf : f.fte v .isProtected = 0 := by
      rw [freed.protected_eq hv, usage.fte v hv _ (by decide)]
      exact unprotected
    have unmapped : f.fte v .mapped = 0 := by
      rw [freed.fte v hv, if_pos (by simp)]
    have invalidc : c.entry p w .valid = 0 := by
      rw [usage.entry inv hp hw (by decide)]
      exact invalid
    have invalidf : f.entry p w .valid = 0 := by
      rw [freed.kept p w hp hw (fun here => here.2.2.1 invalidc)]
      exact invalidc
    have after := (agrees.usage inv usage).freed invc freed nonzero
    exact after.loaded (freed.preserves invc hv) hp hw loaded unprotectedf unmapped invalidf backing

theorem Effect.agrees {m : Flat} (inv : Inv s.Running s xs) (agrees : Agrees s.Running s xs m)
    (effect : Effect env s xs op b t ys) (nonzero : 0 ∉ ids ys) :
    Agrees t.Running t ys (m.step s.currentProcess op) := by
  cases effect with
  | @started p v c f t ys hp out select hv unprotected usage freed middle started =>
    have ready : Agrees s.Running (startPrelude p s) xs m :=
      agrees.congr (fun r u _ _ G _ => entry_startPrelude s p r u G) (fun _ _ _ _ _ _ _ => rfl)
        (fun _ _ _ _ x hx _ _ => hx)
    have invc := usage.inv inv.startPrelude
    have unprotectedf : f.fte v .isProtected = 0 := by
      rw [freed.protected_eq hv, usage.fte v hv _ (by decide)]
      exact unprotected
    have unmapped : f.fte v .mapped = 0 := by
      rw [freed.fte v hv, if_pos (by simp)]
    have after := (ready.usage inv.startPrelude usage).freed invc freed nonzero
    rw [running_started hp (freed.procs.trans usage.procs) started]
    exact after.started middle started out unprotectedf unmapped
  | switched => exact ⟨agrees.inMemory, agrees.onDisk⟩
  | @stopped p u ys hp stopped =>
    have after := agrees.stopped inv hp stopped
    rw [running_stopEpilogue, Running.congr stopped.procs]
    refine after.congr (fun r u hr _ G _ => ?_) (fun _ _ _ _ _ _ _ => rfl)
      (fun _ _ _ _ x hx _ _ => hx)
    simp [VM.entry, stopEpilogue, setProc, hr.2, VM.pte]
  | aged usage =>
    rw [Running.congr usage.procs]
    exact agrees.usage inv usage
  | @accessed p addr access data u ys b t small cur present middle valid touched =>
    have hw := vaddrVpn_lt small
    have there := present.agrees inv agrees cur.running hw nonzero
    have after := there.touched middle cur.running hw valid (vaddrOffset_lt addr) touched
    rw [vaddr_split small] at after
    rw [Running.congr (touched.procs.trans (present.procs inv))]
    simpa only [Flat.step, cur.current, Option.elim_some] using after

/-- As long as id 0 has not been handed out, every running process sees the flat
memory. -/
theorem run_agrees (run : Run env (initial mem replacement check) h s) :
    ∃ xs, Inv s.Running s xs ∧ Counted (entriesCreated h) s xs ∧
      (entriesCreated h < 2 ^ 64 → Agrees s.Running s xs (Flat.after h)) := by
  refine run.invariant (fun h s xs => Counted (entriesCreated h) s xs ∧
    (entriesCreated h < 2 ^ 64 → Agrees s.Running s xs (Flat.after h))) ⟨?_, fun _ => ?_⟩ ?_
  · refine ⟨rfl, by simp, Nat.zero_le _, ?_⟩
    intro e
    exact absurd e.symm (Nat.pos_of_neZero (2 ^ 64)).ne'
  · exact ⟨fun hp => absurd hp (initial_idle _), fun hp => absurd hp (initial_idle _)⟩
  · rintro h s xs op b t ys inv ⟨counted, agrees⟩ effect after
    have counted' := (effect.swapEffect inv).counted op b inv counted
    refine ⟨counted', fun few => ?_⟩
    have before : entriesCreated h < 2 ^ 64 :=
      Nat.lt_of_le_of_lt (by rw [entriesCreated_cons]; exact Nat.le_add_right _ _) few
    exact effect.agrees inv (agrees before) (fun zero => few.ne (counted'.zero_iff.mp zero))

/-- A read returns the byte most recently written to the address by the process
since its start, or 0, in every run with fewer than 2^64 `create_entry` calls;
only `calloc` returning NULL can keep it from returning. -/
theorem read_returns_last_written {addr p : Nat} {data : UInt8}
    (run : Run env (initial mem replacement check) h s)
    (legal : Op.Legal env s (.memAccess addr 'r' data)) (current : s.currentProcess = some p) :
    (memAccess env addr 'r' data s = .error allocFailed ∧ ∃ heap, env.calloc heap = none) ∨
    ∃ b t, memAccess env addr 'r' data s = .ok (b, t) ∧
      (entriesCreated (⟨s, .memAccess addr 'r' data, b, t⟩ :: h) < 2 ^ 64 →
        b = lastWritten p addr h) := by
  obtain ⟨xs, inv, counted, agrees⟩ := run_agrees run
  rcases exec_spec inv legal with failed | ⟨b, t, ys, ok, effect, _⟩
  · exact Or.inl failed
  · refine Or.inr ⟨b, t, ok, fun few => ?_⟩
    have counted' := (effect.swapEffect inv).counted (.memAccess addr 'r' data) b inv
      counted
    have before : entriesCreated h < 2 ^ 64 :=
      Nat.lt_of_le_of_lt (by rw [entriesCreated_cons]; exact Nat.le_add_right _ _) few
    cases effect with
    | @accessed r _ _ _ u _ _ _ small cur present middle valid touched =>
      obtain rfl : r = p := Option.some.inj (cur.current.symm.trans current)
      have hw := vaddrVpn_lt small
      have there := present.agrees inv (agrees before) cur.running hw
        (fun zero => few.ne (counted'.zero_iff.mp zero))
      have read := there.inMemory cur.running hw valid _ (vaddrOffset_lt addr)
      rw [vaddr_split small] at read
      rw [touched.result, if_pos rfl, ← flat_after_eq]
      exact read

/-- After a write of 7 to address 5 a read of it returns 7. -/
theorem written_run_reads_back : ∃ h s t, Run standardEnv zeroed h s ∧ h.length = 3 ∧
    memAccess standardEnv 5 'r' 0 s = .ok (7, t) := by
  obtain ⟨_, _, s, _, a⟩ := written_run
  rcases read_returns_last_written a.run (a.legal 5 'r' 0 (by decide)) a.current with
    ⟨_, _, none⟩ | ⟨b, t, ok, last⟩
  · exact absurd none (standardEnv_alloc _)
  · obtain rfl := last (entriesCreated_lt (by simp))
    exact ⟨_, s, t, a.run, rfl, ok⟩

end

end SystemsProjects.Vm
