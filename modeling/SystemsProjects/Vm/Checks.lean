import SystemsProjects.Lib.Loops
import SystemsProjects.Vm.Invariant

/-!
# What the corruption checker decides

`check_validity(1)` returns for the states that are `Valid`, with the owner of a page's frame
told by its pid alone. And in a state that its first scan does not refuse, a page table in
frame NUM_FRAMES makes it use an index that the frame table does not have.
-/

namespace SystemsProjects.Vm

open VM Loops Heaps

/-- A walk from the block `curr` comes to one with this id. -/
inductive Queued (heap : Heap SwapEntry) (sid : Nat) : Option Nat → Prop
  | here {b e} (read : heap.read b = some e) (same : e.id = sid) : Queued heap sid (some b)
  | next {b e} (read : heap.read b = some e) (later : Queued heap sid e.next) :
      Queued heap sid (some b)

/-- Entry `v` of process `p` is matched by the frame that it names. -/
structure Maps (owner : Nat → Nat → Prop) (s : VM) (p v : Nat) : Prop where
  pos : 0 < s.entry p v .pfn
  lt : s.entry p v .pfn < numFrames
  unprotected : s.fte (s.entry p v .pfn) .isProtected = 0
  mapped : s.fte (s.entry p v .pfn) .mapped ≠ 0
  owner : owner (s.fte (s.entry p v .pfn) .process) p
  vpn : s.fte (s.entry p v .pfn) .vpn = v

/-- The state is free of corruption; `owner ptr p` says that `ptr` stands for process `p`. -/
structure Valid (owner : Nat → Nat → Prop) (s : VM) : Prop where
  frameZero : s.fte 0 .isProtected ≠ 0
  tableFrame : ∀ p, s.Running p → 0 < (s.procs p).savedPtbr ∧ (s.procs p).savedPtbr < numFrames ∧
    s.fte (s.procs p).savedPtbr .isProtected ≠ 0
  protectedFrame : ∀ f < numFrames, s.fte f .isProtected ≠ 0 → f = 0 ∨ ∃ p, s.Running p ∧
    (s.procs p).savedPtbr = f
  bits : ∀ p v, s.Running p → v < numPages → s.entry p v .valid ≤ 1 ∧ s.entry p v .dirty ≤ 1
  mapping : ∀ p v, s.Running p → v < numPages → s.entry p v .valid ≠ 0 → Maps owner s p v
  noSharing : ∀ p v r w, s.Running p → v < numPages → s.Running r → w < numPages →
    s.entry p v .valid ≠ 0 → s.entry r w .valid ≠ 0 → s.entry p v .pfn = s.entry r w .pfn → p = r ∧
    v = w
  swapEntry : ∀ p v, s.Running p → v < numPages → s.entry p v .sid ≠ 0 →
    Queued s.swap.heap (s.entry p v .sid) s.swap.head
  mappedFrame : ∀ f < numFrames, s.fte f .isProtected = 0 → s.fte f .mapped ≠ 0 →
    ∃ p v, s.Running p ∧ v < numPages ∧ s.entry p v .valid ≠ 0 ∧ s.entry p v .pfn = f

/-- `ptr` is `&procs[p]`. -/
def IsPcb (ptr p : Nat) : Prop := ptr = pcbPtr p

/-- `ptr` points into `procs` to where the pid `p` is read. -/
def HasPid (s : VM) (ptr p : Nat) : Prop := s.pcb ptr .pid = .ok p

section

variable {s : VM} {marks acc acc' : Nat → Bool} {p v f : Nat}

theorem panicIf_ok {c : Prop} [Decidable c] {message : String} :
    panicIf c message = .ok () ↔ ¬c := by
  unfold panicIf
  split
  · rename_i holds
    exact ⟨nofun, fun fails => absurd holds fails⟩
  · rename_i fails
    exact ⟨fun _ => fails, fun _ => rfl⟩

theorem inFrames_ok : inFrames f = .ok () ↔ f < numFrames := by
  unfold inFrames
  split
  · rename_i inside
    exact ⟨fun _ => inside, fun _ => rfl⟩
  · rename_i outside
    exact ⟨nofun, fun inside => absurd inside outside⟩

theorem mark_iff (i f : Nat) : mark acc i f = true ↔ f = i ∨ acc f = true := by
  simp only [mark]
  split
  · simp [*]
  · simp [*]

/-! ## The swap queue -/

/-- The search comes to a block with the id or to the end, or it has come round. -/
theorem searchFrom_queued {heap : Heap SwapEntry} {sid n : Nat} {prev curr q : Option Nat} {b : Nat}
    (found : searchFrom heap sid n prev curr = .ok (q, some b)) : Queued heap sid curr := by
  induction n generalizing prev curr with
  | zero => cases curr <;> cases found
  | succ n ih =>
    cases curr with
    | none => cases found
    | some c =>
      rw [searchFrom] at found
      cases read : heap.read c with
      | none =>
        rw [read] at found
        cases found
      | some e =>
        simp only [read] at found
        split at found
        · exact .here read ‹_›
        · exact .next read (ih found)

/-- A path of `d` blocks without the id, and then one with it. -/
inductive Path (heap : Heap SwapEntry) (sid : Nat) : List Nat → Option Nat → Prop
  | here {b e} (read : heap.read b = some e) (same : e.id = sid) : Path heap sid [b] (some b)
  | next {b e l} (read : heap.read b = some e) (other : e.id ≠ sid)
      (later : Path heap sid l e.next) :
      Path heap sid (b :: l) (some b)

theorem Queued.path {heap : Heap SwapEntry} {sid : Nat} {curr : Option Nat}
    (queued : Queued heap sid curr) :
    ∃ l, Path heap sid l curr := by
  induction queued with
  | here read same => exact ⟨_, .here read same⟩
  | @next b e read _ ih =>
    obtain ⟨l, path⟩ := ih
    by_cases same : e.id = sid
    · exact ⟨_, .here read same⟩
    · exact ⟨_, .next read same path⟩

theorem Path.unique {heap : Heap SwapEntry} {sid : Nat} {curr : Option Nat} {k l : List Nat}
    (one : Path heap sid k curr) (two : Path heap sid l curr) : k = l := by
  induction one generalizing l with
  | here read same =>
    cases two with
    | here => rfl
    | next read' other => exact absurd same (Option.some.inj (read'.symm.trans read) ▸ other)
  | next read other _ ih =>
    cases two with
    | here read' same => exact absurd (Option.some.inj (read'.symm.trans read) ▸ same) other
    | next read' _ later =>
      obtain rfl := Option.some.inj (read'.symm.trans read)
      rw [ih later]

theorem Path.of_mem {heap : Heap SwapEntry} {sid b : Nat} {curr : Option Nat} {l : List Nat}
    (path : Path heap sid l curr) (mem : b ∈ l) :
    ∃ k, Path heap sid k (some b) ∧ k.length ≤ l.length := by
  induction path with
  | here read same =>
    obtain rfl := List.mem_singleton.mp mem
    exact ⟨_, .here read same, Nat.le_refl _⟩
  | next read other later ih =>
    rcases List.mem_cons.mp mem with rfl | mem
    · exact ⟨_, .next read other later, Nat.le_refl _⟩
    · obtain ⟨k, path, shorter⟩ := ih mem
      exact ⟨k, path, Nat.le_succ_of_le shorter⟩

/-- No block stands twice on it, for from there on it would be the same again. -/
theorem Path.nodup {heap : Heap SwapEntry} {sid : Nat} {curr : Option Nat} {l : List Nat}
    (path : Path heap sid l curr) : l.Nodup := by
  induction path with
  | here => exact List.nodup_singleton _
  | next read other later ih =>
    refine List.nodup_cons.mpr ⟨fun mem => ?_, ih⟩
    obtain ⟨k, again, shorter⟩ := later.of_mem mem
    obtain rfl := again.unique (.next read other later)
    exact Nat.not_succ_le_self _ shorter

theorem Path.live {heap : Heap SwapEntry} {sid : Nat} {curr : Option Nat} {l : List Nat}
    (path : Path heap sid l curr) : ∀ b ∈ l, b ∈ heap.map Prod.fst := by
  induction path with
  | here read same =>
    intro b mem
    obtain rfl := List.mem_singleton.mp mem
    exact Heap.mem_of_read read
  | next read other later ih =>
    intro b mem
    rcases List.mem_cons.mp mem with rfl | mem
    · exact Heap.mem_of_read read
    · exact ih b mem

theorem Path.search {heap : Heap SwapEntry} {sid n : Nat} {curr : Option Nat} {l : List Nat}
    (path : Path heap sid l curr) (enough : l.length ≤ n) (prev : Option Nat) :
    ∃ q b, searchFrom heap sid n prev curr = .ok (q, some b) := by
  induction path generalizing prev n with
  | @here b e read same =>
    obtain ⟨n, rfl⟩ : ∃ k, n = k + 1 := ⟨n - 1, by simp at enough; omega⟩
    exact ⟨prev, b, by simp only [searchFrom, read, if_pos same]⟩
  | @next b e l read other _ ih =>
    obtain ⟨n, rfl⟩ : ∃ k, n = k + 1 := ⟨n - 1, by simp at enough; omega⟩
    obtain ⟨q, c, found⟩ := ih (Nat.le_of_succ_le_succ enough) (some b)
    exact ⟨q, c, by simp only [searchFrom, read, if_neg other, found]⟩

theorem swapQueueFind_iff {q : SwapSpace} {sid : Nat} :
    (∃ b, q.swapQueueFind sid = .ok (some b)) ↔ Queued q.heap sid q.head := by
  constructor
  · rintro ⟨b, found⟩
    obtain ⟨⟨prev, curr⟩, search, last⟩ := bind_ok.mp found
    obtain rfl : curr = some b := Except.ok.inj last
    exact searchFrom_queued search
  · intro queued
    obtain ⟨l, path⟩ := queued.path
    have few : l.length ≤ q.heap.length := by
      have := (path.nodup.subperm path.live).length_le
      rwa [List.length_map] at this
    obtain ⟨prev, b, search⟩ := path.search few none
    exact ⟨b, bind_ok.mpr ⟨_, search, rfl⟩⟩

/-! ## The first scan -/

/-- What `check_validity` wants of the page table frame of `p`. -/
def TableOk (s : VM) (p : Nat) : Prop :=
  s.Running p → 0 < (s.procs p).savedPtbr ∧ (s.procs p).savedPtbr < numFrames ∧
    s.fte (s.procs p).savedPtbr .isProtected ≠ 0

/-- The frames that the first scan marks once it has seen the pids below `k`. -/
def TablesMarked (s : VM) (k : Nat) (acc : Nat → Bool) : Prop :=
  ∀ f, acc f = true ↔ f = 0 ∨ ∃ p < k, s.Running p ∧ (s.procs p).savedPtbr = f

theorem TablesMarked.none (s : VM) : TablesMarked s 0 (mark (fun _ => false) 0) := by
  intro f
  simp [mark_iff]

theorem TablesMarked.running (before : TablesMarked s p acc) (hp : s.Running p) :
    TablesMarked s (p + 1) (mark acc (s.procs p).savedPtbr) := by
  intro f
  rw [mark_iff, before]
  constructor
  · rintro (rfl | zero | ⟨r, hr', rest⟩)
    · exact Or.inr ⟨p, Nat.lt_succ_self p, hp, rfl⟩
    · exact Or.inl zero
    · exact Or.inr ⟨r, Nat.lt_succ_of_lt hr', rest⟩
  · rintro (zero | ⟨r, hr', rest⟩)
    · exact Or.inr (Or.inl zero)
    · rcases Nat.lt_succ_iff_lt_or_eq.mp hr' with lt | rfl
      · exact Or.inr (Or.inr ⟨r, lt, rest⟩)
      · exact Or.inl rest.2.symm

theorem TablesMarked.stopped (before : TablesMarked s p acc) (out : (s.procs p).state ≠ .running) :
    TablesMarked s (p + 1) acc := by
  intro f
  rw [before]
  constructor
  · rintro (zero | ⟨r, hr', rest⟩)
    · exact Or.inl zero
    · exact Or.inr ⟨r, Nat.lt_succ_of_lt hr', rest⟩
  · rintro (zero | ⟨r, hr', rest⟩)
    · exact Or.inl zero
    · refine Or.inr ⟨r, ?_, rest⟩
      rcases Nat.lt_succ_iff_lt_or_eq.mp hr' with lt | rfl
      · exact lt
      · exact absurd rest.1.2 out

theorem checkPtbr_stopped (out : (s.procs p).state ≠ .running) : checkPtbr s acc p = .ok acc :=
  if_neg out

theorem checkPtbr_running (state : (s.procs p).state = .running) : checkPtbr s acc p = .ok acc' ↔
    0 < (s.procs p).savedPtbr ∧ (s.procs p).savedPtbr < numFrames ∧
      s.fte (s.procs p).savedPtbr .isProtected ≠ 0 ∧ acc' = mark acc (s.procs p).savedPtbr := by
  rw [checkPtbr, if_pos state]
  simp only [check_ok, panicIf_ok, inFrames_ok]
  constructor
  · rintro ⟨range, locked, inside, last⟩
    exact ⟨by omega, inside, locked, (Except.ok.inj last).symm⟩
  · rintro ⟨pos, inside, locked, rfl⟩
    exact ⟨by omega, locked, inside, rfl⟩

theorem checkPtbr_pass (hp : p < maxPid) (before : TablesMarked s p acc) (ok : TableOk s p) :
    ∃ acc', checkPtbr s acc p = .ok acc' ∧ TablesMarked s (p + 1) acc' := by
  by_cases state : (s.procs p).state = .running
  · obtain ⟨pos, inside, locked⟩ := ok ⟨hp, state⟩
    exact ⟨_, (checkPtbr_running state).mpr ⟨pos, inside, locked, rfl⟩, before.running ⟨hp, state⟩⟩
  · exact ⟨acc, checkPtbr_stopped state, before.stopped state⟩

theorem checkPtbr_refuse (ok : checkPtbr s acc p = .ok acc') : TableOk s p := by
  intro hp
  obtain ⟨pos, inside, locked, _⟩ := (checkPtbr_running hp.2).mp ok
  exact ⟨pos, inside, locked⟩

/-! ## The second scan -/

/-- The pages that the second scan has seen: those of the pids below `k`, and
the first `n` of `k` itself. -/
def Seen (k n p v : Nat) : Prop := p < k ∧ v < numPages ∨ p = k ∧ v < n

theorem Seen.lt {k n p v : Nat} (h : Seen k n p v) (hn : n ≤ numPages) : v < numPages := by
  rcases h with ⟨_, hv⟩ | ⟨_, hv⟩
  · exact hv
  · exact Nat.lt_of_lt_of_le hv hn

theorem seen_succ {k n p v : Nat} : Seen k (n + 1) p v ↔ Seen k n p v ∨ p = k ∧ v = n := by
  simp only [Seen]
  omega

theorem seen_all {k p v : Nat} : Seen k numPages p v ↔ Seen (k + 1) 0 p v := by
  simp only [Seen]
  omega

/-- The frames that the second scan marks for the pages it has seen. -/
def PagesMarked (s : VM) (k n : Nat) (acc : Nat → Bool) : Prop :=
  ∀ f, acc f = true ↔ ∃ p v, Seen k n p v ∧ s.Running p ∧ s.entry p v .valid ≠ 0 ∧
    s.entry p v .pfn = f

theorem PagesMarked.none (s : VM) : PagesMarked s 0 0 (fun _ => false) := by
  intro f
  simp [Seen]

theorem PagesMarked.valid (before : PagesMarked s p v acc) (hp : s.Running p)
    (valid : s.entry p v .valid ≠ 0) :
    PagesMarked s p (v + 1) (mark acc (s.entry p v .pfn)) := by
  intro f
  rw [mark_iff, before]
  simp only [seen_succ]
  constructor
  · rintro (rfl | ⟨r, w, seen, rest⟩)
    · exact ⟨p, v, Or.inr ⟨rfl, rfl⟩, hp, valid, rfl⟩
    · exact ⟨r, w, Or.inl seen, rest⟩
  · rintro ⟨r, w, seen | ⟨rfl, rfl⟩, rest⟩
    · exact Or.inr ⟨r, w, seen, rest⟩
    · exact Or.inl rest.2.2.symm

theorem PagesMarked.invalid (before : PagesMarked s p v acc) (invalid : s.entry p v .valid = 0) :
    PagesMarked s p (v + 1) acc := by
  intro f
  rw [before]
  simp only [seen_succ]
  constructor
  · exact fun ⟨r, w, seen, rest⟩ => ⟨r, w, Or.inl seen, rest⟩
  · rintro ⟨r, w, seen | ⟨rfl, rfl⟩, rest⟩
    · exact ⟨r, w, seen, rest⟩
    · exact absurd invalid rest.2.1

theorem PagesMarked.stopped (before : PagesMarked s p 0 acc) (out : (s.procs p).state ≠ .running) :
    PagesMarked s (p + 1) 0 acc := by
  intro f
  rw [before]
  constructor
  · rintro ⟨r, w, seen, rest⟩
    refine ⟨r, w, ?_, rest⟩
    simp only [Seen] at seen ⊢
    omega
  · rintro ⟨r, w, seen, rest⟩
    refine ⟨r, w, ?_, rest⟩
    have other : r ≠ p := by
      rintro rfl
      exact out rest.1.2
    simp only [Seen] at seen ⊢
    omega

theorem PagesMarked.next (before : PagesMarked s p numPages acc) : PagesMarked s (p + 1) 0 acc := by
  intro f
  rw [before]
  simp only [seen_all]

/-- No page seen so far is in the frame of this one. -/
def Unshared (s : VM) (p v : Nat) : Prop :=
  ∀ r w, Seen p v r w → s.Running r → s.entry r w .valid ≠ 0 → s.entry r w .pfn ≠ s.entry p v .pfn

/-- What `check_validity` wants of entry `v` of `p`. -/
structure EntryOk (s : VM) (p v : Nat) : Prop where
  valid : s.entry p v .valid ≤ 1
  dirty : s.entry p v .dirty ≤ 1
  maps : s.entry p v .valid ≠ 0 → Maps (HasPid s) s p v
  unshared : s.entry p v .valid ≠ 0 → Unshared s p v
  queued : s.entry p v .sid ≠ 0 → Queued s.swap.heap (s.entry p v .sid) s.swap.head

/-- After the first scan the marks are the protected frames. -/
def Agree (s : VM) (marks : Nat → Bool) : Prop :=
  ∀ f < numFrames, marks f = true ↔ s.fte f .isProtected ≠ 0

/-- Only pointers into `procs` are followed. -/
theorem pcb_ok {ptr x : Nat} {F : PcbField} (read : s.pcb ptr F = .ok x) :
    procsBase ≤ ptr ∧ ptr < procsBase + pcbSize * maxPid := by
  unfold pcb at read
  split at read
  · cases read
  · split at read
    · assumption
    · cases read

theorem checkMapping_ok (agree : Agree s marks) (before : PagesMarked s p v acc) :
    checkMapping s marks p v (pteAddr (s.procs p).savedPtbr v) acc = .ok acc' ↔
      Maps (HasPid s) s p v ∧ Unshared s p v ∧ acc' = mark acc (s.entry p v .pfn) := by
  have pfn : s.pte (pteAddr (s.procs p).savedPtbr v) .pfn = s.entry p v .pfn := rfl
  have new : ¬acc (s.entry p v .pfn) = true ↔ Unshared s p v := by
    rw [before]
    constructor
    · exact fun none r w seen hr valid same => none ⟨r, w, seen, hr, valid, same⟩
    · rintro unshared ⟨r, w, seen, hr, valid, same⟩
      exact unshared r w seen hr valid same
  rw [checkMapping]
  simp only [pfn, check_ok, panicIf_ok, inFrames_ok, new, bind_ok (α := Nat)]
  constructor
  · rintro ⟨range, inside, unmarked, unshared, _, mapped, q, owner, pid, vpn, last⟩
    obtain rfl : q = p := not_not.mp pid
    refine ⟨⟨by omega, inside, ?_, mapped, owner, not_not.mp vpn⟩, unshared,
      (Except.ok.inj last).symm⟩
    by_contra locked
    exact unmarked ((agree _ inside).mpr locked)
  · rintro ⟨maps, unshared, rfl⟩
    have pos := maps.pos
    have inside := maps.lt
    have range : ¬(s.fte (s.entry p v .pfn) .process < procsBase ∨
        s.fte (s.entry p v .pfn) .process ≥ procsBase + pcbSize * maxPid) := by
      have within := pcb_ok maps.owner
      omega
    refine ⟨by omega, inside, ?_, unshared, range, maps.mapped, p, maps.owner,
      not_not.mpr rfl, not_not.mpr maps.vpn, rfl⟩
    rw [agree _ inside]
    exact not_not.mpr maps.unprotected

theorem checkSwapEntry_ok : checkSwapEntry s (pteAddr (s.procs p).savedPtbr v) = .ok () ↔
    (s.entry p v .sid ≠ 0 → Queued s.swap.heap (s.entry p v .sid) s.swap.head) := by
  have sid : s.pte (pteAddr (s.procs p).savedPtbr v) .sid = s.entry p v .sid := rfl
  rw [checkSwapEntry, sid]
  by_cases saved : s.entry p v .sid = 0
  · rw [if_neg (not_not.mpr saved)]
    exact ⟨fun _ ne => absurd saved ne, fun _ => rfl⟩
  · rw [if_pos saved, ← swapQueueFind_iff, bind_ok]
    simp only [panicIf_ok]
    constructor
    · rintro ⟨found, search, some⟩ _
      obtain ⟨b, rfl⟩ := Option.ne_none_iff_exists'.mp some
      exact ⟨b, search⟩
    · intro queued
      obtain ⟨b, search⟩ := queued saved
      exact ⟨some b, search, nofun⟩

/-- The swap test comes after the marks have been made, and leaves them. -/
theorem swap_after {marked : Except Fault (Nat → Bool)} :
    (do
      let accounted ← marked
      checkSwapEntry s (pteAddr (s.procs p).savedPtbr v)
      pure accounted) = .ok acc' ↔
    marked = .ok acc' ∧ (s.entry p v .sid ≠ 0 →
    Queued s.swap.heap (s.entry p v .sid) s.swap.head) := by
  simp only [bind_ok (α := Nat → Bool), check_ok, checkSwapEntry_ok]
  constructor
  · rintro ⟨accounted, run, queued, last⟩
    obtain rfl := Except.ok.inj last
    exact ⟨run, queued⟩
  · rintro ⟨run, queued⟩
    exact ⟨acc', run, queued, rfl⟩

theorem checkEntry_ok (inside : (s.procs p).savedPtbr < numFrames) (hv : v < numPages)
    (agree : Agree s marks) (before : PagesMarked s p v acc) :
    checkEntry s marks p acc v = .ok acc' ↔
      EntryOk s p v ∧
        acc' = if s.entry p v .valid ≠ 0 then mark acc (s.entry p v .pfn) else acc := by
  have valid : s.pte (pteAddr (s.procs p).savedPtbr v) .valid = s.entry p v .valid := rfl
  have dirty : s.pte (pteAddr (s.procs p).savedPtbr v) .dirty = s.entry p v .dirty := rfl
  have bit : ∀ x, ¬(x ≠ 0 ∧ x ≠ 1) ↔ x ≤ 1 := by omega
  rw [checkEntry, entryAt_eq inside hv, bind_ok]
  simp only [Except.ok.injEq, exists_eq_left', check_ok, panicIf_ok, valid, dirty, bit]
  by_cases here : s.entry p v .valid = 0
  · rw [if_neg (not_not.mpr here), if_neg (not_not.mpr here), swap_after]
    constructor
    · rintro ⟨small, clean, last, queued⟩
      exact ⟨⟨small, clean, fun ne => absurd here ne, fun ne => absurd here ne, queued⟩,
        (Except.ok.inj last).symm⟩
    · rintro ⟨ok, rfl⟩
      exact ⟨ok.valid, ok.dirty, rfl, ok.queued⟩
  · rw [if_pos here, if_pos here, swap_after, checkMapping_ok agree before]
    constructor
    · rintro ⟨small, clean, ⟨maps, unshared, last⟩, queued⟩
      exact ⟨⟨small, clean, fun _ => maps, fun _ => unshared, queued⟩, last⟩
    · rintro ⟨ok, last⟩
      exact ⟨ok.valid, ok.dirty, ⟨ok.maps here, ok.unshared here, last⟩, ok.queued⟩

/-- The marks that the scan of `p`'s page table leaves. -/
theorem checkPageTable_pass (tables : ∀ r < maxPid, TableOk s r) (agree : Agree s marks)
    (hp : p < maxPid) (before : PagesMarked s p 0 acc)
    (ok : s.Running p → ∀ v < numPages, EntryOk s p v) :
    ∃ acc', checkPageTable s marks acc p = .ok acc' ∧ PagesMarked s (p + 1) 0 acc' := by
  by_cases state : (s.procs p).state = .running
  · have running : s.Running p := ⟨hp, state⟩
    have inside := (tables p hp running).2.1
    rw [checkPageTable, if_pos state]
    obtain ⟨acc', run, after⟩ := foldlM_range (f := checkEntry s marks p) (PagesMarked s p) before
      fun v acc hv before => by
        refine ⟨_, (checkEntry_ok inside hv agree before).mpr ⟨ok running v hv, rfl⟩, ?_⟩
        by_cases here : s.entry p v .valid = 0
        · rw [if_neg (not_not.mpr here)]
          exact before.invalid here
        · rw [if_pos here]
          exact before.valid running here
    exact ⟨acc', run, after.next⟩
  · exact ⟨acc, if_neg state, before.stopped state⟩

theorem checkPageTable_refuse (tables : ∀ r < maxPid, TableOk s r) (agree : Agree s marks)
    (hp : p < maxPid) (before : PagesMarked s p 0 acc)
    (run : checkPageTable s marks acc p = .ok acc') :
    s.Running p → ∀ v < numPages, EntryOk s p v := by
  intro running
  have inside := (tables p hp running).2.1
  rw [checkPageTable, if_pos running.2] at run
  refine foldlM_range_holds (PagesMarked s p) before ?_ ?_ run
  · intro v acc hv before ok
    refine ⟨_, (checkEntry_ok inside hv agree before).mpr ⟨ok, rfl⟩, ?_⟩
    by_cases here : s.entry p v .valid = 0
    · rw [if_neg (not_not.mpr here)]
      exact before.invalid here
    · rw [if_pos here]
      exact before.valid running here
  · intro v acc acc' hv before run
    exact ((checkEntry_ok inside hv agree before).mp run).1

/-! ## The whole check -/

/-- No two valid entries share a frame if none shares one with an entry before it. -/
theorem unshared_all (ok : ∀ p < maxPid, s.Running p → ∀ v < numPages, s.entry p v .valid ≠ 0 →
    Unshared s p v)
    {r w : Nat} (hp : s.Running p) (hv : v < numPages) (hr : s.Running r) (hw : w < numPages)
    (validp : s.entry p v .valid ≠ 0) (validr : s.entry r w .valid ≠ 0)
    (same : s.entry p v .pfn = s.entry r w .pfn) :
    p = r ∧ v = w := by
  have orders : Seen p v r w ∨ Seen r w p v ∨ p = r ∧ v = w := by
    simp only [Seen]
    omega
  rcases orders with before | after | here
  · exact absurd same.symm (ok p hp.1 hp v hv validp r w before hr validr)
  · exact absurd same (ok r hr.1 hr w hw validr p v after hp validp)
  · exact here

theorem checkProtected_ok : checkProtected s marks f = .ok () ↔
    (s.fte f .isProtected ≠ 0 → marks f = true) := by
  rw [checkProtected, panicIf_ok]
  cases marks f <;> simp

theorem checkMapped_ok : checkMapped s marks f = .ok () ↔
    (s.fte f .isProtected = 0 → s.fte f .mapped ≠ 0 → marks f = true) := by
  rw [checkMapped, panicIf_ok]
  cases marks f <;> simp

/-- The four scans, one after the other. -/
theorem checkValidity_scans : checkValidity 1 s = .ok () ↔ s.fte 0 .isProtected ≠ 0 ∧
    ∃ marks, (List.range maxPid).foldlM (checkPtbr s) (mark (fun _ => false) 0) = .ok marks ∧
      (∀ f < numFrames, s.fte f .isProtected ≠ 0 → marks f = true) ∧
      ∃ mapped, (List.range maxPid).foldlM (checkPageTable s marks) (fun _ => false) = .ok mapped ∧
        ∀ f < numFrames, s.fte f .isProtected = 0 → s.fte f .mapped ≠ 0 → mapped f = true := by
  simp only [checkValidity, Nat.lt_irrefl, if_false, check_ok, panicIf_ok,
    bind_ok (α := Nat → Bool), forM_iff, checkProtected_ok, checkMapped_ok, List.mem_range]

/-- `check_validity(1)` returns for the valid states and no others, where the owner of a
frame is any place in `procs` where the pid of the page table's process is read. -/
theorem checkValidity_iff : checkValidity 1 s = .ok () ↔ Valid (HasPid s) s := by
  have first : ∀ k acc, k < maxPid → TablesMarked s k acc → TableOk s k →
      ∃ acc', checkPtbr s acc k = .ok acc' ∧ TablesMarked s (k + 1) acc' :=
        fun k acc hk => checkPtbr_pass hk
  rw [checkValidity_scans]
  constructor
  · rintro ⟨zero, marks, scan, locked, mapped, scan', used⟩
    have tables : ∀ p < maxPid, TableOk s p :=
      foldlM_range_holds (TablesMarked s) (TablesMarked.none s) first
        (fun p _ _ _ _ run => checkPtbr_refuse run) scan
    obtain ⟨_, run, marked⟩ := foldlM_range (f := checkPtbr s) (TablesMarked s)
      (TablesMarked.none s)
      fun p acc hp before => first p acc hp before (tables p hp)
    obtain rfl := Except.ok.inj (scan.symm.trans run)
    have agree : Agree s marks := by
      intro f hf
      refine ⟨fun here => ?_, locked f hf⟩
      rcases (marked f).mp here with rfl | ⟨p, hp, running, rfl⟩
      · exact zero
      · exact (tables p hp running).2.2
    have pages := foldlM_range_holds (C := fun p => s.Running p → ∀ v < numPages, EntryOk s p v)
      (fun p acc => PagesMarked s p 0 acc) (PagesMarked.none s)
      (fun p acc hp before ok => checkPageTable_pass tables agree hp before ok)
      (fun p acc acc' hp before run => checkPageTable_refuse tables agree hp before run) scan'
    obtain ⟨_, run', seen⟩ := foldlM_range (f := checkPageTable s marks)
      (fun p acc => PagesMarked s p 0 acc)
      (PagesMarked.none s) fun p acc hp before =>
        checkPageTable_pass tables agree hp before (pages p hp)
    obtain rfl := Except.ok.inj (scan'.symm.trans run')
    constructor
    · exact zero
    · exact fun p hp => tables p hp.1 hp
    · intro f hf here
      rcases (marked f).mp (locked f hf here) with zero | ⟨p, _, running, table⟩
      · exact Or.inl zero
      · exact Or.inr ⟨p, running, table⟩
    · exact fun p v hp hv => ⟨(pages p hp.1 hp v hv).valid, (pages p hp.1 hp v hv).dirty⟩
    · exact fun p v hp hv => (pages p hp.1 hp v hv).maps
    · intro p v r w hp hv hr hw
      exact unshared_all (fun p hp running v hv => (pages p hp running v hv).unshared) hp hv hr hw
    · exact fun p v hp hv => (pages p hp.1 hp v hv).queued
    · intro f hf unprotected here
      obtain ⟨p, v, before, running, valid, pfn⟩ := (seen f).mp (used f hf unprotected here)
      refine ⟨p, v, running, ?_, valid, pfn⟩
      rcases before with ⟨_, hv⟩ | ⟨_, none⟩
      · exact hv
      · exact absurd none (Nat.not_lt_zero v)
  · intro good
    have tables : ∀ p < maxPid, TableOk s p := fun p _ running => good.tableFrame p running
    obtain ⟨marks, scan, marked⟩ := foldlM_range (f := checkPtbr s) (TablesMarked s)
      (TablesMarked.none s)
      fun p acc hp before => first p acc hp before (tables p hp)
    have agree : Agree s marks := by
      intro f hf
      rw [marked]
      constructor
      · rintro (rfl | ⟨p, hp, running, rfl⟩)
        · exact good.frameZero
        · exact (tables p hp running).2.2
      · intro here
        rcases good.protectedFrame f hf here with zero | ⟨p, running, table⟩
        · exact Or.inl zero
        · exact Or.inr ⟨p, running.1, running, table⟩
    have pages : ∀ p < maxPid, s.Running p → ∀ v < numPages, EntryOk s p v := by
      intro p hp running v hv
      obtain ⟨small, clean⟩ := good.bits p v running hv
      refine ⟨small, clean, good.mapping p v running hv, ?_, good.swapEntry p v running hv⟩
      intro valid r w before hr valid' same
      obtain ⟨rfl, rfl⟩ := good.noSharing r w p v hr (before.lt hv.le) running hv valid' valid same
      simp only [Seen] at before
      omega
    obtain ⟨mapped, scan', seen⟩ := foldlM_range (f := checkPageTable s marks)
      (fun p acc => PagesMarked s p 0 acc)
      (PagesMarked.none s) fun p acc hp before =>
        checkPageTable_pass tables agree hp before (pages p hp)
    refine ⟨good.frameZero, marks, scan, fun f hf => (agree f hf).mpr, mapped, scan', ?_⟩
    intro f hf unprotected here
    obtain ⟨p, v, running, hv, valid, pfn⟩ := good.mappedFrame f hf unprotected here
    exact (seen f).mpr ⟨p, v, Or.inl ⟨running.1, hv⟩, running, valid, pfn⟩

/-! ## The owners -/

/-- Some valid entry's frame does not point to the process of the page table, though that
process's pid is read where it points. -/
def Misowned (s : VM) : Prop :=
  ∃ p v, s.Running p ∧ v < numPages ∧ s.entry p v .valid ≠ 0 ∧
    s.fte (s.entry p v .pfn) .process ≠ pcbPtr p ∧
    s.pcb (s.fte (s.entry p v .pfn) .process) .pid = .ok p

theorem Maps.congr {owner owner' : Nat → Nat → Prop} (maps : Maps owner s p v)
    (same : owner (s.fte (s.entry p v .pfn) .process) p →
    owner' (s.fte (s.entry p v .pfn) .process) p) :
    Maps owner' s p v :=
  ⟨maps.pos, maps.lt, maps.unprotected, maps.mapped, same maps.owner, maps.vpn⟩

theorem Valid.congr {owner owner' : Nat → Nat → Prop} (good : Valid owner s)
    (same : ∀ p v, s.Running p → v < numPages → s.entry p v .valid ≠ 0 → Maps owner s p v →
      Maps owner' s p v) :
    Valid owner' s :=
  { good with
    mapping := fun p v hp hv valid => same p v hp hv valid (good.mapping p v hp hv valid) }

theorem Valid.hasPid (good : Valid IsPcb s) (pids : ∀ p, s.Running p → (s.procs p).pid = p) :
    Valid (HasPid s) s := by
  refine good.congr fun p v hp hv _ maps => maps.congr fun (owner : _ = _) => ?_
  have narrow : p % 2 ^ 32 = p := Nat.mod_eq_of_lt (Nat.lt_trans hp.1 (by decide))
  rw [HasPid, owner, pcb_pid hp.1, pids p hp, narrow]

theorem Valid.isPcb (good : Valid (HasPid s) s) (own : ¬Misowned s) : Valid IsPcb s := by
  refine good.congr fun p v hp hv valid maps => maps.congr fun read => ?_
  by_contra other
  exact own ⟨p, v, hp, hv, valid, other, read⟩

theorem Valid.not_misowned (good : Valid IsPcb s) : ¬Misowned s := by
  rintro ⟨p, v, hp, hv, valid, other, _⟩
  exact other (good.mapping p v hp hv valid).owner

/-! ## The indices -/

/-- The first scan, with the index into the frame table and the marker array tested as it is
made. -/
def checkPtbrIndexed (s : VM) (accounted : Nat → Bool) (pid : Nat) : Except Fault (Nat → Bool) := do
  if (s.procs pid).state = .running then
    let foundPtbr := (s.procs pid).savedPtbr
    panicIf (foundPtbr ≤ 0 ∨ foundPtbr > numFrames)
      "PTBR of running process cannot be zero or >= the number of frames in the system"
    inFrames foundPtbr
    panicIf (s.fte foundPtbr .isProtected = 0)
      "Frames corresponding to the page tables of running processes must be marked as protected"
    return mark accounted foundPtbr
  else return accounted

/-- `check_validity(1)` with every index into the three arrays tested as it is made. The tests
of an entry already do so. -/
def checkValidityIndexed (s : VM) : Except Fault Unit := do
  inFrames 0
  panicIf (s.fte 0 .isProtected = 0) "Frame 0 should be marked as protected"
  let protectedFrames ← (List.range maxPid).foldlM (checkPtbrIndexed s) (mark (fun _ => false) 0)
  forM (List.range numFrames) (fun pfn => do
    inFrames pfn
    checkProtected s protectedFrames pfn)
  let mappedFrames ← (List.range maxPid).foldlM (checkPageTable s protectedFrames) (fun _ => false)
  forM (List.range numFrames) (fun pfn => do
    inFrames pfn
    checkMapped s mappedFrames pfn)

/-- The first scan comes to a page table in frame NUM_FRAMES. -/
def TablePast (s : VM) : Prop :=
  s.fte 0 .isProtected ≠ 0 ∧ ∃ p, s.Running p ∧ (s.procs p).savedPtbr = numFrames ∧
    ∀ r < p, TableOk s r

theorem checkPtbrIndexed_ok : checkPtbrIndexed s acc p = .ok acc' ↔
    checkPtbr s acc p = .ok acc' := by
  by_cases state : (s.procs p).state = .running
  · rw [checkPtbrIndexed, checkPtbr, if_pos state, if_pos state]
    simp only [check_ok, panicIf_ok, inFrames_ok]
    tauto
  · rw [checkPtbrIndexed, checkPtbr, if_neg state, if_neg state]

/-- The tests of the indices change nothing else. -/
theorem checkValidityIndexed_ok : checkValidityIndexed s = .ok () ↔ checkValidity 1 s = .ok () := by
  have first : ∀ marks, (List.range maxPid).foldlM (checkPtbrIndexed s) (mark (fun _ => false) 0) =
    .ok marks ↔
      (List.range maxPid).foldlM (checkPtbr s) (mark (fun _ => false) 0) = .ok marks :=
    fun marks => foldlM_ok_congr fun _ _ _ => checkPtbrIndexed_ok
  have zero : (0 : Nat) < numFrames := by decide
  rw [checkValidity_scans, checkValidityIndexed]
  simp only [check_ok, panicIf_ok, inFrames_ok, bind_ok (α := Nat → Bool), forM_iff,
    checkProtected_ok, checkMapped_ok, List.mem_range, first, zero, true_and]
  constructor
  · rintro ⟨locked, marks, run, tables, mapped, run', pages⟩
    exact ⟨locked, marks, run, fun f hf => (tables f hf).2, mapped, run', fun f hf =>
      (pages f hf).2⟩
  · rintro ⟨locked, marks, run, tables, mapped, run', pages⟩
    exact ⟨locked, marks, run, fun f hf => ⟨hf, tables f hf⟩, mapped, run', fun f hf =>
      ⟨hf, pages f hf⟩⟩

theorem TablePast.outside (past : TablePast s) : checkValidityIndexed s = .error .outOfBounds := by
  obtain ⟨zero, p, running, table, before⟩ := past
  have scan : (List.range maxPid).foldlM (checkPtbrIndexed s) (mark (fun _ => false) 0) =
      .error .outOfBounds := by
    refine foldlM_range_stops (TablesMarked s) running.1 (TablesMarked.none s) ?_ ?_
    · intro r acc hr marked
      obtain ⟨acc', run, after⟩ := checkPtbr_pass (Nat.lt_trans hr running.1) marked (before r hr)
      exact ⟨acc', checkPtbrIndexed_ok.mpr run, after⟩
    · intro acc _
      have range : ¬(numFrames ≤ 0 ∨ numFrames > numFrames) := by decide
      rw [checkPtbrIndexed, if_pos running.2, table]
      simp only [panicIf, if_neg range, inFrames, if_neg (Nat.lt_irrefl numFrames)]
      rfl
  have locked : panicIf (s.fte 0 .isProtected = 0) "Frame 0 should be marked as protected" =
    .ok () := panicIf_ok.mpr zero
  rw [checkValidityIndexed, locked, scan]
  rfl

theorem panicIf_inside {c : Prop} [Decidable c] {message : String} :
    panicIf c message ≠ .error .outOfBounds := by
  unfold panicIf
  split <;> exact nofun

theorem inFrames_inside (inside : f < numFrames) : inFrames f ≠ .error .outOfBounds := by
  rw [inFrames_ok.mpr inside]
  exact nofun

theorem pcb_inside {ptr : Nat} {F : PcbField} : s.pcb ptr F ≠ .error .outOfBounds := by
  unfold pcb
  split
  · exact nofun
  · split <;> exact nofun

theorem searchFrom_inside {heap : Heap SwapEntry} {sid n : Nat} {prev curr : Option Nat} :
    searchFrom heap sid n prev curr ≠ .error .outOfBounds := by
  induction n generalizing prev curr with
  | zero =>
    intro run
    cases curr <;> cases run
  | succ n ih =>
    cases curr with
    | none =>
      intro run
      cases run
    | some c =>
      rw [searchFrom]
      cases heap.read c with
      | none =>
      intro run
      cases run
      | some e =>
        simp only
        split
        · intro run
          cases run
        · exact ih

theorem checkMapping_inside {entry : Nat} :
    checkMapping s marks p v entry acc ≠ .error .outOfBounds := by
  intro run
  rw [checkMapping] at run
  simp only [check_error, panicIf_inside, false_or, panicIf_ok, bind_error (α := Nat),
    pcb_inside] at run
  obtain ⟨range, outside | ⟨-, -, -, -, -, q, -, -, -, last⟩⟩ := run
  · exact inFrames_inside (by omega) outside
  · cases last

theorem checkSwapEntry_inside {entry : Nat} : checkSwapEntry s entry ≠ .error .outOfBounds := by
  intro run
  rw [checkSwapEntry] at run
  split at run
  · rcases bind_error.mp run with search | ⟨found, _, missing⟩
    · rcases bind_error.mp search with walk | ⟨_, _, last⟩
      · exact searchFrom_inside walk
      · cases last
    · exact panicIf_inside missing
  · cases run

theorem checkPageTable_inside (ok : TableOk s p) (hp : p < maxPid) :
    checkPageTable s marks acc p ≠ .error .outOfBounds := by
  intro run
  unfold checkPageTable at run
  split at run
  · rename_i state
    obtain ⟨v, hv, acc', _, fails⟩ := foldlM_range_error run
    have inside := (ok ⟨hp, state⟩).2.1
    rw [checkEntry, entryAt_eq inside hv] at fails
    simp only [bind_error (α := Nat), reduceCtorEq, false_or, Except.ok.injEq, exists_eq_left',
      check_error, panicIf_inside] at fails
    obtain ⟨-, -, fails⟩ := fails
    split at fails
    · rcases bind_error.mp fails with mapping | ⟨_, _, swap⟩
      · exact checkMapping_inside mapping
      · rcases check_error.mp swap with swap | ⟨_, last⟩
        · exact checkSwapEntry_inside swap
        · cases last
    · rcases bind_error.mp fails with last | ⟨_, _, swap⟩
      · cases last
      · rcases check_error.mp swap with swap | ⟨_, last⟩
        · exact checkSwapEntry_inside swap
        · cases last
  · cases run

theorem tables_of_scan {k : Nat} (hk : k ≤ maxPid)
    (scan : (List.range k).foldlM (checkPtbrIndexed s) (mark (fun _ => false) 0) = .ok acc) :
    ∀ r < k, TableOk s r := by
  refine foldlM_range_holds (TablesMarked s) (TablesMarked.none s) ?_ ?_ scan
  · intro r acc hr marked ok
    obtain ⟨acc', run, after⟩ := checkPtbr_pass (by omega) marked ok
    exact ⟨acc', checkPtbrIndexed_ok.mpr run, after⟩
  · exact fun r acc acc' _ _ run => checkPtbr_refuse (checkPtbrIndexed_ok.mp run)

theorem not_outside (safe : ¬TablePast s) : checkValidityIndexed s ≠ .error .outOfBounds := by
  intro run
  rw [checkValidityIndexed] at run
  simp only [check_error, panicIf_inside, false_or, panicIf_ok, bind_error (α := Nat → Bool)] at run
  rcases run with outside | ⟨-, zero, scan | ⟨marks, scan, run⟩⟩
  · exact inFrames_inside (by decide) outside
  · obtain ⟨p, hp, acc, prior, fails⟩ := foldlM_range_error scan
    have before : ∀ r < p, TableOk s r := tables_of_scan hp.le prior
    rw [checkPtbrIndexed] at fails
    split at fails
    · rename_i state
      simp only [check_error, panicIf_inside, false_or, panicIf_ok] at fails
      obtain ⟨range, outside | ⟨-, -, last⟩⟩ := fails
      · refine safe ⟨zero, p, ⟨hp, state⟩, ?_, before⟩
        by_contra other
        exact inFrames_inside (by omega) outside
      · cases last
    · cases fails
  · have tables : ∀ p < maxPid, TableOk s p := tables_of_scan (Nat.le_refl maxPid) scan
    rcases run with locked | ⟨-, scan' | ⟨mapped, scan', used⟩⟩
    · obtain ⟨f, hf, fails⟩ := forM_error locked
      rcases check_error.mp fails with outside | ⟨-, fails⟩
      · exact inFrames_inside (List.mem_range.mp hf) outside
      · exact panicIf_inside fails
    · obtain ⟨p, hp, acc, _, fails⟩ := foldlM_range_error scan'
      exact checkPageTable_inside (tables p hp) hp fails
    · obtain ⟨f, hf, fails⟩ := forM_error used
      rcases check_error.mp fails with outside | ⟨-, fails⟩
      · exact inFrames_inside (List.mem_range.mp hf) outside
      · exact panicIf_inside fails

/-- The indices stay inside exactly if the first scan comes to no page table in frame
NUM_FRAMES. -/
theorem inside_iff : checkValidityIndexed s ≠ .error .outOfBounds ↔ ¬TablePast s :=
  ⟨fun inside past => inside past.outside, not_outside⟩

end

end SystemsProjects.Vm
