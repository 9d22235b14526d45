import SystemsProjects.Vm.Calls
import SystemsProjects.Vm.Progress
import Mathlib.Data.Finset.Card
import Mathlib.Order.Interval.Finset.Nat

/-!
# No page is evicted while memory suffices

As long as the running processes and the pages that they have accessed are fewer than the
frames, every frame is frame 0, or a page table, or one of these pages, or free: the free
ones are as many as are left, however many processes have come and gone.
-/

namespace SystemsProjects.Vm

open VM Loops

/-- The pages that have been accessed since the `proc_init` of their process. -/
def accessedPages : List Moment → Finset (Nat × Nat)
  | [] => ∅
  | m :: h =>
    match m.op with
    | .procInit pid | .procCleanup pid => (accessedPages h).filter fun page => page.1 ≠ pid
    | _ => m.page.elim (accessedPages h) fun page => insert page (accessedPages h)

/-- The accesses that were the first to their page in the lifetime of its process. -/
def firstAccesses : List Moment → Nat
  | [] => 0
  | m :: h => firstAccesses h + m.page.elim 0 fun page => if page ∈ accessedPages h then 0 else 1

def runningProcs (s : VM) : Finset Nat :=
  (Finset.range maxPid).filter fun pid => (s.procs pid).state = .running

/-- The frames that the running processes have a use for. -/
def demand (h : List Moment) (s : VM) : Nat := (runningProcs s).card + (accessedPages h).card

/-- At every moment there are frames for all of them. -/
def Suffices : List Moment → Prop
  | [] => True
  | m :: h => demand (m :: h) m.after ≤ numFrames - 1 ∧ Suffices h

/-- The call asks for a frame, in state `c`. -/
def Moment.Frees (m : Moment) (c : VM) : Prop :=
  match m.op with
  | .procInit pid => c = startPrelude pid m.before
  | .memAccess addr _ _ => c = m.before ∧ ∃ entry, entryAt c.ptbr (vaddrVpn addr) = .ok entry ∧
    c.pte entry .valid = 0
  | _ => False

/-- The victim of `free_frame` is never mapped. -/
def NeverMapped (env : Env) (h : List Moment) : Prop :=
  ∀ m ∈ h, ∀ c v t, m.Frees c → env.select c = .ok (v, t) → t.fte v .mapped = 0

/-- The pages accessed are the pages in memory, and nothing has been written out. -/
structure Resident (env : Env) (h : List Moment) (s : VM) (xs : List Slot) : Prop where
  unsaved : xs = []
  pages : ∀ p w, (p, w) ∈ accessedPages h ↔ s.Running p ∧ w < numPages ∧ s.entry p w .valid ≠ 0
  faults : s.stats.pageFaults = firstAccesses h % 2 ^ 64
  writebacks : s.stats.writebacks = 0
  victims : NeverMapped env h

section

variable {R : Nat → Prop} {env : Env} {s t c : VM} {xs ys : List Slot} {h : List Moment} {op : Op}
  {b : UInt8} {p v f : Nat} {prng : Nat → Nat} {limit : Nat}

theorem mem_runningProcs : p ∈ runningProcs s ↔ s.Running p := by
  simp [runningProcs, VM.Running]

/-! ## Counting frames -/

/-- With no frame free, the tables and the pages in memory take up all but frame 0. -/
theorem Inv.full (inv : Inv s.Running s xs) {pages : Finset (Nat × Nat)}
    (resident : ∀ p w, s.Running p → w < numPages → s.entry p w .valid ≠ 0 → (p, w) ∈ pages)
    (full : NoneFree s) : numFrames - 1 ≤ (runningProcs s).card + pages.card := by
  have cover : Finset.Ico 1 numFrames ⊆ (runningProcs s).image (fun p => (s.procs p).savedPtbr) ∪
      pages.image (fun page => s.entry page.1 page.2 .pfn) := by
    intro f hf
    obtain ⟨pos, inside⟩ := Finset.mem_Ico.mp hf
    rw [Finset.mem_union, Finset.mem_image, Finset.mem_image]
    by_cases unprotected : s.fte f .isProtected = 0
    · obtain ⟨p, w, hp, hw, valid, pfn⟩ :=
        inv.owned inside unprotected (full f ⟨inside, unprotected⟩)
      exact Or.inr ⟨(p, w), resident p w hp hw valid, pfn⟩
    · rcases inv.protectedFrame inside unprotected with zero | ⟨p, hp, table⟩
      · omega
      · exact Or.inl ⟨p, mem_runningProcs.mpr hp, table⟩
  calc numFrames - 1 = (Finset.Ico 1 numFrames).card := (Nat.card_Ico 1 numFrames).symm
    _ ≤ _ := Finset.card_le_card cover
    _ ≤ _ := Finset.card_union_le _ _
    _ ≤ (runningProcs s).card + pages.card :=
      Nat.add_le_add Finset.card_image_le Finset.card_image_le

theorem Resident.free (resident : Resident env h s xs) (inv : Inv s.Running s xs)
    (room : demand h s < numFrames - 1) : ∃ v, freeFrameOf s = some v := by
  cases free : freeFrameOf s with
  | some v => exact ⟨v, rfl⟩
  | none =>
    have full := inv.full (fun p w hp hw valid => (resident.pages p w).mpr ⟨hp, hw, valid⟩)
      (freeFrameOf_none free)
    exact absurd room (Nat.not_lt.mpr full)

/-! ## What the calls count -/

theorem swapFree_stats {a : Nat} (ok : swapFree s a = .ok t) : t.stats = s.stats := by
  obtain ⟨found, _, ok⟩ := bind_ok.mp ok
  cases found with
  | none => cases ok
  | some block =>
    obtain ⟨q, _, last⟩ := bind_ok.mp ok
    rw [← Except.ok.inj last, setPte_stats, setSwap_stats]

theorem forget_stats {a : Nat}
    (ok : (if swapExists s a = true then swapFree s a else pure s) = .ok t) :
    t.stats = s.stats := by
  split at ok
  · exact swapFree_stats ok
  · exact congrArg VM.stats (Except.ok.inj ok).symm

theorem cleanupEntry_stats {base i : Nat} (ok : cleanupEntry base s i = .ok t) :
    t.stats = s.stats := by
  obtain ⟨entry, _, ok⟩ := bind_ok.mp ok
  simp only at ok
  split at ok
  · obtain ⟨-, ok⟩ := check_ok.mp ok
    rw [pure_bind] at ok
    rw [forget_stats ok, setFte_stats, setPte_stats]
  · rw [pure_bind] at ok
    exact forget_stats ok

theorem procCleanup_stats (ok : procCleanup p s = .ok t) : t.stats = s.stats := by
  obtain ⟨u, run, ok⟩ := bind_ok.mp ok
  obtain ⟨-, last⟩ := check_ok.mp ok
  have kept : u.stats = s.stats :=
    foldlM_ok (fun u => u.stats = s.stats) rfl (fun i a b same step =>
      (cleanupEntry_stats step).trans same) run
  rw [← Except.ok.inj last, setFte_stats]
  split
  · rw [setFte_stats, kept]
  · exact kept

theorem clearFrame_stats : (clearFrame v s).stats = s.stats := by
  simp only [clearFrame, setFte_stats]

theorem freeFrame_unmapped {r : Nat × VM} (select : env.select s = .ok (v, c))
    (unmapped : c.fte v .mapped = 0) (ok : freeFrame env s = .ok r) : r = (v, clearFrame v c) := by
  obtain ⟨choice, select', ok⟩ := bind_ok.mp ok
  obtain rfl := Except.ok.inj (select'.symm.trans select)
  obtain ⟨-, ok⟩ := check_ok.mp ok
  rw [if_neg (not_not.mpr unmapped)] at ok
  exact (Except.ok.inj ok).symm

theorem procInit_stats (select : env.select s = .ok (v, c)) (unmapped : c.fte v .mapped = 0)
    (ok : procInit env p s = .ok t) : t.stats = c.stats := by
  obtain ⟨r, free, ok⟩ := bind_ok.mp ok
  rw [freeFrame_unmapped select unmapped free] at ok
  obtain ⟨-, last⟩ := check_ok.mp ok
  rw [← Except.ok.inj last]
  simp only [initTable, setProc_stats, setFte_stats, memset_eq, memcpy_stats, clearFrame_stats]

theorem swapRead_stats {a n : Nat} (ok : swapRead s a n = .ok t) : t.stats = s.stats := by
  obtain ⟨found, _, ok⟩ := bind_ok.mp ok
  cases found with
  | none => cases ok
  | some block =>
    obtain ⟨-, ok⟩ := check_ok.mp ok
    split at ok
    · cases ok
    · rw [← Except.ok.inj ok, memcpy_stats]

theorem mapFrame_stats {a n w : Nat} : (mapFrame a n w s).stats =
    { s.stats with pageFaults := uint64 (s.stats.pageFaults + 1) } := by
  simp only [mapFrame, setStats_stats, setFte_stats, setPte_stats]

theorem pageFault_stats {addr : Nat} (select : env.select s = .ok (v, c))
    (unmapped : c.fte v .mapped = 0) (ok : pageFault env addr s = .ok t) :
    t.stats = { c.stats with pageFaults := uint64 (c.stats.pageFaults + 1) } := by
  obtain ⟨entry, _, ok⟩ := bind_ok.mp ok
  obtain ⟨r, free, ok⟩ := bind_ok.mp ok
  rw [freeFrame_unmapped select unmapped free] at ok
  simp only at ok
  split at ok
  · obtain ⟨u, read, last⟩ := bind_ok.mp ok
    rw [← Except.ok.inj last, mapFrame_stats, swapRead_stats read, clearFrame_stats]
  · obtain ⟨-, ok⟩ := check_ok.mp ok
    rw [pure_bind] at ok
    rw [← Except.ok.inj ok, mapFrame_stats, memset_eq, memcpy_stats, clearFrame_stats]

theorem touch_stats {entry addr : Nat} {access : Char} {data : UInt8}
    (ok : touch entry addr access data s = .ok (b, t)) :
    t.stats = { s.stats with accesses := uint64 (s.stats.accesses + 1) } := by
  unfold touch at ok
  simp only at ok
  split at ok
  · obtain ⟨-, last⟩ := check_ok.mp ok
    rw [← (Prod.mk.inj (Except.ok.inj last)).2, setPte_stats, setStats_stats]
  · split at ok
    · obtain ⟨-, last⟩ := check_ok.mp ok
      rw [← (Prod.mk.inj (Except.ok.inj last)).2, setPte_stats, memset_eq, memcpy_stats,
        setPte_stats, setStats_stats]
    · rw [← (Prod.mk.inj (Except.ok.inj ok)).2, setPte_stats, setStats_stats]

theorem memAccess_stats_hit {addr entry : Nat} {access : Char} {data : UInt8}
    (read : entryAt s.ptbr (vaddrVpn addr) = .ok entry) (valid : s.pte entry .valid ≠ 0)
    (ok : memAccess env addr access data s = .ok (b, t)) :
    t.stats = { s.stats with accesses := uint64 (s.stats.accesses + 1) } := by
  obtain ⟨entry', read', ok⟩ := bind_ok.mp ok
  obtain rfl := Except.ok.inj (read'.symm.trans read)
  simp only [if_neg valid, pure_bind] at ok
  exact touch_stats ok

theorem memAccess_stats_miss {addr entry : Nat} {access : Char} {data : UInt8}
    (read : entryAt s.ptbr (vaddrVpn addr) = .ok entry) (invalid : s.pte entry .valid = 0)
    (select : env.select s = .ok (v, c)) (unmapped : c.fte v .mapped = 0)
    (ok : memAccess env addr access data s = .ok (b, t)) :
    t.stats = { c.stats with
      accesses := uint64 (c.stats.accesses + 1)
      pageFaults := uint64 (c.stats.pageFaults + 1) } := by
  obtain ⟨entry', read', ok⟩ := bind_ok.mp ok
  obtain rfl := Except.ok.inj (read'.symm.trans read)
  simp only [if_pos invalid] at ok
  obtain ⟨u, fault, ok⟩ := bind_ok.mp ok
  rw [touch_stats ok, pageFault_stats select unmapped fault]

/-! ## Free frames are taken first -/

theorem inFrame_none (inv : Inv R s xs) (unmapped : s.fte v .mapped = 0) (p w : Nat) :
    ¬InFrame R s v p w := by
  rintro ⟨hp, hw, valid, rfl⟩
  exact (inv.owns hp hw valid).mapped unmapped

/-- Nothing leaves a frame that is not mapped. -/
theorem Freed.entry_eq (freed : Freed R s xs v t ys) (inv : Inv R s xs)
    (unmapped : s.fte v .mapped = 0) {w : Nat} (hp : R p) (hw : w < numPages) (G : PteField) :
    t.entry p w G = s.entry p w G :=
  freed.kept p w hp hw (inFrame_none inv unmapped p w) G

theorem Resident.not_running (resident : Resident env h s xs) (out : ¬s.Running p) {w : Nat} :
    (p, w) ∉ accessedPages h := fun mem => out ((resident.pages p w).mp mem).1

theorem NeverMapped.cons (before : NeverMapped env h) {m : Moment}
    (unmapped : ∀ c v t, m.Frees c → env.select c = .ok (v, t) → t.fte v .mapped = 0) :
    NeverMapped env (m :: h) := by
  rintro n (_ | ⟨_, mem⟩)
  · exact unmapped
  · exact before n mem

/-! ## What the calls do to the pages in memory -/

/-- A call that neither asks for a frame nor accesses a page. -/
theorem Resident.quiet (resident : Resident env h s xs) {m : Moment} (frees : ∀ c, ¬m.Frees c)
    (page : m.page = none) (kept : ∀ p w, (p, w) ∈ accessedPages (m :: h) ↔ t.Running p ∧ w <
    numPages ∧ t.entry p w .valid ≠ 0)
    (stats : t.stats = s.stats) (slots : ∀ x ∈ ys, x ∈ xs) : Resident env (m :: h) t ys := by
  have empty : ys = [] := by
    refine List.eq_nil_iff_forall_not_mem.mpr fun x mem => ?_
    have old := slots x mem
    rw [resident.unsaved] at old
    exact List.not_mem_nil old
  have faults : firstAccesses (m :: h) = firstAccesses h := by
    rw [firstAccesses, page]
    rfl
  refine ⟨empty, kept, ?_, ?_, resident.victims.cons fun c _ _ call => absurd call (frees c)⟩
  · rw [stats, resident.faults, faults]
  · rw [stats, resident.writebacks]

section

variable (resident : Resident env h s xs) (inv : Inv s.Running s xs)

include resident inv

theorem Resident.started (own : env.select = selectVictimFrame prng limit)
    (out : ¬s.Running p) (effect : Effect env s xs (.procInit p) b t ys)
    (ok : Op.exec env (.procInit p) s = .ok (b, t))
    (enough : demand (⟨s, .procInit p, b, t⟩ :: h) t ≤ numFrames - 1) :
    Resident env (⟨s, .procInit p, b, t⟩ :: h) t ys := by
  cases effect with
  | @started _ v c f _ _ hp _ select hv unprotected usage freed middle started =>
    have procs : f.procs = (startPrelude p s).procs := freed.procs.trans usage.procs
    have running := running_started hp procs started
    have pages : accessedPages (⟨s, .procInit p, 0, t⟩ :: h) = accessedPages h := by
      refine Finset.filter_true_of_mem fun page mem same => ?_
      exact resident.not_running out (w := page.2) (by rw [← same]; exact mem)
    have more : runningProcs t = insert p (runningProcs s) := by
      ext r
      rw [Finset.mem_insert, mem_runningProcs, mem_runningProcs, running]
      exact or_comm
    have room : demand h s < numFrames - 1 := by
      have new : p ∉ runningProcs s := fun mem => out (mem_runningProcs.mp mem)
      rw [demand, pages, more, Finset.card_insert_of_notMem new] at enough
      rw [demand]
      omega
    obtain ⟨i, free⟩ := resident.free inv room
    have free' : freeFrameOf (startPrelude p s) = some i := free
    have chosen := select_free own free'
    obtain ⟨rfl, rfl⟩ := Prod.mk.inj (Except.ok.inj (chosen.symm.trans select))
    have unmapped : (startPrelude p s).fte i .mapped = 0 := (freeFrameOf_some free').2
    have ready : Inv s.Running (startPrelude p s) xs := inv.startPrelude
    obtain ⟨rfl, -⟩ := freed.idle (inFrame_none ready unmapped)
    have unprotectedf : f.fte i .isProtected = 0 := (freed.protected_eq hv).trans unprotected
    have stats : t.stats = s.stats := by
      obtain ⟨u, init, last⟩ := bind_ok.mp ok
      rw [← (Prod.mk.inj (Except.ok.inj last)).2, procInit_stats chosen unmapped init]
      exact setProc_stats _ _ _
    refine ⟨resident.unsaved, ?_, ?_, ?_, resident.victims.cons ?_⟩
    · intro r w
      rw [pages, resident.pages, running]
      constructor
      · rintro ⟨hr, hw, valid⟩
        refine ⟨Or.inl hr, hw, ?_⟩
        rw [started.entry_other middle out unprotectedf hr hw, freed.entry_eq ready unmapped hr hw,
          entry_startPrelude]
        exact valid
      · rintro ⟨hr | rfl, hw, valid⟩
        · rw [started.entry_other middle out unprotectedf hr hw,
            freed.entry_eq ready unmapped hr hw, entry_startPrelude] at valid
          exact ⟨hr, hw, valid⟩
        · exact absurd (started.empty w hw _) valid
    · rw [stats, resident.faults]
      rfl
    · rw [stats, resident.writebacks]
    · rintro c' v' t' rfl select'
      obtain ⟨rfl, rfl⟩ := Prod.mk.inj (Except.ok.inj (chosen.symm.trans select'))
      exact unmapped

theorem Resident.stopped (effect : Effect env s xs (.procCleanup p) b t ys)
    (ok : Op.exec env (.procCleanup p) s = .ok (b, t)) :
    Resident env (⟨s, .procCleanup p, b, t⟩ :: h) t ys := by
  cases effect with
  | @stopped _ m _ hp stopped =>
    have running : (stopEpilogue p m).Running = fun r => s.Running r ∧ r ≠ p := by
      rw [running_stopEpilogue, Running.congr stopped.procs]
    have entry : ∀ r w, s.Running r → r ≠ p → w < numPages →
        (stopEpilogue p m).entry r w .valid = s.entry r w .valid := by
      intro r w hr ne hw
      have table : (s.procs r).savedPtbr ≠ (s.procs p).savedPtbr :=
        fun same => ne (inv.tableInj hr hp same)
      have procs : ((stopEpilogue p m).procs r).savedPtbr = (s.procs r).savedPtbr := by
        simp [stopEpilogue, setProc, ne, stopped.procs]
      rw [VM.entry, procs]
      exact stopped.pte _ w (inv.tablePos hr) hw table _
    have stats : (stopEpilogue p m).stats = s.stats := by
      obtain ⟨u, clean, last⟩ := bind_ok.mp ok
      rw [← (Prod.mk.inj (Except.ok.inj last)).2, stopEpilogue, setProc_stats, setProc_stats,
        procCleanup_stats clean]
    refine resident.quiet (fun c => id) rfl ?_ stats (fun x mem => ((stopped.slots x).mp mem).1)
    intro r w
    rw [running]
    show (r, w) ∈ (accessedPages h).filter (fun page => page.1 ≠ p) ↔ _
    rw [Finset.mem_filter, resident.pages]
    constructor
    · rintro ⟨⟨hr, hw, valid⟩, ne⟩
      exact ⟨⟨hr, ne⟩, hw, (entry r w hr ne hw).trans_ne valid⟩
    · rintro ⟨⟨hr, ne⟩, hw, valid⟩
      exact ⟨⟨hr, hw, (entry r w hr ne hw).symm.trans_ne valid⟩, ne⟩

theorem Resident.aged (effect : Effect env s xs .daemonUpdate b t ys) :
    Resident env (⟨s, .daemonUpdate, b, t⟩ :: h) t ys := by
  cases effect with
  | aged usage =>
    refine resident.quiet (fun c => id) rfl ?_ usage.stats (fun x mem => mem)
    intro r w
    show (r, w) ∈ accessedPages h ↔ _
    rw [resident.pages, Running.congr usage.procs]
    constructor
    · rintro ⟨hr, hw, valid⟩
      exact ⟨hr, hw, (usage.entry inv hr hw (by decide)).trans_ne valid⟩
    · rintro ⟨hr, hw, valid⟩
      exact ⟨hr, hw, (usage.entry inv hr hw (by decide)).symm.trans_ne valid⟩

theorem Resident.accessed {addr : Nat} {access : Char} {data : UInt8}
    (own : env.select = selectVictimFrame prng limit)
    (effect : Effect env s xs (.memAccess addr access data) b t ys)
    (ok : Op.exec env (.memAccess addr access data) s = .ok (b, t))
    (enough : demand (⟨s, .memAccess addr access data, b, t⟩ :: h) t ≤ numFrames - 1) :
    Resident env (⟨s, .memAccess addr access data, b, t⟩ :: h) t ys := by
  cases effect with
  | @accessed p _ _ _ m _ _ _ small cur present middle valid touched =>
    have hw : vaddrVpn addr < numPages := vaddrVpn_lt small
    have procs : t.procs = s.procs := touched.procs.trans (present.procs inv)
    have page : Moment.page ⟨s, .memAccess addr access data, b, t⟩ = some (p, vaddrVpn addr) := by
      simp only [Moment.page, cur.current, Option.map_some]
    have pages : accessedPages (⟨s, .memAccess addr access data, b, t⟩ :: h) =
        insert (p, vaddrVpn addr) (accessedPages h) := by
      rw [accessedPages]
      simp only [page, Option.elim_some]
    have read : entryAt s.ptbr (vaddrVpn addr) =
        .ok (pteAddr (s.procs p).savedPtbr (vaddrVpn addr)) := by
      rw [cur.ptbr]
      exact entryAt_eq (inv.tableLt cur.running) hw
    have after : ∀ r w, s.Running r → w < numPages →
        (t.entry r w .valid ≠ 0 ↔ m.entry r w .valid ≠ 0) := by
      intro r w hr hw'
      rw [touched.entry_eq middle cur.running hw valid hr hw' (by decide) (by decide)]
    cases present with
    | hit here =>
      have old : (p, vaddrVpn addr) ∈ accessedPages h :=
        (resident.pages _ _).mpr ⟨cur.running, hw, here⟩
      have stats := memAccess_stats_hit read here ok
      have firsts : firstAccesses (⟨s, .memAccess addr access data, b, t⟩ :: h) =
          firstAccesses h := by
        simp only [firstAccesses, page, Option.elim_some, if_pos old, Nat.add_zero]
      refine ⟨resident.unsaved, ?_, ?_, ?_, resident.victims.cons ?_⟩
      · intro r w
        rw [pages, Finset.insert_eq_of_mem old, resident.pages, Running.congr procs]
        constructor
        · rintro ⟨hr, hw', valid'⟩
          exact ⟨hr, hw', (after r w hr hw').mpr valid'⟩
        · rintro ⟨hr, hw', valid'⟩
          exact ⟨hr, hw', (after r w hr hw').mp valid'⟩
      · rw [stats, firsts]
        exact resident.faults
      · rw [stats]
        exact resident.writebacks
      · rintro c v u ⟨rfl, entry, read', invalid⟩
        obtain rfl := Except.ok.inj (read.symm.trans read')
        exact absurd invalid here
    | @miss c f _ v _ content invalid select hv unprotected freed loaded backing =>
      have new : (p, vaddrVpn addr) ∉ accessedPages h :=
        fun mem => ((resident.pages _ _).mp mem).2.2 invalid
      have same : runningProcs t = runningProcs s := by
        rw [runningProcs, procs]
        rfl
      have room : demand h s < numFrames - 1 := by
        rw [demand, pages, same, Finset.card_insert_of_notMem new] at enough
        rw [demand]
        omega
      obtain ⟨i, free⟩ := resident.free inv room
      have chosen := select_free own free
      obtain ⟨rfl, rfl⟩ := Prod.mk.inj (Except.ok.inj (chosen.symm.trans select))
      have unmapped : s.fte i .mapped = 0 := (freeFrameOf_some free).2
      obtain ⟨rfl, -⟩ := freed.idle (inFrame_none inv unmapped)
      have stats := memAccess_stats_miss read invalid chosen unmapped ok
      have firsts : firstAccesses (⟨s, .memAccess addr access data, b, t⟩ :: h) =
          firstAccesses h + 1 := by
        simp only [firstAccesses, page, Option.elim_some, if_neg new]
      have unprotectedf : f.fte i .isProtected = 0 := (freed.protected_eq hv).trans unprotected
      have others : ∀ r w, s.Running r → w < numPages → ¬(r = p ∧ w = vaddrVpn addr) →
          m.entry r w .valid = s.entry r w .valid := by
        intro r w hr hw' other
        rw [loaded.entry_other (freed.preserves inv hv) cur.running unprotectedf hr hw' other,
          freed.entry_eq inv unmapped hr hw']
      refine ⟨resident.unsaved, ?_, ?_, ?_, resident.victims.cons ?_⟩
      · intro r w
        rw [pages, Finset.mem_insert, resident.pages, Running.congr procs]
        by_cases here : r = p ∧ w = vaddrVpn addr
        · obtain ⟨rfl, rfl⟩ := here
          exact iff_of_true (Or.inl rfl) ⟨cur.running, hw, (after r _ cur.running hw).mpr valid⟩
        · constructor
          · rintro (same | ⟨hr, hw', valid'⟩)
            · exact absurd (Prod.mk.inj same) here
            · exact ⟨hr, hw', (after r w hr hw').mpr ((others r w hr hw' here).trans_ne valid')⟩
          · rintro ⟨hr, hw', valid'⟩
            exact Or.inr ⟨hr, hw', (others r w hr hw' here).symm.trans_ne
              ((after r w hr hw').mp valid')⟩
      · rw [stats, firsts]
        show uint64 (s.stats.pageFaults + 1) = _
        rw [resident.faults, uint64, Nat.mod_add_mod]
      · rw [stats]
        exact resident.writebacks
      · rintro c v u ⟨rfl, _⟩ select'
        obtain ⟨rfl, rfl⟩ := Prod.mk.inj (Except.ok.inj (chosen.symm.trans select'))
        exact unmapped

end

theorem stats_initial {mem : Bytes.ByteMem} {replacement : Replacement} {check : Bool} :
    (initial mem replacement check).stats = ⟨0, 0, 0⟩ := by
  simp only [initial, systemInit, setFte_stats, memset_eq, memcpy_stats, boot]

theorem resident_initial {mem : Bytes.ByteMem} {replacement : Replacement} {check : Bool} :
    Resident env [] (initial mem replacement check) [] := by
  refine ⟨rfl, fun p w => iff_of_false (Finset.notMem_empty _) fun here => initial_idle p here.1,
    ?_, ?_, ?_⟩
  · rw [stats_initial]
    rfl
  · rw [stats_initial]
  · exact fun m mem => absurd mem List.not_mem_nil

theorem resident_run {mem : Bytes.ByteMem} {replacement : Replacement} {check : Bool}
    (own : env.select = selectVictimFrame prng limit)
    (calls : Calls env (initial mem replacement check) h s) (enough : Suffices h) :
    ∃ xs, Inv s.Running s xs ∧ Resident env h s xs := by
  have step : ∀ h s xs op b t ys, Inv s.Running s xs → (Suffices h → Resident env h s xs) →
    op.Callable s →
      op.exec env s = .ok (b, t) → Effect env s xs op b t ys → Inv t.Running t ys →
      Suffices (⟨s, op, b, t⟩ :: h) → Resident env (⟨s, op, b, t⟩ :: h) t ys := by
    intro h s xs op b t ys inv held callable ok effect _ enough
    have resident := held enough.2
    cases op with
    | procInit p => exact resident.started inv own callable.2 effect ok enough.1
    | contextSwitch p =>
      cases effect
      exact resident.quiet (fun c => id) rfl resident.pages rfl (fun x mem => mem)
    | procCleanup p => exact resident.stopped inv effect ok
    | daemonUpdate => exact resident.aged inv effect
    | memAccess addr access data => exact resident.accessed inv own effect ok enough.1
  have count : ∀ h s xs n, (Suffices h → Resident env h s xs) →
      Suffices h → Resident env h { s with daemonCounter := n } xs := by
    intro h s xs n held enough
    have resident := held enough
    exact ⟨resident.unsaved, resident.pages, resident.faults, resident.writebacks, resident.victims⟩
  obtain ⟨xs, inv, held⟩ := calls.invariant (soundVictims_program own)
    (fun h s xs => Suffices h → Resident env h s xs) (fun _ => resident_initial) count step
  exact ⟨xs, inv, held enough⟩

/-- While memory suffices no page is evicted: `free_frame` never finds its victim mapped, each
page fault is the first access to a page, and nothing is written to the swap space. -/
theorem no_eviction {mem : Bytes.ByteMem} {replacement : Replacement} {check : Bool}
    (own : env.select = selectVictimFrame prng limit)
    (calls : Calls env (initial mem replacement check) h s) (enough : Suffices h) :
    NeverMapped env h ∧ s.stats.pageFaults = firstAccesses h % 2 ^ 64 ∧
      s.stats.writebacks = 0 ∧ s.swap.head = none ∧ s.swap.tail = none ∧ s.swap.size = 0 := by
  obtain ⟨xs, inv, resident⟩ := resident_run own calls enough
  have rep : SwapRep s.swap [] := resident.unsaved ▸ inv.rep
  have head : s.swap.head = none := by
    have chain := rep.chain
    generalize s.swap.head = first at chain
    cases chain
    rfl
  exact ⟨resident.victims, resident.faults, resident.writebacks, head, rep.tail, rep.size⟩

/-! ## The counter -/

/-- The legal runs are runs. -/
theorem Run.calls {init : VM} (run : Run env init h s) : Calls env init h s := by
  induction run with
  | start => exact .start
  | next _ legal ok ih => exact ih.next legal.callable ok

theorem demand_alone (alone : s.Running = fun p => p = 0) (few : (accessedPages h).card ≤ 1) :
    demand h s ≤ numFrames - 1 := by
  have one : runningProcs s = {0} := by
    ext p
    rw [mem_runningProcs, alone, Finset.mem_singleton]
  rw [demand, one, Finset.card_singleton, numFrames_eq]
  omega

/-- A process is started, accesses a page and is stopped. -/
theorem lifetime (run : Run standardEnv zeroed h s) (inv : Inv s.Running s xs)
    (policy : s.replacement = .random) (idle : ∀ p, ¬s.Running p) (enough : Suffices h)
    (none : accessedPages h = ∅) :
    ∃ h' t ys, Run standardEnv zeroed h' t ∧ Inv t.Running t ys ∧ t.replacement = .random ∧
      (∀ p, ¬t.Running p) ∧
      Suffices h' ∧ accessedPages h' = ∅ ∧ firstAccesses h' = firstAccesses h + 1 := by
  obtain ⟨u, zs, effect, a⟩ := alone_start run inv policy idle
  obtain ⟨b, w, vs, effect', a'⟩ := a.access 0 'r' 0 (by decide)
  obtain ⟨t, ys, run', inv', policy', idle'⟩ := a'.stop
  have started : accessedPages (⟨s, .procInit 0, 0, u⟩ :: h) = ∅ := by
    show (accessedPages h).filter _ = ∅
    rw [none, Finset.filter_empty]
  have switched : accessedPages (⟨u, .contextSwitch 0, 0, contextSwitch 0 u⟩ ::
    ⟨s, .procInit 0, 0, u⟩ :: h) = ∅ := started
  have accessed : accessedPages (⟨contextSwitch 0 u, .memAccess 0 'r' 0, b, w⟩ ::
      ⟨u, .contextSwitch 0, 0, contextSwitch 0 u⟩ :: ⟨s, .procInit 0, 0, u⟩ :: h) =
      {(0, vaddrVpn 0)} := by
    show insert (0, vaddrVpn 0) (accessedPages (_ :: _ :: h)) = _
    rw [switched]
    rfl
  have alone : u.Running = fun p => p = 0 := a.alone
  have idle'' : runningProcs t = ∅ := by
    ext p
    rw [mem_runningProcs]
    exact iff_of_false (idle' p) (Finset.notMem_empty p)
  have stopped : accessedPages (⟨w, .procCleanup 0, 0, t⟩ ::
    ⟨contextSwitch 0 u, .memAccess 0 'r' 0, b, w⟩ ::
      ⟨u, .contextSwitch 0, 0, contextSwitch 0 u⟩ :: ⟨s, .procInit 0, 0, u⟩ :: h) = ∅ := by
    show (accessedPages (_ :: _ :: _ :: h)).filter _ = ∅
    rw [accessed]
    rfl
  refine ⟨_, t, ys, run', inv', policy', idle', ⟨?_, ?_, ?_, ?_, enough⟩, stopped, ?_⟩
  · show demand _ t ≤ _
    rw [demand, idle'', stopped]
    exact Nat.zero_le _
  · refine demand_alone a'.alone ?_
    rw [accessed, Finset.card_singleton]
  · refine demand_alone a.alone ?_
    rw [switched]
    exact Nat.zero_le 1
  · refine demand_alone alone ?_
    rw [started]
    exact Nat.zero_le 1
  · show firstAccesses h + 0 + 0 +
      (if (0, vaddrVpn 0) ∈ accessedPages (_ :: _ :: h) then 0 else 1) + 0 = _
    rw [switched, if_neg (Finset.notMem_empty _)]

theorem lifetimes (n : Nat) : ∃ h s xs, Run standardEnv zeroed h s ∧ Inv s.Running s xs ∧
    s.replacement = .random ∧
    (∀ p, ¬s.Running p) ∧ Suffices h ∧ accessedPages h = ∅ ∧ firstAccesses h = n := by
  induction n with
  | zero => exact ⟨[], zeroed, [], .start, inv_initial, rfl, initial_idle, trivial, rfl, rfl⟩
  | succ n ih =>
    obtain ⟨h, s, xs, run, inv, policy, idle, enough, none, count⟩ := ih
    obtain ⟨h', t, ys, run', inv', policy', idle', enough', none', count'⟩ :=
      lifetime run inv policy idle enough none
    exact ⟨h', t, ys, run', inv', policy', idle', enough', none',
      count'.trans (congrArg Nat.succ count)⟩

/-- One process accesses one page. -/
theorem no_eviction_once : ∃ h s, Calls standardEnv zeroed h s ∧ firstAccesses h = 1 ∧
    NeverMapped standardEnv h ∧
    s.stats.pageFaults = 1 ∧ s.stats.writebacks = 0 ∧ s.swap.head = none := by
  obtain ⟨h, s, _, run, _, _, _, enough, _, count⟩ := lifetimes 1
  obtain ⟨victims, faults, writebacks, head, _⟩ := no_eviction standardEnv_own run.calls enough
  exact ⟨h, s, run.calls, count, victims, by rw [faults, count, Nat.mod_eq_of_lt (by decide)],
    writebacks, head⟩

/-- The counter of page faults comes round to 0. -/
theorem faults_wrap : ¬∀ h s, Calls standardEnv zeroed h s → Suffices h →
    s.stats.pageFaults = firstAccesses h := by
  intro claim
  obtain ⟨h, s, _, run, _, _, _, enough, _, count⟩ := lifetimes (2 ^ 64)
  obtain ⟨_, _, resident⟩ := resident_run standardEnv_own run.calls enough
  have wrapped := resident.faults
  rw [claim h s run.calls enough, count, Nat.mod_self] at wrapped
  exact absurd wrapped (by decide)

end

end SystemsProjects.Vm
