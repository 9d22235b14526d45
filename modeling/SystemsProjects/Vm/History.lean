import SystemsProjects.Vm.Calls
import SystemsProjects.Vm.SecondChance
import Mathlib.Algebra.BigOperators.Group.Finset.Basic
import Mathlib.Algebra.BigOperators.Intervals

/-!
# APPROX_LRU keeps a history of eight periods

The referenced bit of a page says whether it has been accessed in the current period, and the
count of its frame has one bit for each of the eight periods before, the last one first. Both
begin when the page is loaded.
-/

namespace SystemsProjects.Vm

open VM Loops

/-- The call brings the page into memory. -/
def Moment.Loads (m : Moment) (page : Nat × Nat) : Prop :=
  m.page = some page ∧ m.before.entry page.1 page.2 .valid = 0

instance (m : Moment) (page : Nat × Nat) : Decidable (m.Loads page) :=
  inferInstanceAs (Decidable (_ ∧ _))

/-- The calls since the page was last loaded, with the one that loaded it. -/
def sinceLoad (page : Nat × Nat) : List Moment → List Moment
  | [] => []
  | m :: h => if m.Loads page then [m] else m :: sinceLoad page h

/-- The calls of one period between the daemon's updates: the current one is 0, the last that
has been completed is 1. -/
def period : List Moment → Nat → List Moment
  | [], _ => []
  | m :: h, 0 => if m.op = .daemonUpdate then [] else m :: period h 0
  | m :: h, j + 1 => if m.op = .daemonUpdate then period h j else period h (j + 1)

/-- The page has been accessed in that period, since it was last loaded. -/
def usedIn (page : Nat × Nat) (h : List Moment) (j : Nat) : Bool :=
  (period (sinceLoad page h) j).any fun m => m.page = some page

/-- The last eight completed periods, the latest of them in the highest bit. -/
def history (page : Nat × Nat) (h : List Moment) : Nat :=
  ∑ j ∈ Finset.range 8, 2 ^ (7 - j) * (usedIn page h (j + 1)).toNat

/-- The page now in frame `f`. -/
def framePage (s : VM) (f : Nat) : Nat × Nat := (frameOwner s f, s.fte f .vpn)

/-- The counts and the referenced bits are what the history says. -/
def Tracked (h : List Moment) (s : VM) : Prop :=
  ∀ p w, s.Running p → w < numPages → s.entry p w .valid ≠ 0 →
    s.fte (s.entry p w .pfn) .refCount = history (p, w) h ∧
    s.entry p w .referenced = (usedIn (p, w) h 0).toNat

section

variable {R : Nat → Prop} {env : Env} {s t c : VM} {xs ys : List Slot} {h : List Moment}
  {m : Moment} {op : Op} {b : UInt8}
  {page : Nat × Nat} {p w v f i j : Nat} {prng : Nat → Nat} {limit : Nat}

/-! ## How the history goes on -/

theorem sinceLoad_daemon (daemon : m.op = .daemonUpdate) :
    sinceLoad page (m :: h) = m :: sinceLoad page h := by
  rw [sinceLoad, if_neg]
  rintro ⟨here, _⟩
  rw [Moment.page, daemon] at here
  cases here

theorem usedIn_daemon_zero (daemon : m.op = .daemonUpdate) : usedIn page (m :: h) 0 = false := by
  rw [usedIn, sinceLoad_daemon daemon, period, if_pos daemon]
  rfl

theorem usedIn_daemon_succ (daemon : m.op = .daemonUpdate) (j : Nat) :
    usedIn page (m :: h) (j + 1) = usedIn page h j := by
  rw [usedIn, sinceLoad_daemon daemon, period, if_pos daemon]
  rfl

theorem usedIn_load_zero (loads : m.Loads page) (daemon : m.op ≠ .daemonUpdate) :
    usedIn page (m :: h) 0 = true := by
  rw [usedIn, sinceLoad, if_pos loads, period, if_neg daemon]
  simp [loads.1]

theorem usedIn_load_succ (loads : m.Loads page) (daemon : m.op ≠ .daemonUpdate) (j : Nat) :
    usedIn page (m :: h) (j + 1) = false := by
  rw [usedIn, sinceLoad, if_pos loads, period, if_neg daemon]
  rfl

theorem usedIn_stay_zero (loads : ¬m.Loads page) (daemon : m.op ≠ .daemonUpdate) :
    usedIn page (m :: h) 0 = (decide (m.page = some page) || usedIn page h 0) := by
  rw [usedIn, sinceLoad, if_neg loads, period, if_neg daemon]
  rfl

theorem usedIn_stay_succ (loads : ¬m.Loads page) (daemon : m.op ≠ .daemonUpdate) (j : Nat) :
    usedIn page (m :: h) (j + 1) = usedIn page h (j + 1) := by
  rw [usedIn, sinceLoad, if_neg loads, period, if_neg daemon]
  rfl

theorem history_stay (loads : ¬m.Loads page) (daemon : m.op ≠ .daemonUpdate) :
    history page (m :: h) = history page h := by
  unfold history
  simp only [usedIn_stay_succ loads daemon]

theorem history_load (loads : m.Loads page) (daemon : m.op ≠ .daemonUpdate) :
    history page (m :: h) = 0 := by
  unfold history
  simp only [usedIn_load_succ loads daemon, Bool.toNat_false, Nat.mul_zero, Finset.sum_const_zero]

theorem history_eq (page : Nat × Nat) (h : List Moment) : history page h =
    128 * (usedIn page h 1).toNat + 64 * (usedIn page h 2).toNat + 32 * (usedIn page h 3).toNat +
    16 * (usedIn page h 4).toNat + 8 * (usedIn page h 5).toNat + 4 * (usedIn page h 6).toNat +
    2 * (usedIn page h 7).toNat + (usedIn page h 8).toNat := by
  simp [history, Finset.sum_range_succ]

/-- The daemon shifts the bits, and the current period comes in at the top. -/
theorem history_daemon (daemon : m.op = .daemonUpdate) :
    history page (m :: h) = ((usedIn page h 0).toNat <<< 7 ||| history page h >>> 1) % 256 := by
  have bit : ∀ j, (usedIn page h j).toNat ≤ 1 := fun j => Bool.toNat_le _
  have shifted : history page (m :: h) = 2 ^ 7 * (usedIn page h 0).toNat + history page h / 2 := by
    have last := bit 8
    have step : ∀ j, usedIn page (m :: h) (j + 1) = usedIn page h j := usedIn_daemon_succ daemon
    rw [history_eq, history_eq, step 0, step 1, step 2, step 3, step 4, step 5, step 6, step 7]
    omega
  have low : history page h / 2 < 2 ^ 7 := by
    have h1 := bit 1
    have h2 := bit 2
    have h3 := bit 3
    have h4 := bit 4
    have h5 := bit 5
    have h6 := bit 6
    have h7 := bit 7
    have h8 := bit 8
    rw [history_eq]
    omega
  have now := bit 0
  rw [Nat.shiftRight_one, ← Nat.shiftLeft_add_eq_or_of_lt low, Nat.shiftLeft_eq, shifted,
    Nat.mul_comm]
  exact (Nat.mod_eq_of_lt (by omega)).symm

/-! ## What the daemon does -/

/-- The frame that page `w` of `p` is in has been aged. -/
def Aged (s : VM) (p w : Nat) (t : VM) : Prop :=
  t.fte (s.entry p w .pfn) .refCount =
      ((s.entry p w .referenced <<< 7) ||| (s.fte (s.entry p w .pfn) .refCount >>> 1)) % 256 ∧
    t.entry p w .referenced = 0

/-- The usage records of the page are as they were. -/
def Unaged (s : VM) (p w : Nat) (t : VM) : Prop :=
  t.fte (s.entry p w .pfn) .refCount = s.fte (s.entry p w .pfn) .refCount ∧
    t.entry p w .referenced = s.entry p w .referenced

theorem ageFrame_aged (inv : Inv R s xs) (inside : i < numFrames) :
    ∃ t, ageFrame s i = .ok t ∧ UsageOnly s t ∧ ∀ p w, R p → w < numPages → s.entry p w .valid ≠ 0 →
      if s.entry p w .pfn = i then Aged s p w t else Unaged s p w t := by
  by_cases used : s.fte i .mapped ≠ 0 ∧ s.fte i .isProtected = 0
  · obtain ⟨p, w, hp, hw, valid, rfl⟩ := inv.owned inside used.2 used.1
    have own := inv.owns hp hw valid
    have positive := inv.tablePos hp
    have entry := entryAt_eq (inv.tableLt hp) hw
    have count := usage_setRefCount (s := s)
      (x := (s.entry p w .referenced <<< 7) ||| (s.fte (s.entry p w .pfn) .refCount >>> 1)) inside
    have locked : (s.setFte (s.entry p w .pfn) .refCount
        ((s.entry p w .referenced <<< 7) ||| (s.fte (s.entry p w .pfn) .refCount >>> 1))).fte
          (s.procs p).savedPtbr .isProtected ≠ 0 := by
      rw [count.fte _ (inv.tableLt hp) _ (by decide)]
      exact inv.tableProtected hp
    refine ⟨_, ?_, count.trans (usage_setReferenced (x := 0) positive hw locked), ?_⟩
    · simp only [ageFrame, if_pos used, own.process, pcb_savedPtbr (inv.pidLt hp) (inv.tableLt hp),
        own.vpn, bind, Except.bind]
      rw [entry]
      rfl
    · intro r x hr hx valid'
      have other := inv.entry_inj hr hx hp hw valid' valid
      split
      · next same =>
        obtain ⟨rfl, rfl⟩ := other same
        constructor
        · rw [fte_setPte inside positive, fte_setFte, if_pos ⟨rfl, rfl⟩]
          rfl
        · rw [VM.entry, setPte_procs, setFte_procs, pte_setPte hx hx, if_pos ⟨rfl, rfl, rfl⟩]
          rfl
      · next apart =>
        have pos' := inv.tablePos hr
        constructor
        · rw [fte_setPte (inv.owns hr hx valid').lt positive, fte_setFte,
            if_neg (fun e => apart e.1)]
        · rw [VM.entry, setPte_procs, setFte_procs, pte_setPte hw hx, if_neg,
            pte_setFte inside pos']
          · rfl
          · rintro ⟨table, rfl, _⟩
            obtain rfl := inv.tableInj hr hp table
            exact apart rfl
  · refine ⟨s, ?_, UsageOnly.refl s, ?_⟩
    · simp only [ageFrame, if_neg used]
      rfl
    · intro p w hp hw valid
      rw [if_neg]
      · exact ⟨rfl, rfl⟩
      · rintro rfl
        have own := inv.owns hp hw valid
        exact used ⟨own.mapped, own.unprotected⟩

/-- The daemon ages every page in memory once. -/
theorem daemonUpdate_aged (inv : Inv R s xs) (ok : daemonUpdate s = .ok t) {p w : Nat} (hp : R p)
    (hw : w < numPages) (valid : s.entry p w .valid ≠ 0) : Aged s p w t := by
  have loop : ∃ u, daemonUpdate s = .ok u ∧ UsageOnly s u ∧
      if s.entry p w .pfn < numFrames then Aged s p w u else Unaged s p w u := by
    refine foldlM_range (fun i u => UsageOnly s u ∧ if s.entry p w .pfn <
      i then Aged s p w u else Unaged s p w u)
      ⟨UsageOnly.refl s, ?_⟩ ?_
    · rw [if_neg (Nat.not_lt_zero _)]
      exact ⟨rfl, rfl⟩
    · rintro i u inside ⟨usage, done⟩
      have same : ∀ G, G ≠ .referenced → u.entry p w G = s.entry p w G :=
        fun G ne => usage.entry inv hp hw ne
      obtain ⟨v, step, more, aged⟩ := ageFrame_aged (usage.inv inv) inside
      have here := aged p w hp hw ((same _ (by decide)).trans_ne valid)
      refine ⟨v, step, usage.trans more, ?_⟩
      simp only [Aged, Unaged, same .pfn (by decide)] at here done ⊢
      rcases Nat.lt_trichotomy (s.entry p w .pfn) i with before | now | after
      · rw [if_pos before] at done
        rw [if_neg before.ne] at here
        rw [if_pos (Nat.lt_succ_of_lt before), here.1, here.2]
        exact done
      · rw [if_neg now.not_lt] at done
        rw [if_pos now, done.1, done.2] at here
        rw [if_pos (Nat.lt_succ_of_le now.le)]
        exact here
      · rw [if_neg (by omega)] at done
        rw [if_neg after.ne', done.1, done.2] at here
        rw [if_neg (by omega)]
        exact here
  obtain ⟨u, ok', _, aged⟩ := loop
  obtain rfl := Except.ok.inj (ok'.symm.trans ok)
  rw [if_pos (inv.owns hp hw valid).lt] at aged
  exact aged

/-! ## What the other calls do -/

/-- A page that the call does not access keeps its records. -/
theorem Tracked.keep (tracked : Tracked h s) (hp : s.Running p) (hw : w < numPages)
    (valid : s.entry p w .valid ≠ 0) (daemon : m.op ≠ .daemonUpdate) (other : m.page ≠ some (p, w))
    (pfn : t.entry p w .pfn = s.entry p w .pfn) (count : t.fte (s.entry p w .pfn) .refCount =
    s.fte (s.entry p w .pfn) .refCount)
    (bit : t.entry p w .referenced = s.entry p w .referenced) :
    t.fte (t.entry p w .pfn) .refCount = history (p, w) (m :: h) ∧
      t.entry p w .referenced = (usedIn (p, w) (m :: h) 0).toNat := by
  have loads : ¬m.Loads (p, w) := fun loads => other loads.1
  obtain ⟨counted, referenced⟩ := tracked p w hp hw valid
  rw [pfn, count, bit, history_stay loads daemon, usedIn_stay_zero loads daemon,
    decide_eq_false other, Bool.false_or]
  exact ⟨counted, referenced⟩

theorem select_approxLru (own : env.select = selectVictimFrame prng limit)
    (policy : s.replacement = .approxLru) (select : env.select s = .ok (v, c)) : c = s := by
  rw [own] at select
  unfold selectVictimFrame at select
  split at select
  · exact (Prod.mk.inj (Except.ok.inj select)).2.symm
  · rw [policy] at select
    exact (Prod.mk.inj (Except.ok.inj select)).2.symm

theorem forget_refCount {a : Nat} (outside : 0 < a)
    (ok : (if swapExists s (pteAddr a w) = true then swapFree s (pteAddr a w) else pure s) = .ok t)
    (inside : f < numFrames) : t.fte f .refCount = s.fte f .refCount := by
  split at ok
  · obtain ⟨found, _, ok⟩ := bind_ok.mp ok
    cases found with
    | none => cases ok
    | some block =>
      obtain ⟨q, _, last⟩ := bind_ok.mp ok
      rw [← Except.ok.inj last, fte_setPte inside outside, setSwap_fte]
  · exact congrArg (fun u => VM.fte u f .refCount) (Except.ok.inj ok).symm

theorem entryAt_ok {base a : Nat} (ok : entryAt base w = .ok a) : a = pteAddr base w := by
  obtain ⟨-, last⟩ := check_ok.mp ok
  exact (Except.ok.inj last).symm

theorem cleanupEntry_refCount {base : Nat} (outside : 0 < base) (ok : cleanupEntry base s i = .ok t)
    (inside : f < numFrames) : t.fte f .refCount = s.fte f .refCount := by
  obtain ⟨entry, read, ok⟩ := bind_ok.mp ok
  obtain rfl := entryAt_ok read
  simp only at ok
  split at ok
  · obtain ⟨-, ok⟩ := check_ok.mp ok
    rw [pure_bind] at ok
    rw [forget_refCount outside ok inside, fte_setFte, if_neg (by simp), fte_setPte inside outside]
  · rw [pure_bind] at ok
    exact forget_refCount outside ok inside

/-- `proc_cleanup` leaves the counts as they are. -/
theorem procCleanup_refCount (outside : 0 < (s.procs p).savedPtbr) (ok : procCleanup p s = .ok t)
    (inside : f < numFrames) : t.fte f .refCount = s.fte f .refCount := by
  obtain ⟨u, run, ok⟩ := bind_ok.mp ok
  obtain ⟨-, last⟩ := check_ok.mp ok
  have kept : u.fte f .refCount = s.fte f .refCount :=
    foldlM_ok (fun u => u.fte f .refCount = s.fte f .refCount) rfl
      (fun i a b same step => (cleanupEntry_refCount outside step inside).trans same) run
  rw [← Except.ok.inj last, fte_setFte, if_neg (by simp)]
  split
  · rw [fte_setFte, if_neg (by simp), kept]
  · exact kept

section

variable (tracked : Tracked h s) (inv : Inv s.Running s xs)

include tracked inv

theorem Tracked.started (own : env.select = selectVictimFrame prng limit)
    (policy : s.replacement = .approxLru) (effect : Effect env s xs (.procInit p) b t ys) :
    Tracked (⟨s, .procInit p, b, t⟩ :: h) t := by
  cases effect with
  | @started _ v c f _ _ hp out select hv unprotected usage freed middle started =>
    have policy' : (startPrelude p s).replacement = .approxLru := policy
    obtain rfl := select_approxLru own policy' select
    have ready : Inv s.Running (startPrelude p s) xs := inv.startPrelude
    have procs : f.procs = (startPrelude p s).procs := freed.procs
    have unprotectedf : f.fte v .isProtected = 0 := (freed.protected_eq hv).trans unprotected
    intro r w hr hw valid
    rw [running_started hp procs started] at hr
    rcases hr with hr | rfl
    · have entry : ∀ G, t.entry r w G = f.entry r w G :=
        started.entry_other middle out unprotectedf hr hw
      obtain ⟨stays, apart⟩ := freed.kept_of_valid hr hw ((entry _).symm.trans_ne valid)
      have same : ∀ G, t.entry r w G = s.entry r w G := by
        intro G
        rw [entry, freed.kept r w hr hw stays, entry_startPrelude]
      have old : s.entry r w .valid ≠ 0 := (same _).symm.trans_ne valid
      rw [entry_startPrelude] at apart
      have inside := (inv.owns hr hw old).lt
      refine tracked.keep hr hw old nofun nofun (same _) ?_ (same _)
      rw [started.fte _ inside apart, freed.fte_other inside apart]
      rfl
    · exact absurd (started.empty w hw _) valid

theorem Tracked.stopped (ok : Op.exec env (.procCleanup p) s = .ok (b, t))
    (effect : Effect env s xs (.procCleanup p) b t ys) :
    Tracked (⟨s, .procCleanup p, b, t⟩ :: h) t := by
  cases effect with
  | @stopped _ n _ hp stopped =>
    obtain ⟨u, clean, last⟩ := bind_ok.mp ok
    have last' : stopEpilogue p u = stopEpilogue p n := (Prod.mk.inj (Except.ok.inj last)).2
    intro r w hr hw valid
    rw [running_stopEpilogue, Running.congr stopped.procs] at hr
    obtain ⟨hr, ne⟩ := hr
    have table : (s.procs r).savedPtbr ≠ (s.procs p).savedPtbr :=
      fun same => ne (inv.tableInj hr hp same)
    have entry : ∀ G, (stopEpilogue p n).entry r w G = s.entry r w G := by
      intro G
      have procs : ((stopEpilogue p n).procs r).savedPtbr = (s.procs r).savedPtbr := by
        simp [stopEpilogue, setProc, ne, stopped.procs]
      rw [VM.entry, procs]
      exact stopped.pte _ w (inv.tablePos hr) hw table _
    have old : s.entry r w .valid ≠ 0 := (entry _).symm.trans_ne valid
    refine tracked.keep hr hw old ?_ ?_ (entry _) ?_ (entry _)
    · intro same
      cases same
    · intro same
      cases same
    · rw [← last', stopEpilogue, setProc_fte, setProc_fte]
      exact procCleanup_refCount (inv.tablePos hp) clean (inv.owns hr hw old).lt

theorem Tracked.aged (ok : Op.exec env .daemonUpdate s = .ok (b, t))
    (effect : Effect env s xs .daemonUpdate b t ys) :
    Tracked (⟨s, .daemonUpdate, b, t⟩ :: h) t := by
  cases effect with
  | aged usage =>
    obtain ⟨u, update, last⟩ := bind_ok.mp ok
    obtain rfl : u = t := (Prod.mk.inj (Except.ok.inj last)).2
    intro p w hp hw valid
    rw [Running.congr usage.procs] at hp
    rw [usage.entry inv hp hw (by decide)] at valid
    obtain ⟨count, bit⟩ := daemonUpdate_aged inv update hp hw valid
    obtain ⟨counted, referenced⟩ := tracked p w hp hw valid
    rw [usage.entry inv hp hw (by decide), count, bit, counted, referenced, history_daemon rfl,
      usedIn_daemon_zero rfl]
    exact ⟨rfl, rfl⟩

theorem Tracked.accessed {addr : Nat} {access : Char} {data : UInt8}
    (own : env.select = selectVictimFrame prng limit) (policy : s.replacement = .approxLru)
    (effect : Effect env s xs (.memAccess addr access data) b t ys) :
    Tracked (⟨s, .memAccess addr access data, b, t⟩ :: h) t := by
  cases effect with
  | @accessed p _ _ _ n _ _ _ small cur present middle valid touched =>
    have hw : vaddrVpn addr < numPages := vaddrVpn_lt small
    have page : Moment.page ⟨s, .memAccess addr access data, b, t⟩ = some (p, vaddrVpn addr) := by
      simp only [Moment.page, cur.current, Option.map_some]
    intro r w hr hw' valid'
    rw [Running.congr (touched.procs.trans (present.procs inv))] at hr
    by_cases here : r = p ∧ w = vaddrVpn addr
    · obtain ⟨rfl, rfl⟩ := here
      have inside := (middle.owns hr hw valid).lt
      rw [touched.entry .pfn nofun nofun, touched.fte _ inside, touched.referenced]
      cases present with
      | hit old =>
        have loads : ¬Moment.Loads ⟨s, .memAccess addr access data, b, t⟩ (r, vaddrVpn addr) :=
          fun loads => old loads.2
        rw [history_stay loads nofun, usedIn_stay_zero loads nofun, decide_eq_true page,
          Bool.true_or]
        exact ⟨(tracked r _ hr hw old).1, rfl⟩
      | miss invalid select hv unprotected freed loaded backing =>
        have loads : Moment.Loads ⟨s, .memAccess addr access data, b, t⟩ (r, vaddrVpn addr) :=
          ⟨page, invalid⟩
        rw [history_load loads nofun, usedIn_load_zero loads nofun, loaded.pfn]
        exact ⟨loaded.refCount, rfl⟩
    · have other : Moment.page ⟨s, .memAccess addr access data, b, t⟩ ≠ some (r, w) := by
        rw [page]
        intro same
        obtain ⟨rfl, rfl⟩ := Prod.mk.inj (Option.some.inj same)
        exact here ⟨rfl, rfl⟩
      have entry : ∀ G, t.entry r w G = n.entry r w G :=
        touched.entry_other middle cur.running hw valid hr hw' here
      rw [entry] at valid'
      have inside := (middle.owns hr hw' valid').lt
      cases present with
      | hit old =>
        exact tracked.keep hr hw' valid' nofun other (entry _) (touched.fte _ inside _) (entry _)
      | @miss c f _ v _ content invalid select hv unprotected freed loaded backing =>
        obtain rfl := select_approxLru own policy select
        have unprotectedf : f.fte v .isProtected = 0 := (freed.protected_eq hv).trans unprotected
        have read : ∀ G, n.entry r w G = f.entry r w G :=
          loaded.entry_other (freed.preserves inv hv) cur.running unprotectedf hr hw' here
        obtain ⟨stays, apart⟩ := freed.kept_of_valid hr hw' ((read _).symm.trans_ne valid')
        have same : ∀ G, t.entry r w G = c.entry r w G := by
          intro G
          rw [entry, read, freed.kept r w hr hw' stays]
        have old : c.entry r w .valid ≠ 0 := ((entry _).symm.trans (same _)).symm.trans_ne valid'
        have inside' := (inv.owns hr hw' old).lt
        refine tracked.keep hr hw' old nofun other (same _) ?_ (same _)
        rw [touched.fte _ inside', loaded.fte _ inside' apart, freed.fte_other inside' apart]

end

theorem tracked_run {mem : Bytes.ByteMem} {check : Bool}
    (own : env.select = selectVictimFrame prng limit)
    (calls : Calls env (initial mem .approxLru check) h s) :
    ∃ xs, Inv s.Running s xs ∧ s.replacement = .approxLru ∧ Tracked h s := by
  refine calls.invariant (soundVictims_program own) (fun h s _ => s.replacement = .approxLru ∧
    Tracked h s) ?_ ?_ ?_
  · refine ⟨rfl, fun p w hp => absurd hp (initial_idle p)⟩
  · exact fun _ _ _ _ held => held
  · rintro h s xs op b t ys inv ⟨policy, tracked⟩ callable ok effect after
    refine ⟨(effect.replacement inv).trans policy, ?_⟩
    cases op with
    | procInit p => exact tracked.started inv own policy effect
    | contextSwitch p =>
      cases effect
      exact fun r w hr hw valid => tracked.keep hr hw valid nofun nofun rfl rfl rfl
    | procCleanup p => exact tracked.stopped inv ok effect
    | daemonUpdate => exact tracked.aged inv ok effect
    | memAccess addr access data => exact tracked.accessed inv own policy effect

/-! ## The victim -/

/-- Of the frames that may be evicted, `v` has the least count, and is the first that has. -/
structure LeastUsed (s : VM) (count : Nat → Nat) (v : Nat) : Prop where
  evictable : Evictable s v
  least : ∀ f, Evictable s f → count v ≤ count f
  first : ∀ f < v, Evictable s f → count v < count f

/-- The loop over frames in rising order ends with what it began with, or with the first of
the least counts. -/
theorem leastReferenced_first {is : List Nat} (rising : is.Pairwise (· < ·)) (best : Nat × Nat) :
    (leastReferenced s is best = best ∧ ∀ f ∈ is, s.fte f .isProtected = 0 → best.1 ≤
    s.fte f .refCount) ∨
    ∃ v ∈ is, s.fte v .isProtected = 0 ∧ leastReferenced s is best = (s.fte v .refCount, v) ∧
      s.fte v .refCount < best.1 ∧ ∀ f ∈ is, s.fte f .isProtected = 0 →
      s.fte v .refCount ≤ s.fte f .refCount ∧
        (f < v → s.fte v .refCount < s.fte f .refCount) := by
  induction is generalizing best with
  | nil => exact Or.inl ⟨rfl, nofun⟩
  | cons i is ih =>
    obtain ⟨above, rising⟩ := List.pairwise_cons.mp rising
    by_cases better : s.fte i .isProtected = 0 ∧ s.fte i .refCount < best.1
    · right
      simp only [leastReferenced, if_pos better]
      rcases ih rising (s.fte i .refCount, i) with ⟨same, least⟩ |
        ⟨v, hv, unprotected, last, less, least⟩
      · refine ⟨i, List.mem_cons_self, better.1, same, better.2, ?_⟩
        rintro f (_ | ⟨_, hf⟩) free
        · exact ⟨Nat.le_refl _, fun before => absurd before (Nat.lt_irrefl i)⟩
        · exact ⟨least f hf free, fun before => absurd (above f hf) (Nat.lt_asymm before)⟩
      · refine ⟨v, List.mem_cons_of_mem i hv, unprotected, last, less.trans better.2, ?_⟩
        rintro f (_ | ⟨_, hf⟩) free
        · exact ⟨less.le, fun _ => less⟩
        · exact least f hf free
    · simp only [leastReferenced, if_neg better]
      have worse : s.fte i .isProtected = 0 → best.1 ≤ s.fte i .refCount :=
        fun free => Nat.le_of_not_lt fun less => better ⟨free, less⟩
      rcases ih rising best with ⟨same, least⟩ | ⟨v, hv, unprotected, last, less, least⟩
      · refine Or.inl ⟨same, ?_⟩
        rintro f (_ | ⟨_, hf⟩) free
        · exact worse free
        · exact least f hf free
      · refine Or.inr ⟨v, List.mem_cons_of_mem i hv, unprotected, last, less, ?_⟩
        rintro f (_ | ⟨_, hf⟩) free
        · exact ⟨(less.trans_le (worse free)).le, fun _ => less.trans_le (worse free)⟩
        · exact least f hf free

/-- With no frame free, a victim that is a frame is the least used. -/
theorem select_leastUsed (policy : s.replacement = .approxLru) (full : NoneFree s)
    (select : selectVictimFrame prng limit s = .ok (v, t)) (inside : v < numFrames) :
    LeastUsed s (fun f => s.fte f .refCount) v := by
  have none : freeFrameOf s = none := by
    cases free : freeFrameOf s with
    | none => rfl
    | some i => exact absurd (freeFrameOf_some free).2 (full i (freeFrameOf_some free).1)
  simp only [selectVictimFrame, none, policy] at select
  have chosen := (Prod.mk.inj (Except.ok.inj select)).1
  rcases leastReferenced_first (s := s) (List.pairwise_lt_range (n := numFrames)) (255, noFrame)
    with
    ⟨same, _⟩ | ⟨i, hi, unprotected, last, _, least⟩
  · rw [same] at chosen
    exact absurd inside (chosen ▸ by decide)
  · rw [last] at chosen
    obtain rfl : i = v := chosen
    refine ⟨⟨inside, unprotected⟩, fun f hf => ?_, fun f before hf => ?_⟩
    · exact (least f (List.mem_range.mpr hf.1) hf.2).1
    · exact (least f (List.mem_range.mpr hf.1) hf.2).2 before

/-- The page in a frame that is in use. -/
theorem Inv.framePage (inv : Inv R s xs) (here : Evictable s f) (mapped : s.fte f .mapped ≠ 0) :
    ∃ p w, R p ∧ w < numPages ∧ s.entry p w .valid ≠ 0 ∧ s.entry p w .pfn = f ∧
      framePage s f = (p, w) ∧
      frameReferenced s f = s.entry p w .referenced := by
  obtain ⟨p, w, hp, hw, valid, rfl⟩ := inv.owned here.1 here.2 mapped
  have own := inv.owns hp hw valid
  refine ⟨p, w, hp, hw, valid, rfl, ?_, ?_⟩
  · rw [Vm.framePage, frameOwner_eq own.process, own.vpn]
  · rw [frameReferenced, frameEntry, frameOwner_eq own.process, own.vpn]
    rfl

theorem Tracked.frame (tracked : Tracked h s) (inv : Inv s.Running s xs) (here : Evictable s f)
    (mapped : s.fte f .mapped ≠ 0) : s.fte f .refCount = history (framePage s f) h ∧
      frameReferenced s f = (usedIn (framePage s f) h 0).toNat := by
  obtain ⟨p, w, hp, hw, valid, rfl, page, bit⟩ := inv.framePage here mapped
  rw [page, bit]
  exact tracked p w hp hw valid

/-- APPROX_LRU keeps a history of eight periods. In every reachable state the count of each frame
in use has, for each of the last eight completed periods, whether the page in it was accessed
since it was loaded, and its referenced bit says so of the current one. A victim that is a frame
has the least history of those that may be evicted, and is the first that has. -/
theorem approx_lru_history {mem : Bytes.ByteMem} {check : Bool}
    (own : env.select = selectVictimFrame prng limit)
    (calls : Calls env (initial mem .approxLru check) h s) :
    (∀ f, Evictable s f → s.fte f .mapped ≠ 0 → s.fte f .refCount = history (framePage s f) h ∧
      frameReferenced s f = (usedIn (framePage s f) h 0).toNat) ∧
    ∀ c v t, (c = s ∨ ∃ p, c = startPrelude p s) → NoneFree c → env.select c = .ok (v, t) →
    v < numFrames →
      LeastUsed c (fun f => history (framePage c f) h) v := by
  obtain ⟨xs, inv, policy, tracked⟩ := tracked_run own calls
  have frames : ∀ f, Evictable s f → s.fte f .mapped ≠ 0 →
    s.fte f .refCount = history (framePage s f) h ∧
      frameReferenced s f = (usedIn (framePage s f) h 0).toNat := fun f => tracked.frame inv
  refine ⟨frames, ?_⟩
  intro c v t asked full select inside
  have same : c.mem = s.mem ∧ c.replacement = s.replacement := by
    rcases asked with rfl | ⟨p, rfl⟩
    · exact ⟨rfl, rfl⟩
    · exact ⟨rfl, rfl⟩
  have fte : ∀ f F, c.fte f F = s.fte f F := fun f F => by rw [VM.fte, same.1, VM.fte]
  have page : ∀ f, framePage c f = framePage s f := by
    intro f
    simp only [framePage, frameOwner, fte]
  have count : ∀ f, Evictable c f → c.fte f .refCount = history (framePage c f) h := by
    intro f here
    have mapped := full f here
    rw [fte] at mapped ⊢
    rw [page]
    exact (frames f ⟨here.1, (fte f _).symm.trans here.2⟩ mapped).1
  rw [own] at select
  obtain ⟨here, least, first⟩ := select_leastUsed (same.2.trans policy) full select inside
  simp only [count v here] at least first
  refine ⟨here, fun f hf => ?_, fun f before hf => ?_⟩
  · exact (least f hf).trans_eq (count f hf)
  · exact (first f before hf).trans_eq (count f hf)

theorem Calls.extend {init : VM} (calls : Calls standardEnv init h s) (inv : Inv s.Running s xs)
    (callable : op.Callable s) (victims : op.VictimsOk standardEnv s) :
    ∃ b t ys, Calls standardEnv init (⟨s, op, b, t⟩ :: h) t ∧ Effect standardEnv s xs op b t ys ∧
      Inv t.Running t ys := by
  rcases exec_effect inv callable victims with ⟨_, _, none⟩ | ⟨b, t, ys, ok, effect, after⟩
  · exact absurd none (standardEnv_alloc _)
  · exact ⟨b, t, ys, calls.next callable ok, effect, after⟩

/-- A process is started and reads a page, and the daemon runs. -/
theorem Calls.read {init : VM} (begin : Calls standardEnv init [] init)
    (inv : Inv init.Running init []) (idle : ∀ p, ¬init.Running p) : ∃ h u b t z xs,
      Calls standardEnv init (⟨t, .daemonUpdate, 0, z⟩ :: ⟨u, .memAccess 0 'r' 0, b, t⟩ :: h) z ∧
      Inv z.Running z xs ∧ z.Running 0 ∧ u.currentProcess = some 0 ∧
      u.entry 0 (vaddrVpn 0) .valid = 0 ∧
      z.entry 0 (vaddrVpn 0) .valid ≠ 0 := by
  have hw : vaddrVpn 0 < numPages := by decide
  have free : freeFrameOf (startPrelude 0 init) = some 1 := inv.free_first idle
  have startable : Op.Callable init (.procInit 0) := ⟨by decide, idle 0⟩
  have startOk : Op.VictimsOk standardEnv init (.procInit 0) := victimOk_free standardEnv_own free
  obtain ⟨b₁, s, xs₁, calls₁, effect₁, inv₁⟩ := begin.extend inv startable startOk
  cases effect₁ with
  | @started _ v c f _ _ hp out select hv unprotected usage freed middle started =>
    have first : v = 1 :=
      (Prod.mk.inj (Except.ok.inj ((select_free standardEnv_own free).symm.trans select))).1.symm
    have running : s.Running = fun p => p = 0 := by
      rw [running_started hp (freed.procs.trans usage.procs) started]
      funext p
      simp [idle p]
    have on : Op.Callable s (.contextSwitch 0) := by
      show s.Running 0
      rw [running]
    have calls₂ := calls₁.next on (rfl : Op.exec standardEnv (.contextSwitch 0) s =
      .ok (0, contextSwitch 0 s))
    have inv₂ : Inv (contextSwitch 0 s).Running (contextSwitch 0 s) xs₁ :=
      inv₁.congr rfl rfl (fun _ _ => rfl)
    have none : ∀ p w, s.Running p → w < numPages → s.entry p w .valid = 0 := by
      intro p w hp hw
      rw [running] at hp
      subst hp
      exact started.empty w hw _
    have second : Evictable (contextSwitch 0 s) 2 := by
      refine inv₂.evictable (by decide) (by decide) fun p hp => ?_
      have hp' : s.Running p := hp
      rw [running] at hp'
      subst hp'
      show (s.procs 0).savedPtbr ≠ 2
      rw [started.table, first]
      decide
    obtain ⟨i, free₂⟩ := inv₂.free none second
    have current : Current (contextSwitch 0 s).Running (contextSwitch 0 s) 0 := ⟨on, rfl, rfl⟩
    have callable : Op.Callable (contextSwitch 0 s) (.memAccess 0 'r' 0) := ⟨by decide, 0, current⟩
    have readOk : Op.VictimsOk standardEnv (contextSwitch 0 s) (.memAccess 0 'r' 0) :=
      fun _ _ _ => victimOk_free standardEnv_own free₂
    obtain ⟨b, t, ys, calls₃, effect₃, inv₃⟩ := calls₂.extend inv₂ callable readOk
    cases effect₃ with
    | @accessed p _ _ _ n _ _ _ small cur present inmiddle valid touched =>
      obtain rfl : 0 = p := Option.some.inj cur.current
      have running₃ : t.Running = (contextSwitch 0 s).Running :=
        Running.congr (touched.procs.trans (present.procs inv₂))
      have valid₃ : t.entry 0 (vaddrVpn 0) .valid ≠ 0 :=
        (touched.entry .valid nofun nofun).trans_ne valid
      have daemon : Op.Callable t .daemonUpdate := trivial
      obtain ⟨b₄, z, zs, calls₄, effect₄, inv₄⟩ := calls₃.extend inv₃ daemon trivial
      cases effect₄ with
      | aged usage =>
        have running₄ : z.Running 0 := by
          rw [Running.congr usage.procs, running₃]
          exact on
        refine ⟨_, _, b, t, z, _, calls₄, inv₄, running₄, rfl, none 0 _ on hw, ?_⟩
        rw [usage.entry inv₃ (running₃ ▸ on) hw (by decide)]
        exact valid₃

/-- The page has been accessed in the last completed period, and not before. -/
theorem approx_lru_first_period : ∃ h s f, Calls standardEnv (initial (fun _ => 0) .approxLru false)
    h s ∧
    Evictable s f ∧ s.fte f .mapped ≠ 0 ∧ s.fte f .refCount = 128 := by
  have hw : vaddrVpn 0 < numPages := by decide
  obtain ⟨h, u, b, t, z, xs, calls, inv, hp, current, invalid, valid⟩ :=
    Calls.read (.start : Calls standardEnv (initial (fun _ => 0) .approxLru false) [] _) inv_initial
      initial_idle
  have own := inv.owns hp hw valid
  have page : framePage z (z.entry 0 (vaddrVpn 0) .pfn) = (0, vaddrVpn 0) := by
    rw [framePage, frameOwner_eq own.process, own.vpn]
  have loads : Moment.Loads ⟨u, .memAccess 0 'r' 0, b, t⟩ (0, vaddrVpn 0) := by
    refine ⟨?_, invalid⟩
    simp only [Moment.page, current, Option.map_some]
  have last := ((approx_lru_history standardEnv_own calls).1 _ ⟨own.lt, own.unprotected⟩
    own.mapped).1
  rw [page, history_daemon rfl, usedIn_load_zero loads nofun, history_load loads nofun] at last
  exact ⟨_, z, _, calls, ⟨own.lt, own.unprotected⟩, own.mapped, last⟩

end

end SystemsProjects.Vm
