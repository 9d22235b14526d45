import SystemsProjects.Vm.Traces

/-!
# PTBR over traces

PTBR goes stale in one way only: a START of the process that `current_process`
still points to, which gives it its page table in another frame. The next access
of that process goes through the old table.
-/

namespace SystemsProjects.Vm

open VM Heaps

section

variable {env : Env} {s t c : VM} {xs ys : List Slot} {p pid v : Nat} {cmds : List Cmd}
  {prng : Nat → Nat} {limit : Nat} {mem : Bytes.ByteMem} {replacement : Replacement} {check : Bool}

theorem settled_initial : Settled (initial mem replacement check) [] := by
  refine ⟨inv_initial, fun p hp => absurd hp (initial_idle p), fun p hp => ?_⟩
  simp [initial, systemInit, boot, memset, setFte] at hp

/-- An access is coherent when the state before the command is. -/
theorem Settled.accessCoherent (settled : Settled s xs) (coherent : Coherent s)
    (hp : s.Running pid) :
    ∃ c, accessPrelude pid s = .ok c ∧ c.ptbr = (c.procs pid).savedPtbr := by
  obtain ⟨c, prelude, _, procs, _, _, ptbr⟩ := settled.prelude hp
  refine ⟨c, prelude, ?_⟩
  rw [ptbr, procs]
  split
  · rename_i same
    exact coherent pid same hp
  · rfl

theorem Settled.coherent_start (sound : SoundVictims env) (settled : Settled s xs)
    (coherent : Coherent s) (hp : pid < maxPid) (out : ¬ s.Running pid)
    (inPlace : RestartsInPlace env s (.start pid)) (ok : simStartProc env pid s = .ok t) :
    Coherent t := by
  obtain ⟨ys, done⟩ := settled.start sound hp out ok
  obtain ⟨c, select⟩ := done.select
  intro q hq hr
  rw [done.current] at hq
  rw [done.ptbr]
  by_cases same : q = pid
  · subst same
    exact (inPlace hq _ c select).symm
  · rw [done.running] at hr
    rw [done.others q same]
    exact coherent q hq (hr.resolve_right same)

theorem Settled.coherent_stop (settled : Settled s xs) (coherent : Coherent s)
    (hp : s.Running pid) (ok : simStopProc pid s = .ok t) : Coherent t := by
  obtain ⟨ys, _, running, others, ptbr, current, _⟩ := settled.stop hp ok
  intro q hq hr
  rw [current] at hq
  rw [running] at hr
  rw [ptbr, others q hr.2]
  exact coherent q hq hr.1

/-- Restarts in place keep the registers coherent over whole traces. -/
theorem Trace.coherent (sound : SoundVictims env)
    (trace : Trace env (RestartsInPlace env) (initial mem replacement check) cmds s) :
    ∃ xs, Settled s xs ∧ Coherent s := by
  induction trace with
  | start =>
    refine ⟨[], settled_initial, fun p hp => ?_⟩
    simp [initial, systemInit, boot, memset, setFte] at hp
  | @next _ s cmd t _ legal inPlace ok ih =>
    obtain ⟨xs, settled, coherent⟩ := ih
    cases cmd with
    | start pid =>
      obtain ⟨ys, done⟩ := settled.start sound legal.1 legal.2 ok
      exact ⟨ys, done.settled, settled.coherent_start sound coherent legal.1 legal.2 inPlace ok⟩
    | stop pid =>
      obtain ⟨ys, settled', _⟩ := settled.stop legal ok
      exact ⟨ys, settled', settled.coherent_stop coherent legal ok⟩
    | access pid rw address data =>
      obtain ⟨c, prelude, uses⟩ := settled.accessCoherent coherent legal.1
      obtain ⟨ys, settled', procs, current, ptbr, _⟩ :=
        settled.access sound legal.1 (vaddrVpn_lt legal.2) prelude uses ok
      refine ⟨ys, settled', ?_⟩
      obtain ⟨_, prelude', _, procsc, _⟩ := settled.prelude legal.1
      obtain rfl := Except.ok.inj (prelude'.symm.trans prelude)
      intro q hq _
      obtain rfl : pid = q := Option.some.inj (current.symm.trans hq)
      rw [ptbr, uses, procsc, procs]

/-- A START goes well while some frame is not protected. -/
theorem Settled.start_ok (pid : Nat) (settled : Settled s xs) (policy : s.replacement = .random)
    (hp : pid < maxPid) (out : ¬ s.Running pid) {f : Nat} (hf : Evictable s f) :
    ∃ t ys, simStartProc standardEnv pid s = .ok t ∧ StartDone standardEnv s pid t ys := by
  have here : Evictable (startPrelude pid s) f := hf
  rcases settled.start_spec hp out (victimOk_random standardEnv_own policy here) with
    ⟨_, _, none⟩ | done
  · exact absurd none (standardEnv_alloc _)
  · exact done

/-! ## The current process is stopped -/

/-- With no process running frame 1 is chosen. -/
theorem Settled.select_first (pid : Nat) (settled : Settled s xs) (idle : ∀ p, ¬ s.Running p) :
    standardEnv.select (startPrelude pid s) = .ok (1, startPrelude pid s) := by
  have free := settled.inv.startPrelude (p := pid).free_first idle
  simp only [standardEnv_own, selectVictimFrame, free]

theorem Settled.start_first (settled : Settled s xs) (idle : ∀ p, ¬ s.Running p)
    {ys : List Slot} (done : StartDone standardEnv s pid t ys) : (t.procs pid).savedPtbr = 1 := by
  obtain ⟨c, select⟩ := done.select
  exact (Prod.mk.inj (Except.ok.inj (select.symm.trans (settled.select_first pid idle)))).1

theorem Trace.mono {init : VM} {ok ok' : VM → Cmd → Prop} (trace : Trace env ok init cmds s)
    (weaker : ∀ s cmd, ok s cmd → ok' s cmd) : Trace env ok' init cmds s := by
  induction trace with
  | start => exact .start
  | next _ legal meets run ih => exact .next ih legal (weaker _ _ meets) run

/-- START 1, an access and STOP 1, last command first. -/
def parkedTrace : List Cmd := [.stop 1, .access 1 'r' 0 0, .start 1]

/-- After `parkedTrace` no process runs, and the registers are still those of process 1. -/
structure Parked (s : VM) (xs : List Slot) : Prop where
  trace : Trace standardEnv (RestartsInPlace standardEnv) zeroed parkedTrace s
  settled : Settled s xs
  idle : ∀ p, ¬ s.Running p
  policy : s.replacement = .random
  ptbr : s.ptbr = 1
  current : s.currentProcess = some 1

theorem parked : ∃ s xs, Parked s xs := by
  have settled₀ : Settled zeroed [] := settled_initial
  have idle₀ : ∀ p, ¬ zeroed.Running p := initial_idle
  have none₀ : zeroed.currentProcess = none := rfl
  have free₀ : Evictable zeroed 1 :=
    settled₀.inv.evictable (by decide) (by decide) (fun p hp => absurd hp (idle₀ p))
  obtain ⟨s₁, xs₁, start₁, done₁⟩ := settled₀.start_ok 1 rfl (by decide) (idle₀ 1) free₀
  have table₁ := settled₀.start_first idle₀ done₁
  have run₁ : s₁.Running 1 := by
    rw [done₁.running]
    exact Or.inr rfl
  have alone₁ : ∀ p, s₁.Running p → p = 1 := by
    intro p hp
    rw [done₁.running] at hp
    exact hp.resolve_left (idle₀ p)
  -- the access switches to process 1, so PTBR is 1 from here on
  obtain ⟨c, prelude, settledc, procsc, _, policyc, ptbrc⟩ := done₁.settled.prelude run₁
  rw [done₁.current, none₀, if_neg nofun] at ptbrc
  have coherent : c.ptbr = (c.procs 1).savedPtbr := by rw [ptbrc, procsc]
  have freec : Evictable c 2 := by
    refine settledc.inv.evictable (by decide) (by decide) (fun p hp => ?_)
    rw [Running.congr procsc] at hp
    rw [alone₁ p hp, procsc, table₁]
    decide
  obtain ⟨s₂, xs₂, access, settled₂, procs₂, current₂, ptbr₂, policy₂⟩ : ∃ s₂ xs₂,
      simMemAccess standardEnv 1 'r' 0 0 s₁ = .ok s₂ ∧ Settled s₂ xs₂ ∧ s₂.procs = s₁.procs ∧
      s₂.currentProcess = some 1 ∧ s₂.ptbr = c.ptbr ∧ s₂.replacement = s₁.replacement := by
    have victim := victimOk_random standardEnv_own (policyc.trans done₁.replacement) freec
    have page : vaddrVpn 0 < numPages := by decide
    rcases done₁.settled.access_spec 'r' 0 run₁ page prelude coherent (fun _ => victim) with
      ⟨_, _, none⟩ | done
    · exact absurd none (standardEnv_alloc _)
    · exact done
  have run₂ : s₂.Running = s₁.Running := Running.congr procs₂
  obtain ⟨s₃, xs₃, stop, settled₃, run₃, others₃, ptbr₃, current₃, policy₃⟩ :=
    settled₂.stop_spec (run₂ ▸ run₁)
  refine ⟨s₃, xs₃, ?_, settled₃, ?_, policy₃.trans (policy₂.trans done₁.replacement), ?_,
    current₃.trans current₂⟩
  · refine .next (.next (.next .start ?_ ?_ start₁) ?_ trivial access) ?_ trivial stop
    · exact ⟨by decide, idle₀ 1⟩
    · exact fun current => absurd (none₀.symm.trans current) nofun
    · exact ⟨run₁, by decide⟩
    · change s₂.Running 1
      rw [run₂]
      exact run₁
  · intro p hp
    rw [run₃, run₂] at hp
    exact hp.2 (alone₁ p hp.1)
  · rw [ptbr₃, ptbr₂, ptbrc, table₁]

theorem Parked.evictable (at' : Parked s xs) : Evictable s 1 :=
  at'.settled.inv.evictable (by decide) (by decide) (fun p hp => absurd hp (at'.idle p))

/-- In a trace that restarts the current process in place only, every access goes
through the page table of the latest START of its pid. -/
theorem access_uses_latest_table {rw : Char} {address : Nat} {data : UInt8}
    (own : env.select = selectVictimFrame prng limit)
    (trace : Trace env (RestartsInPlace env) (initial mem replacement check) cmds s)
    (legal : (Cmd.access pid rw address data).Legal s) :
    ∃ c, accessPrelude pid s = .ok c ∧ c.ptbr = (c.procs pid).savedPtbr := by
  obtain ⟨xs, settled, coherent⟩ := trace.coherent (soundVictims_program own)
  exact settled.accessCoherent coherent legal.1

/-- Process 1 is restarted while it is still the current one, and gets frame 1 again. -/
theorem restarted_uses_table : ∃ s c, Trace standardEnv (RestartsInPlace standardEnv) zeroed
      (.start 1 :: parkedTrace) s ∧
    s.currentProcess = some 1 ∧ s.Running 1 ∧ accessPrelude 1 s = .ok c ∧
    c.ptbr = (c.procs 1).savedPtbr := by
  obtain ⟨s, xs, at'⟩ := parked
  obtain ⟨t, ys, ok, done⟩ := at'.settled.start_ok 1 at'.policy (by decide) (at'.idle 1)
    at'.evictable
  have hp : t.Running 1 := by
    rw [done.running]
    exact Or.inr rfl
  have trace : Trace standardEnv (RestartsInPlace standardEnv) zeroed (.start 1 :: parkedTrace)
      t := by
    refine .next at'.trace ⟨by decide, at'.idle 1⟩ (fun _ v c select => ?_) ok
    rw [at'.settled.select_first 1 at'.idle] at select
    exact (Prod.mk.inj (Except.ok.inj select)).1.symm.trans at'.ptbr.symm
  have legal : (Cmd.access 1 'r' 0 0).Legal t := ⟨hp, by decide⟩
  obtain ⟨c, prelude, uses⟩ := access_uses_latest_table standardEnv_own trace legal
  exact ⟨t, c, trace, done.current.trans at'.current, hp, prelude, uses⟩

/-- A restart elsewhere is what makes it stale: the next access of that process
does not use the page table that it has just been given. -/
theorem Settled.stale_after_restart (sound : SoundVictims env) (settled : Settled s xs)
    (current : s.currentProcess = some pid) (hp : pid < maxPid) (out : ¬ s.Running pid)
    (select : env.select (startPrelude pid s) = .ok (v, c)) (elsewhere : v ≠ s.ptbr)
    (ok : simStartProc env pid s = .ok t) :
    ∃ d, accessPrelude pid t = .ok d ∧ d.ptbr ≠ (d.procs pid).savedPtbr := by
  obtain ⟨ys, done⟩ := settled.start sound hp out ok
  obtain ⟨c', select'⟩ := done.select
  have table : v = (t.procs pid).savedPtbr :=
    (Prod.mk.inj (Except.ok.inj (select.symm.trans select'))).1
  have hr : t.Running pid := by
    rw [done.running]
    exact Or.inr rfl
  obtain ⟨d, prelude, _, procs, _, _, ptbr⟩ := done.settled.prelude hr
  refine ⟨d, prelude, ?_⟩
  rw [ptbr, if_pos (done.current.trans current), done.ptbr, procs, ← table]
  exact Ne.symm elsewhere

/-! ## A trace that goes stale -/

/-- `parkedTrace`, START 3 (which takes the frame of the old page table) and START 1; last command
first. -/
def staleTrace : List Cmd := .start 1 :: .start 3 :: parkedTrace

/-- After `staleTrace` an access of process 1 goes through the page table of
process 3. -/
theorem stale_register : ∃ s, Trace standardEnv (fun _ _ => True)
      zeroed staleTrace s ∧
    (Cmd.access 1 'r' 0 0).Legal s ∧ s.Running 3 ∧
    ∃ c, accessPrelude 1 s = .ok c ∧ c.ptbr = (c.procs 3).savedPtbr ∧
      c.ptbr ≠ (c.procs 1).savedPtbr := by
  have sound : SoundVictims standardEnv := soundVictims_program standardEnv_own
  obtain ⟨s₃, xs₃, at'⟩ := parked
  obtain ⟨s₄, xs₄, start₄, done₄⟩ := at'.settled.start_ok 3 at'.policy (by decide) (at'.idle 3)
    at'.evictable
  have table₄ := at'.settled.start_first at'.idle done₄
  have alone₄ : ∀ p, s₄.Running p → p = 3 := by
    intro p hp
    rw [done₄.running] at hp
    exact hp.resolve_left (at'.idle p)
  have run₄ : s₄.Running 3 := by
    rw [done₄.running]
    exact Or.inr rfl
  have out₄ : ¬ s₄.Running 1 := fun hp => absurd (alone₄ 1 hp) (by decide)
  have free₄ : Evictable s₄ 2 := by
    refine done₄.settled.inv.evictable (by decide) (by decide) (fun p hp => ?_)
    rw [alone₄ p hp, table₄]
    decide
  obtain ⟨s₅, xs₅, start₅, done₅⟩ := done₄.settled.start_ok 1
    (done₄.replacement.trans at'.policy) (by decide) out₄ free₄
  have ptbr : s₄.ptbr = 1 := done₄.ptbr.trans at'.ptbr
  have current : s₄.currentProcess = some 1 := done₄.current.trans at'.current
  obtain ⟨d, select⟩ := done₅.select
  have locked := done₄.settled.inv.tableProtected run₄
  have elsewhere : (s₅.procs 1).savedPtbr ≠ s₄.ptbr := by
    rw [ptbr]
    intro same
    rw [same] at select
    rcases selectVictimFrame_ok done₄.settled.inv.startPrelude.framesOwned select with here | far
    · rw [table₄] at locked
      exact locked here.2
    · exact absurd far (by decide)
  obtain ⟨e, preludee, stale⟩ := done₄.settled.stale_after_restart sound current (by decide) out₄
    select
    elsewhere start₅
  have run₅ : s₅.Running 1 := by
    rw [done₅.running]
    exact Or.inr rfl
  refine ⟨s₅, ?_, ⟨run₅, by decide⟩, ?_, e, preludee, ?_, stale⟩
  · have before : Trace standardEnv (fun _ _ => True) zeroed parkedTrace s₃ :=
      at'.trace.mono fun _ _ _ => trivial
    refine .next (.next before ?_ trivial start₄) ?_ trivial start₅
    · exact ⟨by decide, at'.idle 3⟩
    · exact ⟨by decide, out₄⟩
  · rw [done₅.running]
    exact Or.inl run₄
  · obtain ⟨e', preludee', _, procse, _, _, ptbre⟩ := done₅.settled.prelude run₅
    obtain rfl := Except.ok.inj (preludee'.symm.trans preludee)
    rw [ptbre, if_pos (done₅.current.trans current), done₅.ptbr, ptbr, procse,
      done₅.others 3 (by decide), table₄]

end

end SystemsProjects.Vm
