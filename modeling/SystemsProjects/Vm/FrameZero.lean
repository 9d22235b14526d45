import SystemsProjects.Vm.Registers

/-!
# Frame 0

The frame table is in frame 0, and 0 is also `saved_ptbr` of a process that does not run.
Nothing between the parser and the memory unit tests the pid or the address of a line.
-/

namespace SystemsProjects.Vm

open VM

def Cmd.pid : Cmd → Nat
  | .start pid | .stop pid | .access pid _ _ _ => pid

/-- What a command uses: an element of `procs`, a page table outside frame 0 and an entry
of it. -/
def InRange (s : VM) (cmd : Cmd) : Prop :=
  cmd.pid < maxPid ∧
  match cmd with
  | .start _ => True
  | .stop pid => (s.procs pid).savedPtbr ≠ 0
  | .access pid _ address _ => vaddrVpn address < numPages ∧
      ∀ c, accessPrelude pid s = .ok c → c.ptbr ≠ 0

/-- Frame 0 is protected, and no page table and no page is in it: neither that of a process,
nor that through which a frame is evicted, nor the page of a valid entry. -/
structure FrameZeroKept (s : VM) : Prop where
  isProtected : s.fte 0 .isProtected ≠ 0
  tables : ∀ p, s.Running p → (s.procs p).savedPtbr ≠ 0
  owners : FramesOwned s
  pages : ∀ p v, s.Running p → v < numPages → s.entry p v .valid ≠ 0 → s.entry p v .pfn ≠ 0

/-- The command names a process that is running, or to be started one that is not, an address
of a page table entry, and an access does not go through a table of an earlier START. -/
def Cmd.Sane (s : VM) : Cmd → Prop
  | .start pid => pid < maxPid ∧ ¬ s.Running pid
  | .stop pid => s.Running pid
  | .access pid _ address _ => s.Running pid ∧ vaddrVpn address < numPages ∧
      (s.currentProcess = some pid → s.ptbr = (s.procs pid).savedPtbr)

/-- The states after lines that are all sane where they are given. -/
inductive Lines (env : Env) (init : VM) : List Cmd → VM → Prop
  | start : Lines env init [] init
  | next {cmds s cmd t} : Lines env init cmds s → cmd.Sane s → simCmd env cmd s = .ok t →
      Lines env init (cmd :: cmds) t

/-- What more holds between sane lines. -/
structure Kept (s : VM) (xs : List Slot) : Prop where
  settled : Settled s xs
  stopped : ∀ p < maxPid, ¬ s.Running p → (s.procs p).savedPtbr = 0
  register : ∀ p, s.currentProcess = some p → s.ptbr ≠ 0

section

variable {env : Env} {s t c : VM} {xs ys : List Slot} {p pid address : Nat} {cmd : Cmd}
  {cmds : List Cmd} {prng : Nat → Nat} {limit : Nat} {mem : Bytes.ByteMem}
  {replacement : Replacement} {check : Bool}

theorem Kept.frameZero (kept : Kept s xs) : FrameZeroKept s where
  isProtected := kept.settled.inv.frameZero
  tables _ hp := Nat.ne_of_gt (kept.settled.inv.tablePos hp)
  owners := kept.settled.inv.framesOwned
  pages _ _ hp hv valid := Nat.ne_of_gt (kept.settled.inv.owns hp hv valid).pos

theorem kept_initial : Kept (initial mem replacement check) [] := by
  refine ⟨settled_initial, fun p _ _ => ?_, fun p current => ?_⟩
  · simp [initial, systemInit, boot, memset, setFte]
  · simp [initial, systemInit, boot, memset, setFte] at current

theorem Kept.start (sound : SoundVictims env) (kept : Kept s xs) (hp : pid < maxPid)
    (out : ¬ s.Running pid) (ok : simStartProc env pid s = .ok t) : ∃ ys, Kept t ys := by
  obtain ⟨ys, done⟩ := kept.settled.start sound hp out ok
  refine ⟨ys, done.settled, fun r lt idle => ?_, fun r current => ?_⟩
  · rw [done.running] at idle
    have ne : r ≠ pid := fun eq => idle (.inr eq)
    rw [done.others r ne]
    exact kept.stopped r lt (fun run => idle (.inl run))
  · rw [done.ptbr]
    exact kept.register r (done.current.symm.trans current)

theorem simStopProc_table (ok : simStopProc pid s = .ok t) : (t.procs pid).savedPtbr = 0 := by
  unfold simStopProc at ok
  cases inside : procAt pid with
  | error e => simp [inside, bind, Except.bind] at ok
  | ok u =>
    cases clean : procCleanup pid s with
    | error e => simp [inside, clean, bind, Except.bind] at ok
    | ok m =>
      cases checked : corruptionCheck (stopEpilogue pid m) with
      | error e => simp [inside, clean, checked, bind, Except.bind] at ok
      | ok u =>
        simp only [inside, clean, checked, bind, Except.bind, pure, Except.pure] at ok
        cases ok
        simp [stopEpilogue, setProc]

theorem Kept.stop (kept : Kept s xs) (hp : s.Running pid) (ok : simStopProc pid s = .ok t) :
    ∃ ys, Kept t ys := by
  obtain ⟨ys, settled, running, others, ptbr, current, _⟩ := kept.settled.stop hp ok
  refine ⟨ys, settled, fun r lt idle => ?_, fun r now => ?_⟩
  · by_cases same : r = pid
    · rw [same]
      exact simStopProc_table ok
    · rw [others r same]
      rw [running] at idle
      exact kept.stopped r lt (fun run => idle ⟨run, same⟩)
  · rw [ptbr]
    exact kept.register r (current.symm.trans now)

theorem Kept.access {rw : Char} {data : UInt8} (sound : SoundVictims env) (kept : Kept s xs)
    (hp : s.Running pid) (page : vaddrVpn address < numPages)
    (coherent : s.currentProcess = some pid → s.ptbr = (s.procs pid).savedPtbr)
    (ok : simMemAccess env pid rw address data s = .ok t) : ∃ ys, Kept t ys := by
  obtain ⟨c, prelude, settledc, procs, current, _, ptbr⟩ := kept.settled.prelude hp
  have table : c.ptbr = (s.procs pid).savedPtbr := by
    rw [ptbr]
    split
    · exact coherent ‹_›
    · rfl
  obtain ⟨ys, settled, procs', current', ptbr', _⟩ :=
    kept.settled.access sound hp page prelude (procs ▸ table) ok
  refine ⟨ys, settled, fun r lt idle => ?_, fun r _ => ?_⟩
  · rw [Running.congr procs'] at idle
    rw [procs']
    exact kept.stopped r lt idle
  · rw [ptbr', table]
    exact Nat.ne_of_gt (kept.settled.inv.tablePos hp)

theorem Lines.kept (sound : SoundVictims env)
    (lines : Lines env (initial mem replacement check) cmds s) : ∃ xs, Kept s xs := by
  induction lines with
  | start => exact ⟨[], kept_initial⟩
  | @next _ s cmd t _ sane ok ih =>
    obtain ⟨xs, kept⟩ := ih
    cases cmd with
    | start pid => exact kept.start sound sane.1 sane.2 ok
    | stop pid => exact kept.stop sane ok
    | access pid rw address data => exact kept.access sound sane.1 sane.2.1 sane.2.2 ok

/-- The page table that an access of any process goes through. -/
theorem Settled.table (settled : Settled s xs) (pid : Nat) (lt : pid < maxPid) :
    ∃ c, accessPrelude pid s = .ok c ∧
      c.ptbr = if s.currentProcess = some pid then s.ptbr else (s.procs pid).savedPtbr := by
  obtain ⟨m, first, settledm, procs, current, _, ptbr⟩ := settled.counted pid
  by_cases same : s.currentProcess = some pid
  · have stays : ¬ m.currentProcess.all (fun p => (m.procs p).pid ≠ pid) = true :=
      fun switches => (settledm.switches pid).mp switches (current.trans same)
    refine ⟨m, first.trans (if_neg stays), ?_⟩
    rw [if_pos same, ptbr]
  · have switch := (settledm.switches pid).mpr (fun now => same (current.symm.trans now))
    refine ⟨{ contextSwitch pid m with currentProcess := some pid }, ?_, ?_⟩
    · rw [first, if_pos switch]
      simp only [procAt, if_pos lt, bind, Except.bind, pure, Except.pure]
    · rw [if_neg same, ← procs]
      rfl

/-- Between sane lines the next one is in range under these conditions and no others. -/
theorem Kept.inRange_iff (kept : Kept s xs) (cmd : Cmd) : InRange s cmd ↔
    match cmd with
    | .start pid => pid < maxPid
    | .stop pid => s.Running pid
    | .access pid _ address _ => vaddrVpn address < numPages ∧
        (s.Running pid ∨ pid < maxPid ∧ s.currentProcess = some pid) := by
  cases cmd with
  | start pid => exact ⟨fun range => range.1, fun lt => ⟨lt, trivial⟩⟩
  | stop pid =>
    constructor
    · rintro ⟨lt, table⟩
      by_contra idle
      exact table (kept.stopped pid lt idle)
    · exact fun hp => ⟨kept.settled.inv.pidLt hp, Nat.ne_of_gt (kept.settled.inv.tablePos hp)⟩
  | access pid rw address data =>
    constructor
    · rintro ⟨lt, page, table⟩
      refine ⟨page, ?_⟩
      by_contra neither
      obtain ⟨idle, other⟩ := not_or.mp neither
      obtain ⟨c, prelude, ptbr⟩ := kept.settled.table pid lt
      rw [if_neg (fun now => other ⟨lt, now⟩), kept.stopped pid lt idle] at ptbr
      exact table c prelude ptbr
    · rintro ⟨page, ok⟩
      have lt : pid < maxPid := by
        obtain hp | ⟨lt, _⟩ := ok
        · exact kept.settled.inv.pidLt hp
        · exact lt
      refine ⟨lt, page, fun c prelude => ?_⟩
      obtain ⟨c', prelude', ptbr⟩ := kept.settled.table pid lt
      obtain rfl := Except.ok.inj (prelude'.symm.trans prelude)
      rw [ptbr]
      by_cases now : s.currentProcess = some pid
      · rw [if_pos now]
        exact kept.register pid now
      · rw [if_neg now]
        obtain hp | ⟨_, current⟩ := ok
        · exact Nat.ne_of_gt (kept.settled.inv.tablePos hp)
        · exact absurd current now

/-- Sane lines leave frame 0 to the frame table, and each of them is in range; for any next
line the conditions under which it is are exact. -/
theorem lines_keep_frame_zero (own : env.select = selectVictimFrame prng limit)
    (lines : Lines env (initial mem replacement check) cmds s) :
    FrameZeroKept s ∧ (∀ cmd, cmd.Sane s → InRange s cmd) ∧
    ∀ cmd, InRange s cmd ↔
      match cmd with
      | .start pid => pid < maxPid
      | .stop pid => s.Running pid
      | .access pid _ address _ => vaddrVpn address < numPages ∧
          (s.Running pid ∨ pid < maxPid ∧ s.currentProcess = some pid) := by
  obtain ⟨xs, kept⟩ := lines.kept (soundVictims_program own)
  refine ⟨kept.frameZero, fun cmd sane => ?_, kept.inRange_iff⟩
  apply (kept.inRange_iff cmd).mpr
  cases cmd with
  | start pid => exact sane.1
  | stop pid => exact sane
  | access pid rw address data => exact ⟨sane.2.1, .inl sane.1⟩

end

/-- `0 w 0x0 0`, with no START before: the access goes through the frame table, and takes
the protection off frame 0. -/
theorem access_unprotects_frame_zero : ¬ ∀ (cmds : List Cmd) (t : VM),
    cmds.foldlM (fun s cmd => simCmd standardEnv cmd s) zeroed = .ok t →
    FrameZeroKept t ∧ ∀ cmd, InRange t cmd := by
  intro law
  have effect : (simCmd standardEnv (.access 0 'w' 0 0) zeroed).toOption.map
      (fun t => t.fte 0 .isProtected) = some 0 := by decide
  cases run : simCmd standardEnv (.access 0 'w' 0 0) zeroed with
  | error e =>
    rw [run] at effect
    cases effect
  | ok t =>
    rw [run] at effect
    have kept := (law [.access 0 'w' 0 0] t (by rw [List.foldlM_cons, run]; rfl)).1
    exact kept.isProtected (Option.some.inj effect)

theorem lines_keep_frame_zero_started : ∃ s, Lines standardEnv zeroed [.start 1] s ∧
    FrameZeroKept s ∧ InRange s (.access 1 'r' 0 0) := by
  have settled : Settled zeroed [] := settled_initial
  have free : Evictable zeroed 1 :=
    settled.inv.evictable (by decide) (by decide) (fun p hp => absurd hp (initial_idle p))
  obtain ⟨s, _, ok, done⟩ := settled.start_ok 1 rfl (by decide) (initial_idle 1) free
  have hp : s.Running 1 := by
    rw [done.running]
    exact Or.inr rfl
  have lines : Lines standardEnv zeroed [.start 1] s := .next .start ⟨by decide, initial_idle 1⟩ ok
  obtain ⟨kept, _, range⟩ := lines_keep_frame_zero standardEnv_own lines
  exact ⟨s, lines, kept, (range (.access 1 'r' 0 0)).mpr ⟨by decide, .inl hp⟩⟩

end SystemsProjects.Vm
