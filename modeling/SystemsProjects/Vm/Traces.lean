import SystemsProjects.Vm.Checker

/-!
# Traces of the driver

Sequences of START, STOP and memory-access commands. PTBR is a copy of
`saved_ptbr` that only a context switch refreshes, and the driver switches only
when the accessing pid is not that of `current_process`.
-/

namespace SystemsProjects.Vm

open VM Heaps Loops

/-- The command names what a trace may name. -/
def Cmd.Legal (s : VM) : Cmd → Prop
  | .start pid => pid < maxPid ∧ ¬ s.Running pid
  | .stop pid => s.Running pid
  | .access pid _ address _ => s.Running pid ∧ address < 2 ^ vaddrLen

/-- The traces from `init`, last command first, whose commands all meet `ok` in
the state they are given in. -/
inductive Trace (env : Env) (ok : VM → Cmd → Prop) (init : VM) : List Cmd → VM → Prop
  | start : Trace env ok init [] init
  | next {cmds s cmd t} : Trace env ok init cmds s → cmd.Legal s → ok s cmd →
      simCmd env cmd s = .ok t → Trace env ok init (cmd :: cmds) t

/-- Where a command calls `mem_access`, PTBR is the accessing process's. -/
def AccessCoherent (s : VM) : Cmd → Prop
  | .access pid _ _ _ => ∀ c, accessPrelude pid s = .ok c → c.ptbr = (c.procs pid).savedPtbr
  | _ => True

/-- A START of the process that `current_process` still points to puts the page
table back into the frame that PTBR names. -/
def RestartsInPlace (env : Env) (s : VM) : Cmd → Prop
  | .start pid => s.currentProcess = some pid →
      ∀ v c, env.select (startPrelude pid s) = .ok (v, c) → v = s.ptbr
  | _ => True

/-- Where a command calls `select_victim_frame`, it does so in state `c`. -/
def SelectCall (s : VM) : Cmd → VM → Prop
  | .start pid, c => c = startPrelude pid s
  | .access pid _ address _, c => accessPrelude pid s = .ok c ∧
      ∃ entry, entryAt c.ptbr (vaddrVpn address) = .ok entry ∧ c.pte entry .valid = 0
  | .stop _, _ => False

/-- What holds between commands. -/
structure Settled (s : VM) (xs : List Slot) : Prop where
  inv : Inv s.Running s xs
  pids : ∀ p, s.Running p → (s.procs p).pid = p
  current : ∀ p, s.currentProcess = some p → p < maxPid ∧ (s.procs p).pid = p

/-- PTBR is up to date if `current_process` is running. -/
def Coherent (s : VM) : Prop :=
  ∀ p, s.currentProcess = some p → s.Running p → s.ptbr = (s.procs p).savedPtbr

/-- `free_frame` does not go on with a victim that may not be evicted. -/
def SoundVictims (env : Env) : Prop :=
  ∀ s r, FramesOwned s → freeFrame env s = .ok r → VictimOk env s

section

variable {env : Env} {s t c : VM} {xs ys : List Slot} {p pid v : Nat} {cmd : Cmd}
  {prng : Nat → Nat} {limit : Nat}

/-! ## The program's victims -/

theorem selectVictimFrame_ok (owned : FramesOwned s)
    (ok : selectVictimFrame prng limit s = .ok (v, t)) : Evictable s v ∨ v = noFrame := by
  unfold selectVictimFrame at ok
  cases free : freeFrameOf s with
  | some i =>
    simp only [free] at ok
    cases ok
    exact Or.inl (freeFrameOf_some free).1
  | none =>
    simp only [free] at ok
    cases policy : s.replacement with
    | random =>
      simp only [policy] at ok
      obtain ⟨_, outcome⟩ := russianRoulette_spec prng (List.range numFrames) numFrames s
      generalize russianRoulette prng (List.range numFrames) numFrames s = r at ok outcome
      obtain ⟨hit, found, s'⟩ := r
      rcases outcome with ⟨i, hi, unprotected, rfl⟩ | ⟨rfl, ⟨i, hi, unprotected, rfl⟩ | ⟨_, rfl⟩⟩
      · cases ok
        exact Or.inl ⟨List.mem_range.mp hi, unprotected⟩
      · simp only [if_pos (List.mem_range.mp hi)] at ok
        cases ok
        exact Or.inl ⟨List.mem_range.mp hi, unprotected⟩
      · simp at ok
    | approxLru =>
      simp only [policy] at ok
      cases ok
      rcases leastReferenced_spec (s := s) (List.range numFrames) (255, noFrame) with
        ⟨i, hi, unprotected, _, last⟩ | ⟨_, last⟩
      · rw [last]
        exact Or.inl ⟨List.mem_range.mp hi, unprotected⟩
      · exact Or.inr last
    | clocksweep =>
      simp only [policy] at ok
      exact Or.inl (clockSweep_ok ⟨owned, freeFrameOf_none free⟩ ok).1

/-- The frame number 65535 is outside the frame table, so `free_frame` never gets
past it. -/
theorem soundVictims_program (own : env.select = selectVictimFrame prng limit) :
    SoundVictims env := by
  intro s r owned ok
  cases select : env.select s with
  | error e => simp [freeFrame, select, bind, Except.bind] at ok
  | ok choice =>
    obtain ⟨v, c⟩ := choice
    rcases selectVictimFrame_ok owned (own ▸ select) with here | rfl
    · exact ⟨v, c, select, here.1, here.2⟩
    · have outside : inMem (fteAddr noFrame) fteLayout.stride = .error .outOfBounds := by decide
      simp [freeFrame, select, outside, bind, Except.bind] at ok

/-! ## Commands keep the driver's invariant -/

theorem Settled.check (settled : Settled s xs) : corruptionCheck s = .ok () := by
  unfold corruptionCheck
  split
  · exact checkValidity_passes settled.inv settled.pids 1
  · rfl

/-- What a START of `pid` has done. -/
structure StartDone (env : Env) (s : VM) (pid : Nat) (t : VM) (ys : List Slot) : Prop where
  settled : Settled t ys
  running : t.Running = fun r => s.Running r ∨ r = pid
  select : ∃ c, env.select (startPrelude pid s) = .ok ((t.procs pid).savedPtbr, c)
  others : ∀ r, r ≠ pid → t.procs r = s.procs r
  ptbr : t.ptbr = s.ptbr
  current : t.currentProcess = s.currentProcess
  replacement : t.replacement = s.replacement
  empty : ∀ u < numPages, ∀ G, t.entry pid u G = 0
  mapsNothing : ∀ r u, s.Running r → u < numPages → s.entry r u .valid = 0 → t.entry r u .valid = 0

theorem Settled.start_spec (settled : Settled s xs) (hp : pid < maxPid) (out : ¬ s.Running pid)
    (victim : VictimOk env (startPrelude pid s)) :
    (simStartProc env pid s = .error allocFailed ∧ ∃ heap, env.calloc heap = none) ∨
    ∃ t ys, simStartProc env pid s = .ok t ∧ StartDone env s pid t ys := by
  have ready : Inv s.Running (startPrelude pid s) xs := settled.inv.startPrelude
  obtain ⟨v, c, select, hv, unprotected⟩ := victim
  have usage := env.select_usage ready.framesOwned select
  rcases procInit_spec ready out hp select hv unprotected with
    ⟨failed, exhausted⟩ | ⟨f, ys, u, ok, freed, started, middle, after⟩
  · left
    refine ⟨?_, exhausted⟩
    simp [simStartProc, procAt, hp, failed, bind, Except.bind]
  · right
    have procs : f.procs = (startPrelude pid s).procs := freed.procs.trans usage.procs
    have others : ∀ r, r ≠ pid → u.procs r = s.procs r := by
      intro r ne
      rw [started.procs r ne, procs]
      simp [startPrelude, setProc, ne]
    have running : u.Running = fun r => s.Running r ∨ r = pid := running_started hp procs started
    have self : (u.procs pid).pid = pid := by
      rw [started.pid, procs]
      simp [startPrelude, setProc]
    have current : u.currentProcess = s.currentProcess :=
      started.currentProcess.trans (freed.currentProcess.trans usage.currentProcess)
    have settled' : Settled u ys := by
      refine ⟨running ▸ after, ?_, ?_⟩
      · intro r hr
        by_cases same : r = pid
        · rw [same, self]
        · rw [running] at hr
          rw [others r same]
          exact settled.pids r (hr.resolve_right same)
      · intro r hr
        rw [current] at hr
        by_cases same : r = pid
        · rw [same, self]
          exact ⟨hp, rfl⟩
        · rw [others r same]
          exact settled.current r hr
    refine ⟨u, ys, ?_, settled', running, ⟨c, started.table ▸ select⟩, others, ?_, current, ?_,
      started.empty, ?_⟩
    · simp [simStartProc, procAt, hp, ok, settled'.check, bind, Except.bind, pure, Except.pure]
    · exact started.ptbr.trans (freed.ptbr.trans usage.ptbr)
    · exact started.replacement.trans (freed.replacement.trans usage.replacement)
    · intro r x hr hx invalid
      have unprotectedf : f.fte v .isProtected = 0 := by
        rw [freed.protected_eq hv, usage.fte v hv _ (by decide)]
        exact unprotected
      have before : c.entry r x .valid = 0 := by
        rw [usage.entry ready hr hx (by decide), entry_startPrelude]
        exact invalid
      rw [started.entry_other middle out unprotectedf hr hx,
        freed.kept r x hr hx (fun here => here.2.2.1 before)]
      exact before

theorem Settled.start (sound : SoundVictims env) (settled : Settled s xs) (hp : pid < maxPid)
    (out : ¬ s.Running pid) (ok : simStartProc env pid s = .ok t) :
    ∃ ys, StartDone env s pid t ys := by
  have victim : VictimOk env (startPrelude pid s) := by
    cases free : freeFrame env (startPrelude pid s) with
    | error e => simp [simStartProc, procAt, hp, procInit, free, bind, Except.bind] at ok
    | ok r => exact sound _ r settled.inv.startPrelude.framesOwned free
  rcases settled.start_spec hp out victim with ⟨failed, _⟩ | ⟨t', ys, ok', done⟩
  · simp [failed] at ok
  · obtain rfl : t' = t := Except.ok.inj (ok'.symm.trans ok)
    exact ⟨ys, done⟩

theorem Settled.stop_spec (settled : Settled s xs) (hp : s.Running pid) :
    ∃ t ys, simStopProc pid s = .ok t ∧ Settled t ys ∧
      t.Running = (fun r => s.Running r ∧ r ≠ pid) ∧
      (∀ r, r ≠ pid → t.procs r = s.procs r) ∧ t.ptbr = s.ptbr ∧
      t.currentProcess = s.currentProcess ∧ t.replacement = s.replacement := by
  obtain ⟨m, ys, clean, stopped, after⟩ := procCleanup_spec settled.inv hp
  have running : (stopEpilogue pid m).Running = fun r => s.Running r ∧ r ≠ pid := by
    rw [running_stopEpilogue, Running.congr stopped.procs]
  have others : ∀ r, r ≠ pid → (stopEpilogue pid m).procs r = s.procs r := by
    intro r ne
    simp [stopEpilogue, setProc, ne, stopped.procs]
  have self : ∀ r, ((stopEpilogue pid m).procs r).pid = (s.procs r).pid := by
    intro r
    by_cases same : r = pid <;> simp [stopEpilogue, setProc, same, stopped.procs]
  have settled' : Settled (stopEpilogue pid m) ys := by
    refine ⟨?_, ?_, ?_⟩
    · rw [running]
      refine after.congr rfl rfl (fun r hr => ?_)
      simp [stopEpilogue, setProc, hr.2]
    · intro r hr
      rw [running] at hr
      rw [self]
      exact settled.pids r hr.1
    · intro r hr
      rw [self]
      exact settled.current r (stopped.currentProcess.symm.trans hr)
  refine ⟨stopEpilogue pid m, ys, ?_, settled', running, others, stopped.ptbr,
    stopped.currentProcess, stopped.replacement⟩
  simp only [simStopProc, procAt, if_pos (settled.inv.pidLt hp), bind, Except.bind, clean,
    settled'.check]
  rfl

theorem Settled.stop (settled : Settled s xs) (hp : s.Running pid)
    (ok : simStopProc pid s = .ok t) :
    ∃ ys, Settled t ys ∧ t.Running = (fun r => s.Running r ∧ r ≠ pid) ∧
      (∀ r, r ≠ pid → t.procs r = s.procs r) ∧ t.ptbr = s.ptbr ∧
      t.currentProcess = s.currentProcess ∧ t.replacement = s.replacement := by
  obtain ⟨t', ys, ok', rest⟩ := settled.stop_spec hp
  obtain rfl : t' = t := Except.ok.inj (ok'.symm.trans ok)
  exact ⟨ys, rest⟩

/-- Counting the access, and perhaps ageing the frames, leaves the registers alone. -/
theorem Settled.counted (settled : Settled s xs) (pid : Nat) : ∃ m,
    accessPrelude pid s = (if m.currentProcess.all (fun p => (m.procs p).pid ≠ pid) then do
        procAt pid
        return { contextSwitch pid m with currentProcess := some pid }
      else return m) ∧ Settled m xs ∧ m.procs = s.procs ∧ m.currentProcess = s.currentProcess ∧
      m.replacement = s.replacement ∧ m.ptbr = s.ptbr := by
  by_cases wake : (s.daemonCounter + 1) % 2 ^ 16 ≥ daemonWakeupPeriod ∧ s.replacement = .approxLru
  · let s₁ : VM := { s with daemonCounter := (s.daemonCounter + 1) % 2 ^ 16 }
    have inv₁ : Inv s.Running s₁ xs := settled.inv.congr rfl rfl (fun _ _ => rfl)
    obtain ⟨u, ok, usage⟩ := daemonUpdate_usage inv₁.framesOwned
    refine ⟨{ u with daemonCounter := 0 }, ?_, ⟨?_, ?_, ?_⟩, usage.procs, usage.currentProcess,
      usage.replacement, usage.ptbr⟩
    · simp only [accessPrelude, if_pos wake, bind, Except.bind]
      rw [show daemonUpdate { s with daemonCounter := (s.daemonCounter + 1) % 2 ^ 16 } =
        .ok u from ok]
      rfl
    · have running : ({ u with daemonCounter := 0 } : VM).Running = s.Running :=
        Running.congr usage.procs
      rw [running]
      exact (usage.inv inv₁).congr rfl rfl (fun _ _ => rfl)
    · intro r hr
      have running : u.Running = s.Running := Running.congr usage.procs
      exact (congrArg (fun f => (f r).pid) usage.procs).trans
        (settled.pids r ((congrFun running r).mp hr))
    · intro r hr
      have same : (u.procs r).pid = (s.procs r).pid := by rw [usage.procs]
      obtain ⟨lt, own⟩ := settled.current r (usage.currentProcess.symm.trans hr)
      exact ⟨lt, same.trans own⟩
  · refine ⟨{ s with daemonCounter := (s.daemonCounter + 1) % 2 ^ 16 }, ?_,
      ⟨settled.inv.congr rfl rfl (fun _ _ => rfl), settled.pids, settled.current⟩, rfl, rfl, rfl,
      rfl⟩
    simp only [accessPrelude, if_neg wake, bind, Except.bind]
    rfl

/-- The driver switches unless the process is the current one already. -/
theorem Settled.switches (settled : Settled s xs) (pid : Nat) :
    s.currentProcess.all (fun p => (s.procs p).pid ≠ pid) = true ↔ s.currentProcess ≠ some pid := by
  cases now : s.currentProcess with
  | none => simp
  | some q =>
    have own := (settled.current q now).2
    simp [own]

/-- Up to the call of `mem_access`: the process is the current one, and PTBR is
refreshed unless it was the current one already. -/
theorem Settled.prelude (settled : Settled s xs) (hp : s.Running pid) :
    ∃ c, accessPrelude pid s = .ok c ∧ Settled c xs ∧ c.procs = s.procs ∧
      c.currentProcess = some pid ∧
      c.replacement = s.replacement ∧
      c.ptbr = if s.currentProcess = some pid then s.ptbr else (s.procs pid).savedPtbr := by
  obtain ⟨m, first, settledm, procs, current, policy, ptbr⟩ := settled.counted pid
  have own : (m.procs pid).pid = pid := settledm.pids pid (by rw [Running.congr procs]; exact hp)
  have hp' : pid < maxPid := settled.inv.pidLt hp
  by_cases same : s.currentProcess = some pid
  · refine ⟨m, ?_, settledm, procs, current.trans same, policy, ?_⟩
    · rw [first, current, same]
      simp [own, pure, Except.pure]
    · rw [if_pos same]
      exact ptbr
  · refine ⟨{ contextSwitch pid m with currentProcess := some pid }, ?_, ⟨?_, settledm.pids, ?_⟩,
      procs, rfl, policy, ?_⟩
    · have switch := (settledm.switches pid).mpr (fun now => same (current.symm.trans now))
      rw [first, if_pos switch]
      simp only [procAt, if_pos hp', bind, Except.bind, pure, Except.pure]
    · exact settledm.inv.congr rfl rfl (fun _ _ => rfl)
    · intro r hr
      cases hr
      exact ⟨hp', own⟩
    · rw [if_neg same]
      exact congrArg (fun f => (f pid).savedPtbr) procs

/-- The driver counts the access, and perhaps ages the frames and switches. -/
theorem accessPrelude_cases (prelude : accessPrelude pid s = .ok c) : ∃ u,
    (u = s ∨ daemonUpdate { s with daemonCounter := (s.daemonCounter + 1) % 2 ^ 16 } = .ok u) ∧
    c.swap = u.swap ∧ c.mem = u.mem ∧ c.procs = u.procs := by
  have switch : ∀ d : VM, (if d.currentProcess.all (fun p => (d.procs p).pid ≠ pid) then do
      procAt pid
      return { contextSwitch pid d with currentProcess := some pid }
      else return d) = .ok c → c.swap = d.swap ∧ c.mem = d.mem ∧ c.procs = d.procs := by
    intro d switched
    split at switched
    · obtain ⟨_, switched⟩ := check_ok.mp switched
      cases switched
      exact ⟨rfl, rfl, rfl⟩
    · cases switched
      exact ⟨rfl, rfl, rfl⟩
  simp only [accessPrelude] at prelude
  split at prelude
  · obtain ⟨u, aged, prelude⟩ := bind_ok.mp prelude
    obtain ⟨swap, mem, procs⟩ := switch _ prelude
    exact ⟨u, Or.inr aged, swap, mem, procs⟩
  · obtain ⟨swap, mem, procs⟩ := switch _ prelude
    exact ⟨s, Or.inl rfl, swap, mem, procs⟩

/-- The prelude brings no page into memory, and takes none out. -/
theorem Settled.prelude_valid (settled : Settled s xs) (prelude : accessPrelude pid s = .ok c)
    {q w : Nat} (hq : s.Running q) (hw : w < numPages) :
    c.entry q w .valid = s.entry q w .valid := by
  obtain ⟨u, aged, _, mem, procs⟩ := accessPrelude_cases prelude
  have same : u.entry q w .valid = s.entry q w .valid := by
    rcases aged with rfl | aged
    · rfl
    · let s₁ : VM := { s with daemonCounter := (s.daemonCounter + 1) % 2 ^ 16 }
      have inv₁ : Inv s.Running s₁ xs := settled.inv.congr rfl rfl (fun _ _ => rfl)
      obtain ⟨u', ok, usage⟩ := daemonUpdate_usage inv₁.framesOwned
      obtain rfl := Except.ok.inj (ok.symm.trans aged)
      exact usage.entry inv₁ hq hw (by decide)
  rw [VM.entry, VM.pte, mem, procs]
  exact same

theorem Settled.access_spec {address : Nat} (rw : Char) (data : UInt8) (settled : Settled s xs)
    (hp : s.Running pid) (page : vaddrVpn address < numPages)
    (prelude : accessPrelude pid s = .ok c) (coherent : c.ptbr = (c.procs pid).savedPtbr)
    (victim : c.entry pid (vaddrVpn address) .valid = 0 → VictimOk env c) :
    (simMemAccess env pid rw address data s = .error allocFailed ∧
      ∃ heap, env.calloc heap = none) ∨
    ∃ t ys, simMemAccess env pid rw address data s = .ok t ∧ Settled t ys ∧ t.procs = s.procs ∧
      t.currentProcess = some pid ∧ t.ptbr = c.ptbr ∧ t.replacement = s.replacement := by
  obtain ⟨c', prelude', settledc, procs, current, policy, _⟩ := settled.prelude hp
  obtain rfl : c' = c := Except.ok.inj (prelude'.symm.trans prelude)
  have hpc : c'.Running pid := by
    rw [Running.congr procs]
    exact hp
  have cur : Current c'.Running c' pid := ⟨hpc, current, coherent⟩
  rcases memAccess_spec rw data settledc.inv cur page victim with
    ⟨failed, exhausted⟩ | ⟨m, ys, b, u, ok, present, middle, _, touched, after⟩
  · left
    refine ⟨?_, exhausted⟩
    simp [simMemAccess, prelude, failed, bind, Except.bind]
  · right
    have same : u.procs = c'.procs := touched.procs.trans (present.procs settledc.inv)
    obtain ⟨ptbr, now, policym⟩ := present.registers settledc.inv
    have now : u.currentProcess = some pid := touched.currentProcess.trans (now.trans current)
    have settled' : Settled u ys := by
      refine ⟨?_, ?_, ?_⟩
      · rw [Running.congr same]
        exact after
      · intro r hr
        rw [same]
        rw [Running.congr same] at hr
        exact settledc.pids r hr
      · intro r hr
        rw [same]
        exact settledc.current r (current.trans (now.symm.trans hr))
    refine ⟨u, ys, ?_, settled', same.trans procs, now, touched.ptbr.trans ptbr,
      touched.replacement.trans (policym.trans policy)⟩
    simp [simMemAccess, prelude, ok, settled'.check, bind, Except.bind, pure, Except.pure]

/-- An access of a page that is not in memory leaves it in a frame with a count of 0. -/
theorem Settled.access_faults {address : Nat} (rw : Char) (data : UInt8) (settled : Settled s xs)
    (hp : s.Running pid) (page : vaddrVpn address < numPages)
    (prelude : accessPrelude pid s = .ok c) (coherent : c.ptbr = (c.procs pid).savedPtbr)
    (invalid : c.entry pid (vaddrVpn address) .valid = 0) (victim : VictimOk env c) :
    (∃ heap, env.calloc heap = none) ∨
    ∃ t ys, simMemAccess env pid rw address data s = .ok t ∧ Settled t ys ∧ t.procs = s.procs ∧
      t.replacement = s.replacement ∧ t.entry pid (vaddrVpn address) .valid ≠ 0 ∧
      t.fte (t.entry pid (vaddrVpn address) .pfn) .refCount = 0 := by
  rcases settled.access_spec rw data hp page prelude coherent (fun _ => victim) with
    ⟨_, exhausted⟩ | ⟨t, ys, ok, settledt, procst, _, _, policy⟩
  · exact .inl exhausted
  obtain ⟨c', prelude', settledc, procs, current, _⟩ := settled.prelude hp
  obtain rfl : c' = c := Except.ok.inj (prelude'.symm.trans prelude)
  have hpc : c'.Running pid := by
    rw [Running.congr procs]
    exact hp
  have cur : Current c'.Running c' pid := ⟨hpc, current, coherent⟩
  rcases memAccess_spec rw data settledc.inv cur page (fun _ => victim) with
    ⟨_, exhausted⟩ | ⟨m, _, b, u, ok', present, invm, valid, touched, _⟩
  · exact .inl exhausted
  obtain rfl : t = u := by
    cases checked : corruptionCheck u with
    | error e => simp [simMemAccess, prelude, ok', checked, bind, Except.bind] at ok
    | ok => simpa [simMemAccess, prelude, ok', checked, bind, Except.bind, pure, Except.pure,
        eq_comm] using ok
  refine .inr ⟨t, ys, ok, settledt, procst, policy, ?_, ?_⟩
  · rw [touched.entry _ (by decide) (by decide)]
    exact valid
  · cases present with
    | hit present => exact absurd invalid present
    | miss _ _ hv _ _ loaded _ =>
      rw [touched.entry _ (by decide) (by decide), loaded.pfn, touched.fte _ hv, loaded.refCount]

theorem Settled.access {rw : Char} {address : Nat} {data : UInt8} (sound : SoundVictims env)
    (settled : Settled s xs) (hp : s.Running pid) (page : vaddrVpn address < numPages)
    (prelude : accessPrelude pid s = .ok c) (coherent : c.ptbr = (c.procs pid).savedPtbr)
    (ok : simMemAccess env pid rw address data s = .ok t) :
    ∃ ys, Settled t ys ∧ t.procs = s.procs ∧ t.currentProcess = some pid ∧ t.ptbr = c.ptbr ∧
      t.replacement = s.replacement := by
  have victim : c.entry pid (vaddrVpn address) .valid = 0 → VictimOk env c := by
    intro invalid
    obtain ⟨c', prelude', settledc, procs, _⟩ := settled.prelude hp
    obtain rfl : c' = c := Except.ok.inj (prelude'.symm.trans prelude)
    have hpc : c'.Running pid := by
      rw [Running.congr procs]
      exact hp
    have entry : entryAt c'.ptbr (vaddrVpn address) =
        .ok (pteAddr (c'.procs pid).savedPtbr (vaddrVpn address)) := by
      rw [coherent]
      exact entryAt_eq (settledc.inv.tableLt hpc) page
    have invalid' : c'.pte (pteAddr (c'.procs pid).savedPtbr (vaddrVpn address)) .valid = 0 :=
      invalid
    cases free : freeFrame env c' with
    | error e =>
      simp [simMemAccess, prelude, memAccess, pageFault, entry, invalid', free, bind,
        Except.bind] at ok
    | ok r => exact sound _ r settledc.inv.framesOwned free
  rcases settled.access_spec rw data hp page prelude coherent victim with
    ⟨failed, _⟩ | ⟨t', ys, ok', rest⟩
  · simp [failed] at ok
  · obtain rfl : t' = t := Except.ok.inj (ok'.symm.trans ok)
    exact ⟨ys, rest⟩

end

end SystemsProjects.Vm
