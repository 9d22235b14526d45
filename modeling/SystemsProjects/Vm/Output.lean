import SystemsProjects.Vm.Calls
import SystemsProjects.Vm.FlatMemory
import SystemsProjects.Vm.FrameZero

/-!
# What the simulator prints

The loop of `main` in `pagesim.c` with its lines, of which a read has the byte that
`mem_access` returns. They are the lines of a machine that has a memory for each process
and no paging at all.
-/

namespace SystemsProjects.Vm

open VM Loops

/-- A line of output: `step`, the pid, and for an access its address and byte. -/
inductive Line where
  | started (step pid : Nat)
  | stopped (step pid : Nat)
  | read (step pid address : Nat) (data : UInt8)
  | wrote (step pid address : Nat) (data : UInt8)
  deriving DecidableEq

/-- The line of an access; any access but `r` is printed as `w`. -/
def Line.ofAccess (step pid : Nat) (rw : Char) (address : Nat) (data newData : UInt8) : Line :=
  if rw = 'r' then .read step pid address newData else .wrote step pid address data

def simLine (env : Env) (step : Nat) : Cmd → VM → Except Fault (Line × VM)
  | .start pid, s => do
    let s ← simStartProc env pid s
    return (.started step pid, s)
  | .stop pid, s => do
    let s ← simStopProc pid s
    return (.stopped step pid, s)
  | .access pid rw address data, s => do
    let s ← accessPrelude pid s
    let (newData, s) ← memAccess env address rw data s
    corruptionCheck s
    return (.ofAccess step pid rw address data newData, s)

/-- `step` is a `uint32_t`. -/
def mainLoop (env : Env) : Nat → List Cmd → VM → Except Fault (List Line × VM)
  | _, [], s => .ok ([], s)
  | step, cmd :: cmds, s => do
    let (line, s) ← simLine env step cmd s
    let (lines, s) ← mainLoop env ((step + 1) % 2 ^ 32) cmds s
    return (line :: lines, s)

/-- `main`, for a trace that was parsed. -/
def simulate (env : Env) (mem : Bytes.ByteMem) (replacement : Replacement) (check : Bool)
    (cmds : List Cmd) : Except Fault (List Line × VM) := do
  let s := initial mem replacement check
  if s.checkCorruption then checkValidity 0 s
  mainLoop env 0 cmds s

/-! ## The machine without paging -/

/-- What it prints for a command, and its memory afterwards. -/
def Flat.line (m : Flat) (step : Nat) : Cmd → Line × Flat
  | .start pid => (.started step pid, m.clear pid)
  | .stop pid => (.stopped step pid, m)
  | .access pid rw address data =>
    (.ofAccess step pid rw address data (m pid address),
      if rw = 'w' then m.write pid address data else m)

def Flat.lines (m : Flat) : Nat → List Cmd → List Line
  | _, [] => []
  | step, cmd :: cmds =>
    (m.line step cmd).1 :: Flat.lines (m.line step cmd).2 ((step + 1) % 2 ^ 32) cmds

/-! ## Traces that name what they may name -/

/-- The running processes, and the one that had the last access. -/
structure Roster where
  running : List Nat
  last : Option Nat

def Roster.next (r : Roster) : Cmd → Roster
  | .start pid => { r with running := pid :: r.running }
  | .stop pid => { r with running := r.running.filter (· ≠ pid) }
  | .access pid _ _ _ => { r with last := some pid }

/-- A process is not started again while it is the one that had the last access. -/
def Roster.Admits (r : Roster) : Cmd → Prop
  | .start pid => pid < maxPid ∧ pid ∉ r.running ∧ r.last ≠ some pid
  | .stop pid => pid ∈ r.running
  | .access pid _ address _ => pid ∈ r.running ∧ address < 2 ^ vaddrLen

instance (r : Roster) (cmd : Cmd) : Decidable (r.Admits cmd) := by
  cases cmd <;> unfold Roster.Admits <;> infer_instance

def Roster.WellFormed (r : Roster) : List Cmd → Prop
  | [] => True
  | cmd :: cmds => r.Admits cmd ∧ (r.next cmd).WellFormed cmds

instance Roster.decidableWellFormed (r : Roster) : (cmds : List Cmd) → Decidable (r.WellFormed cmds)
  | [] => .isTrue trivial
  | cmd :: cmds => @instDecidableAnd _ _ _ ((r.next cmd).decidableWellFormed cmds)

/-- As the driver is before the first command. -/
def Roster.empty : Roster := ⟨[], none⟩

/-- What holds between two commands of a well-formed trace. -/
structure Follows (s : VM) (r : Roster) (m : Flat) (n : Nat) (xs : List Slot) : Prop where
  settled : Settled s xs
  coherent : Coherent s
  running : ∀ p, s.Running p ↔ p ∈ r.running
  last : s.currentProcess = r.last
  counted : ∃ h : List Moment, h.length = n ∧ Counted (entriesCreated h) s xs
  agrees : n < 2 ^ 64 → Agrees s.Running s xs m

section

variable {env : Env} {s t c : VM} {xs ys : List Slot} {m : Flat} {r : Roster} {n step : Nat}
  {pid : Nat} {cmd : Cmd} {cmds : List Cmd} {line : Line} {lines : List Line}

/-- The lines are of the commands as before. -/
theorem simLine_cmd (ok : simLine env step cmd s = .ok (line, t)) : simCmd env cmd s = .ok t := by
  cases cmd with
  | start pid =>
    obtain ⟨u, start, ok⟩ := bind_ok.mp ok
    cases ok
    exact start
  | stop pid =>
    obtain ⟨u, stop, ok⟩ := bind_ok.mp ok
    cases ok
    exact stop
  | access pid rw address data =>
    obtain ⟨c, prelude, ok⟩ := bind_ok.mp ok
    obtain ⟨⟨b, u⟩, access, ok⟩ := bind_ok.mp ok
    obtain ⟨check, ok⟩ := check_ok.mp ok
    cases ok
    show simMemAccess env pid rw address data s = _
    simp only [simMemAccess, bind, Except.bind, prelude, access, check]
    rfl

/-! ## Before an access -/

/-- The processes see what they saw. -/
theorem Settled.prelude_sees (settled : Settled s xs) (agrees : Agrees s.Running s xs m)
    (prelude : accessPrelude pid s = .ok c) : Agrees c.Running c xs m := by
  obtain ⟨u, aged, swap, mem, procs⟩ := accessPrelude_cases prelude
  have same : Agrees u.Running u xs m := by
    rcases aged with rfl | aged
    · exact agrees
    · let s₁ : VM := { s with daemonCounter := (s.daemonCounter + 1) % 2 ^ 16 }
      have inv₁ : Inv s₁.Running s₁ xs := settled.inv.congr rfl rfl (fun _ _ => rfl)
      obtain ⟨u', ok, usage⟩ := daemonUpdate_usage inv₁.framesOwned
      obtain rfl := Except.ok.inj (ok.symm.trans aged)
      have before : Agrees s₁.Running s₁ xs m := ⟨agrees.inMemory, agrees.onDisk⟩
      rw [Running.congr usage.procs]
      exact before.usage inv₁ usage
  rw [Running.congr procs]
  refine same.congr (fun p v _ _ G _ => ?_) (fun p v _ _ _ o _ => ?_) (fun _ _ _ _ x hx _ _ => hx)
  · rw [VM.entry, VM.entry, procs, VM.pte, VM.pte, mem]
  · rw [VM.byte, VM.byte, mem]

theorem prelude_swap (settled : Settled s xs) (prelude : accessPrelude pid s = .ok c) :
    c.swap = s.swap := by
  obtain ⟨u, aged, swap, _⟩ := accessPrelude_cases prelude
  rcases aged with rfl | aged
  · exact swap
  · let s₁ : VM := { s with daemonCounter := (s.daemonCounter + 1) % 2 ^ 16 }
    have inv₁ : Inv s₁.Running s₁ xs := settled.inv.congr rfl rfl (fun _ _ => rfl)
    obtain ⟨u', ok, usage⟩ := daemonUpdate_usage inv₁.framesOwned
    obtain rfl := Except.ok.inj (ok.symm.trans aged)
    exact swap.trans usage.swap

/-! ## One command -/

/-- A call that has returned is one more moment, and the flat memory has made its step. -/
theorem Follows.called {op : Op} {b : UInt8} {h : List Moment} (inv : Inv s.Running s xs)
    (counted : Counted (entriesCreated h) s xs)
    (agrees : h.length < 2 ^ 64 → Agrees s.Running s xs m)
    (effect : Effect env s xs op b t ys) :
    (∃ h' : List Moment, h'.length = h.length + 1 ∧ Counted (entriesCreated h') t ys) ∧
      (h.length + 1 < 2 ^ 64 → 0 ∉ ids ys ∧ Agrees t.Running t ys
      (m.step s.currentProcess op)) := by
  have counted' := (effect.swapEffect inv).counted op b inv counted
  refine ⟨⟨_ :: h, rfl, counted'⟩, fun few => ?_⟩
  have below : entriesCreated (⟨s, op, b, t⟩ :: h) < 2 ^ 64 := entriesCreated_lt few
  have nonzero : 0 ∉ ids ys := fun zero => below.ne (counted'.zero_iff.mp zero)
  exact ⟨nonzero, effect.agrees inv (agrees (by omega)) nonzero⟩

theorem Follows.start (sound : SoundVictims env) (follows : Follows s r m n xs)
    (admits : r.Admits (.start pid)) (ok : simStartProc env pid s = .ok t) :
    ∃ ys, Follows t (r.next (.start pid)) (m.clear pid) (n + 1) ys := by
  obtain ⟨hp, idle, other⟩ := admits
  have out : ¬ s.Running pid := fun running => idle ((follows.running pid).mp running)
  obtain ⟨ys', done⟩ := follows.settled.start sound hp out ok
  obtain ⟨u, init, last⟩ := bind_ok.mp (check_ok.mp ok).2
  obtain ⟨-, last⟩ := check_ok.mp last
  obtain rfl := Except.ok.inj last
  have exec : Op.exec env (.procInit pid) s = .ok (0, u) := by
    simp [Op.exec, init, bind, Except.bind, pure, Except.pure]
  have callable : Op.Callable s (.procInit pid) := ⟨hp, out⟩
  obtain ⟨ys, effect, after⟩ := effect_of_ok sound follows.settled.inv callable exec
  obtain ⟨h, length, counted⟩ := follows.counted
  obtain ⟨⟨h', length', counted'⟩, agrees⟩ := Follows.called follows.settled.inv counted
    (fun few => follows.agrees (length ▸ few)) effect
  have inPlace : RestartsInPlace env s (.start pid) := by
    intro current
    exact absurd (follows.last.symm.trans current) other
  refine ⟨ys, ⟨after, done.settled.pids, done.settled.current⟩,
    follows.settled.coherent_start sound follows.coherent hp out inPlace ok, fun p => ?_, ?_,
    ⟨h', length'.trans (congrArg (· + 1) length), counted'⟩, fun few => ?_⟩
  · rw [done.running]
    show s.Running p ∨ p = pid ↔ p ∈ pid :: r.running
    rw [follows.running p, List.mem_cons]
    exact Or.comm
  · exact done.current.trans follows.last
  · exact (agrees (length ▸ few)).2

theorem Follows.stop (sound : SoundVictims env) (follows : Follows s r m n xs)
    (admits : r.Admits (.stop pid)) (ok : simStopProc pid s = .ok t) :
    ∃ ys, Follows t (r.next (.stop pid)) m (n + 1) ys := by
  have hp : s.Running pid := (follows.running pid).mpr admits
  obtain ⟨ys', settled', running, _, _, current, _⟩ := follows.settled.stop hp ok
  obtain ⟨u, cleanup, last⟩ := bind_ok.mp (check_ok.mp ok).2
  obtain ⟨-, last⟩ := check_ok.mp last
  obtain rfl := Except.ok.inj last
  have exec : Op.exec env (.procCleanup pid) s = .ok (0, stopEpilogue pid u) := by
    simp [Op.exec, cleanup, bind, Except.bind, pure, Except.pure]
  have callable : Op.Callable s (.procCleanup pid) := hp
  obtain ⟨ys, effect, after⟩ := effect_of_ok sound follows.settled.inv callable exec
  obtain ⟨h, length, counted⟩ := follows.counted
  obtain ⟨⟨h', length', counted'⟩, agrees⟩ := Follows.called follows.settled.inv counted
    (fun few => follows.agrees (length ▸ few)) effect
  refine ⟨ys, ⟨after, settled'.pids, settled'.current⟩,
    follows.settled.coherent_stop follows.coherent hp ok, fun p => ?_, ?_,
    ⟨h', length'.trans (congrArg (· + 1) length), counted'⟩, fun few => ?_⟩
  · rw [running]
    show s.Running p ∧ p ≠ pid ↔ p ∈ r.running.filter (· ≠ pid)
    rw [follows.running p, List.mem_filter, decide_eq_true_eq]
  · exact current.trans follows.last
  · exact (agrees (length ▸ few)).2

/-- What `mem_access` returns is what the flat memory has. -/
theorem Follows.access {rw' : Char} {address : Nat} {data b : UInt8} {u : VM}
    (sound : SoundVictims env) (follows : Follows s r m n xs)
    (admits : r.Admits (.access pid rw' address data)) (prelude : accessPrelude pid s = .ok c)
    (access : memAccess env address rw' data c = .ok (b, u))
    (ok : simMemAccess env pid rw' address data s = .ok u) :
    (n + 1 < 2 ^ 64 → rw' = 'r' → b = m pid address) ∧
      ∃ ys, Follows u (r.next (.access pid rw' address data))
        (if rw' = 'w' then m.write pid address data else m) (n + 1) ys := by
  obtain ⟨running, small⟩ := admits
  have hp : s.Running pid := (follows.running pid).mpr running
  obtain ⟨c', prelude', settledc, procs, current, _⟩ := follows.settled.prelude hp
  obtain rfl := Except.ok.inj (prelude'.symm.trans prelude)
  obtain ⟨d, preluded, own⟩ := follows.settled.accessCoherent follows.coherent hp
  obtain rfl := Except.ok.inj (preluded.symm.trans prelude)
  have hpd : d.Running pid := by
    rw [Running.congr procs]
    exact hp
  have cur : Current d.Running d pid := ⟨hpd, current, own⟩
  have callable : (Op.memAccess address rw' data).Callable d := ⟨small, pid, cur⟩
  obtain ⟨ys, effect, after⟩ := effect_of_ok sound settledc.inv callable access
  obtain ⟨ys', settled', procs', current', ptbr', _⟩ :=
    follows.settled.access sound hp (vaddrVpn_lt small) prelude own ok
  obtain ⟨h, length, counted⟩ := follows.counted
  have swap := prelude_swap follows.settled prelude
  have countedd : Counted (entriesCreated h) d xs :=
    ⟨(congrArg SwapSpace.swapId swap).trans counted.swapId, counted.issued, counted.le,
      counted.wrapped⟩
  have agreesd : h.length < 2 ^ 64 → Agrees d.Running d xs m :=
    fun few => follows.settled.prelude_sees (follows.agrees (length ▸ few)) prelude
  obtain ⟨⟨h', length', counted'⟩, agrees⟩ := Follows.called settledc.inv countedd agreesd effect
  refine ⟨fun few read => ?_, ys, ⟨after, settled'.pids, settled'.current⟩, ?_, fun p => ?_,
    current', ⟨h', length'.trans (congrArg (· + 1) length), counted'⟩, fun few => ?_⟩
  · obtain ⟨nonzero, _⟩ := agrees (length ▸ few)
    cases effect with
    | @accessed q _ _ _ e _ _ _ _ cur' present middle valid touched =>
      obtain rfl : q = pid := Option.some.inj (cur'.current.symm.trans current)
      have hw := vaddrVpn_lt small
      have there := present.agrees settledc.inv (agreesd (by omega)) cur'.running hw nonzero
      have stored := there.inMemory cur'.running hw valid _ (vaddrOffset_lt address)
      rw [vaddr_split small] at stored
      rw [touched.result, if_pos read]
      exact stored
  · intro q hq _
    obtain rfl : pid = q := Option.some.inj (current'.symm.trans hq)
    rw [ptbr', own, procs, procs']
  · rw [Running.congr procs', follows.running p]
    rfl
  · have sees := (agrees (length ▸ few)).2
    simpa only [Flat.step, current, Option.elim_some] using sees

theorem Follows.next (sound : SoundVictims env) (follows : Follows s r m n xs)
    (admits : r.Admits cmd) (ok : simLine env step cmd s = .ok (line, t)) :
    (n + 1 < 2 ^ 64 → line = (m.line step cmd).1) ∧
      ∃ ys, Follows t (r.next cmd) (m.line step cmd).2 (n + 1) ys := by
  have cmdOk := simLine_cmd ok
  cases cmd with
  | start pid =>
    obtain ⟨u, _, last⟩ := bind_ok.mp ok
    cases last
    exact ⟨fun _ => rfl, follows.start sound admits cmdOk⟩
  | stop pid =>
    obtain ⟨u, _, last⟩ := bind_ok.mp ok
    cases last
    exact ⟨fun _ => rfl, follows.stop sound admits cmdOk⟩
  | access pid rw' address data =>
    obtain ⟨c, prelude, rest⟩ := bind_ok.mp ok
    obtain ⟨⟨b, u⟩, access, rest⟩ := bind_ok.mp rest
    obtain ⟨_, last⟩ := check_ok.mp rest
    cases last
    obtain ⟨value, next⟩ := follows.access sound admits prelude access cmdOk
    refine ⟨fun few => ?_, next⟩
    simp only [Flat.line, Line.ofAccess]
    split
    · rename_i read
      rw [value few read]
    · rfl

theorem Follows.loop (sound : SoundVictims env) (follows : Follows s r m n xs)
    (wellFormed : r.WellFormed cmds) (few : n + cmds.length < 2 ^ 64)
    (ok : mainLoop env step cmds s = .ok (lines, t)) : lines = m.lines step cmds := by
  induction cmds generalizing step s r m n xs lines with
  | nil =>
    cases ok
    rfl
  | cons cmd cmds ih =>
    obtain ⟨⟨line, u⟩, first, rest⟩ := bind_ok.mp ok
    obtain ⟨⟨more, v⟩, later, last⟩ := bind_ok.mp rest
    cases last
    rw [List.length_cons] at few
    obtain ⟨same, ys, next⟩ := follows.next sound wellFormed.1 first
    rw [Flat.lines, ← same (by omega), ih next wellFormed.2 (by omega) later]

theorem follows_initial {mem : Bytes.ByteMem} {replacement : Replacement} {check : Bool} :
    Follows (initial mem replacement check) Roster.empty Flat.empty 0 [] where
  settled := settled_initial
  coherent p current := by
    simp [initial, systemInit, boot, memset, setFte] at current
  running p := iff_of_false (initial_idle p) List.not_mem_nil
  last := rfl
  counted := by
    refine ⟨[], rfl, rfl, by simp, Nat.zero_le _, ?_⟩
    intro e
    exact absurd e.symm (Nat.pos_of_neZero (2 ^ 64)).ne'
  agrees _ := ⟨fun hp => absurd hp (initial_idle _), fun hp => absurd hp (initial_idle _)⟩

/-! ## A process that runs alone -/

/-- A line is printed if the command succeeds. -/
theorem simLine_of_cmd (step : Nat) (ok : simCmd env cmd s = .ok t) :
    ∃ line, simLine env step cmd s = .ok (line, t) := by
  cases cmd with
  | start pid =>
    have ok : simStartProc env pid s = .ok t := ok
    exact ⟨_, by simp only [simLine, ok, bind, Except.bind]; rfl⟩
  | stop pid =>
    have ok : simStopProc pid s = .ok t := ok
    exact ⟨_, by simp only [simLine, ok, bind, Except.bind]; rfl⟩
  | access pid rw' address data =>
    obtain ⟨c, prelude, rest⟩ := bind_ok.mp ok
    obtain ⟨⟨b, u⟩, access, rest⟩ := bind_ok.mp rest
    obtain ⟨check, last⟩ := check_ok.mp rest
    cases last
    exact ⟨_, by simp only [simLine, prelude, access, check, bind, Except.bind]; rfl⟩

/-- Only process 1 runs, under RANDOM. -/
structure Solo (s : VM) (xs : List Slot) : Prop where
  settled : Settled s xs
  coherent : Coherent s
  running : ∀ p, s.Running p ↔ p = 1
  policy : s.replacement = .random

theorem solo_start (mem : Bytes.ByteMem) : ∃ s xs,
    simCmd standardEnv (.start 1) (initial mem .random false) = .ok s ∧ Solo s xs := by
  have settled : Settled (initial mem .random false) [] := settled_initial
  have free : Evictable (initial mem .random false) 1 :=
    settled.inv.evictable (by decide) (by decide) (fun p hp => absurd hp (initial_idle p))
  obtain ⟨s, xs, ok, done⟩ := settled.start_ok 1 rfl (by decide) (initial_idle 1) free
  refine ⟨s, xs, ok, done.settled, fun p current _ => ?_, fun p => ?_, done.replacement⟩
  · rw [done.current] at current
    simp [initial, systemInit, boot, memset, setFte] at current
  · rw [done.running]
    exact ⟨fun hp => hp.resolve_left (initial_idle p), Or.inr⟩

/-- One of the first two frames has no page table. -/
theorem Solo.evictable (solo : Solo s xs) (inv : Inv c.Running c xs) (procs : c.procs = s.procs) :
    ∃ f, Evictable c f := by
  by_cases first : (s.procs 1).savedPtbr = 1
  · refine ⟨2, inv.evictable (by decide) (by decide) (fun p hp => ?_)⟩
    rw [Running.congr procs, solo.running] at hp
    rw [hp, procs, first]
    decide
  · refine ⟨1, inv.evictable (by decide) (by decide) (fun p hp => ?_)⟩
    rw [Running.congr procs, solo.running] at hp
    rw [hp, procs]
    exact first

/-- Another process may start. -/
theorem Solo.other (solo : Solo s xs) (pid : Nat) (ne : pid ≠ 1) (hp : pid < maxPid) :
    ∃ t, simCmd standardEnv (.start pid) s = .ok t := by
  obtain ⟨f, free⟩ := solo.evictable solo.settled.inv rfl
  have out : ¬ s.Running pid := fun running => ne ((solo.running pid).mp running)
  obtain ⟨t, _, ok, _⟩ := solo.settled.start_ok pid solo.policy hp out free
  exact ⟨t, ok⟩

/-- Every access of it succeeds. -/
theorem Solo.access (solo : Solo s xs) (rw' : Char) (address : Nat) (data : UInt8)
    (small : address < 2 ^ vaddrLen) :
    ∃ t ys, simCmd standardEnv (.access 1 rw' address data) s = .ok t ∧ Solo t ys := by
  have hp : s.Running 1 := (solo.running 1).mpr rfl
  obtain ⟨c, prelude, settledc, procs, _, policy, _⟩ := solo.settled.prelude hp
  obtain ⟨d, prelude', own⟩ := solo.settled.accessCoherent solo.coherent hp
  obtain rfl := Except.ok.inj (prelude'.symm.trans prelude)
  obtain ⟨f, free⟩ := solo.evictable settledc.inv procs
  have victim := victimOk_random standardEnv_own (policy.trans solo.policy) free
  rcases solo.settled.access_spec rw' data hp (vaddrVpn_lt small) prelude own (fun _ => victim)
    with ⟨_, _, none⟩ | ⟨t, ys, ok, settled', procs', current', ptbr', policy'⟩
  · exact absurd none (standardEnv_alloc _)
  · refine ⟨t, ys, ok, settled', fun p current _ => ?_, fun p => ?_, policy'.trans solo.policy⟩
    · obtain rfl : 1 = p := Option.some.inj (current'.symm.trans current)
      rw [ptbr', own, procs, procs']
    · rw [Running.congr procs']
      exact solo.running p

theorem mainLoop_cons {cmd : Cmd} {cmds : List Cmd} {u : VM}
    (first : simCmd env cmd s = .ok u)
    (rest : ∀ step, ∃ lines, mainLoop env step cmds u = .ok (lines, t)) (step : Nat) :
    ∃ lines, mainLoop env step (cmd :: cmds) s = .ok (lines, t) := by
  obtain ⟨line, ok⟩ := simLine_of_cmd step first
  obtain ⟨lines, more⟩ := rest ((step + 1) % 2 ^ 32)
  exact ⟨line :: lines, by simp only [mainLoop, ok, more, bind, Except.bind]; rfl⟩

end

/-! ## One process among others -/

/-- The address and the byte, if the line is of a read of process `p`. -/
def Line.readBy (p : Nat) : Line → Option (Nat × UInt8)
  | .read _ pid address data => if pid = p then some (address, data) else none
  | _ => none

/-- What a command of the process leaves in its memory. -/
def ownStep (own : Nat → UInt8) : Cmd → Nat → UInt8
  | .start _ => fun _ => 0
  | .stop _ => own
  | .access _ rw address data => if rw = 'w' then Function.update own address data else own

def ownRead (own : Nat → UInt8) : Cmd → Option (Nat × UInt8)
  | .access _ rw address _ => if rw = 'r' then some (address, own address) else none
  | _ => none

/-- What a process reads by its own commands, from the memory `own`. -/
def readsOf (own : Nat → UInt8) : List Cmd → List (Nat × UInt8)
  | [] => []
  | cmd :: cmds => (ownRead own cmd).toList ++ readsOf (ownStep own cmd) cmds

section

variable (p : Nat) (m : Flat) (step : Nat)

/-- A command reaches the memory of its own process only. -/
theorem Flat.line_memory (cmd : Cmd) :
    (m.line step cmd).2 p = if cmd.pid = p then ownStep (m p) cmd else m p := by
  cases cmd with
  | start pid =>
    by_cases here : pid = p
    · funext a
      simp [Flat.line, Flat.clear, Cmd.pid, ownStep, here]
    · funext a
      simp [Flat.line, Flat.clear, Cmd.pid, here, Ne.symm here]
  | stop pid => simp [Flat.line, ownStep]
  | access pid rw' address data =>
    by_cases write : rw' = 'w'
    · by_cases here : pid = p
      · funext a
        by_cases same : a = address
        · simp [Flat.line, Flat.write, Cmd.pid, ownStep, write, here, same]
        · simp [Flat.line, Flat.write, Cmd.pid, ownStep, write, here, same]
      · funext a
        simp [Flat.line, Flat.write, Cmd.pid, write, here, Ne.symm here]
    · simp [Flat.line, ownStep, write]

theorem Flat.line_readBy (cmd : Cmd) :
    Line.readBy p (m.line step cmd).1 = if cmd.pid = p then ownRead (m p) cmd else none := by
  cases cmd with
  | start pid => simp [Flat.line, Line.readBy, ownRead]
  | stop pid => simp [Flat.line, Line.readBy, ownRead]
  | access pid rw' address data =>
    by_cases read : rw' = 'r'
    · by_cases here : pid = p
      · simp [Flat.line, Line.ofAccess, Line.readBy, Cmd.pid, ownRead, read, here]
      · simp [Flat.line, Line.ofAccess, Line.readBy, Cmd.pid, read, here]
    · simp [Flat.line, Line.ofAccess, Line.readBy, ownRead, read]

/-- The reads of a process are those of its commands alone. -/
theorem Flat.lines_readBy (cmds : List Cmd) :
    (m.lines step cmds).filterMap (Line.readBy p) =
      readsOf (m p) (cmds.filter (fun cmd => cmd.pid = p)) := by
  induction cmds generalizing m step with
  | nil => rfl
  | cons cmd cmds ih =>
    rw [Flat.lines, List.filterMap_cons, Flat.line_readBy, ih, Flat.line_memory, List.filter_cons]
    by_cases here : cmd.pid = p
    · simp only [if_pos here, decide_eq_true here, if_true, readsOf]
      cases ownRead (m p) cmd <;> rfl
    · simp only [if_neg here, decide_eq_false here, Bool.false_eq_true, if_false]

end

/-! ## Every trace -/

section

variable {env : Env} {prng : Nat → Nat} {limit : Nat} {mem : Bytes.ByteMem}
  {replacement : Replacement} {check : Bool} {cmds : List Cmd} {lines : List Line} {s : VM}

theorem mainLoop_of_simulate (ok : simulate env mem replacement check cmds = .ok (lines, s)) :
    mainLoop env 0 cmds (initial mem replacement check) = .ok (lines, s) := by
  by_cases checked : (initial mem replacement check).checkCorruption = true
  · simp only [simulate, if_pos checked] at ok
    exact (check_ok.mp ok).2
  · simpa only [simulate, if_neg checked] using ok

theorem simulate_lines (own : env.select = selectVictimFrame prng limit)
    (wellFormed : Roster.empty.WellFormed cmds) (few : cmds.length < 2 ^ 64)
    (ok : simulate env mem replacement check cmds = .ok (lines, s)) :
    lines = Flat.empty.lines 0 cmds :=
  follows_initial.loop (soundVictims_program own) wellFormed (by rwa [Nat.zero_add])
    (mainLoop_of_simulate ok)

/-- Whatever the replacement policy, the memory at the start and the optional check, the
program prints the lines of the machine without paging. -/
theorem output_is_flat (own : env.select = selectVictimFrame prng limit)
    (wellFormed : Roster.empty.WellFormed cmds) (few : cmds.length < 2 ^ 64)
    (ok : simulate env mem replacement check cmds = .ok (lines, s)) :
    lines = Flat.empty.lines 0 cmds :=
  simulate_lines own wellFormed few ok

/-- Two programs with the same commands for `p` show it the same bytes, whatever else runs
in them and whichever policy moves the pages. -/
theorem reads_isolated {env' : Env} {prng' : Nat → Nat} {limit' : Nat} {mem' : Bytes.ByteMem}
    {replacement' : Replacement} {check' : Bool} {cmds' : List Cmd} {lines' : List Line} {s' : VM}
    {p : Nat} (own : env.select = selectVictimFrame prng limit)
    (own' : env'.select = selectVictimFrame prng' limit')
    (wellFormed : Roster.empty.WellFormed cmds) (wellFormed' : Roster.empty.WellFormed cmds')
    (few : cmds.length < 2 ^ 64) (few' : cmds'.length < 2 ^ 64)
    (same : cmds.filter (fun cmd => cmd.pid = p) = cmds'.filter (fun cmd => cmd.pid = p))
    (ok : simulate env mem replacement check cmds = .ok (lines, s))
    (ok' : simulate env' mem' replacement' check' cmds' = .ok (lines', s')) :
    lines.filterMap (Line.readBy p) = lines'.filterMap (Line.readBy p) := by
  rw [simulate_lines own wellFormed few ok, simulate_lines own' wellFormed' few' ok',
    Flat.lines_readBy, Flat.lines_readBy, same]

end

/-- A process that writes 7 and reads it back. -/
def writesSeven : List Cmd := [.start 1, .access 1 'w' 5 7, .access 1 'r' 5 0]

theorem writesSeven_simulates (mem : Bytes.ByteMem) : ∃ t,
    (∃ lines, simulate standardEnv mem .random false writesSeven = .ok (lines, t)) ∧
    ∃ lines u, simulate standardEnv mem .random false (writesSeven ++ [.start 2]) =
      .ok (lines, u) := by
  obtain ⟨s, xs, start, solo⟩ := solo_start mem
  obtain ⟨t, ys, write, solo⟩ := solo.access 'w' 5 7 (by decide)
  obtain ⟨u, zs, read, solo⟩ := solo.access 'r' 5 0 (by decide)
  obtain ⟨v, other⟩ := solo.other 2 (by decide) (by decide)
  have done : ∀ w step, ∃ lines, mainLoop standardEnv step [] w = .ok (lines, w) :=
    fun _ _ => ⟨[], rfl⟩
  obtain ⟨lines, ok⟩ := mainLoop_cons start (mainLoop_cons write (mainLoop_cons read (done u))) 0
  obtain ⟨lines', ok'⟩ := mainLoop_cons start
    (mainLoop_cons write (mainLoop_cons read (mainLoop_cons other (done v)))) 0
  exact ⟨u, ⟨lines, ok⟩, lines', v, ok'⟩

theorem output_is_flat_seven : ∃ s, simulate standardEnv (fun _ => 0) .random false writesSeven =
    .ok ([.started 0 1, .wrote 1 1 5 7, .read 2 1 5 7], s) := by
  obtain ⟨s, ⟨lines, ok⟩, _⟩ := writesSeven_simulates (fun _ => 0)
  obtain rfl := output_is_flat standardEnv_own (by decide) (by decide) ok
  exact ⟨s, ok⟩

/-- Neither another memory at the start nor another process makes a difference. -/
theorem reads_isolated_seven : ∃ lines lines' s s',
    simulate standardEnv (fun _ => 0) .random false writesSeven = .ok (lines, s) ∧
    simulate standardEnv (fun _ => 1) .random false (writesSeven ++ [.start 2]) = .ok (lines', s') ∧
    lines.filterMap (Line.readBy 1) = lines'.filterMap (Line.readBy 1) := by
  obtain ⟨s, ⟨lines, ok⟩, _⟩ := writesSeven_simulates (fun _ => 0)
  obtain ⟨_, _, lines', s', ok'⟩ := writesSeven_simulates (fun _ => 1)
  exact ⟨lines, lines', s, s', ok, ok', reads_isolated standardEnv_own standardEnv_own (by decide)
    (by decide) (by decide) (by decide) (by decide) ok ok'⟩

end SystemsProjects.Vm
