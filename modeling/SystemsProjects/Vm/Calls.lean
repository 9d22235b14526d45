import SystemsProjects.Vm.Registers

/-!
# The calls that the driver makes

A run is any sequence of calls that return, each called as the driver calls it. The driver
counts the accesses in between. Every trace of commands is such a run.
-/

namespace SystemsProjects.Vm

open VM

/-- The runs from `init` with their calls, the last one first. -/
inductive Calls (env : Env) (init : VM) : List Moment → VM → Prop
  | start : Calls env init [] init
  | count {h s} (n : Nat) : Calls env init h s → Calls env init h { s with daemonCounter := n }
  | next {h s op b t} : Calls env init h s → op.Callable s → op.exec env s = .ok (b, t) →
      Calls env init (⟨s, op, b, t⟩ :: h) t

/-- The page that a call accesses. -/
def Moment.page (m : Moment) : Option (Nat × Nat) :=
  match m.op with
  | .memAccess addr _ _ => m.before.currentProcess.map fun pid => (pid, vaddrVpn addr)
  | _ => none

/-- The calls that a trace of commands comes down to. -/
inductive Spells : List Cmd → List Op → Prop
  | none : Spells [] []
  | start {cmds ops pid} : Spells cmds ops → Spells (.start pid :: cmds) (.procInit pid :: ops)
  | stop {cmds ops pid} : Spells cmds ops → Spells (.stop pid :: cmds) (.procCleanup pid :: ops)
  | access {cmds ops pid rw addr data} {before : List Op}
      (only : ∀ op ∈ before, op = .daemonUpdate ∨ op = .contextSwitch pid) : Spells cmds ops →
      Spells (.access pid rw addr data :: cmds) (.memAccess addr rw data :: (before ++ ops))

section

variable {env : Env} {init s t c : VM} {xs : List Slot} {h : List Moment} {op : Op} {b : UInt8}
  {pid : Nat}

/-- A call that returns has asked for victims that may be evicted. -/
theorem victimsOk_of_ok (sound : SoundVictims env) (inv : Inv s.Running s xs)
    (callable : op.Callable s) (ok : op.exec env s = .ok (b, t)) : op.VictimsOk env s := by
  cases op with
  | procInit p =>
    cases free : freeFrame env (startPrelude p s) with
    | error e => simp [Op.exec, procInit, free, bind, Except.bind] at ok
    | ok r => exact sound _ r inv.startPrelude.framesOwned free
  | contextSwitch p => trivial
  | procCleanup p => trivial
  | daemonUpdate => trivial
  | memAccess addr access data =>
    obtain ⟨small, r, cur⟩ := callable
    intro p current invalid
    obtain rfl : r = p := Option.some.inj (cur.current.symm.trans current)
    have entry : entryAt s.ptbr (vaddrVpn addr) =
        .ok (pteAddr (s.procs r).savedPtbr (vaddrVpn addr)) := by
      rw [cur.ptbr]
      exact entryAt_eq (inv.tableLt cur.running) (vaddrVpn_lt small)
    have invalid' : s.pte (pteAddr (s.procs r).savedPtbr (vaddrVpn addr)) .valid = 0 := invalid
    cases free : freeFrame env s with
    | error e => simp [Op.exec, memAccess, pageFault, entry, invalid', free, bind,
      Except.bind] at ok
    | ok r => exact sound _ r inv.framesOwned free

theorem effect_of_ok (sound : SoundVictims env) (inv : Inv s.Running s xs)
    (callable : op.Callable s) (ok : op.exec env s = .ok (b, t)) :
    ∃ ys, Effect env s xs op b t ys ∧ Inv t.Running t ys := by
  rcases exec_effect inv callable (victimsOk_of_ok sound inv callable ok) with ⟨failed, _⟩ |
    ⟨b', t', ys, ok', rest⟩
  · rw [failed] at ok
    cases ok
  · obtain ⟨rfl, rfl⟩ := Prod.mk.inj (Except.ok.inj (ok'.symm.trans ok))
    exact ⟨ys, rest⟩

/-- What holds at the start, and is handed on by every call, holds at the end of every run. -/
theorem Calls.invariant {mem : Bytes.ByteMem} {replacement : Replacement} {check : Bool}
    (sound : SoundVictims env) (J : List Moment → VM → List Slot → Prop)
    (start : J [] (initial mem replacement check) [])
    (count : ∀ h s xs n, J h s xs → J h { s with daemonCounter := n } xs)
    (step : ∀ h s xs op b t ys, Inv s.Running s xs → J h s xs → op.Callable s → op.exec env s =
      .ok (b, t) → Effect env s xs op b t ys → Inv t.Running t ys → J (⟨s, op, b, t⟩ :: h) t ys)
    (calls : Calls env (initial mem replacement check) h s) :
      ∃ xs, Inv s.Running s xs ∧ J h s xs := by
  induction calls with
  | start => exact ⟨[], inv_initial, start⟩
  | @count h s n _ ih =>
    obtain ⟨xs, inv, held⟩ := ih
    exact ⟨xs, inv.congr rfl rfl (fun _ _ => rfl), count h s xs n held⟩
  | next _ callable ok ih =>
    obtain ⟨xs, inv, held⟩ := ih
    obtain ⟨ys, effect, after⟩ := effect_of_ok sound inv callable ok
    exact ⟨ys, after, step _ _ _ _ _ _ _ inv held callable ok effect after⟩

/-! ## Traces -/

/-- The driver counts the access, and the frames may age. -/
theorem Calls.counted (calls : Calls env init h s) (settled : Settled s xs) (pid : Nat) :
    ∃ m h' before, Calls env init h' m ∧ m.procs = s.procs ∧
      h'.map Moment.op = before ++ h.map Moment.op ∧
      (∀ op ∈ before, op = .daemonUpdate) ∧
      accessPrelude pid s = if m.currentProcess.all (fun p => (m.procs p).pid ≠ pid) then do
          procAt pid
          return { contextSwitch pid m with currentProcess := some pid }
        else return m := by
  let s₁ : VM := { s with daemonCounter := (s.daemonCounter + 1) % 2 ^ 16 }
  have calls₁ : Calls env init h s₁ := calls.count _
  by_cases wake : (s.daemonCounter + 1) % 2 ^ 16 ≥ daemonWakeupPeriod ∧ s.replacement = .approxLru
  · have inv₁ : Inv s.Running s₁ xs := settled.inv.congr rfl rfl (fun _ _ => rfl)
    obtain ⟨u, ok, usage⟩ := daemonUpdate_usage inv₁.framesOwned
    have exec : Op.exec env .daemonUpdate s₁ = .ok (0, u) := by
      simp [Op.exec, ok, bind, Except.bind, pure, Except.pure]
    have callable : Op.Callable s₁ .daemonUpdate := trivial
    refine ⟨{ u with daemonCounter := 0 }, _, [.daemonUpdate], (calls₁.next callable exec).count 0,
      usage.procs, rfl, fun op only => List.mem_singleton.mp only, ?_⟩
    simp only [accessPrelude, if_pos wake, bind, Except.bind]
    rw [show daemonUpdate { s with daemonCounter := (s.daemonCounter + 1) % 2 ^ 16 } =
      .ok u from ok]
    rfl
  · refine ⟨s₁, h, [], calls₁, rfl, rfl, fun op mem => absurd mem List.not_mem_nil, ?_⟩
    simp only [accessPrelude, if_neg wake, bind, Except.bind]
    rfl

/-- What it does before `mem_access` is a run too. -/
theorem Calls.prelude (calls : Calls env init h s) (settled : Settled s xs) (hp : s.Running pid)
    (prelude : accessPrelude pid s = .ok c) : ∃ h' before, Calls env init h' c ∧
      h'.map Moment.op = before ++ h.map Moment.op ∧ ∀ op ∈ before, op = .daemonUpdate ∨
      op = .contextSwitch pid := by
  obtain ⟨m, h', before, calls', procs, ops, only, same⟩ := calls.counted settled pid
  rw [same] at prelude
  split at prelude
  · have callable : Op.Callable m (.contextSwitch pid) := by
      show m.Running pid
      rw [Running.congr procs]
      exact hp
    simp only [procAt, if_pos hp.1, bind, Except.bind, pure, Except.pure] at prelude
    obtain rfl : contextSwitch pid m = c := Except.ok.inj prelude
    refine ⟨_, .contextSwitch pid :: before, calls'.next callable rfl, ?_, ?_⟩
    · rw [List.map_cons, ops]
      rfl
    · rintro op (_ | ⟨_, mem⟩)
      · exact Or.inr rfl
      · exact Or.inl (only op mem)
  · obtain rfl := Except.ok.inj prelude
    exact ⟨h', before, calls', ops, fun op mem => Or.inl (only op mem)⟩

/-- Every trace whose accesses go through the page table of their process is a run. -/
theorem Trace.calls {mem : Bytes.ByteMem} {replacement : Replacement} {check : Bool}
    {cmds : List Cmd} (sound : SoundVictims env)
    (trace : Trace env AccessCoherent (initial mem replacement check) cmds s) :
    ∃ h xs, Settled s xs ∧ Calls env (initial mem replacement check) h s ∧
      Spells cmds (h.map Moment.op) := by
  induction trace with
  | start => exact ⟨[], [], settled_initial, .start, .none⟩
  | @next cmds s cmd t _ legal coherent ok ih =>
    obtain ⟨h, xs, settled, calls, spells⟩ := ih
    cases cmd with
    | start pid =>
      obtain ⟨ys, done⟩ := settled.start sound legal.1 legal.2 ok
      obtain ⟨⟨⟩, _, ok⟩ := Loops.bind_ok.mp ok
      obtain ⟨u, init, ok⟩ := Loops.bind_ok.mp ok
      obtain ⟨-, last⟩ := Loops.check_ok.mp ok
      obtain rfl := Except.ok.inj last
      have exec : Op.exec env (.procInit pid) s = .ok (0, u) := by
        simp [Op.exec, init, bind, Except.bind, pure, Except.pure]
      have callable : Op.Callable s (.procInit pid) := legal
      exact ⟨_, ys, done.settled, calls.next callable exec, .start spells⟩
    | stop pid =>
      obtain ⟨ys, settled', _⟩ := settled.stop legal ok
      obtain ⟨⟨⟩, _, ok⟩ := Loops.bind_ok.mp ok
      obtain ⟨u, cleanup, ok⟩ := Loops.bind_ok.mp ok
      obtain ⟨-, last⟩ := Loops.check_ok.mp ok
      obtain rfl := Except.ok.inj last
      have exec : Op.exec env (.procCleanup pid) s = .ok (0, stopEpilogue pid u) := by
        simp [Op.exec, cleanup, bind, Except.bind, pure, Except.pure]
      have callable : Op.Callable s (.procCleanup pid) := legal
      exact ⟨_, ys, settled', calls.next callable exec, .stop spells⟩
    | access pid rw address data =>
      obtain ⟨c, prelude, settledc, procs, current, _⟩ := settled.prelude legal.1
      have own := coherent c prelude
      obtain ⟨ys, settled', _⟩ := settled.access sound legal.1 (vaddrVpn_lt legal.2) prelude own ok
      obtain ⟨h', before, calls', ops, only⟩ := calls.prelude settled legal.1 prelude
      obtain ⟨c', prelude', ok⟩ := Loops.bind_ok.mp ok
      obtain rfl : c = c' := Except.ok.inj (prelude.symm.trans prelude')
      obtain ⟨⟨b, u⟩, access, ok⟩ := Loops.bind_ok.mp ok
      obtain ⟨-, last⟩ := Loops.check_ok.mp ok
      obtain rfl := Except.ok.inj last
      have running : c.Running pid := by
        rw [Running.congr procs]
        exact legal.1
      have callable : (Op.memAccess address rw data).Callable c :=
        ⟨legal.2, pid, running, current, own⟩
      refine ⟨_, ys, settled', calls'.next callable access, ?_⟩
      rw [List.map_cons, ops]
      exact .access only spells

end

end SystemsProjects.Vm
