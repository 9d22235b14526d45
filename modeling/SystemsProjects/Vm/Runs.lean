import SystemsProjects.Vm.Stopping

/-!
# Runs

Any number of operations in any order, each called as its contract allows. The
driver's bookkeeping around `proc_init` and `proc_cleanup` is part of the
operation, so that the processes between the two are the running ones.
-/

namespace SystemsProjects.Vm

open VM

inductive Op where
  | procInit (pid : Nat)
  | contextSwitch (pid : Nat)
  | procCleanup (pid : Nat)
  | daemonUpdate
  | memAccess (addr : Nat) (access : Char) (data : UInt8)
  deriving DecidableEq

/-- The value that `mem_access` returns, 0 for the others, and the new state. -/
def Op.exec (env : Env) : Op → VM → Except Fault (UInt8 × VM)
  | .procInit pid, s => do
    let s ← Vm.procInit env pid (startPrelude pid s)
    return (0, s)
  | .contextSwitch pid, s => .ok (0, Vm.contextSwitch pid s)
  | .procCleanup pid, s => do
    let s ← Vm.procCleanup pid s
    return (0, stopEpilogue pid s)
  | .daemonUpdate, s => do
    let s ← Vm.daemonUpdate s
    return (0, s)
  | .memAccess addr access data, s => Vm.memAccess env addr access data s

/-- `op` may be called in `s`, and the victims it asks for may be evicted. -/
def Op.Legal (env : Env) (s : VM) : Op → Prop
  | .procInit pid => pid < maxPid ∧ ¬ s.Running pid ∧ VictimOk env (startPrelude pid s)
  | .contextSwitch pid => s.Running pid
  | .procCleanup pid => s.Running pid
  | .daemonUpdate => True
  | .memAccess addr _ _ => addr < 2 ^ vaddrLen ∧
      ∃ pid, Current s.Running s pid ∧ (s.entry pid (vaddrVpn addr) .valid = 0 → VictimOk env s)

/-- `op` is called as the driver calls it. -/
def Op.Callable (s : VM) : Op → Prop
  | .procInit pid => pid < maxPid ∧ ¬ s.Running pid
  | .contextSwitch pid => s.Running pid
  | .procCleanup pid => s.Running pid
  | .daemonUpdate => True
  | .memAccess addr _ _ => addr < 2 ^ vaddrLen ∧ ∃ pid, Current s.Running s pid

/-- The victims that `op` asks for in `s` may be evicted. -/
def Op.VictimsOk (env : Env) (s : VM) : Op → Prop
  | .procInit pid => VictimOk env (startPrelude pid s)
  | .memAccess addr _ _ => ∀ pid, s.currentProcess = some pid →
      s.entry pid (vaddrVpn addr) .valid = 0 → VictimOk env s
  | _ => True

/-- One operation of a run: the states around it and the value it returned. -/
structure Moment where
  before : VM
  op : Op
  result : UInt8
  after : VM

/-- The runs from `init` with their operations, the last one first. -/
inductive Run (env : Env) (init : VM) : List Moment → VM → Prop
  | start : Run env init [] init
  | next {h s op b t} : Run env init h s → op.Legal env s → op.exec env s = .ok (b, t) →
      Run env init (⟨s, op, b, t⟩ :: h) t

/-- The state `main` leaves to the trace. -/
def initial (mem : Bytes.ByteMem) (replacement : Replacement) (check : Bool) : VM :=
  systemInit (VM.boot mem replacement check)

/-! ## What one operation does -/

/-- The effect of an operation that was called as it should be. -/
inductive Effect (env : Env) (s : VM) (xs : List Slot) : Op → UInt8 → VM → List Slot → Prop
  | started {p v c f t ys} (hp : p < maxPid) (out : ¬ s.Running p)
      (select : env.select (startPrelude p s) = .ok (v, c)) (hv : v < numFrames)
      (unprotected : s.fte v .isProtected = 0) (usage : UsageOnly (startPrelude p s) c)
      (freed : Freed s.Running c xs v f ys) (middle : Inv s.Running f ys)
      (started : Started f p v t) : Effect env s xs (.procInit p) 0 t ys
  | switched {p} (hp : s.Running p) : Effect env s xs (.contextSwitch p) 0 (contextSwitch p s) xs
  | stopped {p m ys} (hp : s.Running p) (stopped : Stopped s.Running s xs p m ys) :
      Effect env s xs (.procCleanup p) 0 (stopEpilogue p m) ys
  | aged {t} (usage : UsageOnly s t) : Effect env s xs .daemonUpdate 0 t xs
  | accessed {p addr access data m ys b t} (small : addr < 2 ^ vaddrLen)
      (cur : Current s.Running s p) (present : Present s.Running env s xs p (vaddrVpn addr) m ys)
      (middle : Inv s.Running m ys) (valid : m.entry p (vaddrVpn addr) .valid ≠ 0)
      (touched : Touched m p (vaddrVpn addr) access (vaddrOffset addr) data b t) :
      Effect env s xs (.memAccess addr access data) b t ys

theorem vaddrVpn_lt {addr : Nat} (h : addr < 2 ^ vaddrLen) : vaddrVpn addr < numPages := by
  have shift : addr >>> 14 = addr / 2 ^ 14 := Nat.shiftRight_eq_div_pow _ _
  simp only [vaddrVpn, offsetLen, vaddrLen, numPages_eq, shift] at *
  omega

section

variable {env : Env} {s t : VM} {xs ys : List Slot} {p r : Nat} {op : Op} {b : UInt8}

theorem Running.congr (procs : t.procs = s.procs) : t.Running = s.Running := by
  funext r
  simp only [VM.Running, procs]

theorem running_startPrelude (hp : p < maxPid) :
    (startPrelude p s).Running = fun r => s.Running r ∨ r = p := by
  funext r
  apply propext
  by_cases same : r = p
  · subst same
    simp [VM.Running, startPrelude, setProc, hp]
  · simp [VM.Running, startPrelude, setProc, same]

theorem running_stopEpilogue : (stopEpilogue p s).Running = fun r => s.Running r ∧ r ≠ p := by
  funext r
  apply propext
  by_cases same : r = p
  · subst same
    simp [VM.Running, stopEpilogue, setProc]
  · simp [VM.Running, stopEpilogue, setProc, same]

/-- The bookkeeping before `proc_init` moves no page table. -/
theorem entry_startPrelude (s : VM) (p r x : Nat) (G : PteField) :
    (startPrelude p s).entry r x G = s.entry r x G := by
  by_cases same : r = p <;> simp [VM.entry, startPrelude, setProc, same, VM.pte]

theorem Inv.startPrelude {R : Nat → Prop} (inv : Inv R s xs) : Inv R (startPrelude p s) xs := by
  refine inv.congr rfl rfl (fun r _ => ?_)
  by_cases same : r = p <;> simp [Vm.startPrelude, setProc, same]

theorem running_started {f : VM} {v : Nat} (hp : p < maxPid)
    (procs : f.procs = (startPrelude p s).procs) (started : Started f p v t) :
    t.Running = fun r => s.Running r ∨ r = p := by
  rw [← running_startPrelude hp]
  funext r
  by_cases same : r = p
  · subst same
    simp only [VM.Running, started.state, procs]
  · simp only [VM.Running, started.procs r same, procs]

/-- Every operation that may be called has its effect and keeps the invariant, or the program
gives up because `calloc` has no memory for a swap entry. -/
theorem exec_effect (inv : Inv s.Running s xs) (callable : op.Callable s)
    (victims : op.VictimsOk env s) :
    (op.exec env s = .error allocFailed ∧ ∃ heap, env.calloc heap = none) ∨
    ∃ b t ys, op.exec env s = .ok (b, t) ∧ Effect env s xs op b t ys ∧ Inv t.Running t ys := by
  cases op with
  | procInit p =>
    obtain ⟨hp, out⟩ := callable
    obtain ⟨v, c, select, hv, unprotected⟩ := victims
    have ready : Inv s.Running (startPrelude p s) xs := inv.startPrelude
    have usage := env.select_usage ready.framesOwned select
    rcases procInit_spec ready out hp select hv unprotected with
      ⟨failed, exhausted⟩ | ⟨f, ys, t, ok, freed, started, middle, after⟩
    · exact Or.inl ⟨by simp [Op.exec, failed, bind, Except.bind], exhausted⟩
    · refine Or.inr ⟨0, t, ys, ?_, .started hp out select hv unprotected usage freed middle started,
        ?_⟩
      · simp [Op.exec, ok, bind, Except.bind, pure, Except.pure]
      · rw [running_started hp (freed.procs.trans usage.procs) started]
        exact after
  | contextSwitch p =>
    exact Or.inr ⟨0, _, xs, rfl, .switched callable, inv.congr rfl rfl (fun _ _ => rfl)⟩
  | procCleanup p =>
    obtain ⟨m, ys, ok, stopped, after⟩ := procCleanup_spec inv callable
    refine Or.inr ⟨0, stopEpilogue p m, ys, ?_, .stopped callable stopped, ?_⟩
    · simp [Op.exec, ok, bind, Except.bind, pure, Except.pure]
    · rw [running_stopEpilogue, Running.congr stopped.procs]
      refine after.congr rfl rfl (fun r hr => ?_)
      simp [stopEpilogue, setProc, hr.2]
  | daemonUpdate =>
    obtain ⟨t, ok, usage⟩ := daemonUpdate_usage inv.framesOwned
    refine Or.inr ⟨0, t, xs, ?_, .aged usage, ?_⟩
    · simp [Op.exec, ok, bind, Except.bind, pure, Except.pure]
    · rw [Running.congr usage.procs]
      exact usage.inv inv
  | memAccess addr access data =>
    obtain ⟨small, p, cur⟩ := callable
    rcases memAccess_spec access data inv cur (vaddrVpn_lt small) (victims p cur.current) with
      failed | ⟨m, ys, b, t, ok, present, middle, valid, touched, after⟩
    · exact Or.inl failed
    · refine Or.inr ⟨b, t, ys, ok, .accessed small cur present middle valid touched, ?_⟩
      have procs : t.procs = s.procs := touched.procs.trans (present.procs inv)
      rw [Running.congr procs]
      exact after

theorem Op.Legal.callable (legal : op.Legal env s) : op.Callable s := by
  cases op with
  | procInit p => exact ⟨legal.1, legal.2.1⟩
  | contextSwitch p => exact legal
  | procCleanup p => exact legal
  | daemonUpdate => trivial
  | memAccess addr access data =>
    obtain ⟨small, p, cur, _⟩ := legal
    exact ⟨small, p, cur⟩

theorem Op.Legal.victimsOk (legal : op.Legal env s) : op.VictimsOk env s := by
  cases op with
  | procInit p => exact legal.2.2
  | contextSwitch p => trivial
  | procCleanup p => trivial
  | daemonUpdate => trivial
  | memAccess addr access data =>
    obtain ⟨_, p, cur, victim⟩ := legal
    intro r current
    obtain rfl : p = r := Option.some.inj (cur.current.symm.trans current)
    exact victim

/-- So has every legal operation. -/
theorem exec_spec (inv : Inv s.Running s xs) (legal : op.Legal env s) :
    (op.exec env s = .error allocFailed ∧ ∃ heap, env.calloc heap = none) ∨
    ∃ b t ys, op.exec env s = .ok (b, t) ∧ Effect env s xs op b t ys ∧ Inv t.Running t ys :=
  exec_effect inv legal.callable legal.victimsOk

/-- No operation changes the policy. -/
theorem Effect.replacement (inv : Inv s.Running s xs) (effect : Effect env s xs op b t ys) :
    t.replacement = s.replacement := by
  cases effect with
  | started _ _ _ _ _ usage freed _ started =>
    exact started.replacement.trans (freed.replacement.trans usage.replacement)
  | switched => rfl
  | stopped _ stopped => exact stopped.replacement
  | aged usage => exact usage.replacement
  | accessed _ _ present _ _ touched =>
    exact touched.replacement.trans (present.registers inv).2.2

/-! ## What a run does -/

/-- What holds at the start and is handed on by every operation holds at the end
of every run. -/
theorem Run.invariant {mem : Bytes.ByteMem} {replacement : Replacement} {check : Bool}
    {h : List Moment} (J : List Moment → VM → List Slot → Prop)
    (start : J [] (initial mem replacement check) [])
    (step : ∀ h s xs op b t ys, Inv s.Running s xs → J h s xs → Effect env s xs op b t ys →
      Inv t.Running t ys → J (⟨s, op, b, t⟩ :: h) t ys)
    (run : Run env (initial mem replacement check) h s) :
    ∃ xs, Inv s.Running s xs ∧ J h s xs := by
  induction run with
  | start =>
    refine ⟨[], ?_, start⟩
    have none : (initial mem replacement check).Running = fun _ => False := by
      funext r
      simp [VM.Running, initial, systemInit, boot, memset, setFte]
    rw [none]
    exact inv_systemInit mem replacement check
  | next _ legal ok ih =>
    obtain ⟨xs, inv, j⟩ := ih
    rcases exec_spec inv legal with ⟨failed, _⟩ | ⟨b, t, ys, ok', effect, after⟩
    · simp [failed] at ok
    · rw [ok'] at ok
      cases ok
      exact ⟨ys, after, step _ _ _ _ _ _ _ inv j effect after⟩

theorem Run.inv {mem : Bytes.ByteMem} {replacement : Replacement} {check : Bool}
    {h : List Moment} (run : Run env (initial mem replacement check) h s) :
    ∃ xs, Inv s.Running s xs := by
  obtain ⟨xs, inv, _⟩ := run.invariant (fun _ _ _ => True) trivial
    (fun _ _ _ _ _ _ _ _ _ _ _ => trivial)
  exact ⟨xs, inv⟩

end

end SystemsProjects.Vm
