import SystemsProjects.Vm.Victims

/-!
# Runs that go on

With memory for every swap entry, an operation that may be called succeeds, and
under RANDOM a process that runs alone may access any address.
-/

namespace SystemsProjects.Vm

open VM Heaps

/-- Victims are chosen by the program, draws are always odd, and memory never
runs out. -/
def standardEnv : Env :=
  programEnv (fun _ => 1) (2 * numFrames) (fun h => some h.bump) (fun {h a} e => by
    obtain rfl := Option.some.inj e
    exact h.read_bump)

/-- A machine under RANDOM whose memory starts as zero. -/
def zeroed : VM := initial (fun _ => 0) .random false

theorem standardEnv_own : standardEnv.select = selectVictimFrame (fun _ => 1) (2 * numFrames) := rfl

theorem standardEnv_alloc (heap : Heap SwapEntry) : standardEnv.calloc heap ≠ none :=
  Option.some_ne_none _

theorem initial_idle {mem : Bytes.ByteMem} {replacement : Replacement} {check : Bool} (p : Nat) :
    ¬ (initial mem replacement check).Running p := by
  simp [VM.Running, initial, systemInit, boot, memset, setFte]

theorem inv_initial {mem : Bytes.ByteMem} {replacement : Replacement} {check : Bool} :
    Inv (initial mem replacement check).Running (initial mem replacement check) [] := by
  have none : (initial mem replacement check).Running = fun _ => False :=
    funext fun p => eq_false (initial_idle p)
  rw [none]
  exact inv_systemInit mem replacement check

section

variable {s t : VM} {xs ys : List Slot} {h : List Moment} {op : Op} {b : UInt8}

/-- A run goes on with any operation that may be called. -/
theorem Run.extend (run : Run standardEnv zeroed h s) (inv : Inv s.Running s xs)
    (legal : op.Legal standardEnv s) :
    ∃ b t ys, Run standardEnv zeroed (⟨s, op, b, t⟩ :: h) t ∧ Effect standardEnv s xs op b t ys ∧
      Inv t.Running t ys := by
  rcases exec_spec inv legal with ⟨_, _, none⟩ | ⟨b, t, ys, ok, effect, after⟩
  · exact absurd none (standardEnv_alloc _)
  · exact ⟨b, t, ys, .next run legal ok, effect, after⟩

/-- Process 0 runs alone and is the current one. -/
structure Alone (h : List Moment) (s : VM) (xs : List Slot) : Prop where
  run : Run standardEnv zeroed h s
  inv : Inv s.Running s xs
  alone : s.Running = fun p => p = 0
  current : s.currentProcess = some 0
  ptbr : s.ptbr = (s.procs 0).savedPtbr
  policy : s.replacement = .random

/-- A START and a context switch on an idle machine. -/
theorem alone_start (run : Run standardEnv zeroed h s) (inv : Inv s.Running s xs)
    (policy : s.replacement = .random) (idle : ∀ p, ¬ s.Running p) :
    ∃ t ys, Effect standardEnv s xs (.procInit 0) 0 t ys ∧
      Alone (⟨t, .contextSwitch 0, 0, contextSwitch 0 t⟩ :: ⟨s, .procInit 0, 0, t⟩ :: h)
        (contextSwitch 0 t) ys := by
  have free : Evictable (startPrelude 0 s) 1 :=
    inv.startPrelude.evictable (by decide) (by decide) (fun p hp => absurd hp (idle p))
  have legal : Op.Legal standardEnv s (.procInit 0) :=
    ⟨by decide, idle 0, victimOk_random standardEnv_own policy free⟩
  obtain ⟨b, t, ys, run₁, effect, inv₁⟩ := run.extend inv legal
  have policy₁ : t.replacement = .random := (effect.replacement inv).trans policy
  cases effect with
  | started hp out select hv unprotected usage freed middle started =>
    have alone : t.Running = fun p => p = 0 := by
      rw [running_started hp (freed.procs.trans usage.procs) started]
      funext p
      simp [idle p]
    have on : Op.Legal standardEnv t (.contextSwitch 0) := by
      change t.Running 0
      rw [alone]
    refine ⟨t, ys, .started hp out select hv unprotected usage freed middle started, ?_⟩
    exact ⟨.next run₁ on rfl, inv₁.congr rfl rfl (fun _ _ => rfl), alone, rfl, rfl, policy₁⟩

theorem Alone.running (a : Alone h s xs) : s.Running 0 := by
  rw [a.alone]

theorem Alone.evictable (a : Alone h s xs) : ∃ f, Evictable s f := by
  have apart : ∀ p, s.Running p → (s.procs p).savedPtbr = (s.procs 0).savedPtbr := by
    intro p hp
    rw [a.alone] at hp
    rw [hp]
  by_cases one : (s.procs 0).savedPtbr = 1
  · refine ⟨2, a.inv.evictable (by decide) (by decide) (fun p hp => ?_)⟩
    rw [apart p hp, one]
    decide
  · refine ⟨1, a.inv.evictable (by decide) (by decide) (fun p hp => ?_)⟩
    rw [apart p hp]
    exact one

theorem Alone.victimOk (a : Alone h s xs) : VictimOk standardEnv s := by
  obtain ⟨f, hf⟩ := a.evictable
  exact victimOk_random standardEnv_own a.policy hf

theorem Alone.legal (a : Alone h s xs) (addr : Nat) (access : Char) (data : UInt8)
    (small : addr < 2 ^ vaddrLen) :
    Op.Legal standardEnv s (.memAccess addr access data) :=
  ⟨small, 0, ⟨a.running, a.current, a.ptbr⟩, fun _ => a.victimOk⟩

theorem Alone.access (a : Alone h s xs) (addr : Nat) (access : Char) (data : UInt8)
    (small : addr < 2 ^ vaddrLen) :
    ∃ b t ys, Effect standardEnv s xs (.memAccess addr access data) b t ys ∧
      Alone (⟨s, .memAccess addr access data, b, t⟩ :: h) t ys := by
  obtain ⟨b, t, ys, run, effect, inv⟩ := a.run.extend a.inv (a.legal addr access data small)
  have policy := (effect.replacement a.inv).trans a.policy
  have kept : t.procs = s.procs ∧ t.ptbr = s.ptbr ∧ t.currentProcess = s.currentProcess := by
    cases effect with
    | accessed _ _ present _ _ touched =>
      obtain ⟨ptbr, current, _⟩ := present.registers a.inv
      exact ⟨touched.procs.trans (present.procs a.inv), touched.ptbr.trans ptbr,
        touched.currentProcess.trans current⟩
  obtain ⟨procs, ptbr, current⟩ := kept
  refine ⟨b, t, ys, effect, run, inv, (Running.congr procs).trans a.alone, current.trans a.current,
    ?_, policy⟩
  rw [ptbr, a.ptbr, procs]

theorem Alone.stop (a : Alone h s xs) :
    ∃ t ys, Run standardEnv zeroed (⟨s, .procCleanup 0, 0, t⟩ :: h) t ∧ Inv t.Running t ys ∧
      t.replacement = .random ∧ ∀ p, ¬ t.Running p := by
  have legal : Op.Legal standardEnv s (.procCleanup 0) := a.running
  obtain ⟨b, t, ys, run, effect, inv⟩ := a.run.extend a.inv legal
  have policy := (effect.replacement a.inv).trans a.policy
  cases effect with
  | stopped _ stopped =>
    refine ⟨_, ys, run, inv, policy, ?_⟩
    rw [running_stopEpilogue, Running.congr stopped.procs, a.alone]
    exact fun p hp => hp.2 hp.1

/-- Process 0 is started and writes 7 to address 5. -/
theorem written_run : ∃ s b t ys, Alone [⟨contextSwitch 0 s, .memAccess 5 'w' 7, b, t⟩,
    ⟨s, .contextSwitch 0, 0, contextSwitch 0 s⟩, ⟨zeroed, .procInit 0, 0, s⟩] t ys := by
  obtain ⟨s, xs, _, a⟩ := alone_start .start inv_initial rfl initial_idle
  obtain ⟨b, t, ys, _, written⟩ := a.access 5 'w' 7 (by decide)
  exact ⟨s, b, t, ys, written⟩

end

end SystemsProjects.Vm
