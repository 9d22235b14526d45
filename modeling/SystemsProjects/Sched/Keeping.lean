import SystemsProjects.Sched.Fates

/-!
# No process is lost

The steps of the CPU threads keep the fates as those of the supervisor do: in no run is a
process lost between the queue, the CPUs, and the I/O queue, or ended before its program.
-/

namespace SystemsProjects.Sched

variable {cfg : Config} {s t : Sim} {xs : List Nat} {a : Action} {p c : Nat} {lot : Lot}

/-! ## The CPU threads -/

/-- A thread calls a handler. -/
theorem Sim.Kept.call (k : s.Kept cfg xs) (entry : CpuPc) (out : s.sys.cpu c = .outside)
    (holds : entry.holds (s.sys.student.current c) = s.sys.student.current c)
    (expects : entry.expects = some .running ∨ s.sys.student.current c = none)
    (leaving : entry.leaving = none) (parting : entry.parting = s.parting c)
    (counted : s.parting c = some .terminate → s.Counted c) :
    (s.callHandler c entry).Kept cfg xs := by
  have handling : (s.callHandler c entry).thread c = .handling := if_pos rfl
  have parts : ∀ d, (s.callHandler c entry).parting d = s.parting d := by
    intro d
    by_cases here : d = c
    · rw [here, Sim.parting, Sim.Threads.owes_handling handling]
      exact (congrArg CpuPc.parting (if_pos rfl)).trans parting
    · exact parting_congr (if_neg here) rfl (congrArg CpuPc.parting (if_neg here))
  refine k.next (k.inv.advance (fun q has => ?_) (fun q left => ?_)) k.inTable
    (fun q _ lot fate => ?_) rfl
  · rw [out]
    refine ⟨holds.symm.trans has, expects.resolve_right fun none => ?_⟩
    rw [holds, none] at has
    cases has
  · rw [leaving] at left
    cases left
  · refine fate.congr (at_setCpu_same ?_ ?_) (fun d _ => parts d) (fun d _ ends => ?_)
      (fun _ => id) rfl id Iff.rfl
    · rw [holds, out]
      rfl
    · rw [leaving, out]
      rfl
    · by_cases here : d = c
      · subst here
        exact iff_of_true (Or.inr handling) (counted ends)
      · have pc : (s.callHandler c entry).thread d = s.thread d := if_neg here
        rw [Sim.Counted, Sim.Counted, pc]

/-- `context_switch`, and the handler returns. -/
theorem Sim.Kept.contextSwitch {y : Option Nat} (k : s.Kept cfg xs) (hc : c < cfg.cpuCount)
    (pc : s.thread c = .handling) (handler : s.sys.cpu c = .switching y)
    (sys : t.sys = (s.sys.markYielded y).setCpu c .outside)
    (thread : ∀ d, t.thread d = if d = c then .top else s.thread d)
    (state : ∀ d, (t.data d).state = (s.data d).state) (ioQueue : t.ioQueue = s.ioQueue)
    (ops : t.ops = s.ops) (spawned : t.spawned = s.spawned)
    (terminated : t.processesTerminated = s.processesTerminated) : t.Kept cfg xs := by
  obtain ⟨ys, after⟩ := k.inv.step (.contextSwitch hc handler)
  obtain rfl := after.list_eq k.inv.queued
  have free : s.parting c = none ∧ t.parting c = none := by
    constructor
    · simp [Sim.parting, Sim.Threads.owes_handling pc, handler, CpuPc.parting]
    · simp [Sim.parting, Sim.owes, thread, sys, Sys.setCpu, CpuPc.parting]
  have parts : ∀ d, t.parting d = s.parting d := by
    intro d
    by_cases here : d = c
    · rw [here, free.1, free.2]
    · exact parting_congr ((thread d).trans (if_neg here)) (state d)
        (by rw [sys]; exact congrArg CpuPc.parting (if_neg here))
  have requests : ∀ q, t.requests q = s.requests q := fun q => by
    rw [Sim.requests, ioQueue, Sim.requests]
  refine k.next (sys ▸ after) (ioQueue ▸ k.inTable) (fun q _ lot fate => ?_) terminated
  by_cases left : y = some q
  · -- its yield handler is complete
    have was : s.sys.At ys q (.leaving c) := by simp [Sys.At, handler, CpuPc.leaving, left]
    have gone : t.sys.Gone ys q := by
      intro l here
      rw [sys] at here
      have ne : l ≠ .leaving c := by
        rintro rfl
        simp [Sys.At, Sys.setCpu, CpuPc.leaving] at here
      refine ne (k.inv.unique q l _ ?_ was)
      by_cases cpu : l = .cpu c
      · subst cpu
        simpa [Sys.At, Sys.setCpu, Sys.markYielded, handler, CpuPc.holds] using here
      · exact (at_setCpu_other cpu ne).mp here
    have once : OncePerYield t.sys q := by
      rw [sys]
      simp [OncePerYield, NewOrYielded, Sys.setCpu, Sys.markYielded, left]
    cases fate with
    | new _ none | waits _ none | ended _ none => exact absurd was (none _)
    | @runs l _ here stays =>
      obtain rfl := k.inv.unique q l _ here was
      exact stays.elim
    | blocks created _ _ request =>
      exact .waits (spawned ▸ created) gone once ((requests q).symm ▸ request)
    | ends _ here | counted _ here => exact absurd (k.inv.unique q _ _ here was) (by simp)
  · refine fate.congr (fun l => ?_) (fun d _ => parts d) (fun d _ ends => ?_) (fun _ before => ?_)
      (congrArg List.length (requests q)) ?_ (by rw [spawned])
    · rw [sys]
      by_cases cpu : l = .cpu c
      · subst cpu
        simp [Sys.At, Sys.setCpu, Sys.markYielded, handler, CpuPc.holds]
      · by_cases leaving : l = .leaving c
        · subst leaving
          simp [Sys.At, Sys.setCpu, handler, CpuPc.leaving, left]
        · exact at_setCpu_other cpu leaving
    · have ne : d ≠ c := by
        rintro rfl
        exact absurd (free.1.symm.trans ends) (by simp)
      rw [Sim.Counted, Sim.Counted, (thread d).trans (if_neg ne)]
    · rw [sys]
      have other : ¬ some q = y := fun same => left same.symm
      exact once_congr (s := s.sys) rfl (by simp [Sys.markYielded, Sys.setCpu, other])
        (by simp [Sys.markYielded, Sys.setCpu, other]) before
    · rw [Sim.AtEnd, Sim.AtEnd, ops]
      exact id

/-- The process of a CPU that is about to count it. -/
theorem Sim.Fate.uncounted (fate : s.Fate xs p lot) (inv : Inv cfg s.sys xs)
    (here : s.sys.At xs p (.cpu c)) (parting : s.parting c = some .terminate)
    (not : ¬ s.Counted c) :
    lot = .ending ∧ p < s.spawned ∧ s.AtEnd p ∧ s.requests p = [] := by
  cases fate with
  | new _ gone | waits _ gone | ended _ gone => exact absurd here (gone _)
  | @runs l _ there stays =>
    obtain rfl := inv.unique p l _ there here
    exact absurd (parting.symm.trans stays) (by simp)
  | @blocks l _ there blocks =>
    obtain rfl := inv.unique p l _ there here
    exact absurd (parting.symm.trans blocks) (by simp)
  | ends created _ _ _ finished quiet => exact ⟨rfl, created, finished, quiet⟩
  | @counted d _ there _ counted =>
    obtain rfl : d = c := by simpa using inv.unique p (.cpu d) (.cpu c) there here
    exact absurd counted not

/-- `processes_terminated++`. -/
theorem Sim.Kept.count (k : s.Kept cfg xs) (threads : s.Threads)
    (pc : s.thread c = .dispatch .terminate) :
    Sim.Kept cfg { s.setThread c .counted with
      processesTerminated := s.processesTerminated + 1 } xs := by
  obtain ⟨p, current⟩ := Option.ne_none_iff_exists'.mp
    (threads.busy c (by simp [Sim.Waits, pc]))
  have away : s.thread c ≠ .handling := by simp [pc]
  have out := (threads.handling c).mpr away
  have here : s.sys.At xs p (.cpu c) := by
    simp only [Sys.At, out, CpuPc.holds]
    exact (threads.current c away).symm.trans current
  have parting : s.parting c = some .terminate := by
    simp [Sim.parting, Sim.owes, pc, CpuState.event, CpuState.parting]
  have not : ¬ s.Counted c := by simp [Sim.Counted, pc]
  have parts : ∀ d, Sim.parting { s.setThread c .counted with
      processesTerminated := s.processesTerminated + 1 } d = s.parting d := by
    intro d
    by_cases same : d = c
    · subst same
      rw [parting]
      simp [Sim.parting, Sim.owes, Sim.setThread, CpuState.parting]
    · exact parting_congr (if_neg same) rfl rfl
  have fates : ∀ q, q ≠ p → ∀ lot, s.Fate xs q lot → Sim.Fate { s.setThread c .counted with
      processesTerminated := s.processesTerminated + 1 } xs q lot := by
    intro q ne lot fate
    refine fate.congr (fun _ => Iff.rfl) (fun d _ => parts d) (fun d at' _ => ?_) (fun _ => id) rfl
      id Iff.rfl
    have other : d ≠ c := by
      rintro rfl
      exact ne (at_cpu_unique here at')
    simp only [Sim.Counted, Sim.setThread, if_neg other]
  obtain ⟨lot, fate⟩ := k.fates p (k.inv.inTable p _ here)
  obtain ⟨-, created, finished, quiet⟩ := fate.uncounted k.inv here parting not
  have counted : Sim.Fate { s.setThread c .counted with
      processesTerminated := s.processesTerminated + 1 } xs p .ended :=
    .counted created here ((parts c).trans parting) (Or.inl (if_pos rfl)) finished quiet
  obtain ⟨done, card, all⟩ := k.counted
  have new : p ∉ done := fun mem =>
    absurd (((all p).mp mem).2.uncounted k.inv here parting not).1 (by simp)
  refine ⟨k.inv, k.inTable, fun q hq => ?_, insert p done, ?_, fun q => ?_⟩
  · by_cases same : q = p
    · exact ⟨.ended, same ▸ counted⟩
    · obtain ⟨lot, fate⟩ := k.fates q hq
      exact ⟨lot, fates q same lot fate⟩
  · rw [Finset.card_insert_of_notMem new, card]
  · rw [Finset.mem_insert]
    by_cases same : q = p
    · subst same
      exact iff_of_true (Or.inl rfl) ⟨k.inv.inTable q _ here, counted⟩
    · rw [or_iff_right same, all q]
      refine and_congr_right fun hq => ⟨fates q same .ended, fun after => ?_⟩
      obtain ⟨lot, before⟩ := k.fates q hq
      exact (fates q same lot before).unique k.inv after ▸ before

/-- A thread goes on outside of the handlers. -/
theorem Sim.Kept.advance {pc : ThreadPc} (k : s.Kept cfg xs) (before : ¬ s.Counted c)
    (after : pc ≠ .counted ∧ pc ≠ .handling) (owes : (s.setThread c pc).owes c = s.owes c) :
    (s.setThread c pc).Kept cfg xs := by
  have now : (s.setThread c pc).thread c = pc := if_pos rfl
  have others : ∀ d, d ≠ c → (s.setThread c pc).thread d = s.thread d := fun d ne => if_neg ne
  refine k.frame rfl (fun d => ?_) (fun d _ => ?_) rfl rfl rfl rfl
  · by_cases same : d = c
    · rw [same, Sim.parting, Sim.parting, owes]
      rfl
    · exact parting_congr (others d same) rfl rfl
  · by_cases same : d = c
    · subst same
      refine iff_of_false ?_ before
      rw [Sim.Counted, now]
      exact not_or.mpr after
    · rw [Sim.Counted, Sim.Counted, others d same]

theorem topOfLoop_counts (s : Sim) (c : Nat) :
    (s.topOfLoop c).processesCreated = s.processesCreated ∧
      (s.topOfLoop c).processesTerminated = s.processesTerminated := by
  unfold Sim.topOfLoop
  cases current : (s.data c).current with
  | none =>
    simp only [Sim.setSupervisor, current]
    exact ⟨rfl, rfl⟩
  | some p =>
    simp only [Sim.setSupervisor, current]
    exact ⟨rfl, rfl⟩

theorem Sim.Kept.topOfLoop (k : s.Kept cfg xs) (threads : s.Threads) (pc : s.thread c = .top) :
    (s.topOfLoop c).Kept cfg xs := by
  obtain ⟨_, supervisor, others, here⟩ := topOfLoop_spec (s := s) (c := c)
  obtain ⟨sys, _⟩ := topOfLoop_current s c
  have out : s.sys.cpu c = .outside := (threads.handling c).mpr (by simp [pc])
  have none : s.parting c = none ∧ (s.topOfLoop c).parting c = none := by
    constructor
    · simp [Sim.parting, Sim.owes, pc, out, CpuPc.parting]
    · rcases here with ⟨thread, _⟩ | ⟨thread, _⟩ <;>
        simp [Sim.parting, Sim.owes, thread, sys, out, CpuPc.parting, CpuState.event]
  have creating : (s.topOfLoop c).spawned = s.spawned := by
    rw [Sim.spawned, Sim.spawned, supervisor, signal_creating, (topOfLoop_counts s c).1]
  have same := topOfLoop_same s c
  refine k.frame sys (fun d => ?_) (fun d ends => ?_) same.ioQueue same.ops creating
    (topOfLoop_counts s c).2
  · by_cases eq : d = c
    · rw [eq, none.1, none.2]
    · exact parting_congr (others d eq).1 (others d eq).2 (by rw [sys])
  · have ne : d ≠ c := by
      rintro rfl
      exact absurd (none.1.symm.trans ends) (by simp)
    rw [Sim.Counted, Sim.Counted, (others d ne).1]

/-! ## Every run -/

theorem Sim.Kept.step (k : s.Kept cfg xs) (sound : s.Sound) (threads : s.Threads)
    (waking : s.Waking) (prompt : Prompt s a) (step : Sim.Step cfg s a t) :
    ∃ ys, t.Kept cfg ys := by
  have frame : ∀ {u : Sim}, u.sys = s.sys → u.thread = s.thread → u.data = s.data →
      u.ioQueue = s.ioQueue → u.ops = s.ops → u.spawned = s.spawned →
      u.processesTerminated = s.processesTerminated → u.Kept cfg xs := by
    intro u sys thread data ioQueue ops spawned terminated
    refine k.frame sys (fun c => ?_) (fun c _ => ?_) ioQueue ops spawned terminated
    · exact parting_congr (congrFun thread c) (by rw [data]) (by rw [sys])
    · rw [Sim.Counted, Sim.Counted, thread]
  cases step with
  | lock pc =>
    refine ⟨xs, frame rfl rfl rfl rfl rfl ?_ rfl⟩
    simp only [Sim.spawned, Sim.setSupervisor, pc]
    split <;> rfl
  | skip pc | endCpus pc | ioNone pc | creatNot pc | tick pc | resume pc =>
    exact ⟨xs, frame rfl rfl rfl rfl rfl (by rw [Sim.spawned, Sim.spawned, pc]; rfl) rfl⟩
  | @woke created pc =>
    cases created
    · exact ⟨xs, frame rfl rfl rfl rfl rfl (by rw [Sim.spawned, Sim.spawned, pc]; rfl) rfl⟩
    · exact ⟨xs, frame rfl rfl rfl rfl rfl (by rw [Sim.spawned, Sim.spawned, pc]; rfl) rfl⟩
  | @ioBusy p time rest pc head more => exact ⟨xs, k.ioBusy pc head⟩
  | ioDone pc head now => exact ⟨xs, k.ioDone threads waking pc head⟩
  | creat pc _ more => exact ⟨xs, k.creat waking pc more⟩
  | noVictim pc waker => exact ⟨xs, k.wakeUpReturns (by rw [pc]; rfl) (by rw [waker]; rfl)⟩
  | forceNothing pc waker => exact ⟨xs, k.wakeUpReturns (by rw [pc]; rfl) (by rw [waker]; rfl)⟩
  | forced pc =>
    obtain ⟨v, waker⟩ := waking.forcing _ _ _ pc
    exact ⟨xs, k.wakeUpReturns (by rw [pc]; rfl) (by rw [waker]; rfl)⟩
  | forcePreempt pc _ running => exact ⟨xs, k.forcePreempt threads sound pc running⟩
  | @simulate n p u pc _ current ok =>
    have up : s.supervisor.asleepOn = none := by simp [pc, SupervisorPc.asleepOn]
    exact ⟨xs, k.simulate pc (k.current threads up current).1 ok⟩
  | @simulateEvent n p e u pc _ current ok =>
    have running := prompt p current (simulateProcess_due (s := s.log (.simulate n)) ok)
    exact ⟨xs, k.simulateEvent threads sound pc current running ok⟩
  | wakeSpuriously => exact absurd prompt id
  | top _ _ pc => exact ⟨xs, k.topOfLoop threads pc⟩
  | @spurious c hc pc =>
    refine ⟨xs, k.advance (by simp [Sim.Counted, pc]) (by simp) ?_⟩
    simp [Sim.owes, Sim.setThread, pc, sound.asleep c pc, CpuState.event]
  | @recheck c _ _ pc =>
    refine ⟨xs, k.advance (by simp [Sim.Counted, pc]) (by split <;> simp) ?_⟩
    split
    · rename_i running
      simp [Sim.owes, Sim.setThread, pc, running, CpuState.event]
    · simp [Sim.owes, Sim.setThread, pc]
  | @callIdle c _ pc =>
    have out := (threads.handling c).mpr (by simp [pc])
    have current : s.sys.student.current c = none :=
      (threads.current c (by simp [pc])).symm.trans (threads.idle c pc)
    have free : s.parting c = none := by
      simp [Sim.parting, Sim.owes, pc, out, CpuState.event, CpuPc.parting]
    exact ⟨xs, k.call .testing out current.symm (Or.inr current) rfl free.symm (by simp [free])⟩
  | @callPreempt c _ pc =>
    have out := (threads.handling c).mpr (by simp [pc])
    have free : s.parting c = none := by
      simp [Sim.parting, Sim.owes, pc, out, CpuState.event, CpuState.parting, CpuPc.parting]
    have calls := k.call .preempting out rfl (Or.inl rfl) rfl free.symm (by simp [free])
    exact ⟨xs, calls.frame rfl (fun _ => rfl) (fun _ _ => Iff.rfl) rfl rfl rfl rfl⟩
  | @callYield c _ pc =>
    have out := (threads.handling c).mpr (by simp [pc])
    have parts : s.parting c = some .yield := by
      simp [Sim.parting, Sim.owes, pc, CpuState.event, CpuState.parting]
    have calls := k.call .yielding out rfl (Or.inl rfl) rfl parts.symm (by simp [parts])
    exact ⟨xs, calls.frame rfl (fun _ => rfl) (fun _ _ => Iff.rfl) rfl rfl rfl rfl⟩
  | count _ _ pc => exact ⟨xs, k.count threads pc⟩
  | @callTerminate c _ pc =>
    have out := (threads.handling c).mpr (by simp [pc])
    have parts : s.parting c = some .terminate := by
      simp [Sim.parting, Sim.owes, pc, CpuState.parting]
    have calls := k.call .terminating out rfl (Or.inl rfl) rfl parts.symm
      (fun _ => Or.inl pc)
    exact ⟨xs, calls.frame rfl (fun _ => rfl) (fun _ _ => Iff.rfl) rfl rfl rfl rfl⟩
  | @neverHappens c _ pc =>
    refine ⟨xs, k.advance (by simp [Sim.Counted, pc]) (by simp) ?_⟩
    simp [Sim.owes, Sim.setThread, pc, CpuState.event]
  | @contextSwitch c y hc _ pc handler =>
    refine ⟨xs, k.contextSwitch hc pc handler rfl (fun _ => rfl) (fun d => ?_) rfl rfl rfl rfl⟩
    simp only [Sim.setThread, Sim.setData, Sim.setSys]
    split <;> rfl
  | @handler u step inside =>
    obtain ⟨ys, after, goes⟩ := step_goes k.inv step inside
    exact ⟨ys, k.next after k.inTable
      (fun p _ lot fate => fate.goes k.inv after threads (goes p) inside) rfl⟩

theorem Sim.Kept.start (start : s.Start) : s.Kept cfg [] := by
  have nowhere : ∀ p, s.sys.Gone [] p := by
    intro p l here
    cases l with
    | queue => exact absurd here List.not_mem_nil
    | cpu c => simp [Sys.At, start.sys.cpu, start.sys.current, CpuPc.holds] at here
    | leaving c => simp [Sys.At, start.sys.cpu, CpuPc.leaving] at here
    | waker w => simp [Sys.At, start.sys.waker, WakerPc.holds] at here
  have spawned : s.spawned = 0 := by
    simp [Sim.spawned, start.processesCreated, start.supervisor, SupervisorPc.creating]
  refine ⟨start.sys.inv, ?_, fun p _ => ⟨.new, .new ?_ (nowhere p) ?_ ?_⟩, ∅, ?_, fun p => ?_⟩
  · simp [start.ioQueue]
  · exact spawned ▸ Nat.zero_le p
  · exact ⟨Or.inl (start.sys.enqueued p), start.sys.awoken p⟩
  · simp [Sim.requests, start.ioQueue]
  · simp [start.processesTerminated]
  · refine iff_of_false (Finset.notMem_empty p) ?_
    rintro ⟨_, _ | _ | _ | _ | _ | created | created⟩
    · omega
    · omega

theorem Sim.Run.kept (run : Sim.Run cfg Prompt s) : ∃ xs, s.Kept cfg xs := by
  induction run with
  | start start => exact ⟨[], .start start⟩
  | next before prompt step ih =>
    obtain ⟨xs, kept⟩ := ih
    exact kept.step before.sound before.threads before.waking prompt step

end SystemsProjects.Sched
