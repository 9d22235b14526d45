import SystemsProjects.Vm.Checks
import SystemsProjects.Vm.Progress

/-!
# The corruption checker

`check_validity(1)` passes in every state that satisfies the invariant, and so
in every state of every run.
-/

namespace SystemsProjects.Vm

open VM Loops

/-- What `check_validity` looks for, said without its marker arrays. -/
structure Consistent (s : VM) : Prop where
  frameZero : s.fte 0 .isProtected ≠ 0
  tableFrame : ∀ p, s.Running p → 0 < (s.procs p).savedPtbr ∧ (s.procs p).savedPtbr < numFrames
  protectedFrame : ∀ f < numFrames, s.fte f .isProtected ≠ 0 ↔
    f = 0 ∨ ∃ p, s.Running p ∧ (s.procs p).savedPtbr = f
  validEntry : ∀ p v, s.Running p → v < numPages → s.entry p v .valid ≠ 0 →
    Owns s (s.entry p v .pfn) p v
  noSharing : ∀ p v r w, s.Running p → v < numPages → s.Running r → w < numPages →
    s.entry p v .valid ≠ 0 → s.entry r w .valid ≠ 0 → s.entry p v .pfn = s.entry r w .pfn →
    p = r ∧ v = w
  mappedFrame : ∀ f < numFrames, s.fte f .isProtected = 0 → s.fte f .mapped ≠ 0 →
    ∃ p v, s.Running p ∧ v < numPages ∧ s.entry p v .valid ≠ 0 ∧ s.entry p v .pfn = f
  swapEntry : ∀ p v, s.Running p → v < numPages → s.entry p v .sid ≠ 0 →
    ∃ info, s.swap.swapQueueFind (s.entry p v .sid) = .ok (some info)

section

variable {s : VM} {xs : List Slot}

theorem Inv.consistent (inv : Inv s.Running s xs) : Consistent s where
  frameZero := inv.frameZero
  tableFrame p hp := ⟨inv.tablePos hp, inv.tableLt hp⟩
  protectedFrame f hf := by
    constructor
    · exact inv.protectedFrame hf
    · rintro (rfl | ⟨p, hp, rfl⟩)
      · exact inv.frameZero
      · exact inv.tableProtected hp
  validEntry p v hp hv := inv.owns hp hv
  noSharing p v r w hp hv hr hw := inv.entry_inj hp hv hr hw
  mappedFrame f hf := inv.owned hf
  swapEntry p v hp hv saved := by
    obtain ⟨x, _, _, found⟩ := swapQueueFind_present inv.rep (inv.sidQueued hp hv saved)
    exact ⟨x.block, found⟩

/-- Under the invariant nothing is corrupt. -/
theorem Inv.valid (inv : Inv s.Running s xs) : Valid IsPcb s where
  frameZero := inv.frameZero
  tableFrame p hp := ⟨inv.tablePos hp, inv.tableLt hp, inv.tableProtected hp⟩
  protectedFrame f hf := inv.protectedFrame hf
  bits p v hp hv := ⟨inv.validBit hp hv, inv.dirtyBit hp hv⟩
  mapping p v hp hv valid := by
    have own := inv.owns hp hv valid
    exact ⟨own.pos, own.lt, own.unprotected, own.mapped, own.process, own.vpn⟩
  noSharing p v r w hp hv hr hw := inv.entry_inj hp hv hr hw
  swapEntry p v hp hv saved := swapQueueFind_iff.mp (inv.consistent.swapEntry p v hp hv saved)
  mappedFrame f hf := inv.owned hf

theorem checkValidity_passes (inv : Inv s.Running s xs)
    (pids : ∀ p, s.Running p → (s.procs p).pid = p) (checks : Nat) :
    checkValidity checks s = .ok () := by
  by_cases few : checks < 1
  · simp only [checkValidity, panicIf_ok.mpr inv.frameZero, if_pos few]
    rfl
  · have same : checkValidity checks s = checkValidity 1 s := by
      simp only [checkValidity, if_neg few, Nat.lt_irrefl, if_false]
    rw [same, checkValidity_iff]
    exact inv.valid.hasPid pids

/-- The page tables lie inside the frame table. -/
theorem Inv.not_tablePast (inv : Inv s.Running s xs) : ¬TablePast s := by
  rintro ⟨_, p, hp, past, _⟩
  exact absurd past (inv.tableLt hp).ne

end

/-! ## Over runs -/

section

variable {env : Env} {s : VM} {h : List Moment} {mem : Bytes.ByteMem} {replacement : Replacement}
  {check : Bool}

/-- `procs[p].pid` is `p` while `p` runs. -/
theorem Effect.pids {xs ys : List Slot} {op : Op} {b : UInt8} {t : VM}
    (inv : Inv s.Running s xs) (effect : Effect env s xs op b t ys)
    (before : ∀ p, s.Running p → (s.procs p).pid = p) : ∀ p, t.Running p → (t.procs p).pid = p := by
  cases effect with
  | @started p v c f t ys hp out _ _ _ usage freed _ started =>
    intro r hr
    have procs : f.procs = (startPrelude p s).procs := freed.procs.trans usage.procs
    by_cases same : r = p
    · rw [same, started.pid, procs]
      simp [startPrelude, setProc]
    · rw [running_started hp procs started] at hr
      rw [started.procs r same, procs]
      simpa [startPrelude, setProc, same] using before r (hr.resolve_right same)
  | switched => exact before
  | @stopped p m ys _ stopped =>
    rw [running_stopEpilogue, Running.congr stopped.procs]
    rintro r ⟨hr, ne⟩
    simpa [stopEpilogue, setProc, ne, stopped.procs] using before r hr
  | aged usage =>
    rw [Running.congr usage.procs, usage.procs]
    exact before
  | @accessed _ _ _ _ m _ _ t _ _ present _ _ touched =>
    have procs : t.procs = s.procs := touched.procs.trans (present.procs inv)
    rw [Running.congr procs, procs]
    exact before

/-- The page of an access is in memory after it. -/
theorem Effect.accessed_valid {xs ys : List Slot} {addr : Nat} {access : Char} {data b : UInt8}
    {t : VM} (inv : Inv s.Running s xs) (effect : Effect env s xs (.memAccess addr access data) b t
    ys) : ∃ p, t.Running p ∧ t.entry p (vaddrVpn addr) .valid ≠ 0 := by
  cases effect with
  | @accessed p _ _ _ m _ _ t small cur present middle valid touched =>
    refine ⟨p, ?_, ?_⟩
    · rw [Running.congr (touched.procs.trans (present.procs inv))]
      exact cur.running
    · rw [touched.entry _ (by decide) (by decide)]
      exact valid

theorem Run.pids (run : Run env (initial mem replacement check) h s) :
    ∀ p, s.Running p → (s.procs p).pid = p := by
  obtain ⟨_, _, pids⟩ := run.invariant (fun _ s _ => ∀ p, s.Running p → (s.procs p).pid = p)
    (fun p hp => absurd hp (initial_idle p))
    (fun _ _ _ _ _ _ _ inv before effect _ => effect.pids inv before)
  exact pids

/-- The corruption checker never fires: after any run its tests pass, and the
two tables are inverse to each other. -/
theorem run_passes_check (run : Run env (initial mem replacement check) h s) :
    checkValidity 1 s = .ok () ∧ Consistent s := by
  obtain ⟨xs, inv⟩ := run.inv
  exact ⟨checkValidity_passes inv run.pids 1, inv.consistent⟩

theorem written_run_passes_check : ∃ h s, Run standardEnv zeroed h s ∧ h.length = 3 ∧
    checkValidity 1 s = .ok () ∧ Consistent s := by
  obtain ⟨_, _, t, _, a⟩ := written_run
  exact ⟨_, t, a.run, rfl, run_passes_check a.run⟩

end

/-! ## Any state -/

section

variable {s : VM}

/-- `check_validity(1)` stays inside its arrays and decides whether the state is valid,
provided that its first scan comes to no page table in frame NUM_FRAMES and that no frame of
an otherwise valid state points to another place in `procs` where the pid of the page table's
process is read. -/
theorem checker_decides (pids : ∀ p, s.Running p → (s.procs p).pid = p) :
    (checkValidityIndexed s ≠ .error .outOfBounds ∧ (checkValidity 1 s = .ok () ↔ Valid IsPcb s)) ↔
      ¬TablePast s ∧ ¬(Valid (HasPid s) s ∧ Misowned s) := by
  rw [inside_iff, checkValidity_iff]
  refine and_congr_right fun _ => ⟨?_, ?_⟩
  · rintro exact ⟨good, misowned⟩
    exact (exact.mp good).not_misowned misowned
  · intro own
    exact ⟨fun good => good.isPcb fun misowned => own ⟨good, misowned⟩, fun good =>
      good.hasPid pids⟩

/-- Process 0 is started and writes to its page 0: both conditions hold. -/
theorem checker_decides_written : ∃ s, s.Running 0 ∧ s.entry 0 0 .valid ≠ 0 ∧
    checkValidityIndexed s ≠ .error .outOfBounds ∧
    (checkValidity 1 s = .ok () ↔ Valid IsPcb s) := by
  obtain ⟨s, xs, _, a⟩ := alone_start .start inv_initial rfl initial_idle
  obtain ⟨b, t, ys, effect, written⟩ := a.access 5 'w' 7 (by decide)
  obtain ⟨p, running, valid⟩ := effect.accessed_valid a.inv
  obtain rfl : p = 0 := by rwa [written.alone] at running
  refine ⟨t, running, valid, (checker_decides written.run.pids).mpr
    ⟨written.inv.not_tablePast, fun both => written.inv.valid.not_misowned both.2⟩⟩

/-- Process 0 runs with NUM_FRAMES for its page table frame. -/
def pastFrames : VM := zeroed.setProc 0 fun _ => ⟨0, .running, numFrames⟩

theorem page_table_past_frames : ¬∀ s : VM, (∀ p, s.Running p → (s.procs p).pid = p) →
    checkValidityIndexed s ≠ .error .outOfBounds ∧
    (checkValidity 1 s = .ok () ↔ Valid IsPcb s) := by
  intro claim
  have only : ∀ p, pastFrames.Running p → p = 0 := by
    intro p running
    by_contra other
    have state : (pastFrames.procs p).state = (zeroed.procs p).state := by
      simp [pastFrames, setProc, other]
    exact initial_idle p ⟨running.1, state.symm.trans running.2⟩
  have past : TablePast pastFrames := by
    refine ⟨inv_initial.frameZero, 0, ⟨by decide, rfl⟩, rfl, fun r none =>
      absurd none (Nat.not_lt_zero r)⟩
  refine (claim pastFrames fun p running => ?_).1 past.outside
  rw [only p running]
  rfl

end

end SystemsProjects.Vm
