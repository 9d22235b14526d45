import SystemsProjects.Vm.Registers
import Mathlib.Order.Interval.Finset.Nat

/-!
# Victim selection over traces

RANDOM keeps its contract in every state. APPROX_LRU returns no frame at all when
every count is 255, and CLOCKSWEEP does not stop when every frame is protected;
neither of them comes to the panic that RANDOM ends in.
-/

namespace SystemsProjects.Vm

open VM Heaps

section

variable {env : Env} {s t c : VM} {xs ys : List Slot} {pid : Nat} {cmds : List Cmd} {cmd : Cmd}
  {prng : Nat → Nat} {limit : Nat} {mem : Bytes.ByteMem} {replacement : Replacement} {check : Bool}

/-- Traces whose accesses are coherent keep the invariant. -/
theorem Trace.settled (sound : SoundVictims env)
    (trace : Trace env AccessCoherent (initial mem replacement check) cmds s) :
    ∃ xs, Settled s xs := by
  induction trace with
  | start => exact ⟨[], settled_initial⟩
  | @next _ s cmd t _ legal coherent ok ih =>
    obtain ⟨xs, settled⟩ := ih
    cases cmd with
    | start pid =>
      obtain ⟨ys, done⟩ := settled.start sound legal.1 legal.2 ok
      exact ⟨ys, done.settled⟩
    | stop pid =>
      obtain ⟨ys, settled', _⟩ := settled.stop legal ok
      exact ⟨ys, settled'⟩
    | access pid rw address data =>
      obtain ⟨c, prelude, _⟩ := settled.prelude legal.1
      obtain ⟨ys, settled', _⟩ :=
        settled.access sound legal.1 (vaddrVpn_lt legal.2) prelude (coherent c prelude) ok
      exact ⟨ys, settled'⟩

theorem Settled.framesOwned_call (settled : Settled s xs) (legal : cmd.Legal s)
    (call : SelectCall s cmd c) : FramesOwned c := by
  cases cmd with
  | start pid =>
    obtain rfl : c = startPrelude pid s := call
    exact settled.inv.startPrelude.framesOwned
  | stop pid => exact call.elim
  | access pid rw address data =>
    obtain ⟨c', prelude, settledc, _⟩ := settled.prelude legal.1
    obtain rfl := Except.ok.inj (prelude.symm.trans call.1)
    exact settledc.inv.framesOwned

/-- At every `select_victim_frame` call of every command the contract is kept if
and only if the policy can select there. Under CLOCKSWEEP, which follows pointers
kept in memory, this is so in the traces whose accesses are coherent; the other
two policies read the frame table only. -/
theorem victim_contract_iff (own : env.select = selectVictimFrame prng limit) (legal : cmd.Legal s)
    (call : SelectCall s cmd c) (coherent : c.replacement = .clocksweep →
      Trace env AccessCoherent (initial mem replacement check) cmds s) :
    Contract prng c ↔ CanSelect c := by
  apply contract_iff
  intro policy
  obtain ⟨xs, settled⟩ := (coherent policy).settled (soundVictims_program own)
  exact settled.framesOwned_call legal call

/-! ## Every frame a page table -/

/-- Fewer than 63 page tables leave a frame that may be evicted. -/
theorem Inv.evictable_of_few {n : Nat} (inv : Inv (fun p => p < n) s xs) (few : n < numFrames - 1) :
    ∃ f, Evictable s f := by
  classical
  by_contra none
  have cover : Finset.Ico 1 numFrames ⊆ (Finset.range n).image
      (fun p => (s.procs p).savedPtbr) := by
    intro f hf
    rw [Finset.mem_Ico] at hf
    by_contra outside
    refine none ⟨f, inv.evictable hf.2 hf.1 (fun p hp table => outside ?_)⟩
    exact Finset.mem_image.mpr ⟨p, Finset.mem_range.mpr hp, table⟩
  have counted := (Finset.card_le_card cover).trans Finset.card_image_le
  rw [Nat.card_Ico, Finset.card_range] at counted
  omega

/-- 63 page tables take every frame but the first. -/
theorem Inv.all_protected (inv : Inv (fun p => p < numFrames - 1) s xs) :
    ∀ f < numFrames, s.fte f .isProtected ≠ 0 := by
  classical
  have inside : (Finset.range (numFrames - 1)).image (fun p => (s.procs p).savedPtbr) ⊆
      Finset.Ico 1 numFrames := by
    intro f hf
    obtain ⟨p, hp, rfl⟩ := Finset.mem_image.mp hf
    have lt := Finset.mem_range.mp hp
    exact Finset.mem_Ico.mpr ⟨inv.tablePos lt, inv.tableLt lt⟩
  have injective : Set.InjOn (fun p => (s.procs p).savedPtbr) (Finset.range (numFrames - 1)) := by
    intro p hp r hr same
    exact inv.tableInj (Finset.mem_range.mp hp) (Finset.mem_range.mp hr) same
  have whole := Finset.eq_of_subset_of_card_le inside (by
    rw [Finset.card_image_of_injOn injective, Nat.card_Ico, Finset.card_range])
  intro f hf
  rcases Nat.eq_zero_or_pos f with rfl | pos
  · exact inv.frameZero
  · have mem : f ∈ Finset.Ico 1 numFrames := Finset.mem_Ico.mpr ⟨pos, hf⟩
    rw [← whole] at mem
    obtain ⟨p, hp, rfl⟩ := Finset.mem_image.mp mem
    exact inv.tableProtected (Finset.mem_range.mp hp)

/-- `START 0` up to `START (n - 1)`, last command first. -/
def starts (n : Nat) : List Cmd := (List.range n).reverse.map Cmd.start

theorem starts_succ (n : Nat) : starts (n + 1) = .start n :: starts n := by
  simp [starts, List.range_succ]

/-- Under every policy 63 processes can be started, and nothing else is in
memory. -/
theorem starts_reachable (mem : Bytes.ByteMem) (replacement : Replacement) (check : Bool) {n : Nat}
    (few : n ≤ numFrames - 1) :
    ∃ s xs, Trace standardEnv AccessCoherent (initial mem replacement check) (starts n) s ∧
      Settled s xs ∧ s.Running = (fun p => p < n) ∧ s.replacement = replacement ∧
      s.currentProcess = none ∧ ∀ p w, s.Running p → w < numPages → s.entry p w .valid = 0 := by
  induction n with
  | zero =>
    have idle : ∀ p, ¬ (initial mem replacement check).Running p := initial_idle
    refine ⟨_, [], .start, settled_initial, ?_, rfl, ?_, fun p _ hp => absurd hp (idle p)⟩
    · funext p
      exact propext ⟨fun hp => absurd hp (idle p), fun lt => absurd lt (Nat.not_lt_zero p)⟩
    · simp [initial, systemInit, boot, memset, setFte]
  | succ n ih =>
    obtain ⟨s, xs, trace, settled, running, policy, current, noPages⟩ := ih (by omega)
    have hn : n < maxPid := by
      rw [numFrames_eq] at few
      rw [maxPid_eq]
      omega
    have out : ¬ s.Running n := by
      rw [running]
      exact Nat.lt_irrefl n
    have inv : Inv (fun p => p < n) s xs := running ▸ settled.inv
    obtain ⟨f, hf⟩ := inv.evictable_of_few (by omega)
    have noPages' : ∀ p w, s.Running p → w < numPages → (startPrelude n s).entry p w .valid = 0 :=
      fun p w hp hw => (entry_startPrelude s n p w _).trans (noPages p w hp hw)
    obtain ⟨i, free⟩ := (settled.inv.startPrelude (p := n)).free noPages' (f := f) hf
    rcases settled.start_spec hn out (victimOk_free standardEnv_own free) with
      ⟨_, _, none⟩ | ⟨t, ys, ok, done⟩
    · exact absurd none (standardEnv_alloc _)
    · refine ⟨t, ys, ?_, done.settled, ?_, done.replacement.trans policy,
        done.current.trans current, ?_⟩
      · rw [starts_succ]
        exact .next trace ⟨hn, out⟩ trivial ok
      · rw [done.running, running]
        funext p
        exact propext (Nat.lt_succ_iff_lt_or_eq).symm
      · intro p w hp hw
        rw [done.running] at hp
        rcases hp with hp | rfl
        · exact done.mapsNothing p w hp hw (noPages p w hp hw)
        · exact done.empty w hw _

/-- Beside 62 page tables one frame may be evicted. -/
theorem Inv.evictable_eq {f g : Nat} (inv : Inv (fun p => p < numFrames - 2) s xs)
    (hf : Evictable s f) (hg : Evictable s g) : f = g := by
  classical
  by_contra ne
  have away : ∀ {f}, Evictable s f → f ∈ Finset.Ico 1 numFrames ∧
      ∀ p < numFrames - 2, (s.procs p).savedPtbr ≠ f := by
    rintro f ⟨lt, unprotected⟩
    refine ⟨Finset.mem_Ico.mpr ⟨Nat.pos_of_ne_zero ?_, lt⟩, ?_⟩
    · rintro rfl
      exact inv.frameZero unprotected
    · rintro p hp rfl
      exact inv.tableProtected hp unprotected
  have inside : insert f (insert g ((Finset.range (numFrames - 2)).image
      (fun p => (s.procs p).savedPtbr))) ⊆ Finset.Ico 1 numFrames := by
    intro x hx
    rcases Finset.mem_insert.mp hx with rfl | hx
    · exact (away hf).1
    rcases Finset.mem_insert.mp hx with rfl | hx
    · exact (away hg).1
    obtain ⟨p, hp, rfl⟩ := Finset.mem_image.mp hx
    have lt := Finset.mem_range.mp hp
    exact Finset.mem_Ico.mpr ⟨inv.tablePos lt, inv.tableLt lt⟩
  have outside : ∀ {f}, Evictable s f → f ∉ (Finset.range (numFrames - 2)).image
      (fun p => (s.procs p).savedPtbr) := by
    intro f hf mem
    obtain ⟨p, hp, table⟩ := Finset.mem_image.mp mem
    exact (away hf).2 p (Finset.mem_range.mp hp) table
  have injective : Set.InjOn (fun p => (s.procs p).savedPtbr) (Finset.range (numFrames - 2)) := by
    intro p hp r hr same
    exact inv.tableInj (Finset.mem_range.mp hp) (Finset.mem_range.mp hr) same
  have counted := Finset.card_le_card inside
  rw [Finset.card_insert_of_notMem (by simp [ne, outside hf]),
    Finset.card_insert_of_notMem (outside hg), Finset.card_image_of_injOn injective,
    Finset.card_range, Nat.card_Ico, numFrames_eq] at counted
  omega

/-- START 0 up to START 61 and an access, last command first: no frame is free. -/
def fullTrace : List Cmd := .access 0 'w' 0 1 :: starts 62

/-- `fullTrace` leads there, and START 62 has to evict the page of the access. -/
structure Full (replacement : Replacement) (s : VM) : Prop where
  trace : Trace standardEnv AccessCoherent (initial (fun _ => 0) replacement false) fullTrace s
  legal : (Cmd.start 62).Legal s
  policy : (startPrelude 62 s).replacement = replacement
  noneFree : freeFrameOf (startPrelude 62 s) = none
  evictable : ∃ f, Evictable (startPrelude 62 s) f ∧ (startPrelude 62 s).fte f .refCount = 0

theorem full_reachable (replacement : Replacement) : ∃ s, Full replacement s := by
  obtain ⟨s, xs, trace, settled, running, policy, current, noPages⟩ :=
    starts_reachable (fun _ => 0) replacement false (n := 62) (by decide)
  have hp : s.Running 0 := by
    rw [running]
    decide
  obtain ⟨c, prelude, settledc, procs, _, policyc, ptbr⟩ := settled.prelude hp
  have coherent : c.ptbr = (c.procs 0).savedPtbr := by
    rw [ptbr, current, procs]
    exact if_neg (by simp)
  have page : vaddrVpn 0 < numPages := by decide
  have runningc : c.Running = fun p => p < 62 := (Running.congr procs).trans running
  have invalid : ∀ p w, c.Running p → w < numPages → c.entry p w .valid = 0 := by
    intro p w hpc hw
    rw [Running.congr procs] at hpc
    rw [settled.prelude_valid prelude hpc hw, noPages p w hpc hw]
  have invc : Inv (fun p => p < 62) c xs := runningc ▸ settledc.inv
  obtain ⟨f, hf⟩ := invc.evictable_of_few (by decide)
  obtain ⟨i, free⟩ := settledc.inv.free invalid hf
  have first : c.entry 0 (vaddrVpn 0) .valid = 0 := invalid 0 _ (by rw [runningc]; decide) page
  rcases settled.access_faults 'w' 1 hp page prelude coherent first
    (victimOk_free standardEnv_own free) with
    ⟨_, none⟩ | ⟨t, ys, ok, settledt, procst, policyt, valid, unused⟩
  · exact absurd none (standardEnv_alloc _)
  have runningt : t.Running = fun p => p < numFrames - 2 := (Running.congr procst).trans running
  have invt : Inv (fun p => p < numFrames - 2) t ys := runningt ▸ settledt.inv
  have own := settledt.inv.owns (by rw [runningt]; decide) page valid
  have here : Evictable t (t.entry 0 (vaddrVpn 0) .pfn) := ⟨own.lt, own.unprotected⟩
  refine ⟨t, ?_, ⟨by decide, ?_⟩, policyt.trans policy, ?_, _, here, unused⟩
  · refine .next trace ⟨hp, by decide⟩ (fun c' prelude' => ?_) ok
    obtain rfl := Except.ok.inj (prelude.symm.trans prelude')
    exact coherent
  · rw [runningt]
    exact Nat.lt_irrefl 62
  · -- the page of the access is in the only frame that is not a page table
    refine List.find?_eq_none.mpr fun g hg => ?_
    rw [decide_eq_true_eq]
    rintro ⟨unprotected, unmapped⟩
    have same : g = t.entry 0 (vaddrVpn 0) .pfn :=
      invt.evictable_eq ⟨List.mem_range.mp hg, unprotected⟩ here
    rw [same] at unmapped
    exact own.mapped unmapped

/-- With no frame free, under each of the policies. -/
theorem victim_contract_full :
    (∃ s, Full .random s ∧ Contract (fun _ => 1) (startPrelude 62 s)) ∧
    (∃ s, Full .approxLru s ∧ Contract (fun _ => 1) (startPrelude 62 s)) ∧
    ∃ s, Full .clocksweep s ∧ Contract (fun _ => 1) (startPrelude 62 s) := by
  have each : ∀ policy, ∃ s, Full policy s ∧ Contract (fun _ => 1) (startPrelude 62 s) := by
    intro policy
    obtain ⟨s, full⟩ := full_reachable policy
    refine ⟨s, full, (victim_contract_iff standardEnv_own full.legal rfl
      (fun _ => full.trace)).mpr ?_⟩
    obtain ⟨f, here, unused⟩ := full.evictable
    unfold CanSelect
    rw [full.policy]
    cases policy with
    | random => trivial
    | approxLru => exact ⟨f, here, .inr (by rw [unused]; decide)⟩
    | clocksweep => exact ⟨f, here⟩
  exact ⟨each _, each _, each _⟩

/-- START 0 to START 62 are well formed and leave every frame protected; START 63
then calls `select_victim_frame` in a state where APPROX_LRU returns a frame number
that does not exist and CLOCKSWEEP never returns, so neither panics. -/
theorem selection_breaks :
    (∃ s, Trace standardEnv AccessCoherent (initial (fun _ => 0) .approxLru false)
        (starts 63) s ∧ (Cmd.start 63).Legal s ∧
      (∀ f < numFrames, (startPrelude 63 s).fte f .isProtected ≠ 0) ∧
      (∀ limit, selectVictimFrame (fun _ => 1) limit (startPrelude 63 s) =
        .ok (noFrame, startPrelude 63 s)) ∧ ¬ Contract (fun _ => 1) (startPrelude 63 s)) ∧
    (∃ s, Trace standardEnv AccessCoherent (initial (fun _ => 0) .clocksweep false)
        (starts 63) s ∧ (Cmd.start 63).Legal s ∧
      (∀ f < numFrames, (startPrelude 63 s).fte f .isProtected ≠ 0) ∧
      (∀ limit, selectVictimFrame (fun _ => 1) limit (startPrelude 63 s) = .error .endless) ∧
      ¬ Contract (fun _ => 1) (startPrelude 63 s)) := by
  have full : ∀ policy, ∃ s, Trace standardEnv AccessCoherent (initial (fun _ => 0) policy false)
      (starts 63) s ∧ (Cmd.start 63).Legal s ∧
      (∀ f < numFrames, (startPrelude 63 s).fte f .isProtected ≠ 0) ∧
      (startPrelude 63 s).replacement = policy := by
    intro policy
    obtain ⟨s, xs, trace, settled, running, same, _⟩ := starts_reachable (fun _ => 0) policy
      false (n := 63) (by decide)
    have inv : Inv (fun p => p < numFrames - 1) s xs := running ▸ settled.inv
    refine ⟨s, trace, ⟨by decide, ?_⟩, inv.all_protected, same⟩
    rw [running]
    exact Nat.lt_irrefl 63
  have noFree : ∀ c : VM, (∀ f < numFrames, c.fte f .isProtected ≠ 0) → freeFrameOf c = none := by
    intro c locked
    refine List.find?_eq_none.mpr (fun f hf => ?_)
    simp [locked f (List.mem_range.mp hf)]
  refine ⟨?_, ?_⟩
  · obtain ⟨s, trace, legal, locked, policy⟩ := full .approxLru
    refine ⟨s, trace, legal, locked, fun limit => ?_, ?_⟩
    · simp only [selectVictimFrame, noFree _ locked, policy]
      rcases leastReferenced_spec (s := startPrelude 63 s) (List.range numFrames) (255, noFrame)
        with
        ⟨i, hi, unprotected, _⟩ | ⟨_, last⟩
      · exact absurd unprotected (locked i (List.mem_range.mp hi))
      · rw [last]
    · rw [contract_approxLru policy]
      rintro ⟨f, hf, _⟩
      exact locked f hf.1 hf.2
  · obtain ⟨s, trace, legal, locked, policy⟩ := full .clocksweep
    have stuck : ∀ limit, selectVictimFrame (fun _ => 1) limit (startPrelude 63 s) =
        .error .endless := by
      intro limit
      simp only [selectVictimFrame, noFree _ locked, policy]
      exact clockSweep_endless locked _ _
    refine ⟨s, trace, legal, locked, stuck, ?_⟩
    rintro ⟨limit, outcome⟩
    rw [stuck limit] at outcome
    exact absurd outcome.1 (by decide)

end

end SystemsProjects.Vm
