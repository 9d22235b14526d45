import SystemsProjects.Vm.Paging

/-!
# The trace driver and the corruption checker

`pagesim.c`. Output is left out; a command that was parsed is a `Cmd`.
-/

namespace SystemsProjects.Vm

/-! ## `check_validity` -/

/-- Use of an element of an array of NUM_FRAMES markers. -/
def inFrames (i : Nat) : Except Fault Unit :=
  if i < numFrames then .ok () else .error .outOfBounds

def panicIf (c : Prop) [Decidable c] (message : String) : Except Fault Unit :=
  if c then .error (.panic message) else .ok ()

def mark (accounted : Nat → Bool) (i : Nat) : Nat → Bool :=
  fun f => if f = i then true else accounted f

/-- The first scan, for one pid: its page table frame is protected. -/
def checkPtbr (s : VM) (accounted : Nat → Bool) (pid : Nat) : Except Fault (Nat → Bool) := do
  if (s.procs pid).state = .running then
    let foundPtbr := (s.procs pid).savedPtbr
    panicIf (foundPtbr ≤ 0 ∨ foundPtbr > numFrames)
      "PTBR of running process cannot be zero or >= the number of frames in the system"
    panicIf (s.fte foundPtbr .isProtected = 0)
      "Frames corresponding to the page tables of running processes must be marked as protected"
    inFrames foundPtbr
    return mark accounted foundPtbr
  else return accounted

def checkProtected (s : VM) (accounted : Nat → Bool) (pfn : Nat) : Except Fault Unit :=
  panicIf (s.fte pfn .isProtected ≠ 0 ∧ accounted pfn = false)
    "Found frame marked as protected that should not be protected"

/-- The tests of a valid entry `entry = &pgtable[vpn]` of process `pid`. -/
def checkMapping (s : VM) (protectedFrames : Nat → Bool) (pid vpn entry : Nat)
    (accounted : Nat → Bool) : Except Fault (Nat → Bool) := do
  let foundPfn := s.pte entry .pfn
  panicIf (foundPfn ≤ 0 ∨ foundPfn > numFrames - 1)
    "PFN of page table entry cannot be zero or >= the number of frames in the system"
  inFrames foundPfn
  panicIf (protectedFrames foundPfn = true) "Page table entry should not map to a protected frame"
  panicIf (accounted foundPfn = true) "Multiple valid page table entries map to same PFN"
  let process := s.fte foundPfn .process
  panicIf (process < procsBase ∨ process ≥ procsBase + pcbSize * maxPid)
    "Frames should not be owned by invalid or terminated processes"
  panicIf (s.fte foundPfn .mapped = 0) "Valid page table entry points to unmapped physical frame"
  let owner ← s.pcb process .pid
  panicIf (owner ≠ pid)
    "Process owning valid page table entry does not match process owning corresponding PFN"
  panicIf (s.fte foundPfn .vpn ≠ vpn)
    "Valid VPN to PFN mapping in page table does not match PFN to VPN mapping in frame table"
  return mark accounted foundPfn

def checkSwapEntry (s : VM) (entry : Nat) : Except Fault Unit := do
  if s.pte entry .sid ≠ 0 then
    let found ← s.swap.swapQueueFind (s.pte entry .sid)
    panicIf (found = none) "Page table entry points to swap entry that does not exist"

/-- The second scan, for one page table entry. -/
def checkEntry (s : VM) (protectedFrames : Nat → Bool) (pid : Nat) (accounted : Nat → Bool)
    (vpn : Nat) : Except Fault (Nat → Bool) := do
  let entry ← entryAt (s.procs pid).savedPtbr vpn
  panicIf (s.pte entry .valid ≠ 0 ∧ s.pte entry .valid ≠ 1)
    "Page table entry valid bit should either be zero or one"
  panicIf (s.pte entry .dirty ≠ 0 ∧ s.pte entry .dirty ≠ 1)
    "Page table entry dirty bit should either be zero or one"
  let accounted ←
    if s.pte entry .valid ≠ 0 then checkMapping s protectedFrames pid vpn entry accounted
    else pure accounted
  checkSwapEntry s entry
  return accounted

def checkPageTable (s : VM) (protectedFrames : Nat → Bool) (accounted : Nat → Bool) (pid : Nat) :
    Except Fault (Nat → Bool) :=
  if (s.procs pid).state = .running then
    (List.range numPages).foldlM (checkEntry s protectedFrames pid) accounted
  else .ok accounted

def checkMapped (s : VM) (accounted : Nat → Bool) (pfn : Nat) : Except Fault Unit :=
  panicIf (s.fte pfn .isProtected = 0 ∧ s.fte pfn .mapped ≠ 0 ∧ accounted pfn = false)
    "Found frame table entry marked as mapped with no corresponding page table entry"

/-- `frame_table` is `mem` from `system_init` on, so that test is left out. -/
def checkValidity (checks : Nat) (s : VM) : Except Fault Unit := do
  panicIf (s.fte 0 .isProtected = 0) "Frame 0 should be marked as protected"
  if checks < 1 then
    return
  let protectedFrames ← (List.range maxPid).foldlM (checkPtbr s) (mark (fun _ => false) 0)
  forM (List.range numFrames) (checkProtected s protectedFrames)
  let mappedFrames ←
    (List.range maxPid).foldlM (checkPageTable s protectedFrames) (fun _ => false)
  forM (List.range numFrames) (checkMapped s mappedFrames)

/-! ## Commands -/

inductive Cmd where
  | start (pid : Nat)
  | stop (pid : Nat)
  | access (pid : Nat) (rw : Char) (address : Nat) (data : UInt8)
  deriving DecidableEq

/-- `&procs[pid]` -/
def procAt (pid : Nat) : Except Fault Unit :=
  if pid < maxPid then .ok () else .error .outOfBounds

def corruptionCheck (s : VM) : Except Fault Unit :=
  if s.checkCorruption then checkValidity 1 s else .ok ()

/-- `sim_start_proc` up to its call of `proc_init`. -/
def startPrelude (pid : Nat) (s : VM) : VM :=
  s.setProc pid (fun p => { p with pid := pid, state := .running })

def simStartProc (env : Env) (pid : Nat) (s : VM) : Except Fault VM := do
  procAt pid
  let s ← procInit env pid (startPrelude pid s)
  corruptionCheck s
  return s

/-- `sim_stop_proc` after its call of `proc_cleanup`. -/
def stopEpilogue (pid : Nat) (s : VM) : VM :=
  let s := s.setProc pid (fun p => { p with savedPtbr := 0 })
  s.setProc pid (fun p => { p with state := .stopped })

def simStopProc (pid : Nat) (s : VM) : Except Fault VM := do
  procAt pid
  let s ← procCleanup pid s
  let s := stopEpilogue pid s
  corruptionCheck s
  return s

/-- `sim_mem_access` up to its call of `mem_access`. -/
def accessPrelude (pid : Nat) (s : VM) : Except Fault VM := do
  let s := { s with daemonCounter := (s.daemonCounter + 1) % 2 ^ 16 }
  let s ←
    if s.daemonCounter ≥ daemonWakeupPeriod ∧ s.replacement = .approxLru then do
      let s ← daemonUpdate s
      pure { s with daemonCounter := 0 }
    else pure s
  if s.currentProcess.all (fun p => (s.procs p).pid ≠ pid) then
    procAt pid
    return { contextSwitch pid s with currentProcess := some pid }
  else return s

def simMemAccess (env : Env) (pid : Nat) (rw : Char) (address : Nat) (data : UInt8) (s : VM) :
    Except Fault VM := do
  let s ← accessPrelude pid s
  let (_, s) ← memAccess env address rw data s
  corruptionCheck s
  return s

def simCmd (env : Env) : Cmd → VM → Except Fault VM
  | .start pid, s => simStartProc env pid s
  | .stop pid, s => simStopProc pid s
  | .access pid rw address data, s => simMemAccess env pid rw address data s

end SystemsProjects.Vm
