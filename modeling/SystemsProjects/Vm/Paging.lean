import SystemsProjects.Vm.Swap

/-!
# Paging

`page_replacement.c`, `page_fault.c`, `mmu.c` and `proc.c`. The functions take
`select_victim_frame` from the environment; `selectVictimFrame` is the
program's own.
-/

namespace SystemsProjects.Vm

/-- `vaddr_vpn`: a `vpn_t` keeps 16 bits. -/
def vaddrVpn (addr : Nat) : Nat := (addr >>> offsetLen) % 2 ^ 16

def vaddrOffset (addr : Nat) : Nat := addr % pageSize

/-! ## Victim selection -/

/-- The first frame that holds nothing, as every policy looks for it first. -/
def freeFrameOf (s : VM) : Option Nat :=
  (List.range numFrames).find?
    (fun i => s.fte i .isProtected = 0 ∧ s.fte i .mapped = 0)

/-- The RANDOM loop over the frames `is`, with `unprotected_found` so far. -/
def russianRoulette (prng : Nat → Nat) : List Nat → Nat → VM → Option Nat × Nat × VM
  | [], found, s => (none, found, s)
  | i :: is, found, s =>
    if s.fte i .isProtected = 0 then
      let draw := prng s.prngCalls
      let s := { s with prngCalls := s.prngCalls + 1 }
      if draw % 2 ≠ 0 then (some i, i, s) else russianRoulette prng is i s
    else russianRoulette prng is found s

/-- The APPROX_LRU loop over the frames `is`: the smallest count so far and the
frame that has it. -/
def leastReferenced (s : VM) : List Nat → Nat × Nat → Nat × Nat
  | [], best => best
  | i :: is, (smallest, toEvict) =>
    if s.fte i .isProtected = 0 ∧ s.fte i .refCount < smallest then
      leastReferenced s is (s.fte i .refCount, i)
    else leastReferenced s is (smallest, toEvict)

/-- The CLOCKSWEEP loop, followed for `limit` rounds. -/
def clockSweep : (limit : Nat) → (curr : Nat) → VM → Except Fault (Nat × VM)
  | 0, _, _ => .error .endless
  | limit + 1, curr, s => do
    let curr := (curr + 1) % numFrames
    if s.fte curr .isProtected = 0 then
      let savedPtbr ← s.pcb (s.fte curr .process) .savedPtbr
      let entry ← entryAt savedPtbr (s.fte curr .vpn)
      if s.pte entry .referenced = 0 then
        return (curr, { s with lastEvicted := curr })
      clockSweep limit curr (s.setPte entry .referenced 0)
    else clockSweep limit curr s

def outOfMemory : Fault := .panic "System ran out of memory\n"

/-- `pfn_t to_evict = -1` -/
def noFrame : Nat := 65535

def selectVictimFrame (prng : Nat → Nat) (limit : Nat) (s : VM) : Except Fault (Nat × VM) :=
  match freeFrameOf s with
  | some i => .ok (i, s)
  | none =>
    match s.replacement with
    | .random =>
      match russianRoulette prng (List.range numFrames) numFrames s with
      | (some i, _, s) => .ok (i, s)
      | (none, found, s) => if found < numFrames then .ok (found, s) else .error outOfMemory
    | .approxLru => .ok ((leastReferenced s (List.range numFrames) (255, noFrame)).2, s)
    | .clocksweep => clockSweep limit s.lastEvicted s

/-! ## Frames and pages -/

section

variable (env : Env)

/-- The first half of `free_frame`: the page in `victim` leaves memory. -/
def evict (victim : Nat) (s : VM) : Except Fault VM := do
  let vpn := s.fte victim .vpn
  let savedPtbr ← s.pcb (s.fte victim .process) .savedPtbr
  let entry ← entryAt savedPtbr vpn
  let s ←
    if s.pte entry .dirty ≠ 0 then do
      let s ← swapWrite env s entry (frameAddr (s.pte entry .pfn))
      let s := s.setStats (fun c => { c with writebacks := uint64 (c.writebacks + 1) })
      pure (s.setPte entry .dirty 0)
    else pure s
  return (s.setPte entry .valid 0).setPte entry .referenced 0

/-- The second half of `free_frame`. -/
def clearFrame (victim : Nat) (s : VM) : VM :=
  let s := s.setFte victim .mapped 0
  let s := s.setFte victim .process 0
  let s := s.setFte victim .vpn 0
  s.setFte victim .refCount 0

def freeFrame (s : VM) : Except Fault (Nat × VM) := do
  let (victim, s) ← env.select s
  inMem (fteAddr victim) fteLayout.stride
  let s ← if s.fte victim .mapped ≠ 0 then evict env victim s else pure s
  return (victim, clearFrame victim s)

/-- The value of `current_process`. -/
def currentPtr (s : VM) : Nat := s.currentProcess.elim 0 pcbPtr

/-- The second half of `page_fault`: the page is in `newFrame`. -/
def mapFrame (entry newFrame vpn : Nat) (s : VM) : VM :=
  let s := s.setPte entry .pfn newFrame
  let s := s.setPte entry .valid 1
  let s := s.setPte entry .dirty 0
  let s := s.setFte newFrame .isProtected 0
  let s := s.setFte newFrame .mapped 1
  let s := s.setFte newFrame .process (currentPtr s)
  let s := s.setFte newFrame .vpn vpn
  let s := s.setFte newFrame .refCount 0
  s.setStats (fun c => { c with pageFaults := uint64 (c.pageFaults + 1) })

def pageFault (addr : Nat) (s : VM) : Except Fault VM := do
  let vpn := vaddrVpn addr
  let entry ← entryAt s.ptbr vpn
  let (newFrame, s) ← freeFrame env s
  let s ←
    if swapExists s entry then swapRead s entry (frameAddr newFrame)
    else do
      inMem (frameAddr newFrame) pageSize
      pure (s.memset (frameAddr newFrame) pageSize 0)
  return mapFrame entry newFrame vpn s

/-- `mem_access` from the increment of `stats.accesses` on. -/
def touch (entry addr : Nat) (access : Char) (data : UInt8) (s : VM) :
    Except Fault (UInt8 × VM) := do
  let s := s.setStats (fun c => { c with accesses := uint64 (c.accesses + 1) })
  let pfn := s.pte entry .pfn
  let offset := vaddrOffset addr
  let s := s.setPte entry .referenced 1
  if access = 'r' then
    inMem (frameAddr pfn + offset) 1
    return (s.byte pfn offset, s)
  else if access = 'w' then
    inMem (frameAddr pfn + offset) 1
    let s := s.memset (frameAddr pfn + offset) 1 data
    return (data, s.setPte entry .dirty 1)
  else return (0, s)

def memAccess (addr : Nat) (access : Char) (data : UInt8) (s : VM) :
    Except Fault (UInt8 × VM) := do
  let vpn := vaddrVpn addr
  let entry ← entryAt s.ptbr vpn
  let s ← if s.pte entry .valid = 0 then pageFault env addr s else pure s
  touch entry addr access data s

/-- `proc_init` from its `memset` on. -/
def initTable (proc victim : Nat) (s : VM) : VM :=
  let s := s.memset (frameAddr victim) pageSize 0
  let s := s.setFte victim .isProtected 1
  let s := s.setFte victim .mapped 1
  let s := s.setFte victim .process (pcbPtr proc)
  s.setProc proc (fun p => { p with savedPtbr := victim })

def procInit (proc : Nat) (s : VM) : Except Fault VM := do
  let (victim, s) ← freeFrame env s
  inMem (frameAddr victim) pageSize
  return initTable proc victim s

end

def contextSwitch (proc : Nat) (s : VM) : VM :=
  { s with ptbr := (s.procs proc).savedPtbr, currentProcess := some proc }

/-- The loop body of `proc_cleanup` for entry `i` of the page table in frame
`ptbr`. -/
def cleanupEntry (ptbr : Nat) (s : VM) (i : Nat) : Except Fault VM := do
  let entry ← entryAt ptbr i
  let s ←
    if s.pte entry .valid ≠ 0 then do
      let pfn := s.pte entry .pfn
      inMem (fteAddr pfn) fteLayout.stride
      pure ((s.setPte entry .valid 0).setFte pfn .mapped 0)
    else pure s
  if swapExists s entry then swapFree s entry else pure s

def procCleanup (proc : Nat) (s : VM) : Except Fault VM := do
  let ptbr := (s.procs proc).savedPtbr
  let s ← (List.range numPages).foldlM (cleanupEntry ptbr) s
  inMem (fteAddr ptbr) fteLayout.stride
  let s := if s.fte ptbr .isProtected ≠ 0 then s.setFte ptbr .isProtected 0 else s
  return s.setFte ptbr .mapped 0

/-- The loop body of `daemon_update` for frame `i`. -/
def ageFrame (s : VM) (i : Nat) : Except Fault VM := do
  if s.fte i .mapped ≠ 0 ∧ s.fte i .isProtected = 0 then
    let savedPtbr ← s.pcb (s.fte i .process) .savedPtbr
    let entry ← entryAt savedPtbr (s.fte i .vpn)
    let s := s.setFte i .refCount ((s.pte entry .referenced <<< 7) ||| (s.fte i .refCount >>> 1))
    return s.setPte entry .referenced 0
  else return s

def daemonUpdate (s : VM) : Except Fault VM := (List.range numFrames).foldlM ageFrame s

def systemInit (s : VM) : VM :=
  (s.memset (fteAddr 0) (numFrames * fteLayout.stride) 0).setFte 0 .isProtected 1

end SystemsProjects.Vm
