import SystemsProjects.Lib.Bytes
import SystemsProjects.Lib.Heap

/-!
# The paging simulator's state

The declarations of `pagesim.h`, `mmu.h`, `swap.h` and `stats.h`. The frame
table and the page tables are C structures inside the byte array `mem`; field
offsets are those of the LP64 ABI the Makefile builds for.
-/

namespace SystemsProjects.Vm

open Bytes Heaps

def maxPid : Nat := 800
def paddrLen : Nat := 20
def vaddrLen : Nat := 24
def offsetLen : Nat := 14
def pageSize : Nat := 1 <<< offsetLen
def memSize : Nat := 1 <<< paddrLen
def numPages : Nat := 1 <<< (vaddrLen - offsetLen)
def numFrames : Nat := 1 <<< (paddrLen - offsetLen)
def daemonWakeupPeriod : Nat := 5

theorem pageSize_eq : pageSize = 16384 := rfl
theorem memSize_eq : memSize = 1048576 := rfl
theorem numPages_eq : numPages = 1024 := rfl
theorem numFrames_eq : numFrames = 64 := rfl
theorem maxPid_eq : maxPid = 800 := rfl

/-- The value kept by a `uint64_t`. -/
def uint64 (n : Nat) : Nat := n % 2 ^ 64

/-- How an execution can stop short: `panic` is the program's own; the pointer
faults are undefined behaviour in C; `endless` is a loop that never exits, or
was not followed to its exit. -/
inductive Fault where
  | panic (message : String)
  | outOfBounds
  | nullPointer
  | wildPointer
  | endless
  deriving DecidableEq, Repr

inductive ProcState where
  | stopped
  | running
  deriving DecidableEq, Repr

inductive Replacement where
  | random
  | approxLru
  | clocksweep
  deriving DecidableEq, Repr

structure Pcb where
  pid : Nat
  state : ProcState
  savedPtbr : Nat
  deriving DecidableEq, Repr

/-- `PROC_STOPPED` and `PROC_RUNNING`. -/
def ProcState.toNat : ProcState → Nat
  | .stopped => 0
  | .running => 1

/-- The fields of `pcb_t`. -/
inductive PcbField where
  | pid
  | state
  | savedPtbr
  deriving DecidableEq, Repr

/-- The fields of `fte_t`; `isProtected` is the source's `protected`. -/
inductive FteField where
  | isProtected
  | mapped
  | refCount
  | process
  | vpn
  deriving DecidableEq, Repr

/-- The fields of `pte_t`. -/
inductive PteField where
  | valid
  | dirty
  | pfn
  | referenced
  | sid
  deriving DecidableEq, Repr

def pcbSize : Nat := 8

def pcbLayout : Layout PcbField where
  offset
    | .pid => 0
    | .state => 4
    | .savedPtbr => 6
  size
    | .pid => 4
    | .state => 1
    | .savedPtbr => 2
  stride := pcbSize
  inside := by intro f; cases f <;> decide
  apart := by intro f g; cases f <;> cases g <;> decide

def fteLayout : Layout FteField where
  offset
    | .isProtected => 0
    | .mapped => 1
    | .refCount => 2
    | .process => 8
    | .vpn => 16
  size
    | .isProtected | .mapped | .refCount => 1
    | .process => 8
    | .vpn => 2
  stride := 24
  inside := by intro f; cases f <;> decide
  apart := by intro f g; cases f <;> cases g <;> decide

def pteLayout : Layout PteField where
  offset
    | .valid => 0
    | .dirty => 1
    | .pfn => 2
    | .referenced => 4
    | .sid => 8
  size
    | .valid | .dirty | .referenced => 1
    | .pfn => 2
    | .sid => 8
  stride := 16
  inside := by intro f; cases f <;> decide
  apart := by intro f g; cases f <;> cases g <;> decide

structure SwapEntry where
  id : Nat
  pageData : Nat → UInt8
  next : Option Nat

/-- `swap_queue`, the blocks it is made of, and the counter `SWAP_ID`. -/
structure SwapSpace where
  head : Option Nat
  tail : Option Nat
  size : Nat
  sizeMax : Nat
  heap : Heap SwapEntry
  swapId : Nat

structure Stats where
  accesses : Nat
  pageFaults : Nat
  writebacks : Nat
  deriving DecidableEq, Repr

/-- The globals. A process is named by its index in `procs`; `slack` has the bytes that lie
between and behind the fields of `procs`. -/
structure VM where
  mem : ByteMem
  ptbr : Nat
  currentProcess : Option Nat
  procs : Nat → Pcb
  slack : ByteMem
  replacement : Replacement
  lastEvicted : Nat
  prngCalls : Nat
  daemonCounter : Nat
  checkCorruption : Bool
  swap : SwapSpace
  stats : Stats

/-! ## Addresses and fields -/

/-- Where `calloc` put `procs`. Only that it is not NULL is ever used. -/
def procsBase : Nat := 4096

/-- The pointer value of `&procs[pid]`. -/
def pcbPtr (pid : Nat) : Nat := procsBase + pcbSize * pid

/-- The fields of `pcb` written to `a`. -/
def Pcb.store (pcb : Pcb) (m : ByteMem) (a : Nat) : ByteMem :=
  let m := pcbLayout.set m a .pid pcb.pid
  let m := pcbLayout.set m a .state pcb.state.toNat
  pcbLayout.set m a .savedPtbr pcb.savedPtbr

def fteAddr (i : Nat) : Nat := i * fteLayout.stride

def frameAddr (pfn : Nat) : Nat := pfn * pageSize

def pteAddr (ptbr vpn : Nat) : Nat := frameAddr ptbr + vpn * pteLayout.stride

/-- A use of `n` bytes of `mem` from `a`. -/
def inMem (a n : Nat) : Except Fault Unit :=
  if a + n ≤ memSize then .ok () else .error .outOfBounds

/-- `&page_table[vpn]` of the page table in frame `ptbr`. -/
def entryAt (ptbr vpn : Nat) : Except Fault Nat := do
  inMem (pteAddr ptbr vpn) pteLayout.stride
  return pteAddr ptbr vpn

namespace VM

/-- The bytes of `procs` and those behind it. -/
def procsMem (s : VM) : ByteMem := fun a =>
  let pid := (a - procsBase) / pcbSize
  if pid < maxPid then (s.procs pid).store s.slack (pcbPtr pid) a else s.slack a

/-- `ptr->f` for a `pcb_t *` read from memory. Within `procs` it need not be the address of
an element. -/
def pcb (s : VM) (ptr : Nat) (f : PcbField) : Except Fault Nat :=
  if ptr = 0 then .error .nullPointer
  else if procsBase ≤ ptr ∧ ptr < procsBase + pcbSize * maxPid then
    .ok (pcbLayout.get s.procsMem ptr f)
  else .error .wildPointer

/-- `frame_table[i].f` -/
def fte (s : VM) (i : Nat) (f : FteField) : Nat := fteLayout.get s.mem (fteAddr i) f

/-- `entry->f` -/
def pte (s : VM) (entry : Nat) (f : PteField) : Nat := pteLayout.get s.mem entry f

/-- Byte `offset` of frame `pfn`. -/
def byte (s : VM) (pfn offset : Nat) : UInt8 := s.mem (frameAddr pfn + offset)

def setFte (s : VM) (i : Nat) (f : FteField) (v : Nat) : VM :=
  { s with mem := fteLayout.set s.mem (fteAddr i) f v }

def setPte (s : VM) (entry : Nat) (f : PteField) (v : Nat) : VM :=
  { s with mem := pteLayout.set s.mem entry f v }

/-- `memcpy` to `dst` in `mem`. -/
def memcpy (s : VM) (dst n : Nat) (src : Nat → UInt8) : VM :=
  { s with mem := splice s.mem dst n src }

def memset (s : VM) (dst n : Nat) (b : UInt8) : VM := { s with mem := fill s.mem dst n b }

def setSwap (s : VM) (q : SwapSpace) : VM := { s with swap := q }

def setStats (s : VM) (f : Stats → Stats) : VM := { s with stats := f s.stats }

/-- `procs[pid]` is a process between its START and its STOP. -/
def Running (s : VM) (pid : Nat) : Prop := pid < maxPid ∧ (s.procs pid).state = .running

instance (s : VM) (pid : Nat) : Decidable (s.Running pid) := inferInstanceAs (Decidable (_ ∧ _))

/-- Entry `vpn` of the page table of `pid`. -/
def entry (s : VM) (pid vpn : Nat) (f : PteField) : Nat :=
  s.pte (pteAddr (s.procs pid).savedPtbr vpn) f

def setProc (s : VM) (pid : Nat) (f : Pcb → Pcb) : VM :=
  { s with procs := fun q => if q = pid then f (s.procs q) else s.procs q }

/-- Before `main` runs `system_init`: `procs` is zeroed, `mem` holds anything. -/
def boot (mem : ByteMem) (replacement : Replacement) (checkCorruption : Bool) : VM where
  mem := mem
  ptbr := 0
  currentProcess := none
  procs _ := ⟨0, .stopped, 0⟩
  slack _ := 0
  replacement := replacement
  lastEvicted := 0
  prngCalls := 0
  daemonCounter := 0
  checkCorruption := checkCorruption
  swap := ⟨none, none, 0, 0, [], 1⟩
  stats := ⟨0, 0, 0⟩

end VM

/-! ## What the simulator takes from outside -/

/-- Each unprotected mapped frame belongs to a page table outside frame 0. -/
def FramesOwned (s : VM) : Prop :=
  ∀ f < numFrames, s.fte f .isProtected = 0 → s.fte f .mapped ≠ 0 →
    ∃ pid < maxPid, s.fte f .process = pcbPtr pid ∧ s.fte f .vpn < numPages ∧
      0 < (s.procs pid).savedPtbr ∧ (s.procs pid).savedPtbr < numFrames ∧
      s.fte (s.procs pid).savedPtbr .isProtected ≠ 0

/-- `t` is `s` up to usage records: the referenced bits, the reference counts,
and the counters that victim selection keeps to itself. -/
structure UsageOnly (s t : VM) : Prop where
  ptbr : t.ptbr = s.ptbr
  currentProcess : t.currentProcess = s.currentProcess
  replacement : t.replacement = s.replacement
  procs : t.procs = s.procs
  swap : t.swap = s.swap
  stats : t.stats = s.stats
  fte : ∀ i < numFrames, ∀ f, f ≠ .refCount → t.fte i f = s.fte i f
  pte : ∀ f, 0 < f → f < numFrames → ∀ v < numPages, ∀ g, g ≠ .referenced →
    t.pte (pteAddr f v) g = s.pte (pteAddr f v) g
  byte : ∀ f, 0 < f → f < numFrames → s.fte f .isProtected = 0 → ∀ o < pageSize,
    t.byte f o = s.byte f o

/-- `select` stands for `select_victim_frame`, whose choice may touch usage
records only. `calloc` returns NULL or an address that is not in use. -/
structure Env where
  select : VM → Except Fault (Nat × VM)
  select_usage : ∀ {s v t}, FramesOwned s → select s = .ok (v, t) → UsageOnly s t
  calloc : Heap SwapEntry → Option Nat
  fresh : ∀ {h a}, calloc h = some a → h.read a = none

end SystemsProjects.Vm
