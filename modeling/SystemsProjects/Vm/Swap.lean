import SystemsProjects.Vm.Machine

/-!
# The swap space

`swap.c` and `swapops.c`. Links between entries are addresses of heap blocks;
`NULL` is `none`. A walk of more steps than there are blocks has come back to a
block it has seen, so it is `endless`.
-/

namespace SystemsProjects.Vm

open Heaps

/-- The loop of `swap_queue_find`, and that of `swap_queue_dequeue`, which also
keeps the block before `curr`. -/
def searchFrom (heap : Heap SwapEntry) (sid : Nat) :
    Nat → Option Nat → Option Nat → Except Fault (Option Nat × Option Nat)
  | _, prev, none => .ok (prev, none)
  | 0, _, some _ => .error .endless
  | n + 1, prev, some curr =>
    match heap.read curr with
    | none => .error .wildPointer
    | some e => if e.id = sid then .ok (prev, some curr) else searchFrom heap sid n (some curr)
        e.next

namespace SwapSpace

def createEntry (env : Env) (q : SwapSpace) : Except Fault (Nat × SwapSpace) :=
  match env.calloc q.heap with
  | none => .error (.panic "could not allocate swap entry")
  | some a =>
    .ok (a, { q with
      heap := q.heap.alloc a ⟨q.swapId, fun _ => 0, none⟩
      swapId := uint64 (q.swapId + 1) })

/-- `curr->next = next`, where `curr` may be NULL or dangling. -/
def setNext (q : SwapSpace) (curr : Option Nat) (next : Option Nat) : Except Fault SwapSpace :=
  match curr with
  | none => .error .nullPointer
  | some a =>
    if (q.heap.read a).isSome then
      .ok { q with heap := q.heap.modify a (fun e => { e with next := next }) }
    else .error .wildPointer

def swapQueueEnqueue (q : SwapSpace) (newEntry : Nat) : Except Fault SwapSpace := do
  let q ← q.setNext (some newEntry) none
  let q ←
    if q.head = none then
      pure { q with head := some newEntry, tail := some newEntry }
    else do
      let q ← q.setNext q.tail (some newEntry)
      pure { q with tail := some newEntry }
  let size := uint64 (q.size + 1)
  return { q with size := size, sizeMax := if size > q.sizeMax then size else q.sizeMax }

/-- What the loop of `swap_queue_dequeue` does on finding `curr` after `prev`. -/
def unlink (q : SwapSpace) (prev : Option Nat) (curr : Nat) : Except Fault SwapSpace := do
  let next := q.heap.links SwapEntry.next curr
  let q ← if prev.isSome then q.setNext prev next else pure { q with head := next }
  return { q with tail := if some curr = q.tail then prev else q.tail }

def swapQueueDequeue (q : SwapSpace) (sid : Nat) : Except Fault SwapSpace := do
  let (prev, curr) ← searchFrom q.heap sid q.heap.length none q.head
  let q ← match curr with
    | none => pure q
    | some c => q.unlink prev c
  let q := { q with size := uint64 (q.size + (2 ^ 64 - 1)) }
  let q ← q.setNext curr none
  return { q with heap := curr.elim q.heap q.heap.free }

def swapQueueFind (q : SwapSpace) (sid : Nat) : Except Fault (Option Nat) := do
  let (_, curr) ← searchFrom q.heap sid q.heap.length none q.head
  return curr

end SwapSpace

/-- `swap_exists` -/
def swapExists (s : VM) (pte : Nat) : Bool := s.pte pte .sid ≠ 0

def swapReadMissing : String :=
  "Attempted to read an invalid swap entry.\nHINT: How do you check if a swap entry exists, " ++
  "and if it does not, what should you put in memory instead?"

def swapFreeMissing : String :=
  "Attempted to free an invalid swap entry!\nHint: are you checking if the swap partition exists?"

def swapRead (s : VM) (pte dst : Nat) : Except Fault VM := do
  match ← s.swap.swapQueueFind (s.pte pte .sid) with
  | none => throw (.panic swapReadMissing)
  | some info =>
    inMem dst pageSize
    match s.swap.heap.read info with
    | none => throw .wildPointer
    | some e => return s.memcpy dst pageSize e.pageData

def swapWrite (env : Env) (s : VM) (pte src : Nat) : Except Fault VM := do
  let (info, s) ←
    match ← s.swap.swapQueueFind (s.pte pte .sid) with
    | some info => pure (info, s)
    | none => do
      let (info, q) ← s.swap.createEntry env
      let q ← q.swapQueueEnqueue info
      let id := (q.heap.read info).elim 0 SwapEntry.id
      pure (info, (s.setSwap q).setPte pte .sid id)
  inMem src pageSize
  let page := fun i => s.mem (src + i)
  return s.setSwap { s.swap with
    heap := s.swap.heap.modify info (fun e => { e with pageData := page }) }

def swapFree (s : VM) (pte : Nat) : Except Fault VM := do
  match ← s.swap.swapQueueFind (s.pte pte .sid) with
  | none => throw (.panic swapFreeMissing)
  | some _ =>
    let q ← s.swap.swapQueueDequeue (s.pte pte .sid)
    return (s.setSwap q).setPte pte .sid 0

end SystemsProjects.Vm
