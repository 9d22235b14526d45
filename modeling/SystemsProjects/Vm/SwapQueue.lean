import SystemsProjects.Vm.Swap

/-!
# The swap queue as a list

`SwapRep q xs`: the blocks linked from `head` hold the slots `xs` in order, the
heap holds nothing else, and `tail` and `size` fit. Each swap operation is then
an operation on the list.
-/

namespace SystemsProjects.Vm

open Heaps Links

/-- A swap entry seen from outside: the block it is in, its id and its page. -/
structure Slot where
  block : Nat
  id : Nat
  page : Nat → UInt8

abbrev blocks (xs : List Slot) : List Nat := xs.map Slot.block

abbrev ids (xs : List Slot) : List Nat := xs.map Slot.id

/-- The block of slot `x` holds it. -/
def Holds (heap : Heap SwapEntry) (x : Slot) : Prop :=
  ∃ e, heap.read x.block = some e ∧ e.id = x.id ∧ e.pageData = x.page

structure SwapRep (q : SwapSpace) (xs : List Slot) : Prop where
  chain : Chain (q.heap.links SwapEntry.next) q.head (blocks xs)
  tail : q.tail = (blocks xs).getLast?
  size : q.size = uint64 xs.length
  holds : ∀ x ∈ xs, Holds q.heap x
  owned : ∀ a, (q.heap.read a).isSome → a ∈ blocks xs

theorem Holds.live {heap : Heap SwapEntry} {x : Slot} (h : Holds heap x) :
    (heap.read x.block).isSome := by
  obtain ⟨e, he, _⟩ := h
  simp [he]

namespace SwapRep

variable {q : SwapSpace} {xs : List Slot}

theorem length_le (h : SwapRep q xs) : xs.length ≤ q.heap.length := by
  have live : ∀ a ∈ blocks xs, (q.heap.read a).isSome := by
    intro a ha
    obtain ⟨x, hx, rfl⟩ := List.mem_map.mp ha
    exact (h.holds x hx).live
  simpa using Heap.chain_length_le h.chain live

theorem blocks_nodup (h : SwapRep q xs) : (blocks xs).Nodup := h.chain.nodup

theorem block_inj (h : SwapRep q xs) {x y : Slot} (hx : x ∈ xs) (hy : y ∈ xs)
    (same : x.block = y.block) : x = y :=
  List.inj_on_of_nodup_map h.blocks_nodup hx hy same

end SwapRep

/-! ## Searching -/

/-- `searchFrom` on the list: the block before the first slot with id `sid`,
and that slot's block. -/
def searchSlots (sid : Nat) : Option Nat → List Slot → Option Nat × Option Nat
  | prev, [] => (prev, none)
  | prev, x :: xs => if x.id = sid then (prev, some x.block) else searchSlots sid (some x.block) xs

theorem searchFrom_eq {heap : Heap SwapEntry} {sid n : Nat} {prev head : Option Nat}
    {xs : List Slot} (chain : Chain (heap.links SwapEntry.next) head (blocks xs))
    (holds : ∀ x ∈ xs, Holds heap x) (enough : xs.length ≤ n) :
    searchFrom heap sid n prev head = .ok (searchSlots sid prev xs) := by
  induction xs generalizing n prev head with
  | nil =>
    cases chain
    rw [searchFrom, searchSlots]
  | cons x xs ih =>
    obtain ⟨rfl, rest⟩ := chain
    obtain ⟨e, he, hid, _⟩ := holds x List.mem_cons_self
    obtain ⟨n, rfl⟩ : ∃ m, n = m + 1 := ⟨n - 1, by simp only [List.length_cons] at enough; omega⟩
    simp only [searchFrom, searchSlots, he, hid]
    split
    · rfl
    · apply ih
      · simpa [Heap.links, he] using rest
      · exact fun y hy => holds y (List.mem_cons_of_mem x hy)
      · simp only [List.length_cons] at enough
        omega

theorem searchSlots_absent {sid : Nat} {prev : Option Nat} {xs : List Slot} (h : sid ∉ ids xs) :
    (searchSlots sid prev xs).2 = none := by
  induction xs generalizing prev with
  | nil => rfl
  | cons x xs ih =>
    simp only [ids, List.map_cons, List.mem_cons, not_or] at h
    rw [searchSlots, if_neg (Ne.symm h.1)]
    exact ih h.2

theorem searchSlots_found {sid : Nat} {prev : Option Nat} {before after : List Slot} {x : Slot}
    (first : sid ∉ ids before) (here : x.id = sid) :
    searchSlots sid prev (before ++ x :: after) =
      ((blocks before).getLast?.or prev, some x.block) := by
  induction before generalizing prev with
  | nil => simp [searchSlots, here]
  | cons y before ih =>
    simp only [ids, List.map_cons, List.mem_cons, not_or] at first
    rw [List.cons_append, searchSlots, if_neg (Ne.symm first.1), ih first.2]
    simp only [blocks, List.map_cons, List.getLast?_cons]
    cases (before.map Slot.block).getLast? <;> rfl

/-- The first slot with a given id splits the list. -/
theorem first_slot {sid : Nat} {xs : List Slot} (h : sid ∈ ids xs) :
    ∃ before x after, xs = before ++ x :: after ∧ sid ∉ ids before ∧ x.id = sid := by
  induction xs with
  | nil => simp at h
  | cons y xs ih =>
    by_cases hy : y.id = sid
    · exact ⟨[], y, xs, rfl, by simp, hy⟩
    · obtain ⟨before, x, after, rfl, first, here⟩ := ih (by
        simpa [ids, Ne.symm hy] using h)
      refine ⟨y :: before, x, after, rfl, ?_, here⟩
      simpa [ids, Ne.symm hy] using first

section Find

variable {q : SwapSpace} {xs : List Slot} {sid : Nat}

theorem swapQueueFind_absent (h : SwapRep q xs) (absent : sid ∉ ids xs) :
    q.swapQueueFind sid = .ok none := by
  simp only [SwapSpace.swapQueueFind, searchFrom_eq h.chain h.holds h.length_le]
  have : (searchSlots sid none xs).2 = none := searchSlots_absent absent
  simp [bind, Except.bind, pure, Except.pure, this]

theorem swapQueueFind_present (h : SwapRep q xs) (present : sid ∈ ids xs) :
    ∃ x ∈ xs, x.id = sid ∧ q.swapQueueFind sid = .ok (some x.block) := by
  obtain ⟨before, x, after, rfl, first, here⟩ := first_slot present
  refine ⟨x, by simp, here, ?_⟩
  simp only [SwapSpace.swapQueueFind, searchFrom_eq h.chain h.holds h.length_le,
    searchSlots_found first here]
  rfl

end Find

/-! ## Changing the list -/

section Update

variable {q : SwapSpace} {xs : List Slot}

theorem setNext_eq {a : Nat} {next : Option Nat} (live : (q.heap.read a).isSome) :
    q.setNext (some a) next =
      .ok { q with heap := q.heap.modify a (fun e => { e with next := next }) } := by
  simp [SwapSpace.setNext, live]

/-- Rewriting a link of a block changes that link and keeps every slot. -/
theorem links_modify {heap : Heap SwapEntry} {a : Nat} {next : Option Nat}
    (live : (heap.read a).isSome) :
    Heap.links (heap.modify a (fun e => { e with next := next })) SwapEntry.next =
      link (heap.links SwapEntry.next) a next := by
  obtain ⟨e, he⟩ := Option.isSome_iff_exists.mp live
  funext b
  by_cases hb : b = a
  · subst hb
    simp [Heap.links, he]
  · simp [Heap.links, link_other hb, Ne.symm hb]

theorem Holds.modify_next {heap : Heap SwapEntry} {a : Nat} {next : Option Nat} {x : Slot}
    (h : Holds heap x) : Holds (heap.modify a (fun e => { e with next := next })) x := by
  obtain ⟨e, he, hid, hpage⟩ := h
  by_cases ha : a = x.block
  · exact ⟨{ e with next := next }, by simp [ha, he], hid, hpage⟩
  · exact ⟨e, by simp [ha, he], hid, hpage⟩

theorem isSome_modify (heap : Heap SwapEntry) (a b : Nat) (f : SwapEntry → SwapEntry) :
    (Heap.read (heap.modify a f) b).isSome = (heap.read b).isSome := by
  by_cases ha : a = b <;> simp [ha]

theorem getLast?_mem_blocks {t : Nat} (h : (blocks xs).getLast? = some t) : t ∈ blocks xs :=
  List.mem_of_getLast? h

/-- A new block at the end of the queue. `new` is the block `create_entry`
filled in. -/
theorem swapQueueEnqueue_spec {x : Slot} {e : SwapEntry} (h : SwapRep q xs)
    (absent : q.heap.read x.block = none) (hid : e.id = x.id) (hpage : e.pageData = x.page) :
    ∃ q', SwapSpace.swapQueueEnqueue { q with heap := q.heap.alloc x.block e } x.block = .ok q' ∧
      SwapRep q' (xs ++ [x]) ∧ q'.swapId = q.swapId ∧
      q'.size = uint64 (q.size + 1) ∧ q'.sizeMax = max q.sizeMax (uint64 (q.size + 1)) ∧
      q'.heap.read x.block = some { e with next := none } := by
  have outside : x.block ∉ blocks xs := by
    intro mem
    obtain ⟨y, hy, same⟩ := List.mem_map.mp mem
    have := (h.holds y hy).live
    simp [same, absent] at this
  -- after `new_entry->next = NULL` the new block is linked to nothing
  let heap₁ := (q.heap.alloc x.block e).modify x.block (fun e => { e with next := none })
  have read₁ : ∀ b, Heap.read heap₁ b =
      if x.block = b then some { e with next := none } else q.heap.read b := by
    intro b
    by_cases hb : x.block = b <;> simp [heap₁, hb]
  have holds₁ : ∀ y ∈ xs ++ [x], Holds heap₁ y := by
    intro y hy
    rcases List.mem_append.mp hy with hy | hy
    · obtain ⟨e', he', hid', hpage'⟩ := h.holds y hy
      have ne : x.block ≠ y.block := fun e => outside (e ▸ List.mem_map_of_mem hy)
      exact ⟨e', by rw [read₁, if_neg ne, he'], hid', hpage'⟩
    · obtain rfl := List.mem_singleton.mp hy
      exact ⟨{ e with next := none }, by rw [read₁, if_pos rfl], hid, hpage⟩
  have chain₁ : Chain (Heap.links heap₁ SwapEntry.next) q.head (blocks xs) := by
    apply h.chain.congr
    intro b hb
    have ne : x.block ≠ b := fun e => outside (e ▸ hb)
    simp [Heap.links, read₁, ne]
  have owned₁ : ∀ a, (Heap.read heap₁ a).isSome → a ∈ blocks (xs ++ [x]) := by
    intro a ha
    rw [read₁] at ha
    by_cases hx : x.block = a
    · simp [hx]
    · rw [if_neg hx] at ha
      simp only [blocks, List.map_append, List.mem_append]
      exact Or.inl (h.owned a ha)
  have ends : Heap.links heap₁ SwapEntry.next x.block = none := by simp [Heap.links, read₁]
  have size : uint64 (q.size + 1) = uint64 (xs ++ [x]).length := by
    rw [h.size, List.length_append, List.length_singleton, uint64, uint64, uint64, Nat.mod_add_mod]
  have max_eq : (if q.sizeMax < uint64 (q.size + 1) then uint64 (q.size + 1) else q.sizeMax) =
      max q.sizeMax (uint64 (q.size + 1)) := by
    rw [Nat.max_def]
    split <;> split <;> omega
  have first : SwapSpace.setNext { q with heap := q.heap.alloc x.block e } (some x.block) none =
      .ok { q with heap := heap₁ } := setNext_eq (by simp)
  cases hxs : xs with
  | nil =>
    subst hxs
    have head : q.head = none := h.chain
    refine ⟨{ q with
      heap := heap₁
      head := some x.block
      tail := some x.block
      size := uint64 (q.size + 1)
      sizeMax := max q.sizeMax (uint64 (q.size + 1)) }, ?_, ?_, rfl, rfl, rfl, by simp [read₁]⟩
    · rw [SwapSpace.swapQueueEnqueue, first]
      simp only [bind, Except.bind, pure, Except.pure, head, ↓reduceIte, gt_iff_lt, max_eq]
    · exact ⟨⟨rfl, by simpa using ends⟩, rfl, size, holds₁, owned₁⟩
  | cons y ys =>
    rw [← hxs]
    obtain ⟨t, ht⟩ : ∃ t, (blocks xs).getLast? = some t := by
      simp [hxs, List.getLast?_cons]
    have head : q.head ≠ none := by
      rw [h.chain.head_eq, hxs]
      simp
    have tLive : (Heap.read heap₁ t).isSome := by
      obtain ⟨z, hz, rfl⟩ := List.mem_map.mp (getLast?_mem_blocks ht)
      exact (holds₁ z (List.mem_append_left _ hz)).live
    have tne : t ≠ x.block := fun e => outside (e ▸ getLast?_mem_blocks ht)
    refine ⟨{ q with
      heap := Heap.modify heap₁ t (fun e => { e with next := some x.block })
      tail := some x.block
      size := uint64 (q.size + 1)
      sizeMax := max q.sizeMax (uint64 (q.size + 1)) }, ?_, ?_, rfl, rfl, rfl, ?_⟩
    · have second : SwapSpace.setNext { q with heap := heap₁ } q.tail (some x.block) =
          .ok { q with heap := Heap.modify heap₁ t (fun e => { e with next := some x.block })
          } := by
        simp only [SwapSpace.setNext, h.tail, ht, tLive, ↓reduceIte]
      rw [SwapSpace.swapQueueEnqueue, first]
      simp only [bind, Except.bind, pure, Except.pure, if_neg head, second, gt_iff_lt, max_eq]
    · refine ⟨?_, by simp, size, fun y hy => (holds₁ y hy).modify_next, ?_⟩
      · rw [links_modify tLive]
        simpa using chain₁.append ht outside ends
      · intro a ha
        rw [isSome_modify] at ha
        exact owned₁ a ha
    · simp [read₁, tne]

/-- The other slots of a queue whose ids differ. -/
theorem filter_first_slot {before after : List Slot} {x : Slot}
    (distinct : (ids (before ++ x :: after)).Nodup) :
    (before ++ x :: after).filter (fun y => y.id ≠ x.id) = before ++ after := by
  simp only [ids, List.map_append, List.map_cons, List.nodup_append, List.nodup_cons] at distinct
  obtain ⟨_, ⟨later, _⟩, apart⟩ := distinct
  have keepBefore : before.filter (fun y => y.id ≠ x.id) = before := by
    apply List.filter_eq_self.mpr
    intro y hy
    simpa using apart y.id (List.mem_map_of_mem hy) x.id List.mem_cons_self
  have keepAfter : after.filter (fun y => y.id ≠ x.id) = after := by
    apply List.filter_eq_self.mpr
    intro y hy
    have : y.id ≠ x.id := fun e => later (e ▸ List.mem_map_of_mem hy)
    simpa using this
  rw [List.filter_append, List.filter_cons_of_neg (by simp), keepBefore, keepAfter]

theorem tail_unlink {before after : List Slot} {x : Slot}
    (distinct : (blocks (before ++ x :: after)).Nodup) :
    (if some x.block = (blocks (before ++ x :: after)).getLast? then (blocks before).getLast?
      else (blocks (before ++ x :: after)).getLast?) = (blocks (before ++ after)).getLast? := by
  rcases List.eq_nil_or_concat after with rfl | ⟨ys, y, rfl⟩
  · simp
  · have ne : x.block ≠ y.block := by
      simp only [blocks, List.map_append, List.map_cons, List.nodup_append, List.nodup_cons]
        at distinct
      intro e
      exact distinct.2.1.1 (by simp [e])
    rw [List.concat_eq_append] at *
    have whole : blocks (before ++ x :: (ys ++ [y])) =
        (blocks before ++ x.block :: blocks ys) ++ [y.block] := by simp
    have rest : blocks (before ++ (ys ++ [y])) = (blocks before ++ blocks ys) ++ [y.block] := by
      simp
    rw [whole, rest, List.getLast?_concat, List.getLast?_concat, if_neg (by simpa using ne)]

/-- The block of the slot with id `sid` is unlinked and freed. -/
theorem swapQueueDequeue_spec {sid : Nat} (h : SwapRep q xs) (distinct : (ids xs).Nodup)
    (present : sid ∈ ids xs) :
    ∃ q', q.swapQueueDequeue sid = .ok q' ∧ SwapRep q' (xs.filter (fun x => x.id ≠ sid)) ∧
      q'.swapId = q.swapId ∧ q'.sizeMax = q.sizeMax := by
  obtain ⟨before, x, after, rfl, first, rfl⟩ := first_slot present
  rw [filter_first_slot distinct]
  have nodup := h.blocks_nodup
  have found : searchFrom q.heap x.id q.heap.length none q.head =
      .ok (searchSlots x.id none (before ++ x :: after)) :=
    searchFrom_eq h.chain h.holds h.length_le
  rw [searchSlots_found first rfl, Option.or_none] at found
  have live : (q.heap.read x.block).isSome := (h.holds x (by simp)).live
  have chain : Chain (q.heap.links SwapEntry.next) q.head
      (blocks before ++ x.block :: blocks after) := by
    simpa using h.chain
  have xBefore : x.block ∉ blocks before := by
    simp only [blocks, List.map_append, List.map_cons, List.nodup_append] at nodup
    exact fun mem => nodup.2.2 _ mem _ List.mem_cons_self rfl
  have xAfter : x.block ∉ blocks after := by
    simp only [blocks, List.map_append, List.map_cons, List.nodup_append, List.nodup_cons] at nodup
    exact nodup.2.1.1
  have size : uint64 (q.size + (2 ^ 64 - 1)) = uint64 (before ++ after).length := by
    rw [h.size]
    simp only [uint64, List.length_append, List.length_cons]
    omega
  have tail := tail_unlink nodup
  rw [← h.tail] at tail
  -- whatever happens to the links before `x`, freeing its block leaves the rest
  have finish : ∀ (heap : Heap SwapEntry) (head : Option Nat),
      (∀ y ∈ before ++ x :: after, Holds heap y) →
      (∀ a, (heap.read a).isSome → a ∈ blocks (before ++ x :: after)) →
      Chain (heap.links SwapEntry.next) head (blocks (before ++ after)) →
      SwapRep { q with
        head := head
        tail := if some x.block = q.tail then (blocks before).getLast? else q.tail
        size := uint64 (q.size + (2 ^ 64 - 1))
        heap := (heap.modify x.block (fun e => { e with next := none })).free x.block }
        (before ++ after) := by
    intro heap head holds owned links
    have out : ∀ y ∈ before ++ after, x.block ≠ y.block := by
      intro y hy e
      rcases List.mem_append.mp hy with hy | hy
      · exact xBefore (e ▸ List.mem_map_of_mem hy)
      · exact xAfter (e ▸ List.mem_map_of_mem hy)
    refine ⟨?_, tail, size, ?_, ?_⟩
    · apply links.congr
      intro b hb
      obtain ⟨y, hy, rfl⟩ := List.mem_map.mp hb
      simp [Heap.links, out y hy]
    · intro y hy
      have kept : y ∈ before ++ x :: after := by
        rcases List.mem_append.mp hy with hy | hy <;> simp [hy]
      obtain ⟨e, he, rest⟩ := holds y kept
      exact ⟨e, by simp [out y hy, he], rest⟩
    · intro a ha
      by_cases hx : x.block = a
      · simp [hx] at ha
      · have mem := owned a (by simpa [hx] using ha)
        simp only [blocks, List.map_append, List.map_cons, List.mem_append, List.mem_cons] at mem ⊢
        rcases mem with mem | mem | mem
        · exact Or.inl mem
        · exact absurd mem.symm hx
        · exact Or.inr mem
  obtain ⟨heap, head, holds, owned, links, unlinked⟩ : ∃ heap head,
      (∀ y ∈ before ++ x :: after, Holds heap y) ∧
      (∀ a, (heap.read a).isSome → a ∈ blocks (before ++ x :: after)) ∧
      Chain (heap.links SwapEntry.next) head (blocks (before ++ after)) ∧
      q.unlink (blocks before).getLast? x.block = .ok { q with
        heap := heap
        head := head
        tail := if some x.block = q.tail then (blocks before).getLast? else q.tail } := by
    rcases List.eq_nil_or_concat before with rfl | ⟨ys, p, rfl⟩
    · exact ⟨q.heap, q.heap.links SwapEntry.next x.block, h.holds, h.owned, chain.2, rfl⟩
    · rw [List.concat_eq_append] at *
      have pLive : (q.heap.read p.block).isSome := (h.holds p (by simp)).live
      have last : (blocks (ys ++ [p])).getLast? = some p.block := by simp
      refine ⟨q.heap.modify p.block
        (fun e => { e with next := q.heap.links SwapEntry.next x.block }), q.head, ?_, ?_, ?_, ?_⟩
      · exact fun y hy => (h.holds y hy).modify_next
      · intro a ha
        rw [isSome_modify] at ha
        exact h.owned a ha
      · rw [links_modify pLive]
        have cut : Chain (link (q.heap.links SwapEntry.next) p.block
            (q.heap.links SwapEntry.next x.block)) q.head
            (blocks ys ++ p.block :: blocks after) := Chain.unlink (by simpa using chain)
        simpa using cut
      · simp only [SwapSpace.unlink, last, Option.isSome_some, ↓reduceIte, setNext_eq pLive, bind,
          Except.bind, pure, Except.pure]
  have xLive : (heap.read x.block).isSome := (holds x (by simp)).live
  refine ⟨_, ?_, finish heap head holds owned links, rfl, rfl⟩
  simp only [SwapSpace.swapQueueDequeue, found, bind, Except.bind, pure, Except.pure, unlinked,
    SwapSpace.setNext, xLive, ↓reduceIte, Option.elim_some]

/-- The slot in block `b` given the page `page`. -/
def writeSlot (xs : List Slot) (b : Nat) (page : Nat → UInt8) : List Slot :=
  xs.map (fun y => if y.block = b then { y with page := page } else y)

@[simp] theorem ids_writeSlot (xs : List Slot) (b : Nat) (page : Nat → UInt8) :
    ids (writeSlot xs b page) = ids xs := by
  simp only [ids, writeSlot, List.map_map]
  apply List.map_congr_left
  intro y _
  by_cases hy : y.block = b <;> simp [hy]

@[simp] theorem blocks_writeSlot (xs : List Slot) (b : Nat) (page : Nat → UInt8) :
    blocks (writeSlot xs b page) = blocks xs := by
  simp only [blocks, writeSlot, List.map_map]
  apply List.map_congr_left
  intro y _
  by_cases hy : y.block = b <;> simp [hy]

theorem mem_writeSlot (b : Nat) (page : Nat → UInt8) {y : Slot} (hy : y ∈ xs) :
    (if y.block = b then { y with page := page } else y) ∈ writeSlot xs b page :=
  List.mem_map.mpr ⟨y, hy, rfl⟩

theorem writePage_rep {b : Nat} {page : Nat → UInt8} (h : SwapRep q xs) :
    SwapRep { q with heap := q.heap.modify b (fun e => { e with pageData := page }) }
      (writeSlot xs b page) := by
  have live : ∀ a, (Heap.read (q.heap.modify b (fun e => { e with pageData := page })) a).isSome =
      (q.heap.read a).isSome := fun a => isSome_modify _ _ _ _
  refine ⟨?_, by simpa using h.tail, by simpa [writeSlot] using h.size, ?_, ?_⟩
  · rw [blocks_writeSlot]
    apply h.chain.congr
    intro a _
    by_cases hb : b = a
    · cases hr : q.heap.read a <;> simp [Heap.links, hb, hr]
    · simp [Heap.links, hb]
  · intro y' hy'
    obtain ⟨y, hy, rfl⟩ := List.mem_map.mp hy'
    obtain ⟨e, he, hid, hpage⟩ := h.holds y hy
    by_cases hb : y.block = b
    · rw [hb] at he
      exact ⟨{ e with pageData := page }, by simp [hb, he], by simp [hb, hid], by simp [hb]⟩
    · exact ⟨e, by simp [hb, Ne.symm hb, he], by simp [hb, hid], by simp [hb, hpage]⟩
  · intro a ha
    rw [live] at ha
    rw [blocks_writeSlot]
    exact h.owned a ha

end Update

/-! ## `swap_read`, `swap_write`, `swap_free` -/

section Operations

variable {s : VM} {xs : List Slot} {pte : Nat}

def allocFailed : Fault := .panic "could not allocate swap entry"

theorem slot_unique {x y : Slot} (distinct : (ids xs).Nodup) (hx : x ∈ xs) (hy : y ∈ xs)
    (same : x.id = y.id) : x = y :=
  List.inj_on_of_nodup_map distinct hx hy same

theorem swapRead_spec {x : Slot} {dst : Nat} (h : SwapRep s.swap xs) (distinct : (ids xs).Nodup)
    (hx : x ∈ xs) (sid : s.pte pte .sid = x.id) (room : dst + pageSize ≤ memSize) :
    swapRead s pte dst = .ok (s.memcpy dst pageSize x.page) := by
  have present : x.id ∈ ids xs := List.mem_map_of_mem hx
  obtain ⟨y, hy, hid, found⟩ := swapQueueFind_present h present
  obtain rfl := slot_unique distinct hy hx hid
  obtain ⟨e, he, _, hpage⟩ := h.holds y hy
  simp [swapRead, sid, found, bind, Except.bind, inMem, room, he, hpage, pure, Except.pure]

theorem swapFree_spec (h : SwapRep s.swap xs) (distinct : (ids xs).Nodup)
    (present : s.pte pte .sid ∈ ids xs) :
    ∃ q', swapFree s pte = .ok (VM.setPte (s.setSwap q') pte .sid 0) ∧
      SwapRep q' (xs.filter (fun x => x.id ≠ s.pte pte .sid)) ∧ q'.swapId = s.swap.swapId ∧
      q'.sizeMax = s.swap.sizeMax := by
  obtain ⟨y, _, _, found⟩ := swapQueueFind_present h present
  obtain ⟨q', deq, rep, id, max⟩ := swapQueueDequeue_spec h distinct present
  exact ⟨q', by simp [swapFree, found, deq, bind, Except.bind, pure, Except.pure], rep, id, max⟩

/-- The page in `src` as `swap_write` copies it. -/
def pageAt (s : VM) (src : Nat) : Nat → UInt8 := fun i => s.mem (src + i)

theorem swapWrite_present (env : Env) {src : Nat} (h : SwapRep s.swap xs)
    (present : s.pte pte .sid ∈ ids xs) (room : src + pageSize ≤ memSize) :
    ∃ x ∈ xs, x.id = s.pte pte .sid ∧ ∃ q', swapWrite env s pte src = .ok (s.setSwap q') ∧
      SwapRep q' (writeSlot xs x.block (pageAt s src)) ∧ q'.swapId = s.swap.swapId ∧
      q'.size = s.swap.size ∧ q'.sizeMax = s.swap.sizeMax := by
  obtain ⟨x, hx, hid, found⟩ := swapQueueFind_present h present
  refine ⟨x, hx, hid, _, ?_, writePage_rep h, rfl, rfl, rfl⟩
  simp only [swapWrite, found, bind, Except.bind, pure, Except.pure, inMem, room, ↓reduceIte]
  rfl

theorem swapWrite_absent (env : Env) {src : Nat} (h : SwapRep s.swap xs)
    (absent : s.pte pte .sid ∉ ids xs) (room : src + pageSize ≤ memSize) :
    (swapWrite env s pte src = .error allocFailed ∧ ∃ heap, env.calloc heap = none) ∨
    ∃ a q', a ∉ blocks xs ∧ swapWrite env s pte src =
        .ok (VM.setPte (s.setSwap q') pte .sid s.swap.swapId) ∧
      SwapRep q' (xs ++ [⟨a, s.swap.swapId, pageAt (s.setPte pte .sid s.swap.swapId) src⟩]) ∧
      q'.swapId = uint64 (s.swap.swapId + 1) ∧ q'.size = uint64 (s.swap.size + 1) ∧
      q'.sizeMax = max s.swap.sizeMax (uint64 (s.swap.size + 1)) := by
  have found := swapQueueFind_absent h absent
  cases new : env.calloc s.swap.heap with
  | none =>
    left
    refine ⟨?_, _, new⟩
    simp [swapWrite, found, bind, Except.bind, SwapSpace.createEntry, new, allocFailed]
  | some a =>
    right
    have free := env.fresh new
    have outside : a ∉ blocks xs := by
      intro mem
      obtain ⟨y, hy, rfl⟩ := List.mem_map.mp mem
      have := (h.holds y hy).live
      simp [free] at this
    let q : SwapSpace := { s.swap with swapId := uint64 (s.swap.swapId + 1) }
    have rep : SwapRep q xs := ⟨h.chain, h.tail, h.size, h.holds, h.owned⟩
    obtain ⟨q', enq, rep', id, size, max, read⟩ := swapQueueEnqueue_spec (q := q)
      (x := ⟨a, s.swap.swapId, fun _ => 0⟩) (e := ⟨s.swap.swapId, fun _ => 0, none⟩)
      rep free rfl rfl
    have page : SwapRep
        { q' with
          heap := q'.heap.modify a
            (fun e => { e with pageData := pageAt (s.setPte pte .sid s.swap.swapId) src }) }
        (writeSlot (xs ++ [⟨a, s.swap.swapId, fun _ => 0⟩]) a
          (pageAt (s.setPte pte .sid s.swap.swapId) src)) := writePage_rep rep'
    have slots : writeSlot (xs ++ [⟨a, s.swap.swapId, fun _ => 0⟩]) a
        (pageAt (s.setPte pte .sid s.swap.swapId) src) =
        xs ++ [⟨a, s.swap.swapId, pageAt (s.setPte pte .sid s.swap.swapId) src⟩] := by
      have same : writeSlot xs a (pageAt (s.setPte pte .sid s.swap.swapId) src) = xs := by
        refine (List.map_congr_left fun y hy => ?_).trans (List.map_id xs)
        have ne : y.block ≠ a := fun e => outside (e ▸ List.mem_map_of_mem hy)
        rw [if_neg ne]
        rfl
      simp only [writeSlot, List.map_append] at same ⊢
      rw [same]
      simp
    rw [slots] at page
    refine ⟨a, _, outside, ?_, page, id, size, max⟩
    simp only [q] at enq
    simp only [swapWrite, found, bind, Except.bind, pure, Except.pure, SwapSpace.createEntry, new,
      enq, read, Option.elim_some, inMem, room, ↓reduceIte]
    rfl

end Operations

end SystemsProjects.Vm
