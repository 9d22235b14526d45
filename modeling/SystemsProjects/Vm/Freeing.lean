import SystemsProjects.Vm.Eviction

/-!
# Freeing a frame keeps the invariant
-/

namespace SystemsProjects.Vm

variable {R : Nat → Prop} {s t : VM} {xs ys : List Slot} {p w v : Nat}

/-- The ids after an eviction: as before, or with the next id at the end, now
the sid of the page that left. -/
inductive IdsMoved (R : Nat → Prop) (s : VM) (xs : List Slot) (v : Nat) (t : VM) (ys : List Slot) :
    Prop
  | same (ids : ids ys = ids xs) (swapId : t.swap.swapId = s.swap.swapId)
      (sizeMax : t.swap.sizeMax = s.swap.sizeMax)
      (sid : ∀ p w, R p → w < numPages → t.entry p w .sid = s.entry p w .sid)
  | created (p w : Nat) (here : InFrame R s v p w) (zero : s.entry p w .sid = 0)
      (absent : 0 ∉ ids xs) (ids : ids ys = ids xs ++ [s.swap.swapId])
      (swapId : t.swap.swapId = uint64 (s.swap.swapId + 1))
      (sizeMax : t.swap.sizeMax = max s.swap.sizeMax t.swap.size)
      (new : t.entry p w .sid = s.swap.swapId)
      (sid : ∀ r u, R r → u < numPages → ¬ (r = p ∧ u = w) →
        t.entry r u .sid = s.entry r u .sid)

theorem Freed.idsMoved (inv : Inv R s xs) (h : Freed R s xs v t ys) : IdsMoved R s xs v t ys := by
  by_cases here : ∃ p w, InFrame R s v p w
  · obtain ⟨p, w, here⟩ := here
    have others : ∀ r u, R r → u < numPages → ¬ (r = p ∧ u = w) →
        t.entry r u .sid = s.entry r u .sid := by
      intro r u hr hu other
      exact h.kept r u hr hu (fun there => other (there.unique inv here)) _
    have kept : t.entry p w .sid = s.entry p w .sid → ∀ r u, R r → u < numPages →
        t.entry r u .sid = s.entry r u .sid := by
      intro same r u hr hu
      by_cases there : r = p ∧ u = w
      · obtain ⟨rfl, rfl⟩ := there
        exact same
      · exact others r u hr hu there
    have moved := (h.left p w here).2.2
    cases moved with
    | clean _ sid swap => exact .same rfl (by rw [swap]) (by rw [swap]) (kept sid)
    | rewritten _ sid _ _ _ swapId _ sizeMax =>
      exact .same (ids_writeSlot _ _ _) swapId sizeMax (kept sid)
    | created _ absent sid _ swapId size sizeMax =>
      have zero : s.entry p w .sid = 0 := by
        by_contra ne
        exact absent (inv.sidQueued here.1 here.2.1 ne)
      rw [zero] at absent
      rw [← size] at sizeMax
      exact .created p w here zero absent (by simp [ids]) swapId sizeMax sid others
  · have out : ∀ p w, ¬ InFrame R s v p w := fun p w k => here ⟨p, w, k⟩
    obtain ⟨rfl, swap⟩ := h.idle out
    exact .same rfl (by rw [swap]) (by rw [swap]) (fun r u hr hu => h.kept r u hr hu (out r u) _)

/-- A fresh `SWAP_ID` is no id in the queue. -/
theorem swapId_new {l : List Nat} {n : Nat} (fresh : IdsFresh l n) (absent : 0 ∉ l) : n ∉ l := by
  intro mem
  rcases fresh with zero | below
  · exact absent zero
  · rcases below n mem with rfl | lt
    · exact absent mem
    · omega

theorem IdsFresh.next {l : List Nat} {n : Nat} (fresh : IdsFresh l n) (small : n < 2 ^ 64) :
    IdsFresh (l ++ [n]) (uint64 (n + 1)) := by
  rcases fresh with zero | below
  · exact Or.inl (List.mem_append_left _ zero)
  · by_cases hn : n = 0
    · exact Or.inl (by simp [hn])
    · right
      intro i hi
      have le : i ≤ n := by
        rcases List.mem_append.mp hi with hi | hi
        · rcases below i hi with rfl | lt <;> omega
        · exact (List.mem_singleton.mp hi).le
      simp only [uint64]
      omega

section

variable (inv : Inv R s xs) (h : Freed R s xs v t ys)

include h

theorem Freed.fte_other {i : Nat} {F : FteField} (hi : i < numFrames) (ne : i ≠ v) :
    t.fte i F = s.fte i F := by
  rw [h.fte i hi, if_neg (by simp [ne])]

theorem Freed.protected_eq {i : Nat} (hi : i < numFrames) :
    t.fte i .isProtected = s.fte i .isProtected := by
  rw [h.fte i hi, if_neg (by simp)]

/-- A page that is still valid was valid before, in a frame other than `v`. -/
theorem Freed.kept_of_valid {r u : Nat} (hr : R r) (hu : u < numPages)
    (valid : t.entry r u .valid ≠ 0) : ¬ InFrame R s v r u ∧ s.entry r u .pfn ≠ v := by
  have out : ¬ InFrame R s v r u := fun here => valid (h.left r u here).1
  refine ⟨out, fun pfn => out ⟨hr, hu, ?_, pfn⟩⟩
  rwa [h.kept r u hr hu out] at valid

theorem Freed.owns {f r u : Nat} (own : Owns s f r u) (ne : f ≠ v) : Owns t f r u :=
  own.congr (fun _ _ => h.fte_other own.lt ne)

include inv

theorem Freed.sids : (∀ r u, R r → u < numPages → t.entry r u .sid ≠ 0 →
      t.entry r u .sid ∈ ids ys) ∧
    (∀ r u r' u', R r → u < numPages → R r' → u' < numPages →
      t.entry r u .sid ≠ 0 → t.entry r u .sid = t.entry r' u' .sid → r = r' ∧ u = u') ∧
    (∀ i ∈ ids ys, i ≠ 0 → ∃ r u, R r ∧ u < numPages ∧ t.entry r u .sid = i) ∧
    (ids ys).Nodup ∧ IdsFresh (ids ys) t.swap.swapId ∧ t.swap.swapId < 2 ^ 64 := by
  cases h.idsMoved inv with
  | same ids swapId _ sid =>
    rw [ids, swapId]
    refine ⟨?_, ?_, ?_, inv.idsDistinct, inv.idsFresh, inv.swapIdLt⟩
    · intro r u hr hu ne
      rw [sid r u hr hu] at ne ⊢
      exact inv.sidQueued hr hu ne
    · intro r u r' u' hr hu hr' hu' ne same
      rw [sid r u hr hu] at ne same
      rw [sid r' u' hr' hu'] at same
      exact inv.sidInj hr hu hr' hu' ne same
    · intro i hi ne
      obtain ⟨r, u, hr, hu, rfl⟩ := inv.idOwned i hi ne
      exact ⟨r, u, hr, hu, sid r u hr hu⟩
  | created p w here zero absent ids swapId _ new sid =>
    have fresh := swapId_new inv.idsFresh absent
    have next := inv.idsFresh.next inv.swapIdLt
    rw [ids, swapId]
    refine ⟨?_, ?_, ?_, ?_, next, Nat.mod_lt _ (by decide)⟩
    · intro r u hr hu ne
      by_cases there : r = p ∧ u = w
      · obtain ⟨rfl, rfl⟩ := there
        simp [new]
      · rw [sid r u hr hu there] at ne ⊢
        exact List.mem_append_left _ (inv.sidQueued hr hu ne)
    · intro r u r' u' hr hu hr' hu' ne same
      -- the new sid is nobody else's, since the queue did not have it
      have alone : ∀ r u, R r → u < numPages → s.swap.swapId ≠ 0 →
          s.entry r u .sid ≠ s.swap.swapId := by
        intro r u hr hu pos e
        exact fresh (e ▸ inv.sidQueued hr hu (e ▸ pos))
      by_cases there : r = p ∧ u = w <;> by_cases there' : r' = p ∧ u' = w
      · exact ⟨there.1.trans there'.1.symm, there.2.trans there'.2.symm⟩
      · obtain ⟨rfl, rfl⟩ := there
        rw [new] at ne same
        rw [sid r' u' hr' hu' there'] at same
        exact absurd same.symm (alone r' u' hr' hu' ne)
      · obtain ⟨rfl, rfl⟩ := there'
        rw [sid r u hr hu there] at ne same
        rw [new] at same
        exact absurd same (alone r u hr hu (same ▸ ne))
      · rw [sid r u hr hu there] at ne same
        rw [sid r' u' hr' hu' there'] at same
        exact inv.sidInj hr hu hr' hu' ne same
    · intro i hi ne
      rcases List.mem_append.mp hi with hi | hi
      · obtain ⟨r, u, hr, hu, rfl⟩ := inv.idOwned i hi ne
        refine ⟨r, u, hr, hu, sid r u hr hu ?_⟩
        rintro ⟨rfl, rfl⟩
        exact ne zero
      · exact ⟨p, w, here.1, here.2.1, new.trans (List.mem_singleton.mp hi).symm⟩
    · exact List.nodup_append.mpr ⟨inv.idsDistinct, by simp, by
        intro a ha b hb
        rw [List.mem_singleton.mp hb]
        exact fun e => fresh (e ▸ ha)⟩

theorem Freed.preserves (hv : v < numFrames) : Inv R t ys where
  rep := h.rep
  pidLt := inv.pidLt
  frameZero := by
    rw [h.protected_eq (by decide)]
    exact inv.frameZero
  tablePos hp := by
    rw [h.procs]
    exact inv.tablePos hp
  tableLt hp := by
    rw [h.procs]
    exact inv.tableLt hp
  tableProtected hp := by
    rw [h.procs, h.protected_eq (inv.tableLt hp)]
    exact inv.tableProtected hp
  tableInj hp hr := by
    rw [h.procs]
    exact inv.tableInj hp hr
  protectedFrame hf := by
    rw [h.protected_eq hf]
    simp only [h.procs]
    exact inv.protectedFrame hf
  validBit {r u} hr hu := by
    by_cases here : InFrame R s v r u
    · exact (h.left r u here).1.trans_le (Nat.zero_le 1)
    · rw [h.kept r u hr hu here]
      exact inv.validBit hr hu
  dirtyBit {r u} hr hu := by
    by_cases here : InFrame R s v r u
    · exact (h.left r u here).2.1.trans_le (Nat.zero_le 1)
    · rw [h.kept r u hr hu here]
      exact inv.dirtyBit hr hu
  owns {r u} hr hu valid := by
    obtain ⟨out, ne⟩ := h.kept_of_valid hr hu valid
    rw [h.kept r u hr hu out] at valid ⊢
    exact h.owns (inv.owns hr hu valid) ne
  owned {f} hf unprotected mapped := by
    have ne : f ≠ v := by
      rintro rfl
      exact mapped (by rw [h.fte f hv, if_pos (by simp)])
    rw [h.fte_other hf ne] at unprotected mapped
    obtain ⟨r, u, hr, hu, valid, pfn⟩ := inv.owned hf unprotected mapped
    have out : ¬ InFrame R s v r u := fun here => ne (pfn.symm.trans here.2.2.2)
    exact ⟨r, u, hr, hu, by rwa [h.kept r u hr hu out],
      by rwa [h.kept r u hr hu out]⟩
  sidQueued := (h.sids inv).1 _ _
  sidInj := (h.sids inv).2.1 _ _ _ _
  idOwned := (h.sids inv).2.2.1
  idsDistinct := (h.sids inv).2.2.2.1
  idsFresh := (h.sids inv).2.2.2.2.1
  swapIdLt := (h.sids inv).2.2.2.2.2

end

end SystemsProjects.Vm
