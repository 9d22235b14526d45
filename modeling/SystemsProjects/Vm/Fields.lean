import SystemsProjects.Vm.Driver

/-!
# Reading fields over writes

A frame table entry, a page table entry and a data byte are read unchanged over
every write to another one, as long as the page tables and the data lie
outside frame 0.
-/

namespace SystemsProjects.Vm.VM

open Bytes

variable {s : VM} {i j f g base b w v o x n : Nat}

/-! ## Elements of `procs` -/

/-- At the address of an element are that element's fields. -/
theorem pcb_pcbPtr (hp : i < maxPid) (F : PcbField) : s.pcb (pcbPtr i) F =
    .ok (pcbLayout.get ((s.procs i).store s.slack (pcbPtr i)) (pcbPtr i) F) := by
  have range : pcbPtr i ≠ 0 ∧ procsBase ≤ pcbPtr i ∧
      pcbPtr i < procsBase + pcbSize * maxPid := by
    simp only [pcbPtr, procsBase, pcbSize, maxPid_eq] at *
    omega
  have inside := pcbLayout.inside F
  rw [pcb, if_neg range.1, if_pos range.2]
  refine congrArg Except.ok (load_congr fun a lo hi => ?_)
  have back : (a - procsBase) / pcbSize = i := by
    simp only [pcbPtr, procsBase, pcbSize, pcbLayout] at *
    omega
  simp only [procsMem, back, if_pos hp]

theorem pcb_pid (hp : i < maxPid) : s.pcb (pcbPtr i) .pid = .ok ((s.procs i).pid % 2 ^ 32) := by
  rw [pcb_pcbPtr hp, Pcb.store, pcbLayout.get_set_field (by decide),
    pcbLayout.get_set_field (by decide), Layout.get_set_same]
  rfl

theorem pcb_savedPtbr (hp : i < maxPid) (table : (s.procs i).savedPtbr < numFrames) :
    s.pcb (pcbPtr i) .savedPtbr = .ok (s.procs i).savedPtbr := by
  rw [pcb_pcbPtr hp, Pcb.store, Layout.get_set_same]
  exact congrArg Except.ok (Nat.mod_eq_of_lt (Nat.lt_trans table (by decide)))

/-! ## Frame table writes -/

@[simp] theorem fte_setFte (s : VM) (i j : Nat) (F G : FteField) (x : Nat) :
    (s.setFte i F x).fte j G =
      if j = i ∧ G = F then x % 256 ^ fteLayout.size F else s.fte j G := by
  unfold fte setFte
  by_cases hj : j = i
  · subst hj
    by_cases hG : G = F
    · subst hG
      simp [Layout.get_set_same]
    · simp [hG, Layout.get_set_field]
  · rw [if_neg (by simp [hj])]
    apply Layout.get_set_apart
    simp only [fteAddr, fteLayout]
    omega

theorem pte_setFte {F : FteField} {G : PteField} (hi : i < numFrames) (hb : 0 < base) :
    (s.setFte i F x).pte (pteAddr base w) G = s.pte (pteAddr base w) G := by
  apply Layout.get_set_apart
  simp only [fteAddr, fteLayout, pteAddr, pteLayout, frameAddr, pageSize_eq, numFrames_eq] at *
  omega

theorem byte_setFte {F : FteField} (hi : i < numFrames) (hf : 0 < f) :
    (s.setFte i F x).byte f o = s.byte f o := by
  apply Layout.set_outside
  simp only [fteAddr, fteLayout, frameAddr, pageSize_eq, numFrames_eq] at *
  omega

/-! ## Page table writes -/

theorem fte_setPte {F : PteField} {G : FteField} (hi : i < numFrames) (hb : 0 < base) :
    (s.setPte (pteAddr base w) F x).fte i G = s.fte i G := by
  apply Layout.get_set_apart
  simp only [fteAddr, fteLayout, pteAddr, pteLayout, frameAddr, pageSize_eq, numFrames_eq] at *
  omega

theorem pteAddr_inj (hw : w < numPages) (hv : v < numPages)
    (h : pteAddr b v = pteAddr base w) : b = base ∧ v = w := by
  simp only [pteAddr, pteLayout, frameAddr, pageSize_eq, numPages_eq] at *
  omega

theorem pte_setPte {F G : PteField} (hw : w < numPages) (hv : v < numPages) :
    (s.setPte (pteAddr base w) F x).pte (pteAddr b v) G =
      if b = base ∧ v = w ∧ G = F then x % 256 ^ pteLayout.size F
      else s.pte (pteAddr b v) G := by
  unfold pte setPte
  by_cases same : b = base ∧ v = w
  · obtain ⟨rfl, rfl⟩ := same
    by_cases hG : G = F
    · subst hG
      simp [Layout.get_set_same]
    · simp [hG, Layout.get_set_field]
  · rw [if_neg (fun h => same ⟨h.1, h.2.1⟩)]
    apply Layout.get_set_apart
    simp only [pteAddr, pteLayout, frameAddr, pageSize_eq, numPages_eq] at *
    omega

theorem byte_setPte {F : PteField} (hw : w < numPages) (ho : o < pageSize) (hf : f ≠ base) :
    (s.setPte (pteAddr base w) F x).byte f o = s.byte f o := by
  apply Layout.set_outside
  simp only [pteAddr, pteLayout, frameAddr, pageSize_eq, numPages_eq] at *
  omega

/-! ## Block writes -/

theorem fte_memcpy {src : Nat → UInt8} {F : FteField} (hi : i < numFrames) (hf : 0 < f) :
    (s.memcpy (frameAddr f + o) n src).fte i F = s.fte i F := by
  apply Layout.get_splice_apart
  simp only [fteAddr, fteLayout, frameAddr, pageSize_eq, numFrames_eq] at *
  omega

theorem pte_memcpy {src : Nat → UInt8} {F : PteField} (hw : w < numPages) (hf : base ≠ f)
    (inside : o + n ≤ pageSize) :
    (s.memcpy (frameAddr f + o) n src).pte (pteAddr base w) F = s.pte (pteAddr base w) F := by
  apply Layout.get_splice_apart
  simp only [pteAddr, pteLayout, frameAddr, pageSize_eq, numPages_eq] at *
  omega

theorem byte_memcpy (src : Nat → UInt8) (hv : v < pageSize) (inside : o + n ≤ pageSize) :
    (s.memcpy (frameAddr f + o) n src).byte g v =
      if g = f ∧ o ≤ v ∧ v < o + n then src (v - o) else s.byte g v := by
  simp only [byte, memcpy, frameAddr, pageSize_eq] at *
  by_cases h : g = f ∧ o ≤ v ∧ v < o + n
  · obtain ⟨rfl, lo, hi⟩ := h
    rw [if_pos ⟨rfl, lo, hi⟩, splice_inside (by omega) (by omega)]
    congr 1
    omega
  · rw [if_neg h, splice_outside (by omega)]

/-- `memset` is `memcpy` from a constant block. -/
theorem memset_eq (s : VM) (a n : Nat) (c : UInt8) : s.memset a n c = s.memcpy a n (fun _ => c) :=
  rfl

theorem pte_memset_zero {F : PteField} (hw : w < numPages) :
    (s.memset (frameAddr f) pageSize 0).pte (pteAddr f w) F = 0 := by
  apply Layout.get_fill_zero
  all_goals
    simp only [pteAddr, pteLayout, frameAddr, pageSize_eq, numPages_eq] at *
    omega

/-! ## Everything else -/

section Frame

variable (s : VM) (i a x n pid : Nat) (F : FteField) (G : PteField) (src : Nat → UInt8)
  (q : SwapSpace) (c : Stats → Stats) (k : Pcb → Pcb)

@[simp] theorem setFte_procs : (s.setFte i F x).procs = s.procs := rfl
@[simp] theorem setFte_swap : (s.setFte i F x).swap = s.swap := rfl
@[simp] theorem setFte_ptbr : (s.setFte i F x).ptbr = s.ptbr := rfl
@[simp] theorem setFte_currentProcess : (s.setFte i F x).currentProcess = s.currentProcess := rfl
@[simp] theorem setFte_replacement : (s.setFte i F x).replacement = s.replacement := rfl
@[simp] theorem setFte_stats : (s.setFte i F x).stats = s.stats := rfl
@[simp] theorem setPte_procs : (s.setPte a G x).procs = s.procs := rfl
@[simp] theorem setPte_swap : (s.setPte a G x).swap = s.swap := rfl
@[simp] theorem setPte_ptbr : (s.setPte a G x).ptbr = s.ptbr := rfl
@[simp] theorem setPte_currentProcess : (s.setPte a G x).currentProcess = s.currentProcess := rfl
@[simp] theorem setPte_replacement : (s.setPte a G x).replacement = s.replacement := rfl
@[simp] theorem setPte_stats : (s.setPte a G x).stats = s.stats := rfl
@[simp] theorem memcpy_procs : (s.memcpy a n src).procs = s.procs := rfl
@[simp] theorem memcpy_swap : (s.memcpy a n src).swap = s.swap := rfl
@[simp] theorem memcpy_ptbr : (s.memcpy a n src).ptbr = s.ptbr := rfl
@[simp] theorem memcpy_currentProcess : (s.memcpy a n src).currentProcess = s.currentProcess := rfl
@[simp] theorem memcpy_replacement : (s.memcpy a n src).replacement = s.replacement := rfl
@[simp] theorem memcpy_stats : (s.memcpy a n src).stats = s.stats := rfl
@[simp] theorem setSwap_procs : (s.setSwap q).procs = s.procs := rfl
@[simp] theorem setSwap_swap : (s.setSwap q).swap = q := rfl
@[simp] theorem setSwap_fte : (s.setSwap q).fte i F = s.fte i F := rfl
@[simp] theorem setSwap_pte : (s.setSwap q).pte a G = s.pte a G := rfl
@[simp] theorem setSwap_byte : (s.setSwap q).byte i x = s.byte i x := rfl
@[simp] theorem setSwap_stats : (s.setSwap q).stats = s.stats := rfl
@[simp] theorem setStats_procs : (s.setStats c).procs = s.procs := rfl
@[simp] theorem setStats_swap : (s.setStats c).swap = s.swap := rfl
@[simp] theorem setStats_fte : (s.setStats c).fte i F = s.fte i F := rfl
@[simp] theorem setStats_pte : (s.setStats c).pte a G = s.pte a G := rfl
@[simp] theorem setStats_byte : (s.setStats c).byte i x = s.byte i x := rfl
@[simp] theorem setStats_stats : (s.setStats c).stats = c s.stats := rfl
@[simp] theorem setProc_swap : (s.setProc pid k).swap = s.swap := rfl
@[simp] theorem setProc_fte : (s.setProc pid k).fte i F = s.fte i F := rfl
@[simp] theorem setProc_pte : (s.setProc pid k).pte a G = s.pte a G := rfl
@[simp] theorem setProc_byte : (s.setProc pid k).byte i x = s.byte i x := rfl
@[simp] theorem setProc_stats : (s.setProc pid k).stats = s.stats := rfl

end Frame

end SystemsProjects.Vm.VM
