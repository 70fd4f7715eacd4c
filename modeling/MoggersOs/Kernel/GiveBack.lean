import MoggersOs.Lib.Path
import MoggersOs.Kernel.Accounting
import MoggersOs.Kernel.Frames
import MoggersOs.Kernel.Scheduler
/-
# What a killed process gives back

`process_create_user_process` takes a frame for the executable and one for the stack and stores the two frame
numbers, plus the kernel's base, in `virtual_addr_used`. `process_destroy` takes what is stored there for virtual
addresses: a frame number plus the base is an address of the kernel's own page, `-1` plus the base is one of the
stack's page, and the six slots that were never set are addresses of page 0. So the stack's frame is never found,
and the kernel's frame goes with the first process that ends.

`GivesBack` is what a kill should do. It happens in one case only, `givesBack_iff`: the sole frame left was the kernel's
own, given away by an earlier kill.

| here | there |
| --- | --- |
| `Succeeds`  | `process_create_user_process` returns `PROCESS_CREATE_SUCCESS` (`process.c:23-105`) |
| `GivesBack` | what `process_destroy` should undo (`process.c:107-130`) |
| `KernelStep` | what changes the process table: system calls 11 and 13, the timer and the switch that ends `kernel_setup` |
| `Settled`   | what every step keeps about slots and directories that are not in use |
-/

namespace MoggersOs

/-- The creation returns `PROCESS_CREATE_SUCCESS`, having found a page directory: a NULL one is loaded into CR3 before
the executable is read (`process.c:63`), and no call returns from that. -/
structure Succeeds (k : Kernel) (r : ProcessRequest) (k' : Kernel) : Prop where
  code      : ∃ readCode, processCreateUserProcess k r readCode = (0, k')
  directory : (pagingCreateNewPageDirectory k.paging).1 ≠ .null

/-- `process_destroy` of the process whose creation led from `k` to `k₁`, after any other successful creations and whatever the
uninitialised flags hold, frees the frames the creation took and no other; with nothing in between the tables are
those before the creation. -/
def GivesBack (k k₁ : Kernel) : Prop :=
  ∀ (garbage : Fin 8 → PageFlag) (rs : List ProcessRequest) (k₂ : Kernel), Lib.Path Succeeds k₁ rs k₂ →
    let k₃ := (processDestroy garbage k₂ (processGenerateNewPid k)).2
    (∀ f, k₃.paging.pageFrameMap f =
      if f ∈ framesTaken k.paging k₁.paging then false else k₂.paging.pageFrameMap f) ∧
    (rs = [] → k₃.paging.pageFrameMap = k.paging.pageFrameMap ∧
      k₃.paging.freePageFrameCount = k.paging.freePageFrameCount ∧
      k₃.paging.pageDirectoryUsed = k.paging.pageDirectoryUsed)

/-- A creation or a kill, whatever comes of it, a tick, or the switch to the first process. -/
inductive KernelStep where
  | call (c : ProcessCall)
  | tick (frame : InterruptFrame)
  | switch

def KernelStep.Happens (k : Kernel) (e : KernelStep) (k' : Kernel) : Prop :=
  match e with
  | .call c => k' = c.exec k
  | .tick frame => ∃ fuel, timerIsr fuel k frame = some k'
  | .switch => ∃ fuel, schedulerSwitchToNextProcess fuel k = some k'

section
attribute [local instance] frames_neZero

/-- A slot is free, and frame 0 is the only frame that is. -/
def OnlyKernelFrameLeft (k : Kernel) : Prop :=
  (∃ i, k.processUsed i = false) ∧ ∀ f, k.paging.pageFrameMap f = false ↔ f = 0

end

/-! ## What allocations and frees leave alone -/

section
variable (p : Paging) {d : DirPtr} (addr : UInt32) {i : Fin 32}

@[simp] theorem pagingAllocateUserPageFrame_used :
    (pagingAllocateUserPageFrame p d addr).2.pageDirectoryUsed = p.pageDirectoryUsed := by
  unfold pagingAllocateUserPageFrame
  split
  · rfl
  · simp

theorem updatePageDirectoryEntry_list (hd : d ≠ .pool i) (pa va : UInt32) (flag : PageFlag) :
    (updatePageDirectoryEntry p d pa va flag).pageDirectoryList i = p.pageDirectoryList i := by
  funext j
  exact (updatePageDirectoryEntry_entry p d pa va flag i j).resolve_left fun h => hd h.1

theorem pagingAllocateUserPageFrame_list (hd : d ≠ .pool i) :
    (pagingAllocateUserPageFrame p d addr).2.pageDirectoryList i = p.pageDirectoryList i := by
  unfold pagingAllocateUserPageFrame
  split
  · rfl
  · exact updatePageDirectoryEntry_list _ hd _ _ _

@[simp] theorem clearFrame_used (n : Nat) : (p.clearFrame n).pageDirectoryUsed = p.pageDirectoryUsed := by
  unfold Paging.clearFrame
  split
  · rfl
  · split <;> rfl

@[simp] theorem clearFrame_list (n : Nat) : (p.clearFrame n).pageDirectoryList = p.pageDirectoryList := by
  unfold Paging.clearFrame
  split
  · rfl
  · split <;> rfl

variable (garbage : PageFlag)

@[simp] theorem pagingFreeUserPageFrame_used :
    (pagingFreeUserPageFrame garbage p d addr).2.pageDirectoryUsed = p.pageDirectoryUsed := by
  unfold pagingFreeUserPageFrame
  dsimp only
  split
  · simp
  · rfl

theorem pagingFreeUserPageFrame_list (hd : d ≠ .pool i) :
    (pagingFreeUserPageFrame garbage p d addr).2.pageDirectoryList i = p.pageDirectoryList i := by
  unfold pagingFreeUserPageFrame
  dsimp only
  split
  · exact (updatePageDirectoryEntry_list _ hd _ _ _).trans (by rw [clearFrame_list])
  · rfl

end

/-- The first free, and then the other seven. -/
theorem freeFrames_cons {P : Paging → Prop} {b : Pcb} {garbage : Fin 8 → PageFlag} {p : Paging}
    (hfirst : P (pagingFreeUserPageFrame (garbage 0) p b.context.pageDirectoryVirtualAddr (b.virtualAddrUsed 0)).2)
    (h : ∀ p j, P p → P (pagingFreeUserPageFrame (garbage j) p b.context.pageDirectoryVirtualAddr
      (b.virtualAddrUsed j)).2) : P (freeFrames garbage p b) := by
  have hall : freeFrames garbage p b = ([1, 2, 3, 4, 5, 6, 7] : List (Fin 8)).foldl (fun q j =>
      (pagingFreeUserPageFrame (garbage j) q b.context.pageDirectoryVirtualAddr (b.virtualAddrUsed j)).2)
      (pagingFreeUserPageFrame (garbage 0) p b.context.pageDirectoryVirtualAddr (b.virtualAddrUsed 0)).2 := rfl
  rw [hall]
  exact List.foldlRecOn _ _ hfirst fun q hq j _ => h q j hq

/-- An invariant of the eight frees, from one free. -/
theorem freeFrames_invariant {P : Paging → Prop} {b : Pcb} {garbage : Fin 8 → PageFlag}
    (h : ∀ p j, P p → P (pagingFreeUserPageFrame (garbage j) p b.context.pageDirectoryVirtualAddr
      (b.virtualAddrUsed j)).2) {p : Paging} (hp : P p) : P (freeFrames garbage p b) :=
  freeFrames_cons (h p 0 hp) h

/-! ## Slots and directories that are not in use -/

/-- A slot in use has its own number as pid, one that is not has pid 0 and no addresses, and a directory of the pool
that is not in use is all zero. -/
structure Settled (k : Kernel) : Prop where
  pid  : ∀ i, k.processUsed i = true → (k.processList i).pid = UInt32.ofNat i
  idle : ∀ i, k.processUsed i = false → (k.processList i).pid = 0 ∧ (k.processList i).virtualAddrUsed = fun _ => 0
  pool : ∀ i, k.paging.pageDirectoryUsed i = false → k.paging.pageDirectoryList i = zeroDirectory

/-- Nothing that a creation or a kill goes by is changed: the paging state, the slots in use, the pids and the
addresses. -/
structure Kept (k k' : Kernel) : Prop where
  paging    : k'.paging = k.paging
  used      : k'.processUsed = k.processUsed
  pid       : ∀ i, (k'.processList i).pid = (k.processList i).pid
  addresses : ∀ i, (k'.processList i).virtualAddrUsed = (k.processList i).virtualAddrUsed

namespace Kept

variable {k k₁ k' : Kernel}

theorem trans (h : Kept k k₁) (h' : Kept k₁ k') : Kept k k' :=
  ⟨h'.paging.trans h.paging, h'.used.trans h.used, fun i => (h'.pid i).trans (h.pid i),
    fun i => (h'.addresses i).trans (h.addresses i)⟩

theorem saveContext (k : Kernel) (ctx : Context) : Kept k (schedulerSaveContext k ctx) := by
  unfold schedulerSaveContext
  refine ⟨Kernel.modifySlot_paging .., Kernel.modifySlot_used .., fun i => ?_, fun i => ?_⟩
  · by_cases hi : processGetCurrentRunningPcbPointer k = some i
    · rw [hi, Kernel.modifySlot_some]
    · rw [Kernel.modifySlot_of_ne _ _ hi]
  · by_cases hi : processGetCurrentRunningPcbPointer k = some i
    · rw [hi, Kernel.modifySlot_some]
    · rw [Kernel.modifySlot_of_ne _ _ hi]

/-- The store may go to a slot that is not in use, or past the table. -/
theorem setState (k : Kernel) (n : Nat) (state : ProcessState) : Kept k (k.setState n state) := by
  by_cases hn : n < 16
  · have hfin := Kernel.setState_fin k ⟨n, hn⟩ state
    rw [show k.setState n state = _ from hfin]
    refine ⟨rfl, rfl, fun i => ?_, fun i => ?_⟩
    · by_cases hi : i = ⟨n, hn⟩
      · simp [hi]
      · simp [hi]
    · by_cases hi : i = ⟨n, hn⟩
      · simp [hi]
      · simp [hi]
  · unfold Kernel.setState Kernel.setProcess
    rw [dif_neg hn]
    exact ⟨rfl, rfl, fun _ => rfl, fun _ => rfl⟩

theorem switch {fuel : Nat} (h : schedulerSwitchToNextProcess fuel k = some k') : Kept k k' := by
  unfold schedulerSwitchToNextProcess at h
  obtain ⟨i, -, rfl⟩ := Option.map_eq_some_iff.1 h
  refine (setState k k.currentProcessIdx .ready).trans ?_
  generalize k.setState k.currentProcessIdx .ready = k₀
  obtain ⟨hpaging, hused, hpid, haddr⟩ :=
    setState { k₀ with currentProcessIdx := k₀.nextProcessIdx, nextProcessIdx := i } k₀.nextProcessIdx .running
  exact ⟨hpaging, hused, hpid, haddr⟩

theorem tick {fuel : Nat} {frame : InterruptFrame} (h : timerIsr fuel k frame = some k') : Kept k k' :=
  (saveContext k _).trans (switch h)

end Kept

/-- What a creation does to the pool: nothing, or it hands out one directory and leaves the others alone. -/
theorem claimMemory_pool (p : Paging) (r : ProcessRequest) {i : Fin 32} (hi : (claimMemory p r).pageDir ≠ .pool i) :
    (claimMemory p r).paging.pageDirectoryUsed i = p.pageDirectoryUsed i ∧
      (claimMemory p r).paging.pageDirectoryList i = p.pageDirectoryList i := by
  simp only [claimMemory] at hi ⊢
  rw [pagingAllocateUserPageFrame_used, pagingAllocateUserPageFrame_used, pagingAllocateUserPageFrame_list _ _ hi,
    pagingAllocateUserPageFrame_list _ _ hi]
  obtain he | ⟨d, q, -, he, hused, hlist, -⟩ := pagingCreateNewPageDirectory_cases p
  · rw [he]
    exact ⟨rfl, rfl⟩
  · rw [he] at hi ⊢
    have hne : i ≠ d := fun h => hi (congrArg DirPtr.pool h.symm)
    exact ⟨by rw [hused, Function.update_of_ne hne], by rw [hlist, Function.update_of_ne hne]⟩

theorem claimMemory_used {p : Paging} {r : ProcessRequest} {d : Fin 32} (hd : (claimMemory p r).pageDir = .pool d) :
    p.pageDirectoryUsed d = false ∧ (claimMemory p r).paging.pageDirectoryUsed d = true := by
  simp only [claimMemory] at hd ⊢
  rw [pagingAllocateUserPageFrame_used, pagingAllocateUserPageFrame_used]
  obtain he | ⟨d', q, hidle, he, hused, -, -⟩ := pagingCreateNewPageDirectory_cases p
  · rw [he] at hd
    cases hd
  · rw [he] at hd ⊢
    cases hd
    exact ⟨hidle, by simp [hused]⟩

namespace Settled

variable {k : Kernel}

theorem boot (otherDirectory : UInt32 → PageDirectory) (afterMap : Nat → UInt8) (afterList : Nat → Pcb)
    (afterUsed : Nat → UInt8) : Settled (bootKernel otherDirectory afterMap afterList afterUsed) :=
  ⟨fun i hi => by simp [bootKernel] at hi, fun _ _ => ⟨rfl, rfl⟩, fun _ _ => rfl⟩

theorem numbered (h : Settled k) : Numbered k := ⟨h.pid, fun i hi => (h.idle i hi).1⟩

theorem slotwise (h : Settled k) : Slotwise (fun i p => p.pid = UInt32.ofNat i)
    (fun _ p => p.pid = 0 ∧ p.virtualAddrUsed = fun _ => 0) k := ⟨h.pid, h.idle⟩

theorem create (h : Settled k) (r : ProcessRequest) (readCode : Int) :
    Settled (processCreateUserProcess k r readCode).2 := by
  rcases hcheck : creationCheck k r with _ | retcode
  · have hdoes := processCreateUserProcess_does hcheck readCode
    have hslots := h.slotwise.create hcheck readCode fun i hs => processCreateUserProcess_pid hcheck readCode hs
    refine ⟨hslots.used, hslots.idle, fun i hi => ?_⟩
    rw [hdoes.paging] at hi ⊢
    have hne : (claimMemory k.paging r).pageDir ≠ .pool i := fun he => by
      rw [(claimMemory_used he).2] at hi
      cases hi
    obtain ⟨hused, hlist⟩ := claimMemory_pool k.paging r hne
    rw [hlist]
    exact h.pool i (hused ▸ hi)
  · rw [processCreateUserProcess_refused hcheck]
    exact h

theorem destroy (h : Settled k) (garbage : Fin 8 → PageFlag) (pid : UInt32) :
    Settled (processDestroy garbage k pid).2 := by
  rcases hm : matchPid k pid with _ | i
  · rw [processDestroy_none hm]
    exact h
  · have hslots := h.slotwise.destroy hm ⟨rfl, rfl⟩ garbage
    refine ⟨hslots.used, hslots.idle, ?_⟩
    rw [processDestroy_some hm]
    intro j hj
    -- the frees may have written to this directory only if it is cleared after them
    generalize k.process pid.toNat = b at hj ⊢
    have hfrees : (freeFrames garbage k.paging b).pageDirectoryUsed = k.paging.pageDirectoryUsed :=
      freeFrames_invariant (P := fun p => p.pageDirectoryUsed = k.paging.pageDirectoryUsed)
        (fun p j hp => by rw [pagingFreeUserPageFrame_used, hp]) rfl
    have hkept : b.context.pageDirectoryVirtualAddr ≠ .pool j →
        (freeFrames garbage k.paging b).pageDirectoryList j = k.paging.pageDirectoryList j := fun hne =>
      freeFrames_invariant (P := fun p => p.pageDirectoryList j = k.paging.pageDirectoryList j)
        (fun p _ hp => by rw [pagingFreeUserPageFrame_list _ _ _ hne, hp]) rfl
    rcases hb : b.context.pageDirectoryVirtualAddr with _ | d | addr
    · rw [hb] at hj hkept
      simp only [pagingFreePageDirectory] at hj ⊢
      rw [hkept (by simp)]
      exact h.pool j (hfrees ▸ hj)
    · rw [hb] at hj hkept
      simp only [pagingFreePageDirectory] at hj ⊢
      by_cases hd : j = d
      · simp [hd]
      · rw [Function.update_of_ne hd] at hj ⊢
        rw [hkept fun he => hd (DirPtr.pool.inj he).symm]
        exact h.pool j (hfrees ▸ hj)
    · rw [hb] at hj hkept
      simp only [pagingFreePageDirectory] at hj ⊢
      rw [hkept (by simp)]
      exact h.pool j (hfrees ▸ hj)

/-- Every call keeps it, whatever the process table and the directories have come to. -/
theorem exec (h : Settled k) (c : ProcessCall) : Settled (c.exec k) := by
  cases c with
  | create r readCode => exact h.create r readCode
  | destroy garbage pid => exact h.destroy garbage pid

/-- What changes nothing that a kill goes by keeps it too. -/
theorem kept {k' : Kernel} (h : Settled k) (hk : Kept k k') : Settled k' := by
  refine ⟨fun i hi => ?_, fun i hi => ?_, fun i hi => ?_⟩
  · rw [hk.pid]
    exact h.pid i (hk.used ▸ hi)
  · rw [hk.pid, hk.addresses]
    exact h.idle i (hk.used ▸ hi)
  · rw [hk.paging] at hi ⊢
    exact h.pool i hi

/-- **Every step keeps it**, also a tick after a kill has emptied the slot that the scheduler goes back to. -/
theorem step {e : KernelStep} {k' : Kernel} (h : Settled k) (he : e.Happens k k') : Settled k' := by
  cases e with
  | call c =>
    have hk : k' = c.exec k := he
    exact hk ▸ h.exec c
  | tick frame =>
    obtain ⟨fuel, ht⟩ := he
    exact h.kept (Kept.tick ht)
  | switch =>
    obtain ⟨fuel, ht⟩ := he
    exact h.kept (Kept.switch ht)

end Settled

/-! ## What a creation leaves in the directory and in the PCB -/

theorem pageIndex_kernel (f : Fin 32) : pageIndex (UInt32.ofNat f + kernelVirtualAddressBase) = 0x300 := by
  have hf := f.isLt
  have h1 := toNat_ofNat_fin (by decide) f
  refine Fin.ext ?_
  simp only [pageIndex, kernelVirtualAddressBase, UInt32.toNat_add, h1, UInt32.reduceToNat]
  omega

theorem pageIndex_user {addr : UInt32} (h : ¬ kernelVirtualAddressBase ≤ addr) : pageIndex addr ≠ 0x300 := by
  intro he
  have hv := congrArg Fin.val he
  rw [UInt32.not_le, UInt32.lt_iff_toNat_lt] at h
  simp only [pageIndex, kernelVirtualAddressBase, UInt32.reduceToNat] at h hv
  omega

theorem pagingAllocateUserPageFrame_lower {p : Paging} {f : Fin 32} (h : findFreeFrame p = some f) (d : DirPtr)
    (addr : UInt32) (j : Fin 1024) : ((pagingAllocateUserPageFrame p d addr).2.directory d j).lowerAddress.val =
      if j = pageIndex addr then f.val else (p.directory d j).lowerAddress.val := by
  rw [pagingAllocateUserPageFrame_some d addr h, directory_updatePageDirectoryEntry]
  by_cases hj : j = pageIndex addr
  · simp [hj, pageIndex_frame]
  · simp only [hj, and_false, if_false]
    cases d <;> rfl

/-- The two allocations of a creation with directory `d`: both fail, the second fails, or none does. -/
inductive Takes (p : Paging) (r : ProcessRequest) (d : Fin 32) (m : Claim) : Prop
  | nothing : unusedFrames p = ∅ → m.frame0 = 0xFFFFFFFF → (∀ j, (m.paging.pageDirectoryList d j).lowerAddress.val = 0) →
      unusedFrames m.paging = ∅ → Takes p r d m
  | one (f : Fin 32) : unusedFrames p = {f} → m.frame0 = UInt32.ofNat f → m.frame1 = 0xFFFFFFFF →
      (∀ j, (m.paging.pageDirectoryList d j).lowerAddress.val = if j = pageIndex r.buf then f.val else 0) →
      unusedFrames m.paging = ∅ → m.paging.freePageFrameCount = p.freePageFrameCount - 1 → Takes p r d m
  | two (f g : Fin 32) : f < g → g ∈ unusedFrames p → g ∉ unusedFrames m.paging → m.frame0 = UInt32.ofNat f →
      m.frame1 = UInt32.ofNat g → (∀ j, (m.paging.pageDirectoryList d j).lowerAddress.val =
        if j = 0x2FF then g.val else if j = pageIndex r.buf then f.val else 0) → Takes p r d m

/-- A new directory has numbers of frames nowhere. -/
theorem pagingCreateNewPageDirectory_lower {p : Paging} {d : Fin 32}
    (hd : (pagingCreateNewPageDirectory p).1 = .pool d) (hz : p.pageDirectoryList d = zeroDirectory) (j : Fin 1024) :
    ((pagingCreateNewPageDirectory p).2.pageDirectoryList d j).lowerAddress.val = 0 := by
  obtain he | ⟨d', q, -, he, -, hlist, -⟩ := pagingCreateNewPageDirectory_cases p
  · rw [he] at hd
    cases hd
  · rw [he] at hd ⊢
    cases hd
    rw [hlist, Function.update_self, hz]
    by_cases hj : j = 0x300
    · rw [hj, Function.update_self]
      rfl
    · rw [Function.update_of_ne hj]
      rfl

theorem pagingCreateNewPageDirectory_count (p : Paging) :
    (pagingCreateNewPageDirectory p).2.freePageFrameCount = p.freePageFrameCount := by
  unfold pagingCreateNewPageDirectory
  split <;> rfl

theorem claimMemory_takes {p : Paging} {r : ProcessRequest} {d : Fin 32} (hd : (claimMemory p r).pageDir = .pool d)
    (hz : p.pageDirectoryList d = zeroDirectory) : Takes p r d (claimMemory p r) := by
  have hdir : (pagingCreateNewPageDirectory p).1 = .pool d := hd
  simp only [claimMemory, hdir]
  -- the new directory is all that is known of the state the two allocations start from
  have hlower := pagingCreateNewPageDirectory_lower hdir hz
  have hunused := unusedFrames_newDirectory p
  have hcount := pagingCreateNewPageDirectory_count p
  generalize (pagingCreateNewPageDirectory p).2 = q at hlower hunused hcount ⊢
  rcases hf : findFreeFrame q with _ | f
  · rw [pagingAllocateUserPageFrame_none _ _ hf, pagingAllocateUserPageFrame_none _ _ hf]
    have hnone := findFreeFrame_none.1 hf
    exact .nothing (hunused ▸ hnone) rfl hlower hnone
  · have hl₁ := pagingAllocateUserPageFrame_lower hf (.pool d) r.buf
    have hu₁ := unusedFrames_allocate (.pool d) r.buf hf
    have h0 : (pagingAllocateUserPageFrame q (.pool d) r.buf).1 = UInt32.ofNat f := by
      rw [pagingAllocateUserPageFrame_some _ _ hf]
    have hc₁ : (pagingAllocateUserPageFrame q (.pool d) r.buf).2.freePageFrameCount = p.freePageFrameCount - 1 := by
      rw [pagingAllocateUserPageFrame_some _ _ hf, updatePageDirectoryEntry_count, hcount]
    obtain ⟨hfu, hfmin⟩ := findFreeFrame_some.1 hf
    simp only [Paging.directory, hlower] at hl₁
    rw [hunused] at hu₁ hfu hfmin
    rw [h0]
    generalize (pagingAllocateUserPageFrame q (.pool d) r.buf).2 = q₁ at hl₁ hu₁ hc₁ ⊢
    rcases hg : findFreeFrame q₁ with _ | g
    · rw [pagingAllocateUserPageFrame_none _ _ hg]
      have hnone := findFreeFrame_none.1 hg
      have hsole : unusedFrames p = {f} := by
        rw [← Finset.insert_erase hfu, ← hu₁, hnone]
        rfl
      exact .one f hsole rfl rfl hl₁ hnone hc₁
    · have hl₂ := pagingAllocateUserPageFrame_lower hg (.pool d) 0xBFFFFFFC
      have hu₂ := unusedFrames_allocate (.pool d) 0xBFFFFFFC hg
      have h1 : (pagingAllocateUserPageFrame q₁ (.pool d) 0xBFFFFFFC).1 = UInt32.ofNat g := by
        rw [pagingAllocateUserPageFrame_some _ _ hg]
      obtain ⟨hgu, -⟩ := findFreeFrame_some.1 hg
      rw [hu₁] at hgu
      obtain ⟨hne, hgp⟩ := Finset.mem_erase.1 hgu
      simp only [Paging.directory, hl₁] at hl₂
      exact .two f g (lt_of_le_of_ne (hfmin g hgp) (Ne.symm hne)) hgp (by rw [hu₂]; simp) rfl h1 hl₂

/-- The code of a creation that succeeds is that of its checks and of the read. -/
theorem Succeeds.checked {k k' : Kernel} {r : ProcessRequest} (h : Succeeds k r k') :
    creationCheck k r = none ∧ k' = (processCreateUserProcess k r 0).2 := by
  obtain ⟨readCode, hc⟩ := h.code
  have hcheck := processCreateUserProcess_passes hc
  have hcode := (processCreateUserProcess_does hcheck readCode).code
  rw [hc] at hcode
  by_cases hr : readCode = 0
  · subst hr
    exact ⟨hcheck, by rw [hc]⟩
  · simp [hr] at hcode

/-- The page of the buffer is not the kernel's: the check of the creation refuses that. -/
theorem Succeeds.userPage {k k' : Kernel} {r : ProcessRequest} (h : Succeeds k r k') : pageIndex r.buf ≠ 0x300 :=
  pageIndex_user (UInt32.not_le.2 (creationCheck_passes.1 h.checked.1).2.1)

theorem Succeeds.does {k k' : Kernel} {r : ProcessRequest} (h : Succeeds k r k') : Creation k r 0 0 k' := by
  obtain ⟨hcheck, rfl⟩ := h.checked
  have hdoes := processCreateUserProcess_does hcheck 0
  have hcode := hdoes.code
  rw [if_pos rfl] at hcode
  rwa [hcode] at hdoes

/-- The PCB in the slot of a successful creation. -/
theorem Succeeds.process {k k' : Kernel} {r : ProcessRequest} (h : Succeeds k r k') {i : Fin 16}
    (hi : processListGetInactiveIndex k = some i) :
    k'.processList i = startPcb r (claimMemory k.paging r).pageDir (claimPcb r (processGenerateNewPid k)
      (claimMemory k.paging r).frame0 (claimMemory k.paging r).frame1 (k.processList i)) := by
  obtain ⟨hcheck, rfl⟩ := h.checked
  unfold processCreateUserProcess
  rw [hcheck]
  simp [hi]

theorem Succeeds.pool {k k' : Kernel} {r : ProcessRequest} (h : Succeeds k r k') :
    ∃ d, (claimMemory k.paging r).pageDir = .pool d := by
  obtain he | ⟨d, q, -, he, -⟩ := pagingCreateNewPageDirectory_cases k.paging
  · exact absurd (by rw [he]) h.directory
  · exact ⟨d, by simp [claimMemory, he]⟩

section
variable {k k' : Kernel} {r : ProcessRequest} (h : Succeeds k r k') {i : Fin 16}
variable (hi : processListGetInactiveIndex k = some i)
include h hi

theorem Succeeds.directoryPtr {d : Fin 32} (hd : (claimMemory k.paging r).pageDir = .pool d) :
    (k'.processList i).context.pageDirectoryVirtualAddr = .pool d := by
  rw [h.process hi, ← hd]
  rfl

theorem Succeeds.address0 :
    (k'.processList i).virtualAddrUsed 0 = (claimMemory k.paging r).frame0 + kernelVirtualAddressBase := by
  rw [h.process hi]
  rfl

/-- The addresses of the PCB lead to the kernel's page, or to page 0 where no frame was noted. -/
theorem Succeeds.addresses {f g : Fin 32} (hz : (k.processList i).virtualAddrUsed = fun _ => 0)
    (hf : (claimMemory k.paging r).frame0 = UInt32.ofNat f) (hg : (claimMemory k.paging r).frame1 = UInt32.ofNat g)
    (j : Fin 8) : pageIndex ((k'.processList i).virtualAddrUsed j) = 0x300 ∨
      pageIndex ((k'.processList i).virtualAddrUsed j) = 0 := by
  rw [h.process hi]
  by_cases hj1 : j = 1
  · left
    simp [hj1, startPcb, claimPcb, hg, pageIndex_kernel]
  · by_cases hj0 : j = 0
    · left
      simp [hj0, startPcb, claimPcb, hf, pageIndex_kernel]
    · right
      simp [hj1, hj0, startPcb, claimPcb, hz, pageIndex]

end

/-! ## What the eight frees find -/

/-- A free clears the bit of the number in its entry, if that was set. -/
theorem pagingFreeUserPageFrame_map (garbage : PageFlag) (p : Paging) (d : DirPtr) (addr : UInt32) (f : Fin 32) :
    (pagingFreeUserPageFrame garbage p d addr).2.pageFrameMap f =
      if (p.directory d (pageIndex addr)).lowerAddress.val = f.val then false else p.pageFrameMap f := by
  unfold pagingFreeUserPageFrame
  generalize (p.directory d (pageIndex addr)).lowerAddress.val = n
  dsimp only
  by_cases hb : p.frame n = true
  · simp only [hb, if_true, updatePageDirectoryEntry_map]
    by_cases hn : n < 32
    · by_cases hf : f = ⟨n, hn⟩
      · simp [Paging.clearFrame, hn, hf]
      · have hne : n ≠ f.val := fun he => hf (Fin.ext he.symm)
        simp [Paging.clearFrame, hn, hf, hne]
    · have hne : n ≠ f.val := fun he => hn (he ▸ f.isLt)
      simp only [Paging.clearFrame, hn, hne, dite_false, if_false]
      split <;> rfl
  · by_cases hn : n = f.val
    · subst hn
      have hclear : p.pageFrameMap f = false := by simpa [Paging.frame] using hb
      simp [hb, hclear]
    · simp [hb, hn]

/-- An entry afterwards has number 0 or the number it had. -/
theorem pagingFreeUserPageFrame_lower (garbage : PageFlag) (p : Paging) (d : Fin 32) (addr : UInt32) (j : Fin 1024) :
    ((pagingFreeUserPageFrame garbage p (.pool d) addr).2.pageDirectoryList d j).lowerAddress.val = 0 ∨
    ((pagingFreeUserPageFrame garbage p (.pool d) addr).2.pageDirectoryList d j).lowerAddress.val =
      (p.pageDirectoryList d j).lowerAddress.val := by
  unfold pagingFreeUserPageFrame
  dsimp only
  split
  · obtain ⟨-, he⟩ | he := updatePageDirectoryEntry_entry
      (p.clearFrame (p.directory (.pool d) (pageIndex addr)).lowerAddress.val) (.pool d) 0 addr garbage d j
    · exact .inl (congrArg Fin.val he)
    · right
      rw [clearFrame_list] at he
      exact congrArg (fun e => e.lowerAddress.val) he
  · exact .inr rfl

section frees
variable {p : Paging} {b : Pcb} {d : Fin 32} (hb : b.context.pageDirectoryVirtualAddr = .pool d)
variable (garbage : Fin 8 → PageFlag)
include hb

/-- The kernel's frame goes if the first address leads to an entry with number 0. -/
theorem freeFrames_kernel (h0 : (p.pageDirectoryList d (pageIndex (b.virtualAddrUsed 0))).lowerAddress.val = 0) :
    (freeFrames garbage p b).pageFrameMap 0 = false := by
  refine freeFrames_cons (P := fun q => q.pageFrameMap 0 = false) ?_ fun q j hq => ?_
  · rw [pagingFreeUserPageFrame_map, hb]
    exact if_pos h0
  · rw [pagingFreeUserPageFrame_map, hq, ite_self]

/-- A frame stays taken if none of the addresses leads to an entry with its number. -/
theorem freeFrames_keeps {f : Fin 32} (hf : f ≠ 0)
    (h : ∀ j, (p.pageDirectoryList d (pageIndex (b.virtualAddrUsed j))).lowerAddress.val ≠ f.val) :
    (freeFrames garbage p b).pageFrameMap f = p.pageFrameMap f := by
  have hf0 : f.val ≠ 0 := fun he => hf (Fin.ext he)
  refine (freeFrames_invariant (P := fun q => q.pageFrameMap f = p.pageFrameMap f ∧
    ∀ j, (q.pageDirectoryList d (pageIndex (b.virtualAddrUsed j))).lowerAddress.val ≠ f.val) (fun q j hq => ?_)
    ⟨rfl, h⟩).1
  rw [pagingFreeUserPageFrame_map, hb]
  refine ⟨(if_neg (hq.2 j)).trans hq.1, fun i => ?_⟩
  obtain hz | he := pagingFreeUserPageFrame_lower (garbage j) q d (b.virtualAddrUsed j) (pageIndex (b.virtualAddrUsed i))
  · omega
  · rw [he]
    exact hq.2 i

/-- In a directory where every entry has number 0 the first free takes the kernel's frame, and the others find it
gone. -/
theorem freeFrames_zero (h : ∀ j, (p.pageDirectoryList d j).lowerAddress.val = 0) (ht : p.pageFrameMap 0 = true) :
    (freeFrames garbage p b).pageFrameMap = Function.update p.pageFrameMap 0 false ∧
      (freeFrames garbage p b).freePageFrameCount = p.freePageFrameCount + 1 := by
  refine And.left (b := ∀ j, ((freeFrames garbage p b).pageDirectoryList d j).lowerAddress.val = 0) ?_
  rw [and_assoc]
  refine freeFrames_cons (P := fun q => q.pageFrameMap = Function.update p.pageFrameMap 0 false ∧
    q.freePageFrameCount = p.freePageFrameCount + 1 ∧ ∀ j, (q.pageDirectoryList d j).lowerAddress.val = 0) ?_ ?_
  · have hlower : (p.directory (.pool d) (pageIndex (b.virtualAddrUsed 0))).lowerAddress.val = (0 : Fin 32).val := h _
    refine ⟨?_, ?_, fun j => ?_⟩
    · rw [hb, pagingFreeUserPageFrame_of_taken hlower (garbage 0) ht]
      simp
    · rw [hb, pagingFreeUserPageFrame_of_taken hlower (garbage 0) ht]
    · rw [hb]
      exact (pagingFreeUserPageFrame_lower (garbage 0) p d (b.virtualAddrUsed 0) j).elim id fun he => he.trans (h j)
  · rintro q j ⟨hmap, hcount, hq⟩
    have hlower : (q.directory (.pool d) (pageIndex (b.virtualAddrUsed j))).lowerAddress.val = (0 : Fin 32).val := hq _
    rw [hb, pagingFreeUserPageFrame_of_unused hlower (garbage j) (by simp [hmap])]
    exact ⟨hmap, hcount, hq⟩

end frees

/-! ## The kill -/

/-- The paging state after the kill of the process in slot `i`, whose directory is `d`. -/
theorem Settled.destroyed {k : Kernel} (h : Settled k) {i : Fin 16} (hi : k.processUsed i = true) {d : Fin 32}
    (hd : (k.processList i).context.pageDirectoryVirtualAddr = .pool d) (garbage : Fin 8 → PageFlag) :
    (processDestroy garbage k (UInt32.ofNat i)).2.paging =
      (pagingFreePageDirectory (freeFrames garbage k.paging (k.processList i)) (.pool d)).2 := by
  have hproc : k.process (UInt32.ofNat i).toNat = k.processList i := by
    rw [toNat_ofNat_fin (by decide) i]
    exact dif_pos i.isLt
  rw [processDestroy_some (h.numbered.matchPid_iff.2 ⟨rfl, .inl hi⟩), hproc, hd]

/-- A pid that no slot has is not killed. -/
theorem Settled.finds_none {k : Kernel} (h : Settled k) : matchPid k 0xFFFFFFFF = none := by
  rcases hm : matchPid k 0xFFFFFFFF with _ | i
  · rfl
  · exact absurd (h.numbered.matchPid_iff.1 hm).1.symm (ofNat_fin_ne (by decide) i)

theorem Settled.succeeds {k k' : Kernel} {r : ProcessRequest} (h : Settled k) (hs : Succeeds k r k') : Settled k' := by
  rw [hs.checked.2]
  exact h.create r 0

section
variable {k k₁ : Kernel} {r : ProcessRequest} (h : Settled k) (hs : Succeeds k r k₁)
include h hs

/-- Without a slot the pid is `-1`, and the directory is never given back. -/
theorem Settled.slot_of_givesBack (hg : GivesBack k k₁) : ∃ i, processListGetInactiveIndex k = some i := by
  by_contra hnone
  have hslot : processListGetInactiveIndex k = none := by
    rcases hl : processListGetInactiveIndex k with _ | i
    · rfl
    · exact absurd ⟨i, hl⟩ hnone
  obtain ⟨d, hd⟩ := hs.pool
  obtain ⟨hidle, hused⟩ := claimMemory_used hd
  have hpid : processGenerateNewPid k = 0xFFFFFFFF := by
    unfold processGenerateNewPid
    rw [hslot]
  obtain ⟨-, hback⟩ := hg (fun _ => zeroFlag) [] k₁ .nil
  obtain ⟨-, -, hdirs⟩ := hback rfl
  rw [hpid, processDestroy_none (h.succeeds hs).finds_none, hs.does.paging] at hdirs
  have hd' := congrFun hdirs d
  rw [hused, hidle] at hd'
  cases hd'

/-- The map after the kill, with nothing in between. -/
theorem Settled.map_of_givesBack (hg : GivesBack k k₁) {i : Fin 16} (hi : processListGetInactiveIndex k = some i)
    {d : Fin 32} (hd : (claimMemory k.paging r).pageDir = .pool d) (f : Fin 32) :
    (freeFrames (fun _ => zeroFlag) k₁.paging (k₁.processList i)).pageFrameMap f =
      if f ∈ framesTaken k.paging k₁.paging then false else k₁.paging.pageFrameMap f := by
  have hi₁ : k₁.processUsed i = true := by simp [hs.does.used, hi]
  have hback := (hg (fun _ => zeroFlag) [] k₁ .nil).1
  rw [processGenerateNewPid_some hi, (h.succeeds hs).destroyed hi₁ (hs.directoryPtr hi hd)] at hback
  exact hback f

/-- A first free that finds number 0 must not take a frame that the creation did not take. -/
theorem Settled.kernelFrame_unused (hg : GivesBack k k₁) {i : Fin 16} (hi : processListGetInactiveIndex k = some i)
    {d : Fin 32} (hd : (claimMemory k.paging r).pageDir = .pool d)
    (hz : ((claimMemory k.paging r).paging.pageDirectoryList d
      (pageIndex ((k₁.processList i).virtualAddrUsed 0))).lowerAddress.val = 0)
    (hfull : unusedFrames (claimMemory k.paging r).paging = ∅) : (0 : Fin 32) ∈ unusedFrames k.paging := by
  rw [← hs.does.paging] at hz hfull
  have hk := h.map_of_givesBack hs hg hi hd 0
  rw [freeFrames_kernel (hs.directoryPtr hi hd) _ hz] at hk
  rw [unusedFrames_eq_empty.1 hfull 0] at hk
  by_contra hset
  simp [framesTaken, hset] at hk

/-- The frame of the stack is in an entry that none of the addresses leads to. -/
theorem Settled.stackFrame_kept {i : Fin 16} (hi : processListGetInactiveIndex k = some i) {d f g : Fin 32}
    (hd : (claimMemory k.paging r).pageDir = .pool d) (hlt : f < g)
    (hf : (claimMemory k.paging r).frame0 = UInt32.ofNat f) (hg : (claimMemory k.paging r).frame1 = UInt32.ofNat g)
    (hl : ∀ j, ((claimMemory k.paging r).paging.pageDirectoryList d j).lowerAddress.val =
      if j = 0x2FF then g.val else if j = pageIndex r.buf then f.val else 0) (garbage : Fin 8 → PageFlag) :
    (freeFrames garbage k₁.paging (k₁.processList i)).pageFrameMap g = k₁.paging.pageFrameMap g := by
  have hslot := processListGetInactiveIndex_unused hi
  have hlt' : f.val < g.val := hlt
  have hg0 : g ≠ 0 := fun he => by simp [he] at hlt
  refine freeFrames_keeps (hs.directoryPtr hi hd) garbage hg0 fun j => ?_
  rw [hs.does.paging, hl]
  rcases hs.addresses hi (h.idle i hslot).2 hf hg j with he | he
  · rw [he, if_neg (by decide)]
    split <;> omega
  · rw [he, if_neg (by decide)]
    split <;> omega

/-- **What a kill needs to give back what the creation took.** -/
theorem Settled.onlyKernelFrameLeft (hg : GivesBack k k₁) : OnlyKernelFrameLeft k := by
  obtain ⟨i, hi⟩ := h.slot_of_givesBack hs hg
  refine ⟨⟨i, processListGetInactiveIndex_unused hi⟩, ?_⟩
  obtain ⟨d, hd⟩ := hs.pool
  have h0 := hs.address0 hi
  cases claimMemory_takes hd (h.pool d (claimMemory_used hd).1) with
  | nothing hnone _ hl hfull =>
    have hmem := h.kernelFrame_unused hs hg hi hd (hl _) hfull
    rw [hnone] at hmem
    simp at hmem
  | one f hsole hf _ hl hfull _ =>
    rw [hf] at h0
    have hz : ((claimMemory k.paging r).paging.pageDirectoryList d
        (pageIndex ((k₁.processList i).virtualAddrUsed 0))).lowerAddress.val = 0 := by
      rw [h0, pageIndex_kernel, hl, if_neg hs.userPage.symm]
    have hmem := h.kernelFrame_unused hs hg hi hd hz hfull
    rw [hsole, Finset.mem_singleton] at hmem
    intro g
    rw [← mem_unusedFrames, hsole, Finset.mem_singleton, hmem]
  | two f g hlt hgp hgq hf hg' hl =>
    have hk := h.map_of_givesBack hs hg hi hd g
    have htaken : g ∈ framesTaken k.paging k₁.paging := by
      rw [framesTaken, Finset.mem_sdiff, hs.does.paging]
      exact ⟨hgp, hgq⟩
    rw [h.stackFrame_kept hs hi hd hlt hf hg' hl, if_pos htaken, hs.does.paging] at hk
    exact absurd (by simpa using hk) hgq

omit h hs in
/-- While no frame is left, a process that runs keeps its PCB and its directory through any creations. -/
theorem Settled.between {k₂ : Kernel} {i : Fin 16} {d : Fin 32} {rs : List ProcessRequest} (h₁ : Settled k₁)
    (hi : k₁.processUsed i = true) (hd : k₁.paging.pageDirectoryUsed d = true) (hfull : unusedFrames k₁.paging = ∅)
    (hpath : Lib.Path Succeeds k₁ rs k₂) : Settled k₂ ∧ k₂.processUsed i = true ∧
      k₂.processList i = k₁.processList i ∧ k₂.paging.pageDirectoryUsed d = true ∧
      k₂.paging.pageDirectoryList d = k₁.paging.pageDirectoryList d ∧ unusedFrames k₂.paging = ∅ := by
  refine hpath.invariant (I := fun k => Settled k ∧ k.processUsed i = true ∧ k.processList i = k₁.processList i ∧
    k.paging.pageDirectoryUsed d = true ∧ k.paging.pageDirectoryList d = k₁.paging.pageDirectoryList d ∧
    unusedFrames k.paging = ∅) ?_ ⟨h₁, hi, rfl, hd, rfl, hfull⟩
  rintro k r k' ⟨hk, hui, hpi, hud, hld, hno⟩ hs
  have hdoes := hs.does
  have hslot := processListGetInactiveIndex_ne hui
  have hdir : (claimMemory k.paging r).pageDir ≠ .pool d := fun he => by
    have hidle := (claimMemory_used he).1
    rw [hud] at hidle
    cases hidle
  obtain ⟨hud', hld'⟩ := claimMemory_pool k.paging r hdir
  refine ⟨hk.succeeds hs, by simp [hdoes.used, hui], (hdoes.process i hslot).trans hpi, ?_, ?_, ?_⟩
  · rw [hdoes.paging, hud', hud]
  · rw [hdoes.paging, hld', hld]
  · rw [hdoes.paging, ← Finset.subset_empty, ← hno]
    exact (unusedFrames_claimMemory k.paging r).1

/-- If the kernel's frame was the last one, the creation took it and nothing else. -/
theorem Settled.takes_kernelFrame {d : Fin 32} (hd : (claimMemory k.paging r).pageDir = .pool d)
    (hunused : unusedFrames k.paging = {0}) : (∀ j, (k₁.paging.pageDirectoryList d j).lowerAddress.val = 0) ∧
      unusedFrames k₁.paging = ∅ ∧ k₁.paging.freePageFrameCount = k.paging.freePageFrameCount - 1 := by
  rw [hs.does.paging]
  cases claimMemory_takes hd (h.pool d (claimMemory_used hd).1) with
  | nothing hnone _ _ _ =>
    rw [hunused] at hnone
    simp at hnone
  | one f hf _ _ hl hfull hcount =>
    rw [hunused, Finset.singleton_inj] at hf
    refine ⟨fun j => ?_, hfull, hcount⟩
    rw [hl, ← hf]
    exact ite_self _
  | two f g hlt hg _ _ _ _ =>
    rw [hunused, Finset.mem_singleton] at hg
    simp [hg] at hlt

omit h in
/-- The directory bits after the kill are those before the creation. -/
theorem Succeeds.directories_back {d : Fin 32} (hd : (claimMemory k.paging r).pageDir = .pool d)
    (garbage : Fin 8 → PageFlag) (b : Pcb) :
    Function.update (freeFrames garbage k₁.paging b).pageDirectoryUsed d false = k.paging.pageDirectoryUsed := by
  have hused : (freeFrames garbage k₁.paging b).pageDirectoryUsed = k₁.paging.pageDirectoryUsed :=
    freeFrames_invariant (P := fun p => p.pageDirectoryUsed = k₁.paging.pageDirectoryUsed)
      (fun p j hp => by rw [pagingFreeUserPageFrame_used, hp]) rfl
  rw [hused, hs.does.paging]
  funext d'
  by_cases he : d' = d
  · simp [he, (claimMemory_used hd).1]
  · rw [Function.update_of_ne he]
    refine (claimMemory_pool k.paging r fun hx => he ?_).1
    exact (DirPtr.pool.inj (hd.symm.trans hx)).symm

/-- Conversely, if the kernel's frame was the last one, the kill finds it where it looks for another. -/
theorem Settled.givesBack (ho : OnlyKernelFrameLeft k) : GivesBack k k₁ := by
  obtain ⟨⟨i₀, hi₀⟩, hsole⟩ := ho
  obtain ⟨i, hi⟩ : ∃ i, processListGetInactiveIndex k = some i :=
    Option.isSome_iff_exists.1 (Fin.isSome_find?_iff.2 ⟨i₀, by simp [hi₀]⟩)
  obtain ⟨d, hd⟩ := hs.pool
  have hunused : unusedFrames k.paging = {0} := by
    ext f
    simp [hsole f]
  obtain ⟨hzero, hfull, hcount⟩ := h.takes_kernelFrame hs hd hunused
  have htaken : ∀ f, f ∈ framesTaken k.paging k₁.paging ↔ f = 0 := by
    intro f
    simp [framesTaken, hunused, hfull]
  intro garbage rs k₂ hpath
  have hi₁ : k₁.processUsed i = true := by simp [hs.does.used, hi]
  have hd₁ : k₁.paging.pageDirectoryUsed d = true := by rw [hs.does.paging, (claimMemory_used hd).2]
  obtain ⟨h₂, hi₂, hp₂, -, hl₂, hfull₂⟩ := (h.succeeds hs).between hi₁ hd₁ hfull hpath
  have hb : (k₂.processList i).context.pageDirectoryVirtualAddr = .pool d := by
    rw [hp₂, hs.directoryPtr hi hd]
  have hset := unusedFrames_eq_empty.1 hfull₂
  obtain ⟨hmap, hcount₂⟩ := freeFrames_zero (p := k₂.paging) hb garbage (by rw [hl₂]; exact hzero) (hset 0)
  rw [processGenerateNewPid_some hi]
  dsimp only
  rw [h₂.destroyed hi₂ hb]
  refine ⟨fun f => ?_, fun hrs => ?_⟩
  · show (freeFrames garbage k₂.paging (k₂.processList i)).pageFrameMap f = _
    rw [hmap]
    by_cases hf : f = 0
    · simp [hf, htaken]
    · simp [hf, htaken]
  · subst hrs
    cases hpath
    refine ⟨?_, ?_, hs.directories_back hd garbage _⟩
    · show (freeFrames garbage k₁.paging (k₁.processList i)).pageFrameMap = _
      rw [hmap]
      funext f
      by_cases hf : f = 0
      · simp [hf, (hsole 0).2 rfl]
      · have hf' : k.paging.pageFrameMap f = true := by simpa [hf] using (hsole f).not
        simp [hf, hset, hf']
    · show (freeFrames garbage k₁.paging (k₁.processList i)).freePageFrameCount = _
      rw [hcount₂, hcount, UInt32.sub_add_cancel]

end

theorem succeeds_of_check {k : Kernel} {r : ProcessRequest} (h : creationCheck k r = none)
    (hd : (pagingCreateNewPageDirectory k.paging).1 ≠ .null) : Succeeds k r (processCreateUserProcess k r 0).2 := by
  refine ⟨⟨0, ?_⟩, hd⟩
  have hcode := (processCreateUserProcess_does h 0).code
  rw [if_pos rfl] at hcode
  exact Prod.ext hcode rfl

/-- The shell is started and killed, `n` times. -/
def restarts : Nat → Kernel → Kernel
  | 0, k => k
  | n + 1, k => restarts n ((ProcessCall.destroy (fun _ => zeroFlag) 0).exec ((ProcessCall.create shellRequest 0).exec k))

theorem restarts_path (n : Nat) (k : Kernel) : ∃ steps, Lib.Path KernelStep.Happens k steps (restarts n k) := by
  induction n generalizing k with
  | zero => exact ⟨[], .nil⟩
  | succ n ih =>
    obtain ⟨steps, h⟩ := ih ((ProcessCall.destroy (fun _ => zeroFlag) 0).exec ((ProcessCall.create shellRequest 0).exec k))
    exact ⟨.call (.create shellRequest 0) :: .call (.destroy (fun _ => zeroFlag) 0) :: steps, .cons rfl (.cons rfl h)⟩

/-- The largest buffer size: the sum at `process.c:37` wraps, and one frame is enough for the check. -/
def hugeRequest : ProcessRequest := { shellRequest with bufferSize := 0xFFFFFFFF }

end MoggersOs
