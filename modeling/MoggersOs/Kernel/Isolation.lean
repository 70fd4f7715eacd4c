import MoggersOs.Lib.Path
import MoggersOs.Kernel.Process
/-
# Who owns a page frame

A process can touch the frames that its page directory maps with the user bit set. `Isolated` says what
paging is for: no two directories in use give user code the same frame, and none gives it frame 0, which
holds the kernel. The bookkeeping behind it is `Owned`: a directory entry with a frame number other than
0 has its bit set in `page_frame_map`, and no second directory has the number.

`paging_allocate_user_page_frame` keeps `Owned` as long as bit 0 of the map is set, because the frame it
takes is then neither 0 nor in any directory. `process_destroy` keeps it too, but clears bit 0: it looks the
process's frames up under `virtual_addr_used`, which holds frame numbers plus the kernel's base, so the
entry it finds is the kernel's own. The next process then gets frame 0 (`not_isolated_after_destroy`).
-/

namespace MoggersOs

/-- User code may use the entry. -/
def PageEntry.UserMapped (e : PageEntry) : Prop :=
  e.flag.presentBit = true ∧ e.flag.userSupervisorBit = true

instance (e : PageEntry) : Decidable e.UserMapped := inferInstanceAs (Decidable (_ ∧ _))

/-- Bits 22 and up of the physical address. -/
def PageEntry.physicalFrame (e : PageEntry) : Nat := e.higherAddress.toNat * 1024 + e.lowerAddress.val

structure Isolated (p : Paging) : Prop where
  apart : ∀ i i' j j', i ≠ i' → p.pageDirectoryUsed i = true → p.pageDirectoryUsed i' = true →
    (p.pageDirectoryList i j).UserMapped → (p.pageDirectoryList i' j').UserMapped →
    (p.pageDirectoryList i j).physicalFrame ≠ (p.pageDirectoryList i' j').physicalFrame
  kernelFrame : ∀ i j, (p.pageDirectoryList i j).UserMapped → (p.pageDirectoryList i j).physicalFrame ≠ 0

structure Owned (p : Paging) : Prop where
  /-- A directory that is not handed out is all zero. -/
  idle : ∀ i, p.pageDirectoryUsed i = false → p.pageDirectoryList i = zeroDirectory
  user : ∀ i j, (p.pageDirectoryList i j).UserMapped → (p.pageDirectoryList i j).lowerAddress ≠ 0
  /-- A frame in a directory is in the map's range and taken. -/
  taken : ∀ i j, (p.pageDirectoryList i j).lowerAddress ≠ 0 →
    ∃ f : Fin 32, (p.pageDirectoryList i j).lowerAddress.val = f.val ∧ p.pageFrameMap f = true
  /-- A frame is in one directory only. -/
  sole : ∀ i i' j j', (p.pageDirectoryList i j).lowerAddress ≠ 0 →
    (p.pageDirectoryList i j).lowerAddress = (p.pageDirectoryList i' j').lowerAddress → i = i'

theorem kernelEntry_not_user : ¬ kernelEntry.UserMapped := fun h => Bool.noConfusion h.2

theorem PageEntry.lower_eq_of_frame_eq {e e' : PageEntry} (h : e.physicalFrame = e'.physicalFrame) :
    e.lowerAddress = e'.lowerAddress := by
  have h1 := e.lowerAddress.isLt
  have h2 := e'.lowerAddress.isLt
  unfold physicalFrame at h
  exact Fin.ext (by omega)

namespace Owned

variable {p : Paging}

theorem isolated (h : Owned p) : Isolated p := by
  constructor
  · intro i i' j j' hne _ _ hu _ hf
    exact hne (h.sole i i' j j' (h.user i j hu) (PageEntry.lower_eq_of_frame_eq hf))
  · intro i j hu hf
    have hz : (p.pageDirectoryList i j).physicalFrame = zeroPageEntry.physicalFrame := hf
    exact h.user i j hu (PageEntry.lower_eq_of_frame_eq hz)

end Owned

/-! ## Taking frames -/

theorem pageIndex_frame (f : Fin 32) : (pageIndex (UInt32.ofNat f * 0x400000)).val = f.val := by
  have hf := f.isLt
  have h1 := toNat_ofNat_fin (by decide) f
  simp only [pageIndex, UInt32.toNat_mul, h1, UInt32.toNat_ofNat]
  omega

/-- What an allocation does: nothing, or it maps a frame whose bit was clear. -/
theorem pagingAllocateUserPageFrame_cases (p : Paging) (d : DirPtr) (addr : UInt32) :
    (pagingAllocateUserPageFrame p d addr).2 = p ∨
    ∃ f : Fin 32, p.pageFrameMap f = false ∧ (pagingAllocateUserPageFrame p d addr).2 =
      updatePageDirectoryEntry { p with
        pageFrameMap := Function.update p.pageFrameMap f true
        freePageFrameCount := p.freePageFrameCount - 1 } d (UInt32.ofNat f * 0x400000) addr userFlag := by
  unfold pagingAllocateUserPageFrame
  cases hf : findFreeFrame p with
  | none => exact .inl rfl
  | some f =>
    have hclear : (!p.pageFrameMap f) = true := (Fin.find?_eq_some_iff.mp hf).1
    exact .inr ⟨f, by simpa using hclear, rfl⟩

/-- What a new directory does: nothing, or it hands out one that was not in use. -/
theorem pagingCreateNewPageDirectory_cases (p : Paging) :
    pagingCreateNewPageDirectory p = (.null, p) ∨
    ∃ d q, p.pageDirectoryUsed d = false ∧ pagingCreateNewPageDirectory p = (.pool d, q) ∧
      q.pageDirectoryUsed = Function.update p.pageDirectoryUsed d true ∧
      q.pageDirectoryList = Function.update p.pageDirectoryList d
        (Function.update (p.pageDirectoryList d) 0x300 kernelEntry) ∧
      q.pageFrameMap = p.pageFrameMap := by
  unfold pagingCreateNewPageDirectory
  cases hf : Fin.find? fun i => !p.pageDirectoryUsed i with
  | none => exact .inl rfl
  | some d =>
    have hidle : (!p.pageDirectoryUsed d) = true := (Fin.find?_eq_some_iff.mp hf).1
    exact .inr ⟨d, _, by simpa using hidle, rfl, rfl, rfl, rfl⟩

/-- `d` may be written without touching a directory that waits in the pool. -/
def Paging.HandedOut (p : Paging) (d : DirPtr) : Prop := ∀ i, d = .pool i → p.pageDirectoryUsed i = true

@[simp] theorem updatePageDirectoryEntry_used (p : Paging) (d : DirPtr) (pa va : UInt32) (flag : PageFlag) :
    (updatePageDirectoryEntry p d pa va flag).pageDirectoryUsed = p.pageDirectoryUsed := by cases d <;> rfl

@[simp] theorem updatePageDirectoryEntry_map (p : Paging) (d : DirPtr) (pa va : UInt32) (flag : PageFlag) :
    (updatePageDirectoryEntry p d pa va flag).pageFrameMap = p.pageFrameMap := by cases d <;> rfl

/-- An entry of the pool afterwards is the one written, or as it was. -/
theorem updatePageDirectoryEntry_entry (p : Paging) (d : DirPtr) (pa va : UInt32) (flag : PageFlag) (i : Fin 32)
    (j : Fin 1024) :
    (d = .pool i ∧ ((updatePageDirectoryEntry p d pa va flag).pageDirectoryList i j).lowerAddress = pageIndex pa) ∨
    (updatePageDirectoryEntry p d pa va flag).pageDirectoryList i j = p.pageDirectoryList i j := by
  cases d with
  | kernel => exact .inr rfl
  | other addr => exact .inr rfl
  | pool i₀ =>
    by_cases hi : i = i₀
    · subst hi
      by_cases hj : j = pageIndex va
      · subst hj
        left
        simp [updatePageDirectoryEntry, Paging.setDirectory, Paging.directory]
      · right
        simp [updatePageDirectoryEntry, Paging.setDirectory, Paging.directory, hj]
    · right
      simp [updatePageDirectoryEntry, Paging.setDirectory, hi]

namespace Owned

variable {p : Paging} {d : DirPtr}

/-- A frame whose bit is clear is neither the kernel's nor in any directory. -/
theorem fresh (h : Owned p) (h0 : p.pageFrameMap 0 = true) {f : Fin 32} (hf : p.pageFrameMap f = false) :
    f ≠ 0 ∧ ∀ i j, (p.pageDirectoryList i j).lowerAddress.val ≠ f.val := by
  have hf0 : f ≠ 0 := by
    rintro rfl
    rw [h0] at hf
    cases hf
  refine ⟨hf0, fun i j he => ?_⟩
  have hz : (p.pageDirectoryList i j).lowerAddress ≠ 0 := by
    intro hz
    rw [hz] at he
    exact hf0 (Fin.ext he.symm)
  obtain ⟨f', hf', ht⟩ := h.taken i j hz
  have hff : f' = f := Fin.ext (hf'.symm.trans he)
  rw [hff, hf] at ht
  cases ht

theorem map_frame (h : Owned p) (h0 : p.pageFrameMap 0 = true) {f : Fin 32} (hf : p.pageFrameMap f = false)
    {pa va : UInt32} (hpa : (pageIndex pa).val = f.val) (hd : p.HandedOut d) {n : UInt32} :
    Owned (updatePageDirectoryEntry { p with
      pageFrameMap := Function.update p.pageFrameMap f true, freePageFrameCount := n } d pa va userFlag) := by
  obtain ⟨hf0, hfresh⟩ := h.fresh h0 hf
  have hpa0 : pageIndex pa ≠ 0 := by
    intro hz
    rw [hz] at hpa
    exact hf0 (Fin.ext hpa.symm)
  have hnew : ∀ i j, (p.pageDirectoryList i j).lowerAddress ≠ pageIndex pa := by
    intro i j he
    rw [← he] at hpa
    exact hfresh i j hpa
  generalize hp : ({ p with
    pageFrameMap := Function.update p.pageFrameMap f true, freePageFrameCount := n } : Paging) = q
  have hused : q.pageDirectoryUsed = p.pageDirectoryUsed := by rw [← hp]
  have hlist : q.pageDirectoryList = p.pageDirectoryList := by rw [← hp]
  have hmap : q.pageFrameMap = Function.update p.pageFrameMap f true := by rw [← hp]
  have hcase := updatePageDirectoryEntry_entry q d pa va userFlag
  rw [hlist] at hcase
  constructor
  · intro i hi
    rw [updatePageDirectoryEntry_used, hused] at hi
    funext j
    obtain ⟨hdi, -⟩ | he := hcase i j
    · rw [hd i hdi] at hi
      cases hi
    · rw [he, h.idle i hi]
  · intro i j hu
    obtain ⟨-, he⟩ | he := hcase i j
    · rw [he]
      exact hpa0
    · rw [he] at hu ⊢
      exact h.user i j hu
  · intro i j hl
    obtain ⟨-, he⟩ | he := hcase i j
    · refine ⟨f, by rw [he, hpa], ?_⟩
      rw [updatePageDirectoryEntry_map, hmap]
      exact Function.update_self ..
    · rw [he] at hl ⊢
      obtain ⟨f', hf', ht⟩ := h.taken i j hl
      refine ⟨f', hf', ?_⟩
      rw [updatePageDirectoryEntry_map, hmap]
      by_cases hi : f' = f
      · rw [hi]
        exact Function.update_self ..
      · rw [Function.update_of_ne hi]
        exact ht
  · intro i i' j j' hl heq
    obtain ⟨hdi, he⟩ | he := hcase i j <;> obtain ⟨hdi', he'⟩ | he' := hcase i' j'
    · rw [hdi] at hdi'
      exact DirPtr.pool.inj hdi'
    · rw [he, he'] at heq
      exact absurd heq.symm (hnew i' j')
    · rw [he, he'] at heq
      exact absurd heq (hnew i j)
    · rw [he, he'] at heq
      rw [he] at hl
      exact h.sole i i' j j' hl heq

/-- **A new frame keeps the owners apart**, while bit 0 is set. -/
theorem allocate (h : Owned p) (h0 : p.pageFrameMap 0 = true) (hd : p.HandedOut d) (addr : UInt32) :
    Owned (pagingAllocateUserPageFrame p d addr).2 ∧ (pagingAllocateUserPageFrame p d addr).2.pageFrameMap 0 = true ∧
      (pagingAllocateUserPageFrame p d addr).2.HandedOut d := by
  obtain he | ⟨f, hf, he⟩ := pagingAllocateUserPageFrame_cases p d addr
  · rw [he]
    exact ⟨h, h0, hd⟩
  · rw [he]
    refine ⟨h.map_frame h0 hf (pageIndex_frame f) hd, ?_, ?_⟩
    · rw [updatePageDirectoryEntry_map]
      exact (Function.update_of_ne (h.fresh h0 hf).1.symm ..).trans h0
    · intro i hi
      rw [updatePageDirectoryEntry_used]
      exact hd i hi

/-- Entries may go, and so may the bits of frames that are then in no directory. -/
theorem shrink (h : Owned p) {q : Paging}
    (hidle : ∀ i, q.pageDirectoryUsed i = false → q.pageDirectoryList i = zeroDirectory)
    (hent : ∀ i j, q.pageDirectoryList i j = p.pageDirectoryList i j ∨
      ¬ (q.pageDirectoryList i j).UserMapped ∧ (q.pageDirectoryList i j).lowerAddress = 0)
    (hmap : ∀ i j (f : Fin 32), (q.pageDirectoryList i j).lowerAddress ≠ 0 →
      (q.pageDirectoryList i j).lowerAddress.val = f.val → p.pageFrameMap f = true → q.pageFrameMap f = true) :
    Owned q := by
  have hkept : ∀ i j, (q.pageDirectoryList i j).lowerAddress ≠ 0 →
      q.pageDirectoryList i j = p.pageDirectoryList i j :=
    fun i j hl => (hent i j).resolve_right fun hz => hl hz.2
  constructor
  · exact hidle
  · intro i j hu
    obtain he | ⟨hn, -⟩ := hent i j
    · rw [he] at hu ⊢
      exact h.user i j hu
    · exact absurd hu hn
  · intro i j hl
    obtain ⟨f, hf, ht⟩ := h.taken i j (hkept i j hl ▸ hl)
    rw [← hkept i j hl] at hf
    exact ⟨f, hf, hmap i j f hl hf ht⟩
  · intro i i' j j' hl heq
    have hl' : (q.pageDirectoryList i' j').lowerAddress ≠ 0 := by
      rw [← heq]
      exact hl
    rw [hkept i j hl, hkept i' j' hl'] at heq
    rw [hkept i j hl] at hl
    exact h.sole i i' j j' hl heq

theorem newDirectory (h : Owned p) :
    Owned (pagingCreateNewPageDirectory p).2 ∧
    (pagingCreateNewPageDirectory p).2.pageFrameMap = p.pageFrameMap ∧
    (pagingCreateNewPageDirectory p).2.HandedOut (pagingCreateNewPageDirectory p).1 := by
  obtain he | ⟨d, q, -, he, hused, hlist, hmap⟩ := pagingCreateNewPageDirectory_cases p
  · rw [he]
    exact ⟨h, rfl, fun i hi => by cases hi⟩
  · rw [he]
    refine ⟨h.shrink (fun i hi => ?_) (fun i j => ?_) (fun i j f _ _ ht => ?_), hmap, fun i hi => ?_⟩
    · have hne : i ≠ d := by
        rintro rfl
        simp [hused] at hi
      rw [hused, Function.update_of_ne hne] at hi
      rw [hlist, Function.update_of_ne hne]
      exact h.idle i hi
    · rw [hlist]
      by_cases hi : i = d
      · subst hi
        by_cases hj : j = 0x300
        · rw [hj, Function.update_self, Function.update_self]
          exact .inr ⟨kernelEntry_not_user, rfl⟩
        · rw [Function.update_self, Function.update_of_ne hj]
          exact .inl rfl
      · rw [Function.update_of_ne hi]
        exact .inl rfl
    · rw [hmap]
      exact ht
    · cases hi
      rw [hused]
      exact Function.update_self ..

/-- **The memory of a new process keeps the owners apart**, while bit 0 is set. -/
theorem claim (h : Owned p) (h0 : p.pageFrameMap 0 = true) (r : ProcessRequest) :
    Owned (claimMemory p r).paging := by
  obtain ⟨h₁, hmap, hd⟩ := h.newDirectory
  rw [← hmap] at h0
  obtain ⟨h₂, h0₂, hd₂⟩ := h₁.allocate h0 hd r.buf
  simp only [claimMemory]
  exact (h₂.allocate h0₂ hd₂ _).1

end Owned

/-! ## Giving frames back -/

/-- What frees through directory `d` can have done: bits of frames of `d`, and bit 0, may be clear, and
entries of `d` may have lost their frame. -/
structure Freed (p q : Paging) (d : Fin 32) : Prop where
  used  : q.pageDirectoryUsed = p.pageDirectoryUsed
  other : ∀ i, i ≠ d → q.pageDirectoryList i = p.pageDirectoryList i
  entry : ∀ j, (q.pageDirectoryList d j).lowerAddress = (p.pageDirectoryList d j).lowerAddress ∨
    (q.pageDirectoryList d j).lowerAddress = 0
  bit   : ∀ f, q.pageFrameMap f = p.pageFrameMap f ∨ f = 0 ∨
    ∃ j, (p.pageDirectoryList d j).lowerAddress.val = f.val

theorem Freed.refl (p : Paging) (d : Fin 32) : Freed p p d :=
  ⟨rfl, fun _ _ => rfl, fun _ => .inl rfl, fun _ => .inl rfl⟩

/-- What a free does when the entry's frame is in the map's range. -/
theorem pagingFreeUserPageFrame_cases {p : Paging} {d : DirPtr} {addr : UInt32} {f : Fin 32}
    (hf : (p.directory d (pageIndex addr)).lowerAddress.val = f.val) (garbage : PageFlag) :
    (pagingFreeUserPageFrame garbage p d addr).2 = p ∨
    ∃ n, (pagingFreeUserPageFrame garbage p d addr).2 = { updatePageDirectoryEntry
      { p with pageFrameMap := Function.update p.pageFrameMap f false } d 0 addr garbage with
      freePageFrameCount := n } := by
  unfold pagingFreeUserPageFrame
  rw [hf]
  by_cases hb : p.frame f.val
  · right
    simp only [if_pos hb, Paging.clearFrame, dif_pos f.isLt]
    exact ⟨_, rfl⟩
  · left
    simp only [if_neg hb]

theorem Freed.free {p q : Paging} {d : Fin 32} (h : Freed p q d) (hp : Owned p) (garbage : PageFlag) (addr : UInt32) :
    Freed p (pagingFreeUserPageFrame garbage q (.pool d) addr).2 d := by
  -- The entry's frame is one that `d` had in `p`, or 0.
  have hfr : ∃ f : Fin 32, (q.pageDirectoryList d (pageIndex addr)).lowerAddress.val = f.val ∧
      (f = 0 ∨ ∃ j, (p.pageDirectoryList d j).lowerAddress.val = f.val) := by
    by_cases hz : (q.pageDirectoryList d (pageIndex addr)).lowerAddress = 0
    · exact ⟨0, by rw [hz]; rfl, .inl rfl⟩
    · have he := (h.entry (pageIndex addr)).resolve_right hz
      rw [he] at hz ⊢
      obtain ⟨f, hf, -⟩ := hp.taken d _ hz
      exact ⟨f, hf, .inr ⟨_, hf⟩⟩
  obtain ⟨f, hf, hown⟩ := hfr
  obtain he | ⟨n, he⟩ := pagingFreeUserPageFrame_cases (d := .pool d) hf garbage
  · rw [he]
    exact h
  rw [he]
  have hcase := updatePageDirectoryEntry_entry
    { q with pageFrameMap := Function.update q.pageFrameMap f false } (.pool d) 0 addr garbage
  constructor
  · exact h.used
  · intro i hi
    refine Eq.trans (funext fun j => ?_) (h.other i hi)
    obtain ⟨hd, -⟩ | hk := hcase i j
    · exact absurd (DirPtr.pool.inj hd).symm hi
    · exact hk
  · intro j
    obtain ⟨-, hz⟩ | hk := hcase d j
    · exact .inr hz
    · obtain hj | hj := h.entry j
      · exact .inl ((congrArg PageEntry.lowerAddress hk).trans hj)
      · exact .inr ((congrArg PageEntry.lowerAddress hk).trans hj)
  · intro g
    by_cases hg : g = f
    · subst hg
      exact .inr hown
    · obtain hb | hb := h.bit g
      · exact .inl ((Function.update_of_ne hg ..).trans hb)
      · exact .inr hb

theorem Freed.freeFrames {p : Paging} {d : Fin 32} (hp : Owned p) (garbage : Fin 8 → PageFlag) {b : Pcb}
    (hb : b.context.pageDirectoryVirtualAddr = .pool d) : Freed p (freeFrames garbage p b) d := by
  have hfold : ∀ (l : List (Fin 8)) (q : Paging), Freed p q d → Freed p (l.foldl (fun q j =>
      (pagingFreeUserPageFrame (garbage j) q b.context.pageDirectoryVirtualAddr (b.virtualAddrUsed j)).2) q) d := by
    intro l
    induction l with
    | nil => exact fun q hq => hq
    | cons j l ih =>
      intro q hq
      refine ih _ ?_
      rw [hb]
      exact hq.free hp (garbage j) _
  exact hfold _ p (.refl p d)

/-- **Taking a process's memory away keeps the owners apart**: the directory whose frames are freed is
cleared. -/
theorem Owned.release {p q : Paging} {d : Fin 32} (hp : Owned p) (h : Freed p q d) :
    Owned (pagingFreePageDirectory q (.pool d)).2 := by
  have hused : (pagingFreePageDirectory q (.pool d)).2.pageDirectoryUsed =
      Function.update p.pageDirectoryUsed d false := by
    rw [← h.used]
    rfl
  have hgone : (pagingFreePageDirectory q (.pool d)).2.pageDirectoryList d = zeroDirectory :=
    Function.update_self ..
  have hkept : ∀ i, i ≠ d → (pagingFreePageDirectory q (.pool d)).2.pageDirectoryList i = p.pageDirectoryList i :=
    fun i hi => (Function.update_of_ne hi ..).trans (h.other i hi)
  refine hp.shrink (fun i hi => ?_) (fun i j => ?_) (fun i j f hl hf ht => ?_)
  · by_cases hd : i = d
    · rw [hd, hgone]
    · rw [hused, Function.update_of_ne hd] at hi
      rw [hkept i hd]
      exact hp.idle i hi
  · by_cases hd : i = d
    · rw [hd, hgone]
      exact .inr ⟨fun hu => Bool.noConfusion hu.1, rfl⟩
    · exact .inl (congrFun (hkept i hd) j)
  · by_cases hd : i = d
    · rw [hd, hgone] at hl
      exact absurd rfl hl
    · rw [hkept i hd] at hl hf
      obtain hb | hb | ⟨j', hj'⟩ := h.bit f
      · exact hb.trans ht
      · rw [hb] at hf
        exact absurd (Fin.ext hf) hl
      · exact absurd (hp.sole i d j j' hl (Fin.ext (hf.trans hj'.symm))) hd

/-! ## Runs -/

/-- The calls that do not hand out what belongs to somebody else. A creation is refused by its checks, or
finds bit 0 of `page_frame_map` set. A destroy finds no process, or one whose directory is in the pool: not
a PCB whose creation failed, nor one of an unused slot. -/
def KeepsApart (k : Kernel) : ProcessCall → Prop
  | .create r _ => creationCheck k r ≠ none ∨ k.paging.frame 0 = true
  | .destroy _ pid => matchPid k pid ≠ none →
    ∃ d, (k.process pid.toNat).context.pageDirectoryVirtualAddr = .pool d

theorem KeepsApart.owned {k : Kernel} {c : ProcessCall} (hc : KeepsApart k c) (h : Owned k.paging) :
    Owned (c.exec k).paging := by
  cases c with
  | create r readCode =>
    rw [ProcessCall.exec_create]
    cases hr : creationCheck k r with
    | some retcode =>
      rw [processCreateUserProcess_refused hr]
      exact h
    | none =>
      rw [(processCreateUserProcess_does hr readCode).paging]
      exact h.claim (hc.resolve_left fun hn => hn hr) r
  | destroy garbage pid =>
    rw [ProcessCall.exec_destroy]
    cases hm : matchPid k pid with
    | none =>
      rw [processDestroy_none hm]
      exact h
    | some i =>
      obtain ⟨d, hd⟩ := hc (by simp [hm])
      rw [processDestroy_some hm, hd]
      exact h.release (.freeFrames h garbage hd)

theorem bootKernel_owned (otherDirectory : UInt32 → PageDirectory) (afterMap : Nat → UInt8) (afterList : Nat → Pcb)
    (afterUsed : Nat → UInt8) : Owned (bootKernel otherDirectory afterMap afterList afterUsed).paging := by
  have hzero : (bootKernel otherDirectory afterMap afterList afterUsed).paging.pageDirectoryList =
      fun _ => zeroDirectory := rfl
  constructor
  · intro i _
    rw [hzero]
  · intro i j hu
    rw [hzero] at hu
    exact Bool.noConfusion hu.1
  · intro i j hl
    rw [hzero] at hl
    exact absurd rfl hl
  · intro i i' j j' hl
    rw [hzero] at hl
    exact absurd rfl hl

/-- **Processes are kept apart** in every state reached from boot by calls that `KeepsApart` admits. -/
theorem processes_isolated {otherDirectory : UInt32 → PageDirectory} {afterMap : Nat → UInt8} {afterList : Nat → Pcb}
    {afterUsed : Nat → UInt8} {calls : List ProcessCall} {k : Kernel}
    (h : Lib.Path (fun k c k' => KeepsApart k c ∧ k' = c.exec k)
      (bootKernel otherDirectory afterMap afterList afterUsed) calls k) : Isolated k.paging := by
  have hstep : ∀ k c k', Owned k.paging → KeepsApart k c ∧ k' = ProcessCall.exec k c → Owned k'.paging := by
    rintro k c k' hk ⟨hc, rfl⟩
    exact hc.owned hk
  exact (h.invariant (I := fun k => Owned k.paging) hstep (bootKernel_owned ..)).isolated

/-- A shell, a second process, and the second one killed. -/
theorem processes_isolated_kill :
    Isolated (ProcessCall.exec (ProcessCall.exec (ProcessCall.exec quietKernel (.create shellRequest 0))
      (.create shellRequest 0)) (.destroy (fun _ => zeroFlag) 1)).paging := by
  have h₁ : KeepsApart quietKernel (.create shellRequest 0) := .inr rfl
  have h₂ : KeepsApart (ProcessCall.exec quietKernel (.create shellRequest 0)) (.create shellRequest 0) :=
    .inr (by decide +kernel)
  have h₃ : KeepsApart (ProcessCall.exec (ProcessCall.exec quietKernel (.create shellRequest 0))
      (.create shellRequest 0)) (.destroy (fun _ => zeroFlag) 1) := 
    fun _ => ⟨1, by decide +kernel⟩
  exact processes_isolated (.cons ⟨h₁, rfl⟩ (.cons ⟨h₂, rfl⟩ (.cons ⟨h₃, rfl⟩ .nil)))

/-- The shell starts, is killed, and starts again: its new directory maps frame 0 for user code. -/
theorem not_isolated_after_destroy :
    ∃ calls k, Lib.Path (fun k c k' => k' = ProcessCall.exec k c) quietKernel calls k ∧ ¬ Isolated k.paging := by
  refine ⟨[.create shellRequest 0, .destroy (fun _ => zeroFlag) 0, .create shellRequest 0], _,
    .cons rfl (.cons rfl (.cons rfl .nil)), fun h => ?_⟩
  exact h.kernelFrame 0 0 (by decide +kernel) (by decide +kernel)

end MoggersOs
