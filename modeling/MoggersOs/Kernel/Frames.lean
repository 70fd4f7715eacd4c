import Mathlib.Algebra.Order.Floor.Div
import Mathlib.Data.Finset.Card
import MoggersOs.Kernel.Isolation
/-
# The frame allocator over its own calls

`page_frame_map` and `free_page_frame_count` say the same thing twice, and three functions rely on it:
`paging_allocate_check` answers from the counter, `paging_allocate_user_page_frame` from the map, and
`paging_free_user_page_frame` subscripts the map with what a directory entry holds. `Exact` ties them together
in every state that the four functions reach from the statics (`frame_count_exact`).

The counter being right does not make a free right: it is decided by `lower_address` and the map, never by the
flags of the entry, so an entry that maps nothing frees frame 0 (`freesOnlyMapped_iff`). Nor does it make the
check of `process_create_user_process` right, which counts in 32 bits and for a number of frames that the
code then does not take (`memoryCheckSufficient_iff`).

| here | there |
| --- | --- |
| `PagingCall`   | a call of `paging.c:61-136`, `151-204` |
| `unusedFrames` | the false entries of `page_frame_map` |
| `AllAllocated` | calls of `paging_allocate_user_page_frame`, none of which returns `-1` |
| `FreesOnlyMapped` | what `paging_free_user_page_frame` should do (`paging.h:148-155`) |
| `MemoryCheckSufficient` | what the check at `process.c:36-41` should be worth |
-/

namespace MoggersOs

/-! ## Calls -/

/-- `garbage` is the uninitialised `flag` of `paging_free_user_page_frame`. -/
inductive PagingCall where
  | allocate (pageDir : DirPtr) (virtualAddr : UInt32)
  | free (garbage : PageFlag) (pageDir : DirPtr) (virtualAddr : UInt32)
  | createNewPageDirectory
  | freePageDirectory (pageDir : DirPtr)

def PagingCall.exec (p : Paging) : PagingCall → Paging
  | .allocate d addr => (pagingAllocateUserPageFrame p d addr).2
  | .free garbage d addr => (pagingFreeUserPageFrame garbage p d addr).2
  | .createNewPageDirectory => (pagingCreateNewPageDirectory p).2
  | .freePageDirectory d => (pagingFreePageDirectory p d).2

/-- The kernel's directory or one of the pool, handed out or not. -/
def DirPtr.Known : DirPtr → Prop
  | .kernel => True
  | .pool _ => True
  | .other _ => False

theorem DirPtr.known_pool (i : Fin 32) : (DirPtr.pool i).Known := trivial

def PagingCall.Known : PagingCall → Prop
  | .allocate d _ => d.Known
  | .free _ d _ => d.Known
  | .createNewPageDirectory => True
  | .freePageDirectory d => d.Known

/-- The states that calls on known directories reach from the statics. -/
def Paging.Reached (p : Paging) : Prop :=
  ∃ otherDirectory afterMap calls, Lib.Path (fun p (c : PagingCall) p' => c.Known ∧ p' = c.exec p)
    (initialPaging otherDirectory afterMap) calls p

theorem Paging.Reached.step {p : Paging} (h : p.Reached) {c : PagingCall} (hc : c.Known) : (c.exec p).Reached := by
  obtain ⟨otherDirectory, afterMap, calls, hpath⟩ := h
  exact ⟨otherDirectory, afterMap, _, hpath.snoc (l := c) ⟨hc, rfl⟩⟩

def unusedFrames (p : Paging) : Finset (Fin 32) := Finset.univ.filter fun f => p.pageFrameMap f = false

@[simp] theorem mem_unusedFrames {p : Paging} {f : Fin 32} : f ∈ unusedFrames p ↔ p.pageFrameMap f = false := by
  simp [unusedFrames]

theorem unusedFrames_eq_empty {p : Paging} : unusedFrames p = ∅ ↔ ∀ f, p.pageFrameMap f = true := by
  simp [Finset.eq_empty_iff_forall_notMem]

theorem unusedFrames_le (p : Paging) : (unusedFrames p).card ≤ 32 := card_finset_fin_le _

/-! ## What the calls do to the map -/

/-- An entry of any directory afterwards is the one written, or as it was. -/
theorem directory_updatePageDirectoryEntry (p : Paging) (d d' : DirPtr) (pa va : UInt32) (flag : PageFlag)
    (j : Fin 1024) : (updatePageDirectoryEntry p d pa va flag).directory d' j =
      if d' = d ∧ j = pageIndex va then { p.directory d j with flag := flag, lowerAddress := pageIndex pa }
      else p.directory d' j := by
  by_cases hd : d' = d
  · subst hd
    by_cases hj : j = pageIndex va
    · subst hj
      cases d' <;> simp [updatePageDirectoryEntry, Paging.setDirectory, Paging.directory]
    · cases d' <;> simp [updatePageDirectoryEntry, Paging.setDirectory, Paging.directory, hj]
  · rw [if_neg fun h => hd h.1]
    cases d <;> cases d' <;> simp_all [updatePageDirectoryEntry, Paging.setDirectory, Paging.directory]

@[simp] theorem updatePageDirectoryEntry_count (p : Paging) (d : DirPtr) (pa va : UInt32) (flag : PageFlag) :
    (updatePageDirectoryEntry p d pa va flag).freePageFrameCount = p.freePageFrameCount := by cases d <;> rfl

theorem findFreeFrame_none {p : Paging} : findFreeFrame p = none ↔ unusedFrames p = ∅ := by
  rw [unusedFrames_eq_empty]
  simp [findFreeFrame]

/-- The first unused frame. -/
theorem findFreeFrame_some {p : Paging} {f : Fin 32} :
    findFreeFrame p = some f ↔ f ∈ unusedFrames p ∧ ∀ g ∈ unusedFrames p, f ≤ g := by
  rw [findFreeFrame, Fin.find?_eq_some_iff]
  constructor
  · rintro ⟨hf, hmin⟩
    refine ⟨by simpa using hf, fun g hg => ?_⟩
    by_contra hlt
    have htaken := hmin g (Fin.not_le.1 hlt)
    simp [mem_unusedFrames.1 hg] at htaken
  · rintro ⟨hf, hmin⟩
    refine ⟨by simpa using hf, fun g hg => ?_⟩
    by_contra hfree
    exact absurd (hmin g (by simpa using hfree)) (Fin.not_le.2 hg)

section allocate
variable {p : Paging} (d : DirPtr) (addr : UInt32)

theorem pagingAllocateUserPageFrame_none (h : findFreeFrame p = none) :
    pagingAllocateUserPageFrame p d addr = (0xFFFFFFFF, p) := by
  unfold pagingAllocateUserPageFrame
  rw [h]

theorem pagingAllocateUserPageFrame_some {f : Fin 32} (h : findFreeFrame p = some f) :
    pagingAllocateUserPageFrame p d addr = (UInt32.ofNat f, updatePageDirectoryEntry { p with
      pageFrameMap := Function.update p.pageFrameMap f true
      freePageFrameCount := p.freePageFrameCount - 1 } d (UInt32.ofNat f * 0x400000) addr userFlag) := by
  unfold pagingAllocateUserPageFrame
  rw [h]

/-- The number of a frame or a slot is not the mark of a failure. -/
theorem ofNat_fin_ne {n : Nat} (hn : n < 2 ^ 32) (i : Fin n) : UInt32.ofNat i ≠ 0xFFFFFFFF := by
  intro h
  have hi := i.isLt
  have hmark := congrArg UInt32.toNat h
  rw [toNat_ofNat_fin hn.le] at hmark
  simp only [UInt32.reduceToNat] at hmark
  omega

theorem unusedFrames_allocate {f : Fin 32} (h : findFreeFrame p = some f) :
    unusedFrames (pagingAllocateUserPageFrame p d addr).2 = (unusedFrames p).erase f := by
  rw [pagingAllocateUserPageFrame_some d addr h]
  ext g
  by_cases hg : g = f
  · simp [hg]
  · simp [hg]

end allocate

section free
variable {p : Paging} {d : DirPtr} {addr : UInt32} {f : Fin 32}
variable (hf : (p.directory d (pageIndex addr)).lowerAddress.val = f.val) (garbage : PageFlag)
include hf

theorem pagingFreeUserPageFrame_of_taken (ht : p.pageFrameMap f = true) :
    pagingFreeUserPageFrame garbage p d addr = (true, { updatePageDirectoryEntry
      { p with pageFrameMap := Function.update p.pageFrameMap f false } d 0 addr garbage with
      freePageFrameCount := p.freePageFrameCount + 1 }) := by
  have hframe : p.frame f.val = true := by simpa [Paging.frame] using ht
  unfold pagingFreeUserPageFrame
  simp [hf, hframe, Paging.clearFrame]

theorem pagingFreeUserPageFrame_of_unused (ht : p.pageFrameMap f = false) :
    pagingFreeUserPageFrame garbage p d addr = (false, p) := by
  have hframe : p.frame f.val = false := by simpa [Paging.frame] using ht
  unfold pagingFreeUserPageFrame
  simp [hf, hframe]

end free

/-! ## The counter -/

/-- The counter is the number of unused frames, and every entry of a known directory has the number of a
frame. -/
structure Exact (p : Paging) : Prop where
  count : p.freePageFrameCount.toNat = (unusedFrames p).card
  entry : ∀ d : DirPtr, d.Known → ∀ j, (p.directory d j).lowerAddress.val < 32

namespace Exact

variable {p : Paging} {d : DirPtr}

theorem initialPaging (otherDirectory : UInt32 → PageDirectory) (afterMap : Nat → UInt8) :
    Exact (initialPaging otherDirectory afterMap) := by
  constructor
  · simp [unusedFrames, MoggersOs.initialPaging]
  · intro d hd j
    cases d with
    | kernel =>
      by_cases hj : j = 0x300
      · simp [MoggersOs.initialPaging, Paging.directory, hj, kernelEntry, zeroPageEntry]
      · simp [MoggersOs.initialPaging, Paging.directory, hj, zeroDirectory, zeroPageEntry]
    | pool i => simp [MoggersOs.initialPaging, Paging.directory, zeroDirectory, zeroPageEntry]
    | other addr => exact hd.elim

theorem count_le (h : Exact p) : p.freePageFrameCount.toNat ≤ 32 := h.count ▸ unusedFrames_le p

/-- A written entry has a frame's number too. -/
theorem entry_update (h : Exact p) {q : Paging} {d' : DirPtr} {pa : UInt32} (va : UInt32) (flag : PageFlag)
    (hd' : d'.Known) (hq : ∀ e, q.directory e = p.directory e) (hpa : (pageIndex pa).val < 32) (j : Fin 1024) :
    ((updatePageDirectoryEntry q d pa va flag).directory d' j).lowerAddress.val < 32 := by
  rw [directory_updatePageDirectoryEntry, hq, hq]
  split
  · exact hpa
  · exact h.entry d' hd' j

theorem allocate (h : Exact p) (d : DirPtr) (addr : UInt32) : Exact (pagingAllocateUserPageFrame p d addr).2 := by
  rcases hf : findFreeFrame p with _ | f
  · rw [pagingAllocateUserPageFrame_none d addr hf]
    exact h
  · have hmem := (findFreeFrame_some.1 hf).1
    constructor
    · have hpos : 0 < (unusedFrames p).card := Finset.card_pos.2 ⟨f, hmem⟩
      have hone : (1 : UInt32) ≤ p.freePageFrameCount := by
        rw [UInt32.le_iff_toNat_le, h.count]
        simpa using hpos
      rw [unusedFrames_allocate d addr hf, Finset.card_erase_of_mem hmem, ← h.count,
        pagingAllocateUserPageFrame_some d addr hf, updatePageDirectoryEntry_count]
      simpa using UInt32.toNat_sub_of_le _ _ hone
    · intro d' hd' j
      rw [pagingAllocateUserPageFrame_some d addr hf]
      exact h.entry_update addr userFlag hd' (fun e => by cases e <;> rfl) (by rw [pageIndex_frame]; exact f.isLt) j

theorem free (h : Exact p) (hd : d.Known) (garbage : PageFlag) (addr : UInt32) :
    Exact (pagingFreeUserPageFrame garbage p d addr).2 := by
  obtain ⟨f, hf⟩ : ∃ f : Fin 32, (p.directory d (pageIndex addr)).lowerAddress.val = f.val :=
    ⟨⟨_, h.entry d hd _⟩, rfl⟩
  rcases ht : p.pageFrameMap f with _ | _
  · rw [pagingFreeUserPageFrame_of_unused hf garbage ht]
    exact h
  · rw [pagingFreeUserPageFrame_of_taken hf garbage ht]
    generalize hq : ({ p with pageFrameMap := Function.update p.pageFrameMap f false } : Paging) = q
    have hmap : q.pageFrameMap = Function.update p.pageFrameMap f false := by rw [← hq]
    constructor
    · have hins : unusedFrames { updatePageDirectoryEntry q d 0 addr garbage with
          freePageFrameCount := p.freePageFrameCount + 1 } = insert f (unusedFrames p) := by
        ext g
        by_cases hg : g = f
        · simp [hmap, hg]
        · simp [hmap, hg]
      have hle := unusedFrames_le { updatePageDirectoryEntry q d 0 addr garbage with
        freePageFrameCount := p.freePageFrameCount + 1 }
      rw [hins, Finset.card_insert_of_notMem (by simp [ht])] at hle ⊢
      show (p.freePageFrameCount + 1).toNat = _
      rw [UInt32.toNat_add, h.count]
      simp only [UInt32.reduceToNat]
      omega
    · intro d' hd' j
      have hpa : (pageIndex 0).val < 32 := by simp [pageIndex]
      have hentry := h.entry_update (d := d) addr garbage hd' (fun e => show q.directory e = _ by rw [← hq]; cases e <;> rfl)
        hpa j
      cases d' <;> exact hentry

theorem createNewPageDirectory (h : Exact p) : Exact (pagingCreateNewPageDirectory p).2 := by
  unfold pagingCreateNewPageDirectory
  rcases Fin.find? fun i => !p.pageDirectoryUsed i with _ | i
  · exact h
  · refine ⟨h.count, fun d hd j => ?_⟩
    cases d with
    | kernel => exact h.entry .kernel hd j
    | other addr => exact hd.elim
    | pool i' =>
      by_cases hi : i' = i
      · subst hi
        by_cases hj : j = 0x300
        · simp [Paging.directory, hj, kernelEntry, zeroPageEntry]
        · simpa [Paging.directory, hj] using h.entry (.pool i') hd j
      · simpa [Paging.directory, hi] using h.entry (.pool i') hd j

theorem freePageDirectory (h : Exact p) (d : DirPtr) : Exact (pagingFreePageDirectory p d).2 := by
  cases d with
  | kernel => exact h
  | other addr => exact h
  | pool i =>
    refine ⟨h.count, fun d hd j => ?_⟩
    cases d with
    | kernel => exact h.entry .kernel hd j
    | other addr => exact hd.elim
    | pool i' =>
      by_cases hi : i' = i
      · simp [pagingFreePageDirectory, Paging.directory, hi, zeroDirectory, zeroPageEntry]
      · simpa [pagingFreePageDirectory, Paging.directory, hi] using h.entry (.pool i') hd j

theorem exec (h : Exact p) {c : PagingCall} (hc : c.Known) : Exact (c.exec p) := by
  cases c with
  | allocate d addr => exact h.allocate d addr
  | free garbage d addr => exact h.free hc garbage addr
  | createNewPageDirectory => exact h.createNewPageDirectory
  | freePageDirectory d => exact h.freePageDirectory d

end Exact

/-- **Every call keeps the counter exact**, so it is in every state that is reached. -/
theorem Paging.Reached.exact {p : Paging} (h : p.Reached) : Exact p := by
  obtain ⟨otherDirectory, afterMap, calls, hpath⟩ := h
  refine hpath.invariant (I := Exact) ?_ (.initialPaging otherDirectory afterMap)
  rintro p c p' hp ⟨hc, rfl⟩
  exact hp.exec hc

/-! ## The check -/

/-- The allocations return a frame each, one after the other. -/
def AllAllocated : Paging → List (DirPtr × UInt32) → Prop
  | _, [] => True
  | p, call :: calls => (pagingAllocateUserPageFrame p call.1 call.2).1 ≠ 0xFFFFFFFF ∧
      AllAllocated (pagingAllocateUserPageFrame p call.1 call.2).2 calls

/-- Each allocation takes one of the unused frames, whatever the directory and the address. -/
theorem allAllocated_iff {p : Paging} {calls : List (DirPtr × UInt32)} :
    AllAllocated p calls ↔ calls.length ≤ (unusedFrames p).card := by
  induction calls generalizing p with
  | nil => simp [AllAllocated]
  | cons call calls ih =>
    rw [AllAllocated, ih, List.length_cons]
    rcases hf : findFreeFrame p with _ | f
    · simp [pagingAllocateUserPageFrame_none call.1 call.2 hf, findFreeFrame_none.1 hf]
    · have hmem := (findFreeFrame_some.1 hf).1
      have hpos : 0 < (unusedFrames p).card := Finset.card_pos.2 ⟨f, hmem⟩
      have hne : (pagingAllocateUserPageFrame p call.1 call.2).1 ≠ 0xFFFFFFFF := by
        rw [pagingAllocateUserPageFrame_some call.1 call.2 hf]
        exact ofNat_fin_ne (by decide) f
      rw [unusedFrames_allocate call.1 call.2 hf, Finset.card_erase_of_mem hmem]
      constructor
      · rintro ⟨-, hle⟩
        omega
      · intro hle
        exact ⟨hne, by omega⟩

theorem pagingAllocateCheck_iff {p : Paging} {n : UInt32} :
    pagingAllocateCheck p n = true ↔ n.toNat ≤ p.freePageFrameCount.toNat := by
  simp [pagingAllocateCheck, UInt32.le_iff_toNat_le]

/-- **The free-frame counter is exact** in every state that calls on the kernel's directory and on directories of
the pool reach: it counts the unused frames, no entry leads past the map, and `paging_allocate_check`
answers for any allocations that come next. -/
theorem frame_count_exact {p : Paging} (h : p.Reached) :
    p.freePageFrameCount.toNat = (unusedFrames p).card ∧ p.freePageFrameCount.toNat ≤ 32 ∧
    (∀ d : DirPtr, d.Known → ∀ j, (p.directory d j).lowerAddress.val < 32) ∧
    ∀ (n : UInt32) (calls : List (DirPtr × UInt32)), calls.length = n.toNat →
      (pagingAllocateCheck p n = true ↔ AllAllocated p calls) := by
  have hexact := h.exact
  refine ⟨hexact.count, hexact.count_le, hexact.entry, fun n calls hlen => ?_⟩
  rw [pagingAllocateCheck_iff, hexact.count, allAllocated_iff, hlen]

theorem bootPaging_reached (otherDirectory : UInt32 → PageDirectory) (afterMap : Nat → UInt8) :
    (bootPaging otherDirectory afterMap).Reached :=
  ⟨otherDirectory, afterMap, [.allocate .kernel 0], .cons ⟨trivial, rfl⟩ .nil⟩

/-- After boot, with the first directory of the pool handed out. -/
def firstDirectory : Paging := (pagingCreateNewPageDirectory (bootPaging (fun _ => zeroDirectory) fun _ => 0)).2

theorem firstDirectory_reached : firstDirectory.Reached :=
  (bootPaging_reached (fun _ => zeroDirectory) fun _ => 0).step (c := .createNewPageDirectory) trivial

section
attribute [local instance] frames_neZero

/-- A process of one frame and its stack, and the stack given back. -/
def stackFreed : Paging :=
  let p := (pagingAllocateUserPageFrame firstDirectory (.pool 0) 0).2
  (pagingFreeUserPageFrame zeroFlag (pagingAllocateUserPageFrame p (.pool 0) 0xBFFFFFFC).2 (.pool 0) 0xBFFFFFFC).2

end

theorem stackFreed_reached : stackFreed.Reached :=
  ((firstDirectory_reached.step (c := .allocate (.pool 0) 0) (DirPtr.known_pool 0)).step
    (c := .allocate (.pool 0) 0xBFFFFFFC) (DirPtr.known_pool 0)).step
    (c := .free zeroFlag (.pool 0) 0xBFFFFFFC) (DirPtr.known_pool 0)

/-- 30 of the 31 frames are left then, which is enough for 30 allocations and for no more. -/
theorem frame_count_exact_freed : (unusedFrames stackFreed).card = 30 ∧
    AllAllocated stackFreed (List.replicate 30 (.kernel, 0)) ∧ ¬ AllAllocated stackFreed (List.replicate 31 (.kernel, 0)) := by
  obtain ⟨hcount, -, -, hcheck⟩ := frame_count_exact stackFreed_reached
  have hleft : stackFreed.freePageFrameCount = 30 := by decide +kernel
  refine ⟨hcount.symm.trans (congrArg UInt32.toNat hleft), (hcheck 30 _ (List.length_replicate ..)).1 ?_, fun hall => ?_⟩
  · rw [pagingAllocateCheck_iff, hleft]
  · have h31 := (hcheck 31 _ (List.length_replicate ..)).2 hall
    rw [pagingAllocateCheck_iff, hleft] at h31
    exact absurd h31 (by decide)

/-! ## Giving a frame back -/

/-- What a free should do to the entry of the address: if user code may use it, its frame is unused afterwards and it
is gone; if not, nothing. -/
def FreesOnlyMapped (garbage : PageFlag) (p : Paging) (d : DirPtr) (addr : UInt32) : Prop :=
  let e := p.directory d (pageIndex addr)
  let out := pagingFreeUserPageFrame garbage p d addr
  if e.UserMapped then
    out.1 = true ∧ (∃ f : Fin 32, e.lowerAddress.val = f.val ∧
      out.2.pageFrameMap = Function.update p.pageFrameMap f false) ∧
    out.2.freePageFrameCount.toNat = p.freePageFrameCount.toNat + 1 ∧
    (out.2.directory d (pageIndex addr)).flag.presentBit = false
  else
    out.1 = false ∧ out.2.pageFrameMap = p.pageFrameMap ∧
    out.2.freePageFrameCount = p.freePageFrameCount ∧ out.2.directory d = p.directory d

/-- The bit of the frame in the entry tells whether the entry is mapped, and a mapped one gets a flag whose present
bit happens to be clear. -/
def BitTells (garbage : PageFlag) (p : Paging) (d : DirPtr) (addr : UInt32) : Prop :=
  let e := p.directory d (pageIndex addr)
  if e.UserMapped then p.frame e.lowerAddress.val = true ∧ garbage.presentBit = false
  else p.frame e.lowerAddress.val = false

theorem Exact.freesOnly {p : Paging} {d : DirPtr} (h : Exact p) (hd : d.Known) (garbage : PageFlag)
    (addr : UInt32) : FreesOnlyMapped garbage p d addr ↔ BitTells garbage p d addr := by
  obtain ⟨f, hf⟩ : ∃ f : Fin 32, (p.directory d (pageIndex addr)).lowerAddress.val = f.val :=
    ⟨⟨_, h.entry d hd _⟩, rfl⟩
  have hframe : p.frame (p.directory d (pageIndex addr)).lowerAddress.val = p.pageFrameMap f := by
    simp [hf, Paging.frame]
  simp only [FreesOnlyMapped, BitTells, hframe]
  rcases ht : p.pageFrameMap f with _ | _
  · rw [pagingFreeUserPageFrame_of_unused hf garbage ht]
    split <;> simp
  · rw [pagingFreeUserPageFrame_of_taken hf garbage ht]
    by_cases hu : (p.directory d (pageIndex addr)).UserMapped
    · have hinc : (p.freePageFrameCount + 1).toNat = p.freePageFrameCount.toNat + 1 := by
        have hle := h.count_le
        rw [UInt32.toNat_add]
        simp only [UInt32.reduceToNat]
        omega
      generalize hq : ({ p with pageFrameMap := Function.update p.pageFrameMap f false } : Paging) = q
      have hpresent : ∀ n, (({ updatePageDirectoryEntry q d 0 addr garbage with
          freePageFrameCount := n } : Paging).directory d (pageIndex addr)).flag.presentBit = garbage.presentBit := by
        intro n
        have hentry := directory_updatePageDirectoryEntry q d d 0 addr garbage (pageIndex addr)
        rw [if_pos ⟨rfl, rfl⟩] at hentry
        have hflag := congrArg (fun e => e.flag.presentBit) hentry
        cases d <;> exact hflag
      rw [if_pos hu, if_pos hu, hpresent]
      constructor
      · rintro ⟨-, -, -, hgone⟩
        exact ⟨rfl, hgone⟩
      · rintro ⟨-, hclear⟩
        exact ⟨rfl, ⟨f, hf, by simp [← hq]⟩, hinc, hclear⟩
    · simp [hu]

/-- **When a free does what it should**, in every state that is reached, for every known directory, address and
content of the uninitialised flag. -/
theorem freesOnlyMapped_iff {p : Paging} {d : DirPtr} (h : p.Reached) (hd : d.Known) (garbage : PageFlag)
    (addr : UInt32) : FreesOnlyMapped garbage p d addr ↔ BitTells garbage p d addr :=
  h.exact.freesOnly hd garbage addr

/-- The frame mapped at the top of the user's half goes, if the flag on the stack is all zero. -/
theorem freesOnlyMapped_stack :
    FreesOnlyMapped zeroFlag (pagingAllocateUserPageFrame firstDirectory (.pool 0) 0xBFFFFFFC).2 (.pool 0) 0xBFFFFFFC := by
  have hreach : (pagingAllocateUserPageFrame firstDirectory (.pool 0) 0xBFFFFFFC).2.Reached :=
    firstDirectory_reached.step (c := .allocate (.pool 0) 0xBFFFFFFC) (DirPtr.known_pool 0)
  have hiff := freesOnlyMapped_iff hreach (DirPtr.known_pool 0) zeroFlag 0xBFFFFFFC
  rw [hiff]
  have hu : ((pagingAllocateUserPageFrame firstDirectory (.pool 0) 0xBFFFFFFC).2.directory (.pool 0)
      (pageIndex 0xBFFFFFFC)).UserMapped := by decide +kernel
  rw [BitTells, if_pos hu]
  exact ⟨by decide +kernel, rfl⟩

/-- Page 0 of a new directory maps nothing; freeing it gives the kernel's frame away. -/
theorem not_freesOnlyMapped_unmapped : firstDirectory.Reached ∧ firstDirectory.pageDirectoryUsed 0 = true ∧
    (pagingFreeUserPageFrame zeroFlag firstDirectory (.pool 0) 0).2.pageFrameMap 0 = false ∧
    ¬ FreesOnlyMapped zeroFlag firstDirectory (.pool 0) 0 := by
  refine ⟨firstDirectory_reached, rfl, by decide +kernel, fun h => ?_⟩
  have htells := (firstDirectory_reached.exact.freesOnly (DirPtr.known_pool 0) zeroFlag 0).1 h
  have hu : ¬ (firstDirectory.directory (.pool 0) (pageIndex 0)).UserMapped := by decide +kernel
  rw [BitTells, if_neg hu] at htells
  exact absurd htells (by decide +kernel)

/-! ## The memory check of `process_create_user_process` -/

/-- What was taken between `p` and `q`. -/
def framesTaken (p q : Paging) : Finset (Fin 32) := unusedFrames p \ unusedFrames q

/-- The check counts right, and when it lets a request pass, the two allocations that follow succeed and take as
many frames as were counted. -/
structure MemoryCheckSufficient (k : Kernel) (r : ProcessRequest) : Prop where
  needed : (pageFrameCountNeeded r).toNat = (r.bufferSize.toNat + 0x400000) ⌈/⌉ 0x400000
  enough : creationCheck k r = none →
    (claimMemory k.paging r).frame0 ≠ 0xFFFFFFFF ∧ (claimMemory k.paging r).frame1 ≠ 0xFFFFFFFF ∧
    (framesTaken k.paging (claimMemory k.paging r).paging).card = (pageFrameCountNeeded r).toNat

/-- The request is turned down before a frame is taken: 16 processes, an entry point in the kernel's half, more than
seven frames of executable, or more than there are. -/
def TurnedDown (k : Kernel) (r : ProcessRequest) : Prop :=
  16 ≤ k.activeProcessCount.toNat ∨ 0xC0000000 ≤ r.buf.toNat ∨ 7 * 0x400000 < r.bufferSize.toNat ∨
    k.paging.freePageFrameCount.toNat * 0x400000 < r.bufferSize.toNat + 0x400000

/-- The sum at `process.c:37` does not wrap, and the executable has one frame, or the request is turned down. -/
def OneFrame (k : Kernel) (r : ProcessRequest) : Prop :=
  r.bufferSize.toNat + 0x400000 < 2 ^ 32 ∧
    (TurnedDown k r ∨ 1 ≤ r.bufferSize.toNat ∧ r.bufferSize.toNat ≤ 0x400000)

theorem pageFrameCountNeeded_eq (r : ProcessRequest) : (pageFrameCountNeeded r).toNat =
    ((r.bufferSize.toNat + 0x400000) % 2 ^ 32 + 0x3FFFFF) / 0x400000 := by
  have hlt := r.bufferSize.toNat_lt
  have hdiv : ((r.bufferSize + 0x400000) / 0x400000).toNat =
      (r.bufferSize.toNat + 0x400000) % 2 ^ 32 / 0x400000 := by
    rw [UInt32.toNat_div, UInt32.toNat_add]
    rfl
  have hmod : ((r.bufferSize + 0x400000) % 0x400000).toNat =
      (r.bufferSize.toNat + 0x400000) % 2 ^ 32 % 0x400000 := by
    rw [UInt32.toNat_mod, UInt32.toNat_add]
    rfl
  unfold pageFrameCountNeeded ceilDiv
  by_cases hz : (r.bufferSize + 0x400000) % 0x400000 = 0
  · have hz' : ((r.bufferSize + 0x400000) % 0x400000).toNat = 0 := by rw [hz]; rfl
    rw [if_neg (not_not_intro hz), UInt32.add_zero, hdiv]
    omega
  · have hz' : ((r.bufferSize + 0x400000) % 0x400000).toNat ≠ 0 := fun h => hz (UInt32.toNat_inj.1 h)
    rw [if_pos hz, UInt32.toNat_add, hdiv]
    simp only [UInt32.reduceToNat]
    omega

/-- The count is the ceiling unless the sum wraps. -/
theorem pageFrameCountNeeded_ceil (r : ProcessRequest) :
    (pageFrameCountNeeded r).toNat = (r.bufferSize.toNat + 0x400000) ⌈/⌉ 0x400000 ↔
      r.bufferSize.toNat + 0x400000 < 2 ^ 32 := by
  have hlt := r.bufferSize.toNat_lt
  rw [pageFrameCountNeeded_eq, Nat.ceilDiv_eq_add_pred_div]
  omega

theorem creationCheck_eq_none {k : Kernel} {r : ProcessRequest} (h : r.bufferSize.toNat + 0x400000 < 2 ^ 32) :
    creationCheck k r = none ↔ ¬ TurnedDown k r := by
  have hneed := pageFrameCountNeeded_eq r
  rw [Nat.mod_eq_of_lt h] at hneed
  simp only [creationCheck, TurnedDown, Bool.or_eq_true, Bool.not_eq_true', decide_eq_true_eq,
    UInt32.le_iff_toNat_le, UInt32.lt_iff_toNat_lt, ← Bool.not_eq_true, pagingAllocateCheck_iff,
    kernelVirtualAddressBase, UInt32.reduceToNat]
  split
  · simp_all
  · split
    · simp_all
    · split
      · simp_all
        omega
      · simp_all
        omega

section claim
variable {p : Paging} (r : ProcessRequest)

theorem pagingCreateNewPageDirectory_map (p : Paging) :
    (pagingCreateNewPageDirectory p).2.pageFrameMap = p.pageFrameMap := by
  unfold pagingCreateNewPageDirectory
  split <;> rfl

theorem unusedFrames_newDirectory (p : Paging) : unusedFrames (pagingCreateNewPageDirectory p).2 = unusedFrames p := by
  rw [unusedFrames, pagingCreateNewPageDirectory_map, ← unusedFrames]

/-- The two allocations of a creation are allocations in the map as it is. -/
theorem claimMemory_allAllocated : (claimMemory p r).frame0 ≠ 0xFFFFFFFF ∧ (claimMemory p r).frame1 ≠ 0xFFFFFFFF ↔
    2 ≤ (unusedFrames p).card := by
  have h : AllAllocated (pagingCreateNewPageDirectory p).2 [((pagingCreateNewPageDirectory p).1, r.buf),
      ((pagingCreateNewPageDirectory p).1, 0xBFFFFFFC)] ↔ 2 ≤ _ := allAllocated_iff
  rw [unusedFrames_newDirectory] at h
  simpa [AllAllocated, claimMemory] using h

theorem unusedFrames_allocate_card (p : Paging) (d : DirPtr) (addr : UInt32) :
    unusedFrames (pagingAllocateUserPageFrame p d addr).2 ⊆ unusedFrames p ∧
      (unusedFrames (pagingAllocateUserPageFrame p d addr).2).card = (unusedFrames p).card - 1 := by
  rcases hf : findFreeFrame p with _ | f
  · rw [pagingAllocateUserPageFrame_none d addr hf, findFreeFrame_none.1 hf]
    simp
  · rw [unusedFrames_allocate d addr hf]
    exact ⟨Finset.erase_subset _ _, Finset.card_erase_of_mem (findFreeFrame_some.1 hf).1⟩

theorem unusedFrames_claimMemory (p : Paging) (r : ProcessRequest) :
    unusedFrames (claimMemory p r).paging ⊆ unusedFrames p ∧
      (unusedFrames (claimMemory p r).paging).card = (unusedFrames p).card - 2 := by
  obtain ⟨hs₁, hc₁⟩ := unusedFrames_allocate_card (pagingCreateNewPageDirectory p).2
    (pagingCreateNewPageDirectory p).1 r.buf
  obtain ⟨hs₂, hc₂⟩ := unusedFrames_allocate_card
    (pagingAllocateUserPageFrame (pagingCreateNewPageDirectory p).2 (pagingCreateNewPageDirectory p).1 r.buf).2
    (pagingCreateNewPageDirectory p).1 0xBFFFFFFC
  rw [unusedFrames_newDirectory] at hs₁ hc₁
  simp only [claimMemory]
  exact ⟨hs₂.trans hs₁, by omega⟩

theorem card_framesTaken (p : Paging) (r : ProcessRequest) :
    (framesTaken p (claimMemory p r).paging).card = min 2 (unusedFrames p).card := by
  obtain ⟨hsub, hcard⟩ := unusedFrames_claimMemory p r
  rw [framesTaken, Finset.card_sdiff_of_subset hsub]
  omega

end claim

theorem Exact.memoryCheck {k : Kernel} (h : Exact k.paging) (r : ProcessRequest) :
    MemoryCheckSufficient k r ↔ OneFrame k r := by
  have hneed := pageFrameCountNeeded_eq r
  constructor
  · intro hs
    have hlt := (pageFrameCountNeeded_ceil r).1 hs.needed
    refine ⟨hlt, ?_⟩
    by_cases ht : TurnedDown k r
    · exact .inl ht
    · obtain ⟨h0, h1, htaken⟩ := hs.enough ((creationCheck_eq_none hlt).2 ht)
      have htwo := (claimMemory_allAllocated r).1 ⟨h0, h1⟩
      rw [card_framesTaken] at htaken
      rw [Nat.mod_eq_of_lt hlt] at hneed
      right
      omega
  · rintro ⟨hlt, hcase⟩
    refine ⟨(pageFrameCountNeeded_ceil r).2 hlt, fun hcheck => ?_⟩
    have hpass := (creationCheck_eq_none hlt).1 hcheck
    obtain ⟨hlo, hhi⟩ := hcase.resolve_left hpass
    simp only [TurnedDown, not_or, not_lt, h.count] at hpass
    have htwo : 2 ≤ (unusedFrames k.paging).card := by omega
    obtain ⟨h0, h1⟩ := (claimMemory_allAllocated r).2 htwo
    rw [Nat.mod_eq_of_lt hlt] at hneed
    refine ⟨h0, h1, ?_⟩
    rw [card_framesTaken]
    omega

/-- **When the memory check is worth what it says**: for every state of the frame allocator that is reached and every
request, whatever else the kernel holds. -/
theorem memoryCheckSufficient_iff {k : Kernel} (h : k.paging.Reached) (r : ProcessRequest) :
    MemoryCheckSufficient k r ↔ OneFrame k r :=
  h.exact.memoryCheck r

/-- The shell is one mebibyte. -/
theorem memoryCheckSufficient_shell : MemoryCheckSufficient quietKernel shellRequest :=
  (memoryCheckSufficient_iff (bootPaging_reached _ _) shellRequest).2 ⟨by decide, .inr ⟨by decide, by decide⟩⟩

/-- An executable of five mebibytes: three frames are counted, two are taken. -/
theorem not_memoryCheckSufficient_five : quietKernel.paging.Reached ∧
    ¬ MemoryCheckSufficient quietKernel { shellRequest with bufferSize := 0x500000 } := by
  refine ⟨bootPaging_reached _ _, fun h => ?_⟩
  have hcase := ((bootPaging_reached (fun _ => zeroDirectory) fun _ => 0).exact.memoryCheck (k := quietKernel) _).1 h
  exact absurd hcase.2 (by unfold TurnedDown; decide +kernel)

end MoggersOs
