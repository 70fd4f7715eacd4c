import MoggersOs.Kernel.Frames
import MoggersOs.Kernel.GiveBack
/-
# The pool of page directories (`paging/paging.c:138-204`)

`page_directory_used` is what the code knows about the pool. `PoolState.out` is kept beside it and only from
what the callers see: the pointers that `paging_create_new_page_directory` returned and that were not freed
since. `paging_create_new_page_directory` clears nothing: that a directory is clean when it is handed out
again is due to `paging_free_page_directory`, and to nobody writing into one that waits in the pool
(`Pooled`).

| here | there |
| --- | --- |
| `PoolState`, `PoolState.after` | the paging state, and the directories handed out |
| `PoolState.Permits`            | the directories that `paging_allocate_user_page_frame` and `paging_free_user_page_frame` are called with: handed out, or the kernel's (`kernel.c:31`) |
-/

namespace MoggersOs

structure PoolState where
  paging : Paging
  out    : Finset (Fin 32)

namespace PoolState

/-- Handed out, or the kernel's own. -/
def Writes (s : PoolState) (d : DirPtr) : Prop := d = .kernel ∨ ∃ i ∈ s.out, d = .pool i

def Permits (s : PoolState) : PagingCall → Prop
  | .allocate d _ => s.Writes d
  | .free _ d _ => s.Writes d
  | .createNewPageDirectory => True
  | .freePageDirectory _ => True

/-- A pointer comes out of the pool when it is returned and goes back when it is freed. -/
def outAfter (s : PoolState) : PagingCall → Finset (Fin 32)
  | .createNewPageDirectory =>
    match (pagingCreateNewPageDirectory s.paging).1 with
    | .pool i => insert i s.out
    | _ => s.out
  | .freePageDirectory (.pool i) => s.out.erase i
  | _ => s.out

def after (s : PoolState) (c : PagingCall) : PoolState := ⟨c.exec s.paging, s.outAfter c⟩

def Step (s : PoolState) (c : PagingCall) (s' : PoolState) : Prop := s.Permits c ∧ s' = s.after c

/-- The statics, with nothing handed out. -/
def initial (otherDirectory : UInt32 → PageDirectory) (afterMap : Nat → UInt8) : PoolState :=
  ⟨initialPaging otherDirectory afterMap, ∅⟩

end PoolState

/-- The flags are right, and what waits in the pool is all zero. -/
structure Pooled (s : PoolState) : Prop where
  used  : ∀ i, s.paging.pageDirectoryUsed i = true ↔ i ∈ s.out
  clean : ∀ i, i ∉ s.out → s.paging.pageDirectoryList i = zeroDirectory

/-- Two pointers of different directories. -/
theorem PoolState.Writes.ne {s : PoolState} {d : DirPtr} (h : s.Writes d) {i : Fin 32} (hi : i ∉ s.out) : d ≠ .pool i := by
  rintro rfl
  obtain he | ⟨j, hj, he⟩ := h
  · cases he
  · cases he
    exact hi hj

namespace Pooled

variable {s : PoolState}

theorem initial (otherDirectory : UInt32 → PageDirectory) (afterMap : Nat → UInt8) :
    Pooled (.initial otherDirectory afterMap) := by
  constructor
  · intro i
    simp [PoolState.initial, initialPaging]
  · intro i _
    rfl

/-- A call that leaves the flags alone and writes into directories handed out. -/
theorem keep (h : Pooled s) {p : Paging} (hused : p.pageDirectoryUsed = s.paging.pageDirectoryUsed)
    (hlist : ∀ i, i ∉ s.out → p.pageDirectoryList i = s.paging.pageDirectoryList i) : Pooled ⟨p, s.out⟩ := by
  constructor
  · intro i
    simp only [hused, h.used i]
  · intro i hi
    simp only [hlist i hi, h.clean i hi]

theorem createNewPageDirectory (h : Pooled s) : Pooled (s.after .createNewPageDirectory) := by
  unfold PoolState.after PoolState.outAfter PagingCall.exec
  obtain he | ⟨d, q, -, he, hused, hlist, -⟩ := pagingCreateNewPageDirectory_cases s.paging
  · rw [he]
    exact h
  · rw [he]
    constructor
    · intro i
      simp only [hused, Finset.mem_insert]
      by_cases hi : i = d
      · simp [hi]
      · simp [hi, h.used i]
    · intro i hi
      obtain ⟨hid, hi⟩ := not_or.mp (Finset.mem_insert.not.mp hi)
      simp only [hlist, Function.update_of_ne hid, h.clean i hi]

theorem freePageDirectory (h : Pooled s) (d : DirPtr) : Pooled (s.after (.freePageDirectory d)) := by
  unfold PoolState.after PoolState.outAfter PagingCall.exec pagingFreePageDirectory
  cases d with
  | kernel => exact h
  | other addr => exact h
  | pool i₀ =>
    constructor
    · intro i
      simp only [Finset.mem_erase]
      by_cases hi : i = i₀
      · simp [hi]
      · simp [hi, h.used i]
    · intro i hi
      by_cases hid : i = i₀
      · simp [hid]
      · have hout : i ∉ s.out := fun hmem => hi (Finset.mem_erase.mpr ⟨hid, hmem⟩)
        simp only [Function.update_of_ne hid, h.clean i hout]

theorem step {c : PagingCall} {s' : PoolState} (h : Pooled s) (hs : s.Step c s') : Pooled s' := by
  obtain ⟨hp, rfl⟩ := hs
  cases c with
  | allocate d addr =>
    have hd : s.Writes d := hp
    exact h.keep (pagingAllocateUserPageFrame_used ..) fun i hi => pagingAllocateUserPageFrame_list _ _ (hd.ne hi)
  | free garbage d addr =>
    have hd : s.Writes d := hp
    exact h.keep (pagingFreeUserPageFrame_used ..) fun i hi => pagingFreeUserPageFrame_list _ _ _ (hd.ne hi)
  | createNewPageDirectory => exact h.createNewPageDirectory
  | freePageDirectory d => exact h.freePageDirectory d

end Pooled

/-- **The pool hands out clean, unshared directories**: after any calls from the statics, a new directory is none
of those handed out, there is none exactly when all are, and it maps the kernel and nothing else. -/
theorem directory_pool {otherDirectory : UInt32 → PageDirectory} {afterMap : Nat → UInt8} {calls : List PagingCall}
    {s : PoolState} (h : Lib.Path PoolState.Step (.initial otherDirectory afterMap) calls s) :
    ((pagingCreateNewPageDirectory s.paging).1 = .null ↔ s.out = Finset.univ) ∧
    ((pagingCreateNewPageDirectory s.paging).1 ≠ .null → ∃ i, i ∉ s.out ∧
      (pagingCreateNewPageDirectory s.paging).1 = .pool i ∧
      (pagingCreateNewPageDirectory s.paging).2.pageDirectoryList i 0x300 = kernelEntry ∧
      ∀ j, j ≠ 0x300 → (pagingCreateNewPageDirectory s.paging).2.pageDirectoryList i j = zeroPageEntry) := by
  have hpool : Pooled s := h.invariant (fun _ _ _ hp hs => Pooled.step hp hs) (.initial otherDirectory afterMap)
  cases hfind : Fin.find? fun i => !s.paging.pageDirectoryUsed i with
  | none =>
    have hall : ∀ i, i ∈ s.out := by
      intro i
      have hi := Fin.find?_eq_none_iff.mp hfind i
      rw [← hpool.used i]
      simpa using hi
    have hnull : pagingCreateNewPageDirectory s.paging = (.null, s.paging) := by
      unfold pagingCreateNewPageDirectory
      rw [hfind]
    rw [hnull]
    exact ⟨⟨fun _ => Finset.eq_univ_of_forall hall, fun _ => rfl⟩, fun hn => absurd rfl hn⟩
  | some i =>
    have hi : i ∉ s.out := by
      have hidle : (!s.paging.pageDirectoryUsed i) = true := (Fin.find?_eq_some_iff.mp hfind).1
      rw [← hpool.used i]
      simpa using hidle
    have hcode : (pagingCreateNewPageDirectory s.paging).1 = .pool i := by
      unfold pagingCreateNewPageDirectory
      rw [hfind]
    have htable : (pagingCreateNewPageDirectory s.paging).2.pageDirectoryList i =
        Function.update zeroDirectory 0x300 kernelEntry := by
      unfold pagingCreateNewPageDirectory
      rw [hfind, ← hpool.clean i hi]
      exact Function.update_self ..
    refine ⟨⟨fun hn => ?_, fun hall => ?_⟩, fun _ => ⟨i, hi, hcode, ?_, fun j hj => ?_⟩⟩
    · rw [hcode] at hn
      cases hn
    · rw [hall] at hi
      exact absurd (Finset.mem_univ i) hi
    · rw [htable, Function.update_self]
    · rw [htable, Function.update_of_ne hj]
      rfl

section
attribute [local instance] frames_neZero

/-- The first directory was handed out, a frame was mapped in it, and it was freed. -/
def reusedPool : PoolState :=
  (((PoolState.initial (fun _ => zeroDirectory) fun _ => 0).after .createNewPageDirectory).after
    (.allocate (.pool 0) 0)).after (.freePageDirectory (.pool 0))

end

/-- It comes back without the frame. -/
theorem directory_pool_reused : ∃ i, i ∉ reusedPool.out ∧
    (pagingCreateNewPageDirectory reusedPool.paging).1 = .pool i ∧
    (pagingCreateNewPageDirectory reusedPool.paging).2.pageDirectoryList i 0x300 = kernelEntry ∧
    ∀ j, j ≠ 0x300 → (pagingCreateNewPageDirectory reusedPool.paging).2.pageDirectoryList i j = zeroPageEntry := by
  have hpath : Lib.Path PoolState.Step (.initial (fun _ => zeroDirectory) fun _ => 0)
      [.createNewPageDirectory, .allocate (.pool 0) 0, .freePageDirectory (.pool 0)] reusedPool :=
    .cons ⟨trivial, rfl⟩ (.cons ⟨.inr ⟨0, by decide +kernel, rfl⟩, rfl⟩ (.cons ⟨trivial, rfl⟩ .nil))
  exact (directory_pool hpath).2 (by decide +kernel)

end MoggersOs
