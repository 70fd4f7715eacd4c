import MoggersOs.Kernel.GiveBack
import MoggersOs.Kernel.Switching
import MoggersOs.Lib.Spaces
/-
# The address space of a process (`paging/paging.h`, `paging/paging.c`)

While no process ends, the `i`-th one has the `i`-th directory of the pool, and in it one page for its program, one for
its stack, and the kernel's (`processDirectory`). The frames behind the two are `2 * i + 1` and `2 * i + 2`, so no frame
has two addresses in user mode (`space_apart`).

| here | there |
| --- | --- |
| `Access`    | an instruction of a program, or of the kernel: CR0.WP is clear (`kernel-entrypoint.s:42-44`), so the kernel may store wherever there is a page |
| `translate` | the page of 4 MiB that `lower_address` and the flags of an entry stand for (`paging.h:37-85`); `none` is a page fault |
| `addressSpace` | the addresses of the process in a slot |

Nothing is kept of the TLB: a directory is complete before CR3 is loaded with it for the first time, and an entry of the
directory in CR3 is never changed.
-/

namespace MoggersOs

inductive Access where
  | load
  | store
  | kernel

namespace PageEntry

def Permits (e : PageEntry) : Access → Prop
  | .load => e.UserMapped
  | .store => e.UserMapped ∧ e.flag.writeBit = true
  | .kernel => e.flag.presentBit = true

instance (e : PageEntry) (x : Access) : Decidable (e.Permits x) := by
  cases x <;> unfold Permits <;> infer_instance

end PageEntry

def translate (d : PageDirectory) (x : Access) (va : UInt32) : Option ℕ :=
  let e := d (pageIndex va)
  if e.Permits x ∧ e.flag.usePagesize4Mb = true then some (e.physicalFrame * 0x400000 + va.toNat % 0x400000) else none

/-- The entry of a user frame. -/
def userEntry (f : Fin 1024) : PageEntry := { zeroPageEntry with flag := userFlag, lowerAddress := f }

/-- The page of the address 0xBFFFFFFC. -/
def stackPage : Fin 1024 := pageIndex 0xBFFFFFFC

/-- The page of the kernel. -/
def kernelPage : Fin 1024 := pageIndex kernelVirtualAddressBase

/-- A directory with the program's page, in frame `f`, the stack's, in frame `g`, and the kernel's. -/
def processDirectory (page f g : Fin 1024) : PageDirectory :=
  Function.update (Function.update (Function.update zeroDirectory kernelPage kernelEntry) page (userEntry f)) stackPage
    (userEntry g)

/-- The addresses of the process in slot `i`. -/
def addressSpace (k : Kernel) (i : Fin 16) (va : UInt32) : Option ℕ :=
  if k.processUsed i then translate (k.paging.directory (k.processList i).context.pageDirectoryVirtualAddr) .load va else none

/-! ## What the MMU makes of an address -/

section translate
variable {d : PageDirectory} {va : UInt32} {a : ℕ}

theorem translate_eq_some {x : Access} : translate d x va = some a ↔ (d (pageIndex va)).Permits x ∧
    (d (pageIndex va)).flag.usePagesize4Mb = true ∧ a = (d (pageIndex va)).physicalFrame * 0x400000 + va.toNat % 0x400000 := by
  unfold translate
  dsimp only
  split
  next h =>
    rw [Option.some.injEq]
    exact ⟨fun he => ⟨h.1, h.2, he.symm⟩, fun he => he.2.2.symm⟩
  next h => exact ⟨nofun, fun he => absurd ⟨he.1, he.2.1⟩ h⟩

/-- Where a program may store, it may load, and so may the kernel. -/
theorem translate_of_store (h : translate d .store va = some a) :
    translate d .load va = some a ∧ translate d .kernel va = some a := by
  obtain ⟨⟨hu, -⟩, hpage, ha⟩ := translate_eq_some.1 h
  exact ⟨translate_eq_some.2 ⟨hu, hpage, ha⟩, translate_eq_some.2 ⟨hu.1, hpage, ha⟩⟩

variable {page f g : Fin 1024}

theorem physicalFrame_userEntry (f : Fin 1024) : (userEntry f).physicalFrame = f := by
  simp [PageEntry.physicalFrame, userEntry, zeroPageEntry]

/-- A program's address is in its one page or in its other. -/
theorem processDirectory_load (h : translate (processDirectory page f g) .load va = some a) :
    pageIndex va = stackPage ∧ a = g.val * 0x400000 + va.toNat % 0x400000 ∨
      pageIndex va ≠ stackPage ∧ pageIndex va = page ∧ a = f.val * 0x400000 + va.toNat % 0x400000 := by
  obtain ⟨hu, -, ha⟩ := translate_eq_some.1 h
  unfold processDirectory at hu ha
  by_cases hs : pageIndex va = stackPage
  · rw [hs, Function.update_self, physicalFrame_userEntry] at ha
    exact .inl ⟨hs, ha⟩
  rw [Function.update_of_ne hs] at hu ha
  by_cases hp : pageIndex va = page
  · rw [hp, Function.update_self, physicalFrame_userEntry] at ha
    exact .inr ⟨hs, hp, ha⟩
  rw [Function.update_of_ne hp] at hu
  by_cases hk : pageIndex va = kernelPage
  · rw [hk, Function.update_self] at hu
    exact absurd hu kernelEntry_not_user
  · rw [Function.update_of_ne hk] at hu
    exact absurd hu.1 Bool.false_ne_true

/-- A program may store to both of its pages. -/
theorem processDirectory_store : (∃ a, translate (processDirectory page f g) .store va = some a) ↔
    pageIndex va = stackPage ∨ pageIndex va = page := by
  constructor
  · rintro ⟨a, ha⟩
    rcases processDirectory_load (translate_of_store ha).1 with ⟨hs, -⟩ | ⟨-, hp, -⟩
    · exact .inl hs
    · exact .inr hp
  · intro h
    have hentry : ∃ f', processDirectory page f g (pageIndex va) = userEntry f' := by
      unfold processDirectory
      by_cases hs : pageIndex va = stackPage
      · exact ⟨g, by rw [hs, Function.update_self]⟩
      · rw [Function.update_of_ne hs, h.resolve_left hs]
        exact ⟨f, Function.update_self ..⟩
    obtain ⟨f', hf'⟩ := hentry
    refine ⟨_, translate_eq_some.2 ⟨?_, ?_, rfl⟩⟩
    · rw [hf']
      exact ⟨⟨rfl, rfl⟩, rfl⟩
    · rw [hf']
      rfl

end translate

/-! ## The directories of the processes -/

/-- The `i`-th process has the `i`-th directory, and the frames `2 * i + 1` and `2 * i + 2`. -/
structure Housed (p : Paging) (n : ℕ) : Prop where
  filled : FilledTo p n (2 * n + 1)
  space  : ∀ i : Fin 32, i.val < n → ∃ page f g : Fin 1024, f.val = 2 * i.val + 1 ∧ g.val = 2 * i.val + 2 ∧
    p.pageDirectoryList i = processDirectory page f g
  empty  : ∀ i : Fin 32, n ≤ i.val → p.pageDirectoryList i = zeroDirectory

/-- An entry of which only the flags and the frame were ever set. -/
def Plain (e : PageEntry) : Prop := e = { zeroPageEntry with flag := e.flag, lowerAddress := e.lowerAddress }

theorem Plain.userEntry {e : PageEntry} (h : Plain e) (f : Fin 1024) :
    { e with flag := userFlag, lowerAddress := f } = MoggersOs.userEntry f := by
  rw [h]
  rfl

theorem FilledTo.allocate_list {p : Paging} {n m : ℕ} (h : FilledTo p n m) (hm : m < 32) (i : Fin 32) (addr : UInt32)
    (he : Plain (p.pageDirectoryList i (pageIndex addr))) :
    (pagingAllocateUserPageFrame p (.pool i) addr).2.pageDirectoryList = Function.update p.pageDirectoryList i
      (Function.update (p.pageDirectoryList i) (pageIndex addr) (userEntry ⟨m, by omega⟩)) := by
  have hfind : findFreeFrame p = some ⟨m, hm⟩ := find?_first hm h.frames
  have hframe : pageIndex (UInt32.ofNat m * 0x400000) = ⟨m, by omega⟩ := Fin.ext (pageIndex_frame ⟨m, hm⟩)
  unfold pagingAllocateUserPageFrame updatePageDirectoryEntry
  rw [hfind]
  dsimp only
  rw [hframe, ← he.userEntry]
  rfl

/-- The next process. -/
theorem Housed.claim {p : Paging} {n : ℕ} (h : Housed p n) (hn : n < 15) (r : ProcessRequest) :
    (claimMemory p r).pageDir = .pool ⟨n, by omega⟩ ∧ Housed (claimMemory p r).paging (n + 1) ∧
      (claimMemory p r).paging.pageDirectoryList = Function.update p.pageDirectoryList ⟨n, by omega⟩
        (processDirectory (pageIndex r.buf) ⟨2 * n + 1, by omega⟩ ⟨2 * n + 2, by omega⟩) := by
  obtain ⟨hdir, hfilled⟩ := h.filled.claim (by omega) (by omega) r
  have hn32 : n < 32 := by omega
  obtain ⟨hnew, hfill₁⟩ := h.filled.newDirectory hn32
  have hlist₁ : (pagingCreateNewPageDirectory p).2.pageDirectoryList = Function.update p.pageDirectoryList ⟨n, hn32⟩
      (Function.update zeroDirectory kernelPage kernelEntry) := by
    unfold pagingCreateNewPageDirectory
    rw [find?_first hn32 h.filled.dirs, ← h.empty ⟨n, hn32⟩ (Nat.le_refl n), show kernelPage = 0x300 by decide]
  have hplain₁ : ∀ j, Plain (Function.update zeroDirectory kernelPage kernelEntry j) := by
    intro j
    by_cases hj : j = kernelPage
    · rw [hj, Function.update_self]
      rfl
    · rw [Function.update_of_ne hj]
      rfl
  have hplain₂ : ∀ page f j,
      Plain (Function.update (Function.update zeroDirectory kernelPage kernelEntry) page (userEntry f) j) := by
    intro page f j
    by_cases hj : j = page
    · rw [hj, Function.update_self]
      rfl
    · rw [Function.update_of_ne hj]
      exact hplain₁ j
  have hlist₂ := hfill₁.allocate_list (show 2 * n + 1 < 32 by omega) ⟨n, hn32⟩ r.buf (by
    rw [hlist₁, Function.update_self]
    exact hplain₁ _)
  rw [hlist₁, Function.update_self, Function.update_idem] at hlist₂
  have hfill₂ := hfill₁.allocate (show 2 * n + 1 < 32 by omega) (.pool ⟨n, hn32⟩) r.buf
  have hlist₃ := hfill₂.allocate_list (show 2 * n + 1 + 1 < 32 by omega) ⟨n, hn32⟩ 0xBFFFFFFC (by
    rw [hlist₂, Function.update_self]
    exact hplain₂ _ _ _)
  rw [hlist₂, Function.update_self, Function.update_idem] at hlist₃
  have hlist : (claimMemory p r).paging.pageDirectoryList = Function.update p.pageDirectoryList ⟨n, hn32⟩
      (processDirectory (pageIndex r.buf) ⟨2 * n + 1, by omega⟩ ⟨2 * n + 2, by omega⟩) := by
    unfold claimMemory
    dsimp only
    rw [hnew]
    exact hlist₃
  refine ⟨hdir, ⟨hfilled, fun i _ => ?_, fun i hi => ?_⟩, hlist⟩
  · rw [hlist]
    by_cases hin : i = ⟨n, hn32⟩
    · subst hin
      exact ⟨_, _, _, rfl, rfl, Function.update_self ..⟩
    · have hlt : i.val < n := by
        have hne : i.val ≠ n := fun he => hin (Fin.ext he)
        omega
      rw [Function.update_of_ne hin]
      exact h.space i hlt
  · have hin : i ≠ ⟨n, hn32⟩ := by
      rintro rfl
      exact absurd hi (by simp)
    rw [hlist, Function.update_of_ne hin]
    exact h.empty i (by omega)

theorem bootPaging_housed (otherDirectory : UInt32 → PageDirectory) (afterMap : ℕ → UInt8) :
    Housed (bootPaging otherDirectory afterMap) 0 :=
  ⟨bootPaging_filled otherDirectory afterMap, fun _ hi => absurd hi (Nat.not_lt_zero _), fun _ _ => rfl⟩

/-- The slot's directory. -/
def ownDirectory (i : Fin 16) : DirPtr := .pool (i.castLE (by decide))

theorem directory_own (p : Paging) (i : Fin 16) :
    p.directory (ownDirectory i) = p.pageDirectoryList ⟨i.val, by omega⟩ := rfl

/-- The `n` processes are in the first slots, each in the directory of its number. -/
structure Lodged (k : Kernel) (m : Log) (n : ℕ) : Prop where
  logged    : Logged k m
  populated : Populated k n
  housed    : Housed k.paging n
  directory : ∀ i, k.processUsed i = true → m.directory i = ownDirectory i

theorem eq_of_pageIndex {v w : UInt32} (hpage : pageIndex v = pageIndex w)
    (hoffset : v.toNat % 0x400000 = w.toNat % 0x400000) : v = w := by
  have hdiv : v.toNat / 2 ^ 22 = w.toNat / 2 ^ 22 := congrArg Fin.val hpage
  exact UInt32.toNat_inj.1 (by omega)

namespace Lodged

variable {k k' : Kernel} {m : Log} {n : ℕ}

theorem context (h : Lodged k m n) {i : Fin 16} (hi : k.processUsed i = true) :
    (k.processList i).context.pageDirectoryVirtualAddr = ownDirectory i := by
  rw [h.logged.context i hi, (h.logged.directory i hi).1, h.directory i hi]

theorem space_eq (h : Lodged k m n) {i : Fin 16} (hi : k.processUsed i = true) : ∃ page f g : Fin 1024,
    f.val = 2 * i.val + 1 ∧ g.val = 2 * i.val + 2 ∧
    k.paging.directory (ownDirectory i) = processDirectory page f g ∧
    ∀ va, addressSpace k i va = translate (processDirectory page f g) .load va := by
  obtain ⟨page, f, g, hf, hg, he⟩ := h.housed.space (i.castLE (by decide)) ((h.populated.used i).mp hi)
  refine ⟨page, f, g, hf, hg, he, fun va => ?_⟩
  unfold addressSpace
  rw [if_pos hi, h.context hi, ← he]
  rfl

theorem used_of_space {i : Fin 16} {va : UInt32} {a : ℕ} (h : addressSpace k i va = some a) : k.processUsed i = true := by
  unfold addressSpace at h
  by_contra hi
  rw [if_neg hi] at h
  cases h

/-- **No frame has two addresses**, in one process or in two. -/
theorem space_apart (h : Lodged k m n) : Lib.Apart (addressSpace k) := by
  intro p q v w a hp hq
  obtain ⟨page, f, g, hf, hg, -, hpe⟩ := h.space_eq (used_of_space hp)
  -- the frame tells the process
  have hsame : p = q := by
    obtain ⟨page', f', g', hf', hg', -, hqe⟩ := h.space_eq (used_of_space hq)
    rw [hpe] at hp
    rw [hqe] at hq
    refine Fin.ext ?_
    rcases processDirectory_load hp with ⟨-, ha⟩ | ⟨-, -, ha⟩ <;>
      rcases processDirectory_load hq with ⟨-, ha'⟩ | ⟨-, -, ha'⟩ <;> omega
  subst hsame
  refine ⟨rfl, ?_⟩
  rw [hpe] at hp hq
  -- and the page, and the rest of the cell the place in it
  rcases processDirectory_load hp with ⟨hv, ha⟩ | ⟨-, hv, ha⟩ <;>
    rcases processDirectory_load hq with ⟨hw, ha'⟩ | ⟨-, hw, ha'⟩
  · exact eq_of_pageIndex (hv.trans hw.symm) (by omega)
  · omega
  · omega
  · exact eq_of_pageIndex (hv.trans hw.symm) (by omega)

/-- A new process gets the next slot, and an address space of its own; the others keep theirs. -/
theorem create {r : ProcessRequest} (h : Lodged k m n) (h1 : 1 ≤ r.bufferSize) (h2 : r.bufferSize ≤ 0x400000)
    (hr : processCreateUserProcess k r 0 = (0, k')) : Lodged k' (m.observe k (.create r)) (n + 1) ∧
      ∃ i : Fin 16, i.val = n ∧ processListGetInactiveIndex k = some i ∧
        (claimMemory k.paging r).pageDir = ownDirectory i ∧
        (∃ f g, k'.paging.directory (ownDirectory i) = processDirectory (pageIndex r.buf) f g) ∧
        ∀ q, q ≠ i → ∀ va, addressSpace k' q va = addressSpace k q va := by
  obtain ⟨hcheck, hpop, i, j, hi, hslot, -⟩ := h.populated.create h1 h2 hr
  have hn : n < 15 := by
    have hfree := hpop.paging.free
    omega
  obtain ⟨hdir, hhoused, hlist⟩ := h.housed.claim hn r
  obtain ⟨hlogged, -, -, hkeep⟩ := h.logged.create h1 h2 hr
  have hdoes := processCreateUserProcess_does hcheck 0
  rw [hr] at hdoes
  have hown : (claimMemory k.paging r).pageDir = ownDirectory i := by
    rw [hdir]
    exact congrArg DirPtr.pool (Fin.ext hi.symm)
  have hobs : (m.observe k (.create r)).directory i = ownDirectory i := by
    rw [← hown]
    unfold Log.observe
    rw [hslot]
    exact Function.update_self ..
  have hcases : ∀ q, q ≠ i → k'.processUsed q = k.processUsed q := by
    intro q hq
    rw [hdoes.used q, hslot]
    simp [Ne.symm hq]
  refine ⟨⟨hlogged, hpop, by rw [hdoes.paging]; exact hhoused, fun q hq => ?_⟩, i, hi, hslot, hown, ?_, fun q hq va => ?_⟩
  · by_cases hqi : q = i
    · rw [hqi, hobs]
    · rw [hcases q hqi] at hq
      rw [hkeep q hq, h.directory q hq]
  · refine ⟨⟨2 * n + 1, by omega⟩, ⟨2 * n + 2, by omega⟩, ?_⟩
    rw [hdoes.paging]
    have he := congrFun hlist ⟨n, by omega⟩
    rw [Function.update_self] at he
    simp only [directory_own, hi, he]
  · unfold addressSpace
    rw [hcases q hq, hdoes.process q fun hs => hq (Option.some.inj (hslot.symm.trans hs)).symm]
    by_cases hu : k.processUsed q = true
    · rw [if_pos hu, if_pos hu, h.context hu, hdoes.paging]
      have hne : (⟨q.val, by omega⟩ : Fin 32) ≠ ⟨n, by omega⟩ := by
        intro he
        have hqn : q.val = n := Fin.val_eq_of_eq he
        exact hq (Fin.ext (by omega))
      have he := congrFun hlist ⟨q.val, by omega⟩
      rw [Function.update_of_ne hne] at he
      rw [directory_own, directory_own, he]
    · rw [if_neg hu, if_neg hu]

/-- What keeps the tables changes no address space. -/
theorem kept {m' : Log} (h : Lodged k m n) (hlogged : Logged k' m') (hkept : Kept k k')
    (hdir : m'.directory = m.directory) : Lodged k' m' n ∧ addressSpace k' = addressSpace k := by
  obtain ⟨n', hpop⟩ := hlogged.populated
  have hn : n' = n := by
    have hfree := hpop.paging.free
    have hfree' := h.populated.paging.free
    rw [hkept.paging] at hfree
    omega
  subst hn
  have hlodged : Lodged k' m' n' := by
    refine ⟨hlogged, hpop, by rw [hkept.paging]; exact h.housed, fun i hi => ?_⟩
    rw [hkept.used] at hi
    rw [hdir]
    exact h.directory i hi
  refine ⟨hlodged, funext fun i => funext fun va => ?_⟩
  unfold addressSpace
  rw [hkept.used, hkept.paging]
  by_cases hi : k.processUsed i = true
  · rw [if_pos hi, if_pos hi, h.context hi, hlodged.context (by rw [hkept.used]; exact hi)]
  · rw [if_neg hi, if_neg hi]

theorem tick {fuel : ℕ} {frame : InterruptFrame} (h : Lodged k m n) (htr : Tracked k m) (ht : timerIsr fuel k frame = some k') :
    Lodged k' (m.observe k (.tick frame)) n ∧ addressSpace k' = addressSpace k :=
  h.kept (htr.tick ht).logged (Kept.tick ht) rfl

end Lodged

section boot
variable (otherDirectory : UInt32 → PageDirectory) (afterMap : ℕ → UInt8) (afterList : ℕ → Pcb) (afterUsed : ℕ → UInt8)

theorem bootKernel_lodged : Lodged (bootKernel otherDirectory afterMap afterList afterUsed) Log.empty 0 :=
  ⟨⟨⟨0, bootKernel_populated otherDirectory afterMap afterList afterUsed⟩, fun _ hi => Bool.noConfusion hi,
    fun _ hi => Bool.noConfusion hi⟩, bootKernel_populated .., bootPaging_housed .., fun _ hi => Bool.noConfusion hi⟩

/-- After the first switch the shell is the only process. -/
theorem kernelSetup_lodged {k : Kernel} (h : kernelSetup (bootKernel otherDirectory afterMap afterList afterUsed) = some k) :
    Lodged k (bootLog otherDirectory afterMap afterList afterUsed) 1 ∧ addressSpace k =
      addressSpace (processCreateUserProcess (bootKernel otherDirectory afterMap afterList afterUsed) shellRequest 0).2 := by
  have hdoes := processCreateUserProcess_does (creationCheck_shell otherDirectory afterMap afterList afterUsed) 0
  obtain ⟨hcreated, -⟩ := (bootKernel_lodged otherDirectory afterMap afterList afterUsed).create (r := shellRequest)
    (by decide) (by decide) (Prod.ext hdoes.code rfl)
  exact hcreated.kept (kernelSetup_tracked otherDirectory afterMap afterList afterUsed h).logged (Kept.switch h) rfl

end boot

end MoggersOs
