import MoggersOs.Kernel.Paging
/-
# Processes (`process/process.c`)

| here | there |
| --- | --- |
| `CpuRegister`, `Context`, `Pcb`      | `struct CPURegister` (`interrupt.h:74-95`), `struct Context`, `struct ProcessControlBlock` (`process.h:57-95`) |
| `Kernel`                             | `_process_list`, `process_manager_state`, CR3, the scheduler's two indices and the paging state |
| `ProcessRequest`                     | what `process_create_user_process` itself uses of a `struct FAT32DriverRequest` |
| `processListGetInactiveIndex`, `processGenerateNewPid`, `ceilDiv` | `process.c:132-149` |
| `processCreateUserProcess`           | `process.c:23-105`; `readCode` is what `read(request)` returns |
| `processDestroy`                     | `process.c:107-130` |
| `processGetCurrentRunningPcbPointer` | `process.c:11-19` |

`read` copies the executable into the new address space and changes none of this. If no slot is free the
index is `-1` and the stores through it go to memory before the tables, which nothing here reads; so
they are dropped. A subscript past the tables reaches `afterList` and, past `_process_used`, the bytes of
`active_process_count` (subscripts 16 to 19) and `afterUsed`. A word that is no `PROCESS_STATE` counts as
`terminated`.
-/

namespace MoggersOs

structure CpuRegister where
  edi : UInt32
  esi : UInt32
  ebp : UInt32
  esp : UInt32
  ebx : UInt32
  edx : UInt32
  ecx : UInt32
  eax : UInt32
  gs  : UInt32
  fs  : UInt32
  es  : UInt32
  ds  : UInt32
deriving DecidableEq

structure Context where
  cpu    : CpuRegister
  eip    : UInt32
  cs     : UInt32
  eflags : UInt32
  esp    : UInt32
  ss     : UInt32
  pageDirectoryVirtualAddr : DirPtr
deriving DecidableEq

inductive ProcessState where
  | ready
  | running
  | terminated
deriving DecidableEq

structure Pcb where
  pid                : UInt32
  state              : ProcessState
  name               : Fin 10 → UInt8
  context            : Context
  virtualAddrUsed    : Fin 8 → UInt32
  pageFrameUsedCount : UInt32

/-- `memset(.., 0x0, sizeof(struct ProcessControlBlock))`. -/
def zeroPcb : Pcb :=
  ⟨0, .ready, fun _ => 0, ⟨⟨0, 0, 0, 0, 0, 0, 0, 0, 0, 0, 0, 0⟩, 0, 0, 0, 0, 0, .null⟩, fun _ => 0, 0⟩

structure Kernel where
  paging             : Paging
  processList        : Fin 16 → Pcb
  processUsed        : Fin 16 → Bool
  activeProcessCount : UInt32
  cr3                : DirPtr
  currentProcessIdx  : Nat
  nextProcessIdx     : Nat
  /-- The memory after `_process_list`, by its subscript there. -/
  afterList          : Nat → Pcb
  /-- The bytes after `process_manager_state`, by their subscript in `_process_used`. -/
  afterUsed          : Nat → UInt8

namespace Kernel

/-- `_process_list[n]`. -/
def process (k : Kernel) (n : Nat) : Pcb := if h : n < 16 then k.processList ⟨n, h⟩ else k.afterList n

/-- A store to `_process_list[n]`. -/
def setProcess (k : Kernel) (n : Nat) (b : Pcb) : Kernel :=
  if h : n < 16 then { k with processList := Function.update k.processList ⟨n, h⟩ b }
  else { k with afterList := Function.update k.afterList n b }

/-- `process_manager_state._process_used[n]`. -/
def used (k : Kernel) (n : Nat) : Bool :=
  if h : n < 16 then k.processUsed ⟨n, h⟩
  else if n < 20 then Lib.leByte k.activeProcessCount.toNat (n - 16) != 0
  else k.afterUsed n != 0

end Kernel

def processGetCurrentRunningPcbPointer (k : Kernel) : Option (Fin 16) :=
  Fin.find? fun i => k.processUsed i && (k.processList i).state == .running

/-- `none` is `-1`. -/
def processListGetInactiveIndex (k : Kernel) : Option (Fin 16) := Fin.find? fun i => !k.processUsed i

def processGenerateNewPid (k : Kernel) : UInt32 :=
  match processListGetInactiveIndex k with
  | none => 0xFFFFFFFF
  | some i => UInt32.ofNat i

def ceilDiv (a b : UInt32) : UInt32 := a / b + if a % b ≠ 0 then 1 else 0

/-! ## `process_create_user_process` -/

structure ProcessRequest where
  /-- The address, not the memory there. -/
  buf        : UInt32
  name       : Fin 8 → UInt8
  bufferSize : UInt32

/-- `page_frame_count_needed`, in 32 bits (`process.c:37`). -/
def pageFrameCountNeeded (r : ProcessRequest) : UInt32 := ceilDiv (r.bufferSize + 0x400000) 0x400000

/-- The three checks (`process.c:25-41`) and the code each returns. -/
def creationCheck (k : Kernel) (r : ProcessRequest) : Option Int :=
  if 16 ≤ k.activeProcessCount then some 1
  else if kernelVirtualAddressBase ≤ r.buf then some 2
  else if !pagingAllocateCheck k.paging (pageFrameCountNeeded r) || decide (8 < pageFrameCountNeeded r) then some 3
  else none

/-- A store through `new_pcb`, which is no slot of the table if the index is `-1`. -/
def Kernel.modifySlot (k : Kernel) (slot : Option (Fin 16)) (f : Pcb → Pcb) : Kernel :=
  match slot with
  | none => k
  | some i => { k with processList := Function.update k.processList i (f (k.processList i)) }

/-- `_process_used[p_index] = true`. -/
def Kernel.markUsed (k : Kernel) (slot : Option (Fin 16)) : Kernel :=
  match slot with
  | none => k
  | some i => { k with processUsed := Function.update k.processUsed i true }

namespace Kernel

variable (k : Kernel) (slot : Option (Fin 16)) (f : Pcb → Pcb)

@[simp] theorem modifySlot_paging : (k.modifySlot slot f).paging = k.paging := by cases slot <;> rfl
@[simp] theorem modifySlot_count : (k.modifySlot slot f).activeProcessCount = k.activeProcessCount := by
  cases slot <;> rfl
@[simp] theorem modifySlot_used : (k.modifySlot slot f).processUsed = k.processUsed := by cases slot <;> rfl
@[simp] theorem modifySlot_current : (k.modifySlot slot f).currentProcessIdx = k.currentProcessIdx := by
  cases slot <;> rfl
@[simp] theorem modifySlot_next : (k.modifySlot slot f).nextProcessIdx = k.nextProcessIdx := by cases slot <;> rfl
@[simp] theorem modifySlot_some (i : Fin 16) : (k.modifySlot (some i) f).processList i = f (k.processList i) := by
  simp [modifySlot]

@[simp] theorem modifySlot_of_ne {slot : Option (Fin 16)} {i : Fin 16} (h : slot ≠ some i) :
    (k.modifySlot slot f).processList i = k.processList i := by
  cases slot with
  | none => rfl
  | some j =>
    have hj : i ≠ j := fun he => h (congrArg some he.symm)
    simp [modifySlot, hj]

@[simp] theorem markUsed_paging : (k.markUsed slot).paging = k.paging := by cases slot <;> rfl
@[simp] theorem markUsed_count : (k.markUsed slot).activeProcessCount = k.activeProcessCount := by cases slot <;> rfl
@[simp] theorem markUsed_list : (k.markUsed slot).processList = k.processList := by cases slot <;> rfl
@[simp] theorem markUsed_current : (k.markUsed slot).currentProcessIdx = k.currentProcessIdx := by cases slot <;> rfl
@[simp] theorem markUsed_next : (k.markUsed slot).nextProcessIdx = k.nextProcessIdx := by cases slot <;> rfl

@[simp] theorem markUsed_used (i : Fin 16) :
    (k.markUsed slot).processUsed i = (k.processUsed i || slot == some i) := by
  cases slot with
  | none => simp [markUsed]
  | some j =>
    by_cases hj : i = j
    · simp [markUsed, hj]
    · simp [markUsed, hj, Ne.symm hj]

end Kernel

/-- The PCB up to the call of `read` (`process.c:47-58`). -/
def claimPcb (r : ProcessRequest) (pid frame0 frame1 : UInt32) (b : Pcb) : Pcb :=
  { b with
    name := fun i => if h : i.val < 8 then r.name ⟨i, h⟩ else b.name i
    pid := pid
    state := .ready
    virtualAddrUsed := Function.update (Function.update b.virtualAddrUsed 0 (frame0 + kernelVirtualAddressBase)) 1
      (frame1 + kernelVirtualAddressBase)
    pageFrameUsedCount := 2 }

/-- The PCB after it (`process.c:83-101`). -/
def startPcb (r : ProcessRequest) (newPd : DirPtr) (b : Pcb) : Pcb :=
  { b with
    state := .ready
    context :=
      { cpu := { b.context.cpu with ds := 0x23, es := 0x23, fs := 0x23, gs := 0x23, ebp := 0xBFFFFFFC, esp := 0xBFFFFFFC }
        eip := r.buf
        cs := 0x1B
        eflags := b.context.eflags ||| (0x2 ||| 0x200)
        esp := 0xBFFFFFFC
        ss := 0x23
        pageDirectoryVirtualAddr := newPd } }

/-- The directory and the two frames of a new process (`process.c:53-57`). -/
structure Claim where
  pageDir : DirPtr
  frame0  : UInt32
  frame1  : UInt32
  paging  : Paging

def claimMemory (p : Paging) (r : ProcessRequest) : Claim :=
  let d := pagingCreateNewPageDirectory p
  let a := pagingAllocateUserPageFrame d.2 d.1 r.buf
  let b := pagingAllocateUserPageFrame a.2 d.1 0xBFFFFFFC
  ⟨d.1, a.1, b.1, b.2⟩

def processCreateUserProcess (k : Kernel) (r : ProcessRequest) (readCode : Int) : Int × Kernel :=
  match creationCheck k r with
  | some retcode => (retcode, k)
  | none =>
    let slot := processListGetInactiveIndex k
    let currentPd := k.cr3
    let m := claimMemory k.paging r
    let k := k.modifySlot slot (claimPcb r (processGenerateNewPid k) m.frame0 m.frame1)
    let k := k.markUsed slot
    let k := { k with
      paging := m.paging
      activeProcessCount := k.activeProcessCount + 1
      cr3 := pagingUsePageDirectory m.pageDir }
    if readCode ≠ 0 then (4, k)
    else
      let k := { k with cr3 := pagingUsePageDirectory currentPd }
      (0, k.modifySlot slot (startPcb r m.pageDir))

/-! ## `process_destroy` -/

/-- The frees of `process_destroy` (`process.c:115-118`); `garbage` are the uninitialised flags. -/
def freeFrames (garbage : Fin 8 → PageFlag) (p : Paging) (b : Pcb) : Paging :=
  (List.finRange 8).foldl (fun p j =>
    (pagingFreeUserPageFrame (garbage j) p b.context.pageDirectoryVirtualAddr (b.virtualAddrUsed j)).2) p

/-- The slot that `process_destroy(pid)` matches, used or not. -/
def matchPid (k : Kernel) (pid : UInt32) : Option (Fin 16) := Fin.find? fun i => (k.processList i).pid == pid

/-- The slot found is cleared, the memory of `_process_list[pid]` is freed. -/
def processDestroy (garbage : Fin 8 → PageFlag) (k : Kernel) (pid : UInt32) : Bool × Kernel :=
  match matchPid k pid with
  | none => (false, k)
  | some i =>
    let b := k.process pid.toNat
    let p := freeFrames garbage k.paging b
    let p := (pagingFreePageDirectory p b.context.pageDirectoryVirtualAddr).2
    (true, { k with
      activeProcessCount := k.activeProcessCount - 1
      processUsed := Function.update k.processUsed i false
      paging := p
      processList := Function.update k.processList i zeroPcb })

/-! ## Boot -/

/-- The statics, with CR3 on the kernel's directory (`kernel-entrypoint.s:33-34`) and frame 0 given to it
(`kernel.c:31`). -/
def bootKernel (otherDirectory : UInt32 → PageDirectory) (afterMap : Nat → UInt8) (afterList : Nat → Pcb)
    (afterUsed : Nat → UInt8) : Kernel where
  paging := bootPaging otherDirectory afterMap
  processList := fun _ => zeroPcb
  processUsed := fun _ => false
  activeProcessCount := 0
  cr3 := .kernel
  currentProcessIdx := 0
  nextProcessIdx := 0
  afterList := afterList
  afterUsed := afterUsed

/-- The kernel after boot, with zeros in the memory around its tables. -/
def quietKernel : Kernel := bootKernel (fun _ => zeroDirectory) (fun _ => 0) (fun _ => zeroPcb) (fun _ => 0)

/-- `request1` of `kernel_setup`, the shell (`kernel.c:33-39`). -/
def shellRequest : ProcessRequest where
  buf := 0
  name := fun i => ['s', 'h', 'e', 'l', 'l'].map Char.toUInt8 |>.getD i 0
  bufferSize := 0x100000

/-! ## Calls -/

/-- A call of `process_create_user_process` or `process_destroy`. -/
inductive ProcessCall where
  | create (r : ProcessRequest) (readCode : Int)
  | destroy (garbage : Fin 8 → PageFlag) (pid : UInt32)

/-- The kernel after the call. -/
def ProcessCall.exec (k : Kernel) : ProcessCall → Kernel
  | .create r readCode => (processCreateUserProcess k r readCode).2
  | .destroy garbage pid => (processDestroy garbage k pid).2

@[simp] theorem ProcessCall.exec_create (k : Kernel) (r : ProcessRequest) (readCode : Int) :
    ProcessCall.exec k (.create r readCode) = (processCreateUserProcess k r readCode).2 := rfl

@[simp] theorem ProcessCall.exec_destroy (k : Kernel) (garbage : Fin 8 → PageFlag) (pid : UInt32) :
    ProcessCall.exec k (.destroy garbage pid) = (processDestroy garbage k pid).2 := rfl

/-! ## What the calls do -/

/-- There are slots (`PROCESS_COUNT_MAX`), so `0` is one; the definitions that name it share this proof. -/
theorem slots_neZero : @NeZero Nat Zero.ofOfNat0 16 := ⟨by decide⟩

/-- The same of the frames and the directories. -/
theorem frames_neZero : @NeZero Nat Zero.ofOfNat0 32 := ⟨by decide⟩

/-- The number of a frame or a slot fits into 32 bits. -/
theorem toNat_ofNat_fin {n : Nat} (hn : n ≤ 2 ^ 32) (i : Fin n) : (UInt32.ofNat i).toNat = i :=
  UInt32.toNat_ofNat_of_lt' (Nat.lt_of_lt_of_le i.isLt hn)

theorem processListGetInactiveIndex_unused {k : Kernel} {i : Fin 16} (h : processListGetInactiveIndex k = some i) :
    k.processUsed i = false := by
  have hi : (!k.processUsed i) = true := (Fin.find?_eq_some_iff.mp h).1
  simpa using hi

/-- A slot in use is not the one that a creation claims. -/
theorem processListGetInactiveIndex_ne {k : Kernel} {i : Fin 16} (h : k.processUsed i = true) :
    processListGetInactiveIndex k ≠ some i := by
  intro hs
  rw [processListGetInactiveIndex_unused hs] at h
  cases h

/-- The three checks, passed. -/
theorem creationCheck_passes {k : Kernel} {r : ProcessRequest} : creationCheck k r = none ↔
    k.activeProcessCount < 16 ∧ r.buf < kernelVirtualAddressBase ∧
      pagingAllocateCheck k.paging (pageFrameCountNeeded r) = true ∧ pageFrameCountNeeded r ≤ 8 := by
  unfold creationCheck
  by_cases hcount : 16 ≤ k.activeProcessCount
  · simp [hcount, UInt32.not_lt.2 hcount]
  · by_cases hbuf : kernelVirtualAddressBase ≤ r.buf
    · simp [hcount, hbuf, UInt32.not_lt.2 hbuf]
    · simp [hcount, hbuf, UInt32.not_le.1 hcount, UInt32.not_le.1 hbuf]

theorem creationCheck_ne_zero (k : Kernel) (r : ProcessRequest) : creationCheck k r ≠ some 0 := by
  unfold creationCheck
  split
  · simp
  · split
    · simp
    · split
      · simp
      · simp

theorem processCreateUserProcess_refused {k : Kernel} {r : ProcessRequest} {retcode : Int}
    (h : creationCheck k r = some retcode) (readCode : Int) :
    processCreateUserProcess k r readCode = (retcode, k) := by
  unfold processCreateUserProcess
  rw [h]

/-- None of the checks has the code of a success. -/
theorem processCreateUserProcess_passes {k k' : Kernel} {r : ProcessRequest} {readCode : Int}
    (h : processCreateUserProcess k r readCode = (0, k')) : creationCheck k r = none := by
  rcases hcheck : creationCheck k r with _ | retcode
  · rfl
  · rw [processCreateUserProcess_refused hcheck] at h
    exact absurd ((Prod.mk.inj h).1 ▸ hcheck) (creationCheck_ne_zero k r)

/-- A creation that passes the checks, slot by slot. -/
structure Creation (k : Kernel) (r : ProcessRequest) (readCode : Int) (retcode : Int) (k' : Kernel) : Prop where
  code    : retcode = if readCode = 0 then 0 else 4
  paging  : k'.paging = (claimMemory k.paging r).paging
  count   : k'.activeProcessCount = k.activeProcessCount + 1
  used    : ∀ i, k'.processUsed i = (k.processUsed i || processListGetInactiveIndex k == some i)
  state   : ∀ i, processListGetInactiveIndex k = some i → (k'.processList i).state = .ready
  process : ∀ i, processListGetInactiveIndex k ≠ some i → k'.processList i = k.processList i
  current : k'.currentProcessIdx = k.currentProcessIdx
  next    : k'.nextProcessIdx = k.nextProcessIdx

theorem processCreateUserProcess_does {k : Kernel} {r : ProcessRequest} (h : creationCheck k r = none)
    (readCode : Int) : Creation k r readCode (processCreateUserProcess k r readCode).1
      (processCreateUserProcess k r readCode).2 := by
  unfold processCreateUserProcess
  rw [h]
  dsimp only
  by_cases hc : readCode = 0
  · rw [if_neg (not_not_intro hc)]
    constructor
    · rw [if_pos hc]
    · simp
    · simp
    · simp
    · intro i hi
      simp [hi, startPcb]
    · intro i hi
      simp [hi]
    · simp
    · simp
  · rw [if_pos hc]
    constructor
    · rw [if_neg hc]
    · simp
    · simp
    · simp
    · intro i hi
      simp [hi, claimPcb]
    · intro i hi
      simp [hi]
    · simp
    · simp

theorem processDestroy_none {k : Kernel} {pid : UInt32} (h : matchPid k pid = none) (garbage : Fin 8 → PageFlag) :
    processDestroy garbage k pid = (false, k) := by
  unfold processDestroy
  rw [h]

theorem processDestroy_some {k : Kernel} {pid : UInt32} {i : Fin 16} (h : matchPid k pid = some i)
    (garbage : Fin 8 → PageFlag) :
    processDestroy garbage k pid = (true, { k with
      activeProcessCount := k.activeProcessCount - 1
      processUsed := Function.update k.processUsed i false
      paging := (pagingFreePageDirectory (freeFrames garbage k.paging (k.process pid.toNat))
        (k.process pid.toNat).context.pageDirectoryVirtualAddr).2
      processList := Function.update k.processList i zeroPcb }) := by
  unfold processDestroy
  rw [h]

end MoggersOs
