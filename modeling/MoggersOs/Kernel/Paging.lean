import Mathlib.Data.Fintype.Pi
import Mathlib.Logic.Function.Basic
import MoggersOs.Lib.Bytes
/-
# Page frames and page directories (`paging/paging.c`)

| here | there |
| --- | --- |
| `PageFlag`, `PageEntry`, `PageDirectory` | `struct PageDirectoryEntryFlag`, `PageDirectoryEntry`, `PageDirectory` (`paging.h:37-85`) |
| `DirPtr`                                 | a `struct PageDirectory *`: the kernel's directory, one of `page_directory_list`, or some other address |
| `Paging`                                 | `page_manager_state`, `_paging_kernel_page_directory`, `page_directory_list`, `page_directory_manager`, and the memory that wild subscripts and pointers reach |
| `updatePageDirectoryEntry`               | `update_page_directory_entry` (`paging.c:32-42`), without the TLB flush |
| `pagingAllocateCheck`, `pagingAllocateUserPageFrame`, `pagingFreeUserPageFrame` | `paging.c:52-136` |
| `pagingCreateNewPageDirectory`, `pagingFreePageDirectory` | `paging.c:151-204` |

A frame is 4 MiB, so the top ten bits of an address are its page index or its frame number. The map has
32 entries but `paging_free_user_page_frame` takes its subscript from a directory entry, which has ten
bits: `page_manager_state` is packed, so subscripts 32 to 35 are the bytes of `free_page_frame_count`.
-/

namespace MoggersOs

structure PageFlag where
  presentBit        : Bool
  writeBit          : Bool
  userSupervisorBit : Bool
  pwtBit            : Bool
  pcdBit            : Bool
  accessedBit       : Bool
  dirtyBit          : Bool
  usePagesize4Mb    : Bool
deriving DecidableEq

structure PageEntry where
  flag          : PageFlag
  globalPage    : Bool
  ignored       : BitVec 3
  patSupport    : Bool
  higherAddress : UInt8
  reserved      : Bool
  lowerAddress  : Fin 1024
deriving DecidableEq

def zeroFlag : PageFlag := ⟨false, false, false, false, false, false, false, false⟩

def zeroPageEntry : PageEntry := ⟨zeroFlag, false, 0, false, 0, false, 0⟩

abbrev PageDirectory := Fin 1024 → PageEntry

/-- `memset(page_dir, 0x0, sizeof(struct PageDirectory))`. -/
def zeroDirectory : PageDirectory := fun _ => zeroPageEntry

/-- The kernel's half: present, writable, 4 MiB, frame 0 (`paging.c:12-24`, `169-174`). -/
def kernelEntry : PageEntry :=
  { zeroPageEntry with flag := { zeroFlag with presentBit := true, writeBit := true, usePagesize4Mb := true } }

/-- `user_flag` of `paging_allocate_user_page_frame` (`paging.c:91-100`). -/
def userFlag : PageFlag :=
  { zeroFlag with presentBit := true, writeBit := true, userSupervisorBit := true, usePagesize4Mb := true }

/-- `((uint32_t) addr >> 22) & 0x3FF`. -/
def pageIndex (addr : UInt32) : Fin 1024 := ⟨addr.toNat / 2 ^ 22, by have := addr.toNat_lt; omega⟩

/-- `KERNEL_VIRTUAL_ADDRESS_BASE` (`process.h:17`). -/
def kernelVirtualAddressBase : UInt32 := 0xC0000000

inductive DirPtr where
  | kernel
  | pool (i : Fin 32)
  /-- Any other address. -/
  | other (addr : UInt32)
deriving DecidableEq

def DirPtr.null : DirPtr := .other 0

structure Paging where
  pageFrameMap       : Fin 32 → Bool
  freePageFrameCount : UInt32
  kernelPageDirectory : PageDirectory
  pageDirectoryList  : Fin 32 → PageDirectory
  pageDirectoryUsed  : Fin 32 → Bool
  /-- The memory at an address that is none of the directories, read as one. -/
  otherDirectory     : UInt32 → PageDirectory
  /-- The bytes after `page_manager_state`, by their subscript in `page_frame_map`. -/
  afterMap           : Nat → UInt8

namespace Paging

/-- `page_manager_state.page_frame_map[n]`. -/
def frame (p : Paging) (n : Nat) : Bool :=
  if h : n < 32 then p.pageFrameMap ⟨n, h⟩
  else if n < 36 then Lib.leByte p.freePageFrameCount.toNat (n - 32) != 0
  else p.afterMap n != 0

/-- `page_manager_state.page_frame_map[n] = false`. -/
def clearFrame (p : Paging) (n : Nat) : Paging :=
  if h : n < 32 then { p with pageFrameMap := Function.update p.pageFrameMap ⟨n, h⟩ false }
  else if n < 36 then
    { p with freePageFrameCount := .ofNat (p.freePageFrameCount.toNat -
        (Lib.leByte p.freePageFrameCount.toNat (n - 32)).toNat * 256 ^ (n - 32)) }
  else { p with afterMap := Function.update p.afterMap n 0 }

/-- `*page_dir`. -/
def directory (p : Paging) : DirPtr → PageDirectory
  | .kernel => p.kernelPageDirectory
  | .pool i => p.pageDirectoryList i
  | .other addr => p.otherDirectory addr

def setDirectory (p : Paging) (d : PageDirectory) : DirPtr → Paging
  | .kernel => { p with kernelPageDirectory := d }
  | .pool i => { p with pageDirectoryList := Function.update p.pageDirectoryList i d }
  | .other addr => { p with otherDirectory := Function.update p.otherDirectory addr d }

end Paging

def updatePageDirectoryEntry (p : Paging) (pageDir : DirPtr) (physicalAddr virtualAddr : UInt32)
    (flag : PageFlag) : Paging :=
  let d := p.directory pageDir
  p.setDirectory (Function.update d (pageIndex virtualAddr)
    { d (pageIndex virtualAddr) with flag := flag, lowerAddress := pageIndex physicalAddr }) pageDir

/-! ## Frames -/

def pagingAllocateCheck (p : Paging) (amount : UInt32) : Bool := !(p.freePageFrameCount < amount)

/-- The first fit in `page_frame_map` (`paging.c:76-83`). -/
def findFreeFrame (p : Paging) : Option (Fin 32) := Fin.find? fun i => !p.pageFrameMap i

/-- Returns the frame's number, or `-1`. -/
def pagingAllocateUserPageFrame (p : Paging) (pageDir : DirPtr) (virtualAddr : UInt32) : UInt32 × Paging :=
  match findFreeFrame p with
  | none => (0xFFFFFFFF, p)
  | some i =>
    let p := { p with
      pageFrameMap := Function.update p.pageFrameMap i true
      freePageFrameCount := p.freePageFrameCount - 1 }
    (UInt32.ofNat i, updatePageDirectoryEntry p pageDir (UInt32.ofNat i * 0x400000) virtualAddr userFlag)

/-- The entry gets the uninitialised local `flag` (`paging.c:121-130`), whose contents are `garbage`. -/
def pagingFreeUserPageFrame (garbage : PageFlag) (p : Paging) (pageDir : DirPtr) (virtualAddr : UInt32) :
    Bool × Paging :=
  let pageNum := (p.directory pageDir (pageIndex virtualAddr)).lowerAddress.val
  if p.frame pageNum then
    let p := updatePageDirectoryEntry (p.clearFrame pageNum) pageDir 0 virtualAddr garbage
    (true, { p with freePageFrameCount := p.freePageFrameCount + 1 })
  else (false, p)

/-! ## Directories -/

def pagingCreateNewPageDirectory (p : Paging) : DirPtr × Paging :=
  match Fin.find? fun i => !p.pageDirectoryUsed i with
  | none => (.null, p)
  | some i => (.pool i, { p with
      pageDirectoryUsed := Function.update p.pageDirectoryUsed i true
      pageDirectoryList := Function.update p.pageDirectoryList i
        (Function.update (p.pageDirectoryList i) 0x300 kernelEntry) })

/-- The loop never returns `true` (`paging.c:195-203`). -/
def pagingFreePageDirectory (p : Paging) (pageDir : DirPtr) : Bool × Paging :=
  match pageDir with
  | .pool i => (false, { p with
      pageDirectoryUsed := Function.update p.pageDirectoryUsed i false
      pageDirectoryList := Function.update p.pageDirectoryList i zeroDirectory })
  | _ => (false, p)

/-- CR3 after `paging_use_page_directory(page_dir)`, as the address that
`paging_get_current_page_directory_addr` then returns (`paging.c:206-219`). Only an address above the
kernel's base is moved down before it is loaded. -/
def pagingUsePageDirectory : DirPtr → DirPtr
  | .other addr =>
    .other ((if kernelVirtualAddressBase < addr then addr - kernelVirtualAddressBase else addr) +
      kernelVirtualAddressBase)
  | d => d

/-! ## Boot -/

/-- The statics of `paging.c`, after the loader has cleared entry 0 of the kernel's directory
(`kernel-entrypoint.s:49`). -/
def initialPaging (otherDirectory : UInt32 → PageDirectory) (afterMap : Nat → UInt8) : Paging where
  pageFrameMap := fun _ => false
  freePageFrameCount := 32
  kernelPageDirectory := Function.update zeroDirectory 0x300 kernelEntry
  pageDirectoryList := fun _ => zeroDirectory
  pageDirectoryUsed := fun _ => false
  otherDirectory := otherDirectory
  afterMap := afterMap

/-- `paging_allocate_user_page_frame(&_paging_kernel_page_directory, 0)` (`kernel.c:31`). -/
def bootPaging (otherDirectory : UInt32 → PageDirectory) (afterMap : Nat → UInt8) : Paging :=
  (pagingAllocateUserPageFrame (initialPaging otherDirectory afterMap) .kernel 0).2

end MoggersOs
