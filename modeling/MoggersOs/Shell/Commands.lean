import MoggersOs.Filesystem.Fat32
/-
# The shell's directory commands (`user_mode/command_list/cd.c`, `mkdir.c`)

| here | there |
| --- | --- |
| `Arg`, `Shell`        | `Arg`, and `current_dir.dir_table_buf` with `current_working_directory` (`user-shell.h:25-46`); `path` holds the first `neff` entries |
| `getEntryRow`, `getClusterNumber`, `getClusterNumberSelf` | `user-shell.c:46-71`; `none` is `-1` |
| `cd`, `updatePath`    | `cd` (`cd.c:3-99`), and its second half |
| `cdRoot`, `cdRefresh` | `cd.c:101-131` |
| `mkdir`               | `mkdir` (`mkdir.c:3-13`) |

A command that calls the driver hands it the address of `dir_table_buf`, which it has just cleared, and lets it
fill the table (`loadTable`); what the call returns is not looked at. The `memset` of `cd` also clears the entries of `path` that
are taken away, so that those from `neff` on are always zero. `none` stands for an access outside `path`.
-/

namespace MoggersOs

structure Arg where
  info    : Fin 8 → UInt8
  ext     : Fin 3 → UInt8
  lenInfo : Nat
  lenExt  : Nat

structure Shell where
  dirTable : Table
  path     : List Arg

/-- `memset(&current_dir, 0x0, sizeof(struct FAT32DriverState))`, as far as the table goes. -/
def zeroTable : Table := fun _ => zeroEntry

/-- The table that the memory at `dir_table_buf` holds. -/
def loadTable (buf : Nat → UInt8) : Table := decodeTable fun i => buf i

theorem loadTable_blit (buf : Nat → UInt8) (x : Cluster) : loadTable (blit buf 0 x) = decodeTable x := by
  unfold loadTable blit
  congr 1
  funext i
  simp

theorem loadTable_zero : loadTable (fun _ => 0) = zeroTable := rfl

/-! ## Helpers (`user-shell.c`) -/

def getEntryRow (t : Table) (argument : Arg) : Option (Fin 64) :=
  Fin.find? fun i => decide (2 ≤ i.val) && memcmp (t i).name argument.info == 0 && memcmp (t i).ext argument.ext == 0

/-- `table[get_entry_row(argument)]`. `table[-1]` is the end of `fat_table`, which the shell never fills. -/
def argumentEntry (t : Table) (argument : Arg) : DirEntry := ((getEntryRow t argument).map t).getD zeroEntry

theorem argumentEntry_of_row {t : Table} {argument : Arg} {row : Fin 64} (hrow : getEntryRow t argument = some row) :
    argumentEntry t argument = t row := by
  unfold argumentEntry
  rw [hrow]
  rfl

/-- `(cluster_high << 16) + cluster_low`, in 32 bits. -/
def getClusterNumberSelf (p : DirEntry) : UInt32 := UInt32.ofNat p.cluster

def getClusterNumber (t : Table) : UInt32 := getClusterNumberSelf (t 0)

/-- The name after `memcpy(request.name, (*argument).info, (*argument).len_info)` into a zeroed request. -/
def Arg.name (argument : Arg) : Fin 8 → UInt8 := fun i => if i.val < argument.lenInfo then argument.info i else 0

/-- The first bytes of a name, as far as a `memcmp` of `n` bytes looks. -/
def leading {n : Nat} (h : n ≤ 8) (x : Fin 8 → UInt8) : Fin n → UInt8 := fun i => x (i.castLE h)

/-- `"root"` in eight bytes. -/
def rootName : Fin 8 → UInt8 := fun i => ['r'.toUInt8, 'o'.toUInt8, 'o'.toUInt8, 't'.toUInt8].getD i 0

/-! ## `cd` -/

/-- A request of the shell for a directory of 2048 bytes. -/
def directoryRequest (name : Fin 8 → UInt8) (parent : UInt32) : Request where
  buf := fun _ => 0
  name := name
  ext := fun _ => 0
  parentClusterNumber := parent
  bufferSize := 2048

/-- The row is in use, a folder, and passes the test on its name (`cd.c:20-29`, `77-80`). -/
def folderRow (e : DirEntry) (test : Bool) : Bool :=
  e.userAttribute == uattrNotEmpty && (e.attr == attrSubdirectory && test)

/-- `cd.c:60-98`: `..` takes the last name away unless it begins with `root`; any other name is appended if the
new table has a folder that is called otherwise. -/
def updatePath (t : Table) (path : List Arg) (argument : Arg) : Option (List Arg) :=
  if memcmp (leading (n := 3) (by decide) argument.info) (leading (by decide) dotDot) = 0 then
    path.getLast?.map fun top =>
      if memcmp (leading (n := 4) (by decide) top.info) (leading (by decide) rootName) ≠ 0 then path.dropLast else path
  else if (Fin.find? fun i => folderRow (t i) (memcmp (t i).name argument.info != 0)).isSome then
    if path.length < 10 then
      some (path ++ [{ info := argument.info, ext := fun _ => 0, lenInfo := argument.lenInfo, lenExt := 0 }])
    else none
  else some path

def cd (sh : Shell) (s : State) (argument : Arg) : Option (Shell × State) :=
  let request := directoryRequest argument.name (getClusterNumber sh.dirTable)
  if (Fin.find? fun i => folderRow (sh.dirTable i) (memcmp (sh.dirTable i).name request.name == 0)).isSome then
    let out := readDirectory s request
    let t := loadTable out.1.buf
    (updatePath t sh.path argument).map fun path => (⟨t, path⟩, out.2)
  else some (sh, s)

/-- The literal `"root"` has five bytes of which `memcpy` takes eight; `garbage` are the other three. -/
def rootArg (garbage : Fin 3 → UInt8) : Arg where
  info := fun i => if h : i.val < 5 then rootName i else garbage ⟨i.val - 5, by omega⟩
  ext := fun _ => 0
  lenInfo := 4
  lenExt := 0

/-- `main` calls it once, when `path` is empty. -/
def cdRoot (garbage : Fin 3 → UInt8) (s : State) : Shell × State :=
  let out := readDirectory s (directoryRequest rootName 2)
  (⟨loadTable out.1.buf, [rootArg garbage]⟩, out.2)

def cdRefresh (sh : Shell) (s : State) : Shell × State :=
  let out := readDirectory s (directoryRequest (sh.dirTable 0).name (getClusterNumber sh.dirTable))
  ({ sh with dirTable := loadTable out.1.buf }, out.2)

/-! ## `mkdir` -/

def mkdirRequest (sh : Shell) (argument : Arg) : Request where
  buf := fun _ => 0
  name := argument.name
  ext := fun i => if i.val < argument.lenExt then argument.info (i.castLE (by decide)) else 0
  parentClusterNumber := getClusterNumber sh.dirTable
  bufferSize := 0

/-- The branch of `main` (`user-shell.c:269-272`): `mkdir`, then `cd_refresh`. -/
def mkdir (sh : Shell) (s : State) (argument : Arg) : Shell × State :=
  cdRefresh sh (write s (mkdirRequest sh argument)).2

/-! ## Arguments as they are typed -/

/-- An argument of at most eight bytes as `get_command` leaves it: a typed byte is not 0. -/
structure Word where
  bytes   : List UInt8
  le      : bytes.length ≤ 8
  nonzero : ∀ b ∈ bytes, b ≠ 0

def Word.arg (w : Word) : Arg := ⟨fun i => w.bytes.getD i 0, fun _ => 0, w.bytes.length, 0⟩

@[simp] theorem Word.arg_name (w : Word) : w.arg.name = w.arg.info := by
  funext i
  unfold Arg.name
  split
  · rfl
  · next h =>
    have hout : w.bytes.length ≤ i.val := Nat.le_of_not_lt h
    simp [arg, hout]

theorem Word.arg_bytes (w : Word) : ((List.finRange 8).take w.arg.lenInfo).map w.arg.info = w.bytes := by
  have hle := w.le
  refine List.ext_getElem ?_ fun n h₁ h₂ => ?_
  · simpa [Word.arg] using hle
  · simp [Word.arg, h₂]

end MoggersOs
