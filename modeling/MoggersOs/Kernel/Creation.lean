import MoggersOs.Filesystem.Runs
import MoggersOs.Kernel.Process
/-
# A process is created from a file

`process_create_user_process` claims a slot, two frames and a directory, switches to the directory and
only then reads the executable. `createFromFile` runs it with the driver's `read`. A creation that fails
should leave the tables as they were (`SameTables`); it does so for the three checks at the top, which
come before any store, and not for the fourth exit: `exit_cleanup` cleans nothing up.

| here | there |
| --- | --- |
| `createFromFile`   | `process_create_user_process` with `read(request)` (`process.c:23-105`, `fat32.c:165-211`) |
| `Readable`         | the tests of `read` on the directory and on the row it finds |
| `bootRequest`      | `request1` of `kernel_setup` (`kernel.c:33-39`) |
-/

namespace MoggersOs

structure Machine where
  kernel     : Kernel
  filesystem : State

/-- `request.buf` is an address to the process manager and memory to the driver. -/
def processRequest (addr : UInt32) (r : Request) : ProcessRequest := ⟨addr, r.name, r.bufferSize⟩

/-- `none` when the loop of `read` uses up the fuel. -/
def createFromFile (fuel : Nat) (m : Machine) (addr : UInt32) (r : Request) : Option (Int × Machine) :=
  match creationCheck m.kernel (processRequest addr r) with
  | some retcode => some (retcode, m)
  | none => (read fuel m.filesystem r).map fun res =>
    let created := processCreateUserProcess m.kernel (processRequest addr r) res.1.code
    (created.1, ⟨created.2, res.2⟩)

/-- The process table, the frames, the directories in use and CR3 are the same. -/
structure SameTables (k k' : Kernel) : Prop where
  processUsed        : k'.processUsed = k.processUsed
  activeProcessCount : k'.activeProcessCount = k.activeProcessCount
  pageFrameMap       : k'.paging.pageFrameMap = k.paging.pageFrameMap
  freePageFrameCount : k'.paging.freePageFrameCount = k.paging.freePageFrameCount
  pageDirectoryUsed  : k'.paging.pageDirectoryUsed = k.paging.pageDirectoryUsed
  cr3                : k'.cr3 = k.cr3

theorem SameTables.refl (k : Kernel) : SameTables k k := ⟨rfl, rfl, rfl, rfl, rfl, rfl⟩

/-- A creation that returns a code other than `PROCESS_CREATE_SUCCESS` changes none of the tables. -/
def LeavesNoTrace (m : Machine) (addr : UInt32) (r : Request) : Prop :=
  ∀ fuel retcode m', createFromFile fuel m addr r = some (retcode, m') → retcode ≠ 0 →
    SameTables m.kernel m'.kernel

/-- The directory has a file of the name that fits the buffer, as its first row of that name. -/
def Readable (s : State) (r : Request) : Prop :=
  let t := decodeTable (readClusters s.disk r.parent)
  (t 0).userAttribute = uattrNotEmpty ∧ ∃ i, Fin.find? (fun i => sameName (t i) r) = some i ∧
    (t i).attr ≠ attrSubdirectory ∧ (t i).filesize ≤ r.bufferSize

/-! ## What `read` returns -/

theorem Readable.code {s s' : State} {r : Request} {fuel : Nat} {rep : Reply} (h : Readable s r)
    (hr : read fuel s r = some (rep, s')) : rep.code = 0 := by
  obtain ⟨hdir, i, hi, hattr, hsize⟩ := h
  unfold read at hr
  simp only [State.loadDirTable, State.loadFat, hdir, bne_self_eq_false, Bool.false_eq_true, if_false, hi, hattr,
    UInt32.not_lt.mpr hsize] at hr
  obtain ⟨buf, -, he⟩ := Option.map_eq_some_iff.mp hr
  rw [← (Prod.mk.inj he).1]

/-- The loop is reached, or `read` returns one of its three codes. -/
theorem readable_or_code (fuel : Nat) (s : State) (r : Request) :
    Readable s r ∨ ∃ out, read fuel s r = some out ∧ out.1.code ≠ 0 := by
  by_cases h : ∃ out, read fuel s r = some out ∧ out.1.code ≠ 0
  · exact .inr h
  · left
    have hno : ∀ out, read fuel s r = some out → out.1.code = 0 := fun out ho =>
      not_not.mp fun hc => h ⟨out, ho, hc⟩
    unfold read at hno
    dsimp only [State.loadDirTable, State.loadFat] at hno
    split at hno
    · exact absurd (hno _ rfl) (by simp)
    next hdir =>
      split at hno
      · exact absurd (hno _ rfl) (by simp)
      next i hi =>
        split at hno
        · exact absurd (hno _ rfl) (by simp)
        next hattr =>
          split at hno
          · exact absurd (hno _ rfl) (by simp)
          next hsize => exact ⟨by simpa using hdir, i, hi, hattr, UInt32.not_lt.mp hsize⟩

/-! ## The four exits -/

theorem createFromFile_refused {m : Machine} {addr : UInt32} {r : Request} {retcode : Int}
    (h : creationCheck m.kernel (processRequest addr r) = some retcode) (fuel : Nat) :
    createFromFile fuel m addr r = some (retcode, m) := by
  unfold createFromFile
  rw [h]

theorem createFromFile_read {m : Machine} {addr : UInt32} {r : Request} {fuel : Nat} {res : Reply × State}
    (h : creationCheck m.kernel (processRequest addr r) = none) (hr : read fuel m.filesystem r = some res) :
    createFromFile fuel m addr r =
      some ((processCreateUserProcess m.kernel (processRequest addr r) res.1.code).1,
        ⟨(processCreateUserProcess m.kernel (processRequest addr r) res.1.code).2, res.2⟩) := by
  unfold createFromFile
  rw [h, hr]
  rfl

/-- **A file that cannot be read is not cleaned up after**: the count, for one, stays one higher. -/
theorem trace_of_not_readable {m : Machine} {addr : UInt32} {r : Request}
    (hcheck : creationCheck m.kernel (processRequest addr r) = none) (hread : ¬ Readable m.filesystem r) :
    ¬ LeavesNoTrace m addr r := by
  intro h
  obtain ⟨out, hr, hcode⟩ := (readable_or_code 0 m.filesystem r).resolve_left hread
  have hdoes := processCreateUserProcess_does hcheck out.1.code
  have hfail : (processCreateUserProcess m.kernel (processRequest addr r) out.1.code).1 ≠ 0 := by
    rw [hdoes.code, if_neg hcode]
    decide
  have hcount := (h 0 _ _ (createFromFile_read hcheck hr) hfail).activeProcessCount
  rw [hdoes.count] at hcount
  have hn := congrArg UInt32.toNat hcount
  have hlt := m.kernel.activeProcessCount.toNat_lt
  simp only [UInt32.toNat_add, UInt32.reduceToNat] at hn
  omega

/-- **A failed creation leaves no trace exactly when it is one of the three checks that fails it**, or the
file is there to be read. -/
theorem leavesNoTrace_iff (m : Machine) (addr : UInt32) (r : Request) :
    LeavesNoTrace m addr r ↔
      creationCheck m.kernel (processRequest addr r) ≠ none ∨ Readable m.filesystem r := by
  constructor
  · intro h
    by_cases hcheck : creationCheck m.kernel (processRequest addr r) = none
    · by_cases hread : Readable m.filesystem r
      · exact .inr hread
      · exact absurd h (trace_of_not_readable hcheck hread)
    · exact .inl hcheck
  · intro h fuel retcode m' hc hfail
    cases hcheck : creationCheck m.kernel (processRequest addr r) with
    | some code =>
      rw [createFromFile_refused hcheck] at hc
      cases hc
      exact .refl _
    | none =>
      have hread : Readable m.filesystem r := h.resolve_left fun hn => hn hcheck
      cases hr : read fuel m.filesystem r with
      | none =>
        unfold createFromFile at hc
        rw [hcheck, hr] at hc
        cases hc
      | some res =>
        rw [createFromFile_read hcheck hr] at hc
        cases hc
        refine absurd ?_ hfail
        rw [(processCreateUserProcess_does hcheck _).code, if_pos (hread.code hr)]

/-- The request for the shell. -/
def bootRequest : Request := ⟨fun _ => 0, shellRequest.name, fun _ => 0, 2, shellRequest.bufferSize⟩

/-- The first creation after boot, on a volume that has no shell. -/
theorem not_leavesNoTrace_boot :
    ¬ LeavesNoTrace ⟨quietKernel, createFat32 blankState⟩ shellRequest.buf bootRequest := by
  refine trace_of_not_readable (by decide +kernel) ?_
  rintro ⟨-, i, hi, -, -⟩
  have htab : decodeTable (readClusters (createFat32 blankState).disk bootRequest.parent) = formattedRoot :=
    createFat32_table blankState
  rw [htab] at hi
  have hnone : (Fin.find? fun i => sameName (formattedRoot i) bootRequest) = none := by decide +kernel
  rw [hnone] at hi
  cases hi

end MoggersOs
