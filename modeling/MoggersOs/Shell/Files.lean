import MoggersOs.Filesystem.RoundTrip
import MoggersOs.Shell.Path
/-
# The shell's file commands (`user_mode/command_list/mv.c`)

| here | there |
| --- | --- |
| `mv`, `cp`      | `mv` and `cp` (`mv.c:3-46`, `48-86`), with the codes that their system calls leave in `res_code` |
| `cleared`       | `cl` after the loops that clear it (`mv.c:8-13`, `53-58`) |
| `clusterNeeded` | `cluster_needed` (`mv.c:4-6`, `49-51`) |
| `sourceRequest` | `source` (`mv.c:15-20`, `60-65`) |
| `retarget`      | the two branches (`mv.c:24-45`), as far as they differ: what the second argument changes in `source` |
| `HoldsFile`     | an entry and the contents of its file |

Both commands read into a buffer of one cluster, whatever the size of the file, and look at no code. `t` is the
table in `current_dir`. If that has no row for the first argument, both go on with a size of 0 and write 2048 bytes that
nobody has stored. `none` stands for a store past `cl` (`cp` clears a file of several clusters there, and `mv` reads there
a file that is not in `t`), or for fuel that ran out.
-/

namespace MoggersOs

/-- The first `n` clusters are zero, behind them is what the memory held before. -/
def cleared (n : Nat) (garbage : Nat → UInt8) : Nat → UInt8 := fun a => if a < 2048 * n then 0 else garbage a

def clusterNeeded (t : Table) (argument1 : Arg) : Nat := clustersOf (argumentEntry t argument1).filesize.toNat

/-- `cl` has `clusterNeeded` clusters, but `buffer_size` is `sizeof(current_dir.cluster_buf)`. -/
def sourceRequest (garbage : Nat → UInt8) (t : Table) (argument1 : Arg) : Request where
  buf := cleared (clusterNeeded t argument1) garbage
  name := argument1.name
  ext := fun _ => 0
  parentClusterNumber := getClusterNumber t
  bufferSize := 2048

/-- The request that is written: under the new name, or in the folder of that name. For a file nothing is done. -/
def retarget (t : Table) (argument2 : Arg) (source : Request) : Option Request :=
  match getEntryRow t argument2 with
  | none => some { source with name := argument2.info }
  | some entryRow =>
    if (t entryRow).attr = attrSubdirectory then
      some { source with parentClusterNumber := getClusterNumberSelf (t entryRow) }
    else none

def mv (fuel : Nat) (garbage : Nat → UInt8) (t : Table) (s : State) (argument1 argument2 : Arg) :
    Option (List Int × State) :=
  let source := sourceRequest garbage t argument1
  match retarget t argument2 source with
  | none => some ([], s)
  | some target => do
    let out ← read fuel s source
    -- `cl` has no cluster, and `read` has stored one
    if clusterNeeded t argument1 = 0 ∧ out.1.code = 0 then none
    else
      let gone ← delete fuel out.2 { source with buf := out.1.buf }
      let done := write gone.2 { target with buf := out.1.buf }
      some ([out.1.code, gone.1, done.1], done.2)

/-- `cl` is an array of one cluster. -/
def cp (fuel : Nat) (garbage : Nat → UInt8) (t : Table) (s : State) (argument1 argument2 : Arg) :
    Option (List Int × State) :=
  let source := sourceRequest garbage t argument1
  if 1 < clusterNeeded t argument1 then none
  else match retarget t argument2 source with
    | none => some ([], s)
    | some target => do
      let out ← read fuel s source
      let done := write out.2 { target with buf := out.1.buf }
      some ([out.1.code, done.1], done.2)

/-! ## Files and destinations -/

structure File where
  name  : Fin 8 → UInt8
  ext   : Fin 3 → UInt8
  size  : UInt32
  bytes : Nat → UInt8

/-- Row `i` of the directory at `d` is the entry of the file. -/
structure HoldsFile (v : Volume) (d : Nat) (i : Fin 64) (F : File) : Prop where
  row2  : 2 ≤ i.val
  used  : (v.table d i).Used
  file  : ¬ (v.table d i).Folder
  name  : (v.table d i).name = F.name
  ext   : (v.table d i).ext = F.ext
  size  : (v.table d i).filesize = F.size
  bytes : ∃ l, Lib.Chain v.next endMark (v.table d i).cluster l ∧
    ∀ a < F.size.toNat, Volume.deliver v.disk (fun _ => 0) 0 l a = F.bytes a

theorem HoldsFile.congr {v : Volume} {d : Nat} {i : Fin 64} {F G : File} (h : HoldsFile v d i F) (hname : F.name = G.name)
    (hext : F.ext = G.ext) (hsize : F.size = G.size) (hbytes : ∀ a < F.size.toNat, F.bytes a = G.bytes a) :
    HoldsFile v d i G := by
  obtain ⟨l, hl, hb⟩ := h.bytes
  refine ⟨h.row2, h.used, h.file, h.name.trans hname, h.ext.trans hext, h.size.trans hsize, l, hl, fun a ha => ?_⟩
  rw [← hsize] at ha
  exact (hb a ha).trans (hbytes a ha)

/-- No row in use of the directory at `d` has the name. -/
def NoEntry (v : Volume) (d : Nat) (name : Fin 8 → UInt8) (ext : Fin 3 → UInt8) : Prop :=
  ∀ j : Fin 64, 2 ≤ j.val → (v.table d j).Used → ¬ ((v.table d j).name = name ∧ (v.table d j).ext = ext)

/-- Where the second argument sends a file of directory `d`, and as what: it is a new name in `d`, or it names a
folder in `d` that has an unused row and no entry of the file's name. -/
inductive Destination (v : Volume) (d : Nat) (argument2 : Arg) (F : File) : Nat → File → Prop
  | rename : NoEntry v d argument2.info argument2.ext →
      Destination v d argument2 F d { F with name := argument2.info, ext := argument2.ext }
  | move {j : Fin 64} : getEntryRow (v.table d) argument2 = some j → (v.table d j).Used → (v.table d j).Folder →
      (findFreeRow (v.table (v.table d j).cluster)).isSome = true → NoEntry v (v.table d j).cluster F.name F.ext →
      Destination v d argument2 F (v.table d j).cluster F

/-- After `mv` the file is at its destination as `G`, its old entry in row `i` of `d` is gone, and if a call failed
the old entry is still there. -/
def MvPreserves (garbage : Nat → UInt8) (s : State) (d : Nat) (i : Fin 64) (argument1 argument2 : Arg) (F : File)
    (e : Nat) (G : File) : Prop :=
  ∃ codes s', mv 512 garbage (s.volume.table d) s argument1 argument2 = some (codes, s') ∧
    (∃ j, HoldsFile s'.volume e j G) ∧
    ¬ ((s'.volume.table d i).Used ∧ (s'.volume.table d i).name = F.name ∧ (s'.volume.table d i).ext = F.ext) ∧
    ((∃ c ∈ codes, c ≠ 0) → HoldsFile s'.volume d i F)

/-- After `cp` the file is at its destination as `G`, and row `i` of `d` and its file are as before. -/
def CpPreserves (garbage : Nat → UInt8) (s : State) (d : Nat) (i : Fin 64) (argument1 argument2 : Arg) (F : File)
    (e : Nat) (G : File) : Prop :=
  ∃ codes s', cp 512 garbage (s.volume.table d) s argument1 argument2 = some (codes, s') ∧
    (∃ j, HoldsFile s'.volume e j G) ∧ s'.volume.table d i = s.volume.table d i ∧ HoldsFile s'.volume d i F

/-- The file is as long as the buffer, no earlier row of its directory has its name, and its new name is none that
`write` takes for another. -/
structure Movable (v : Volume) (d : Nat) (i : Fin 64) (F G : File) : Prop where
  size  : F.size = 2048
  alone : ∀ j < i, ¬ ((v.table d j).name = F.name ∧ (v.table d j).ext = F.ext)
  name  : G.name ≠ fun _ => 0
  ext   : G.ext = fun _ => 0

/-! ## What the two requests say -/

theorem getEntryRow_eq (t : Table) {argument : Arg} {r : Request} (hn : r.name = argument.info) (he : r.ext = argument.ext) :
    getEntryRow t argument = findRow t r := by
  unfold getEntryRow findRow sameName
  simp only [hn, he, Bool.and_assoc]

theorem getEntryRow_eq_some {t : Table} {argument : Arg} {row : Fin 64} (h : getEntryRow t argument = some row) :
    2 ≤ row.val ∧ (t row).name = argument.info ∧ (t row).ext = argument.ext := by
  rw [getEntryRow_eq t (r := ⟨fun _ => 0, argument.info, argument.ext, 0, 0⟩) rfl rfl] at h
  exact findRow_eq_some h

section
variable {t : Table} {argument2 : Arg} {entryRow : Fin 64}

theorem retarget_new (hrow : getEntryRow t argument2 = none) (source : Request) :
    retarget t argument2 source = some { source with name := argument2.info } := by
  unfold retarget
  rw [hrow]

theorem retarget_folder (hrow : getEntryRow t argument2 = some entryRow) (hf : (t entryRow).Folder) (source : Request) :
    retarget t argument2 source = some { source with parentClusterNumber := getClusterNumberSelf (t entryRow) } := by
  unfold retarget
  rw [hrow]
  exact if_pos hf

theorem retarget_file (hrow : getEntryRow t argument2 = some entryRow) (hf : ¬ (t entryRow).Folder) (source : Request) :
    retarget t argument2 source = none := by
  unfold retarget
  rw [hrow]
  exact if_neg hf

end

/-- The request that is written: 2048 bytes under the new name in the new directory. -/
structure Aims (target : Request) (e : Nat) (G : File) : Prop where
  parent : target.parent = e
  name   : target.name = G.name
  ext    : target.ext = fun _ => 0
  size   : target.bufferSize = 2048

theorem Aims.withBuf {target : Request} {e : Nat} {G : File} (h : Aims target e G) (b : Nat → UInt8) :
    Aims { target with buf := b } e G :=
  ⟨h.parent, h.name, h.ext, h.size⟩

section
variable {v : Volume} {live : Finset Nat} {d e : Nat} {i : Fin 64} {F G : File} {argument1 argument2 : Arg}
variable (h : Inv v live) (hd : d ∈ live)

section
include h hd

theorem sourceRequest_parent (garbage : Nat → UInt8) (argument1 : Arg) :
    (sourceRequest garbage (v.table d) argument1).parent = d :=
  getClusterNumber_table h hd

/-- The second argument either sends the file to its destination, or it is blank and found in an unused row. -/
theorem retarget_cases (hpl : RowsPlain v live) (hdest : Destination v d argument2 F e G)
    (hF : argument1.name = F.name) (garbage : Nat → UInt8) :
    (∃ target, retarget (v.table d) argument2 (sourceRequest garbage (v.table d) argument1) = some target ∧
      Aims target e G) ∨
    retarget (v.table d) argument2 (sourceRequest garbage (v.table d) argument1) = none ∧ G.name = fun _ => 0 := by
  have hp := sourceRequest_parent h hd garbage argument1
  have hsize : (sourceRequest garbage (v.table d) argument1).bufferSize = 2048 := rfl
  have hext : (sourceRequest garbage (v.table d) argument1).ext = fun _ => 0 := rfl
  have hname : (sourceRequest garbage (v.table d) argument1).name = F.name := hF
  generalize sourceRequest garbage (v.table d) argument1 = source at hp hsize hext hname
  cases hdest with
  | rename hno =>
    cases hrow : getEntryRow (v.table d) argument2 with
    | none => exact .inl ⟨_, retarget_new hrow source, ⟨hp, rfl, hext, hsize⟩⟩
    | some j =>
      obtain ⟨hj2, hjname, hjext⟩ := getEntryRow_eq_some hrow
      have hu : ¬ (v.table d j).Used := fun hu => hno j hj2 hu ⟨hjname, hjext⟩
      refine .inr ⟨retarget_file hrow ((hpl d hd j hj2).1 hu) source, ?_⟩
      exact hjname.symm.trans (h.unused d hd j hj2 hu).1
  | @move j hrow hu hf hfree hno =>
    obtain ⟨-, -, hc512⟩ := h.folder_chain ⟨hd, (getEntryRow_eq_some hrow).1, hu⟩ hf
    refine .inl ⟨_, retarget_folder hrow hf source, ⟨?_, hname, hext, hsize⟩⟩
    exact UInt32.toNat_ofNat_of_lt' (by simp [UInt32.size]; omega)

theorem Destination.mem_live (hdest : Destination v d argument2 F e G) : e ∈ live := by
  cases hdest with
  | rename _ => exact hd
  | move hrow hu hf _ _ => exact (h.folder d _ ⟨hd, (getEntryRow_eq_some hrow).1, hu⟩ hf).1

end

theorem Destination.same (hdest : Destination v d argument2 F e G) : G.size = F.size ∧ G.bytes = F.bytes := by
  cases hdest with
  | rename _ => exact ⟨rfl, rfl⟩
  | move _ _ _ _ _ => exact ⟨rfl, rfl⟩

/-- Only a new name in the file's own directory can be without an unused row. -/
theorem Destination.room (hdest : Destination v d argument2 F e G) :
    e = d ∨ (findFreeRow (v.table e)).isSome = true := by
  cases hdest with
  | rename _ => exact .inl rfl
  | move _ _ _ hfree _ => exact .inr hfree

theorem Destination.noEntry (hdest : Destination v d argument2 F e G) : NoEntry v e G.name G.ext := by
  cases hdest with
  | rename hno => exact hno
  | move _ _ _ _ hno => exact hno

/-- The destination is not the entry itself. -/
theorem Destination.ne (hdest : Destination v d argument2 F e G) (hF : HoldsFile v d i F) :
    ¬ (e = d ∧ G.name = F.name ∧ G.ext = F.ext) := by
  rintro ⟨rfl, hname, hext⟩
  exact hdest.noEntry i hF.row2 hF.used ⟨hF.name.trans hname.symm, hF.ext.trans hext.symm⟩

end

/-! ## The calls, one by one -/

section changed
variable {v v' : Volume} {live : Finset Nat} {q : Request} {row : Fin 64} {x : DirEntry} {l : List Nat} {d : Nat}
variable (h : Inv v live) (hch : Change v v' live live q row x l) (hd : d ∈ live)
include h hch hd

/-- A removal brings no name. -/
theorem NoEntry.change {name : Fin 8 → UInt8} {ext : Fin 3 → UInt8} (hno : NoEntry v d name ext) (hx : ¬ x.Used) :
    NoEntry v' d name ext := by
  intro j hj hu
  by_cases hrow : d = q.parent ∧ j = row
  · obtain ⟨rfl, rfl⟩ := hrow
    rw [hch.edit.table_self] at hu
    exact absurd hu hx
  · rw [hch.table_of_ne h hd hrow] at hu ⊢
    exact hno j hj hu

/-- A name that was not there before is the one in the row that changed. -/
theorem HoldsFile.row_of_new {j : Fin 64} {G : File} (hG : HoldsFile v' d j G) (hno : NoEntry v d G.name G.ext) :
    d = q.parent ∧ j = row := by
  by_contra hrow
  have hu := hG.used
  have hname := hG.name
  have hext := hG.ext
  rw [hch.table_of_ne h hd hrow] at hu hname hext
  exact hno j hG.row2 hu ⟨hname, hext⟩

/-- A file that the request does not name stays as it is. -/
theorem HoldsFile.change {i : Fin 64} {F : File} (hF : HoldsFile v d i F) (hp : q.parent ∈ live)
    (hne : ¬ (q.parent = d ∧ q.name = F.name ∧ q.ext = F.ext)) : v'.table d i = v.table d i ∧ HoldsFile v' d i F := by
  have hr : v.LiveRow live d i := ⟨hd, hF.row2, hF.used⟩
  obtain ⟨hrow, m, hm, hm', -, hsame⟩ := hch.file h hp hr hF.file (by rw [hF.name, hF.ext]; exact hne)
  obtain ⟨l', hl', hbytes⟩ := hF.bytes
  obtain rfl := hm.unique hl'
  refine ⟨hrow, ?_⟩
  constructor
  · exact hF.row2
  · exact hrow ▸ hF.used
  · exact hrow ▸ hF.file
  · exact hrow ▸ hF.name
  · exact hrow ▸ hF.ext
  · exact hrow ▸ hF.size
  · refine ⟨m, hrow ▸ hm', fun a ha => ?_⟩
    rw [deliver_congr fun c hc => (hsame c hc).2]
    exact hbytes a ha

end changed

/-- A file of one cluster. -/
theorem holdsFile_mkfile {v : Volume} {r : Request} {row : Fin 64} {c : Nat} (hp : 2 ≤ r.parent) (hp' : r.parent < 512)
    (hrow : 2 ≤ row.val) (hsize : clustersOf r.bufferSize.toNat = 1) (hc : 3 ≤ c) (hc' : c < 512) (hcp : c ≠ r.parent) :
    HoldsFile (v.apply (v.mkfile r row c [])) r.parent row ⟨r.name, r.ext, r.bufferSize, r.buf⟩ := by
  have hedit := mkfile_edit v r row hp hp' (c := c) (l := []) (by simp; omega)
  have hself := hedit.table_self
  have hdata : readClusters (v.apply (v.mkfile r row c [])).disk c = filePartCluster r.buf 0 2048 := by
    have h1 : fatClusterNumber = 1 := rfl
    exact Volume.mkfile_parts v r row (c := c) (l := []) (by simp) (by simpa using hc') (by simp; omega)
      (by simpa using Ne.symm hcp) hp' hsize (j := 0) rfl
  refine ⟨hrow, hself ▸ newFile_used r c, hself ▸ newFile_not_folder r c, hself ▸ rfl, hself ▸ rfl, hself ▸ rfl, [c], ?_,
    fun a ha => ?_⟩
  · rw [hself, newFile_cluster r hc']
    exact Volume.linkFrom_chain (Fat.get_set_self _ hc' _) (by simp) (by simpa using hc')
  · have ha' : a < 2048 := by
      have hlt : a < r.bufferSize.toNat := ha
      unfold clustersOf at hsize
      split at hsize <;> omega
    simp [Volume.deliver, blit, hdata, filePartCluster, ha']

section calls
variable {s : State} {live : Finset Nat} {q : Request} (h : Inv s.volume live) (hp : q.parent ∈ live)
include h hp

theorem read_returns (hn : q.Named) : ∃ s', read 512 s q = some (s.volume.read q, s') ∧ s'.volume = s.volume :=
  have ho : Ordinary s.volume live (.read q) := ⟨hp, hn⟩
  exec_eq (Nat.le_refl 512) h ho

/-- `delete` of a file returns 0 and empties its row; no unused cluster is taken. -/
theorem delete_file {k : Fin 64} (hrow : findRow (s.volume.table q.parent) q = some k)
    (hu : (s.volume.table q.parent k).Used) (hfo : ¬ (s.volume.table q.parent k).Folder) :
    ∃ l s', delete 512 s q = some (0, s') ∧ Inv s'.volume live ∧
      (∀ c ∈ s.fatTable.freeClusters, c ∈ s'.fatTable.freeClusters) ∧
      Change s.volume s'.volume live live q k zeroEntry l := by
  obtain ⟨out, hout, hdoes, ho⟩ := delete_outcome h hp (Nat.le_refl 512) fun row hf => by
    rw [hrow] at hf
    exact Option.some.inj hf ▸ hu
  have hr : s.volume.LiveRow live q.parent k := ⟨hp, (findRow_eq_some hrow).1, hu⟩
  obtain ⟨l, hl, -, hR⟩ := h.chain hr
  have heff : s.volume.delete q = s.volume.unlink q k l := by
    have hdir : isDirectory (s.volume.table q.parent) = true :=
      isDirectory_iff.2 ⟨(h.self _ hp).1, (h.self _ hp).2.1⟩
    have hattr : ¬ (s.volume.table q.parent k).attr = attrSubdirectory := hfo
    simp [Volume.delete, hdir, hrow, hattr, chain_eq hl fun c hc => (hR c hc).2]
  have hv := hdoes.volume
  have hcode := hdoes.code
  rw [heff] at hv hcode
  refine ⟨l, out.2, hout.trans (congrArg some (Prod.ext hcode rfl)), ?_, fun c hc => ?_, ?_⟩
  · rw [hv]
    exact unlink_inv h hp hr hfo hl
  · have hfat : out.2.fatTable = Volume.eraseFat s.fatTable l := congrArg Volume.fat hv
    obtain ⟨hc512, hc0⟩ := Fat.mem_freeClusters.1 hc
    rw [hfat, Fat.mem_freeClusters]
    refine ⟨hc512, ?_⟩
    by_cases hcl : c ∈ l
    · exact Volume.eraseFat_get_of_mem (fun x hx => (hR x hx).2) hcl
    · rw [Volume.eraseFat_get_of_notMem hcl, hc0]
  · rw [hv]
    exact h.unlink_change hr hrow hfo hl

end calls

section calls
variable {s : State} {live : Finset Nat} {q : Request} (h : Inv s.volume live) (hp : q.parent ∈ live)
include h hp

/-- `write` of one cluster changes nothing or makes the file. -/
theorem write_cluster (hsize : q.bufferSize = 2048) (hfree : s.fatTable.freeClusters ≠ []) :
    (s.volume.Refused q ∧ (write s q).1 ≠ 0 ∧ (write s q).2.volume = s.volume) ∨
    (¬ s.volume.Refused q ∧ (write s q).1 = 0 ∧ ∃ row c, ¬ (s.volume.table q.parent row).Used ∧
      Change s.volume (write s q).2.volume live live q row (newFile q c) [c] ∧
      HoldsFile (write s q).2.volume q.parent row ⟨q.name, q.ext, q.bufferSize, q.buf⟩) := by
  obtain ⟨hp2, hp512, -⟩ := h.live_cluster hp
  have hz : q.bufferSize ≠ 0 := by simp [hsize]
  have hone : clustersOf q.bufferSize.toNat = 1 := by
    rw [hsize]
    rfl
  have hfit : s.volume.Fits q := by
    rw [Volume.Fits, Volume.needed, if_neg hz, hone]
    exact List.length_pos_of_ne_nil hfree
  have hdoes := write_does hfit
  rcases s.volume.write_cases q with ⟨code, hcode, hw⟩ | ⟨row, c, l, -, -, -, hz', -, -⟩ |
    ⟨row, c, l, href, hrow, -, -, htake, hw⟩
  · have href : s.volume.Refused q := by
      by_contra href
      have hzero := h.write_code hfit href
      rw [hw] at hzero
      exact hcode hzero
    rw [hw] at hdoes
    exact .inl ⟨href, hdoes.code ▸ hcode, hdoes.volume⟩
  · exact absurd hz' hz
  · have hlen := congrArg List.length htake
    rw [List.length_take, hone, List.length_cons] at hlen
    obtain rfl : l = [] := List.length_eq_zero_iff.1 (by omega)
    have hc : ∀ x ∈ [c], x ∈ s.volume.fat.freeClusters := fun x hx => List.mem_of_mem_take (htake ▸ hx)
    obtain ⟨hc3, hc512, -, hclive⟩ := h.of_free (hc c (by simp))
    obtain ⟨hrow2, hu⟩ := findFreeRow_eq_some hrow
    rw [hw] at hdoes
    refine .inr ⟨href, hdoes.code, row, c, hu, ?_, ?_⟩
    · rw [hdoes.volume]
      exact h.mkfile_change hp hrow hc
    · rw [hdoes.volume]
      exact holdsFile_mkfile hp2 hp512 hrow2 hone hc3 hc512 fun hcp => hclive (hcp ▸ hp)

/-- `write` leaves the rows in use alone. -/
theorem write_keeps_row (hsize : q.bufferSize = 2048) (hfree : s.fatTable.freeClusters ≠ []) {d : Nat} {i : Fin 64}
    (hd : d ∈ live) (hu : (s.volume.table d i).Used) :
    (write s q).2.volume.table d i = s.volume.table d i := by
  rcases write_cluster h hp hsize hfree with ⟨-, -, hv⟩ | ⟨-, -, row, c, hrow, hch, -⟩
  · rw [hv]
  · refine hch.table_of_ne h hd ?_
    rintro ⟨rfl, rfl⟩
    exact hrow hu

/-- What stops no `write`: a directory with an unused row and a new name that is not blank. -/
theorem not_refused_of (hno : NoEntry s.volume q.parent q.name q.ext) (hn : q.name ≠ fun _ => 0)
    (hrow : (findFreeRow (s.volume.table q.parent)).isSome = true) : ¬ s.volume.Refused q := by
  have hdir : isDirectory (s.volume.table q.parent) = true := isDirectory_iff.2 ⟨(h.self _ hp).1, (h.self _ hp).2.1⟩
  have hfind : findRow (s.volume.table q.parent) q = none := by
    cases hf : findRow (s.volume.table q.parent) q with
    | none => rfl
    | some j =>
      obtain ⟨hj, hname, hext⟩ := findRow_eq_some hf
      by_cases hu : (s.volume.table q.parent j).Used
      · exact absurd ⟨hname, hext⟩ (hno j hj hu)
      · exact absurd (hname.symm.trans (h.unused _ hp j hj hu).1) hn
  obtain ⟨row, hrow⟩ := Option.isSome_iff_exists.1 hrow
  simp [Volume.Refused, hdir, hfind, hrow]

end calls

/-! ## The commands -/

section
variable {fuel : Nat} {garbage : Nat → UInt8} {t : Table} {s : State} {argument1 argument2 : Arg}
variable {source target : Request} {out : Reply × State} {gone : Int × State}
variable (hsource : sourceRequest garbage t argument1 = source)
include hsource

theorem mv_idle (hno : retarget t argument2 source = none) : mv fuel garbage t s argument1 argument2 = some ([], s) := by
  subst hsource
  unfold mv
  dsimp only
  rw [hno]

theorem mv_calls (htarget : retarget t argument2 source = some target) (hread : read fuel s source = some out)
    (hdel : delete fuel out.2 { source with buf := out.1.buf } = some gone) :
    mv fuel garbage t s argument1 argument2 = if clusterNeeded t argument1 = 0 ∧ out.1.code = 0 then none else
      some ([out.1.code, gone.1, (write gone.2 { target with buf := out.1.buf }).1],
        (write gone.2 { target with buf := out.1.buf }).2) := by
  subst hsource
  unfold mv
  dsimp only
  rw [htarget]
  dsimp only
  rw [hread, Option.bind_eq_bind, Option.bind_some]
  split
  next => rfl
  next => rw [hdel]; rfl

theorem cp_idle (hno : retarget t argument2 source = none) : cp fuel garbage t s argument1 argument2 =
    if 1 < clusterNeeded t argument1 then none else some ([], s) := by
  subst hsource
  unfold cp
  dsimp only
  rw [hno]

theorem cp_calls (htarget : retarget t argument2 source = some target) (hread : read fuel s source = some out) :
    cp fuel garbage t s argument1 argument2 = if 1 < clusterNeeded t argument1 then none else
      some ([out.1.code, (write out.2 { target with buf := out.1.buf }).1],
        (write out.2 { target with buf := out.1.buf }).2) := by
  subst hsource
  unfold cp
  dsimp only
  rw [htarget]
  dsimp only
  rw [hread]
  rfl

end

section preserve
variable {s : State} {live : Finset Nat} {d e : Nat} {i : Fin 64} {w : Word} {argument2 : Arg} {F G : File}
variable {garbage : Nat → UInt8}
variable (h : Inv s.volume live) (hpl : RowsPlain s.volume live) (hd : d ∈ live) (hF : HoldsFile s.volume d i F)
variable (hw : w.arg.info = F.name) (hext : F.ext = fun _ => 0)

section names
include hF hw hext

include h hd in
theorem sourceRequest_names (garbage : Nat → UInt8) :
    Names (sourceRequest garbage (s.volume.table d) w.arg) s.volume d i :=
  ⟨sourceRequest_parent h hd garbage w.arg, (w.arg_name.trans hw).trans hF.name.symm, (hF.ext.trans hext).symm⟩

theorem exists_getEntryRow : ∃ row, getEntryRow (s.volume.table d) w.arg = some row := by
  have harg : w.arg.ext = fun _ => 0 := rfl
  rw [← Option.isSome_iff_exists, getEntryRow, Fin.isSome_find?_iff]
  exact ⟨i, by simp [hF.row2, hF.name, hF.ext, hw, hext, harg]⟩

theorem argumentEntry_alone (hno : ∀ j < i, ¬ ((s.volume.table d j).name = F.name ∧ (s.volume.table d j).ext = F.ext)) :
    argumentEntry (s.volume.table d) w.arg = s.volume.table d i := by
  have harg : w.arg.ext = fun _ => 0 := rfl
  obtain ⟨row, hrow⟩ := exists_getEntryRow hF hw hext
  obtain ⟨hr2, hrname, hrext⟩ := getEntryRow_eq_some hrow
  have hle : ¬ row < i := fun hlt => hno row hlt ⟨hrname.trans hw, hrext.trans hext.symm⟩
  have hge : ¬ i < row := by
    intro hlt
    have hmin := (Fin.find?_eq_some_iff.1 hrow).2 i hlt
    simp [hF.row2, hF.name, hF.ext, hw, hext, harg] at hmin
  obtain rfl : row = i := le_antisymm (not_lt.1 hge) (not_lt.1 hle)
  exact argumentEntry_of_row hrow

include hpl hd in
/-- A file in use has a name. -/
theorem sourceRequest_named (garbage : Nat → UInt8) : (sourceRequest garbage (s.volume.table d) w.arg).Named := by
  rintro ⟨hname, -⟩
  have hblank : F.name = fun _ => 0 := (w.arg_name.trans hw).symm.trans hname
  exact hF.file ((hpl d hd i hF.row2).2 hF.used ⟨hF.name.trans hblank, hF.ext.trans hext⟩)

end names

variable (hdest : Destination s.volume d argument2 F e G) (hfree : s.fatTable.freeClusters ≠ [])
include h hd hdest

include hpl hF hw hext in
/-- The two requests of a command. -/
theorem exists_source (garbage : Nat → UInt8) :
    ∃ q, sourceRequest garbage (s.volume.table d) w.arg = q ∧ Names q s.volume d i ∧ q.Named ∧
      ((∃ target, retarget (s.volume.table d) argument2 q = some target ∧ Aims target e G) ∨
        retarget (s.volume.table d) argument2 q = none ∧ G.name = fun _ => 0) :=
  ⟨_, rfl, sourceRequest_names h hd hF hw hext garbage, sourceRequest_named hpl hd hF hw hext garbage,
    retarget_cases h hd hpl hdest (w.arg_name.trans hw) garbage⟩

/-- What the last call comes to: the new entry is the row it fills. -/
theorem write_holds {t : State} {target : Request} (ht : Inv t.volume live) (hno : NoEntry t.volume e G.name G.ext)
    (hfree' : t.fatTable.freeClusters ≠ []) (haims : Aims target e G) {j : Fin 64}
    (hG : HoldsFile (write t target).2.volume e j G) :
    G.size = 2048 ∧ G.ext = (fun _ => 0) ∧ G.name ≠ (fun _ => 0) ∧ (findFreeRow (t.volume.table e)).isSome = true := by
  obtain ⟨rfl, hname, hext', hsize⟩ := haims
  have hp := hdest.mem_live h hd
  rcases write_cluster ht hp hsize hfree' with ⟨-, -, hv⟩ | ⟨href, -, row, c, hu, hch, hnew⟩
  · rw [hv] at hG
    exact absurd ⟨hG.name, hG.ext⟩ (hno j hG.row2 hG.used)
  · obtain ⟨-, rfl⟩ := hG.row_of_new ht hch hp hno
    obtain ⟨-, ⟨free, hrow⟩, hfind⟩ := Volume.not_refused href
    refine ⟨hG.size.symm.trans (hnew.size.trans hsize), hG.ext.symm.trans (hnew.ext.trans hext'), fun hblank => ?_, by simp [hrow]⟩
    -- an unused row has the blank name, so `write` would have found it
    obtain ⟨hb, hb'⟩ := ht.unused _ hp j hG.row2 hu
    refine findRow_eq_none hfind hG.row2 ⟨hb.trans ?_, hb'.trans hext'.symm⟩
    exact (hname.trans hblank).symm

include hpl hF hw hext hfree

omit h hd hdest hF hw hext hpl in
/-- A file found by `read` is the one that `delete` removes. -/
theorem mv_moves {k : Fin 64} {q target : Request} (h : Inv s.volume live) (hqd : q.parent ∈ live) (hnamed : q.Named)
    (hneeded : clusterNeeded (s.volume.table d) w.arg ≠ 0)
    (hqdef : sourceRequest garbage (s.volume.table d) w.arg = q)
    (htarget : retarget (s.volume.table d) argument2 q = some target)
    (hk : Volume.findAnyRow (s.volume.table q.parent) q = some k) (hkf : ¬ (s.volume.table q.parent k).Folder) :
    ∃ l t, mv 512 garbage (s.volume.table d) s w.arg argument2 =
        some ([(s.volume.read q).code, 0, (write t { target with buf := (s.volume.read q).buf }).1],
          (write t { target with buf := (s.volume.read q).buf }).2) ∧
      Inv t.volume live ∧ t.fatTable.freeClusters ≠ [] ∧
      Change s.volume t.volume live live { q with buf := (s.volume.read q).buf } k zeroEntry l := by
  obtain ⟨t1, hread, hv1⟩ := read_returns h hqd hnamed
  obtain ⟨hkname, hkext⟩ := sameName_iff.1 (Fin.eq_true_of_find?_eq_some hk)
  have hk2 := h.row_of_not_folder hqd hkf
  have hku := h.used_of_named hqd hnamed hk2 hkname hkext
  have hfind : findRow (t1.volume.table q.parent) { q with buf := (s.volume.read q).buf } = some k := by
    rw [hv1]
    obtain ⟨hsame, hmin⟩ := Fin.find?_eq_some_iff.1 hk
    refine Fin.find?_eq_some_iff.2 ⟨?_, fun j hj => ?_⟩
    · rw [Bool.and_eq_true, decide_eq_true_eq]
      exact ⟨hk2, hsame⟩
    · rw [Bool.and_eq_false_iff]
      exact .inr (hmin j hj)
  rw [← hv1] at h hku hkf
  obtain ⟨l, t, hdel, hinv, hmono, hch⟩ := delete_file (q := { q with buf := (s.volume.read q).buf }) h hqd hfind hku hkf
  have hfat : t1.fatTable = s.fatTable := congrArg Volume.fat hv1
  obtain ⟨c, hc⟩ := List.exists_mem_of_ne_nil _ hfree
  rw [hv1] at hch
  have hcalls := mv_calls hqdef htarget hread hdel
  rw [if_neg fun hx => hneeded hx.1] at hcalls
  exact ⟨l, t, hcalls, hinv, List.ne_nil_of_mem (hmono c (hfat ▸ hc)), hch⟩

/-- **`mv` needs a file that is as long as its buffer** and found first under its name. -/
theorem movable_of_mv (hmv : MvPreserves garbage s d i w.arg argument2 F e G) : Movable s.volume d i F G := by
  obtain ⟨codes, s', hmv, ⟨j, hG⟩, hgone, hfail⟩ := hmv
  obtain ⟨q, hqdef, hq, hnamed, htargets⟩ := exists_source h hpl hd hF hw hext hdest garbage
  rcases htargets with ⟨target, htarget, haims⟩ | ⟨hno, -⟩
  swap
  · obtain ⟨-, rfl⟩ := Prod.mk.inj (Option.some.inj (hmv.symm.trans (mv_idle hqdef hno)))
    exact absurd ⟨hG.name, hG.ext⟩ (hdest.noEntry j hG.row2 hG.used)
  have he := hdest.mem_live h hd
  have hqd : q.parent ∈ live := hq.parent.symm ▸ hd
  -- a call that fails would have to leave the entry that has to go
  have hcodes : ∀ c ∈ codes, c = 0 := by
    intro c hc
    by_contra hne
    have hold := hfail ⟨c, hc, hne⟩
    exact hgone ⟨hold.used, hold.name, hold.ext⟩
  have hread0 : (s.volume.read q).code = 0 ∧ clusterNeeded (s.volume.table d) w.arg ≠ 0 := by
    obtain ⟨t1, hread, hv1⟩ := read_returns h hqd hnamed
    obtain ⟨gone, hdel, -⟩ := delete_outcome (s := t1) (r := { q with buf := (s.volume.read q).buf }) (hv1.symm ▸ h) hqd
      (Nat.le_refl 512) fun k hf => by
        obtain ⟨hk2, hkname, hkext⟩ := findRow_eq_some hf
        rw [hv1] at hkname hkext ⊢
        exact h.used_of_named hqd hnamed hk2 hkname hkext
    rw [mv_calls hqdef htarget hread hdel] at hmv
    split at hmv
    next => cases hmv
    next hstored =>
      obtain ⟨rfl, -⟩ := Prod.mk.inj (Option.some.inj hmv)
      have hcode : (s.volume.read q).code = 0 := hcodes _ (by simp)
      exact ⟨hcode, fun hnone => hstored ⟨hnone, hcode⟩⟩
  obtain ⟨k, hk, hkf⟩ := read_code_zero hread0.1
  obtain ⟨l, t, hmoves, hinv, hfree', hch⟩ := mv_moves hfree h hqd hnamed hread0.2 hqdef htarget hk hkf
  obtain ⟨rfl, rfl⟩ := Prod.mk.inj (Option.some.inj (hmv.symm.trans hmoves))
  have hno := hdest.noEntry.change h hch he not_used_zeroEntry
  have haims' := haims.withBuf (s.volume.read q).buf
  obtain ⟨hsize, hGext, hGname, -⟩ := write_holds h hd hdest hinv hno hfree' haims' hG
  refine ⟨hdest.same.1.symm.trans hsize, fun m hm hsame => hgone ?_, hGname, hGext⟩
  -- an earlier row is the one that goes, so this one stays
  have hki : k < i := by
    refine lt_of_le_of_lt (not_lt.1 fun hlt => ?_) hm
    have hmin := (Fin.find?_eq_some_iff.1 hk).2 m hlt
    rw [Bool.eq_false_iff, ne_eq, sameName_iff, hq.parent, hq.name, hq.ext, hF.name, hF.ext] at hmin
    exact hmin hsame
  have hold : t.volume.table d i = s.volume.table d i := hch.table_of_ne h hd fun hx => hki.ne hx.2.symm
  have hu : (t.volume.table d i).Used := hold ▸ hF.used
  rw [write_keeps_row hinv (haims'.parent.symm ▸ he) haims'.size hfree' hd hu, hold]
  exact ⟨hF.used, hF.name, hF.ext⟩

omit h hpl hd hdest hfree in
theorem Movable.clusterNeeded (hm : Movable s.volume d i F G) : clusterNeeded (s.volume.table d) w.arg = 1 := by
  rw [MoggersOs.clusterNeeded, argumentEntry_alone hF hw hext hm.alone, hF.size, hm.size]
  rfl

omit hdest hfree in
/-- A file that is found first is read whole. -/
theorem read_copies (hm : Movable s.volume d i F G) {q : Request}
    (hqdef : sourceRequest garbage (s.volume.table d) w.arg = q) :
    Volume.findAnyRow (s.volume.table q.parent) q = some i ∧ (s.volume.read q).code = 0 ∧
      ∀ a < 2048, (s.volume.read q).buf a = F.bytes a := by
  have hq := sourceRequest_names h hd hF hw hext garbage
  have hnamed := sourceRequest_named hpl hd hF hw hext garbage
  have hsize : (s.volume.table d i).filesize = 2048 := hF.size.trans hm.size
  have hbuf : q.buf = cleared 1 garbage := by
    rw [← hqdef, sourceRequest, hm.clusterNeeded hF hw hext]
  have hbs : q.bufferSize = 2048 := hqdef ▸ rfl
  rw [hqdef] at hq hnamed
  have hfirst : ∀ j < i, ¬ ((s.volume.table d j).name = q.name ∧ (s.volume.table d j).ext = q.ext) := by
    rw [hq.name, hq.ext, hF.name, hF.ext]
    exact hm.alone
  have hr : s.volume.LiveRow live d i := ⟨hd, hF.row2, hF.used⟩
  obtain ⟨l, t, hl, hread⟩ := read_names h hr hF.file hq (by rw [hsize, hbs]; exact UInt32.le_refl _) hfirst
  obtain ⟨t', hread', -⟩ := read_returns h (hq.parent.symm ▸ hd) hnamed
  obtain ⟨hreply, -⟩ := Prod.mk.inj (Option.some.inj (hread'.symm.trans hread))
  obtain ⟨l', hl', hbytes⟩ := hF.bytes
  obtain rfl := hl.unique hl'
  rw [hreply]
  refine ⟨?_, rfl, fun a ha => ?_⟩
  · rw [hq.parent]
    refine Fin.find?_eq_some_iff.2 ⟨sameName_of_names hq, fun j hj => ?_⟩
    rw [Bool.eq_false_iff, ne_eq, sameName_iff]
    exact hfirst j hj
  · rw [← hbytes a (by rw [hm.size]; exact ha)]
    refine deliver_apply_congr ?_
    rw [hbuf, cleared, if_pos (by omega)]

omit hpl hF hw hext hfree in
/-- What the last call comes to when nothing is in its way. -/
theorem write_arrives (hm : Movable s.volume d i F G) {t : State} {target : Request} (ht : Inv t.volume live)
    (hno : NoEntry t.volume e G.name G.ext) (hfree' : t.fatTable.freeClusters ≠ []) (haims : Aims target e G)
    (hroom : (findFreeRow (t.volume.table e)).isSome = true) (hbuf : ∀ a < 2048, target.buf a = F.bytes a) :
    (write t target).1 = 0 ∧ ∃ row c, ¬ (t.volume.table e row).Used ∧
      Change t.volume (write t target).2.volume live live target row (newFile target c) [c] ∧
      HoldsFile (write t target).2.volume e row G := by
  obtain ⟨rfl, hname, hext', hsize⟩ := haims
  have hp := hdest.mem_live h hd
  have href : ¬ t.volume.Refused target := by
    refine not_refused_of ht hp ?_ (by rw [hname]; exact hm.name) hroom
    rw [hname, hext', ← hm.ext]
    exact hno
  rcases write_cluster ht hp hsize hfree' with ⟨hrefused, -⟩ | ⟨-, hcode, row, c, hu, hch, hnew⟩
  · exact absurd hrefused href
  · obtain ⟨hGsize, hGbytes⟩ := hdest.same
    refine ⟨hcode, row, c, hu, hch, hnew.congr hname (hext'.trans hm.ext.symm)
      (hsize.trans (hm.size.symm.trans hGsize.symm)) fun a ha => ?_⟩
    rw [hGbytes]
    exact hbuf a (by rw [hsize] at ha; exact ha)

/-- **`mv` moves such a file**, with all codes 0. -/
theorem mv_of_movable (hm : Movable s.volume d i F G) : MvPreserves garbage s d i w.arg argument2 F e G := by
  have hneeded := hm.clusterNeeded hF hw hext
  obtain ⟨q, hqdef, hq, hnamed, htargets⟩ := exists_source h hpl hd hF hw hext hdest garbage
  obtain ⟨target, htarget, haims⟩ := htargets.resolve_right fun hx => hm.name hx.2
  obtain ⟨hk, hread0, hbuf⟩ := read_copies h hpl hd hF hw hext hm hqdef
  obtain ⟨l, t, hmoves, hinv, hfree', hch⟩ := mv_moves hfree h (hq.parent.symm ▸ hd) hnamed (by omega) hqdef htarget hk
    (hq.parent.symm ▸ hF.file)
  have he := hdest.mem_live h hd
  have hno := hdest.noEntry.change h hch he not_used_zeroEntry
  have hself : t.volume.table d i = zeroEntry := by
    rw [← hq.parent]
    exact hch.edit.table_self
  -- the row of the old entry is unused by now
  have hroom : (findFreeRow (t.volume.table e)).isSome = true := by
    rcases hdest.room with rfl | hfree
    · exact findFreeRow_isSome hF.row2 (hself ▸ not_used_zeroEntry)
    · obtain ⟨r, hr⟩ := Option.isSome_iff_exists.1 hfree
      obtain ⟨hr2, hru⟩ := findFreeRow_eq_some hr
      refine findFreeRow_isSome hr2 fun hu => ?_
      by_cases hrow' : e = d ∧ r = i
      · obtain ⟨rfl, rfl⟩ := hrow'
        exact hru hF.used
      · rw [hch.table_of_ne h he (by rw [← hq.parent] at hrow'; exact hrow')] at hu
        exact hru hu
  obtain ⟨hcode, row, c, hu, hch', hG⟩ := write_arrives h hd hdest hm hinv hno hfree' (haims.withBuf _) hroom hbuf
  refine ⟨_, _, hmoves, ⟨row, hG⟩, ?_, ?_⟩
  · rintro ⟨hused, hname, hext'⟩
    by_cases hrow' : d = e ∧ i = row
    · obtain ⟨rfl, rfl⟩ := hrow'
      exact hdest.ne hF ⟨rfl, hG.name.symm.trans hname, hG.ext.symm.trans hext'⟩
    · rw [hch'.table_of_ne hinv hd (by rw [(haims.withBuf _).parent]; exact hrow'), hself] at hused
      exact not_used_zeroEntry hused
  · simp [hread0, hcode]

/-- **`cp` needs an unused row** at the destination. -/
theorem room_of_cp (hcp : CpPreserves garbage s d i w.arg argument2 F e G) :
    (findFreeRow (s.volume.table e)).isSome = true := by
  obtain ⟨codes, s', hcp, ⟨j, hG⟩, -⟩ := hcp
  obtain ⟨q, hqdef, hq, hnamed, htargets⟩ := exists_source h hpl hd hF hw hext hdest garbage
  rcases htargets with ⟨target, htarget, haims⟩ | ⟨hidle, -⟩
  · obtain ⟨t, hread, hv⟩ := read_returns h (hq.parent.symm ▸ hd) hnamed
    rw [cp_calls hqdef htarget hread] at hcp
    split at hcp
    · simp at hcp
    · obtain ⟨-, rfl⟩ := Prod.mk.inj (Option.some.inj hcp)
      have hfat : t.fatTable = s.fatTable := congrArg Volume.fat hv
      have hwrite := write_holds h hd hdest (hv.symm ▸ h) (hv.symm ▸ hdest.noEntry) (hfat.symm ▸ hfree)
        (haims.withBuf (s.volume.read q).buf) hG
      rw [hv] at hwrite
      exact hwrite.2.2.2
  · rw [cp_idle hqdef hidle] at hcp
    split at hcp
    · simp at hcp
    · obtain ⟨-, rfl⟩ := Prod.mk.inj (Option.some.inj hcp)
      exact absurd ⟨hG.name, hG.ext⟩ (hdest.noEntry j hG.row2 hG.used)

/-- **`cp` copies such a file** if there is one. -/
theorem cp_of_movable (hm : Movable s.volume d i F G) (hroom : (findFreeRow (s.volume.table e)).isSome = true) :
    CpPreserves garbage s d i w.arg argument2 F e G := by
  have hneeded := hm.clusterNeeded hF hw hext
  obtain ⟨q, hqdef, hq, hnamed, htargets⟩ := exists_source h hpl hd hF hw hext hdest garbage
  obtain ⟨target, htarget, haims⟩ := htargets.resolve_right fun hx => hm.name hx.2
  obtain ⟨-, -, hbuf⟩ := read_copies h hpl hd hF hw hext hm hqdef
  obtain ⟨t, hread, hv⟩ := read_returns h (hq.parent.symm ▸ hd) hnamed
  have hcalls := cp_calls hqdef htarget hread
  rw [if_neg (by omega)] at hcalls
  have hfat : t.fatTable = s.fatTable := congrArg Volume.fat hv
  have haims' := haims.withBuf (s.volume.read q).buf
  obtain ⟨-, row, c, -, hch, hG⟩ := write_arrives h hd hdest hm (hv.symm ▸ h) (hv.symm ▸ hdest.noEntry) (hfat.symm ▸ hfree)
    haims' (hv.symm ▸ hroom) hbuf
  rw [hv] at hch
  refine ⟨_, _, hcalls, ⟨row, hG⟩, hF.change h hch hd (haims'.parent.symm ▸ hdest.mem_live h hd) ?_⟩
  rw [haims'.parent, haims'.name, haims'.ext, ← hm.ext]
  exact hdest.ne hF

end preserve

/-- **When `mv` and `cp` preserve a file.** After safe requests, with the table of a live directory in `current_dir`:
`mv` moves a file without extension to its destination exactly if the file has 2048 bytes, no earlier row of the
directory, its own two included, has its name, and the new name is not blank and has no extension. `cp` then
copies it exactly if the destination has an unused row. -/
theorem mv_cp_preserve_iff {s : State} {live : Finset Nat} {d e : Nat} {i : Fin 64} {w : Word} {argument2 : Arg}
    {F G : File} (h : Run Safe s live) (hd : d ∈ live) (hF : HoldsFile s.volume d i F) (hw : w.arg.info = F.name)
    (hext : F.ext = fun _ => 0) (hdest : Destination s.volume d argument2 F e G)
    (hfree : clustersOf F.size.toNat ≤ s.fatTable.freeClusters.length) (garbage : Nat → UInt8) :
    (MvPreserves garbage s d i w.arg argument2 F e G ↔ Movable s.volume d i F G) ∧
    (MvPreserves garbage s d i w.arg argument2 F e G ∧ CpPreserves garbage s d i w.arg argument2 F e G ↔
      Movable s.volume d i F G ∧ (findFreeRow (s.volume.table e)).isSome = true) := by
  obtain ⟨hinv, hpl⟩ := h.rowsPlain
  have hne : s.fatTable.freeClusters ≠ [] := by
    obtain ⟨l, hl, hlen, -⟩ := hinv.chain ⟨hd, hF.row2, hF.used⟩
    rw [DirEntry.clusters, if_neg hF.file, hF.size] at hlen
    have hpos := List.length_pos_of_ne_nil hl.ne_nil
    exact List.ne_nil_of_length_pos (by omega)
  have hmv : MvPreserves garbage s d i w.arg argument2 F e G ↔ Movable s.volume d i F G :=
    ⟨movable_of_mv hinv hpl hd hF hw hext hdest hne, mv_of_movable hinv hpl hd hF hw hext hdest hne⟩
  refine ⟨hmv, ⟨fun hx => ?_, fun hx => ?_⟩⟩
  · exact ⟨hmv.1 hx.1, room_of_cp hinv hpl hd hF hw hext hdest hne hx.2⟩
  · exact ⟨hmv.2 hx.1, cp_of_movable hinv hpl hd hF hw hext hdest hne hx.1 hx.2⟩

/-! ## On a fresh volume -/

/-- A fresh volume with a file of `n` bytes in row 2 of the root. -/
def oneFile (n : UInt32) : State := (write (createFat32 blankState) (fileRequest n)).2

def fileOf (n : UInt32) : File := ⟨fileName, fun _ => 0, n, fun _ => 1⟩

/-- The words `f` and `g`. -/
def fWord : Word := ⟨[102], by decide, by simp⟩
def gWord : Word := ⟨[103], by decide, by simp⟩

section fresh
variable {n : UInt32} (hn : clustersOf n.toNat = 1)

theorem fileRequest_named (n : UInt32) : (fileRequest n).Named := fun hx =>
  absurd (show fileName 0 = 0 from congrFun hx.1 0) (by decide)

include hn

theorem oneFile_volume : (oneFile n).volume =
    (createFat32 blankState).volume.apply ((createFat32 blankState).volume.mkfile (fileRequest n) 2 3 []) := by
  have hvol := (write_does (fileRequest_fits (k := 0) hn (by decide))).volume
  rwa [createFat32_mkfile blankState (k := 0) rfl (fileRequest_named n) hn (by decide)] at hvol

theorem oneFile_run {kind : Volume → Finset Nat → Op → Prop}
    (hk : kind (createFat32 blankState).volume {rootClusterNumber} (.write (fileRequest n))) :
    Run kind (oneFile n) {rootClusterNumber} := by
  have hz : (fileRequest n).bufferSize ≠ 0 := by
    rintro (rfl : n = 0)
    exact absurd hn (by simp [clustersOf])
  have hrun := (Run.format kind blankState).write hk
  rwa [liveAfter_mkfile hz] at hrun

theorem oneFile_holds : HoldsFile (oneFile n).volume rootClusterNumber 2 (fileOf n) := by
  have hp : (fileRequest n).parent = 2 := rfl
  rw [oneFile_volume hn]
  exact holdsFile_mkfile (r := fileRequest n) (by omega) (by omega) (by decide) hn (by decide) (by decide) (by omega)

theorem oneFile_table : (oneFile n).volume.table rootClusterNumber =
    Function.update formattedRoot 2 (newFile (fileRequest n) 3) :=
  firstFile_table blankState rfl (fileRequest_named n) hn

theorem oneFile_free : (oneFile n).fatTable.freeClusters ≠ [] := by
  have hfat : (oneFile n).volume.fat = formattedFat.set 3 fatEndOfFile := by
    rw [oneFile_volume hn]
    rfl
  have hfree : 4 ∈ (oneFile n).fatTable.freeClusters := by
    rw [← State.volume_fat, hfat, Fat.mem_freeClusters]
    exact ⟨by decide, by decide⟩
  intro hnil
  rw [hnil] at hfree
  exact List.not_mem_nil hfree

/-- `f` and the new name `g`. -/
theorem oneFile_destination : Destination (oneFile n).volume rootClusterNumber gWord.arg (fileOf n) rootClusterNumber
    { fileOf n with name := gWord.arg.info, ext := gWord.arg.ext } := by
  refine .rename fun j hj hu => ?_
  rw [oneFile_table hn] at hu ⊢
  rintro ⟨hname, -⟩
  by_cases h2 : j = 2
  · rw [h2, Function.update_self] at hname
    exact absurd (show fileName 0 = gWord.arg.info 0 from congrFun hname 0) (by decide)
  · rw [Function.update_of_ne h2, formattedRoot_of_ge hj] at hu
    exact not_used_zeroEntry hu

end fresh

theorem fileRequest_safe {n : UInt32} (hn : clustersOf n.toNat = 1) :
    Safe (createFat32 blankState).volume {rootClusterNumber} (.write (fileRequest n)) :=
  ⟨Finset.mem_singleton_self rootClusterNumber, .inl (fileRequest_fits (k := 0) hn (by decide))⟩

/-- `mv f g` and `cp f g` with a file of 2048 bytes. -/
theorem mv_cp_preserve_2048 :
    MvPreserves (fun _ => 0) (oneFile 2048) rootClusterNumber 2 fWord.arg gWord.arg (fileOf 2048) rootClusterNumber
        { fileOf 2048 with name := gWord.arg.info, ext := gWord.arg.ext } ∧
      CpPreserves (fun _ => 0) (oneFile 2048) rootClusterNumber 2 fWord.arg gWord.arg (fileOf 2048) rootClusterNumber
        { fileOf 2048 with name := gWord.arg.info, ext := gWord.arg.ext } := by
  have hn : clustersOf (2048 : UInt32).toNat = 1 := rfl
  have hfree : clustersOf (fileOf 2048).size.toNat ≤ (oneFile 2048).fatTable.freeClusters.length :=
    List.length_pos_of_ne_nil (oneFile_free hn)
  refine (mv_cp_preserve_iff (oneFile_run hn (fileRequest_safe hn)) (by decide) (oneFile_holds hn) (by decide) rfl
    (oneFile_destination hn) hfree _).2.2 ⟨⟨rfl, fun j hj => ?_, by decide, rfl⟩, ?_⟩
  · rw [oneFile_table hn]
    rintro ⟨hname, -⟩
    have hcases : j = 0 ∨ j = 1 := by omega
    rcases hcases with rfl | rfl
    · exact absurd (congrFun hname 0) (by decide)
    · exact absurd (congrFun hname 0) (by decide)
  · rw [oneFile_table hn]
    refine findFreeRow_isSome (j := 3) (by decide) ?_
    decide

/-- `mv f g` with a file of five bytes makes a file of 2048. -/
theorem not_mv_preserves_5 : ¬ ∀ s live d i (w : Word) argument2 F e G garbage, Run LiveParent s live → d ∈ live →
    HoldsFile s.volume d i F → w.arg.info = F.name → (F.ext = fun _ => 0) → Destination s.volume d argument2 F e G →
    clustersOf F.size.toNat ≤ s.fatTable.freeClusters.length →
    MvPreserves garbage s d i w.arg argument2 F e G ∧ CpPreserves garbage s d i w.arg argument2 F e G := by
  intro hall
  have hn : clustersOf (5 : UInt32).toNat = 1 := rfl
  have hfree : clustersOf (fileOf 5).size.toNat ≤ (oneFile 5).fatTable.freeClusters.length :=
    List.length_pos_of_ne_nil (oneFile_free hn)
  have hsafe := fileRequest_safe hn
  obtain ⟨hinv, hpl⟩ := (oneFile_run hn hsafe).rowsPlain
  have hrun : Run LiveParent (oneFile 5) {rootClusterNumber} := oneFile_run hn hsafe.1
  have hmv := (hall (oneFile 5) _ _ 2 fWord gWord.arg (fileOf 5) _ _ (fun _ => 0)
    hrun (by decide) (oneFile_holds hn) (by decide) rfl (oneFile_destination hn)
    hfree).1
  have hm := movable_of_mv hinv hpl (by decide) (oneFile_holds hn) (by decide) rfl (oneFile_destination hn)
    (oneFile_free hn) hmv
  exact absurd hm.size (by decide)

end MoggersOs
