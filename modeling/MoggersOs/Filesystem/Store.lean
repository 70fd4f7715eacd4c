import MoggersOs.Filesystem.Contents
/-
# The driver is a store of named files

What a user of the four operations sees is a `Lib.Namespace`, and replies that follow from it: `Serves` lists them,
without rows, clusters or the table. `driver_refines_store` says that every run of ordinary requests is a run
of that store, reply by reply. From there on a question about many requests is one about the store: what a `read`
returns is what the last `write` of the name has stored, whatever came in between (`read_last_write`).

| here | there |
| --- | --- |
| `Files.Full`   | no unused row is left (`fat32.c:226-239`) |
| `Reads`        | what `read` may reply (`fat32.c:165-211`) |
| `Lists`        | what `read_directory` may reply (`fat32.c:131-163`): it looks for the name alone, also in rows that are not in use |
| `Serves`       | a request, its reply and what is there afterwards (`fat32.h:217-248`) |
-/

namespace MoggersOs

namespace Files

def Full (x : Files) (d : ℕ) : Prop := 62 ≤ {n | x.entry d n ≠ none}.ncard

/-- The reply to `read`: the bytes of the file are in the buffer, and nothing past its last cluster is touched. -/
def Reads (x : Files) (q : Request) (rep : Reply) : Prop :=
  match x.look dotDotName q.parent q.fileName with
  | none => rep = ⟨2, q.buf⟩
  | some (.dir _) => rep = ⟨1, q.buf⟩
  | some (.file b) =>
    if q.bufferSize.toNat < b.length then rep = ⟨-1, q.buf⟩
    else rep.code = 0 ∧ (∀ i (hi : i < b.length), rep.buf i = b[i]) ∧
      ∀ i, 2048 * clustersOf b.length ≤ i → rep.buf i = q.buf i

/-- What a row says about the entry under its name. -/
def Shows (e : DirEntry) : Lib.Node ℕ (List UInt8) → Prop
  | .dir c => e.Folder ∧ e.cluster = c
  | .file b => ¬ e.Folder ∧ e.filesize.toNat = b.length

/-- The table lists directory `d`: itself, the one above it, and each entry once. -/
structure Describes (x : Files) (d : ℕ) (t : Table) : Prop where
  self   : (t 0).fileName = x.own d ∧ (t 0).cluster = d
  up     : (t 1).fileName = dotDotName ∧ (t 1).cluster = x.up d
  rows   : ∀ i : Fin 64, 2 ≤ i.val → (t i).Used → ∃ k, x.entry d (t i).fileName = some k ∧ Shows (t i) k
  listed : ∀ n, x.entry d n ≠ none → ∃! i : Fin 64, 2 ≤ i.val ∧ (t i).Used ∧ (t i).fileName = n

def Lists (x : Files) (q : Request) (rep : Reply) : Prop :=
  (∀ ext, x.look dotDotName q.parent (q.name, ext) = none) ∧ rep = ⟨2, q.buf⟩ ∨
  (∃ ext b, x.look dotDotName q.parent (q.name, ext) = some (.file b)) ∧ rep = ⟨1, q.buf⟩ ∨
  (q.name = (fun _ => 0) ∧ ¬ x.Full q.parent) ∧ rep = ⟨1, q.buf⟩ ∨
  ∃ ext c t, x.look dotDotName q.parent (q.name, ext) = some (.dir c) ∧ rep = ⟨0, blit q.buf 0 t⟩ ∧
    x.Describes c (decodeTable t)

end Files

/-- The store replies to a request. -/
inductive Serves (x : Files) : Op × Reply → Files → Prop
  | full {r : Request} : x.Full r.parent → Serves x (.write r, ⟨-1, r.buf⟩) x
  | taken {r : Request} : ¬ x.Full r.parent → x.entry r.parent r.fileName ≠ none → Serves x (.write r, ⟨1, r.buf⟩) x
  | newFile {r : Request} : r.parent ∈ x.dirs → ¬ x.Full r.parent → x.entry r.parent r.fileName = none →
      r.bufferSize ≠ 0 → Serves x (.write r, ⟨0, r.buf⟩) (x.addFile r.parent r.fileName r.bytes)
  | newDir {r : Request} {c : ℕ} : r.parent ∈ x.dirs → ¬ x.Full r.parent → x.entry r.parent r.fileName = none →
      r.bufferSize = 0 → c ∉ x.dirs → Serves x (.write r, ⟨0, r.buf⟩) (x.addDir r.parent r.fileName c)
  | absent {r : Request} : x.entry r.parent r.fileName = none → Serves x (.delete r, ⟨1, r.buf⟩) x
  | holding {r : Request} {c : ℕ} {n : FileName} : x.entry r.parent r.fileName = some (.dir c) → x.entry c n ≠ none →
      Serves x (.delete r, ⟨2, r.buf⟩) x
  | removed {r : Request} : x.entry r.parent r.fileName ≠ none →
      (∀ c, x.entry r.parent r.fileName = some (.dir c) → ∀ n, x.entry c n = none) →
      Serves x (.delete r, ⟨0, r.buf⟩) (x.remove r.parent r.fileName)
  | read {q : Request} {rep : Reply} : x.Reads q rep → Serves x (.read q, rep) x
  | readDirectory {q : Request} {rep : Reply} : x.Lists q rep → Serves x (.readDirectory q, rep) x

/-! ## The four operations -/

section serve
variable {s s' : State} {live : Finset Nat} {x : Files} {r : Request} {rep : Reply} {fuel : ℕ}
variable (h : Inv s.volume live) (hn : NamesUnique s.volume live) (hx : Represents s.volume live x)
include h hn hx

/-! ### What each change of the volume makes of the store -/

section changes
variable {row : Fin 64} {c : ℕ} {l : List ℕ}
  (honly : ∀ j, s.volume.LiveRow live r.parent j → (s.volume.table r.parent j).fileName = r.fileName → j = row)
include honly

omit hn in
theorem mkdir_represents (hp : r.parent ∈ live) (hz : r.bufferSize = 0) (hext : r.ext = fun _ => 0)
    (hrow : findFreeRow (s.volume.table r.parent) = some row) (hfree : c ∈ s.volume.fat.freeClusters) :
    Represents (s.volume.apply (s.volume.mkdir r row c)) (insert c live) (x.addDir r.parent r.fileName c) := by
  obtain ⟨-, hc512, -, hclive⟩ := h.of_free hfree
  have ha := h.mkdir_added hp hz hext hrow hfree
  have hc : (newDirectory r.name r.parent c 0).cluster = c := by
    rw [newDirectory_zero, DirEntry.setCluster_cluster _ (by omega)]
  have hnew := mkdir_table s.volume r row hc512
  have hpc : r.parent ≠ c := fun he => hclive (he ▸ hp)
  have hold : ∀ d ∈ insert c live, d ≠ c → d ∈ live := fun d hd hdc => Finset.mem_of_mem_insert_of_ne hd hdc
  refine hx.change h hp ha.change honly ?_ ?_ ?_ ?_ ?_
  · simp only [Lib.Namespace.addDir, hx.dirs]
  · intro d hd
    by_cases hdc : d = c
    · rw [hdc, if_neg hclive, hnew, newDirectory_zero]
      simp only [Lib.Namespace.addDir, Function.update_self]
      exact Prod.ext rfl hext
    · rw [if_pos (hold d hd hdc)]
      simp only [Lib.Namespace.addDir, Function.update_of_ne hdc]
  · intro d hd
    by_cases hdc : d = c
    · rw [hdc, if_neg hclive, hnew, newDirectory_one]
      simp only [Lib.Namespace.addDir, Function.update_self]
      have hp512 := (h.live_cluster hp).2.1
      exact ⟨(DirEntry.setCluster_cluster _ (by omega)).symm, rfl⟩
    · rw [if_pos (hold d hd hdc)]
      simp only [Lib.Namespace.addDir, Function.update_of_ne hdc]
  · intro _
    have hfolder : (newDirectory r.name r.parent c 0).Folder := by
      rw [newDirectory_zero]
      rfl
    rw [if_pos ha.used, Volume.node_folder hfolder, hc]
    simp only [Lib.Namespace.addDir, Function.update_of_ne hpc, Lib.Namespace.set_entry_self]
  · intro d hd n hne
    by_cases hdc : d = c
    · rw [hdc, if_neg hclive]
      simp only [Lib.Namespace.addDir, Function.update_self]
    · rw [if_pos (hold d hd hdc)]
      simp only [Lib.Namespace.addDir, Function.update_of_ne hdc, Lib.Namespace.set_entry_of_ne hne]

omit hn in
theorem mkfile_represents (hp : r.parent ∈ live) (hrow : findFreeRow (s.volume.table r.parent) = some row)
    (hfree : ∀ a ∈ c :: l, a ∈ s.volume.fat.freeClusters) (hnd : (c :: l).Nodup)
    (hlen : (c :: l).length = clustersOf r.bufferSize.toNat) :
    Represents (s.volume.apply (s.volume.mkfile r row c l)) live (x.addFile r.parent r.fileName r.bytes) := by
  have ha := h.mkfile_added hp hrow hfree hnd
  refine hx.change h hp ha.change honly hx.dirs (fun d hd => ?_) (fun d hd => ?_) (fun _ => ?_) fun d hd n hne => ?_
  · rw [if_pos hd]
    rfl
  · rw [if_pos hd]
    rfl
  · rw [if_pos ha.used, Volume.node_file (newFile_not_folder r c), bytes_mkfile h hp hfree hnd hlen]
    exact Lib.Namespace.set_entry_self
  · rw [if_pos hd]
    exact Lib.Namespace.set_entry_of_ne hne

end changes

theorem write_serves (ho : Ordinary s.volume live (.write r)) (hexec : exec fuel s (.write r) = some (rep, s')) :
    ∃ y, Serves x (.write r, rep) y ∧ Represents s'.volume (liveAfter s live (.write r) rep.code) y := by
  obtain ⟨rfl, hvol⟩ := exec_volume h ho hexec
  obtain ⟨hp, hnamed, hext, hfit⟩ := ho
  obtain ⟨-, hout⟩ := write_outcome hp (Or.inl hfit)
  have hd : isDirectory (s.volume.table r.parent) = true := isDirectory_iff.2 ⟨(h.self _ hp).1, (h.self _ hp).2.1⟩
  have hfind := hx.findRow h hp hnamed
  simp only [Volume.exec] at hvol ⊢
  have hrefuse : ∀ code, code ≠ 0 → s.volume.write r = s.volume.refuse code →
      Represents s'.volume (liveAfter s live (.write r) (s.volume.write r).code) x := by
    intro code hcode hw
    rw [hvol, hw, liveAfter_of_ne s live _ (show (s.volume.refuse code).code ≠ 0 from hcode)]
    exact hx
  by_cases hfull : findFreeRow (s.volume.table r.parent) = none
  · have hw : s.volume.write r = s.volume.refuse (-1) := by simp [Volume.write, hd, hfull]
    have hy := hrefuse _ (by decide) hw
    rw [hw] at hy ⊢
    exact ⟨x, .full ((hx.full_iff hn hp).1 hfull), hy⟩
  have hroom : ¬ x.Full r.parent := mt (hx.full_iff hn hp).2 hfull
  obtain ⟨row, hrow⟩ := Option.ne_none_iff_exists'.1 hfull
  by_cases hf : (findRow (s.volume.table r.parent) r).isSome = true
  · have hw : s.volume.write r = s.volume.refuse 1 := by simp [Volume.write, hd, hrow, hf]
    have hy := hrefuse _ (by decide) hw
    rw [hw] at hy ⊢
    obtain ⟨i, hi⟩ := Option.isSome_iff_exists.1 hf
    exact ⟨x, .taken hroom (by rw [hfind, hi]; simp), hy⟩
  -- nothing stops the request
  have href : ¬ s.volume.Refused r := by simp [Volume.Refused, hd, hrow, hf]
  have hnone : x.entry r.parent r.fileName = none := by
    rw [hfind, Option.map_eq_none_iff]
    simpa using hf
  have honly : ∀ j, s.volume.LiveRow live r.parent j → (s.volume.table r.parent j).fileName = r.fileName → j = row :=
    fun j hj hname => absurd hname ((hx.entry_eq_none hp).1 hnone j hj)
  have hcode := h.write_code hfit href
  rw [hvol]
  generalize s.volume.write r = fx at hcode hout
  generalize liveAfter s live (.write r) fx.code = live' at hout
  cases hout with
  | refused hne => exact absurd hcode hne
  | lookup hop => rcases hop with ⟨_, he | he⟩ <;> cases he
  | @mkdir _ row' c _ _ hz hrow' hfree =>
    obtain rfl : row = row' := Option.some.inj (hrow.symm.trans hrow')
    obtain ⟨-, -, -, hclive⟩ := h.of_free hfree
    exact ⟨_, .newDir (hx.dirs.symm ▸ hp) hroom hnone hz (hx.dirs.symm ▸ hclive),
      mkdir_represents h hx honly hp hz (hext hz) hrow hfree⟩
  | @mkfile _ row' c l _ _ hz hrow' hfree hnd hlen =>
    obtain rfl : row = row' := Option.some.inj (hrow.symm.trans hrow')
    exact ⟨_, .newFile (hx.dirs.symm ▸ hp) hroom hnone hz, mkfile_represents h hx honly hp hrow hfree hnd hlen⟩

/-- A row that a `delete` clears is no entry any more. -/
theorem removed_represents {row : Fin 64} {e : DirEntry} {l : List ℕ} {v' : Volume} {live' : Finset Nat}
    (hi : s.volume.Holds live r row) (hch : Change s.volume v' live live' r row e l) (he : ¬ e.Used)
    (hsub : ∀ d ∈ live', d ∈ live) (hdirs : (x.remove r.parent r.fileName).dirs = live') :
    Represents v' live' (x.remove r.parent r.fileName) := by
  have honly : ∀ j, s.volume.LiveRow live r.parent j → (s.volume.table r.parent j).fileName = r.fileName → j = row :=
    fun j hj hname => hn.holds_unique hi ⟨hj, fileName_eq.1 hname⟩
  refine hx.change h hi.1.1 hch honly hdirs (fun d hd => ?_) (fun d hd => ?_) (fun _ => ?_) fun d hd n hne => ?_
  · rw [if_pos (hsub d hd)]
    rfl
  · rw [if_pos (hsub d hd)]
    rfl
  · rw [if_neg he]
    exact Lib.Namespace.set_entry_self
  · rw [if_pos (hsub d hd)]
    exact Lib.Namespace.set_entry_of_ne hne

theorem delete_serves (ho : Ordinary s.volume live (.delete r)) (hexec : exec fuel s (.delete r) = some (rep, s')) :
    ∃ y, Serves x (.delete r, rep) y ∧ Represents s'.volume (liveAfter s live (.delete r) rep.code) y := by
  obtain ⟨fx, hout, hcode, hvol, -⟩ := exec_outcome h (ho.safe h) hexec
  obtain ⟨hp, hnamed⟩ := ho
  obtain ⟨out, hret, hex⟩ := h.delete_spec hn hp hnamed
  obtain ⟨out', hout', he⟩ := Option.map_eq_some_iff.1 hexec
  obtain rfl : out = out' := Option.some.inj
    ((hret _ (Nat.le_max_right fuel 512)).symm.trans (delete_mono (Nat.le_max_left fuel 512) hout'))
  obtain ⟨rfl, rfl⟩ := Prod.mk.inj he
  dsimp only at hcode hvol hout ⊢
  have hnone : (∀ i, ¬ s.volume.Holds live r i) → x.entry r.parent r.fileName = none := fun hno =>
    (hx.entry_eq_none hp).2 fun i hi hname => hno i ⟨hi, fileName_eq.1 hname⟩
  by_cases h0 : out.1 = 0
  swap
  · rw [liveAfter_of_ne s live _ h0, (hex.refused h0).1]
    rcases hex.codes with hc | hc | hc
    · exact absurd hc h0
    · rw [hc]
      exact ⟨x, .absent (hnone (hex.absent.1 hc)), hx⟩
    · obtain ⟨i, hi, hf, j, hj⟩ := hex.full.1 hc
      rw [hc]
      refine ⟨x, .holding ((hx.entry_of_holds hi).trans (congrArg some (Volume.node_folder hf)))
        (n := (s.volume.table (s.volume.table r.parent i).cluster j).fileName) ?_, hx⟩
      rw [hx.entry_of_row hj]
      simp
  -- the row is gone, and the entry with it
  rw [h0] at hout ⊢
  rw [hvol]
  generalize liveAfter s live (.delete r) 0 = live' at hout
  cases hout with
  | refused hne => exact absurd (hcode.symm.trans h0) hne
  | lookup hop => rcases hop with ⟨_, he | he⟩ <;> cases he
  | @rmdir _ row c hr hf hfo hc hempty =>
    have hi : s.volume.Holds live r row := h.holds_of_findRow hp hnamed hf
    have hentry := hx.entry_of_holds hi
    rw [Volume.node_folder hfo, hc] at hentry
    have hclive : c ∈ live := hc ▸ (h.folder _ _ hr hfo).1
    refine ⟨_, .removed (by rw [hentry]; simp) fun c' he n => ?_, removed_represents h hn hx hi
      (h.rmdir_change hr hf hfo hc hempty) (not_used_clearEntry _) (fun d hd => Finset.mem_of_mem_erase hd) ?_⟩
    · rw [hentry, Option.some.injEq, Lib.Node.dir.injEq] at he
      rw [← he, hx.entry_eq_none hclive]
      exact fun j hj => absurd hj (hempty j)
    · simp only [Lib.Namespace.remove, hentry, hx.dirs]
  | @unlink _ row l hr hf hfo hl =>
    have hi : s.volume.Holds live r row := h.holds_of_findRow hp hnamed hf
    have hentry := hx.entry_of_holds hi
    rw [Volume.node_file hfo] at hentry
    refine ⟨_, .removed (by rw [hentry]; simp) fun c' he n => ?_, removed_represents h hn hx hi
      (h.unlink_change hr hf hfo hl) not_used_zeroEntry (fun d hd => hd) ?_⟩
    · rw [hentry, Option.some.injEq] at he
      cases he
    · simp only [Lib.Namespace.remove, hentry, hx.dirs]

omit hn in
theorem read_serves (ho : Ordinary s.volume live (.read r)) (hexec : exec fuel s (.read r) = some (rep, s')) :
    Serves x (.read r, rep) x ∧ s'.volume = s.volume := by
  obtain ⟨rfl, hvol⟩ := exec_volume h ho hexec
  refine ⟨.read ?_, hvol⟩
  obtain ⟨hp, hnamed⟩ := ho
  have hu : (s.volume.table r.parent 0).userAttribute = uattrNotEmpty := (h.self _ hp).1
  have hlook := hx.look_named h hp hnamed
  simp only [Volume.exec, Files.Reads, hlook]
  cases hf : Volume.findAnyRow (s.volume.table r.parent) r with
  | none => simp [Volume.read, hu, hf]
  | some i =>
    by_cases hfo : (s.volume.table r.parent i).Folder
    · have ha : (s.volume.table r.parent i).attr = attrSubdirectory := hfo
      rw [Option.map_some, Volume.node_folder hfo]
      simp [Volume.read, hu, hf, ha]
    · have ha : ¬ (s.volume.table r.parent i).attr = attrSubdirectory := hfo
      obtain ⟨l, hl, hlt⟩ := h.read_chain hp hnamed hf hfo
      have hsame := sameName_iff.1 (Fin.eq_true_of_find?_eq_some hf)
      have hi2 := h.row_of_not_folder hp hfo
      have hrow := h.used_of_named hp hnamed hi2 hsame.1 hsame.2
      have hlen : l.length = clustersOf (s.volume.table r.parent i).filesize.toNat := by
        obtain ⟨l', hl', hlen', -⟩ := h.chain ⟨hp, hi2, hrow⟩
        rw [hl.unique hl', hlen', DirEntry.clusters, if_neg hfo]
      rw [Option.map_some, Volume.node_file hfo]
      simp only [Volume.length_bytes]
      by_cases hsize : r.bufferSize < (s.volume.table r.parent i).filesize
      · rw [if_pos (UInt32.lt_iff_toNat_lt.1 hsize)]
        simp [Volume.read, hu, hf, ha, hsize]
      · rw [if_neg (mt UInt32.lt_iff_toNat_lt.2 hsize)]
        have hread : s.volume.read r = ⟨0, Volume.deliver s.volume.disk r.buf 0 l⟩ := by
          simp [Volume.read, hu, hf, ha, hsize, chain_eq hl hlt]
        rw [hread]
        refine ⟨rfl, fun j hj => ?_, fun j hj => Volume.deliver_above _ _ j (by omega)⟩
        have hj' : j < 2048 * l.length := by
          rw [hlen, clustersOf_eq_ceil]
          omega
        simp only [Volume.bytes, List.getElem_map, List.getElem_range, chain_eq hl hlt]
        rw [Volume.deliver_get hj', Volume.deliver_get hj']

/-- The table of a directory is a list of it. -/
theorem describes {c : ℕ} (hc : c ∈ live) : x.Describes c (s.volume.table c) := by
  refine ⟨⟨(hx.own c hc).symm, (h.self c hc).2.2.1⟩, ⟨(hx.up c hc).2, (hx.up c hc).1.symm⟩, fun i hi hu => ?_,
    fun n hne => ?_⟩
  · refine ⟨_, hx.entry_of_row ⟨hc, hi, hu⟩, ?_⟩
    by_cases hf : (s.volume.table c i).Folder
    · rw [Volume.node_folder hf]
      exact ⟨hf, rfl⟩
    · rw [Volume.node_file hf]
      exact ⟨hf, Volume.length_bytes.symm⟩
  · obtain ⟨k, hk⟩ := Option.ne_none_iff_exists'.1 hne
    obtain ⟨i, hi, hname, -⟩ := (hx.entry c hc n k).1 hk
    refine ⟨i, ⟨hi.2.1, hi.2.2, hname⟩, fun j hj => ?_⟩
    have he : (s.volume.table c j).fileName = (s.volume.table c i).fileName := hj.2.2.trans hname.symm
    exact hn c j i ⟨hc, hj.1, hj.2.1⟩ hi (Prod.mk_inj.1 he).1 (Prod.mk_inj.1 he).2

theorem readDirectory_serves (hpl : RowsPlain s.volume live) (ho : Ordinary s.volume live (.readDirectory r))
    (hexec : exec fuel s (.readDirectory r) = some (rep, s')) :
    Serves x (.readDirectory r, rep) x ∧ s'.volume = s.volume := by
  obtain ⟨rfl, hvol⟩ := exec_volume h ho hexec
  refine ⟨.readDirectory ?_, hvol⟩
  obtain ⟨hp, -⟩ := ho
  have hu : (s.volume.table r.parent 0).userAttribute = uattrNotEmpty := (h.self _ hp).1
  simp only [Volume.exec]
  by_cases hex : ∃ j, (s.volume.table r.parent j).name = r.name
  · obtain ⟨j, hj⟩ := hex
    obtain ⟨k, -, hk, hno⟩ := exists_first_row (p := fun i => (s.volume.table r.parent i).name = r.name) hj
    have hreply := readDirectory_names h hp rfl hk hno
    rw [readDirectory_eq] at hreply
    dsimp only at hreply
    rw [hreply]
    have hname : (s.volume.table r.parent k).fileName = (r.name, (s.volume.table r.parent k).ext) := by rw [← hk]; rfl
    have hbefore : ∀ i < k, i.val < 2 →
        (s.volume.table r.parent i).fileName ≠ (r.name, (s.volume.table r.parent k).ext) :=
      fun i hi _ he => hno i hi (Prod.mk_inj.1 he).1
    by_cases hfo : (s.volume.table r.parent k).Folder
    · have hused : 2 ≤ k.val → (s.volume.table r.parent k).Used := fun hk2 => by
        by_contra hu'
        exact (hpl _ hp k hk2).1 hu' hfo
      have hlook := hx.look_row h hp hname hused hbefore
      rw [Volume.node_folder hfo] at hlook
      rw [if_pos hfo]
      refine .inr (.inr (.inr ⟨_, _, _, hlook, rfl, ?_⟩))
      exact describes h hn hx (h.folder_live hp hused hfo)
    · rw [if_neg hfo]
      have hk2 := h.row_of_not_folder hp hfo
      by_cases hused : (s.volume.table r.parent k).Used
      · have hlook := hx.look_row h hp hname (fun _ => hused) hbefore
        rw [Volume.node_file hfo] at hlook
        exact .inr (.inl ⟨⟨_, _, hlook⟩, rfl⟩)
      · refine .inr (.inr (.inl ⟨⟨?_, ?_⟩, rfl⟩))
        · rw [← hk]
          exact (h.unused _ hp k hk2 hused).1
        · refine mt (hx.full_iff hn hp).2 fun hfull => ?_
          have hsome := findFreeRow_isSome hk2 hused
          rw [hfull] at hsome
          cases hsome
  · push Not at hex
    refine .inl ⟨fun ext => hx.look_none hp fun i _ he => hex i (Prod.mk_inj.1 he).1, ?_⟩
    have hfind : (Fin.find? fun i => memcmp (s.volume.table r.parent i).name r.name == 0) = none := by
      refine Fin.find?_eq_none_iff.2 fun i => ?_
      simp [hex i]
    simp [Volume.readDirectory, hu, hfind]

end serve

/-! ## Files -/

namespace Represents

variable {v : Volume} {live : Finset Nat} {x : Files} {d : Nat} {n : FileName} {b : List UInt8}

/-- The row of a file. -/
theorem file_row (hx : Represents v live x) (hd : d ∈ live) (hn : x.look dotDotName d n = some (.file b)) :
    ∃ i, v.LiveRow live d i ∧ (v.table d i).fileName = n ∧ ¬ (v.table d i).Folder ∧
      (v.table d i).filesize.toNat = b.length := by
  obtain ⟨i, hi, hname, hnode⟩ := (hx.entry d hd n _).1 (Lib.Namespace.entry_of_look hn)
  by_cases hf : (v.table d i).Folder
  · rw [Volume.node_folder hf] at hnode
    cases hnode
  · rw [Volume.node_file hf, Lib.Node.file.injEq] at hnode
    exact ⟨i, hi, hname, hf, by rw [← hnode, Volume.length_bytes]⟩

/-- A file has no more clusters than there are. -/
theorem file_clusters (hx : Represents v live x) (h : Inv v live) (hd : d ∈ live)
    (hn : x.look dotDotName d n = some (.file b)) : 2048 * clustersOf b.length ≤ 0x100000 := by
  obtain ⟨i, hi, -, hf, hsize⟩ := hx.file_row hd hn
  obtain ⟨l, hl, hlen, hR⟩ := h.chain hi
  have h512 := chain_length_le hl fun c hc => (hR c hc).2
  rw [hlen, DirEntry.clusters, if_neg hf, hsize] at h512
  omega

/-- A `read` of a file, with a buffer that is large enough. -/
theorem reads {s : State} {r : Request} (hx : Represents s.volume live x) (h : Inv s.volume live)
    (hrows : RowsNamed s.volume live) (hd : d ∈ live) (hparent : r.parent = d)
    (hn : x.look dotDotName d r.fileName = some (.file b)) (hsize : b.length ≤ r.bufferSize.toNat) :
    r.Named ∧ (∃ res, MoggersOs.read 512 s r = some res) ∧
      ∀ fuel res, MoggersOs.read fuel s r = some res → res.1.code = 0 ∧
        (∀ i (hi : i < b.length), res.1.buf i = b[i]) ∧
        ∀ i, 2048 * clustersOf b.length ≤ i → res.1.buf i = r.buf i := by
  have hnamed : r.Named := by
    obtain ⟨i, hi, hname, -⟩ := hx.file_row hd hn
    refine fun hzero => hrows d i hi ?_
    obtain ⟨hni, hei⟩ := Prod.mk.inj hname
    exact ⟨hni.trans hzero.1, hei.trans hzero.2⟩
  have hord : Ordinary s.volume live (.read r) := ⟨hparent ▸ hd, hnamed⟩
  refine ⟨hnamed, ?_, fun fuel res hread => ?_⟩
  · obtain ⟨s', hexec, -⟩ := exec_eq (Nat.le_refl 512) h hord
    exact ⟨_, hexec⟩
  · obtain ⟨rep, s'⟩ := res
    obtain ⟨hserves, -⟩ := read_serves h hx hord hread
    cases hserves with
    | read hreads =>
      unfold Files.Reads at hreads
      rw [hparent, hn] at hreads
      dsimp only at hreads
      rw [if_neg (Nat.not_lt.2 hsize)] at hreads
      exact hreads

end Represents

/-! ## Runs -/

/-- The store after `create_fat32`: an empty root, which is its own parent. -/
def Files.fresh : Files where
  dirs := {rootClusterNumber}
  own := fun _ => (formattedRoot 0).fileName
  up := fun _ => rootClusterNumber
  entry := fun _ _ => none

/-- What holds between the driver and the store after every request. -/
structure Refined (s : State) (live : Finset Nat) (x : Files) : Prop where
  inv        : Inv s.volume live
  unique     : NamesUnique s.volume live
  plain      : RowsPlain s.volume live
  represents : Represents s.volume live x

theorem Refined.format (s : State) : Refined (createFat32 s) {rootClusterNumber} Files.fresh := by
  obtain ⟨-, hpl⟩ := (Run.format Safe s).rowsPlain
  refine ⟨createFat32_inv s, createFat32_namesUnique s, hpl, rfl, fun d hd => ?_, fun d hd => ?_, fun d hd n k => ?_⟩
  · rw [Finset.mem_singleton.1 hd, createFat32_table]
    rfl
  · rw [Finset.mem_singleton.1 hd, createFat32_table, formattedRoot_one]
    exact ⟨(DirEntry.setCluster_cluster _ (by decide)).symm, rfl⟩
  · refine iff_of_false (by simp [Files.fresh]) ?_
    rintro ⟨i, hi, -⟩
    obtain ⟨-, hi2, hu⟩ := hi
    rw [Finset.mem_singleton.1 hd, createFat32_table, formattedRoot_of_ge hi2] at hu
    exact not_used_zeroEntry hu

/-- **One ordinary request** is a request to the store. -/
theorem Refined.step {s s' : State} {live live' : Finset Nat} {x : Files} {a : Op × Reply} (h : Refined s live x)
    (hs : Step Ordinary (s, live) a (s', live')) : ∃ y, Serves x a y ∧ Refined s' live' y := by
  obtain ⟨op, rep⟩ := a
  obtain ⟨hord, ⟨fuel, hexec⟩, hlive⟩ := hs
  dsimp only at hord hexec hlive
  obtain ⟨fx, hout, -, hvol, -⟩ := exec_outcome h.inv (hord.safe h.inv) hexec
  have hinv : Inv s'.volume live' := hlive ▸ exec_inv h.inv (hord.safe h.inv) hexec
  rw [← hlive] at hout
  have hunique : NamesUnique s'.volume live' := hvol ▸ hout.namesUnique h.inv h.unique hord.newName
  have hplain : RowsPlain s'.volume live' := hvol ▸ hout.rowsPlain h.inv h.plain
  have hrest : ∃ y, Serves x (op, rep) y ∧ Represents s'.volume live' y := by
    rw [hlive]
    cases op with
    | write r => exact write_serves h.inv h.unique h.represents hord hexec
    | delete r => exact delete_serves h.inv h.unique h.represents hord hexec
    | read r =>
      obtain ⟨hserve, hsame⟩ := read_serves h.inv h.represents hord hexec
      rw [hsame, liveAfter_read]
      exact ⟨x, hserve, h.represents⟩
    | readDirectory r =>
      obtain ⟨hserve, hsame⟩ := readDirectory_serves h.inv h.unique h.represents h.plain hord hexec
      rw [hsame, liveAfter_readDirectory]
      exact ⟨x, hserve, h.represents⟩
  obtain ⟨y, hserve, hy⟩ := hrest
  exact ⟨y, hserve, hinv, hunique, hplain, hy⟩

theorem Refined.run {s s' : State} {live live' : Finset Nat} {x : Files} {tr : List (Op × Reply)}
    (h : Refined s live x) (hpath : Lib.Path (Step Ordinary) (s, live) tr (s', live')) :
    ∃ y, Lib.Path Serves x tr y ∧ Refined s' live' y :=
  hpath.simulate (R := fun z y => Refined z.1 z.2 y) (fun _ _ _ _ hr hs => hr.step hs) h

/-- **The driver refines the store.** The replies of any run of ordinary requests, from `create_fat32` on, are replies of
the store to the same requests, one after the other, and in the end the volume is what the store is. -/
theorem driver_refines_store {s₀ s : State} {live : Finset Nat} {tr : List (Op × Reply)}
    (h : Lib.Path (Step Ordinary) (createFat32 s₀, {rootClusterNumber}) tr (s, live)) :
    ∃ x, Lib.Path Serves Files.fresh tr x ∧ Represents s.volume live x := by
  obtain ⟨x, hpath, hx⟩ := (Refined.format s₀).run h
  exact ⟨x, hpath, hx.represents⟩

/-- The step that stores the file of five bytes. -/
theorem withFile_step : Step Ordinary (createFat32 blankState, {rootClusterNumber})
    (.write (fileRequest 5), ⟨0, (fileRequest 5).buf⟩) (withFile, {rootClusterNumber}) := by
  have hcode := fileRequest_write (n := 5) (k := 0) rfl (by decide)
  refine ⟨fileRequest_ordinary blankState, ⟨0, ?_⟩, (liveAfter_mkfile (by decide) 0).symm⟩
  simp only [exec, withFile, hcode]

theorem driver_refines_store_file : ∃ x, Lib.Path Serves Files.fresh [(.write (fileRequest 5), ⟨0, (fileRequest 5).buf⟩)] x ∧
    Represents withFile.volume {rootClusterNumber} x :=
  driver_refines_store (.cons withFile_step .nil)

/-- In a fresh store there is nothing in the way of a file. -/
theorem Serves.freshFile {r : Request} {rep : Reply} {x : Files} (h : Serves Files.fresh (.write r, rep) x)
    (hz : r.bufferSize ≠ 0) : x.entry r.parent r.fileName = some (.file r.bytes) := by
  cases h with
  | full hfull => exact absurd hfull (by simp [Files.Full, Files.fresh])
  | taken _ hne => exact absurd rfl hne
  | newFile _ _ _ _ => exact Lib.Namespace.set_entry_self
  | newDir _ _ _ hz' _ => exact absurd hz' hz

/-- The entry that a request takes away. -/
def takenAway : Op × Reply → Option (ℕ × FileName)
  | (.delete r, _) => some (r.parent, r.fileName)
  | _ => none

/-- A request changes the store under its own name, if at all. -/
theorem Serves.changes {x y : Files} {a : Op × Reply} (h : Serves x a y) : y = x ∨
    ∃ d n, x.Changes d n y ∧ (x.entry d n = none ∨ takenAway a = some (d, n)) := by
  cases h with
  | full _ => exact .inl rfl
  | taken _ _ => exact .inl rfl
  | newFile _ _ hfree _ => exact .inr ⟨_, _, .newFile _ hfree, .inl hfree⟩
  | newDir _ _ hfree _ hc => exact .inr ⟨_, _, .newDir _ hfree hc, .inl hfree⟩
  | absent _ => exact .inl rfl
  | holding _ _ => exact .inl rfl
  | removed _ hempty => exact .inr ⟨_, _, .gone hempty, .inr rfl⟩
  | read _ => exact .inl rfl
  | readDirectory _ => exact .inl rfl

/-- **A `read` returns what was written.** After any run of ordinary requests, a `read` of a file into a buffer that is
large enough returns, and delivers the bytes that the `write` of the name has stored, if no `delete` of the name came in
between, whatever else did; except under the directory's own name and `..`, which `read` takes for the directories. -/
theorem read_last_write {s₀ s : State} {live : Finset Nat} {pre mid : List (Op × Reply)} {r q : Request} {b : ℕ → UInt8}
    (h : Lib.Path (Step Ordinary) (createFat32 s₀, {rootClusterNumber}) (pre ++ (.write r, ⟨0, b⟩) :: mid) (s, live))
    (hz : r.bufferSize ≠ 0) (hmid : ∀ a ∈ mid, takenAway a ≠ some (r.parent, r.fileName))
    (hq : q.parent = r.parent ∧ q.fileName = r.fileName) (hsize : r.bufferSize ≤ q.bufferSize)
    (hheads : ∀ i : Fin 64, i.val < 2 → (s.volume.table r.parent i).fileName ≠ r.fileName) :
    (∀ fuel, 512 ≤ fuel → ∃ out, read fuel s q = some out) ∧
    ∀ fuel out, read fuel s q = some out → out.1.code = 0 ∧ ∀ i < r.bufferSize.toNat, out.1.buf i =
      if 2048 < r.bufferSize.toNat ∧ r.bufferSize.toNat % 2048 = 0 ∧ r.bufferSize.toNat - 2048 ≤ i then 0
      else r.buf i := by
  obtain ⟨x, hpath, hx⟩ := (Refined.format s₀).run h
  obtain ⟨x₁, -, hpath⟩ := hpath.of_append
  cases hpath with
  | @cons _ x₂ _ _ _ hwrite hkeep =>
    -- the entry that the `write` has made is still there
    have hwritten : r.parent ∈ x₂.dirs ∧ x₂.entry r.parent r.fileName = some (.file r.bytes) := by
      cases hwrite with
      | newFile hp _ _ _ => exact ⟨hp, Lib.Namespace.set_entry_self⟩
      | newDir _ _ _ hz' _ => exact absurd hz' hz
    obtain ⟨hlive, hentry⟩ := Lib.Namespace.kept (fun _ _ _ hs => hs.changes) hkeep hwritten.1 hwritten.2 hmid
    rw [hx.represents.dirs] at hlive
    obtain ⟨hdots, hup⟩ := hx.represents.up _ hlive
    have hown : r.fileName ≠ x.own r.parent := by
      rw [hx.represents.own _ hlive]
      exact (hheads 0 (by decide)).symm
    have hne : r.fileName ≠ dotDotName := by
      rw [← hup]
      exact (hheads 1 (by decide)).symm
    have hlook : x.look dotDotName r.parent q.fileName = some (.file r.bytes) := by
      rw [hq.2, Lib.Namespace.look_of_ne hown hne]
      exact hentry
    have hlen : r.bytes.length = r.bufferSize.toNat := by simp [Request.bytes]
    have hrun : Run Ordinary s live := ⟨s₀, _, h⟩
    obtain ⟨hnamed, -, hall⟩ := hx.represents.reads hx.inv hrun.rowsNamed hlive hq.1 hlook
      (hlen ▸ UInt32.le_iff_toNat_le.1 hsize)
    refine ⟨fun fuel hfuel => ?_, fun fuel out hread => ?_⟩
    · have hord : Ordinary s.volume live (.read q) := ⟨hq.1 ▸ hlive, hnamed⟩
      obtain ⟨s', hexec, -⟩ := exec_eq hfuel hx.inv hord
      exact ⟨_, hexec⟩
    · obtain ⟨hcode, hbytes, -⟩ := hall fuel out hread
      refine ⟨hcode, fun i hi => ?_⟩
      rw [hbytes i (hlen ▸ hi)]
      simp [Request.bytes]

/-- The file of five bytes, read back. -/
theorem read_last_write_file : ∃ out, read 512 withFile (fileRequest 5) = some out ∧ out.1.code = 0 ∧ out.1.buf 4 = 1 := by
  have hpath : Lib.Path (Step Ordinary) (createFat32 blankState, {rootClusterNumber})
      ([] ++ (.write (fileRequest 5), ⟨0, (fileRequest 5).buf⟩) :: []) (withFile, {rootClusterNumber}) :=
    .cons withFile_step .nil
  have htab : withFile.volume.table rootClusterNumber = Function.update formattedRoot 2 (newFile (fileRequest 5) 3) :=
    firstFile_table blankState rfl (by decide) (by decide)
  obtain ⟨hreturns, hreads⟩ := read_last_write (q := fileRequest 5) hpath (by decide)
    (fun _ ha => absurd ha List.not_mem_nil) ⟨rfl, rfl⟩ (by decide) fun i hi he => by
      rw [show (fileRequest 5).parent = rootClusterNumber from rfl, htab] at he
      have hcases : i = 0 ∨ i = 1 := by omega
      rcases hcases with rfl | rfl
      · exact absurd (congrFun (Prod.mk_inj.1 he).1 0) (by decide)
      · exact absurd (congrFun (Prod.mk_inj.1 he).1 0) (by decide)
  obtain ⟨out, hout⟩ := hreturns 512 (Nat.le_refl 512)
  obtain ⟨hcode, hbytes⟩ := hreads 512 out hout
  exact ⟨out, hout, hcode, hbytes 4 (by decide)⟩

/-- The file `f` of the example volume. -/
theorem withFile_entry : ∃ x b, Represents withFile.volume {rootClusterNumber} x ∧
    x.entry rootClusterNumber (fileRequest 5).fileName = some (.file b) := by
  obtain ⟨s₀, tr, hpath⟩ := withFile_run
  obtain ⟨x, -, hx⟩ := (Refined.format s₀).run hpath
  have hrow : withFile.volume.LiveRow {rootClusterNumber} rootClusterNumber 2 :=
    ⟨by decide, by decide, by rw [withFile_row]; exact newFile_used _ _⟩
  have hentry := hx.represents.entry_of_row hrow
  rw [withFile_row, Volume.node_file (newFile_not_folder _ _)] at hentry
  exact ⟨x, _, hx.represents, hentry⟩

end MoggersOs
