import MoggersOs.Filesystem.Refine
/-
# What the four effects leave on the disk and in the table

`mkdir`, `mkfile`, `rmdir` and `unlink` all do one thing: row `row` of the directory at `p` becomes `e`,
and apart from that only the clusters `l` and their entries in the table change. `Edit` says so, and the
four lemmas `mkdir_edit`, `mkfile_edit`, `rmdir_edit`, `unlink_edit` are all that the invariant needs to
know about the disk.
-/

namespace MoggersOs

/-- Row `row` of the directory at `p` becomes `e`; else only the clusters `l` change. -/
structure Edit (v v' : Volume) (p : Nat) (row : Fin 64) (e : DirEntry) (l : List Nat) : Prop where
  disk   : ∀ x < 2 ^ 26, x ≠ fatClusterNumber → x ≠ p → x ∉ l → readClusters v'.disk x = readClusters v.disk x
  fat    : ∀ x ∉ l, v'.fat.get x = v.fat.get x
  synced : Synced v'
  parent : v'.table p = Function.update (v.table p) row e

namespace Edit

variable {v v' : Volume} {p : Nat} {row : Fin 64} {e : DirEntry} {l : List Nat}

theorem next (h : Edit v v' p row e l) {x : Nat} (hx : x ∉ l) : v'.next x = v.next x := by
  simp only [Volume.next, h.fat x hx]

/-- Every other row of every table off the clusters `l` stays. -/
theorem table_row (h : Edit v v' p row e l) {d : Nat} (hd : d < 2 ^ 26) (h1 : d ≠ fatClusterNumber) (hl : d ∉ l)
    {i : Fin 64} (hne : ¬ (d = p ∧ i = row)) : v'.table d i = v.table d i := by
  by_cases hdp : d = p
  · subst hdp
    rw [h.parent, Function.update_of_ne fun hi => hne ⟨rfl, hi⟩]
  · simp only [Volume.table, h.disk d hd h1 hdp hl]

theorem table_self (h : Edit v v' p row e l) : v'.table p row = e := by
  rw [h.parent, Function.update_self]

end Edit

/-! ## The table after an allocation and after a deletion -/

namespace Volume

theorem linkFrom_get : ∀ {f : Fat} {temp x : Nat} {l : List Nat}, x ≠ temp → x ∉ l →
    (linkFrom f temp l).get x = f.get x
  | _, _, _, [], _, _ => rfl
  | f, temp, x, c :: l, ht, hl => by
    obtain ⟨hc, hl⟩ := List.ne_and_not_mem_of_not_mem_cons hl
    rw [linkFrom, linkFrom_get hc hl, Fat.get_set_of_ne _ hc, Fat.get_set_of_ne _ ht]

/-- **The second loop links its clusters**: each to the next one, the last one to the end mark. -/
theorem linkFrom_chain : ∀ {f : Fat} {temp : Nat} {l : List Nat}, f.get temp = fatEndOfFile →
    (temp :: l).Nodup → (∀ x ∈ temp :: l, x < 512) →
    Lib.Chain (fun x => ((linkFrom f temp l).get x).toNat) endMark temp (temp :: l)
  | f, temp, [], hf, _, _ => .last (by rw [linkFrom, hf]; rfl)
  | f, temp, c :: l, hf, hnd, hlt => by
    obtain ⟨ht, hnd⟩ := List.nodup_cons.1 hnd
    obtain ⟨htc, htl⟩ := List.ne_and_not_mem_of_not_mem_cons ht
    have hc : c < 512 := hlt c (by simp)
    have htemp : temp < 512 := hlt temp (by simp)
    have hnext : ((linkFrom f temp (c :: l)).get temp).toNat = c := by
      rw [linkFrom, linkFrom_get htc htl, Fat.get_set_of_ne _ htc, Fat.get_set_self _ htemp,
        UInt32.toNat_ofNat']
      omega
    have hend : c ≠ endMark := by
      simp only [endMark, fatEndOfFile]
      intro he
      rw [he] at hc
      exact absurd hc (by decide)
    refine .cons (by rw [hnext]; exact hend) ?_
    rw [hnext]
    exact linkFrom_chain (Fat.get_set_self _ hc _) hnd fun x hx => hlt x (List.mem_cons_of_mem _ hx)

theorem eraseFat_get_of_notMem : ∀ {l : List Nat} {f : Fat} {x : Nat}, x ∉ l → (eraseFat f l).get x = f.get x
  | [], _, _, _ => rfl
  | c :: l, f, x, h => by
    obtain ⟨hc, hl⟩ := List.ne_and_not_mem_of_not_mem_cons h
    have ih := eraseFat_get_of_notMem (f := f.set c fatEmptyEntry) hl
    rw [Fat.get_set_of_ne _ hc] at ih
    exact ih

theorem eraseFat_get_of_mem : ∀ {l : List Nat} {f : Fat} {x : Nat}, (∀ c ∈ l, c < 512) → x ∈ l →
    (eraseFat f l).get x = 0
  | c :: l, f, x, hlt, h => by
    by_cases hx : x ∈ l
    · exact eraseFat_get_of_mem (f := f.set c fatEmptyEntry) (fun y hy => hlt y (List.mem_cons_of_mem _ hy)) hx
    · obtain rfl : x = c := by simpa [hx] using h
      have h' := eraseFat_get_of_notMem (f := f.set x fatEmptyEntry) hx
      rw [Fat.get_set_self _ (hlt x (by simp))] at h'
      exact h'

theorem mem_partsFrom {r : Request} {w : Nat × Cluster} : ∀ {n k : Nat} {l : List Nat},
    w ∈ partsFrom r n k l → w.1 ∈ l
  | _, _, c :: l, h => by
    rcases List.mem_cons.1 h with rfl | h
    · simp
    · exact List.mem_cons_of_mem _ (mem_partsFrom h)

end Volume

/-! ## The four edits -/

/-- What the last write to a cluster put there. -/
theorem readClusters_writeAll_last (d : Disk) {x : Nat} (y : Cluster) (ws ws' : List (Nat × Cluster))
    (hx : x < 2 ^ 26) (h : ∀ w ∈ ws', w.1 < 2 ^ 26 ∧ x ≠ w.1) :
    readClusters (writeAll d (ws ++ (x, y) :: ws')) x = y := by
  rw [writeAll_append, writeAll, readClusters_writeAll hx _ ws' h, readClusters_writeClusters]

section
variable (v : Volume) (r : Request) (row : Fin 64) {c : Nat} {l : List Nat}
variable (hp : 2 ≤ r.parent) (hp' : r.parent < 512)
include hp hp'

theorem mkdir_edit (hc : 2 ≤ c) (hc' : c < 512) (hcp : c ≠ r.parent) :
    Edit v (v.apply (v.mkdir r row c)) r.parent row (newDirectory r.name r.parent c 0) [c] := by
  have h1 : fatClusterNumber = 1 := rfl
  constructor
  · intro x hx hx1 hxp hxl
    refine readClusters_writeAll hx _ _ ?_
    simp only [Volume.mkdir, List.forall_mem_cons, List.not_mem_nil, false_implies, implies_true, and_true]
    simp only [List.mem_singleton] at hxl
    exact ⟨⟨by omega, hx1⟩, ⟨by omega, hxp⟩, ⟨by omega, hxl⟩⟩
  · intro x hxl
    exact Fat.get_set_of_ne _ (by simpa using hxl) _
  · refine readClusters_writeAll_last v.disk (encodeFat _) [] _ (by omega) ?_
    simp only [List.forall_mem_cons, List.not_mem_nil, false_implies, implies_true, and_true]
    omega
  · have h := readClusters_writeAll_last v.disk (x := r.parent)
      (encodeTable (Function.update (v.table r.parent) row (newDirectory r.name r.parent c 0)))
      [(fatClusterNumber, encodeFat (v.fat.set c fatEndOfFile))]
      [(c, encodeTable (newDirectory r.name r.parent c))] (by omega) (by simp; omega)
    exact (congrArg decodeTable h).trans (decodeTable_encodeTable _)

omit hp hp' in
theorem mkdir_table (hc' : c < 512) : (v.apply (v.mkdir r row c)).table c = newDirectory r.name r.parent c := by
  have h := readClusters_writeAll_last v.disk (encodeTable (newDirectory r.name r.parent c))
    [(fatClusterNumber, encodeFat (v.fat.set c fatEndOfFile)),
      (r.parent, encodeTable (Function.update (v.table r.parent) row (newDirectory r.name r.parent c 0)))] []
    (show c < 2 ^ 26 by omega) (by simp)
  exact (congrArg decodeTable h).trans (decodeTable_encodeTable _)

theorem mkfile_edit (hl : ∀ x ∈ c :: l, 2 ≤ x ∧ x < 512) :
    Edit v (v.apply (v.mkfile r row c l)) r.parent row (newFile r c) (c :: l) := by
  have h1 : fatClusterNumber = 1 := rfl
  have hparts : ∀ w ∈ (c, filePartCluster r.buf 0 2048) ::
      Volume.partsFrom r (clustersOf r.bufferSize.toNat - 1) 1 l, w.1 ∈ c :: l := by
    intro w hw
    rcases List.mem_cons.1 hw with rfl | hw
    · simp
    · exact List.mem_cons_of_mem _ (Volume.mem_partsFrom hw)
  constructor
  · intro x hx hx1 hxp hxl
    refine readClusters_writeAll hx _ _ fun w hw => ?_
    rcases List.mem_append.1 hw with hw | hw
    · have hmem := hparts w hw
      have := hl _ hmem
      exact ⟨by omega, fun h => hxl (h ▸ hmem)⟩
    · simp only [List.mem_cons, List.not_mem_nil, or_false] at hw
      rcases hw with rfl | rfl
      · exact ⟨by omega, hx1⟩
      · exact ⟨by omega, hxp⟩
  · intro x hxl
    obtain ⟨hxc, hxl⟩ := List.ne_and_not_mem_of_not_mem_cons hxl
    exact (Volume.linkFrom_get hxc hxl).trans (Fat.get_set_of_ne _ hxc _)
  · refine readClusters_writeAll_last v.disk (encodeFat _) _ _ (by omega) ?_
    simp only [List.forall_mem_cons, List.not_mem_nil, false_implies, implies_true, and_true]
    omega
  · have h := readClusters_writeAll_last v.disk (x := r.parent)
      (encodeTable (Function.update (v.table r.parent) row (newFile r c)))
      ((c, filePartCluster r.buf 0 2048) :: Volume.partsFrom r (clustersOf r.bufferSize.toNat - 1) 1 l ++
        [(fatClusterNumber, encodeFat (Volume.linkFrom (v.fat.set c fatEndOfFile) c l))]) [] (by omega) (by simp)
    rw [List.append_assoc] at h
    exact (congrArg decodeTable h).trans (decodeTable_encodeTable _)

theorem rmdir_edit (hc : 2 ≤ c) (hc' : c < 512) (hcp : c ≠ r.parent) :
    Edit v (v.apply (v.rmdir r row c)) r.parent row (clearEntry (v.table r.parent row)) [c] := by
  have h1 : fatClusterNumber = 1 := rfl
  constructor
  · intro x hx hx1 hxp hxl
    refine readClusters_writeAll hx _ _ ?_
    simp only [Volume.rmdir, List.forall_mem_cons, List.not_mem_nil, false_implies, implies_true, and_true]
    simp only [List.mem_singleton] at hxl
    exact ⟨⟨by omega, hxp⟩, ⟨by omega, hxl⟩, ⟨by omega, hx1⟩⟩
  · intro x hxl
    exact Fat.get_set_of_ne _ (by simpa using hxl) _
  · exact readClusters_writeAll_last v.disk (encodeFat _) [_, _] [] (by omega) (by simp)
  · have h := readClusters_writeAll_last v.disk (x := r.parent)
      (encodeTable (Function.update (v.table r.parent) row (clearEntry (v.table r.parent row)))) []
      (v.rmdir r row c).writes.tail (by omega) (by simp [Volume.rmdir]; omega)
    exact (congrArg decodeTable h).trans (decodeTable_encodeTable _)

theorem unlink_edit (hl : ∀ x ∈ l, 2 ≤ x ∧ x < 512) (hne : l ≠ []) (hlp : r.parent ∉ l) :
    Edit v (v.apply (v.unlink r row l)) r.parent row zeroEntry l := by
  have h1 : fatClusterNumber = 1 := rfl
  have hlast : l.getLastD 0 ∈ l := by
    rw [List.getLastD_eq_getLast?, List.getLast?_eq_some_getLast hne]
    exact List.getLast_mem hne
  have hlast' := hl _ hlast
  have hrest : ∀ w ∈ l.map (fun c => (c, zeroCluster)) ++
      [(fatClusterNumber, encodeFat (Volume.eraseFat v.fat l)), (l.getLastD 0, zeroCluster)],
      w.1 ∈ l ∨ w.1 = fatClusterNumber := by
    intro w hw
    simp only [List.mem_append, List.mem_map, List.mem_cons, List.not_mem_nil, or_false] at hw
    rcases hw with ⟨c, hc, rfl⟩ | rfl | rfl
    · exact Or.inl hc
    · exact Or.inr rfl
    · exact Or.inl hlast
  constructor
  · intro x hx hx1 hxp hxl
    refine readClusters_writeAll hx _ _ fun w hw => ?_
    rcases List.mem_cons.1 hw with rfl | hw
    · exact ⟨by omega, hxp⟩
    · rcases hrest w hw with hmem | he
      · have := hl _ hmem
        exact ⟨by omega, fun h => hxl (h ▸ hmem)⟩
      · exact ⟨by omega, by omega⟩
  · intro x hxl
    exact Volume.eraseFat_get_of_notMem hxl
  · have h := readClusters_writeAll_last v.disk (x := fatClusterNumber) (encodeFat (Volume.eraseFat v.fat l))
      ((r.parent, encodeTable (Function.update (v.table r.parent) row zeroEntry)) ::
        l.map (fun c => (c, zeroCluster))) [(l.getLastD 0, zeroCluster)] (by omega) (by
        simp only [List.forall_mem_cons, List.not_mem_nil, false_implies, implies_true, and_true]
        omega)
    exact h
  · have h := readClusters_writeAll_last v.disk (x := r.parent)
      (encodeTable (Function.update (v.table r.parent) row zeroEntry)) []
      (v.unlink r row l).writes.tail (by omega) (fun w hw => by
        rcases hrest w hw with hmem | he
        · have := hl _ hmem
          exact ⟨by omega, fun h => hlp (h ▸ hmem)⟩
        · exact ⟨by omega, by omega⟩)
    exact (congrArg decodeTable h).trans (decodeTable_encodeTable _)

end

end MoggersOs
