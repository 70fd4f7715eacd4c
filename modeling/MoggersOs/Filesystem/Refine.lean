import MoggersOs.Filesystem.Effects
/-
# The driver does what `Effects.lean` says

As long as the table has the entries a request needs, the scans of `write` stay inside the table and
`write` is `Volume.write` (`write_does`); as long as a row's chain ends, `delete` and `read` walk it and
are `Volume.delete` and `Volume.read` (`delete_does`, `read_eq`). The rest of `driver_state` and the
memory around it play no part.
-/

namespace MoggersOs

/-- A call that returns `out` from `s` has effect `fx`. -/
structure Does (s : State) (out : Int × State) (fx : Effect) : Prop where
  code   : out.1 = fx.code
  volume : out.2.volume = s.volume.apply fx
  writes : out.2.writes = s.writes ++ fx.writes

/-! ## Subscripts in range -/

namespace State

theorem clusterMap_of_lt (s : State) {n : Nat} (hn : n < 512) : s.clusterMap n = s.fatTable.get n := by
  have hmod : n % 2 ^ 30 = n := Nat.mod_eq_of_lt (by omega)
  simp only [clusterMap, hmod, if_pos hn]

theorem setClusterMap_of_lt (s : State) {n : Nat} (hn : n < 512) (v : UInt32) :
    s.setClusterMap n v = { s with fatTable := s.fatTable.set n v } := by
  have hmod : n % 2 ^ 30 = n := Nat.mod_eq_of_lt (by omega)
  simp only [setClusterMap, hmod, if_pos hn]

/-- A subscript past `driver_state`. -/
theorem clusterMap_of_ge (s : State) {n : Nat} (hn : 1536 ≤ n) (hn' : n < 2 ^ 30) :
    s.clusterMap n = s.outside n := by
  have hmod : n % 2 ^ 30 = n := Nat.mod_eq_of_lt hn'
  unfold clusterMap
  rw [hmod, if_neg (by omega), if_neg (by omega), if_neg (by omega)]

theorem setClusterMap_of_ge (s : State) {n : Nat} (hn : 1536 ≤ n) (hn' : n < 2 ^ 30) (v : UInt32) :
    s.setClusterMap n v = { s with outside := Function.update s.outside n v } := by
  have hmod : n % 2 ^ 30 = n := Nat.mod_eq_of_lt hn'
  unfold setClusterMap
  rw [hmod, if_neg (by omega), if_neg (by omega), if_neg (by omega)]

/-- The store after the loop of `delete` goes past `driver_state`. -/
theorem setClusterMap_endOfFile (s : State) (v : UInt32) :
    s.setClusterMap fatEndOfFile.toNat v =
      { s with outside := Function.update s.outside fatEndOfFile.toNat v } :=
  s.setClusterMap_of_ge (by decide) (by decide) v

end State

/-! ## The scans of `write` -/

/-- A nonempty table stops the first scan at its first unused entry. -/
theorem findEmptyCluster_eq {s : State} {c : Nat} {l : List Nat} (h : s.fatTable.freeClusters = c :: l) :
    findEmptyCluster s = some c ∧ c < 512 ∧
      l = (List.range' (c + 1) (512 - (c + 1))).filter fun i => s.fatTable.get i == fatEmptyEntry := by
  obtain ⟨i, hi, hpi, hmin⟩ := Lib.exists_first (n := 512)
    (p := fun i => s.fatTable.get i == fatEmptyEntry) (by
      show s.fatTable.freeClusters ≠ []
      simp [h])
  have hcons := Lib.free_eq_cons hi hpi hmin
  obtain ⟨rfl, rfl⟩ := List.cons.inj (h.symm.trans hcons)
  refine ⟨?_, hi, rfl⟩
  refine List.find?_range_eq_some.2 ⟨?_, List.mem_range.2 (by omega), fun j hj => ?_⟩
  · simpa only [s.clusterMap_of_lt hi] using hpi
  · simpa only [s.clusterMap_of_lt (show j < 512 by omega), Bool.not_eq_true'] using hmin j hj

theorem fillClusters_of_zero (r : Request) (is : List Nat) {f : Fill} (h : f.clusterNeeded = 0) :
    fillClusters r is f = f := by
  cases is <;> simp [fillClusters, h]

/-- The body touches the entries of the last and of the new cluster only. -/
theorem fillCluster_get (r : Request) {f : Fill} {i j : Nat} (ht : f.tempCluster < 512) (hi : i < 512)
    (hjt : j ≠ f.tempCluster) (hji : j ≠ i) :
    (fillCluster r i f).state.fatTable.get j = f.state.fatTable.get j := by
  simp only [fillCluster, State.setClusterMap_of_lt _ ht, State.setClusterMap_of_lt _ hi,
    State.writeClusters]
  rw [Fat.get_set_of_ne _ hji, Fat.get_set_of_ne _ hjt]

/-- Over subscripts in range the scan runs the body on the unused entries, first ones first, until
it has enough. -/
theorem fillClusters_scan (r : Request) (rest : List Nat) : ∀ (is : List Nat) (f : Fill),
    is.Nodup → (∀ i ∈ is, i < 512) → f.tempCluster < 512 → f.tempCluster ∉ is →
    fillClusters r (is ++ rest) f = fillClusters r rest
      (((is.filter fun i => f.state.fatTable.get i == fatEmptyEntry).take f.clusterNeeded).foldl
        (fun f i => fillCluster r i f) f)
  | [], f, _, _, _, _ => by simp
  | i :: is, f, hnd, hlt, ht, hti => by
    obtain ⟨hi, hnd⟩ := List.nodup_cons.1 hnd
    have hlt' : ∀ j ∈ is, j < 512 := fun j hj => hlt j (List.mem_cons_of_mem _ hj)
    have hi512 : i < 512 := hlt i (by simp)
    simp only [List.mem_cons, not_or] at hti
    by_cases hn : 0 < f.clusterNeeded
    · by_cases he : f.state.fatTable.get i = fatEmptyEntry
      · -- the body runs, and the entries still ahead of the scan are as before
        have ih := fillClusters_scan r rest is (fillCluster r i f) hnd hlt' hi512 hi
        have hfilter : (is.filter fun j => (fillCluster r i f).state.fatTable.get j == fatEmptyEntry) =
            is.filter fun j => f.state.fatTable.get j == fatEmptyEntry := by
          refine List.filter_congr fun j hj => ?_
          rw [fillCluster_get r ht hi512 (fun h => hti.2 (h ▸ hj)) (fun h => hi (h ▸ hj))]
        rw [hfilter] at ih
        obtain ⟨n, hn'⟩ : ∃ n, f.clusterNeeded = n + 1 := ⟨f.clusterNeeded - 1, by omega⟩
        have hneed : (fillCluster r i f).clusterNeeded = n := by simp [fillCluster, hn']
        rw [hneed] at ih
        rw [List.cons_append, fillClusters, if_pos hn, f.state.clusterMap_of_lt hi512, if_pos he, ih, hn',
          List.filter_cons_of_pos (by simp [he]), List.take_succ_cons, List.foldl_cons]
      · have ih := fillClusters_scan r rest is f hnd hlt' ht hti.2
        rw [List.cons_append, fillClusters, if_pos hn, f.state.clusterMap_of_lt hi512, if_neg he, ih,
          List.filter_cons_of_neg (by simp [he])]
    · have h0 : f.clusterNeeded = 0 := by omega
      rw [fillClusters_of_zero r _ h0, h0, List.take_zero, List.foldl_nil, fillClusters_of_zero r _ h0]

/-- The body run over a list of clusters in range: what `linkFrom` and `partsFrom` say. -/
theorem fillCluster_foldl (r : Request) : ∀ (l : List Nat) (f : Fill), f.tempCluster < 512 →
    (∀ c ∈ l, c < 512) →
    l.foldl (fun f i => fillCluster r i f) f =
      ⟨{ f.state with
          disk := writeAll f.state.disk (Volume.partsFrom r f.clusterNeeded f.filePart l)
          writes := f.state.writes ++ Volume.partsFrom r f.clusterNeeded f.filePart l
          fatTable := Volume.linkFrom f.state.fatTable f.tempCluster l },
        l.getLastD f.tempCluster, f.clusterNeeded - l.length, f.filePart + l.length⟩
  | [], f, _, _ => by simp [Volume.partsFrom, Volume.linkFrom, writeAll]
  | c :: l, f, ht, hl => by
    have hc : c < 512 := hl c (by simp)
    have hl' : ∀ x ∈ l, x < 512 := fun x hx => hl x (List.mem_cons_of_mem _ hx)
    rw [List.foldl_cons, fillCluster_foldl r l (fillCluster r c f) hc hl']
    simp only [fillCluster, State.setClusterMap_of_lt _ ht, State.setClusterMap_of_lt _ hc,
      State.writeClusters, Volume.partsFrom, Volume.linkFrom, writeAll, List.length_cons,
      List.append_assoc, List.singleton_append]
    congr 1
    · rw [List.getLastD_cons]
    · omega
    · omega

/-- The second scan crosses the table's end, where `CLUSTER_MAP_SIZE` is. -/
theorem secondScan_split {c : Nat} (hc : c < 512) : List.range' (c + 1) (2048 - (c + 1)) =
    List.range' (c + 1) (512 - (c + 1)) ++ List.range' 512 1536 := by
  have h := List.range'_append_1 (s := c + 1) (m := 512 - (c + 1)) (n := 1536)
  rw [show c + 1 + (512 - (c + 1)) = 512 by omega,
    show 512 - (c + 1) + 1536 = 2048 - (c + 1) by omega] at h
  exact h.symm

/-- It starts after the first cluster, whose entry is no longer empty. -/
theorem secondScan_free (f : Fat) (c : Nat) (v : UInt32) :
    ((List.range' (c + 1) (512 - (c + 1))).filter fun i => (f.set c v).get i == fatEmptyEntry) =
      (List.range' (c + 1) (512 - (c + 1))).filter fun i => f.get i == fatEmptyEntry := by
  refine List.filter_congr fun i hi => ?_
  rw [Fat.get_set_of_ne _ (by simp only [List.mem_range'_1] at hi; omega)]

/-- With `k` unused entries ahead of cluster `c` the whole second loop uses the first `k` of them. -/
theorem fillClusters_eq (r : Request) (s : State) {c k : Nat} {l : List Nat} (hc : c < 512)
    (hl : ((List.range' (c + 1) (512 - (c + 1))).filter fun i =>
      s.fatTable.get i == fatEmptyEntry).take k = l) (hlen : l.length = k) :
    fillClusters r (List.range' (c + 1) (2048 - (c + 1))) ⟨s, c, k, 1⟩ =
      ⟨{ s with
          disk := writeAll s.disk (Volume.partsFrom r k 1 l)
          writes := s.writes ++ Volume.partsFrom r k 1 l
          fatTable := Volume.linkFrom s.fatTable c l }, l.getLastD c, 0, 1 + k⟩ := by
  have hl512 : ∀ x ∈ l, x < 512 := by
    intro x hx
    have hx' := List.mem_of_mem_filter (List.mem_of_mem_take (hl ▸ hx))
    simp only [List.mem_range'_1] at hx'
    omega
  have hfill := fillClusters_scan r (List.range' 512 1536) (List.range' (c + 1) (512 - (c + 1)))
    ⟨s, c, k, 1⟩ List.nodup_range' (fun i hi => by simp only [List.mem_range'_1] at hi; omega) hc (by simp)
  simp only at hfill
  rw [secondScan_split hc, hfill, hl, fillCluster_foldl r l _ hc hl512, fillClusters_of_zero]
  · simp only [hlen, Nat.sub_self]
  · simp only [hlen, Nat.sub_self]

theorem clustersOf_eq_ceil (n : Nat) : clustersOf n = (n + 2047) / 2048 := by
  unfold clustersOf
  split <;> omega

/-- Only the request of a folder needs no cluster for its bytes. -/
theorem clustersOf_pos {r : Request} (hz : r.bufferSize ≠ 0) : 0 < clustersOf r.bufferSize.toNat := by
  have hn : r.bufferSize.toNat ≠ 0 := fun h0 => hz (UInt32.toNat_inj.1 h0)
  rw [clustersOf_eq_ceil]
  omega

/-- **`write` in the table's range**: with enough unused entries the file branch takes the first ones
and writes what `mkfile` lists. -/
theorem writeFile_does {s : State} {r : Request} (row : Fin 64) {c : Nat} {l : List Nat}
    (hz : r.bufferSize ≠ 0) (hfit : clustersOf r.bufferSize.toNat ≤ s.fatTable.freeClusters.length)
    (htab : s.dirTableBuf = s.volume.table r.parent)
    (htake : s.fatTable.freeClusters.take (clustersOf r.bufferSize.toNat) = c :: l) :
    Does s (writeFile s r row) (s.volume.mkfile r row c l) := by
  obtain ⟨k, hk⟩ := Nat.exists_eq_add_one_of_ne_zero (clustersOf_pos hz).ne'
  obtain ⟨m, hfree⟩ : ∃ m, s.fatTable.freeClusters = c :: m := by
    cases hf : s.fatTable.freeClusters with
    | nil => simp [hf] at htake
    | cons d m =>
      rw [hf, hk, List.take_succ_cons] at htake
      exact ⟨m, by rw [(List.cons.inj htake).1]⟩
  obtain ⟨hfind, hc, hm⟩ := findEmptyCluster_eq hfree
  rw [hfree, hk, List.take_succ_cons] at htake
  have hl : m.take k = l := (List.cons.inj htake).2
  have hlen : l.length = k := by
    rw [hfree, hk, List.length_cons] at hfit
    rw [← hl, List.length_take]
    omega
  have hahead : ((List.range' (c + 1) (512 - (c + 1))).filter fun i =>
      (s.fatTable.set c fatEndOfFile).get i == fatEmptyEntry) = m := (secondScan_free s.fatTable c _).trans hm.symm
  have hfill := fillClusters_eq r ((s.writeClusters (filePartCluster r.buf 0 2048) c).setClusterMap c
    fatEndOfFile) (c := c) (k := k) (l := l) hc (by
      rw [State.setClusterMap_of_lt _ hc]
      exact (congrArg (List.take k) hahead).trans hl) hlen
  have hw : writeFile s r row = (0, (State.flushFat { s with
      disk := writeAll (writeClusters s.disk (filePartCluster r.buf 0 2048) c) (Volume.partsFrom r k 1 l)
      writes := s.writes ++ [(c, filePartCluster r.buf 0 2048)] ++ Volume.partsFrom r k 1 l
      fatTable := Volume.linkFrom (s.fatTable.set c fatEndOfFile) c l }).storeRow row (newFile r c)
      r.parent) := by
    simp only [writeFile, hfind, Option.getD_some, Option.isSome_some, if_true, hk, Nat.add_sub_cancel,
      hfill, Nat.lt_irrefl, if_false]
    rw [State.setClusterMap_of_lt _ hc]
    rfl
  rw [hw]
  refine ⟨rfl, ?_, ?_⟩
  · simp only [State.volume, State.storeRow, State.flushFat, State.writeClusters, Volume.apply,
      Volume.mkfile, hk, Nat.add_sub_cancel, writeAll, List.cons_append, writeAll_append, htab]
  · simp only [State.volume, State.storeRow, State.flushFat, State.writeClusters, Volume.mkfile, hk,
      Nat.add_sub_cancel, List.append_assoc, List.cons_append, List.nil_append, htab]

/-- The folder branch takes the first unused entry, if it is not entry 0. -/
theorem writeFolder_does {s : State} {r : Request} (row : Fin 64) {c : Nat} {l : List Nat}
    (hfree : s.fatTable.freeClusters = c :: l) (htab : s.dirTableBuf = s.volume.table r.parent) :
    Does s (writeFolder s r row) (if c = 0 then s.volume.refuse (-1) else s.volume.mkdir r row c) := by
  obtain ⟨hfind, hc, -⟩ := findEmptyCluster_eq hfree
  simp only [writeFolder, hfind, Option.getD_some]
  by_cases h0 : c = 0
  · rw [if_pos h0, if_pos h0]
    exact ⟨rfl, rfl, by simp [Volume.refuse]⟩
  · rw [if_neg h0, if_neg h0]
    refine ⟨rfl, ?_, ?_⟩
    · simp only [State.setClusterMap_of_lt _ hc, State.volume, State.storeRow, State.flushFat,
        State.writeClusters, Volume.apply, Volume.mkdir, writeAll, htab]
    · simp only [State.setClusterMap_of_lt _ hc, State.volume, State.storeRow, State.flushFat,
        State.writeClusters, Volume.mkdir, List.append_assoc, List.cons_append, List.nil_append, htab]

theorem Does.of_loadDirTable {s : State} {c : Nat} {out : Int × State} {fx : Effect}
    (h : Does (s.loadDirTable c) out fx) : Does s out fx := ⟨h.code, h.volume, h.writes⟩

theorem Does.refuse (s : State) (c : Nat) (code : Int) :
    Does s (code, s.loadDirTable c) (s.volume.refuse code) :=
  ⟨rfl, rfl, by simp [Volume.refuse, State.loadDirTable]⟩

/-- **`write` refines `Volume.write`** on every state whose table has the entries the request needs. -/
theorem write_does {s : State} {r : Request} (hfit : s.volume.Fits r) :
    Does s (write s r) (s.volume.write r) := by
  have htab : (s.loadDirTable r.parent).dirTableBuf = s.volume.table r.parent := rfl
  by_cases hd : isDirectory (s.volume.table r.parent) = true
  swap
  · simpa [write, Volume.write, htab, hd] using Does.refuse s r.parent 2
  cases hrow : findFreeRow (s.volume.table r.parent) with
  | none => simpa [write, Volume.write, htab, hd, hrow] using Does.refuse s r.parent (-1)
  | some row =>
    by_cases he : (findRow (s.volume.table r.parent) r).isSome = true
    · simpa [write, Volume.write, htab, hd, hrow, he] using Does.refuse s r.parent 1
    by_cases hz : r.bufferSize = 0
    · cases hfree : s.fatTable.freeClusters with
      | nil => simp [Volume.Fits, Volume.needed, hz, hfree] at hfit
      | cons c l =>
        have h := (writeFolder_does (s := s.loadDirTable r.parent) row hfree htab).of_loadDirTable
        simpa only [write, Volume.write, htab, hd, hrow, he, hz, State.volume_fat, State.volume_loadDirTable, hfree, Bool.not_true,
          Bool.false_eq_true, if_false, if_true] using h
    · have hfit' : clustersOf r.bufferSize.toNat ≤ s.fatTable.freeClusters.length := by
        simpa only [Volume.Fits, Volume.needed, if_neg hz, State.volume_fat] using hfit
      cases htake : s.fatTable.freeClusters.take (clustersOf r.bufferSize.toNat) with
      | nil =>
        have hlen := congrArg List.length htake
        have hk := clustersOf_pos hz
        rw [List.length_take, List.length_nil] at hlen
        omega
      | cons c l =>
        have h := (writeFile_does (s := s.loadDirTable r.parent) row hz hfit' htab htake).of_loadDirTable
        simpa only [write, Volume.write, htab, hd, hrow, he, hz, State.volume_fat, State.volume_loadDirTable, htake, Bool.not_true,
          Bool.false_eq_true, if_false] using h

/-! ## The walk of `delete` -/

/-- `FAT32_FAT_END_OF_FILE` as a cluster number: where every walk over the table stops. -/
def endMark : Nat := fatEndOfFile.toNat

/-- A cluster number is the end mark exactly if the table holds `FAT32_FAT_END_OF_FILE`. -/
theorem next_eq_endMark {v : Volume} {c : Nat} : v.next c = endMark ↔ v.fat.get c = fatEndOfFile := by
  simp only [Volume.next, endMark, UInt32.toNat_inj]

/-- A chain inside the table is no longer than the table. -/
theorem chain_length_le {v : Volume} {c : Nat} {l : List Nat} (h : Lib.Chain v.next endMark c l)
    (hl : ∀ x ∈ l, x < 512) : l.length ≤ 512 := by
  have hsub : l ⊆ List.range 512 := fun x hx => List.mem_range.2 (hl x hx)
  simpa using (h.nodup.subperm hsub).length_le

theorem chainFrom_eq {v : Volume} {c : Nat} {l : List Nat} (h : Lib.Chain v.next endMark c l) :
    ∀ {n : Nat}, l.length ≤ n → v.chainFrom n c = l := by
  induction h with
  | last hs =>
    intro n hn
    obtain ⟨n, rfl⟩ : ∃ k, n = k + 1 := ⟨n - 1, by simp at hn; omega⟩
    rw [Volume.chainFrom, if_pos (next_eq_endMark.1 hs)]
  | cons hne _ ih =>
    intro n hn
    rw [List.length_cons] at hn
    obtain ⟨n, rfl⟩ : ∃ k, n = k + 1 := ⟨n - 1, by omega⟩
    rw [Volume.chainFrom, if_neg (fun he => hne (next_eq_endMark.2 he)), ih (by omega)]

theorem chain_eq {v : Volume} {c : Nat} {l : List Nat} (h : Lib.Chain v.next endMark c l)
    (hl : ∀ x ∈ l, x < 512) : v.chain c = l := chainFrom_eq h (chain_length_le h hl)

theorem eraseCluster_of_lt (s : State) {c : Nat} (hc : c < 512) :
    eraseCluster s c = { s with
      fatTable := s.fatTable.set c fatEmptyEntry
      disk := writeClusters s.disk zeroCluster c
      writes := s.writes ++ [(c, zeroCluster)] } := by
  rw [eraseCluster, State.setClusterMap_of_lt _ hc]
  rfl

theorem eraseCluster_foldl : ∀ (l : List Nat) (s : State), (∀ c ∈ l, c < 512) →
    l.foldl eraseCluster s = { s with
      fatTable := Volume.eraseFat s.fatTable l
      disk := writeAll s.disk (l.map fun c => (c, zeroCluster))
      writes := s.writes ++ l.map fun c => (c, zeroCluster) }
  | [], s, _ => by simp [Volume.eraseFat, writeAll]
  | c :: l, s, hl => by
    rw [List.foldl_cons, eraseCluster_foldl l _ fun x hx => hl x (List.mem_cons_of_mem _ hx),
      eraseCluster_of_lt s (hl c (by simp))]
    simp only [Volume.eraseFat, List.foldl_cons, List.map_cons, writeAll, List.append_assoc,
      List.singleton_append]

/-- Emptying the entry of a cluster leaves the rest of its chain in place. -/
theorem eraseCluster_chain {s : State} {c d : Nat} {l : List Nat} (hc : c < 512)
    (h : Lib.Chain s.volume.next endMark c (c :: l)) (ht : Lib.Chain s.volume.next endMark d l) :
    Lib.Chain (eraseCluster s c).volume.next endMark d l := by
  refine ht.congr fun x hx => ?_
  have hxc : x ≠ c := fun he => (List.nodup_cons.1 h.nodup).1 (he ▸ hx)
  simp only [Volume.next, State.volume, eraseCluster_of_lt s hc, Fat.get_set_of_ne _ hxc]

/-- **The walk erases the chain**: the entry of a cluster is read before it is emptied, and emptying
it leaves the rest of the chain in place. -/
theorem eraseChain_eq {c : Nat} {l : List Nat} : ∀ {s : State} {fuel : Nat},
    Lib.Chain s.volume.next endMark c l → (∀ x ∈ l, x < 512) → l.length ≤ fuel →
    eraseChain fuel (eraseCluster s c) c (s.clusterMap c) = some (l.foldl eraseCluster s, l.getLastD 0) := by
  intro s fuel h hl hfuel
  -- on the chain's length: the state changes on the way
  induction l generalizing c s fuel with
  | nil => exact absurd rfl h.ne_nil
  | cons d l ih =>
    obtain ⟨fuel, rfl⟩ : ∃ k, fuel = k + 1 := ⟨fuel - 1, by simp at hfuel; omega⟩
    have hd : d < 512 := hl d (by simp)
    cases h with
    | last hs =>
      have he : s.fatTable.get d = fatEndOfFile := next_eq_endMark.1 hs
      rw [s.clusterMap_of_lt hd, eraseChain, if_pos he]
      rfl
    | cons hne ht =>
      have hne' : s.fatTable.get d ≠ fatEndOfFile := fun he => hne (next_eq_endMark.2 he)
      have ht' := eraseCluster_chain hd (.cons hne ht) ht
      have ih' := ih ht' (fun x hx => hl x (List.mem_cons_of_mem _ hx)) (by simp at hfuel; omega)
      rw [s.clusterMap_of_lt hd, eraseChain, if_neg hne', List.foldl_cons, List.getLastD_cons]
      have hlast : l.getLastD d = l.getLastD 0 := by
        simp [List.getLastD_eq_getLast?, List.getLast?_eq_some_getLast ht.ne_nil]
      rw [hlast]
      exact ih'

theorem deleteFile_does {s : State} {r : Request} (row : Fin 64) {c fuel : Nat} {l : List Nat}
    (h : Lib.Chain s.volume.next endMark c l) (hl : ∀ x ∈ l, x < 512) (hfuel : l.length ≤ fuel)
    (htab : s.dirTableBuf = s.volume.table r.parent) :
    ∃ out, deleteFile fuel s r row c = some out ∧ Does s out (s.volume.unlink r row l) := by
  have hwalk := eraseChain_eq (s := s.storeRow row zeroEntry r.parent) h hl hfuel
  rw [eraseCluster_foldl l _ hl] at hwalk
  simp only [deleteFile, hwalk, State.setClusterMap_endOfFile]
  refine ⟨_, rfl, rfl, ?_, ?_⟩
  · simp only [State.volume, State.storeRow, State.flushFat, State.writeClusters, Volume.apply,
      Volume.unlink, writeAll, List.cons_append, writeAll_append, htab]
  · simp only [State.volume, State.storeRow, State.flushFat, State.writeClusters, Volume.unlink,
      List.append_assoc, List.cons_append, List.nil_append, htab]

theorem deleteFolder_does {s : State} {r : Request} (row : Fin 64) {c : Nat} (hc : c < 512)
    (htab : s.dirTableBuf = s.volume.table r.parent) :
    Does s (deleteFolder s r row c) (if occupied (s.volume.table c) then s.volume.refuse 2
      else s.volume.rmdir r row c) := by
  have htarget : decodeTable (readClusters s.disk c) = s.volume.table c := rfl
  by_cases ho : occupied (s.volume.table c) = true
  · rw [if_pos ho, deleteFolder, htarget, if_pos ho]
    exact ⟨rfl, rfl, by simp [Volume.refuse]⟩
  · rw [if_neg ho, deleteFolder, htarget, if_neg ho]
    refine ⟨rfl, ?_, ?_⟩
    · simp only [State.setClusterMap_of_lt _ hc, State.volume, State.storeRow, State.flushFat,
        State.writeClusters, Volume.apply, Volume.rmdir, writeAll, htab]
    · simp only [State.setClusterMap_of_lt _ hc, State.volume, State.storeRow, State.flushFat,
        State.writeClusters, Volume.rmdir, List.append_assoc, List.cons_append, List.nil_append, htab]

/-- **`delete` refines `Volume.delete`** if the row it finds is in order: a folder's cluster is in the
table, a file's chain is in the table and ends. -/
theorem delete_does {s : State} {r : Request} {fuel : Nat} (hfuel : 512 ≤ fuel)
    (hrow : ∀ row, findRow (s.volume.table r.parent) r = some row →
      (s.volume.table r.parent row).attr = attrSubdirectory →
      (s.volume.table r.parent row).cluster < 512)
    (hchain : ∀ row, findRow (s.volume.table r.parent) r = some row →
      (s.volume.table r.parent row).attr ≠ attrSubdirectory →
      ∃ l, Lib.Chain s.volume.next endMark (s.volume.table r.parent row).cluster l ∧ ∀ x ∈ l, x < 512) :
    ∃ out, delete fuel s r = some out ∧ Does s out (s.volume.delete r) := by
  have htab : (s.loadDirTable r.parent).dirTableBuf = s.volume.table r.parent := rfl
  by_cases hd : isDirectory (s.volume.table r.parent) = true
  swap
  · refine ⟨(-1, s.loadDirTable r.parent), by simp [delete, htab, hd], ?_⟩
    simpa [Volume.delete, hd] using Does.refuse s r.parent (-1)
  cases hf : findRow (s.volume.table r.parent) r with
  | none =>
    refine ⟨(1, s.loadDirTable r.parent), by simp [delete, htab, hd, hf], ?_⟩
    simpa [Volume.delete, hd, hf] using Does.refuse s r.parent 1
  | some row =>
    by_cases ha : (s.volume.table r.parent row).attr = attrSubdirectory
    · have h : Does s (deleteFolder (s.loadDirTable r.parent) r row (s.volume.table r.parent row).cluster)
          (if occupied (s.volume.table (s.volume.table r.parent row).cluster) then s.volume.refuse 2
            else s.volume.rmdir r row (s.volume.table r.parent row).cluster) :=
        (deleteFolder_does (s := s.loadDirTable r.parent) row (hrow row hf ha) htab).of_loadDirTable
      refine ⟨_, by simp only [delete, htab, hd, hf, ha, Bool.not_true, Bool.false_eq_true, if_false, if_true]; rfl,
        ?_⟩
      simpa only [Volume.delete, hd, hf, ha, Bool.not_true, Bool.false_eq_true, if_false, if_true] using h
    · obtain ⟨l, hl, hl512⟩ := hchain row hf ha
      obtain ⟨out, hout, h⟩ := deleteFile_does (s := s.loadDirTable r.parent) (r := r) row hl hl512
        ((chain_length_le hl hl512).trans hfuel) htab
      refine ⟨out, ?_, ?_⟩
      · simpa only [delete, htab, hd, hf, ha, Bool.not_true, Bool.false_eq_true, if_false] using hout
      · have hce := chain_eq hl hl512
        simpa only [Volume.delete, hd, hf, ha, hce, State.volume_loadDirTable, Bool.not_true,
          Bool.false_eq_true, if_false] using h.of_loadDirTable

/-! ## The walk of `read` -/

/-- **The walk delivers the chain** in order; a chain inside the table never wraps `counter`. -/
theorem readChain_eq {s : State} {c : Nat} {l : List Nat} (h : Lib.Chain s.volume.next endMark c l) :
    ∀ {fuel k : Nat} {b : Nat → UInt8}, (∀ x ∈ l, x < 512) → l.length ≤ fuel → k + l.length ≤ 2 ^ 16 →
      readChain s fuel b k c = some (Volume.deliver s.disk b k l) := by
  induction h with
  | @last c hs =>
    intro fuel k buf hl hfuel _
    obtain ⟨fuel, rfl⟩ : ∃ n, fuel = n + 1 := ⟨fuel - 1, by simp at hfuel; omega⟩
    have he : s.fatTable.get c = fatEndOfFile := next_eq_endMark.1 hs
    simp only [readChain, s.clusterMap_of_lt (hl c (by simp)), he, if_true, Volume.deliver]
  | @cons c l hne ht ih =>
    intro fuel k buf hl hfuel hk
    rw [List.length_cons] at hfuel hk
    obtain ⟨fuel, rfl⟩ : ∃ n, fuel = n + 1 := ⟨fuel - 1, by omega⟩
    have hpos : 0 < l.length := List.length_pos_of_ne_nil ht.ne_nil
    have hne' : s.fatTable.get c ≠ fatEndOfFile := fun he => hne (next_eq_endMark.2 he)
    simp only [readChain, s.clusterMap_of_lt (hl c (by simp)), if_neg hne', Volume.deliver]
    rw [Nat.mod_eq_of_lt (by omega)]
    exact ih (fun x hx => hl x (List.mem_cons_of_mem _ hx)) (by omega) (by omega)

/-- The table on the disk is the table in memory. -/
def Synced (v : Volume) : Prop := readClusters v.disk fatClusterNumber = encodeFat v.fat

theorem Synced.volume_loadFat {s : State} (h : Synced s.volume) (c : Nat) :
    (s.loadDirTable c).loadFat.volume = s.volume := by
  have hfat : decodeFat (readClusters s.disk fatClusterNumber) = s.fatTable := by
    rw [show readClusters s.disk fatClusterNumber = encodeFat s.fatTable from h, decodeFat_encodeFat]
  simp only [State.volume, State.loadFat, State.loadDirTable, hfat]

/-- Whatever it finds, `read` leaves a volume with a synced table as it is. -/
theorem read_volume {s s' : State} {r : Request} {fuel : Nat} {rep : Reply} (h : Synced s.volume)
    (hr : read fuel s r = some (rep, s')) : s'.volume = s.volume ∧ s'.writes = s.writes := by
  have key : s' = s.loadDirTable r.parent ∨ s' = (s.loadDirTable r.parent).loadFat := by
    simp only [read] at hr
    split at hr
    · simp only [Option.some.injEq, Prod.mk.injEq] at hr
      exact Or.inl hr.2.symm
    · right
      split at hr
      · simp only [Option.some.injEq, Prod.mk.injEq] at hr
        exact hr.2.symm
      · split at hr
        · simp only [Option.some.injEq, Prod.mk.injEq] at hr
          exact hr.2.symm
        · split at hr
          · simp only [Option.some.injEq, Prod.mk.injEq] at hr
            exact hr.2.symm
          · simp only [Option.map_eq_some_iff, Prod.mk.injEq] at hr
            obtain ⟨_, _, _, hs⟩ := hr
            exact hs.symm
  rcases key with rfl | rfl
  · exact ⟨rfl, rfl⟩
  · exact ⟨h.volume_loadFat r.parent, rfl⟩

/-- **`read` refines `Volume.read`** if the chain of the file it finds is in the table and ends. -/
theorem read_eq {s : State} {r : Request} {fuel : Nat} (hfuel : 512 ≤ fuel) (h : Synced s.volume)
    (hchain : ∀ row, Volume.findAnyRow (s.volume.table r.parent) r = some row →
      (s.volume.table r.parent row).attr ≠ attrSubdirectory →
      ∃ l, Lib.Chain s.volume.next endMark (s.volume.table r.parent row).cluster l ∧ ∀ x ∈ l, x < 512) :
    ∃ s', read fuel s r = some (s.volume.read r, s') := by
  have htab : (s.loadDirTable r.parent).dirTableBuf = s.volume.table r.parent := rfl
  have htab' : (s.loadDirTable r.parent).loadFat.dirTableBuf = s.volume.table r.parent := rfl
  by_cases hu : ((s.volume.table r.parent 0).userAttribute != uattrNotEmpty) = true
  · exact ⟨s.loadDirTable r.parent, by simp only [read, Volume.read, htab, hu, if_true]⟩
  refine ⟨(s.loadDirTable r.parent).loadFat, ?_⟩
  simp only [read, Volume.read, htab, htab', hu, Bool.false_eq_true, if_false]
  cases hf : Volume.findAnyRow (s.volume.table r.parent) r with
  | none =>
    unfold Volume.findAnyRow at hf
    rw [hf]
  | some row =>
    have hchain := hchain row hf
    unfold Volume.findAnyRow at hf
    rw [hf]
    dsimp only
    by_cases ha : (s.volume.table r.parent row).attr = attrSubdirectory
    · simp only [ha, if_true]
    by_cases hs : r.bufferSize < (s.volume.table r.parent row).filesize
    · simp only [ha, hs, if_false, if_true]
    obtain ⟨l, hl, hl512⟩ := hchain ha
    have hlen := chain_length_le hl hl512
    have hl' : Lib.Chain (s.loadDirTable r.parent).loadFat.volume.next endMark
        (s.volume.table r.parent row).cluster l := by
      rw [h.volume_loadFat r.parent]
      exact hl
    have hwalk := readChain_eq (b := r.buf) (k := 0) hl' hl512 (hlen.trans hfuel) (by omega)
    simp only [ha, hs, if_false, hwalk, Option.map_some, chain_eq hl hl512]
    rfl

theorem readDirectory_eq (s : State) (r : Request) :
    readDirectory s r = (s.volume.readDirectory r, s.loadDirTable r.parent) := by
  have htab : (s.loadDirTable r.parent).dirTableBuf = s.volume.table r.parent := rfl
  have hdisk : (s.loadDirTable r.parent).disk = s.volume.disk := rfl
  simp only [readDirectory, Volume.readDirectory, htab, hdisk]
  by_cases hu : ((s.volume.table r.parent 0).userAttribute != uattrNotEmpty) = true
  · rw [if_pos hu, if_pos hu]
  rw [if_neg hu, if_neg hu]
  cases Fin.find? fun i => memcmp (s.volume.table r.parent i).name r.name == 0 with
  | none => rfl
  | some i =>
    by_cases ha : ((s.volume.table r.parent i).attr != attrSubdirectory) = true
    · simp only [ha, if_true]
    · simp only [ha, Bool.false_eq_true, if_false]

end MoggersOs
