import MoggersOs.Filesystem.Runs
/-
# Writing a file and reading it back

`write` cuts the buffer into clusters: the first one comes straight from the buffer, the middle ones are
full, and the last one gets `buffer_size % CLUSTER_SIZE` bytes (`fat32.c:328`). `read` copies whole
clusters along the chain. The two agree except where the remainder is 0: then the last of several
clusters gets no bytes at all. `roundTrip_iff` says that this is the only way to lose a byte.
-/

namespace MoggersOs

/-! ## What the clusters of a new file hold -/

namespace Volume

/-- Part `t` of a file in `k + 1` clusters, as `write` stores it. -/
def storedPart (r : Request) (k t : Nat) : Cluster :=
  filePartCluster r.buf t (if 0 < t ∧ t = k then r.bufferSize.toNat % 2048 else 2048)

/-- The second loop puts part `m + j` into cluster `j` of its list. -/
theorem readClusters_partsFrom {r : Request} {k : Nat} : ∀ {l : List Nat} {d : Disk} {n m : Nat}, l.Nodup →
    (∀ x ∈ l, x < 512) → 0 < m → n + m = k + 1 → l.length ≤ n → ∀ {j x : Nat}, l[j]? = some x →
    readClusters (writeAll d (partsFrom r n m l)) x = storedPart r k (m + j)
  | [], _, _, _, _, _, _, _, _, _, _, h => by simp at h
  | c :: l, d, n, m, hnd, hlt, hm, hnm, hlen, j, x, h => by
    obtain ⟨hc, hnd⟩ := List.nodup_cons.1 hnd
    have hlt' : ∀ y ∈ l, y < 512 := fun y hy => hlt y (List.mem_cons_of_mem _ hy)
    rw [List.length_cons] at hlen
    rw [partsFrom, writeAll]
    cases j with
    | zero =>
      obtain rfl : c = x := by simpa using h
      have hc512 := hlt c (by simp)
      rw [readClusters_writeAll (by omega), readClusters_writeClusters, storedPart, Nat.add_zero]
      · by_cases hn : n = 1
        · rw [if_pos hn, if_pos ⟨hm, by omega⟩]
        · rw [if_neg hn, if_neg (by omega)]
      · intro w hw
        have hmem := mem_partsFrom hw
        have := hlt' _ hmem
        exact ⟨by omega, fun he => hc (he ▸ hmem)⟩
    | succ j =>
      have ih := readClusters_partsFrom (r := r) (d := writeClusters d (filePartCluster r.buf m
        (if n = 1 then r.bufferSize.toNat % 2048 else 2048)) c) (n := n - 1) (m := m + 1) (k := k) hnd hlt'
        (by omega) (by omega) (by omega) (j := j) (x := x) (by simpa using h)
      rw [ih]
      congr 1
      omega

/-- The later clusters go to higher addresses. -/
theorem deliver_below (d : Disk) : ∀ (l : List Nat) {b : Nat → UInt8} {k : Nat} (a : Nat), a < 2048 * k →
    deliver d b k l a = b a
  | [], _, _, _, _ => rfl
  | c :: l, b, k, a, ha => by rw [deliver, deliver_below d l a (by omega), blit, dif_neg (by omega)]

/-- What `deliver` leaves in memory if cluster `j` of the chain holds part `k + j`. -/
theorem deliver_parts {d : Disk} {P : Nat → Cluster} : ∀ {l : List Nat} {b : Nat → UInt8} {k : Nat},
    (∀ j x, l[j]? = some x → readClusters d x = P (k + j)) → ∀ a, 2048 * k ≤ a → a < 2048 * (k + l.length) →
    deliver d b k l a = P (a / 2048) ⟨a % 2048, Nat.mod_lt a (by decide)⟩
  | [], _, _, _, _, hlo, hhi => by simp only [List.length_nil] at hhi; omega
  | c :: l, b, k, h, a, hlo, hhi => by
    have hrest : ∀ j x, l[j]? = some x → readClusters d x = P (k + 1 + j) := by
      intro j x hx
      rw [h (j + 1) x (by simpa using hx)]
      congr 1
      omega
    rw [List.length_cons] at hhi
    rw [deliver]
    by_cases hk : 2048 * (k + 1) ≤ a
    · exact deliver_parts hrest a hk (by omega)
    · rw [deliver_below d l a (by omega), blit, dif_pos ⟨hlo, by omega⟩, h 0 c (by simp)]
      obtain rfl : k = a / 2048 := by omega
      congr 1
      exact Fin.ext (by simp; omega)

/-- Cluster `j` of a new file holds part `j`: the row and the table are written elsewhere. -/
theorem mkfile_parts (v : Volume) (r : Request) (row : Fin 64) {c : Nat} {l : List Nat} (hnd : (c :: l).Nodup)
    (hlt : ∀ x ∈ c :: l, x < 512) (h1 : fatClusterNumber ∉ c :: l) (hp : r.parent ∉ c :: l) (hp' : r.parent < 512)
    (hlen : clustersOf r.bufferSize.toNat = l.length + 1) {j x : Nat} (hx : (c :: l)[j]? = some x) :
    readClusters (v.apply (v.mkfile r row c l)).disk x = storedPart r l.length j := by
  have hmem : x ∈ c :: l := List.mem_of_getElem? hx
  have hx512 := hlt x hmem
  have hne1 : x ≠ fatClusterNumber := fun he => h1 (he ▸ hmem)
  have hnep : x ≠ r.parent := fun he => hp (he ▸ hmem)
  have hlast : readClusters (v.apply (v.mkfile r row c l)).disk x = readClusters
      (writeAll v.disk ((c, filePartCluster r.buf 0 2048) :: partsFrom r l.length 1 l)) x := by
    have hk : clustersOf r.bufferSize.toNat - 1 = l.length := by omega
    show readClusters (writeAll v.disk (v.mkfile r row c l).writes) x = _
    unfold mkfile
    rw [writeAll_append, hk, readClusters_writeAll (by omega)]
    simp only [List.forall_mem_cons, List.not_mem_nil, false_implies, implies_true, and_true]
    exact ⟨⟨by decide, hne1⟩, ⟨by omega, hnep⟩⟩
  obtain ⟨hc, hnd⟩ := List.nodup_cons.1 hnd
  have hlt' : ∀ y ∈ l, y < 512 := fun y hy => hlt y (List.mem_cons_of_mem _ hy)
  rw [hlast, writeAll]
  cases j with
  | zero =>
    obtain rfl : c = x := by simpa using hx
    rw [readClusters_writeAll (by omega), readClusters_writeClusters]
    · rfl
    · intro w hw
      have hm := mem_partsFrom hw
      have := hlt' _ hm
      exact ⟨by omega, fun he => hc (he ▸ hm)⟩
  | succ j =>
    rw [readClusters_partsFrom (k := l.length) hnd hlt' (by decide) rfl (Nat.le_refl _) (j := j)
      (by simpa using hx)]
    congr 1
    omega

end Volume

/-! ## The two together -/

/-- The last of several clusters is full, so its remainder is 0, and it holds something. -/
def LastPartLost (r : Request) : Prop :=
  2048 < r.bufferSize.toNat ∧ r.bufferSize.toNat % 2048 = 0 ∧
    ∃ i < r.bufferSize.toNat, r.bufferSize.toNat - 2048 ≤ i ∧ r.buf i ≠ 0

/-- After `write`, every `read` of the name into a buffer that is large enough returns 0 and delivers
the bytes written. -/
def RoundTrip (s : State) (r : Request) : Prop :=
  ∀ q : Request, q.parent = r.parent → q.name = r.name → q.ext = r.ext → r.bufferSize ≤ q.bufferSize →
    ∀ fuel ≥ 512, ∃ rep t, read fuel (write s r).2 q = some (rep, t) ∧ rep.code = 0 ∧
      ∀ i < r.bufferSize.toNat, rep.buf i = r.buf i

/-- A byte as the clusters of the file hold it: that of the buffer, or 0 in a last cluster that is full. -/
theorem storedPart_get (r : Request) {k : Nat} (hk : clustersOf r.bufferSize.toNat = k + 1) {i : Nat}
    (hi : i < r.bufferSize.toNat) : Volume.storedPart r k (i / 2048) ⟨i % 2048, Nat.mod_lt i (by decide)⟩ =
      if 2048 < r.bufferSize.toNat ∧ r.bufferSize.toNat % 2048 = 0 ∧ r.bufferSize.toNat - 2048 ≤ i then 0
      else r.buf i := by
  have hi' : 2048 * (i / 2048) + i % 2048 = i := by omega
  unfold clustersOf at hk
  simp only [Volume.storedPart, filePartCluster, hi']
  by_cases hz : r.bufferSize.toNat % 2048 = 0
  · rw [if_neg (by omega)] at hk
    by_cases hl : 0 < i / 2048 ∧ i / 2048 = k
    · rw [if_pos hl, if_neg (by omega), if_pos (by omega)]
    · rw [if_neg hl, if_pos (by omega), if_neg (by omega)]
  · rw [if_pos hz] at hk
    rw [if_pos ?_, if_neg (by omega)]
    by_cases hl : 0 < i / 2048 ∧ i / 2048 = k
    · rw [if_pos hl]
      omega
    · rw [if_neg hl]
      omega

/-- The bytes that come back. -/
theorem storedPart_eq_iff (r : Request) {k : Nat} (hk : clustersOf r.bufferSize.toNat = k + 1) :
    (∀ i < r.bufferSize.toNat, Volume.storedPart r k (i / 2048) ⟨i % 2048, Nat.mod_lt i (by decide)⟩ = r.buf i) ↔
      ¬ LastPartLost r := by
  constructor
  · rintro h ⟨hlt, hz, i, hi, hlo, hne⟩
    have hb := h i hi
    rw [storedPart_get r hk hi, if_pos ⟨hlt, hz, hlo⟩] at hb
    exact hne hb.symm
  · intro h i hi
    rw [storedPart_get r hk hi]
    split
    · rename_i hc
      by_contra hne
      exact h ⟨hc.1, hc.2.1, i, hi, hc.2.2, fun h0 => hne h0.symm⟩
    · rfl

/-- The table marks clusters 0 and 1 and the directory at `d` as taken. -/
structure Marked (s : State) (d : Nat) : Prop where
  range : 2 ≤ d ∧ d < 512
  fat0  : s.fatTable.get 0 ≠ fatEmptyEntry
  fat1  : s.fatTable.get 1 ≠ fatEmptyEntry
  dir   : s.fatTable.get d ≠ fatEmptyEntry

theorem Marked.free {s : State} {d x : Nat} (h : Marked s d) (hx : x ∈ s.fatTable.freeClusters) :
    2 ≤ x ∧ x < 512 ∧ x ≠ d := by
  obtain ⟨hlt, h0⟩ := Fat.mem_freeClusters.1 hx
  have hne : ∀ n, s.fatTable.get n ≠ fatEmptyEntry → x ≠ n := fun n hn he => hn (he ▸ h0)
  have hx0 := hne 0 h.fat0
  have hx1 := hne 1 h.fat1
  exact ⟨by omega, hlt, hne d h.dir⟩

/-- In a run of safe requests the table marks them for every directory. -/
theorem Run.marked {s : State} {live : Finset Nat} {d : Nat} (h : Run Safe s live) (hd : d ∈ live) : Marked s d := by
  have hinv := h.safe_inv
  obtain ⟨h2, h512, hend⟩ := hinv.live_cluster hd
  refine ⟨⟨h2, h512⟩, fun h0 => ?_, fun h1 => ?_, fun hz => ?_⟩
  · exact absurd (hinv.fat0.symm.trans h0) (by decide)
  · exact absurd (hinv.fat1.symm.trans h1) (by decide)
  · exact absurd (hend.symm.trans hz) (by decide)

/-- The rows that `read` looks at: the new one is the first with the name. -/
theorem findAnyRow_update {t : Table} {r q : Request} {row : Fin 64} {e : DirEntry}
    (hlow : ∀ i : Fin 64, i.val < 2 → ¬ ((t i).name = r.name ∧ (t i).ext = r.ext))
    (hnone : findRow t r = none) (he : e.name = r.name ∧ e.ext = r.ext) (hq : q.name = r.name ∧ q.ext = r.ext) :
    Volume.findAnyRow (Function.update t row e) q = some row := by
  refine Fin.find?_eq_some_iff.2 ⟨?_, fun j hj => ?_⟩
  · rw [sameName_iff, Function.update_self, hq.1, hq.2]
    exact he
  · rw [Bool.eq_false_iff, ne_eq, sameName_iff, Function.update_of_ne (Fin.ne_of_lt hj), hq.1, hq.2]
    by_cases h2 : 2 ≤ j.val
    · exact findRow_eq_none hnone h2
    · exact hlow j (by omega)

/-- The reply to a `read` of the file that `mkfile` made. -/
theorem read_mkfile {v v' : Volume} {r q : Request} {row : Fin 64} {c : Nat} {l : List Nat}
    (he : Edit v v' r.parent row (newFile r c) (c :: l)) (hdir : isDirectory (v.table r.parent) = true)
    (hrow : 2 ≤ row.val) (hfind : Volume.findAnyRow (v'.table q.parent) q = some row) (hqp : q.parent = r.parent)
    (hsize : r.bufferSize ≤ q.bufferSize) (hc : c < 512)
    (hchain : Lib.Chain v'.next endMark c (c :: l)) (hlt : ∀ x ∈ c :: l, x < 512) :
    v'.read q = ⟨0, Volume.deliver v'.disk q.buf 0 (c :: l)⟩ := by
  have h0 : v'.table q.parent 0 = v.table r.parent 0 := by
    rw [hqp, he.parent, Function.update_of_ne]
    rintro rfl
    exact absurd hrow (by decide)
  have hnew : v'.table q.parent row = newFile r c := by rw [hqp, he.table_self]
  have huser : ((v'.table q.parent 0).userAttribute != uattrNotEmpty) = false := by
    rw [h0, bne_eq_false_iff_eq]
    exact (isDirectory_iff.1 hdir).1
  have hfile : (newFile r c).attr ≠ attrSubdirectory := newFile_not_folder r c
  have hfits : ¬ q.bufferSize < (newFile r c).filesize := UInt32.not_lt.2 hsize
  unfold Volume.read
  simp only [huser, hfind, hnew, hfile, hfits, Bool.false_eq_true, if_false, newFile_cluster r hc,
    chain_eq hchain hlt]

section marked
variable {s : State} {r : Request} (hm : Marked s r.parent) (hz : r.bufferSize ≠ 0) (hfit : s.volume.Fits r)
variable (hlow : ∀ i : Fin 64, i.val < 2 →
  ¬ ((s.volume.table r.parent i).name = r.name ∧ (s.volume.table r.parent i).ext = r.ext))
variable (hw : (write s r).1 = 0)
include hm hz hfit hlow hw

/-- What a large enough `read` delivers after the `write`: the parts as they were stored. -/
theorem read_after_write : ∃ k, clustersOf r.bufferSize.toNat = k + 1 ∧
    ∀ q : Request, q.parent = r.parent → q.name = r.name → q.ext = r.ext → r.bufferSize ≤ q.bufferSize →
      ∀ fuel ≥ 512, ∃ rep t, read fuel (write s r).2 q = some (rep, t) ∧ rep.code = 0 ∧
        ∀ i, i < r.bufferSize.toNat →
          rep.buf i = Volume.storedPart r k (i / 2048) ⟨i % 2048, Nat.mod_lt i (by decide)⟩ := by
  have hdoes := write_does hfit
  have hcode := hdoes.code
  rw [hw] at hcode
  have hvol := hdoes.volume
  obtain ⟨row, c, l, href, hrow, htake, he⟩ := Volume.write_file hz hcode.symm
  obtain ⟨hdir, -, hnone⟩ := Volume.not_refused href
  obtain ⟨hmem, hnd, hlen⟩ := hfit.taken hz htake
  rw [List.length_cons] at hlen
  -- the clusters of the file are free, so they are neither 1 nor the parent
  have hfree : ∀ x ∈ c :: l, 2 ≤ x ∧ x < 512 ∧ x ≠ r.parent := fun x hx => hm.free (hmem x hx)
  have hlt : ∀ x ∈ c :: l, x < 512 := fun x hx => (hfree x hx).2.1
  have h1 : fatClusterNumber ∉ c :: l := fun hx => absurd (hfree _ hx).1 (by decide)
  rw [he] at hvol
  have hedit := mkfile_edit s.volume r row hm.range.1 hm.range.2 (c := c) (l := l)
    fun x hx => ⟨(hfree x hx).1, hlt x hx⟩
  have hchain : Lib.Chain (write s r).2.volume.next endMark c (c :: l) := by
    rw [hvol]
    exact Volume.linkFrom_chain (Fat.get_set_self _ (hlt c (by simp)) _) hnd hlt
  have hparts : ∀ j x, (c :: l)[j]? = some x →
      readClusters (write s r).2.volume.disk x = Volume.storedPart r l.length (0 + j) := by
    intro j x hx
    rw [hvol, Nat.zero_add]
    exact Volume.mkfile_parts s.volume r row hnd hlt h1 (fun hp => (hfree _ hp).2.2 rfl) hm.range.2 hlen.symm hx
  rw [← hvol] at hedit
  have hrow2 := (findFreeRow_eq_some hrow).1
  refine ⟨l.length, hlen.symm, fun q hqp hqn hqe hsize fuel hfuel => ?_⟩
  have hfind : Volume.findAnyRow ((write s r).2.volume.table q.parent) q = some row := by
    rw [hqp, hedit.parent]
    exact findAnyRow_update hlow hnone ⟨rfl, rfl⟩ ⟨hqn, hqe⟩
  have hnew : (write s r).2.volume.table q.parent row = newFile r c := by rw [hqp, hedit.table_self]
  obtain ⟨t, ht⟩ := read_eq hfuel hedit.synced (r := q) fun row' hf _ => by
    rw [hfind, Option.some.injEq] at hf
    rw [← hf, hnew, newFile_cluster r (hlt c (by simp))]
    exact ⟨c :: l, hchain, hlt⟩
  rw [read_mkfile hedit hdir hrow2 hfind hqp hsize (hlt c (by simp)) hchain hlt] at ht
  refine ⟨_, t, ht, rfl, fun i hi => Volume.deliver_parts hparts i (by omega) ?_⟩
  rw [clustersOf_eq_ceil] at hlen
  rw [List.length_cons]
  omega

/-- **The round trip, from any state** whose table marks the reserved clusters and the parent. -/
theorem roundTrip_of_marked : RoundTrip s r ↔ ¬ LastPartLost r := by
  obtain ⟨k, hlen, hread⟩ := read_after_write hm hz hfit hlow hw
  rw [← storedPart_eq_iff r hlen]
  constructor
  · intro h i hi
    obtain ⟨rep, t, ht, -, hrep⟩ := h r rfl rfl rfl (UInt32.le_refl _) 512 (Nat.le_refl _)
    obtain ⟨rep', t', ht', -, hstored⟩ := hread r rfl rfl rfl (UInt32.le_refl _) 512 (Nat.le_refl _)
    rw [ht, Option.some.injEq, Prod.mk.injEq] at ht'
    rw [← hstored i hi, ← hrep i hi, ht'.1]
  · intro h q hqp hqn hqe hsize fuel hfuel
    obtain ⟨rep, t, ht, hcode, hstored⟩ := hread q hqp hqn hqe hsize fuel hfuel
    refine ⟨rep, t, ht, hcode, fun i hi => ?_⟩
    rw [← h i hi, hstored i hi]

end marked

/-- **When a file comes back as it was written.** In every state whose table marks the reserved clusters
and the parent as taken, a `write` of at least one byte that fits and returns 0 makes a file that reads
back, unless its last cluster is a full one after others and not all zeros. Runs in which each write fits
or is refused and each delete picks a row in use reach no other states. -/
theorem roundTrip_iff {s : State} {r : Request}
    (hs : Marked s r.parent ∨ ∃ live, Run Safe s live ∧ r.parent ∈ live) (hz : r.bufferSize ≠ 0)
    (hfit : s.volume.Fits r)
    (hlow : ∀ i : Fin 64, i.val < 2 →
      ¬ ((s.volume.table r.parent i).name = r.name ∧ (s.volume.table r.parent i).ext = r.ext))
    (hw : (write s r).1 = 0) : RoundTrip s r ↔ ¬ LastPartLost r := by
  have hm : Marked s r.parent := by
    obtain hm | ⟨live, hrun, hd⟩ := hs
    · exact hm
    · exact hrun.marked hd
  exact roundTrip_of_marked hm hz hfit hlow hw

/-! ## On a fresh volume -/

section fresh
variable {n : UInt32} {k : Nat} (hk : clustersOf n.toNat = k + 1) (hk' : k ≤ 508)
include hk hk'

theorem fileRequest_fits : (createFat32 blankState).volume.Fits (fileRequest n) := by
  have hneeded : Volume.needed (fileRequest n) ≤ clustersOf n.toNat := by
    unfold Volume.needed
    split
    · omega
    · exact Nat.le_refl _
  rw [createFat32_fits]
  omega

theorem fileRequest_write : (write (createFat32 blankState) (fileRequest n)).1 = 0 := by
  have hnamed : (fileRequest n).Named := fun hx =>
    absurd (show fileName 0 = 0 from congrFun hx.1 0) (by decide)
  rw [(write_does (fileRequest_fits hk hk')).code, createFat32_mkfile blankState rfl hnamed hk hk']
  rfl

end fresh

theorem fileRequest_rows (n : UInt32) (i : Fin 64) (hi : i.val < 2) :
    ¬ (((createFat32 blankState).volume.table (fileRequest n).parent i).name = (fileRequest n).name ∧
      ((createFat32 blankState).volume.table (fileRequest n).parent i).ext = (fileRequest n).ext) := by
  have htab : (createFat32 blankState).volume.table (fileRequest n).parent = formattedRoot :=
    createFat32_table blankState
  rw [htab]
  rintro ⟨hn, -⟩
  have hcases : i = 0 ∨ i = 1 := by omega
  rcases hcases with rfl | rfl
  · exact absurd (show (formattedRoot 0).name 0 = fileName 0 from congrFun hn 0) (by decide)
  · exact absurd (show (formattedRoot 1).name 0 = fileName 0 from congrFun hn 0) (by decide)

/-- Five bytes come back. -/
theorem roundTrip_five : RoundTrip (createFat32 blankState) (fileRequest 5) :=
  (roundTrip_iff (.inr ⟨_, Run.format Safe blankState, by decide⟩) (by decide)
    (fileRequest_fits (k := 0) rfl (by decide)) (fileRequest_rows 5)
    (fileRequest_write (k := 0) rfl (by decide))).2 fun h => absurd h.1 (by decide)

/-- Two full clusters do not. -/
theorem not_roundTrip_4096 : ¬ ∀ s live r, Run LiveParent s live → r.parent ∈ live → r.bufferSize ≠ 0 →
    s.volume.Fits r → (∀ i : Fin 64, i.val < 2 →
      ¬ ((s.volume.table r.parent i).name = r.name ∧ (s.volume.table r.parent i).ext = r.ext)) →
    (write s r).1 = 0 → RoundTrip s r := by
  intro h
  have hfit := fileRequest_fits (n := 4096) (k := 1) rfl (by decide)
  have hw := fileRequest_write (n := 4096) (k := 1) rfl (by decide)
  have hmarked : Marked (createFat32 blankState) (fileRequest 4096).parent :=
    (Run.format Safe blankState).marked (by decide)
  have hrt := h (createFat32 blankState) {rootClusterNumber} (fileRequest 4096) (Run.format _ _) (by decide)
    (by decide) hfit (fileRequest_rows 4096) hw
  refine (roundTrip_of_marked hmarked (by decide) hfit (fileRequest_rows 4096) hw).1 hrt ⟨by decide, by decide, ?_⟩
  exact ⟨4095, by decide, by decide, by decide⟩

end MoggersOs
