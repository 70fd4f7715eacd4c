import MoggersOs.Lib.Walk
import MoggersOs.Filesystem.Frame
/-
# The loop of `read`

`read` checks the size of the file against `buffer_size`, but the loop that follows copies whole clusters and is
driven by the table alone (`fat32.c:185-205`). On a volume in order that makes the file's clusters
(`Refine.lean`, `read_eq`). Here the volume is arbitrary, a damaged image included: `withinBuffer_iff` says when the
loop stays inside the buffer, and `read_ends_iff` when it ends.

| here | there |
| --- | --- |
| `State.follow`  | `driver_state.fat_table.cluster_map[cluster_num]` (`fat32.c:201`), in the table or not |
| `Enters`        | the checks before the loop are passed (`fat32.c:166-190`) |
| `roundsFrom`, `memoryAfter` | the memory when the loop has made at most `n` rounds |
| `WithinBuffer`  | "buffer_size will limit reading count" (`fat32.h:228`) |

The words past the table that a walk may load are taken to be outside the buffer.
-/

namespace MoggersOs

/-- The cluster after `c`, wherever the subscript leads. -/
def State.follow (s : State) (c : Nat) : Nat := (s.clusterMap c).toNat

theorem follow_eq_endMark {s : State} {c : Nat} : s.follow c = endMark ↔ s.clusterMap c = fatEndOfFile := by
  rw [State.follow, endMark, UInt32.toNat_inj]

/-- The table has 32-bit entries. -/
theorem finite_range_follow (s : State) : (Set.range s.follow).Finite := by
  refine (Set.finite_lt_nat (2 ^ 32)).subset ?_
  rintro _ ⟨c, rfl⟩
  exact (s.clusterMap c).toNat_lt

/-- The state in which the loop runs: `read` has loaded the parent and the table from the disk. -/
def loaded (s : State) (r : Request) : State := (s.loadDirTable r.parent).loadFat

/-- `read` gets to the loop, with first cluster `c`. -/
def Enters (s : State) (r : Request) (c : Nat) : Prop :=
  (s.volume.table r.parent 0).Used ∧ ∃ i, Volume.findAnyRow (s.volume.table r.parent) r = some i ∧
    ¬ (s.volume.table r.parent i).Folder ∧ (s.volume.table r.parent i).filesize ≤ r.bufferSize ∧
    (s.volume.table r.parent i).cluster = c

/-- The memory from the buffer on after at most `n` rounds of the loop. -/
def roundsFrom (s : State) : Nat → (Nat → UInt8) → Nat → Nat → (Nat → UInt8)
  | 0, buf, _, _ => buf
  | n + 1, buf, counter, clusterNum =>
    let buf := blit buf (2048 * counter) (readClusters s.disk clusterNum)
    if s.clusterMap clusterNum = fatEndOfFile then buf
    else roundsFrom s n buf ((counter + 1) % 2 ^ 16) (s.follow clusterNum)

/-- The memory from the buffer on when `read` has made at most `n` rounds. -/
def memoryAfter (n : Nat) (s : State) (r : Request) : Nat → UInt8 :=
  let s := s.loadDirTable r.parent
  if (s.dirTableBuf 0).userAttribute != uattrNotEmpty then r.buf
  else
    let s := s.loadFat
    match Fin.find? fun i => sameName (s.dirTableBuf i) r with
    | none => r.buf
    | some i =>
      let e := s.dirTableBuf i
      if e.attr = attrSubdirectory then r.buf
      else if r.bufferSize < e.filesize then r.buf
      else roundsFrom s n r.buf 0 e.cluster

/-! ## The checks before the loop -/

section
variable {s : State} {r : Request} {c : Nat}

/-- The row the loop starts from is the one that is found. -/
theorem Enters.found (hc : Enters s r c) {i : Fin 64}
    (hf : Volume.findAnyRow (s.volume.table r.parent) r = some i) :
    ¬ (s.volume.table r.parent i).Folder ∧ (s.volume.table r.parent i).filesize ≤ r.bufferSize ∧
      (s.volume.table r.parent i).cluster = c := by
  obtain ⟨-, j, hj, h⟩ := hc
  rw [hf, Option.some.injEq] at hj
  rwa [hj]

theorem Enters.unique {d : Nat} (hc : Enters s r c) (hd : Enters s r d) : d = c := by
  obtain ⟨-, i, hi, -⟩ := id hc
  exact (hd.found hi).2.2.symm.trans (hc.found hi).2.2

/-- Either a check stops `read`, and the memory stays, or the loop is entered. -/
theorem read_cases (s : State) (r : Request) :
    ((∀ c, ¬ Enters s r c) ∧ (∃ out, out.1.buf = r.buf ∧ ∀ fuel, read fuel s r = some out) ∧
      ∀ n, memoryAfter n s r = r.buf) ∨
    ∃ c, Enters s r c ∧
      (∀ fuel, read fuel s r = (readChain (loaded s r) fuel r.buf 0 c).map fun buf => (⟨0, buf⟩, loaded s r)) ∧
      ∀ n, memoryAfter n s r = roundsFrom (loaded s r) n r.buf 0 c := by
  have htab : (s.loadDirTable r.parent).dirTableBuf = s.volume.table r.parent := rfl
  have htab' : (s.loadDirTable r.parent).loadFat.dirTableBuf = s.volume.table r.parent := rfl
  by_cases hu : (s.volume.table r.parent 0).userAttribute = uattrNotEmpty
  swap
  · refine .inl ⟨fun c hc => hu hc.1, ⟨(⟨-1, r.buf⟩, s.loadDirTable r.parent), rfl, fun fuel => ?_⟩, fun n => ?_⟩
    · simp [read, htab, hu]
    · simp [memoryAfter, htab, hu]
  cases hf : Volume.findAnyRow (s.volume.table r.parent) r with
  | none =>
    have hno : ∀ c, ¬ Enters s r c := by
      rintro c ⟨-, i, hi, -⟩
      rw [hf] at hi
      simp at hi
    unfold Volume.findAnyRow at hf
    refine .inl ⟨hno, ⟨(⟨2, r.buf⟩, loaded s r), rfl, fun fuel => ?_⟩, fun n => ?_⟩
    · simp [read, htab, htab', hu, hf, loaded]
    · simp [memoryAfter, htab, htab', hu, hf]
  | some i =>
    by_cases ha : (s.volume.table r.parent i).attr = attrSubdirectory
    · have hno : ∀ c, ¬ Enters s r c := fun c hc => (hc.found hf).1 ha
      unfold Volume.findAnyRow at hf
      refine .inl ⟨hno, ⟨(⟨1, r.buf⟩, loaded s r), rfl, fun fuel => ?_⟩, fun n => ?_⟩
      · simp [read, htab, htab', hu, hf, ha, loaded]
      · simp [memoryAfter, htab, htab', hu, hf, ha]
    by_cases hs : r.bufferSize < (s.volume.table r.parent i).filesize
    · have hno : ∀ c, ¬ Enters s r c := fun c hc => UInt32.not_le.2 hs (hc.found hf).2.1
      unfold Volume.findAnyRow at hf
      refine .inl ⟨hno, ⟨(⟨-1, r.buf⟩, loaded s r), rfl, fun fuel => ?_⟩, fun n => ?_⟩
      · simp [read, htab, htab', hu, hf, ha, hs, loaded]
      · simp [memoryAfter, htab, htab', hu, hf, ha, hs]
    · refine .inr ⟨_, ⟨hu, i, hf, ha, UInt32.not_lt.1 hs, rfl⟩, fun fuel => ?_, fun n => ?_⟩
      · unfold Volume.findAnyRow at hf
        simp [read, htab, htab', hu, hf, ha, hs, loaded]
      · unfold Volume.findAnyRow at hf
        simp [memoryAfter, htab, htab', hu, hf, ha, hs, loaded]

end

/-! ## How far the loop writes -/

section
variable {s : State}

theorem readChain_rounds : ∀ {fuel : Nat} {buf buf' : Nat → UInt8} {k c : Nat},
    readChain s fuel buf k c = some buf' → roundsFrom s fuel buf k c = buf'
  | fuel + 1, buf, buf', k, c, h => by
    simp only [readChain, roundsFrom] at h ⊢
    split at h
    · rename_i he
      rw [if_pos he]
      exact Option.some.inj h
    · rename_i he
      rw [if_neg he]
      exact readChain_rounds h

/-- `memoryAfter` is the memory that `read` leaves. -/
theorem memoryAfter_read {s s' : State} {r : Request} {fuel : Nat} {rep : Reply}
    (h : read fuel s r = some (rep, s')) : memoryAfter fuel s r = rep.buf := by
  rcases read_cases s r with ⟨-, ⟨out, hout, hread⟩, hmem⟩ | ⟨c, -, hread, hmem⟩
  · rw [hread, Option.some.injEq] at h
    rw [hmem, ← hout, h]
  · rw [hread] at h
    obtain ⟨buf, hbuf, he⟩ := Option.map_eq_some_iff.1 h
    rw [hmem, readChain_rounds hbuf, ← (Prod.mk.inj he).1]

/-- Round `k` writes the `2048` bytes from `2048 * k` on, `k` taken modulo the range of its counter. -/
theorem rounds_frame {a : Nat} : ∀ {n : Nat} {buf : Nat → UInt8} {m c : Nat}, m < 2 ^ 16 →
    (∀ k, Lib.Reaches s.follow endMark c k → 2048 * ((m + k) % 2 ^ 16 + 1) ≤ a) →
    roundsFrom s n buf m c a = buf a
  | 0, _, _, _, _, _ => rfl
  | n + 1, buf, m, c, hm, h => by
    have h0 := h 0 Lib.reaches_zero
    rw [Nat.mod_eq_of_lt (show m + 0 < 2 ^ 16 from hm)] at h0
    have hblit : blit buf (2048 * m) (readClusters s.disk c) a = buf a := by
      rw [blit, dif_neg (by omega)]
    rw [roundsFrom]
    split
    · exact hblit
    · rename_i he
      refine (rounds_frame (Nat.mod_lt _ (by decide)) fun k hk => ?_).trans hblit
      have hk' := h (k + 1) (Lib.reaches_succ.2 ⟨fun hx => he (follow_eq_endMark.1 hx), hk⟩)
      rwa [show (m + (k + 1)) % 2 ^ 16 = ((m + 1) % 2 ^ 16 + k) % 2 ^ 16 by omega] at hk'

/-- What round `k` wrote is there after it. -/
theorem rounds_last (i : Fin 2048) : ∀ {k : Nat} {buf : Nat → UInt8} {m c : Nat}, m + k < 2 ^ 16 →
    Lib.Reaches s.follow endMark c k →
    roundsFrom s (k + 1) buf m c (2048 * (m + k) + i) = readClusters s.disk (s.follow^[k] c) i
  | 0, buf, m, c, _, _ => by
    have hi := i.isLt
    have hblit : blit buf (2048 * m) (readClusters s.disk c) (2048 * (m + 0) + i) = readClusters s.disk c i := by
      rw [blit, dif_pos ⟨by omega, by omega⟩]
      congr 1
      exact Fin.ext (by simp)
    rw [roundsFrom]
    split
    · exact hblit
    · exact hblit
  | k + 1, buf, m, c, hm, h => by
    obtain ⟨hne, h⟩ := Lib.reaches_succ.1 h
    rw [roundsFrom, if_neg fun he => hne (follow_eq_endMark.2 he), Nat.mod_eq_of_lt (by omega),
      show m + (k + 1) = m + 1 + k by omega, rounds_last i (by omega) h, Function.iterate_succ_apply]

end

/-- At no moment `read` has changed the memory past the buffer, whatever the memory holds. -/
def WithinBuffer (s : State) (r : Request) : Prop := ∀ (mem : Nat → UInt8) (n a : Nat), r.bufferSize.toNat ≤ a →
  memoryAfter n s { r with buf := mem } a = mem a

/-- If `read` gets to the loop, whole clusters for all its rounds fit into the buffer. There may be more rounds than
`counter` can count, and then it starts again at 0. -/
def ChainFits (s : State) (r : Request) : Prop := ∀ c, Enters s r c → ∀ k < 2 ^ 16,
  Lib.Reaches (loaded s r).follow endMark c k → 2048 * (k + 1) ≤ r.bufferSize.toNat

theorem ChainFits.withinBuffer {s : State} {r : Request} (h : ChainFits s r) : WithinBuffer s r := by
  intro mem n a ha
  rcases read_cases s { r with buf := mem } with ⟨-, -, hmem⟩ | ⟨c, hc, -, hmem⟩
  · rw [hmem]
  · rw [hmem]
    refine rounds_frame (by decide) fun k hk => ?_
    have hlt : (0 + k) % 2 ^ 16 < 2 ^ 16 := Nat.mod_lt _ (by decide)
    have hfit := h c hc _ hlt (hk.mono (by omega))
    omega

/-- Memory that differs from what the first round too many writes shows the overrun. -/
theorem WithinBuffer.chainFits {s : State} {r : Request} (h : WithinBuffer s r) : ChainFits s r := by
  intro c hc k hk hreach
  by_contra hlt
  have hi : r.bufferSize.toNat - 2048 * k < 2048 := by omega
  have hnext : ∀ b : UInt8, b + 1 ≠ b := fun b he => by
    have hn := congrArg UInt8.toNat he
    have hlt := b.toNat_lt
    rw [UInt8.toNat_add, show (1 : UInt8).toNat = 1 from rfl] at hn
    omega
  generalize hb : readClusters (loaded s r).disk ((loaded s r).follow^[k] c) ⟨r.bufferSize.toNat - 2048 * k, hi⟩ = b
  refine hnext b ?_
  have hmem := h (fun _ => b + 1) (k + 1) (2048 * k + (r.bufferSize.toNat - 2048 * k)) (by omega)
  rcases read_cases s { r with buf := fun _ => b + 1 } with ⟨hno, -, -⟩ | ⟨d, hd, -, hm⟩
  · exact absurd hc (hno c)
  · obtain rfl : d = c := Enters.unique hc hd
    have hlast : roundsFrom (loaded s r) (k + 1) (fun _ => b + 1) 0 d
        (2048 * (0 + k) + (r.bufferSize.toNat - 2048 * k)) = _ :=
      rounds_last ⟨r.bufferSize.toNat - 2048 * k, hi⟩ (by omega) hreach
    rw [hb, Nat.zero_add] at hlast
    rw [hm] at hmem
    exact hmem.symm.trans hlast

/-- **When `read` stays inside the buffer.** On any disk, a `read` leaves the memory past `buffer_size` bytes alone if
and only if it stops before its loop, or `buffer_size` holds a whole cluster for every round of the loop, up to the
`2 ^ 16` rounds that its counter counts. -/
theorem withinBuffer_iff (s : State) (r : Request) : WithinBuffer s r ↔ ChainFits s r :=
  ⟨WithinBuffer.chainFits, ChainFits.withinBuffer⟩

/-- In a volume in order the rounds are the clusters of the file, so what counts is its size in whole clusters. -/
theorem Run.withinBuffer_wholeClusters {s : State} {live : Finset Nat} {r : Request} (h : Run Ordinary s live)
    (ho : Ordinary s.volume live (.read r)) : WithinBuffer s r ↔
      ∀ i, Volume.findAnyRow (s.volume.table r.parent) r = some i → ¬ (s.volume.table r.parent i).Folder →
        (s.volume.table r.parent i).filesize ≤ r.bufferSize →
        2048 * clustersOf (s.volume.table r.parent i).filesize.toNat ≤ r.bufferSize.toNat := by
  have hinv := h.inv
  -- the loop follows the chain of the row, which is in the table
  have hrounds : ∀ i, Volume.findAnyRow (s.volume.table r.parent) r = some i → ¬ (s.volume.table r.parent i).Folder →
      clustersOf (s.volume.table r.parent i).filesize.toNat ≤ 512 ∧
      0 < clustersOf (s.volume.table r.parent i).filesize.toNat ∧
      ∀ k, Lib.Reaches (loaded s r).follow endMark (s.volume.table r.parent i).cluster k ↔
        k < clustersOf (s.volume.table r.parent i).filesize.toNat := by
    intro i hi hfo
    obtain ⟨hname, hext⟩ := sameName_iff.1 (Fin.eq_true_of_find?_eq_some hi)
    have hrow := hinv.row_of_not_folder ho.1 hfo
    obtain ⟨l, hl, hlen, hR⟩ := hinv.chain ⟨ho.1, hrow, hinv.used_of_named ho.1 ho.2 hrow hname hext⟩
    rw [DirEntry.clusters, if_neg hfo] at hlen
    have hl' : Lib.Chain (loaded s r).follow endMark (s.volume.table r.parent i).cluster l := by
      refine hl.congr fun x hx => ?_
      have hvol : (loaded s r).volume = s.volume := hinv.synced.volume_loadFat r.parent
      rw [← hvol, State.follow, State.clusterMap_of_lt _ (hR x hx).2]
      rfl
    rw [← hlen]
    exact ⟨chain_length_le hl fun x hx => (hR x hx).2, List.length_pos_of_ne_nil hl.ne_nil, fun k => hl'.reaches_iff⟩
  constructor
  · intro hw i hi hfo hsize
    obtain ⟨h512, hpos, hreach⟩ := hrounds i hi hfo
    have hfit := hw.chainFits _ ⟨(hinv.self _ ho.1).1, i, hi, hfo, hsize, rfl⟩
      (clustersOf (s.volume.table r.parent i).filesize.toNat - 1) (by omega) ((hreach _).2 (by omega))
    omega
  · intro hall
    refine ChainFits.withinBuffer ?_
    rintro _ ⟨-, i, hi, hfo, hsize, rfl⟩ k - hk
    have hlt := ((hrounds i hi hfo).2.2 k).1 hk
    have hfit := hall i hi hfo hsize
    omega

/-! ## When the loop ends -/

theorem readChain_iff_chain {s : State} {buf : Nat → UInt8} {k c : Nat} :
    (∃ fuel buf', readChain s fuel buf k c = some buf') ↔ ∃ l, Lib.Chain s.follow endMark c l := by
  constructor
  · rintro ⟨fuel, buf', h⟩
    induction fuel generalizing buf k c with
    | zero => simp [readChain] at h
    | succ fuel ih =>
      rw [readChain] at h
      split at h
      · rename_i he
        exact ⟨_, .last (follow_eq_endMark.2 he)⟩
      · rename_i he
        obtain ⟨l, hl⟩ := ih h
        exact ⟨_, .cons (fun hx => he (follow_eq_endMark.1 hx)) hl⟩
  · rintro ⟨l, h⟩
    induction h generalizing buf k with
    | last hs => exact ⟨1, _, if_pos (follow_eq_endMark.1 hs)⟩
    | cons hne _ ih =>
      obtain ⟨fuel, buf', hread⟩ := ih
      exact ⟨fuel + 1, buf', (if_neg fun he => hne (follow_eq_endMark.2 he)).trans hread⟩

/-- The file in row 2 of the root is found. -/
theorem enters_firstFile {s : State} (ht : s.volume.table rootClusterNumber =
    Function.update formattedRoot 2 (newFile (fileRequest 5) 3)) : Enters s (fileRequest 5) 3 := by
  have hp : (fileRequest 5).parent = rootClusterNumber := rfl
  have hrow : Volume.findAnyRow (Function.update formattedRoot 2 (newFile (fileRequest 5) 3)) (fileRequest 5) =
      some 2 := by decide
  rw [Enters, hp, ht]
  refine ⟨by decide, 2, hrow, ?_⟩
  rw [Function.update_self]
  exact ⟨newFile_not_folder _ _, UInt32.le_refl _, newFile_cluster _ (by decide)⟩

/-- Five bytes are read into a buffer of five bytes, and 2048 bytes come. -/
theorem not_withinBuffer_five : ¬ ∀ s live r, Run Ordinary s live → Ordinary s.volume live (.read r) →
    WithinBuffer s r := by
  intro hall
  have hord : Ordinary withFile.volume {rootClusterNumber} (.read (fileRequest 5)) := ⟨by decide, by decide⟩
  have hc := enters_firstFile (s := withFile)
    (firstFile_table blankState (r := fileRequest 5) rfl (by decide) (by decide))
  have hfit := (hall _ _ _ withFile_run hord).chainFits 3 hc 0 (by decide) Lib.reaches_zero
  exact absurd hfit (by decide)

/-- A formatted volume whose table has been damaged: the file in row 2 of the root starts at cluster 3, and
entry 3 of the table is 3. -/
def damaged : State :=
  ((createFat32 blankState).writeClusters (encodeFat (formattedFat.set 3 3)) fatClusterNumber).writeClusters
    (encodeTable (Function.update formattedRoot 2 (newFile (fileRequest 5) 3))) rootClusterNumber

theorem damaged_accepted : isEmptyStorage damaged = false := by
  have hboot : firstBlock (readClusters damaged.disk 0) = fsSignature := by
    refine Eq.trans ?_ (createFat32_boot blankState)
    refine congrArg firstBlock ?_
    exact (readClusters_writeClusters_of_ne _ _ (by decide) (by decide) (by decide)).trans
      (readClusters_writeClusters_of_ne _ _ (by decide) (by decide) (by decide))
  simp [isEmptyStorage, hboot]

theorem damaged_table : damaged.volume.table rootClusterNumber =
    Function.update formattedRoot 2 (newFile (fileRequest 5) 3) := by
  have h : readClusters damaged.disk rootClusterNumber =
      encodeTable (Function.update formattedRoot 2 (newFile (fileRequest 5) 3)) := readClusters_writeClusters _ _ _
  exact (congrArg decodeTable h).trans (decodeTable_encodeTable _)

theorem damaged_loops : Lib.Loops (loaded damaged (fileRequest 5)).follow endMark 3 := by
  have h : readClusters damaged.disk fatClusterNumber = encodeFat (formattedFat.set 3 3) :=
    (readClusters_writeClusters_of_ne _ _ (by decide) (by decide) (by decide)).trans (readClusters_writeClusters _ _ _)
  have hfat : (loaded damaged (fileRequest 5)).fatTable = formattedFat.set 3 3 :=
    (congrArg decodeFat h).trans (decodeFat_encodeFat _)
  have hstep : (loaded damaged (fileRequest 5)).follow 3 = 3 := by
    rw [State.follow, State.clusterMap_of_lt _ (by decide), hfat, Fat.get_set_self _ (by decide)]
    rfl
  refine ⟨0, 1, by decide, hstep.symm, fun j hj => ?_⟩
  obtain rfl : j = 0 := by omega
  rw [Function.iterate_one, hstep]
  decide

end MoggersOs
