import MoggersOs.Filesystem.Names
import MoggersOs.Filesystem.Free
/-
# What `delete` takes away

The file branch of `delete` walks a chain and destroys it at the same time, the folder branch clears rows in two
tables (`fat32.c:411-502`). `Removed` says what either of them amounts to: one row in use is gone, the entries of its
chain are empty, and everything else is as it was. `delete_exact` says that this is all that code 0 can mean, and
what the two other codes mean.

| here | there |
| --- | --- |
| `Volume.Holds` | the row `delete` looks for (`fat32.c:387-406`) |
| `Removed`      | `delete` succeeded (`fat32.h:242-248`) |
-/

namespace MoggersOs

/-- Row `i` of the request's directory is in use under the requested name and extension. -/
def Volume.Holds (v : Volume) (live : Finset Nat) (r : Request) (i : Fin 64) : Prop :=
  v.LiveRow live r.parent i ∧ (v.table r.parent i).name = r.name ∧ (v.table r.parent i).ext = r.ext

/-- The entry in row `i` of the request's directory, with chain `l`, is gone, and nothing else is. -/
structure Removed (v v' : Volume) (live live' : Finset Nat) (r : Request) (i : Fin 64) (l : List Nat) : Prop where
  holds  : v.Holds live r i
  only   : ∀ j, v.Holds live r j → j = i
  chain  : Lib.Chain v.next endMark (v.table r.parent i).cluster l
  /-- A folder is no directory any more. -/
  dirs   : live' = if (v.table r.parent i).Folder then live.erase (v.table r.parent i).cluster else live
  /-- The row is unused now, all others are as they were. -/
  unused : ¬ (v'.table r.parent i).Used
  gone   : ∀ d j, v'.LiveRow live' d j ↔ v.LiveRow live d j ∧ ¬ (d = r.parent ∧ j = i)
  rows   : ∀ d ∈ live', ∀ j, ¬ (d = r.parent ∧ j = i) → v'.table d j = v.table d j
  /-- In the table, in memory and on the disk, the chain is free and the rest as it was. -/
  fat    : ∀ x, v'.fat.get x = if x ∈ l then fatEmptyEntry else v.fat.get x
  synced : Synced v'
  /-- The data of a file is zeroed; no cluster changes but the chain, the table and the parent. -/
  zeros  : ¬ (v.table r.parent i).Folder → ∀ x ∈ l, readClusters v'.disk x = zeroCluster
  disk   : ∀ x < 2 ^ 26, x ≠ fatClusterNumber → x ≠ r.parent → x ∉ l → readClusters v'.disk x = readClusters v.disk x

section
variable {v v' : Volume} {live live' : Finset Nat} {r : Request} {row : Fin 64} {c : Nat} {l : List Nat}

theorem NamesUnique.holds_unique (hn : NamesUnique v live) {i j : Fin 64} (hi : v.Holds live r i)
    (hj : v.Holds live r j) : j = i :=
  hn _ _ _ hj.1 hi.1 (hj.2.1.trans hi.2.1.symm) (hj.2.2.trans hi.2.2.symm)

/-- The row that `delete` finds is in use if the request has a name. -/
theorem Inv.holds_of_findRow (h : Inv v live) (hp : r.parent ∈ live) (hr : r.Named)
    (hf : findRow (v.table r.parent) r = some row) : v.Holds live r row := by
  obtain ⟨hrow, hname, hext⟩ := findRow_eq_some hf
  exact ⟨⟨hp, hrow, h.used_of_named hp hr hrow hname hext⟩, hname, hext⟩

/-- A change that empties a row in use and frees its chain. -/
theorem Change.removed {e : DirEntry} (hch : Change v v' live live' r row e l) (h : Inv v live)
    (hn : NamesUnique v live) (hi : v.Holds live r row) (he : ¬ e.Used)
    (hlive : live' = if (v.table r.parent row).Folder then live.erase (v.table r.parent row).cluster else live)
    (hl : Lib.Chain v.next endMark (v.table r.parent row).cluster l) (hfree : ∀ x ∈ l, v'.fat.get x = fatEmptyEntry)
    (hz : ¬ (v.table r.parent row).Folder → ∀ x ∈ l, readClusters v'.disk x = zeroCluster) :
    Removed v v' live live' r row l := by
  have hunused : ¬ (v'.table r.parent row).Used := by rwa [hch.edit.table_self]
  have hsub : live' ⊆ live := by
    rw [hlive]
    split
    · exact Finset.erase_subset _ _
    · exact subset_rfl
  refine ⟨hi, fun j hj => hn.holds_unique hi hj, hl, hlive, hunused, ?_, ?_, ?_, hch.edit.synced, hz, hch.edit.disk⟩
  · intro d j
    by_cases hdj : d = r.parent ∧ j = row
    · obtain ⟨rfl, rfl⟩ := hdj
      exact ⟨fun hr => absurd hr.2.2 hunused, fun hr => absurd ⟨rfl, rfl⟩ hr.2⟩
    · rw [hch.liveRow_iff h hdj]
      exact ⟨fun hr => ⟨hr, hdj⟩, fun hr => hr.1⟩
  · intro d hd j hdj
    rcases hch.dirs d hd with ⟨hdl, hdn⟩ | ⟨hdl, -⟩
    · exact h.edit_table hch.edit hdl hdn hdj
    · exact absurd (hsub hd) hdl
  · intro x
    by_cases hx : x ∈ l
    · rw [if_pos hx, hfree x hx]
    · rw [if_neg hx, hch.edit.fat x hx]

/-- Only the directory and the name of the request matter. -/
theorem Removed.congr_request {q : Request} {i : Fin 64} (hr : Removed v v' live live' q i l)
    (hp : q.parent = r.parent) (hn : q.name = r.name) (he : q.ext = r.ext) : Removed v v' live live' r i l := by
  have hholds : ∀ j, v.Holds live q j ↔ v.Holds live r j := fun j => by
    rw [Volume.Holds, Volume.Holds, hp, hn, he]
  obtain ⟨hi, honly, hl, hlive, hu, hgone, hrows, hfat, hsync, hz, hdisk⟩ := hr
  rw [hp] at hl hlive hu hgone hrows hz hdisk
  exact ⟨(hholds i).1 hi, fun j hj => honly j ((hholds j).2 hj), hl, hlive, hu, hgone, hrows, hfat, hsync, hz, hdisk⟩

theorem Inv.rmdir_removed (h : Inv v live) (hn : NamesUnique v live) (hi : v.Holds live r row)
    (hf : findRow (v.table r.parent) r = some row) (hfo : (v.table r.parent row).Folder)
    (hempty : ∀ i, ¬ v.LiveRow live (v.table r.parent row).cluster i) :
    Removed v (v.apply (v.rmdir r row (v.table r.parent row).cluster)) live
      (live.erase (v.table r.parent row).cluster) r row [(v.table r.parent row).cluster] := by
  obtain ⟨hchain, -, hc512⟩ := h.folder_chain hi.1 hfo
  refine (h.rmdir_change hi.1 hf hfo rfl hempty).removed h hn hi (not_used_clearEntry _)
    (if_pos hfo).symm hchain ?_ (fun hno => absurd hfo hno)
  intro x hx
  rw [List.mem_singleton.1 hx]
  exact Fat.get_set_self _ hc512 _

theorem Inv.unlink_removed (h : Inv v live) (hn : NamesUnique v live) (hi : v.Holds live r row)
    (hf : findRow (v.table r.parent) r = some row) (hfo : ¬ (v.table r.parent row).Folder)
    (hl : Lib.Chain v.next endMark (v.table r.parent row).cluster l) :
    Removed v (v.apply (v.unlink r row l)) live live r row l := by
  have hR : ∀ x ∈ l, 2 ≤ x ∧ x < 512 := by
    obtain ⟨l', hl', -, hR⟩ := h.chain hi.1
    rw [hl.unique hl']
    exact fun x hx => ⟨by have := hR x hx; omega, (hR x hx).2⟩
  exact (h.unlink_change hi.1 hf hfo hl).removed h hn hi not_used_zeroEntry (if_neg hfo).symm hl
    (fun x hx => Volume.eraseFat_get_of_mem (fun y hy => (hR y hy).2) hx) (fun _ x hx => unlink_zero v r row hR hx)

end

/-- What a `delete` with reply `out` from `s` says and does. -/
structure DeleteExact (s : State) (live : Finset Nat) (r : Request) (out : Int × State) : Prop where
  codes   : out.1 = 0 ∨ out.1 = 1 ∨ out.1 = 2
  done    : out.1 = 0 → ∃ i l,
    Removed s.volume out.2.volume live (liveAfter s live (.delete r) 0) r i l
  absent  : out.1 = 1 ↔ ∀ i, ¬ s.volume.Holds live r i
  full    : out.1 = 2 ↔ ∃ i, s.volume.Holds live r i ∧ (s.volume.table r.parent i).Folder ∧
    ∃ j, s.volume.LiveRow live (s.volume.table r.parent i).cluster j
  /-- A refused request changes nothing, and writes nothing. -/
  refused : out.1 ≠ 0 → out.2.volume = s.volume ∧ out.2.writes = s.writes

namespace DeleteExact

variable {s : State} {live : Finset Nat} {r : Request} {out : Int × State} {row : Fin 64} {l : List Nat}
variable (hsame : out.2.volume = s.volume ∧ out.2.writes = s.writes)

include hsame in
theorem of_absent (hc : out.1 = 1) (hno : ∀ i, ¬ s.volume.Holds live r i) : DeleteExact s live r out := by
  refine ⟨.inr (.inl hc), fun h0 => by omega, iff_of_true hc hno, iff_of_false (by omega) ?_, fun _ => hsame⟩
  rintro ⟨i, hi, -⟩
  exact hno i hi

include hsame in
theorem of_full (hc : out.1 = 2) (hi : s.volume.Holds live r row) (hfo : (s.volume.table r.parent row).Folder)
    {j : Fin 64} (hj : s.volume.LiveRow live (s.volume.table r.parent row).cluster j) : DeleteExact s live r out :=
  ⟨.inr (.inr hc), fun h0 => by omega, iff_of_false (by omega) fun hno => hno row hi,
    iff_of_true hc ⟨row, hi, hfo, j, hj⟩, fun _ => hsame⟩

theorem of_done (hc : out.1 = 0)
    (hr : Removed s.volume out.2.volume live (liveAfter s live (.delete r) 0) r row l)
    (hempty : (s.volume.table r.parent row).Folder →
      ∀ j, ¬ s.volume.LiveRow live (s.volume.table r.parent row).cluster j) : DeleteExact s live r out := by
  refine ⟨.inl hc, fun _ => ⟨row, l, hr⟩, iff_of_false (by omega) fun hno => hno row hr.holds,
    iff_of_false (by omega) ?_, fun hne => absurd hc hne⟩
  rintro ⟨i, hi, hfo, j, hj⟩
  rw [hr.only i hi] at hfo hj
  exact hempty hfo j hj

end DeleteExact

/-- **`delete` is exact** on a volume in order whose names are unique. -/
theorem Inv.delete_spec {s : State} {live : Finset Nat} {r : Request} (h : Inv s.volume live)
    (hn : NamesUnique s.volume live) (hp : r.parent ∈ live) (hr : r.Named) :
    ∃ out, (∀ fuel ≥ 512, delete fuel s r = some out) ∧ DeleteExact s live r out := by
  have hholds : ∀ row, findRow (s.volume.table r.parent) r = some row → s.volume.Holds live r row :=
    fun row hf => h.holds_of_findRow hp hr hf
  obtain ⟨out, hout, ⟨hcode, hvol, hwrites⟩, -⟩ :=
    delete_outcome h hp (Nat.le_refl 512) fun row hf => (hholds row hf).1.2.2
  refine ⟨out, fun fuel hfuel => delete_mono hfuel hout, ?_⟩
  have hd : isDirectory (s.volume.table r.parent) = true :=
    isDirectory_iff.2 ⟨(h.self _ hp).1, (h.self _ hp).2.1⟩
  have hrefuse : ∀ code, s.volume.delete r = s.volume.refuse code →
      out.1 = code ∧ out.2.volume = s.volume ∧ out.2.writes = s.writes := by
    intro code he
    rw [he] at hcode hvol hwrites
    exact ⟨hcode, hvol, by simpa [Volume.refuse] using hwrites⟩
  cases hf : findRow (s.volume.table r.parent) r with
  | none =>
    obtain ⟨h1, hsame⟩ := hrefuse 1 (by simp [Volume.delete, hd, hf])
    exact .of_absent hsame h1 fun i hi => findRow_eq_none hf hi.1.2.1 hi.2
  | some row =>
    have hi := hholds row hf
    by_cases hfo : (s.volume.table r.parent row).Folder
    · have ha : (s.volume.table r.parent row).attr = attrSubdirectory := hfo
      cases hocc : occupied (s.volume.table (s.volume.table r.parent row).cluster) with
      | true =>
        obtain ⟨h2, hsame⟩ := hrefuse 2 (by simp [Volume.delete, hd, hf, ha, hocc])
        obtain ⟨j, hj⟩ := occupied_eq_true hocc
        exact .of_full hsame h2 hi hfo ⟨(h.folder _ _ hi.1 hfo).1, hj⟩
      | false =>
        have he : s.volume.delete r = s.volume.rmdir r row (s.volume.table r.parent row).cluster := by
          simp [Volume.delete, hd, hf, ha, hocc]
        have hempty : ∀ i, ¬ s.volume.LiveRow live (s.volume.table r.parent row).cluster i :=
          fun i hr' => occupied_eq_false hocc hr'.2.1 hr'.2.2
        rw [he] at hcode hvol
        refine .of_done (l := [(s.volume.table r.parent row).cluster]) hcode ?_ fun _ => hempty
        rw [hvol, show liveAfter s live (.delete r) 0 = _ from removeFound_folder hf hfo]
        exact h.rmdir_removed hn hi hf hfo hempty
    · have ha : ¬ (s.volume.table r.parent row).attr = attrSubdirectory := hfo
      obtain ⟨l, hl, -, hR⟩ := h.chain hi.1
      have he : s.volume.delete r = s.volume.unlink r row l := by
        simp [Volume.delete, hd, hf, ha, chain_eq hl fun x hx => (hR x hx).2]
      rw [he] at hcode hvol
      refine .of_done (l := l) hcode ?_ fun hf' => absurd hf' hfo
      rw [hvol, show liveAfter s live (.delete r) 0 = _ from removeFound_file hf hfo]
      exact h.unlink_removed hn hi hf hfo hl

/-- **`delete` frees exactly its own entry.** After any ordinary requests, `delete` of any name returns; with code
0 it has removed the one row with that name and its chain, and nothing else; with code 2 the row is a folder that
holds something, with code 1 there is no such row, and then nothing has changed. -/
theorem delete_exact {s : State} {live : Finset Nat} {r : Request} (h : Run Ordinary s live)
    (ho : Ordinary s.volume live (.delete r)) :
    ∃ out, (∀ fuel ≥ 512, delete fuel s r = some out) ∧ DeleteExact s live r out :=
  h.inv.delete_spec h.namesUnique ho.1 ho.2

/-- The file of five bytes. -/
theorem delete_exact_file : ∃ out, (∀ fuel ≥ 512, delete fuel withFile (fileRequest 5) = some out) ∧
    DeleteExact withFile {rootClusterNumber} (fileRequest 5) out :=
  delete_exact withFile_run ⟨by decide, by decide⟩

end MoggersOs
