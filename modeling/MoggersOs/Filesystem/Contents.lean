import Mathlib.Data.Set.Card
import MoggersOs.Lib.Namespace
import MoggersOs.Filesystem.Lookup
import MoggersOs.Filesystem.Undo
import MoggersOs.Filesystem.RoundTrip
/-
# What a volume contains

Seen from outside, a volume is a `Lib.Namespace`: directories, and in each of them files and directories under names.
Rows, clusters, the table and the order of the rows are gone. `Represents` says that a volume is such a
namespace; `Represents.change` says what a request that makes one `Change` leaves of it.

| here | there |
| --- | --- |
| `FileName`      | `name` and `ext` of `struct FAT32DirectoryEntry` (`fat32.h:82-84`) |
| `Volume.bytes`  | the bytes `read` delivers, up to `filesize` |
| `Volume.node`   | what the row of a directory table stands for |
| `Request.bytes` | the bytes of the buffer as `write` stores them (`fat32.c:313-341`) |
-/

namespace MoggersOs

/-- Name and extension. -/
abbrev FileName := (Fin 8 → UInt8) × (Fin 3 → UInt8)

def DirEntry.fileName (e : DirEntry) : FileName := (e.name, e.ext)

def Request.fileName (r : Request) : FileName := (r.name, r.ext)

/-- The name of row 1. -/
def dotDotName : FileName := (dotDot, fun _ => 0)

abbrev Files := Lib.Namespace ℕ FileName (List UInt8)

namespace Volume

def bytes (v : Volume) (e : DirEntry) : List UInt8 :=
  (List.range e.filesize.toNat).map (deliver v.disk (fun _ => 0) 0 (v.chain e.cluster))

def node (v : Volume) (e : DirEntry) : Lib.Node ℕ (List UInt8) :=
  if e.attr = attrSubdirectory then .dir e.cluster else .file (v.bytes e)

end Volume

/-- A last cluster that is full gets nothing of the buffer unless it is the only one. -/
def Request.bytes (r : Request) : List UInt8 :=
  (List.range r.bufferSize.toNat).map fun i =>
    if 2048 < r.bufferSize.toNat ∧ r.bufferSize.toNat % 2048 = 0 ∧ r.bufferSize.toNat - 2048 ≤ i then 0 else r.buf i

/-- The volume with directories `live` is the namespace `x`. -/
structure Represents (v : Volume) (live : Finset Nat) (x : Files) : Prop where
  dirs  : x.dirs = live
  own   : ∀ d ∈ live, x.own d = (v.table d 0).fileName
  up    : ∀ d ∈ live, x.up d = (v.table d 1).cluster ∧ (v.table d 1).fileName = dotDotName
  entry : ∀ d ∈ live, ∀ n k, x.entry d n = some k ↔
    ∃ i, v.LiveRow live d i ∧ (v.table d i).fileName = n ∧ v.node (v.table d i) = k

theorem fileName_eq {e : DirEntry} {r : Request} : e.fileName = r.fileName ↔ e.name = r.name ∧ e.ext = r.ext :=
  Prod.mk_inj

namespace Volume

variable {v v' : Volume} {e : DirEntry}

theorem node_folder (hf : e.Folder) : v.node e = .dir e.cluster := if_pos hf

theorem node_file (hf : ¬ e.Folder) : v.node e = .file (v.bytes e) := if_neg hf

@[simp] theorem length_bytes : (v.bytes e).length = e.filesize.toNat := by simp [bytes]

/-- The clusters of its chain are all that a file's bytes depend on. -/
theorem bytes_congr {l : List Nat} (hl : Lib.Chain v.next endMark e.cluster l)
    (hl' : Lib.Chain v'.next endMark e.cluster l) (hlt : ∀ x ∈ l, x < 512)
    (h : ∀ x ∈ l, readClusters v'.disk x = readClusters v.disk x) : v'.bytes e = v.bytes e := by
  simp only [bytes, chain_eq hl hlt, chain_eq hl' hlt, deliver_congr h]

/-- Within the chain it does not matter what was in memory before. -/
theorem deliver_get {d : Disk} {b : Nat → UInt8} {l : List Nat} {a : Nat} (ha : a < 2048 * l.length) :
    deliver d b 0 l a = readClusters d (l.getD (a / 2048) 0) ⟨a % 2048, Nat.mod_lt a (by decide)⟩ := by
  refine deliver_parts (P := fun j => readClusters d (l.getD j 0)) (fun j x hx => ?_) a (Nat.zero_le _) (by omega)
  rw [Nat.zero_add, List.getD_eq_getElem?_getD, hx, Option.getD_some]

/-- Past the chain the memory is as it was. -/
theorem deliver_above (d : Disk) : ∀ (l : List Nat) {b : Nat → UInt8} {k : Nat} (a : Nat), 2048 * (k + l.length) ≤ a →
    deliver d b k l a = b a
  | [], _, _, _, _ => rfl
  | c :: l, b, k, a, ha => by
    rw [List.length_cons] at ha
    rw [deliver, deliver_above d l a (by omega), blit, dif_neg (by omega)]

end Volume

/-- A new file has the bytes that `write` stores. -/
theorem bytes_mkfile {v : Volume} {live : Finset Nat} {r : Request} {row : Fin 64} {c : Nat} {l : List Nat}
    (h : Inv v live) (hp : r.parent ∈ live) (hfree : ∀ x ∈ c :: l, x ∈ v.fat.freeClusters) (hnd : (c :: l).Nodup)
    (hlen : (c :: l).length = clustersOf r.bufferSize.toNat) :
    (v.apply (v.mkfile r row c l)).bytes (newFile r c) = r.bytes := by
  have hlt : ∀ x ∈ c :: l, x < 512 := fun x hx => (h.of_free (hfree x hx)).2.1
  have hc := hlt c (by simp)
  have h1 : fatClusterNumber ∉ c :: l := fun hx => absurd (h.of_free (hfree _ hx)).1 (by decide)
  have hpl : r.parent ∉ c :: l := fun hx => (h.of_free (hfree _ hx)).2.2.2 hp
  have hchain : Lib.Chain (v.apply (v.mkfile r row c l)).next endMark c (c :: l) :=
    Volume.linkFrom_chain (Fat.get_set_self _ hc _) hnd hlt
  have hk : clustersOf r.bufferSize.toNat = l.length + 1 := by rw [← hlen, List.length_cons]
  unfold Volume.bytes Request.bytes
  rw [newFile_cluster r hc, chain_eq hchain hlt]
  have hparts : ∀ j x, (c :: l)[j]? = some x →
      readClusters (v.apply (v.mkfile r row c l)).disk x = Volume.storedPart r l.length (0 + j) := by
    intro j x hx
    rw [Nat.zero_add]
    exact Volume.mkfile_parts v r row hnd hlt h1 hpl (h.live_cluster hp).2.1 hk hx
  refine List.map_congr_left fun i hi => ?_
  have hi' : i < r.bufferSize.toNat := List.mem_range.1 hi
  rw [clustersOf_eq_ceil] at hlen
  rw [Volume.deliver_parts hparts i (Nat.zero_le _) (by omega), storedPart_get r hk hi']

/-- A folder among the rows of a directory, its own two included, leads to a directory. -/
theorem Inv.folder_live {v : Volume} {live : Finset Nat} {d : Nat} {i : Fin 64} (h : Inv v live) (hd : d ∈ live)
    (hused : 2 ≤ i.val → (v.table d i).Used) (hf : (v.table d i).Folder) : (v.table d i).cluster ∈ live := by
  by_cases hi : 2 ≤ i.val
  · exact (h.folder d i ⟨hd, hi, hused hi⟩ hf).1
  · have hcases : i = 0 ∨ i = 1 := by omega
    rcases hcases with rfl | rfl
    · rw [(h.self d hd).2.2.1]
      exact hd
    · exact h.rooted.closed d hd

/-! ## Rows and entries -/

namespace Represents

variable {v v' : Volume} {live live' : Finset Nat} {x : Files} {d : Nat} {n : FileName}

theorem entry_of_row (hx : Represents v live x) {i : Fin 64} (hr : v.LiveRow live d i) :
    x.entry d (v.table d i).fileName = some (v.node (v.table d i)) :=
  (hx.entry d hr.1 _ _).2 ⟨i, hr, rfl, rfl⟩

theorem entry_eq_none (hx : Represents v live x) (hd : d ∈ live) :
    x.entry d n = none ↔ ∀ i, v.LiveRow live d i → (v.table d i).fileName ≠ n := by
  rw [Option.eq_none_iff_forall_ne_some]
  constructor
  · rintro h i hr rfl
    exact h _ (hx.entry_of_row hr)
  · rintro h k hk
    obtain ⟨i, hr, hn, -⟩ := (hx.entry d hd n k).1 hk
    exact h i hr hn

/-- The search of `write` and `delete` finds the row of the entry. -/
theorem findRow (hx : Represents v live x) (h : Inv v live) {r : Request} (hp : r.parent ∈ live) (hr : r.Named) :
    x.entry r.parent r.fileName = (findRow (v.table r.parent) r).map fun i => v.node (v.table r.parent i) := by
  cases hf : MoggersOs.findRow (v.table r.parent) r with
  | none =>
    refine (hx.entry_eq_none hp).2 fun i hi hn => ?_
    exact findRow_eq_none hf hi.2.1 (fileName_eq.1 hn)
  | some i =>
    have hi := h.holds_of_findRow hp hr hf
    rw [← fileName_eq.2 hi.2]
    exact hx.entry_of_row hi.1

theorem entry_of_holds (hx : Represents v live x) {r : Request} {i : Fin 64} (hi : v.Holds live r i) :
    x.entry r.parent r.fileName = some (v.node (v.table r.parent i)) := by
  rw [← fileName_eq.2 hi.2]
  exact hx.entry_of_row hi.1

/-- A row that `read` or `read_directory` stops at, if neither row 0 nor row 1 has its name first. -/
theorem look_row (hx : Represents v live x) (h : Inv v live) (hd : d ∈ live) {i : Fin 64}
    (hname : (v.table d i).fileName = n) (hused : 2 ≤ i.val → (v.table d i).Used)
    (hno : ∀ j < i, j.val < 2 → (v.table d j).fileName ≠ n) :
    x.look dotDotName d n = some (v.node (v.table d i)) := by
  obtain ⟨-, hf0, hc0, hf1⟩ := h.self d hd
  obtain ⟨hup, hdots⟩ := hx.up d hd
  by_cases hi0 : i = 0
  · rw [hi0] at hname ⊢
    rw [Lib.Namespace.look, if_pos (by rw [hx.own d hd, hname]), Volume.node_folder hf0, hc0]
  have hown : n ≠ x.own d := by
    rw [hx.own d hd]
    exact (hno 0 (Fin.pos_iff_ne_zero.2 hi0) (by decide)).symm
  by_cases hi1 : i = 1
  · rw [hi1] at hname ⊢
    rw [Lib.Namespace.look, if_neg hown, if_pos (by rw [← hname, hdots]), Volume.node_folder hf1, hup]
  have hlt : 1 < i := by omega
  have hdots' : n ≠ dotDotName := by
    rw [← hdots]
    exact (hno 1 hlt (by decide)).symm
  rw [Lib.Namespace.look_of_ne hown hdots', ← hname]
  have hi2 : 2 ≤ i.val := hlt
  exact hx.entry_of_row ⟨hd, hi2, hused hi2⟩

theorem look_none (hx : Represents v live x) (hd : d ∈ live)
    (hno : ∀ i : Fin 64, (2 ≤ i.val → (v.table d i).Used) → (v.table d i).fileName ≠ n) :
    x.look dotDotName d n = none := by
  have hown : n ≠ x.own d := by
    rw [hx.own d hd]
    exact (hno 0 fun h => absurd h (by decide)).symm
  have hdots : n ≠ dotDotName := by
    rw [← (hx.up d hd).2]
    exact (hno 1 fun h => absurd h (by decide)).symm
  rw [Lib.Namespace.look_of_ne hown hdots]
  exact (hx.entry_eq_none hd).2 fun i hi => hno i fun _ => hi.2.2

/-- The search of `read`. -/
theorem look_named (hx : Represents v live x) (h : Inv v live) {q : Request} (hp : q.parent ∈ live) (hq : q.Named) :
    x.look dotDotName q.parent q.fileName =
      (Volume.findAnyRow (v.table q.parent) q).map fun i => v.node (v.table q.parent i) := by
  cases hf : Volume.findAnyRow (v.table q.parent) q with
  | none =>
    refine hx.look_none hp fun i _ hname => ?_
    have hno := Fin.eq_false_of_find?_eq_none hf i
    rw [sameName_iff.2 (fileName_eq.1 hname)] at hno
    cases hno
  | some i =>
    obtain ⟨hsame, hfirst⟩ := Fin.find?_eq_some_iff.1 hf
    obtain ⟨hname, hext⟩ := sameName_iff.1 hsame
    refine hx.look_row h hp (fileName_eq.2 ⟨hname, hext⟩) (fun hi => h.used_of_named hp hq hi hname hext)
      fun j hj _ he => ?_
    have hno := hfirst j hj
    rw [sameName_iff.2 (fileName_eq.1 he)] at hno
    cases hno

/-- There are 62 rows for the entries. -/
theorem full_iff (hx : Represents v live x) (hn : NamesUnique v live) (hd : d ∈ live) :
    findFreeRow (v.table d) = none ↔ 62 ≤ {n | x.entry d n ≠ none}.ncard := by
  have hset : {n | x.entry d n ≠ none} = (fun i => (v.table d i).fileName) '' {i | v.LiveRow live d i} := by
    ext n
    constructor
    · intro hne
      obtain ⟨k, hk⟩ := Option.ne_none_iff_exists'.1 hne
      obtain ⟨i, hr, hname, -⟩ := (hx.entry d hd n k).1 hk
      exact ⟨i, hr, hname⟩
    · rintro ⟨i, hr, rfl⟩ hnone
      rw [hx.entry_of_row hr] at hnone
      cases hnone
  have hinj : Set.InjOn (fun i => (v.table d i).fileName) {i | v.LiveRow live d i} := fun i hi j hj he =>
    hn d i j hi hj (Prod.mk_inj.1 he).1 (Prod.mk_inj.1 he).2
  have hcard : {i : Fin 64 | 2 ≤ i.val}.ncard = 62 := by
    rw [Set.ncard_eq_toFinset_card']
    decide
  have hsub : {i | v.LiveRow live d i} ⊆ {i : Fin 64 | 2 ≤ i.val} := fun i hi => hi.2.1
  rw [hset, hinj.ncard_image, ← hcard]
  constructor
  · intro hfree
    refine Set.ncard_le_ncard (fun i hi => ⟨hd, hi, ?_⟩) (Set.toFinite _)
    by_contra hu
    have hsome := findFreeRow_isSome hi hu
    rw [hfree] at hsome
    cases hsome
  · intro hle
    have heq := Set.eq_of_subset_of_ncard_le hsub hle (Set.toFinite _)
    by_contra hfree
    obtain ⟨row, hrow⟩ := Option.ne_none_iff_exists'.1 hfree
    obtain ⟨hrow2, hu⟩ := findFreeRow_eq_some hrow
    have hmem : row ∈ {i | v.LiveRow live d i} := heq ▸ hrow2
    exact hu hmem.2.2

/-! ## One change -/

/-- The other rows stand for what they stood for. -/
theorem node_change {r : Request} {row : Fin 64} {e : DirEntry} {l : List Nat} {i : Fin 64} (h : Inv v live)
    (hp : r.parent ∈ live) (hch : Change v v' live live' r row e l) (hr : v.LiveRow live d i)
    (hne : ¬ (d = r.parent ∧ i = row)) : v'.node (v'.table d i) = v.node (v.table d i) := by
  rw [hch.row_eq h hr hne]
  by_cases hf : (v.table d i).Folder
  · rw [Volume.node_folder hf, Volume.node_folder hf]
  · obtain ⟨-, m, hm, hm', hlt, hsame⟩ := hch.file_of_ne h hp hr hf hne
    rw [Volume.node_file hf, Volume.node_file hf, Volume.bytes_congr hm hm' hlt fun x hx => (hsame x hx).2]

/-- **A change of a row is a change of the entry under its name**: what the namespace `y` has there is the new row,
elsewhere it has what `x` has, and nothing in a new directory. -/
theorem change {r : Request} {row : Fin 64} {e : DirEntry} {l : List Nat} {y : Files} (hx : Represents v live x)
    (h : Inv v live) (hp : r.parent ∈ live) (hch : Change v v' live live' r row e l)
    (honly : ∀ j, v.LiveRow live r.parent j → (v.table r.parent j).fileName = r.fileName → j = row)
    (hdirs : y.dirs = live') (hown : ∀ d ∈ live', y.own d = if d ∈ live then x.own d else (v'.table d 0).fileName)
    (hup : ∀ d ∈ live', if d ∈ live then y.up d = x.up d else
      y.up d = (v'.table d 1).cluster ∧ (v'.table d 1).fileName = dotDotName)
    (hself : r.parent ∈ live' → y.entry r.parent r.fileName = if e.Used then some (v'.node e) else none)
    (hentry : ∀ d ∈ live', ∀ n, ¬ (d = r.parent ∧ n = r.fileName) →
      y.entry d n = if d ∈ live then x.entry d n else none) : Represents v' live' y := by
  -- rows 0 and 1 of a directory that stays
  have hheads : ∀ d ∈ live', d ∈ live → v'.table d 0 = v.table d 0 ∧ v'.table d 1 = v.table d 1 := by
    intro d hd hdl
    rcases hch.dirs d hd with ⟨-, hdn⟩ | ⟨hno, -⟩
    · exact h.edit_heads hch.edit hdl hdn hch.row2
    · exact absurd hdl hno
  refine ⟨hdirs, fun d hd => ?_, fun d hd => ?_, fun d hd n k => ?_⟩
  · rw [hown d hd]
    split
    next hdl => rw [hx.own d hdl, (hheads d hd hdl).1]
    next => rfl
  · have hup' := hup d hd
    split at hup'
    next hdl =>
      rw [hup', (hheads d hd hdl).2]
      exact hx.up d hdl
    next => exact hup'
  · have hnode : ∀ i, ¬ (d = r.parent ∧ i = row) → v'.LiveRow live' d i →
        v.LiveRow live d i ∧ v'.table d i = v.table d i ∧ v'.node (v'.table d i) = v.node (v.table d i) := by
      intro i hne hi
      have hv := (hch.liveRow_iff h hne).1 hi
      exact ⟨hv, hch.row_eq h hv hne, node_change h hp hch hv hne⟩
    by_cases hdn : d = r.parent ∧ n = r.fileName
    · obtain ⟨rfl, rfl⟩ := hdn
      rw [hself hd]
      constructor
      · intro hk
        by_cases hu : e.Used
        · rw [if_pos hu, Option.some.injEq] at hk
          refine ⟨row, ⟨hd, hch.row2, ?_⟩, ?_, ?_⟩
          · rwa [hch.edit.table_self]
          · rw [hch.edit.table_self]
            exact fileName_eq.2 (hch.named hu)
          · rwa [hch.edit.table_self]
        · rw [if_neg hu] at hk
          cases hk
      · rintro ⟨i, hi, hname, hk⟩
        by_cases hrow : i = row
        · rw [hrow] at hi hk
          have hu := hi.2.2
          rw [hch.edit.table_self] at hu hk
          rw [if_pos hu, hk]
        · obtain ⟨hv, htab, -⟩ := hnode i (fun he => hrow he.2) hi
          rw [htab] at hname
          exact absurd (honly i hv hname) hrow
    · rw [hentry d hd n hdn]
      by_cases hdl : d ∈ live
      · rw [if_pos hdl, hx.entry d hdl]
        constructor
        · rintro ⟨i, hi, hname, hk⟩
          have hne : ¬ (d = r.parent ∧ i = row) := by
            rintro ⟨rfl, rfl⟩
            exact hdn ⟨rfl, hname.symm.trans (fileName_eq.2 (hch.old hi.2.2))⟩
          refine ⟨i, (hch.liveRow_iff h hne).2 hi, ?_, ?_⟩
          · rw [hch.row_eq h hi hne, hname]
          · rw [node_change h hp hch hi hne, hk]
        · rintro ⟨i, hi, hname, hk⟩
          have hne : ¬ (d = r.parent ∧ i = row) := by
            rintro ⟨rfl, rfl⟩
            have hu := hi.2.2
            rw [hch.edit.table_self] at hname hu
            exact hdn ⟨rfl, hname.symm.trans (fileName_eq.2 (hch.named hu))⟩
          obtain ⟨hv, htab, hsame⟩ := hnode i hne hi
          exact ⟨i, hv, htab ▸ hname, hsame ▸ hk⟩
      · rw [if_neg hdl]
        refine iff_of_false (by simp) ?_
        rintro ⟨i, hi, -, -⟩
        rcases hch.dirs d hd with ⟨hin, -⟩ | ⟨-, hempty⟩
        · exact hdl hin
        · exact hempty i hi.2.1 hi.2.2

end Represents

end MoggersOs
