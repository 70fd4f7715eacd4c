import MoggersOs.Lib.Path
import MoggersOs.Filesystem.Invariant
/-
# Runs of the driver

A run starts with `create_fat32` and makes one request after the other, each of a kind that may depend
on the state it is made in. Beside the driver's state a run keeps the set of directories: the root, plus
every directory created, less every directory removed (`liveAfter`).

Two kinds of requests matter:

* `Ordinary`: the parent is a live directory, the name is not blank, a folder has no extension, and a
  write needs no more clusters than the table has unused entries;
* `Safe`: the parent is a live directory, a write fits or is refused, and a delete does not pick a row
  that is not in use. The names are arbitrary.

On a volume in order every ordinary request is safe (`Ordinary.safe`), every safe request keeps the
invariant (`exec_inv`), and so do whole runs (`Run.inv`, `Run.safe_inv`).
-/

namespace MoggersOs

/-! ## Searches -/

theorem findFreeRow_eq_some {t : Table} {row : Fin 64} (h : findFreeRow t = some row) :
    2 ≤ row.val ∧ ¬ (t row).Used := by
  have hp := Fin.eq_true_of_find?_eq_some h
  simp only [Bool.and_eq_true, decide_eq_true_eq, bne_iff_ne] at hp
  exact hp

theorem findFreeRow_isSome {t : Table} {j : Fin 64} (hj : 2 ≤ j.val) (hu : ¬ (t j).Used) : (findFreeRow t).isSome = true := by
  rw [findFreeRow, Fin.isSome_find?_iff]
  refine ⟨j, ?_⟩
  rw [Bool.and_eq_true, decide_eq_true_eq, bne_iff_ne]
  exact ⟨hj, hu⟩

theorem sameName_iff {e : DirEntry} {r : Request} : sameName e r = true ↔ e.name = r.name ∧ e.ext = r.ext := by
  simp [sameName]

theorem findRow_eq_some {t : Table} {r : Request} {row : Fin 64} (h : findRow t r = some row) :
    2 ≤ row.val ∧ (t row).name = r.name ∧ (t row).ext = r.ext := by
  have hp := Fin.eq_true_of_find?_eq_some h
  simp only [Bool.and_eq_true, decide_eq_true_eq, sameName_iff] at hp
  exact hp

theorem findRow_eq_none {t : Table} {r : Request} (h : findRow t r = none) {i : Fin 64} (hi : 2 ≤ i.val) :
    ¬ ((t i).name = r.name ∧ (t i).ext = r.ext) := by
  have hp := Fin.eq_false_of_find?_eq_none h i
  simp only [hi, decide_true, Bool.true_and, Bool.eq_false_iff, ne_eq, sameName_iff] at hp
  exact hp

theorem occupied_eq_false {t : Table} (h : occupied t = false) {i : Fin 64} (hi : 2 ≤ i.val) : ¬ (t i).Used := by
  simp only [occupied, Option.isSome_eq_false_iff, Fin.isNone_find?_iff] at h
  have hp := h i
  simp only [hi, decide_true, Bool.true_and, beq_eq_false_iff_ne] at hp
  exact hp

theorem occupied_eq_true {t : Table} (h : occupied t = true) : ∃ i : Fin 64, 2 ≤ i.val ∧ (t i).Used := by
  obtain ⟨i, hi⟩ := Fin.isSome_find?_iff.1 h
  rw [Bool.and_eq_true, decide_eq_true_eq, beq_iff_eq] at hi
  exact ⟨i, hi⟩

theorem isDirectory_iff {t : Table} : isDirectory t = true ↔ (t 0).Used ∧ (t 0).Folder := by
  simp [isDirectory, DirEntry.Used, DirEntry.Folder]

/-! ## The branches of `write` and `delete` -/

namespace Volume

/-- What the checks of `write` have found out when none of them stops it. -/
theorem not_refused {v : Volume} {r : Request} (h : ¬ v.Refused r) : isDirectory (v.table r.parent) = true ∧
    (∃ row, findFreeRow (v.table r.parent) = some row) ∧ findRow (v.table r.parent) r = none := by
  simp only [Refused, not_or, Bool.not_eq_false, Bool.not_eq_true, Option.isSome_eq_false_iff,
    Option.isNone_iff_eq_none] at h
  exact ⟨h.1, Option.ne_none_iff_exists'.1 h.2.1, h.2.2⟩

theorem write_cases (v : Volume) (r : Request) :
    (∃ code, code ≠ 0 ∧ v.write r = v.refuse code) ∨
    (∃ row c l, ¬ v.Refused r ∧ findFreeRow (v.table r.parent) = some row ∧
      findRow (v.table r.parent) r = none ∧ r.bufferSize = 0 ∧ v.fat.freeClusters = c :: l ∧
      v.write r = v.mkdir r row c) ∨
    (∃ row c l, ¬ v.Refused r ∧ findFreeRow (v.table r.parent) = some row ∧
      findRow (v.table r.parent) r = none ∧ r.bufferSize ≠ 0 ∧
      v.fat.freeClusters.take (clustersOf r.bufferSize.toNat) = c :: l ∧ v.write r = v.mkfile r row c l) := by
  by_cases hd : isDirectory (v.table r.parent) = true
  swap
  · exact Or.inl ⟨2, by decide, by simp [write, hd]⟩
  cases hrow : findFreeRow (v.table r.parent) with
  | none => exact Or.inl ⟨-1, by decide, by simp [write, hd, hrow]⟩
  | some row =>
    cases hf : findRow (v.table r.parent) r with
    | some i => exact Or.inl ⟨1, by decide, by simp [write, hd, hrow, hf]⟩
    | none =>
      have href : ¬ v.Refused r := by simp [Refused, hd, hrow, hf]
      by_cases hz : r.bufferSize = 0
      · cases hfree : v.fat.freeClusters with
        | nil => exact Or.inl ⟨-1, by decide, by simp [write, hd, hrow, hf, hz, hfree]⟩
        | cons c l =>
          by_cases hc : c = 0
          · exact Or.inl ⟨-1, by decide, by simp [write, hd, hrow, hf, hz, hfree, hc]⟩
          · refine Or.inr (Or.inl ⟨row, c, l, href, rfl, rfl, hz, rfl, ?_⟩)
            simp [write, hd, hrow, hf, hz, hfree, hc]
      · cases htake : v.fat.freeClusters.take (clustersOf r.bufferSize.toNat) with
        | nil => exact Or.inl ⟨-1, by decide, by simp [write, hd, hrow, hf, hz, htake]⟩
        | cons c l =>
          refine Or.inr (Or.inr ⟨row, c, l, href, rfl, rfl, hz, rfl, ?_⟩)
          simp [write, hd, hrow, hf, hz, htake]

/-- A file that `write` accepts. -/
theorem write_file {v : Volume} {r : Request} (hz : r.bufferSize ≠ 0) (hw : (v.write r).code = 0) :
    ∃ row c l, ¬ v.Refused r ∧ findFreeRow (v.table r.parent) = some row ∧
      v.fat.freeClusters.take (clustersOf r.bufferSize.toNat) = c :: l ∧ v.write r = v.mkfile r row c l := by
  rcases v.write_cases r with ⟨code, hne, he⟩ | ⟨_, _, _, _, _, _, hz', _, _⟩ |
    ⟨row, c, l, href, hrow, -, -, htake, he⟩
  · rw [he] at hw
    exact absurd hw hne
  · exact absurd hz' hz
  · exact ⟨row, c, l, href, hrow, htake, he⟩

/-- The unused clusters that a file takes: no two are the same, and there are enough. -/
theorem Fits.taken {v : Volume} {r : Request} {cs : List Nat} (hfit : v.Fits r) (hz : r.bufferSize ≠ 0)
    (htake : v.fat.freeClusters.take (clustersOf r.bufferSize.toNat) = cs) :
    (∀ x ∈ cs, x ∈ v.fat.freeClusters) ∧ cs.Nodup ∧ cs.length = clustersOf r.bufferSize.toNat := by
  simp only [Fits, needed, if_neg hz] at hfit
  subst htake
  refine ⟨fun x hx => List.mem_of_mem_take hx, (Lib.nodup_free _ _).sublist (List.take_sublist _ _), ?_⟩
  rw [List.length_take, Nat.min_eq_left hfit]

theorem delete_cases (v : Volume) (r : Request) :
    (∃ code, code ≠ 0 ∧ v.delete r = v.refuse code) ∨
    (∃ row, findRow (v.table r.parent) r = some row ∧ (v.table r.parent row).Folder ∧
      occupied (v.table (v.table r.parent row).cluster) = false ∧
      v.delete r = v.rmdir r row (v.table r.parent row).cluster) ∨
    (∃ row, findRow (v.table r.parent) r = some row ∧ ¬ (v.table r.parent row).Folder ∧
      v.delete r = v.unlink r row (v.chain (v.table r.parent row).cluster)) := by
  by_cases hd : isDirectory (v.table r.parent) = true
  swap
  · exact Or.inl ⟨-1, by decide, by simp [delete, hd]⟩
  cases hf : findRow (v.table r.parent) r with
  | none => exact Or.inl ⟨1, by decide, by simp [delete, hd, hf]⟩
  | some row =>
    by_cases ha : (v.table r.parent row).attr = attrSubdirectory
    · cases ho : occupied (v.table (v.table r.parent row).cluster) with
      | true => exact Or.inl ⟨2, by decide, by simp [delete, hd, hf, ha, ho]⟩
      | false => exact Or.inr (Or.inl ⟨row, rfl, ha, ho, by simp [delete, hd, hf, ha, ho]⟩)
    · exact Or.inr (Or.inr ⟨row, rfl, ha, by simp [delete, hd, hf, ha]⟩)

end Volume

/-- A refused `write` only loads the parent's table. -/
theorem write_refused {s : State} {r : Request} (h : s.volume.Refused r) :
    ∃ code, code ≠ 0 ∧ write s r = (code, s.loadDirTable r.parent) ∧
      s.volume.write r = s.volume.refuse code := by
  have htab : (s.loadDirTable r.parent).dirTableBuf = s.volume.table r.parent := rfl
  by_cases hd : isDirectory (s.volume.table r.parent) = true
  swap
  · exact ⟨2, by decide, by simp [write, htab, hd], by simp [Volume.write, hd]⟩
  cases hrow : findFreeRow (s.volume.table r.parent) with
  | none => exact ⟨-1, by decide, by simp [write, htab, hd, hrow], by simp [Volume.write, hd, hrow]⟩
  | some row =>
    have hf : (findRow (s.volume.table r.parent) r).isSome = true := by
      simpa [Volume.Refused, hd, hrow] using h
    exact ⟨1, by decide, by simp [write, htab, hd, hrow, hf], by simp [Volume.write, hd, hrow, hf]⟩

theorem write_does_of_refused {s : State} {r : Request} (h : s.volume.Refused r) :
    Does s (write s r) (s.volume.write r) := by
  obtain ⟨code, -, hw, hv⟩ := write_refused h
  rw [hw, hv]
  exact Does.refuse s r.parent code

/-! ## Requests -/

inductive Op where
  | write (r : Request)
  | delete (r : Request)
  | read (r : Request)
  | readDirectory (r : Request)

/-- One request; `none` if a walk over the table does not end within `fuel` steps. -/
def exec (fuel : Nat) (s : State) : Op → Option (Reply × State)
  | .write r => some (⟨(write s r).1, r.buf⟩, (write s r).2)
  | .delete r => (delete fuel s r).map fun out => (⟨out.1, r.buf⟩, out.2)
  | .read r => read fuel s r
  | .readDirectory r => some (readDirectory s r)

/-- `cluster_number` of the folder branch of `write`: the unused cluster it finds. -/
def created (s : State) (r : Request) : Nat := (findEmptyCluster (s.loadDirTable r.parent)).getD 0

/-- The folder in the row that `delete` finds goes. -/
def removeFound (t : Table) (r : Request) (live : Finset Nat) : Finset Nat :=
  match findRow t r with
  | none => live
  | some row => if (t row).Folder then live.erase (t row).cluster else live

/-- The directories after a request that returned `code`. -/
def liveAfter (s : State) (live : Finset Nat) (op : Op) (code : Int) : Finset Nat :=
  if code = 0 then
    match op with
    | .write r => if r.bufferSize = 0 then insert (created s r) live else live
    | .delete r => removeFound (s.volume.table r.parent) r live
    | .read _ => live
    | .readDirectory _ => live
  else live

/-- A request that fails creates and removes no directory. -/
theorem liveAfter_of_ne (s : State) (live : Finset Nat) (op : Op) {code : Int} (hc : code ≠ 0) :
    liveAfter s live op code = live := if_neg hc

theorem liveAfter_mkdir {s : State} {live : Finset Nat} {r : Request} (hz : r.bufferSize = 0) :
    liveAfter s live (.write r) 0 = insert (created s r) live := if_pos hz

theorem liveAfter_mkfile {s : State} {live : Finset Nat} {r : Request} (hz : r.bufferSize ≠ 0) (code : Int) :
    liveAfter s live (.write r) code = live := by
  by_cases hc : code = 0
  · rw [hc]
    exact if_neg hz
  · exact liveAfter_of_ne s live _ hc

theorem liveAfter_read (s : State) (live : Finset Nat) (r : Request) (code : Int) :
    liveAfter s live (.read r) code = live := ite_self live

theorem liveAfter_readDirectory (s : State) (live : Finset Nat) (r : Request) (code : Int) :
    liveAfter s live (.readDirectory r) code = live := ite_self live

theorem removeFound_folder {t : Table} {r : Request} {live : Finset Nat} {row : Fin 64}
    (hf : findRow t r = some row) (hfo : (t row).Folder) : removeFound t r live = live.erase (t row).cluster := by
  unfold removeFound
  rw [hf]
  exact if_pos hfo

theorem removeFound_file {t : Table} {r : Request} {live : Finset Nat} {row : Fin 64}
    (hf : findRow t r = some row) (hfo : ¬ (t row).Folder) : removeFound t r live = live := by
  unfold removeFound
  rw [hf]
  exact if_neg hfo

/-- Name and extension are not all zero bytes. -/
def Request.Named (r : Request) : Prop := ¬ (r.name = (fun _ => 0) ∧ r.ext = fun _ => 0)

instance (r : Request) : Decidable r.Named := inferInstanceAs (Decidable (¬ _))

def Safe (v : Volume) (live : Finset Nat) : Op → Prop
  | .write r => r.parent ∈ live ∧ (v.Fits r ∨ v.Refused r)
  | .delete r => r.parent ∈ live ∧
      ∀ row, findRow (v.table r.parent) r = some row → (v.table r.parent row).Used
  | .read r => r.parent ∈ live
  | .readDirectory r => r.parent ∈ live

def Ordinary (v : Volume) (live : Finset Nat) : Op → Prop
  | .write r => r.parent ∈ live ∧ r.Named ∧ (r.bufferSize = 0 → r.ext = fun _ => 0) ∧ v.Fits r
  | .delete r => r.parent ∈ live ∧ r.Named
  | .read r => r.parent ∈ live ∧ r.Named
  | .readDirectory r => r.parent ∈ live ∧ r.Named

/-- Every request the shell can send: the parent is a live directory, the rest is arbitrary. -/
def LiveParent (_ : Volume) (live : Finset Nat) : Op → Prop
  | .write r => r.parent ∈ live
  | .delete r => r.parent ∈ live
  | .read r => r.parent ∈ live
  | .readDirectory r => r.parent ∈ live

/-- A row with the name of a named request is in use. -/
theorem Inv.used_of_named {v : Volume} {live : Finset Nat} {r : Request} {i : Fin 64} (h : Inv v live)
    (hp : r.parent ∈ live) (hn : r.Named) (hi : 2 ≤ i.val) (hname : (v.table r.parent i).name = r.name)
    (hext : (v.table r.parent i).ext = r.ext) : (v.table r.parent i).Used := by
  by_contra hu
  obtain ⟨hname', hext'⟩ := h.unused _ hp i hi hu
  exact hn ⟨hname.symm.trans hname', hext.symm.trans hext'⟩

theorem Ordinary.safe {v : Volume} {live : Finset Nat} {op : Op} (h : Inv v live) (ho : Ordinary v live op) :
    Safe v live op := by
  cases op with
  | write r => exact ⟨ho.1, Or.inl ho.2.2.2⟩
  | delete r =>
    refine ⟨ho.1, fun row hf => ?_⟩
    obtain ⟨hi, hname, hext⟩ := findRow_eq_some hf
    exact h.used_of_named ho.1 ho.2 hi hname hext
  | read r => exact ho.1
  | readDirectory r => exact ho.1

/-! ## More fuel does not change a result -/

theorem readChain_mono {s : State} : ∀ {fuel fuel' : Nat} {buf buf' : Nat → UInt8} {k c : Nat}, fuel ≤ fuel' →
    readChain s fuel buf k c = some buf' → readChain s fuel' buf k c = some buf'
  | fuel + 1, fuel' + 1, buf, buf', k, c, hle, h => by
    simp only [readChain] at h ⊢
    split at h
    · rename_i he
      rw [if_pos he, ← h]
    · rename_i he
      rw [if_neg he]
      exact readChain_mono (by omega) h

theorem eraseChain_mono : ∀ {fuel fuel' : Nat} {s : State} {c : Nat} {next : UInt32} {out : State × Nat},
    fuel ≤ fuel' → eraseChain fuel s c next = some out → eraseChain fuel' s c next = some out
  | fuel + 1, fuel' + 1, s, c, next, out, hle, h => by
    simp only [eraseChain] at h ⊢
    split at h
    · rename_i he
      rw [if_pos he, ← h]
    · rename_i he
      rw [if_neg he]
      exact eraseChain_mono (by omega) h

theorem read_mono {fuel fuel' : Nat} {s : State} {r : Request} {out : Reply × State} (hle : fuel ≤ fuel')
    (h : read fuel s r = some out) : read fuel' s r = some out := by
  simp only [read] at h ⊢
  split at h
  · rename_i hu
    rw [if_pos hu, ← h]
  · rename_i hu
    rw [if_neg hu]
    split at h
    · rw [← h]
    · split at h
      · rename_i ha
        rw [if_pos ha, ← h]
      · rename_i ha
        rw [if_neg ha]
        split at h
        · rename_i hs
          rw [if_pos hs, ← h]
        · rename_i hs
          rw [if_neg hs]
          obtain ⟨buf, hb, ho⟩ := Option.map_eq_some_iff.1 h
          rw [readChain_mono hle hb, Option.map_some, ho]

theorem delete_mono {fuel fuel' : Nat} {s : State} {r : Request} {out : Int × State} (hle : fuel ≤ fuel')
    (h : delete fuel s r = some out) : delete fuel' s r = some out := by
  simp only [delete] at h ⊢
  split at h
  · rename_i hd
    rw [if_pos hd, ← h]
  · rename_i hd
    rw [if_neg hd]
    split at h
    · rw [← h]
    · split at h
      · rename_i ha
        rw [if_pos ha, ← h]
      · rename_i ha
        rw [if_neg ha]
        simp only [deleteFile] at h ⊢
        split at h
        · simp at h
        · rename_i t d he
          rw [eraseChain_mono hle he]
          exact h

theorem exec_mono {fuel fuel' : Nat} {s : State} {op : Op} {out : Reply × State} (hle : fuel ≤ fuel')
    (h : exec fuel s op = some out) : exec fuel' s op = some out := by
  cases op with
  | write r => exact h
  | delete r =>
    obtain ⟨o, ho, hout⟩ := Option.map_eq_some_iff.1 h
    rw [exec, delete_mono hle ho, Option.map_some, hout]
  | read r => exact read_mono hle h
  | readDirectory r => exact h

/-! ## What a safe request comes to -/

/-- The effect of a request and the directories after it: no change, or one of the four edits with what the
operation has found out before it. -/
inductive Outcome (v : Volume) (live : Finset Nat) : Op → Effect → Finset Nat → Prop
  | refused {op : Op} {code : Int} : code ≠ 0 → Outcome v live op (v.refuse code) live
  | lookup {op : Op} {code : Int} : (∃ r, op = .read r ∨ op = .readDirectory r) →
      Outcome v live op (v.refuse code) live
  | mkdir {r : Request} {row : Fin 64} {c : Nat} : r.parent ∈ live → ¬ v.Refused r → r.bufferSize = 0 →
      findFreeRow (v.table r.parent) = some row → c ∈ v.fat.freeClusters →
      Outcome v live (.write r) (v.mkdir r row c) (insert c live)
  | mkfile {r : Request} {row : Fin 64} {c : Nat} {l : List Nat} : r.parent ∈ live → ¬ v.Refused r →
      r.bufferSize ≠ 0 → findFreeRow (v.table r.parent) = some row → (∀ x ∈ c :: l, x ∈ v.fat.freeClusters) →
      (c :: l).Nodup → (c :: l).length = clustersOf r.bufferSize.toNat →
      Outcome v live (.write r) (v.mkfile r row c l) live
  | rmdir {r : Request} {row : Fin 64} {c : Nat} : v.LiveRow live r.parent row →
      findRow (v.table r.parent) r = some row → (v.table r.parent row).Folder →
      (v.table r.parent row).cluster = c → (∀ i, ¬ v.LiveRow live c i) →
      Outcome v live (.delete r) (v.rmdir r row c) (live.erase c)
  | unlink {r : Request} {row : Fin 64} {l : List Nat} : v.LiveRow live r.parent row →
      findRow (v.table r.parent) r = some row → ¬ (v.table r.parent row).Folder →
      Lib.Chain v.next endMark (v.table r.parent row).cluster l → Outcome v live (.delete r) (v.unlink r row l) live

section step
variable {s : State} {live : Finset Nat} {r : Request} (h : Inv s.volume live) (hp : r.parent ∈ live)
include h hp

omit h in
theorem write_outcome (hs : s.volume.Fits r ∨ s.volume.Refused r) : Does s (write s r) (s.volume.write r) ∧
    Outcome s.volume live (.write r) (s.volume.write r) (liveAfter s live (.write r) (s.volume.write r).code) := by
  refine ⟨hs.elim write_does write_does_of_refused, ?_⟩
  rcases s.volume.write_cases r with ⟨code, hcode, hw⟩ | ⟨row, c, l, href, hrow, -, hz, hfree, hw⟩ |
    ⟨row, c, l, href, hrow, -, hz, htake, hw⟩
  · rw [hw, liveAfter_of_ne s live _ (show (s.volume.refuse code).code ≠ 0 from hcode)]
    exact .refused hcode
  · have hfind := (findEmptyCluster_eq (s := s.loadDirTable r.parent) hfree).1
    have hlive : liveAfter s live (.write r) (s.volume.write r).code = insert c live := by
      rw [hw, show (s.volume.mkdir r row c).code = 0 from rfl, liveAfter_mkdir hz, created, hfind,
        Option.getD_some]
    rw [hlive, hw]
    exact .mkdir hp href hz hrow (by rw [hfree]; simp)
  · have hfit : s.volume.Fits r := hs.resolve_right href
    obtain ⟨hfree, hnd, hlen⟩ := hfit.taken hz htake
    rw [liveAfter_mkfile hz, hw]
    exact .mkfile hp href hz hrow hfree hnd hlen

theorem delete_outcome {fuel : Nat} (hfuel : 512 ≤ fuel)
    (hs : ∀ row, findRow (s.volume.table r.parent) r = some row → (s.volume.table r.parent row).Used) :
    ∃ out, delete fuel s r = some out ∧ Does s out (s.volume.delete r) ∧
      Outcome s.volume live (.delete r) (s.volume.delete r)
        (liveAfter s live (.delete r) (s.volume.delete r).code) := by
  have hrow : ∀ row, findRow (s.volume.table r.parent) r = some row → s.volume.LiveRow live r.parent row :=
    fun row hf => ⟨hp, (findRow_eq_some hf).1, hs row hf⟩
  have hchain : ∀ row, findRow (s.volume.table r.parent) r = some row → ∃ l,
      Lib.Chain s.volume.next endMark (s.volume.table r.parent row).cluster l ∧ ∀ x ∈ l, x < 512 := by
    intro row hf
    obtain ⟨l, hl, -, hR⟩ := h.chain (hrow row hf)
    exact ⟨l, hl, fun x hx => (hR x hx).2⟩
  obtain ⟨out, hout, hdoes⟩ := delete_does (s := s) hfuel (fun row hf _ => by
    obtain ⟨l, hl, hR⟩ := hchain row hf
    exact hR _ hl.head_mem) (fun row hf _ => hchain row hf)
  refine ⟨out, hout, hdoes, ?_⟩
  rcases s.volume.delete_cases r with ⟨code, hcode, hd⟩ | ⟨row, hf, hfo, hocc, hd⟩ | ⟨row, hf, hfo, hd⟩
  · rw [hd, liveAfter_of_ne s live _ (show (s.volume.refuse code).code ≠ 0 from hcode)]
    exact .refused hcode
  · have hlive : liveAfter s live (.delete r) (s.volume.delete r).code =
        live.erase (s.volume.table r.parent row).cluster := by
      rw [hd]
      exact removeFound_folder hf hfo
    rw [hlive, hd]
    exact .rmdir (hrow row hf) hf hfo rfl fun i hi => occupied_eq_false hocc hi.2.1 hi.2.2
  · have hlive : liveAfter s live (.delete r) (s.volume.delete r).code = live := by
      rw [hd]
      exact removeFound_file hf hfo
    obtain ⟨l, hl, hR⟩ := hchain row hf
    rw [hlive, hd, chain_eq hl hR]
    exact .unlink (hrow row hf) hf hfo hl

end step

/-- **Every safe request has an outcome.** -/
theorem exec_outcome {s s' : State} {live : Finset Nat} {op : Op} {fuel : Nat} {rep : Reply}
    (h : Inv s.volume live) (hs : Safe s.volume live op) (hx : exec fuel s op = some (rep, s')) :
    ∃ fx, Outcome s.volume live op fx (liveAfter s live op rep.code) ∧ rep.code = fx.code ∧
      s'.volume = s.volume.apply fx ∧ s'.writes = s.writes ++ fx.writes := by
  cases op with
  | write r =>
    obtain ⟨hdoes, ho⟩ := write_outcome hs.1 hs.2
    simp only [exec, Option.some.injEq, Prod.mk.injEq] at hx
    obtain ⟨rfl, rfl⟩ := hx
    rw [← hdoes.code] at ho
    exact ⟨_, ho, hdoes.code, hdoes.volume, hdoes.writes⟩
  | delete r =>
    obtain ⟨out, hout, hdoes, ho⟩ := delete_outcome h hs.1 (Nat.le_max_right fuel 512) hs.2
    obtain ⟨out', hout', he⟩ := Option.map_eq_some_iff.1 hx
    obtain rfl : out' = out := Option.some.inj ((delete_mono (Nat.le_max_left fuel 512) hout').symm.trans hout)
    obtain ⟨rfl, rfl⟩ := Prod.mk.inj he
    rw [← hdoes.code] at ho
    exact ⟨_, ho, hdoes.code, hdoes.volume, hdoes.writes⟩
  | read r =>
    obtain ⟨hv, hw⟩ := read_volume h.synced hx
    rw [liveAfter_read]
    exact ⟨s.volume.refuse rep.code, .lookup ⟨r, .inl rfl⟩, rfl, hv, by rw [hw]; exact (List.append_nil _).symm⟩
  | readDirectory r =>
    simp only [exec, Option.some.injEq, readDirectory_eq, Prod.mk.injEq] at hx
    obtain ⟨rfl, rfl⟩ := hx
    rw [liveAfter_readDirectory]
    exact ⟨s.volume.refuse (s.volume.readDirectory r).code, .lookup ⟨r, .inr rfl⟩, rfl, rfl, (List.append_nil _).symm⟩

theorem Outcome.inv {v : Volume} {live live' : Finset Nat} {op : Op} {fx : Effect} (h : Inv v live)
    (ho : Outcome v live op fx live') : Inv (v.apply fx) live' := by
  cases ho with
  | refused _ => exact h
  | lookup _ => exact h
  | mkdir hp _ _ hrow hfree =>
    obtain ⟨hrow2, hu⟩ := findFreeRow_eq_some hrow
    exact mkdir_inv h hp hrow2 hu hfree
  | mkfile hp _ _ hrow hfree hnd hlen =>
    obtain ⟨hrow2, hu⟩ := findFreeRow_eq_some hrow
    exact mkfile_inv h hp hrow2 hu hfree hnd hlen
  | rmdir hr _ hf hc hempty => exact rmdir_inv h hr.1 hr hf hc hempty
  | unlink hr _ hf hl => exact unlink_inv h hr.1 hr hf hl

/-- **Every safe request keeps the invariant.** -/
theorem exec_inv {s s' : State} {live : Finset Nat} {op : Op} {fuel : Nat} {rep : Reply}
    (h : Inv s.volume live) (hs : Safe s.volume live op) (hx : exec fuel s op = some (rep, s')) :
    Inv s'.volume (liveAfter s live op rep.code) := by
  obtain ⟨fx, ho, -, hv, -⟩ := exec_outcome h hs hx
  rw [hv]
  exact ho.inv h

/-! ## On a volume in order a request depends on nothing but the volume -/

def Volume.exec (v : Volume) : Op → Reply × Volume
  | .write r => (⟨(v.write r).code, r.buf⟩, v.apply (v.write r))
  | .delete r => (⟨(v.delete r).code, r.buf⟩, v.apply (v.delete r))
  | .read r => (v.read r, v)
  | .readDirectory r => (v.readDirectory r, v)

/-- Rows 0 and 1 are folders. -/
theorem Inv.row_of_not_folder {v : Volume} {live : Finset Nat} {d : Nat} {row : Fin 64} (h : Inv v live)
    (hd : d ∈ live) (hfo : ¬ (v.table d row).Folder) : 2 ≤ row.val := by
  obtain ⟨-, h0, -, h1⟩ := h.self d hd
  by_contra hlt
  have hcases : row = 0 ∨ row = 1 := by omega
  rcases hcases with rfl | rfl
  · exact hfo h0
  · exact hfo h1

/-- The file that `read` finds has its chain: a row with the name is in use. -/
theorem Inv.read_chain {v : Volume} {live : Finset Nat} {r : Request} (h : Inv v live) (hp : r.parent ∈ live)
    (hn : r.Named) {row : Fin 64} (hf : Volume.findAnyRow (v.table r.parent) r = some row)
    (hfo : ¬ (v.table r.parent row).Folder) :
    ∃ l, Lib.Chain v.next endMark (v.table r.parent row).cluster l ∧ ∀ x ∈ l, x < 512 := by
  obtain ⟨hname, hext⟩ := sameName_iff.1 (Fin.eq_true_of_find?_eq_some hf)
  have hrow := h.row_of_not_folder hp hfo
  obtain ⟨l, hl, -, hR⟩ := h.chain ⟨hp, hrow, h.used_of_named hp hn hrow hname hext⟩
  exact ⟨l, hl, fun x hx => (hR x hx).2⟩

/-- **Every ordinary request returns**, with a reply and a volume that the volume alone decides. -/
theorem exec_eq {s : State} {live : Finset Nat} {op : Op} {fuel : Nat} (hfuel : 512 ≤ fuel)
    (h : Inv s.volume live) (ho : Ordinary s.volume live op) :
    ∃ s', exec fuel s op = some ((s.volume.exec op).1, s') ∧ s'.volume = (s.volume.exec op).2 := by
  have hs := ho.safe h
  cases op with
  | write r =>
    have hdoes := (write_outcome hs.1 hs.2).1
    refine ⟨(write s r).2, ?_, hdoes.volume⟩
    simp only [exec, Volume.exec, hdoes.code]
  | delete r =>
    obtain ⟨out, hout, hdoes, -⟩ := delete_outcome h hs.1 hfuel hs.2
    refine ⟨out.2, ?_, hdoes.volume⟩
    simp only [exec, Volume.exec, hout, Option.map_some, hdoes.code]
  | read r =>
    obtain ⟨s', hs'⟩ := read_eq hfuel h.synced fun row hf hfo => h.read_chain ho.1 ho.2 hf hfo
    exact ⟨s', hs', (read_volume h.synced hs').1⟩
  | readDirectory r =>
    refine ⟨s.loadDirTable r.parent, ?_, rfl⟩
    simp only [exec, readDirectory_eq, Volume.exec]

theorem exec_volume {s s' : State} {live : Finset Nat} {op : Op} {fuel : Nat} {rep : Reply}
    (h : Inv s.volume live) (ho : Ordinary s.volume live op) (hx : exec fuel s op = some (rep, s')) :
    rep = (s.volume.exec op).1 ∧ s'.volume = (s.volume.exec op).2 := by
  obtain ⟨t, ht, hv⟩ := exec_eq (Nat.le_max_right fuel 512) h ho
  have he := Option.some.inj ((exec_mono (Nat.le_max_left fuel 512) hx).symm.trans ht)
  obtain ⟨rfl, rfl⟩ := Prod.mk.inj he
  exact ⟨rfl, hv⟩

/-! ## A formatted volume -/

section format
variable (s : State)

theorem createFat32_table : (createFat32 s).volume.table rootClusterNumber = formattedRoot := by
  have h : readClusters (createFat32 s).disk rootClusterNumber = encodeTable formattedRoot :=
    readClusters_writeClusters _ _ _
  exact (congrArg decodeTable h).trans (decodeTable_encodeTable _)

theorem createFat32_synced : Synced (createFat32 s).volume := by
  have h : readClusters (createFat32 s).disk fatClusterNumber = encodeFat formattedFat := by
    refine (readClusters_writeClusters_of_ne _ _ (by decide) (by decide) (by decide)).trans ?_
    exact readClusters_writeClusters _ _ _
  exact h

theorem createFat32_boot : firstBlock (readClusters (createFat32 s).disk 0) = fsSignature := by
  have h : readClusters (createFat32 s).disk 0 = readClusters (writeBlocks (n := 1) s.disk fsSignature 0) 0 :=
    (readClusters_writeClusters_of_ne _ _ (by decide) (by decide) (by decide)).trans
      (readClusters_writeClusters_of_ne _ _ (by decide) (by decide) (by decide))
  rw [h]
  exact readClusters_writeBlocks_boot s.disk fsSignature

/-- Formatting leaves the clusters past the root as they are. -/
theorem createFat32_rest {c : Nat} (hc : 3 ≤ c) (hc' : c < 2 ^ 26) :
    readClusters (createFat32 s).disk c = readClusters s.disk c := by
  have h1 : fatClusterNumber = 1 := rfl
  have h2 : rootClusterNumber = 2 := rfl
  have h : readClusters (createFat32 s).disk c = readClusters (writeBlocks (n := 1) s.disk fsSignature 0) c :=
    (readClusters_writeClusters_of_ne _ _ (by omega) hc' (by omega)).trans
      (readClusters_writeClusters_of_ne _ _ (by omega) hc' (by omega))
  rw [h]
  funext i
  refine writeBlocks_out (n := 1) s.disk _ _ (.inr ?_)
  rw [blockAddr_clusterToLba]
  simp only [blockAddr]
  omega

theorem formattedRoot_zero : formattedRoot 0 = directoryEntry
    (fun i => ['r'.toUInt8, 'o'.toUInt8, 'o'.toUInt8, 't'.toUInt8].getD i 0) rootClusterNumber := by
  simp [formattedRoot, initDirectoryTable]

theorem formattedRoot_one : formattedRoot 1 = directoryEntry dotDot rootClusterNumber := by
  simp [formattedRoot, initDirectoryTable]

theorem formattedRoot_of_ge {i : Fin 64} (hi : 2 ≤ i.val) : formattedRoot i = zeroEntry := by
  have h0 : i ≠ 0 := by rintro rfl; simp at hi
  have h1 : i ≠ 1 := by rintro rfl; simp at hi
  simp [formattedRoot, initDirectoryTable, h0, h1]

theorem formattedFat_of_ge {c : Nat} (hc : 3 ≤ c) : formattedFat.get c = 0 := by
  unfold Fat.get formattedFat
  split
  · rw [if_neg (by simp; omega), if_neg (by simp; omega), if_neg (by simp; omega)]
  · rfl

theorem formattedFat_freeClusters : formattedFat.freeClusters = List.range' 3 509 := by decide +kernel

theorem createFat32_fits {r : Request} : (createFat32 s).volume.Fits r ↔ Volume.needed r ≤ 509 := by
  have hfree : (createFat32 s).volume.fat.freeClusters = List.range' 3 509 := formattedFat_freeClusters
  rw [Volume.Fits, hfree, List.length_range']

theorem isDirectory_formattedRoot : isDirectory formattedRoot = true := by decide

theorem findFreeRow_formattedRoot : findFreeRow formattedRoot = some 2 := by decide

theorem findRow_formattedRoot {r : Request} (hr : r.Named) : findRow formattedRoot r = none := by
  refine Fin.find?_eq_none_iff.2 fun i => ?_
  by_cases hi : 2 ≤ i.val
  · rw [formattedRoot_of_ge hi, Bool.and_eq_false_iff]
    right
    rw [Bool.eq_false_iff, ne_eq, sameName_iff]
    exact fun hx => hr ⟨hx.1.symm, hx.2.symm⟩
  · simp [hi]

/-- The first folder of a fresh volume. -/
theorem createFat32_mkdir {r : Request} (hp : r.parent = rootClusterNumber) (hr : r.Named) (hz : r.bufferSize = 0) :
    (createFat32 s).volume.write r = (createFat32 s).volume.mkdir r 2 3 := by
  have hfree : (createFat32 s).volume.fat.freeClusters = 3 :: List.range' 4 508 := formattedFat_freeClusters
  simp only [Volume.write, hp, createFat32_table, isDirectory_formattedRoot, findFreeRow_formattedRoot,
    findRow_formattedRoot hr, hz, hfree]
  rfl

/-- The first file of a fresh volume. -/
theorem createFat32_mkfile {r : Request} {k : Nat} (hp : r.parent = rootClusterNumber) (hr : r.Named)
    (hk : clustersOf r.bufferSize.toNat = k + 1) (hk' : k ≤ 508) :
    (createFat32 s).volume.write r = (createFat32 s).volume.mkfile r 2 3 (List.range' 4 k) := by
  have hz : r.bufferSize ≠ 0 := by
    intro hz
    rw [hz] at hk
    exact absurd hk (by simp [clustersOf])
  have hfree : (createFat32 s).volume.fat.freeClusters.take (clustersOf r.bufferSize.toNat) =
      3 :: List.range' 4 k := by
    rw [show (createFat32 s).volume.fat.freeClusters = List.range' 3 509 from formattedFat_freeClusters, hk,
      List.range'_succ, List.take_succ_cons, List.take_range'_of_length_ge hk']
  simp only [Volume.write, hp, createFat32_table, isDirectory_formattedRoot, findFreeRow_formattedRoot,
    findRow_formattedRoot hr, hz, hfree]
  rfl

/-- **`create_fat32` puts a volume in order**, with the root as its only directory. -/
theorem createFat32_inv : Inv (createFat32 s).volume {rootClusterNumber} := by
  have htab := createFat32_table s
  have hroot : (directoryEntry dotDot rootClusterNumber).cluster = rootClusterNumber :=
    DirEntry.setCluster_cluster _ (by decide)
  have hnone : ∀ d i, ¬ (createFat32 s).volume.LiveRow {rootClusterNumber} d i := by
    rintro d i ⟨hd, hi, hu⟩
    rw [Finset.mem_singleton.1 hd, htab, formattedRoot_of_ge hi] at hu
    exact not_used_zeroEntry hu
  refine ⟨createFat32_boot s, createFat32_synced s, rfl, rfl, rfl, ⟨?_, ?_, ?_⟩, Finset.mem_singleton_self _,
    ?_, ?_, ?_, ?_, ?_, ⟨?_, ?_⟩⟩
  · rintro ⟨d, i⟩ c n hr
    exact absurd (Volume.rows_eq_some hr).1 (hnone d i)
  · rintro ⟨d, i⟩ j c c' m n l l' x hr
    exact absurd (Volume.rows_eq_some hr).1 (hnone d i)
  · intro x hx hne
    exact absurd (congrArg UInt32.toNat (formattedFat_of_ge hx.1)) hne
  · rw [htab, formattedRoot_one, hroot]
  · intro d hd
    rw [Finset.mem_singleton.1 hd, htab, formattedRoot_zero, formattedRoot_one]
    exact ⟨rfl, rfl, DirEntry.setCluster_cluster _ (by decide), rfl⟩
  · intro d hd i hi _
    rw [Finset.mem_singleton.1 hd, htab, formattedRoot_of_ge hi]
    exact blank_zeroEntry
  · intro d i hr
    exact absurd hr (hnone d i)
  · intro d hd h2
    exact absurd (Finset.mem_singleton.1 hd) h2
  · intro d hd
    rw [Finset.mem_singleton.1 hd, htab, formattedRoot_one, hroot]
    exact Finset.mem_singleton_self _
  · intro d hd
    exact ⟨0, Finset.mem_singleton.1 hd⟩

end format

/-- A driver before its first request: an empty disk, its memory and the memory around it zero. -/
def blankState : State := ⟨fun _ => 0, [], fun _ => 0, fun _ => zeroEntry, fun _ => 0, fun _ => 0⟩

/-- `mkdir a` in the root directory. -/
def folderRequest : Request :=
  ⟨fun _ => 0, fun i => if i.val = 0 then 'a'.toUInt8 else 0, fun _ => 0, 2, 0⟩

def fileName : Fin 8 → UInt8 := fun i => if i.val = 0 then 'f'.toUInt8 else 0

/-- A file `f` of `n` bytes, all of them 1, in the root directory. -/
def fileRequest (n : UInt32) : Request := ⟨fun _ => 1, fileName, fun _ => 0, 2, n⟩

/-! ## Runs -/

/-- One request of the given kind: the operation with its reply leads from a state and its
directories to the next ones. -/
structure Step (kind : Volume → Finset Nat → Op → Prop) (x : State × Finset Nat) (a : Op × Reply)
    (y : State × Finset Nat) : Prop where
  kind : kind x.1.volume x.2 a.1
  exec : ∃ fuel, exec fuel x.1 a.1 = some (a.2, y.1)
  live : y.2 = liveAfter x.1 x.2 a.1 a.2.code

/-- A state that requests of the given kind reach from `create_fat32`, and its directories. -/
def Run (kind : Volume → Finset Nat → Op → Prop) (s : State) (live : Finset Nat) : Prop :=
  ∃ s₀ tr, Lib.Path (Step kind) (createFat32 s₀, {rootClusterNumber}) tr (s, live)

theorem Step.inv {kind : Volume → Finset Nat → Op → Prop} {x y : State × Finset Nat} {a : Op × Reply}
    (hkind : ∀ {v live op}, Inv v live → kind v live op → Safe v live op) (h : Inv x.1.volume x.2)
    (hs : Step kind x a y) : Inv y.1.volume y.2 := by
  obtain ⟨fuel, hx⟩ := hs.exec
  rw [hs.live]
  exact exec_inv h (hkind h hs.kind) hx

/-- What every outcome keeps holds along a path, beside the invariant. -/
theorem Step.path_invariant {kind : Volume → Finset Nat → Op → Prop} {P : Volume → Finset Nat → Prop}
    (hkind : ∀ {v live op}, Inv v live → kind v live op → Safe v live op)
    (hstep : ∀ {v live op fx live'}, Inv v live → P v live → kind v live op → Outcome v live op fx live' →
      P (v.apply fx) live')
    {s₀ s : State} {live : Finset Nat} {tr : List (Op × Reply)} (h₀ : P (createFat32 s₀).volume {rootClusterNumber})
    (hpath : Lib.Path (Step kind) (createFat32 s₀, {rootClusterNumber}) tr (s, live)) :
    Inv s.volume live ∧ P s.volume live := by
  have hstart : Inv (createFat32 s₀).volume {rootClusterNumber} ∧ P (createFat32 s₀).volume {rootClusterNumber} :=
    ⟨createFat32_inv s₀, h₀⟩
  refine hpath.invariant (I := fun x => Inv x.1.volume x.2 ∧ P x.1.volume x.2) ?_ hstart
  rintro ⟨s, live⟩ ⟨op, rep⟩ ⟨s', live'⟩ ⟨hinv, hP⟩ hs
  obtain ⟨fuel, hx⟩ := hs.exec
  obtain ⟨fx, ho, -, hv, -⟩ := exec_outcome hinv (hkind hinv hs.kind) hx
  refine ⟨Step.inv hkind hinv hs, ?_⟩
  rw [hs.live]
  exact hv ▸ hstep hinv hP hs.kind ho

theorem Step.write {s : State} {live : Finset Nat} {q : Request} (ho : Ordinary s.volume live (.write q)) :
    Step Ordinary (s, live) (.write q, ⟨(MoggersOs.write s q).1, q.buf⟩)
      ((MoggersOs.write s q).2, liveAfter s live (.write q) (MoggersOs.write s q).1) := by
  refine ⟨ho, ⟨0, ?_⟩, ?_⟩
  · rfl
  · dsimp only

/-- **The invariant holds in every state of a run of safe requests.** -/
theorem Run.safe_inv {s : State} {live : Finset Nat} (h : Run Safe s live) : Inv s.volume live := by
  obtain ⟨s₀, tr, hpath⟩ := h
  exact hpath.invariant (I := fun x => Inv x.1.volume x.2) (fun _ _ _ h hs => Step.inv (fun _ hk => hk) h hs)
    (createFat32_inv s₀)

/-- **The invariant holds in every state of a run of ordinary requests.** -/
theorem Run.inv {s : State} {live : Finset Nat} (h : Run Ordinary s live) : Inv s.volume live := by
  obtain ⟨s₀, tr, hpath⟩ := h
  exact hpath.invariant (I := fun x => Inv x.1.volume x.2) (fun _ _ _ h hs => Step.inv Ordinary.safe h hs)
    (createFat32_inv s₀)

theorem Run.format (kind : Volume → Finset Nat → Op → Prop) (s₀ : State) :
    Run kind (createFat32 s₀) {rootClusterNumber} := ⟨s₀, [], .nil⟩

theorem Run.step {kind : Volume → Finset Nat → Op → Prop} {s s' : State} {live : Finset Nat} {op : Op}
    {rep : Reply} {fuel : Nat} (h : Run kind s live) (hk : kind s.volume live op)
    (hx : exec fuel s op = some (rep, s')) : Run kind s' (liveAfter s live op rep.code) := by
  obtain ⟨s₀, tr, hpath⟩ := h
  exact ⟨s₀, _, hpath.snoc (l := (op, rep)) ⟨hk, ⟨fuel, hx⟩, rfl⟩⟩

/-- Ordinary requests are safe. -/
theorem Step.path_safe {x y : State × Finset Nat} {tr : List (Op × Reply)} (h : Lib.Path (Step Ordinary) x tr y)
    (hinv : Inv x.1.volume x.2) : Lib.Path (Step Safe) x tr y := by
  induction h with
  | nil => exact .nil
  | cons hs _ ih => exact .cons ⟨hs.kind.safe hinv, hs.exec, hs.live⟩ (ih (hs.inv Ordinary.safe hinv))

theorem Run.safe {s : State} {live : Finset Nat} (h : Run Ordinary s live) : Run Safe s live := by
  obtain ⟨s₀, tr, hpath⟩ := h
  exact ⟨s₀, tr, Step.path_safe hpath (createFat32_inv s₀)⟩

theorem Run.write {kind : Volume → Finset Nat → Op → Prop} {s : State} {live : Finset Nat} {r : Request}
    (h : Run kind s live) (hk : kind s.volume live (.write r)) :
    Run kind (write s r).2 (liveAfter s live (.write r) (write s r).1) :=
  h.step hk (show exec 0 s (.write r) = _ from rfl)

theorem folderRequest_ordinary (s : State) :
    Ordinary (createFat32 s).volume {rootClusterNumber} (.write folderRequest) := by
  refine ⟨by decide, by decide, fun _ => rfl, ?_⟩
  rw [createFat32_fits]
  decide

/-- The folder is at cluster 3. -/
theorem folderRequest_live : liveAfter (createFat32 blankState) {rootClusterNumber} (.write folderRequest)
    (MoggersOs.write (createFat32 blankState) folderRequest).1 = {3, rootClusterNumber} := by
  have hord := folderRequest_ordinary blankState
  have hcode := (write_does hord.2.2.2).code
  rw [createFat32_mkdir blankState rfl hord.2.1 rfl] at hcode
  have hc : created (createFat32 blankState) folderRequest = 3 := by
    have hfree : ((createFat32 blankState).loadDirTable folderRequest.parent).fatTable.freeClusters =
        3 :: List.range' 4 508 := formattedFat_freeClusters
    rw [created, (findEmptyCluster_eq hfree).1, Option.getD_some]
  rw [hcode, show ((createFat32 blankState).volume.mkdir folderRequest 2 3).code = 0 from rfl, liveAfter_mkdir rfl, hc]

theorem Run.folder {kind : Volume → Finset Nat → Op → Prop}
    (hk : kind (createFat32 blankState).volume {rootClusterNumber} (.write folderRequest)) :
    Run kind (MoggersOs.write (createFat32 blankState) folderRequest).2 {3, rootClusterNumber} := by
  rw [← folderRequest_live]
  exact (Run.format kind blankState).write hk

/-- The volume with the folder. -/
theorem withFolder_volume : (write (createFat32 blankState) folderRequest).2.volume =
    (createFat32 blankState).volume.apply ((createFat32 blankState).volume.mkdir folderRequest 2 3) := by
  have hvol := (write_does (folderRequest_ordinary blankState).2.2.2).volume
  rwa [createFat32_mkdir blankState rfl (by decide) rfl] at hvol

theorem withFolder_table : (write (createFat32 blankState) folderRequest).2.volume.table rootClusterNumber =
    Function.update formattedRoot 2 (newDirectory folderRequest.name rootClusterNumber 3 0) := by
  rw [withFolder_volume, ← createFat32_table blankState]
  exact (mkdir_edit _ folderRequest 2 (c := 3) (by decide) (by decide) (by decide) (by decide) (by decide)).parent

theorem withFolder_two : (write (createFat32 blankState) folderRequest).2.volume.table rootClusterNumber 2 =
    newDirectory folderRequest.name rootClusterNumber 3 0 := by
  rw [withFolder_table, Function.update_self]

theorem withFolder_live :
    (write (createFat32 blankState) folderRequest).2.volume.LiveRow {3, rootClusterNumber} rootClusterNumber 2 := by
  refine ⟨by decide, by decide, ?_⟩
  rw [withFolder_two, newDirectory_zero]
  rfl

theorem withFolder_delete : (write (createFat32 blankState) folderRequest).2.volume.delete folderRequest =
    (write (createFat32 blankState) folderRequest).2.volume.rmdir folderRequest 2 3 := by
  have hroot : (write (createFat32 blankState) folderRequest).2.volume.table folderRequest.parent =
      Function.update formattedRoot 2 (newDirectory folderRequest.name rootClusterNumber 3 0) := withFolder_table
  have htable : (write (createFat32 blankState) folderRequest).2.volume.table 3 =
      newDirectory folderRequest.name rootClusterNumber 3 := by
    rw [withFolder_volume]
    exact mkdir_table _ folderRequest 2 (by decide)
  generalize (write (createFat32 blankState) folderRequest).2.volume = v at hroot htable
  have hdir : isDirectory (v.table folderRequest.parent) = true := by
    rw [hroot]
    decide
  have hfind : findRow (v.table folderRequest.parent) folderRequest = some 2 := by
    rw [hroot]
    decide
  have hfolder : (v.table folderRequest.parent 2).attr = attrSubdirectory := by
    rw [hroot]
    decide
  have hcluster : (v.table folderRequest.parent 2).cluster = 3 := by
    rw [hroot]
    decide
  have hempty : occupied (v.table 3) = false := by
    rw [htable]
    decide
  simp [Volume.delete, hdir, hfind, hfolder, hcluster, hempty]

/-- `mkdir a` and `rm a`: cluster 3, which was a directory, is free again. -/
theorem recycled : ∃ s tr, tr.map Prod.fst = [.write folderRequest, .delete folderRequest] ∧
    Lib.Path (Step Ordinary) (createFat32 blankState, {rootClusterNumber}) tr (s, {rootClusterNumber}) ∧
    s.volume.fat.get 3 = fatEmptyEntry := by
  have hmkdir := Step.write (folderRequest_ordinary blankState)
  rw [folderRequest_live] at hmkdir
  have hrun : Run Ordinary _ _ := Run.folder (folderRequest_ordinary blankState)
  have hinv := hrun.inv
  have hroot := withFolder_table
  have hrmdir := withFolder_delete
  generalize (write (createFat32 blankState) folderRequest).2 = t at hmkdir hrun hinv hroot hrmdir
  have hord : Ordinary t.volume {3, rootClusterNumber} (.delete folderRequest) := ⟨by decide, by decide⟩
  obtain ⟨s, hexec, hvol⟩ := exec_eq (Nat.le_refl 512) hinv hord
  rw [Volume.exec, hrmdir] at hexec hvol
  have hfind : findRow (t.volume.table folderRequest.parent) folderRequest = some 2 := by
    rw [show folderRequest.parent = rootClusterNumber from rfl, hroot]
    decide
  have hrow : t.volume.table folderRequest.parent 2 = newDirectory folderRequest.name rootClusterNumber 3 0 := by
    rw [show folderRequest.parent = rootClusterNumber from rfl, hroot, Function.update_self]
  have hlive : liveAfter t {3, rootClusterNumber} (.delete folderRequest) 0 = {rootClusterNumber} := by
    refine (removeFound_folder hfind ?_).trans ?_
    · rw [hrow]
      decide
    · rw [hrow]
      decide
  have hrm : Step Ordinary (t, {3, rootClusterNumber}) (.delete folderRequest, ⟨0, folderRequest.buf⟩)
    (s, {rootClusterNumber}) := ⟨hord, ⟨512, hexec⟩, hlive.symm⟩
  refine ⟨s, _, rfl, .cons hmkdir (.cons hrm .nil), ?_⟩
  rw [hvol]
  exact Fat.get_set_self _ (by decide) _

section firstFile
variable (s : State) {r : Request} (hp : r.parent = rootClusterNumber) (hr : r.Named) (hk : clustersOf r.bufferSize.toNat = 1)
include hp hr hk

/-- The first file, of one cluster. -/
theorem firstFile_edit :
    Edit (createFat32 s).volume (MoggersOs.write (createFat32 s) r).2.volume rootClusterNumber 2 (newFile r 3) [3] := by
  have hfit : (createFat32 s).volume.Fits r := by
    rw [createFat32_fits, Volume.needed]
    split <;> omega
  rw [(write_does hfit).volume, createFat32_mkfile s (k := 0) hp hr hk (by decide), ← hp]
  exact mkfile_edit _ r 2 (c := 3) (l := []) (by rw [hp]; decide) (by rw [hp]; decide) (by decide)

/-- The root directory after it. -/
theorem firstFile_table : (MoggersOs.write (createFat32 s) r).2.volume.table rootClusterNumber =
    Function.update formattedRoot 2 (newFile r 3) := by
  rw [(firstFile_edit s hp hr hk).parent, createFat32_table]

theorem firstFile_free : (MoggersOs.write (createFat32 s) r).2.volume.fat.freeClusters ≠ [] := by
  refine List.ne_nil_of_mem (Fat.mem_freeClusters.2 ⟨by decide, ?_⟩) (a := 4)
  rw [(firstFile_edit s hp hr hk).fat 4 (by decide)]
  rfl

end firstFile

end MoggersOs
