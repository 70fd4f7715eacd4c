import Mathlib.Data.Finset.Insert
import Mathlib.Data.Finset.Erase
import MoggersOs.Lib.Path

/-!
# Directories of named things

A `Namespace` has directories; each has a name of its own, a directory above it, and entries under names: files with
their contents, and directories. A request changes at most what one directory has under one name (`Changes`): the
name was free and gets a file or a new, empty directory, or what was there goes, a directory only if it has no
entries. So what is under a name stays through any run of such requests that do not take it away (`kept`).
-/

namespace Lib

variable {δ ν β : Type*}

inductive Node (δ β : Type*) where
  | file (contents : β)
  | dir (d : δ)

@[ext] structure Namespace (δ ν β : Type*) where
  dirs  : Finset δ
  own   : δ → ν
  up    : δ → δ
  entry : δ → ν → Option (Node δ β)

namespace Namespace

variable [DecidableEq δ] [DecidableEq ν]

/-- What directory `d` has under the name `n` becomes `k`. -/
def set (x : Namespace δ ν β) (d : δ) (n : ν) (k : Option (Node δ β)) : Namespace δ ν β :=
  { x with entry := Function.update x.entry d (Function.update (x.entry d) n k) }

/-- A new directory `c` without entries, under the name `n` in `d`. -/
def addDir (x : Namespace δ ν β) (d : δ) (n : ν) (c : δ) : Namespace δ ν β where
  dirs := insert c x.dirs
  own := Function.update x.own c n
  up := Function.update x.up c d
  entry := Function.update (x.set d n (some (.dir c))).entry c fun _ => none

def addFile (x : Namespace δ ν β) (d : δ) (n : ν) (b : β) : Namespace δ ν β := x.set d n (some (.file b))

/-- What is under the name goes. -/
def remove (x : Namespace δ ν β) (d : δ) (n : ν) : Namespace δ ν β :=
  { x.set d n none with
    dirs := match x.entry d n with
      | some (.dir c) => x.dirs.erase c
      | _ => x.dirs }

/-- A directory also has itself under its own name and the one above it under the name `dots`, and these come first. -/
def look (x : Namespace δ ν β) (dots : ν) (d : δ) (n : ν) : Option (Node δ β) :=
  if n = x.own d then some (.dir d) else if n = dots then some (.dir (x.up d)) else x.entry d n

/-- The names lead from directory `s` down to another one. -/
inductive Leads (x : Namespace δ ν β) (s : δ) : List ν → δ → Prop
  | here : Leads x s [] s
  | down {ns : List ν} {d c : δ} {n : ν} : Leads x s ns d → x.entry d n = some (.dir c) → Leads x s (ns ++ [n]) c

/-- A request about the name `n` in directory `d`. -/
inductive Changes (x : Namespace δ ν β) (d : δ) (n : ν) : Namespace δ ν β → Prop
  | newFile (b : β) : x.entry d n = none → Changes x d n (x.addFile d n b)
  | newDir (c : δ) : x.entry d n = none → c ∉ x.dirs → Changes x d n (x.addDir d n c)
  | gone : (∀ c, x.entry d n = some (.dir c) → ∀ m, x.entry c m = none) → Changes x d n (x.remove d n)

variable {x y : Namespace δ ν β} {d e : δ} {n m : ν} {k : Option (Node δ β)}

@[simp] theorem set_entry_self : (x.set d n k).entry d n = k := by simp [set]

theorem set_entry_of_ne (h : ¬ (e = d ∧ m = n)) : (x.set d n k).entry e m = x.entry e m := by
  by_cases he : e = d
  · subst he
    have hm : m ≠ n := fun hm => h ⟨rfl, hm⟩
    simp [set, hm]
  · simp [set, he]

omit [DecidableEq δ] in
theorem look_of_ne {dots : ν} (hown : n ≠ x.own d) (hup : n ≠ dots) : x.look dots d n = x.entry d n := by
  rw [look, if_neg hown, if_neg hup]

omit [DecidableEq δ] in
/-- The two names that come first are those of directories. -/
theorem entry_of_look {dots : ν} {b : β} (h : x.look dots d n = some (.file b)) : x.entry d n = some (.file b) := by
  unfold look at h
  split at h
  · cases h
  · split at h
    · cases h
    · exact h

/-- A directory with an entry is not the one that a request removes or makes, so its other entries stay. -/
theorem Changes.kept (h : x.Changes d n y) (he : e ∈ x.dirs) (hne : ¬ (e = d ∧ m = n)) {a : Node δ β}
    (hm : x.entry e m = some a) : e ∈ y.dirs ∧ y.entry e m = some a := by
  cases h with
  | newFile b _ => exact ⟨he, (set_entry_of_ne hne).trans hm⟩
  | newDir c _ hc =>
    have hec : e ≠ c := fun h => hc (h ▸ he)
    refine ⟨Finset.mem_insert_of_mem he, ?_⟩
    simp only [addDir, Function.update_of_ne hec]
    exact (set_entry_of_ne hne).trans hm
  | gone hempty =>
    refine ⟨?_, (set_entry_of_ne hne).trans hm⟩
    unfold remove
    split
    next c hc =>
      refine Finset.mem_erase.2 ⟨fun hec => ?_, he⟩
      rw [hec, hempty c hc m] at hm
      cases hm
    next => exact he

/-- **What is under a name stays** through any requests that do not take it away. A step changes nothing, adds
something under a free name, or is one that takes away. -/
theorem kept {ℓ : Type*} {step : Namespace δ ν β → ℓ → Namespace δ ν β → Prop} {takes : ℓ → Option (δ × ν)}
    (hstep : ∀ x l y, step x l y → y = x ∨
      ∃ d n, x.Changes d n y ∧ (x.entry d n = none ∨ takes l = some (d, n))) {ls : List ℓ}
    (h : Path step x ls y) (hd : d ∈ x.dirs) {a : Node δ β} (ha : x.entry d n = some a)
    (hls : ∀ l ∈ ls, takes l ≠ some (d, n)) : d ∈ y.dirs ∧ y.entry d n = some a := by
  induction h with
  | nil => exact ⟨hd, ha⟩
  | cons h₁ _ ih =>
    obtain ⟨hl, hls⟩ := List.forall_mem_cons.1 hls
    obtain rfl | ⟨d', n', hch, hfree⟩ := hstep _ _ _ h₁
    · exact ih hd ha hls
    · have hne : ¬ (d = d' ∧ n = n') := by
        rintro ⟨rfl, rfl⟩
        rcases hfree with hfree | htakes
        · rw [ha] at hfree
          cases hfree
        · exact hl htakes
      obtain ⟨hd₁, ha₁⟩ := hch.kept hd hne ha
      exact ih hd₁ ha₁ hls

end Namespace

end Lib
