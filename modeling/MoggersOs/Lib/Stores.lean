import Mathlib.Data.List.Nodup
import Mathlib.Logic.Function.Basic

/-!
# Stores in a row

`assign d v l f` stores the values `v i` to the cells `d i`, one after another in the order of `l`. `move d s l f`
reads each value from the cell `s i` when its turn comes. Where no cell is read after a store to it, the moves are
the assignment of the values that the cells held at first (`move_eq_assign`): a copy may be made in place.
-/

namespace Lib

variable {ι α β : Type*} [DecidableEq α]

def assign (d : ι → α) (v : ι → β) (l : List ι) (f : α → β) : α → β :=
  l.foldl (fun g i => Function.update g (d i) (v i)) f

def move (d s : ι → α) (l : List ι) (f : α → β) : α → β :=
  l.foldl (fun g i => Function.update g (d i) (g (s i))) f

/-- No cell of the list is read after a store to it. -/
def ReadsFirst (d s : ι → α) (l : List ι) : Prop := l.Pairwise fun i j => s j ≠ d i

variable {d s : ι → α} {v v' : ι → β} {l : List ι} {f : α → β} {i : ι} {a : α}

@[simp] theorem assign_cons : assign d v (i :: l) f = assign d v l (Function.update f (d i) (v i)) := rfl

@[simp] theorem assign_snoc : assign d v (l ++ [i]) f = Function.update (assign d v l f) (d i) (v i) := by
  simp [assign]

theorem assign_congr (h : ∀ i ∈ l, v i = v' i) : assign d v l f = assign d v' l f := by
  induction l generalizing f with
  | nil => rfl
  | cons i l ih =>
    rw [assign_cons, assign_cons, h i List.mem_cons_self]
    exact ih fun j hj => h j (List.mem_cons_of_mem i hj)

/-- Every other cell keeps its value. -/
theorem assign_of_notMem (h : ∀ i ∈ l, d i ≠ a) : assign d v l f a = f a := by
  induction l generalizing f with
  | nil => rfl
  | cons i l ih =>
    rw [assign_cons, ih fun j hj => h j (List.mem_cons_of_mem i hj),
      Function.update_of_ne (h i List.mem_cons_self).symm]

theorem assign_of_mem (hd : (l.map d).Nodup) (hi : i ∈ l) : assign d v l f (d i) = v i := by
  induction l generalizing f with
  | nil => cases hi
  | cons j l ih =>
    obtain ⟨hj, hl⟩ := List.nodup_cons.1 hd
    rw [assign_cons]
    rcases List.mem_cons.1 hi with rfl | hi
    · rw [assign_of_notMem fun k hk he => hj (List.mem_map.2 ⟨k, hk, he⟩), Function.update_self]
    · exact ih hl hi

@[simp] theorem move_cons : move d s (i :: l) f = move d s l (Function.update f (d i) (f (s i))) := rfl

theorem move_eq_assign (h : ReadsFirst d s l) : move d s l f = assign d (fun i => f (s i)) l f := by
  induction l generalizing f with
  | nil => rfl
  | cons i l ih =>
    obtain ⟨hi, hl⟩ := List.pairwise_cons.1 h
    rw [move_cons, ih hl, assign_cons]
    exact assign_congr fun j hj => Function.update_of_ne (hi j hj) _ _

end Lib
