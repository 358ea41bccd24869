import Mathlib.Data.List.Rotate
import Mathlib.Data.Nat.ModEq

/-!
# `Lib.Ring` — circular buffers read as lists

`cells f n s` lists the `n` slots of a circular buffer `f` in order, beginning with slot `s` and wrapping
around. Moving the beginning rotates the list (`cells_add`), and `cells_turn` is what one step of a log does
whose newest entry is the last in the list: an entry is changed and becomes the newest, and those it overtakes
are changed too.
-/

namespace SkiVmm.Lib.Ring

variable {α : Type} {f g : Nat → α} {n s : Nat}

/-- The slots of the buffer in order, beginning with slot `s`. -/
def cells (f : Nat → α) (n s : Nat) : List α := (List.range n).map fun i => f ((s + i) % n)

@[simp] theorem length_cells (f : Nat → α) (n s : Nat) : (cells f n s).length = n := by simp [cells]

@[simp] theorem getElem_cells {i : Nat} (h : i < (cells f n s).length) :
    (cells f n s)[i] = f ((s + i) % n) := by simp [cells]

theorem mem_cells {a : α} : a ∈ cells f n s ↔ ∃ i < n, f ((s + i) % n) = a := by simp [cells]

/-- Beginning later rotates the list. -/
theorem cells_add (f : Nat → α) (n s k : Nat) : cells f n (s + k) = (cells f n s).rotate k := by
  refine List.ext_getElem (by simp) ?_
  intro i h₁ h₂
  rw [List.getElem_rotate, getElem_cells, getElem_cells, length_cells, Nat.add_mod_mod]
  congr 2
  omega

theorem cells_mod_add (f : Nat → α) (n s k : Nat) : cells f n (s % n + k) = cells f n (s + k) := by
  unfold cells
  refine List.map_congr_left ?_
  intro i _
  rw [Nat.add_assoc, Nat.add_assoc, Nat.mod_add_mod]

/-- Every slot is somewhere in the list. -/
theorem exists_index {i : Nat} (hi : i < n) (s : Nat) : ∃ j < n, (s + j) % n = i := by
  have hs := Nat.mod_lt s (show 0 < n by omega)
  refine ⟨(i + (n - s % n)) % n, Nat.mod_lt _ (by omega), ?_⟩
  have : (s + (i + (n - s % n)) % n) % n = (s % n + (i + (n - s % n))) % n := by
    rw [Nat.add_mod_mod, Nat.mod_add_mod]
  rw [this, show s % n + (i + (n - s % n)) = i + n by omega, Nat.add_mod_right, Nat.mod_eq_of_lt hi]

/-- Different places in the list are different slots. -/
theorem index_unique {i j : Nat} (hi : i < n) (hj : j < n) (h : (s + i) % n = (s + j) % n) : i = j := by
  have hi' : i % n = i := Nat.mod_eq_of_lt hi
  have hj' : j % n = j := Nat.mod_eq_of_lt hj
  rw [← hi', ← hj']
  exact Nat.ModEq.add_left_cancel' s h

/-- **Turning the ring.** The entry at place `i` becomes `x` and the newest; `u` is applied to the entries
    before it, those after it stay. -/
theorem cells_turn {u : α → α} {x : α} {i : Nat} (hi : i < n)
    (hbefore : ∀ j < i, g ((s + j) % n) = u (f ((s + j) % n))) (hat : g ((s + i) % n) = x)
    (hafter : ∀ j, i < j → j < n → g ((s + j) % n) = f ((s + j) % n)) :
    cells g n (s + (i + 1)) = (cells f n s).drop (i + 1) ++ ((cells f n s).take i).map u ++ [x] := by
  have hcells : cells g n s = ((cells f n s).take i).map u ++ x :: (cells f n s).drop (i + 1) := by
    refine List.ext_getElem (by simp; omega) ?_
    intro j h₁ h₂
    rw [length_cells] at h₁
    rw [getElem_cells]
    rcases Nat.lt_trichotomy j i with hlt | heq | hgt
    · rw [List.getElem_append_left (by simp; omega), List.getElem_map, List.getElem_take, getElem_cells,
        hbefore j hlt]
    · subst heq
      rw [List.getElem_append_right (by simp)]
      simp [hat, Nat.min_eq_left (Nat.le_of_lt hi)]
    · rw [List.getElem_append_right (by simp; omega)]
      obtain ⟨k, rfl⟩ : ∃ k, j = i + k + 1 := ⟨j - i - 1, by omega⟩
      have hidx : i + k + 1 - (List.map u (List.take i (cells f n s))).length = k + 1 := by
        simp
        omega
      simp only [hidx, List.getElem_cons_succ, List.getElem_drop, getElem_cells]
      rw [hafter _ hgt h₁]
      congr 2
      omega
  have hlen : (((cells f n s).take i).map u ++ [x]).length = i + 1 := by
    simp
    omega
  rw [cells_add, hcells, ← List.singleton_append, ← List.append_assoc,
    List.rotate_eq_drop_append_take (by simp; omega), List.drop_left' hlen, List.take_left' hlen]
  rw [List.append_assoc]

end SkiVmm.Lib.Ring
