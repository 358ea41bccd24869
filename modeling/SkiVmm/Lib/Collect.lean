import Mathlib.Data.List.Induction
import Mathlib.Data.List.Nodup
import SkiVmm.Lib.Hashed

/-!
# `Lib.Collect` — entries that collect inputs

A table of entries, one for each key, in an array with a counter (`Filled`). An input changes the entry of its key, or
takes a new cell for it (`Filled.touch`). `Touched` is what a sequence of inputs leaves in each cell: what the cell held
before the table was emptied, changed by the inputs with its key, in their order.
-/

namespace SkiVmm.Lib

/-- A new cell that is written to at once. -/
theorem Filled.modify_push {α : Type} (a : Filled α) (fill f : α → α) :
    (a.push fill).modify a.used f = a.push fun c => f (fill c) := by
  unfold Filled.push Filled.modify
  simp only [Function.update_self, Function.update_idem]

/-! ## The keys of a table -/

/-- The members of a list, each once, in the order in which they come. -/
def firsts {κ : Type} [DecidableEq κ] (l : List κ) : List κ := l.foldl (fun l k => if k ∈ l then l else l ++ [k]) []

section Firsts
variable {κ : Type} [DecidableEq κ]

theorem firsts_concat (l : List κ) (k : κ) :
    firsts (l ++ [k]) = if k ∈ firsts l then firsts l else firsts l ++ [k] := by
  unfold firsts
  rw [List.foldl_append]
  rfl

theorem nodup_firsts (l : List κ) : (firsts l).Nodup := by
  induction l using List.reverseRecOn with
  | nil => exact List.nodup_nil
  | append_singleton l k ih =>
    rw [firsts_concat]
    split_ifs with hk
    · exact ih
    · exact List.concat_eq_append ▸ ih.concat hk

theorem mem_firsts {l : List κ} {k : κ} : k ∈ firsts l ↔ k ∈ l := by
  induction l using List.reverseRecOn with
  | nil => exact Iff.rfl
  | append_singleton l k' ih =>
    rw [firsts_concat, List.mem_append, List.mem_singleton]
    split_ifs with hk
    · rw [ih]
      refine ⟨.inl, ?_⟩
      rintro (h | rfl)
      · exact h
      · exact ih.mp hk
    · rw [List.mem_append, List.mem_singleton, ih]

end Firsts

/-! ## Inputs -/

section Touch
variable {ι κ α : Type} [DecidableEq κ] (key : α → κ) (k : ι → κ) (enter update : ι → α → α)

/-- Change the entry with the key of `x`, or take a new cell for it. -/
def Filled.touch (a : Filled α) (x : ι) : Filled α :=
  match a.entries.findIdx? fun e => key e = k x with
  | some i => a.modify i (update x)
  | none => a.push (enter x)

/-- What inputs make of one cell: the first one takes it, the others change it. -/
def collect (c : α) : List ι → α
  | [] => c
  | x :: xs => xs.foldl (fun c x => update x c) (enter x c)

theorem collect_concat (c : α) {xs : List ι} (hne : xs ≠ []) (x : ι) :
    collect enter update c (xs ++ [x]) = update x (collect enter update c xs) := by
  cases xs with
  | nil => exact absurd rfl hne
  | cons y xs =>
    show (xs ++ [x]).foldl _ _ = _
    rw [List.foldl_append]
    rfl

/-- The array after the inputs `xs`, when it was empty before and its cells held `cells`. -/
structure Touched (cells : Nat → α) (xs : List ι) (a : Filled α) : Prop where
  keys : a.entries.map key = firsts (xs.map k)
  collected : ∀ i < a.used, a.cells i = collect enter update (cells i) (xs.filter fun x => k x = key (a.cells i))
  stale : ∀ i, a.used ≤ i → a.cells i = cells i

variable {key k enter update} {cells : Nat → α} {xs : List ι} {x : ι} {a : Filled α}

theorem touched_clear (a : Filled α) : Touched key k enter update a.cells [] a.clear :=
  ⟨rfl, fun i hi => absurd hi (Nat.not_lt_zero i), fun _ _ => rfl⟩

/-- An input with another key, and one with the key. -/
theorem filter_concat_of_ne {key' : κ} (hne : k x ≠ key') :
    (xs ++ [x]).filter (fun x => k x = key') = xs.filter fun x => k x = key' := by
  rw [List.filter_append, List.filter_cons_of_neg (by simpa using hne), List.filter_nil, List.append_nil]

theorem filter_concat_of_eq {key' : κ} (heq : k x = key') :
    (xs ++ [x]).filter (fun x => k x = key') = (xs.filter fun x => k x = key') ++ [x] := by
  rw [List.filter_append, List.filter_cons_of_pos (by simpa using heq), List.filter_nil]

section Touched
variable (h : Touched key k enter update cells xs a)
include h

theorem Touched.used_eq : a.used = (firsts (xs.map k)).length := by
  rw [← h.keys, List.length_map, Filled.length_entries]

/-- An entry has the key at its place. -/
theorem Touched.getElem?_keys {i : Nat} (hi : i < a.used) : (firsts (xs.map k))[i]? = some (key (a.cells i)) := by
  rw [← h.keys, List.getElem?_map, Filled.getElem?_entries hi, Option.map_some]

theorem Touched.eq_of_key_eq {i j : Nat} (hi : i < a.used) (hj : j < a.used)
    (heq : key (a.cells i) = key (a.cells j)) : i = j := by
  have hkeys : (firsts (xs.map k))[i]? = (firsts (xs.map k))[j]? := by
    rw [h.getElem?_keys hi, h.getElem?_keys hj, heq]
  exact (List.getElem?_inj (h.used_eq ▸ hi) (nodup_firsts _)).mp hkeys

/-- Some input has the key of an entry. -/
theorem Touched.filter_ne_nil {i : Nat} (hi : i < a.used) : xs.filter (fun x => k x = key (a.cells i)) ≠ [] := by
  have hmem : key (a.cells i) ∈ xs.map k := mem_firsts.mp (List.mem_of_getElem? (h.getElem?_keys hi))
  obtain ⟨x, hx, hkx⟩ := List.mem_map.mp hmem
  exact List.ne_nil_of_mem (List.mem_filter.mpr ⟨hx, by simpa using hkx⟩)

/-- An input whose key has an entry. -/
theorem Touched.modify {i : Nat} (hi : i < a.used) (hkey : key (a.cells i) = k x)
    (hupdate : ∀ c, key (update x c) = key c) :
    Touched key k enter update cells (xs ++ [x]) (a.modify i (update x)) := by
  have hcell (j : Nat) : (a.modify i (update x)).cells j = if j = i then update x (a.cells i) else a.cells j :=
    Function.update_apply _ _ _ _
  have hkeys (j : Nat) : key ((a.modify i (update x)).cells j) = key (a.cells j) := by
    rw [hcell]
    split_ifs with hji
    · rw [hupdate, hji]
    · rfl
  refine ⟨?_, ?_, ?_⟩
  · have hold : k x ∈ firsts (xs.map k) := hkey ▸ List.mem_of_getElem? (h.getElem?_keys hi)
    rw [List.map_append, List.map_singleton, firsts_concat, if_pos hold, ← h.keys]
    unfold Filled.entries
    rw [List.map_map, List.map_map]
    exact List.map_congr_left fun j _ => hkeys j
  · intro j hj
    have hj : j < a.used := hj
    rw [hkeys j, hcell j]
    split_ifs with hji
    · rw [hji, filter_concat_of_eq hkey.symm, collect_concat enter update _ (h.filter_ne_nil hi), ← h.collected i hi]
    · have hne : k x ≠ key (a.cells j) := fun heq => hji (h.eq_of_key_eq hj hi (heq.symm.trans hkey.symm))
      rw [filter_concat_of_ne hne]
      exact h.collected j hj
  · intro j hj
    have hj : a.used ≤ j := hj
    rw [hcell j, if_neg (by omega)]
    exact h.stale j hj

/-- An input with a new key. -/
theorem Touched.push (hnew : k x ∉ firsts (xs.map k)) (henter : ∀ c, key (enter x c) = k x) :
    Touched key k enter update cells (xs ++ [x]) (a.push (enter x)) := by
  refine ⟨?_, ?_, ?_⟩
  · rw [List.map_append, List.map_singleton, firsts_concat, if_neg hnew, Filled.entries_push, List.map_append,
      List.map_singleton, henter, h.keys]
  · intro j hj
    have hj : j < a.used + 1 := hj
    rw [Filled.cells_push]
    split_ifs with hlast
    · have hnone : xs.filter (fun y => k y = k x) = [] := by
        rw [List.filter_eq_nil_iff]
        intro y hy heq
        exact hnew (mem_firsts.mpr (List.mem_map.mpr ⟨y, hy, by simpa using heq⟩))
      rw [henter, filter_concat_of_eq rfl, hnone, hlast, h.stale a.used (Nat.le_refl _)]
      rfl
    · have hj' : j < a.used := by omega
      have hne : k x ≠ key (a.cells j) := fun heq => hnew (heq ▸ List.mem_of_getElem? (h.getElem?_keys hj'))
      rw [filter_concat_of_ne hne]
      exact h.collected j hj'
  · intro j hj
    have hj : a.used + 1 ≤ j := hj
    rw [Filled.cells_push, if_neg (by omega)]
    exact h.stale j (by omega)

/-- **One more input.** -/
theorem Touched.touch (hupdate : ∀ c, key (update x c) = key c) (henter : ∀ c, key (enter x c) = k x) :
    Touched key k enter update cells (xs ++ [x]) (a.touch key k enter update x) := by
  unfold Filled.touch
  cases hfind : a.entries.findIdx? fun e => key e = k x with
  | some i =>
    obtain ⟨hlt, hkey, -⟩ := List.findIdx?_eq_some_iff_getElem.mp hfind
    have hi : i < a.used := by rwa [Filled.length_entries] at hlt
    refine h.modify hi ?_ hupdate
    have hget := Filled.getElem?_entries hi
    rw [List.getElem?_eq_getElem hlt] at hget
    rw [← Option.some.inj hget]
    exact of_decide_eq_true hkey
  | none =>
    refine h.push ?_ henter
    rw [← h.keys]
    intro hmem
    obtain ⟨e, he, hke⟩ := List.mem_map.mp hmem
    have hnot := List.findIdx?_eq_none_iff.mp hfind e he
    simp [hke] at hnot

end Touched

end Touch

end SkiVmm.Lib
