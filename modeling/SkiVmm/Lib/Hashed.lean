import Mathlib.Data.List.Basic
import Mathlib.Logic.Function.Basic

/-!
# `Lib.Hashed` — arrays with a counter, and hash tables over them

The allocation scheme of a program that never frees: the entries of a table are the first `used` cells of an
array, a new entry takes the next cell, and emptying the table sets the counter back without touching the
cells. `Filled` is such an array. `Hashed` is one with a hash table over it, which stores for each key the
index of its cell.

* `entries` is what a table holds: the cells below the counter. What lies above is stale.
* `Hashed.Ok` says that the hash table and the array hold the same entries, in the same order.
* `Hashed.Ok.find?_eq` is the specification of the look-up: the first entry with that key.
* `Hashed.findOrInsert` looks a key up and takes a new cell for it if it is not found; on the entries that is
  `findOrAppend`.
-/

namespace SkiVmm.Lib

/-- An array whose first `used` cells are in use. -/
structure Filled (α : Type) where
  cells : Nat → α
  used : Nat

namespace Filled

variable {α : Type}

/-- All cells hold `a`, and none is in use. -/
def empty (a : α) : Filled α := ⟨fun _ => a, 0⟩

/-- Take the next cell. `fill` writes the fields of the new entry over what the cell held before. -/
def push (fill : α → α) (a : Filled α) : Filled α where
  cells := Function.update a.cells a.used (fill (a.cells a.used))
  used := a.used + 1

/-- Write to cell `i`. -/
def modify (i : Nat) (f : α → α) (a : Filled α) : Filled α :=
  { a with cells := Function.update a.cells i (f (a.cells i)) }

/-- Give all cells back. They keep their contents. -/
def clear (a : Filled α) : Filled α := { a with used := 0 }

/-- The cells in use, in order. -/
def entries (a : Filled α) : List α := (List.range a.used).map a.cells

@[simp] theorem length_entries (a : Filled α) : a.entries.length = a.used := by
  simp [entries]

theorem mem_entries {a : Filled α} {x : α} : x ∈ a.entries ↔ ∃ i < a.used, a.cells i = x := by
  simp [entries]

theorem getElem?_entries {a : Filled α} {i : Nat} (h : i < a.used) : a.entries[i]? = some (a.cells i) := by
  simp [entries, h]

theorem cells_push (fill : α → α) (a : Filled α) (i : Nat) :
    (a.push fill).cells i = if i = a.used then fill (a.cells a.used) else a.cells i :=
  Function.update_apply _ _ _ _

/-- Writing the cell at the counter keeps what is read below it. -/
theorem map_range_update {β : Type} (g : Nat → α → β) (cells : Nat → α) (n : Nat) (x : α) :
    (List.range (n + 1)).map (fun i => g i (Function.update cells n x i))
      = (List.range n).map (fun i => g i (cells i)) ++ [g n x] := by
  rw [List.range_succ, List.map_append, List.map_singleton, Function.update_self]
  refine congrArg (· ++ _) (List.map_congr_left fun i hi => ?_)
  rw [Function.update_of_ne (Nat.ne_of_lt (List.mem_range.mp hi))]

@[simp] theorem entries_push (fill : α → α) (a : Filled α) :
    (a.push fill).entries = a.entries ++ [fill (a.cells a.used)] :=
  map_range_update (fun _ x => x) a.cells a.used _

theorem entries_modify (a : Filled α) (i : Nat) (f : α → α) : (a.modify i f).entries = a.entries.modify i f := by
  refine List.ext_getElem? fun j => ?_
  rw [List.getElem?_modify]
  by_cases hj : j < a.used
  · rw [getElem?_entries hj, getElem?_entries (show j < (a.modify i f).used from hj)]
    show some (Function.update a.cells i (f (a.cells i)) j) = some (if i = j then f (a.cells j) else a.cells j)
    by_cases hij : i = j
    · subst hij
      rw [Function.update_self, if_pos rfl]
    · rw [Function.update_of_ne (Ne.symm hij), if_neg hij]
  · have hlen : a.entries.length ≤ j := by
      rw [length_entries]
      omega
    have hlen' : (a.modify i f).entries.length ≤ j := by
      rw [length_entries]
      exact Nat.le_of_not_lt hj
    rw [List.getElem?_eq_none hlen, List.getElem?_eq_none hlen']
    rfl

end Filled

/-- The list model of a look-up that appends an entry when the key is not found. -/
def findOrAppend {κ α : Type} [DecidableEq κ] (key : α → κ) (l : List α) (k : κ) (limit : Nat) (a : α) :
    Option (List α × Nat) :=
  match l.findIdx? fun a => key a = k with
  | some i => some (l, i)
  | none => if l.length < limit then some (l ++ [a], l.length) else none

/-- Looking up does not see more of the entries than the key. -/
theorem findOrAppend_map {κ α β : Type} [DecidableEq κ] {key : α → κ} {key' : β → κ} {g : α → β}
    (hkey : ∀ a, key' (g a) = key a) (l : List α) (k : κ) (limit : Nat) (a : α) :
    findOrAppend key' (l.map g) k limit (g a)
      = (findOrAppend key l k limit a).map fun r => (r.1.map g, r.2) := by
  have hidx : (l.map g).findIdx? (fun b => key' b = k) = l.findIdx? fun a => key a = k := by
    rw [List.findIdx?_map]
    simp only [Function.comp_def, hkey]
  unfold findOrAppend
  rw [hidx, List.length_map]
  cases l.findIdx? fun a => key a = k with
  | some i => rfl
  | none => split_ifs <;> simp

/-- A list of keys to which those are appended that it does not have. -/
theorem map_fst_findOrAppend {κ : Type} [DecidableEq κ] (l : List κ) (k : κ) (limit : Nat) :
    (findOrAppend id l k limit k).map Prod.fst
      = if k ∈ l then some l else if l.length < limit then some (l ++ [k]) else none := by
  unfold findOrAppend
  cases h : l.findIdx? fun a => id a = k with
  | some i =>
    obtain ⟨hlt, hk, -⟩ := List.findIdx?_eq_some_iff_getElem.mp h
    have hmem : k ∈ l := by simpa using of_decide_eq_true hk ▸ List.getElem_mem hlt
    rw [if_pos hmem]
    rfl
  | none =>
    have hmem : k ∉ l := by
      intro hmem
      have hne := List.findIdx?_eq_none_iff.mp h k hmem
      simp at hne
    rw [if_neg hmem]
    split_ifs <;> rfl

/-- An array in use up to a counter, with a hash table over its cells. The table lists the key and the cell of
    each entry in the order in which the entries were added. -/
structure Hashed (κ α : Type) extends Filled α where
  table : List (κ × Nat)

namespace Hashed

variable {κ α : Type} [DecidableEq κ] (key : α → κ)

/-- No cell is in use, and the hash table has no entry. -/
def empty (a : α) : Hashed κ α := ⟨Filled.empty a, []⟩

/-- Look a key up: the first entry of the table that was added under the key and whose cell holds it. -/
def find? (h : Hashed κ α) (k : κ) : Option Nat :=
  (h.table.find? fun e => e.1 = k ∧ key (h.cells e.2) = k).map Prod.snd

/-- Take the next cell, fill it and add it to the hash table. -/
def insert (fill : α → α) (h : Hashed κ α) : Hashed κ α :=
  { h.toFilled.push fill with table := h.table ++ [(key (fill (h.cells h.used)), h.used)] }

/-- Look a key up, and take a new cell for it when it is not found; `none` when `limit` cells are in use. -/
def findOrInsert (h : Hashed κ α) (k : κ) (limit : Nat) (fill : α → α) : Option (Hashed κ α × Nat) :=
  match h.find? key k with
  | some i => some (h, i)
  | none => if h.used < limit then some (h.insert key fill, h.used) else none

/-- Write to cell `i`. -/
def modify (i : Nat) (f : α → α) (h : Hashed κ α) : Hashed κ α := { h with toFilled := h.toFilled.modify i f }

/-- Set the counter and the head of the hash table back. -/
def clear (h : Hashed κ α) : Hashed κ α := ⟨h.toFilled.clear, []⟩

/-- The hash table has the entries of the array, each under its key. -/
def Ok (h : Hashed κ α) : Prop := h.table = (List.range h.used).map fun i => (key (h.cells i), i)

variable {key} {h : Hashed κ α}

omit [DecidableEq κ] in
theorem ok_empty (a : α) : (empty a : Hashed κ α).Ok key := rfl

omit [DecidableEq κ] in
theorem ok_clear (h : Hashed κ α) : h.clear.Ok key := rfl

omit [DecidableEq κ] in
theorem Ok.insert (hok : h.Ok key) (fill : α → α) : (h.insert key fill).Ok key := by
  show h.table ++ [_] = _
  rw [hok]
  exact (Filled.map_range_update (fun i a => (key a, i)) h.cells h.used _).symm

omit [DecidableEq κ] in
/-- Writes that keep the key keep the table. -/
theorem Ok.modify (hok : h.Ok key) {i : Nat} {f : α → α} (hf : key (f (h.cells i)) = key (h.cells i)) :
    (h.modify i f).Ok key := by
  refine hok.trans (List.map_congr_left fun j _ => ?_)
  show (key (h.cells j), j) = (key (Function.update h.cells i (f (h.cells i)) j), j)
  by_cases hji : j = i
  · subst hji
    rw [Function.update_self, hf]
  · rw [Function.update_of_ne hji]

omit [DecidableEq κ] in
/-- A loop that writes to the first `n` cells. -/
theorem foldl_modify_range (h : Hashed κ α) (f : α → α) (n : Nat) :
    let h' := (List.range n).foldl (fun h i => h.modify i f) h
    h'.used = h.used ∧ h'.table = h.table ∧ ∀ i, h'.cells i = if i < n then f (h.cells i) else h.cells i := by
  induction n with
  | zero => exact ⟨rfl, rfl, fun _ => rfl⟩
  | succ n ih =>
    obtain ⟨hused, htable, hcells⟩ := ih
    rw [List.range_succ, List.foldl_append]
    refine ⟨hused, htable, fun i => ?_⟩
    by_cases hin : i = n
    · subst hin
      rw [if_pos (Nat.lt_succ_self i)]
      refine (Function.update_self _ _ _).trans ?_
      rw [hcells i, if_neg (Nat.lt_irrefl i)]
    · have hlt : i < n + 1 ↔ i < n := by omega
      refine (Function.update_of_ne hin _ _).trans ?_
      rw [hcells i]
      simp only [hlt]

omit [DecidableEq κ] in
/-- **A loop over all entries** that keeps their keys. -/
theorem Ok.foldl_modify (hok : h.Ok key) {f : α → α} (hf : ∀ a, key (f a) = key a) :
    let h' := (List.range h.used).foldl (fun h i => h.modify i f) h
    h'.Ok key ∧ h'.entries = h.entries.map f := by
  obtain ⟨hused, htable, hcells⟩ := foldl_modify_range h f h.used
  constructor
  · unfold Ok
    rw [htable, hused, hok]
    refine List.map_congr_left fun i hi => ?_
    rw [hcells i, if_pos (List.mem_range.mp hi), hf]
  · unfold Filled.entries
    rw [hused, List.map_map]
    refine List.map_congr_left fun i hi => ?_
    rw [hcells i, if_pos (List.mem_range.mp hi)]
    rfl

/-- **The look-up finds the first entry with the key.** -/
theorem Ok.find?_eq (hok : h.Ok key) (k : κ) :
    h.find? key k = h.entries.findIdx? fun a => key a = k := by
  have hfind : h.find? key k = (List.range h.used).find? fun i => key (h.cells i) = k := by
    unfold find?
    rw [hok, List.find?_map, Option.map_map]
    simp [Function.comp_def]
  rw [hfind]
  refine Option.ext fun i => ?_
  rw [List.find?_range_eq_some, List.findIdx?_eq_some_iff_getElem]
  simp [Filled.entries, and_left_comm]

/-- A key is found if and only if an entry has it. -/
theorem Ok.isSome_find?_iff (hok : h.Ok key) {k : κ} :
    (h.find? key k).isSome = true ↔ ∃ a ∈ h.entries, key a = k := by
  rw [hok.find?_eq, List.findIdx?_isSome, List.any_eq_true]
  simp

/-- What is found is an entry. -/
theorem Ok.lt_of_find? (hok : h.Ok key) {k : κ} {i : Nat} (hi : h.find? key k = some i) : i < h.used := by
  rw [hok.find?_eq] at hi
  obtain ⟨hlt, -⟩ := List.findIdx?_eq_some_iff_getElem.mp hi
  rwa [Filled.length_entries] at hlt

/-- **The look-up with insertion, on the entries**: what the new cell held before does not matter when all of
    it is written. -/
theorem Ok.findOrInsert_eq (hok : h.Ok key) (k : κ) (limit : Nat) {fill : α → α} {a : α}
    (hfill : ∀ x, fill x = a) :
    (h.findOrInsert key k limit fill).map (fun r => (r.1.entries, r.2))
      = findOrAppend key h.entries k limit a := by
  unfold Hashed.findOrInsert findOrAppend
  rw [← hok.find?_eq, Filled.length_entries]
  cases h.find? key k with
  | some i => rfl
  | none =>
    split_ifs
    · refine congrArg some (Prod.ext ?_ rfl)
      exact (Filled.entries_push fill h.toFilled).trans (by rw [hfill])
    · rfl

/-- A table of keys, to which those are added that it does not have. -/
theorem Ok.map_findOrInsert_id {h : Hashed κ κ} (hok : h.Ok id) (k : κ) (limit : Nat) :
    (h.findOrInsert id k limit fun _ => k).map (fun r => r.1.entries)
      = if k ∈ h.entries then some h.entries
        else if h.entries.length < limit then some (h.entries ++ [k]) else none := by
  have hentries : (h.findOrInsert id k limit fun _ => k).map (fun r => (r.1.entries, r.2))
      = findOrAppend id h.entries k limit k := hok.findOrInsert_eq k limit fun _ => rfl
  rw [← map_fst_findOrAppend, ← hentries, Option.map_map]
  rfl

/-- The index that the look-up returns is that of an entry. -/
theorem Ok.findOrInsert_ok (hok : h.Ok key) {k : κ} {limit : Nat} {fill : α → α} {h' : Hashed κ α} {i : Nat}
    (hi : h.findOrInsert key k limit fill = some (h', i)) : h'.Ok key ∧ i < h'.used := by
  unfold Hashed.findOrInsert at hi
  cases hfind : h.find? key k with
  | some j =>
    rw [hfind] at hi
    obtain ⟨rfl, rfl⟩ := Prod.mk.inj (Option.some.inj hi)
    exact ⟨hok, hok.lt_of_find? hfind⟩
  | none =>
    rw [hfind] at hi
    simp only at hi
    split_ifs at hi
    obtain ⟨rfl, rfl⟩ := Prod.mk.inj (Option.some.inj hi)
    exact ⟨hok.insert fill, Nat.lt_succ_self h.used⟩

end Hashed

end SkiVmm.Lib
