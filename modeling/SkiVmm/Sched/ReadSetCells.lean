import Mathlib.Algebra.Ring.Int.Defs
import SkiVmm.Lib.DList
import SkiVmm.Lib.Refine
import SkiVmm.Sched.ReadSetLru

/-!
# `Sched.ReadSetCells` — the array, the list and the hash of a read set

`ski_ma` as it lies in memory: an array of entries of which the first `n_entries` are in use, a doubly-linked list
through them and a hash over their addresses, with counts that are `int`s. The operations update the three structures
together. `Represents` relates the cells to the read sets of `Sched.Liveness`, and every operation keeps it.

## Contents
- **Model.** `Cells.skiLivenessInit`, `Cells.skiLivenessStore`, `Cells.skiLivenessIsPresent`, `Cells.skiLivenessReset`,
  `Cells.skiLivenessCopy`.
- **Refinement.** `Represents`, `Represents.store`, `Represents.copy`.
- **Results.** `readSet_is_lru` for every sequence of stores and resets, and `copy_preserves_entries`.
-/

namespace SkiVmm.Sched

open Lib
open Function (update)

/-! ## The cells -/

/-- `ski_ma`. The hash lists the key under which each entry was added, and its place in the array. -/
structure SkiMaCells where
  isInitialized : Bool
  entries : Nat → SkiMaEntry
  nEntries : Nat
  maxEntries : Nat
  list : Links Nat
  hash : List (Int × Nat)

namespace Cells

/-- An `int` increased by one. -/
def increment (x : Int) : Int := (x + 1).bmod (2 ^ 32)

/-- Another store to the address of an entry. -/
def bump (mae : SkiMaEntry) (memValue : Int) : SkiMaEntry :=
  let mae := if mae.memValue ≠ memValue then { mae with memValue := memValue, count := 0 } else mae
  { mae with count := increment mae.count }

/-- `HASH_FIND_INT`: an entry that was added under the key and holds it. -/
def hashFindInt (ma : SkiMaCells) (key : Int) : Option Nat :=
  (ma.hash.find? fun e : Int × Nat => e.1 = key ∧ (ma.entries e.2).memAddress = key).map Prod.snd

/-- `ski_liveness_init`, on any memory; `none` when its assertion fails. -/
def skiLivenessInit (maxEntries : Nat) : Option SkiMaCells :=
  if maxEntries ≤ maEntriesMax then
    some { isInitialized := true
           entries := fun _ => { count := 0, eip := 0, memAddress := 0, memValue := 0 }
           nEntries := 0, maxEntries := maxEntries, list := Links.empty, hash := [] }
  else none

/-- `ski_liveness_store`; `none` when it follows a `NULL` pointer. -/
def skiLivenessStore (ma : SkiMaCells) (eip memAddress memValue : Int) : Option (SkiMaCells × Int) :=
  if !ma.isInitialized then some (ma, 0)
  else
    let fresh : SkiMaEntry := { count := 1, eip := eip, memAddress := memAddress, memValue := memValue }
    match hashFindInt ma memAddress with
    | some i =>
      let mae := bump (ma.entries i) memValue
      -- move the entry to the end of the list
      (ma.list.delete i).bind fun list => (list.append i).map fun list =>
        ({ ma with entries := update ma.entries i mae, list := list }, mae.count)
    | none =>
      if ma.nEntries < ma.maxEntries then
        (ma.list.append ma.nEntries).map fun list =>
          ({ ma with entries := update ma.entries ma.nEntries fresh, nEntries := ma.nEntries + 1, list := list,
                     hash := ma.hash ++ [(memAddress, ma.nEntries)] }, 1)
      else
        -- reuse the oldest entry
        ma.list.head.bind fun i => (ma.list.delete i).bind fun list => (list.append i).map fun list =>
          ({ ma with entries := update ma.entries i fresh, list := list,
                     hash := (ma.hash.filter fun e : Int × Nat => e.2 ≠ i) ++ [(memAddress, i)] }, 1)

/-- `ski_liveness_is_present` -/
def skiLivenessIsPresent (ma : SkiMaCells) (memAddress : Int) : Bool := (hashFindInt ma memAddress).isSome

/-- `ski_liveness_reset` -/
def skiLivenessReset (ma : SkiMaCells) : Option SkiMaCells :=
  if ma.isInitialized then skiLivenessInit ma.maxEntries else none

/-- The entries that `DL_FOREACH` goes through. -/
def listed (ma : SkiMaCells) : Option (List SkiMaEntry) :=
  (ma.list.foreach maEntriesMax ma.list.head).map fun slots => slots.map ma.entries

/-- `ski_liveness_copy` into a destination that holds `_dest`. -/
def skiLivenessCopy (_dest src : SkiMaCells) : Option SkiMaCells :=
  if src.isInitialized then do
    let dest ← skiLivenessInit src.maxEntries
    let entries ← listed src
    entries.foldlM (fun dest mae => (skiLivenessStore dest mae.eip mae.memAddress mae.memValue).map Prod.fst) dest
  else none

end Cells

/-! ## Refinement -/

/-- An entry whose count is an `int`. -/
def SkiMaEntry.wrapped (e : SkiMaEntry) : SkiMaEntry := { e with count := e.count.bmod (2 ^ 32) }

/-- The cells hold the read set `ma`: the list goes through its slots in order, and the hash has every entry once,
    under its address. -/
structure Represents (c : SkiMaCells) (ma : SkiMa) : Prop where
  initialized : c.isInitialized = ma.isInitialized
  max_eq : c.maxEntries = ma.maxEntries
  n_eq : c.nEntries = ma.entries.length
  list : c.list.Lists ma.order
  entry : ∀ i e, ma.entries[i]? = some e → c.entries i = e.wrapped
  hash_iff : ∀ a i, (a, i) ∈ c.hash ↔ ∃ e, ma.entries[i]? = some e ∧ e.memAddress = a
  hash_nodup : c.hash.Nodup

section Refinement
variable {c : SkiMaCells} {ma : SkiMa} {a : Int}

theorem represents_init {m : Nat} (hm : m ≤ maEntriesMax) :
    ∃ c, Cells.skiLivenessInit m = some c ∧ Represents c (skiLivenessInit m) := by
  unfold Cells.skiLivenessInit
  rw [if_pos hm]
  refine ⟨_, rfl, rfl, rfl, rfl, Links.lists_nil rfl, ?_, ?_, List.nodup_nil⟩
  · intro i e hi
    cases hi
  · intro a i
    constructor
    · intro hmem
      cases hmem
    · rintro ⟨e, hi, -⟩
      cases hi

/-- **The hash finds the slot of an address.** -/
theorem Represents.hashFindInt_hit (h : Represents c ma) (hord : ma.Ordered) {i : Nat} {e : SkiMaEntry}
    (hi : ma.entries[i]? = some e) : Cells.hashFindInt c e.memAddress = some i := by
  have hmem : (e.memAddress, i) ∈ c.hash := (h.hash_iff _ _).mpr ⟨e, hi, rfl⟩
  have haddr : (c.entries i).memAddress = e.memAddress := by
    rw [h.entry i e hi]
    rfl
  unfold Cells.hashFindInt
  cases hfind : c.hash.find? fun e' : Int × Nat => e'.1 = e.memAddress ∧ (c.entries e'.2).memAddress = e.memAddress with
  | none =>
    have hnot := List.find?_eq_none.mp hfind _ hmem
    exact absurd (decide_eq_true ⟨rfl, haddr⟩) hnot
  | some pair =>
    obtain ⟨k, j⟩ := pair
    have hkey := List.find?_some hfind
    rw [decide_eq_true_eq] at hkey
    obtain rfl : k = e.memAddress := hkey.1
    obtain ⟨e', hj, heq⟩ := (h.hash_iff _ _).mp (List.mem_of_find?_eq_some hfind)
    exact congrArg some (hord.slot_unique hj hi heq)

theorem Represents.hashFindInt_miss (h : Represents c ma) (ha : a ∉ ma.addresses) : Cells.hashFindInt c a = none := by
  unfold Cells.hashFindInt
  rw [Option.map_eq_none_iff, List.find?_eq_none]
  rintro ⟨k, j⟩ hmem hkey
  obtain rfl : k = a := (of_decide_eq_true hkey).1
  obtain ⟨e, hj, heq⟩ := (h.hash_iff _ _).mp hmem
  exact ha (mem_addresses_iff.mpr ⟨j, e, hj, heq⟩)

theorem Represents.isPresent_iff (h : Represents c ma) (hord : ma.Ordered) :
    Cells.skiLivenessIsPresent c a = true ↔ a ∈ ma.addresses := by
  unfold Cells.skiLivenessIsPresent
  constructor
  · intro hsome
    by_contra ha
    rw [h.hashFindInt_miss ha] at hsome
    cases hsome
  · intro ha
    obtain ⟨i, e, hi, rfl⟩ := mem_addresses_iff.mp ha
    rw [h.hashFindInt_hit hord hi]
    rfl

/-- Another store to an address, as an `int` counts it. -/
theorem bump_wrapped (e : SkiMaEntry) (v : Int) : Cells.bump e.wrapped v = (e.bumped v).wrapped := by
  unfold Cells.bump SkiMaEntry.bumped
  by_cases hv : e.memValue ≠ v
  · have hv' : e.wrapped.memValue ≠ v := hv
    rw [if_pos hv, if_pos hv']
    rfl
  · have hv' : ¬ e.wrapped.memValue ≠ v := hv
    rw [if_neg hv, if_neg hv']
    unfold SkiMaEntry.wrapped Cells.increment
    simp only [Int.bmod_add_bmod]

/-- Writing entry `i` of the array. -/
theorem entry_update {entries : List SkiMaEntry} {cells : Nat → SkiMaEntry}
    (h : ∀ i e, entries[i]? = some e → cells i = e.wrapped) (i : Nat) (e : SkiMaEntry) :
    ∀ j e', (entries.set i e)[j]? = some e' → update cells i e.wrapped j = e'.wrapped := by
  intro j e' hj
  rw [List.getElem?_set] at hj
  split at hj
  · next heq =>
    subst heq
    split at hj
    · cases hj
      exact Function.update_self _ _ _
    · cases hj
  · next hne =>
    rw [Function.update_of_ne (Ne.symm hne)]
    exact h j e' hj

theorem getElem?_concat_eq_some {entries : List SkiMaEntry} {e e' : SkiMaEntry} {j : Nat}
    (h : (entries ++ [e])[j]? = some e') :
    (j < entries.length ∧ entries[j]? = some e') ∨ (j = entries.length ∧ e' = e) := by
  have hlt := (List.getElem?_eq_some_iff.mp h).1
  rw [List.length_append, List.length_singleton] at hlt
  rcases Nat.lt_succ_iff_lt_or_eq.mp hlt with hold | rfl
  · rw [List.getElem?_append_left hold] at h
    exact Or.inl ⟨hold, h⟩
  · rw [List.getElem?_concat_length] at h
    exact Or.inr ⟨rfl, (Option.some.inj h).symm⟩

theorem Represents.not_uninitialized (h : Represents c ma) (hord : ma.Ordered) : ¬ (!c.isInitialized) = true := by
  simp [h.initialized, hord.initialized]

/-- A store to an address that is found. -/
theorem Represents.store_hit (h : Represents c ma) (hord : ma.Ordered) {i : Nat} {e : SkiMaEntry}
    (hi : ma.entries[i]? = some e) (eip v : Int) :
    ∃ c', Cells.skiLivenessStore c eip e.memAddress v = some (c', (e.bumped v).count.bmod (2 ^ 32)) ∧
      Represents c' { ma with entries := ma.entries.set i (e.bumped v), order := ma.order.erase i ++ [i] } := by
  have hlt := (List.getElem?_eq_some_iff.mp hi).1
  obtain ⟨l₁, hdelete, hl₁⟩ := h.list.delete (hord.mem_order_iff.mpr hlt)
  obtain ⟨l₂, happend, hl₂⟩ := hl₁.append hord.order_nodup.not_mem_erase
  unfold Cells.skiLivenessStore
  rw [if_neg (h.not_uninitialized hord), h.hashFindInt_hit hord hi]
  dsimp only
  rw [hdelete, Option.bind_some, happend, Option.map_some, h.entry i e hi, bump_wrapped]
  refine ⟨_, rfl, h.initialized, h.max_eq, ?_, hl₂, entry_update h.entry i (e.bumped v), ?_, h.hash_nodup⟩
  · rw [List.length_set]
    exact h.n_eq
  · -- the address stays, and so does the hash
    intro b j
    rw [h.hash_iff]
    dsimp only
    rw [List.getElem?_set]
    split
    · next heq =>
      subst heq
      rw [hi]
      constructor
      · rintro ⟨e', he', rfl⟩
        cases he'
        exact ⟨_, rfl, SkiMaEntry.bumped_memAddress e v⟩
      · rintro ⟨e', he', rfl⟩
        cases he'
        exact ⟨e, rfl, (SkiMaEntry.bumped_memAddress e v).symm⟩
    · rfl

/-- A store into a free entry of the array. -/
theorem Represents.store_free (h : Represents c ma) (hord : ma.Ordered) (ha : a ∉ ma.addresses)
    (hroom : ma.entries.length < ma.maxEntries) (eip v : Int) :
    ∃ c', Cells.skiLivenessStore c eip a v = some (c', 1) ∧
      Represents c'
        { ma with entries := ma.entries ++ [{ count := 1, eip := eip, memAddress := a, memValue := v }],
                  order := ma.order ++ [ma.entries.length] } := by
  have hnew : ma.entries.length ∉ ma.order := fun hmem => absurd (hord.mem_order_iff.mp hmem) (Nat.lt_irrefl _)
  obtain ⟨l₁, happend, hl₁⟩ := h.list.append hnew
  have hroom' : c.nEntries < c.maxEntries := by
    rw [h.n_eq, h.max_eq]
    exact hroom
  unfold Cells.skiLivenessStore
  rw [if_neg (h.not_uninitialized hord), h.hashFindInt_miss ha]
  dsimp only
  rw [if_pos hroom', h.n_eq, happend, Option.map_some]
  refine ⟨_, rfl, h.initialized, h.max_eq, ?_, hl₁, ?_, ?_, ?_⟩
  · rw [List.length_append, List.length_singleton]
  · intro j e' hj
    rcases getElem?_concat_eq_some hj with ⟨hlt, hold⟩ | ⟨rfl, rfl⟩
    · exact (Function.update_of_ne (Nat.ne_of_lt hlt) _ _).trans (h.entry j e' hold)
    · exact Function.update_self _ _ _
  · intro b j
    rw [List.mem_append, List.mem_singleton, h.hash_iff]
    constructor
    · rintro (⟨e', he', rfl⟩ | heq)
      · exact ⟨e', (List.getElem?_append_left (List.getElem?_eq_some_iff.mp he').1).trans he', rfl⟩
      · cases heq
        exact ⟨_, List.getElem?_concat_length, rfl⟩
    · rintro ⟨e', he', rfl⟩
      rcases getElem?_concat_eq_some he' with ⟨-, hold⟩ | ⟨rfl, rfl⟩
      · exact Or.inl ⟨e', hold, rfl⟩
      · exact Or.inr rfl
  · refine List.nodup_append'.mpr ⟨h.hash_nodup, List.nodup_singleton _, ?_⟩
    rintro ⟨b, j⟩ hmem hnew'
    cases List.mem_singleton.mp hnew'
    obtain ⟨e', he', -⟩ := (h.hash_iff _ _).mp hmem
    exact absurd (List.getElem?_eq_some_iff.mp he').1 (Nat.lt_irrefl _)

/-- A store that uses the oldest entry again: its old key leaves the hash before the new one is added. -/
theorem Represents.store_evict (h : Represents c ma) (hord : ma.Ordered) (ha : a ∉ ma.addresses)
    (hfull : ma.entries.length = ma.maxEntries) {i : Nat} {rest : List Nat} (horder : ma.order = i :: rest)
    (eip v : Int) :
    ∃ c', Cells.skiLivenessStore c eip a v = some (c', 1) ∧
      Represents c'
        { ma with entries := ma.entries.set i { count := 1, eip := eip, memAddress := a, memValue := v },
                  order := rest ++ [i] } := by
  have hlt : i < ma.entries.length := hord.mem_order_iff.mp (horder ▸ List.mem_cons_self)
  have hrest : i ∉ rest := (List.nodup_cons.mp (horder ▸ hord.order_nodup)).1
  have hhead : c.list.head = some i := by rw [h.list.head_eq, horder, List.head?_cons]
  obtain ⟨l₁, hdelete, hl₁⟩ := h.list.delete (hord.mem_order_iff.mpr hlt)
  rw [horder, List.erase_cons_head] at hl₁
  obtain ⟨l₂, happend, hl₂⟩ := hl₁.append hrest
  have hfull' : ¬ c.nEntries < c.maxEntries := by
    rw [h.n_eq, h.max_eq]
    omega
  unfold Cells.skiLivenessStore
  rw [if_neg (h.not_uninitialized hord), h.hashFindInt_miss ha]
  dsimp only
  rw [if_neg hfull', hhead, Option.bind_some, hdelete, Option.bind_some, happend, Option.map_some]
  refine ⟨_, rfl, h.initialized, h.max_eq, ?_, hl₂, entry_update h.entry i _, ?_, ?_⟩
  · rw [List.length_set]
    exact h.n_eq
  · intro b j
    rw [List.mem_append, List.mem_singleton, List.mem_filter, h.hash_iff]
    dsimp only
    rw [List.getElem?_set]
    split
    · next heq =>
      subst heq
      constructor
      · rintro (⟨-, hne⟩ | heq)
        · simp at hne
        · cases heq
          exact ⟨_, rfl, rfl⟩
      · rintro ⟨e', he', rfl⟩
        cases he'
        exact Or.inr rfl
    · next hne =>
      constructor
      · rintro (⟨hold, -⟩ | heq)
        · exact hold
        · cases heq
          exact absurd rfl hne
      · intro hold
        exact Or.inl ⟨hold, by simpa using Ne.symm hne⟩
  · refine List.nodup_append'.mpr ⟨h.hash_nodup.filter _, List.nodup_singleton _, ?_⟩
    rintro ⟨b, j⟩ hmem hnew'
    cases List.mem_singleton.mp hnew'
    have hne := (List.mem_filter.mp hmem).2
    simp at hne

/-- **A store to the cells is one to the read set**, with the count as an `int`. -/
theorem Represents.store (h : Represents c ma) (hord : ma.Ordered) (hm : 0 < ma.maxEntries) (eip a v : Int) :
    ∃ c', Cells.skiLivenessStore c eip a v = some (c', (skiLivenessStore ma eip a v).2.bmod (2 ^ 32)) ∧
      Represents c' (skiLivenessStore ma eip a v).1 := by
  have hcase := skiLivenessStore_case hord hm eip a v
  generalize skiLivenessStore ma eip a v = r at hcase
  cases hcase with
  | hit i e hi ha =>
    subst ha
    exact h.store_hit hord hi eip v
  | free ha hroom => exact h.store_free hord ha hroom eip v
  | evict i rest ha hfull horder => exact h.store_evict hord ha hfull horder eip v

theorem Represents.reset (h : Represents c ma) (hord : ma.Ordered) (hmax : ma.maxEntries ≤ maEntriesMax) :
    ∃ c', Cells.skiLivenessReset c = some c' ∧ Represents c' (skiLivenessInit ma.maxEntries) := by
  obtain ⟨c', hinit, h'⟩ := represents_init hmax
  refine ⟨c', ?_, h'⟩
  unfold Cells.skiLivenessReset
  rw [if_pos (h.initialized.trans hord.initialized), h.max_eq, hinit]

/-- **The list goes through the entries of the read set.** -/
theorem Represents.foreach (h : Represents c ma) (hord : ma.Ordered) (hmax : ma.maxEntries ≤ maEntriesMax) :
    c.list.foreach maEntriesMax c.list.head = some ma.order := by
  refine h.list.foreach ?_
  rw [hord.order_perm.length_eq, List.length_range]
  exact hord.length_le.trans hmax

/-- A slot of the list, in the cells and in the read set. -/
theorem Represents.map_order (h : Represents c ma) (hord : ma.Ordered) :
    ma.order.map c.entries = ma.listed.map SkiMaEntry.wrapped := by
  unfold SkiMa.listed
  rw [List.map_filterMap, ← List.filterMap_eq_map]
  refine List.filterMap_congr fun i hi => ?_
  have hlt := hord.mem_order_iff.mp hi
  rw [Function.comp_apply, h.entry i _ (List.getElem?_eq_getElem hlt), List.getElem?_eq_getElem hlt, Option.map_some]

theorem Represents.map_address (h : Represents c ma) (hord : ma.Ordered) :
    ma.order.map (fun i => (c.entries i).memAddress) = ma.listedAddresses := by
  have hmap := congrArg (List.map SkiMaEntry.memAddress) (h.map_order hord)
  rw [List.map_map, List.map_map] at hmap
  exact hmap

theorem Represents.listed (h : Represents c ma) (hord : ma.Ordered) (hmax : ma.maxEntries ≤ maEntriesMax) :
    Cells.listed c = some (ma.listed.map SkiMaEntry.wrapped) := by
  unfold Cells.listed
  rw [h.foreach hord hmax, Option.map_some, h.map_order hord]

/-- **Array, list and hash describe the same entries.** -/
theorem Represents.hash_perm (h : Represents c ma) (hord : ma.Ordered) :
    c.hash.Perm (ma.order.map fun i => ((c.entries i).memAddress, i)) := by
  have hnodup : (ma.order.map fun i => ((c.entries i).memAddress, i)).Nodup :=
    hord.order_nodup.map fun i j heq => (Prod.mk.inj heq).2
  refine (List.perm_ext_iff_of_nodup h.hash_nodup hnodup).mpr ?_
  rintro ⟨a, i⟩
  rw [h.hash_iff, List.mem_map]
  constructor
  · rintro ⟨e, hi, rfl⟩
    refine ⟨i, hord.mem_order_iff.mpr (List.getElem?_eq_some_iff.mp hi).1, ?_⟩
    rw [h.entry i e hi]
    rfl
  · rintro ⟨j, hj, heq⟩
    obtain ⟨rfl, rfl⟩ := Prod.mk.inj heq
    have hlt := hord.mem_order_iff.mp hj
    refine ⟨_, List.getElem?_eq_getElem hlt, ?_⟩
    rw [h.entry j _ (List.getElem?_eq_getElem hlt)]
    rfl

/-- The stores of a copy. -/
theorem Represents.storeAll (h : Represents c ma) (hord : ma.Ordered) (hm : 0 < ma.maxEntries)
    (entries : List SkiMaEntry) :
    ∃ c', (entries.map SkiMaEntry.wrapped).foldlM (fun dest mae =>
        (Cells.skiLivenessStore dest mae.eip mae.memAddress mae.memValue).map Prod.fst) c = some c' ∧
      Represents c' (Sched.storeAll ma entries) := by
  induction entries generalizing c ma with
  | nil => exact ⟨c, rfl, h⟩
  | cons e entries ih =>
    obtain ⟨c₁, hstore, h₁⟩ := h.store hord hm e.eip e.memAddress e.memValue
    have hstore' : Cells.skiLivenessStore c e.wrapped.eip e.wrapped.memAddress e.wrapped.memValue
        = some (c₁, (skiLivenessStore ma e.eip e.memAddress e.memValue).2.bmod (2 ^ 32)) := hstore
    obtain ⟨c', hrest, h'⟩ := ih h₁ (hord.store hm e.eip e.memAddress e.memValue) (by
      rw [skiLivenessStore_maxEntries]
      exact hm)
    refine ⟨c', ?_, h'⟩
    rw [List.map_cons, List.foldlM_cons, hstore']
    exact hrest

/-- **A copy of the cells is one of the read set**, whatever the destination held. -/
theorem Represents.copy (h : Represents c ma) (hord : ma.Ordered) (hmax : ma.maxEntries ≤ maEntriesMax)
    (dest : SkiMaCells) :
    ∃ c', Cells.skiLivenessCopy dest c = some c' ∧ Represents c' (filledWith ma.maxEntries ma.listed) := by
  obtain ⟨c₀, hinit, h₀⟩ := represents_init hmax
  have hall : ∃ c', (ma.listed.map SkiMaEntry.wrapped).foldlM (fun dest mae =>
      (Cells.skiLivenessStore dest mae.eip mae.memAddress mae.memValue).map Prod.fst) c₀ = some c' ∧
        Represents c' (Sched.storeAll (skiLivenessInit ma.maxEntries) ma.listed) := by
    by_cases hm : 0 < ma.maxEntries
    · exact h₀.storeAll (ordered_init ma.maxEntries) hm ma.listed
    · have hnil : ma.listed = [] := by
        refine List.eq_nil_of_length_eq_zero ?_
        have hle := hord.length_le
        rw [hord.length_listed]
        omega
      rw [hnil]
      exact ⟨c₀, rfl, h₀⟩
  obtain ⟨c', hrun, h'⟩ := hall
  have hfilled : Sched.storeAll (skiLivenessInit ma.maxEntries) ma.listed = filledWith ma.maxEntries ma.listed :=
    storeAll_filledWith [] ma.listed hord.fitsInto
  refine ⟨c', ?_, hfilled ▸ h'⟩
  unfold Cells.skiLivenessCopy
  rw [if_pos (h.initialized.trans hord.initialized), h.max_eq, hinit, h.listed hord hmax]
  exact hrun

end Refinement

/-! ## Sequences of operations -/

/-- An operation on a read set. -/
inductive ReadSetOp where
  | store (eip memAddress memValue : Int)
  | reset
deriving DecidableEq, Repr

/-- One operation on the cells. -/
def Cells.apply (c : SkiMaCells) : ReadSetOp → Option SkiMaCells
  | .store eip memAddress memValue => (Cells.skiLivenessStore c eip memAddress memValue).map Prod.fst
  | .reset => Cells.skiLivenessReset c

/-- The stores since the last reset. -/
def afterOp (history : StoreHistory) : ReadSetOp → StoreHistory
  | .store _ memAddress memValue => history ++ [(memAddress, memValue)]
  | .reset => []

/-- The stores since the last reset of a sequence of operations. -/
def storesSinceReset (ops : List ReadSetOp) : StoreHistory := ops.foldl afterOp []

/-- The cells hold a read set of capacity `m` that has recorded `history`. -/
def HoldsHistory (m : Nat) (c : SkiMaCells) (history : StoreHistory) : Prop :=
  ∃ ma : SkiMa, Represents c ma ∧ Records ma history ∧ ma.maxEntries = m

section Runs
variable {m : Nat} {c : SkiMaCells} {history : StoreHistory}

theorem HoldsHistory.reset (h : HoldsHistory m c history) (hmax : m ≤ maEntriesMax) :
    ∃ c', Cells.skiLivenessReset c = some c' ∧ HoldsHistory m c' [] := by
  obtain ⟨ma, href, hrec, rfl⟩ := h
  obtain ⟨c', hreset, href'⟩ := href.reset hrec.ordered hmax
  exact ⟨c', hreset, _, href', records_init _, rfl⟩

theorem HoldsHistory.store (h : HoldsHistory m c history) (hm : 0 < m) (eip a v : Int) :
    ∃ c', Cells.skiLivenessStore c eip a v
        = some (c', (storesSince m (history ++ [(a, v)]) a v : Int).bmod (2 ^ 32)) ∧
      HoldsHistory m c' (history ++ [(a, v)]) := by
  obtain ⟨ma, href, hrec, rfl⟩ := h
  obtain ⟨c', hstore, href'⟩ := href.store hrec.ordered hm eip a v
  obtain ⟨hrec', hcount⟩ := hrec.store hm eip a v
  rw [hcount] at hstore
  exact ⟨c', hstore, _, href', hrec', skiLivenessStore_maxEntries ma eip a v⟩

/-- **One operation** is recorded. -/
theorem HoldsHistory.apply (h : HoldsHistory m c history) (hm : 0 < m) (hmax : m ≤ maEntriesMax) (op : ReadSetOp) :
    ∃ c', Cells.apply c op = some c' ∧ HoldsHistory m c' (afterOp history op) := by
  cases op with
  | store eip a v =>
    obtain ⟨c', hstore, h'⟩ := h.store hm eip a v
    refine ⟨c', ?_, h'⟩
    rw [Cells.apply, hstore, Option.map_some]
  | reset => exact h.reset hmax

/-- **Every sequence of operations** is. -/
theorem HoldsHistory.run (h : HoldsHistory m c history) (hm : 0 < m) (hmax : m ≤ maEntriesMax)
    (ops : List ReadSetOp) :
    ∃ c', ops.foldlM Cells.apply c = some c' ∧ HoldsHistory m c' (ops.foldl afterOp history) := by
  induction ops generalizing c history with
  | nil => exact ⟨c, rfl, h⟩
  | cons op ops ih =>
    obtain ⟨c₁, hop, h₁⟩ := h.apply hm hmax op
    obtain ⟨c', hrest, h'⟩ := ih h₁
    refine ⟨c', ?_, h'⟩
    rw [List.foldlM_cons, hop]
    exact hrest

theorem holdsHistory_init (hmax : m ≤ maEntriesMax) :
    ∃ c, Cells.skiLivenessInit m = some c ∧ HoldsHistory m c [] := by
  obtain ⟨c, hinit, href⟩ := represents_init hmax
  exact ⟨c, hinit, _, href, records_init m, rfl⟩

end Runs

/-- **A read set is a cache with run counters.** For every capacity from 1 to 20 and every sequence of stores and
    resets, the list of the read set goes through the last `m` distinct addresses stored since the last reset, in the
    order of their latest use; these are the addresses that are present. The list has the first `n_entries` entries of
    the array, and the hash has the same ones under their addresses. A store of `v` at `a` returns the number of
    stores at `a` since its insertion and since another value was stored there, as an `int`. -/
theorem readSet_is_lru {m : Nat} (hm : 1 ≤ m) (hmax : m ≤ maEntriesMax) (ops : List ReadSetOp) :
    ∃ (c₀ c : SkiMaCells) (slots : List Nat),
      Cells.skiLivenessInit m = some c₀ ∧ ops.foldlM Cells.apply c₀ = some c ∧
      c.list.foreach maEntriesMax c.list.head = some slots ∧
      slots.map (fun i => (c.entries i).memAddress) = recentAddresses m (storesSinceReset ops) ∧
      (∀ a, Cells.skiLivenessIsPresent c a = true ↔ a ∈ recentAddresses m (storesSinceReset ops)) ∧
      slots.Perm (List.range c.nEntries) ∧
      c.hash.Perm (slots.map fun i => ((c.entries i).memAddress, i)) ∧
      ∀ eip a v, ∃ (c' : SkiMaCells) (count : Int), Cells.skiLivenessStore c eip a v = some (c', count) ∧
        count = (storesSince m (storesSinceReset ops ++ [(a, v)]) a v : Int).bmod (2 ^ 32) ∧
        (storesSince m (storesSinceReset ops ++ [(a, v)]) a v < 2 ^ 31 →
          count = storesSince m (storesSinceReset ops ++ [(a, v)]) a v) := by
  obtain ⟨c₀, hinit, h₀⟩ := holdsHistory_init hmax
  obtain ⟨c, hrun, h⟩ := h₀.run hm hmax ops
  have hstores := fun eip a v => h.store hm eip a v
  obtain ⟨ma, href, hrec, rfl⟩ := h
  refine ⟨c₀, c, ma.order, hinit, hrun, href.foreach hrec.ordered hmax, ?_, ?_, ?_, href.hash_perm hrec.ordered, ?_⟩
  · exact (href.map_address hrec.ordered).trans hrec.listed
  · intro a
    rw [href.isPresent_iff hrec.ordered, hrec.mem_addresses_iff]
    rfl
  · rw [href.n_eq]
    exact hrec.ordered.order_perm
  · intro eip a v
    obtain ⟨c', hstore, -⟩ := hstores eip a v
    refine ⟨c', _, hstore, rfl, fun hlt => ?_⟩
    unfold storesSinceReset at hlt ⊢
    exact Int.bmod_eq_of_le (by omega) (by omega)

/-- After two stores each at two addresses and one at a third one, a read set of capacity 2 holds the last two. -/
theorem readSet_is_lru_two :
    ∃ c₀ c : SkiMaCells, Cells.skiLivenessInit 2 = some c₀ ∧
      [ReadSetOp.store 1 10 5, .store 2 20 5, .store 3 10 5, .store 4 30 5].foldlM Cells.apply c₀ = some c ∧
      Cells.skiLivenessIsPresent c 10 = true ∧ Cells.skiLivenessIsPresent c 30 = true ∧
      ¬ Cells.skiLivenessIsPresent c 20 = true := by
  obtain ⟨c₀, c, -, hinit, hrun, -, -, hpresent, -⟩ := readSet_is_lru (m := 2) (by decide) (by decide)
    [ReadSetOp.store 1 10 5, .store 2 20 5, .store 3 10 5, .store 4 30 5]
  refine ⟨c₀, c, hinit, hrun, (hpresent 10).mpr (by decide), (hpresent 30).mpr (by decide), ?_⟩
  rw [hpresent 20]
  decide

/-! ## Copies -/

/-- What a copy keeps of an entry. -/
def SkiMaEntry.contents (e : SkiMaEntry) : Int × Int × Int := (e.memAddress, e.memValue, e.eip)

/-- A read set without capacity has no entry that a store could use. -/
theorem Represents.store_of_max_zero {c : SkiMaCells} {ma : SkiMa} (h : Represents c ma) (hord : ma.Ordered)
    (hm : ma.maxEntries = 0) (eip a v : Int) : Cells.skiLivenessStore c eip a v = none := by
  have hlen : ma.entries.length = 0 := by
    have hle := hord.length_le
    omega
  have hmiss : a ∉ ma.addresses := by
    rw [SkiMa.addresses, List.eq_nil_of_length_eq_zero hlen]
    exact List.not_mem_nil
  have hhead : c.list.head = none := by
    have horder := hord.order_perm
    rw [hlen] at horder
    rw [h.list.head_eq, horder.eq_nil, List.head?_nil]
  unfold Cells.skiLivenessStore
  rw [if_neg (h.not_uninitialized hord), h.hashFindInt_miss hmiss]
  dsimp only
  rw [if_neg (by rw [h.n_eq, h.max_eq]; omega), hhead, Option.bind_none]

/-- One operation on cells that hold a read set, if it does not follow a `NULL` pointer. -/
theorem Represents.apply {c c' : SkiMaCells} {ma : SkiMa} (h : Represents c ma) (hord : ma.Ordered)
    (hmax : ma.maxEntries ≤ maEntriesMax) {op : ReadSetOp} (hop : Cells.apply c op = some c') :
    ∃ ma' : SkiMa, Represents c' ma' ∧ ma'.Ordered ∧ ma'.maxEntries = ma.maxEntries := by
  cases op with
  | store eip a v =>
    obtain ⟨⟨c₁, count⟩, hstore, rfl⟩ := Option.map_eq_some_iff.mp hop
    have hm : 0 < ma.maxEntries := by
      by_contra hzero
      rw [h.store_of_max_zero hord (by omega)] at hstore
      cases hstore
    obtain ⟨c₂, hstore', h'⟩ := h.store hord hm eip a v
    obtain ⟨rfl, -⟩ := Prod.mk.inj (Option.some.inj (hstore.symm.trans hstore'))
    exact ⟨_, h', hord.store hm eip a v, skiLivenessStore_maxEntries ma eip a v⟩
  | reset =>
    obtain ⟨c₁, hreset, h'⟩ := h.reset hord hmax
    obtain rfl : c' = c₁ := Option.some.inj (hop.symm.trans hreset)
    exact ⟨_, h', ordered_init ma.maxEntries, rfl⟩

/-- Whatever is reached by stores and resets holds a read set. -/
theorem represents_of_run {m : Nat} (hmax : m ≤ maEntriesMax) {ops : List ReadSetOp} {c₀ c : SkiMaCells}
    (hinit : Cells.skiLivenessInit m = some c₀) (hrun : ops.foldlM Cells.apply c₀ = some c) :
    ∃ ma : SkiMa, Represents c ma ∧ ma.Ordered ∧ ma.maxEntries = m := by
  obtain ⟨c₀', hinit', h₀⟩ := represents_init hmax
  obtain rfl : c₀ = c₀' := Option.some.inj (hinit.symm.trans hinit')
  refine foldlM_keeps (P := fun c => ∃ ma : SkiMa, Represents c ma ∧ ma.Ordered ∧ ma.maxEntries = m) ?_
    ⟨_, h₀, ordered_init m, rfl⟩ hrun
  rintro c op c' ⟨ma, h, hord, rfl⟩ hop
  exact h.apply hord hmax hop

/-- **A copy preserves the entries.** Whatever the destination held, the copy of a read set that was reached by stores
    and resets goes through the same addresses, values and instruction addresses in the same order, has the same
    capacity, and has the same addresses present. -/
theorem copy_preserves_entries {m : Nat} (hmax : m ≤ maEntriesMax) {ops : List ReadSetOp} {c₀ src : SkiMaCells}
    (hinit : Cells.skiLivenessInit m = some c₀) (hrun : ops.foldlM Cells.apply c₀ = some src) (dest : SkiMaCells) :
    ∃ (dest' : SkiMaCells) (entries entries' : List SkiMaEntry),
      Cells.skiLivenessCopy dest src = some dest' ∧
      Cells.listed src = some entries ∧ Cells.listed dest' = some entries' ∧
      entries'.map SkiMaEntry.contents = entries.map SkiMaEntry.contents ∧
      dest'.maxEntries = src.maxEntries ∧
      ∀ a, Cells.skiLivenessIsPresent dest' a = Cells.skiLivenessIsPresent src a := by
  obtain ⟨ma, href, hord, rfl⟩ := represents_of_run hmax hinit hrun
  obtain ⟨dest', hcopy, href'⟩ := href.copy hord hmax dest
  have hord' := ordered_filledWith hord.fitsInto
  refine ⟨dest', _, _, hcopy, href.listed hord hmax, href'.listed hord' hmax, ?_, ?_, fun a => ?_⟩
  · rw [listed_filledWith, List.map_map, List.map_map, List.map_map]
    rfl
  · exact href'.max_eq.trans href.max_eq.symm
  · rw [Bool.eq_iff_iff, href'.isPresent_iff hord', href.isPresent_iff hord, addresses_filledWith]
    exact hord.mem_listedAddresses_iff

/-- A copy of a full read set over one that holds another address. -/
theorem copy_preserves_two :
    ∃ (c₀ src dest dest' : SkiMaCells), Cells.skiLivenessInit 2 = some c₀ ∧
      [ReadSetOp.store 1 10 5, .store 2 20 6, .store 3 10 7].foldlM Cells.apply c₀ = some src ∧
      [ReadSetOp.store 4 40 8].foldlM Cells.apply c₀ = some dest ∧
      Cells.skiLivenessCopy dest src = some dest' ∧ Cells.skiLivenessIsPresent dest' 10 = true ∧
      Cells.skiLivenessIsPresent dest' 40 = false := by
  obtain ⟨c₀, hinit, h₀⟩ := holdsHistory_init (m := 2) (by decide)
  obtain ⟨src, hsrc, hheld⟩ := h₀.run (by decide) (by decide) [ReadSetOp.store 1 10 5, .store 2 20 6, .store 3 10 7]
  obtain ⟨dest, hdest, -⟩ := h₀.run (by decide) (by decide) [ReadSetOp.store 4 40 8]
  obtain ⟨dest', -, -, hcopy, -, -, -, -, hpresent⟩ := copy_preserves_entries (by decide) hinit hsrc dest
  obtain ⟨ma, href, hrec, hma⟩ := hheld
  have hiff : ∀ a, Cells.skiLivenessIsPresent src a = true ↔
      a ∈ recentAddresses 2 [(10, 5), (20, 6), (10, 7)] := by
    intro a
    rw [href.isPresent_iff hrec.ordered, hrec.mem_addresses_iff, hma]
    rfl
  refine ⟨c₀, src, dest, dest', hinit, hsrc, hdest, hcopy, ?_, ?_⟩
  · rw [hpresent, hiff]
    decide
  · rw [hpresent, Bool.eq_false_iff, Ne, hiff]
    decide

end SkiVmm.Sched
