import Mathlib.Data.Finset.Card
import SkiVmm.Lib.DList
import SkiVmm.Lib.Lru
import SkiVmm.Sched.ReadSet

/-!
# `Sched.ReadSetLru` — a read set is a cache with run counters

What a read set holds after any sequence of stores, in terms of the stores alone:

* its list goes through the last distinct addresses in the order of their latest use (`Lib.lastDistinct`),
* the count of an address is the number of stores to it since it was inserted and since another value was stored
  (`storesSince`).

`Records ma history` relates a read set to the stores since it was initialized, and every store keeps it.
`storeAll_filledWith` is about copies: they hold the same entries in the same order, each with a new count.
-/

namespace SkiVmm.Sched

open Lib

/-! ## Histories -/

/-- The stores since a read set was empty: address and value. -/
abbrev StoreHistory := List (Int × Int)

/-- The addresses that a read set of capacity `m` should hold, the oldest use first. -/
def recentAddresses (m : Nat) (history : StoreHistory) : List Int := lastDistinct m (history.map Prod.fst)

/-- Store `j` of the history is one to `a`. -/
def StoresTo (history : StoreHistory) (a : Int) (j : Nat) : Prop := ∃ w, history[j]? = some (a, w)

/-- Store `j` inserts `a`, which was not held before. -/
def InsertsAt (m : Nat) (history : StoreHistory) (a : Int) (j : Nat) : Prop :=
  StoresTo history a j ∧ a ∉ recentAddresses m (history.take j)

/-- Store `j` is one to `a` since its latest insertion, and since a value other than `v` was stored there. -/
def StoreCounts (m : Nat) (history : StoreHistory) (a v : Int) (j : Nat) : Prop :=
  StoresTo history a j ∧ (∀ k, j < k → ¬ InsertsAt m history a k) ∧ ∀ k w, j ≤ k → history[k]? = some (a, w) → w = v

open Classical in
/-- The number of stores to `a` since the latest of its insertion and the last store of a value other than `v`. -/
noncomputable def storesSince (m : Nat) (history : StoreHistory) (a v : Int) : Nat :=
  ((Finset.range history.length).filter (StoreCounts m history a v)).card

section Histories
variable {m : Nat} {history : StoreHistory} {a b v w : Int} {j : Nat}

theorem storesTo_concat_of_lt (hj : j < history.length) :
    StoresTo (history ++ [(a, v)]) b j ↔ StoresTo history b j := by
  unfold StoresTo
  rw [List.getElem?_append_left hj]

/-- The new store against the earlier ones. -/
theorem storeCounts_concat_of_lt (hj : j < history.length) :
    StoreCounts m (history ++ [(a, v)]) b w j ↔
      StoreCounts m history b w j ∧ (b = a → a ∈ recentAddresses m history ∧ v = w) := by
  have hnew : (history ++ [(a, v)])[history.length]? = some (a, v) := List.getElem?_concat_length
  have htake : ∀ k, k ≤ history.length → (history ++ [(a, v)]).take k = history.take k := fun k hk =>
    List.take_append_of_le_length hk
  have hnone : ∀ k, history.length < k → (history ++ [(a, v)])[k]? = none := by
    intro k hk
    rw [List.getElem?_eq_none_iff, List.length_append, List.length_singleton]
    omega
  unfold StoreCounts InsertsAt
  rw [storesTo_concat_of_lt hj]
  constructor
  · rintro ⟨hto, hins, hval⟩
    refine ⟨⟨hto, ?_, ?_⟩, ?_⟩
    · rintro k hjk ⟨⟨u, hu⟩, habsent⟩
      have hk := (List.getElem?_eq_some_iff.mp hu).1
      refine hins k hjk ⟨(storesTo_concat_of_lt hk).mpr ⟨u, hu⟩, ?_⟩
      rwa [htake k hk.le]
    · intro k u hjk hu
      have hk := (List.getElem?_eq_some_iff.mp hu).1
      exact hval k u hjk (by rwa [List.getElem?_append_left hk])
    · rintro rfl
      refine ⟨?_, hval history.length v hj.le hnew⟩
      by_contra habsent
      refine hins history.length hj ⟨⟨v, hnew⟩, ?_⟩
      rwa [htake history.length (Nat.le_refl _), List.take_length]
  · rintro ⟨⟨hto, hins, hval⟩, hlast⟩
    refine ⟨hto, ?_, ?_⟩
    · rintro k hjk ⟨⟨u, hu⟩, habsent⟩
      rcases Nat.lt_trichotomy k history.length with hk | rfl | hk
      · refine hins k hjk ⟨(storesTo_concat_of_lt hk).mp ⟨u, hu⟩, ?_⟩
        rwa [htake k hk.le] at habsent
      · rw [hnew] at hu
        cases hu
        rw [htake history.length (Nat.le_refl _), List.take_length] at habsent
        exact habsent (hlast rfl).1
      · rw [hnone k hk] at hu
        cases hu
    · intro k u hjk hu
      rcases Nat.lt_trichotomy k history.length with hk | rfl | hk
      · rw [List.getElem?_append_left hk] at hu
        exact hval k u hjk hu
      · rw [hnew] at hu
        cases hu
        exact (hlast rfl).2
      · rw [hnone k hk] at hu
        cases hu

/-- The new store itself counts for its own address and value only. -/
theorem storeCounts_concat_self : StoreCounts m (history ++ [(a, v)]) b w history.length ↔ b = a ∧ v = w := by
  have hnew : (history ++ [(a, v)])[history.length]? = some (a, v) := List.getElem?_concat_length
  have hnone : ∀ k, history.length < k → (history ++ [(a, v)])[k]? = none := by
    intro k hk
    rw [List.getElem?_eq_none_iff, List.length_append, List.length_singleton]
    omega
  constructor
  · rintro ⟨⟨u, hu⟩, -, hval⟩
    rw [hnew] at hu
    cases hu
    exact ⟨rfl, hval history.length v (Nat.le_refl _) hnew⟩
  · rintro ⟨rfl, rfl⟩
    refine ⟨⟨v, hnew⟩, ?_, ?_⟩
    · rintro k hk ⟨⟨u, hu⟩, -⟩
      rw [hnone k hk] at hu
      cases hu
    · intro k u hk hu
      rcases Nat.eq_or_lt_of_le hk with rfl | hlt
      · rw [hnew] at hu
        cases hu
        rfl
      · rw [hnone k hlt] at hu
        cases hu

/-- The count of an address is not changed by stores to others. -/
theorem storesSince_concat_of_ne (hne : b ≠ a) :
    storesSince m (history ++ [(a, v)]) b w = storesSince m history b w := by
  classical
  unfold storesSince
  rw [List.length_append, List.length_singleton, Finset.range_add_one, Finset.filter_insert, if_neg]
  · refine congrArg Finset.card (Finset.filter_congr fun j hj => ?_)
    rw [storeCounts_concat_of_lt (Finset.mem_range.mp hj)]
    exact and_iff_left fun heq => absurd heq hne
  · rw [storeCounts_concat_self]
    exact fun h => hne h.1

/-- A store counts itself, and the stores counted before if the address was held. -/
theorem storesSince_concat_self :
    storesSince m (history ++ [(a, v)]) a v
      = (if a ∈ recentAddresses m history then storesSince m history a v else 0) + 1 := by
  classical
  unfold storesSince
  rw [List.length_append, List.length_singleton, Finset.range_add_one, Finset.filter_insert,
    if_pos (storeCounts_concat_self.mpr ⟨rfl, rfl⟩), Finset.card_insert_of_notMem (by simp)]
  refine congrArg (· + 1) ?_
  have hfilter : (Finset.range history.length).filter (StoreCounts m (history ++ [(a, v)]) a v)
      = (Finset.range history.length).filter fun j => StoreCounts m history a v j ∧ a ∈ recentAddresses m history := by
    refine Finset.filter_congr fun j hj => ?_
    rw [storeCounts_concat_of_lt (Finset.mem_range.mp hj)]
    exact and_congr_right fun _ => ⟨fun h => (h rfl).1, fun h _ => ⟨h, rfl⟩⟩
  rw [hfilter]
  split
  · next hheld => exact congrArg Finset.card (Finset.filter_congr fun j _ => and_iff_left hheld)
  · next habsent =>
    rw [Finset.card_eq_zero]
    exact Finset.filter_false_of_mem fun j _ h => habsent h.2

/-- Nothing counts for a value other than the last one. -/
theorem storesSince_concat_other (hne : v ≠ w) : storesSince m (history ++ [(a, v)]) a w = 0 := by
  classical
  unfold storesSince
  rw [List.length_append, List.length_singleton, Finset.range_add_one, Finset.filter_insert, if_neg]
  · rw [Finset.card_eq_zero]
    refine Finset.filter_false_of_mem fun j hj hcounted => ?_
    exact hne (((storeCounts_concat_of_lt (Finset.mem_range.mp hj)).mp hcounted).2 rfl).2
  · rw [storeCounts_concat_self]
    exact fun h => hne h.2

end Histories

/-! ## What one store does -/

/-- The list goes through the slots in use, and no address has two of them. -/
structure SkiMa.Ordered (ma : SkiMa) : Prop where
  initialized : ma.isInitialized = true
  nodup : ma.addresses.Nodup
  order_perm : ma.order.Perm (List.range ma.entries.length)
  length_le : ma.entries.length ≤ ma.maxEntries

/-- The entry of an address after another store to it. -/
def SkiMaEntry.bumped (e : SkiMaEntry) (v : Int) : SkiMaEntry :=
  if e.memValue ≠ v then { e with memValue := v, count := 1 } else { e with count := e.count + 1 }

@[simp] theorem SkiMaEntry.bumped_memAddress (e : SkiMaEntry) (v : Int) : (e.bumped v).memAddress = e.memAddress := by
  unfold SkiMaEntry.bumped
  split <;> rfl

@[simp] theorem SkiMaEntry.bumped_memValue (e : SkiMaEntry) (v : Int) : (e.bumped v).memValue = v := by
  unfold SkiMaEntry.bumped
  split
  · rfl
  · next heq => exact not_not.mp heq

section Store
variable {ma : SkiMa}

theorem ordered_init (m : Nat) : (skiLivenessInit m).Ordered :=
  ⟨rfl, List.nodup_nil, List.Perm.refl _, Nat.zero_le _⟩

theorem mem_addresses_iff {a : Int} : a ∈ ma.addresses ↔ ∃ (i : Nat) (e : SkiMaEntry),
    ma.entries[i]? = some e ∧ e.memAddress = a := by
  unfold SkiMa.addresses
  rw [List.mem_map]
  constructor
  · rintro ⟨e, he, rfl⟩
    obtain ⟨i, hi⟩ := List.mem_iff_getElem?.mp he
    exact ⟨i, e, hi, rfl⟩
  · rintro ⟨i, e, hi, rfl⟩
    exact ⟨e, List.mem_of_getElem? hi, rfl⟩

/-- An address determines its slot. -/
theorem SkiMa.Ordered.slot_unique (h : ma.Ordered) {i j : Nat} {e e' : SkiMaEntry} (hi : ma.entries[i]? = some e)
    (hj : ma.entries[j]? = some e') (heq : e.memAddress = e'.memAddress) : i = j := by
  have hlt : i < ma.addresses.length := by
    rw [ma.addresses_length]
    exact (List.getElem?_eq_some_iff.mp hi).1
  refine (List.getElem?_inj hlt h.nodup).mp ?_
  unfold SkiMa.addresses
  rw [List.getElem?_map, List.getElem?_map, hi, hj, Option.map_some, Option.map_some, heq]

theorem SkiMa.Ordered.mem_order_iff (h : ma.Ordered) {i : Nat} : i ∈ ma.order ↔ i < ma.entries.length := by
  rw [h.order_perm.mem_iff, List.mem_range]

theorem SkiMa.Ordered.order_nodup (h : ma.Ordered) : ma.order.Nodup :=
  h.order_perm.nodup_iff.mpr List.nodup_range

/-- What a store can do. -/
inductive StoreCase (ma : SkiMa) (eip a v : Int) : SkiMa × Int → Prop
  /-- the address has a slot -/
  | hit (i : Nat) (e : SkiMaEntry) (hi : ma.entries[i]? = some e) (ha : e.memAddress = a) :
    StoreCase ma eip a v
      ({ ma with entries := ma.entries.set i (e.bumped v), order := ma.order.erase i ++ [i] }, (e.bumped v).count)
  /-- a free slot is used -/
  | free (ha : a ∉ ma.addresses) (hroom : ma.entries.length < ma.maxEntries) :
    StoreCase ma eip a v
      ({ ma with entries := ma.entries ++ [{ count := 1, eip := eip, memAddress := a, memValue := v }],
                 order := ma.order ++ [ma.entries.length] }, 1)
  /-- the slot of the oldest entry is used again -/
  | evict (i : Nat) (rest : List Nat) (ha : a ∉ ma.addresses) (hfull : ma.entries.length = ma.maxEntries)
      (horder : ma.order = i :: rest) :
    StoreCase ma eip a v
      ({ ma with entries := ma.entries.set i { count := 1, eip := eip, memAddress := a, memValue := v },
                 order := rest ++ [i] }, 1)

/-- The search finds the slot of an address. -/
theorem SkiMa.Ordered.findIdx?_eq (h : ma.Ordered) {i : Nat} {e : SkiMaEntry} (hi : ma.entries[i]? = some e) :
    (ma.entries.findIdx? fun e' => e'.memAddress = e.memAddress) = some i := by
  obtain ⟨hlt, he⟩ := List.getElem?_eq_some_iff.mp hi
  rw [List.findIdx?_eq_some_iff_getElem]
  refine ⟨hlt, decide_eq_true (congrArg SkiMaEntry.memAddress he), fun j hj => ?_⟩
  rw [decide_eq_true_eq]
  intro heq
  have hslot := h.slot_unique (List.getElem?_eq_getElem (hj.trans hlt)) hi heq
  omega

/-- **One store**, by cases. -/
theorem skiLivenessStore_case (h : ma.Ordered) (hm : 0 < ma.maxEntries) (eip a v : Int) :
    StoreCase ma eip a v (skiLivenessStore ma eip a v) := by
  by_cases ha : a ∈ ma.addresses
  · obtain ⟨i, e, hi, rfl⟩ := mem_addresses_iff.mp ha
    have hlt := (List.getElem?_eq_some_iff.mp hi).1
    have hstore : skiLivenessStore ma eip e.memAddress v
        = ({ ma with entries := ma.entries.set i (e.bumped v), order := ma.order.erase i ++ [i] },
            (e.bumped v).count) := by
      have hmodify : (ma.entries.modify i fun e : SkiMaEntry =>
          if e.memValue ≠ v then { e with memValue := v, count := 1 } else { e with count := e.count + 1 })
            = ma.entries.set i (e.bumped v) := by
        rw [List.modify_eq_set_getElem?, hi]
        rfl
      simp only [skiLivenessStore, h.initialized, Bool.not_true, Bool.false_eq_true, if_false, h.findIdx?_eq hi,
        hmodify, List.getElem?_set_self hlt, Option.map_some, Option.getD_some]
    rw [hstore]
    exact .hit i e hi rfl
  · unfold skiLivenessStore
    rw [if_neg (by simp [h.initialized]), findIdx?_of_not_mem ha]
    dsimp only
    split
    · next hroom => exact .free ha hroom
    · next hfull =>
      have hlen := h.length_le
      have hpos : 0 < ma.order.length := by
        rw [h.order_perm.length_eq, List.length_range]
        omega
      obtain ⟨i, rest, horder⟩ := List.exists_cons_of_length_pos hpos
      simp only [horder]
      exact .evict i rest ha (by omega) horder

/-- A store keeps the slots in order. -/
theorem SkiMa.Ordered.store (h : ma.Ordered) (hm : 0 < ma.maxEntries) (eip a v : Int) :
    (skiLivenessStore ma eip a v).1.Ordered := by
  have hcase := skiLivenessStore_case h hm eip a v
  generalize skiLivenessStore ma eip a v = r at hcase
  cases hcase with
  | hit i e hi ha =>
    have hlt := (List.getElem?_eq_some_iff.mp hi).1
    refine ⟨h.initialized, ?_, ?_, ?_⟩
    · have haddr : (ma.entries.set i (e.bumped v)).map SkiMaEntry.memAddress = ma.addresses := by
        unfold SkiMa.addresses
        rw [List.map_set, SkiMaEntry.bumped_memAddress]
        refine List.ext_getElem? fun j => ?_
        rw [List.getElem?_set]
        split
        · next heq =>
          subst heq
          rw [if_pos (by rwa [List.length_map]), List.getElem?_map, hi, Option.map_some]
        · rfl
      exact (congrArg List.Nodup haddr).mpr h.nodup
    · rw [List.length_set]
      refine List.Perm.trans ?_ h.order_perm
      refine (List.perm_append_comm).trans ?_
      exact (List.perm_cons_erase (h.mem_order_iff.mpr hlt)).symm
    · rw [List.length_set]
      exact h.length_le
  | free ha hroom =>
    refine ⟨h.initialized, ?_, ?_, ?_⟩
    · unfold SkiMa.addresses
      rw [List.map_append, List.map_singleton]
      exact List.nodup_append'.mpr ⟨h.nodup, List.nodup_singleton a, by simpa [SkiMa.addresses] using ha⟩
    · rw [List.length_append, List.length_singleton, List.range_succ]
      exact h.order_perm.append_right _
    · rw [List.length_append, List.length_singleton]
      exact hroom
  | evict i rest ha hfull horder =>
    refine ⟨h.initialized, ?_, ?_, ?_⟩
    · unfold SkiMa.addresses
      rw [List.map_set]
      exact List.Nodup.set (h.nodup) ha
    · rw [List.length_set]
      refine List.Perm.trans ?_ h.order_perm
      rw [horder]
      exact List.perm_append_singleton i rest
    · rw [List.length_set]
      exact h.length_le

end Store

/-! ## The list -/

/-- The addresses in the order of the list. -/
def SkiMa.listedAddresses (ma : SkiMa) : List Int := ma.listed.map SkiMaEntry.memAddress

section Listed
variable {ma : SkiMa}

/-- The address in a slot. -/
def SkiMa.addressAt (ma : SkiMa) (i : Nat) : Option Int := ma.entries[i]?.map SkiMaEntry.memAddress

theorem SkiMa.listedAddresses_eq (ma : SkiMa) : ma.listedAddresses = ma.order.filterMap ma.addressAt := by
  unfold SkiMa.listedAddresses SkiMa.listed
  rw [List.map_filterMap]
  rfl

theorem SkiMa.Ordered.mem_listedAddresses_iff (h : ma.Ordered) {a : Int} :
    a ∈ ma.listedAddresses ↔ a ∈ ma.addresses := by
  rw [ma.listedAddresses_eq, List.mem_filterMap, mem_addresses_iff]
  constructor
  · rintro ⟨i, -, hi⟩
    obtain ⟨e, he, rfl⟩ := Option.map_eq_some_iff.mp hi
    exact ⟨i, e, he, rfl⟩
  · rintro ⟨i, e, he, rfl⟩
    refine ⟨i, h.mem_order_iff.mpr (List.getElem?_eq_some_iff.mp he).1, ?_⟩
    rw [SkiMa.addressAt, he, Option.map_some]

theorem SkiMa.Ordered.length_listed (h : ma.Ordered) : ma.listed.length = ma.entries.length := by
  have hall : ∀ i ∈ ma.order, (ma.entries[i]?).isSome = true := by
    intro i hi
    rw [List.getElem?_eq_getElem (h.mem_order_iff.mp hi)]
    rfl
  unfold SkiMa.listed
  rw [List.length_filterMap_eq_countP, List.countP_eq_length.mpr hall, h.order_perm.length_eq, List.length_range]

/-- Erasing a slot from the list erases its address. -/
theorem SkiMa.Ordered.filterMap_erase (h : ma.Ordered) {i : Nat} {e : SkiMaEntry} (hi : ma.entries[i]? = some e) :
    (ma.order.erase i).filterMap ma.addressAt = ma.listedAddresses.erase e.memAddress := by
  have haddr : ma.addressAt i = some e.memAddress := by rw [SkiMa.addressAt, hi, Option.map_some]
  obtain ⟨us, vs, horder⟩ := List.append_of_mem (h.mem_order_iff.mpr (List.getElem?_eq_some_iff.mp hi).1)
  have hnot := Links.notMem_of_split (horder ▸ h.order_nodup)
  have hfirst : e.memAddress ∉ us.filterMap ma.addressAt := by
    intro hmem
    obtain ⟨j, hj, hje⟩ := List.mem_filterMap.mp hmem
    obtain ⟨e', he', heq⟩ := Option.map_eq_some_iff.mp hje
    exact hnot.1 (h.slot_unique he' hi heq ▸ hj)
  rw [ma.listedAddresses_eq, horder, List.erase_append_right _ hnot.1, List.erase_cons_head, List.filterMap_append,
    List.filterMap_append, List.filterMap_cons_some haddr, List.erase_append_right _ hfirst, List.erase_cons_head]

/-- Writing a slot that is not in a part of the list leaves its addresses. -/
theorem filterMap_addressAt_congr (ma : SkiMa) {ma' : SkiMa} {slots : List Nat}
    (h : ∀ i ∈ slots, ma'.entries[i]? = ma.entries[i]?) :
    slots.filterMap ma'.addressAt = slots.filterMap ma.addressAt :=
  List.filterMap_congr fun i hi => by rw [SkiMa.addressAt, SkiMa.addressAt, h i hi]

/-- **The list is that of a cache.** -/
theorem SkiMa.Ordered.listedAddresses_store (h : ma.Ordered) (hm : 0 < ma.maxEntries) (eip a v : Int) :
    (skiLivenessStore ma eip a v).1.listedAddresses = lruStep ma.maxEntries ma.listedAddresses a := by
  have hlen : ma.listedAddresses.length = ma.entries.length := by
    rw [SkiMa.listedAddresses, List.length_map, h.length_listed]
  have hcase := skiLivenessStore_case h hm eip a v
  generalize skiLivenessStore ma eip a v = r at hcase
  have habsent : a ∉ ma.addresses → a ∉ ma.listedAddresses := fun ha hmem => ha (h.mem_listedAddresses_iff.mp hmem)
  unfold lruStep
  cases hcase with
  | hit i e hi ha =>
    have hlt := (List.getElem?_eq_some_iff.mp hi).1
    -- no address changes
    have hat : ∀ j, SkiMa.addressAt
        { ma with entries := ma.entries.set i (e.bumped v), order := ma.order.erase i ++ [i] } j = ma.addressAt j := by
      intro j
      unfold SkiMa.addressAt
      dsimp only
      rw [List.getElem?_set]
      split
      · next heq =>
        subst heq
        rw [hi, Option.map_some, Option.map_some, SkiMaEntry.bumped_memAddress]
      · rfl
    have haddr : ma.addressAt i = some a := by rw [SkiMa.addressAt, hi, Option.map_some, ha]
    have hheld : a ∈ ma.listedAddresses := h.mem_listedAddresses_iff.mpr (mem_addresses_iff.mpr ⟨i, e, hi, ha⟩)
    rw [if_pos hheld, SkiMa.listedAddresses_eq, List.filterMap_congr fun j _ => hat j,
      List.filterMap_append, h.filterMap_erase hi, ha, List.filterMap_cons_some haddr, List.filterMap_nil]
  | free ha hroom =>
    rw [if_neg (habsent ha), if_pos (hlen ▸ hroom), SkiMa.listedAddresses_eq, SkiMa.listedAddresses_eq,
      List.filterMap_append, filterMap_addressAt_congr ma]
    · refine congrArg (_ ++ ·) (List.filterMap_cons_some ?_)
      rw [SkiMa.addressAt, List.getElem?_concat_length, Option.map_some]
    · intro i hi
      exact List.getElem?_append_left (h.mem_order_iff.mp hi)
  | evict i rest ha hfull horder =>
    have hnodup := horder ▸ h.order_nodup
    have hlt : i < ma.entries.length := h.mem_order_iff.mp (horder ▸ List.mem_cons_self)
    have haddr : ma.addressAt i = some (ma.entries[i]).memAddress := by
      rw [SkiMa.addressAt, List.getElem?_eq_getElem hlt, Option.map_some]
    rw [if_neg (habsent ha), if_neg (by omega), SkiMa.listedAddresses_eq, SkiMa.listedAddresses_eq, horder,
      List.filterMap_cons_some haddr, List.tail_cons, List.filterMap_append, filterMap_addressAt_congr ma]
    · refine congrArg (_ ++ ·) (List.filterMap_cons_some ?_)
      rw [SkiMa.addressAt, List.getElem?_set_self hlt, Option.map_some]
    · intro j hj
      have hne : i ≠ j := fun heq => (List.nodup_cons.mp hnodup).1 (heq ▸ hj)
      exact List.getElem?_set_ne hne

end Listed

/-! ## Counters -/

/-- The read set has seen the stores `history` since it was empty. -/
structure Records (ma : SkiMa) (history : StoreHistory) : Prop where
  ordered : ma.Ordered
  listed : ma.listedAddresses = recentAddresses ma.maxEntries history
  count : ∀ e ∈ ma.entries, e.count = storesSince ma.maxEntries history e.memAddress e.memValue
  others : ∀ e ∈ ma.entries, ∀ w, e.memValue ≠ w → storesSince ma.maxEntries history e.memAddress w = 0

theorem records_init (m : Nat) : Records (skiLivenessInit m) [] := by
  refine ⟨ordered_init m, (lastDistinct_nil m).symm, ?_, ?_⟩
  · intro e he
    cases he
  · intro e he
    cases he

section Records
variable {ma : SkiMa} {history : StoreHistory}

theorem Records.mem_addresses_iff (h : Records ma history) {a : Int} :
    a ∈ ma.addresses ↔ a ∈ recentAddresses ma.maxEntries history := by
  rw [← h.ordered.mem_listedAddresses_iff, h.listed]

/-- A store to an address that has a slot counts on, or starts again. -/
theorem Records.bumped_count (h : Records ma history) {e : SkiMaEntry} (he : e ∈ ma.entries) (v : Int) :
    (e.bumped v).count = storesSince ma.maxEntries (history ++ [(e.memAddress, v)]) e.memAddress v := by
  have hheld : e.memAddress ∈ recentAddresses ma.maxEntries history :=
    h.mem_addresses_iff.mp (List.mem_map_of_mem he)
  rw [storesSince_concat_self, if_pos hheld]
  unfold SkiMaEntry.bumped
  split
  · next hne => rw [h.others e he v hne, Nat.zero_add, Int.natCast_one]
  · next heq =>
    obtain rfl : e.memValue = v := not_not.mp heq
    dsimp only
    rw [h.count e he, Int.natCast_add, Int.natCast_one]

/-- A store to an address that has no slot starts a count. -/
theorem Records.fresh_count (h : Records ma history) {a : Int} (ha : a ∉ ma.addresses) (v : Int) :
    (1 : Int) = storesSince ma.maxEntries (history ++ [(a, v)]) a v := by
  rw [storesSince_concat_self, if_neg fun hmem => ha (h.mem_addresses_iff.mpr hmem), Nat.zero_add, Int.natCast_one]

/-- The entries of other addresses stay as they are counted. -/
theorem Records.keeps (h : Records ma history) {e : SkiMaEntry} (he : e ∈ ma.entries) {a v : Int}
    (hne : e.memAddress ≠ a) :
    e.count = storesSince ma.maxEntries (history ++ [(a, v)]) e.memAddress e.memValue ∧
      ∀ w, e.memValue ≠ w → storesSince ma.maxEntries (history ++ [(a, v)]) e.memAddress w = 0 := by
  refine ⟨?_, fun w hw => ?_⟩
  · rw [storesSince_concat_of_ne hne]
    exact h.count e he
  · rw [storesSince_concat_of_ne hne]
    exact h.others e he w hw

/-- **A store is recorded**, and returns the number of stores since the insertion or a change of the value. -/
theorem Records.store (h : Records ma history) (hm : 0 < ma.maxEntries) (eip a v : Int) :
    Records (skiLivenessStore ma eip a v).1 (history ++ [(a, v)]) ∧
      (skiLivenessStore ma eip a v).2 = storesSince ma.maxEntries (history ++ [(a, v)]) a v := by
  have hlisted : (skiLivenessStore ma eip a v).1.listedAddresses
      = recentAddresses (skiLivenessStore ma eip a v).1.maxEntries (history ++ [(a, v)]) := by
    unfold recentAddresses
    rw [h.ordered.listedAddresses_store hm, h.listed, skiLivenessStore_maxEntries, List.map_append,
      List.map_singleton]
    exact lruStep_lastDistinct hm _ a
  have hordered := h.ordered.store hm eip a v
  have hcase := skiLivenessStore_case h.ordered hm eip a v
  generalize skiLivenessStore ma eip a v = r at hlisted hordered hcase
  suffices hentries : r.2 = storesSince ma.maxEntries (history ++ [(a, v)]) a v ∧ ∀ e ∈ r.1.entries,
      e.count = storesSince ma.maxEntries (history ++ [(a, v)]) e.memAddress e.memValue ∧
        ∀ w, e.memValue ≠ w → storesSince ma.maxEntries (history ++ [(a, v)]) e.memAddress w = 0 by
    have hmax : r.1.maxEntries = ma.maxEntries := by cases hcase <;> rfl
    rw [hmax] at hlisted
    refine ⟨⟨hordered, hmax ▸ hlisted, ?_, ?_⟩, hentries.1⟩
    · exact fun e he => hmax ▸ (hentries.2 e he).1
    · exact fun e he => hmax ▸ (hentries.2 e he).2
  cases hcase with
  | hit i e hi ha =>
    subst ha
    have he := List.mem_of_getElem? hi
    refine ⟨h.bumped_count he v, fun e' he' => ?_⟩
    obtain ⟨j, hj⟩ := List.mem_iff_getElem?.mp he'
    rw [List.getElem?_set] at hj
    split at hj
    · next heq =>
      split at hj
      · cases hj
        rw [SkiMaEntry.bumped_memAddress, SkiMaEntry.bumped_memValue]
        exact ⟨h.bumped_count he v, fun w hw => storesSince_concat_other hw⟩
      · cases hj
    · next hne =>
      refine h.keeps (List.mem_of_getElem? hj) fun heq => hne ?_
      exact h.ordered.slot_unique hi hj heq.symm
  | free ha hroom =>
    have hfresh := h.fresh_count ha v
    refine ⟨hfresh, fun e' he' => ?_⟩
    rcases List.mem_append.mp he' with hold | hnew
    · exact h.keeps hold fun heq => ha (heq ▸ List.mem_map_of_mem hold)
    · cases List.mem_singleton.mp hnew
      exact ⟨hfresh, fun w hw => storesSince_concat_other hw⟩
  | evict i rest ha hfull horder =>
    have hfresh := h.fresh_count ha v
    refine ⟨hfresh, fun e' he' => ?_⟩
    rcases List.mem_or_eq_of_mem_set he' with hold | rfl
    · exact h.keeps hold fun heq => ha (heq ▸ List.mem_map_of_mem hold)
    · exact ⟨hfresh, fun w hw => storesSince_concat_other hw⟩

end Records

/-! ## Copies -/

/-- An entry as it is stored for the first time. -/
def SkiMaEntry.restarted (e : SkiMaEntry) : SkiMaEntry := { e with count := 1 }

/-- A read set whose slots were filled one after the other. -/
def filledWith (m : Nat) (entries : List SkiMaEntry) : SkiMa :=
  { isInitialized := true, entries := entries.map SkiMaEntry.restarted, maxEntries := m,
    order := List.range entries.length }

/-- The addresses of the entries `entries`, and that they fit into a read set of capacity `m`. -/
structure FitsInto (m : Nat) (entries : List SkiMaEntry) : Prop where
  nodup : (entries.map SkiMaEntry.memAddress).Nodup
  length_le : entries.length ≤ m

section Copies
variable {m : Nat} {entries : List SkiMaEntry}

theorem addresses_filledWith (m : Nat) (entries : List SkiMaEntry) :
    (filledWith m entries).addresses = entries.map SkiMaEntry.memAddress := by
  unfold filledWith SkiMa.addresses
  rw [List.map_map]
  rfl

theorem ordered_filledWith (h : FitsInto m entries) : (filledWith m entries).Ordered := by
  refine ⟨rfl, ?_, ?_, ?_⟩
  · rw [addresses_filledWith]
    exact h.nodup
  · unfold filledWith
    rw [List.length_map]
  · unfold filledWith
    rw [List.length_map]
    exact h.length_le

/-- Going through all slots of an array. -/
theorem filterMap_getElem?_range (l : List SkiMaEntry) : (List.range l.length).filterMap (fun i => l[i]?) = l := by
  induction l using List.reverseRecOn with
  | nil => rfl
  | append_singleton l e ih =>
    have hold : (List.range l.length).filterMap (fun i => (l ++ [e])[i]?) = l := by
      refine Eq.trans (List.filterMap_congr fun i hi => ?_) ih
      exact List.getElem?_append_left (List.mem_range.mp hi)
    rw [List.length_append, List.length_singleton, List.range_succ, List.filterMap_append, hold,
      List.filterMap_cons_some List.getElem?_concat_length, List.filterMap_nil]

theorem listed_filledWith (m : Nat) (entries : List SkiMaEntry) :
    (filledWith m entries).listed = entries.map SkiMaEntry.restarted := by
  have hall := filterMap_getElem?_range (entries.map SkiMaEntry.restarted)
  rw [List.length_map] at hall
  exact hall

/-- The stores of a copy fill one slot after the other. -/
theorem storeAll_filledWith (entries rest : List SkiMaEntry) (h : FitsInto m (entries ++ rest)) :
    storeAll (filledWith m entries) rest = filledWith m (entries ++ rest) := by
  induction rest generalizing entries with
  | nil =>
    rw [List.append_nil]
    rfl
  | cons e rest ih =>
    rw [List.append_cons] at h ⊢
    have hsub : (entries ++ [e]).Sublist (entries ++ [e] ++ rest) := List.sublist_append_left _ _
    have hfits : FitsInto m (entries ++ [e]) := ⟨h.nodup.sublist (hsub.map _), hsub.length_le.trans h.length_le⟩
    have hroom : entries.length < m := by
      have hle := hfits.length_le
      rw [List.length_append, List.length_singleton] at hle
      omega
    have hnew : e.memAddress ∉ (filledWith m entries).addresses := by
      have hnd := hfits.nodup
      rw [List.map_append, List.map_singleton] at hnd
      rw [addresses_filledWith]
      exact fun hmem => (List.nodup_append'.mp hnd).2.2 hmem List.mem_cons_self
    have hstore : (skiLivenessStore (filledWith m entries) e.eip e.memAddress e.memValue).1
        = filledWith m (entries ++ [e]) := by
      unfold skiLivenessStore
      rw [if_neg (by simp [filledWith]), findIdx?_of_not_mem hnew]
      dsimp only
      rw [if_pos (by simpa [filledWith] using hroom)]
      simp [filledWith, SkiMaEntry.restarted, List.range_succ]
    rw [← ih _ h, ← hstore]
    rfl

/-- The listed entries fit into a read set of the same capacity. -/
theorem SkiMa.Ordered.fitsInto {ma : SkiMa} (h : ma.Ordered) : FitsInto ma.maxEntries ma.listed := by
  refine ⟨?_, h.length_listed.trans_le h.length_le⟩
  have hnd : ma.listedAddresses.Nodup := by
    rw [ma.listedAddresses_eq]
    refine List.Nodup.filterMap ?_ h.order_nodup
    intro i j a hi hj
    obtain ⟨e, he, rfl⟩ := Option.map_eq_some_iff.mp hi
    obtain ⟨e', he', heq⟩ := Option.map_eq_some_iff.mp hj
    exact h.slot_unique he he' heq.symm
  exact hnd

end Copies

end SkiVmm.Sched
