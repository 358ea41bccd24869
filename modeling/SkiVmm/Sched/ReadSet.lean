import SkiVmm.Lib.Table
import SkiVmm.Sched.Liveness

/-!
# `Sched.ReadSet` — which addresses a read set holds

What `ski_liveness_store` and `ski_liveness_copy` do to the set of addresses of a read set. Nothing gets in that was
not stored (`mem_addresses_store`, `mem_addresses_copy`), and as long as the distinct addresses stored since the
last reset fit into the set, it holds exactly those (`Exact`).
-/

namespace SkiVmm.Sched

open Lib

/-- The addresses in the slots. -/
def SkiMa.addresses (ma : SkiMa) : List Int := ma.entries.map (·.memAddress)

theorem skiLivenessIsPresent_iff {ma : SkiMa} {a : Int} : skiLivenessIsPresent ma a = true ↔ a ∈ ma.addresses := by
  simp [skiLivenessIsPresent, SkiMa.addresses]

/-! ## One store -/

section Store
variable {ma : SkiMa} {eip x v a : Int}

/-- A store to an address that has a slot. -/
theorem skiLivenessStore_hit (hinit : ma.isInitialized = true) (hx : x ∈ ma.addresses) (eip v : Int) :
    (skiLivenessStore ma eip x v).1.addresses = ma.addresses ∧
      ∃ i, (skiLivenessStore ma eip x v).1.order = ma.order.erase i ++ [i] := by
  obtain ⟨e, he, hex⟩ := List.mem_map.mp hx
  have hfound : (ma.entries.findIdx? fun e => e.memAddress = x).isSome = true := by
    rw [List.findIdx?_isSome, List.any_eq_true]
    exact ⟨e, he, decide_eq_true hex⟩
  obtain ⟨i, hi⟩ := Option.isSome_iff_exists.mp hfound
  simp only [skiLivenessStore, hinit, Bool.not_true, Bool.false_eq_true, if_false, hi]
  refine ⟨?_, i, rfl⟩
  unfold SkiMa.addresses
  refine List.ext_getElem (by simp) ?_
  intro j h₁ h₂
  simp only [List.getElem_map, List.getElem_modify]
  split_ifs <;> rfl

theorem findIdx?_of_not_mem (hx : x ∉ ma.addresses) : (ma.entries.findIdx? fun e => e.memAddress = x) = none := by
  rw [List.findIdx?_eq_none_iff]
  intro e he
  refine decide_eq_false fun hex => hx ?_
  exact List.mem_map.mpr ⟨e, he, hex⟩

/-- A store to a new address while there is a free slot. -/
theorem skiLivenessStore_free (hinit : ma.isInitialized = true) (hx : x ∉ ma.addresses)
    (hroom : ma.entries.length < ma.maxEntries) (eip v : Int) :
    (skiLivenessStore ma eip x v).1.addresses = ma.addresses ++ [x] ∧
      (skiLivenessStore ma eip x v).1.order = ma.order ++ [ma.entries.length] := by
  simp only [skiLivenessStore, hinit, Bool.not_true, Bool.false_eq_true, if_false, findIdx?_of_not_mem hx,
    if_pos hroom]
  simp [SkiMa.addresses]

theorem skiLivenessStore_maxEntries (ma : SkiMa) (eip x v : Int) :
    (skiLivenessStore ma eip x v).1.maxEntries = ma.maxEntries := by
  unfold skiLivenessStore
  split
  · rfl
  · split
    · rfl
    · split
      · rfl
      · split <;> rfl

/-- **Nothing else gets in.** -/
theorem mem_addresses_store (h : a ∈ (skiLivenessStore ma eip x v).1.addresses) : a = x ∨ a ∈ ma.addresses := by
  by_cases hinit : ma.isInitialized = true
  · by_cases hx : x ∈ ma.addresses
    · rw [(skiLivenessStore_hit hinit hx eip v).1] at h
      exact .inr h
    · simp only [skiLivenessStore, hinit, Bool.not_true, Bool.false_eq_true, if_false, findIdx?_of_not_mem hx] at h
      split at h
      · simp only [SkiMa.addresses, List.map_append] at h
        rcases List.mem_append.mp h with hold | hnew
        · exact .inr hold
        · exact .inl (List.mem_singleton.mp hnew)
      · split at h
        · exact .inr h
        · -- the oldest entry makes room
          obtain ⟨e, he, rfl⟩ := List.mem_map.mp h
          rcases List.mem_or_eq_of_mem_set he with hold | rfl
          · exact .inr (List.mem_map_of_mem hold)
          · exact .inl rfl
  · simp only [skiLivenessStore, hinit, Bool.not_false, if_true] at h
    exact .inr h

end Store

/-! ## Exact read sets -/

/-- The read set holds exactly the addresses `loads`, each in one slot, and its list goes through all slots. -/
structure Exact (ma : SkiMa) (loads : List Int) : Prop where
  initialized : ma.isInitialized = true
  nodup : ma.addresses.Nodup
  mem_iff : ∀ a, a ∈ ma.addresses ↔ a ∈ loads
  covered : ∀ i, i < ma.entries.length → i ∈ ma.order

theorem exact_init (maxEntries : Nat) : Exact (skiLivenessInit maxEntries) [] :=
  ⟨rfl, List.nodup_nil, fun _ => Iff.rfl, fun i hi => absurd hi (Nat.not_lt_zero i)⟩

section Exact
variable {ma : SkiMa} {loads : List Int}

theorem SkiMa.addresses_length (ma : SkiMa) : ma.addresses.length = ma.entries.length := List.length_map _

/-- The distinct addresses are counted by the slots. -/
theorem Exact.length_lt (h : Exact ma loads) {x : Int} (hx : x ∉ loads) :
    ma.entries.length < (loads ++ [x]).dedup.length := by
  rw [← ma.addresses_length]
  refine length_lt_length_dedup h.nodup (fun hmem => hx ((h.mem_iff x).mp hmem)) ?_
    (List.mem_append_right _ List.mem_cons_self)
  intro a ha
  exact List.mem_append_left _ ((h.mem_iff a).mp ha)

/-- **A store adds its address**, as long as the distinct addresses fit. -/
theorem Exact.store (h : Exact ma loads) {x : Int} (hfit : (loads ++ [x]).dedup.length ≤ ma.maxEntries) (eip v : Int) :
    Exact (skiLivenessStore ma eip x v).1 (loads ++ [x]) := by
  have hinit : (skiLivenessStore ma eip x v).1.isInitialized = true :=
    (skiLivenessStore_isInitialized ma eip x v).trans h.initialized
  have hlen := SkiMa.addresses_length (skiLivenessStore ma eip x v).1
  by_cases hx : x ∈ loads
  · obtain ⟨haddr, i, horder⟩ := skiLivenessStore_hit h.initialized ((h.mem_iff x).mpr hx) eip v
    rw [haddr, ma.addresses_length] at hlen
    refine ⟨hinit, haddr ▸ h.nodup, ?_, ?_⟩
    · intro a
      rw [haddr, h.mem_iff, List.mem_append, List.mem_singleton]
      exact ⟨.inl, fun hmem => hmem.elim id fun heq => heq ▸ hx⟩
    · intro j hj
      rw [horder, List.mem_append, List.mem_singleton]
      by_cases heq : j = i
      · exact .inr heq
      · exact .inl ((List.mem_erase_of_ne heq).mpr (h.covered j (hlen ▸ hj)))
  · have hroom := Nat.lt_of_lt_of_le (h.length_lt hx) hfit
    have hx' : x ∉ ma.addresses := fun hmem => hx ((h.mem_iff x).mp hmem)
    obtain ⟨haddr, horder⟩ := skiLivenessStore_free h.initialized hx' hroom eip v
    rw [haddr, List.length_append, ma.addresses_length, List.length_singleton] at hlen
    refine ⟨hinit, ?_, ?_, ?_⟩
    · rw [haddr]
      exact List.nodup_append'.mpr ⟨h.nodup, List.nodup_singleton x, by simpa using hx'⟩
    · intro a
      rw [haddr, List.mem_append, List.mem_append, h.mem_iff]
    · intro j hj
      rw [horder, List.mem_append, List.mem_singleton]
      rcases Nat.lt_succ_iff_lt_or_eq.mp (hlen ▸ hj) with hlt | heq
      · exact .inl (h.covered j hlt)
      · exact .inr heq

end Exact

/-! ## Copies -/

section Copy
variable {src dest : SkiMa} {a : Int}

/-- The stores of `ski_liveness_copy`. -/
def storeAll (dest : SkiMa) (entries : List SkiMaEntry) : SkiMa :=
  entries.foldl (fun dest e => (skiLivenessStore dest e.eip e.memAddress e.memValue).1) dest

/-- The entries of a read set in the order of its list. -/
def SkiMa.listed (ma : SkiMa) : List SkiMaEntry := ma.order.filterMap fun i => ma.entries[i]?

theorem skiLivenessCopy_eq (h : skiLivenessCopy src = some dest) :
    dest = storeAll (skiLivenessInit src.maxEntries) src.listed := by
  unfold skiLivenessCopy at h
  split at h
  · exact (Option.some.inj h).symm
  · cases h

theorem mem_addresses_storeAll {entries : List SkiMaEntry} (h : a ∈ (storeAll dest entries).addresses) :
    a ∈ dest.addresses ∨ a ∈ entries.map (·.memAddress) := by
  induction entries generalizing dest with
  | nil => exact .inl h
  | cons e entries ih =>
    rcases ih h with hstore | hrest
    · rcases mem_addresses_store hstore with rfl | hold
      · exact .inr List.mem_cons_self
      · exact .inl hold
    · exact .inr (List.mem_cons_of_mem _ hrest)

theorem listed_subset (ma : SkiMa) : ma.listed.map (·.memAddress) ⊆ ma.addresses := by
  intro a ha
  obtain ⟨e, he, rfl⟩ := List.mem_map.mp ha
  obtain ⟨i, -, hi⟩ := List.mem_filterMap.mp he
  exact List.mem_map_of_mem (List.mem_of_getElem? hi)

/-- **A copy holds no other addresses.** -/
theorem mem_addresses_copy (h : skiLivenessCopy src = some dest) (ha : a ∈ dest.addresses) : a ∈ src.addresses := by
  rw [skiLivenessCopy_eq h] at ha
  rcases mem_addresses_storeAll ha with hnone | hlisted
  · cases hnone
  · exact listed_subset src hlisted

theorem skiLivenessCopy_isInitialized (h : skiLivenessCopy src = some dest) : dest.isInitialized = true := by
  have hall : ∀ (entries : List SkiMaEntry) (dest : SkiMa), dest.isInitialized = true →
      (storeAll dest entries).isInitialized = true := by
    intro entries
    induction entries with
    | nil => exact fun _ h => h
    | cons e entries ih => exact fun dest h => ih _ ((skiLivenessStore_isInitialized ..).trans h)
  rw [skiLivenessCopy_eq h]
  exact hall _ _ rfl

/-- Stores of addresses that fit, one after the other. -/
theorem Exact.storeAll {loads : List Int} (h : Exact dest loads) (entries : List SkiMaEntry)
    (hfit : (loads ++ entries.map (·.memAddress)).dedup.length ≤ dest.maxEntries) :
    Exact (Sched.storeAll dest entries) (loads ++ entries.map (·.memAddress)) := by
  induction entries generalizing dest loads with
  | nil => simpa [Sched.storeAll] using h
  | cons e entries ih =>
    rw [List.map_cons, List.append_cons] at hfit ⊢
    have hfirst : (loads ++ [e.memAddress]).dedup.length ≤ dest.maxEntries :=
      Nat.le_trans (length_dedup_le fun a ha => List.mem_append_left _ ha) hfit
    refine ih (h.store hfirst e.eip e.memValue) ?_
    rwa [skiLivenessStore_maxEntries]

/-- **A copy of an exact set is exact.** -/
theorem Exact.copy {loads : List Int} (h : Exact src loads) (hfit : loads.dedup.length ≤ src.maxEntries)
    (hcopy : skiLivenessCopy src = some dest) : a ∈ dest.addresses ↔ a ∈ loads := by
  have hlisted : ∀ b, b ∈ src.listed.map (·.memAddress) ↔ b ∈ loads := by
    intro b
    rw [← h.mem_iff]
    refine ⟨fun hb => listed_subset src hb, fun hb => ?_⟩
    obtain ⟨e, he, rfl⟩ := List.mem_map.mp hb
    obtain ⟨i, hi⟩ := List.mem_iff_getElem?.mp he
    have hlt := (List.getElem?_eq_some_iff.mp hi).1
    exact List.mem_map_of_mem (List.mem_filterMap.mpr ⟨i, h.covered i hlt, hi⟩)
  have hall := (exact_init src.maxEntries).storeAll src.listed (by
    refine Nat.le_trans (length_dedup_le fun b hb => ?_) hfit
    rw [List.nil_append] at hb
    exact (hlisted b).mp hb)
  rw [skiLivenessCopy_eq hcopy, hall.mem_iff, List.nil_append, hlisted]

end Copy

end SkiVmm.Sched
