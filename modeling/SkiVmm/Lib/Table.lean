import Mathlib.Algebra.GroupWithZero.Nat
import Mathlib.Data.Finset.Card
import Mathlib.Data.List.Basic
import Mathlib.Data.List.Forall2
import Mathlib.Data.List.Dedup
import Mathlib.Data.List.Nodup
import Mathlib.Data.List.Perm.Subperm

/-!
# `Lib.Table` — lists that change at one place

A table is a list whose entries are changed one at a time, by `List.set` or `List.modify`. What a projection of
the entries or a count sees of such a change, counting by a loop, where two tables differ, and the latest entry of a
log with a given key.
-/

namespace SkiVmm.Lib

variable {α β : Type} {l : List α} {i : Nat}

/-- An entry after a change. -/
theorem getD_modify (l : List α) (i : Nat) (f : α → α) (j : Nat) (d : α) :
    (l.modify i f).getD j d = if i = j ∧ j < l.length then f (l.getD j d) else l.getD j d := by
  rw [List.getD_eq_getElem?_getD, List.getD_eq_getElem?_getD, List.getElem?_modify]
  by_cases hj : j < l.length
  · rw [List.getElem?_eq_getElem hj]
    by_cases hij : i = j
    · simp [hij, hj]
    · simp [hij]
  · rw [List.getElem?_eq_none (Nat.le_of_not_lt hj)]
    simp [hj]

theorem getD_modify_of_lt (hi : i < l.length) (f : α → α) (j : Nat) (d : α) :
    (l.modify i f).getD j d = if i = j then f (l.getD j d) else l.getD j d := by
  have hiff : (i = j ∧ j < l.length) ↔ i = j := and_iff_left_of_imp fun hij => hij ▸ hi
  rw [getD_modify]
  simp only [hiff]

/-- A projection does not see changes that keep it. -/
theorem map_modify_eq {f : α → α} {g : α → β} (h : ∀ a, l[i]? = some a → g (f a) = g a) :
    (l.modify i f).map g = l.map g := by
  refine List.ext_getElem (by simp) ?_
  intro j h₁ h₂
  rw [List.getElem_map, List.getElem_map, List.getElem_modify]
  split_ifs with heq
  · subst heq
    exact h _ (List.getElem?_eq_getElem _)
  · rfl

theorem map_modify_comm {f : α → α} {g : α → β} {f' : β → β} (h : ∀ a, g (f a) = f' (g a)) (l : List α) (i : Nat) :
    (l.modify i f).map g = (l.map g).modify i f' := by
  refine List.ext_getElem (by simp) ?_
  intro j h₁ h₂
  simp only [List.getElem_map, List.getElem_modify]
  split_ifs
  · exact h _
  · rfl

theorem modify_eq_set {f : α → α} {a : α} (h : l[i]? = some a) : l.modify i f = l.set i (f a) := by
  rw [List.modify_eq_set_getElem?, h]
  rfl

/-- Entry by entry, only the one at the place of the change is to be looked at. -/
theorem forall₂_modify {R : α → α → Prop} {f : α → α} (hrefl : ∀ a, R a a) (h : ∀ a, l[i]? = some a → R a (f a)) :
    List.Forall₂ R l (l.modify i f) := by
  rw [List.forall₂_iff_get]
  refine ⟨by simp, ?_⟩
  intro j h₁ h₂
  simp only [List.get_eq_getElem, List.getElem_modify]
  split_ifs with heq
  · subst heq
    exact h _ (List.getElem?_eq_getElem _)
  · exact hrefl _

/-- Each entry of the second list has its counterpart in the first one. -/
theorem exists_of_forall₂ {R : α → β → Prop} {l' : List β} (h : List.Forall₂ R l l') {b : β} (hb : b ∈ l') :
    ∃ a ∈ l, R a b := by
  induction h with
  | nil => cases hb
  | cons hR _ ih =>
    rcases List.mem_cons.mp hb with rfl | hb
    · exact ⟨_, List.mem_cons_self, hR⟩
    · obtain ⟨a, ha, hR⟩ := ih hb
      exact ⟨a, List.mem_cons_of_mem _ ha, hR⟩

/-- How a count changes with one entry. -/
theorem countP_set_add {p : α → Bool} {a : α} (hi : l[i]? = some a) (b : α) :
    (l.set i b).countP p + (if p a then 1 else 0) = l.countP p + (if p b then 1 else 0) := by
  obtain ⟨hlt, rfl⟩ := List.getElem?_eq_some_iff.mp hi
  have hle : (if p l[i] then 1 else 0) ≤ l.countP p := by
    split_ifs with hp
    · exact List.one_le_countP_iff.mpr ⟨_, List.getElem_mem hlt, hp⟩
    · exact Nat.zero_le _
  rw [List.countP_set hlt]
  omega

/-- The same for a table that is a function on the numbers below `n`. -/
theorem countP_range_update (f : Nat → α) (p : α → Bool) (b : α) {n : Nat} (hi : i < n) :
    ((List.range n).countP fun j => p (Function.update f i b j)) + (if p (f i) then 1 else 0)
      = ((List.range n).countP fun j => p (f j)) + (if p b then 1 else 0) := by
  have hset : (List.range n).map (Function.update f i b) = ((List.range n).map f).set i b := by
    refine List.ext_getElem (by simp) ?_
    intro j h₁ h₂
    rw [List.getElem_set, List.getElem_map, List.getElem_map, List.getElem_range]
    by_cases hij : i = j
    · rw [if_pos hij, ← hij, Function.update_self]
    · rw [if_neg hij, Function.update_of_ne (Ne.symm hij)]
  have hget : ((List.range n).map f)[i]? = some (f i) := by
    rw [List.getElem?_map, List.getElem?_range hi, Option.map_some]
  have hcount := countP_set_add (p := p) hget b
  rw [← hset, List.countP_map, List.countP_map] at hcount
  exact hcount

/-- A loop that counts. -/
theorem foldl_count (p : α → Bool) (l : List α) (n : Int) :
    l.foldl (fun n a => if p a then n + 1 else n) n = n + l.countP p := by
  induction l generalizing n with
  | nil => simp
  | cons a l ih =>
    rw [List.foldl_cons, ih, List.countP_cons]
    by_cases hp : p a
    · rw [if_pos hp, if_pos hp, Int.natCast_add, Int.add_assoc, Int.add_comm 1]
      rfl
    · rw [if_neg hp, if_neg hp, Nat.add_zero]

/-- A loop that counts down. -/
theorem foldl_count_down (p : α → Bool) (l : List α) (n : Int) :
    l.foldl (fun n a => if p a then n - 1 else n) n = n - l.countP p := by
  induction l generalizing n with
  | nil => simp
  | cons a l ih =>
    rw [List.foldl_cons, ih, List.countP_cons]
    by_cases hp : p a
    · rw [if_pos hp, if_pos hp]
      omega
    · rw [if_neg hp, if_neg hp, Nat.add_zero]

/-- When only entries at the places `is` can count, all of them count iff the number is right. -/
theorem countP_eq_length_iff {p : α → Bool} {is : List Nat} (hnodup : is.Nodup)
    (honly : ∀ i a, l[i]? = some a → p a = true → i ∈ is) :
    l.countP p = is.length ↔ ∀ i ∈ is, ∃ a, l[i]? = some a ∧ p a = true := by
  -- the places that count, read off the numbered list
  let found := (l.zipIdx.filter fun x => p x.1).map Prod.snd
  have hmem : ∀ i, i ∈ found ↔ ∃ a, l[i]? = some a ∧ p a = true := by
    intro i
    simp only [found, List.mem_map, List.mem_filter, List.mem_zipIdx_iff_getElem?, Prod.exists,
      exists_eq_right]
  have hlen : found.length = l.countP p := by
    simp only [found, List.length_map, ← List.countP_eq_length_filter]
    conv_rhs => rw [← List.zipIdx_map_fst 0 l, List.countP_map]
    rfl
  have hnodup' : found.Nodup := by
    have hsub : found.Sublist (l.zipIdx.map Prod.snd) := List.filter_sublist.map Prod.snd
    rw [List.zipIdx_map_snd] at hsub
    exact hsub.nodup List.nodup_range'
  have hsubperm : found.Subperm is := by
    refine List.subperm_of_subset hnodup' ?_
    intro i hi
    obtain ⟨a, ha, hp⟩ := (hmem i).mp hi
    exact honly i a ha hp
  rw [← hlen]
  constructor
  · intro heq i hi
    exact (hmem i).mp ((hsubperm.perm_of_length_le (Nat.le_of_eq heq.symm)).mem_iff.mpr hi)
  · intro hall
    have hsubperm' : is.Subperm found := List.subperm_of_subset hnodup fun i hi => (hmem i).mpr (hall i hi)
    exact Nat.le_antisymm hsubperm.length_le hsubperm'.length_le

/-- How a sum changes with one entry. -/
theorem sum_map_set_add {f : α → Nat} {a : α} (hi : l[i]? = some a) (b : α) :
    ((l.set i b).map f).sum + f a = (l.map f).sum + f b := by
  induction l generalizing i with
  | nil => cases hi
  | cons c l ih =>
    cases i with
    | zero =>
      cases hi
      simp only [List.set_cons_zero, List.map_cons, List.sum_cons]
      omega
    | succ i =>
      have := ih hi
      simp only [List.set_cons_succ, List.map_cons, List.sum_cons]
      omega

theorem length_dedup_le [DecidableEq α] {l' : List α} (h : l ⊆ l') : l.dedup.length ≤ l'.dedup.length := by
  refine (List.subperm_of_subset (List.nodup_dedup l) ?_).length_le
  intro a ha
  exact List.mem_dedup.mpr (h (List.mem_dedup.mp ha))

/-- A list without repetitions that lacks an element of `l'` is shorter than `l'` without its repetitions. -/
theorem length_lt_length_dedup [DecidableEq α] {l' : List α} {a : α} (hnodup : l.Nodup) (ha : a ∉ l)
    (hsub : ∀ x ∈ l, x ∈ l') (ha' : a ∈ l') : l.length < l'.dedup.length := by
  have hcons : (a :: l).Subperm l'.dedup := by
    refine List.subperm_of_subset (List.nodup_cons.mpr ⟨ha, hnodup⟩) ?_
    intro x hx
    rcases List.mem_cons.mp hx with rfl | hx
    · exact List.mem_dedup.mpr ha'
    · exact List.mem_dedup.mpr (hsub x hx)
  exact hcons.length_le

/-- More than one entry counts iff two different ones do. -/
theorem one_lt_countP_iff [DecidableEq α] {p : α → Bool} (hnodup : l.Nodup) :
    1 < l.countP p ↔ ∃ a ∈ l, ∃ b ∈ l, p a = true ∧ p b = true ∧ a ≠ b := by
  rw [List.countP_eq_length_filter, ← List.toFinset_card_of_nodup (hnodup.filter p), Finset.one_lt_card]
  simp only [List.mem_toFinset, List.mem_filter]
  constructor
  · rintro ⟨a, ⟨ha, hpa⟩, b, ⟨hb, hpb⟩, hne⟩
    exact ⟨a, ha, b, hb, hpa, hpb, hne⟩
  · rintro ⟨a, ha, b, hb, hpa, hpb, hne⟩
    exact ⟨a, ⟨ha, hpa⟩, b, ⟨hb, hpb⟩, hne⟩

/-! ## Where two tables differ -/

section Changed
variable {p : α → α → Bool} {a : α}

/-- The first place where the change from one table to the other is one that `p` tells. -/
def changedAt (p : α → α → Bool) (l l' : List α) : Option Nat := (l.zip l').findIdx? fun x => p x.1 x.2

theorem exists_of_changedAt {l' : List α} (h : changedAt p l l' = some i) :
    ∃ a b, l[i]? = some a ∧ l'[i]? = some b ∧ p a b = true := by
  obtain ⟨hlt, hp, -⟩ := List.findIdx?_eq_some_iff_getElem.mp h
  obtain ⟨ha, hb⟩ := List.getElem?_zip_eq_some.mp (List.getElem?_eq_getElem hlt)
  exact ⟨_, _, ha, hb, hp⟩

theorem changedAt_self (hp : ∀ a, p a a = false) (l : List α) : changedAt p l l = none := by
  unfold changedAt
  rw [List.findIdx?_eq_none_iff]
  intro x hx
  obtain ⟨i, hi, rfl⟩ := List.mem_iff_getElem.mp hx
  rw [List.getElem_zip]
  exact hp _

theorem changedAt_set (hp : ∀ a, p a a = false) (hi : l[i]? = some a) (b : α) :
    changedAt p l (l.set i b) = if p a b then some i else none := by
  obtain ⟨hlt, rfl⟩ := List.getElem?_eq_some_iff.mp hi
  -- elsewhere the tables are the same
  have hother (j : Nat) (hj : j < (l.zip (l.set i b)).length) (hne : i ≠ j) :
      p (l.zip (l.set i b))[j].1 (l.zip (l.set i b))[j].2 = false := by
    rw [List.getElem_zip]
    simp only [List.getElem_set_ne hne]
    exact hp _
  have hlen : (l.zip (l.set i b)).length = l.length := by simp
  unfold changedAt
  split_ifs with hchange
  · rw [List.findIdx?_eq_some_iff_getElem]
    refine ⟨hlen ▸ hlt, by simpa using hchange, ?_⟩
    intro j hj
    rw [hother j (hlen ▸ Nat.lt_trans hj hlt) (Nat.ne_of_gt hj)]
    exact Bool.false_ne_true
  · rw [List.findIdx?_eq_none_iff]
    intro x hx
    obtain ⟨j, hj, rfl⟩ := List.mem_iff_getElem.mp hx
    by_cases heq : i = j
    · subst heq
      simpa using hchange
    · exact hother j hj heq

end Changed

/-! ## Logs -/

section Latest
variable {key : α → Nat} {log : List α} {k : Nat} {a : α}

/-- The latest entry with key `k`. -/
def latest (key : α → Nat) (log : List α) (k : Nat) : Option α := (log.filter fun a => key a = k).getLast?

theorem latest_concat (key : α → Nat) (log : List α) (a : α) (k : Nat) :
    latest key (log ++ [a]) k = if key a = k then some a else latest key log k := by
  unfold latest
  rw [List.filter_append]
  split
  · next h => simp [h]
  · next h => simp [h]

theorem key_of_latest (h : latest key log k = some a) : key a = k :=
  of_decide_eq_true (List.mem_filter.mp (List.mem_of_getLast? h)).2

theorem mem_of_latest (h : latest key log k = some a) : a ∈ log :=
  List.mem_of_mem_filter (List.mem_of_getLast? h)

end Latest

end SkiVmm.Lib
