import Mathlib.Data.List.DropRight
import Mathlib.Data.List.Dedup

/-!
# `Lib.Lru` — caches that evict the least recently used key

A cache of capacity `m` is the list of its keys in the order of their latest use, the oldest first. `lruStep` uses one
key. `lastDistinct m uses` says what such a cache is for: the last `m` distinct keys of the uses so far, in the order
of their latest use. `lruStep_lastDistinct` is the step of the refinement; runs follow by induction.
-/

namespace SkiVmm.Lib

variable {κ : Type} [DecidableEq κ]

/-- Use a key: a hit moves it to the end, a miss appends it, in place of the oldest key if the cache is full. -/
def lruStep (m : Nat) (keys : List κ) (k : κ) : List κ :=
  if k ∈ keys then keys.erase k ++ [k]
  else if keys.length < m then keys ++ [k]
  else keys.tail ++ [k]

/-- The last `m` distinct keys of a history, in the order of their latest use. -/
def lastDistinct (m : Nat) (uses : List κ) : List κ := uses.dedup.rtake m

theorem lastDistinct_nil (m : Nat) : lastDistinct m ([] : List κ) = [] := by
  simp [lastDistinct]

/-- The key used last is the last one. -/
theorem dedup_concat (uses : List κ) (k : κ) : (uses ++ [k]).dedup = uses.dedup.erase k ++ [k] := by
  induction uses with
  | nil => rfl
  | cons x uses ih =>
    rw [List.cons_append]
    by_cases hx : x ∈ uses
    · rw [List.dedup_cons_of_mem (List.mem_append_left _ hx), List.dedup_cons_of_mem hx, ih]
    · rw [List.dedup_cons_of_notMem hx]
      by_cases hxk : x = k
      · subst hxk
        have hnot : x ∉ uses.dedup := fun hmem => hx (List.mem_dedup.mp hmem)
        rw [List.dedup_cons_of_mem (List.mem_append_right _ List.mem_cons_self), ih, List.erase_cons_head,
          List.erase_of_not_mem hnot]
      · have hnot : x ∉ uses ++ [k] := by simp [hx, hxk]
        rw [List.dedup_cons_of_notMem hnot, ih, List.erase_cons_tail (by simpa using hxk), List.cons_append]

/-! ## The end of a list -/

section Ends
variable {all : List κ} {m : Nat} {k : κ}

omit [DecidableEq κ] in
theorem rdrop_append_rtake (all : List κ) (m : Nat) : all.rdrop m ++ all.rtake m = all := by
  unfold List.rdrop List.rtake
  exact List.take_append_drop _ _

omit [DecidableEq κ] in
theorem length_rtake (all : List κ) (m : Nat) : (all.rtake m).length = min m all.length := by
  unfold List.rtake
  rw [List.length_drop]
  omega

omit [DecidableEq κ] in
/-- The last elements of a list, by a split of the list. -/
theorem rtake_append_of_length_eq {old new : List κ} (h : new.length = m) : (old ++ new).rtake m = new := by
  unfold List.rtake
  rw [List.length_append, h, Nat.add_sub_cancel, List.drop_left]

omit [DecidableEq κ] in
theorem rtake_of_length_le (h : all.length ≤ m) : all.rtake m = all := by
  unfold List.rtake
  rw [Nat.sub_eq_zero_of_le h, List.drop_zero]

/-- A key among the last `m` moves to the end: the keys before them do not matter. -/
theorem rtake_erase_concat_of_mem (hnodup : all.Nodup) (hhit : k ∈ all.rtake m) :
    (all.erase k ++ [k]).rtake m = (all.rtake m).erase k ++ [k] := by
  have hpos := List.length_pos_of_mem hhit
  have hlen := length_rtake all m
  have hsplit := rdrop_append_rtake all m
  have hcount : ((all.rtake m).erase k ++ [k]).length = (all.rtake m).length := by
    rw [List.length_append, List.length_erase_of_mem hhit, List.length_singleton]
    omega
  have hnot : k ∉ all.rdrop m := by
    rw [← hsplit] at hnodup
    exact fun hmem => (List.nodup_append'.mp hnodup).2.2 hmem hhit
  have herase : all.erase k ++ [k] = all.rdrop m ++ ((all.rtake m).erase k ++ [k]) := by
    nth_rewrite 1 [← hsplit]
    rw [List.erase_append_right _ hnot, List.append_assoc]
  by_cases hfull : m ≤ all.length
  · rw [herase, rtake_append_of_length_eq (by omega)]
  · have hnil : all.rdrop m = [] := by
      unfold List.rdrop
      rw [Nat.sub_eq_zero_of_le (by omega), List.take_zero]
    rw [herase, hnil, List.nil_append, rtake_of_length_le (by omega)]

/-- A key that is not among the last `m` takes the place of the first of them. It may be one of the keys before. -/
theorem rtake_erase_concat_of_full (hm : 0 < m) (hmiss : k ∉ all.rtake m) (hfull : m ≤ all.length) :
    (all.erase k ++ [k]).rtake m = (all.rtake m).tail ++ [k] := by
  have hlen := length_rtake all m
  have herase : all.erase k = (all.rdrop m).erase k ++ all.rtake m := by
    nth_rewrite 1 [← rdrop_append_rtake all m]
    by_cases hold : k ∈ all.rdrop m
    · rw [List.erase_append_left _ hold]
    · rw [List.erase_append_right _ hold, List.erase_of_not_mem hmiss, List.erase_of_not_mem hold]
  obtain ⟨first, rest, hcache⟩ : ∃ first rest, all.rtake m = first :: rest :=
    List.exists_cons_of_length_pos (by omega)
  have hcount : (rest ++ [k]).length = m := by
    rw [hcache, List.length_cons] at hlen
    rw [List.length_append, List.length_singleton]
    omega
  have hassoc : (all.rdrop m).erase k ++ first :: rest ++ [k]
      = ((all.rdrop m).erase k ++ [first]) ++ (rest ++ [k]) := by simp
  rw [herase, hcache, List.tail_cons, hassoc, rtake_append_of_length_eq hcount]

end Ends

/-- **A use refines the history**: what the cache holds afterwards are again the last distinct keys. -/
theorem lruStep_lastDistinct {m : Nat} (hm : 0 < m) (uses : List κ) (k : κ) :
    lruStep m (lastDistinct m uses) k = lastDistinct m (uses ++ [k]) := by
  have hlen := length_rtake uses.dedup m
  unfold lruStep lastDistinct
  rw [dedup_concat]
  split_ifs with hhit hroom
  · exact (rtake_erase_concat_of_mem (List.nodup_dedup uses) hhit).symm
  · -- nothing has been evicted so far
    have hall : uses.dedup.rtake m = uses.dedup := rtake_of_length_le (by omega)
    rw [hall] at hhit hroom ⊢
    rw [List.erase_of_not_mem hhit, rtake_of_length_le]
    rw [List.length_append, List.length_singleton]
    exact hroom
  · exact (rtake_erase_concat_of_full hm hhit (by omega)).symm

end SkiVmm.Lib
