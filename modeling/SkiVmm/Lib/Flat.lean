import Mathlib.Data.List.GetD

/-!
# `Lib.Flat` — flat files, and memory that holds them

* `fill` and `load` copy a range into and out of a memory, which is a function on addresses.
* `writeAt z file off data` is the write to a flat file: a gap between the end of the file and `off` is closed with
  `z`, then the range at `off` is overwritten. Read with the default `z`, such a write is a `fill`
  (`getD_writeAt`), so a memory that agrees with a file below its length can follow every write.
-/

namespace SkiVmm.Lib

variable {α : Type}

/-! ## Memory -/

/-- The memory after `n` elements of `src` were copied to `off`. -/
def fill (mem : Nat → α) (off n : Nat) (src : Nat → α) : Nat → α :=
  fun a => if off ≤ a ∧ a < off + n then src (a - off) else mem a

/-- The `n` elements at `off`. -/
def load (mem : Nat → α) (off n : Nat) : List α := (List.range n).map fun i => mem (off + i)

@[simp] theorem length_load (mem : Nat → α) (off n : Nat) : (load mem off n).length = n := by
  simp [load]

theorem getD_load {mem : Nat → α} {i n : Nat} (hi : i < n) (off : Nat) (z : α) :
    (load mem off n).getD i z = mem (off + i) := by
  rw [List.getD_eq_getElem _ _ (by rwa [length_load])]
  simp only [load, List.getElem_map, List.getElem_range]

theorem load_congr {mem mem' : Nat → α} {off off' n : Nat} (h : ∀ i, i < n → mem (off + i) = mem' (off' + i)) :
    load mem off n = load mem' off' n :=
  List.map_congr_left fun i hi => h i (List.mem_range.mp hi)

/-- A range in two parts. -/
theorem load_add (mem : Nat → α) (off m n : Nat) : load mem off (m + n) = load mem off m ++ load mem (off + m) n := by
  unfold load
  rw [List.range_add, List.map_append, List.map_map]
  congr 1
  refine List.map_congr_left ?_
  intro i _
  simp only [Function.comp_apply, Nat.add_assoc]

/-- A copy hides an earlier one to the same place. -/
theorem fill_fill (mem : Nat → α) (off n : Nat) (src src' : Nat → α) :
    fill (fill mem off n src) off n src' = fill mem off n src' := by
  funext a
  unfold fill
  split <;> rfl

theorem fill_eq_fill_iff {mem src src' : Nat → α} {off n : Nat} :
    fill mem off n src = fill mem off n src' ↔ ∀ i < n, src i = src' i := by
  constructor
  · intro h i hi
    have hi' := congrFun h (off + i)
    unfold fill at hi'
    rwa [if_pos (by omega), if_pos (by omega), Nat.add_sub_cancel_left] at hi'
  · intro h
    funext a
    unfold fill
    split
    · exact h (a - off) (by omega)
    · rfl

/-! ## Flat files -/

/-- `data` written at `off`. -/
def writeAt (z : α) (file : List α) (off : Nat) (data : List α) : List α :=
  (file ++ List.replicate (off - file.length) z).take off ++ data ++ file.drop (off + data.length)

section WriteAt
variable (z : α) (file data : List α) (off : Nat)

theorem length_gap : ((file ++ List.replicate (off - file.length) z).take off).length = off := by
  rw [List.length_take, List.length_append, List.length_replicate]
  omega

theorem writeAt_length : writeAt z file file.length data = file ++ data := by
  unfold writeAt
  rw [Nat.sub_self, List.replicate_zero, List.append_nil, List.take_length,
    List.drop_eq_nil_of_le (Nat.le_add_right _ _), List.append_nil]

theorem length_writeAt : (writeAt z file off data).length = max file.length (off + data.length) := by
  unfold writeAt
  rw [List.length_append, List.length_append, length_gap, List.length_drop]
  omega

/-- **Which writes append.** One of no data does as well, unless it leaves a gap. -/
theorem writeAt_eq_append_iff :
    writeAt z file off data = file ++ data ↔ off = file.length ∨ data = [] ∧ off < file.length := by
  constructor
  · intro h
    have hlen := congrArg List.length h
    rw [length_writeAt, List.length_append] at hlen
    rcases Nat.lt_trichotomy off file.length with hlt | heq | hgt
    · exact .inr ⟨List.length_eq_zero_iff.mp (by omega), hlt⟩
    · exact .inl heq
    · omega
  · rintro (rfl | ⟨rfl, hlt⟩)
    · exact writeAt_length z file data
    · unfold writeAt
      rw [List.append_nil, List.append_nil, List.length_nil, Nat.add_zero, Nat.sub_eq_zero_of_le (Nat.le_of_lt hlt),
        List.replicate_zero, List.append_nil, List.take_append_drop]

/-- The file below `off`, with the gap closed. -/
theorem getD_gap {i : Nat} (hi : i < off) :
    ((file ++ List.replicate (off - file.length) z).take off).getD i z = file.getD i z := by
  rw [List.getD_eq_getElem?_getD, List.getD_eq_getElem?_getD, List.getElem?_take_of_lt hi]
  by_cases hlt : i < file.length
  · rw [List.getElem?_append_left hlt]
  · have hge := Nat.le_of_not_lt hlt
    rw [List.getElem?_append_right hge, List.getElem?_eq_none hge, List.getElem?_replicate]
    split <;> rfl

/-- **A write is a fill**: what was not written reads as before, and as `z` behind the old end. -/
theorem getD_writeAt (i : Nat) :
    (writeAt z file off data).getD i z = fill (fun a => file.getD a z) off data.length (fun a => data.getD a z) i := by
  unfold writeAt fill
  by_cases hlo : i < off
  · rw [if_neg (by omega), List.append_assoc, List.getD_append _ _ _ _ (by rwa [length_gap]), getD_gap z file off hlo]
  · by_cases hhi : i < off + data.length
    · rw [if_pos ⟨Nat.le_of_not_lt hlo, hhi⟩,
        List.getD_append _ _ _ _ (by rw [List.length_append, length_gap]; exact hhi),
        List.getD_append_right _ _ _ _ (by rw [length_gap]; omega), length_gap]
    · have hi : off + data.length + (i - (off + data.length)) = i := by omega
      rw [if_neg (by omega), List.getD_append_right _ _ _ _ (by rw [List.length_append, length_gap]; omega),
        List.length_append, length_gap, List.getD_eq_getElem?_getD, List.getElem?_drop, hi,
        ← List.getD_eq_getElem?_getD]

/-- A range of a file, read from a memory that agrees with it. -/
theorem take_drop_eq_load {mem : Nat → α} {n : Nat} (h : ∀ i, i < file.length → mem i = file.getD i z)
    (hle : off + n ≤ file.length) : (file.drop off).take n = load mem off n := by
  refine List.ext_getElem ?_ ?_
  · rw [length_load, List.length_take, List.length_drop]
    omega
  · intro i h₁ h₂
    have hi : off + i < file.length := by
      rw [length_load] at h₂
      omega
    simp only [load, List.getElem_map, List.getElem_range, List.getElem_take, List.getElem_drop]
    rw [h _ hi, List.getD_eq_getElem _ _ hi]

/-- What was written is read back. -/
theorem take_drop_writeAt : ((writeAt z file off data).drop off).take data.length = data := by
  have hgap := length_gap z file off
  unfold writeAt
  rw [List.append_assoc, List.drop_append_of_le_length (Nat.le_of_eq hgap.symm),
    List.drop_eq_nil_of_le (Nat.le_of_eq hgap), List.nil_append, List.take_left]

end WriteAt

theorem writeAt_inj {z : α} {file data data' : List α} {off : Nat} (hlen : data.length = data'.length)
    (h : writeAt z file off data = writeAt z file off data') : data = data' := by
  rw [← take_drop_writeAt z file data off, h, hlen, take_drop_writeAt]

end SkiVmm.Lib
