import SkiVmm.Memfs.Sharing

/-!
# `Memfs.Bounds` — the bytes that a read copies

`memfs_read` cuts a request at the end of the file when `off + total_read_length` is larger than the length. The sum is
of type `size_t`. A request that wraps around is not cut, and what stops it, if anything, is the assertion on the extra
block, which comes after the copy from the mapping and is a sum of type `size_t` too.

* `memfsReadCopies` are the `memcpy` calls of a `memfs_read`, also of one that ends in the assertion
  (`memfsRead_copies`).
* A request that does not wrap around stays inside the file (`copyBlocks_inside`). One that does stays inside if and
  only if it does not overrun (`copyBlocks_wrapped_iff`).
* `memfs_inside_iff`: in any reachable state of the tables a read stays inside the file, and `fread` and `fwrite` do not
  divide by zero, if and only if the size of an item is not 0 and the request does not overrun.
-/

namespace SkiVmm.Memfs

open Lib

/-! ## Copies -/

/-- A `memcpy` out of the file: the position in the file where it starts, and the number of bytes. -/
structure Copy where
  pos : Nat
  length : Nat
deriving DecidableEq, Repr

/-- The copy from the mapping. -/
def mmapCopies (sup : MemfsSupport) (off mmapReadLength : Nat) : List Copy :=
  if off < sup.mmapLength then [{ pos := off, length := mmapReadLength }] else []

/-- The second part of `memfs_read`: the copies for `total_read_length` bytes at `off`. A position in the extra block is
    behind those of the mapping. -/
def copyBlocks (sup : MemfsSupport) (off totalReadLength : Nat) : List Copy :=
  let mmapReadLength := if off < sup.mmapLength then min (sup.mmapLength - off) totalReadLength else 0
  let fromMmap := mmapCopies sup off mmapReadLength
  if mmapReadLength ≠ totalReadLength then
    let extraReadLength := totalReadLength - mmapReadLength
    let extraOff := if mmapReadLength ≠ 0 then 0 else off - sup.mmapLength
    if sizeT (extraOff + extraReadLength) ≤ sup.extraLength then
      fromMmap ++ [{ pos := sup.mmapLength + extraOff, length := extraReadLength }]
    -- the assertion fails, but the mapping has been copied
    else fromMmap
  else fromMmap

/-- `total_read_length`, after the check for the end of the file. Items of size 0 ask for nothing, and at an offset
    inside the file the division is not reached for them. -/
def readLength (sup : MemfsSupport) (size nmemb off : Nat) : Nat :=
  if sizeT (off + sizeT (size * nmemb)) > sup.length then (sup.length - off) / size * size else sizeT (size * nmemb)

/-- The copies of a `memfs_read`. -/
def memfsReadCopies (size nmemb off : Nat) (sup : MemfsSupport) : List Copy :=
  if off > sup.length then []
  else if off = sup.length then []
  else copyBlocks sup off (readLength sup size nmemb off)

/-- All positions are below the length of the file. -/
def Copy.Inside (sup : MemfsSupport) (c : Copy) : Prop := ∀ i < c.length, c.pos + i < sup.length

/-- `memfs_read` stays inside the file: in what it copies, and in the number that it returns. -/
structure ReadsInside (sup : MemfsSupport) (size nmemb off : Nat) : Prop where
  copies : ∀ c ∈ memfsReadCopies size nmemb off sup, c.Inside sup
  returned : ∀ f updateOff data n f',
    memfsRead size nmemb off sup f updateOff = .ok (data, n, f') → n ≤ sup.length - off

/-- A request that wraps around, and either copies from a mapping that is longer than the file, or wraps around in the
    extra block again. -/
def Overruns (sup : MemfsSupport) (size nmemb off : Nat) : Prop :=
  off < sup.length ∧ 2 ^ 64 ≤ off + sizeT (size * nmemb) ∧
    (off < sup.mmapLength ∧ sup.length < sup.mmapLength ∨
      sup.mmapLength ≤ off ∧ sup.mmapLength + 2 ^ 64 ≤ off + sizeT (size * nmemb))

instance (sup : MemfsSupport) (size nmemb off : Nat) : Decidable (Overruns sup size nmemb off) := by
  unfold Overruns
  infer_instance

/-- The `n` bytes at `off` are copied. -/
def Covers (copies : List Copy) (off n : Nat) : Prop := ∀ i < n, ∃ c ∈ copies, ∃ j < c.length, c.pos + j = off + i

/-- The bytes that are copied. -/
def copied (sup : MemfsSupport) (copies : List Copy) : List Byte :=
  copies.flatMap fun c => load sup.byteAt c.pos c.length

section Copies
variable {sup : MemfsSupport} {size nmemb off m n total : Nat} {f f' : MemfsFile} {updateOff : Bool} {data : List Byte}

/-! ## The copies and the model of `memfs_read` -/

theorem covers_zero (copies : List Copy) (off : Nat) : Covers copies off 0 := by
  rintro i ⟨⟩

theorem Covers.append {cs ds : List Copy} (hcs : Covers cs off m) (hds : Covers ds (off + m) n) :
    Covers (cs ++ ds) off (m + n) := by
  intro i hi
  by_cases him : i < m
  · obtain ⟨c, hc, j, hj, heq⟩ := hcs i him
    exact ⟨c, List.mem_append_left ds hc, j, hj, heq⟩
  · obtain ⟨c, hc, j, hj, heq⟩ := hds (i - m) (by omega)
    exact ⟨c, List.mem_append_right cs hc, j, hj, by omega⟩

theorem covers_singleton (pos n : Nat) : Covers [{ pos := pos, length := n }] pos n := by
  intro i hi
  exact ⟨_, List.mem_singleton_self _, i, hi, rfl⟩

theorem mmapCopies_covers (hin : m ≠ 0 → off + m ≤ sup.mmapLength) : Covers (mmapCopies sup off m) off m := by
  unfold mmapCopies
  split
  · exact covers_singleton off m
  · obtain rfl : m = 0 := by omega
    exact covers_zero [] off

theorem mmapCopies_copied (hin : m ≠ 0 → off + m ≤ sup.mmapLength) :
    copied sup (mmapCopies sup off m) = load sup.mmapAddr off m := by
  unfold mmapCopies copied
  split
  · rw [List.flatMap_singleton]
    refine load_congr ?_
    intro i hi
    simp only at hi ⊢
    exact if_pos (by omega)
  · obtain rfl : m = 0 := by omega
    rfl

theorem extraCopy_copied (sup : MemfsSupport) (extraOff n : Nat) :
    copied sup [{ pos := sup.mmapLength + extraOff, length := n }] = load sup.extraAddr extraOff n := by
  unfold copied
  rw [List.flatMap_singleton]
  refine load_congr ?_
  intro i hi
  simp only [MemfsSupport.byteAt]
  rw [if_neg (by omega), show sup.mmapLength + extraOff + i - sup.mmapLength = extraOff + i by omega]

/-- **What a read returns** are the bytes of its copies, and these are all positions from `off` on. -/
theorem memfsRead_copies (h : memfsRead size nmemb off sup f updateOff = .ok (data, n, f')) :
    data = copied sup (memfsReadCopies size nmemb off sup) ∧ Covers (memfsReadCopies size nmemb off sup) off n := by
  unfold memfsRead at h
  unfold memfsReadCopies
  simp only at h
  by_cases hbehind : off > sup.length
  · rw [if_pos hbehind] at h ⊢
    cases h
    exact ⟨rfl, covers_zero [] off⟩
  rw [if_neg hbehind] at h ⊢
  by_cases hend : off = sup.length
  · rw [if_pos hend] at h ⊢
    cases h
    exact ⟨rfl, covers_zero [] off⟩
  rw [if_neg hend] at h ⊢
  unfold readLength copyBlocks
  generalize (if sizeT (off + sizeT (size * nmemb)) > sup.length then (sup.length - off) / size * size
    else sizeT (size * nmemb)) = total at h ⊢
  obtain ⟨m, hm, hle, hin, hextra⟩ := mmapPart_spec sup.mmapLength off total
  simp only [hm] at h ⊢
  have hbytes : copied sup (mmapCopies sup off m) = load sup.mmapAddr off m := mmapCopies_copied hin
  have hcovers := mmapCopies_covers hin
  by_cases hall : m = total
  · rw [if_neg (not_not.mpr hall)] at h ⊢
    cases h
    exact ⟨hbytes.symm, hall ▸ hcovers⟩
  rw [if_pos hall] at h ⊢
  replace hextra := hextra hall
  generalize (if m ≠ 0 then 0 else off - sup.mmapLength) = extraOff at hextra h ⊢
  split at h
  · next hroom =>
    rw [if_pos hroom]
    cases h
    constructor
    · rw [← hbytes, ← extraCopy_copied]
      exact List.flatMap_append.symm
    · have hrest := hcovers.append (covers_singleton (off + m) (n - m))
      rwa [Nat.add_sub_cancel' hle, ← hextra] at hrest
  · cases h

/-- **What is copied is returned at most.** -/
theorem ReadsInside.of_copies (h : ∀ c ∈ memfsReadCopies size nmemb off sup, c.Inside sup) :
    ReadsInside sup size nmemb off := by
  refine ⟨h, ?_⟩
  intro f updateOff data n f' hread
  cases n with
  | zero => exact Nat.zero_le _
  | succ n =>
    -- the last byte that is returned was copied
    obtain ⟨c, hc, j, hj, heq⟩ := (memfsRead_copies hread).2 n (Nat.lt_succ_self n)
    have hpos := h c hc j hj
    omega

/-! ## Requests that wrap around, and others -/

/-- No copy goes behind the end of the request. -/
theorem copyBlocks_end_le {c : Copy} (hc : c ∈ copyBlocks sup off total) : c.pos + c.length ≤ off + total := by
  unfold copyBlocks at hc
  obtain ⟨m, hm, hle, hin, hextra⟩ := mmapPart_spec sup.mmapLength off total
  simp only [hm] at hc
  have hmmap {c : Copy} (hc : c ∈ mmapCopies sup off m) : c.pos + c.length ≤ off + total := by
    unfold mmapCopies at hc
    split at hc
    · rw [List.mem_singleton.mp hc]
      exact Nat.add_le_add_left hle off
    · cases hc
  split at hc
  · next hall =>
    replace hextra := hextra hall
    generalize (if m ≠ 0 then 0 else off - sup.mmapLength) = extraOff at hextra hc
    split at hc
    · rcases List.mem_append.mp hc with hc | hc
      · exact hmmap hc
      · rw [List.mem_singleton.mp hc]
        simp only [hextra]
        omega
    · exact hmmap hc
  · exact hmmap hc

theorem copyBlocks_inside (hfit : off + total ≤ sup.length) {c : Copy} (hc : c ∈ copyBlocks sup off total) :
    c.Inside sup := by
  intro i hi
  have hend := copyBlocks_end_le hc
  omega

/-- A request that wraps around at an offset in the mapping copies the rest of the mapping. -/
theorem copyBlocks_wrapped_mmap (hcap : sup.capacity < 2 ^ 63) (htotal : total < 2 ^ 64) (hwrap : 2 ^ 64 ≤ off + total)
    (hoff : off < sup.mmapLength) :
    copyBlocks sup off total = [{ pos := off, length := sup.mmapLength - off }] := by
  unfold MemfsSupport.capacity at hcap
  have hm : (if off < sup.mmapLength then min (sup.mmapLength - off) total else 0) = sup.mmapLength - off := by
    rw [if_pos hoff]
    omega
  have hextra : ¬sizeT (0 + (total - (sup.mmapLength - off))) ≤ sup.extraLength := by
    rw [sizeT_of_lt (by omega)]
    omega
  have hstart : (if sup.mmapLength - off ≠ 0 then 0 else off - sup.mmapLength) = 0 := if_pos (by omega)
  unfold copyBlocks mmapCopies
  simp only [hm, hstart]
  rw [if_pos (by omega), if_neg hextra, if_pos hoff]

/-- One at an offset in the extra block copies nothing, or all of the request. -/
theorem copyBlocks_wrapped_extra (hlen : sup.length ≤ sup.capacity) (hcap : sup.capacity < 2 ^ 63)
    (htotal : total < 2 ^ 64) (hwrap : 2 ^ 64 ≤ off + total) (hoff : off < sup.length) (hextra : sup.mmapLength ≤ off) :
    copyBlocks sup off total
      = if sup.mmapLength + 2 ^ 64 ≤ off + total then [{ pos := off, length := total }] else [] := by
  unfold MemfsSupport.capacity at hlen hcap
  have hm : (if off < sup.mmapLength then min (sup.mmapLength - off) total else 0) = 0 := if_neg (by omega)
  have hroom :
      sizeT (off - sup.mmapLength + (total - 0)) ≤ sup.extraLength ↔ sup.mmapLength + 2 ^ 64 ≤ off + total := by
    unfold sizeT
    omega
  have hstart : (if 0 ≠ 0 then 0 else off - sup.mmapLength) = off - sup.mmapLength := if_neg (not_not.mpr rfl)
  have hnone : mmapCopies sup off 0 = [] := if_neg (by omega)
  unfold copyBlocks
  simp only [hm, hstart, hroom, hnone]
  rw [if_pos (by omega), List.nil_append, Nat.sub_zero, Nat.add_sub_cancel' hextra]

/-- **A request that wraps around** stays inside the file if and only if it does not overrun. -/
theorem copyBlocks_wrapped_iff (hlen : sup.length ≤ sup.capacity) (hcap : sup.capacity < 2 ^ 63)
    (htotal : total < 2 ^ 64) (hwrap : 2 ^ 64 ≤ off + total) (hoff : off < sup.length) :
    (∀ c ∈ copyBlocks sup off total, c.Inside sup) ↔
      ¬(off < sup.mmapLength ∧ sup.length < sup.mmapLength ∨
        sup.mmapLength ≤ off ∧ sup.mmapLength + 2 ^ 64 ≤ off + total) := by
  by_cases hmmap : off < sup.mmapLength
  · rw [copyBlocks_wrapped_mmap hcap htotal hwrap hmmap, List.forall_mem_singleton]
    constructor
    · intro hinside hover
      -- the last byte of the mapping
      have hlast := hinside (sup.mmapLength - off - 1) (by simp only; omega)
      simp only at hlast
      omega
    · intro hnot i hi
      simp only at hi ⊢
      omega
  · rw [copyBlocks_wrapped_extra hlen hcap htotal hwrap hoff (Nat.le_of_not_lt hmmap)]
    split
    · next hagain =>
      rw [List.forall_mem_singleton]
      refine iff_of_false ?_ (by omega)
      intro hinside
      have hlast := hinside (total - 1) (by simp only; omega)
      simp only at hlast
      omega
    · next hagain =>
      refine iff_of_true ?_ (by omega)
      rintro c ⟨⟩

/-- **A read** stays inside the file if and only if it does not overrun. -/
theorem readsInside_iff {content : List Byte} (h : Represents sup content) (size nmemb off : Nat) :
    ReadsInside sup size nmemb off ↔ ¬Overruns sup size nmemb off := by
  have hlen := h.length_le
  have hcap := h.capacity_lt
  have htotal : sizeT (size * nmemb) < 2 ^ 64 := Nat.mod_lt _ (by decide)
  have hcopies : ReadsInside sup size nmemb off ↔ ∀ c ∈ memfsReadCopies size nmemb off sup, c.Inside sup :=
    ⟨ReadsInside.copies, .of_copies⟩
  rw [hcopies]
  unfold memfsReadCopies Overruns
  by_cases hoff : off < sup.length
  · rw [if_neg (by omega), if_neg (by omega)]
    by_cases hwrap : 2 ^ 64 ≤ off + sizeT (size * nmemb)
    · -- the sum has wrapped around, to a value below the offset
      have hsum : ¬sizeT (off + sizeT (size * nmemb)) > sup.length := by
        rw [sizeT, Nat.mod_eq_sub_mod hwrap, Nat.mod_eq_of_lt (by omega)]
        omega
      have hread : readLength sup size nmemb off = sizeT (size * nmemb) := if_neg hsum
      rw [hread, copyBlocks_wrapped_iff hlen hcap htotal hwrap hoff]
      simp only [hoff, hwrap, true_and]
    · refine iff_of_true ?_ (by omega)
      intro c hc
      refine copyBlocks_inside ?_ hc
      unfold readLength
      rw [sizeT_of_lt (by omega)]
      split
      · have hcut := Nat.div_mul_le_self (sup.length - off) size
        omega
      · omega
  · refine iff_of_true ?_ (by omega)
    intro c hc
    split at hc
    · cases hc
    · rw [if_pos (by omega)] at hc
      cases hc

/-! ## The division by the size of an item -/

/-- A read of items of size 0 succeeds. -/
theorem memfsRead_size_zero (nmemb off : Nat) (sup : MemfsSupport) (f : MemfsFile) (updateOff : Bool) :
    ∃ r, memfsRead 0 nmemb off sup f updateOff = .ok r := by
  have htotal : sizeT (0 * nmemb) = 0 := by rw [Nat.zero_mul, sizeT_of_lt (by decide)]
  unfold memfsRead
  simp only [htotal, Nat.mul_zero, ite_self, Nat.min_zero]
  split
  · exact ⟨_, rfl⟩
  split
  · exact ⟨_, rfl⟩
  · rw [if_neg (not_not.mpr rfl)]
    exact ⟨_, rfl⟩

end Copies

section Division
variable {s : Fs} {fd : Nat} {h : Handle}

/-- `fread` divides by zero exactly when its items have the size 0. -/
theorem Fs.OpenAs.fread_divisionByZero_iff (hopen : s.OpenAs fd h) (size nmemb : Nat) :
    s.fileCall (.fread fd size nmemb) = .error .divisionByZero ↔ size = 0 := by
  unfold Fs.fileCall State.fileCall State.fread
  simp only [FileCall.fd, hopen.getElem?]
  rw [hopen.memfsGetFd, ok_bind]
  constructor
  · intro herror
    by_contra hsize
    refine bind_ne_error (bind_ne_error (memfsRead_ne_error (by decide) _ _ _ _ _ _) ?_) ?_ herror
    · rintro ⟨data, bytes, f⟩ h
      simp only at h
      rw [if_neg hsize] at h
      cases h
    · rintro ⟨st, reply⟩ h
      cases h
  · rintro rfl
    obtain ⟨r, hread⟩ := memfsRead_size_zero nmemb h.file.off (s.view h).sup h.file true
    rw [hread]
    rfl

/-- `fwrite` does so at most then. -/
theorem Fs.OpenAs.fwrite_ne_divisionByZero (hopen : s.OpenAs fd h) {size : Nat} (hsize : size ≠ 0) (nmemb : Nat)
    (ptr : List Byte) : s.fileCall (.fwrite fd size nmemb ptr) ≠ .error .divisionByZero := by
  unfold Fs.fileCall State.fileCall State.fwrite
  simp only [FileCall.fd, hopen.getElem?]
  rw [hopen.memfsGetFd, ok_bind]
  refine bind_ne_error (bind_ne_error (memfsWrite_ne_error (by decide) (by decide) _ _ _ _ _ _ _) ?_) ?_
  · rintro ⟨sup, f, bytes⟩ h
    simp only at h
    rw [if_neg hsize] at h
    cases h
  · rintro ⟨st, reply⟩ h
    cases h

/-- **When a request is served as it should be**: at any offset of a file under memfs, and for items of any size and
    number. -/
theorem memfs_inside_iff (hs : Reachable s) (hopen : s.OpenAs fd h) (size nmemb off : Nat) :
    (ReadsInside (s.supAt h.sup) size nmemb off ∧ s.fileCall (.fread fd size nmemb) ≠ .error .divisionByZero ∧
        ∀ ptr, s.fileCall (.fwrite fd size nmemb ptr) ≠ .error .divisionByZero) ↔
      size ≠ 0 ∧ ¬Overruns (s.supAt h.sup) size nmemb off := by
  obtain ⟨⟨content, hcontent⟩, -⟩ := hs.ok.represents hopen.mem
  rw [readsInside_iff hcontent, ne_eq, hopen.fread_divisionByZero_iff]
  constructor
  · rintro ⟨hinside, hsize, -⟩
    exact ⟨hsize, hinside⟩
  · rintro ⟨hsize, hinside⟩
    exact ⟨hinside, hsize, hopen.fwrite_ne_divisionByZero hsize nmemb⟩

end Division

/-! ## A file that was cut -/

/-- A file of three bytes that `ftruncate` has cut to two. -/
def cutFile : Fs :=
  { sups := [{ inode := 7, sup := { Memfs.memfsSupportOpen [1, 2, 3] with length := 2 } }], files := [handleOf 0 1 7] }

theorem reachable_cutFile : Reachable cutFile := by
  have hopening : Fs.opening { sups := [], files := [] } (openOf 3 1 7 [1, 2, 3]) (.openFd false false)
      = .ok ({ sups := [{ inode := 7, sup := Memfs.memfsSupportOpen [1, 2, 3] }], files := [handleOf 0 1 7] },
          some 0) := by
    have hkey : (openOf 3 1 7 [1, 2, 3]).node.key = 7 := by decide
    rw [Fs.opening_first (by decide) (by decide) (by decide) false, hkey]
    rfl
  have hcut : Fs.step { sups := [{ inode := 7, sup := Memfs.memfsSupportOpen [1, 2, 3] }], files := [handleOf 0 1 7] }
      (.file (.call (.ftruncate 100 2))) = .ok cutFile := rfl
  exact ⟨[.opening (openOf 3 1 7 [1, 2, 3]) (.openFd false false), .file (.call (.ftruncate 100 2))],
    .cons trivial (Fs.step_opening hopening) (.cons trivial hcut (.nil cutFile))⟩

theorem cutFile_openAs : cutFile.OpenAs 100 (handleOf 0 1 7) := ⟨by decide, rfl, rfl⟩

theorem memfs_inside_iff_oneByte :
    ReadsInside (cutFile.supAt 0) 1 1 1 ∧ cutFile.fileCall (.fread 100 1 1) ≠ .error .divisionByZero ∧
      ∀ ptr, cutFile.fileCall (.fwrite 100 1 1 ptr) ≠ .error .divisionByZero :=
  (memfs_inside_iff reachable_cutFile cutFile_openAs 1 1 1).mpr (by decide)

/-- A request for `2 ^ 64 - 1` bytes at the offset 1 copies the byte that was cut off as well. And an `fread` of an item
    of size 0 divides by zero. -/
theorem cutFile_overrun :
    memfsReadCopies 1 (2 ^ 64 - 1) 1 (cutFile.supAt 0) = [{ pos := 1, length := 2 }] ∧
      ¬ReadsInside (cutFile.supAt 0) 1 (2 ^ 64 - 1) 1 ∧
      cutFile.fileCall (.fread 100 0 1) = .error .divisionByZero := by
  have hcopies : memfsReadCopies 1 (2 ^ 64 - 1) 1 (cutFile.supAt 0) = [{ pos := 1, length := 2 }] := by decide
  refine ⟨hcopies, ?_, (cutFile_openAs.fread_divisionByZero_iff 0 1).mpr rfl⟩
  intro hinside
  have hlast := hinside.copies _ (hcopies ▸ List.mem_singleton_self _) 1 (by decide)
  exact absurd hlast (by decide)

end SkiVmm.Memfs
