import SkiVmm.Memfs.Model

/-!
# `Memfs.Refinement` — memfs behaves like a flat file

The specification is `FlatFile`: one list of bytes and the offsets of the handles. `Represents` ties a support to
the bytes of a flat file. It speaks of the bytes below the length only, so it does not matter what the two blocks
keep above it after a truncation.

`storeBlocks_spec` and `memfsRead_spec` are the two places where the split into blocks is looked at. Above them, a
support is one memory, `byteAt`, and a write is a `fill`.
-/

namespace SkiVmm.Memfs

open Lib

/-! ## The flat file -/

/-- The file and the offsets of its handles. -/
structure FlatFile where
  content : List Byte
  offs : List Nat
deriving DecidableEq, Repr

def FlatFile.off (file : FlatFile) (fd : Nat) : Nat := file.offs.getD (fd - fdStart) 0

def FlatFile.setOff (file : FlatFile) (fd off : Nat) : FlatFile :=
  { file with offs := file.offs.set (fd - fdStart) off }

/-- The bytes a read at `off` gets. -/
def FlatFile.slice (file : FlatFile) (off count : Nat) : List Byte := (file.content.drop off).take count

def FlatFile.seekBase (file : FlatFile) (fd : Nat) (whence : Whence) : Nat :=
  Memfs.seekBase (file.off fd) file.content.length whence

def FlatFile.call (file : FlatFile) : Call → FlatFile × Reply
  | .read fd count =>
    let data := file.slice (file.off fd) count
    (file.setOff fd (file.off fd + data.length), { ret := data.length, data := data })
  | .pread _ count offset =>
    let data := file.slice offset count
    (file, { ret := data.length, data := data })
  | .write fd ptr =>
    ({ file with content := writeAt 0 file.content (file.off fd) ptr }.setOff fd (file.off fd + ptr.length),
      { ret := ptr.length, data := [] })
  | .pwrite _ ptr offset =>
    ({ file with content := writeAt 0 file.content offset ptr }, { ret := ptr.length, data := [] })
  | .ftruncate _ length => ({ file with content := file.content.take length }, { ret := 0, data := [] })
  | .lseek fd offset whence =>
    (file.setOff fd ((file.seekBase fd whence : Int) + offset).toNat,
      { ret := (file.seekBase fd whence : Int) + offset, data := [] })

def FlatFile.run (file : FlatFile) : List Call → FlatFile × List Observation
  | [] => (file, [])
  | call :: calls =>
    let (file, reply) := file.call call
    let (last, rest) := file.run calls
    (last, { reply := reply, length := file.content.length, offs := file.offs } :: rest)

/-- The descriptor is that of a handle. -/
def FlatFile.IsHandle (file : FlatFile) (fd : Nat) : Prop := fdStart ≤ fd ∧ fd - fdStart < file.offs.length

/-- The calls that memfs supports when `capacity` bytes fit into the blocks: no sum of sizes overflows, a write ends
    within the blocks, a truncation does not extend the file, and a seek stays within it. -/
def FlatFile.Allowed (capacity : Nat) (file : FlatFile) : Call → Prop
  | .read fd count => file.IsHandle fd ∧ file.off fd + count < 2 ^ 64
  | .pread fd count offset => file.IsHandle fd ∧ offset + count < 2 ^ 64
  | .write fd ptr => file.IsHandle fd ∧ file.off fd + ptr.length ≤ capacity
  | .pwrite fd ptr offset => file.IsHandle fd ∧ offset + ptr.length ≤ capacity
  | .ftruncate fd length => file.IsHandle fd ∧ length ≤ file.content.length
  | .lseek fd offset whence =>
    file.IsHandle fd ∧ 0 ≤ (file.seekBase fd whence : Int) + offset ∧
      (file.seekBase fd whence : Int) + offset ≤ file.content.length

def FlatFile.AllowedAll (capacity : Nat) (file : FlatFile) : List Call → Prop
  | [] => True
  | call :: calls => file.Allowed capacity call ∧ (file.call call).1.AllowedAll capacity calls

/-! ## The two blocks as one memory -/

def MemfsSupport.capacity (sup : MemfsSupport) : Nat := sup.mmapLength + sup.extraLength

def MemfsSupport.byteAt (sup : MemfsSupport) (i : Nat) : Byte :=
  if i < sup.mmapLength then sup.mmapAddr i else sup.extraAddr (i - sup.mmapLength)

theorem sizeT_of_lt {n : Nat} (h : n < 2 ^ 64) : sizeT n = n := Nat.mod_eq_of_lt h

theorem toOffT_of_lt {n : Nat} (h : n < 2 ^ 63) : toOffT n = n := by
  unfold toOffT
  apply Int.bmod_eq_of_le <;> omega

section Blocks
variable {sup : MemfsSupport} {off n : Nat}

/-- How much of a range of `n` bytes at `off` lies in the mapping, and where in the extra block the rest of it begins,
    as `memfs_read` and `memfs_write` compute them. -/
theorem mmapPart_spec (mmapLength off n : Nat) :
    ∃ m, (if off < mmapLength then min (mmapLength - off) n else 0) = m ∧ m ≤ n ∧ (m ≠ 0 → off + m ≤ mmapLength) ∧
      (m ≠ n → mmapLength + (if m ≠ 0 then 0 else off - mmapLength) = off + m) := by
  generalize hm : (if off < mmapLength then min (mmapLength - off) n else 0) = m
  refine ⟨m, rfl, ?_⟩
  have hcases : off < mmapLength ∧ m = min (mmapLength - off) n ∨ mmapLength ≤ off ∧ m = 0 := by
    split at hm <;> omega
  split <;> omega

/-- **Storing** a range that ends within the blocks fills it, and changes nothing else. -/
theorem storeBlocks_spec (src : Nat → Byte) (hfit : off + n ≤ sup.capacity) (hcap : sup.capacity < 2 ^ 63) :
    ∃ mmapAddr extraAddr, storeBlocks sup off n src = .ok { sup with mmapAddr := mmapAddr, extraAddr := extraAddr } ∧
      ∀ i, { sup with mmapAddr := mmapAddr, extraAddr := extraAddr }.byteAt i = fill sup.byteAt off n src i := by
  unfold MemfsSupport.capacity at hfit hcap
  obtain ⟨m, hm, hle, hin, hextra⟩ := mmapPart_spec sup.mmapLength off n
  unfold storeBlocks
  simp only [hm]
  by_cases hall : m = n
  · -- all of it lies in the mapping
    subst hall
    refine ⟨_, sup.extraAddr, if_neg (fun hne => hne rfl), ?_⟩
    intro i
    simp only [MemfsSupport.byteAt, fill]
    by_cases hi : i < sup.mmapLength
    · rw [if_pos hi, if_pos hi]
    · rw [if_neg hi, if_neg hi, if_neg (by omega)]
  · -- the rest goes to the extra block, from its start on or from where the range begins
    replace hextra := hextra hall
    generalize (if m ≠ 0 then 0 else off - sup.mmapLength) = extraOff at hextra
    have hroom : sizeT (extraOff + (n - m)) ≤ sup.extraLength := by
      rw [sizeT_of_lt (by omega)]
      omega
    rw [if_pos hall, if_pos hroom]
    refine ⟨_, _, rfl, ?_⟩
    intro i
    simp only [MemfsSupport.byteAt, fill]
    by_cases hi : i < sup.mmapLength
    · rw [if_pos hi, if_pos hi]
      have hiff : (off ≤ i ∧ i < off + m) ↔ (off ≤ i ∧ i < off + n) := by omega
      simp only [hiff]
    · rw [if_neg hi, if_neg hi]
      have hiff : (extraOff ≤ i - sup.mmapLength ∧ i - sup.mmapLength < extraOff + (n - m)) ↔
          (off ≤ i ∧ i < off + n) := by omega
      simp only [hiff]
      split
      · congr 1
        omega
      · rfl

/-- **Reading** at an offset within the file. -/
theorem memfsRead_spec {count : Nat} {f : MemfsFile} {updateOff : Bool} (hoff : off < sup.length)
    (hlen : sup.length ≤ sup.capacity) (hcap : sup.capacity < 2 ^ 63) (hsum : off + count < 2 ^ 64) :
    memfsRead 1 count off sup f updateOff
      = .ok (load sup.byteAt off (min count (sup.length - off)), min count (sup.length - off),
          if updateOff then { f with off := off + min count (sup.length - off) } else f) := by
  unfold MemfsSupport.capacity at hlen hcap
  -- the number of bytes is cut at the end of the file
  have htotal : (if sizeT (off + sizeT (1 * count)) > sup.length then (sup.length - off) / 1 * 1 else sizeT (1 * count))
      = min count (sup.length - off) := by
    rw [Nat.one_mul, sizeT_of_lt (by omega : count < 2 ^ 64), sizeT_of_lt hsum]
    split <;> omega
  obtain ⟨m, hm, hle, hin, hextra⟩ := mmapPart_spec sup.mmapLength off (min count (sup.length - off))
  unfold memfsRead
  simp only [htotal, hm]
  generalize htot : min count (sup.length - off) = total at hle hin hextra ⊢
  rw [if_neg (by omega), if_neg (by omega), sizeT_of_lt (by omega : off + total < 2 ^ 64)]
  have hload : load sup.mmapAddr off m = load sup.byteAt off m := by
    refine load_congr ?_
    intro i hi
    exact (if_pos (by omega)).symm
  by_cases hall : m = total
  · rw [if_neg (fun hne => hne hall), hload, hall]
  · replace hextra := hextra hall
    generalize (if m ≠ 0 then 0 else off - sup.mmapLength) = extraOff at hextra ⊢
    have hroom : sizeT (extraOff + (total - m)) ≤ sup.extraLength := by
      rw [sizeT_of_lt (by omega)]
      omega
    have hload' : load sup.extraAddr extraOff (total - m) = load sup.byteAt (off + m) (total - m) := by
      refine load_congr ?_
      intro i hi
      unfold MemfsSupport.byteAt
      rw [if_neg (by omega)]
      congr 1
      omega
    rw [if_pos hall, if_pos hroom, hload, hload', ← load_add, Nat.add_sub_cancel' hle]

end Blocks

/-! ## The support and the bytes of a file -/

/-- The support holds the bytes `content`. -/
structure Represents (sup : MemfsSupport) (content : List Byte) : Prop where
  length_eq : sup.length = content.length
  length_le : sup.length ≤ sup.capacity
  capacity_lt : sup.capacity < 2 ^ 63
  bytes : ∀ i, i < content.length → sup.byteAt i = content.getD i 0

theorem represents_open {content : List Byte} (hcap : content.length + mmapExtraSpace < 2 ^ 63) :
    Represents (memfsSupportOpen content) content := by
  refine ⟨rfl, Nat.le_add_right _ _, hcap, ?_⟩
  intro i hi
  exact if_pos hi

section Represents
variable {sup : MemfsSupport} {content data : List Byte} {off : Nat} {f : MemfsFile} {updateOff : Bool}

/-- A truncation: the bytes that are cut off stay in the blocks, but nothing is said about them any more. -/
theorem Represents.truncate (h : Represents sup content) {n : Nat} (hn : n ≤ content.length) :
    Represents { sup with length := n } (content.take n) := by
  have hlen : (content.take n).length = n := List.length_take_of_le hn
  refine ⟨hlen.symm, ?_, h.capacity_lt, ?_⟩
  · exact Nat.le_trans (h.length_eq ▸ hn) h.length_le
  · intro i hi
    rw [hlen] at hi
    rw [List.getD_eq_getElem?_getD, List.getElem?_take_of_lt hi, ← List.getD_eq_getElem?_getD]
    exact h.bytes i (Nat.lt_of_lt_of_le hi hn)

/-- **A read** gets the bytes of the file. -/
theorem Represents.read (h : Represents sup content) {count : Nat} (f : MemfsFile) (updateOff : Bool)
    (hsum : off + count < 2 ^ 64) (hcur : updateOff = true → f.off = off) :
    memfsRead 1 count off sup f updateOff
      = .ok ((content.drop off).take count, ((content.drop off).take count).length,
          if updateOff then { f with off := off + ((content.drop off).take count).length } else f) := by
  by_cases hoff : off < sup.length
  · have hlen : ((content.drop off).take count).length = min count (sup.length - off) := by
      rw [List.length_take, List.length_drop, h.length_eq]
    have hload : (content.drop off).take count = load sup.byteAt off (min count (sup.length - off)) := by
      rw [List.take_eq_take_min, List.length_drop, ← h.length_eq]
      exact take_drop_eq_load 0 content off h.bytes (by rw [← h.length_eq]; omega)
    rw [memfsRead_spec hoff h.length_le h.capacity_lt hsum, hlen, hload]
  · -- at the end of the file or behind it
    have hnil : (content.drop off).take count = [] := by
      rw [List.drop_eq_nil_of_le (by rw [← h.length_eq]; omega), List.take_nil]
    have hfile : (if updateOff then { f with off := off + 0 } else f) = f := by
      cases updateOff with
      | false => rfl
      | true => rw [if_pos rfl, Nat.add_zero, ← hcur rfl]
    unfold memfsRead
    rw [hnil, List.length_nil, hfile]
    simp only
    rcases Nat.lt_or_eq_of_le (Nat.le_of_not_lt hoff) with hbehind | hend
    · rw [if_pos hbehind]
    · rw [if_neg (by omega), if_pos hend.symm]

/-- The bytes agree with the file up to `m`, with zeroes behind its end. -/
def Agrees (sup : MemfsSupport) (content : List Byte) (m : Nat) : Prop :=
  ∀ i, i < m → sup.byteAt i = content.getD i 0

/-- A copy that leaves no gap. -/
theorem Agrees.fill {sup' : MemfsSupport} {m : Nat} (h : Agrees sup content m) (hoff : off ≤ m)
    (hstored : ∀ i, sup'.byteAt i = Lib.fill sup.byteAt off data.length (fun i => data.getD i 0) i) :
    Agrees sup' (writeAt 0 content off data) (max m (off + data.length)) := by
  intro i hi
  rw [hstored i, getD_writeAt]
  unfold Lib.fill
  split
  · rfl
  · exact h i (by omega)

/-- The body of `memfs_write` when there is no gap to close. -/
theorem memfsWrite_inside (ptr : Option (List Byte)) {size nmemb : Nat} (f : MemfsFile) (updateOff : Bool)
    (hoff : off ≤ sup.length) (hfit : off + size * nmemb ≤ sup.capacity) (hcap : sup.capacity < 2 ^ 63) :
    ∃ mmapAddr extraAddr, memfsWrite ptr size nmemb off sup f updateOff
        = .ok ({ sup with mmapAddr := mmapAddr, extraAddr := extraAddr, length := max sup.length (off + size * nmemb) },
            if updateOff then { f with off := off + size * nmemb } else f, size * nmemb) ∧
      ∀ i, { sup with mmapAddr := mmapAddr, extraAddr := extraAddr }.byteAt i
        = Lib.fill sup.byteAt off (size * nmemb) (source ptr) i := by
  obtain ⟨mmapAddr, extraAddr, hstore, hbytes⟩ := storeBlocks_spec (source ptr) hfit hcap
  refine ⟨mmapAddr, extraAddr, ?_, hbytes⟩
  rw [memfsWrite]
  simp only [dif_neg (Nat.not_lt.mpr hoff), ok_bind]
  rw [sizeT_of_lt (by omega : size * nmemb < 2 ^ 64), sizeT_of_lt (by omega : off + size * nmemb < 2 ^ 64), hstore]
  rfl

/-- Closing the gap before a write behind the end. -/
theorem memfsWrite_behind (ptr : Option (List Byte)) (size nmemb : Nat) (f : MemfsFile) (updateOff : Bool)
    (hoff : sup.length < off) (hfit : off ≤ sup.capacity) (hcap : sup.capacity < 2 ^ 63) :
    ∃ mmapAddr extraAddr, memfsWrite ptr size nmemb off sup f updateOff
        = memfsWrite ptr size nmemb off { sup with mmapAddr := mmapAddr, extraAddr := extraAddr, length := off } f
            updateOff ∧
      ∀ i, { sup with mmapAddr := mmapAddr, extraAddr := extraAddr }.byteAt i
        = Lib.fill sup.byteAt sup.length (off - sup.length) (fun _ => 0) i := by
  have hend : sup.length + (off - sup.length) * 1 = off := by omega
  obtain ⟨mmapAddr, extraAddr, hgap, hbytes⟩ :=
    memfsWrite_inside none f false (Nat.le_refl sup.length) (by rwa [hend]) hcap
  rw [hend, Nat.max_eq_right (Nat.le_of_lt hoff)] at hgap
  refine ⟨mmapAddr, extraAddr, ?_, ?_⟩
  · conv => lhs; rw [memfsWrite]
    conv => rhs; rw [memfsWrite]
    simp only [dif_pos hoff, hgap, ok_bind, Nat.le_refl, if_true, Nat.lt_irrefl, gt_iff_lt, dite_false]
    rfl
  · intro i
    rw [hbytes i, Nat.mul_one]
    rfl

/-- A write into a support that agrees with the file up to the support's length. -/
theorem Agrees.write (h : Agrees sup content sup.length) (f : MemfsFile) (updateOff : Bool) (hoff : off ≤ sup.length)
    (hmax : max sup.length (off + data.length) = max content.length (off + data.length))
    (hlen : sup.length ≤ sup.capacity) (hfit : off + data.length ≤ sup.capacity) (hcap : sup.capacity < 2 ^ 63) :
    ∃ sup', memfsWrite (some data) 1 data.length off sup f updateOff
        = .ok (sup', if updateOff then { f with off := off + data.length } else f, data.length) ∧
      Represents sup' (writeAt 0 content off data) ∧ sup'.capacity = sup.capacity := by
  obtain ⟨mmapAddr, extraAddr, hwrite, hbytes⟩ :=
    memfsWrite_inside (some data) f updateOff hoff (by rwa [Nat.one_mul]) hcap
  rw [Nat.one_mul] at hwrite hbytes
  have hlength := length_writeAt 0 content data off
  refine ⟨_, hwrite, ⟨?_, Nat.max_le.mpr ⟨hlen, hfit⟩, hcap, ?_⟩, rfl⟩
  · rw [hlength, ← hmax]
  · intro i hi
    rw [hlength, ← hmax] at hi
    exact h.fill hoff hbytes i hi

/-- **A write** that ends within the blocks. -/
theorem Represents.write (h : Represents sup content) (f : MemfsFile) (updateOff : Bool)
    (hfit : off + data.length ≤ sup.capacity) :
    ∃ sup', memfsWrite (some data) 1 data.length off sup f updateOff
        = .ok (sup', if updateOff then { f with off := off + data.length } else f, data.length) ∧
      Represents sup' (writeAt 0 content off data) ∧ sup'.capacity = sup.capacity := by
  by_cases hoff : off ≤ sup.length
  · have hagrees : Agrees sup content sup.length := h.length_eq ▸ h.bytes
    exact hagrees.write f updateOff hoff (by rw [h.length_eq]) h.length_le hfit h.capacity_lt
  · -- once the gap is closed, the file is as long as `off`
    obtain ⟨mmapAddr, extraAddr, hgap, hzeroes⟩ := memfsWrite_behind (some data) 1 data.length f updateOff
      (Nat.lt_of_not_le hoff) (by omega) h.capacity_lt
    rw [hgap]
    have hagrees : Agrees { sup with mmapAddr := mmapAddr, extraAddr := extraAddr, length := off } content off := by
      intro i hi
      refine (hzeroes i).trans ?_
      unfold Lib.fill
      rw [h.length_eq]
      split
      · next hin => rw [List.getD_eq_default _ _ hin.1]
      · exact h.bytes i (by rw [h.length_eq] at hoff; omega)
    have hmax : max off (off + data.length) = max content.length (off + data.length) := by
      rw [← h.length_eq]
      omega
    exact hagrees.write f updateOff (Nat.le_refl off) hmax (Nat.le_of_add_right_le hfit) hfit
      h.capacity_lt

end Represents

/-! ## Calls and runs -/

/-- The support represents the file, and the handles have its offsets. -/
structure Simulates (s : State) (file : FlatFile) : Prop where
  sup : Represents s.sup file.content
  offs : s.files.map MemfsFile.off = file.offs
  isOpen : ∀ f ∈ s.files, f.closed = false

section Calls
variable {s : State} {file : FlatFile} {fd : Nat}

theorem Simulates.getFd (h : Simulates s file) (hfd : file.IsHandle fd) :
    ∃ f, memfsGetFd s fd = .ok f ∧ f.closed = false ∧ f.off = file.off fd := by
  obtain ⟨hge, hlt⟩ := hfd
  rw [← h.offs, List.length_map] at hlt
  have hget := List.getElem?_eq_getElem hlt
  have hopen := h.isOpen _ (List.getElem_mem hlt)
  refine ⟨s.files[fd - fdStart], ?_, hopen, ?_⟩
  · unfold memfsGetFd
    rw [if_neg (Nat.not_lt.mpr hge), hget]
    simp only [hopen, Bool.false_eq_true, if_false]
  · unfold FlatFile.off
    rw [← h.offs, List.getD_eq_getElem?_getD, List.getElem?_map, hget]
    rfl

theorem Simulates.setFile (h : Simulates s file) (fd : Nat) {f : MemfsFile} (hf : f.closed = false) :
    Simulates (s.setFile fd f) (file.setOff fd f.off) := by
  refine ⟨h.sup, ?_, ?_⟩
  · unfold State.setFile FlatFile.setOff
    rw [List.map_set, h.offs]
  · intro g hg
    rcases List.mem_or_eq_of_mem_set hg with hold | rfl
    · exact h.isOpen g hold
    · exact hf

/-- A handle that keeps its offset. -/
theorem FlatFile.setOff_off (hfd : file.IsHandle fd) : file.setOff fd (file.off fd) = file := by
  unfold FlatFile.setOff FlatFile.off
  rw [List.getD_eq_getElem _ _ hfd.2, List.set_getElem_self]

theorem Simulates.keepFile (h : Simulates s file) (hfd : file.IsHandle fd) {f : MemfsFile} (hf : f.closed = false)
    (hoff : f.off = file.off fd) : Simulates (s.setFile fd f) file := by
  have hset := h.setFile fd hf
  rwa [hoff, FlatFile.setOff_off hfd] at hset

theorem Simulates.withSup (h : Simulates s file) {sup : MemfsSupport} {content : List Byte}
    (hsup : Represents sup content) : Simulates { s with sup := sup } { file with content := content } :=
  ⟨hsup, h.offs, h.isOpen⟩

/-- The file is shorter than the largest `off_t`. -/
theorem Simulates.length_lt (h : Simulates s file) : file.content.length < 2 ^ 63 := by
  rw [← h.sup.length_eq]
  exact Nat.lt_of_le_of_lt h.sup.length_le h.sup.capacity_lt

/-- So a read returns how much it got. -/
theorem Simulates.toOffT_slice (h : Simulates s file) (off count : Nat) :
    toOffT ((file.content.drop off).take count).length = ((file.content.drop off).take count).length := by
  apply toOffT_of_lt
  refine Nat.lt_of_le_of_lt ?_ h.length_lt
  rw [List.length_take, List.length_drop]
  omega

/-- **Every call** that memfs supports gives the reply of the flat file. -/
theorem Simulates.call (h : Simulates s file) {call : Call} (hallowed : file.Allowed s.sup.capacity call) :
    ∃ t, s.call call = .ok (t, (file.call call).2) ∧ Simulates t (file.call call).1 ∧
      t.sup.capacity = s.sup.capacity := by
  have hcap := h.sup.capacity_lt
  have hlen := h.length_lt
  -- `pread` and `pwrite` differ from `read` and `write` in that the handle keeps its offset
  cases call with
  | read fd count =>
    obtain ⟨hfd, hsum⟩ := hallowed
    obtain ⟨f, hget, hclosed, hoff⟩ := h.getFd hfd
    have hread := h.sup.read f true hsum fun _ => hoff
    refine ⟨s.setFile fd { f with off := file.off fd + (file.slice (file.off fd) count).length }, ?_, ?_, rfl⟩
    · simp only [State.call, State.read, hget, ok_bind, hoff, hread, h.toOffT_slice]
      rfl
    · exact h.setFile fd hclosed
  | pread fd count offset =>
    obtain ⟨hfd, hsum⟩ := hallowed
    obtain ⟨f, hget, hclosed, hoff⟩ := h.getFd hfd
    have hread := h.sup.read f false hsum nofun
    refine ⟨s.setFile fd f, ?_, h.keepFile hfd hclosed hoff, rfl⟩
    simp only [State.call, State.pread, hget, ok_bind, hread, h.toOffT_slice]
    rfl
  | write fd ptr =>
    obtain ⟨hfd, hfit⟩ := hallowed
    obtain ⟨f, hget, hclosed, hoff⟩ := h.getFd hfd
    obtain ⟨sup', hwrite, hrep, hcap'⟩ := h.sup.write f true hfit
    refine ⟨{ s with sup := sup' }.setFile fd { f with off := file.off fd + ptr.length }, ?_, ?_, hcap'⟩
    · simp only [State.call, State.write, hget, ok_bind, hoff, hwrite, toOffT_of_lt (by omega : ptr.length < 2 ^ 63)]
      rfl
    · exact (h.withSup hrep).setFile fd hclosed
  | pwrite fd ptr offset =>
    obtain ⟨hfd, hfit⟩ := hallowed
    obtain ⟨f, hget, hclosed, hoff⟩ := h.getFd hfd
    obtain ⟨sup', hwrite, hrep, hcap'⟩ := h.sup.write f false hfit
    refine ⟨{ s with sup := sup' }.setFile fd f, ?_, (h.withSup hrep).keepFile hfd hclosed hoff, hcap'⟩
    simp only [State.call, State.pwrite, hget, ok_bind, hwrite, toOffT_of_lt (by omega : ptr.length < 2 ^ 63)]
    rfl
  | ftruncate fd length =>
    obtain ⟨hfd, hle⟩ := hallowed
    obtain ⟨f, hget, -, -⟩ := h.getFd hfd
    refine ⟨{ s with sup := { s.sup with length := length } }, ?_, h.withSup (h.sup.truncate hle), rfl⟩
    simp only [State.call, State.ftruncate, hget, ok_bind]
    rw [if_neg (by rw [h.sup.length_eq]; omega)]
    rfl
  | lseek fd offset whence =>
    obtain ⟨hfd, hlo, hhi⟩ := hallowed
    obtain ⟨f, hget, hclosed, hoff⟩ := h.getFd hfd
    have hbase : seekBase f.off s.sup.length whence = file.seekBase fd whence := by
      rw [hoff, h.sup.length_eq]
      rfl
    have hmod : ((file.seekBase fd whence : Int) + offset) % 2 ^ 64 = file.seekBase fd whence + offset :=
      Int.emod_eq_of_lt hlo (by omega)
    have hret : toOffT ((file.seekBase fd whence : Int) + offset).toNat = file.seekBase fd whence + offset := by
      rw [toOffT_of_lt (by omega), Int.toNat_of_nonneg hlo]
    refine ⟨s.setFile fd { f with off := ((file.seekBase fd whence : Int) + offset).toNat }, ?_,
      h.setFile fd hclosed, rfl⟩
    simp only [State.call, State.lseek, hget, ok_bind]
    rw [hbase, hmod, if_pos (by rw [h.sup.length_eq]; omega), hret]
    rfl

/-- **Every run** of such calls looks like that of the flat file. -/
theorem Simulates.run {calls : List Call} (h : Simulates s file) (hallowed : file.AllowedAll s.sup.capacity calls) :
    ∃ t, s.run calls = .ok (t, (file.run calls).2) ∧ Simulates t (file.run calls).1 := by
  induction calls generalizing s file with
  | nil => exact ⟨s, rfl, h⟩
  | cons call calls ih =>
    obtain ⟨hcall, hrest⟩ := hallowed
    obtain ⟨s₁, hstep, h₁, hcap⟩ := h.call hcall
    obtain ⟨t, hrun, ht⟩ := ih h₁ (hcap ▸ hrest)
    refine ⟨t, ?_, ht⟩
    unfold State.run FlatFile.run
    simp only [hstep, ok_bind, hrun, h₁.offs, h₁.sup.length_eq]

end Calls

/-! ## The file as a whole -/

/-- A file with the bytes `content` that was opened several times, with the handles at `offs`. -/
def opened (content : List Byte) (offs : List Nat) : State :=
  { sup := memfsSupportOpen content, files := offs.map fun off => { closed := false, off := off } }

theorem simulates_opened {content : List Byte} (offs : List Nat) (hcap : content.length + mmapExtraSpace < 2 ^ 63) :
    Simulates (opened content offs) { content := content, offs := offs } := by
  refine ⟨represents_open hcap, ?_, ?_⟩
  · exact List.map_map.trans (List.map_id offs)
  · intro f hf
    obtain ⟨off, -, rfl⟩ := List.mem_map.mp hf
    rfl

/-- The same file as far as it can be read: what the blocks hold above the length may differ. -/
structure SameVisible (s t : State) : Prop where
  files : s.files = t.files
  length : s.sup.length = t.sup.length
  mmapLength : s.sup.mmapLength = t.sup.mmapLength
  extraLength : s.sup.extraLength = t.sup.extraLength
  bytes : ∀ i, i < t.sup.length → s.sup.byteAt i = t.sup.byteAt i

theorem SameVisible.capacity_eq {s t : State} (h : SameVisible s t) : s.sup.capacity = t.sup.capacity := by
  unfold MemfsSupport.capacity
  rw [h.mmapLength, h.extraLength]

theorem Simulates.of_sameVisible {s t : State} {file : FlatFile} (h : Simulates t file) (hsame : SameVisible s t) :
    Simulates s file := by
  refine ⟨⟨?_, ?_, ?_, ?_⟩, ?_, ?_⟩
  · rw [hsame.length, h.sup.length_eq]
  · rw [hsame.length, hsame.capacity_eq]
    exact h.sup.length_le
  · rw [hsame.capacity_eq]
    exact h.sup.capacity_lt
  · intro i hi
    rw [hsame.bytes i (by rwa [h.sup.length_eq]), h.sup.bytes i hi]
  · rw [hsame.files, h.offs]
  · rw [hsame.files]
    exact h.isOpen

/-- **memfs is a flat file.** For every file, any number of handles and every sequence of supported calls, memfs
    gives the replies, lengths and offsets of the flat file. In the state it ends in, what the blocks hold above the
    length is never seen again: whatever calls follow, they look the same from every state that agrees below it. -/
theorem memfs_refines_flat (content : List Byte) (offs : List Nat) (calls : List Call)
    (hcap : content.length + mmapExtraSpace < 2 ^ 63)
    (hallowed : FlatFile.AllowedAll (content.length + mmapExtraSpace) { content := content, offs := offs } calls) :
    ∃ t, (opened content offs).run calls = .ok (t, (FlatFile.run { content := content, offs := offs } calls).2) ∧
      Simulates t (FlatFile.run { content := content, offs := offs } calls).1 ∧
      ∀ s rest, SameVisible s t →
        (FlatFile.run { content := content, offs := offs } calls).1.AllowedAll t.sup.capacity rest →
        ∃ s' t' seen, s.run rest = .ok (s', seen) ∧ t.run rest = .ok (t', seen) := by
  obtain ⟨t, hrun, ht⟩ := (simulates_opened offs hcap).run hallowed
  refine ⟨t, hrun, ht, ?_⟩
  intro s rest hsame hrest
  obtain ⟨s', hs', -⟩ := (ht.of_sameVisible hsame).run (hsame.capacity_eq ▸ hrest)
  obtain ⟨t', ht', -⟩ := ht.run hrest
  exact ⟨s', t', _, hs', ht'⟩

/-- Two handles on "abcd": the file is cut to one byte, and a write through the other handle leaves a gap. -/
def cutAndWrite : List Call := [.ftruncate 100 1, .pwrite 101 [120] 3, .read 100 9]

theorem memfs_refines_flat_cutAndWrite :
    ∃ t, (opened [97, 98, 99, 100] [0, 4]).run cutAndWrite = .ok (t,
      [{ reply := { ret := 0, data := [] }, length := 1, offs := [0, 4] },
       { reply := { ret := 1, data := [] }, length := 4, offs := [0, 4] },
       { reply := { ret := 4, data := [97, 0, 0, 120] }, length := 4, offs := [4, 4] }]) := by
  have hallowed :
      FlatFile.AllowedAll (4 + mmapExtraSpace) { content := [97, 98, 99, 100], offs := [0, 4] } cutAndWrite := by
    refine ⟨⟨⟨?_, ?_⟩, ?_⟩, ⟨⟨?_, ?_⟩, ?_⟩, ⟨⟨?_, ?_⟩, ?_⟩, trivial⟩ <;> decide
  obtain ⟨t, hrun, -⟩ := memfs_refines_flat [97, 98, 99, 100] [0, 4] cutAndWrite (by decide) hallowed
  exact ⟨t, hrun⟩

end SkiVmm.Memfs
