import SkiVmm.Lib.Table
import SkiVmm.Memfs.Refinement

/-!
# `Memfs.Files` — all the files that are open through memfs

`Memfs.Model` has one file and its handles. Here are the tables of `ski-memfs.c`: the supports, each found by the inode
number of its file, and the handles, each on one support. A file is opened by `open`, `creat` or `fopen`; a call on a
handle is the one of `Memfs.Model` on the support of the handle.

`Fs.Ok` is the invariant of the tables (`Reachable.ok`): no two supports have the same key, a handle is on the support
of its own key, and every support holds a flat file that its blocks have room for.

* The contents of a file under memfs are those at the time of the first `open`: the mapping is private. What other
  processes do to the file, or a truncation by a later `open`, is not seen through it.
* Buffers are objects of the process, shorter than `2 ^ 63` bytes.
-/

namespace SkiVmm.Memfs

open Lib

/-! ## The tables -/

/-- A file of the system. -/
structure Node where
  /-- `st_dev` -/
  dev : Nat
  /-- `st_ino` -/
  ino : Nat
deriving DecidableEq, Repr

/-- An integer assigned to an `int`. -/
def toCInt (n : Int) : Int := n.bmod (2 ^ 32)

/-- `inode` of a support: `st_ino` in an `int`. -/
def Node.key (node : Node) : Int := toCInt node.ino

/-- An entry of `sups`. -/
structure Support where
  inode : Int
  sup : MemfsSupport

/-- An entry of `files`, with the index of its support. Ghost: the file that was opened. -/
structure Handle where
  sup : Nat
  file : MemfsFile
  node : Node
deriving DecidableEq

structure Fs where
  sups : List Support
  files : List Handle

/-- `MEMFS_MAX_FILES` -/
def memfsMaxFiles : Nat := 50

/-- `MEMFS_MAX_FILENAME` -/
def memfsMaxFilename : Nat := 256

/-- What fits into the address space of a process. -/
def addressSpace : Nat := 2 ^ 47

def Fs.supAt (s : Fs) (i : Nat) : MemfsSupport := (s.sups[i]?.map Support.sup).getD (memfsSupportOpen [])

/-! ## Opening a file -/

/-- The call to the system under an `open`: the descriptor, -1 if the call has failed, and the file with its contents
    before the call. -/
structure OpenCall where
  pathname : List Char
  fd : Int
  node : Node
  content : List Byte

/-- `memfs_support_open`: the support of the file, an old one if there is one for its inode number. -/
def Fs.memfsSupportOpen (s : Fs) (o : OpenCall) : Except Stop (Fs × Nat) :=
  -- `fstat`
  if o.fd < 0 then .error .assertion
  else
    match s.sups.findIdx? fun sp => sp.inode = o.node.key with
    | some i => .ok (s, i)
    | none =>
      if ¬o.pathname.length < memfsMaxFilename - 1 then .error .assertion
      else if ¬s.sups.length < memfsMaxFiles then .error .assertion
      -- `mmap`
      else if ¬o.content.length < addressSpace then .error .assertion
      else
        .ok ({ s with sups := s.sups ++ [{ inode := o.node.key, sup := Memfs.memfsSupportOpen o.content }] },
          s.sups.length)

/-- `memfs_open`: a new handle, behind the others. -/
def Fs.memfsOpen (s : Fs) (o : OpenCall) : Except Stop Fs :=
  if ¬o.pathname.length < memfsMaxFilename - 1 then .error .assertion
  else if ¬s.sups.length < memfsMaxFiles then .error .assertion
  -- not checked by the source: the handle would lie behind the end of the array
  else if ¬s.files.length < memfsMaxFiles then .error .assertion
  else do
    let (s, i) ← s.memfsSupportOpen o
    .ok { s with files := s.files ++ [{ sup := i, file := { closed := false, off := 0 }, node := o.node }] }

/-- The file after the system has truncated it. -/
def OpenCall.truncated (o : OpenCall) (trunc : Bool) : OpenCall := { o with content := if trunc then [] else o.content }

/-- `open`, with `O_TRUNC` and `O_APPEND` of its flags. The descriptor 0 is taken for a failure. -/
def Fs.openFd (s : Fs) (o : OpenCall) (trunc append : Bool) : Except Stop (Fs × Option Nat) :=
  if o.fd = 0 then .ok (s, none)
  else do
    let t ← s.memfsOpen (o.truncated trunc)
    let id := s.files.length
    if append then
      .ok ({ t with files := t.files.modify id fun h => { h with file.off := (t.supAt h.sup).length } }, some id)
    else .ok (t, some id)

/-- `creat` -/
def Fs.creat (s : Fs) (o : OpenCall) : Except Stop (Fs × Option Nat) := s.openFd o true false

/-- The first character of the mode of `fopen`. -/
inductive FopenMode where
  | r
  | w
  | a
deriving DecidableEq, Repr

/-- `fopen`. A stream on the descriptor 0 fails in `memfs_support_open`. -/
def Fs.fopen (s : Fs) (o : OpenCall) (mode : FopenMode) : Except Stop (Fs × Option Nat) :=
  if o.fd < 0 then .ok (s, none)
  else if mode = .a then .error .assertion
  else if o.fd = 0 then .error .assertion
  else do
    let t ← s.memfsOpen (o.truncated (mode = .w))
    .ok (t, some s.files.length)

inductive Opening where
  | openFd (trunc append : Bool)
  | creat
  | fopen (mode : FopenMode)
deriving DecidableEq, Repr

/-- The ways to open a file, with the index of the new handle. -/
def Fs.opening (s : Fs) (o : OpenCall) : Opening → Except Stop (Fs × Option Nat)
  | .openFd trunc append => s.openFd o trunc append
  | .creat => s.creat o
  | .fopen mode => s.fopen o mode

/-! ## Calls on handles -/

/-- `fread`, on the stream with this `fileno`; it divides what was read by the size of an item. -/
def State.fread (s : State) (fd size nmemb : Nat) : Except Stop (State × Reply) := do
  let f ← memfsGetFd s fd
  let (data, bytes, f) ← memfsRead size nmemb f.off s.sup f true
  if size = 0 then .error .divisionByZero
  else .ok (s.setFile fd f, { ret := bytes / size, data := data })

/-- `fwrite` -/
def State.fwrite (s : State) (fd size nmemb : Nat) (ptr : List Byte) : Except Stop (State × Reply) := do
  let f ← memfsGetFd s fd
  let (sup, f, bytes) ← memfsWrite (some ptr) size nmemb f.off s.sup f true
  if size = 0 then .error .divisionByZero
  else .ok ({ s with sup := sup }.setFile fd f, { ret := bytes / size, data := [] })

/-- `close` and `fclose` -/
def State.close (s : State) (fd : Nat) : Except Stop (State × Reply) := do
  let f ← memfsGetFd s fd
  .ok (s.setFile fd { f with closed := true }, { ret := 0, data := [] })

inductive FileCall where
  | call (c : Call)
  | fread (fd size nmemb : Nat)
  | fwrite (fd size nmemb : Nat) (ptr : List Byte)
  | close (fd : Nat)
deriving DecidableEq, Repr

def FileCall.fd : FileCall → Nat
  | .call (.read fd _) | .call (.pread fd _ _) | .call (.write fd _) | .call (.pwrite fd _ _)
  | .call (.ftruncate fd _) | .call (.lseek fd _ _) | .fread fd _ _ | .fwrite fd _ _ _ | .close fd => fd

def State.fileCall (s : State) : FileCall → Except Stop (State × Reply)
  | .call c => s.call c
  | .fread fd size nmemb => s.fread fd size nmemb
  | .fwrite fd size nmemb ptr => s.fwrite fd size nmemb ptr
  | .close fd => s.close fd

/-- All handles, with the support of one of them. -/
def Fs.view (s : Fs) (h : Handle) : State := { sup := s.supAt h.sup, files := s.files.map Handle.file }

/-- The tables after a call on that handle. -/
def Fs.update (s : Fs) (h : Handle) (st : State) : Fs where
  sups := s.sups.modify h.sup fun sp => { sp with sup := st.sup }
  files := List.zipWith (fun h f => { h with file := f }) s.files st.files

def Fs.fileCall (s : Fs) (c : FileCall) : Except Stop (Fs × Reply) :=
  match s.files[c.fd - fdStart]? with
  | none => .error .defaultCall
  | some h => do
    let (st, reply) ← (s.view h).fileCall c
    .ok (s.update h st, reply)

/-! ## Histories -/

inductive FsCall where
  | opening (o : OpenCall) (how : Opening)
  | file (c : FileCall)

def Fs.step (s : Fs) : FsCall → Except Stop Fs
  | .opening o how => do
    let (s, _) ← s.opening o how
    .ok s
  | .file c => do
    let (s, _) ← s.fileCall c
    .ok s

/-- The buffer of a write is an object that holds what is written, and an offset is a `size_t`. -/
def FileCall.Valid : FileCall → Prop
  | .call (.write _ ptr) => ptr.length < 2 ^ 63
  | .call (.pwrite _ ptr offset) => ptr.length < 2 ^ 63 ∧ offset < 2 ^ 64
  | .fwrite _ size nmemb ptr => size * nmemb ≤ ptr.length ∧ ptr.length < 2 ^ 63
  | _ => True

def FsCall.Valid : FsCall → Prop
  | .opening _ _ => True
  | .file c => c.Valid

/-- `s` are the tables after some calls. -/
def Reachable (s : Fs) : Prop := ∃ calls, Run Fs.step (fun _ c => c.Valid) { sups := [], files := [] } calls s

/-! ## What a write does -/

/-- The bytes of the file. -/
def MemfsSupport.content (sup : MemfsSupport) : List Byte := load sup.byteAt 0 sup.length

/-- The bytes that `memfs_write` copies. -/
def written (ptr : Option (List Byte)) (n : Nat) : List Byte := load (source ptr) 0 n

section Write
variable {sup sup' : MemfsSupport} {content : List Byte} {ptr ptr' : Option (List Byte)} {size nmemb off n : Nat}
  {f f' : MemfsFile} {updateOff : Bool}

theorem Represents.content_eq (h : Represents sup content) : sup.content = content := by
  refine List.ext_getElem ?_ ?_
  · rw [MemfsSupport.content, length_load, h.length_eq]
  · intro i h₁ h₂
    simp only [MemfsSupport.content, load, List.getElem_map, List.getElem_range, Nat.zero_add]
    rw [h.bytes i h₂, List.getD_eq_getElem _ _ h₂]

theorem source_load {mem : Nat → Byte} {i : Nat} (hi : i < n) : source (some (load mem 0 n)) i = mem i := by
  show (load mem 0 n).getD i 0 = mem i
  rw [getD_load hi, Nat.zero_add]

theorem storeBlocks_congr {src src' : Nat → Byte} (h : ∀ i < n, src i = src' i) :
    storeBlocks sup off n src = storeBlocks sup off n src' := by
  obtain ⟨m, hm, hle, -⟩ := mmapPart_spec sup.mmapLength off n
  have hmmap : fill sup.mmapAddr off m src = fill sup.mmapAddr off m src' :=
    fill_eq_fill_iff.mpr fun i hi => h i (Nat.lt_of_lt_of_le hi hle)
  have hextra (o : Nat) : fill sup.extraAddr o (n - m) (fun i => src (m + i))
      = fill sup.extraAddr o (n - m) fun i => src' (m + i) :=
    fill_eq_fill_iff.mpr fun i hi => h (m + i) (by omega)
  unfold storeBlocks
  simp only [hm, hmmap, hextra]

/-- A write depends on the bytes that it copies only. -/
theorem memfsWrite_congr {size' nmemb' : Nat} (hn : sizeT (size * nmemb) = n) (hn' : sizeT (size' * nmemb') = n)
    (h : ∀ i < n, source ptr i = source ptr' i) (off : Nat) (sup : MemfsSupport) (f : MemfsFile) (updateOff : Bool) :
    memfsWrite ptr size nmemb off sup f updateOff = memfsWrite ptr' size' nmemb' off sup f updateOff := by
  conv => lhs; rw [memfsWrite]
  conv => rhs; rw [memfsWrite]
  simp only [hn, hn', storeBlocks_congr h]

/-- A copy that succeeds fits into the blocks. -/
theorem storeBlocks_fits {src : Nat → Byte} (hsum : off + n < 2 ^ 64) (hoff : off ≤ sup.capacity)
    (h : storeBlocks sup off n src = .ok sup') :
    off + n ≤ sup.capacity ∧ sup'.capacity = sup.capacity ∧ sup'.length = sup.length := by
  obtain ⟨m, hm, hle, hin, hextra⟩ := mmapPart_spec sup.mmapLength off n
  unfold storeBlocks at h
  simp only [hm] at h
  generalize (if m ≠ 0 then 0 else off - sup.mmapLength) = extraOff at h hextra
  unfold MemfsSupport.capacity at hoff ⊢
  split at h
  · next hne =>
    split at h
    · next hroom =>
      cases h
      refine ⟨?_, rfl, rfl⟩
      replace hextra := hextra hne
      rw [sizeT_of_lt (by omega)] at hroom
      omega
    · cases h
  · cases h
    refine ⟨?_, rfl, rfl⟩
    by_cases hzero : m = 0
    · omega
    · have := hin hzero
      omega

/-- A write that succeeds fits into the blocks. -/
theorem memfsWrite_fits_inside (hlen : sup.length ≤ sup.capacity) (hoff : off ≤ sup.length)
    (hsum : off + sizeT (size * nmemb) < 2 ^ 64) {r : MemfsSupport × MemfsFile × Nat}
    (h : memfsWrite ptr size nmemb off sup f updateOff = .ok r) :
    off + sizeT (size * nmemb) ≤ sup.capacity ∧ r.1.capacity = sup.capacity := by
  rw [memfsWrite] at h
  simp only [dif_neg (Nat.not_lt.mpr hoff), ok_bind] at h
  obtain ⟨sup₁, hstore, h⟩ := exists_of_bind_eq_ok h
  cases h
  obtain ⟨hfit, hcap, -⟩ := storeBlocks_fits hsum (Nat.le_trans hoff hlen) hstore
  exact ⟨hfit, hcap⟩

theorem memfsWrite_fits (hlen : sup.length ≤ sup.capacity) (hcap : sup.capacity < 2 ^ 63) (hoff : off < 2 ^ 64)
    (hn : sizeT (size * nmemb) < 2 ^ 63) {r : MemfsSupport × MemfsFile × Nat}
    (h : memfsWrite ptr size nmemb off sup f updateOff = .ok r) : off + sizeT (size * nmemb) ≤ sup.capacity := by
  by_cases hgap : off ≤ sup.length
  · exact (memfsWrite_fits_inside hlen hgap (by omega) h).1
  · -- the zeroes up to `off` fit, and so does what is written behind them
    have hlt := Nat.lt_of_not_le hgap
    rw [memfsWrite] at h
    simp only [dif_pos hlt] at h
    obtain ⟨⟨sup₁, f₁, n₁⟩, hzeroes, h⟩ := exists_of_bind_eq_ok h
    have htotal : sizeT ((off - sup.length) * 1) = off - sup.length := by
      rw [Nat.mul_one]
      exact sizeT_of_lt (by omega)
    obtain ⟨hgapfit, hcap₁⟩ := memfsWrite_fits_inside hlen (Nat.le_refl _) (by omega) hzeroes
    have hcap₁ : sup₁.capacity = sup.capacity := hcap₁
    simp only at h
    split at h
    · simp only [ok_bind] at h
      obtain ⟨sup₂, hstore, -⟩ := exists_of_bind_eq_ok h
      obtain ⟨hfit, -⟩ := storeBlocks_fits (by omega) (by omega) hstore
      omega
    · cases h

/-- **A write** of any number of elements, within the blocks. -/
theorem Represents.writes (h : Represents sup content) (ptr : Option (List Byte)) (f : MemfsFile) (updateOff : Bool)
    (hfit : off + sizeT (size * nmemb) ≤ sup.capacity) :
    ∃ sup', memfsWrite ptr size nmemb off sup f updateOff
        = .ok (sup', if updateOff then { f with off := off + sizeT (size * nmemb) } else f, sizeT (size * nmemb)) ∧
      Represents sup' (writeAt 0 content off (written ptr (sizeT (size * nmemb)))) ∧ sup'.capacity = sup.capacity := by
  have hcap := h.capacity_lt
  have hlen : (written ptr (sizeT (size * nmemb))).length = sizeT (size * nmemb) := length_load ..
  have hroom : off + (written ptr (sizeT (size * nmemb))).length ≤ sup.capacity := by rwa [hlen]
  have hone : sizeT (1 * sizeT (size * nmemb)) = sizeT (size * nmemb) := by
    rw [Nat.one_mul, sizeT_of_lt (by omega)]
  obtain ⟨sup', hwrite, hrep, hcap'⟩ := h.write f updateOff hroom
  rw [hlen] at hwrite
  exact ⟨sup', (memfsWrite_congr rfl hone (fun i hi => (source_load hi).symm) ..).trans hwrite, hrep, hcap'⟩

/-- **A write that succeeds** is one to the flat file. -/
theorem memfsWrite_spec (hsup : Represents sup content) (hoff : off < 2 ^ 64) (hn : sizeT (size * nmemb) < 2 ^ 63)
    (h : memfsWrite ptr size nmemb off sup f updateOff = .ok (sup', f', n)) :
    off + sizeT (size * nmemb) ≤ sup.capacity ∧ n = sizeT (size * nmemb) ∧
      f' = (if updateOff then { f with off := off + sizeT (size * nmemb) } else f) ∧
      Represents sup' (writeAt 0 content off (written ptr (sizeT (size * nmemb)))) ∧
      sup'.capacity = sup.capacity := by
  have hfit := memfsWrite_fits hsup.length_le hsup.capacity_lt hoff hn h
  obtain ⟨sup₁, hwrite, hrep, hcap⟩ := hsup.writes ptr f updateOff hfit
  rw [hwrite] at h
  cases h
  exact ⟨hfit, rfl, rfl, hrep, hcap⟩

end Write

/-! ## What a call does to its file -/

/-- What a call leaves of a support and the handles: the blocks have the same room, and the offsets are of type
    `size_t`. -/
structure FileEffect (s t : State) : Prop where
  sup : ∃ content, Represents t.sup content
  capacity_eq : t.sup.capacity = s.sup.capacity
  offs : ∀ f ∈ t.files, f.off < 2 ^ 64

section Calls
variable {s t : State} {content : List Byte} {fd : Nat} {f : MemfsFile} {c : FileCall} {reply : Reply}

theorem memfsGetFd_mem (h : memfsGetFd s fd = .ok f) : s.files[fd - fdStart]? = some f := by
  unfold memfsGetFd at h
  split at h
  · cases h
  · split at h
    · cases h
    · next g hg =>
      split at h
      · cases h
      · cases h
        exact hg

/-! ## How a read or a write can fail -/

theorem memfsRead_ne_error {stop : Stop} (hassertion : stop ≠ .assertion) (size nmemb off : Nat) (sup : MemfsSupport)
    (f : MemfsFile) (updateOff : Bool) : memfsRead size nmemb off sup f updateOff ≠ .error stop := by
  unfold memfsRead
  refine ite_ne_error (ok_ne_error _ _) (ite_ne_error (ok_ne_error _ _) (ite_ne_error (ite_ne_error ?_ ?_) ?_))
  · exact ok_ne_error _ _
  · intro h
    exact hassertion (Except.error.inj h).symm
  · exact ok_ne_error _ _

theorem storeBlocks_ne_error {stop : Stop} (hlowmem : stop ≠ .exitMemfsLowmem) (sup : MemfsSupport) (off n : Nat)
    (src : Nat → Byte) : storeBlocks sup off n src ≠ .error stop := by
  unfold storeBlocks
  refine ite_ne_error (ite_ne_error (ok_ne_error _ _) ?_) (ok_ne_error _ _)
  intro h
  exact hlowmem (Except.error.inj h).symm

theorem memfsWrite_ne_error {stop : Stop} (hassertion : stop ≠ .assertion) (hlowmem : stop ≠ .exitMemfsLowmem)
    (ptr : Option (List Byte)) (size nmemb off : Nat) (sup : MemfsSupport) (f : MemfsFile) (updateOff : Bool) :
    memfsWrite ptr size nmemb off sup f updateOff ≠ .error stop := by
  induction off using Nat.strong_induction_on generalizing ptr size nmemb sup f updateOff with
  | _ off ih =>
    rw [memfsWrite]
    split
    · next hgt =>
      -- the gap is filled first, by a call at the end of the file
      refine bind_ne_error (ih sup.length hgt _ _ _ _ _ _) ?_
      rintro ⟨sup', f', n⟩
      simp only
      split
      · rw [ok_bind]
        refine bind_ne_error (storeBlocks_ne_error hlowmem _ _ _ _) fun sup'' h => ?_
        cases h
      · intro h
        exact hassertion (Except.error.inj h).symm
    · rw [ok_bind]
      refine bind_ne_error (storeBlocks_ne_error hlowmem _ _ _ _) fun sup' h => ?_
      cases h

/-! ## What a successful call has done -/

theorem State.fread_cases {size nmemb : Nat} (h : s.fread fd size nmemb = .ok (t, reply)) :
    size ≠ 0 ∧ ∃ f, memfsGetFd s fd = .ok f ∧ ∃ data n f', memfsRead size nmemb f.off s.sup f true = .ok (data, n, f') ∧
      t = s.setFile fd f' ∧ reply = { ret := n / size, data := data } := by
  obtain ⟨f, hf, h⟩ := exists_of_bind_eq_ok h
  obtain ⟨⟨data, n, f'⟩, hread, h⟩ := exists_of_bind_eq_ok h
  simp only at h
  split at h
  · cases h
  · next hsize =>
    cases h
    exact ⟨hsize, f, hf, data, n, f', hread, rfl, rfl⟩

theorem State.fwrite_cases {size nmemb : Nat} {ptr : List Byte} (h : s.fwrite fd size nmemb ptr = .ok (t, reply)) :
    size ≠ 0 ∧ ∃ f, memfsGetFd s fd = .ok f ∧
      ∃ sup f' n, memfsWrite (some ptr) size nmemb f.off s.sup f true = .ok (sup, f', n) ∧
        t = { s with sup := sup }.setFile fd f' ∧ reply = { ret := n / size, data := [] } := by
  obtain ⟨f, hf, h⟩ := exists_of_bind_eq_ok h
  obtain ⟨⟨sup, f', n⟩, hwrite, h⟩ := exists_of_bind_eq_ok h
  simp only at h
  split at h
  · cases h
  · next hsize =>
    cases h
    exact ⟨hsize, f, hf, sup, f', n, hwrite, rfl, rfl⟩

/-- Calls that only move the handle. -/
theorem FileEffect.setFile (fd : Nat) (hsup : Represents s.sup content) (hoffs : ∀ f ∈ s.files, f.off < 2 ^ 64)
    (hf : f.off < 2 ^ 64) : FileEffect s (s.setFile fd f) := by
  refine ⟨⟨content, hsup⟩, rfl, ?_⟩
  intro g hg
  rcases List.mem_or_eq_of_mem_set hg with hold | rfl
  · exact hoffs g hold
  · exact hf

/-- Calls that write. -/
theorem FileEffect.withSup {sup : MemfsSupport} (hsup : Represents sup content)
    (hcap : sup.capacity = s.sup.capacity) (hoffs : ∀ f ∈ s.files, f.off < 2 ^ 64) (hf : f.off < 2 ^ 64) :
    FileEffect s ({ s with sup := sup }.setFile fd f) := by
  obtain ⟨hrep, -, hall⟩ := FileEffect.setFile (s := { s with sup := sup }) fd hsup hoffs hf
  exact ⟨hrep, hcap, hall⟩

theorem sizeT_lt (n : Nat) : sizeT n < 2 ^ 64 := Nat.mod_lt n (by decide)

theorem sizeT_buffer {n : Nat} (h : n < 2 ^ 63) : sizeT n < 2 ^ 63 := by
  rw [sizeT_of_lt (by omega)]
  exact h

theorem memfsRead_off {size nmemb off n : Nat} {sup : MemfsSupport} {f' : MemfsFile} {updateOff : Bool}
    {data : List Byte} (hf : f.off < 2 ^ 64) (h : memfsRead size nmemb off sup f updateOff = .ok (data, n, f')) :
    f'.off < 2 ^ 64 := by
  have hmoved (k : Nat) : (if updateOff then { f with off := sizeT k } else f).off < 2 ^ 64 := by
    split
    · exact sizeT_lt k
    · exact hf
  unfold memfsRead at h
  simp only at h
  -- the lengths do not matter
  generalize (if sizeT (off + sizeT (size * nmemb)) > sup.length then (sup.length - off) / size * size
    else sizeT (size * nmemb)) = total at h
  generalize (if off < sup.mmapLength then min (sup.mmapLength - off) total else 0) = m at h
  generalize (if m ≠ 0 then 0 else off - sup.mmapLength) = extraOff at h
  have hmoved := hmoved (off + total)
  generalize (if updateOff then { f with off := sizeT (off + total) } else f) = g at hmoved h
  split at h
  · cases h
    exact hf
  · split at h
    · cases h
      exact hf
    · split at h
      · split at h
        · cases h
          exact hmoved
        · cases h
      · cases h
        exact hmoved

/-- A write to the file of a handle. -/
theorem FileEffect.write {ptr : List Byte} {size nmemb off n : Nat} {sup : MemfsSupport} {f' : MemfsFile}
    {updateOff : Bool} (hsup : Represents s.sup content) (hoffs : ∀ f ∈ s.files, f.off < 2 ^ 64)
    (hf : f.off < 2 ^ 64) (hoff : off < 2 ^ 64) (hn : sizeT (size * nmemb) < 2 ^ 63)
    (h : memfsWrite (some ptr) size nmemb off s.sup f updateOff = .ok (sup, f', n)) :
    FileEffect s ({ s with sup := sup }.setFile fd f') := by
  obtain ⟨hfit, -, rfl, hrep, hcap⟩ := memfsWrite_spec hsup hoff hn h
  have hlt := hsup.capacity_lt
  refine FileEffect.withSup hrep hcap hoffs ?_
  split
  · show off + sizeT (size * nmemb) < 2 ^ 64
    omega
  · exact hf

theorem State.fileCall_effect (hsup : Represents s.sup content) (hoffs : ∀ f ∈ s.files, f.off < 2 ^ 64)
    (hvalid : c.Valid) (h : s.fileCall c = .ok (t, reply)) : FileEffect s t := by
  have hget {fd : Nat} {f : MemfsFile} (hf : memfsGetFd s fd = .ok f) : f.off < 2 ^ 64 :=
    hoffs f (List.mem_of_getElem? (memfsGetFd_mem hf))
  cases c with
  | call c =>
    cases c with
    | read fd count =>
      obtain ⟨f, hf, h⟩ := exists_of_bind_eq_ok h
      obtain ⟨⟨data, n, f'⟩, hread, h⟩ := exists_of_bind_eq_ok h
      cases h
      exact .setFile fd hsup hoffs (memfsRead_off (hget hf) hread)
    | pread fd count offset =>
      obtain ⟨f, hf, h⟩ := exists_of_bind_eq_ok h
      obtain ⟨⟨data, n, f'⟩, hread, h⟩ := exists_of_bind_eq_ok h
      cases h
      exact .setFile fd hsup hoffs (memfsRead_off (hget hf) hread)
    | write fd ptr =>
      obtain ⟨f, hf, h⟩ := exists_of_bind_eq_ok h
      obtain ⟨⟨sup, f', n⟩, hwrite, h⟩ := exists_of_bind_eq_ok h
      cases h
      exact .write hsup hoffs (hget hf) (hget hf) (sizeT_buffer (by rwa [Nat.one_mul])) hwrite
    | pwrite fd ptr offset =>
      obtain ⟨f, hf, h⟩ := exists_of_bind_eq_ok h
      obtain ⟨⟨sup, f', n⟩, hwrite, h⟩ := exists_of_bind_eq_ok h
      cases h
      exact .write hsup hoffs (hget hf) hvalid.2 (sizeT_buffer (by rw [Nat.one_mul]; exact hvalid.1)) hwrite
    | ftruncate fd length =>
      obtain ⟨f, hf, h⟩ := exists_of_bind_eq_ok h
      split at h
      · cases h
      · next hle =>
        cases h
        have hcut := hsup.truncate (hsup.length_eq ▸ Nat.le_of_not_lt hle)
        exact ⟨⟨_, hcut⟩, rfl, hoffs⟩
    | lseek fd offset whence =>
      obtain ⟨f, hf, h⟩ := exists_of_bind_eq_ok h
      simp only at h
      split at h
      · cases h
        refine .setFile fd hsup hoffs ?_
        show (_ % 2 ^ 64 : Int).toNat < 2 ^ 64
        omega
      · cases h
  | fread fd size nmemb =>
    obtain ⟨-, f, hf, data, n, f', hread, rfl, -⟩ := State.fread_cases h
    exact .setFile fd hsup hoffs (memfsRead_off (hget hf) hread)
  | fwrite fd size nmemb ptr =>
    obtain ⟨-, f, hf, sup, f', n, hwrite, rfl, -⟩ := State.fwrite_cases h
    exact .write hsup hoffs (hget hf) (hget hf) (sizeT_buffer (Nat.lt_of_le_of_lt hvalid.1 hvalid.2)) hwrite
  | close fd =>
    obtain ⟨f, hf, h⟩ := exists_of_bind_eq_ok h
    cases h
    have hoff := hget hf
    exact .setFile fd hsup hoffs hoff

end Calls

/-! ## The invariant -/

/-- **The invariant of the tables.** -/
structure Fs.Ok (s : Fs) : Prop where
  sups_ok : ∀ sp ∈ s.sups, (∃ content, Represents sp.sup content) ∧ 0 < sp.sup.capacity
  keys : (s.sups.map Support.inode).Nodup
  linked : ∀ h ∈ s.files, (s.sups[h.sup]?.map Support.inode) = some h.node.key
  offs : ∀ h ∈ s.files, h.file.off < 2 ^ 64

section Ok
variable {s t : Fs} {h : Handle} {o : OpenCall}

theorem Fs.supAt_eq {sp : Support} {i : Nat} (hsp : s.sups[i]? = some sp) : s.supAt i = sp.sup := by
  unfold Fs.supAt
  rw [hsp]
  rfl

theorem Fs.Ok.support (hok : s.Ok) (hh : h ∈ s.files) :
    ∃ sp, s.sups[h.sup]? = some sp ∧ sp.inode = h.node.key ∧ s.supAt h.sup = sp.sup := by
  obtain ⟨sp, hsp, hkey⟩ := Option.map_eq_some_iff.mp (hok.linked h hh)
  exact ⟨sp, hsp, hkey, Fs.supAt_eq hsp⟩

theorem Fs.Ok.represents (hok : s.Ok) (hh : h ∈ s.files) :
    (∃ content, Represents (s.supAt h.sup) content) ∧ 0 < (s.supAt h.sup).capacity := by
  obtain ⟨sp, hsp, -, hsup⟩ := hok.support hh
  rw [hsup]
  exact hok.sups_ok sp (List.mem_of_getElem? hsp)

/-- Handles that stay on their supports. -/
theorem Fs.Ok.withFiles (hok : s.Ok) {files : List Handle}
    (h : ∀ g ∈ files, g.file.off < 2 ^ 64 ∧ ∃ g₀ ∈ s.files, g.sup = g₀.sup ∧ g.node = g₀.node) :
    { s with files := files }.Ok := by
  refine ⟨hok.sups_ok, hok.keys, ?_, fun g hg => (h g hg).1⟩
  intro g hg
  obtain ⟨-, g₀, hg₀, hsup, hnode⟩ := h g hg
  rw [hsup, hnode]
  exact hok.linked g₀ hg₀

theorem Fs.mem_update (s : Fs) (h : Handle) (st : State) {g : Handle} (hg : g ∈ (s.update h st).files) :
    ∃ g₀ ∈ s.files, ∃ f ∈ st.files, g = { g₀ with file := f } := by
  obtain ⟨i, hi, rfl⟩ := List.mem_iff_getElem.mp hg
  have hlt : i < min s.files.length st.files.length := by
    rw [← List.length_zipWith]
    exact hi
  have h₁ : i < s.files.length := Nat.lt_of_lt_of_le hlt (Nat.min_le_left ..)
  have h₂ : i < st.files.length := Nat.lt_of_lt_of_le hlt (Nat.min_le_right ..)
  exact ⟨s.files[i], List.getElem_mem h₁, st.files[i], List.getElem_mem h₂, List.getElem_zipWith⟩

theorem Fs.map_inode_update (s : Fs) (h : Handle) (st : State) :
    (s.update h st).sups.map Support.inode = s.sups.map Support.inode :=
  map_modify_eq fun _ _ => rfl

/-- Calls on a handle keep the invariant. -/
theorem Fs.Ok.update (hok : s.Ok) (hh : h ∈ s.files) {st : State} (heffect : FileEffect (s.view h) st) :
    (s.update h st).Ok := by
  have hinodes := s.map_inode_update h st
  have hsups : { s with sups := (s.update h st).sups }.Ok := by
    refine ⟨?_, hinodes ▸ hok.keys, ?_, hok.offs⟩
    · intro sp hsp
      obtain ⟨i, hi⟩ := List.mem_iff_getElem?.mp hsp
      unfold Fs.update at hi
      simp only [List.getElem?_modify, Option.map_eq_map, Option.map_eq_some_iff] at hi
      obtain ⟨sp₀, hsp₀, rfl⟩ := hi
      split
      · exact ⟨heffect.sup, heffect.capacity_eq ▸ (hok.represents hh).2⟩
      · exact hok.sups_ok sp₀ (List.mem_of_getElem? hsp₀)
    · intro g hg
      rw [← List.getElem?_map, hinodes, List.getElem?_map]
      exact hok.linked g hg
  refine hsups.withFiles ?_
  intro g hg
  obtain ⟨g₀, hg₀, f, hf, rfl⟩ := s.mem_update h st hg
  exact ⟨heffect.offs f hf, g₀, hg₀, rfl, rfl⟩

/-- What a call on a handle is made of. -/
theorem Fs.fileCall_cases {c : FileCall} {reply : Reply} (hcall : s.fileCall c = .ok (t, reply)) :
    ∃ h st, s.files[c.fd - fdStart]? = some h ∧ (s.view h).fileCall c = .ok (st, reply) ∧ t = s.update h st := by
  unfold Fs.fileCall at hcall
  split at hcall
  · cases hcall
  · next h hh =>
    obtain ⟨⟨st, reply'⟩, hst, hcall⟩ := exists_of_bind_eq_ok hcall
    cases hcall
    exact ⟨h, st, hh, hst, rfl⟩

theorem Fs.Ok.fileCall (hok : s.Ok) {c : FileCall} {reply : Reply} (hvalid : c.Valid)
    (hcall : s.fileCall c = .ok (t, reply)) : t.Ok := by
  obtain ⟨h, st, hh, hst, rfl⟩ := Fs.fileCall_cases hcall
  have hmem := List.mem_of_getElem? hh
  obtain ⟨⟨content, hcontent⟩, -⟩ := hok.represents hmem
  refine hok.update hmem (State.fileCall_effect hcontent ?_ hvalid hst)
  intro f hf
  obtain ⟨g, hg, rfl⟩ := List.mem_map.mp hf
  exact hok.offs g hg

/-- A new handle, on an old support or on a new one. -/
theorem Fs.memfsOpen_cases (hopen : s.memfsOpen o = .ok t) :
    (∃ (i : Nat) (sp : Support), s.sups[i]? = some sp ∧ sp.inode = o.node.key ∧ t.sups = s.sups ∧
      t.files = s.files ++ [{ sup := i, file := { closed := false, off := 0 }, node := o.node }]) ∨
    (∀ sp ∈ s.sups, sp.inode ≠ o.node.key) ∧ o.content.length < addressSpace ∧
      t.sups = s.sups ++ [{ inode := o.node.key, sup := Memfs.memfsSupportOpen o.content }] ∧
      t.files = s.files ++ [{ sup := s.sups.length, file := { closed := false, off := 0 }, node := o.node }] := by
  unfold Fs.memfsOpen at hopen
  split at hopen
  · cases hopen
  split at hopen
  · cases hopen
  split at hopen
  · cases hopen
  obtain ⟨⟨u, i⟩, hsup, hopen⟩ := exists_of_bind_eq_ok hopen
  cases hopen
  unfold Fs.memfsSupportOpen at hsup
  split at hsup
  · cases hsup
  split at hsup
  · next j hj =>
    cases hsup
    obtain ⟨hlt, hkey, -⟩ := List.findIdx?_eq_some_iff_getElem.mp hj
    exact .inl ⟨i, s.sups[i], List.getElem?_eq_getElem hlt, of_decide_eq_true hkey, rfl, rfl⟩
  · next hnone =>
    split at hsup
    · cases hsup
    · next hmap =>
      cases hsup
      refine .inr ⟨?_, not_not.mp hmap, rfl, rfl⟩
      intro sp hsp
      exact of_decide_eq_false (List.findIdx?_eq_none_iff.mp hnone sp hsp)

theorem memfsSupportOpen_capacity_pos (content : List Byte) : 0 < (Memfs.memfsSupportOpen content).capacity := by
  unfold Memfs.memfsSupportOpen MemfsSupport.capacity mmapExtraSpace
  simp only
  omega

theorem Fs.Ok.memfsOpen (hok : s.Ok) (hopen : s.memfsOpen o = .ok t) : t.Ok := by
  rcases Fs.memfsOpen_cases hopen with ⟨i, sp, hsp, hkey, hsups, hfiles⟩ | ⟨hnew, hlen, hsups, hfiles⟩
  · refine ⟨hsups ▸ hok.sups_ok, hsups ▸ hok.keys, ?_, ?_⟩
    · rw [hsups, hfiles, List.forall_mem_append, List.forall_mem_singleton]
      exact ⟨hok.linked, by rw [hsp, ← hkey]; rfl⟩
    · rw [hfiles, List.forall_mem_append, List.forall_mem_singleton]
      refine ⟨hok.offs, ?_⟩
      show 0 < 2 ^ 64
      omega
  · have hkeys : t.sups.map Support.inode = s.sups.map Support.inode ++ [o.node.key] := by
      rw [hsups, List.map_append, List.map_singleton]
    have hroom : o.content.length + mmapExtraSpace < 2 ^ 63 := by
      unfold addressSpace at hlen
      unfold mmapExtraSpace
      omega
    refine ⟨?_, ?_, ?_, ?_⟩
    · rw [hsups, List.forall_mem_append, List.forall_mem_singleton]
      exact ⟨hok.sups_ok, ⟨o.content, represents_open hroom⟩, memfsSupportOpen_capacity_pos o.content⟩
    · rw [hkeys, List.nodup_append]
      refine ⟨hok.keys, List.nodup_singleton _, ?_⟩
      intro a ha b hb heq
      obtain ⟨sp, hsp, rfl⟩ := List.mem_map.mp ha
      exact hnew sp hsp (heq.trans (List.mem_singleton.mp hb))
    · rw [hfiles, List.forall_mem_append, List.forall_mem_singleton]
      refine ⟨?_, ?_⟩
      · intro g hg
        obtain ⟨sp, hsp, hkey, -⟩ := hok.support hg
        rw [hsups, List.getElem?_append_left (List.getElem?_eq_some_iff.mp hsp).1, hsp, ← hkey]
        rfl
      · rw [hsups, List.getElem?_concat_length, Option.map_some]
    · rw [hfiles, List.forall_mem_append, List.forall_mem_singleton]
      refine ⟨hok.offs, ?_⟩
      show 0 < 2 ^ 64
      omega

/-- `O_APPEND` -/
theorem Fs.Ok.append (hok : s.Ok) (id : Nat) :
    { s with files := s.files.modify id fun h => { h with file.off := (s.supAt h.sup).length } }.Ok := by
  refine hok.withFiles ?_
  intro g hg
  obtain ⟨i, hi⟩ := List.mem_iff_getElem?.mp hg
  rw [List.getElem?_modify] at hi
  obtain ⟨g₀, hg₀, rfl⟩ := Option.map_eq_some_iff.mp hi
  have hmem := List.mem_of_getElem? hg₀
  split
  · obtain ⟨⟨content, hcontent⟩, -⟩ := hok.represents hmem
    have hle := hcontent.length_le
    have hlt := hcontent.capacity_lt
    exact ⟨Nat.lt_of_le_of_lt hle (by omega), g₀, hmem, rfl, rfl⟩
  · exact ⟨hok.offs g₀ hmem, g₀, hmem, rfl, rfl⟩

theorem Fs.Ok.opening (hok : s.Ok) {how : Opening} {id : Option Nat} (hopen : s.opening o how = .ok (t, id)) :
    t.Ok := by
  have hfd {trunc append : Bool} (hopen : s.openFd o trunc append = .ok (t, id)) : t.Ok := by
    unfold Fs.openFd at hopen
    split at hopen
    · cases hopen
      exact hok
    · obtain ⟨u, hu, hopen⟩ := exists_of_bind_eq_ok hopen
      simp only at hopen
      split at hopen
      · cases hopen
        exact (hok.memfsOpen hu).append s.files.length
      · cases hopen
        exact hok.memfsOpen hu
  cases how with
  | openFd trunc append => exact hfd hopen
  | creat => exact hfd hopen
  | fopen mode =>
    unfold Fs.opening Fs.fopen at hopen
    simp only at hopen
    split at hopen
    · cases hopen
      exact hok
    split at hopen
    · cases hopen
    split at hopen
    · cases hopen
    obtain ⟨u, hu, hopen⟩ := exists_of_bind_eq_ok hopen
    cases hopen
    exact hok.memfsOpen hu

theorem Fs.Ok.step (hok : s.Ok) {c : FsCall} (hvalid : c.Valid) (hstep : s.step c = .ok t) : t.Ok := by
  cases c with
  | opening o how =>
    obtain ⟨⟨u, id⟩, hopen, h⟩ := exists_of_bind_eq_ok hstep
    cases h
    exact hok.opening hopen
  | file c =>
    obtain ⟨⟨u, reply⟩, hcall, h⟩ := exists_of_bind_eq_ok hstep
    cases h
    exact hok.fileCall hvalid hcall

/-- **The tables are always sound.** -/
theorem Reachable.ok (h : Reachable s) : s.Ok := by
  obtain ⟨calls, hrun⟩ := h
  refine hrun.invariant (fun hok hvalid hstep => hok.step hvalid hstep) ?_
  exact ⟨fun sp hsp => absurd hsp List.not_mem_nil, List.nodup_nil, fun h hh => absurd hh List.not_mem_nil,
    fun h hh => absurd hh List.not_mem_nil⟩

theorem Fs.step_opening {how : Opening} {id : Option Nat} (hopening : s.opening o how = .ok (t, id)) :
    s.step (.opening o how) = .ok t := by
  unfold Fs.step
  simp only
  rw [hopening]
  rfl

theorem Reachable.step (h : Reachable s) {c : FsCall} (hvalid : c.Valid) (hstep : s.step c = .ok t) : Reachable t := by
  obtain ⟨calls, hrun⟩ := h
  exact ⟨calls ++ [c], hrun.concat hvalid hstep⟩

theorem Reachable.run {calls : List FsCall} (h : Reachable s) (hrun : Run Fs.step (fun _ c => c.Valid) s calls t) :
    Reachable t := by
  obtain ⟨before, hbefore⟩ := h
  exact ⟨before ++ calls, hbefore.append hrun⟩

end Ok

end SkiVmm.Memfs
