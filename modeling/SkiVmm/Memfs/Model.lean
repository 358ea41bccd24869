import Mathlib.Algebra.Group.Nat.Defs
import Mathlib.Algebra.Ring.Int.Defs
import SkiVmm.Lib.Flat
import SkiVmm.Lib.Run

/-!
# `Memfs.Model` — files in memory (`ski-memfs.c`)

A file that is opened through memfs is mapped privately once, into a *support* that all handles of the file share.
The support has two blocks: the mapping, as long as the file was at that time, and an anonymous extra block for
what grows behind it. `length` is the length of the file; the blocks keep whatever was stored above it.

This module is the model of `memfs_read`, `memfs_write` and the hooks on descriptors over them. `size_t` values are
natural numbers with the sums taken modulo `2 ^ 64`.
-/

namespace SkiVmm.Memfs

open Lib

abbrev Byte := UInt8

/-- Arithmetic on `size_t`. -/
def sizeT (n : Nat) : Nat := n % 2 ^ 64

/-- A `size_t` as `ssize_t` or `off_t`. -/
def toOffT (n : Nat) : Int := (n : Int).bmod (2 ^ 64)

/-- `MEMFS_MMAP_EXTRA_SPACE` -/
def mmapExtraSpace : Nat := 512 * 1024 * 1024

/-- `memfs_support`; a block is its address space and its length. -/
structure MemfsSupport where
  mmapAddr : Nat → Byte
  mmapLength : Nat
  extraAddr : Nat → Byte
  extraLength : Nat
  length : Nat

/-- `memfs_file`; the support is the one all handles share. -/
structure MemfsFile where
  closed : Bool
  off : Nat
deriving DecidableEq, Repr

inductive Stop where
  /-- a failed `assert` -/
  | assertion
  /-- `SKI_EXIT_MEMFS_LOWMEM` -/
  | exitMemfsLowmem
  /-- the descriptor is not one of memfs, and the call goes to the system -/
  | defaultCall
  /-- the trap of a division by zero -/
  | divisionByZero
deriving DecidableEq, Repr

/-- `memfs_support_open` on a file that has no support yet. -/
def memfsSupportOpen (content : List Byte) : MemfsSupport :=
  { mmapAddr := fun i => content.getD i 0, mmapLength := content.length, extraAddr := fun _ => 0,
    extraLength := mmapExtraSpace, length := content.length }

/-- `memfs_read`: the bytes copied to `ptr`, the number it returns, and the handle. -/
def memfsRead (size nmemb off : Nat) (sup : MemfsSupport) (f : MemfsFile) (updateOff : Bool) :
    Except Stop (List Byte × Nat × MemfsFile) :=
  let totalReadLength := sizeT (size * nmemb)
  if off > sup.length then .ok ([], 0, f)
  else if off = sup.length then .ok ([], 0, f)
  else
    let totalReadLength :=
      if sizeT (off + totalReadLength) > sup.length then (sup.length - off) / size * size else totalReadLength
    let mmapReadLength := if off < sup.mmapLength then min (sup.mmapLength - off) totalReadLength else 0
    let fromMmap := load sup.mmapAddr off mmapReadLength
    let f' := if updateOff then { f with off := sizeT (off + totalReadLength) } else f
    if mmapReadLength ≠ totalReadLength then
      let extraReadLength := totalReadLength - mmapReadLength
      let extraOff := if mmapReadLength ≠ 0 then 0 else off - sup.mmapLength
      if sizeT (extraOff + extraReadLength) ≤ sup.extraLength then
        .ok (fromMmap ++ load sup.extraAddr extraOff extraReadLength, totalReadLength, f')
      else .error .assertion
    else .ok (fromMmap, totalReadLength, f')

/-- The copy to the two blocks in `memfs_write`; `src` is `ptr`, or zeroes when `ptr` is null. -/
def storeBlocks (sup : MemfsSupport) (off totalWriteLength : Nat) (src : Nat → Byte) : Except Stop MemfsSupport :=
  let mmapWriteLength := if off < sup.mmapLength then min (sup.mmapLength - off) totalWriteLength else 0
  let sup := { sup with mmapAddr := fill sup.mmapAddr off mmapWriteLength src }
  if mmapWriteLength ≠ totalWriteLength then
    let extraWriteLength := totalWriteLength - mmapWriteLength
    let extraOff := if mmapWriteLength ≠ 0 then 0 else off - sup.mmapLength
    if sizeT (extraOff + extraWriteLength) ≤ sup.extraLength then
      .ok { sup with
        extraAddr := fill sup.extraAddr extraOff extraWriteLength fun i => src (mmapWriteLength + i) }
    else .error .exitMemfsLowmem
  else .ok sup

/-- What `memfs_write` copies from: zeroes for a null pointer. -/
def source (ptr : Option (List Byte)) : Nat → Byte := fun i => (ptr.getD []).getD i 0

/-- `memfs_write`: the support, the handle and the number it returns. A write behind the end first calls itself to
    write zeroes up to `off`. -/
def memfsWrite (ptr : Option (List Byte)) (size nmemb off : Nat) (sup : MemfsSupport) (f : MemfsFile)
    (updateOff : Bool) : Except Stop (MemfsSupport × MemfsFile × Nat) := do
  let totalWriteLength := sizeT (size * nmemb)
  let (sup, f) ←
    if _h : off > sup.length then do
      let (sup, f, _) ← memfsWrite none (off - sup.length) 1 sup.length sup f false
      if off ≤ sup.length then .ok (sup, f) else .error .assertion
    else .ok (sup, f)
  let sup ← storeBlocks sup off totalWriteLength (source ptr)
  let sup := { sup with length := max sup.length (sizeT (off + totalWriteLength)) }
  .ok (sup, if updateOff then { f with off := sizeT (off + totalWriteLength) } else f, totalWriteLength)
termination_by off

/-! ## The hooks -/

/-- A file that is open through memfs, with all its handles. -/
structure State where
  sup : MemfsSupport
  files : List MemfsFile

/-- `MEMFS_FD_START` -/
def fdStart : Nat := 100

/-- `memfs_get_fd` -/
def memfsGetFd (s : State) (fd : Nat) : Except Stop MemfsFile :=
  if fd < fdStart then .error .defaultCall
  else
    match s.files[fd - fdStart]? with
    | none => .error .defaultCall
    | some f => if f.closed then .error .assertion else .ok f

/-- What a call gives back: its result, and the bytes it has put into the buffer. -/
structure Reply where
  ret : Int
  data : List Byte
deriving DecidableEq, Repr

inductive Whence where
  | set
  | cur
  | fromEnd
deriving DecidableEq, Repr

/-- Where `lseek` counts from. -/
def seekBase (off length : Nat) : Whence → Nat
  | .set => 0
  | .cur => off
  | .fromEnd => length

def State.setFile (s : State) (fd : Nat) (f : MemfsFile) : State :=
  { s with files := s.files.set (fd - fdStart) f }

/-- `read` -/
def State.read (s : State) (fd count : Nat) : Except Stop (State × Reply) := do
  let f ← memfsGetFd s fd
  let (data, bytes, f) ← memfsRead 1 count f.off s.sup f true
  .ok (s.setFile fd f, { ret := toOffT bytes, data := data })

/-- `pread` -/
def State.pread (s : State) (fd count offset : Nat) : Except Stop (State × Reply) := do
  let f ← memfsGetFd s fd
  let (data, bytes, f) ← memfsRead 1 count offset s.sup f false
  .ok (s.setFile fd f, { ret := toOffT bytes, data := data })

/-- `write` -/
def State.write (s : State) (fd : Nat) (ptr : List Byte) : Except Stop (State × Reply) := do
  let f ← memfsGetFd s fd
  let (sup, f, bytes) ← memfsWrite (some ptr) 1 ptr.length f.off s.sup f true
  .ok ({ s with sup := sup }.setFile fd f, { ret := toOffT bytes, data := [] })

/-- `pwrite` -/
def State.pwrite (s : State) (fd : Nat) (ptr : List Byte) (offset : Nat) : Except Stop (State × Reply) := do
  let f ← memfsGetFd s fd
  let (sup, f, bytes) ← memfsWrite (some ptr) 1 ptr.length offset s.sup f false
  .ok ({ s with sup := sup }.setFile fd f, { ret := toOffT bytes, data := [] })

/-- `ftruncate`; an expansion is a failed assertion. -/
def State.ftruncate (s : State) (fd length : Nat) : Except Stop (State × Reply) := do
  let _ ← memfsGetFd s fd
  if length > s.sup.length then .error .assertion
  else .ok ({ s with sup := { s.sup with length := length } }, { ret := 0, data := [] })

/-- `lseek` -/
def State.lseek (s : State) (fd : Nat) (offset : Int) (whence : Whence) : Except Stop (State × Reply) := do
  let f ← memfsGetFd s fd
  let off := (((seekBase f.off s.sup.length whence : Int) + offset) % 2 ^ 64).toNat
  if off ≤ s.sup.length then .ok (s.setFile fd { f with off := off }, { ret := toOffT off, data := [] })
  else .error .assertion

/-- A call through one of the handles. -/
inductive Call where
  | read (fd count : Nat)
  | pread (fd count offset : Nat)
  | write (fd : Nat) (ptr : List Byte)
  | pwrite (fd : Nat) (ptr : List Byte) (offset : Nat)
  | ftruncate (fd length : Nat)
  | lseek (fd : Nat) (offset : Int) (whence : Whence)
deriving DecidableEq, Repr

def State.call (s : State) : Call → Except Stop (State × Reply)
  | .read fd count => s.read fd count
  | .pread fd count offset => s.pread fd count offset
  | .write fd ptr => s.write fd ptr
  | .pwrite fd ptr offset => s.pwrite fd ptr offset
  | .ftruncate fd length => s.ftruncate fd length
  | .lseek fd offset whence => s.lseek fd offset whence

/-- What can be seen after a call: the reply, the length of the file and the offsets of the handles. -/
structure Observation where
  reply : Reply
  length : Nat
  offs : List Nat
deriving DecidableEq, Repr

/-- A sequence of calls, with what is seen after each of them. -/
def State.run (s : State) : List Call → Except Stop (State × List Observation)
  | [] => .ok (s, [])
  | call :: calls => do
    let (s, reply) ← s.call call
    let (t, rest) ← s.run calls
    .ok (t, { reply := reply, length := s.sup.length, offs := s.files.map MemfsFile.off } :: rest)

end SkiVmm.Memfs
