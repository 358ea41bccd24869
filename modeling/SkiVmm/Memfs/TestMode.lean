import SkiVmm.Memfs.Sharing

/-!
# `Memfs.TestMode` — memfs checked against the system

In test mode a call goes to memfs and to the file under it, and the two must agree (`START_TEST`, `END_TEST`). The call
to memfs then works on `test_buff`, so that a read does not overwrite the buffer of the caller. A write has nothing to
protect, and takes the data from the caller as always; only `fwrite` passes `test_buff` on, and writes to the file
what a read has left there.

`testMode_observe_iff`: test mode leaves the same files as normal mode, as long as `test_buff` happens to hold the data
of each `fwrite`.
-/

namespace SkiVmm.Memfs

open Lib

/-! ## Test mode -/

/-- The calls that are checked. -/
inductive IoCall where
  | fread (fd size nmemb : Nat)
  | fwrite (fd size nmemb : Nat) (ptr : List Byte)
  | read (fd count : Nat)
  | pread (fd count offset : Nat)
  | write (fd : Nat) (ptr : List Byte)
  | pwrite (fd : Nat) (ptr : List Byte) (offset : Nat)
deriving DecidableEq, Repr

/-- The call as it is without test mode. -/
def IoCall.call : IoCall → FileCall
  | .fread fd size nmemb => .fread fd size nmemb
  | .fwrite fd size nmemb ptr => .fwrite fd size nmemb ptr
  | .read fd count => .call (.read fd count)
  | .pread fd count offset => .call (.pread fd count offset)
  | .write fd ptr => .call (.write fd ptr)
  | .pwrite fd ptr offset => .call (.pwrite fd ptr offset)

/-- The call to memfs in test mode: `write` and `pwrite` pass `ptr_original` on, `fwrite` passes `ptr`, which is
    `test_buff`. -/
def IoCall.inTest (testBuff : Nat → Byte) : IoCall → FileCall
  | .fwrite fd size nmemb _ => .fwrite fd size nmemb (load testBuff 0 (sizeT (size * nmemb)))
  | c => c.call

/-- The argument of `START_TEST`. -/
def IoCall.testLength : IoCall → Nat
  | .fread _ size nmemb | .fwrite _ size nmemb _ => sizeT (size * nmemb)
  | .read _ count | .pread _ count _ => sizeT count
  | .write _ ptr | .pwrite _ ptr _ => sizeT ptr.length

/-- The last argument of `END_TEST`: how much of the two buffers is compared. -/
def IoCall.bufLength (ret : Int) : IoCall → Nat
  | .fread _ size _ => if ret > 0 then sizeT (ret.toNat * size) else 0
  | .read _ _ | .pread _ _ _ => if ret > 0 then ret.toNat else 0
  | .fwrite _ _ _ _ | .write _ _ | .pwrite _ _ _ => 0

/-- `MAX_TEST_BUFF` -/
def maxTestBuff : Nat := 64 * 1024 * 1024

/-- `buf_length < MAX_TEST_BUFF` as the macro expands it: the argument of a read is a conditional expression, and the
    comparison becomes a part of its last branch. -/
def IoCall.lengthCheck (ret : Int) (c : IoCall) : Bool :=
  match c with
  | .fread _ _ _ | .read _ _ | .pread _ _ _ => if ret > 0 then c.bufLength ret ≠ 0 else 0 < maxTestBuff
  | .fwrite _ _ _ _ | .write _ _ | .pwrite _ _ _ => 0 < maxTestBuff

structure TestFs where
  fs : Fs
  /-- `test_buff` -/
  testBuff : Nat → Byte

/-- A call in test mode. `real` is what the call to the system has returned, with the buffer of the caller after it. -/
def TestFs.ioCall (s : TestFs) (c : IoCall) (real : Reply) : Except Stop TestFs :=
  if ¬c.testLength < maxTestBuff then .error .assertion
  else do
    let (fs, reply) ← s.fs.fileCall (c.inTest s.testBuff)
    let testBuff := fill s.testBuff 0 reply.data.length fun i => reply.data.getD i 0
    let bufLength := c.bufLength reply.ret
    if ¬c.lengthCheck reply.ret then .error .assertion
    -- `res_original` is an `int`
    else if toCInt real.ret ≠ reply.ret then .error .assertion
    else if load testBuff 0 bufLength ≠ real.data.take bufLength then .error .assertion
    else .ok { fs := fs, testBuff := testBuff }

def TestFs.step (s : TestFs) (c : IoCall × Reply) : Except Stop TestFs := s.ioCall c.1 c.2

/-! ## The property -/

/-- What memfs holds: the contents of the files by their keys, and the handles with their offsets. -/
def Fs.observe (s : Fs) : List (Int × List Byte) × List Handle :=
  (s.sups.map fun sp => (sp.inode, sp.sup.content), s.files)

/-- If the call is an `fwrite`, `test_buff` holds its data. -/
def TestFs.Prepared (s : TestFs) : IoCall → Prop
  | .fwrite _ size nmemb ptr => ∀ i < sizeT (size * nmemb), s.testBuff i = ptr.getD i 0
  | _ => True

/-! ## One call -/

section Calls
variable {s t : Fs} {c : IoCall} {real : Reply}

theorem written_eq_iff {ptr ptr' : Option (List Byte)} {n : Nat} :
    written ptr n = written ptr' n ↔ ∀ i < n, source ptr i = source ptr' i := by
  unfold written
  constructor
  · intro h i hi
    calc source ptr i = source (some (load (source ptr) 0 n)) i := (source_load hi).symm
      _ = source (some (load (source ptr') 0 n)) i := by rw [h]
      _ = source ptr' i := source_load hi
  · intro h
    refine load_congr fun i hi => ?_
    rw [Nat.zero_add]
    exact h i hi

theorem TestFs.ioCall_fs {s t : TestFs} (h : s.ioCall c real = .ok t) :
    ∃ reply, s.fs.fileCall (c.inTest s.testBuff) = .ok (t.fs, reply) := by
  unfold TestFs.ioCall at h
  split at h
  · cases h
  obtain ⟨⟨fs, reply⟩, hcall, h⟩ := exists_of_bind_eq_ok h
  simp only at h
  split at h
  · cases h
  split at h
  · cases h
  split at h
  · cases h
  cases h
  exact ⟨reply, hcall⟩

/-- A call on a handle has changed the contents of one file. -/
theorem Fs.Ok.observe_update_iff (hok : s.Ok) {h : Handle} (hh : h ∈ s.files) {st st' : State}
    (hfiles : st.files = st'.files) :
    (s.update h st).observe = (s.update h st').observe ↔ st.sup.content = st'.sup.content := by
  obtain ⟨sp, hsp, -⟩ := hok.support hh
  have hsups (st : State) (i : Nat) : ((s.update h st).sups.map fun sp => (sp.inode, sp.sup.content))[i]?
      = s.sups[i]?.map fun sp => (sp.inode, if h.sup = i then st.sup.content else sp.sup.content) := by
    unfold Fs.update
    rw [List.getElem?_map, List.getElem?_modify, Option.map_eq_map, Option.map_map]
    congr 1
    funext sp
    simp only [Function.comp_apply]
    split <;> rfl
  unfold Fs.observe
  rw [Prod.mk.injEq]
  constructor
  · rintro ⟨heq, -⟩
    have hat := (hsups st h.sup).symm.trans ((congrArg (·[h.sup]?) heq).trans (hsups st' h.sup))
    rw [hsp, Option.map_some, Option.map_some, if_pos rfl, if_pos rfl] at hat
    exact (Prod.mk.inj (Option.some.inj hat)).2
  · intro heq
    refine ⟨List.ext_getElem? fun i => ?_, ?_⟩
    · rw [hsups, hsups, heq]
    · unfold Fs.update
      rw [hfiles]

/-- **An `fwrite` of other data** succeeds as well, and leaves other contents. -/
theorem State.fwrite_content_iff {st st' : State} {content : List Byte} (hcontent : Represents st.sup content)
    (hoffs : ∀ f ∈ st.files, f.off < 2 ^ 64) {fd size nmemb : Nat} (ptr : List Byte) {ptr' : List Byte} {reply : Reply}
    (hn : sizeT (size * nmemb) < 2 ^ 63) (h : st.fwrite fd size nmemb ptr' = .ok (st', reply)) :
    ∃ st₁, st.fwrite fd size nmemb ptr = .ok (st₁, reply) ∧ st₁.files = st'.files ∧
      (st₁.sup.content = st'.sup.content ↔ ∀ i < sizeT (size * nmemb), source (some ptr) i = source (some ptr') i) := by
  obtain ⟨hsize, f, hf, sup', f', n, hwrite', rfl, rfl⟩ := State.fwrite_cases h
  have hoff := hoffs f (List.mem_of_getElem? (memfsGetFd_mem hf))
  obtain ⟨hfit, rfl, rfl, hrep', -⟩ := memfsWrite_spec hcontent hoff hn hwrite'
  obtain ⟨sup, hwrite, hrep, -⟩ := hcontent.writes (some ptr) f true hfit
  refine ⟨{ st with sup := sup }.setFile fd { f with off := f.off + sizeT (size * nmemb) }, ?_, rfl, ?_⟩
  · unfold State.fwrite
    rw [hf, ok_bind, hwrite, ok_bind]
    simp only
    rw [if_neg hsize]
    rfl
  · show sup.content = sup'.content ↔ _
    rw [hrep.content_eq, hrep'.content_eq, ← written_eq_iff]
    constructor
    · intro heq
      refine writeAt_inj ?_ heq
      rw [written, written, length_load, length_load]
    · intro heq
      rw [heq]

theorem Fs.Ok.fwrite_observe_iff (hok : s.Ok) {fd size nmemb : Nat} (ptr : List Byte) {ptr' : List Byte} {reply : Reply}
    (hn : sizeT (size * nmemb) < 2 ^ 63) (h : s.fileCall (.fwrite fd size nmemb ptr') = .ok (t, reply)) :
    ∃ u, s.fileCall (.fwrite fd size nmemb ptr) = .ok (u, reply) ∧
      (u.observe = t.observe ↔ ∀ i < sizeT (size * nmemb), source (some ptr) i = source (some ptr') i) := by
  obtain ⟨g, st', hg, hst', rfl⟩ := Fs.fileCall_cases h
  have hmem := List.mem_of_getElem? hg
  obtain ⟨⟨content, hcontent⟩, -⟩ := hok.represents hmem
  have hoffs : ∀ f ∈ (s.view g).files, f.off < 2 ^ 64 := by
    intro f hf
    obtain ⟨g', hg', rfl⟩ := List.mem_map.mp hf
    exact hok.offs g' hg'
  obtain ⟨st, hst, hfiles, hiff⟩ := State.fwrite_content_iff hcontent hoffs ptr hn hst'
  refine ⟨s.update g st, ?_, (hok.observe_update_iff hmem hfiles).trans hiff⟩
  unfold Fs.fileCall
  rw [show s.files[(FileCall.fwrite fd size nmemb ptr).fd - fdStart]? = some g from hg]
  simp only
  rw [show (s.view g).fileCall (.fwrite fd size nmemb ptr) = .ok (st, reply) from hst]
  rfl

/-- **A call in test mode**, compared with the same call in normal mode. -/
theorem Fs.Ok.ioCall_observe_iff (hok : s.Ok) {testBuff : Nat → Byte} {t : TestFs} (hvalid : c.call.Valid)
    (h : TestFs.ioCall { fs := s, testBuff := testBuff } c real = .ok t) :
    ∃ u reply, s.fileCall c.call = .ok (u, reply) ∧
      (u.observe = t.fs.observe ↔ TestFs.Prepared { fs := s, testBuff := testBuff } c) := by
  obtain ⟨reply, hcall⟩ := TestFs.ioCall_fs h
  cases c with
  | fwrite fd size nmemb ptr =>
    have hn : sizeT (size * nmemb) < 2 ^ 63 := sizeT_buffer (Nat.lt_of_le_of_lt hvalid.1 hvalid.2)
    obtain ⟨u, hnormal, hiff⟩ := hok.fwrite_observe_iff ptr hn hcall
    refine ⟨u, reply, hnormal, hiff.trans (forall₂_congr fun i hi => ?_)⟩
    rw [source_load hi]
    exact eq_comm
  | _ => exact ⟨t.fs, reply, hcall, iff_of_true rfl trivial⟩

/-- A call that is not disturbed. -/
theorem TestFs.Prepared.fileCall_eq {s : TestFs} (h : s.Prepared c) :
    s.fs.fileCall (c.inTest s.testBuff) = s.fs.fileCall c.call := by
  cases c with
  | fwrite fd size nmemb ptr =>
    have hsource (i : Nat) (hi : i < sizeT (size * nmemb)) :
        source (some (load s.testBuff 0 (sizeT (size * nmemb)))) i = source (some ptr) i :=
      (source_load hi).trans (h i hi)
    unfold IoCall.inTest IoCall.call Fs.fileCall State.fileCall State.fwrite
    simp only [FileCall.fd, memfsWrite_congr rfl rfl hsource]
  | _ => rfl

end Calls

/-! ## Whole runs -/

/-- **Test mode and normal mode.** As long as each `fwrite` finds its data in `test_buff`, every run in test mode is a
    run in normal mode to the same files. And of each single call this is the exact condition: the contents, lengths
    and offsets after it are the same in both modes if and only if it holds. -/
theorem testMode_observe_iff {s : Fs} (hs : Reachable s) (testBuff : Nat → Byte) :
    (∀ calls t, Run TestFs.step (fun s c => c.1.call.Valid ∧ s.Prepared c.1) { fs := s, testBuff := testBuff } calls t →
      Run Fs.step (fun _ c => c.Valid) s (calls.map fun c => .file c.1.call) t.fs) ∧
    ∀ c real t, c.call.Valid → TestFs.ioCall { fs := s, testBuff := testBuff } c real = .ok t →
      ∃ u reply, s.fileCall c.call = .ok (u, reply) ∧
        (u.observe = t.fs.observe ↔ TestFs.Prepared { fs := s, testBuff := testBuff } c) := by
  refine ⟨?_, fun c real t hvalid h => hs.ok.ioCall_observe_iff hvalid h⟩
  intro calls t hrun
  refine hrun.map TestFs.fs (fun c => FsCall.file c.1.call) ?_
  rintro s ⟨c, real⟩ t ⟨hvalid, hprepared⟩ hstep
  obtain ⟨reply, hcall⟩ := TestFs.ioCall_fs hstep
  refine ⟨hvalid, ?_⟩
  unfold Fs.step
  simp only
  rw [← hprepared.fileCall_eq, hcall]
  rfl

/-! ## An `fwrite` in test mode -/

/-- An empty file that was opened. -/
def emptyFile : Fs := { sups := [{ inode := 7, sup := Memfs.memfsSupportOpen [] }], files := [handleOf 0 1 7] }

theorem reachable_emptyFile : Reachable emptyFile := by
  have hopening : Fs.opening { sups := [], files := [] } (openOf 3 1 7 []) (.openFd false false)
      = .ok (emptyFile, some 0) := by
    have hkey : (openOf 3 1 7 []).node.key = 7 := by decide
    rw [Fs.opening_first (by decide) (by decide) (by decide) false, hkey]
    rfl
  exact ⟨[.opening (openOf 3 1 7 []) (.openFd false false)],
    .cons trivial (Fs.step_opening hopening) (.nil emptyFile)⟩

/-- One byte is written to it. -/
theorem emptyFile_fwrite (b : Byte) :
    ∃ u, emptyFile.fileCall (.fwrite 100 1 1 [b]) = .ok (u, { ret := 1, data := [] }) ∧
      u.observe.1 = [(7, [b])] := by
  have hrep : Represents (Memfs.memfsSupportOpen []) [] := represents_open (by decide)
  have hfit : 0 + sizeT (1 * 1) ≤ (Memfs.memfsSupportOpen []).capacity := by decide
  obtain ⟨sup, hwrite, hsup, -⟩ := hrep.writes (some [b]) { closed := false, off := 0 } true hfit
  refine ⟨emptyFile.update (handleOf 0 1 7) { sup := sup, files := [{ closed := false, off := 1 }] }, ?_, ?_⟩
  · have hview : (emptyFile.view (handleOf 0 1 7)).fwrite 100 1 1 [b]
        = .ok ({ sup := sup, files := [{ closed := false, off := 1 }] }, { ret := 1, data := [] }) := by
      unfold State.fwrite
      rw [show memfsGetFd (emptyFile.view (handleOf 0 1 7)) 100 = .ok { closed := false, off := 0 } from rfl, ok_bind]
      exact congrArg (· >>= _) hwrite
    unfold Fs.fileCall
    rw [show emptyFile.files[(FileCall.fwrite 100 1 1 [b]).fd - fdStart]? = some (handleOf 0 1 7) from rfl]
    exact congrArg (· >>= _) hview
  · show [((7 : Int), sup.content)] = [(7, [b])]
    rw [hsup.content_eq]
    rfl

/-- The same in test mode, while `test_buff` is still zero. -/
theorem emptyFile_ioCall (b : Byte) :
    ∃ t, TestFs.ioCall { fs := emptyFile, testBuff := fun _ => 0 } (.fwrite 100 1 1 [b]) { ret := 1, data := [] }
        = .ok t ∧
      t.fs.observe.1 = [(7, [0])] := by
  obtain ⟨u, hcall, hu⟩ := emptyFile_fwrite 0
  refine ⟨{ fs := u, testBuff := fill (fun _ => 0) 0 0 fun _ => 0 }, ?_, hu⟩
  have hlength : (IoCall.fwrite 100 1 1 [b]).testLength < maxTestBuff := (by decide : sizeT (1 * 1) < maxTestBuff)
  unfold TestFs.ioCall
  rw [if_neg (not_not.mpr hlength),
    show emptyFile.fileCall (IoCall.inTest (fun _ => 0) (.fwrite 100 1 1 [b])) = _ from hcall]
  rfl

/-- A zero that is written. -/
theorem testMode_observe_iff_zero :
    Reachable emptyFile ∧ ∃ t u reply,
      TestFs.ioCall { fs := emptyFile, testBuff := fun _ => 0 } (.fwrite 100 1 1 [0]) { ret := 1, data := [] } = .ok t ∧
      emptyFile.fileCall (.fwrite 100 1 1 [0]) = .ok (u, reply) ∧ u.observe = t.fs.observe := by
  obtain ⟨t, htest, -⟩ := emptyFile_ioCall 0
  have hvalid : (IoCall.fwrite 100 1 1 [0]).call.Valid := ⟨by decide, by decide⟩
  have hzero : ∀ i < sizeT (1 * 1), (0 : Byte) = [0].getD i 0 := by decide
  obtain ⟨u, reply, hnormal, hiff⟩ := (testMode_observe_iff reachable_emptyFile fun _ => 0).2 _ _ t hvalid htest
  exact ⟨reachable_emptyFile, t, u, reply, htest, hnormal, hiff.mpr hzero⟩

/-- The byte 5, written with `fwrite` while `test_buff` is still zero: the file has the byte in normal mode and a zero
    in test mode, and the test passes. -/
theorem fwrite_testBuff :
    ∃ s t u reply, Reachable s ∧
      TestFs.ioCall { fs := s, testBuff := fun _ => 0 } (.fwrite 100 1 1 [5]) { ret := 1, data := [] } = .ok t ∧
      s.fileCall (.fwrite 100 1 1 [5]) = .ok (u, reply) ∧
      t.fs.observe.1 = [(7, [0])] ∧ u.observe.1 = [(7, [5])] := by
  obtain ⟨t, htest, ht⟩ := emptyFile_ioCall 5
  obtain ⟨u, hnormal, hu⟩ := emptyFile_fwrite 5
  exact ⟨emptyFile, t, u, _, reachable_emptyFile, htest, hnormal, ht, hu⟩

end SkiVmm.Memfs
