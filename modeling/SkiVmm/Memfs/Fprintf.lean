import SkiVmm.Memfs.TestMode

/-!
# `Memfs.Fprintf` — formatted output to a file under memfs

`fprintf` formats into a buffer of 1024 bytes on the stack, and gives the whole buffer to `fwrite`: the output, the
byte 0 behind it, and what has been on the stack. It returns the length of the output.

* `Fs.Ok.fprintfs_blocks` — after some calls the file has one block of 1024 bytes for each.
* `fprintfs_print_iff` — so the file is never the outputs, one after the other, unless there are none.

Test mode is off.
-/

namespace SkiVmm.Memfs

open Lib

/-! ## The hook -/

/-- `fprintf_buff_size` -/
def fprintfBuffSize : Nat := 1024

/-- What a call formats, and what its buffer holds before. -/
structure FprintfCall where
  output : List Byte
  stack : Nat → Byte

/-- `fprintf_buff` after `vsnprintf`, for an output that fits. -/
def FprintfCall.buff (c : FprintfCall) : List Byte :=
  c.output ++ 0 :: load c.stack (c.output.length + 1) (fprintfBuffSize - (c.output.length + 1))

/-- `fprintf`, on the stream with this `fileno`. -/
def Fs.fprintf (s : Fs) (fd : Nat) (c : FprintfCall) : Except Stop (Fs × Nat) :=
  match s.files[fd - fdStart]? with
  | none => .error .defaultCall
  | some h => do
    let _ ← memfsGetFd (s.view h) fd
    if ¬c.output.length < fprintfBuffSize then .error .assertion
    else do
      let (t, reply) ← s.fileCall (.fwrite fd fprintfBuffSize 1 c.buff)
      if reply.ret = 1 then .ok (t, c.output.length) else .error .assertion

/-- Calls one after the other, with what they return. -/
def Fs.fprintfs (s : Fs) (fd : Nat) : List FprintfCall → Except Stop (Fs × List Nat)
  | [] => .ok (s, [])
  | c :: calls => do
    let (s, n) ← s.fprintf fd c
    let (t, ns) ← s.fprintfs fd calls
    .ok (t, n :: ns)

/-- `fd` is open on the support `sup`, which holds `content`, and its offset is at the end. -/
def Fs.AtEnd (s : Fs) (fd sup : Nat) (content : List Byte) : Prop :=
  ∃ h, s.OpenAs fd h ∧ h.sup = sup ∧ Represents (s.supAt sup) content ∧ h.file.off = content.length

/-- The calls append their outputs, and return the lengths of them. -/
def Fs.Prints (s : Fs) (fd sup : Nat) (calls : List FprintfCall) : Prop :=
  ∃ t, s.fprintfs fd calls = .ok (t, calls.map fun c => c.output.length) ∧
    t.AtEnd fd sup (calls.flatMap FprintfCall.output)

/-! ## `fwrite` at the end of a file -/

section Append
variable {s t : Fs} {fd sup : Nat} {h : Handle} {content ptr : List Byte}

theorem written_self (ptr : List Byte) : written (some ptr) ptr.length = ptr := by
  refine List.ext_getElem (length_load ..) fun i h₁ h₂ => ?_
  unfold written load source
  simp only [List.getElem_map, List.getElem_range, Nat.zero_add, Option.getD_some]
  exact List.getD_eq_getElem _ _ h₂

/-- The handle and its support after a call that has set both. -/
theorem Fs.Ok.update_openAs (hok : s.Ok) (hopen : s.OpenAs fd h) (sup : MemfsSupport) {f : MemfsFile}
    (hf : f.closed = false) :
    (s.update h ({ s.view h with sup := sup }.setFile fd f)).OpenAs fd { h with file := f } ∧
      (s.update h ({ s.view h with sup := sup }.setFile fd f)).supAt h.sup = sup := by
  obtain ⟨hlt, hget⟩ := List.getElem?_eq_some_iff.mp hopen.getElem?
  obtain ⟨sp, hsp, -⟩ := hok.support hopen.mem
  refine ⟨⟨hopen.fdStart_le, ?_, hf⟩, ?_⟩
  · unfold Fs.update State.setFile Fs.view
    simp only
    rw [List.getElem?_zipWith, hopen.getElem?, List.getElem?_set_self (by rwa [List.length_map])]
  · refine (Fs.supAt_modify s h.sup h.sup sup (List.getElem?_eq_some_iff.mp hsp).1).trans (if_pos rfl)

theorem Fs.OpenAs.fwrite_isOk (hopen : s.OpenAs fd h) {size nmemb : Nat} (hsize : size ≠ 0)
    (hcontent : Represents (s.supAt h.sup) content)
    (hfit : h.file.off + sizeT (size * nmemb) ≤ (s.supAt h.sup).capacity) (ptr : List Byte) :
    ∃ t, s.fileCall (.fwrite fd size nmemb ptr) = .ok (t, { ret := sizeT (size * nmemb) / size, data := [] }) := by
  obtain ⟨sup, hwrite, -⟩ := hcontent.writes (some ptr) h.file true hfit
  unfold Fs.fileCall State.fileCall State.fwrite
  simp only [FileCall.fd, hopen.getElem?]
  rw [hopen.memfsGetFd, ok_bind, show (s.view h).sup = s.supAt h.sup from rfl, hwrite, ok_bind]
  simp only
  rw [if_neg hsize]
  exact ⟨_, rfl⟩

/-- The handle and its support after a write of `ptr`. -/
theorem Fs.Ok.update_written (hok : s.Ok) (hopen : s.OpenAs fd h) (hcontent : Represents (s.supAt h.sup) content)
    {size nmemb n : Nat} {sup : MemfsSupport} {f : MemfsFile} (hptr : size * nmemb = ptr.length)
    (hlen : ptr.length < 2 ^ 63)
    (hwrite : memfsWrite (some ptr) size nmemb h.file.off (s.supAt h.sup) h.file true = .ok (sup, f, n)) :
    (s.update h ({ s.view h with sup := sup }.setFile fd f)).OpenAs fd
        { h with file := { h.file with off := h.file.off + ptr.length } } ∧
      Represents ((s.update h ({ s.view h with sup := sup }.setFile fd f)).supAt h.sup)
        (writeAt 0 content h.file.off ptr) := by
  have hn : sizeT (size * nmemb) = ptr.length := by rw [hptr, sizeT_of_lt (by omega)]
  obtain ⟨-, -, rfl, hrep, -⟩ := memfsWrite_spec hcontent (hok.offs h hopen.mem) (by rw [hn]; exact hlen) hwrite
  rw [hn, written_self] at hrep
  rw [if_pos rfl, hn]
  obtain ⟨hopen', hsup⟩ := hok.update_openAs hopen sup (f := { h.file with off := h.file.off + ptr.length }) hopen.open_
  refine ⟨hopen', ?_⟩
  rw [hsup]
  exact hrep

/-- **`fwrite` at the end** appends the buffer. -/
theorem Fs.Ok.fwrite_atEnd (hok : s.Ok) (hend : s.AtEnd fd sup content) {size nmemb : Nat}
    (hptr : size * nmemb = ptr.length) (hlen : ptr.length < 2 ^ 63) {reply : Reply}
    (hcall : s.fileCall (.fwrite fd size nmemb ptr) = .ok (t, reply)) : t.AtEnd fd sup (content ++ ptr) := by
  obtain ⟨h, hopen, rfl, hcontent, hoff⟩ := hend
  obtain ⟨g, st, hg, hst, rfl⟩ := Fs.fileCall_cases hcall
  obtain rfl : h = g := Option.some.inj (hopen.getElem?.symm.trans hg)
  obtain ⟨-, f, hf, sup, f', n, hwrite, rfl, -⟩ := State.fwrite_cases hst
  obtain rfl : h.file = f := Except.ok.inj (hopen.memfsGetFd.symm.trans hf)
  obtain ⟨hopen', hrep⟩ := hok.update_written hopen hcontent hptr hlen hwrite
  rw [hoff, writeAt_length] at hrep
  exact ⟨_, hopen', rfl, hrep, by rw [List.length_append, ← hoff]⟩

end Append

/-! ## Calls of `fprintf` -/

section Calls
variable {s t : Fs} {fd sup n : Nat} {content : List Byte} {c : FprintfCall}

theorem FprintfCall.length_buff (h : c.output.length < fprintfBuffSize) : c.buff.length = fprintfBuffSize := by
  unfold FprintfCall.buff
  rw [List.length_append, List.length_cons, length_load]
  omega

/-- What a call is made of. -/
theorem Fs.fprintf_cases (h : s.fprintf fd c = .ok (t, n)) :
    c.output.length < fprintfBuffSize ∧ n = c.output.length ∧
      ∃ reply, s.fileCall (.fwrite fd fprintfBuffSize 1 c.buff) = .ok (t, reply) := by
  unfold Fs.fprintf at h
  split at h
  · cases h
  obtain ⟨f, -, h⟩ := exists_of_bind_eq_ok h
  -- the assertion on the length, and behind it the one on what `fwrite` returns
  split at h
  · cases h
  next hshort =>
  obtain ⟨⟨u, reply⟩, hcall, h⟩ := exists_of_bind_eq_ok h
  simp only at h
  split at h
  · cases h
    exact ⟨not_not.mp hshort, rfl, reply, hcall⟩
  · cases h

/-- The call to `fwrite` has a buffer of the size that it is told. -/
theorem FprintfCall.fwrite_valid (h : c.output.length < fprintfBuffSize) :
    (FileCall.fwrite fd fprintfBuffSize 1 c.buff).Valid := by
  show fprintfBuffSize * 1 ≤ c.buff.length ∧ c.buff.length < 2 ^ 63
  rw [FprintfCall.length_buff h]
  decide

/-- **Step lemma.** A call appends its buffer. -/
theorem Fs.Ok.fprintf_atEnd (hok : s.Ok) (hend : s.AtEnd fd sup content) (h : s.fprintf fd c = .ok (t, n)) :
    n = c.output.length ∧ t.Ok ∧ t.AtEnd fd sup (content ++ c.buff) := by
  obtain ⟨hshort, hn, reply, hcall⟩ := Fs.fprintf_cases h
  have hlen := FprintfCall.length_buff hshort
  refine ⟨hn, hok.fileCall (FprintfCall.fwrite_valid hshort) hcall, hok.fwrite_atEnd hend ?_ ?_ hcall⟩
  · rw [Nat.mul_one, hlen]
  · rw [hlen]
    decide

/-- **Run lemma.** Calls append their buffers. -/
theorem Fs.Ok.fprintfs_blocks {calls : List FprintfCall} {ns : List Nat} (hok : s.Ok) (hend : s.AtEnd fd sup content)
    (h : s.fprintfs fd calls = .ok (t, ns)) :
    ns = calls.map (fun c => c.output.length) ∧ t.AtEnd fd sup (content ++ calls.flatMap FprintfCall.buff) := by
  induction calls generalizing s content ns with
  | nil =>
    cases h
    exact ⟨rfl, by rwa [List.flatMap_nil, List.append_nil]⟩
  | cons c calls ih =>
    obtain ⟨⟨u, n⟩, hcall, h⟩ := exists_of_bind_eq_ok h
    obtain ⟨⟨v, ns'⟩, hcalls, h⟩ := exists_of_bind_eq_ok h
    cases h
    obtain ⟨rfl, hok', hend'⟩ := hok.fprintf_atEnd hend hcall
    obtain ⟨rfl, hend''⟩ := ih hok' hend' hcalls
    rw [List.append_assoc, ← List.flatMap_cons] at hend''
    exact ⟨rfl, hend''⟩

/-- Each buffer is longer than its output. -/
theorem length_outputs_le {calls : List FprintfCall} (hshort : ∀ c ∈ calls, c.output.length < fprintfBuffSize) :
    (calls.flatMap FprintfCall.output).length + calls.length ≤ (calls.flatMap FprintfCall.buff).length := by
  induction calls with
  | nil => exact Nat.le_refl _
  | cons c calls ih =>
    have hrest := ih fun c hc => hshort c (List.mem_cons_of_mem _ hc)
    have hc := hshort c List.mem_cons_self
    rw [List.flatMap_cons, List.flatMap_cons, List.length_append, List.length_append, List.length_cons,
      FprintfCall.length_buff hc]
    omega

theorem Fs.AtEnd.content_eq {content' : List Byte} (h : s.AtEnd fd sup content) (h' : s.AtEnd fd sup content') :
    content = content' := by
  obtain ⟨-, -, -, hrep, -⟩ := h
  obtain ⟨-, -, -, hrep', -⟩ := h'
  exact hrep.content_eq.symm.trans hrep'.content_eq

/-- **What `fprintf` prints.** The file becomes the outputs, and the offset the sum of their lengths, only when nothing
    is printed at all. -/
theorem fprintfs_print_iff (hs : Reachable s) (hend : s.AtEnd fd sup []) (calls : List FprintfCall)
    (hshort : ∀ c ∈ calls, c.output.length < fprintfBuffSize) : s.Prints fd sup calls ↔ calls = [] := by
  constructor
  · rintro ⟨t, hcalls, hprinted⟩
    by_contra hne
    have hblocks := (hs.ok.fprintfs_blocks hend hcalls).2
    have hle := length_outputs_le hshort
    have hpos := List.length_pos_iff.mpr hne
    rw [hprinted.content_eq hblocks, List.nil_append] at hle
    omega
  · rintro rfl
    exact ⟨s, rfl, hend⟩

end Calls

theorem emptyFile_openAs : emptyFile.OpenAs 100 (handleOf 0 1 7) := ⟨by decide, rfl, rfl⟩

theorem emptyFile_represents : Represents (emptyFile.supAt 0) [] := represents_open (by decide)

theorem emptyFile_atEnd : emptyFile.AtEnd 100 0 [] := ⟨_, emptyFile_openAs, rfl, emptyFile_represents, rfl⟩

/-- The output `a`. -/
def printA : FprintfCall := { output := [97], stack := fun _ => 0 }

theorem fprintfs_print_iff_empty :
    Reachable emptyFile ∧ emptyFile.Prints 100 0 [] ∧ ¬emptyFile.Prints 100 0 [printA] := by
  have hshort : ∀ c ∈ [printA], c.output.length < fprintfBuffSize := by
    intro c hc
    rw [List.mem_singleton.mp hc]
    decide
  refine ⟨reachable_emptyFile, ?_, ?_⟩
  · exact (fprintfs_print_iff reachable_emptyFile emptyFile_atEnd [] (by rintro c ⟨⟩)).mpr rfl
  · intro hprints
    cases (fprintfs_print_iff reachable_emptyFile emptyFile_atEnd [printA] hshort).mp hprints

/-- An `a` printed to an empty file: 1 is returned, the file has 1024 bytes and the offset is 1024. -/
theorem printA_block :
    ∃ t, emptyFile.fprintfs 100 [printA] = .ok (t, [1]) ∧ t.AtEnd 100 0 (97 :: List.replicate 1023 0) := by
  have hfit : 0 + sizeT (fprintfBuffSize * 1) ≤ (emptyFile.supAt 0).capacity := by decide
  obtain ⟨t, hcall⟩ := emptyFile_openAs.fwrite_isOk (by decide) emptyFile_represents hfit printA.buff
  have hcalls : emptyFile.fprintfs 100 [printA] = .ok (t, [1]) := by
    have hone : emptyFile.fprintf 100 printA = .ok (t, 1) := by
      unfold Fs.fprintf
      rw [emptyFile_openAs.getElem?]
      simp only
      rw [emptyFile_openAs.memfsGetFd, ok_bind, if_neg (by decide), hcall]
      rfl
    unfold Fs.fprintfs
    rw [hone]
    rfl
  have hblock := (reachable_emptyFile.ok.fprintfs_blocks emptyFile_atEnd hcalls).2
  have hbuff : [printA].flatMap FprintfCall.buff = 97 :: List.replicate 1023 0 := by
    have hzero : load (fun _ => (0 : Byte)) 2 1022 = List.replicate 1022 0 :=
      List.eq_replicate_iff.mpr ⟨length_load .., fun b hb => by
        obtain ⟨i, -, rfl⟩ := List.mem_map.mp hb
        rfl⟩
    rw [List.flatMap_singleton]
    show [97] ++ 0 :: load (fun _ => (0 : Byte)) 2 1022 = _
    rw [hzero]
    rfl
  rw [hbuff] at hblock
  exact ⟨t, hcalls, hblock⟩

end SkiVmm.Memfs
