import SkiVmm.Memfs.Fprintf

/-!
# `Memfs.Append` — handles that were opened with `O_APPEND`

`open` with `O_APPEND` moves the offset of the new handle to the end of the file. The flag is not kept: a later `write`
goes to the offset, wherever the end of the file is by then.

* `Fs.Ok.openFd_atEnd`, `Fs.Ok.write_atEnd` and from them `append_alone`: a handle that is only written through, with no
  other call in between, appends what is written to it.
* `append_write_iff`: after any calls, through this handle and others, a `write` through it appends if and only if the
  offset is at the end of the file (or nothing is written, and the offset is not behind it).
-/

namespace SkiVmm.Memfs

open Lib

section Append
variable {s t u : Fs} {fd sup id : Nat} {h : Handle} {o : OpenCall} {trunc : Bool} {content ptr : List Byte}
  {reply : Reply}

/-! ## One `write` -/

/-- **A `write`** goes to the offset of its handle, and moves it. -/
theorem Fs.Ok.write_content (hok : s.Ok) (hopen : s.OpenAs fd h) (hcontent : Represents (s.supAt h.sup) content)
    (hlen : ptr.length < 2 ^ 63) (hcall : s.fileCall (.call (.write fd ptr)) = .ok (t, reply)) :
    t.OpenAs fd { h with file := { h.file with off := h.file.off + ptr.length } } ∧
      Represents (t.supAt h.sup) (writeAt 0 content h.file.off ptr) := by
  obtain ⟨g, st, hg, hst, rfl⟩ := Fs.fileCall_cases hcall
  obtain rfl : h = g := Option.some.inj (hopen.getElem?.symm.trans hg)
  obtain ⟨f, hf, hst⟩ := exists_of_bind_eq_ok hst
  obtain rfl : h.file = f := Except.ok.inj (hopen.memfsGetFd.symm.trans hf)
  obtain ⟨⟨sup, f, n⟩, hwrite, hst⟩ := exists_of_bind_eq_ok hst
  cases hst
  exact hok.update_written hopen hcontent (Nat.one_mul _) hlen hwrite

/-- One that fits into the blocks succeeds. -/
theorem Fs.OpenAs.write_isOk (hopen : s.OpenAs fd h) (hcontent : Represents (s.supAt h.sup) content) (ptr : List Byte)
    (hfit : h.file.off + ptr.length ≤ (s.supAt h.sup).capacity) :
    ∃ t reply, s.fileCall (.call (.write fd ptr)) = .ok (t, reply) := by
  obtain ⟨sup, hwrite, -⟩ := hcontent.write h.file true hfit
  unfold Fs.fileCall State.fileCall State.call State.write
  simp only [FileCall.fd, hopen.getElem?]
  rw [hopen.memfsGetFd, ok_bind, show (s.view h).sup = s.supAt h.sup from rfl, hwrite]
  exact ⟨_, _, rfl⟩

theorem Fs.Ok.write_atEnd (hok : s.Ok) (hend : s.AtEnd fd sup content) (hlen : ptr.length < 2 ^ 63)
    (hcall : s.fileCall (.call (.write fd ptr)) = .ok (t, reply)) : t.AtEnd fd sup (content ++ ptr) := by
  obtain ⟨h, hopen, rfl, hcontent, hoff⟩ := hend
  obtain ⟨hopen', hrep⟩ := hok.write_content hopen hcontent hlen hcall
  rw [hoff, writeAt_length] at hrep
  exact ⟨_, hopen', rfl, hrep, by rw [List.length_append, ← hoff]⟩

/-! ## A handle that is used alone -/

theorem Fs.memfsOpen_new (hopen : s.memfsOpen o = .ok t) :
    ∃ new : Handle, t.files = s.files ++ [new] ∧ new.file.closed = false := by
  rcases Fs.memfsOpen_cases hopen with ⟨i, sp, -, -, -, hfiles⟩ | ⟨-, -, -, hfiles⟩
  · exact ⟨_, hfiles, rfl⟩
  · exact ⟨_, hfiles, rfl⟩

/-- `open` with `O_APPEND` leaves the handle at the end of the file. -/
theorem Fs.Ok.openFd_atEnd (hok : s.Ok) (hopening : s.opening o (.openFd trunc true) = .ok (t, some id)) :
    ∃ sup content, t.AtEnd (fdStart + id) sup content := by
  have hok' := hok.opening hopening
  have hopening : s.openFd o trunc true = .ok (t, some id) := hopening
  unfold Fs.openFd at hopening
  split at hopening
  · cases hopening
  · obtain ⟨u, hu, hopening⟩ := exists_of_bind_eq_ok hopening
    rw [if_pos rfl] at hopening
    cases hopening
    obtain ⟨new, hfiles, hclosed⟩ := Fs.memfsOpen_new hu
    have hget : (u.files.modify s.files.length fun h => { h with file.off := (u.supAt h.sup).length })[s.files.length]?
        = some { new with file.off := (u.supAt new.sup).length } := by
      rw [List.getElem?_modify_eq, hfiles, List.getElem?_concat_length]
      rfl
    obtain ⟨⟨content, hcontent⟩, -⟩ := hok'.represents (List.mem_of_getElem? hget)
    refine ⟨new.sup, content, { new with file.off := (u.supAt new.sup).length }, ⟨Nat.le_add_right .., ?_, hclosed⟩,
      rfl, hcontent, hcontent.length_eq⟩
    rw [Nat.add_sub_cancel_left]
    exact hget

/-- **A handle used alone**: what is written through it is appended. -/
theorem append_alone (hs : Reachable s) (hopening : s.opening o (.openFd trunc true) = .ok (t, some id))
    {ptrs : List (List Byte)}
    (hrun : Run Fs.step (fun _ c => c.Valid) t (ptrs.map fun ptr => .file (.call (.write (fdStart + id) ptr))) u) :
    ∃ sup content, t.AtEnd (fdStart + id) sup content ∧ u.AtEnd (fdStart + id) sup (content ++ ptrs.flatten) := by
  obtain ⟨sup, content, hend⟩ := hs.ok.openFd_atEnd hopening
  refine ⟨sup, content, hend, ?_⟩
  have hok := hs.ok.opening hopening
  clear hopening hs
  induction ptrs generalizing t content with
  | nil =>
    cases hrun
    rwa [List.flatten_nil, List.append_nil]
  | cons ptr ptrs ih =>
    cases hrun with
    | cons hvalid hstep hrun =>
      obtain ⟨⟨v, reply⟩, hcall, hv⟩ := exists_of_bind_eq_ok hstep
      cases hv
      rw [List.flatten_cons, ← List.append_assoc]
      exact ih hrun _ (hok.write_atEnd hend hvalid hcall) (hok.step hvalid hstep)

/-! ## A handle among others -/

/-- **When a `write` appends.** The handle was opened with `O_APPEND`, any calls have been made since, and it is still
    open. -/
theorem append_write_iff {calls : List FsCall} (hs : Reachable s)
    (hopening : s.opening o (.openFd trunc true) = .ok (t, some id))
    (hrun : Run Fs.step (fun _ c => c.Valid) t calls u) (hopen : u.OpenAs (fdStart + id) h) (hlen : ptr.length < 2 ^ 63)
    {v : Fs} (hcall : u.fileCall (.call (.write (fdStart + id) ptr)) = .ok (v, reply)) :
    (v.supAt h.sup).content = (u.supAt h.sup).content ++ ptr ↔
      h.file.off = (u.supAt h.sup).length ∨ ptr = [] ∧ h.file.off < (u.supAt h.sup).length := by
  have hok := ((hs.step (c := .opening o (.openFd trunc true)) trivial (Fs.step_opening hopening)).run hrun).ok
  obtain ⟨⟨content, hcontent⟩, -⟩ := hok.represents hopen.mem
  obtain ⟨-, hrep⟩ := hok.write_content hopen hcontent hlen hcall
  rw [hrep.content_eq, hcontent.content_eq, hcontent.length_eq]
  exact writeAt_eq_append_iff 0 content ptr h.file.off

end Append

/-! ## A file of one byte -/

/-- It was opened with `O_APPEND`, and the offset of the handle is `off`. -/
def oneByte (off : Nat) : Fs where
  sups := [{ inode := 7, sup := Memfs.memfsSupportOpen [1] }]
  files := [{ handleOf 0 1 7 with file := { closed := false, off := off } }]

theorem oneByte_opening :
    Fs.opening { sups := [], files := [] } (openOf 3 1 7 [1]) (.openFd false true) = .ok (oneByte 1, some 0) := by
  have hkey : (openOf 3 1 7 [1]).node.key = 7 := by decide
  rw [Fs.opening_first (by decide) (by decide) (by decide) true, hkey]
  rfl

theorem oneByte_openAs (off : Nat) :
    (oneByte off).OpenAs 100 { handleOf 0 1 7 with file := { closed := false, off := off } } := ⟨by decide, rfl, rfl⟩

theorem oneByte_represents (off : Nat) : Represents ((oneByte off).supAt 0) [1] := represents_open (by decide)

theorem append_write_iff_atEnd :
    ∃ t reply, (oneByte 1).fileCall (.call (.write 100 [2])) = .ok (t, reply) ∧
      (t.supAt 0).content = ((oneByte 1).supAt 0).content ++ [2] := by
  obtain ⟨t, reply, hcall⟩ := (oneByte_openAs 1).write_isOk (oneByte_represents 1) [2] (by decide)
  refine ⟨t, reply, hcall, ?_⟩
  exact (append_write_iff ⟨[], .nil _⟩ oneByte_opening (.nil (oneByte 1)) (oneByte_openAs 1) (by decide) hcall).mpr
    (.inl rfl)

/-- After an `lseek` to the start the byte of the file is overwritten. -/
theorem append_overwrites :
    Fs.opening { sups := [], files := [] } (openOf 3 1 7 [1]) (.openFd false true) = .ok (oneByte 1, some 0) ∧
      (oneByte 1).step (.file (.call (.lseek 100 0 .set))) = .ok (oneByte 0) ∧
      ((oneByte 0).supAt 0).content = [1] ∧
      ∃ t reply, (oneByte 0).fileCall (.call (.write 100 [2])) = .ok (t, reply) ∧ (t.supAt 0).content = [2] := by
  have hreach : Reachable (oneByte 1) :=
    ⟨[.opening (openOf 3 1 7 [1]) (.openFd false true)],
      .cons trivial (Fs.step_opening oneByte_opening) (.nil (oneByte 1))⟩
  have hseek : (oneByte 1).step (.file (.call (.lseek 100 0 .set))) = .ok (oneByte 0) := rfl
  have hok := (hreach.step (c := .file (.call (.lseek 100 0 .set))) trivial hseek).ok
  obtain ⟨t, reply, hcall⟩ := (oneByte_openAs 0).write_isOk (oneByte_represents 0) [2] (by decide)
  obtain ⟨-, hrep⟩ := hok.write_content (oneByte_openAs 0) (oneByte_represents 0) (by decide) hcall
  exact ⟨oneByte_opening, hseek, (oneByte_represents 0).content_eq, t, reply, hcall, hrep.content_eq⟩

end SkiVmm.Memfs
