import SkiVmm.Memfs.Sharing

/-!
# `Memfs.FileTable` — how many handles there can be

Every `open` of a file takes a new entry of `files`, also of a file that is open already, and `close` gives none back.
`memfs_open` does not compare `files_n` with the size of the array; what it compares is `sups_n`, which grows only with
the first `open` of a file. `Memfs.Files` stops where the array ends. Here a failed assertion and an entry behind the
end (`outOfBounds`) are kept apart.

* `run_lengths` — the handles are the files that were opened, in order, and there is one support for each inode number
  among them.
* `memfsOpen_inBounds_iff` — after 50 handles the next one is behind the end, unless they are all on different files.
-/

namespace SkiVmm.Memfs

open Lib

/-! ## The entry that a new handle takes -/

inductive OpenFault where
  | stop (stop : Stop)
  | outOfBounds
deriving DecidableEq, Repr

/-- `memfs_open` -/
def Checked.memfsOpen (s : Fs) (o : OpenCall) : Except OpenFault Fs :=
  if ¬o.pathname.length < memfsMaxFilename - 1 then .error (.stop .assertion)
  else if ¬s.sups.length < memfsMaxFiles then .error (.stop .assertion)
  -- `&files[files_n]`, which is written to at once
  else if ¬s.files.length < memfsMaxFiles then .error .outOfBounds
  else
    match s.memfsSupportOpen o with
    | .error stop => .error (.stop stop)
    | .ok (s, i) =>
      .ok { s with files := s.files ++ [{ sup := i, file := { closed := false, off := 0 }, node := o.node }] }

/-- **The same function**, but for the kind of fault. -/
theorem Checked.memfsOpen_toOption (s : Fs) (o : OpenCall) :
    (Checked.memfsOpen s o).toOption = (s.memfsOpen o).toOption := by
  unfold Checked.memfsOpen Fs.memfsOpen
  split
  · rfl
  split
  · rfl
  split
  · rfl
  · cases s.memfsSupportOpen o <;> rfl

theorem Checked.memfsOpen_outOfBounds_iff (s : Fs) (o : OpenCall) :
    Checked.memfsOpen s o = .error .outOfBounds ↔
      o.pathname.length < memfsMaxFilename - 1 ∧ s.sups.length < memfsMaxFiles ∧ memfsMaxFiles ≤ s.files.length := by
  unfold Checked.memfsOpen
  split
  · next hpath => exact iff_of_false nofun fun h => hpath h.1
  split
  · next hsups => exact iff_of_false nofun fun h => hsups h.2.1
  split
  · next hpath hsups hfiles =>
    exact iff_of_true rfl ⟨not_not.mp hpath, not_not.mp hsups, Nat.not_lt.mp hfiles⟩
  · next hfiles =>
    refine iff_of_false ?_ fun h => hfiles (Nat.not_lt.mpr h.2.2)
    cases s.memfsSupportOpen o <;> nofun

/-! ## Histories -/

/-- The file that a call opens, if it makes a handle and not an error. -/
def FsCall.opened : FsCall → List Node
  | .opening o (.fopen _) => if o.fd < 0 then [] else [o.node]
  | .opening o (.openFd _ _) | .opening o .creat => if o.fd = 0 then [] else [o.node]
  | .file _ => []

/-- The files that were opened, once for each handle. -/
def openedFiles (calls : List FsCall) : List Node := calls.flatMap FsCall.opened

section Steps
variable {s t : Fs} {o : OpenCall}

theorem State.fileCall_length {s t : State} {c : FileCall} {reply : Reply} (h : s.fileCall c = .ok (t, reply)) :
    t.files.length = s.files.length := by
  cases c with
  | call c =>
    cases c with
    | read fd count | pread fd count offset | write fd ptr | pwrite fd ptr offset =>
      obtain ⟨f, -, h⟩ := exists_of_bind_eq_ok h
      obtain ⟨r, -, h⟩ := exists_of_bind_eq_ok h
      cases h
      exact List.length_set
    | ftruncate fd length =>
      obtain ⟨f, -, h⟩ := exists_of_bind_eq_ok h
      split at h
      · cases h
      · cases h
        rfl
    | lseek fd offset whence =>
      obtain ⟨f, -, h⟩ := exists_of_bind_eq_ok h
      simp only at h
      split at h
      · cases h
        exact List.length_set
      · cases h
  | fread fd size nmemb =>
    obtain ⟨-, f, -, data, n, f', -, rfl, -⟩ := State.fread_cases h
    exact List.length_set
  | fwrite fd size nmemb ptr =>
    obtain ⟨-, f, -, sup, f', n, -, rfl, -⟩ := State.fwrite_cases h
    exact List.length_set
  | close fd =>
    obtain ⟨f, -, h⟩ := exists_of_bind_eq_ok h
    cases h
    exact List.length_set

/-- A call on a handle opens nothing. -/
theorem Fs.fileCall_tables {c : FileCall} {reply : Reply} (h : s.fileCall c = .ok (t, reply)) :
    t.files.map Handle.node = s.files.map Handle.node ∧ t.sups.map Support.inode = s.sups.map Support.inode := by
  obtain ⟨h', st, -, hst, rfl⟩ := Fs.fileCall_cases h
  have hlen : st.files.length = s.files.length := by
    rw [State.fileCall_length hst]
    exact List.length_map ..
  refine ⟨?_, s.map_inode_update h' st⟩
  unfold Fs.update
  simp only [List.map_zipWith]
  refine List.ext_getElem (by simp [hlen]) fun i h₁ h₂ => ?_
  simp

/-- From `s` to `t`, handles were made for `nodes` as far as there is room, and supports for none but these. -/
structure Opens (s t : Fs) (nodes : List Node) : Prop where
  files_eq : t.files.map Handle.node = s.files.map Handle.node ++ nodes
  sups_subset : ∀ key ∈ t.sups.map Support.inode, key ∈ s.sups.map Support.inode ∨ key ∈ nodes.map Node.key
  length_le : t.files.length ≤ s.files.length ∨ t.files.length ≤ memfsMaxFiles

theorem Opens.refl (s : Fs) : Opens s s [] := ⟨(List.append_nil _).symm, fun _ => .inl, .inl (Nat.le_refl _)⟩

theorem Opens.trans {u : Fs} {nodes nodes' : List Node} (h : Opens s t nodes) (h' : Opens t u nodes') :
    Opens s u (nodes ++ nodes') := by
  refine ⟨?_, ?_, ?_⟩
  · rw [h'.files_eq, h.files_eq, List.append_assoc]
  · intro key hkey
    rw [List.map_append, List.mem_append]
    rcases h'.sups_subset key hkey with hold | hnew
    · exact (h.sups_subset key hold).imp_right .inl
    · exact .inr (.inr hnew)
  · have hfirst := h.length_le
    have hsecond := h'.length_le
    omega

theorem Fs.memfsOpen_opens (h : s.memfsOpen o = .ok t) : Opens s t [o.node] := by
  have hroom : s.files.length < memfsMaxFiles := by
    by_contra hfull
    unfold Fs.memfsOpen at h
    rw [if_pos hfull] at h
    split at h
    · cases h
    · split at h <;> cases h
  have hfiles : ∃ i, t.files = s.files ++ [{ sup := i, file := { closed := false, off := 0 }, node := o.node }] := by
    rcases Fs.memfsOpen_cases h with ⟨i, sp, -, -, -, hfiles⟩ | ⟨-, -, -, hfiles⟩
    · exact ⟨i, hfiles⟩
    · exact ⟨s.sups.length, hfiles⟩
  obtain ⟨i, hfiles⟩ := hfiles
  refine ⟨?_, ?_, .inr ?_⟩
  · rw [hfiles, List.map_append]
    rfl
  · intro key hkey
    rcases Fs.memfsOpen_cases h with ⟨i, sp, -, -, hsups, -⟩ | ⟨-, -, hsups, -⟩
    · exact .inl (hsups ▸ hkey)
    · simp only [hsups, List.map_append, List.mem_append, List.map_singleton, List.mem_singleton] at hkey
      simp only [List.map_singleton, List.mem_singleton]
      exact hkey
  · rw [hfiles, List.length_append, List.length_singleton]
    exact Nat.succ_le_of_lt hroom

theorem Fs.openFd_opens {trunc append : Bool} {id : Option Nat} (h : s.openFd o trunc append = .ok (t, id)) :
    Opens s t (if o.fd = 0 then [] else [o.node]) := by
  unfold Fs.openFd at h
  split at h
  · next hfd =>
    cases h
    rw [if_pos hfd]
    exact .refl s
  · next hfd =>
    obtain ⟨u, hu, h⟩ := exists_of_bind_eq_ok h
    have hopens : Opens s u [o.node] := Fs.memfsOpen_opens (o := o.truncated trunc) hu
    rw [if_neg hfd]
    simp only at h
    split at h
    · -- `O_APPEND` only moves the handle
      cases h
      have hnodes : (u.files.modify s.files.length fun h => { h with file.off := (u.supAt h.sup).length }).map
          Handle.node = u.files.map Handle.node := map_modify_eq fun _ _ => rfl
      refine ⟨hnodes.trans hopens.files_eq, hopens.sups_subset, ?_⟩
      rw [List.length_modify]
      exact hopens.length_le
    · cases h
      exact hopens

theorem Fs.fopen_opens {mode : FopenMode} {id : Option Nat} (h : s.fopen o mode = .ok (t, id)) :
    Opens s t (if o.fd < 0 then [] else [o.node]) := by
  unfold Fs.fopen at h
  split at h
  · next hfd =>
    cases h
    rw [if_pos hfd]
    exact .refl s
  · next hfd =>
    split at h
    · cases h
    split at h
    · cases h
    obtain ⟨u, hu, h⟩ := exists_of_bind_eq_ok h
    cases h
    rw [if_neg hfd]
    exact Fs.memfsOpen_opens (o := o.truncated (mode = .w)) hu

/-- **What a call opens.** -/
theorem Fs.step_opens {c : FsCall} (h : s.step c = .ok t) : Opens s t c.opened := by
  cases c with
  | opening o how =>
    obtain ⟨⟨u, id⟩, hopen, h⟩ := exists_of_bind_eq_ok h
    cases h
    cases how with
    | openFd trunc append => exact Fs.openFd_opens hopen
    | creat => exact Fs.openFd_opens hopen
    | fopen mode => exact Fs.fopen_opens hopen
  | file c =>
    obtain ⟨⟨u, reply⟩, hcall, h⟩ := exists_of_bind_eq_ok h
    cases h
    obtain ⟨hfiles, hsups⟩ := Fs.fileCall_tables hcall
    have hlen := congrArg List.length hfiles
    rw [List.length_map, List.length_map] at hlen
    refine ⟨hfiles.trans (List.append_nil _).symm, fun key hkey => .inl (hsups ▸ hkey), .inl (Nat.le_of_eq hlen)⟩

end Steps

section Runs
variable {s t : Fs} {calls : List FsCall}

/-- **Run lemma.** -/
theorem run_opens (h : Run Fs.step (fun _ c => c.Valid) s calls t) : Opens s t (openedFiles calls) := by
  induction h with
  | nil s => exact .refl s
  | cons _ hstep _ ih =>
    unfold openedFiles
    rw [List.flatMap_cons]
    exact (Fs.step_opens hstep).trans ih

/-- **The sizes of the tables**, after any calls: one handle for each `open`, one support for each inode number. -/
theorem run_lengths (h : Run Fs.step (fun _ c => c.Valid) { sups := [], files := [] } calls s) :
    s.files.length = (openedFiles calls).length ∧
      s.sups.length = ((openedFiles calls).map Node.key).dedup.length ∧ s.files.length ≤ memfsMaxFiles := by
  obtain ⟨hfiles, hsups, hle⟩ := run_opens h
  simp only [List.map_nil, List.nil_append] at hfiles
  have hok : s.Ok := Reachable.ok ⟨calls, h⟩
  refine ⟨?_, ?_, ?_⟩
  · rw [← hfiles, List.length_map]
  · have hperm : (s.sups.map Support.inode).Perm ((openedFiles calls).map Node.key).dedup := by
      refine (List.perm_ext_iff_of_nodup hok.keys (List.nodup_dedup _)).mpr fun key => ?_
      rw [List.mem_dedup]
      constructor
      · intro hkey
        exact (hsups key hkey).resolve_left List.not_mem_nil
      · rw [← hfiles, List.map_map, List.mem_map]
        rintro ⟨g, hg, rfl⟩
        obtain ⟨sp, hsp, hkey, -⟩ := hok.support hg
        rw [Function.comp_apply, ← hkey]
        exact List.mem_map_of_mem (List.mem_of_getElem? hsp)
    rw [← hperm.length_eq, List.length_map]
  · exact hle.elim (fun h => Nat.le_trans h (Nat.zero_le _)) id

end Runs

/-- **When the next handle has an entry**: the call aborts before because of its path, there are fewer than 50 handles
    so far, or 50 on as many files. -/
theorem memfsOpen_inBounds_iff {s : Fs} {calls : List FsCall}
    (hrun : Run Fs.step (fun _ c => c.Valid) { sups := [], files := [] } calls s) (o : OpenCall) :
    Checked.memfsOpen s o ≠ .error .outOfBounds ↔
      ¬o.pathname.length < memfsMaxFilename - 1 ∨ (openedFiles calls).length < memfsMaxFiles ∨
        ((openedFiles calls).map Node.key).dedup.length = memfsMaxFiles := by
  obtain ⟨hfiles, hsups, hle⟩ := run_lengths hrun
  have hdedup : ((openedFiles calls).map Node.key).dedup.length ≤ (openedFiles calls).length := by
    have hsub := (List.dedup_sublist ((openedFiles calls).map Node.key)).length_le
    rwa [List.length_map] at hsub
  rw [Ne, Checked.memfsOpen_outOfBounds_iff, hfiles, hsups]
  rw [hfiles] at hle
  omega

/-! ## A file that is opened over and over -/

/-- An `open` that has room in all tables succeeds. -/
theorem Fs.memfsOpen_isOk {s : Fs} {o : OpenCall} (hpath : o.pathname.length < memfsMaxFilename - 1)
    (hsups : s.sups.length < memfsMaxFiles) (hfiles : s.files.length < memfsMaxFiles) (hfd : 0 ≤ o.fd)
    (hmap : o.content.length < addressSpace) : ∃ t, s.memfsOpen o = .ok t := by
  have hsupport : ∃ r, s.memfsSupportOpen o = .ok r := by
    unfold Fs.memfsSupportOpen
    rw [if_neg (Int.not_lt.mpr hfd)]
    split
    · exact ⟨_, rfl⟩
    · rw [if_neg (not_not.mpr hpath), if_neg (not_not.mpr hsups), if_neg (not_not.mpr hmap)]
      exact ⟨_, rfl⟩
  obtain ⟨⟨t, i⟩, ht⟩ := hsupport
  unfold Fs.memfsOpen
  rw [if_neg (not_not.mpr hpath), if_neg (not_not.mpr hsups), if_neg (not_not.mpr hfiles), ht]
  exact ⟨_, rfl⟩

/-- The same file, `n` times. -/
def reopening (n : Nat) : List FsCall :=
  List.replicate n (.opening (openOf 3 1 7 [1]) (.openFd false false))

theorem openedFiles_reopening (n : Nat) : openedFiles (reopening n) = List.replicate n { dev := 1, ino := 7 } := by
  induction n with
  | zero => rfl
  | succ n ih =>
    unfold reopening openedFiles at ih ⊢
    rw [List.replicate_succ, List.flatMap_cons, ih]
    rfl

theorem dedup_replicate_length_le (n : Nat) (k : Int) : (List.replicate n k).dedup.length ≤ 1 := by
  cases n with
  | zero => exact Nat.zero_le _
  | succ n => rw [List.replicate_dedup (Nat.succ_ne_zero n), List.length_singleton]

theorem exists_run_reopening {n : Nat} (hn : n ≤ memfsMaxFiles) :
    ∃ s, Run Fs.step (fun _ c => c.Valid) { sups := [], files := [] } (reopening n) s := by
  induction n with
  | zero => exact ⟨_, .nil _⟩
  | succ n ih =>
    obtain ⟨s, hrun⟩ := ih (Nat.le_of_succ_le hn)
    obtain ⟨hfiles, hsups, -⟩ := run_lengths hrun
    rw [openedFiles_reopening, List.length_replicate] at hfiles
    rw [openedFiles_reopening, List.map_replicate] at hsups
    have hle := dedup_replicate_length_le n (Node.key { dev := 1, ino := 7 })
    obtain ⟨t, ht⟩ := Fs.memfsOpen_isOk (s := s) (o := openOf 3 1 7 [1]) (by decide)
      (by rw [hsups]; exact Nat.lt_of_le_of_lt hle (by decide)) (by rw [hfiles]; exact hn) (by decide) (by decide)
    have hstep : s.step (.opening (openOf 3 1 7 [1]) (.openFd false false)) = .ok t := by
      unfold Fs.step Fs.opening Fs.openFd
      simp only
      rw [if_neg (by decide), show (openOf 3 1 7 [1]).truncated false = openOf 3 1 7 [1] from rfl, ht]
      rfl
    refine ⟨t, ?_⟩
    unfold reopening
    rw [List.replicate_succ']
    exact hrun.concat trivial hstep

theorem memfsOpen_inBounds_one :
    ∃ s, Run Fs.step (fun _ c => c.Valid) { sups := [], files := [] } (reopening 1) s ∧
      Checked.memfsOpen s (openOf 3 1 7 [1]) ≠ .error .outOfBounds := by
  obtain ⟨s, hrun⟩ := exists_run_reopening (n := 1) (by decide)
  exact ⟨s, hrun, (memfsOpen_inBounds_iff hrun _).mpr (.inr (.inl (by decide)))⟩

/-- The handle of the 51st `open` of a file. -/
theorem fifty_first_outOfBounds :
    ∃ s, Run Fs.step (fun _ c => c.Valid) { sups := [], files := [] } (reopening 50) s ∧
      Checked.memfsOpen s (openOf 3 1 7 [1]) = .error .outOfBounds := by
  obtain ⟨s, hrun⟩ := exists_run_reopening (n := 50) (by decide)
  obtain ⟨hfiles, hsups, -⟩ := run_lengths hrun
  rw [openedFiles_reopening, List.length_replicate] at hfiles
  rw [openedFiles_reopening, List.map_replicate] at hsups
  have hle := dedup_replicate_length_le 50 (Node.key { dev := 1, ino := 7 })
  refine ⟨s, hrun, (Checked.memfsOpen_outOfBounds_iff _ _).mpr ⟨by decide, ?_, Nat.le_of_eq hfiles.symm⟩⟩
  rw [hsups]
  exact Nat.lt_of_le_of_lt hle (by decide)

end SkiVmm.Memfs
