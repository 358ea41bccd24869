import SkiVmm.Memfs.FileTable

/-!
# `Memfs.Hooks` — which files and calls memfs takes

A hook first calls the system, and then looks at the name: memfs leaves some files alone, such as the traces, and
returns what the system has returned for them. What is called later has only the descriptor. `memfs_get_fd` takes the
numbers from 100 on for its own, as many as there are handles, and all other ones go to the system.

* `call_passed_on_iff` — a call is passed on unless its number is one of these, whoever has returned it; a `close` never
  is.
* `failed_open_reported_iff` — an `open` that fails in the system is reported only for a file that is left alone. On
  the other ones -1 is taken for a descriptor, and the process ends in `fstat`.

`ski_memfs_enabled` is set, as it is by default.
-/

namespace SkiVmm.Memfs

open Lib

/-! ## Names -/

/-- `str_ends_with` -/
def strEndsWith (str suffix : List Char) : Bool := suffix.isSuffixOf str

/-- `strstr`, as a condition. -/
def strstr : List Char → List Char → Bool
  | [], needle => needle.isEmpty
  | c :: haystack, needle => needle.isPrefixOf (c :: haystack) || strstr haystack needle

/-- The parts of a name that make a file with the suffix `.txt` one that memfs leaves alone. -/
def ignoredParts : List (List Char) :=
  ["trace_".toList, "msg_".toList, "console_".toList, "heuristics_".toList, "run_".toList, "forkall_".toList,
    "console".toList]

/-- `memfs_intercept_filename` -/
def memfsInterceptFilename (pathname : List Char) : Bool :=
  if strEndsWith pathname ".ipfilter".toList then false
  else if strEndsWith pathname ".txt".toList && ignoredParts.any (strstr pathname) then false
  else if strstr pathname "/dev/null".toList then false
  else true

/-! ## Hooks -/

structure Hooks where
  fs : Fs
  ignorelist : List (List Char)

def Hooks.start : Hooks := { fs := { sups := [], files := [] }, ignorelist := [] }

/-- `memfs_ignorelist_add` -/
def Hooks.ignorelistAdd (s : Hooks) (filename : List Char) : Except Stop Hooks :=
  if ¬s.ignorelist.length < memfsMaxFiles then .error .assertion
  else if ¬filename.length < memfsMaxFilename then .error .assertion
  else .ok { s with ignorelist := s.ignorelist ++ [filename] }

/-- What a file is opened as. -/
inductive Opened where
  /-- what the system has returned -/
  | system (fd : Int)
  | handle (id : Nat)
  /-- 0 -/
  | failed
deriving DecidableEq, Repr

/-- The result of `open` and `creat`. -/
def Opened.value : Opened → Int
  | .system fd => fd
  | .handle id => id + fdStart
  | .failed => 0

/-- `open`, `creat` and `fopen`, after the call to the system. -/
def Hooks.opening (s : Hooks) (o : OpenCall) (how : Opening) : Except Stop (Hooks × Opened) :=
  if memfsInterceptFilename o.pathname then do
    let (fs, id) ← s.fs.opening o how
    .ok ({ s with fs := fs }, (id.map Opened.handle).getD .failed)
  else do
    let s ← s.ignorelistAdd o.pathname
    .ok (s, .system o.fd)

/-- A call on a descriptor. -/
inductive FdCall where
  | io (c : Call)
  | close (fd : Nat)
deriving DecidableEq, Repr

def FdCall.fileCall : FdCall → FileCall
  | .io c => .call c
  | .close fd => .close fd

def FdCall.fd (c : FdCall) : Nat := c.fileCall.fd

def FdCall.isClose : FdCall → Bool
  | .io _ => false
  | .close _ => true

/-- Where a call goes. -/
inductive Routed where
  | memfs (reply : Reply)
  | system
  /-- 0 is returned, and nothing is done -/
  | dropped
deriving DecidableEq, Repr

/-- The hooks on descriptors. The call of `default_close` in `close` is commented out. -/
def Hooks.call (s : Hooks) (c : FdCall) : Except Stop (Hooks × Routed) :=
  match s.fs.fileCall c.fileCall with
  | .ok (fs, reply) => .ok ({ s with fs := fs }, .memfs reply)
  | .error .defaultCall => .ok (s, if c.isClose then .dropped else .system)
  | .error stop => .error stop

inductive HookCall where
  | opening (o : OpenCall) (how : Opening)
  | fd (c : FdCall)

def Hooks.step (s : Hooks) : HookCall → Except Stop Hooks
  | .opening o how => do
    let (s, _) ← s.opening o how
    .ok s
  | .fd c => do
    let (s, _) ← s.call c
    .ok s

/-! ## Which numbers are taken for handles -/

section Routing

theorem memfsGetFd_default_iff (s : State) (fd : Nat) :
    memfsGetFd s fd = .error .defaultCall ↔ fd < fdStart ∨ fdStart + s.files.length ≤ fd := by
  unfold memfsGetFd
  split
  · next hlt => exact iff_of_true rfl (.inl hlt)
  · next hge =>
    split
    · next hnone =>
      have hlen := List.getElem?_eq_none_iff.mp hnone
      exact iff_of_true rfl (.inr (by omega))
    · next f hf =>
      have hlt := (List.getElem?_eq_some_iff.mp hf).1
      refine iff_of_false ?_ (by omega)
      split
      · intro h
        cases h
      · intro h
        cases h

/-- A call goes to the system exactly when `memfs_get_fd` has found nothing. -/
theorem FdCall.default_iff (s : State) (c : FdCall) :
    s.fileCall c.fileCall = .error .defaultCall ↔ memfsGetFd s c.fd = .error .defaultCall := by
  have hbind {α : Type} {x : Except Stop MemfsFile} {f : MemfsFile → Except Stop α}
      (hf : ∀ file, f file ≠ .error .defaultCall) : x >>= f = .error .defaultCall ↔ x = .error .defaultCall := by
    constructor
    · intro h
      by_contra hx
      exact bind_ne_error hx hf h
    · rintro rfl
      rfl
  cases c with
  | close fd =>
    refine hbind fun file h => ?_
    cases h
  | io c =>
    cases c with
    | read fd count | pread fd count offset =>
      refine hbind fun file => bind_ne_error (memfsRead_ne_error (by decide) _ _ _ _ _ _) fun r h => ?_
      cases h
    | write fd ptr | pwrite fd ptr offset =>
      refine hbind fun file => bind_ne_error (memfsWrite_ne_error (by decide) (by decide) _ _ _ _ _ _ _) fun r h => ?_
      cases h
    | ftruncate fd length =>
      refine hbind fun file h => ?_
      split at h
      · cases h
      · cases h
    | lseek fd offset whence =>
      refine hbind fun file h => ?_
      simp only at h
      split at h
      · cases h
      · cases h

theorem Fs.fdCall_default_iff (s : Fs) (c : FdCall) :
    s.fileCall c.fileCall = .error .defaultCall ↔ c.fd < fdStart ∨ fdStart + s.files.length ≤ c.fd := by
  unfold Fs.fileCall
  split
  · next hnone =>
    have hlen : s.files.length ≤ c.fd - fdStart := List.getElem?_eq_none_iff.mp hnone
    exact iff_of_true rfl (by omega)
  · next h hh =>
    have hview : (s.view h).files.length = s.files.length := List.length_map ..
    rw [← hview, ← memfsGetFd_default_iff, ← FdCall.default_iff]
    cases (s.view h).fileCall c.fileCall with
    | error stop => rw [error_bind, Except.error.injEq, Except.error.injEq]
    | ok r => exact iff_of_false (by rintro ⟨⟩) (by rintro ⟨⟩)

/-- **Which calls are passed on**, in any state. -/
theorem Hooks.call_system_iff (s : Hooks) (c : FdCall) :
    s.call c = .ok (s, .system) ↔ c.isClose = false ∧ (c.fd < fdStart ∨ fdStart + s.fs.files.length ≤ c.fd) := by
  rw [← Fs.fdCall_default_iff]
  unfold Hooks.call
  split
  · next fs reply hok =>
    rw [hok]
    refine iff_of_false (fun h => ?_) (by rintro ⟨-, ⟨⟩⟩)
    cases (Prod.ext_iff.mp (Except.ok.inj h)).2
  · next hdefault =>
    rw [hdefault]
    cases c.isClose
    · exact iff_of_true rfl ⟨rfl, rfl⟩
    · refine iff_of_false (fun h => ?_) (by rintro ⟨⟨⟩, -⟩)
      cases (Prod.ext_iff.mp (Except.ok.inj h)).2
  · next stop hne herror =>
    rw [herror]
    exact iff_of_false (by rintro ⟨⟩) fun h => hne (Except.error.inj h.2)

end Routing

/-! ## Histories -/

/-- The files that an `open` has made handles for. -/
def HookCall.opened : HookCall → List Node
  | .opening o how => if memfsInterceptFilename o.pathname then FsCall.opened (.opening o how) else []
  | .fd _ => []

def handlesOpened (calls : List HookCall) : List Node := calls.flatMap HookCall.opened

section Histories
variable {s t : Hooks} {calls : List HookCall}

theorem Hooks.step_files {c : HookCall} (h : s.step c = .ok t) :
    t.fs.files.length = s.fs.files.length + c.opened.length := by
  cases c with
  | opening o how =>
    obtain ⟨⟨u, r⟩, hopen, h⟩ := exists_of_bind_eq_ok h
    cases h
    unfold Hooks.opening at hopen
    split at hopen
    · next hcatch =>
      obtain ⟨⟨fs, id⟩, hfs, hopen⟩ := exists_of_bind_eq_ok hopen
      cases hopen
      have hstep : s.fs.step (.opening o how) = .ok fs := by
        unfold Fs.step
        simp only
        rw [hfs]
        rfl
      have hlen := congrArg List.length (Fs.step_opens hstep).files_eq
      rw [List.length_append, List.length_map, List.length_map] at hlen
      rw [show HookCall.opened (.opening o how) = _ from if_pos hcatch]
      exact hlen
    · next hpass =>
      -- the path goes on the list of ignored files and gets no handle
      obtain ⟨v, hadd, hopen⟩ := exists_of_bind_eq_ok hopen
      cases hopen
      rw [show HookCall.opened (.opening o how) = _ from if_neg hpass]
      unfold Hooks.ignorelistAdd at hadd
      split at hadd
      · cases hadd
      split at hadd
      · cases hadd
      cases hadd
      rfl
  | fd c =>
    obtain ⟨⟨u, r⟩, hcall, h⟩ := exists_of_bind_eq_ok h
    cases h
    unfold Hooks.call at hcall
    split at hcall
    · next fs reply hfs =>
      cases hcall
      have hlen := congrArg List.length (Fs.fileCall_tables hfs).1
      rw [List.length_map, List.length_map] at hlen
      exact hlen
    · cases hcall
      rfl
    · cases hcall

/-- **Run lemma.** There are as many handles as files were opened under names that memfs takes. -/
theorem hooks_run_files (h : Run Hooks.step (fun _ _ => True) s calls t) :
    t.fs.files.length = s.fs.files.length + (handlesOpened calls).length := by
  induction h with
  | nil s => rfl
  | cons _ hstep _ ih =>
    unfold handlesOpened at ih ⊢
    rw [ih, Hooks.step_files hstep, List.flatMap_cons, List.length_append, Nat.add_assoc]

/-- **Which calls go to the system, after any history.** The number alone decides: a descriptor of the system that has
    grown into the numbers of the handles is taken for one of them. No `close` is passed on. -/
theorem call_passed_on_iff (hrun : Run Hooks.step (fun _ _ => True) .start calls s) (c : FdCall) :
    s.call c = .ok (s, .system) ↔
      c.isClose = false ∧ (c.fd < fdStart ∨ fdStart + (handlesOpened calls).length ≤ c.fd) := by
  have hlen : s.fs.files.length = (handlesOpened calls).length := (hooks_run_files hrun).trans (Nat.zero_add _)
  rw [Hooks.call_system_iff, hlen]

end Histories

/-- An `open` of `/dev/null`, which memfs leaves alone. -/
def openNull (fd : Int) : OpenCall where
  pathname := "/dev/null".toList
  fd := fd
  node := { dev := 1, ino := 3 }
  content := []

/-- A file with the byte 1 under memfs, as the descriptor 100, and `/dev/null` as what the system has returned. -/
def fileAndNull (fd : Int) : List HookCall :=
  [.opening (openOf 3 1 7 [1]) (.openFd false false), .opening (openNull fd) (.openFd false false)]

def afterFileAndNull : Hooks where
  fs :=
    { sups := [{ inode := Node.key { dev := 1, ino := 7 }, sup := Memfs.memfsSupportOpen [1] }],
      files := [handleOf 0 1 7] }
  ignorelist := ["/dev/null".toList]

theorem run_fileAndNull (fd : Int) : Run Hooks.step (fun _ _ => True) .start (fileAndNull fd) afterFileAndNull := by
  have hname : memfsInterceptFilename (openOf 3 1 7 [1]).pathname = true := by decide
  have hnull : ¬memfsInterceptFilename (openNull fd).pathname = true := by
    rw [show (openNull fd).pathname = "/dev/null".toList from rfl]
    decide
  refine .cons trivial (t := { afterFileAndNull with ignorelist := [] }) ?_ (.cons trivial ?_ (.nil _))
  · have hopen := Fs.opening_first (o := openOf 3 1 7 [1]) (by decide) (by decide) (by decide) false
    unfold Hooks.step Hooks.opening Hooks.start
    simp only
    rw [if_pos hname, hopen]
    rfl
  · unfold Hooks.step Hooks.opening
    simp only
    rw [if_neg hnull]
    rfl

theorem call_passed_on_iff_null :
    ∃ s, Run Hooks.step (fun _ _ => True) .start (fileAndNull 4) s ∧ s.call (.io (.read 4 1)) = .ok (s, .system) :=
  ⟨afterFileAndNull, run_fileAndNull 4, (call_passed_on_iff (run_fileAndNull 4) _).mpr ⟨rfl, .inl (by decide)⟩⟩

/-- The system has 100 descriptors open, and returns 100 for `/dev/null`: a read from it gives the byte of the other
    file, and a `close` of it closes that one. With 4 instead of 100 the `close` does nothing. -/
theorem null_misrouted :
    memfsInterceptFilename "/dev/null".toList = false ∧
      (∃ s, Run Hooks.step (fun _ _ => True) .start (fileAndNull 100) s ∧
        (∃ t reply, s.call (.io (.pread 100 1 0)) = .ok (t, .memfs reply) ∧ reply.data = [1]) ∧
        ∃ t reply, s.call (.close 100) = .ok (t, .memfs reply) ∧
          t.fs.files.map (fun h => h.file.closed) = [true]) ∧
      ∃ s, Run Hooks.step (fun _ _ => True) .start (fileAndNull 4) s ∧ s.call (.close 4) = .ok (s, .dropped) := by
  refine ⟨by decide, ⟨afterFileAndNull, run_fileAndNull 100, ?_, ?_⟩, afterFileAndNull, run_fileAndNull 4, rfl⟩
  · have hopen : afterFileAndNull.fs.OpenAs 100 (handleOf 0 1 7) := ⟨by decide, rfl, rfl⟩
    have hcontent : Represents (memfsSupportOpen [1]) [1] := represents_open (by decide)
    obtain ⟨t, reply, hread, hdata⟩ := Fs.pread hopen hcontent (show 0 + 1 < 2 ^ 64 by decide)
    refine ⟨{ afterFileAndNull with fs := t }, reply, ?_, hdata⟩
    unfold Hooks.call
    rw [show (FdCall.io (.pread 100 1 0)).fileCall = .call (.pread 100 1 0) from rfl, hread]
  · exact ⟨_, _, rfl, rfl⟩

/-! ## An `open` that fails -/

/-- The `open` returns -1, and the tables are as before. -/
def Hooks.ReportsFailure (s : Hooks) (o : OpenCall) (how : Opening) : Prop :=
  ∃ t r, s.opening o how = .ok (t, r) ∧ r.value = -1 ∧ t.fs = s.fs

/-- The file is left alone, and its name fits into the list of such files. -/
def Hooks.LeavesAlone (s : Hooks) (pathname : List Char) : Prop :=
  memfsInterceptFilename pathname = false ∧ s.ignorelist.length < memfsMaxFiles ∧ pathname.length < memfsMaxFilename

section Failing
variable {o : OpenCall}

/-- -1 is a descriptor for `open`, and not one for `fstat`. -/
theorem Fs.openFd_minusOne (s : Fs) (hfd : o.fd = -1) (trunc append : Bool) :
    s.openFd o trunc append = .error .assertion := by
  have hsup (t : Fs) : t.memfsSupportOpen (o.truncated trunc) = .error .assertion := by
    have hneg : (o.truncated trunc).fd < 0 := by
      show o.fd < 0
      omega
    exact if_pos hneg
  unfold Fs.openFd Fs.memfsOpen
  rw [if_neg (by omega), hsup]
  split
  · rfl
  split
  · rfl
  split
  · rfl
  · rfl

theorem Hooks.ignorelistAdd_isOk_iff (s : Hooks) (filename : List Char) :
    (∃ t, s.ignorelistAdd filename = .ok t ∧ t.fs = s.fs) ↔
      s.ignorelist.length < memfsMaxFiles ∧ filename.length < memfsMaxFilename := by
  unfold Hooks.ignorelistAdd
  split
  · next hfull => exact iff_of_false (by rintro ⟨t, ⟨⟩, -⟩) fun h => hfull h.1
  split
  · next hlong => exact iff_of_false (by rintro ⟨t, ⟨⟩, -⟩) fun h => hlong h.2
  · next hroom hshort => exact iff_of_true ⟨_, rfl, rfl⟩ ⟨not_not.mp hroom, not_not.mp hshort⟩

theorem Hooks.openFd_reportsFailure_iff (s : Hooks) (hfd : o.fd = -1) (trunc append : Bool) :
    s.ReportsFailure o (.openFd trunc append) ↔ s.LeavesAlone o.pathname := by
  unfold Hooks.ReportsFailure Hooks.LeavesAlone Hooks.opening
  split
  · next hcatch =>
    have hfails : s.fs.opening o (.openFd trunc append) = .error .assertion := s.fs.openFd_minusOne hfd trunc append
    rw [hfails]
    exact iff_of_false (by rintro ⟨t, r, ⟨⟩, -⟩) (by rw [hcatch]; rintro ⟨⟨⟩, -⟩)
  · next hpass =>
    rw [← Hooks.ignorelistAdd_isOk_iff]
    constructor
    · rintro ⟨t, r, hopen, -, ht⟩
      obtain ⟨u, hadd, hopen⟩ := exists_of_bind_eq_ok hopen
      obtain rfl : u = t := (Prod.ext_iff.mp (Except.ok.inj hopen)).1
      exact ⟨Bool.eq_false_iff.mpr hpass, u, hadd, ht⟩
    · rintro ⟨-, t, hadd, ht⟩
      rw [hadd]
      exact ⟨t, .system o.fd, rfl, hfd, ht⟩

/-- **An `open` or a `creat` that fails in the system** is reported for the files that are left alone, and for no
    other. -/
theorem failed_open_reported_iff (s : Hooks) (hfd : o.fd = -1) (trunc append : Bool) :
    (s.ReportsFailure o (.openFd trunc append) ↔ s.LeavesAlone o.pathname) ∧
      (s.ReportsFailure o .creat ↔ s.LeavesAlone o.pathname) :=
  ⟨s.openFd_reportsFailure_iff hfd trunc append, s.openFd_reportsFailure_iff hfd true false⟩

end Failing

theorem failed_open_reported_iff_null :
    Hooks.start.ReportsFailure (openNull (-1)) (.openFd false false) ∧
      Hooks.start.ReportsFailure (openNull (-1)) .creat := by
  have halone : Hooks.start.LeavesAlone (openNull (-1)).pathname := ⟨by decide, by decide, by decide⟩
  have hboth := failed_open_reported_iff (o := openNull (-1)) .start rfl false false
  exact ⟨hboth.1.mpr halone, hboth.2.mpr halone⟩

/-- A file `f` that does not exist. -/
theorem missing_file_aborts :
    memfsInterceptFilename (openOf (-1) 0 0 []).pathname = true ∧
      Hooks.start.opening (openOf (-1) 0 0 []) (.openFd false false) = .error .assertion ∧
      Hooks.start.opening (openOf (-1) 0 0 []) .creat = .error .assertion := by
  have hname : memfsInterceptFilename (openOf (-1) 0 0 []).pathname = true := by decide
  have hfails (trunc : Bool) : Hooks.start.fs.openFd (openOf (-1) 0 0 []) trunc false = .error .assertion :=
    Fs.openFd_minusOne _ rfl trunc false
  refine ⟨hname, ?_, ?_⟩
  · unfold Hooks.opening Fs.opening
    simp only
    rw [if_pos hname, hfails, error_bind]
  · unfold Hooks.opening Fs.opening Fs.creat
    simp only
    rw [if_pos hname, hfails, error_bind]

end SkiVmm.Memfs
