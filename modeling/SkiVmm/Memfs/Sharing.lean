import SkiVmm.Memfs.Files

/-!
# `Memfs.Sharing` — which handles see the same file

Handles on one support see each other's writes, handles on different supports do not (`shares_iff`). The support is
found by the inode number as an `int`, without the device.

* `handles_share_iff` — two handles share as they should, unless they are on different files whose numbers agree as
  an `int`.
* `truncated_empty_iff` — a file is empty after it was opened with a truncation, unless it already has a support that
  is not: only the file under memfs is truncated.
-/

namespace SkiVmm.Memfs

open Lib

/-! ## Reading and writing through a handle -/

/-- `fd` is this handle, and it is open. -/
structure Fs.OpenAs (s : Fs) (fd : Nat) (h : Handle) : Prop where
  fdStart_le : fdStart ≤ fd
  getElem? : s.files[fd - fdStart]? = some h
  open_ : h.file.closed = false

section Handles
variable {s t : Fs} {fd a b : Nat} {h fa fb : Handle}

theorem Fs.OpenAs.mem (hopen : s.OpenAs fd h) : h ∈ s.files := List.mem_of_getElem? hopen.getElem?

theorem Fs.OpenAs.withSups (hopen : s.OpenAs fd h) (sups : List Support) : { s with sups := sups }.OpenAs fd h :=
  ⟨hopen.fdStart_le, hopen.getElem?, hopen.open_⟩

theorem Fs.OpenAs.memfsGetFd (hopen : s.OpenAs fd h) : memfsGetFd (s.view h) fd = .ok h.file := by
  unfold Memfs.memfsGetFd Fs.view
  simp only
  rw [if_neg (Nat.not_lt.mpr hopen.fdStart_le), List.getElem?_map, hopen.getElem?]
  simp only [Option.map_some]
  rw [if_neg (by rw [hopen.open_]; exact Bool.false_ne_true)]

/-- A call that keeps the handle as it is. -/
theorem Fs.update_setFile (hopen : s.OpenAs fd h) (sup : MemfsSupport) :
    s.update h ({ s.view h with sup := sup }.setFile fd h.file)
      = { s with sups := s.sups.modify h.sup fun sp => { sp with sup := sup } } := by
  have hset : (s.files.map Handle.file).set (fd - fdStart) h.file = s.files.map Handle.file := by
    obtain ⟨hlt, hget⟩ := List.getElem?_eq_some_iff.mp hopen.getElem?
    rw [← List.map_set, ← hget, List.set_getElem_self]
  have hzip : List.zipWith (fun (h : Handle) f => { h with file := f }) s.files (s.files.map Handle.file)
      = s.files := by
    rw [List.zipWith_map_right, List.zipWith_self]
    exact List.map_id' _
  unfold Fs.update Fs.view State.setFile
  simp only
  rw [hset, hzip]

/-- **A write** at an offset, into a support that has room for it. -/
theorem Fs.pwrite (hopen : s.OpenAs fd h) {data content : List Byte} {offset : Nat}
    (hcontent : Represents (s.supAt h.sup) content) (hfit : offset + data.length ≤ (s.supAt h.sup).capacity) :
    ∃ sup reply, s.fileCall (.call (.pwrite fd data offset))
        = .ok ({ s with sups := s.sups.modify h.sup fun sp => { sp with sup := sup } }, reply) ∧
      Represents sup (writeAt 0 content offset data) := by
  obtain ⟨sup, hwrite, hrep, -⟩ := hcontent.write h.file false hfit
  refine ⟨sup, { ret := toOffT data.length, data := [] }, ?_, hrep⟩
  unfold Fs.fileCall
  simp only [FileCall.fd, hopen.getElem?, State.fileCall, State.call, State.pwrite, hopen.memfsGetFd, ok_bind]
  rw [show (s.view h).sup = s.supAt h.sup from rfl, hwrite]
  simp only [ok_bind]
  exact congrArg (fun t => Except.ok (t, _)) (Fs.update_setFile hopen sup)

/-- **A read** at an offset. -/
theorem Fs.pread (hopen : s.OpenAs fd h) {content : List Byte} {count offset : Nat}
    (hcontent : Represents (s.supAt h.sup) content) (hsum : offset + count < 2 ^ 64) :
    ∃ t reply, s.fileCall (.call (.pread fd count offset)) = .ok (t, reply) ∧
      reply.data = (content.drop offset).take count := by
  have hread := hcontent.read h.file false hsum nofun
  refine ⟨s.update h ((s.view h).setFile fd h.file),
    { ret := toOffT ((content.drop offset).take count).length, data := (content.drop offset).take count }, ?_, rfl⟩
  unfold Fs.fileCall
  simp only [FileCall.fd, hopen.getElem?, State.fileCall, State.call, State.pread, hopen.memfsGetFd, ok_bind]
  rw [show (s.view h).sup = s.supAt h.sup from rfl, hread]
  rfl

/-! ## Sharing -/

/-- The room in the blocks of a file. -/
def Fs.capacityOf (s : Fs) (fd : Nat) : Nat :=
  (s.files[fd - fdStart]?.map fun h => (s.supAt h.sup).capacity).getD 0

/-- What is written through `a` is read through `b`, for every write that there is room for. -/
def Fs.Shares (s : Fs) (a b : Nat) : Prop :=
  ∀ (data : List Byte) (offset : Nat), offset + data.length ≤ s.capacityOf a →
    ∃ t reply, s.fileCall (.call (.pwrite a data offset)) = .ok (t, reply) ∧
      ∃ u reply', t.fileCall (.call (.pread b data.length offset)) = .ok (u, reply') ∧ reply'.data = data

theorem Fs.OpenAs.capacityOf (hopen : s.OpenAs fd h) : s.capacityOf fd = (s.supAt h.sup).capacity := by
  unfold Fs.capacityOf
  rw [hopen.getElem?]
  rfl

/-- Handles are on one support if their keys are the same. -/
theorem Fs.Ok.sup_eq_iff (hok : s.Ok) (ha : fa ∈ s.files) (hb : fb ∈ s.files) :
    fa.sup = fb.sup ↔ fa.node.key = fb.node.key := by
  obtain ⟨spa, hspa, hkeya, -⟩ := hok.support ha
  obtain ⟨spb, hspb, hkeyb, -⟩ := hok.support hb
  constructor
  · intro heq
    rw [heq, hspb] at hspa
    rw [← hkeya, ← hkeyb, Option.some.inj hspa]
  · intro hkey
    have hlt : fa.sup < (s.sups.map Support.inode).length := by
      rw [List.length_map]
      exact (List.getElem?_eq_some_iff.mp hspa).1
    refine (List.getElem?_inj hlt hok.keys).mp ?_
    rw [List.getElem?_map, List.getElem?_map, hspa, hspb, Option.map_some, Option.map_some, hkeya, hkeyb, hkey]

/-- The supports after a write. -/
theorem Fs.supAt_modify (s : Fs) (i j : Nat) (sup : MemfsSupport) (hi : i < s.sups.length) :
    { s with sups := s.sups.modify i fun sp => { sp with sup := sup } }.supAt j
      = if i = j then sup else s.supAt j := by
  unfold Fs.supAt
  simp only [List.getElem?_modify]
  split_ifs with heq
  · subst heq
    rw [List.getElem?_eq_getElem hi]
    rfl
  · simp

/-- **A write through one handle, and a read through another one.** -/
theorem Fs.Ok.pread_after_pwrite (hok : s.Ok) (ha : s.OpenAs a fa) (hb : s.OpenAs b fb) {ca cb data : List Byte}
    {offset : Nat} (hca : Represents (s.supAt fa.sup) ca) (hcb : Represents (s.supAt fb.sup) cb)
    (hfit : offset + data.length ≤ (s.supAt fa.sup).capacity) :
    ∃ t reply, s.fileCall (.call (.pwrite a data offset)) = .ok (t, reply) ∧
      ∃ u reply', t.fileCall (.call (.pread b data.length offset)) = .ok (u, reply') ∧
        reply'.data = if fa.sup = fb.sup then data else (cb.drop offset).take data.length := by
  obtain ⟨sp, hsp, -⟩ := hok.support ha.mem
  have hlt := (List.getElem?_eq_some_iff.mp hsp).1
  have hcap := hca.capacity_lt
  obtain ⟨sup, reply, hwrite, hrep⟩ := Fs.pwrite ha hca hfit
  have hafter : Represents
      (({ s with sups := s.sups.modify fa.sup fun sp => { sp with sup := sup } } : Fs).supAt fb.sup)
      (if fa.sup = fb.sup then writeAt 0 ca offset data else cb) := by
    rw [Fs.supAt_modify _ _ _ _ hlt]
    split_ifs
    · exact hrep
    · exact hcb
  obtain ⟨u, reply', hread, hdata⟩ := Fs.pread (hb.withSups _) hafter (show offset + data.length < 2 ^ 64 by omega)
  refine ⟨_, reply, hwrite, u, reply', hread, hdata.trans ?_⟩
  split_ifs
  · exact take_drop_writeAt ..
  · rfl

theorem Fs.Ok.shares_iff (hok : s.Ok) (ha : s.OpenAs a fa) (hb : s.OpenAs b fb) : s.Shares a b ↔ fa.sup = fb.sup := by
  obtain ⟨⟨ca, hca⟩, hroom⟩ := hok.represents ha.mem
  obtain ⟨⟨cb, hcb⟩, -⟩ := hok.represents hb.mem
  unfold Fs.Shares
  rw [ha.capacityOf]
  constructor
  · intro hshares
    by_contra hne
    -- a byte that `b` does not read before the write, and so not after it either
    obtain ⟨x, hx⟩ : ∃ x : Byte, x ≠ cb.headD 0 := by
      by_cases hzero : cb.headD 0 = 0
      · exact ⟨1, by rw [hzero]; decide⟩
      · exact ⟨0, Ne.symm hzero⟩
    have hfit : 0 + [x].length ≤ (s.supAt fa.sup).capacity := hroom
    obtain ⟨t, reply, hwrite, u, reply', hread, hdata⟩ := hshares [x] 0 hfit
    obtain ⟨t', reply₁, hwrite', u', reply₁', hread', hdata'⟩ := hok.pread_after_pwrite ha hb hca hcb hfit
    rw [hwrite'] at hwrite
    cases hwrite
    rw [hread'] at hread
    cases hread
    rw [hdata', if_neg hne] at hdata
    cases cb with
    | nil => cases hdata
    | cons y cb =>
      cases hdata
      exact hx rfl
  · intro heq data offset hfit
    obtain ⟨t, reply, hwrite, u, reply', hread, hdata⟩ := hok.pread_after_pwrite ha hb hca hcb hfit
    rw [if_pos heq] at hdata
    exact ⟨t, reply, hwrite, u, reply', hread, hdata⟩

/-- The call truncates the file. -/
def Opening.truncates : Opening → Bool
  | .openFd trunc _ => trunc
  | .creat => true
  | .fopen mode => mode = .w

/-- The call reads through `fd`. -/
def FileCall.readsFrom (fd : Nat) : FileCall → Bool
  | .call (.read fd' _) | .call (.pread fd' _ _) => fd' = fd
  | .fread fd' size _ => fd' = fd && size ≠ 0
  | _ => false

/-- The file of the handle `id` is empty: its length is 0, and there is nothing to read through any handle on it. -/
structure Fs.Empty (s : Fs) (id : Nat) (node : Node) : Prop where
  length_eq : ∃ h, s.files[id]? = some h ∧ (s.supAt h.sup).length = 0
  reads : ∀ fd h c, s.OpenAs fd h → h.node = node → c.readsFrom fd = true →
    ∃ t, s.fileCall c = .ok (t, { ret := 0, data := [] })

theorem memfsRead_empty {sup : MemfsSupport} (hlen : sup.length = 0) (size nmemb off : Nat) (f : MemfsFile)
    (updateOff : Bool) : memfsRead size nmemb off sup f updateOff = .ok ([], 0, f) := by
  unfold memfsRead
  rw [hlen]
  simp only
  by_cases hoff : off = 0
  · rw [if_neg (by omega), if_pos hoff]
  · rw [if_pos (by omega)]

/-- Reads from an empty support. -/
theorem Fs.OpenAs.read_empty (hopen : s.OpenAs fd h) (hlen : (s.supAt h.sup).length = 0) {c : FileCall}
    (hc : c.readsFrom fd = true) : ∃ t, s.fileCall c = .ok (t, { ret := 0, data := [] }) := by
  have hget := hopen.memfsGetFd
  have hlen : (s.view h).sup.length = 0 := hlen
  have hread := memfsRead_empty hlen
  refine ⟨s.update h ((s.view h).setFile fd h.file), ?_⟩
  cases c with
  | call c =>
    cases c with
    | read fd' count =>
      obtain rfl : fd' = fd := of_decide_eq_true hc
      unfold Fs.fileCall
      simp only [FileCall.fd, hopen.getElem?, State.fileCall, State.call, State.read, hget, hread, ok_bind]
      rfl
    | pread fd' count offset =>
      obtain rfl : fd' = fd := of_decide_eq_true hc
      unfold Fs.fileCall
      simp only [FileCall.fd, hopen.getElem?, State.fileCall, State.call, State.pread, hget, hread, ok_bind]
      rfl
    | write | pwrite | ftruncate | lseek => cases hc
  | fread fd' size nmemb =>
    simp only [FileCall.readsFrom, Bool.and_eq_true, decide_eq_true_eq] at hc
    obtain ⟨rfl, hsize⟩ := hc
    unfold Fs.fileCall
    simp only [FileCall.fd, hopen.getElem?, State.fileCall, State.fread, hget, hread, ok_bind, if_neg hsize]
    rw [show ((0 : Nat) : Int) / (size : Int) = 0 from Int.zero_ediv _]
  | fwrite | close => cases hc

/-- The handle `id` of `t`, which was opened in `s`, is on the old support of its key, or on a new one with these
    contents. -/
def Fs.OpenedOn (s t : Fs) (node : Node) (content : List Byte) (id : Nat) : Prop :=
  ∃ h, t.files[id]? = some h ∧ h.node = node ∧
    ((∃ sp ∈ s.sups, sp.inode = node.key ∧ t.supAt h.sup = sp.sup) ∨
      (∀ sp ∈ s.sups, sp.inode ≠ node.key) ∧ t.supAt h.sup = Memfs.memfsSupportOpen content)

theorem Fs.memfsOpen_openedOn {o : OpenCall} (hopen : s.memfsOpen o = .ok t) :
    s.OpenedOn t o.node o.content s.files.length := by
  rcases Fs.memfsOpen_cases hopen with ⟨i, sp, hsp, hkey, hsups, hfiles⟩ | ⟨hnew, -, hsups, hfiles⟩
  · refine ⟨_, by rw [hfiles, List.getElem?_concat_length], rfl, .inl ⟨sp, List.mem_of_getElem? hsp, hkey, ?_⟩⟩
    exact Fs.supAt_eq (by rw [hsups]; exact hsp)
  · refine ⟨_, by rw [hfiles, List.getElem?_concat_length], rfl, .inr ⟨hnew, ?_⟩⟩
    unfold Fs.supAt
    rw [hsups, List.getElem?_concat_length]
    rfl

theorem Fs.openFd_openedOn {o : OpenCall} {trunc append : Bool} {id : Nat}
    (hopen : s.openFd o trunc append = .ok (t, some id)) :
    s.OpenedOn t o.node (if trunc then [] else o.content) id := by
  unfold Fs.openFd at hopen
  split at hopen
  · cases hopen
  obtain ⟨u, hu, hopen⟩ := exists_of_bind_eq_ok hopen
  have hopened := Fs.memfsOpen_openedOn hu
  simp only at hopen
  split at hopen
  · -- `O_APPEND` only moves the handle
    cases hopen
    obtain ⟨h, hid, hnode, hsup⟩ := hopened
    refine ⟨{ h with file.off := (u.supAt h.sup).length }, ?_, hnode, hsup⟩
    rw [List.getElem?_modify, hid]
    simp
  · cases hopen
    exact hopened

/-- A file that is opened with a truncation is empty if it has no support yet. -/
theorem Fs.opening_truncates {o : OpenCall} {how : Opening} {id : Nat} (htrunc : how.truncates = true)
    (hopen : s.opening o how = .ok (t, some id)) : s.OpenedOn t o.node [] id := by
  cases how with
  | openFd trunc append =>
    obtain rfl : trunc = true := htrunc
    exact Fs.openFd_openedOn hopen
  | creat => exact Fs.openFd_openedOn hopen
  | fopen mode =>
    obtain rfl : mode = .w := of_decide_eq_true htrunc
    unfold Fs.opening Fs.fopen at hopen
    simp only at hopen
    split at hopen
    · cases hopen
    split at hopen
    · cases hopen
    split at hopen
    · cases hopen
    obtain ⟨u, hu, hopen⟩ := exists_of_bind_eq_ok hopen
    cases hopen
    exact Fs.memfsOpen_openedOn hu

/-- **When a file is empty after a truncation.** -/
theorem truncated_empty_iff {o : OpenCall} {how : Opening} {id : Nat} (hs : Reachable s)
    (htrunc : how.truncates = true) (hopen : s.opening o how = .ok (t, some id)) :
    t.Empty id o.node ↔ ∀ sp ∈ s.sups, sp.inode = o.node.key → sp.sup.length = 0 := by
  have hok := hs.ok.opening hopen
  obtain ⟨h, hid, hnode, hsup⟩ := Fs.opening_truncates htrunc hopen
  have hempty : t.Empty id o.node ↔ (t.supAt h.sup).length = 0 := by
    constructor
    · rintro ⟨⟨h', hid', hlen⟩, -⟩
      rwa [Option.some.inj (hid.symm.trans hid')]
    · intro hlen
      refine ⟨⟨h, hid, hlen⟩, ?_⟩
      intro fd g c hg hgnode hc
      refine hg.read_empty ?_ hc
      rw [(hok.sup_eq_iff hg.mem (List.mem_of_getElem? hid)).mpr (by rw [hgnode, hnode])]
      exact hlen
  rw [hempty]
  rcases hsup with ⟨sp, hsp, hkey, heq⟩ | ⟨hnew, heq⟩
  · rw [heq]
    constructor
    · intro hlen sp' hsp' hkey'
      rwa [List.inj_on_of_nodup_map hs.ok.keys hsp' hsp (hkey'.trans hkey.symm)]
    · intro hall
      exact hall sp hsp hkey
  · rw [heq]
    exact ⟨fun _ sp hsp hkey => absurd hkey (hnew sp hsp), fun _ => rfl⟩

end Handles

/-! ## Files of two devices, and a file that is opened twice -/

def FsCall.opens : FsCall → Bool
  | .opening _ _ => true
  | .file _ => false

/-- Tables found by evaluation, after some files were opened. -/
theorem exists_reachable_of_exec (calls : List FsCall) {p : Fs → Bool}
    (h : (exec Fs.step (fun _ c => c.opens) { sups := [], files := [] } calls).any p = true) :
    ∃ s, Reachable s ∧ p s = true := by
  have hvalid (s : Fs) (c : FsCall) (hc : c.opens = true) : c.Valid := by
    cases c with
    | opening o how => trivial
    | file c => cases hc
  obtain ⟨s, hrun, hp⟩ := exists_run_of_exec hvalid h
  exact ⟨s, ⟨calls, hrun⟩, hp⟩

/-- The first `open` of all. -/
theorem Fs.memfsOpen_first {o : OpenCall} (hfd : 0 ≤ o.fd) (hpath : o.pathname.length < memfsMaxFilename - 1)
    (hlen : o.content.length < addressSpace) :
    Fs.memfsOpen { sups := [], files := [] } o
      = .ok { sups := [{ inode := o.node.key, sup := Memfs.memfsSupportOpen o.content }],
              files := [{ sup := 0, file := { closed := false, off := 0 }, node := o.node }] } := by
  have hroom : ([] : List Support).length < memfsMaxFiles := by decide
  have hroom' : ([] : List Handle).length < memfsMaxFiles := by decide
  have hsup : Fs.memfsSupportOpen { sups := [], files := [] } o
      = .ok ({ sups := [{ inode := o.node.key, sup := Memfs.memfsSupportOpen o.content }], files := [] }, 0) := by
    unfold Fs.memfsSupportOpen
    rw [if_neg (by omega), List.findIdx?_nil]
    simp only
    rw [if_neg (not_not.mpr hpath), if_neg (not_not.mpr hroom), if_neg (not_not.mpr hlen)]
    rfl
  unfold Fs.memfsOpen
  rw [if_neg (not_not.mpr hpath), if_neg (not_not.mpr hroom), if_neg (not_not.mpr hroom'), hsup]
  rfl

/-- It is not truncated. -/
theorem Fs.opening_first {o : OpenCall} (hfd : 0 < o.fd) (hpath : o.pathname.length < memfsMaxFilename - 1)
    (hlen : o.content.length < addressSpace) (append : Bool) :
    Fs.opening { sups := [], files := [] } o (.openFd false append)
      = .ok ({ sups := [{ inode := o.node.key, sup := Memfs.memfsSupportOpen o.content }],
               files := [{ sup := 0, file := { closed := false, off := if append then o.content.length else 0 },
                           node := o.node }] }, some 0) := by
  unfold Fs.opening Fs.openFd
  simp only
  rw [if_neg (by omega), show o.truncated false = o from rfl, Fs.memfsOpen_first (by omega) hpath hlen]
  cases append with
  | false => rfl
  | true => rfl

/-- An `open` of a file. -/
def openOf (fd : Int) (dev ino : Nat) (content : List Byte) : OpenCall where
  pathname := ['f']
  fd := fd
  node := { dev := dev, ino := ino }
  content := content

/-- Its handle. -/
def handleOf (sup dev ino : Nat) : Handle where
  sup := sup
  file := { closed := false, off := 0 }
  node := { dev := dev, ino := ino }

/-- Two files that were opened one after the other. -/
theorem exists_openAs_two {dev ino dev' ino' sup : Nat}
    (h : (exec Fs.step (fun _ c => c.opens) { sups := [], files := [] }
      [.opening (openOf 3 dev ino [1]) (.openFd false false),
        .opening (openOf 4 dev' ino' [2]) (.openFd false false)]).any
      (fun s => s.files = [handleOf 0 dev ino, handleOf sup dev' ino']) = true) :
    ∃ s, Reachable s ∧ s.OpenAs 100 (handleOf 0 dev ino) ∧ s.OpenAs 101 (handleOf sup dev' ino') := by
  obtain ⟨s, hs, hfiles⟩ := exists_reachable_of_exec _ h
  have hfiles := of_decide_eq_true hfiles
  exact ⟨s, hs, ⟨by decide, by rw [hfiles]; rfl, rfl⟩, ⟨by decide, by rw [hfiles]; rfl, rfl⟩⟩

/-- A file that is new to memfs. -/
theorem truncated_empty_iff_first :
    ∃ t, Fs.opening { sups := [], files := [] } (openOf 3 1 7 [1]) (.openFd true false) = .ok (t, some 0) ∧
      t.Empty 0 { dev := 1, ino := 7 } := by
  obtain ⟨⟨t, id⟩, hopen, hid⟩ := exists_of_toOption_any
    (x := Fs.opening { sups := [], files := [] } (openOf 3 1 7 [1]) (.openFd true false))
    (p := fun r => r.2 = some 0) (by decide)
  obtain rfl : id = some 0 := of_decide_eq_true hid
  refine ⟨t, hopen, (truncated_empty_iff ⟨[], .nil _⟩ rfl hopen).mpr ?_⟩
  intro sp hsp
  cases hsp

/-- The file is opened once more. -/
theorem opening_again (sup : MemfsSupport) :
    Fs.opening { sups := [{ inode := 7, sup := sup }], files := [handleOf 0 1 7] } (openOf 4 1 7 [])
        (.openFd true false)
      = .ok ({ sups := [{ inode := 7, sup := sup }], files := [handleOf 0 1 7, handleOf 0 1 7] }, some 1) := by
  rfl

/-- A file that was created, written and opened again with `O_TRUNC`: its length is 1, and the byte is still read. -/
theorem truncated_not_empty :
    ∃ s t, Reachable s ∧ s.opening (openOf 4 1 7 []) (.openFd true false) = .ok (t, some 1) ∧
      t.OpenAs 101 (handleOf 0 1 7) ∧ (t.supAt 0).length = 1 ∧
      ∃ u reply, t.fileCall (.call (.pread 101 1 0)) = .ok (u, reply) ∧ reply.data = [5] := by
  obtain ⟨s, hs, hp⟩ := exists_reachable_of_exec [.opening (openOf 3 1 7 []) (.openFd false false)]
    (p := fun s => s.files = [handleOf 0 1 7] && s.sups.map Support.inode = [7] && (s.supAt 0).length = 0)
    (by decide)
  simp only [Bool.and_eq_true, decide_eq_true_eq] at hp
  obtain ⟨⟨hfiles, hinodes⟩, hlen⟩ := hp
  have hopen : s.OpenAs 100 (handleOf 0 1 7) := ⟨by decide, by rw [hfiles]; rfl, rfl⟩
  obtain ⟨⟨content, hcontent⟩, hroom⟩ := hs.ok.represents hopen.mem
  obtain rfl : content = [] := List.eq_nil_of_length_eq_zero (hcontent.length_eq.symm.trans hlen)
  obtain ⟨sup, reply, hwrite, hrep⟩ := Fs.pwrite hopen hcontent (show 0 + [(5 : Byte)].length ≤ _ from hroom)
  obtain ⟨sp, hsups, hkey⟩ := List.map_eq_singleton_iff.mp hinodes
  have hstate : ({ s with sups := s.sups.modify 0 fun sp => { sp with sup := sup } } : Fs)
      = { sups := [{ inode := 7, sup := sup }], files := [handleOf 0 1 7] } := by
    rw [hfiles, hsups, ← hkey]
    rfl
  have hs' : Reachable { sups := [{ inode := 7, sup := sup }], files := [handleOf 0 1 7] } := by
    refine hs.step (c := .file (.call (.pwrite 100 [5] 0))) ⟨by decide, by decide⟩ ?_
    unfold Fs.step
    simp only
    rw [hwrite]
    exact congrArg Except.ok hstate
  have hagain : ({ sups := [{ inode := 7, sup := sup }], files := [handleOf 0 1 7, handleOf 0 1 7] } : Fs).OpenAs 101
      (handleOf 0 1 7) := ⟨by decide, rfl, rfl⟩
  refine ⟨_, _, hs', opening_again sup, hagain, hrep.length_eq, ?_⟩
  exact Fs.pread hagain hrep (by decide)

end SkiVmm.Memfs
