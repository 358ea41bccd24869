import Mathlib.Data.List.TakeWhile
import SkiVmm.Memfs.Files

/-!
# `Memfs.Fgets` — reading a file line by line (`fgets` of `ski-memfs.c`)

`fgets` reads ahead, `size - 1` bytes, without moving the offset. It then cuts what it has read behind the first
newline, and moves the offset by the length of the string that is left.

* `Reading.fgets`: of a file without NUL bytes one call returns what the text at the offset begins with, up to a
  newline, and moves the offset behind it.
* `Pieces`: how a text falls into pieces; each one ends at the first newline in reach, or else is as long as it can be.
  Every text does (`exists_pieces`), and the pieces together are the text (`Pieces.flatten_eq`).
* `fgets_pieces`: calls from the start of the file on return its pieces one after the other, and null from then on.
-/

namespace SkiVmm.Memfs

open Lib

/-! ## The hook -/

/-- An `int` as `size_t`. -/
def intToSizeT (n : Int) : Nat := (n % 2 ^ 64).toNat

/-- `sizeof(str)` -/
def fgetsBuffSize : Nat := 1024 * 4

/-- The C string in a buffer. -/
def cString (buff : List Byte) : List Byte := buff.takeWhile (· ≠ 0)

def newline : Byte := 10

/-- `strchr`, and `nl[1] = 0` where it has found a newline. -/
def cutAfterNewline : List Byte → List Byte
  | [] => []
  | c :: str => if c = newline then [c] else c :: cutAfterNewline str

/-- `fgets`: the string that is copied to the buffer of the caller, or null. -/
def State.fgets (s : State) (fd : Nat) (size : Int) : Except Stop (State × Option (List Byte)) := do
  let f ← memfsGetFd s fd
  if ¬intToSizeT size < fgetsBuffSize then .error .assertion
  else
    let (data, bytes, f) ← memfsRead 1 (intToSizeT (size - 1)) f.off s.sup f false
    if ¬bytes < intToSizeT size then .error .assertion
    else
      let str := cutAfterNewline (cString data)
      .ok (s.setFile fd { f with off := sizeT (f.off + str.length) }, if str.length ≠ 0 then some str else none)

/-- A number of calls, with what they return. -/
def State.fgetsRun (s : State) (fd : Nat) (size : Int) : Nat → Except Stop (State × List (Option (List Byte)))
  | 0 => .ok (s, [])
  | n + 1 => do
    let (s, str) ← s.fgets fd size
    let (s, strs) ← s.fgetsRun fd size n
    .ok (s, str :: strs)

/-! ## Pieces -/

/-- The piece of at most `k` bytes that a text begins with: it ends at the first newline if there is one in reach, and
    is as long as it can be otherwise. -/
structure IsPiece (k : Nat) (text piece : List Byte) : Prop where
  ne_nil : piece ≠ []
  length_le : piece.length ≤ k
  ends : (∃ line rest, text = line ++ newline :: rest ∧ newline ∉ line ∧ line.length < k ∧ piece = line ++ [newline]) ∨
    newline ∉ text.take k ∧ piece = text.take k

/-- A text and its pieces. -/
inductive Pieces (k : Nat) : List Byte → List (List Byte) → Prop where
  | nil : Pieces k [] []
  | cons {piece rest : List Byte} {pieces : List (List Byte)} (hpiece : IsPiece k (piece ++ rest) piece)
      (hrest : Pieces k rest pieces) : Pieces k (piece ++ rest) (piece :: pieces)

section Pieces
variable {k : Nat} {text piece line : List Byte} {pieces : List (List Byte)}

theorem Pieces.flatten_eq (h : Pieces k text pieces) : pieces.flatten = text := by
  induction h with
  | nil => rfl
  | cons _ _ ih => rw [List.flatten_cons, ih]

theorem cutAfterNewline_of_not_mem (hline : newline ∉ line) : cutAfterNewline line = line := by
  induction line with
  | nil => rfl
  | cons c line ih =>
    have hc : c ≠ newline := fun heq => hline (heq ▸ List.mem_cons_self)
    rw [cutAfterNewline, if_neg hc, ih fun hmem => hline (List.mem_cons_of_mem c hmem)]

theorem cutAfterNewline_newline (hline : newline ∉ line) (rest : List Byte) :
    cutAfterNewline (line ++ newline :: rest) = line ++ [newline] := by
  induction line with
  | nil => exact if_pos rfl
  | cons c line ih =>
    have hc : c ≠ newline := fun heq => hline (heq ▸ List.mem_cons_self)
    rw [List.cons_append, cutAfterNewline, if_neg hc, ih fun hmem => hline (List.mem_cons_of_mem c hmem)]
    rfl

/-- **What `fgets` cuts out of the bytes it has read** is the piece. -/
theorem cutAfterNewline_isPiece (hk : 0 < k) (htext : text ≠ []) : IsPiece k text (cutAfterNewline (text.take k)) := by
  by_cases hmem : newline ∈ text.take k
  · obtain ⟨line, rest, heq, hline⟩ := List.eq_append_cons_of_mem hmem
    have hlen : (line ++ newline :: rest).length ≤ k := by
      rw [← heq]
      exact List.length_take_le ..
    rw [List.length_append, List.length_cons] at hlen
    rw [heq, cutAfterNewline_newline hline]
    refine ⟨List.append_ne_nil_of_right_ne_nil _ (List.cons_ne_nil _ _), ?_, .inl ?_⟩
    · rw [List.length_append, List.length_singleton]
      omega
    · refine ⟨line, rest ++ text.drop k, ?_, hline, by omega, rfl⟩
      rw [← List.cons_append, ← List.append_assoc, ← heq, List.take_append_drop]
  · rw [cutAfterNewline_of_not_mem hmem]
    refine ⟨?_, List.length_take_le .., .inr ⟨hmem, rfl⟩⟩
    rw [ne_eq, List.take_eq_nil_iff]
    rintro (hzero | hnil)
    · omega
    · exact htext hnil

/-- A piece is a beginning of the text. -/
theorem IsPiece.exists_append (h : IsPiece k text piece) : ∃ rest, text = piece ++ rest := by
  rcases h.ends with ⟨line, rest, rfl, -, -, rfl⟩ | ⟨-, rfl⟩
  · exact ⟨rest, (List.append_assoc line [newline] rest).symm⟩
  · exact ⟨text.drop k, (List.take_append_drop k text).symm⟩

/-- There is only one piece. -/
theorem IsPiece.eq_cut (h : IsPiece k text piece) : cutAfterNewline (text.take k) = piece := by
  rcases h.ends with ⟨line, rest, rfl, hline, hlt, rfl⟩ | ⟨hmem, rfl⟩
  · obtain ⟨j, hj⟩ := Nat.exists_eq_add_of_lt hlt
    rw [List.take_append, List.take_of_length_le (Nat.le_of_lt hlt), show k - line.length = j + 1 by omega,
      List.take_succ_cons, cutAfterNewline_newline hline]
  · exact cutAfterNewline_of_not_mem hmem

/-- **Every text falls into pieces.** -/
theorem exists_pieces (hk : 0 < k) (text : List Byte) : ∃ pieces, Pieces k text pieces := by
  induction hlen : text.length using Nat.strong_induction_on generalizing text with
  | _ n ih =>
    by_cases htext : text = []
    · subst htext
      exact ⟨[], .nil⟩
    · have hpiece := cutAfterNewline_isPiece hk htext
      generalize cutAfterNewline (text.take k) = piece at hpiece
      obtain ⟨rest, rfl⟩ := hpiece.exists_append
      -- a piece is not empty, so that less is left
      have hpos := List.length_pos_iff.mpr hpiece.ne_nil
      rw [List.length_append] at hlen
      obtain ⟨pieces, hpieces⟩ := ih rest.length (by omega) rest rfl
      exact ⟨piece :: pieces, .cons hpiece hpieces⟩

end Pieces

/-! ## One call -/

theorem memfsGetFd_eq_ok_iff {s : State} {fd : Nat} {f : MemfsFile} :
    memfsGetFd s fd = .ok f ↔ fdStart ≤ fd ∧ s.files[fd - fdStart]? = some f ∧ f.closed = false := by
  constructor
  · intro h
    refine ⟨?_, memfsGetFd_mem h, ?_⟩
    · by_contra hlt
      rw [memfsGetFd, if_pos (Nat.lt_of_not_le hlt)] at h
      cases h
    · have hmem := memfsGetFd_mem h
      unfold memfsGetFd at h
      split at h
      · cases h
      · rw [hmem] at h
        simp only at h
        split at h
        · cases h
        · next hclosed => exact Bool.not_eq_true _ ▸ hclosed
  · rintro ⟨hle, hget, hclosed⟩
    unfold memfsGetFd
    rw [if_neg (Nat.not_lt.mpr hle), hget]
    simp only [hclosed, Bool.false_eq_true, if_false]

theorem memfsGetFd_setFile {s : State} {fd : Nat} {f g : MemfsFile} (hfd : memfsGetFd s fd = .ok f)
    (hg : g.closed = false) : memfsGetFd (s.setFile fd g) fd = .ok g := by
  obtain ⟨hle, hget, -⟩ := memfsGetFd_eq_ok_iff.mp hfd
  obtain ⟨hlt, -⟩ := List.getElem?_eq_some_iff.mp hget
  exact memfsGetFd_eq_ok_iff.mpr ⟨hle, List.getElem?_set_self hlt, hg⟩

/-- `text` is left to be read through `fd`. -/
structure Reading (s : State) (fd : Nat) (content text : List Byte) : Prop where
  sup : Represents s.sup content
  left : ∃ f, memfsGetFd s fd = .ok f ∧ f.off ≤ content.length ∧ content.drop f.off = text

section Calls
variable {s : State} {fd : Nat} {size : Int} {content text piece rest : List Byte} {pieces : List (List Byte)}

/-- **One call** returns what the text begins with, up to a newline, and leaves the rest. -/
theorem Reading.fgets (h : Reading s fd content text) (hnul : 0 ∉ content) (hsize : 2 ≤ size ∧ size ≤ 4095)
    (hpiece : cutAfterNewline (text.take (size - 1).toNat) = piece) (htext : text = piece ++ rest) :
    ∃ t, s.fgets fd size = .ok (t, if piece.length ≠ 0 then some piece else none) ∧ Reading t fd content rest := by
  obtain ⟨f, hfd, hoff, hdrop⟩ := h.left
  have hlen := h.sup.length_le
  have hcap := h.sup.capacity_lt
  rw [h.sup.length_eq] at hlen
  have hcount : intToSizeT (size - 1) = (size - 1).toNat := by
    unfold intToSizeT
    omega
  have hint : intToSizeT size = (size - 1).toNat + 1 := by
    unfold intToSizeT
    omega
  have hsum : f.off + (size - 1).toNat < 2 ^ 64 := by omega
  have hread := h.sup.read f false hsum (by rintro ⟨⟩)
  rw [hdrop, if_neg Bool.false_ne_true] at hread
  -- without NUL bytes all that was read is the string
  have hstring : cString (text.take (size - 1).toNat) = text.take (size - 1).toNat := by
    rw [cString, List.takeWhile_eq_self_iff]
    intro b hb
    have hmem : b ∈ content := List.mem_of_mem_drop (hdrop ▸ List.mem_of_mem_take hb)
    exact decide_eq_true fun hzero => hnul (hzero ▸ hmem)
  have htotal := congrArg List.length htext
  rw [← hdrop, List.length_drop, List.length_append] at htotal
  refine ⟨s.setFile fd { f with off := f.off + piece.length }, ?_, h.sup, ?_⟩
  · unfold State.fgets
    rw [hfd, ok_bind, if_neg (not_not.mpr (by rw [hint, fgetsBuffSize]; omega)), hcount, hread, ok_bind]
    simp only
    rw [if_neg (not_not.mpr (by rw [hint]; exact Nat.lt_succ_of_le (List.length_take_le ..))), hstring, hpiece,
      sizeT_of_lt (by omega)]
  · obtain ⟨-, -, hclosed⟩ := memfsGetFd_eq_ok_iff.mp hfd
    refine ⟨_, memfsGetFd_setFile hfd hclosed, by simp only; omega, ?_⟩
    simp only
    rw [← List.drop_drop, hdrop, htext, List.drop_left]

/-! ## All calls -/

/-- **The calls** return the pieces one after the other. -/
theorem Reading.fgetsRun (h : Reading s fd content text) (hnul : 0 ∉ content) (hsize : 2 ≤ size ∧ size ≤ 4095)
    (hpieces : Pieces (size - 1).toNat text pieces) (n : Nat) :
    ∃ t, s.fgetsRun fd size n = .ok (t, (pieces.map some).take n ++ List.replicate (n - pieces.length) none) := by
  induction n generalizing s text pieces with
  | zero =>
    rw [List.take_zero, Nat.zero_sub]
    exact ⟨s, rfl⟩
  | succ n ih =>
    unfold State.fgetsRun
    cases hpieces with
    | nil =>
      -- nothing is left, and nothing will be
      have hnone : cutAfterNewline (([] : List Byte).take (size - 1).toNat) = [] := by
        rw [List.take_nil]
        rfl
      obtain ⟨t, hcall, hreading⟩ := h.fgets hnul hsize hnone (List.append_nil []).symm
      obtain ⟨u, hrun⟩ := ih hreading .nil
      rw [hcall, ok_bind]
      simp only
      rw [hrun, List.map_nil, List.take_nil, List.take_nil, List.length_nil, Nat.sub_zero, Nat.sub_zero]
      exact ⟨u, rfl⟩
    | @cons piece rest pieces hpiece hrest =>
      obtain ⟨t, hcall, hreading⟩ := h.fgets hnul hsize hpiece.eq_cut rfl
      obtain ⟨u, hrun⟩ := ih hreading hrest
      rw [hcall, ok_bind, if_pos (List.length_pos_iff.mpr hpiece.ne_nil).ne']
      simp only
      rw [hrun, List.length_cons, Nat.add_sub_add_right]
      exact ⟨u, rfl⟩

end Calls

/-- **`fgets` from the start of a file** without NUL bytes: the calls return the pieces of the file, which together are
    the file, and from then on null. -/
theorem fgets_pieces {s : State} {content : List Byte} (hsup : Represents s.sup content) (hnul : 0 ∉ content) {fd : Nat}
    {f : MemfsFile} (hfd : memfsGetFd s fd = .ok f) (hoff : f.off = 0) {size : Int} (hsize : 2 ≤ size ∧ size ≤ 4095) :
    ∃ pieces, Pieces (size - 1).toNat content pieces ∧ pieces.flatten = content ∧
      ∀ n, ∃ t, s.fgetsRun fd size n
        = .ok (t, (pieces.map some).take n ++ List.replicate (n - pieces.length) none) := by
  obtain ⟨pieces, hpieces⟩ := exists_pieces (k := (size - 1).toNat) (by omega) content
  have hreading : Reading s fd content content := ⟨hsup, f, hfd, by omega, by rw [hoff, List.drop_zero]⟩
  exact ⟨pieces, hpieces, hpieces.flatten_eq, hreading.fgetsRun hnul hsize hpieces⟩

/-- A file of two lines, `a` and `b`, the second one without a newline. -/
def twoLines : State := { sup := memfsSupportOpen [97, 10, 98], files := [{ closed := false, off := 0 }] }

theorem fgets_pieces_twoLines :
    ∃ pieces, Pieces ((4 : Int) - 1).toNat [97, 10, 98] pieces ∧ pieces.flatten = [97, 10, 98] ∧
      ∀ n, ∃ t, twoLines.fgetsRun 100 4 n
        = .ok (t, (pieces.map some).take n ++ List.replicate (n - pieces.length) none) :=
  fgets_pieces (represents_open (by decide)) (by decide) rfl rfl (by decide)

example : (twoLines.fgetsRun 100 4 3).map Prod.snd = .ok [some [97, 10], some [98], none] := rfl

end SkiVmm.Memfs
