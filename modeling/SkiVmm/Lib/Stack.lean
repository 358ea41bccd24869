import Mathlib.Data.List.Basic

/-!
# `Lib.Stack` — a stack kept in an array of cells with a mark

A push fills the first cell that is not in use, a pop clears the mark of the cell below the top. Used from empty,
the cells in use are a stack: a list of frames, bottom first, followed by cells not in use (`IsStack`).
-/

namespace SkiVmm.Lib

variable {α : Type} {used : α → Bool} {cells frames : List α} {x : α}

/-- Put `x` in the first cell that is not in use. -/
def fillFirst (used : α → Bool) (x : α) : List α → Option (List α)
  | [] => none
  | c :: cs => if used c then (fillFirst used x cs).map (c :: ·) else some (x :: cs)

/-- The cells in use are the first ones, and hold the stack `frames`. -/
structure IsStack (used : α → Bool) (cells frames : List α) : Prop where
  split : ∃ rest, cells = frames ++ rest ∧ ∀ c ∈ rest, used c = false
  used_frames : ∀ c ∈ frames, used c = true

theorem isStack_nil (h : ∀ c ∈ cells, used c = false) : IsStack used cells [] :=
  ⟨⟨cells, rfl, h⟩, by simp⟩

/-- **A push** adds a frame at the top, if there is room. -/
theorem IsStack.fillFirst (h : IsStack used cells frames) (hx : used x = true) {cells' : List α}
    (hfill : fillFirst used x cells = some cells') : IsStack used cells' (frames ++ [x]) := by
  obtain ⟨⟨rest, rfl, hrest⟩, hframes⟩ := h
  induction frames generalizing cells' with
  | nil =>
    cases rest with
    | nil => simp [Lib.fillFirst] at hfill
    | cons c rest =>
      have hc : used c = false := hrest c List.mem_cons_self
      simp only [List.nil_append, Lib.fillFirst, hc, Bool.false_eq_true, if_false, Option.some.injEq] at hfill
      refine ⟨⟨rest, by simp [← hfill], ?_⟩, by simpa using hx⟩
      intro d hd
      exact hrest d (List.mem_cons_of_mem _ hd)
  | cons f frames ih =>
    have hf : used f = true := hframes f List.mem_cons_self
    simp only [List.cons_append, Lib.fillFirst, hf, if_true, Option.map_eq_some_iff] at hfill
    obtain ⟨tail, htail, rfl⟩ := hfill
    obtain ⟨⟨rest', hsplit, hrest'⟩, hused⟩ := ih (fun c hc => hframes c (List.mem_cons_of_mem _ hc)) htail
    refine ⟨⟨rest', by simp [hsplit], hrest'⟩, ?_⟩
    intro c hc
    rcases List.mem_cons.mp hc with rfl | hc
    · exact hf
    · exact hused c hc

/-- There is no room when all cells are in use. -/
theorem used_of_fillFirst_eq_none (h : fillFirst used x cells = none) : ∀ c ∈ cells, used c = true := by
  induction cells with
  | nil => simp
  | cons c cells ih =>
    unfold fillFirst at h
    split at h
    · next hused => exact List.forall_mem_cons.mpr ⟨hused, ih (Option.map_eq_none_iff.mp h)⟩
    · cases h

/-- A push only fills a cell. -/
theorem length_fillFirst {cells' : List α} (h : fillFirst used x cells = some cells') :
    cells'.length = cells.length := by
  induction cells generalizing cells' with
  | nil => cases h
  | cons c cells ih =>
    unfold fillFirst at h
    split at h
    · obtain ⟨tail, htail, rfl⟩ := Option.map_eq_some_iff.mp h
      rw [List.length_cons, List.length_cons, ih htail]
    · obtain rfl := Option.some.inj h
      rfl

/-- The cells in use are those below the height of the stack. -/
theorem IsStack.used_iff (h : IsStack used cells frames) (i : Nat) :
    cells[i]?.any used = true ↔ i < frames.length := by
  obtain ⟨⟨rest, rfl, hrest⟩, hframes⟩ := h
  by_cases hi : i < frames.length
  · rw [List.getElem?_append_left hi, List.getElem?_eq_getElem hi]
    exact iff_of_true (hframes _ (List.getElem_mem hi)) hi
  · rw [List.getElem?_append_right (Nat.not_lt.mp hi)]
    refine iff_of_false ?_ hi
    cases hc : rest[i - frames.length]? with
    | none => simp
    | some c => simp [hrest c (List.mem_of_getElem? hc)]

theorem modify_length_append (frames rest : List α) (x : α) (f : α → α) :
    (frames ++ x :: rest).modify frames.length f = frames ++ f x :: rest := by
  induction frames with
  | nil => rfl
  | cons c frames ih =>
    show c :: (frames ++ x :: rest).modify frames.length f = _
    rw [ih]
    rfl

/-- **A pop** takes the top frame away. -/
theorem IsStack.pop (h : IsStack used cells (frames ++ [x])) {clear : α → α} (hclear : used (clear x) = false) :
    IsStack used (cells.modify frames.length clear) frames := by
  obtain ⟨⟨rest, rfl, hrest⟩, hframes⟩ := h
  refine ⟨⟨clear x :: rest, ?_, ?_⟩, fun c hc => hframes c (List.mem_append_left _ hc)⟩
  · rw [List.append_assoc]
    exact modify_length_append frames rest x clear
  · intro c hc
    rcases List.mem_cons.mp hc with rfl | hc
    · exact hclear
    · exact hrest c hc

/-- The top frame is in the cell below the height of the stack. -/
theorem IsStack.getElem?_top (h : IsStack used cells (frames ++ [x])) : cells[frames.length]? = some x := by
  obtain ⟨⟨rest, rfl, -⟩, -⟩ := h
  simp

/-- Cells that are counted only when in use are counted in the frames. -/
theorem IsStack.countP_eq (h : IsStack used cells frames) {p : α → Bool} (hp : ∀ c, p c = true → used c = true) :
    cells.countP p = frames.countP p := by
  obtain ⟨⟨rest, rfl, hrest⟩, -⟩ := h
  have hnone : rest.countP p = 0 := by
    rw [List.countP_eq_zero]
    intro c hc hpc
    have hused := hp c hpc
    rw [hrest c hc] at hused
    exact Bool.false_ne_true hused
  rw [List.countP_append, hnone, Nat.add_zero]

end SkiVmm.Lib
