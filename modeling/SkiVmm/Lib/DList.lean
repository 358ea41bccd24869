import Mathlib.Data.List.Nodup
import Mathlib.Logic.Function.Basic

/-!
# `Lib.DList` — doubly-linked lists of cells (`utlist.h`)

The macros `DL_APPEND`, `DL_DELETE` and `DL_FOREACH` over cells with the pointers `prev` and `next`. The `prev` of the
first cell points to the last one, the `next` of the last one is `NULL`.

* `Links` are a head and the pointers of all cells; an operation that follows a `NULL` pointer, or fails its assertion,
  is `none`.
* `Links.Lists l xs` says which cells a list has, in order; the operations on it are those on `xs`.
-/

namespace SkiVmm.Lib

open Function (update)

/-- A head, and the pointers of the cells. `NULL` is `none`. -/
structure Links (ι : Type) where
  head : Option ι
  prev : ι → Option ι
  next : ι → Option ι

namespace Links

variable {ι : Type} [DecidableEq ι]

/-- All pointers are `NULL`. -/
def empty : Links ι := ⟨none, fun _ => none, fun _ => none⟩

/-- `DL_APPEND` -/
def append (l : Links ι) (add : ι) : Option (Links ι) :=
  match l.head with
  | some head =>
    let prev := update l.prev add (l.prev head)
    (prev head).map fun last =>
      { head := some head
        prev := update prev head (some add)
        next := update (update l.next last (some add)) add none }
  | none =>
    some { head := some add, prev := update l.prev add (some add), next := update l.next add none }

/-- `DL_DELETE` -/
def delete (l : Links ι) (del : ι) : Option (Links ι) :=
  match l.prev del with
  | none => none
  | some before =>
    if before = del then some { l with head := none }
    else if l.head = some del then
      (l.next del).map fun after => { l with head := some after, prev := update l.prev after (some before) }
    else
      let next := update l.next before (l.next del)
      match next del with
      | some after => some { l with prev := update l.prev after (some before), next := next }
      | none => l.head.map fun head => { l with prev := update l.prev head (some before), next := next }

/-- The cells that `DL_FOREACH` visits from `el` on, at most `fuel` of them. -/
def foreach (l : Links ι) : Nat → Option ι → Option (List ι)
  | _, none => some []
  | 0, some _ => none
  | fuel + 1, some el => (l.foreach fuel (l.next el)).map (el :: ·)

/-- The cells of a list. Every split of `xs` at a cell tells its two pointers. -/
structure Lists (l : Links ι) (xs : List ι) : Prop where
  nodup : xs.Nodup
  head_eq : l.head = xs.head?
  next_eq : ∀ ys x zs, xs = ys ++ x :: zs → l.next x = zs.head?
  prev_eq : ∀ ys x zs, xs = ys ++ x :: zs → l.prev x = ys.getLast?.or xs.getLast?

variable {l : Links ι} {xs : List ι} {a : ι}

omit [DecidableEq ι] in
theorem lists_nil (h : l.head = none) : l.Lists [] := by
  refine ⟨List.nodup_nil, h, ?_, ?_⟩
  · intro ys x zs hsplit
    simp at hsplit
  · intro ys x zs hsplit
    simp at hsplit

omit [DecidableEq ι] in
/-- A cell occurs once. -/
theorem notMem_of_split {ys zs : List ι} {x : ι} (h : (ys ++ x :: zs).Nodup) : x ∉ ys ∧ x ∉ zs := by
  obtain ⟨-, hzs, hdisjoint⟩ := List.nodup_append'.mp h
  exact ⟨fun hy => hdisjoint hy List.mem_cons_self, (List.nodup_cons.mp hzs).1⟩

omit [DecidableEq ι] in
/-- A split of a list with one more cell. -/
theorem concat_eq_split {ys zs : List ι} {x : ι} (h : xs ++ [a] = ys ++ x :: zs) :
    (ys = xs ∧ x = a ∧ zs = []) ∨ ∃ zs', zs = zs' ++ [a] ∧ xs = ys ++ x :: zs' := by
  rcases List.eq_nil_or_concat' zs with rfl | ⟨zs', b, rfl⟩
  · obtain ⟨hys, hx⟩ := List.append_inj' h rfl
    exact Or.inl ⟨hys.symm, (List.cons.inj hx).1.symm, rfl⟩
  · rw [← List.cons_append, ← List.append_assoc] at h
    obtain ⟨hxs, ha⟩ := List.append_inj' h rfl
    obtain rfl : a = b := (List.cons.inj ha).1
    exact Or.inr ⟨zs', rfl, hxs⟩

/-- **`DL_APPEND` appends.** -/
theorem Lists.append (h : l.Lists xs) (ha : a ∉ xs) : ∃ l', l.append a = some l' ∧ l'.Lists (xs ++ [a]) := by
  have hnodup : (xs ++ [a]).Nodup := List.nodup_append'.mpr ⟨h.nodup, List.nodup_singleton a, by simpa using ha⟩
  unfold Links.append
  cases xs with
  | nil =>
    rw [h.head_eq]
    refine ⟨_, rfl, hnodup, rfl, ?_, ?_⟩
    · intro ys x zs hsplit
      rcases concat_eq_split hsplit with ⟨-, rfl, rfl⟩ | ⟨zs', -, hnil⟩
      · exact Function.update_self _ _ _
      · simp at hnil
    · intro ys x zs hsplit
      rcases concat_eq_split hsplit with ⟨rfl, rfl, -⟩ | ⟨zs', -, hnil⟩
      · exact Function.update_self _ _ _
      · simp at hnil
  | cons head rest =>
    rw [h.head_eq]
    have hne : head ≠ a := fun heq => ha (heq ▸ List.mem_cons_self)
    have hprev : l.prev head = (head :: rest).getLast? := h.prev_eq [] head rest rfl
    obtain ⟨last, hlast⟩ : ∃ last, (head :: rest).getLast? = some last :=
      ⟨_, List.getLast?_eq_some_getLast (List.cons_ne_nil _ _)⟩
    simp only [List.head?_cons, Function.update_of_ne hne, hprev, hlast, Option.map_some]
    refine ⟨_, rfl, hnodup, rfl, ?_, ?_⟩
    · intro ys x zs hsplit
      dsimp only
      rcases concat_eq_split hsplit with ⟨-, rfl, rfl⟩ | ⟨zs', rfl, hold⟩
      · rw [Function.update_self, List.head?_nil]
      · have hxa : x ≠ a := fun heq => ha (hold ▸ heq ▸ List.mem_append_right _ List.mem_cons_self)
        have hnd := hold ▸ h.nodup
        rw [Function.update_of_ne hxa]
        rcases List.eq_nil_or_concat' zs' with rfl | ⟨zs'', b, rfl⟩
        · -- the cell that was the last one so far
          rw [hold, List.getLast?_concat, Option.some_inj] at hlast
          rw [hlast, Function.update_self, List.nil_append, List.head?_cons]
        · have hxl : x ≠ last := by
            rw [hold, ← List.cons_append, ← List.append_assoc, List.getLast?_concat, Option.some_inj] at hlast
            intro heq
            exact (notMem_of_split hnd).2 (List.mem_append_right _ (heq ▸ hlast ▸ List.mem_cons_self))
          rw [Function.update_of_ne hxl, h.next_eq ys x _ hold]
          simp
    · intro ys x zs hsplit
      dsimp only
      rcases concat_eq_split hsplit with ⟨rfl, rfl, -⟩ | ⟨zs', rfl, hold⟩
      · rw [Function.update_of_ne (Ne.symm hne), Function.update_self, hlast, Option.some_or]
      · have hxa : x ≠ a := fun heq => ha (hold ▸ heq ▸ List.mem_append_right _ List.mem_cons_self)
        have hnd := hold ▸ h.nodup
        cases ys with
        | nil =>
          obtain rfl : head = x := (List.cons.inj hold).1
          rw [Function.update_self, List.getLast?_concat, List.getLast?_nil, Option.none_or]
        | cons y ys =>
          obtain rfl : head = y := (List.cons.inj hold).1
          have hxh : x ≠ head := fun heq => (notMem_of_split hnd).1 (heq ▸ List.mem_cons_self)
          rw [Function.update_of_ne hxh, Function.update_of_ne hxa, h.prev_eq _ x _ hold,
            List.getLast?_eq_some_getLast (List.cons_ne_nil head ys), Option.some_or, Option.some_or]

/-- **`DL_DELETE` of the first cell.** -/
theorem Lists.delete_head (h : l.Lists (a :: xs)) : ∃ l', l.delete a = some l' ∧ l'.Lists xs := by
  have hprev : l.prev a = (a :: xs).getLast? := h.prev_eq [] a xs rfl
  unfold Links.delete
  cases xs with
  | nil =>
    have hself : l.prev a = some a := hprev
    simp only [hself, if_true]
    exact ⟨_, rfl, lists_nil rfl⟩
  | cons after rest =>
    obtain ⟨last, hlast⟩ : ∃ last, (after :: rest).getLast? = some last :=
      ⟨_, List.getLast?_eq_some_getLast (List.cons_ne_nil _ _)⟩
    have hpa : l.prev a = some last := by rw [hprev, List.getLast?_cons_cons, hlast]
    have hnot : a ∉ after :: rest := (List.nodup_cons.mp h.nodup).1
    have hla : last ≠ a := fun heq => hnot (heq ▸ List.mem_of_getLast? hlast)
    have hhead : l.head = some a := h.head_eq
    have hnext : l.next a = some after := h.next_eq [] a (after :: rest) rfl
    simp only [hpa, if_neg hla, hhead, if_true, hnext, Option.map_some]
    refine ⟨_, rfl, (List.nodup_cons.mp h.nodup).2, rfl, ?_, ?_⟩
    · intro ys x zs hsplit
      exact h.next_eq (a :: ys) x zs (congrArg (a :: ·) hsplit)
    · intro ys x zs hsplit
      have hold := h.prev_eq (a :: ys) x zs (congrArg (a :: ·) hsplit)
      have hnd := hsplit ▸ (List.nodup_cons.mp h.nodup).2
      dsimp only
      cases ys with
      | nil =>
        obtain rfl : after = x := (List.cons.inj hsplit).1
        rw [Function.update_self, hlast, List.getLast?_nil, Option.none_or]
      | cons y ys =>
        obtain rfl : after = y := (List.cons.inj hsplit).1
        have hxa : x ≠ after := fun heq => (notMem_of_split hnd).1 (heq ▸ List.mem_cons_self)
        rw [Function.update_of_ne hxa, hold, List.getLast?_cons_cons]
        obtain ⟨b, hb⟩ : ∃ b, (after :: ys).getLast? = some b :=
          ⟨_, List.getLast?_eq_some_getLast (List.cons_ne_nil _ _)⟩
        rw [hb, Option.some_or, Option.some_or]

omit [DecidableEq ι] in
/-- A split of two lists is a split of one of them. -/
theorem append_eq_split {us vs ys zs : List ι} {x : ι} (h : us ++ vs = ys ++ x :: zs) :
    (∃ us', us = ys ++ x :: us' ∧ zs = us' ++ vs) ∨ ∃ ys', ys = us ++ ys' ∧ vs = ys' ++ x :: zs := by
  rcases List.append_eq_append_iff.mp h with ⟨ys', rfl, hvs⟩ | ⟨us', rfl, hzs⟩
  · exact Or.inr ⟨ys', rfl, hvs⟩
  · cases us' with
    | nil => exact Or.inr ⟨[], by simp, by simpa using hzs.symm⟩
    | cons u us' =>
      obtain ⟨rfl, rfl⟩ : x = u ∧ zs = us' ++ vs := by simpa using hzs
      exact Or.inl ⟨us', rfl, rfl⟩

/-- A cell between `us` and `vs` is taken out: the cells on both sides point to each other, where the first cell
    `first` of the list stands for a missing one after it. -/
structure Bypassed (l : Links ι) (first before : ι) (vs : List ι) (l' : Links ι) : Prop where
  head : l'.head = l.head
  next : l'.next = update l.next before vs.head?
  prev : l'.prev = update l.prev (vs.head?.getD first) (some before)

section Bypass
variable {l' : Links ι} {first before d : ι} {us vs : List ι} (h : l.Lists (us ++ d :: vs))
  (hfirst : us.head? = some first) (hbefore : us.getLast? = some before) (hl' : Bypassed l first before vs l')
include h hfirst hbefore hl'

omit [DecidableEq ι] hfirst hbefore hl' in
theorem Lists.nodup_bypassed : (us ++ vs).Nodup :=
  h.nodup.sublist (List.Sublist.append_left (List.sublist_cons_self d vs) us)

omit hfirst in
theorem Lists.next_bypassed {ys zs : List ι} {x : ι} (hsplit : us ++ vs = ys ++ x :: zs) : l'.next x = zs.head? := by
  have hnd := h.nodup_bypassed
  rw [hl'.next]
  rcases append_eq_split hsplit with ⟨us', hus, rfl⟩ | ⟨ys', rfl, hvs⟩
  · rcases List.eq_nil_or_concat' us' with rfl | ⟨us'', b, rfl⟩
    · -- the cell before the gap
      rw [hus, List.getLast?_concat, Option.some_inj] at hbefore
      rw [hbefore, Function.update_self, List.nil_append]
    · have hxb : x ≠ before := by
        rw [hus, ← List.cons_append, ← List.append_assoc, List.getLast?_concat, Option.some_inj] at hbefore
        have hus_nd := hus ▸ (List.nodup_append'.mp hnd).1
        intro heq
        exact (notMem_of_split hus_nd).2 (List.mem_append_right _ (heq ▸ hbefore ▸ List.mem_cons_self))
      rw [Function.update_of_ne hxb, h.next_eq ys x (us'' ++ [b] ++ d :: vs) (by rw [hus]; simp)]
      simp
  · have hxb : x ≠ before := by
      intro heq
      refine (List.nodup_append'.mp hnd).2.2 (List.mem_of_getLast? hbefore) ?_
      rw [hvs, ← heq]
      exact List.mem_append_right _ List.mem_cons_self
    rw [Function.update_of_ne hxb, h.next_eq (us ++ d :: ys') x zs (by rw [hvs]; simp)]

theorem Lists.prev_bypassed {ys zs : List ι} {x : ι} (hsplit : us ++ vs = ys ++ x :: zs) :
    l'.prev x = ys.getLast?.or (us ++ vs).getLast? := by
  have hnd := h.nodup_bypassed
  have hdisjoint := (List.nodup_append'.mp hnd).2.2
  rw [hl'.prev]
  rcases append_eq_split hsplit with ⟨us', hus, rfl⟩ | ⟨ys', rfl, hvs⟩
  · have hold := h.prev_eq ys x (us' ++ d :: vs) (by rw [hus]; simp)
    have hus_nd := hus ▸ (List.nodup_append'.mp hnd).1
    have hxus : x ∈ us := hus ▸ List.mem_append_right _ List.mem_cons_self
    cases ys with
    | nil =>
      -- the first cell, which points to the last one
      obtain rfl : first = x := by simpa [hus] using hfirst.symm
      cases vs with
      | nil => rw [List.head?_nil, Option.getD_none, Function.update_self, List.append_nil, hbefore]; rfl
      | cons after vs =>
        have hxa : first ≠ after := fun heq => hdisjoint hxus (heq ▸ List.mem_cons_self)
        rw [List.head?_cons, Option.getD_some, Function.update_of_ne hxa, hold]
        simp [List.getLast?_append, List.getLast?_cons]
    | cons y ys =>
      obtain rfl : first = y := by simpa [hus] using hfirst.symm
      have hxg : x ≠ vs.head?.getD first := by
        cases vs with
        | nil => exact fun heq => (notMem_of_split hus_nd).1 (heq ▸ List.mem_cons_self)
        | cons after vs => exact fun heq => hdisjoint hxus (heq ▸ List.mem_cons_self)
      rw [Function.update_of_ne hxg, hold, List.getLast?_eq_some_getLast (List.cons_ne_nil first ys), Option.some_or,
        Option.some_or]
  · have hold := h.prev_eq (us ++ d :: ys') x zs (by rw [hvs]; simp)
    cases ys' with
    | nil =>
      -- the cell after the gap
      rw [hvs, List.nil_append, List.head?_cons, Option.getD_some, Function.update_self, List.append_nil, hbefore,
        Option.some_or]
    | cons y ys' =>
      have hxy : x ≠ vs.head?.getD first := by
        have hvs_nd := hvs ▸ (List.nodup_append'.mp hnd).2.1
        rw [hvs, List.cons_append, List.head?_cons, Option.getD_some]
        exact fun heq => (notMem_of_split hvs_nd).1 (heq ▸ List.mem_cons_self)
      rw [Function.update_of_ne hxy, hold]
      simp [List.getLast?_append, List.getLast?_cons]

theorem Lists.of_bypassed : l'.Lists (us ++ vs) := by
  refine ⟨h.nodup_bypassed, ?_, fun _ _ _ => h.next_bypassed hbefore hl', fun _ _ _ =>
    h.prev_bypassed hfirst hbefore hl'⟩
  rw [hl'.head, h.head_eq, List.head?_append, List.head?_append, hfirst, Option.some_or, Option.some_or]

end Bypass

/-- **`DL_DELETE` of a later cell.** -/
theorem Lists.delete_later {us vs : List ι} (h : l.Lists (us ++ a :: vs)) (hus : us ≠ []) :
    ∃ l', l.delete a = some l' ∧ l'.Lists (us ++ vs) := by
  have hsplit := notMem_of_split h.nodup
  obtain ⟨before, hbefore⟩ : ∃ before, us.getLast? = some before := ⟨_, List.getLast?_eq_some_getLast hus⟩
  obtain ⟨first, hfirst⟩ : ∃ first, us.head? = some first := ⟨_, List.head?_eq_some_head hus⟩
  have hprev : l.prev a = some before := by rw [h.prev_eq us a vs rfl, hbefore, Option.some_or]
  have hnext : l.next a = vs.head? := h.next_eq us a vs rfl
  have hhead : l.head = some first := by rw [h.head_eq, List.head?_append, hfirst, Option.some_or]
  have hba : before ≠ a := fun heq => hsplit.1 (heq ▸ List.mem_of_getLast? hbefore)
  have hfa : ¬ some first = some a := fun heq =>
    hsplit.1 (Option.some.inj heq ▸ List.mem_of_head? hfirst)
  unfold Links.delete
  simp only [hprev, if_neg hba, hhead, if_neg hfa, Function.update_of_ne (Ne.symm hba), hnext]
  cases hvs : vs.head? with
  | some after =>
    refine ⟨_, rfl, h.of_bypassed hfirst hbefore ⟨hhead.symm, ?_, ?_⟩⟩
    · rw [hvs]
    · rw [hvs, Option.getD_some]
  | none =>
    refine ⟨_, rfl, h.of_bypassed hfirst hbefore ⟨hhead.symm, ?_, ?_⟩⟩
    · rw [hvs]
    · rw [hvs, Option.getD_none]

/-- **`DL_DELETE` erases.** -/
theorem Lists.delete (h : l.Lists xs) (ha : a ∈ xs) : ∃ l', l.delete a = some l' ∧ l'.Lists (xs.erase a) := by
  obtain ⟨us, vs, rfl⟩ := List.append_of_mem ha
  rw [List.erase_append_right _ (notMem_of_split h.nodup).1, List.erase_cons_head]
  cases us with
  | nil => exact h.delete_head
  | cons u us => exact h.delete_later (List.cons_ne_nil u us)

omit [DecidableEq ι] in
/-- **`DL_FOREACH` visits the cells in order.** -/
theorem Lists.foreach (h : l.Lists xs) {fuel : Nat} (hfuel : xs.length ≤ fuel) : l.foreach fuel l.head = some xs := by
  have hfrom : ∀ (zs ys : List ι) (fuel : Nat), xs = ys ++ zs → zs.length ≤ fuel →
      l.foreach fuel zs.head? = some zs := by
    intro zs
    induction zs with
    | nil =>
      intro ys fuel _ _
      cases fuel <;> rfl
    | cons z zs ih =>
      intro ys fuel hxs hlen
      cases fuel with
      | zero => simp at hlen
      | succ fuel =>
        have hnext := h.next_eq ys z zs hxs
        have hrest := ih (ys ++ [z]) fuel (by rw [hxs]; simp) (by simpa using hlen)
        rw [List.head?_cons, Links.foreach, hnext, hrest, Option.map_some]
  rw [h.head_eq]
  exact hfrom xs [] fuel rfl hfuel

end Links

end SkiVmm.Lib
