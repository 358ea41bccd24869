import Mathlib.Data.List.Sort
import SkiVmm.Lib.Table
import SkiVmm.Sched.Ops

/-!
# `Sched.Points` — preemption points and the count of instructions

An abstract machine for preemption points. Its state has the limits of the CPUs, the points not yet taken, the
count of instructions, and the counts at which priorities were inverted; an instruction is counted, and reaches
the limit or not (`BudgetStep`).

* `skiPreemptionGetAndClearLowest_spec` — a point is taken that is least among those not below the last one.
* `takePoints_sorted` — when each call starts from the result of the one before, all points are taken in their order.
* `Tracks` — the phases of a test: a point is pending, all points are done, or the limit is stuck at a point that
  was drawn twice, which the count has already passed.
-/

namespace SkiVmm.Sched

open Lib

/-! ## Taking a point -/

section Lowest
variable {cells : List Int} {m : Int}

theorem lowestPoint_concat (cells : List Int) (x m : Int) :
    lowestPoint (cells ++ [x]) m =
      match lowestPoint cells m with
      | none => if x ≥ m then some (x, cells.length) else none
      | some q => if q.1 > x ∧ x ≥ m then some (x, cells.length) else some q := by
  unfold lowestPoint
  rw [List.zipIdx_append, List.foldl_append, List.zipIdx_singleton, Nat.zero_add]
  rfl

/-- The index of a point, and that none of the points that are large enough is below it. -/
def IsLowest (cells : List Int) (m p : Int) (i : Nat) : Prop :=
  cells[i]? = some p ∧ m ≤ p ∧ ∀ x ∈ cells, m ≤ x → p ≤ x

theorem IsLowest.concat {p x : Int} {i : Nat} (h : IsLowest cells m p i) (hx : m ≤ x → p ≤ x) :
    IsLowest (cells ++ [x]) m p i := by
  obtain ⟨hi, hm, hleast⟩ := h
  obtain ⟨hlt, -⟩ := List.getElem?_eq_some_iff.mp hi
  refine ⟨by rw [List.getElem?_append_left hlt, hi], hm, ?_⟩
  intro y hy
  rcases List.mem_append.mp hy with hy | hy
  · exact hleast y hy
  · rw [List.mem_singleton.mp hy]
    exact hx

theorem isLowest_last {x : Int} (hm : m ≤ x) (h : ∀ y ∈ cells, m ≤ y → x ≤ y) :
    IsLowest (cells ++ [x]) m x cells.length := by
  refine ⟨by simp, hm, ?_⟩
  intro y hy hmy
  rcases List.mem_append.mp hy with hy | hy
  · exact h y hy hmy
  · exact Int.le_of_eq (List.mem_singleton.mp hy).symm

/-- What the loop finds. -/
theorem lowestPoint_spec (cells : List Int) (m : Int) :
    (lowestPoint cells m = none ∧ ∀ x ∈ cells, x < m) ∨
      ∃ p i, lowestPoint cells m = some (p, i) ∧ IsLowest cells m p i := by
  induction cells using List.reverseRecOn with
  | nil => exact .inl ⟨rfl, by simp⟩
  | append_singleton cells x ih =>
    rw [lowestPoint_concat]
    rcases ih with ⟨hfound, hsmall⟩ | ⟨p, i, hfound, hlowest⟩
    · rw [hfound]
      by_cases hx : x ≥ m
      · refine .inr ⟨x, cells.length, if_pos hx, isLowest_last hx ?_⟩
        intro y hy hmy
        exact absurd (hsmall y hy) (Int.not_lt.mpr hmy)
      · refine .inl ⟨if_neg hx, ?_⟩
        intro y hy
        rcases List.mem_append.mp hy with hy | hy
        · exact hsmall y hy
        · rw [List.mem_singleton.mp hy]
          exact Int.not_le.mp hx
    · rw [hfound]
      by_cases hx : p > x ∧ x ≥ m
      · refine .inr ⟨x, cells.length, if_pos hx, isLowest_last hx.2 ?_⟩
        intro y hy hmy
        exact Int.le_trans (Int.le_of_lt hx.1) (hlowest.2.2 y hy hmy)
      · refine .inr ⟨p, i, if_neg hx, hlowest.concat ?_⟩
        intro hmx
        exact Int.not_lt.mp fun hlt => hx ⟨hlt, hmx⟩

/-- **A point is taken**: the least one from `m` on, and one of its cells is cleared; or there is none. -/
theorem skiPreemptionGetAndClearLowest_spec (cells : List Int) (m : Int) :
    (skiPreemptionGetAndClearLowest cells m = (-1, cells) ∧ ∀ x ∈ cells, x < m) ∨
      ∃ p rest, skiPreemptionGetAndClearLowest cells m = (p, rest) ∧ p ∈ cells ∧ m ≤ p ∧
        (∀ x ∈ cells, m ≤ x → p ≤ x) ∧
        ∀ q : Int → Bool, q (-1) = false → rest.countP q + (if q p then 1 else 0) = cells.countP q := by
  unfold skiPreemptionGetAndClearLowest
  rcases lowestPoint_spec cells m with ⟨hfound, hsmall⟩ | ⟨p, i, hfound, hi, hm, hleast⟩
  · rw [hfound]
    exact .inl ⟨rfl, hsmall⟩
  · rw [hfound]
    refine .inr ⟨p, cells.set i (-1), rfl, List.mem_of_getElem? hi, hm, hleast, ?_⟩
    intro q hq
    have hcount := countP_set_add (p := q) hi (-1)
    rwa [hq] at hcount

/-- What a call does to the cells: the one with the point it returns is cleared, and the others stay. -/
theorem skiPreemptionGetAndClearLowest_cells (cells : List Int) (m : Int) :
    ((skiPreemptionGetAndClearLowest cells m).1 ≠ -1 → ∃ i,
        cells[i]? = some (skiPreemptionGetAndClearLowest cells m).1 ∧
        (skiPreemptionGetAndClearLowest cells m).2 = cells.set i (-1)) ∧
      ((skiPreemptionGetAndClearLowest cells m).1 = -1 → (skiPreemptionGetAndClearLowest cells m).2 = cells) := by
  unfold skiPreemptionGetAndClearLowest
  rcases lowestPoint_spec cells m with ⟨hfound, -⟩ | ⟨p, i, hfound, hi, -⟩
  · rw [hfound]
    exact ⟨fun hp => absurd rfl hp, fun _ => rfl⟩
  · rw [hfound]
    refine ⟨fun _ => ⟨i, hi, rfl⟩, ?_⟩
    -- the cell that was found had been cleared before
    intro hp
    obtain ⟨hlt, hget⟩ := List.getElem?_eq_some_iff.mp hi
    have hp' : p = -1 := hp
    show cells.set i (-1) = cells
    rw [← hp', ← hget, List.set_getElem_self]

end Lowest

/-! ## Taking all points -/

/-- `n` calls of `ski_preemption_get_and_clear_lowest`, the first with -1 and each other one with the result of the
    call before it: the last result, and the cells. -/
def takePoints (cells : List Int) : Nat → Int × List Int
  | 0 => (-1, cells)
  | n + 1 => skiPreemptionGetAndClearLowest (takePoints cells n).2 (takePoints cells n).1

/-- The cells that are not cleared have the points `left`, in this order from `m` on. If there are any, then a cleared
    cell is below `m`, and is not found. -/
structure Left (m : Int) (cells left : List Int) : Prop where
  sorted : left.Pairwise (· ≤ ·)
  pos : ∀ x ∈ left, 0 < x
  le : ∀ x ∈ left, m ≤ x
  count : ∀ x, 0 < x → cells.count x = left.count x
  cleared : ∀ x ∈ cells, x = -1 ∨ 0 < x
  above : left ≠ [] → ∀ x ∈ cells, m ≤ x → 0 < x

section Left
variable {m p : Int} {cells left : List Int}

theorem Left.mem_iff (h : Left m cells left) {x : Int} (hx : 0 < x) : x ∈ cells ↔ x ∈ left := by
  rw [← List.count_pos_iff, ← List.count_pos_iff, h.count x hx]

/-- The least point that is left is taken. -/
theorem Left.take (h : Left m cells (p :: left)) :
    ∃ rest, skiPreemptionGetAndClearLowest cells m = (p, rest) ∧ Left p rest left := by
  have hpos : 0 < p := h.pos p List.mem_cons_self
  have hmem : p ∈ cells := (h.mem_iff hpos).mpr List.mem_cons_self
  have hmp : m ≤ p := h.le p List.mem_cons_self
  have hleast : ∀ x ∈ left, p ≤ x := (List.pairwise_cons.mp h.sorted).1
  rcases skiPreemptionGetAndClearLowest_spec cells m with
    ⟨-, hsmall⟩ | ⟨p', rest, hcall, hmem', hmp', hleast', hcount⟩
  · exact absurd (hsmall p hmem) (Int.not_lt.mpr hmp)
  · have hpos' : 0 < p' := h.above (List.cons_ne_nil _ _) p' hmem' hmp'
    have hpp : p' = p := by
      refine Int.le_antisymm (hleast' p hmem hmp) ?_
      rcases List.mem_cons.mp ((h.mem_iff hpos').mp hmem') with rfl | hin
      · exact Int.le_refl _
      · exact hleast p' hin
    subst hpp
    have hcells : ∀ x ∈ rest, x = -1 ∨ x ∈ cells := by
      intro x hx
      by_cases hcleared : x = -1
      · exact .inl hcleared
      · have hx' := hcount (· == x) (by simpa using fun h => hcleared h.symm)
        have hone : 0 < rest.countP (· == x) := List.count_pos_iff.mpr hx
        exact .inr (List.count_pos_iff.mp (show 0 < cells.countP (· == x) by omega))
    have hrest : ∀ x ∈ rest, x = -1 ∨ 0 < x := by
      intro x hx
      rcases hcells x hx with hx | hx
      · exact .inl hx
      · exact h.cleared x hx
    have hleft : ∀ x, 0 < x → rest.count x = left.count x := by
      intro x hx
      have hx' := hcount (· == x) (by simpa using by omega)
      have hsum := h.count x hx
      rw [List.count_cons] at hsum
      unfold List.count at hsum ⊢
      omega
    refine ⟨rest, hcall, (List.pairwise_cons.mp h.sorted).2, ?_, hleast, hleft, hrest, ?_⟩
    · exact fun x hx => h.pos x (List.mem_cons_of_mem _ hx)
    · exact fun _ x _ hle => Int.lt_of_lt_of_le hpos hle

/-- When none is left, a call returns -1. -/
theorem Left.none_left (h : Left m cells []) :
    ∃ rest, skiPreemptionGetAndClearLowest cells m = (-1, rest) ∧ Left (-1) rest [] := by
  have hall : ∀ x ∈ cells, x = -1 := by
    intro x hx
    rcases h.cleared x hx with hx' | hx'
    · exact hx'
    · exact absurd ((h.mem_iff hx').mp hx) (by simp)
  have hnext : Left (-1) cells [] := by
    exact ⟨List.Pairwise.nil, by simp, by simp, h.count, h.cleared, fun hne => absurd rfl hne⟩
  have hone : (skiPreemptionGetAndClearLowest cells m).1 = -1 := by
    rcases skiPreemptionGetAndClearLowest_spec cells m with ⟨hcall, -⟩ | ⟨p, rest, hcall, hp, -⟩
    · rw [hcall]
    · rw [hcall]
      exact hall p hp
  have hcells := (skiPreemptionGetAndClearLowest_cells cells m).2 hone
  exact ⟨cells, Prod.ext hone hcells, hnext⟩

theorem Left.start {sorted : List Int} (hperm : sorted.Perm cells) (hsorted : sorted.Pairwise (· ≤ ·))
    (hpos : ∀ x ∈ cells, 0 < x) : Left (-1) cells sorted := by
  have hpos' : ∀ x ∈ sorted, 0 < x := fun x hx => hpos x (hperm.mem_iff.mp hx)
  refine ⟨hsorted, hpos', ?_, ?_, fun x hx => .inr (hpos x hx), fun _ x hx _ => hpos x hx⟩
  · intro x hx
    have := hpos' x hx
    omega
  · exact fun x _ => (hperm.count_eq x).symm

/-- One call takes the first of the points that are left. -/
theorem Left.call (h : Left m cells left) :
    (skiPreemptionGetAndClearLowest cells m).1 = left.headD (-1) ∧
      Left (skiPreemptionGetAndClearLowest cells m).1 (skiPreemptionGetAndClearLowest cells m).2 left.tail := by
  cases left with
  | nil =>
    obtain ⟨rest, hcall, hnext⟩ := h.none_left
    rw [hcall]
    exact ⟨rfl, hnext⟩
  | cons p left =>
    obtain ⟨rest, hcall, hnext⟩ := h.take
    rw [hcall]
    exact ⟨rfl, hnext⟩

/-- After `n` calls, the first `n` points in the order are taken. -/
theorem Left.run {sorted : List Int} (h : Left (-1) cells sorted) (n : Nat) :
    Left (takePoints cells n).1 (takePoints cells n).2 (sorted.drop n) := by
  induction n with
  | zero => exact h
  | succ n ih =>
    rw [← List.tail_drop]
    exact ih.call.2

theorem Left.result {sorted : List Int} (h : Left (-1) cells sorted) (n : Nat) :
    (takePoints cells (n + 1)).1 = sorted.getD n (-1) := by
  rw [List.getD_eq_getElem?_getD, ← List.head?_drop, ← List.headD_eq_head?_getD]
  exact (h.run n).call.1

/-- **All points are taken in their order**, each as often as it was drawn, and -1 is returned after that. A call that
    returns a point clears one cell with it; no other cell changes. -/
theorem takePoints_sorted (hpos : ∀ x ∈ cells, 0 < x) :
    ∃ sorted : List Int, sorted.Perm cells ∧ sorted.Pairwise (· ≤ ·) ∧
      (∀ n, (takePoints cells (n + 1)).1 = sorted.getD n (-1)) ∧
      ∀ n, ((takePoints cells (n + 1)).1 ≠ -1 → ∃ i,
          (takePoints cells n).2[i]? = some (takePoints cells (n + 1)).1 ∧
          (takePoints cells (n + 1)).2 = (takePoints cells n).2.set i (-1)) ∧
        ((takePoints cells (n + 1)).1 = -1 → (takePoints cells (n + 1)).2 = (takePoints cells n).2) := by
  have hperm : (cells.insertionSort (· ≤ ·)).Perm cells := List.perm_insertionSort _ _
  have hsorted : (cells.insertionSort (· ≤ ·)).Pairwise (· ≤ ·) := List.pairwise_insertionSort _ _
  refine ⟨cells.insertionSort (· ≤ ·), hperm, hsorted, (Left.start hperm hsorted hpos).result, ?_⟩
  intro n
  exact skiPreemptionGetAndClearLowest_cells (takePoints cells n).2 (takePoints cells n).1

/-- A point that was drawn twice. -/
theorem takePoints_sorted_twice : ∃ sorted : List Int, sorted.Perm [30, 10, 30] ∧ sorted.Pairwise (· ≤ ·) ∧
    (∀ n, (takePoints [30, 10, 30] (n + 1)).1 = sorted.getD n (-1)) ∧
    ∀ n, ((takePoints [30, 10, 30] (n + 1)).1 ≠ -1 → ∃ i,
        (takePoints [30, 10, 30] n).2[i]? = some (takePoints [30, 10, 30] (n + 1)).1 ∧
        (takePoints [30, 10, 30] (n + 1)).2 = (takePoints [30, 10, 30] n).2.set i (-1)) ∧
      ((takePoints [30, 10, 30] (n + 1)).1 = -1 →
        (takePoints [30, 10, 30] (n + 1)).2 = (takePoints [30, 10, 30] n).2) :=
  takePoints_sorted (by decide)

end Left

/-! ## The machine -/

structure Budget where
  /-- Of each CPU, whether it is active and its `nr_max_instr`. -/
  limits : List (Bool × Int)
  preemptions : List Int
  total : Int
  inverted : List Int

/-- Priorities are inverted, and all active CPUs get the next point as their limit. -/
def Budget.invert (b : Budget) : Budget :=
  let taken := skiPreemptionGetAndClearLowest b.preemptions (b.total + 1)
  { limits := b.limits.map fun l => if l.1 then (l.1, taken.1) else l
    preemptions := taken.2
    total := b.total + 1
    inverted := b.inverted ++ [b.total + 1] }

inductive BudgetStep (b : Budget) : Budget → Prop
  | same : BudgetStep b b
  /-- An instruction on an active CPU is not yet at the limit. -/
  | count {m : Int} (hm : (true, m) ∈ b.limits) (hne : b.total + 1 ≠ m) :
      BudgetStep b { b with total := b.total + 1 }
  /-- An instruction on an active CPU is at the limit. -/
  | invert (hm : (true, b.total + 1) ∈ b.limits) : BudgetStep b b.invert

/-- All active CPUs have the limit `m`. -/
def Budget.Shared (b : Budget) (m : Int) : Prop := ∀ l ∈ b.limits, l.1 = true → l.2 = m

theorem Budget.shared_invert (b : Budget) :
    b.invert.Shared (skiPreemptionGetAndClearLowest b.preemptions (b.total + 1)).1 := by
  intro l hl hactive
  obtain ⟨l', -, rfl⟩ := List.mem_map.mp hl
  split_ifs at hactive ⊢ with hidle
  · rfl
  · exact absurd hactive hidle

/-! ## The phases of a test -/

/-- The next point is ahead. The ones before it were drawn once; the cells have what comes after it. -/
structure Pending (ps : List Int) (b : Budget) (m : Int) : Prop where
  shared : b.Shared m
  total_lt : b.total < m
  mem : m ∈ ps
  hit_iff : ∀ p, p ∈ b.inverted ↔ p ∈ ps ∧ p < m
  cells : ∀ x, m ≤ x → b.preemptions.count x + (if m = x then 1 else 0) = ps.count x
  once : ∀ p ∈ ps, p < m → ps.count p = 1

/-- All points were drawn once, and are behind. -/
structure Done (ps : List Int) (b : Budget) : Prop where
  shared : b.Shared (-1)
  hit_iff : ∀ p, p ∈ b.inverted ↔ p ∈ ps
  once : ∀ p ∈ ps, ps.count p = 1

/-- The limit is a point that was drawn twice, and the count is past it. -/
structure Stuck (ps : List Int) (b : Budget) (m : Int) : Prop where
  shared : b.Shared m
  le_total : m ≤ b.total
  hit_iff : ∀ p, p ∈ b.inverted ↔ p ∈ ps ∧ p ≤ m
  twice : 2 ≤ ps.count m
  once : ∀ p ∈ ps, p < m → ps.count p = 1

/-- Where a test with the points `ps` stands. -/
inductive Phase (ps : List Int) (b : Budget) : Prop
  | pending (m : Int) (h : Pending ps b m)
  | done (h : Done ps b)
  | stuck (m : Int) (h : Stuck ps b m)

/-- **The invariant of preemption points.** -/
structure Tracks (ps : List Int) (b : Budget) : Prop where
  total_nonneg : 0 ≤ b.total
  nodup : b.inverted.Nodup
  phase : Phase ps b

section Steps
variable {ps : List Int} {b b' : Budget} {m : Int}

/-- The limit of some active CPU is the shared one. -/
theorem Budget.Shared.eq {m' : Int} (h : b.Shared m) (hm : (true, m') ∈ b.limits) : m' = m := h _ hm rfl

/-- Below the limit nothing changes but the count. -/
theorem Phase.count (h : Phase ps b) (hm : (true, m) ∈ b.limits) (hne : b.total + 1 ≠ m) :
    Phase ps { b with total := b.total + 1 } := by
  cases h with
  | pending m' h =>
    obtain rfl := h.shared.eq hm
    have hlt := h.total_lt
    exact .pending m { h with total_lt := show b.total + 1 < m by omega }
  | done h => exact .done { h with }
  | stuck m' h =>
    have hle := h.le_total
    exact .stuck m' { h with le_total := show m' ≤ b.total + 1 by omega }

/-! ### The pending point is reached -/

theorem Pending.hit_invert (h : Pending ps b (b.total + 1)) (p : Int) :
    p ∈ b.invert.inverted ↔ p ∈ ps ∧ p ≤ b.total + 1 := by
  show p ∈ b.inverted ++ [b.total + 1] ↔ _
  rw [List.mem_append, List.mem_singleton, h.hit_iff p]
  constructor
  · rintro (⟨hp, hlt⟩ | rfl)
    · exact ⟨hp, Int.le_of_lt hlt⟩
    · exact ⟨h.mem, Int.le_refl _⟩
  · rintro ⟨hp, hle⟩
    rcases Int.lt_or_eq_of_le hle with hlt | heq
    · exact .inl ⟨hp, hlt⟩
    · exact .inr heq

theorem Pending.mem_cells (h : Pending ps b m) {p : Int} (hlt : m < p) : p ∈ b.preemptions ↔ p ∈ ps := by
  have hcount := h.cells p (Int.le_of_lt hlt)
  rw [if_neg (Int.ne_of_lt hlt), Nat.add_zero] at hcount
  rw [← List.count_pos_iff, ← List.count_pos_iff, hcount]

/-- A point with no cell left was drawn once. -/
theorem Pending.count_eq_one (h : Pending ps b m) (hnone : m ∉ b.preemptions) : ps.count m = 1 := by
  rw [← h.cells m (Int.le_refl m), List.count_eq_zero.mpr hnone, if_pos rfl]

theorem Pending.invert_done (h : Pending ps b (b.total + 1)) (hshared : b.invert.Shared (-1))
    (hsmall : ∀ x ∈ b.preemptions, x < b.total + 1) : Done ps b.invert := by
  have hbelow : ∀ p ∈ ps, p ≤ b.total + 1 := by
    intro p hp
    by_contra hgt
    have hin := (h.mem_cells (Int.not_le.mp hgt)).mpr hp
    exact hgt (Int.le_of_lt (hsmall p hin))
  refine ⟨hshared, ?_, ?_⟩
  · intro p
    rw [h.hit_invert p]
    exact ⟨And.left, fun hp => ⟨hp, hbelow p hp⟩⟩
  · intro p hp
    rcases Int.lt_or_eq_of_le (hbelow p hp) with hlt | rfl
    · exact h.once p hp hlt
    · exact h.count_eq_one fun hin => Int.lt_irrefl _ (hsmall _ hin)

theorem Pending.invert_pending (h : Pending ps b (b.total + 1)) {next : Int} {rest : List Int}
    (hshared : b.invert.Shared next) (hrest : b.invert.preemptions = rest) (hin : next ∈ b.preemptions)
    (hgt : b.total + 1 < next) (hleast : ∀ x ∈ b.preemptions, b.total + 1 ≤ x → next ≤ x)
    (hcount : ∀ q : Int → Bool, q (-1) = false →
      rest.countP q + (if q next then 1 else 0) = b.preemptions.countP q)
    (htotal : 0 ≤ b.total) : Pending ps b.invert next := by
  -- no point lies between this one and the next
  have hbetween : ∀ p ∈ ps, p < next → p ≤ b.total + 1 := by
    intro p hp hlt
    by_contra hnot
    have hcell := (h.mem_cells (Int.not_le.mp hnot)).mpr hp
    exact Int.not_lt.mpr (hleast p hcell (by omega)) hlt
  refine ⟨hshared, hgt, (h.mem_cells hgt).mp hin, ?_, ?_, ?_⟩
  · intro p
    rw [h.hit_invert p]
    exact ⟨fun ⟨hp, hle⟩ => ⟨hp, Int.lt_of_le_of_lt hle hgt⟩, fun ⟨hp, hlt⟩ => ⟨hp, hbetween p hp hlt⟩⟩
  · intro x hx
    have hx' := hcount (· == x) (by simp; omega)
    rw [hrest, ← h.cells x (by omega), if_neg (show ¬ b.total + 1 = x by omega), Nat.add_zero]
    simpa [List.count] using hx'
  · intro p hp hlt
    rcases Int.lt_or_eq_of_le (hbetween p hp hlt) with hlt | rfl
    · exact h.once p hp hlt
    · exact h.count_eq_one fun hcell => Int.not_lt.mpr (hleast _ hcell (Int.le_refl _)) hgt

theorem Pending.invert_stuck (h : Pending ps b (b.total + 1)) (hshared : b.invert.Shared (b.total + 1))
    (hin : b.total + 1 ∈ b.preemptions) : Stuck ps b.invert (b.total + 1) := by
  refine ⟨hshared, Int.le_refl _, h.hit_invert, ?_, h.once⟩
  have hcount := h.cells _ (Int.le_refl (b.total + 1))
  rw [if_pos rfl] at hcount
  have hpos := List.count_pos_iff.mpr hin
  omega

/-- At the limit the test passes to the next point, to the end, or to where it is stuck. -/
theorem Pending.invert (h : Pending ps b (b.total + 1)) (htotal : 0 ≤ b.total) : Phase ps b.invert := by
  have hnext := b.shared_invert
  have hrest : b.invert.preemptions = (skiPreemptionGetAndClearLowest b.preemptions (b.total + 1)).2 := rfl
  rcases skiPreemptionGetAndClearLowest_spec b.preemptions (b.total + 1) with
    ⟨htaken, hsmall⟩ | ⟨next, rest, htaken, hin, hle, hleast, hcount⟩
  · rw [htaken] at hnext
    exact .done (h.invert_done hnext hsmall)
  · rw [htaken] at hnext hrest
    rcases Int.lt_or_eq_of_le hle with hgt | rfl
    · exact .pending next (h.invert_pending hnext hrest hin hgt hleast hcount htotal)
    · exact .stuck _ (h.invert_stuck hnext hin)

/-- The limit is reached only at a pending point. -/
theorem Tracks.pending_of_limit (h : Tracks ps b) (hm : (true, b.total + 1) ∈ b.limits) :
    Pending ps b (b.total + 1) := by
  have htotal := h.total_nonneg
  cases h.phase with
  | pending m h =>
    rw [h.shared.eq hm]
    exact h
  | done h =>
    have := h.shared.eq hm
    omega
  | stuck m h =>
    have := h.shared.eq hm
    have := h.le_total
    omega

/-- **Steps keep the invariant.** -/
theorem Tracks.step (h : Tracks ps b) (hstep : BudgetStep b b') : Tracks ps b' := by
  have htotal := h.total_nonneg
  cases hstep with
  | same => exact h
  | count hm hne => exact ⟨show 0 ≤ b.total + 1 by omega, h.nodup, h.phase.count hm hne⟩
  | invert hm =>
    have hpending := h.pending_of_limit hm
    have hfresh : b.total + 1 ∉ b.inverted := fun hin => Int.lt_irrefl _ ((hpending.hit_iff _).mp hin).2
    refine ⟨show 0 ≤ b.total + 1 by omega, ?_, hpending.invert htotal⟩
    refine List.nodup_append.mpr ⟨h.nodup, List.nodup_singleton _, ?_⟩
    intro x hx y hy heq
    rw [List.mem_singleton.mp hy] at heq
    exact hfresh (heq ▸ hx)

/-! ### What it says -/

theorem Tracks.mem_of_hit (h : Tracks ps b) {p : Int} (hp : p ∈ b.inverted) : p ∈ ps := by
  cases h.phase with
  | pending m h => exact ((h.hit_iff p).mp hp).1
  | done h => exact (h.hit_iff p).mp hp
  | stuck m h => exact ((h.hit_iff p).mp hp).1

/-- A point that was drawn twice is pending or beyond, or the test is stuck at it or before. -/
theorem Phase.le_of_twice (h : Phase ps b) {v : Int} (hv : 2 ≤ ps.count v) :
    ∃ m ≤ v, Pending ps b m ∨ Stuck ps b m := by
  have hmem : v ∈ ps := List.count_pos_iff.mp (by omega)
  cases h with
  | pending m h =>
    refine ⟨m, ?_, .inl h⟩
    by_contra hlt
    have := h.once v hmem (by omega)
    omega
  | done h =>
    have := h.once v hmem
    omega
  | stuck m h =>
    refine ⟨m, ?_, .inr h⟩
    by_contra hlt
    have := h.once v hmem (by omega)
    omega

/-- **Priorities are inverted once at each point behind, and nowhere else, exactly as long as no point behind is
    larger than one that was drawn twice.** -/
theorem Tracks.exact_iff (h : Tracks ps b) :
    ((∀ p ∈ ps, p ≤ b.total → b.inverted.count p = 1) ∧ ∀ p ∈ b.inverted, p ∈ ps) ↔
      ∀ v ∈ ps, ∀ p ∈ ps, 2 ≤ ps.count v → v < p → b.total < p := by
  constructor
  · rintro ⟨hall, -⟩ v hv p hp htwice hlt
    by_contra hle
    have hhit : p ∈ b.inverted := List.count_pos_iff.mp (by rw [hall p hp (by omega)]; omega)
    obtain ⟨m, hm, hpending | hstuck⟩ := h.phase.le_of_twice htwice
    · have := ((hpending.hit_iff p).mp hhit).2
      omega
    · have := ((hstuck.hit_iff p).mp hhit).2
      omega
  · intro hahead
    refine ⟨?_, fun p => h.mem_of_hit⟩
    intro p hp hle
    refine List.count_eq_one_of_mem h.nodup ?_
    cases h.phase with
    | pending m h =>
      have := h.total_lt
      exact (h.hit_iff p).mpr ⟨hp, by omega⟩
    | done h => exact (h.hit_iff p).mpr hp
    | stuck m h =>
      refine (h.hit_iff p).mpr ⟨hp, ?_⟩
      by_contra hgt
      have := hahead m (List.count_pos_iff.mp (Nat.lt_of_lt_of_le Nat.zero_lt_two h.twice)) p hp h.twice (by omega)
      omega

end Steps

end SkiVmm.Sched
