import Mathlib.Algebra.GroupWithZero.Nat
import Mathlib.Data.List.Perm.Basic
import Mathlib.Data.List.Nodup

/-!
# `Lib.Pool` — a pool that runs numbered jobs, a bounded number at a time

Jobs `0, 1, 2, …` are started one after the other. When `c` of them are running, one is collected before the
next is started; which one is up to `pick`. After the last start, further jobs are collected (`drain`).

`live` and `collected` say which jobs are running and which job is collected when; `collected_append_live`
is the bookkeeping that makes every job either running or collected exactly once.
-/

namespace SkiVmm.Lib.Pool

variable {c : Nat} {pick : Nat → Nat}

/-- The jobs running before job `r` is started. -/
def live (c : Nat) (pick : Nat → Nat) : Nat → List Nat
  | 0 => []
  | r + 1 =>
    let l := live c pick r ++ [r]
    if l.length < c then l else l.eraseIdx (pick (r + 1 - c) % l.length)

/-- The job collected between the starts of job `r` and job `r + 1`, if the pool is full there. -/
def collected (c : Nat) (pick : Nat → Nat) (r : Nat) : Option Nat :=
  let l := live c pick r ++ [r]
  if l.length < c then none else l[pick (r + 1 - c) % l.length]?

/-- Collect `n` of the jobs `l`, the first of them with choice number `w`: those collected and the rest. -/
def drain (pick : Nat → Nat) : Nat → Nat → List Nat → List Nat × List Nat
  | _, 0, l => ([], l)
  | w, n + 1, l =>
    match l[pick w % l.length]? with
    | none => ([], l)
    | some j => ((drain pick (w + 1) n (l.eraseIdx (pick w % l.length))).1.cons j,
        (drain pick (w + 1) n (l.eraseIdx (pick w % l.length))).2)

/-- Between two starts, the jobs that were running are still running or collected. -/
theorem collected_append_live_succ (c : Nat) (pick : Nat → Nat) (r : Nat) :
    ((collected c pick r).toList ++ live c pick (r + 1)).Perm (live c pick r ++ [r]) := by
  simp only [collected, live]
  split_ifs with h
  · exact List.Perm.refl _
  · have hlt : pick (r + 1 - c) % (live c pick r ++ [r]).length < (live c pick r ++ [r]).length :=
      Nat.mod_lt _ (by simp)
    rw [List.getElem?_eq_getElem hlt]
    exact List.getElem_cons_eraseIdx_perm hlt

/-- **Every job started so far is running or was collected, and only once.** -/
theorem collected_append_live (c : Nat) (pick : Nat → Nat) (r : Nat) :
    ((List.range r).filterMap (collected c pick) ++ live c pick r).Perm (List.range r) := by
  induction r with
  | zero => exact List.Perm.refl _
  | succ r ih =>
    rw [List.range_succ, List.filterMap_append, List.append_assoc]
    have hone : List.filterMap (collected c pick) [r] = (collected c pick r).toList := by
      cases h : collected c pick r <;> simp [h]
    rw [hone]
    refine ((collected_append_live_succ c pick r).append_left _).trans ?_
    rw [← List.append_assoc]
    exact ih.append_right [r]

theorem lt_of_mem_live {r j : Nat} (h : j ∈ live c pick r) : j < r :=
  List.mem_range.mp ((collected_append_live c pick r).mem_iff.mp (List.mem_append_right _ h))

/-- The running jobs weigh no more than all jobs started so far. -/
theorem sum_live_le (c : Nat) (pick f : Nat → Nat) (r : Nat) :
    ((live c pick r).map f).sum ≤ ((List.range r).map f).sum := by
  have h := ((collected_append_live c pick r).map f).sum_nat
  rw [List.map_append, List.sum_append] at h
  omega

/-- Collecting a job takes its weight off the running ones. -/
theorem sum_live_succ (f : Nat → Nat) {r j : Nat} (h : collected c pick r = some j) :
    f j + ((live c pick (r + 1)).map f).sum = ((live c pick r ++ [r]).map f).sum := by
  have hsum := ((collected_append_live_succ c pick r).map f).sum_nat
  rwa [h, Option.toList_some, List.singleton_append, List.map_cons, List.sum_cons] at hsum

/-- One place stays free for the job about to be started. -/
theorem length_live (hc : 0 < c) (r : Nat) : (live c pick r).length = min r (c - 1) := by
  induction r with
  | zero => simp [live]
  | succ r ih =>
    simp only [live]
    have hlen : (live c pick r ++ [r]).length = min r (c - 1) + 1 := by simp [ih]
    split_ifs with h
    · omega
    · rw [List.length_eraseIdx_of_lt (Nat.mod_lt _ (by simp)), hlen]
      omega

theorem length_started_lt (hc : 0 < c) {r : Nat} (hr : ¬ c ≤ r + 1) : (live c pick r ++ [r]).length < c := by
  rw [List.length_append, length_live hc, List.length_singleton]
  omega

/-- Nothing is collected before the pool is full. -/
theorem collected_eq_none (hc : 0 < c) {r : Nat} (hr : ¬ c ≤ r + 1) : collected c pick r = none := by
  simp only [collected]
  rw [if_pos (length_started_lt hc hr)]

theorem live_succ_eq_append (hc : 0 < c) {r : Nat} (hr : ¬ c ≤ r + 1) : live c pick (r + 1) = live c pick r ++ [r] := by
  simp only [live]
  rw [if_pos (length_started_lt hc hr)]

theorem filterMap_collected_succ (c : Nat) (pick : Nat → Nat) (r : Nat) :
    (List.range (r + 1)).filterMap (collected c pick)
      = (List.range r).filterMap (collected c pick) ++ (collected c pick r).toList := by
  rw [List.range_succ, List.filterMap_append]
  cases hr : collected c pick r <;> simp [hr]

/-- A drain sorts the jobs into collected ones and the rest. -/
theorem drain_perm (w n : Nat) (l : List Nat) :
    ((drain pick w n l).1 ++ (drain pick w n l).2).Perm l := by
  induction n generalizing w l with
  | zero => exact List.Perm.refl _
  | succ n ih =>
    simp only [drain]
    split
    · exact List.Perm.refl _
    · next j hj =>
      obtain ⟨hlt, rfl⟩ := List.getElem?_eq_some_iff.mp hj
      exact ((ih (w + 1) _).cons _).trans (List.getElem_cons_eraseIdx_perm hlt)

/-- A drain of `n` jobs leaves the number of jobs less `n`. -/
theorem length_drain (w n : Nat) (l : List Nat) : (drain pick w n l).2.length = l.length - n := by
  induction n generalizing w l with
  | zero => rfl
  | succ n ih =>
    simp only [drain]
    split
    · next hj =>
      have hlen := List.getElem?_eq_none_iff.mp hj
      rcases Nat.eq_zero_or_pos l.length with h0 | hpos
      · simp [h0]
      · exact absurd hlen (Nat.not_le.mpr (Nat.mod_lt _ hpos))
    · next j hj =>
      obtain ⟨hlt, -⟩ := List.getElem?_eq_some_iff.mp hj
      rw [ih, List.length_eraseIdx_of_lt hlt]
      omega

/-- Of the first `n` jobs each is in `l` exactly once, if and only if the rest is empty. -/
theorem forall_count_eq_one_iff {n : Nat} {l rest : List Nat} (h : (l ++ rest).Perm (List.range n)) :
    (∀ j < n, l.count j = 1) ↔ rest = [] := by
  have hcount : ∀ j < n, l.count j + rest.count j = 1 := by
    intro j hj
    rw [← List.count_append, h.count_eq]
    exact List.count_eq_one_of_mem List.nodup_range (List.mem_range.mpr hj)
  constructor
  · intro hall
    refine List.eq_nil_iff_forall_not_mem.mpr ?_
    intro j hj
    have hlt : j < n := List.mem_range.mp (h.mem_iff.mp (List.mem_append_right _ hj))
    have hpos := List.count_pos_iff.mpr hj
    have := hcount j hlt
    have := hall j hlt
    omega
  · rintro rfl j hj
    exact hcount j hj

end SkiVmm.Lib.Pool
