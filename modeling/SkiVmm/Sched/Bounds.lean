import SkiVmm.Sched.Selection

/-!
# `Sched.Bounds` — priorities stay far below the priorities of threads that wait

Every inversion adds at most one to the largest priority, there are at most 16 of them in a test, and starvation
adjustments stop below 500. So the effective priority of an eligible thread stays below
`SKI_LIVENESS_PRIORITY_NOPAUSE_LOOP`, and the selection succeeds whenever a thread is eligible
(`Reachable.findNextRunnable_of_eligible`).
-/

namespace SkiVmm.Sched

open Lib

/-! ## The number of inversions -/

/-- Points that are not used up. -/
def Budget.left (b : Budget) : Nat := b.preemptions.countP fun p => decide (0 ≤ p)

/-- An inversion uses up a point, or is the last one. -/
structure Limited (b : Budget) : Prop where
  total_nonneg : 0 ≤ b.total
  le : b.inverted.length + b.left ≤ 15 ∨ b.Shared (-1) ∧ b.inverted.length + b.left ≤ 16

theorem Limited.invert {b : Budget} (h : Limited b) (hm : (true, b.total + 1) ∈ b.limits) : Limited b.invert := by
  have htotal := h.total_nonneg
  have hle : b.inverted.length + b.left ≤ 15 := by
    refine h.le.resolve_right ?_
    rintro ⟨hshared, -⟩
    have := hshared.eq hm
    omega
  have hlen : b.invert.inverted.length = b.inverted.length + 1 := by simp [Budget.invert]
  have hnext := b.shared_invert
  have hleft : b.invert.left = (skiPreemptionGetAndClearLowest b.preemptions (b.total + 1)).2.countP
      fun p => decide (0 ≤ p) := rfl
  refine ⟨show 0 ≤ b.total + 1 by omega, ?_⟩
  rcases skiPreemptionGetAndClearLowest_spec b.preemptions (b.total + 1) with
    ⟨htaken, -⟩ | ⟨p, rest, htaken, -, hp, -, hcount⟩
  · rw [htaken] at hnext hleft
    refine .inr ⟨hnext, ?_⟩
    rw [hlen, hleft]
    show b.inverted.length + 1 + b.left ≤ 16
    omega
  · rw [htaken] at hleft
    refine .inl ?_
    have hused := hcount (fun p => decide (0 ≤ p)) rfl
    rw [if_pos (decide_eq_true (show 0 ≤ p by omega))] at hused
    rw [hlen, hleft]
    unfold Budget.left at hle
    show b.inverted.length + 1 + rest.countP _ ≤ 15
    omega

theorem Limited.step {b b' : Budget} (h : Limited b) (hstep : BudgetStep b b') : Limited b' := by
  cases hstep with
  | same => exact h
  | count _ _ =>
    have htotal := h.total_nonneg
    exact ⟨show 0 ≤ b.total + 1 by omega, h.le⟩
  | invert hm => exact h.invert hm

theorem skiPreemptionGetAndClearLowest_length (cells : List Int) (m : Int) :
    (skiPreemptionGetAndClearLowest cells m).2.length = cells.length := by
  unfold skiPreemptionGetAndClearLowest
  split
  · rfl
  · exact List.length_set

theorem Setup.start_limited (setup : Setup) : Limited setup.start.budget := by
  refine ⟨Int.le_refl 0, .inl ?_⟩
  have hlen : setup.firstPoint.2.length = setup.preemptions.length := by
    unfold Setup.firstPoint
    split_ifs
    · exact skiPreemptionGetAndClearLowest_length _ _
    · rfl
  have hcount : setup.start.budget.left ≤ setup.firstPoint.2.length := List.countP_le_length
  have := setup.preemptions_length
  show 0 + setup.start.budget.left ≤ 15
  omega

/-! ## Priorities -/

/-- The largest priority grows with the number of inversions. -/
structure Light (w : List (Int × Int)) (n : Nat) : Prop where
  priority_le : ∀ x ∈ w, x.1 ≤ 511 + n
  adjust_lt : ∀ x ∈ w, x.2 < debugMaxAdjust

theorem Light.step {w w' : List (Int × Int)} {n n' : Nat} (h : Light w n) (hstep : WeightStep w n w' n') :
    Light w' n' := by
  cases hstep with
  | same => exact h
  | @adjust i p a hi hlt =>
    have hmem : (p, a) ∈ w := List.mem_of_getElem? hi
    constructor
    · intro x hx
      rcases List.mem_or_eq_of_mem_set hx with hx | rfl
      · exact h.priority_le x hx
      · exact h.priority_le (p, a) hmem
    · intro x hx
      rcases List.mem_or_eq_of_mem_set hx with hx | rfl
      · exact h.adjust_lt x hx
      · exact hlt
  | @demote i lowest hlowest =>
    have hle : lowest ≤ 511 + n := hlowest _ (by omega) h.priority_le
    -- the demoted thread keeps its adjustment, the others keep all
    have hcases : ∀ x ∈ w.modify i (fun x => (lowest + 1, x.2)), ∃ y ∈ w, x = y ∨ x = (lowest + 1, y.2) := by
      intro x hx
      obtain ⟨j, hj⟩ := List.mem_iff_getElem?.mp hx
      rw [List.getElem?_modify] at hj
      obtain ⟨y, hy, hxy⟩ := Option.map_eq_some_iff.mp hj
      refine ⟨y, List.mem_of_getElem? hy, ?_⟩
      split_ifs at hxy
      · exact .inr hxy.symm
      · exact .inl hxy.symm
    constructor
    · intro x hx
      obtain ⟨y, hy, rfl | rfl⟩ := hcases x hx
      · have := h.priority_le x hy
        omega
      · show lowest + 1 ≤ 511 + (n + 1 : Nat)
        omega
    · intro x hx
      obtain ⟨y, hy, rfl | rfl⟩ := hcases x hx
      · exact h.adjust_lt x hy
      · exact h.adjust_lt y hy

theorem Setup.start_light (setup : Setup) : Light setup.start.weights 0 := by
  have hweight : ∀ x ∈ setup.start.weights, ∃ i < setup.table.length, x = ((i : Int), 0) := by
    intro x hx
    obtain ⟨tc, htc, rfl⟩ := List.mem_map.mp hx
    obtain ⟨i, hi⟩ := List.mem_iff_getElem?.mp htc
    obtain ⟨e, he, rfl⟩ := Option.map_eq_some_iff.mp ((setup.getElem?_threads i).symm.trans hi)
    exact ⟨i, (List.getElem?_eq_some_iff.mp he).1, rfl⟩
  have hlen : setup.table.length ≤ 512 := setup.table_length
  constructor
  · intro x hx
    obtain ⟨i, hi, rfl⟩ := hweight x hx
    show (i : Int) ≤ 511 + (0 : Nat)
    omega
  · intro x hx
    obtain ⟨i, -, rfl⟩ := hweight x hx
    show (0 : Int) < debugMaxAdjust
    decide

/-- **Priorities in a test.** -/
theorem Reachable.priority_le {setup : Setup} {s : State} (h : Reachable setup s) {tc : ThreadContext}
    (htc : tc ∈ s.threads) : tc.priority ≤ 527 ∧ tc.priorityAdjust < debugMaxAdjust := by
  obtain ⟨events, hrun⟩ := h
  have hinv : Limited s.budget ∧ Light s.weights s.inverted.length := by
    refine run_invariant (P := fun s => Limited s.budget ∧ Light s.weights s.inverted.length) hrun
      ⟨setup.start_limited, setup.start_light⟩ ?_
    rintro s ev t - ⟨hlimited, hlight⟩ - heffect
    exact ⟨hlimited.step heffect.budget, hlight.step heffect.weights⟩
  obtain ⟨hlimited, hlight⟩ := hinv
  have hmem : tc.weight ∈ s.weights := List.mem_map_of_mem htc
  have hinversions : s.inverted.length ≤ 16 := by
    have hle := hlimited.le
    have hb : s.budget.inverted = s.inverted := rfl
    rw [hb] at hle
    omega
  have hpriority : tc.priority ≤ 511 + s.inverted.length := hlight.priority_le tc.weight hmem
  exact ⟨by omega, hlight.adjust_lt tc.weight hmem⟩

/-- The effective priority of an eligible thread has no part for waiting. -/
theorem eligible_priority {s : State} {tc : ThreadContext} (h : eligible s tc = true) :
    skiThreadsCalculatePriority s tc = tc.priority + tc.priorityAdjust := by
  simp only [eligible, ThreadContext.waitsOnRs, Bool.and_eq_true, Bool.not_eq_true', Bool.or_eq_false_iff] at h
  obtain ⟨⟨⟨-, ⟨hrs, hpause⟩, hhlt⟩, -⟩, -⟩ := h
  simp [skiThreadsCalculatePriority, hrs, hpause, hhlt]

/-- The selection succeeds while priorities are small. -/
theorem exists_findNextRunnable {s : State}
    (hsmall : ∀ tc ∈ s.threads, tc.priority + tc.priorityAdjust ≤ livenessPriorityNopauseLoop)
    {tc : ThreadContext} (htc : tc ∈ s.threads) (heligible : eligible s tc = true) :
    ∃ r, skiThreadsFindNextRunnable s = .ok r := by
  cases hbest : lastMin (skiThreadsCalculatePriority s) (s.threads.filter (eligible s)) with
  | none =>
    have hempty := lastMin_eq_none.mp hbest
    exact absurd (List.mem_filter.mpr ⟨htc, heligible⟩) (hempty ▸ List.not_mem_nil)
  | some r =>
    obtain ⟨hr, hreligible⟩ := List.mem_filter.mp (mem_of_lastMin hbest)
    refine ⟨r, ?_⟩
    unfold skiThreadsFindNextRunnable
    rw [hbest]
    simp only
    rw [if_neg]
    rw [eligible_priority hreligible]
    exact Int.not_lt.mpr (hsmall r hr)

theorem Reachable.effective_le {setup : Setup} {s : State} (h : Reachable setup s) {tc : ThreadContext}
    (htc : tc ∈ s.threads) : tc.priority + tc.priorityAdjust ≤ livenessPriorityNopauseLoop := by
  have hle := h.priority_le htc
  unfold debugMaxAdjust at hle
  unfold livenessPriorityNopauseLoop
  omega

theorem Reachable.findNextRunnable_of_eligible {setup : Setup} {s : State} (h : Reachable setup s) {tc : ThreadContext}
    (htc : tc ∈ s.threads) (heligible : eligible s tc = true) : ∃ r, skiThreadsFindNextRunnable s = .ok r :=
  exists_findNextRunnable (fun _ htc => h.effective_le htc) htc heligible

end SkiVmm.Sched
