import SkiVmm.Sched.Reach

/-!
# `Sched.Preemption` — priorities are inverted at the preemption points

A test with the points `ps` follows the phases of `Sched.Points` (`Reachable.tracks`). So priorities are inverted
once at each point that the count of instructions has passed, and nowhere else, until the count passes a point
that is larger than one drawn twice (`inverted_once_iff`): the second copy of a point becomes the limit after the
count has reached it, and no later point is ever taken.

The count itself ends the test at `SKI_SCHED_MAX_PREEMPTION_INSTRUCTIONS` (`Reachable.instructionsTotal_lt`).
-/

namespace SkiVmm.Sched

open Lib

section Tracks
variable {setup : Setup} {s : State}

/-- The first point is pending when a test starts. -/
theorem Setup.start_tracks (hne : setup.preemptions ≠ []) : Tracks setup.preemptions setup.start.budget := by
  have hfirst : setup.firstPoint = skiPreemptionGetAndClearLowest setup.preemptions (-1) :=
    if_pos (mt List.length_eq_zero_iff.mp hne)
  rcases skiPreemptionGetAndClearLowest_spec setup.preemptions (-1) with
    ⟨-, hsmall⟩ | ⟨p, rest, htaken, hin, hle, hleast, hcount⟩
  · obtain ⟨x, hx⟩ := List.exists_mem_of_ne_nil _ hne
    have hpos := setup.preemptions_pos x hx
    have := hsmall x hx
    omega
  · rw [htaken] at hfirst
    have hpos := setup.preemptions_pos p hin
    have hleast' : ∀ x ∈ setup.preemptions, p ≤ x := by
      intro x hx
      have := setup.preemptions_pos x hx
      exact hleast x hx (by omega)
    refine ⟨Int.le_refl 0, List.nodup_nil, .pending p ⟨?_, hpos, hin, ?_, ?_, ?_⟩⟩
    · intro l hl hactive
      obtain ⟨cpu, hcpu, rfl⟩ := List.mem_map.mp hl
      obtain ⟨c, -, rfl⟩ := List.mem_map.mp hcpu
      unfold Setup.startCpu at hactive ⊢
      split_ifs at hactive ⊢ with hc hfirst'
      · show setup.firstPoint.1 = p
        rw [hfirst]
      · rw [hfirst] at hfirst'
        exact absurd (Int.le_of_lt hpos) hfirst'
      · cases hactive
    · intro x
      refine ⟨fun h => absurd h List.not_mem_nil, ?_⟩
      rintro ⟨hx, hlt⟩
      exact absurd (hleast' x hx) (Int.not_le.mpr hlt)
    · intro x hx
      show setup.firstPoint.2.count x + _ = _
      rw [hfirst]
      have hx' := hcount (· == x) (by simp; omega)
      simpa [List.count] using hx'
    · intro x hx hlt
      exact absurd (hleast' x hx) (Int.not_le.mpr hlt)

theorem Reachable.tracks (h : Reachable setup s) (hne : setup.preemptions ≠ []) :
    Tracks setup.preemptions s.budget := by
  obtain ⟨events, hrun⟩ := h
  exact run_invariant (P := fun s => Tracks setup.preemptions s.budget) hrun (Setup.start_tracks hne)
    fun _ htracks _ heffect => htracks.step heffect.budget

end Tracks

/-! ## The count of instructions -/

section Count
variable {setup : Setup} {s t : State} {ev : Event} {cpuNo : Nat}

/-- The count that would reach `SKI_SCHED_MAX_PREEMPTION_INSTRUCTIONS` ends the test. -/
theorem helperSkiInstrumentPossibleInversionPoint_total {mode : PreemptionMode}
    (h : helperSkiInstrumentPossibleInversionPoint mode s cpuNo = .ok t) :
    t.instructionsTotal = s.instructionsTotal ∨ t.instructionsTotal < schedMaxPreemptionInstructions := by
  unfold helperSkiInstrumentPossibleInversionPoint at h
  split at h
  · cases h
    exact .inl rfl
  split at h
  · cases h
    exact .inl rfl
  simp only at h
  split at h
  · cases h
  next hbelow =>
  split at h
  · obtain ⟨u, hu, h⟩ := exists_of_bind_eq_ok h
    obtain ⟨id, -, rfl⟩ := skiThreadsInvertPriority_spec hu
    cases h
    exact .inr (Int.not_le.mp hbelow)
  · cases h
    exact .inr (Int.not_le.mp hbelow)

theorem guestStep_total {op : GuestOp} (hok : s.handlers.Ok) (hactive : (s.cpu cpuNo).active = true)
    (h : guestStep setup s cpuNo op = .ok t) :
    t.instructionsTotal = s.instructionsTotal ∨ t.instructionsTotal < schedMaxPreemptionInstructions := by
  cases op with
  | dispatch =>
    obtain ⟨intNo, -, hbegin⟩ := guestStep_dispatch_cases h
    have hacked : Quiet s (s.modifyCpu cpuNo fun cpu => { cpu with irq := { cpu.irq with hard := false } }) := by
      apply quiet_modifyCpu <;> intros <;> rfl
    have heffect := skiHandleInterruptBegin_hw (hacked.handlers_eq ▸ hok)
      ((active_of_armed_eq hacked.armed_eq cpuNo).trans hactive) hbegin
    exact .inl (congrArg Budget.total (hacked.trans_effect heffect).budget_eq)
  | interruptBegin intNo isIntInstruction =>
    exact .inl (congrArg Budget.total (skiHandleInterruptBegin_soft hactive h).budget_eq)
  | interruptEnd => exact .inl (congrArg Budget.total (skiHandleInterruptEnd_effect hok hactive h).budget_eq)
  | loadAccess eip address value => exact .inl (congrArg Budget.total (helperSkiLoadAccess_quiet h).budget_eq)
  | storeAccess address => exact .inl (congrArg Budget.total (skiThreadsAllWakeRs_quiet h).budget_eq)
  | pause => exact .inl (congrArg Budget.total (helperSkiInstrumentPause_quiet h).budget_eq)
  | hlt => exact .inl (congrArg Budget.total (skiThreadsSelfWaitHlt_quiet h).budget_eq)
  | instrumentAll =>
    rcases helperSkiInstrumentAll_cases h with ⟨-, rfl⟩ | ⟨id, tc, -, -, -, rfl⟩
    · exact .inl rfl
    · exact .inl rfl
  | possibleInversionPoint => exact helperSkiInstrumentPossibleInversionPoint_total h
  | testExit =>
    obtain rfl := guestStep_testExit_cases h
    exact .inl rfl

/-- **Step lemma.** -/
theorem step_total (hok : s.handlers.Ok) (h : step setup s ev = .ok t) :
    t.instructionsTotal = s.instructionsTotal ∨ t.instructionsTotal < schedMaxPreemptionInstructions := by
  cases ev with
  | newIrqSet cpuNo vectorNum =>
    obtain ⟨l, heffect, -⟩ := skiHandleNewIrqSet_effect hok h
    exact .inl (congrArg Budget.total heffect.budget_eq)
  | setIrq cpuNo irq =>
    obtain rfl := Except.ok.inj h
    exact .inl rfl
  | canRun cpuNo =>
    obtain ⟨-, -, u, res, hrun, rfl⟩ := step_canRun_cases h
    exact .inl (congrArg Budget.total (skiCpuCanRun_quiet hrun).budget_eq)
  | leave =>
    obtain rfl := Except.ok.inj h
    exact .inl rfl
  | guest cpuNo op =>
    obtain ⟨-, ⟨-, rfl⟩ | ⟨hactive, h⟩⟩ := step_guest_cases h
    · exact .inl rfl
    · exact guestStep_total hok hactive h

/-- **The count of a test stays below its limit.** -/
theorem Reachable.instructionsTotal_lt (h : Reachable setup s) :
    s.instructionsTotal < schedMaxPreemptionInstructions := by
  obtain ⟨events, hrun⟩ := h
  have hboth : Sane s ∧ s.instructionsTotal < schedMaxPreemptionInstructions := by
    refine Run.invariant (P := fun s => Sane s ∧ s.instructionsTotal < schedMaxPreemptionInstructions) hrun ?_
      ⟨setup.start_sane, (by decide : (0 : Int) < schedMaxPreemptionInstructions)⟩
    rintro s ev t ⟨hsane, hlt⟩ - hstep
    refine ⟨hsane.step hstep, ?_⟩
    rcases step_total hsane.handlers_ok hstep with heq | hlt'
    · rw [heq]
      exact hlt
    · exact hlt'
  exact hboth.2

end Count

/-- **Priorities are inverted exactly once at each preemption point that the count of instructions has reached,
    and at no other count, as long as no point reached is larger than one drawn twice.** -/
theorem inverted_once_iff {setup : Setup} {s : State} (h : Reachable setup s) :
    ((∀ p ∈ setup.preemptions, p ≤ s.instructionsTotal → s.inverted.count p = 1) ∧
        (setup.preemptions ≠ [] → ∀ p ∈ s.inverted, p ∈ setup.preemptions)) ↔
      ∀ v ∈ setup.preemptions, ∀ p ∈ setup.preemptions,
        2 ≤ setup.preemptions.count v → v < p → s.instructionsTotal < p := by
  by_cases hne : setup.preemptions = []
  · simp [hne]
  · have htracks := h.tracks hne
    simp only [ne_eq, hne, not_false_eq_true, true_implies]
    exact htracks.exact_iff

/-! ### Two tests on one CPU -/

/-- A test of one CPU thread with the given points. -/
def onePoller (preemptions : List Int) (hpos : ∀ p ∈ preemptions, 0 < p) (hlen : preemptions.length < 16) : Setup where
  cpus := [{ active := true, nrMaxInstr := 0, irq := Cpu.idle.irq }]
  table := [{ cpu := 0, i := -1, n := 1 }]
  preemptions := preemptions
  preemptionMode := .all
  nrCpus := 1
  table_cpus := by decide
  table_ints := by decide
  table_length := by decide
  preemptions_pos := hpos
  preemptions_length := hlen

/-- An instruction that is counted. -/
def countedInstruction : List Event := [.leave, .canRun 0, .guest 0 .possibleInversionPoint]

def distinctPoints : Setup := onePoller [3, 1] (by decide) (by decide)

def repeatedPoint : Setup := onePoller [1, 1, 2] (by decide) (by decide)

theorem inverted_once_distinct : ∃ s, Reachable distinctPoints s ∧ s.instructionsTotal = 3 ∧
    ∀ p ∈ distinctPoints.preemptions, p ≤ s.instructionsTotal → s.inverted.count p = 1 := by
  obtain ⟨s, hreach, htotal⟩ := exists_reachable_of_exec distinctPoints
    (countedInstruction ++ countedInstruction ++ countedInstruction)
    (p := fun s => s.instructionsTotal = 3) (by decide)
  refine ⟨s, hreach, of_decide_eq_true htotal, ((inverted_once_iff hreach).mpr ?_).1⟩
  have honce : ∀ v ∈ distinctPoints.preemptions, ¬ 2 ≤ distinctPoints.preemptions.count v := by decide
  intro v hv p _ htwice
  exact absurd htwice (honce v hv)

/-- With the points 1, 1 and 2 the last one is lost. -/
theorem point_lost_after_repeated : ∃ s, Reachable repeatedPoint s ∧
    ¬ ∀ p ∈ repeatedPoint.preemptions, p ≤ s.instructionsTotal → s.inverted.count p = 1 := by
  obtain ⟨s, hreach, hlost⟩ := exists_reachable_of_exec repeatedPoint (countedInstruction ++ countedInstruction)
    (p := fun s => s.instructionsTotal = 2 && s.inverted.count 2 = 0) (by decide)
  simp only [Bool.and_eq_true, decide_eq_true_eq] at hlost
  refine ⟨s, hreach, ?_⟩
  intro hall
  have hone := hall 2 (by decide) (Int.le_of_eq hlost.1.symm)
  rw [hlost.2] at hone
  cases hone

end SkiVmm.Sched
