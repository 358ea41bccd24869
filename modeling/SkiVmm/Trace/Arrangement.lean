import SkiVmm.Trace.Limit

/-!
# `Trace.Arrangement` — the counts of the loop log in every run

`ski_loop_print_reset_all` reads the iterations that were suppressed off the counts of the log, and does not expect
more than two different ones (`assert(0)`). Whatever the instructions of a vCPU do to the log, and wherever it is
flushed in between, the log stays `Logged`; so do the states in the middle of an instruction in which a reset is made.

* `Logged.step` and `Logged.run` — an event, and a run, fails no assertion and leaves the log arranged.
* `loopLog_arranged` — around the ring, the counts are first one less than at the head and then the same.
-/

namespace SkiVmm.Trace

open Lib

variable {cfg : TraceConfig} {s : TraceState}

/-! ## Events -/

/-- The helper leaves the process only for the number of adjustments. -/
theorem Logged.instruction (h : Logged cfg s) (eip : Int) (regs : Registers) :
    helperSkiInstrumentAll cfg eip regs s = .error .maxPriorityAdj ∨
      ∃ t executes, helperSkiInstrumentAll cfg eip regs s = .ok (t, executes) ∧ Logged cfg t := by
  by_cases hdue : cfg.active = true ∧ AdjustmentDue s
  · obtain ⟨hactive, hdue⟩ := hdue
    unfold helperSkiInstrumentAll
    rw [if_neg (by simp [hactive])]
    simp only
    cases hadj : skiThreadsAdjustPriorityCurrent cfg
        { s with schedInstructionsCurrent := s.schedInstructionsCurrent + 1 } with
    | error e =>
      left
      unfold AdjustmentDue at hdue
      unfold skiThreadsAdjustPriorityCurrent at hadj
      simp only at hadj
      rw [if_pos hdue] at hadj
      split_ifs at hadj
      cases hadj
      rfl
    | ok r =>
      obtain ⟨u, adjusted⟩ := r
      obtain ⟨rfl, hlog, hhead, -⟩ := adjustPriority_due hdue hadj
      obtain ⟨v, hflush, hempty, -⟩ := (h.of_log_eq hlog hhead).flush_limit
      right
      simp only [if_true, hflush, orAssert, ok_bind]
      exact ⟨_, _, rfl, (hempty.comment cfg _).logged⟩
  · have hdue' : cfg.active = true → ¬ AdjustmentDue s := fun hactive hd => hdue ⟨hactive, hd⟩
    right
    by_cases htraces : Traces cfg s
    · obtain ⟨t, hok, hlogged, -⟩ := h.helper_traced htraces (hdue' htraces.1) eip regs
      exact ⟨t, true, hok, hlogged⟩
    · obtain ⟨t, hok, hlog, hhead, -⟩ := helper_untraced htraces hdue' eip regs
      exact ⟨t, true, hok, h.of_log_eq hlog hhead⟩

/-- **The step lemma**: no event fails an assertion. -/
theorem Logged.step (h : Logged cfg s) (ev : TraceEvent) :
    traceStep cfg s ev = .error .maxPriorityAdj ∨ ∃ t now, traceStep cfg s ev = .ok (t, now) ∧ Logged cfg t := by
  cases ev with
  | instruction eip regs =>
    rcases h.instruction eip regs with herr | ⟨t, executes, hok, hlogged⟩
    · left
      simp only [traceStep, herr, error_bind]
    · right
      simp only [traceStep, hok, ok_bind]
      exact ⟨t, _, rfl, hlogged⟩
  | flush =>
    obtain ⟨t, hflush, hempty, -⟩ := h.flush_limit
    right
    simp only [traceStep, hflush, orAssert, ok_bind]
    exact ⟨t, [], rfl, hempty.logged⟩
  | switch adjust =>
    obtain ⟨t, hflush, hempty, -⟩ := h.flush_limit
    right
    simp only [traceStep, hflush, orAssert, ok_bind]
    exact ⟨_, [], rfl, Logged.of_log_eq hempty.logged rfl rfl⟩
  | comment text =>
    have hp := prints_comment cfg (.other text) s
    exact .inr ⟨_, [], rfl, h.of_log_eq hp.loopLog_eq hp.head_eq⟩

/-- **The run lemma.** -/
theorem Logged.run (h : Logged cfg s) (events : List TraceEvent) :
    traceRun cfg s events = .error .maxPriorityAdj ∨
      ∃ t executed, traceRun cfg s events = .ok (t, executed) ∧ Logged cfg t := by
  induction events generalizing s with
  | nil => exact .inr ⟨s, [], rfl, h⟩
  | cons ev events ih =>
    unfold traceRun
    rcases h.step ev with herr | ⟨t, now, hok, hlogged⟩
    · left
      simp only [herr, error_bind]
    · rcases ih hlogged with herr | ⟨u, later, hok', hlogged'⟩
      · left
        simp only [hok, ok_bind, herr, error_bind]
      · right
        simp only [hok, ok_bind, hok']
        exact ⟨u, now ++ later, rfl, hlogged'⟩

/-! ## The counts -/

/-- The `assert(0)` is the comparison of the largest count with the smallest. -/
theorem skiLoopPrintResetAll_ne_none :
    skiLoopPrintResetAll cfg s ≠ none ↔
      (scanLog s.loopLog (afterHead s.loopLogHead)).countMax
        - (scanLog s.loopLog (afterHead s.loopLogHead)).countMin ≤ 1 := by
  unfold skiLoopPrintResetAll
  simp only
  split_ifs with hgap
  · exact ⟨fun hne => absurd rfl hne, fun hle => absurd hgap (Int.not_lt.mpr hle)⟩
  · exact ⟨fun _ => Int.not_lt.mp hgap, fun _ => by simp⟩
  · exact ⟨fun _ => Int.not_lt.mp hgap, fun _ => by simp⟩

theorem Logged.printResetAll_ne_none (h : Logged cfg s) : skiLoopPrintResetAll cfg s ≠ none := by
  obtain ⟨t, hflush, -⟩ := h.flush_limit
  rw [show skiLoopPrintResetAll cfg s = some t from hflush]
  simp

/-- **The arrangement of the counts in every run.** Going around from the slot behind the head to the head, the entries
    in use have first one less than the count of the head and then its count, and their addresses are different. The
    assertion of `ski_loop_print_reset_all` does not fail, neither in the run nor after it. -/
theorem loopLog_arranged (cfg : TraceConfig) (log : Nat → LoopEntry) (adjust : Int) (events : List TraceEvent) :
    traceRun cfg (TraceState.initial log adjust) events = .error .maxPriorityAdj ∨
    ∃ s executed, traceRun cfg (TraceState.initial log adjust) events = .ok (s, executed) ∧
      (s.loopLogHead = none → ∀ i, (s.loopLog i).count = 0) ∧
      (∀ head, s.loopLogHead = some head → head < loopMaxLogEntries ∧ 0 < (s.loopLog head).count ∧
        ∃ older newer, used (ring s) = older ++ newer ∧
          (∀ e ∈ older, e.count = (s.loopLog head).count - 1) ∧ (∀ e ∈ newer, e.count = (s.loopLog head).count) ∧
          ((used (ring s)).map LoopEntry.eip).Nodup) ∧
      (scanLog s.loopLog (afterHead s.loopLogHead)).countMax
        - (scanLog s.loopLog (afterHead s.loopLogHead)).countMin ≤ 1 ∧
      skiLoopPrintResetAll cfg s ≠ none := by
  rcases (emptied_initial log adjust).logged.run events with herr | ⟨s, executed, hok, hlogged⟩
  · exact .inl herr
  · have hne : skiLoopPrintResetAll cfg s ≠ none := hlogged.printResetAll_ne_none
    refine .inr ⟨s, executed, hok, ?_, ?_, skiLoopPrintResetAll_ne_none.mp hne, hne⟩
    · intro hnone
      obtain ⟨c, pending, hholds⟩ := hlogged
      cases hholds with
      | empty h => exact h.count_eq
      | looping hhead => exact absurd (hnone.symm.trans hhead) (by simp)
    · intro head hsome
      obtain ⟨c, pending, hholds⟩ := hlogged
      cases hholds with
      | empty h => exact absurd (h.head_eq.symm.trans hsome) (by simp)
      | looping hhead hlt hcount harr =>
        cases hhead.symm.trans hsome
        subst hcount
        exact ⟨hlt, harr.count_pos, _, _, harr.used_eq, harr.older_count, harr.newer_count, harr.eips_nodup⟩

end SkiVmm.Trace
