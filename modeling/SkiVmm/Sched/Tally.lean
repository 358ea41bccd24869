import SkiVmm.Sched.Bounds
import SkiVmm.Sched.Focus

/-!
# `Sched.Tally` — priorities and the count of instructions

What each event does to the priorities of the threads, to the current thread and to
`ski_sched_instructions_current` (`Tally`): the count starts over at a switch, every 500000th instruction adds 20 to
the adjustment of the current thread, and a preemption point gives it a new priority.

* `priority_within_limit` — adjustments are multiples of 20 below 500, and the thread selected is never beyond the
  limit of `ski_threads_find_next_runnable`.
* `counted_within_limit` — a thread that counts 500000 instructions without a switch pays with its adjustment, so no
  thread counts more than 25 times as many.
-/

namespace SkiVmm.Sched

open Lib

/-- The priorities, the current thread, the count and the inversions so far are left alone. -/
structure Steady (s t : State) : Prop where
  weights_eq : t.weights = s.weights
  current_eq : t.current = s.current
  counted_eq : t.instructionsCurrent = s.instructionsCurrent
  inverted_eq : t.inverted = s.inverted

/-- What an event does to them. -/
inductive Tally (s t : State) : Event → Prop
  | keep {ev : Event} (h : Steady s t) : Tally s t ev
  /-- The switch to another thread. -/
  | switch {c : Nat} (hweights : t.weights = s.weights) (hcounted : t.instructionsCurrent = 0)
      (hcurrent : t.current ≠ none) (hinverted : t.inverted = s.inverted) : Tally s t (.canRun c)
  | count {c : Nat} (hrunning : s.running = some c) (hactive : (s.cpu c).active = true)
      (hmod : ¬ (0 ≤ s.instructionsCurrent + 1 ∧ (s.instructionsCurrent + 1) % schedAdjustModulo = 0))
      (h : Steady { s with instructionsCurrent := s.instructionsCurrent + 1 } t) : Tally s t (.guest c .instrumentAll)
  /-- A starvation adjustment. -/
  | adjust {c id : Nat} {tc : ThreadContext} (hid : s.current = some id) (htc : s.threads[id]? = some tc)
      (hlt : tc.priorityAdjust + schedAdjustInc < debugMaxAdjust)
      (hweights : t.weights = s.weights.set id (tc.priority, tc.priorityAdjust + schedAdjustInc))
      (hcurrent : t.current = s.current) (hcounted : t.instructionsCurrent = s.instructionsCurrent + 1)
      (hinverted : t.inverted = s.inverted) : Tally s t (.guest c .instrumentAll)
  /-- A preemption point. -/
  | invert {c id : Nat} (hid : s.current = some id)
      (hweights : t.weights = s.weights.modify id fun x => (lowestPriority s + 1, x.2))
      (hcurrent : t.current = s.current) (hcounted : t.instructionsCurrent = s.instructionsCurrent) :
      Tally s t (.guest c .possibleInversionPoint)

/-! ## Operations -/

section Ops
variable {s t : State} {cpuNo : Nat}

theorem Quiet.steady (h : Quiet s t) (hcurrent : t.current = s.current)
    (hcounted : t.instructionsCurrent = s.instructionsCurrent) : Steady s t :=
  ⟨h.weights_eq, hcurrent, hcounted, congrArg Budget.inverted h.budget_eq⟩

theorem skiHandleNewIrqSet_steady {vectorNum : Int} (h : skiHandleNewIrqSet s cpuNo vectorNum = .ok t) :
    Steady s t := by
  rcases skiHandleNewIrqSet_cases h with ⟨-, rfl⟩ | ⟨tc, -, -, rfl⟩
  · exact ⟨rfl, rfl, rfl, rfl⟩
  · exact ⟨map_modify_eq (fun _ _ => rfl), rfl, rfl, rfl⟩

theorem skiHandleInterruptBegin_steady {intNo : Int} {isIntInstruction isHw : Bool}
    (h : skiHandleInterruptBegin s cpuNo intNo isIntInstruction isHw = .ok t) : Steady s t := by
  obtain ⟨stack, -, ⟨-, tc, -, -, rfl⟩ | ⟨-, rfl⟩⟩ := skiHandleInterruptBegin_cases h
  · exact ⟨map_modify_eq (fun _ _ => rfl), rfl, rfl, rfl⟩
  · exact ⟨rfl, rfl, rfl, rfl⟩

theorem skiHandleInterruptEnd_steady (h : skiHandleInterruptEnd s cpuNo = .ok t) : Steady s t := by
  rcases skiHandleInterruptEnd_cases h with ⟨-, rfl⟩ | ⟨-, u, rfl, ⟨-, hend⟩ | ⟨-, rfl⟩⟩
  · exact ⟨rfl, rfl, rfl, rfl⟩
  · obtain ⟨tc, -, rfl⟩ := endHandler_cases hend
    exact ⟨map_modify_eq (fun _ _ => rfl), rfl, rfl, rfl⟩
  · exact ⟨rfl, rfl, rfl, rfl⟩

theorem helperSkiLoadAccess_steady {eip address value : Int}
    (h : helperSkiLoadAccess s cpuNo eip address value = .ok t) : Steady s t := by
  have hquiet := helperSkiLoadAccess_quiet h
  rcases helperSkiLoadAccess_cases h with ⟨-, rfl⟩ | ⟨-, id, waitRs, -, -, rfl⟩
  · exact hquiet.steady rfl rfl
  · exact hquiet.steady rfl rfl

theorem helperSkiInstrumentPause_steady (h : helperSkiInstrumentPause s cpuNo = .ok t) : Steady s t := by
  have hquiet := helperSkiInstrumentPause_quiet h
  obtain ⟨id, -, ⟨-, waitRs, -, rfl⟩ | ⟨-, cpuRs, -, rfl⟩⟩ := helperSkiInstrumentPause_spec h
  · exact hquiet.steady rfl rfl
  · exact hquiet.steady rfl rfl

theorem skiThreadsAllWakeRs_steady {address : Int} (h : skiThreadsAllWakeRs s address = .ok t) : Steady s t := by
  have hquiet := skiThreadsAllWakeRs_quiet h
  rcases skiThreadsAllWakeRs_cases h with ⟨-, rfl⟩ | ⟨-, rfl⟩
  · exact hquiet.steady rfl rfl
  · exact hquiet.steady rfl rfl

theorem skiThreadsSelfWaitHlt_steady (h : skiThreadsSelfWaitHlt s cpuNo = .ok t) : Steady s t := by
  obtain ⟨-, rfl⟩ := skiThreadsSelfWaitHlt_spec h
  exact ⟨rfl, rfl, rfl, rfl⟩

/-- What one counted instruction does. -/
theorem helperSkiInstrumentAll_tally (hok : s.handlers.Ok) (hrunning : s.running = some cpuNo)
    (hactive : (s.cpu cpuNo).active = true) (h : helperSkiInstrumentAll s = .ok t) :
    Tally s t (.guest cpuNo .instrumentAll) := by
  rcases helperSkiInstrumentAll_cases h with ⟨hmod, rfl⟩ | ⟨id, tc, hid, htc, hlt, rfl⟩
  · exact .count hrunning hactive hmod ⟨rfl, rfl, rfl, rfl⟩
  · have hweights := weights_modifyThread (hok.getElem?_id (List.mem_of_getElem? htc)) fun tc' =>
      { tc' with priorityAdjust := tc.priorityAdjust + schedAdjustInc }
    rw [hok.id_of_getElem? htc] at hweights
    refine .adjust hid htc hlt (Eq.trans ?_ hweights) rfl rfl rfl
    rw [← hok.id_of_getElem? htc]
    rfl

theorem helperSkiInstrumentPossibleInversionPoint_tally {mode : PreemptionMode}
    (h : helperSkiInstrumentPossibleInversionPoint mode s cpuNo = .ok t) :
    Tally s t (.guest cpuNo .possibleInversionPoint) := by
  rcases helperSkiInstrumentPossibleInversionPoint_cases h with
    ⟨-, rfl⟩ | ⟨-, ⟨-, rfl⟩ | ⟨-, ⟨-, rfl⟩ | ⟨-, id, hid, rfl⟩⟩⟩
  · exact .keep ⟨rfl, rfl, rfl, rfl⟩
  · exact .keep ⟨rfl, rfl, rfl, rfl⟩
  · exact .keep ⟨rfl, rfl, rfl, rfl⟩
  · refine .invert hid ?_ rfl rfl
    rw [← lowestPriority_passed s cpuNo]
    exact (preempted_parts (s.passed cpuNo) id _).2.1

theorem skiCpuCanRun_tally {u : State} {res : Bool} (h : skiCpuCanRun s cpuNo = .ok (u, res)) (running : Option Nat) :
    Tally s { u with running := running } (.canRun cpuNo) := by
  rcases skiCpuCanRun_cases h with
    ⟨-, rfl, -⟩ | ⟨-, tc, -, ⟨-, rfl, -⟩ | ⟨-, -, rfl, -⟩ | ⟨-, -, -, rfl, -⟩⟩
  · exact .keep ⟨rfl, rfl, rfl, rfl⟩
  · exact .keep ⟨rfl, rfl, rfl, rfl⟩
  · exact .keep ⟨rfl, rfl, rfl, rfl⟩
  · exact .switch rfl rfl (Option.some_ne_none _) rfl

end Ops

/-! ## Events -/

section Events
variable {setup : Setup} {s t : State} {ev : Event}

theorem guestStep_tally {cpuNo : Nat} {op : GuestOp} (hok : s.handlers.Ok) (hrunning : s.running = some cpuNo)
    (hactive : (s.cpu cpuNo).active = true) (h : guestStep setup s cpuNo op = .ok t) :
    Tally s t (.guest cpuNo op) := by
  cases op with
  | dispatch =>
    obtain ⟨intNo, -, hbegin⟩ := guestStep_dispatch_cases h
    have hsteady := skiHandleInterruptBegin_steady hbegin
    exact .keep ⟨hsteady.weights_eq, hsteady.current_eq, hsteady.counted_eq, hsteady.inverted_eq⟩
  | interruptBegin intNo isIntInstruction => exact .keep (skiHandleInterruptBegin_steady h)
  | interruptEnd => exact .keep (skiHandleInterruptEnd_steady h)
  | loadAccess eip address value => exact .keep (helperSkiLoadAccess_steady h)
  | storeAccess address => exact .keep (skiThreadsAllWakeRs_steady h)
  | pause => exact .keep (helperSkiInstrumentPause_steady h)
  | hlt => exact .keep (skiThreadsSelfWaitHlt_steady h)
  | instrumentAll => exact helperSkiInstrumentAll_tally hok hrunning hactive h
  | possibleInversionPoint => exact helperSkiInstrumentPossibleInversionPoint_tally h
  | testExit =>
    obtain rfl := guestStep_testExit_cases h
    exact .keep ⟨rfl, rfl, rfl, rfl⟩

/-- **What one event does to priorities and count.** -/
theorem step_tally (hok : s.handlers.Ok) (h : step setup s ev = .ok t) : Tally s t ev := by
  cases ev with
  | newIrqSet cpuNo vectorNum => exact .keep (skiHandleNewIrqSet_steady h)
  | setIrq cpuNo irq =>
    obtain rfl := Except.ok.inj h
    exact .keep ⟨rfl, rfl, rfl, rfl⟩
  | canRun cpuNo =>
    obtain ⟨-, -, u, res, hrun, rfl⟩ := step_canRun_cases h
    exact skiCpuCanRun_tally hrun _
  | leave =>
    obtain rfl := Except.ok.inj h
    exact .keep ⟨rfl, rfl, rfl, rfl⟩
  | guest cpuNo op =>
    obtain ⟨hrunning, ⟨-, rfl⟩ | ⟨hactive, h⟩⟩ := step_guest_cases h
    · exact .keep ⟨rfl, rfl, rfl, rfl⟩
    · exact guestStep_tally hok hrunning hactive h

end Events

/-! ## Priorities -/

/-- Priorities are not negative, and adjustments are multiples of their increment. -/
structure Weighed (w : List (Int × Int)) : Prop where
  priority_nonneg : ∀ x ∈ w, 0 ≤ x.1
  adjust_multiple : ∀ x ∈ w, ∃ k : Nat, x.2 = schedAdjustInc * k

section Weighed
variable {setup : Setup} {s t : State} {ev : Event}

theorem lowestPriority_nonneg (s : State) : 0 ≤ lowestPriority s :=
  (foldl_max_le_iff.mp (Int.le_refl (lowestPriority s))).1

/-- An entry that changes keeps to the rules if its new value does. -/
theorem Weighed.of_mem {w w' : List (Int × Int)} (h : Weighed w)
    (hmem : ∀ x ∈ w', x ∈ w ∨ 0 ≤ x.1 ∧ ∃ k : Nat, x.2 = schedAdjustInc * k) : Weighed w' := by
  constructor
  · intro x hx
    rcases hmem x hx with hold | hnew
    · exact h.priority_nonneg x hold
    · exact hnew.1
  · intro x hx
    rcases hmem x hx with hold | hnew
    · exact h.adjust_multiple x hold
    · exact hnew.2

theorem Tally.weighed (h : Tally s t ev) (hw : Weighed s.weights) : Weighed t.weights := by
  cases h with
  | keep hsteady => exact hsteady.weights_eq ▸ hw
  | switch hweights => exact hweights ▸ hw
  | count _ _ _ hsteady => exact hsteady.weights_eq ▸ hw
  | @adjust _ id tc _ htc _ hweights =>
    rw [hweights]
    have hold : tc.weight ∈ s.weights := List.mem_map_of_mem (List.mem_of_getElem? htc)
    refine hw.of_mem ?_
    intro x hx
    rcases List.mem_or_eq_of_mem_set hx with hx | rfl
    · exact .inl hx
    · obtain ⟨k, hk⟩ := hw.adjust_multiple _ hold
      refine .inr ⟨hw.priority_nonneg tc.weight hold, k + 1, ?_⟩
      show tc.weight.2 + schedAdjustInc = schedAdjustInc * ((k + 1 : Nat) : Int)
      rw [hk, Int.natCast_succ, Int.mul_add, Int.mul_one]
  | @invert _ id _ hweights =>
    rw [hweights]
    refine hw.of_mem ?_
    intro x hx
    obtain ⟨j, hj⟩ := List.mem_iff_getElem?.mp hx
    rw [List.getElem?_modify] at hj
    obtain ⟨y, hy, hxy⟩ := Option.map_eq_some_iff.mp hj
    split_ifs at hxy
    · subst hxy
      have hnonneg := lowestPriority_nonneg s
      exact .inr ⟨show 0 ≤ lowestPriority s + 1 by omega, hw.adjust_multiple y (List.mem_of_getElem? hy)⟩
    · subst hxy
      exact .inl (List.mem_of_getElem? hy)

theorem Setup.start_weighed (setup : Setup) : Weighed setup.start.weights := by
  have hweight : ∀ x ∈ setup.start.weights, ∃ i : Nat, x = ((i : Int), 0) := by
    intro x hx
    obtain ⟨tc, htc, rfl⟩ := List.mem_map.mp hx
    obtain ⟨i, e, -, rfl⟩ := setup.exists_entry htc
    exact ⟨i, rfl⟩
  constructor
  · intro x hx
    obtain ⟨i, rfl⟩ := hweight x hx
    exact Int.natCast_nonneg i
  · intro x hx
    obtain ⟨i, rfl⟩ := hweight x hx
    exact ⟨0, rfl⟩

theorem Reachable.weighed (h : Reachable setup s) : Weighed s.weights := by
  obtain ⟨events, hrun⟩ := h
  have hboth : Sane s ∧ Weighed s.weights := by
    refine Run.invariant (P := fun s => Sane s ∧ Weighed s.weights) hrun ?_ ⟨setup.start_sane, setup.start_weighed⟩
    rintro s ev t ⟨hsane, hw⟩ - hstep
    exact ⟨hsane.step hstep, (step_tally hsane.handlers_ok hstep).weighed hw⟩
  exact hboth.2

theorem Reachable.adjust_multiple (h : Reachable setup s) {tc : ThreadContext} (htc : tc ∈ s.threads) :
    ∃ k : Nat, tc.priorityAdjust = schedAdjustInc * k :=
  h.weighed.adjust_multiple tc.weight (List.mem_map_of_mem htc)

/-- The effective priority of a thread without the part for waiting. -/
theorem Reachable.effective_bounds (h : Reachable setup s) {tc : ThreadContext} (htc : tc ∈ s.threads) :
    0 ≤ tc.priority + tc.priorityAdjust ∧ tc.priority + tc.priorityAdjust < livenessPriorityNopauseLoop := by
  have hpriority : 0 ≤ tc.priority := h.weighed.priority_nonneg tc.weight (List.mem_map_of_mem htc)
  obtain ⟨k, hk⟩ := h.adjust_multiple htc
  have hle := h.priority_le htc
  unfold schedAdjustInc at hk
  unfold debugMaxAdjust at hle
  unfold livenessPriorityNopauseLoop
  omega

/-- A thread that waits for a write is behind all limits. -/
theorem Reachable.le_priority_of_waits (h : Reachable setup s) {tc : ThreadContext} (htc : tc ∈ s.threads)
    (hwaits : tc.waitsOnRs = true) (u : State) : livenessPriorityNopauseLoop ≤ skiThreadsCalculatePriority u tc := by
  have hnonneg := (h.effective_bounds htc).1
  unfold ThreadContext.waitsOnRs at hwaits
  unfold skiThreadsCalculatePriority livenessPriorityHlt livenessPriorityPause livenessPriorityNopauseLoop
  cases hrs : tc.waitForRs <;> cases hpause : tc.waitForRsOnPause <;> rw [hrs, hpause] at hwaits <;>
    simp at hwaits ⊢ <;> split <;> omega

end Weighed

/-- **Adjustments and the limit of the selection.** After any events, every adjustment is a multiple of 20 below 500,
    and the thread that the loop of `ski_threads_find_next_runnable` chooses has an effective priority of at most
    2000. So the selection fails only when no thread is eligible. -/
theorem priority_within_limit {setup : Setup} {s : State} (h : Reachable setup s) :
    (∀ tc ∈ s.threads, (∃ k : Nat, tc.priorityAdjust = 20 * k) ∧ tc.priorityAdjust < 500) ∧
    (∀ tc, lastMin (skiThreadsCalculatePriority s) (s.threads.filter (eligible s)) = some tc →
      skiThreadsCalculatePriority s tc ≤ 2000) ∧
    ((∃ e, skiThreadsFindNextRunnable s = .error e) ↔ ∀ tc ∈ s.threads, eligible s tc = false) := by
  refine ⟨fun tc htc => ⟨h.adjust_multiple htc, (h.priority_le htc).2⟩, ?_, ?_, ?_⟩
  · intro tc hbest
    obtain ⟨htc, heligible⟩ := List.mem_filter.mp (mem_of_lastMin hbest)
    rw [eligible_priority heligible]
    exact h.effective_le htc
  · rintro ⟨e, herror⟩ tc htc
    by_contra heligible
    obtain ⟨r, hr⟩ := h.findNextRunnable_of_eligible htc (by simpa using heligible)
    rw [hr] at herror
    cases herror
  · intro hnone
    refine ⟨.noRunnable, ?_⟩
    have hempty : s.threads.filter (eligible s) = [] := by
      rw [List.filter_eq_nil_iff]
      intro tc htc
      simp [hnone tc htc]
    unfold skiThreadsFindNextRunnable
    rw [hempty]
    rfl

/-- A poll that has selected the CPU thread. -/
theorem priority_within_limit_polled :
    ∃ s, Reachable vectorOne s ∧
      ∃ tc, lastMin (skiThreadsCalculatePriority s) (s.threads.filter (eligible s)) = some tc ∧
        skiThreadsCalculatePriority s tc ≤ 2000 := by
  obtain ⟨s, hreach, hs⟩ := exists_reachable_of_exec vectorOne [.canRun 0]
    (p := fun s => (lastMin (skiThreadsCalculatePriority s) (s.threads.filter (eligible s))).isSome) (by decide)
  obtain ⟨tc, hbest⟩ := Option.isSome_iff_exists.mp hs
  exact ⟨s, hreach, tc, hbest, (priority_within_limit hreach).2.1 tc hbest⟩

/-! ## The count of instructions -/

/-- The current thread has paid for the instructions counted since it was switched to. -/
structure Counted (s : State) : Prop where
  nonneg : 0 ≤ s.instructionsCurrent
  idle : s.current = none → s.instructionsCurrent = 0
  paid : ∀ id w, s.current = some id → s.weights[id]? = some w →
    schedAdjustInc * (s.instructionsCurrent / schedAdjustModulo) ≤ w.2

section Counted
variable {setup : Setup} {s t : State} {ev : Event}

/-- **One event of the count.** The number of full rounds changes only with the adjustment. -/
theorem Tally.counted (h : Tally s t ev) (hc : Counted s) (hfocused : Focused s) (hw : Weighed s.weights) :
    Counted t := by
  cases h with
  | keep hsteady =>
    obtain ⟨hweights, hcurrent, hcounted, -⟩ := hsteady
    refine ⟨hcounted ▸ hc.nonneg, ?_, ?_⟩
    · rw [hcurrent, hcounted]
      exact hc.idle
    · rw [hcurrent, hcounted, hweights]
      exact hc.paid
  | switch hweights hcounted hcurrent =>
    refine ⟨hcounted.symm.le, fun hnone => absurd hnone hcurrent, ?_⟩
    intro id w _ hwt
    obtain ⟨k, hk⟩ := hw.adjust_multiple w (List.mem_of_getElem? (hweights ▸ hwt))
    rw [hcounted, hk]
    unfold schedAdjustInc schedAdjustModulo
    omega
  | count hrunning hactive hmod hsteady =>
    obtain ⟨hweights, hcurrent, hcounted, -⟩ := hsteady
    obtain ⟨id₀, -, hid₀, -⟩ := hfocused.running_cpu _ hrunning hactive
    have hnonneg := hc.nonneg
    simp only at hweights hcurrent hcounted
    refine ⟨by omega, ?_, ?_⟩
    · rw [hcurrent, hid₀]
      exact fun hnone => absurd hnone (by simp)
    · intro id w hid hwt
      have hpaid := hc.paid id w (hcurrent ▸ hid) (hweights ▸ hwt)
      rw [hcounted]
      unfold schedAdjustInc schedAdjustModulo at *
      omega
  | @adjust _ id₀ tc hid₀ htc _ hweights hcurrent hcounted =>
    have hnonneg := hc.nonneg
    refine ⟨by omega, ?_, ?_⟩
    · rw [hcurrent, hid₀]
      exact fun hnone => absurd hnone (by simp)
    · intro id w hid hwt
      obtain rfl : id₀ = id := Option.some.inj (hid₀.symm.trans (hcurrent ▸ hid))
      have htc' : s.weights[id₀]? = some tc.weight := by
        unfold State.weights
        rw [List.getElem?_map, htc]
        rfl
      have hpaid := hc.paid id₀ tc.weight hid₀ htc'
      rw [hweights, List.getElem?_set_self (List.getElem?_eq_some_iff.mp htc').1] at hwt
      obtain rfl := Option.some.inj hwt
      rw [hcounted]
      unfold ThreadContext.weight at hpaid
      unfold schedAdjustInc schedAdjustModulo at *
      simp only at hpaid ⊢
      omega
  | @invert _ id₀ _ hweights hcurrent hcounted =>
    refine ⟨hcounted ▸ hc.nonneg, ?_, ?_⟩
    · rw [hcurrent, hcounted]
      exact hc.idle
    · intro id w hid hwt
      rw [hweights, List.getElem?_modify] at hwt
      obtain ⟨x, hx, rfl⟩ := Option.map_eq_some_iff.mp hwt
      have hpaid := hc.paid id x (hcurrent ▸ hid) hx
      rw [hcounted]
      split_ifs
      · exact hpaid
      · exact hpaid

theorem Setup.start_counted (setup : Setup) : Counted setup.start :=
  ⟨Int.le_refl 0, fun _ => rfl, fun _ _ hid => by cases hid⟩

theorem Reachable.counted (h : Reachable setup s) : Counted s := by
  obtain ⟨events, hrun⟩ := h
  have hall : (Sane s ∧ Focused s) ∧ Weighed s.weights ∧ Counted s := by
    refine Run.invariant (P := fun s => (Sane s ∧ Focused s) ∧ Weighed s.weights ∧ Counted s) hrun ?_
      ⟨⟨setup.start_sane, setup.start_focused⟩, setup.start_weighed, setup.start_counted⟩
    rintro s ev t ⟨⟨hsane, hfocused⟩, hw, hc⟩ - hstep
    have htally := step_tally hsane.handlers_ok hstep
    exact ⟨⟨hsane.step hstep, hfocused.step hsane hstep⟩, htally.weighed hw, htally.counted hc hfocused hw⟩
  exact hall.2.2

/-- The thread that is current when an instruction is counted. -/
theorem Reachable.current_of_running (h : Reachable setup s) {c : Nat} (hrunning : s.running = some c)
    (hactive : (s.cpu c).active = true) : ∃ id tc, s.current = some id ∧ s.threads[id]? = some tc := by
  obtain ⟨id, tc, hid, htc, -⟩ := h.focused.running_cpu c hrunning hactive
  exact ⟨id, tc, hid, htc⟩

/-- Counting an instruction fails in one way. -/
theorem helperSkiInstrumentAll_error {id : Nat} {tc : ThreadContext} {e : SkiExit} (hid : s.current = some id)
    (htc : s.threads[id]? = some tc) (h : helperSkiInstrumentAll s = .error e) : e = .maxPriorityAdj := by
  unfold helperSkiInstrumentAll skiThreadsAdjustPriorityCurrent at h
  simp only [hid, Option.bind_some, htc] at h
  split_ifs at h
  · cases h
  · exact (Except.error.inj h).symm
  · cases h

end Counted

/-- **The count since the last switch.** After any events it is at most 25 * 500000, and the current thread has an
    adjustment of 20 for every 500000 of it. An instruction that cannot be counted any more ends the process with
    `MAX_PRIORITY_ADJ`. -/
theorem counted_within_limit {setup : Setup} {s : State} (h : Reachable setup s) :
    s.instructionsCurrent ≤ 25 * 500000 ∧
    (∀ id tc, s.current = some id → s.threads[id]? = some tc →
      20 * (s.instructionsCurrent / 500000) ≤ tc.priorityAdjust) ∧
    ∀ c e, s.running = some c → step setup s (.guest c .instrumentAll) = .error e → e = .maxPriorityAdj := by
  have hc := h.counted
  have hpaid : ∀ id tc, s.current = some id → s.threads[id]? = some tc →
      20 * (s.instructionsCurrent / 500000) ≤ tc.priorityAdjust := by
    intro id tc hid htc
    refine hc.paid id tc.weight hid ?_
    unfold State.weights
    rw [List.getElem?_map, htc]
    rfl
  refine ⟨?_, hpaid, ?_⟩
  · cases hid : s.current with
    | none =>
      rw [hc.idle hid]
      decide
    | some id =>
      obtain ⟨tc, htc⟩ := h.focused.current_lt id hid
      have hlt := (h.priority_le (List.mem_of_getElem? htc)).2
      have hpaid := hpaid id tc hid htc
      unfold debugMaxAdjust at hlt
      omega
  · intro c e hrunning herror
    unfold step at herror
    simp only [hrunning, ne_eq, not_true_eq_false, if_false] at herror
    split at herror
    · cases herror
    · next hactive =>
      obtain ⟨id, tc, hid, htc⟩ := h.current_of_running hrunning (by simpa using hactive)
      exact helperSkiInstrumentAll_error hid htc herror

/-- Two instructions of the CPU thread. -/
theorem counted_within_limit_two :
    ∃ s, Reachable vectorOne s ∧ s.instructionsCurrent = 2 ∧
      ∃ id tc, s.current = some id ∧ s.threads[id]? = some tc ∧ 20 * (2 / 500000) ≤ tc.priorityAdjust := by
  obtain ⟨s, hreach, hs⟩ := exists_reachable_of_exec vectorOne
    [.canRun 0, .guest 0 .instrumentAll, .guest 0 .instrumentAll]
    (p := fun s => s.instructionsCurrent = 2 && (s.current = some 1 && s.threads[1]?.isSome)) (by decide)
  simp only [Bool.and_eq_true, decide_eq_true_eq] at hs
  obtain ⟨hcount, hid, hsome⟩ := hs
  obtain ⟨tc, htc⟩ := Option.isSome_iff_exists.mp hsome
  have hpaid := (counted_within_limit hreach).2.1 1 tc hid htc
  rw [hcount] at hpaid
  exact ⟨s, hreach, hcount, 1, tc, hid, htc, hpaid⟩

end SkiVmm.Sched
