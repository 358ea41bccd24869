import SkiVmm.Sched.Tally

/-!
# `Sched.Inversion` — a preempted thread gives way

`ski_threads_invert_priority` puts the current thread one behind the largest priority among the threads that it
considers. Another eligible thread is selected next if it is before that place (`preempted_not_selected`). It need
not be: interrupts that have not been triggered are not considered, and starvation adjustments do not move with
the priorities (`preempted_selected_again`).

The preempted thread itself may be missing among those considered, when it waits or when its CPU is halted. Then its
number can even get smaller: `preempted_behind_iff` says when it gets larger, and `preempted_raised` is a test in which
it does not.
-/

namespace SkiVmm.Sched

open Lib

section Demoted
variable {s : State}

/-- The state after an inversion. -/
def demoted (s : State) (id : Nat) : State :=
  { s.modifyThread id fun tc => { tc with priority := lowestPriority s + 1 } with needReevaluate := true }

theorem skiThreadsInvertPriority_eq {id : Nat} (h : s.current = some id) :
    skiThreadsInvertPriority s = .ok (demoted s id) := by
  unfold skiThreadsInvertPriority
  rw [h]
  rfl

theorem demoted_sane (h : Sane s) (id : Nat) : Sane (demoted s id) := by
  have hhandlers : (demoted s id).handlers = s.handlers := by
    apply handlers_modifyThread_eq
    exact fun _ => rfl
  exact ⟨hhandlers ▸ h.handlers_ok, h.rs_init, h.idle_empty⟩

theorem le_lowestPriority {d : ThreadContext} (hd : d ∈ s.threads) (hconsidered : invertConsiders s d = true) :
    d.priority ≤ lowestPriority s := by
  have hall := foldl_max_le_iff.mp (Int.le_refl (lowestPriority s))
  exact hall.2 d (List.mem_filter.mpr ⟨hd, hconsidered⟩)

theorem threads_demoted {r : ThreadContext} (hr : s.threads[r.id]? = some r) :
    (demoted s r.id).threads = s.threads.set r.id { r with priority := lowestPriority s + 1 } := modify_eq_set hr

/-- Priorities are still small after one more inversion. -/
theorem Reachable.demoted_le {setup : Setup} (h : Reachable setup s) {r : ThreadContext} (hr : r ∈ s.threads) :
    ∀ tc ∈ (demoted s r.id).threads, tc.priority + tc.priorityAdjust ≤ livenessPriorityNopauseLoop := by
  have hlowest : lowestPriority s ≤ 527 := by
    refine lowestPriority_le (by decide) ?_
    intro x hx
    obtain ⟨tc, htc, rfl⟩ := List.mem_map.mp hx
    exact (h.priority_le htc).1
  have hsmall : ∀ p a : Int, p ≤ 528 → a < debugMaxAdjust → p + a ≤ livenessPriorityNopauseLoop := by
    intro p a hp ha
    unfold debugMaxAdjust at ha
    unfold livenessPriorityNopauseLoop
    omega
  intro tc htc
  rw [threads_demoted (h.sane.handlers_ok.getElem?_id hr)] at htc
  rcases List.mem_or_eq_of_mem_set htc with htc | rfl
  · obtain ⟨hp, ha⟩ := h.priority_le htc
    exact hsmall _ _ (by omega) ha
  · exact hsmall _ _ (show lowestPriority s + 1 ≤ 528 by omega) (h.priority_le hr).2

end Demoted

/-- **The preempted thread is not selected next** if another eligible thread `b` is before the place that a thread
    `d` among those considered gives it. -/
theorem preempted_not_selected {setup : Setup} {s : State} (h : Reachable setup s) {r b d : ThreadContext}
    (hcurrent : s.current = some r.id) (hr : r ∈ s.threads) (hb : b ∈ s.threads) (heligible : eligible s b = true)
    (hne : b.id ≠ r.id) (hd : d ∈ s.threads) (hconsidered : invertConsiders s d = true)
    (hplace : b.priority + b.priorityAdjust ≤ d.priority + r.priorityAdjust ∨
      b.priority + b.priorityAdjust = d.priority + r.priorityAdjust + 1 ∧ r.id < b.id) :
    ∃ t, skiThreadsInvertPriority s = .ok t ∧ ∃ tc, skiThreadsFindNextRunnable t = .ok tc ∧ tc.id ≠ r.id := by
  have hsane := h.sane
  have hrid := hsane.handlers_ok.getElem?_id hr
  have hthreads := threads_demoted hrid
  have hlowest := le_lowestPriority hd hconsidered
  have hb' : b ∈ (demoted s r.id).threads := by
    refine List.mem_of_getElem? (i := b.id) ?_
    rw [hthreads, List.getElem?_set_ne hne.symm]
    exact hsane.handlers_ok.getElem?_id hb
  obtain ⟨tc, hfind⟩ := exists_findNextRunnable (h.demoted_le hr) hb' heligible
  refine ⟨demoted s r.id, skiThreadsInvertPriority_eq hcurrent, tc, hfind, ?_⟩
  intro hid
  obtain ⟨⟨htc, htceligible, hbefore⟩, -⟩ := (demoted_sane hsane r.id).findNextRunnable_iff.mp hfind
  -- the thread selected is the demoted one
  have htc' : tc = { r with priority := lowestPriority s + 1 } := by
    have hat := (demoted_sane hsane r.id).handlers_ok.getElem?_id htc
    rw [hid, hthreads, List.getElem?_set_self (List.getElem?_eq_some_iff.mp hrid).1] at hat
    exact (Option.some.inj hat).symm
  have hbpriority : skiThreadsCalculatePriority (demoted s r.id) b = b.priority + b.priorityAdjust :=
    eligible_priority heligible
  have hfirst := hbefore b hb' heligible
  unfold Before Precedes at hfirst
  rw [eligible_priority htceligible, hbpriority, htc'] at hfirst
  simp only at hfirst
  omega

/-! ### Two tests with an interrupt that has not been triggered -/

/-- One CPU, the CPU thread first, and threads of the vectors 50 and 49. -/
def cpuFirst : Setup where
  cpus := [{ active := true, nrMaxInstr := 0, irq := Cpu.idle.irq }]
  table := [{ cpu := 0, i := -1, n := 1 }, { cpu := 0, i := 50, n := 1 }, { cpu := 0, i := 49, n := 1 }]
  preemptions := [1]
  preemptionMode := .all
  nrCpus := 1
  table_cpus := by decide
  table_ints := by decide
  table_length := by decide
  preemptions_pos := onePoint_pos
  preemptions_length := onePoint_length

/-- The CPU thread runs, and the vector is requested while the CPU takes interrupts. -/
def requestRunning (v : Int) : List Event :=
  [.canRun 0, .newIrqSet 0 v,
    .setIrq 0 { hard := true, vintr := false, hif := false, interruptFlag := true, inhibitIrq := false }]

theorem preempted_not_selected_adjacent :
    ∃ s, Reachable cpuFirst s ∧ ∃ r ∈ s.threads, s.current = some r.id ∧
      ∃ t, skiThreadsInvertPriority s = .ok t ∧ ∃ tc, skiThreadsFindNextRunnable t = .ok tc ∧ tc.id ≠ r.id := by
  obtain ⟨s, hreach, hthreads⟩ := exists_reachable_of_exec cpuFirst (requestRunning 50)
    (p := fun s => s.threads.any fun r => s.current = some r.id && invertConsiders s r &&
      s.threads.any fun b => eligible s b && b.id ≠ r.id &&
        (b.priority + b.priorityAdjust = r.priority + r.priorityAdjust + 1 && r.id < b.id)) (by decide)
  simp only [List.any_eq_true, Bool.and_eq_true, decide_eq_true_eq] at hthreads
  obtain ⟨r, hr, ⟨hcurrent, hconsidered⟩, b, hb, ⟨heligible, hne⟩, hplace⟩ := hthreads
  exact ⟨s, hreach, r, hr, hcurrent,
    preempted_not_selected hreach hcurrent hr hb heligible hne hr hconsidered (.inr hplace)⟩

/-- The CPU thread is preempted, and it is selected again: the thread of vector 49 is eligible, but it is two
    places behind, and its place is not looked at because it has not been triggered. -/
theorem preempted_selected_again :
    ∃ s, Reachable cpuFirst s ∧ ∃ r ∈ s.threads, s.current = some r.id ∧ eligible s r = true ∧
      (∃ b ∈ s.threads, b.id ≠ r.id ∧ eligible s b = true) ∧
      ∃ t tc, skiThreadsInvertPriority s = .ok t ∧ skiThreadsFindNextRunnable t = .ok tc ∧ tc.id = r.id := by
  obtain ⟨s, hreach, hagain⟩ := exists_reachable_of_exec cpuFirst (requestRunning 49)
    (p := fun s => s.threads.any fun r => s.current = some r.id && eligible s r &&
      s.threads.any (fun b => b.id ≠ r.id && eligible s b) &&
      (skiThreadsInvertPriority s).toOption.any fun t =>
        (skiThreadsFindNextRunnable t).toOption.any fun tc => tc.id = r.id) (by decide)
  simp only [List.any_eq_true, Bool.and_eq_true, decide_eq_true_eq] at hagain
  obtain ⟨r, hr, ⟨⟨hcurrent, hreligible⟩, b, hb, hne, heligible⟩, hselected⟩ := hagain
  refine ⟨s, hreach, r, hr, hcurrent, hreligible, ⟨b, hb, hne, heligible⟩, ?_⟩
  obtain ⟨t, ht, htc⟩ := exists_of_toOption_any hselected
  obtain ⟨tc, htc, hid⟩ := exists_of_toOption_any htc
  exact ⟨t, tc, ht, htc, of_decide_eq_true hid⟩

/-! ## The priority of the preempted thread -/

theorem le_lowestPriority_iff (s : State) {p : Int} (hp : 0 ≤ p) :
    p ≤ lowestPriority s ↔ p = 0 ∨ ∃ d ∈ s.threads, invertConsiders s d = true ∧ p ≤ d.priority := by
  constructor
  · intro hle
    by_contra hnone
    rw [not_or] at hnone
    have hbelow : lowestPriority s ≤ p - 1 := by
      refine foldl_max_le_iff.mpr ⟨by omega, ?_⟩
      intro d hd
      obtain ⟨hmem, hconsidered⟩ := List.mem_filter.mp hd
      by_contra hgt
      exact hnone.2 ⟨d, hmem, hconsidered, by omega⟩
    omega
  · rintro (rfl | ⟨d, hd, hconsidered, hle⟩)
    · exact lowestPriority_nonneg s
    · exact Int.le_trans hle (le_lowestPriority hd hconsidered)

/-- The thread at an index, by its weight. -/
theorem exists_of_weights {s : State} {i : Nat} {w : Int × Int} (h : s.weights[i]? = some w) :
    ∃ tc, s.threads[i]? = some tc ∧ tc.weight = w := by
  unfold State.weights at h
  rw [List.getElem?_map] at h
  exact Option.map_eq_some_iff.mp h

/-- **A preemption point moves the current thread behind**, in every state in which it is reached, exactly if the
    thread has priority 0 or one of the threads that are considered does not come before it. -/
theorem preempted_behind_iff {setup : Setup} {s t : State} {c : Nat} (h : Reachable setup s)
    (hstep : step setup s (.guest c .possibleInversionPoint) = .ok t) (hcalled : t.inverted ≠ s.inverted) :
    ∃ r r' : ThreadContext, s.current = some r.id ∧ s.threads[r.id]? = some r ∧ t.threads[r.id]? = some r' ∧
      (r.priority < r'.priority ↔
        r.priority = 0 ∨ ∃ d ∈ s.threads, invertConsiders s d = true ∧ r.priority ≤ d.priority) := by
  cases step_tally h.sane.handlers_ok hstep with
  | keep hsteady => exact absurd hsteady.inverted_eq hcalled
  | @invert _ id hid hweights =>
    obtain ⟨r, hr⟩ := h.focused.current_lt id hid
    obtain rfl : r.id = id := h.sane.handlers_ok.id_of_getElem? hr
    have hnew : t.weights[r.id]? = some (lowestPriority s + 1, r.priorityAdjust) := by
      rw [hweights, List.getElem?_modify, State.weights, List.getElem?_map, hr]
      simp [ThreadContext.weight]
    obtain ⟨r', hr', hweight⟩ := exists_of_weights hnew
    refine ⟨r, r', hid, hr, hr', ?_⟩
    have hnonneg : 0 ≤ r.priority := h.weighed.priority_nonneg r.weight (List.mem_map_of_mem (List.mem_of_getElem? hr))
    rw [← le_lowestPriority_iff s hnonneg, show r'.priority = lowestPriority s + 1 from congrArg Prod.fst hweight]
    exact Int.lt_add_one_iff

/-- The CPU thread is preempted: it is considered itself. -/
theorem preempted_behind_cpuFirst :
    ∃ s t, Reachable cpuFirst s ∧ step cpuFirst s (.guest 0 .possibleInversionPoint) = .ok t ∧
      ∃ r r' : ThreadContext, s.current = some r.id ∧ s.threads[r.id]? = some r ∧ t.threads[r.id]? = some r' ∧
        (r.priority < r'.priority ↔
          r.priority = 0 ∨ ∃ d ∈ s.threads, invertConsiders s d = true ∧ r.priority ≤ d.priority) := by
  obtain ⟨s, hreach, hs⟩ := exists_reachable_of_exec cpuFirst [.canRun 0]
    (p := fun s => (step cpuFirst s (.guest 0 .possibleInversionPoint)).toOption.any fun t => t.inverted ≠ s.inverted)
    (by decide)
  obtain ⟨t, hstep, hcalled⟩ := exists_of_toOption_any hs
  exact ⟨s, t, hreach, hstep, preempted_behind_iff hreach hstep (of_decide_eq_true hcalled)⟩

/-- The CPU is halted, and a preemption point is reached in the handler of vector 49. No thread is considered, so the
    priority of the handler goes from 2 to 1. -/
theorem preempted_raised :
    ∃ s t, Reachable cpuFirst s ∧ step cpuFirst s (.guest 0 .possibleInversionPoint) = .ok t ∧
      t.inverted ≠ s.inverted ∧ ∃ r r' : ThreadContext, s.current = some r.id ∧ s.threads[r.id]? = some r ∧
        t.threads[r.id]? = some r' ∧ r'.priority < r.priority := by
  obtain ⟨s, hreach, hs⟩ := exists_reachable_of_exec cpuFirst
    [.canRun 0, .guest 0 .hlt, .leave, .newIrqSet 0 49,
      .setIrq 0 { hard := true, vintr := false, hif := false, interruptFlag := true, inhibitIrq := false },
      .canRun 0, .guest 0 .dispatch, .leave, .canRun 0]
    (p := fun s => (step cpuFirst s (.guest 0 .possibleInversionPoint)).toOption.any fun t =>
      t.inverted ≠ s.inverted && (s.current.bind (s.threads[·]?)).any fun r => s.current = some r.id &&
        s.threads[r.id]? = some r && t.threads[r.id]?.any fun r' => r'.priority < r.priority) (by decide)
  obtain ⟨t, hstep, ht⟩ := exists_of_toOption_any hs
  simp only [Bool.and_eq_true, decide_eq_true_eq, Option.any_eq_true] at ht
  obtain ⟨hcalled, r, -, ⟨hid, hr⟩, r', hr', hlt⟩ := ht
  exact ⟨s, t, hreach, hstep, hcalled, r, r', hid, hr, hr', hlt⟩

end SkiVmm.Sched
