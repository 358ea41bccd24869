import SkiVmm.Sched.Participants
import SkiVmm.Sched.Tally

/-!
# `Sched.Trigger` — the interrupt that begins is the one that was selected

The selection and the begin of a handler search the table separately: `ski_threads_find_next_runnable` among all
threads that are eligible, `ski_handle_interrupt_begin` among the threads of the vector that wait for their trigger.
When the first one returns a thread that waits for its trigger, the second one finds the same thread
(`triggered_is_selected`): threads of one vector on one CPU are eligible together unless they wait, and one that waits
is behind all that do not.
-/

namespace SkiVmm.Sched

open Lib

section Trigger
variable {setup : Setup} {s t u : State} {ev : Event} {tc b : ThreadContext}

/-- The threads of the CPUs themselves are always RUNNABLE. -/
theorem Change.cpuThread_runnable (h : Change s t ev tc b) (hcpu : tc.isInt = false → tc.state = .runnable) :
    b.isInt = false → b.state = .runnable := by
  cases h with
  | same | wait | pause | wake | weigh => exact hcpu
  | spawn _ hint | trigger _ hint | finish _ hint =>
    intro hnot
    exact absurd (hint.symm.trans hnot) (by decide)

theorem Reachable.isInt_of_needsTrigger (h : Reachable setup s) (htc : tc ∈ s.threads)
    (hneeds : tc.state = .needsTrigger) : tc.isInt = true := by
  obtain ⟨events, hrun⟩ := h
  have hcpu : ∀ tc ∈ s.threads, tc.isInt = false → tc.state = .runnable := by
    refine run_threads hrun ?_ fun _ hchange => hchange.cpuThread_runnable
    intro tc htc hcpu
    obtain ⟨i, e, -, rfl⟩ := setup.exists_entry htc
    exact if_neg (of_decide_eq_false hcpu)
  cases hint : tc.isInt with
  | true => rfl
  | false =>
    rw [hcpu tc htc hint] at hneeds
    cases hneeds

/-- **Two threads of one vector on one CPU** are eligible together, if none of them waits. -/
theorem Sane.eligible_of_sibling (h : Sane s) (htc : tc ∈ s.threads) (hb : b ∈ s.threads) (hint : tc.isInt = true)
    (hint' : b.isInt = true) (hcpu : b.cpuNo = tc.cpuNo) (hno : b.intNo = tc.intNo) (hpresent : b.present = true)
    (hawake : b.waitsOnRs = false) (heligible : eligible s tc = true) : eligible s b = true := by
  obtain ⟨-, -, hable⟩ := (eligible_int hint).mp heligible
  refine (eligible_int hint').mpr ⟨hpresent, hawake, ?_⟩
  rw [h.isTop_iff hb, hcpu, hno, ← h.isTop_iff htc]
  exact hable

/-- A thread that waits is behind all threads that do not. -/
theorem Reachable.before_of_waits (h : Reachable setup s) (htc : tc ∈ s.threads) (hb : b ∈ s.threads)
    (heligible : eligible s tc = true) (hwaits : b.waitsOnRs = true) : Before s tc b := by
  left
  rw [eligible_priority heligible]
  exact Int.lt_of_lt_of_le (h.effective_bounds htc).2 (h.le_priority_of_waits hb hwaits s)

/-- **Both searches find the same thread.** -/
theorem Reachable.find_of_selected (h : Reachable setup s) (hfind : skiThreadsFindNextRunnable s = .ok tc)
    (hneeds : tc.state = .needsTrigger) (hthreads : u.threads = s.threads) :
    skiThreadsFind u true tc.cpuNo tc.intNo .needsTrigger = some tc := by
  obtain ⟨⟨htc, heligible, hfirst⟩, -⟩ := h.sane.findNextRunnable_iff.mp hfind
  have hint := h.isInt_of_needsTrigger htc hneeds
  have hpresent : tc.present = true := ((eligible_int hint).mp heligible).1
  refine (skiThreadsFind_iff (hthreads ▸ h.sane.pairwise_ids)).mpr ⟨⟨hthreads ▸ htc, ?_⟩, ?_⟩
  · simp [sought, hpresent, hneeds, hint]
  · intro b hb hsought
    rw [hthreads] at hb
    simp only [sought, Bool.and_eq_true, decide_eq_true_eq] at hsought
    obtain ⟨⟨hpresent', -⟩, ⟨hcpu, hint'⟩, hno⟩ := hsought
    have hbefore : Before s tc b := by
      cases hwaits : b.waitsOnRs with
      | true => exact h.before_of_waits htc hb heligible hwaits
      | false =>
        exact hfirst b hb (h.sane.eligible_of_sibling htc hb hint hint' hcpu hno hpresent' hwaits heligible)
    exact (before_int_iff hint hint' s u).mpr hbefore

/-- The begin of the interrupt of a selected thread, in a state with the same threads. -/
theorem Reachable.begin_of_selected (h : Reachable setup s) (hfind : skiThreadsFindNextRunnable s = .ok tc)
    (hneeds : tc.state = .needsTrigger) (hthreads : u.threads = s.threads) (hcurrent : u.current = some tc.id) :
    ((∀ si ∈ (u.cpu tc.cpuNo).interruptsStack, si.present = true) ∧
        skiHandleInterruptBegin u tc.cpuNo tc.intNo false true = .error .assertFailed) ∨
      ∃ v, skiHandleInterruptBegin u tc.cpuNo tc.intNo false true = .ok v ∧
        v.threads = u.threads.set tc.id { tc with state := .runnable } := by
  have hid : u.threads[tc.id]? = some tc := by
    rw [hthreads]
    exact h.sane.handlers_ok.getElem?_id (h.sane.findNextRunnable_iff.mp hfind).1.1
  unfold skiHandleInterruptBegin
  simp only
  split
  · next hfull => exact .inl ⟨used_of_fillFirst_eq_none hfull, rfl⟩
  · next stack _ =>
    have hfound := h.find_of_selected hfind hneeds (u := u.pushed tc.cpuNo stack) hthreads
    unfold State.pushed at hfound
    rw [if_pos (by rfl), hfound]
    simp only
    rw [if_pos (show (u.modifyCpu tc.cpuNo _).current = some tc.id from hcurrent)]
    exact .inr ⟨_, rfl, modify_eq_set hid⟩

/-- The vector that the CPU takes is the one of the current thread. -/
theorem eq_of_dispatchedVector {c : Nat} {v : Int} (hcurrent : s.current = some tc.id)
    (htc : s.threads[tc.id]? = some tc) (h : dispatchedVector s c = some v) : v = tc.intNo := by
  unfold dispatchedVector at h
  rw [hcurrent, Option.bind_some, htc] at h
  simp only at h
  split at h
  · exact (Option.some.inj h).symm
  · cases h

/-- A dispatch that fails has failed at the begin of the interrupt. -/
theorem begin_of_dispatch_error {c : Nat} {e : SkiExit} (h : step setup s (.guest c .dispatch) = .error e)
    (he : e ≠ .impossible) :
    ∃ v, dispatchedVector s c = some v ∧
      skiHandleInterruptBegin (s.modifyCpu c fun cpu => { cpu with irq := { cpu.irq with hard := false } })
        c v false true = .error e := by
  unfold step at h
  simp only at h
  split at h
  · exact absurd (Except.error.inj h).symm he
  · split at h
    · cases h
    · unfold guestStep at h
      simp only at h
      split at h
      · exact absurd (Except.error.inj h).symm he
      · next v hvector => exact ⟨v, hvector, h⟩

/-- The lines of CPUs change, and nothing of the scheduler. -/
theorem run_setIrq {events : List Event} (h : Run (step setup) (fun _ ev => ∃ c irq, ev = .setIrq c irq) s events t) :
    t.threads = s.threads ∧ t.current = s.current := by
  refine Run.invariant (P := fun t => t.threads = s.threads ∧ t.current = s.current) h ?_ ⟨rfl, rfl⟩
  rintro u ev v ⟨hthreads, hcurrent⟩ ⟨c, irq, rfl⟩ hstep
  obtain rfl := Except.ok.inj hstep
  exact ⟨hthreads, hcurrent⟩

/-- A poll of the CPU of a selected interrupt thread makes it the current one. -/
theorem Reachable.poll_trigger (h : Reachable setup s) (hfind : skiThreadsFindNextRunnable s = .ok tc)
    (hint : tc.isInt = true) (hpoll : step setup s (.canRun tc.cpuNo) = .ok t) :
    t.threads = s.threads ∧ t.current = some tc.id := by
  obtain ⟨⟨htc, heligible, -⟩, -⟩ := h.sane.findNextRunnable_iff.mp hfind
  obtain ⟨e, -, hbelongs⟩ := h.assigned.entry_of_mem htc
  obtain ⟨u, hrun, hthreads, hcurrent, -⟩ :=
    h.poll_selected hfind (hbelongs.spawned hint ((eligible_int hint).mp heligible).1)
  obtain ⟨-, -, u', res, hrun', rfl⟩ := step_canRun_cases hpoll
  obtain ⟨rfl, -⟩ := Prod.mk.inj (Except.ok.inj (hrun.symm.trans hrun'))
  exact ⟨hthreads, hcurrent⟩

end Trigger

/-- **The selected thread gets the trigger.** A thread that waits for its trigger is selected, its CPU is polled, and
    its interrupt begins after nothing but changes of interrupt lines. Then the thread that becomes RUNNABLE is this
    one, unless the interrupt stack is full, and the process does not end with `SKI_EXIT_ASSERT_INTERRUPT`. -/
theorem triggered_is_selected {setup : Setup} {s t u : State} {tc : ThreadContext} {events : List Event}
    (h : Reachable setup s) (hfind : skiThreadsFindNextRunnable s = .ok tc) (hneeds : tc.state = .needsTrigger)
    (hpoll : step setup s (.canRun tc.cpuNo) = .ok t)
    (hbetween : Run (step setup) (fun _ ev => ∃ c irq, ev = .setIrq c irq) t events u) :
    (((∀ si ∈ (u.cpu tc.cpuNo).interruptsStack, si.present = true) ∧
        skiHandleInterruptBegin u tc.cpuNo tc.intNo false true = .error .assertFailed) ∨
      ∃ v, skiHandleInterruptBegin u tc.cpuNo tc.intNo false true = .ok v ∧
        v.threads = u.threads.set tc.id { tc with state := .runnable }) ∧
    step setup u (.guest tc.cpuNo .dispatch) ≠ .error .assertInterrupt := by
  have htc : tc ∈ s.threads := (h.sane.findNextRunnable_iff.mp hfind).1.1
  obtain ⟨hthreads, hcurrent⟩ := h.poll_trigger hfind (h.isInt_of_needsTrigger htc hneeds) hpoll
  obtain ⟨hthreads', hcurrent'⟩ := run_setIrq hbetween
  have hsame : u.threads = s.threads := hthreads'.trans hthreads
  have hnow : u.current = some tc.id := hcurrent'.trans hcurrent
  refine ⟨h.begin_of_selected hfind hneeds hsame hnow, ?_⟩
  intro herror
  obtain ⟨v, hvector, herror⟩ := begin_of_dispatch_error herror (by decide)
  obtain rfl := eq_of_dispatchedVector hnow (hsame ▸ h.sane.handlers_ok.getElem?_id htc) hvector
  rcases h.begin_of_selected hfind hneeds
    (u := u.modifyCpu tc.cpuNo fun cpu => { cpu with irq := { cpu.irq with hard := false } }) hsame hnow with
    ⟨-, hfull⟩ | ⟨w, hok, -⟩
  · rw [hfull] at herror
    cases herror
  · rw [hok] at herror
    cases herror

/-- The vector is requested twice, and the first of its threads gets the trigger. -/
theorem triggered_is_selected_twoOfOneVector :
    ∃ s t tc, Reachable twoOfOneVector s ∧ skiThreadsFindNextRunnable s = .ok tc ∧ tc.state = .needsTrigger ∧
      step twoOfOneVector s (.canRun tc.cpuNo) = .ok t ∧
      step twoOfOneVector t (.guest tc.cpuNo .dispatch) ≠ .error .assertInterrupt := by
  obtain ⟨s, hreach, hs⟩ := exists_reachable_of_exec twoOfOneVector
    [.newIrqSet 0 49, .newIrqSet 0 49, .setIrq 0 openIrq]
    (p := fun s => (skiThreadsFindNextRunnable s).toOption.any fun tc => tc.state = .needsTrigger &&
      (step twoOfOneVector s (.canRun tc.cpuNo)).toOption.isSome) (by decide)
  obtain ⟨tc, hfind, hs⟩ := exists_of_toOption_any hs
  simp only [Bool.and_eq_true, decide_eq_true_eq] at hs
  obtain ⟨hneeds, hpoll⟩ := hs
  obtain ⟨t, hpoll, -⟩ := exists_of_toOption_any (p := fun _ => true) (by simpa using hpoll)
  exact ⟨s, t, tc, hreach, hfind, hneeds, hpoll, (triggered_is_selected hreach hfind hneeds hpoll (.nil t)).2⟩

end SkiVmm.Sched
