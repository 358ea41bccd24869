import SkiVmm.Sched.Selection

/-!
# `Sched.Nesting` — which interrupt threads may run while handlers are nested

A CPU that is in a handler should run that handler, or one that it may start on top of it. The selection asks
instead whether the number of hardware entries of the vector is the `reentry_no` of the thread plus one
(`skiInterruptsIsTopHwStack_iff`), and `reentry_no` is always 0. Two results follow:

* `selected_handler_on_top` — if handlers are not nested and a vector is requested again only after its handler
  has ended, then an interrupt thread that is selected is the one on top of the stack, or one that can start now.
* `handler_on_top_eligible` — if no vector is dispatched again inside of its own handler, then the thread of the
  handler on top can be selected.

Both fail without the condition: `outer_handler_selected` and `reentered_handler_blocked` are tests that get there.
-/

namespace SkiVmm.Sched

open Lib

/-! ## The test for the top of the stack -/

/-- The topmost hardware entry of the interrupt stack. -/
def topHwEntry (cpu : Cpu) : Option SkiInterrupt := (cpu.interruptsStack.filter SkiInterrupt.isHwEntry).getLast?

/-- The test counts the hardware entries of the vector, one cell too far. -/
theorem skiInterruptsIsTopHwStack_iff (s : State) (tc : ThreadContext) :
    skiInterruptsIsTopHwStack s tc = true ↔
      tc.reentryNo + 1 = (s.cpu tc.cpuNo).interruptsStack.countP (hwOf tc.intNo) +
        (if hwOf tc.intNo (pastEnd (s.cpu tc.cpuNo)) then 1 else 0) := by
  have hcount : hwReentryNo (s.cpu tc.cpuNo) tc.intNo
      = -1 + ((s.cpu tc.cpuNo).interruptsStack ++ [pastEnd (s.cpu tc.cpuNo)]).countP (hwOf tc.intNo) :=
    foldl_count (hwOf tc.intNo) _ _
  unfold skiInterruptsIsTopHwStack
  rw [decide_eq_true_iff, hcount, List.countP_append, List.countP_singleton]
  split_ifs <;> omega

section Counts
variable {s : State}

/-- The hardware entries of a vector on a CPU, counted by the threads in its handlers. -/
theorem Sane.countP_hwOf (h : Sane s) (c : Nat) (v : Int) :
    (s.cpu c).interruptsStack.countP (hwOf v) = s.handlers.shapes.countP (inHandler c v) := by
  have hmatched := h.handlers_ok.matched c v
  rwa [State.frame_handlers] at hmatched

theorem topHwEntry_spec {cpu : Cpu} {si : SkiInterrupt} (h : topHwEntry cpu = some si) :
    0 < cpu.interruptsStack.countP (hwOf si.intNo) := by
  obtain ⟨hmem, hhw⟩ := List.mem_filter.mp (List.mem_of_getLast? h)
  refine List.countP_pos_iff.mpr ⟨si, hmem, ?_⟩
  simp [hwOf, hhw]

theorem exists_topHwEntry {cpu : Cpu} {v : Int} (h : 0 < cpu.interruptsStack.countP (hwOf v)) :
    ∃ si, topHwEntry cpu = some si := by
  obtain ⟨si, hmem, hsi⟩ := List.countP_pos_iff.mp h
  have hin : si ∈ cpu.interruptsStack.filter SkiInterrupt.isHwEntry := by
    refine List.mem_filter.mpr ⟨hmem, ?_⟩
    simp only [hwOf, Bool.and_eq_true] at hsi
    exact hsi.1
  exact ⟨_, List.getLast?_eq_some_getLast (List.ne_nil_of_mem hin)⟩

/-- Off the vector 1 the test is exact on the count. -/
theorem Sane.isTopHwStack_iff (h : Sane s) {tc : ThreadContext} (htc : tc ∈ s.threads) (hv : tc.intNo ≠ 1) :
    skiInterruptsIsTopHwStack s tc = true ↔ s.handlers.shapes.countP (inHandler tc.cpuNo tc.intNo) = 1 := by
  have hreentry : tc.reentryNo = 0 := h.handlers_ok.shapes_ok.reentry_eq tc.shape (List.mem_map_of_mem htc)
  have hpast : ¬ hwOf tc.intNo (pastEnd (s.cpu tc.cpuNo)) = true := fun hp => hv (h.hwOf_pastEnd _ hp)
  rw [skiInterruptsIsTopHwStack_iff, hreentry, if_neg hpast, h.countP_hwOf]
  omega

/-- The threads of a vector on a CPU that are in its handler. -/
def isHandlerOf (c : Nat) (v : Int) (tc : ThreadContext) : Bool :=
  tc.present && tc.isInt && tc.state = .runnable && tc.cpuNo = c && tc.intNo = v

theorem isHandlerOf_eq (c : Nat) (v : Int) (tc : ThreadContext) : isHandlerOf c v tc = inHandler c v tc.shape := by
  unfold isHandlerOf inHandler
  rw [Bool.and_comm tc.present]
  rfl

/-- These are the threads that the end of a handler searches. -/
theorem sought_runnable (c : Nat) (v : Int) (tc : ThreadContext) :
    sought true c v .runnable tc = isHandlerOf c v tc := by
  unfold sought isHandlerOf
  cases tc.present <;> cases tc.isInt <;> simp [Bool.and_assoc]

end Counts

/-! ## The handler on top can run -/

/-- The thread of the topmost hardware entry of a CPU exists, and it is eligible unless it waits. -/
def HandlerEligible (s : State) : Prop :=
  ∀ c si, topHwEntry (s.cpu c) = some si →
    (∃ tc ∈ s.threads, isHandlerOf c si.intNo tc = true) ∧
    ∀ tc ∈ s.threads, isHandlerOf c si.intNo tc = true → tc.waitsOnRs = false → eligible s tc = true

/-- The stack of the CPU has no hardware entry of the vector. -/
def outside (s : State) (c : Nat) (v : Int) : Bool := (s.cpu c).interruptsStack.all fun si => !hwOf v si

/-- No vector is dispatched inside of its own handler, and vector 1 is not used. -/
def notReentered (s : State) : Event → Bool
  | .guest c .dispatch => (dispatchedVector s c).all fun v => v ≠ 1 && outside s c v
  | _ => true

/-- At most one thread is in the handlers of a vector on a CPU, none in those of vector 1. -/
structure Single (h : Handlers) : Prop where
  le_one : ∀ c v, h.shapes.countP (inHandler c v) ≤ 1
  none_of_one : ∀ c, h.shapes.countP (inHandler c 1) = 0

section Eligible
variable {s t : State} {ev : Event}

theorem Sane.countP_of_outside (h : Sane s) {c : Nat} {v : Int} (hv : outside s c v = true) :
    s.handlers.shapes.countP (inHandler c v) = 0 := by
  rw [← h.countP_hwOf, List.countP_eq_zero]
  intro si hsi hhw
  have := List.all_eq_true.mp hv si hsi
  rw [hhw] at this
  cases this

theorem Single.step (h : Single s.handlers) (hsane : Sane s) (hguard : notReentered s ev = true)
    (heffect : Effect s t ev) : Single t.handlers := by
  obtain ⟨l, hstep, -, hdispatch⟩ := heffect.handlers
  -- a dispatch finds the handler of its vector empty
  have hempty : ∀ c v, l = .dispatch c v → v ≠ 1 ∧ s.handlers.shapes.countP (inHandler c v) = 0 := by
    intro c v hl
    obtain ⟨rfl, hvector⟩ := hdispatch c v hl
    simp only [notReentered, hvector, Option.all_some, Bool.and_eq_true, decide_eq_true_eq] at hguard
    exact ⟨hguard.1, hsane.countP_of_outside hguard.2⟩
  constructor
  · intro c v
    have hcount := hstep.countP_inHandler_le c v
    split_ifs at hcount with hl
    · rw [(hempty c v hl).2] at hcount
      exact hcount
    · exact Nat.le_trans hcount (h.le_one c v)
  · intro c
    have hcount := hstep.countP_inHandler_le c 1
    rw [if_neg fun hl => (hempty c 1 hl).1 rfl, h.none_of_one c] at hcount
    exact Nat.le_zero.mp hcount

theorem Single.handlerEligible (hsane : Sane s) (h : Single s.handlers) : HandlerEligible s := by
  intro c si htop
  have hpos := topHwEntry_spec htop
  rw [hsane.countP_hwOf] at hpos
  have hone : s.handlers.shapes.countP (inHandler c si.intNo) = 1 := Nat.le_antisymm (h.le_one c si.intNo) hpos
  have hne : si.intNo ≠ 1 := by
    intro heq
    rw [heq, h.none_of_one c] at hpos
    exact Nat.lt_irrefl 0 hpos
  constructor
  · obtain ⟨sh, hsh, hin⟩ := List.countP_pos_iff.mp hpos
    obtain ⟨tc, htc, rfl⟩ := List.mem_map.mp hsh
    exact ⟨tc, htc, (isHandlerOf_eq c si.intNo tc).trans hin⟩
  · intro tc htc hin hwaits
    simp only [isHandlerOf, Bool.and_eq_true, decide_eq_true_eq] at hin
    obtain ⟨⟨⟨⟨hpresent, hint⟩, -⟩, rfl⟩, hno⟩ := hin
    rw [← hno] at hone hne
    have htop := (hsane.isTopHwStack_iff htc hne).mpr hone
    simp [eligible, hpresent, hint, hwaits, htop]

end Eligible

/-- **The thread of the handler on top of a stack can run**, in a test where no vector is dispatched inside of its
    own handler. -/
theorem handler_on_top_eligible {setup : Setup} {events : List Event} {s : State}
    (h : Run (step setup) (fun s ev => notReentered s ev = true) setup.start events s) : HandlerEligible s := by
  have hsingle : Single s.handlers := by
    refine run_invariant (P := fun s => Single s.handlers) h ?_ fun hsane hsingle hguard heffect =>
      hsingle.step hsane hguard heffect
    constructor
    · intro c v
      rw [setup.countP_start fun _ => inHandler_exists]
      exact Nat.zero_le 1
    · intro c
      exact setup.countP_start fun _ => inHandler_exists
  exact hsingle.handlerEligible (run_sane h)

/-! ### Two tests with interrupts -/

/-- An interrupt request that the CPU can take. -/
def openIrq : IrqLines := { hard := true, vintr := false, hif := false, interruptFlag := true, inhibitIrq := false }

/-- One CPU, a thread of vector 50, one of vector 49, and the CPU thread. -/
def twoVectors : Setup where
  cpus := [{ active := true, nrMaxInstr := 0, irq := Cpu.idle.irq }]
  table := [{ cpu := 0, i := 50, n := 1 }, { cpu := 0, i := 49, n := 1 }, { cpu := 0, i := -1, n := 1 }]
  preemptions := [1]
  preemptionMode := .cpuAndNontimer
  nrCpus := 1
  table_cpus := by decide
  table_ints := by decide
  table_length := by decide
  preemptions_pos := onePoint_pos
  preemptions_length := onePoint_length

/-- One CPU, two threads of vector 49, and the CPU thread. -/
def twoOfOneVector : Setup where
  cpus := [{ active := true, nrMaxInstr := 0, irq := Cpu.idle.irq }]
  table := [{ cpu := 0, i := 49, n := 1 }, { cpu := 0, i := 49, n := 1 }, { cpu := 0, i := -1, n := 1 }]
  preemptions := [1]
  preemptionMode := .cpuAndNontimer
  nrCpus := 1
  table_cpus := by decide
  table_ints := by decide
  table_length := by decide
  preemptions_pos := onePoint_pos
  preemptions_length := onePoint_length

/-- The vector is requested while the CPU takes interrupts, and the CPU is polled. -/
def request (v : Int) : List Event := [.leave, .newIrqSet 0 v, .setIrq 0 openIrq, .canRun 0]

theorem handler_on_top_eligible_dispatched :
    ∃ s, (topHwEntry (s.cpu 0)).isSome = true ∧ HandlerEligible s := by
  have hexec : (exec (step twoVectors) notReentered twoVectors.start (request 49 ++ [Event.guest 0 .dispatch])).any
      (fun s => (topHwEntry (s.cpu 0)).isSome) = true := by decide
  obtain ⟨s, hrun, htop⟩ := exists_run_of_exec (fun _ _ h => h) hexec
  exact ⟨s, htop, handler_on_top_eligible hrun⟩

/-- A vector that is dispatched again inside of its handler: the first thread is preempted, the second one is
    dispatched, and then no thread can be selected at all. -/
theorem reentered_handler_blocked :
    ∃ s, Reachable twoOfOneVector s ∧ ¬ HandlerEligible s ∧ ∀ tc ∈ s.threads, eligible s tc = false := by
  obtain ⟨s, hreach, hblocked⟩ := exists_reachable_of_exec twoOfOneVector
    (request 49 ++ [Event.guest 0 .dispatch] ++ request 49 ++
      [Event.guest 0 .possibleInversionPoint, .canRun 0, .guest 0 .dispatch])
    (p := fun s => topHwEntry (s.cpu 0) = some (hwEntry 49) &&
      s.threads.any (fun tc => isHandlerOf 0 49 tc && !tc.waitsOnRs) && s.threads.all fun tc => !eligible s tc)
    (by decide)
  simp only [Bool.and_eq_true, decide_eq_true_eq, List.any_eq_true, List.all_eq_true, Bool.not_eq_true'] at hblocked
  obtain ⟨⟨htop, tc, htc, hin, hwaits⟩, hnone⟩ := hblocked
  refine ⟨s, hreach, ?_, hnone⟩
  intro heligible
  have := (heligible 0 _ htop).2 tc htc hin hwaits
  rw [hnone tc htc] at this
  cases this

/-! ## The handler selected is on top, or can start -/

/-- An interrupt thread that is selected is in the handler on top of the stack, or waits for a trigger that its CPU
    can take. -/
def SelectedOnTop (s : State) : Prop :=
  ∀ tc, skiThreadsFindNextRunnable s = .ok tc → tc.isInt = true →
    (tc.state = .runnable ∧ ∃ si, topHwEntry (s.cpu tc.cpuNo) = some si ∧ si.intNo = tc.intNo) ∨
    (tc.state = .needsTrigger ∧ skiCpuCanStartInterrupts (s.cpu tc.cpuNo) = true)

/-- A thread of a vector on a CPU that waits for its trigger. -/
def isRequestOf (c : Nat) (v : Int) (tc : ThreadContext) : Bool :=
  tc.present && tc.isInt && tc.state = .needsTrigger && tc.cpuNo = c && tc.intNo = v

/-- Handlers are not nested; a vector is requested only outside of its handler, and when it is dispatched no
    other thread waits for it; vector 1 is not used. -/
def notNested (s : State) : Event → Bool
  | .guest c .dispatch =>
    !skiInterruptsInHwInt (s.cpu c) && (dispatchedVector s c).all fun v => s.threads.countP (isRequestOf c v) ≤ 1
  | .newIrqSet c v => v ≠ 1 && outside s c v
  | _ => true

/-- A CPU is in at most one handler, and no thread waits for the vector of it. -/
structure Unnested (h : Handlers) : Prop where
  unique : ∀ c v w, 0 < h.shapes.countP (inHandler c v) → 0 < h.shapes.countP (inHandler c w) → v = w
  apart : ∀ c v, 0 < h.shapes.countP (inHandler c v) → h.shapes.countP (awaitsTrigger c v) = 0
  none_of_one : ∀ c, h.shapes.countP (awaitsTrigger c 1) = 0

section OnTop
variable {s t : State} {ev : Event}

/-- What the condition says about a step of interrupt handling. -/
structure Calm (h : Handlers) (l : Label) : Prop where
  spawn : ∀ c v, l = .spawn c v → v ≠ 1 ∧ h.shapes.countP (inHandler c v) = 0
  dispatch : ∀ c v, l = .dispatch c v →
    (∀ w, h.shapes.countP (inHandler c w) = 0) ∧ h.shapes.countP (awaitsTrigger c v) ≤ 1

theorem Unnested.step {h h' : Handlers} {l : Label} (hun : Unnested h) (hcalm : Calm h l) (hstep : HandlerStep h l h') :
    Unnested h' := by
  have hwait := hstep.countP_awaitsTrigger_le
  have hwas : ∀ c v, 0 < h'.shapes.countP (inHandler c v) →
      0 < h.shapes.countP (inHandler c v) ∨ l = .dispatch c v := by
    intro c v hpos
    have hle := hstep.countP_inHandler_le c v
    split_ifs at hle with hl
    · exact .inr hl
    · exact .inl (Nat.lt_of_lt_of_le hpos hle)
  refine ⟨?_, ?_, ?_⟩
  · intro c v w hv hw
    rcases hwas c v hv with hv | hv <;> rcases hwas c w hw with hw | hw
    · exact hun.unique c v w hv hw
    · exact absurd ((hcalm.dispatch c w hw).1 v) (Nat.ne_of_gt hv)
    · exact absurd ((hcalm.dispatch c v hv).1 w) (Nat.ne_of_gt hw)
    · rw [hv] at hw
      exact (Label.dispatch.inj hw).2
  · intro c v hv
    have hle := hwait c v
    rcases hwas c v hv with hv | hv
    · have hno : l ≠ .spawn c v := fun hl => Nat.ne_of_gt hv (hcalm.spawn c v hl).2
      rw [if_neg hno, hun.apart c v hv] at hle
      omega
    · -- the thread that was waiting is the one dispatched
      have hone := (hcalm.dispatch c v hv).2
      rw [if_pos hv, if_neg (by rw [hv]; exact Label.noConfusion)] at hle
      omega
  · intro c
    have hle := hwait c 1
    rw [if_neg fun hl => (hcalm.spawn c 1 hl).1 rfl, hun.none_of_one c] at hle
    omega

theorem isRequestOf_eq (c : Nat) (v : Int) (tc : ThreadContext) :
    isRequestOf c v tc = awaitsTrigger c v tc.shape := by
  unfold isRequestOf awaitsTrigger
  rw [Bool.and_comm tc.present]
  rfl

theorem countP_awaitsTrigger (c : Nat) (v : Int) :
    s.handlers.shapes.countP (awaitsTrigger c v) = s.threads.countP (isRequestOf c v) := by
  unfold State.handlers
  rw [List.countP_map]
  congr 1
  funext tc
  exact (isRequestOf_eq c v tc).symm

theorem calm_of_notNested (hsane : Sane s) (hguard : notNested s ev = true) {l : Label}
    (hspawn : ∀ c v, l = .spawn c v → ev = .newIrqSet c v)
    (hdispatch : ∀ c v, l = .dispatch c v → ev = .guest c .dispatch ∧ dispatchedVector s c = some v) :
    Calm s.handlers l := by
  constructor
  · intro c v hl
    obtain rfl := hspawn c v hl
    simp only [notNested, Bool.and_eq_true, decide_eq_true_eq] at hguard
    exact ⟨hguard.1, hsane.countP_of_outside hguard.2⟩
  · intro c v hl
    obtain ⟨rfl, hvector⟩ := hdispatch c v hl
    simp only [notNested, hvector, Option.all_some, Bool.and_eq_true, Bool.not_eq_true', decide_eq_true_eq] at hguard
    refine ⟨?_, ?_⟩
    · intro w
      refine hsane.countP_of_outside (List.all_eq_true.mpr ?_)
      intro si hsi
      have hsoft := List.any_eq_false.mp hguard.1 si hsi
      simp [hwOf, hsoft]
    · rw [countP_awaitsTrigger]
      exact hguard.2

theorem Unnested.selectedOnTop (hsane : Sane s) (h : Unnested s.handlers) : SelectedOnTop s := by
  intro tc hfind hint
  obtain ⟨⟨htc, heligible, -⟩, -⟩ := hsane.findNextRunnable_iff.mp hfind
  simp only [eligible, hint, if_true, Bool.and_eq_true, Bool.or_eq_true] at heligible
  obtain ⟨⟨⟨hpresent, -⟩, -⟩, hcan⟩ := heligible
  have hmem : tc.shape ∈ s.handlers.shapes := List.mem_map_of_mem htc
  rcases (hsane.handlers_ok.shapes_ok.present_iff tc.shape hmem hint).mp hpresent with hstate | hstate
  · refine .inl ⟨hstate, ?_⟩
    have hin : 0 < s.handlers.shapes.countP (inHandler tc.cpuNo tc.intNo) := by
      refine List.countP_pos_iff.mpr ⟨tc.shape, hmem, ?_⟩
      simp [inHandler, ThreadContext.shape, hint, hpresent, show tc.state = .runnable from hstate]
    obtain ⟨si, htop⟩ := exists_topHwEntry (hsane.countP_hwOf tc.cpuNo tc.intNo ▸ hin)
    refine ⟨si, htop, h.unique tc.cpuNo _ _ ?_ hin⟩
    rw [← hsane.countP_hwOf]
    exact topHwEntry_spec htop
  · refine .inr ⟨hstate, hcan.resolve_left ?_⟩
    have hwaits : 0 < s.handlers.shapes.countP (awaitsTrigger tc.cpuNo tc.intNo) := by
      refine List.countP_pos_iff.mpr ⟨tc.shape, hmem, ?_⟩
      simp [awaitsTrigger, ThreadContext.shape, hint, hpresent, show tc.state = .needsTrigger from hstate]
    have hne : tc.intNo ≠ 1 := by
      intro heq
      rw [heq, h.none_of_one] at hwaits
      cases hwaits
    intro htop
    have hone := (hsane.isTopHwStack_iff htc hne).mp htop
    rw [h.apart tc.cpuNo tc.intNo (by omega)] at hwaits
    cases hwaits

end OnTop

/-- **An interrupt thread that is selected is in the handler on top of the stack, or can start now**, in a test
    where handlers are not nested and vectors are not requested twice. -/
theorem selected_handler_on_top {setup : Setup} {events : List Event} {s : State}
    (h : Run (step setup) (fun s ev => notNested s ev = true) setup.start events s) : SelectedOnTop s := by
  have hun : Unnested s.handlers := by
    refine run_invariant (P := fun s => Unnested s.handlers) h ?_ ?_
    · refine ⟨?_, ?_, ?_⟩
      · intro c v w hv
        rw [setup.countP_start fun _ => inHandler_exists] at hv
        cases hv
      · intro c v hv
        rw [setup.countP_start fun _ => inHandler_exists] at hv
        cases hv
      · intro c
        exact setup.countP_start fun _ => awaitsTrigger_exists
    · intro s ev t hsane hun hguard heffect
      obtain ⟨l, hstep, hspawn, hdispatch⟩ := heffect.handlers
      exact hun.step (calm_of_notNested hsane hguard hspawn hdispatch) hstep
  exact hun.selectedOnTop (run_sane h)

theorem selected_handler_on_top_dispatched :
    ∃ s, (topHwEntry (s.cpu 0)).isSome = true ∧ SelectedOnTop s := by
  have hexec : (exec (step twoVectors) notNested twoVectors.start (request 49 ++ [Event.guest 0 .dispatch])).any
      (fun s => (topHwEntry (s.cpu 0)).isSome) = true := by decide
  obtain ⟨s, hrun, htop⟩ := exists_run_of_exec (fun _ _ h => h) hexec
  exact ⟨s, htop, selected_handler_on_top hrun⟩

/-- A handler inside of another one: when the inner thread is preempted, the outer one is selected, although its
    handler is not on top. -/
theorem outer_handler_selected : ∃ s, Reachable twoVectors s ∧ ¬ SelectedOnTop s := by
  obtain ⟨s, hreach, houter⟩ := exists_reachable_of_exec twoVectors
    (request 49 ++ [Event.guest 0 .dispatch] ++ request 50 ++
      [Event.guest 0 .dispatch, .guest 0 .possibleInversionPoint])
    (p := fun s => (skiThreadsFindNextRunnable s).toOption.any fun tc =>
      tc.isInt && tc.state = .runnable && tc.cpuNo = 0 && tc.intNo = 49 && topHwEntry (s.cpu 0) = some (hwEntry 50))
    (by decide)
  obtain ⟨tc, hfind, houter⟩ := exists_of_toOption_any houter
  simp only [Bool.and_eq_true, decide_eq_true_eq] at houter
  obtain ⟨⟨⟨⟨hint, hstate⟩, hcpu⟩, hno⟩, htop⟩ := houter
  refine ⟨s, hreach, ?_⟩
  intro hontop
  rcases hontop tc hfind hint with ⟨-, si, hsi, heq⟩ | ⟨htrigger, -⟩
  · rw [hcpu, htop] at hsi
    obtain rfl := Option.some.inj hsi
    rw [hno] at heq
    cases heq
  · rw [hstate] at htrigger
    cases htrigger

end SkiVmm.Sched
