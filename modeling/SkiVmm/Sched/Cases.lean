import Mathlib.Data.List.GetD
import SkiVmm.Lib.Table
import SkiVmm.Sched.Machine

/-!
# `Sched.Cases` — what each operation can do

One inversion lemma for each operation of `Sched.Ops` and for the events that wrap them: when it succeeds, these are
the conditions it has found and the states it can have led to. The invariants read off the resulting states; only here
the operations are unfolded.
-/

namespace SkiVmm.Sched

open Lib

variable {setup : Setup} {s t : State} {cpuNo : Nat}

/-! ## Interrupts -/

/-- What `ski_threads_find` finds. -/
theorem skiThreadsFind_spec {present : Bool} {intNo : Int} {state : TcState} {tc : ThreadContext}
    (h : skiThreadsFind s present cpuNo intNo state = some tc) :
    tc ∈ s.threads ∧ tc.present = present ∧ tc.state = state ∧ tc.cpuNo = cpuNo ∧ tc.isInt = true ∧
      tc.intNo = intNo := by
  obtain ⟨hmem, htc⟩ := List.mem_filter.mp (mem_of_lastMin h)
  simp only [Bool.and_eq_true, decide_eq_true_eq] at htc
  obtain ⟨⟨hpresent, hstate⟩, ⟨hcpu, hint⟩, hno⟩ := htc
  exact ⟨hmem, hpresent, hstate, hcpu, hint, hno⟩

/-- The thread of the table that a request would spawn. -/
def spawnedBy (s : State) (cpuNo : Nat) (vectorNum : Int) : Option ThreadContext :=
  if (s.cpu cpuNo).active then skiThreadsFind s false cpuNo vectorNum .na else none

/-- The thread once it was spawned. -/
def ThreadContext.spawned (tc : ThreadContext) : ThreadContext :=
  { tc with present := true, state := .needsTrigger, count := tc.count - 1 }

theorem spawnedBy_spec {vectorNum : Int} {tc : ThreadContext} (h : spawnedBy s cpuNo vectorNum = some tc) :
    (s.cpu cpuNo).active = true ∧ skiThreadsFind s false cpuNo vectorNum .na = some tc := by
  unfold spawnedBy at h
  split at h
  · next hactive => exact ⟨hactive, h⟩
  · cases h

/-- What a request does: it spawns a thread, if one is left for it. -/
theorem skiHandleNewIrqSet_cases {vectorNum : Int} (h : skiHandleNewIrqSet s cpuNo vectorNum = .ok t) :
    (spawnedBy s cpuNo vectorNum = none ∧ t = s) ∨
      ∃ tc, spawnedBy s cpuNo vectorNum = some tc ∧ 0 < tc.count ∧ t = s.modifyThread tc.id ThreadContext.spawned := by
  unfold skiHandleNewIrqSet at h
  split at h
  · next hidle => exact .inl ⟨if_neg (by simpa using hidle), (Except.ok.inj h).symm⟩
  · next hactive =>
    have hspawn : spawnedBy s cpuNo vectorNum = skiThreadsFind s false cpuNo vectorNum .na :=
      if_pos (by simpa using hactive)
    split at h
    · next hfind => exact .inl ⟨hspawn.trans hfind, (Except.ok.inj h).symm⟩
    · next tc hfind =>
      split at h
      · cases h
      · next hcount => exact .inr ⟨tc, hspawn.trans hfind, Int.not_le.mp hcount, (Except.ok.inj h).symm⟩

/-- A new entry on the interrupt stack of a CPU. -/
def State.pushed (s : State) (cpuNo : Nat) (stack : List SkiInterrupt) : State :=
  s.modifyCpu cpuNo fun cpu =>
    { cpu with interruptsStack := stack, interruptsStackNo := cpu.interruptsStackNo + 1 }

/-- What the begin of a handler does: the entry goes on the stack, and the thread of a hardware interrupt, which is the
    current one, gets its trigger. -/
theorem skiHandleInterruptBegin_cases {intNo : Int} {isIntInstruction isHw : Bool}
    (h : skiHandleInterruptBegin s cpuNo intNo isIntInstruction isHw = .ok t) :
    ∃ stack, fillFirst SkiInterrupt.present
        { present := true, intNo := intNo, isIntInstruction := isIntInstruction, isHw := isHw }
        (s.cpu cpuNo).interruptsStack = some stack ∧
      (((!isIntInstruction && isHw) = true ∧
          ∃ tc, skiThreadsFind (s.pushed cpuNo stack) true cpuNo intNo .needsTrigger = some tc ∧
            s.current = some tc.id ∧
            t = { (s.pushed cpuNo stack).modifyThread tc.id fun tc => { tc with state := .runnable } with
              needReevaluate := true }) ∨
        ((!isIntInstruction && isHw) = false ∧ t = { s.pushed cpuNo stack with needReevaluate := true })) := by
  unfold skiHandleInterruptBegin at h
  simp only at h
  split at h
  · cases h
  · next stack hfill =>
    refine ⟨stack, hfill, ?_⟩
    split at h
    · next hhw =>
      split at h
      · cases h
      · next tc hfind =>
        split at h
        · next hcurrent => exact .inl ⟨hhw, tc, hfind, hcurrent, (Except.ok.inj h).symm⟩
        · cases h
    · next hsoft => exact .inr ⟨Bool.not_eq_true _ ▸ hsoft, (Except.ok.inj h).symm⟩

/-- The thread of a handler that has ended. -/
def ThreadContext.ended (tc : ThreadContext) : ThreadContext :=
  { tc with present := false, state := if tc.count = 0 then .countZero else .na }

theorem endHandler_cases {intNo : Int} (h : endHandler s cpuNo intNo = .ok t) :
    ∃ tc, skiThreadsFind s true cpuNo intNo .runnable = some tc ∧
      t = { (s.modifyThread tc.id ThreadContext.ended).modifyCpu cpuNo fun cpu =>
              { cpu with waitForInterrupt := false } with
            needReevaluate := true } := by
  unfold endHandler at h
  split at h
  · cases h
  · next tc hfind =>
    split at h
    · cases h
    · exact ⟨tc, hfind, (Except.ok.inj h).symm⟩

/-- The top of the interrupt stack, as `ski_handle_interrupt_end` reads it. -/
def topEntry (cpu : Cpu) : SkiInterrupt := cpu.interruptsStack.getD (cpu.interruptsStackNo - 1) .zero

/-- The state with one entry less on the interrupt stack, as its counter tells. -/
def lowered (s : State) (cpuNo : Nat) : State :=
  s.modifyCpu cpuNo fun cpu => { cpu with interruptsStackNo := (s.cpu cpuNo).interruptsStackNo - 1 }

/-- The mark of an entry is taken away. -/
def unmarked (s : State) (cpuNo top : Nat) : State :=
  s.modifyCpu cpuNo fun cpu =>
    { cpu with interruptsStack := cpu.interruptsStack.modify top fun si => { si with present := false } }

/-- What the end of a handler does: the top of the stack goes, and with it the thread of a hardware interrupt. -/
theorem skiHandleInterruptEnd_cases (h : skiHandleInterruptEnd s cpuNo = .ok t) :
    ((s.cpu cpuNo).interruptsStackNo = 0 ∧ t = s) ∨
      (0 < (s.cpu cpuNo).interruptsStackNo ∧ ∃ u, t = unmarked u cpuNo ((s.cpu cpuNo).interruptsStackNo - 1) ∧
        (((topEntry (s.cpu cpuNo)).isHw = true ∧
            endHandler (lowered s cpuNo) cpuNo (topEntry (s.cpu cpuNo)).intNo = .ok u) ∨
          ((topEntry (s.cpu cpuNo)).isHw = false ∧ u = lowered s cpuNo))) := by
  unfold skiHandleInterruptEnd at h
  simp only at h
  split at h
  · next hpos =>
    refine .inr ⟨hpos, ?_⟩
    split at h
    · next hhw =>
      obtain ⟨u, hu, h⟩ := exists_of_bind_eq_ok h
      exact ⟨u, (Except.ok.inj h).symm, .inl ⟨hhw, hu⟩⟩
    · next hsoft =>
      rw [ok_bind] at h
      exact ⟨_, (Except.ok.inj h).symm, .inr ⟨Bool.not_eq_true _ ▸ hsoft, rfl⟩⟩
  · next hzero => exact .inl ⟨Nat.eq_zero_of_not_pos hzero, (Except.ok.inj h).symm⟩

/-! ## Waiting and waking -/

/-- The thread after it was put to wait on the read set `waitRs`. -/
def ThreadContext.waiting (tc : ThreadContext) (isPause : Bool) (waitRs : SkiMa) : ThreadContext :=
  { tc with
    waitForRsOnPause := tc.waitForRsOnPause || isPause
    waitForRs := tc.waitForRs || !isPause
    lastPause := -maxLivenessPauseDistance
    waitRs := waitRs }

/-- The thread after it was woken. -/
def ThreadContext.woken (tc : ThreadContext) : ThreadContext :=
  { tc with waitForRsOnPause := false, waitForRs := false, waitRs := skiLivenessInit tc.waitRs.maxEntries }

/-- What a store does to the threads, each on its own. -/
def ThreadContext.stored (address : Int) (tc : ThreadContext) : ThreadContext :=
  if wokenBy address tc then tc.woken else tc

/-- What `ski_threads_self_wait_rs` does. -/
theorem skiThreadsSelfWaitRs_spec {isPause : Bool} (h : skiThreadsSelfWaitRs s cpuNo isPause = .ok t) :
    ∃ id waitRs, s.current = some id ∧ skiLivenessCopy (s.cpu cpuNo).cpuRs = some waitRs ∧
      t = { s.modifyThread id (·.waiting isPause waitRs) with needReevaluate := true } := by
  unfold skiThreadsSelfWaitRs at h
  split at h
  · next id waitRs hcurrent hcopy =>
    obtain rfl := Except.ok.inj h
    exact ⟨id, waitRs, hcurrent, hcopy, rfl⟩
  · cases h

/-- What `ski_threads_self_wait_hlt` does. -/
theorem skiThreadsSelfWaitHlt_spec (h : skiThreadsSelfWaitHlt s cpuNo = .ok t) :
    s.current.isSome = true ∧
      t = { s.modifyCpu cpuNo fun cpu => { cpu with waitForInterrupt := true } with needReevaluate := true } := by
  unfold skiThreadsSelfWaitHlt at h
  split at h
  · cases h
  · next hcurrent => exact ⟨by simpa [Option.isSome_iff_ne_none] using hcurrent, (Except.ok.inj h).symm⟩

/-- What `ski_threads_all_wake_rs` does: nothing, or it wakes all threads that the store hits. -/
theorem skiThreadsAllWakeRs_cases {address : Int} (h : skiThreadsAllWakeRs s address = .ok t) :
    (s.threads.any (wokenBy address) = false ∧ t = s) ∨
      (s.threads.any (wokenBy address) = true ∧
        t = { s with threads := s.threads.map (·.stored address), needReevaluate := true }) := by
  unfold skiThreadsAllWakeRs at h
  split at h
  · next hwoken =>
    split at h
    · cases h
    · exact .inr ⟨hwoken, (Except.ok.inj h).symm⟩
  · next hnone => exact .inl ⟨by simpa using hnone, (Except.ok.inj h).symm⟩

/-- A load was added to the read set of a CPU. -/
def State.recorded (s : State) (cpuNo : Nat) (eip address value : Int) : State :=
  s.modifyCpu cpuNo fun cpu => { cpu with cpuRs := (skiLivenessStore (s.cpu cpuNo).cpuRs eip address value).1 }

/-- What `helper_ski_load_access` does: the load is recorded, and one that was seen too often puts the current thread
    to wait. -/
theorem helperSkiLoadAccess_cases {eip address value : Int}
    (h : helperSkiLoadAccess s cpuNo eip address value = .ok t) :
    ((skiLivenessStore (s.cpu cpuNo).cpuRs eip address value).2 ≤ maxLivenessMaLoopThreshold ∧
        t = s.recorded cpuNo eip address value) ∨
      (maxLivenessMaLoopThreshold < (skiLivenessStore (s.cpu cpuNo).cpuRs eip address value).2 ∧
        ∃ id waitRs, s.current = some id ∧
          skiLivenessCopy ((s.recorded cpuNo eip address value).cpu cpuNo).cpuRs = some waitRs ∧
          t = { (s.recorded cpuNo eip address value).modifyThread id (·.waiting false waitRs) with
                needReevaluate := true }) := by
  unfold helperSkiLoadAccess at h
  simp only at h
  split at h
  · next hover => exact .inr ⟨hover, skiThreadsSelfWaitRs_spec h⟩
  · next hunder => exact .inl ⟨Int.not_lt.mp hunder, (Except.ok.inj h).symm⟩

/-- What `helper_ski_instrument_pause` does. -/
theorem helperSkiInstrumentPause_spec (h : helperSkiInstrumentPause s cpuNo = .ok t) :
    ∃ id, s.current = some id ∧
      ((((s.threads[id]?).map (·.lastPause)).getD 0 + maxLivenessPauseDistance ≥ s.instructionCounter ∧
        ∃ waitRs, skiLivenessCopy (s.cpu cpuNo).cpuRs = some waitRs ∧
          t = { s.modifyThread id (·.waiting true waitRs) with needReevaluate := true }) ∨
      (((s.threads[id]?).map (·.lastPause)).getD 0 + maxLivenessPauseDistance < s.instructionCounter ∧
        ∃ cpuRs, skiLivenessReset (s.cpu cpuNo).cpuRs = some cpuRs ∧
          t = (s.modifyThread id fun tc => { tc with lastPause := s.instructionCounter }).modifyCpu cpuNo
            fun cpu => { cpu with cpuRs := cpuRs })) := by
  unfold helperSkiInstrumentPause at h
  split at h
  · cases h
  · next id hcurrent =>
    refine ⟨id, hcurrent, ?_⟩
    simp only at h
    split at h
    · next hclose =>
      obtain ⟨id', waitRs, hcurrent', hcopy, rfl⟩ := skiThreadsSelfWaitRs_spec h
      obtain rfl : id' = id := Option.some.inj (hcurrent'.symm.trans hcurrent)
      refine .inl ⟨hclose, waitRs, hcopy, ?_⟩
      -- the `last_pause` that was just set is overwritten
      unfold State.modifyThread
      rw [List.modify_modify_eq]
      rfl
    · next hfar =>
      split at h
      · cases h
      · next cpuRs hreset =>
        obtain rfl := Except.ok.inj h
        exact .inr ⟨Int.not_le.mp hfar, cpuRs, hreset, rfl⟩

/-! ## Priorities -/

/-- An executed instruction was counted. -/
def State.counted (s : State) : State :=
  { s with instructionCounter := s.instructionCounter + 1, instructionsCurrent := s.instructionsCurrent + 1 }

/-- A starvation adjustment is due. -/
def State.AdjustDue (s : State) : Prop := s.instructionsCurrent ≥ 0 ∧ s.instructionsCurrent % schedAdjustModulo = 0

/-- The starvation adjustment of the thread `tc`. -/
def State.adjusted (s : State) (tc : ThreadContext) : State :=
  { s.modifyThread tc.id fun tc' => { tc' with priorityAdjust := tc.priorityAdjust + schedAdjustInc } with
    needReevaluate := true }

/-- What `ski_threads_adjust_priority_current` does: nothing, or it adjusts the current thread. -/
theorem skiThreadsAdjustPriorityCurrent_cases {u : State} {adjusted : Bool}
    (h : skiThreadsAdjustPriorityCurrent s = .ok (u, adjusted)) :
    (¬ s.AdjustDue ∧ u = s ∧ adjusted = false) ∨
      (s.AdjustDue ∧ adjusted = true ∧ ∃ id tc, s.current = some id ∧ s.threads[id]? = some tc ∧
        tc.priorityAdjust + schedAdjustInc < debugMaxAdjust ∧ u = s.adjusted tc) := by
  unfold skiThreadsAdjustPriorityCurrent at h
  split at h
  · next hdue =>
    split at h
    · cases h
    · next tc htc =>
      obtain ⟨id, hid, htc⟩ := Option.bind_eq_some_iff.mp htc
      simp only at h
      split at h
      · next hlt =>
        obtain ⟨rfl, rfl⟩ := Prod.mk.inj (Except.ok.inj h)
        exact .inr ⟨hdue, rfl, id, tc, hid, htc, hlt, rfl⟩
      · cases h
  · next hdue =>
    obtain ⟨rfl, rfl⟩ := Prod.mk.inj (Except.ok.inj h)
    exact .inl ⟨hdue, rfl, rfl⟩

/-- What `helper_ski_instrument_all` does: it counts, and leaves `cpu_exec` after an adjustment. -/
theorem helperSkiInstrumentAll_cases (h : helperSkiInstrumentAll s = .ok t) :
    (¬ s.counted.AdjustDue ∧ t = s.counted) ∨
      ∃ id tc, s.current = some id ∧ s.threads[id]? = some tc ∧
        tc.priorityAdjust + schedAdjustInc < debugMaxAdjust ∧ t = { s.counted.adjusted tc with running := none } := by
  unfold helperSkiInstrumentAll at h
  obtain ⟨⟨u, adjusted⟩, hadjust, h⟩ := exists_of_bind_eq_ok h
  obtain rfl := Except.ok.inj h
  rcases skiThreadsAdjustPriorityCurrent_cases hadjust with ⟨hdue, rfl, rfl⟩ | ⟨-, rfl, id, tc, hid, htc, hlt, rfl⟩
  · exact .inl ⟨hdue, rfl⟩
  · exact .inr ⟨id, tc, hid, htc, hlt, rfl⟩

/-- What `ski_threads_invert_priority` does: the current thread goes behind all that are considered. -/
theorem skiThreadsInvertPriority_spec (h : skiThreadsInvertPriority s = .ok t) :
    ∃ id, s.current = some id ∧
      t = { s.modifyThread id fun tc => { tc with priority := lowestPriority s + 1 } with needReevaluate := true } := by
  unfold skiThreadsInvertPriority at h
  split at h
  · cases h
  · next id hid => exact ⟨id, hid, (Except.ok.inj h).symm⟩

/-- A part of the CPUs that is the same in two states. -/
theorem State.cpu_congr {α : Type} {part : Cpu → α} (h : t.cpus.map part = s.cpus.map part) (c : Nat) :
    part (t.cpu c) = part (s.cpu c) := by
  unfold State.cpu
  rw [← List.getD_map _ _ part, ← List.getD_map _ _ part, h]

theorem waitForInterrupt_modifyCpu {f : Cpu → Cpu} (h : ∀ cpu, (f cpu).waitForInterrupt = cpu.waitForInterrupt)
    (c c' : Nat) : ((s.modifyCpu c f).cpu c').waitForInterrupt = (s.cpu c').waitForInterrupt := by
  have hparts : (s.modifyCpu c f).cpus.map Cpu.waitForInterrupt = s.cpus.map Cpu.waitForInterrupt :=
    map_modify_eq fun cpu _ => h cpu
  exact State.cpu_congr hparts c'

/-- The loop of `ski_threads_invert_priority` reads the threads and which CPUs are halted. -/
theorem lowestPriority_congr (hthreads : t.threads = s.threads)
    (hhalted : ∀ c, (t.cpu c).waitForInterrupt = (s.cpu c).waitForInterrupt) : lowestPriority t = lowestPriority s := by
  have hconsiders : invertConsiders t = invertConsiders s := by
    funext tc
    unfold invertConsiders
    rw [hhalted]
  unfold lowestPriority
  rw [hthreads, hconsiders]

/-- An instruction at which a preemption is possible was counted on a CPU. -/
def State.passed (s : State) (cpuNo : Nat) : State :=
  { s.modifyCpu cpuNo fun cpu => { cpu with nrInstrExecuted := cpu.nrInstrExecuted + 1 } with
    instructionsTotal := s.instructionsTotal + 1 }

/-- The next point becomes the limit of the active CPUs. -/
def Cpu.withLimit (next : Int) (cpu : Cpu) : Cpu := if cpu.active then { cpu with nrMaxInstr := next } else cpu

/-- The current thread `id` was demoted at the point just passed, and the next point was taken. -/
def State.preempted (s : State) (id : Nat) (taken : Int × List Int) : State :=
  { s.modifyThread id fun tc => { tc with priority := lowestPriority s + 1 } with
    needReevaluate := true
    inverted := s.inverted ++ [s.instructionsTotal]
    cpus := s.cpus.map (Cpu.withLimit taken.1)
    preemptions := taken.2
    running := none }

/-- What `helper_ski_instrument_possible_inversion_point` does: nothing, it counts, or it preempts at the limit. -/
theorem helperSkiInstrumentPossibleInversionPoint_cases {mode : PreemptionMode}
    (h : helperSkiInstrumentPossibleInversionPoint mode s cpuNo = .ok t) :
    (skiPreemptionModeMatches mode s = false ∧ t = s) ∨
      (skiPreemptionModeMatches mode s = true ∧
        (((s.cpu cpuNo).state = .na ∧
            t = s.modifyCpu cpuNo fun cpu => { cpu with nrInstrExecutedOther := cpu.nrInstrExecutedOther + 1 }) ∨
          ((s.cpu cpuNo).state ≠ .na ∧
            ((s.instructionsTotal + 1 ≠ ((s.passed cpuNo).cpu cpuNo).nrMaxInstr ∧ t = s.passed cpuNo) ∨
              (s.instructionsTotal + 1 = ((s.passed cpuNo).cpu cpuNo).nrMaxInstr ∧
                ∃ id, s.current = some id ∧ t = (s.passed cpuNo).preempted id
                  (skiPreemptionGetAndClearLowest s.preemptions ((s.passed cpuNo).cpu cpuNo).nrMaxInstr)))))) := by
  unfold helperSkiInstrumentPossibleInversionPoint at h
  split at h
  · next hmode => exact .inl ⟨by simpa using hmode, (Except.ok.inj h).symm⟩
  · next hmode =>
    refine .inr ⟨by simpa using hmode, ?_⟩
    split at h
    · next hna => exact .inl ⟨hna, (Except.ok.inj h).symm⟩
    · next hin =>
      refine .inr ⟨hin, ?_⟩
      simp only at h
      split at h
      · cases h
      · split at h
        · next hlimit =>
          obtain ⟨u, hu, h⟩ := exists_of_bind_eq_ok h
          obtain rfl := Except.ok.inj h
          obtain ⟨id, hid, rfl⟩ := skiThreadsInvertPriority_spec hu
          exact .inr ⟨hlimit, id, hid, rfl⟩
        · next hne => exact .inl ⟨hne, (Except.ok.inj h).symm⟩

/-- The priority of a demoted thread: counting the instruction does not change which threads are considered. -/
theorem lowestPriority_passed (s : State) (cpuNo : Nat) : lowestPriority (s.passed cpuNo) = lowestPriority s := by
  refine lowestPriority_congr rfl ?_
  apply waitForInterrupt_modifyCpu
  exact fun _ => rfl

/-! ## The poll -/

/-- The CPU takes part in the selection. -/
def InTest (s : State) (c : Nat) : Prop :=
  (s.cpu c).active = true ∧ ((s.cpu c).state = .runningTest ∨ (s.cpu c).state = .blockedOnExit)

/-- The state after a poll that does not switch. -/
def polled (s : State) : State := { s with needReevaluate := false }

/-- The state after the switch to `tc`. -/
def switched (s : State) (tc : ThreadContext) : State :=
  { s.modifyCpu tc.cpuNo fun cpu =>
      { cpu with cpuRs := skiLivenessInit (s.cpu tc.cpuNo).cpuRs.maxEntries } with
    instructionsCurrent := 0
    current := some tc.id
    needReevaluate := false }

theorem skiLivenessReset_spec {ma ma' : SkiMa} (h : skiLivenessReset ma = some ma') :
    ma.isInitialized = true ∧ ma' = skiLivenessInit ma.maxEntries := by
  unfold skiLivenessReset at h
  split at h
  · next hinit => exact ⟨hinit, (Option.some.inj h).symm⟩
  · cases h

/-- What `ski_cpu_can_run` does: it selects a thread, which may be of another CPU, the current one, or a new one. -/
theorem skiCpuCanRun_cases {u : State} {res : Bool} (h : skiCpuCanRun s cpuNo = .ok (u, res)) :
    (¬ InTest s cpuNo ∧ u = s ∧ res = !((s.cpu cpuNo).active && (s.cpu cpuNo).state = .blockedOnEnter)) ∨
      (InTest s cpuNo ∧ ∃ tc, skiThreadsFindNextRunnable s = .ok tc ∧
        ((tc.cpuNo ≠ cpuNo ∧ u = polled s ∧ res = false) ∨
          (tc.cpuNo = cpuNo ∧ s.current = some tc.id ∧ u = polled s ∧ res = true) ∨
          (tc.cpuNo = cpuNo ∧ s.current ≠ some tc.id ∧ (s.cpu cpuNo).cpuRs.isInitialized = true ∧
            u = switched s tc ∧ res = true))) := by
  unfold skiCpuCanRun at h
  simp only at h
  split at h
  · next hin =>
    refine .inr ⟨hin, ?_⟩
    obtain ⟨tc, hfind, h⟩ := exists_of_bind_eq_ok h
    refine ⟨tc, hfind, ?_⟩
    split at h
    · next hcpu =>
      subst hcpu
      split at h
      · next hsame =>
        obtain ⟨rfl, rfl⟩ := Prod.mk.inj (Except.ok.inj h)
        exact .inr (.inl ⟨rfl, hsame, rfl, rfl⟩)
      · next hnew =>
        split at h
        · cases h
        · next cpuRs hreset =>
          obtain ⟨rfl, rfl⟩ := Prod.mk.inj (Except.ok.inj h)
          obtain ⟨hinit, rfl⟩ := skiLivenessReset_spec hreset
          exact .inr (.inr ⟨rfl, hnew, hinit, rfl, rfl⟩)
    · next hcpu =>
      obtain ⟨rfl, rfl⟩ := Prod.mk.inj (Except.ok.inj h)
      exact .inl ⟨hcpu, rfl, rfl⟩
  · next hout =>
    obtain ⟨rfl, rfl⟩ := Prod.mk.inj (Except.ok.inj h)
    exact .inl ⟨hout, rfl, rfl⟩

/-! ## Events -/

theorem step_guest_eq {op : GuestOp} (hrunning : s.running = some cpuNo) (hactive : (s.cpu cpuNo).active = true) :
    step setup s (.guest cpuNo op) = guestStep setup s cpuNo op := by
  unfold step
  simp only
  rw [if_neg (not_not.mpr hrunning), if_neg (by simp [hactive])]

theorem guestStep_dispatch_cases (h : guestStep setup s cpuNo .dispatch = .ok t) :
    ∃ intNo, dispatchedVector s cpuNo = some intNo ∧
      skiHandleInterruptBegin (s.modifyCpu cpuNo fun cpu => { cpu with irq := { cpu.irq with hard := false } })
        cpuNo intNo false true = .ok t := by
  unfold guestStep at h
  simp only at h
  split at h
  · cases h
  · next intNo hvector => exact ⟨intNo, hvector, h⟩

theorem guestStep_testExit_cases (h : guestStep setup s cpuNo .testExit = .ok t) :
    t = { s.modifyCpu cpuNo fun cpu => { cpu with state := .blockedOnExit } with running := none } := by
  unfold guestStep at h
  simp only at h
  split at h
  · cases h
  · exact (Except.ok.inj h).symm

theorem step_canRun_cases (h : step setup s (.canRun cpuNo) = .ok t) :
    s.running = none ∧ cpuNo < s.cpus.length ∧
      ∃ u res, skiCpuCanRun s cpuNo = .ok (u, res) ∧ t = { u with running := if res then some cpuNo else none } := by
  unfold step at h
  simp only at h
  split at h
  · next hidle =>
    obtain ⟨⟨u, res⟩, hrun, h⟩ := exists_of_bind_eq_ok h
    exact ⟨hidle.1, hidle.2, u, res, hrun, (Except.ok.inj h).symm⟩
  · cases h

end SkiVmm.Sched
