import SkiVmm.Sched.Threads

/-!
# `Sched.Ops` — what changes the thread table

Model of the functions of `cpu-exec.c` and `op_helper.c` that change the state of the scheduler: interrupt
requests and handlers, waiting and waking, starvation adjustments, preemption points, and the poll
`ski_cpu_can_run` by which the CPU is found that runs next.

The flush of the loop log in several of these functions is left out: it does not touch the scheduler, and its
assertion never fails (`Trace.Holds.printResetAll`).
-/

namespace SkiVmm.Sched

open Lib

/-- `SKI_MAX_LIVENESS_PAUSE_DISTANCE` -/
def maxLivenessPauseDistance : Int := 30

/-- `SKI_MAX_LIVENESS_MA_LOOP_THRESHOLD` -/
def maxLivenessMaLoopThreshold : Int := 10000

/-- `SKI_SCHED_MAX_PREEMPTION_INSTRUCTIONS` -/
def schedMaxPreemptionInstructions : Int := 100000000

/-- `ski_init_options_preemption_mode` -/
inductive PreemptionMode where
  | all
  | cpu
  | cpuAndNontimer
  deriving DecidableEq

/-! ## Interrupts -/

/-- `ski_handle_new_irq_set`: a thread for the vector is spawned, if the table has one left. -/
def skiHandleNewIrqSet (s : State) (cpuNo : Nat) (vectorNum : Int) : Except SkiExit State :=
  if !(s.cpu cpuNo).active then .ok s
  else
    match skiThreadsFind s false cpuNo vectorNum .na with
    | none => .ok s
    | some tc =>
      if tc.count ≤ 0 then .error .assertFailed
      else
        .ok (s.modifyThread tc.id fun tc =>
          { tc with present := true, state := .needsTrigger, count := tc.count - 1 })

/-- `ski_handle_interrupt_begin` -/
def skiHandleInterruptBegin (s : State) (cpuNo : Nat) (intNo : Int) (isIntInstruction isHw : Bool) :
    Except SkiExit State :=
  let si : SkiInterrupt :=
    { present := true, intNo := intNo, isIntInstruction := isIntInstruction, isHw := isHw }
  match fillFirst SkiInterrupt.present si (s.cpu cpuNo).interruptsStack with
  | none => .error .assertFailed
  | some stack =>
    let s := s.modifyCpu cpuNo fun cpu =>
      { cpu with interruptsStack := stack, interruptsStackNo := cpu.interruptsStackNo + 1 }
    if !isIntInstruction && isHw then
      match skiThreadsFind s true cpuNo intNo .needsTrigger with
      | none => .error .assertFailed
      | some tc =>
        if s.current = some tc.id then
          .ok { s.modifyThread tc.id fun tc => { tc with state := .runnable } with needReevaluate := true }
        else .error .assertInterrupt
    else .ok { s with needReevaluate := true }

/-- The thread of a handler that has ended leaves, and a `hlt` on its CPU is over. -/
def endHandler (s : State) (cpuNo : Nat) (intNo : Int) : Except SkiExit State :=
  match skiThreadsFind s true cpuNo intNo .runnable with
  | none => .error .assertFailed
  | some tc =>
    if (s.cpu cpuNo).waitForInterrupt && s.current.isNone then .error .assertFailed
    else
      let s := s.modifyThread tc.id fun tc =>
        { tc with present := false, state := if tc.count = 0 then .countZero else .na }
      .ok { s.modifyCpu cpuNo fun cpu => { cpu with waitForInterrupt := false } with needReevaluate := true }

/-- `ski_handle_interrupt_end` -/
def skiHandleInterruptEnd (s : State) (cpuNo : Nat) : Except SkiExit State :=
  if (s.cpu cpuNo).interruptsStackNo > 0 then do
    let top := (s.cpu cpuNo).interruptsStackNo - 1
    let si := (s.cpu cpuNo).interruptsStack.getD top .zero
    let s := s.modifyCpu cpuNo fun cpu => { cpu with interruptsStackNo := top }
    let s ← if si.isHw then endHandler s cpuNo si.intNo else .ok s
    .ok (s.modifyCpu cpuNo fun cpu =>
      { cpu with interruptsStack := cpu.interruptsStack.modify top fun si => { si with present := false } })
  else .ok s

/-! ## Waiting and waking -/

/-- `ski_threads_self_wait_rs` -/
def skiThreadsSelfWaitRs (s : State) (cpuNo : Nat) (isPause : Bool) : Except SkiExit State :=
  match s.current, skiLivenessCopy (s.cpu cpuNo).cpuRs with
  | some id, some waitRs =>
    .ok { s.modifyThread id fun tc =>
            { tc with
              waitForRsOnPause := tc.waitForRsOnPause || isPause
              waitForRs := tc.waitForRs || !isPause
              lastPause := -maxLivenessPauseDistance
              waitRs := waitRs } with
          needReevaluate := true }
  | _, _ => .error .assertFailed

/-- A write to `memAddress` wakes the thread. -/
def wokenBy (memAddress : Int) (tc : ThreadContext) : Bool :=
  tc.waitsOnRs && tc.present && skiLivenessIsPresent tc.waitRs memAddress

/-- `ski_threads_all_wake_rs` -/
def skiThreadsAllWakeRs (s : State) (memAddress : Int) : Except SkiExit State :=
  if s.threads.any (wokenBy memAddress) then
    if s.current.isNone || s.threads.any (fun tc => wokenBy memAddress tc && !tc.waitRs.isInitialized) then
      .error .assertFailed
    else
      .ok { s with
        threads := s.threads.map fun tc =>
          if wokenBy memAddress tc then
            { tc with
              waitForRsOnPause := false
              waitForRs := false
              waitRs := skiLivenessInit tc.waitRs.maxEntries }
          else tc
        needReevaluate := true }
  else .ok s

/-- `ski_threads_self_wait_hlt` -/
def skiThreadsSelfWaitHlt (s : State) (cpuNo : Nat) : Except SkiExit State :=
  if s.current.isNone then .error .assertFailed
  else .ok { s.modifyCpu cpuNo fun cpu => { cpu with waitForInterrupt := true } with needReevaluate := true }

/-- `helper_ski_load_access` -/
def helperSkiLoadAccess (s : State) (cpuNo : Nat) (eip address value : Int) : Except SkiExit State :=
  let (cpuRs, count) := skiLivenessStore (s.cpu cpuNo).cpuRs eip address value
  let s := s.modifyCpu cpuNo fun cpu => { cpu with cpuRs := cpuRs }
  if count > maxLivenessMaLoopThreshold then skiThreadsSelfWaitRs s cpuNo false else .ok s

/-- `helper_ski_instrument_pause`: the second `pause` in a row waits. -/
def helperSkiInstrumentPause (s : State) (cpuNo : Nat) : Except SkiExit State :=
  match s.current with
  | none => .error .assertFailed
  | some id =>
    let lastPause := ((s.threads[id]?).map (·.lastPause)).getD 0
    let paused := s.modifyThread id fun tc => { tc with lastPause := s.instructionCounter }
    if lastPause + maxLivenessPauseDistance ≥ s.instructionCounter then skiThreadsSelfWaitRs paused cpuNo true
    else
      match skiLivenessReset (s.cpu cpuNo).cpuRs with
      | none => .error .assertFailed
      | some cpuRs => .ok (paused.modifyCpu cpuNo fun cpu => { cpu with cpuRs := cpuRs })

/-! ## Priorities -/

/-- `ski_threads_adjust_priority_current`, and whether it changed the priority. -/
def skiThreadsAdjustPriorityCurrent (s : State) : Except SkiExit (State × Bool) :=
  if s.instructionsCurrent ≥ 0 ∧ s.instructionsCurrent % schedAdjustModulo = 0 then
    match s.current.bind (s.threads[·]?) with
    | none => .error .assertFailed
    | some tc =>
      let newAdjust := tc.priorityAdjust + schedAdjustInc
      if newAdjust < debugMaxAdjust then
        .ok ({ s.modifyThread tc.id fun tc => { tc with priorityAdjust := newAdjust } with needReevaluate := true },
          true)
      else .error .maxPriorityAdj
  else .ok (s, false)

/-- `helper_ski_instrument_all`. After an adjustment it leaves through `cpu_loop_exit`. -/
def helperSkiInstrumentAll (s : State) : Except SkiExit State := do
  let (s, adjusted) ← skiThreadsAdjustPriorityCurrent
    { s with
      instructionCounter := s.instructionCounter + 1
      instructionsCurrent := s.instructionsCurrent + 1 }
  .ok (if adjusted then { s with running := none } else s)

/-- The threads among which `ski_threads_invert_priority` looks for the lowest priority: not those that wait, and
    not interrupts that have not been triggered. -/
def invertConsiders (s : State) (tc : ThreadContext) : Bool :=
  tc.present && (tc.intNo < 0 || tc.state ≠ .needsTrigger) &&
  !(tc.waitsOnRs || (s.cpu tc.cpuNo).waitForInterrupt)

/-- `lowest_priority` at the end of the loop of `ski_threads_invert_priority`. -/
def lowestPriority (s : State) : Int :=
  (s.threads.filter (invertConsiders s)).foldl (fun lowest tc => max lowest tc.priority) 0

/-- `ski_threads_invert_priority` -/
def skiThreadsInvertPriority (s : State) : Except SkiExit State :=
  match s.current with
  | none => .error .assertFailed
  | some id =>
    .ok { s.modifyThread id fun tc => { tc with priority := lowestPriority s + 1 } with needReevaluate := true }

/-! ## Preemption points -/

/-- The loop of `ski_preemption_get_and_clear_lowest`: the least point from `minRequired` on, and its index. -/
def lowestPoint (preemptions : List Int) (minRequired : Int) : Option (Int × Nat) :=
  preemptions.zipIdx.foldl
    (fun found p =>
      match found with
      | none => if p.1 ≥ minRequired then some p else none
      | some q => if q.1 > p.1 ∧ p.1 ≥ minRequired then some p else some q) none

/-- `ski_preemption_get_and_clear_lowest`: the point taken, or `-1`, and the points left. -/
def skiPreemptionGetAndClearLowest (preemptions : List Int) (minRequired : Int) : Int × List Int :=
  match lowestPoint preemptions minRequired with
  | none => (-1, preemptions)
  | some (point, i) => (point, preemptions.set i (-1))

/-- `ski_preemption_mode_matches` -/
def skiPreemptionModeMatches (mode : PreemptionMode) (s : State) : Bool :=
  match s.current.bind (s.threads[·]?) with
  | none => true
  | some tc =>
    match mode with
    | .all => true
    | .cpu => tc.intNo < 0
    | .cpuAndNontimer => tc.intNo < 0 || tc.intNo ≠ 239 && tc.intNo ≠ 48

/-- `helper_ski_instrument_possible_inversion_point` on an active CPU. After a preemption it leaves through
    `cpu_loop_exit`. -/
def helperSkiInstrumentPossibleInversionPoint (mode : PreemptionMode) (s : State) (cpuNo : Nat) :
    Except SkiExit State :=
  if !skiPreemptionModeMatches mode s then .ok s
  else if (s.cpu cpuNo).state = .na then
    .ok (s.modifyCpu cpuNo fun cpu => { cpu with nrInstrExecutedOther := cpu.nrInstrExecutedOther + 1 })
  else
    let s := { s.modifyCpu cpuNo fun cpu => { cpu with nrInstrExecuted := cpu.nrInstrExecuted + 1 } with
      instructionsTotal := s.instructionsTotal + 1 }
    if s.instructionsTotal ≥ schedMaxPreemptionInstructions then .error .maxPreemptions
    else if s.instructionsTotal = (s.cpu cpuNo).nrMaxInstr then do
      let s ← skiThreadsInvertPriority { s with inverted := s.inverted ++ [s.instructionsTotal] }
      let (next, preemptions) := skiPreemptionGetAndClearLowest s.preemptions (s.cpu cpuNo).nrMaxInstr
      .ok { s with
        cpus := s.cpus.map fun cpu => if cpu.active then { cpu with nrMaxInstr := next } else cpu
        preemptions := preemptions
        running := none }
    else .ok s

/-! ## The poll -/

/-- `ski_cpu_can_run`: the new state, and whether the CPU may run. -/
def skiCpuCanRun (s : State) (cpuNo : Nat) : Except SkiExit (State × Bool) :=
  let cpu := s.cpu cpuNo
  if cpu.active ∧ (cpu.state = .runningTest ∨ cpu.state = .blockedOnExit) then do
    let tc ← skiThreadsFindNextRunnable s
    if tc.cpuNo = cpuNo then
      if s.current = some tc.id then .ok ({ s with needReevaluate := false }, true)
      else
        -- the switch to another thread
        match skiLivenessReset cpu.cpuRs with
        | none => .error .assertFailed
        | some cpuRs =>
          .ok ({ s.modifyCpu cpuNo fun cpu => { cpu with cpuRs := cpuRs } with
            instructionsCurrent := 0
            current := some tc.id
            needReevaluate := false }, true)
    else .ok ({ s with needReevaluate := false }, false)
  else .ok (s, !(cpu.active && cpu.state = .blockedOnEnter))

end SkiVmm.Sched
