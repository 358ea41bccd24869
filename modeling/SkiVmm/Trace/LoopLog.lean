import SkiVmm.Constants

/-!
# `Trace.LoopLog` — the execution trace and its loop compression

Model of the loop detection in `op_helper.c`. Every instruction a test executes goes through
`helper_ski_instrument_all`, which prints it to the trace unless the loop log says that it repeats a loop. The
log is a circular buffer of ten entries with a count each; from the eleventh iteration on, the instructions of a
loop are only counted, and `ski_loop_print_reset_all` writes the suppressed iterations out in compressed form
when the loop is left or the log is flushed.

* A failed assertion, and the exit on too many priority adjustments, end the process (`TraceExit`).
* An index of `-1` is `none`.
* The trace is a list of items rather than text. Comments that other parts of the program write into the trace
  are `TraceComment.other`.

Left out: the statistics and detectors that the helper feeds, and the debug output under
`SKI_LOOP_DEBUG_OUTPUT_DECOMPRESSED`, which is not compiled in.
-/

namespace SkiVmm.Trace

/-- `SKI_LOOP_MAX_LOG_ENTRIES` -/
def loopMaxLogEntries : Nat := 10

/-- `SKI_LOOP_INTERATIONS_ACTIVATE` -/
def loopIterationsActivate : Int := 10

/-- `SKI_DEBUG_LOOP_CYCLE_IN_PROGREESS` -/
def loopCycleInProgress : Int := 50000

/-- `SKI_EXEC_TRACE_MAX_ENTRIES` -/
def execTraceMaxEntries : Nat := 4000000

/-- The registers that a trace entry shows. -/
structure Registers where
  eax : Int
  ebx : Int
  ecx : Int
  edx : Int
  esp : Int
  ebp : Int
  esi : Int
  edi : Int
  cs : Int
  ss : Int
  ds : Int
  cr3 : Int
  gdt : Int
  deriving DecidableEq

/-- `ski_loop_execution_context` -/
structure LoopEntry where
  count : Int
  vcpu : Int
  eip : Int
  regs : Registers
  deriving DecidableEq

/-- The comments of the trace, with the text behind `###` that stands for them. -/
inductive TraceComment where
  /-- `=== Loop start ===` -/
  | loopStart
  /-- `=== Loop end (repeated %d times) ===` -/
  | loopEnd (times : Int)
  /-- `=== Loop tail end ===` -/
  | loopTailEnd
  /-- `Loop in progress (iterations=%d)` -/
  | loopInProgress (iterations : Int)
  | other (text : String)
  deriving DecidableEq

inductive TraceItem where
  | entry (vcpu eip : Int) (regs : Registers)
  | comment (c : TraceComment)
  deriving DecidableEq

/-- What stays fixed during a test on one vCPU. -/
structure TraceConfig where
  /-- `env->cpu_index` -/
  cpuIndex : Int
  /-- `env->ski_active` -/
  active : Bool
  /-- Whether `ski_exec_trace_execution_fd` is open. -/
  fdOpen : Bool
  /-- `ski_init_options_trace_instructions_enabled` -/
  traceInstructions : Bool

structure TraceState where
  loopLog : Nat → LoopEntry
  loopLogHead : Option Nat
  /-- The trace file. -/
  output : List TraceItem
  /-- `ski_exec_trace_nr_entries` -/
  nrEntries : Nat
  /-- `ski_sched_instructions_current` -/
  schedInstructionsCurrent : Int
  /-- `ski_threads_current->priority_adjust` -/
  priorityAdjust : Int

/-- The ways in which tracing ends the process. -/
inductive TraceExit where
  | maxPriorityAdj
  | assertFailed
  deriving DecidableEq

/-! ## Printing -/

/-- `ski_exec_trace_print_comment` -/
def skiExecTracePrintComment (cfg : TraceConfig) (c : TraceComment) (s : TraceState) : TraceState :=
  if cfg.fdOpen ∧ s.nrEntries < execTraceMaxEntries then { s with output := s.output ++ [.comment c] } else s

/-- `ski_exec_trace_print_entry` -/
def skiExecTracePrintEntry (cfg : TraceConfig) (eip : Int) (regs : Registers) (s : TraceState) : TraceState :=
  if cfg.traceInstructions then { s with output := s.output ++ [.entry cfg.cpuIndex eip regs] } else s

/-- `ski_loop_print_entry` -/
def skiLoopPrintEntry (e : LoopEntry) (s : TraceState) : TraceState :=
  if e.count > 0 then
    { s with output := s.output ++ [.entry e.vcpu e.eip e.regs], nrEntries := s.nrEntries + 1 }
  else s

/-! ## The loop log -/

/-- `ski_loop_store_instruction` on the entry `c`. -/
def skiLoopStoreInstruction (cfg : TraceConfig) (eip : Int) (regs : Registers) (updateIfExists : Bool)
    (c : LoopEntry) : LoopEntry :=
  if c.eip ≠ eip ∨ c.count ≤ 0 then { count := 1, vcpu := cfg.cpuIndex, eip := eip, regs := regs }
  else if updateIfExists then { count := c.count + 1, vcpu := cfg.cpuIndex, eip := eip, regs := regs }
  else { c with count := c.count + 1 }

/-- `ski_loop_find_entry` -/
def skiLoopFindEntry (log : Nat → LoopEntry) (eip : Int) : Option Nat :=
  (List.range loopMaxLogEntries).find? fun i => (log i).count > 0 ∧ (log i).eip = eip

/-- The position behind the head, `ski_loop_log_head + 1`. -/
def afterHead : Option Nat → Nat
  | none => 0
  | some h => h + 1

/-- `count_min`, `count_max` and `first_max_pos` of `ski_loop_print_reset_all`. -/
structure CountScan where
  countMin : Int
  countMax : Int
  firstMaxPos : Option Nat

/-- The three variables before the loop. -/
def noCounts : CountScan := { countMin := -1, countMax := -1, firstMaxPos := none }

/-- One turn of the first loop of `ski_loop_print_reset_all`, at the entry `e` in position `pos`. -/
def scanCount (acc : CountScan) (pos : Nat) (e : LoopEntry) : CountScan :=
  if e.count > 0 then
    { countMin := if acc.countMin ≤ 0 then e.count else if e.count < acc.countMin then e.count else acc.countMin
      firstMaxPos := if acc.countMax < e.count then some pos else acc.firstMaxPos
      countMax := if acc.countMax ≤ 0 then e.count else if e.count > acc.countMax then e.count else acc.countMax }
  else acc

/-- The first loop of `ski_loop_print_reset_all`. -/
def scanLog (log : Nat → LoopEntry) (oldPos : Nat) : CountScan :=
  (List.range loopMaxLogEntries).foldl
    (fun acc i => scanCount acc (oldPos + i) (log ((oldPos + i) % loopMaxLogEntries))) noCounts

/-- Print the entries that satisfy `p`, in the order of the ring from position `pos` on. -/
def printRing (p : LoopEntry → Bool) (pos : Nat) (s : TraceState) : TraceState :=
  (List.range loopMaxLogEntries).foldl
    (fun s i =>
      let e := s.loopLog ((pos + i) % loopMaxLogEntries)
      if p e then skiLoopPrintEntry e s else s) s

/-- The reset at both ends of `ski_loop_print_reset_all`. -/
def resetLog (s : TraceState) : TraceState :=
  { s with loopLog := fun i => { s.loopLog i with count := 0 }, loopLogHead := none }

/-- "Print the loop" in `ski_loop_print_reset_all`: the body once, with the number of its repetitions. -/
def printLoop (cfg : TraceConfig) (scan : CountScan) (s : TraceState) : TraceState :=
  let repeats := scan.countMin - loopIterationsActivate
  if repeats ≥ 1 then
    skiExecTracePrintComment cfg (.loopEnd repeats)
      (printRing (fun e => e.count ≥ scan.countMin) (scan.firstMaxPos.getD 0)
        (skiExecTracePrintComment cfg .loopStart s))
  else s

/-- "Print tail if necessary" in `ski_loop_print_reset_all`: the part of an iteration that was begun. -/
def printTail (cfg : TraceConfig) (scan : CountScan) (oldPos : Nat) (s : TraceState) : TraceState :=
  if scan.countMin ≠ scan.countMax then
    let s := printRing (fun e => e.count = scan.countMax) oldPos s
    if scan.countMin - loopIterationsActivate > 0 then skiExecTracePrintComment cfg .loopTailEnd s else s
  else s

/-- `ski_loop_print_reset_all`: print the suppressed iterations and clear the log. -/
def skiLoopPrintResetAll (cfg : TraceConfig) (s : TraceState) : Option TraceState :=
  let oldPos := afterHead s.loopLogHead
  let scan := scanLog s.loopLog oldPos
  if scan.countMax - scan.countMin > 1 then none
  -- nothing accumulated
  else if scan.countMin - loopIterationsActivate < 0 then some (resetLog s)
  else some (resetLog (printTail cfg scan oldPos (printLoop cfg scan s)))

/-- `ski_loop_flush` -/
def skiLoopFlush (cfg : TraceConfig) (s : TraceState) : Option TraceState := skiLoopPrintResetAll cfg s

/-- The first loop of `ski_loop_print_reset_range`: is there a suppressed loop between `pos` and `resetEnd`? -/
def rangeHasLoop (log : Nat → LoopEntry) (resetEnd : Nat) : Nat → Nat → Bool
  | 0, _ => false
  | n + 1, pos =>
    if (log (pos % loopMaxLogEntries)).count > loopIterationsActivate then true
    else if pos % loopMaxLogEntries = resetEnd then false
    else rangeHasLoop log resetEnd n (pos + 1)

/-- The second loop of `ski_loop_print_reset_range`. -/
def clearRange (resetEnd : Nat) : Nat → Nat → (Nat → LoopEntry) → Nat → LoopEntry
  | 0, _, log => log
  | n + 1, pos, log =>
    let next := pos % loopMaxLogEntries
    let log := fun i => if i = next then { log next with count := 0 } else log i
    if next = resetEnd then log else clearRange resetEnd n (pos + 1) log

/-- `ski_loop_print_reset_range` -/
def skiLoopPrintResetRange (cfg : TraceConfig) (resetStart resetEnd : Nat) (s : TraceState) :
    Option TraceState := do
  let s ←
    if rangeHasLoop s.loopLog resetEnd loopMaxLogEntries resetStart then skiLoopPrintResetAll cfg s else some s
  return { s with loopLog := clearRange resetEnd loopMaxLogEntries resetStart s.loopLog }

/-- Store the instruction in slot `pos` and make that the head. -/
def storeAt (cfg : TraceConfig) (pos : Nat) (eip : Int) (regs : Registers) (updateIfExists : Bool)
    (s : TraceState) : TraceState :=
  { s with
    loopLog := fun i =>
      if i = pos then skiLoopStoreInstruction cfg eip regs updateIfExists (s.loopLog pos) else s.loopLog i
    loopLogHead := some pos }

/-- The `Loop in progress` comment. It is made only where the next entry of the log follows, not after a jump
    to a distant one. -/
def commentProgress (cfg : TraceConfig) (count : Int) (s : TraceState) : TraceState :=
  if count % loopCycleInProgress = 0 then skiExecTracePrintComment cfg (.loopInProgress count) s else s

/-- `ski_loop_add_instruction`: the new state, and whether the caller should print the instruction.
    Registers are ignored when entries are compared (`SKI_LOOP_CMP_IGNORE_REGISTERS`). -/
def skiLoopAddInstruction (cfg : TraceConfig) (eip : Int) (regs : Registers) (s : TraceState) :
    Option (TraceState × Bool) :=
  match s.loopLogHead with
  | none => some (storeAt cfg 0 eip regs false s, true)
  | some oldPos =>
    match (skiLoopFindEntry s.loopLog eip).filter fun pos => (s.loopLog pos).vcpu = cfg.cpuIndex with
    | some newPos =>
      if newPos = (oldPos + 1) % loopMaxLogEntries then
        -- the loop goes on with its next instruction
        if (s.loopLog newPos).count ≥ loopIterationsActivate then
          let s := storeAt cfg newPos eip regs false s
          some (commentProgress cfg (s.loopLog newPos).count s, false)
        else some (storeAt cfg newPos eip regs true s, true)
      else do
        -- a jump: the entries jumped over leave the log
        let s ← skiLoopPrintResetRange cfg ((oldPos + 1) % loopMaxLogEntries)
          ((newPos + loopMaxLogEntries - 1) % loopMaxLogEntries) s
        if (s.loopLog newPos).count ≥ loopIterationsActivate then some (storeAt cfg newPos eip regs false s, false)
        else some (storeAt cfg newPos eip regs true s, true)
    | none => do
      let s ← if (s.loopLog oldPos).count > 1 then skiLoopPrintResetAll cfg s else some s
      some (storeAt cfg (afterHead s.loopLogHead % loopMaxLogEntries) eip regs false s, true)

/-! ## The instrumentation helper -/

/-- `ski_threads_adjust_priority_current`: whether the current thread starves the others. -/
def skiThreadsAdjustPriorityCurrent (cfg : TraceConfig) (s : TraceState) : Except TraceExit (TraceState × Bool) :=
  if s.schedInstructionsCurrent ≥ 0 ∧ s.schedInstructionsCurrent % schedAdjustModulo = 0 then
    let newAdjust := s.priorityAdjust + schedAdjustInc
    let s := skiExecTracePrintComment cfg (.other "Priority adjustment") s
    if newAdjust < debugMaxAdjust then .ok ({ s with priorityAdjust := newAdjust }, true)
    else .error .maxPriorityAdj
  else .ok (s, false)

/-- A step that may fail an assertion. -/
def orAssert {α : Type} : Option α → Except TraceExit α
  | some a => .ok a
  | none => .error .assertFailed

/-- What the helper does with an instruction that the log wants printed. -/
def printInstruction (cfg : TraceConfig) (eip : Int) (regs : Registers) (s : TraceState) :
    Except TraceExit TraceState := do
  let s := skiExecTracePrintEntry cfg eip regs s
  let s ←
    if s.nrEntries = execTraceMaxEntries - 1 then do
      let s ← orAssert (skiLoopFlush cfg s)
      .ok (skiExecTracePrintComment cfg (.other "Max entries in trace reached") s)
    else .ok s
  .ok { s with nrEntries := s.nrEntries + 1 }

/-- `helper_ski_instrument_all`: the new state, and whether the instruction goes on to execute. It does not when
    the helper leaves through `cpu_loop_exit`; the instruction is then started again later. -/
def helperSkiInstrumentAll (cfg : TraceConfig) (eip : Int) (regs : Registers) (s : TraceState) :
    Except TraceExit (TraceState × Bool) :=
  if !cfg.active then .ok (s, true)
  else do
    let s := { s with schedInstructionsCurrent := s.schedInstructionsCurrent + 1 }
    let (s, adjusted) ← skiThreadsAdjustPriorityCurrent cfg s
    if adjusted then
      let s ← orAssert (skiLoopFlush cfg s)
      .ok (skiExecTracePrintComment cfg (.other "Adjusted priorities") s, false)
    else if cfg.fdOpen ∧ s.nrEntries < execTraceMaxEntries then
      let (s, print) ← orAssert (skiLoopAddInstruction cfg eip regs s)
      let s ← if print then printInstruction cfg eip regs s else .ok s
      .ok (s, true)
    else .ok (s, true)

/-! ## Runs -/

/-- What happens to the trace during a test. -/
inductive TraceEvent where
  /-- The helper is called before the instruction at `eip`. -/
  | instruction (eip : Int) (regs : Registers)
  | flush
  /-- Another thread is scheduled, with its own priority adjustment: the log is flushed and the count of
      instructions since the last switch starts again (`ski_cpu_can_run`). -/
  | switch (priorityAdjust : Int)
  /-- Another part of the program comments in the trace. -/
  | comment (text : String)

/-- One event: the new state and the address executed, if any. -/
def traceStep (cfg : TraceConfig) (s : TraceState) : TraceEvent → Except TraceExit (TraceState × List Int)
  | .instruction eip regs => do
    let (s, executes) ← helperSkiInstrumentAll cfg eip regs s
    .ok (s, if executes then [eip] else [])
  | .flush => do
    let s ← orAssert (skiLoopFlush cfg s)
    .ok (s, [])
  | .switch adjust => do
    let s ← orAssert (skiLoopFlush cfg s)
    .ok ({ s with schedInstructionsCurrent := 0, priorityAdjust := adjust }, [])
  | .comment text => .ok (skiExecTracePrintComment cfg (.other text) s, [])

/-- A run over a list of events: the last state and the addresses executed, in order. -/
def traceRun (cfg : TraceConfig) : TraceState → List TraceEvent → Except TraceExit (TraceState × List Int)
  | s, [] => .ok (s, [])
  | s, ev :: evs => do
    let (s, now) ← traceStep cfg s ev
    let (s, later) ← traceRun cfg s evs
    .ok (s, now ++ later)

/-- An empty log and an empty trace (`ski_exec_trace_start`, `ski_loop_init`). -/
def TraceState.initial (loopLog : Nat → LoopEntry) (priorityAdjust : Int) : TraceState where
  loopLog := fun i => { loopLog i with count := 0 }
  loopLogHead := none
  output := []
  nrEntries := 0
  schedInstructionsCurrent := 0
  priorityAdjust := priorityAdjust

end SkiVmm.Trace
