import SkiVmm.Constants
import SkiVmm.Lib.LastMin
import SkiVmm.Lib.Stack
import SkiVmm.Sched.Liveness

/-!
# `Sched.Threads` — the thread table and the selection of the next thread

Model of the data of the scheduler in `cpu-exec.c` and of the functions that only read it. A thread is either the
code that a CPU runs outside of interrupt handlers, or a slot for one run of the handler of an interrupt vector on
a CPU. All of them stand in one table, ordered by initial priority.

* Threads and CPUs are named by their index in the table and in the list of CPUs.
* `find_cpu` asserts that a CPU of that number exists. The numbers come from the table, which is checked against
  the CPUs when a test is set up (`Setup.table_cpus`), so `State.cpu` has a value for the other numbers as well.
* The x86 state that decides whether a CPU can take an interrupt is kept as `IrqLines`.
* Trace output, dumps and statistics are left out. `SKI_ASSERT` does nothing unless a debug option is set.
-/

namespace SkiVmm.Sched

open Lib

/-! ## Data -/

/-- `MAX_SKI_THREADS` -/
def maxSkiThreads : Nat := 512

/-- `SKI_MAX_INTERRUPTS_STACK` -/
def maxInterruptsStack : Nat := 20

/-- `SKI_LIVENESS_PRIORITY_HLT` -/
def livenessPriorityHlt : Int := 10000

/-- `SKI_LIVENESS_PRIORITY_PAUSE` -/
def livenessPriorityPause : Int := 5000

/-- `SKI_LIVENESS_PRIORITY_NOPAUSE_LOOP` -/
def livenessPriorityNopauseLoop : Int := 2000

/-- `SKI_TC_STATE_*`. A mask of the source always has one bit, so testing it is an equality. -/
inductive TcState where
  | runnable
  | blocked
  | isWaiting
  | maybeWaiting
  | needsTrigger
  | countZero
  | na
  deriving DecidableEq

/-- `SKI_CPU_*` -/
inductive CpuTestState where
  | na
  | blockedOnEnter
  | runningTest
  | blockedOnExit
  deriving DecidableEq

/-- `thread_context`; `present` is the field `exists`. -/
structure ThreadContext where
  present : Bool
  id : Nat
  priority : Int
  priorityAdjust : Int
  cpuNo : Nat
  isInt : Bool
  intNo : Int
  reentryNo : Int
  count : Int
  state : TcState
  lastPause : Int
  waitRs : SkiMa
  waitForRsOnPause : Bool
  waitForRs : Bool
  deriving DecidableEq

/-- `ski_interrupt`; `present` is the field `exists`. -/
structure SkiInterrupt where
  present : Bool
  intNo : Int
  isIntInstruction : Bool
  isHw : Bool
  deriving DecidableEq

/-- A cell of zero bytes. -/
def SkiInterrupt.zero : SkiInterrupt := { present := false, intNo := 0, isIntInstruction := false, isHw := false }

/-- What decides whether a CPU can take an interrupt: `CPU_INTERRUPT_HARD`, `HF2_VINTR`, `HF2_HIF`, `IF` and
    `HF_INHIBIT_IRQ`. -/
structure IrqLines where
  hard : Bool
  vintr : Bool
  hif : Bool
  interruptFlag : Bool
  inhibitIrq : Bool
  deriving DecidableEq

/-- The part of `CPUState` and `SKICPU` that the scheduler uses. -/
structure Cpu where
  /-- `ski_active` -/
  active : Bool
  state : CpuTestState
  nrMaxInstr : Int
  nrInstrExecuted : Int
  nrInstrExecutedOther : Int
  interruptsStack : List SkiInterrupt
  interruptsStackNo : Nat
  cpuRs : SkiMa
  waitForInterrupt : Bool
  irq : IrqLines
  deriving DecidableEq

/-- A CPU that takes no part in the test. -/
def Cpu.idle : Cpu where
  active := false
  state := .na
  nrMaxInstr := 0
  nrInstrExecuted := 0
  nrInstrExecutedOther := 0
  interruptsStack := List.replicate maxInterruptsStack .zero
  interruptsStackNo := 0
  cpuRs := .zero
  waitForInterrupt := false
  irq := { hard := false, vintr := false, hif := false, interruptFlag := false, inhibitIrq := false }

structure State where
  /-- `ski_threads`, with `ski_threads_no` entries. -/
  threads : List ThreadContext
  /-- `ski_threads_current` -/
  current : Option Nat
  /-- `ski_threads_need_reevaluate` -/
  needReevaluate : Bool
  cpus : List Cpu
  /-- `ski_init_options_preemptions` -/
  preemptions : List Int
  /-- `ski_sched_instructions_total` -/
  instructionsTotal : Int
  /-- `ski_sched_instructions_current` -/
  instructionsCurrent : Int
  /-- `ski_exec_instruction_counter_total` -/
  instructionCounter : Int
  /-- The CPU inside of `cpu_exec`. -/
  running : Option Nat
  /-- Ghost: the values of `ski_sched_instructions_total` at which `ski_threads_invert_priority` was called. -/
  inverted : List Int
  deriving DecidableEq

/-- The ways in which the scheduler ends the process. -/
inductive SkiExit where
  | assertFailed
  | noRunnable
  | assertInterrupt
  | maxPriorityAdj
  | maxPreemptions
  /-- The last CPU has left the test. -/
  | finished
  /-- Not an exit: the event cannot happen in this state. -/
  | impossible
  deriving DecidableEq

/-- `find_cpu` -/
def State.cpu (s : State) (cpuNo : Nat) : Cpu := s.cpus.getD cpuNo .idle

def State.modifyCpu (s : State) (cpuNo : Nat) (f : Cpu → Cpu) : State := { s with cpus := s.cpus.modify cpuNo f }

def State.modifyThread (s : State) (id : Nat) (f : ThreadContext → ThreadContext) : State :=
  { s with threads := s.threads.modify id f }

/-! ## Priorities and interrupts -/

/-- The thread waits for a write to its read set. -/
def ThreadContext.waitsOnRs (tc : ThreadContext) : Bool := tc.waitForRs || tc.waitForRsOnPause

/-- `ski_threads_calculate_priority`: smaller values come first. -/
def skiThreadsCalculatePriority (s : State) (tc : ThreadContext) : Int :=
  tc.priority + tc.priorityAdjust +
    (if !tc.isInt && (s.cpu tc.cpuNo).waitForInterrupt then livenessPriorityHlt else 0) +
    (if tc.waitForRsOnPause then livenessPriorityPause else 0) +
    (if tc.waitForRs then livenessPriorityNopauseLoop else 0)

/-- An entry of the interrupt stack that was made by a hardware interrupt. -/
def SkiInterrupt.isHwEntry (si : SkiInterrupt) : Bool := si.present && si.isHw && !si.isIntInstruction

/-- `ski_interrupts_in_hw_int` -/
def skiInterruptsInHwInt (cpu : Cpu) : Bool := cpu.interruptsStack.any SkiInterrupt.isHwEntry

/-- The bytes behind `interrupts_stack` read as one more entry, in the layout of a 64-bit build:
    `interrupts_stack_no`, `cpu_rs.is_initialized`, padding, `cpu_rs.entries[0].count`. -/
def pastEnd (cpu : Cpu) : SkiInterrupt where
  present := cpu.interruptsStackNo ≠ 0
  intNo := if cpu.cpuRs.isInitialized then 1 else 0
  isIntInstruction := false
  isHw := cpu.cpuRs.firstCount = 1

/-- `reentry_no` at the end of the loop of `ski_interrupts_is_top_hw_stack`, which goes one entry too far. -/
def hwReentryNo (cpu : Cpu) (intNo : Int) : Int :=
  (cpu.interruptsStack ++ [pastEnd cpu]).foldl
    (fun reentryNo si => if si.isHwEntry && si.intNo = intNo then reentryNo + 1 else reentryNo) (-1)

/-- `ski_interrupts_is_top_hw_stack` -/
def skiInterruptsIsTopHwStack (s : State) (tc : ThreadContext) : Bool :=
  tc.reentryNo = hwReentryNo (s.cpu tc.cpuNo) tc.intNo

/-- `ski_cpu_can_start_interrupts` -/
def skiCpuCanStartInterrupts (cpu : Cpu) : Bool :=
  cpu.irq.hard && (cpu.irq.vintr && cpu.irq.hif || !cpu.irq.vintr && (cpu.irq.interruptFlag && !cpu.irq.inhibitIrq))

/-! ## Selection -/

/-- The thread is considered in the loop of `ski_threads_find_next_runnable`. -/
def eligible (s : State) (tc : ThreadContext) : Bool :=
  tc.present &&
  !(tc.waitsOnRs || !tc.isInt && (s.cpu tc.cpuNo).waitForInterrupt) &&
  -- a CPU thread at the exit barrier is not runnable, the interrupt threads of its CPU may still be
  !(!tc.isInt && (s.cpu tc.cpuNo).state = .blockedOnExit) &&
  if tc.isInt then skiInterruptsIsTopHwStack s tc || skiCpuCanStartInterrupts (s.cpu tc.cpuNo)
  else !skiInterruptsInHwInt (s.cpu tc.cpuNo)

/-- `ski_threads_find_next_runnable` -/
def skiThreadsFindNextRunnable (s : State) : Except SkiExit ThreadContext :=
  match lastMin (skiThreadsCalculatePriority s) (s.threads.filter (eligible s)) with
  | none => .error .noRunnable
  | some tc =>
    if skiThreadsCalculatePriority s tc > livenessPriorityNopauseLoop then .error .noRunnable else .ok tc

/-- `ski_threads_find` for interrupt threads. `reentry_no` is not used by the source. -/
def skiThreadsFind (s : State) (present : Bool) (cpuNo : Nat) (intNo : Int) (state : TcState) :
    Option ThreadContext :=
  lastMin (skiThreadsCalculatePriority s) (s.threads.filter fun tc =>
    tc.present = present && tc.state = state && (tc.cpuNo = cpuNo && tc.isInt && tc.intNo = intNo))

end SkiVmm.Sched
