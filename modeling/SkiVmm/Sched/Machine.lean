import SkiVmm.Lib.Run
import SkiVmm.Sched.Ops

/-!
# `Sched.Machine` — a test as a run of the scheduler

A test starts with a table of threads and a list of preemption points (`Setup.start`), and proceeds by events
(`step`): the CPUs are polled by `tcg_exec_all` until one may run, its guest code calls the helpers and takes
interrupts, and devices or other CPUs request interrupts at any time. `Reachable` states are those of a test in
progress.

* Guest code runs only on the CPU inside of `cpu_exec`; that CPU may leave it at any time.
* An interrupt is dispatched only for the current thread (`ski_threads_find_next_runnable_int`), when that is an
  interrupt thread that waits for its trigger.
* Exceptions and `int` instructions enter the interrupt stack as well, without a thread.
* How the x86 state of a CPU changes is left to the environment (`Event.setIrq`).
-/

namespace SkiVmm.Sched

open Lib

/-! ## The start of a test -/

/-- An entry of the priorities file: a CPU, an interrupt vector or `-1`, and how often the thread may be spawned. -/
structure TableEntry where
  cpu : Nat
  i : Int
  n : Int
  deriving DecidableEq

/-- A CPU when the test starts. -/
structure CpuSetup where
  active : Bool
  /-- The `nr_max_instr` of the snapshot. -/
  nrMaxInstr : Int
  irq : IrqLines

/-- What a test starts from. The list of preemption points is one that `ski_forkall_init_preemptionlist` can
    draw. -/
structure Setup where
  cpus : List CpuSetup
  table : List TableEntry
  preemptions : List Int
  preemptionMode : PreemptionMode
  /-- `nr_cpus` of the test -/
  nrCpus : Nat
  table_cpus : ∀ e ∈ table, e.cpu < cpus.length
  table_ints : ∀ e ∈ table, e.i = -1 ∨ 0 ≤ e.i
  table_length : table.length ≤ maxSkiThreads
  preemptions_pos : ∀ p ∈ preemptions, 0 < p
  /-- `SKI_MAX_PREEMPTION_POINTS` -/
  preemptions_length : preemptions.length < 16

/-- A test without preemption points. -/
theorem noPoints_pos : ∀ p ∈ ([] : List Int), 0 < p := by decide

theorem noPoints_length : ([] : List Int).length < 16 := by decide

/-- A test that is preempted after its first instruction. -/
theorem onePoint_pos : ∀ p ∈ ([1] : List Int), 0 < p := by decide

theorem onePoint_length : ([1] : List Int).length < 16 := by decide

/-- `ski_tc_initialize`, with the fields that `ski_liveness_initialize` sets. -/
def skiTcInitialize (id : Nat) (priority : Int) (cpuNo : Nat) (intNo reentryNo : Int) : ThreadContext where
  present := !(0 ≤ intNo)
  id := id
  priority := priority
  priorityAdjust := 0
  cpuNo := cpuNo
  isInt := 0 ≤ intNo
  intNo := intNo
  reentryNo := reentryNo
  count := 1
  state := if 0 ≤ intNo then .na else .runnable
  lastPause := -maxLivenessPauseDistance
  waitRs := .zero
  waitForRsOnPause := false
  waitForRs := false

/-- `ski_threads_insert` -/
def skiThreadsInsert (threads : List ThreadContext) (e : TableEntry) : Option (List ThreadContext) :=
  if (e.i = -1 ∨ 0 ≤ e.i) ∧ threads.length < maxSkiThreads then
    some (threads ++ [{ skiTcInitialize threads.length threads.length e.cpu e.i 0 with count := e.n }])
  else none

/-- The table of a test, entry by entry. -/
def Setup.threads (setup : Setup) : List ThreadContext :=
  setup.table.zipIdx.map fun e => { skiTcInitialize e.2 e.2 e.1.cpu e.1.i 0 with count := e.1.n }

/-- The first point is taken when the snapshot is resumed (`ski_snapshot_reinitialize`). -/
def Setup.firstPoint (setup : Setup) : Int × List Int :=
  if setup.preemptions.length ≠ 0 then skiPreemptionGetAndClearLowest setup.preemptions (-1)
  else (-1, setup.preemptions)

/-- `ski_snapshot_reinitialize_cpu` on the active CPUs. -/
def Setup.startCpu (setup : Setup) (c : CpuSetup) : Cpu :=
  if c.active then
    { Cpu.idle with
      active := true
      state := .runningTest
      nrMaxInstr := if setup.firstPoint.1 ≥ 0 then setup.firstPoint.1 else c.nrMaxInstr
      cpuRs := skiLivenessInit maEntriesMax
      irq := c.irq }
  else { Cpu.idle with nrMaxInstr := c.nrMaxInstr, irq := c.irq }

/-- The state after `ski_start_test`. -/
def Setup.start (setup : Setup) : State where
  threads := setup.threads
  current := none
  needReevaluate := false
  cpus := setup.cpus.map setup.startCpu
  preemptions := setup.firstPoint.2
  instructionsTotal := 0
  instructionsCurrent := 0
  instructionCounter := 0
  running := none
  inverted := []

/-! ## Events -/

/-- What guest code does to the scheduler. -/
inductive GuestOp where
  /-- The trigger of the current interrupt thread. -/
  | dispatch
  /-- An exception or an `int` instruction. -/
  | interruptBegin (intNo : Int) (isIntInstruction : Bool)
  | interruptEnd
  | loadAccess (eip address value : Int)
  | storeAccess (address : Int)
  | pause
  | hlt
  | instrumentAll
  | possibleInversionPoint
  /-- The exit hypercall. -/
  | testExit
  deriving DecidableEq

inductive Event where
  | newIrqSet (cpuNo : Nat) (vectorNum : Int)
  | setIrq (cpuNo : Nat) (irq : IrqLines)
  /-- A poll by `tcg_exec_all`. -/
  | canRun (cpuNo : Nat)
  /-- `cpu_exec` returns. -/
  | leave
  | guest (cpuNo : Nat) (op : GuestOp)
  deriving DecidableEq

/-- The interrupt that `cpu_exec` takes on the CPU: `cpu_get_pic_interrupt` returns the vector of the current
    thread. -/
def dispatchedVector (s : State) (cpuNo : Nat) : Option Int :=
  match s.current.bind (s.threads[·]?) with
  | none => none
  | some tc =>
    if tc.isInt ∧ tc.state = .needsTrigger ∧ tc.cpuNo = cpuNo ∧ skiCpuCanStartInterrupts (s.cpu cpuNo) then
      some tc.intNo
    else none

/-- Guest code on an active CPU. -/
def guestStep (setup : Setup) (s : State) (cpuNo : Nat) : GuestOp → Except SkiExit State
  | .dispatch =>
    match dispatchedVector s cpuNo with
    | none => .error .impossible
    | some intNo =>
      skiHandleInterruptBegin (s.modifyCpu cpuNo fun cpu => { cpu with irq := { cpu.irq with hard := false } })
        cpuNo intNo false true
  | .interruptBegin intNo isIntInstruction => skiHandleInterruptBegin s cpuNo intNo isIntInstruction false
  | .interruptEnd => skiHandleInterruptEnd s cpuNo
  | .loadAccess eip address value => helperSkiLoadAccess s cpuNo eip address value
  | .storeAccess address => skiThreadsAllWakeRs s address
  | .pause => helperSkiInstrumentPause s cpuNo
  | .hlt => skiThreadsSelfWaitHlt s cpuNo
  | .instrumentAll => helperSkiInstrumentAll s
  | .possibleInversionPoint => helperSkiInstrumentPossibleInversionPoint setup.preemptionMode s cpuNo
  | .testExit =>
    let s := s.modifyCpu cpuNo fun cpu => { cpu with state := .blockedOnExit }
    -- `ski_barrier`: the last CPU ends the test
    if s.cpus.countP (fun cpu => cpu.state = .blockedOnExit) = setup.nrCpus then .error .finished
    else .ok { s with running := none }

def step (setup : Setup) (s : State) : Event → Except SkiExit State
  | .newIrqSet cpuNo vectorNum => skiHandleNewIrqSet s cpuNo vectorNum
  | .setIrq cpuNo irq => .ok (s.modifyCpu cpuNo fun cpu => { cpu with irq := irq })
  | .canRun cpuNo =>
    if s.running = none ∧ cpuNo < s.cpus.length then do
      let (s, res) ← skiCpuCanRun s cpuNo
      .ok { s with running := if res then some cpuNo else none }
    else .error .impossible
  | .leave => .ok { s with running := none }
  | .guest cpuNo op =>
    if s.running ≠ some cpuNo then .error .impossible
    else if !(s.cpu cpuNo).active then .ok s
    else guestStep setup s cpuNo op

/-- Guest code runs on the CPU inside of `cpu_exec`, and matters only when that CPU is in the test. -/
theorem step_guest_cases {setup : Setup} {s t : State} {c : Nat} {op : GuestOp}
    (h : step setup s (.guest c op) = .ok t) :
    s.running = some c ∧
      ((s.cpu c).active = false ∧ t = s ∨ (s.cpu c).active = true ∧ guestStep setup s c op = .ok t) := by
  unfold step at h
  simp only at h
  split at h
  · cases h
  · next hrunning =>
    refine ⟨not_not.mp hrunning, ?_⟩
    split at h
    · next hidle => exact .inl ⟨by simpa using hidle, (Except.ok.inj h).symm⟩
    · next hactive => exact .inr ⟨by simpa using hactive, h⟩

/-- `s` is a state of a test that was set up as `setup`. -/
def Reachable (setup : Setup) (s : State) : Prop :=
  ∃ events, Run (step setup) (fun _ _ => True) setup.start events s

/-- A test found by evaluation. -/
theorem exists_test_of_exec (setup : Setup) (events : List Event) {p : State → Bool}
    (h : (exec (step setup) (fun _ _ => true) setup.start events).any p = true) :
    ∃ s, Run (step setup) (fun _ _ => True) setup.start events s ∧ p s = true :=
  exists_run_of_exec (fun _ _ _ => trivial) h

/-- A state found by evaluation. -/
theorem exists_reachable_of_exec (setup : Setup) (events : List Event) {p : State → Bool}
    (h : (exec (step setup) (fun _ _ => true) setup.start events).any p = true) :
    ∃ s, Reachable setup s ∧ p s = true := by
  obtain ⟨s, hrun, hp⟩ := exists_test_of_exec setup events h
  exact ⟨s, ⟨events, hrun⟩, hp⟩

/-- The table of `Setup.threads` is the one that inserting the entries one by one makes. -/
theorem foldlM_skiThreadsInsert (table : List TableEntry) (threads : List ThreadContext)
    (hints : ∀ e ∈ table, e.i = -1 ∨ 0 ≤ e.i) (hlen : threads.length + table.length ≤ maxSkiThreads) :
    table.foldlM skiThreadsInsert threads = some (threads ++
      (table.zipIdx threads.length).map fun e => { skiTcInitialize e.2 e.2 e.1.cpu e.1.i 0 with count := e.1.n }) := by
  induction table generalizing threads with
  | nil => simp
  | cons e table ih =>
    have hlt : threads.length < maxSkiThreads := by
      rw [List.length_cons] at hlen
      omega
    rw [List.foldlM_cons, skiThreadsInsert, if_pos ⟨hints e List.mem_cons_self, hlt⟩]
    simp only [Option.bind_eq_bind, Option.bind_some]
    rw [ih _ (fun e' he' => hints e' (List.mem_cons_of_mem _ he'))]
    · simp
    · simp only [List.length_append, List.length_cons, List.length_nil] at hlen ⊢
      omega

theorem Setup.threads_eq (setup : Setup) : setup.table.foldlM skiThreadsInsert [] = some setup.threads := by
  have hlen := setup.table_length
  rw [foldlM_skiThreadsInsert _ _ setup.table_ints (by simpa using hlen)]
  rfl

end SkiVmm.Sched
