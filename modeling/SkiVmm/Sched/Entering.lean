import SkiVmm.Hyper.Barrier
import SkiVmm.Sched.Waiting

/-!
# `Sched.Entering` — the two ways into a test, and the read sets

A CPU comes into a test through the enter hypercall, or is in it already when a snapshot is resumed. `Setup.start` is
the start of a test that was resumed. Here is the other one: the CPUs make their enter hypercalls, all but the last one
wait in the barrier, and the last one calls `ski_start_test`. Both paths initialise the read set of each CPU of the test
(`Begins.sane`), and the table of threads is new, with no thread that waits. From there on:

* a thread that waits has an initialised wait set, and a CPU of the test an initialised read set;
* so the assertions in `ski_liveness_reset` and `ski_liveness_copy` do not fail (`readSets_initialized`).

`testEnter` is the enter hypercall on the fields that the scheduler uses; `testEnter_phases` says that on the states of
the barrier it does what `Hyper.testEnter` does.
-/

namespace SkiVmm.Sched

open Lib

/-! ## The enter hypercall -/

/-- The enter hypercall up to its barrier. -/
def Cpu.enter (cpu : Cpu) (ghNrInstr : Int) : Cpu :=
  { cpu with
    active := true
    nrMaxInstr := ghNrInstr
    nrInstrExecutedOther := 0
    nrInstrExecuted := 0
    state := .blockedOnEnter
    -- `ski_initialize_interrupts`
    interruptsStack := List.replicate maxInterruptsStack .zero
    interruptsStackNo := 0
    cpuRs := skiLivenessInit maEntriesMax }

/-- A CPU that waited for the barrier. -/
def Cpu.released (cpu : Cpu) : Cpu := if cpu.state = .blockedOnEnter then { cpu with state := .runningTest } else cpu

/-- An enter hypercall of the CPU `cpuNo`. -/
structure EnterCall where
  cpuNo : Nat
  ghNrInstr : Int
  ghNrCpus : Int

/-- `HYPERCALL_IO_TYPE_TEST_ENTER`, and whether its barrier returns. -/
def testEnter (cpus : List Cpu) (call : EnterCall) : List Cpu × Bool :=
  let cpus := cpus.modify call.cpuNo (·.enter call.ghNrInstr)
  if call.ghNrCpus = cpus.countP fun cpu => cpu.state = .blockedOnEnter then (cpus.map Cpu.released, true)
  else (cpus, false)

/-- The enter calls of a test: the last one returns from the barrier. -/
inductive Enters : List Cpu → List EnterCall → List Cpu → Prop
  | last {cpus cpus' : List Cpu} {call : EnterCall} (hcall : testEnter cpus call = (cpus', true)) :
      Enters cpus [call] cpus'
  | waits {cpus cpus' cpus'' : List Cpu} {call : EnterCall} {calls : List EnterCall}
      (hcall : testEnter cpus call = (cpus', false)) (hrest : Enters cpus' calls cpus'') :
      Enters cpus (call :: calls) cpus''

/-- The CPUs before any of them has entered: SKI is not active on them, and their `ski_cpu` is cleared. -/
def Setup.outside (setup : Setup) : List Cpu := setup.cpus.map fun c => { Cpu.idle with irq := c.irq }

/-- The state after `ski_start_test` in the last enter hypercall. Not all variables of the scheduler are set there;
    `globals` has what the process has left in them. -/
def Setup.entered (setup : Setup) (cpus : List Cpu) (globals : State) : State :=
  { globals with
    threads := setup.threads
    cpus := cpus.map fun cpu => { cpu with waitForInterrupt := false }
    instructionsTotal := 0
    instructionsCurrent := 0
    running := none
    inverted := [] }

/-- The states in which a test starts. -/
inductive Begins (setup : Setup) : State → Prop
  | resumed : Begins setup setup.start
  | entered {calls : List EnterCall} {cpus : List Cpu} (henters : Enters setup.outside calls cpus) (globals : State) :
      Begins setup (setup.entered cpus globals)

/-! ## The barrier -/

section Barrier
variable {cpus : List Cpu} {states : List Hyper.CpuState}

/-- What the barrier sees of a CPU. -/
def Cpu.phase (cpu : Cpu) : Bool × CpuTestState := (cpu.active, cpu.state)

def phaseOf (cpu : Hyper.CpuState) : Bool × CpuTestState := (cpu.skiActive, cpu.state)

theorem countP_phase (h : states.map phaseOf = cpus.map Cpu.phase) (st : CpuTestState) :
    states.countP (fun cpu => cpu.state = st) = cpus.countP fun cpu => cpu.state = st := by
  have hstates : states.countP (fun cpu => cpu.state = st) = (states.map phaseOf).countP fun p => p.2 = st := by
    rw [List.countP_map]
    rfl
  have hcpus : cpus.countP (fun cpu => cpu.state = st) = (cpus.map Cpu.phase).countP fun p => p.2 = st := by
    rw [List.countP_map]
    rfl
  rw [hstates, hcpus, h]

/-- A CPU that the barrier releases, in what the barrier sees of it. -/
def releasedPhase (p : Bool × CpuTestState) : Bool × CpuTestState :=
  if p.2 = .blockedOnEnter then (p.1, .runningTest) else p

theorem map_phase_released : (cpus.map Cpu.released).map Cpu.phase = (cpus.map Cpu.phase).map releasedPhase := by
  rw [List.map_map, List.map_map]
  refine List.map_congr_left ?_
  intro cpu _
  by_cases hst : cpu.state = .blockedOnEnter <;> simp [Cpu.released, releasedPhase, Cpu.phase, hst]

/-- The enter barrier of `Hyper.Barrier`. -/
theorem skiBarrier_phases (h : states.map phaseOf = cpus.map Cpu.phase) (env : Nat) (nr : Int)
    {states' : List Hyper.CpuState} {returned : Bool}
    (hbarrier : Hyper.skiBarrier states env nr .blockedOnEnter .runningTest .skiEnterWaiting = (states', returned)) :
    (returned = true ↔ nr = cpus.countP fun cpu => cpu.state = .blockedOnEnter) ∧
      states'.map phaseOf = (if returned then cpus.map Cpu.released else cpus).map Cpu.phase := by
  have hreturns : (Hyper.skiBarrier states env nr .blockedOnEnter .runningTest .skiEnterWaiting).2 = true ↔
      nr = states.countP fun cpu => cpu.state = .blockedOnEnter := Hyper.skiBarrier_returns_iff
  rw [hbarrier, countP_phase h] at hreturns
  refine ⟨hreturns, ?_⟩
  unfold Hyper.skiBarrier at hbarrier
  simp only at hbarrier
  split at hbarrier
  · obtain ⟨rfl, rfl⟩ := Prod.mk.inj hbarrier
    rw [if_pos rfl, map_phase_released, ← h, List.map_map, List.map_map]
    refine List.map_congr_left ?_
    intro cpu _
    by_cases hst : cpu.state = .blockedOnEnter <;> simp [releasedPhase, phaseOf, hst]
  · obtain ⟨rfl, rfl⟩ := Prod.mk.inj hbarrier
    rw [if_neg Bool.false_ne_true, ← h]
    exact map_modify_eq fun _ _ => rfl

/-- **The same barrier**: on the states of the CPUs, `testEnter` is the enter hypercall of `Hyper.Barrier`. -/
theorem testEnter_phases (h : states.map phaseOf = cpus.map Cpu.phase) {call : EnterCall}
    (hlt : call.cpuNo < cpus.length) :
    (Hyper.testEnter states call.cpuNo call.ghNrCpus).1.map phaseOf = (testEnter cpus call).1.map Cpu.phase ∧
      ((Hyper.testEnter states call.cpuNo call.ghNrCpus).2 = .starts ↔ (testEnter cpus call).2 = true) := by
  have hlen : states.length = cpus.length := by
    have hmap := congrArg List.length h
    rwa [List.length_map, List.length_map] at hmap
  have harrive {α : Type} (l : List α) (g : α → Bool × CpuTestState) {f : α → α}
      (hf : ∀ a, g (f a) = (true, .blockedOnEnter)) :
      (l.modify call.cpuNo f).map g = (l.map g).modify call.cpuNo fun _ => (true, .blockedOnEnter) :=
    map_modify_comm hf l call.cpuNo
  unfold Hyper.testEnter testEnter
  simp only
  generalize hstates : states.modify call.cpuNo _ = states'
  generalize hcpus : cpus.modify call.cpuNo _ = cpus'
  -- the caller has put itself in the state of the barrier
  have harrived : states'.map phaseOf = cpus'.map Cpu.phase := by
    rw [← hstates, ← hcpus, harrive states phaseOf fun _ => rfl, harrive cpus Cpu.phase fun _ => rfl, h]
  have hnr : Hyper.nrCpusOf states' call.cpuNo = call.ghNrCpus := by
    unfold Hyper.nrCpusOf
    rw [← hstates, List.getElem?_modify_eq, List.getElem?_eq_getElem (hlen ▸ hlt)]
    rfl
  rw [hnr]
  cases hbarrier : Hyper.skiBarrier states' call.cpuNo call.ghNrCpus .blockedOnEnter .runningTest .skiEnterWaiting with
  | mk states'' returned =>
    obtain ⟨hreturns, hphases⟩ := skiBarrier_phases harrived call.cpuNo call.ghNrCpus hbarrier
    cases returned with
    | false =>
      rw [if_neg fun heq => Bool.false_ne_true (hreturns.mpr heq)]
      exact ⟨hphases, by simp⟩
    | true =>
      rw [if_pos (hreturns.mp rfl)]
      refine ⟨?_, by simp⟩
      dsimp only
      refine Eq.trans (map_modify_eq ?_) hphases
      exact fun _ _ => rfl

end Barrier

/-! ## The start of a test -/

/-- A CPU on the way into a test: no interrupt is on its stack, and if it has entered, it has a read set. -/
structure Fresh (cpu : Cpu) : Prop where
  frames_eq : cpu.frames = Cpu.idle.frames
  rs_init : cpu.active = true → cpu.cpuRs.isInitialized = true

section Start
variable {setup : Setup} {cpus cpus' : List Cpu} {calls : List EnterCall}

theorem fresh_enter (cpu : Cpu) (ghNrInstr : Int) : Fresh (cpu.enter ghNrInstr) := ⟨rfl, fun _ => rfl⟩

theorem Fresh.released {cpu : Cpu} (h : Fresh cpu) : Fresh cpu.released := by
  unfold Cpu.released
  split
  · exact ⟨h.frames_eq, h.rs_init⟩
  · exact h

theorem fresh_outside (setup : Setup) : ∀ cpu ∈ setup.outside, Fresh cpu := by
  intro cpu hcpu
  obtain ⟨c, -, rfl⟩ := List.mem_map.mp hcpu
  refine ⟨rfl, ?_⟩
  intro hactive
  cases hactive

/-- **An enter call** initialises the read set of its CPU. -/
theorem testEnter_fresh (h : ∀ cpu ∈ cpus, Fresh cpu) (call : EnterCall) :
    (∀ cpu ∈ (testEnter cpus call).1, Fresh cpu) ∧ (testEnter cpus call).1.length = cpus.length := by
  have harrived : ∀ cpu ∈ cpus.modify call.cpuNo (·.enter call.ghNrInstr), Fresh cpu := by
    intro cpu hcpu
    obtain ⟨i, hi⟩ := List.mem_iff_getElem?.mp hcpu
    rw [List.getElem?_modify] at hi
    obtain ⟨a, ha, rfl⟩ := Option.map_eq_some_iff.mp hi
    split
    · exact fresh_enter a call.ghNrInstr
    · exact h a (List.mem_of_getElem? ha)
  unfold testEnter
  simp only
  split
  · refine ⟨?_, by rw [List.length_map, List.length_modify]⟩
    intro cpu hcpu
    obtain ⟨a, ha, rfl⟩ := List.mem_map.mp hcpu
    exact (harrived a ha).released
  · exact ⟨harrived, List.length_modify ..⟩

theorem Enters.fresh (henters : Enters cpus calls cpus') (h : ∀ cpu ∈ cpus, Fresh cpu) :
    (∀ cpu ∈ cpus', Fresh cpu) ∧ cpus'.length = cpus.length := by
  induction henters with
  | @last cpus cpus' call hcall =>
    have hfresh := testEnter_fresh h call
    rwa [hcall] at hfresh
  | @waits cpus cpus' cpus'' call calls hcall _ ih =>
    obtain ⟨hfresh, hlen⟩ := testEnter_fresh h call
    rw [hcall] at hfresh hlen
    exact ⟨(ih hfresh).1, (ih hfresh).2.trans hlen⟩

/-- The stacks of interrupts are empty at both starts. -/
theorem handlers_entered (hfresh : ∀ cpu ∈ cpus, Fresh cpu) (hlen : cpus.length = setup.cpus.length) (globals : State) :
    (setup.entered cpus globals).handlers = setup.start.handlers := by
  have hentered : (setup.entered cpus globals).handlers.frames = List.replicate cpus.length Cpu.idle.frames := by
    refine List.eq_replicate_iff.mpr ⟨by simp [State.handlers, Setup.entered], ?_⟩
    intro fr hfr
    simp only [State.handlers, Setup.entered, List.map_map, List.mem_map, Function.comp_apply] at hfr
    obtain ⟨cpu, hcpu, rfl⟩ := hfr
    exact (hfresh cpu hcpu).frames_eq
  have hstart : setup.start.handlers.frames = List.replicate setup.cpus.length Cpu.idle.frames := by
    refine List.eq_replicate_iff.mpr ⟨by simp [State.handlers, Setup.start], ?_⟩
    intro fr hfr
    simp only [State.handlers, Setup.start, List.map_map, List.mem_map, Function.comp_apply] at hfr
    obtain ⟨cpu, -, rfl⟩ := hfr
    exact setup.startCpu_frames cpu
  show Handlers.mk _ _ = Handlers.mk _ _
  congr 1
  exact hentered.trans (hlen ▸ hstart.symm)

theorem cpu_entered (setup : Setup) (cpus : List Cpu) (globals : State) (c : Nat) :
    (setup.entered cpus globals).cpu c = .idle ∨
      ∃ cpu ∈ cpus, (setup.entered cpus globals).cpu c = { cpu with waitForInterrupt := false } := by
  unfold State.cpu Setup.entered
  simp only [List.getD_eq_getElem?_getD, List.getElem?_map]
  cases hc : cpus[c]? with
  | none => exact .inl rfl
  | some cpu => exact .inr ⟨cpu, List.mem_of_getElem? hc, rfl⟩

/-- **Both starts** have the invariant of a test. -/
theorem Begins.sane {s : State} (h : Begins setup s) : Sane s := by
  cases h with
  | resumed => exact setup.start_sane
  | @entered calls cpus henters globals =>
    obtain ⟨hfresh, hlen⟩ := henters.fresh (fresh_outside setup)
    have hhandlers := handlers_entered hfresh (hlen.trans (List.length_map _)) globals
    refine ⟨hhandlers ▸ setup.start_handlers_ok, ?_, ?_⟩
    · intro c hactive
      rcases cpu_entered setup cpus globals c with hidle | ⟨cpu, hcpu, heq⟩
      · rw [hidle] at hactive
        cases hactive
      · rw [heq] at hactive ⊢
        exact (hfresh cpu hcpu).rs_init hactive
    · intro c _
      rcases cpu_entered setup cpus globals c with hidle | ⟨cpu, hcpu, heq⟩
      · rw [hidle]
        rfl
      · rw [heq]
        exact congrArg Frames.no (hfresh cpu hcpu).frames_eq

/-- No thread waits at the start. -/
theorem Begins.threads_eq {s : State} (h : Begins setup s) : s.threads = setup.start.threads := by
  cases h <;> rfl

end Start

/-! ## The read sets during a test -/

/-- A thread that waits has a wait set. -/
def WaitSets (s : State) : Prop := ∀ tc ∈ s.threads, tc.waitsOnRs = true → tc.waitRs.isInitialized = true

/-- The events that reset or copy a read set. -/
def Event.usesReadSets : Event → Bool
  | .canRun _ | .guest _ (.loadAccess ..) | .guest _ (.storeAccess _) | .guest _ .pause => true
  | _ => false

section Run
variable {setup : Setup} {s t start : State} {ev : Event} {events : List Event}

theorem Begins.waitSets (h : Begins setup s) : WaitSets s := by
  intro tc htc hwaits
  rw [h.threads_eq] at htc
  obtain ⟨i, e, -, rfl⟩ := setup.exists_entry htc
  cases hwaits

theorem WaitSets.step (h : WaitSets s) (hsane : Sane s) (hstep : Sched.step setup s ev = .ok t) : WaitSets t := by
  intro tc' htc'
  obtain ⟨i, hi⟩ := List.mem_iff_getElem?.mp htc'
  obtain ⟨tc, htc, hchange⟩ := (step_changes hsane.handlers_ok hstep).exists_before hi
  exact hchange.waitRs_isInitialized (h tc (List.mem_of_getElem? htc))

/-- **The run lemma**, for both starts. -/
theorem Begins.run (h : Begins setup start) (hrun : Run (Sched.step setup) (fun _ _ => True) start events s) :
    Sane s ∧ WaitSets s := by
  refine Run.invariant (P := fun s => Sane s ∧ WaitSets s) hrun ?_ ⟨h.sane, h.waitSets⟩
  rintro s ev t ⟨hsane, hwait⟩ - hstep
  exact ⟨hsane.step hstep, hwait.step hsane hstep⟩

/-- A copy of an initialised read set succeeds, so what remains is `assert(tc)`. -/
theorem selfWaitRs_assert {c : Nat} {isPause : Bool} (hinit : (s.cpu c).cpuRs.isInitialized = true)
    (h : skiThreadsSelfWaitRs s c isPause = .error .assertFailed) : s.current = none := by
  have hcopy : ∃ waitRs, skiLivenessCopy (s.cpu c).cpuRs = some waitRs := ⟨_, if_pos hinit⟩
  obtain ⟨waitRs, hcopy⟩ := hcopy
  unfold skiThreadsSelfWaitRs at h
  rw [hcopy] at h
  cases hcurrent : s.current with
  | none => rfl
  | some id =>
    rw [hcurrent] at h
    cases h

theorem loadAccess_assert {c : Nat} {eip address value : Int} (hinit : (s.cpu c).cpuRs.isInitialized = true)
    (hlt : c < s.cpus.length) (h : helperSkiLoadAccess s c eip address value = .error .assertFailed) :
    s.current = none := by
  unfold helperSkiLoadAccess at h
  simp only at h
  split at h
  · have hinit' : ((s.recorded c eip address value).cpu c).cpuRs.isInitialized = true := by
      unfold State.recorded State.modifyCpu State.cpu
      rw [getD_modify_of_lt hlt, if_pos rfl]
      exact (skiLivenessStore_isInitialized ..).trans hinit
    have hnone := selfWaitRs_assert hinit' h
    exact hnone
  · cases h

theorem storeAccess_assert {address : Int} (hwait : WaitSets s)
    (h : skiThreadsAllWakeRs s address = .error .assertFailed) : s.current = none := by
  unfold skiThreadsAllWakeRs at h
  split at h
  · split at h
    · next hbad =>
      rcases (Bool.or_eq_true _ _).mp hbad with hnone | hany
      · exact Option.isNone_iff_eq_none.mp hnone
      · obtain ⟨tc, htc, hwoken⟩ := List.any_eq_true.mp hany
        simp only [wokenBy, Bool.and_eq_true, Bool.not_eq_true'] at hwoken
        rw [hwait tc htc hwoken.1.1.1] at hwoken
        cases hwoken.2
    · cases h
  · cases h

theorem pause_assert {c : Nat} (hinit : (s.cpu c).cpuRs.isInitialized = true)
    (h : helperSkiInstrumentPause s c = .error .assertFailed) : s.current = none := by
  have hreset : skiLivenessReset (s.cpu c).cpuRs = some (skiLivenessInit (s.cpu c).cpuRs.maxEntries) := if_pos hinit
  unfold helperSkiInstrumentPause at h
  split at h
  · next hcurrent => exact hcurrent
  · simp only [hreset] at h
    split at h
    · have hnone := selfWaitRs_assert (s := s.modifyThread _ _) hinit h
      exact hnone
    · cases h

theorem canRun_assert {c : Nat} (hsane : Sane s) : skiCpuCanRun s c ≠ .error .assertFailed := by
  intro h
  unfold skiCpuCanRun at h
  simp only at h
  split at h
  · next hin =>
    have hreset : skiLivenessReset (s.cpu c).cpuRs = some (skiLivenessInit (s.cpu c).cpuRs.maxEntries) :=
      if_pos (hsane.rs_init c hin.1)
    refine bind_ne_error ?_ ?_ h
    · unfold skiThreadsFindNextRunnable
      split
      · simp
      · split <;> simp
    · intro tc
      simp only [hreset]
      split_ifs <;> simp
  · cases h

/-- **No assertion on a read set fails**: what remains is the one on the current thread. -/
theorem step_assert {ev : Event} (hsane : Sane s) (hwait : WaitSets s) (huses : ev.usesReadSets = true)
    (hfail : Sched.step setup s ev = .error .assertFailed) : s.current = none := by
  cases ev with
  | newIrqSet | setIrq | leave => cases huses
  | canRun c =>
    unfold Sched.step at hfail
    simp only at hfail
    split at hfail
    · exact absurd hfail (bind_ne_error (canRun_assert hsane) fun _ => by simp)
    · cases hfail
  | guest c op =>
    unfold Sched.step at hfail
    simp only at hfail
    split at hfail
    · cases hfail
    · split at hfail
      · cases hfail
      · next hactive =>
        have hactive : (s.cpu c).active = true := by simpa using hactive
        have hinit := hsane.rs_init c hactive
        cases op with
        | loadAccess eip address value => exact loadAccess_assert hinit (State.lt_of_active hactive) hfail
        | storeAccess address => exact storeAccess_assert hwait hfail
        | pause => exact pause_assert hinit hfail
        | dispatch | interruptBegin | interruptEnd | hlt | instrumentAll | possibleInversionPoint | testExit =>
          cases huses

/-- **The read sets of a test.** However the CPUs have come into it, a thread that waits has an initialised wait set
    and a CPU of the test an initialised read set. The events that reset or copy one fail no assertion but the one that
    there is a current thread. -/
theorem readSets_initialized (hstart : Begins setup start)
    (hrun : Run (Sched.step setup) (fun _ _ => True) start events s) :
    (∀ tc ∈ s.threads, tc.waitForRs = true ∨ tc.waitForRsOnPause = true → tc.waitRs.isInitialized = true) ∧
      (∀ c, (s.cpu c).active = true → (s.cpu c).state = .runningTest ∨ (s.cpu c).state = .blockedOnExit →
        (s.cpu c).cpuRs.isInitialized = true) ∧
      ∀ ev : Event, ev.usesReadSets = true → Sched.step setup s ev = .error .assertFailed → s.current = none := by
  obtain ⟨hsane, hwait⟩ := hstart.run hrun
  refine ⟨?_, fun c hactive _ => hsane.rs_init c hactive, ?_⟩
  · intro tc htc hflag
    refine hwait tc htc ?_
    unfold ThreadContext.waitsOnRs
    rcases hflag with hflag | hflag <;> simp [hflag]
  · intro ev huses hfail
    exact step_assert hsane hwait huses hfail

end Run

/-- The two CPUs of `twoCpus` enter, one after the other. -/
theorem readSets_initialized_twoCpus :
    ∃ s, Begins twoCpus s ∧ (s.cpu 0).active = true ∧ (s.cpu 0).state = .runningTest ∧
      (s.cpu 0).cpuRs.isInitialized = true := by
  have henters : Enters twoCpus.outside [⟨0, 1000, 2⟩, ⟨1, 1000, 2⟩] _ := .waits rfl (.last rfl)
  have hbegins := Begins.entered henters twoCpus.start
  refine ⟨_, hbegins, rfl, rfl, ?_⟩
  exact (readSets_initialized hbegins (.nil _)).2.1 0 rfl (.inl rfl)

end SkiVmm.Sched
