import SkiVmm.Sched.Cases
import SkiVmm.Sched.Handlers
import SkiVmm.Sched.Points

/-!
# `Sched.Frame` — the parts of the state, and what leaves them alone

The invariants of a test read four parts of the state, and most operations leave all four alone (`Quiet`):

* `handlers` — which threads exist, in which state, and the interrupt stacks;
* `weights` — the priorities of the threads and their adjustments;
* `budget` — the preemption points, the count of instructions, and where priorities were inverted;
* `armed` — which CPUs are active, and which read sets are initialised.
-/

namespace SkiVmm.Sched

open Lib

/-! ## The four parts -/

def ThreadContext.shape (tc : ThreadContext) : Shape :=
  { id := tc.id, cpuNo := tc.cpuNo, isInt := tc.isInt, intNo := tc.intNo, reentryNo := tc.reentryNo,
    present := tc.present, state := tc.state }

def Cpu.frames (cpu : Cpu) : Frames := { stack := cpu.interruptsStack, no := cpu.interruptsStackNo }

def ThreadContext.weight (tc : ThreadContext) : Int × Int := (tc.priority, tc.priorityAdjust)

def Cpu.limit (cpu : Cpu) : Bool × Int := (cpu.active, cpu.nrMaxInstr)

def Cpu.arming (cpu : Cpu) : Bool × Bool := (cpu.active, cpu.cpuRs.isInitialized)

def State.handlers (s : State) : Handlers := { shapes := s.threads.map (·.shape), frames := s.cpus.map (·.frames) }

def State.weights (s : State) : List (Int × Int) := s.threads.map (·.weight)

def State.budget (s : State) : Budget :=
  { limits := s.cpus.map (·.limit), preemptions := s.preemptions, total := s.instructionsTotal,
    inverted := s.inverted }

def State.armed (s : State) : List (Bool × Bool) := s.cpus.map (·.arming)

/-- All four parts are left alone. -/
structure Quiet (s t : State) : Prop where
  handlers_eq : t.handlers = s.handlers
  weights_eq : t.weights = s.weights
  budget_eq : t.budget = s.budget
  armed_eq : t.armed = s.armed

theorem Quiet.refl (s : State) : Quiet s s := ⟨rfl, rfl, rfl, rfl⟩

theorem Quiet.trans {s t u : State} (h : Quiet s t) (h' : Quiet t u) : Quiet s u :=
  ⟨h'.handlers_eq.trans h.handlers_eq, h'.weights_eq.trans h.weights_eq, h'.budget_eq.trans h.budget_eq,
    h'.armed_eq.trans h.armed_eq⟩

/-- The other parts of the state may change. -/
theorem Quiet.rest {s t : State} (h : Quiet s t) (current : Option Nat) (needReevaluate : Bool)
    (instructionsCurrent instructionCounter : Int) (running : Option Nat) :
    Quiet s { t with
      current := current, needReevaluate := needReevaluate, instructionsCurrent := instructionsCurrent,
      instructionCounter := instructionCounter, running := running } :=
  ⟨h.handlers_eq, h.weights_eq, h.budget_eq, h.armed_eq⟩

/-! ## Updates -/

section Updates
variable {s : State}

theorem handlers_modifyThread_eq {f : ThreadContext → ThreadContext} (h : ∀ tc, (f tc).shape = tc.shape) (id : Nat) :
    (s.modifyThread id f).handlers = s.handlers := by
  unfold State.handlers State.modifyThread
  rw [map_modify_eq fun tc _ => h tc]

theorem quiet_modifyThread {f : ThreadContext → ThreadContext} (hshape : ∀ tc, (f tc).shape = tc.shape)
    (hweight : ∀ tc, (f tc).weight = tc.weight) (id : Nat) : Quiet s (s.modifyThread id f) :=
  ⟨handlers_modifyThread_eq hshape id, map_modify_eq fun tc _ => hweight tc, rfl, rfl⟩

theorem quiet_modifyCpu {f : Cpu → Cpu} {cpuNo : Nat} (hframes : ∀ cpu, (f cpu).frames = cpu.frames)
    (hlimit : ∀ cpu, (f cpu).limit = cpu.limit)
    (harming : ∀ cpu, s.cpus[cpuNo]? = some cpu → (f cpu).arming = cpu.arming) :
    Quiet s (s.modifyCpu cpuNo f) := by
  refine ⟨?_, rfl, ?_, map_modify_eq harming⟩
  · unfold State.handlers State.modifyCpu
    rw [map_modify_eq fun cpu _ => hframes cpu]
  · unfold State.budget State.modifyCpu
    rw [map_modify_eq fun cpu _ => hlimit cpu]

theorem State.cpu_of_getElem? {c : Nat} {cpu : Cpu} (h : s.cpus[c]? = some cpu) : s.cpu c = cpu := by
  unfold State.cpu
  rw [List.getD_eq_getElem?_getD, h]
  rfl

theorem State.lt_of_active {c : Nat} (h : (s.cpu c).active = true) : c < s.cpus.length := by
  by_contra hge
  unfold State.cpu at h
  rw [List.getD_eq_default _ _ (Nat.le_of_not_lt hge)] at h
  exact Bool.false_ne_true h

theorem State.frame_handlers (c : Nat) : s.handlers.frame c = (s.cpu c).frames :=
  List.getD_map s.cpus Cpu.idle Cpu.frames

end Updates

/-! ## Quiet operations -/

section QuietOps
variable {s t : State} {cpuNo : Nat}

theorem quiet_newReadSet {cpuRs : SkiMa} (h : cpuRs.isInitialized = (s.cpu cpuNo).cpuRs.isInitialized) :
    Quiet s (s.modifyCpu cpuNo fun cpu => { cpu with cpuRs := cpuRs }) := by
  refine quiet_modifyCpu (fun _ => rfl) (fun _ => rfl) ?_
  intro cpu hcpu
  rw [State.cpu_of_getElem? hcpu] at h
  simp only [Cpu.arming, h]

/-- A read set that was initialised is emptied. -/
theorem quiet_emptied (h : (s.cpu cpuNo).cpuRs.isInitialized = true) (n : Nat) :
    Quiet s (s.modifyCpu cpuNo fun cpu => { cpu with cpuRs := skiLivenessInit n }) :=
  quiet_newReadSet h.symm

theorem skiThreadsAllWakeRs_quiet {memAddress : Int} (h : skiThreadsAllWakeRs s memAddress = .ok t) :
    Quiet s t := by
  rcases skiThreadsAllWakeRs_cases h with ⟨-, rfl⟩ | ⟨-, rfl⟩
  · exact .refl t
  · have hshape (tc : ThreadContext) : (tc.stored memAddress).shape = tc.shape := by
      unfold ThreadContext.stored
      split <;> rfl
    have hweight (tc : ThreadContext) : (tc.stored memAddress).weight = tc.weight := by
      unfold ThreadContext.stored
      split <;> rfl
    refine ⟨?_, ?_, rfl, rfl⟩
    · unfold State.handlers
      simp only [List.map_map]
      congr 1
      exact List.map_congr_left fun tc _ => hshape tc
    · unfold State.weights
      simp only [List.map_map]
      exact List.map_congr_left fun tc _ => hweight tc

theorem skiThreadsSelfWaitHlt_quiet (h : skiThreadsSelfWaitHlt s cpuNo = .ok t) : Quiet s t := by
  obtain ⟨-, rfl⟩ := skiThreadsSelfWaitHlt_spec h
  apply Quiet.rest
  apply quiet_modifyCpu <;> intros <;> rfl

theorem helperSkiLoadAccess_quiet {eip address value : Int}
    (h : helperSkiLoadAccess s cpuNo eip address value = .ok t) : Quiet s t := by
  have hrecorded : Quiet s (s.recorded cpuNo eip address value) :=
    quiet_newReadSet (skiLivenessStore_isInitialized (s.cpu cpuNo).cpuRs eip address value)
  rcases helperSkiLoadAccess_cases h with ⟨-, rfl⟩ | ⟨-, id, waitRs, -, -, rfl⟩
  · exact hrecorded
  · refine hrecorded.trans ?_
    apply Quiet.rest
    apply quiet_modifyThread <;> exact fun _ => rfl

theorem helperSkiInstrumentPause_quiet (h : helperSkiInstrumentPause s cpuNo = .ok t) : Quiet s t := by
  obtain ⟨id, -, ⟨-, waitRs, -, rfl⟩ | ⟨-, cpuRs, hreset, rfl⟩⟩ := helperSkiInstrumentPause_spec h
  · apply Quiet.rest
    apply quiet_modifyThread <;> exact fun _ => rfl
  · have hpaused : Quiet s (s.modifyThread id fun tc => { tc with lastPause := s.instructionCounter }) := by
      apply quiet_modifyThread <;> exact fun _ => rfl
    obtain ⟨hinit, rfl⟩ := skiLivenessReset_spec hreset
    refine hpaused.trans ?_
    apply quiet_emptied
    exact hinit

theorem skiCpuCanRun_quiet {u : State} {res : Bool} (h : skiCpuCanRun s cpuNo = .ok (u, res)) : Quiet s u := by
  rcases skiCpuCanRun_cases h with
    ⟨-, rfl, -⟩ | ⟨-, tc, -, ⟨-, rfl, -⟩ | ⟨-, -, rfl, -⟩ | ⟨rfl, -, hinit, rfl, -⟩⟩
  · exact .refl u
  · exact (Quiet.refl s).rest ..
  · exact (Quiet.refl s).rest ..
  · exact (quiet_emptied hinit _).rest ..

end QuietOps

end SkiVmm.Sched
