import SkiVmm.Guest.Barrier
import Mathlib.Algebra.Group.Action.Defs
import Mathlib.Algebra.Order.BigOperators.Group.Finset

/-!
# `Guest.Protocol` — the guest and the machine together

`Hyper.Barrier` assumes of its callers that they announce all test CPUs, and exit only after they were released from
enter. The processes of the guest keep these rules (`guest_calls_allowed`), so what is proved there holds of them. The
machine is in one phase of the test at a time (`InPhase`), and the phase says where each process can be; with the
invariant of the barrier of the guest it follows that the tests overlap, and that nothing blocks for good.

## Main results
- `guest_calls_allowed`: in every run, the hypercalls are a run of the protocol of the machine.
- `guest_tests_overlap`: while a process runs its test, every other one is between its enter and its exit hypercall.
- `guest_completes`: every run is finite, and it can go on until all processes have finished or the machine has ended.
-/

namespace SkiVmm.Guest

open Lib
open Function (update)
open Hyper (HypercallIo Formed Effect stateAt)
open Sched (CpuTestState)

/-! ## The phases of a test -/

/-- How far the machine is with the test; it stays out of it when the guest makes no hypercalls. -/
inductive Phase where
  | off
  | entering
  | running
  | finished
deriving DecidableEq

/-- The state of a CPU that does not wait in the machine. -/
def Phase.free : Phase → CpuTestState
  | .running => .runningTest
  | _ => .na

/-- Where the process of such a CPU can be. -/
def Phase.admits : Phase → Pc → Bool
  | .off, .wait _ _ | .off, .test | .off, .done => true
  | .entering, .wait .start _ | .entering, .enter => true
  | .running, .entered | .running, .test | .running, .wait .softExit _ | .running, .exit => true
  | .finished, .exited | .finished, .wait .finish _ | .finished, .done => true
  | _, _ => false

/-- The hypercall in which a CPU waits. -/
def Phase.waits : Phase → Pc → CpuTestState → Prop
  | .entering, pc, st => pc = .entered ∧ st = .blockedOnEnter
  | .running, pc, st => pc = .exited ∧ st = .blockedOnExit
  | _, _, _ => False

attribute [local simp] Phase.free Phase.admits Phase.waits

/-- **The invariant of the machine**: all CPUs are in the same phase, and one of them does not wait. -/
structure InPhase (s : Settings) (pc : Nat → Pc) (vmm : Hyper.System) (phase : Phase) : Prop where
  formed : Formed s.setup vmm.cpus
  off_iff : phase = .off ↔ s.hypercalls = false
  place : ∀ i < s.totalCpus,
    phase.admits (pc i) = true ∧ vmm.stateOf i = phase.free ∨ phase.waits (pc i) (vmm.stateOf i)
  free : ∃ i < s.totalCpus, vmm.stateOf i = phase.free

section InPhase
variable {s : Settings} {pcs : Nat → Pc} {vmm : Hyper.System} {i : Nat} {phase : Phase}

theorem inPhase_start (s : Settings) :
    InPhase s s.start.pc s.start.vmm (if s.hypercalls then .entering else .off) := by
  have hna : ∀ i, s.start.vmm.stateOf i = .na := fun i => by
    simp only [Hyper.System.stateOf, stateAt, Settings.start, Hyper.Setup.start, List.getElem?_replicate]
    split <;> rfl
  refine ⟨(Hyper.inv_start s.setup).formed, ?_, fun i _ => .inl ⟨?_, ?_⟩, 0, s.total_pos, ?_⟩
  all_goals cases hcalls : s.hypercalls
  all_goals first | exact hna _ | simp [Settings.start]

/-- One process whose CPU does not wait moves on, and the machine takes no part. -/
theorem InPhase.move (h : InPhase s pcs vmm phase) {pc : Pc} (hstate : vmm.stateOf i = phase.free)
    (hadmits : phase.admits pc = true) : InPhase s (update pcs i pc) vmm phase := by
  refine ⟨h.formed, h.off_iff, fun j hj => ?_, h.free⟩
  by_cases hji : j = i
  · subst hji
    rw [Function.update_self]
    exact .inl ⟨hadmits, hstate⟩
  · rw [Function.update_of_ne hji]
    exact h.place j hj

theorem admits_wait {round : Round} {pc : WaitPc} (h : phase.admits (.wait round pc) = true) (pc' : WaitPc) :
    phase.admits (.wait round pc') = true := by
  cases phase <;> cases round <;> exact h

theorem admits_awake {pc : Pc} (h : phase.admits pc = true) : phase.admits pc.awake = true := by
  unfold Pc.awake
  split
  · exact admits_wait h .woken
  · exact h

theorem InPhase.awake (h : InPhase s pcs vmm phase) : InPhase s (fun j => (pcs j).awake) vmm phase := by
  refine ⟨h.formed, h.off_iff, fun j hj => ?_, h.free⟩
  refine (h.place j hj).imp (fun hplace => ⟨admits_awake hplace.1, hplace.2⟩) fun hwaits => ?_
  unfold Phase.waits at hwaits ⊢
  split at hwaits
  · rw [hwaits.1]
    exact ⟨rfl, hwaits.2⟩
  · rw [hwaits.1]
    exact ⟨rfl, hwaits.2⟩
  · exact hwaits.elim

theorem mem_tests (hi : i < s.totalCpus) : i ∈ s.setup.tests := List.mem_range.mpr hi

/-- A hypercall: the caller waits in the phase, or it is the last one and the next phase begins. -/
theorem InPhase.hypercall (h : InPhase s pcs vmm phase) (hi : i < s.totalCpus) {hio : HypercallIo} {pc : Pc}
    (next : Phase) {vmm' : Hyper.System} (hallowed : s.setup.Allowed vmm (i, hio))
    (hcall : Hyper.step s.options vmm (i, hio) = .ok vmm') (hoff : phase ≠ .off) (hnext : next ≠ .off)
    (hwaits : phase.waits pc hio.oldState) (hfree : phase.free ≠ hio.oldState) (hnew : next.free = hio.newState)
    (hadmits : ∀ pc st, phase.waits pc st → st = hio.oldState ∧ next.admits pc = true) :
    ∃ phase', InPhase s (update pcs i pc) vmm' phase' := by
  have hon : s.hypercalls ≠ false := fun heq => hoff (h.off_iff.mpr heq)
  obtain ⟨o, -, hformed, heffect⟩ := Hyper.step_effect h.formed hallowed hcall
  cases heffect with
  | waits _ hmissing hstate =>
    refine ⟨phase, hformed, h.off_iff, fun j hj => ?_, ?_⟩
    · have hj' : vmm'.stateOf j = _ := hstate j
      by_cases hji : j = i
      · rw [hj', hji, if_pos rfl, Function.update_self]
        exact .inr hwaits
      · rw [hj', if_neg hji, Function.update_of_ne hji]
        exact h.place j hj
    · -- the one that is missing does not wait
      obtain ⟨d, hd, hdi, hne⟩ := hmissing
      have hd' := List.mem_range.mp hd
      rcases h.place d hd' with ⟨-, hfree'⟩ | hwaits'
      · exact ⟨d, hd', ((hstate d).trans (if_neg hdi)).trans hfree'⟩
      · exact absurd (hadmits _ _ hwaits').1 hne
  | releases _ harrived hstate =>
    have hstate' : ∀ j < s.totalCpus, vmm'.stateOf j = next.free := fun j hj =>
      ((hstate j).trans (if_pos (mem_tests hj))).trans hnew.symm
    refine ⟨next, hformed, iff_of_false hnext hon, fun j hj => .inl ⟨?_, hstate' j hj⟩, i, hi, hstate' i hi⟩
    -- the others were waiting in the same hypercall
    by_cases hji : j = i
    · rw [hji, Function.update_self]
      exact (hadmits _ _ hwaits).2
    · rw [Function.update_of_ne hji]
      rcases h.place j hj with ⟨-, hfree'⟩ | hwaits'
      · exact absurd (hfree'.symm.trans (harrived j (mem_tests hj) hji)) hfree
      · exact (hadmits _ _ hwaits').2

/-- A process that is in no hypercall has a CPU that does not wait. -/
theorem InPhase.place_of_outside (h : InPhase s pcs vmm phase) (hi : i < s.totalCpus) {pc : Pc}
    (hpc : pcs i = pc) (hentered : pc ≠ .entered) (hexited : pc ≠ .exited) :
    phase.admits pc = true ∧ vmm.stateOf i = phase.free := by
  subst hpc
  rcases h.place i hi with hplace | hwaits
  · exact hplace
  · unfold Phase.waits at hwaits
    split at hwaits
    · exact absurd hwaits.1 hentered
    · exact absurd hwaits.1 hexited
    · exact hwaits.elim

/-- Where the barrier of the guest and the end of the test lead to. -/
theorem InPhase.admits_afterWait (h : InPhase s pcs vmm phase) {round : Round} {pc : WaitPc}
    (hadmits : phase.admits (.wait round pc) = true) : phase.admits (s.afterWait round) = true := by
  have hoff := h.off_iff
  cases hcalls : s.hypercalls <;> cases phase <;> cases round <;>
    simp [hcalls, Settings.afterWait, Settings.leave] at hoff hadmits ⊢

theorem InPhase.admits_skiThreadFinish (h : InPhase s pcs vmm phase) (hadmits : phase.admits .test = true) :
    phase.admits s.skiThreadFinish = true := by
  have hoff := h.off_iff
  cases hcalls : s.hypercalls <;> cases hsoft : s.softExitBarrier <;> cases phase <;>
    simp [hcalls, hsoft, Settings.skiThreadFinish, Settings.leave] at hoff hadmits ⊢

theorem InPhase.allowed_enter (h : InPhase s pcs vmm phase) (hi : i < s.totalCpus) (hpc : pcs i = .enter) :
    phase = .entering ∧ s.setup.Allowed vmm (i, .testEnter s.totalCpus) := by
  obtain ⟨hadmits, hstate⟩ := h.place_of_outside hi hpc nofun nofun
  have hphase : phase = .entering := by cases phase <;> simp at hadmits ⊢
  subst hphase
  refine ⟨rfl, mem_tests hi, congrArg Int.ofNat List.length_range.symm, ?_, ?_⟩ <;> rw [hstate] <;> nofun

theorem InPhase.allowed_exit (h : InPhase s pcs vmm phase) (hi : i < s.totalCpus) (hpc : pcs i = .exit) :
    phase = .running ∧ s.setup.Allowed vmm (i, .testExit) := by
  obtain ⟨hadmits, hstate⟩ := h.place_of_outside hi hpc nofun nofun
  have hphase : phase = .running := by cases phase <;> simp at hadmits ⊢
  subst hphase
  exact ⟨rfl, mem_tests hi, hstate⟩

end InPhase

/-! ## Whole runs -/

section Runs
variable {s : Settings} {g g' : State} {i j : Nat} {phase : Phase} {as : List Action}

/-- **Every step keeps the invariant**, and its hypercall is one the machine expects. -/
theorem InPhase.step (h : InPhase s g.pc g.vmm phase) (hi : i < s.totalCpus)
    (hstep : Guest.step s g (.process i) = .ok g') :
    (∃ phase', InPhase s g'.pc g'.vmm phase') ∧
      (g'.vmm = g.vmm ∨ ∃ hio, s.setup.Allowed g.vmm (i, hio) ∧ Hyper.step s.options g.vmm (i, hio) = .ok g'.vmm) := by
  obtain ⟨-, ⟨pc, b, vmm, hmoves, rfl⟩ | ⟨round, hpc, -, rfl⟩⟩ := step_cases hstep
  · generalize hpc : g.pc i = pc₀ at hmoves
    cases hmoves with
    | lock | count | sleep | relock =>
      obtain ⟨hadmits, hstate⟩ := h.place_of_outside hi hpc nofun nofun
      exact ⟨⟨phase, h.move hstate (admits_wait hadmits _)⟩, .inl rfl⟩
    | unlock round =>
      obtain ⟨hadmits, hstate⟩ := h.place_of_outside hi hpc nofun nofun
      exact ⟨⟨phase, h.move hstate (h.admits_afterWait hadmits)⟩, .inl rfl⟩
    | test =>
      obtain ⟨hadmits, hstate⟩ := h.place_of_outside hi hpc nofun nofun
      exact ⟨⟨phase, h.move hstate (h.admits_skiThreadFinish hadmits)⟩, .inl rfl⟩
    | enter hcall =>
      obtain ⟨rfl, hallowed⟩ := h.allowed_enter hi hpc
      refine ⟨h.hypercall hi .running hallowed hcall nofun nofun ⟨rfl, rfl⟩ nofun rfl ?_,
        .inr ⟨_, hallowed, hcall⟩⟩
      rintro _ _ ⟨rfl, rfl⟩
      exact ⟨rfl, rfl⟩
    | exit hcall =>
      obtain ⟨rfl, hallowed⟩ := h.allowed_exit hi hpc
      refine ⟨h.hypercall hi .finished hallowed hcall nofun nofun ⟨rfl, rfl⟩ nofun rfl ?_,
        .inr ⟨_, hallowed, hcall⟩⟩
      rintro _ _ ⟨rfl, rfl⟩
      exact ⟨rfl, rfl⟩
    | entered hreleased | exited hreleased =>
      -- the state of the CPU says which phase has admitted the process
      have hplace := h.place i hi
      rw [hpc, hreleased] at hplace
      refine ⟨⟨phase, ?_⟩, .inl rfl⟩
      cases phase <;> simp at hplace
      exact h.move hreleased rfl
  · obtain ⟨hadmits, hstate⟩ := h.place_of_outside hi hpc nofun nofun
    exact ⟨⟨phase, h.awake.move hstate (admits_wait hadmits _)⟩, .inl rfl⟩

theorem InPhase.run (hrun : s.Runs as g) :
    (∃ phase, InPhase s g.pc g.vmm phase) ∧ ∃ calls, s.setup.Runs calls g.vmm := by
  refine hrun.invariant (P := fun g => (∃ phase, InPhase s g.pc g.vmm phase) ∧ ∃ calls, s.setup.Runs calls g.vmm)
    (fun {g a g'} h ha hstep => ?_) ⟨⟨_, inPhase_start s⟩, [], .nil _⟩
  cases a with
  | wakeup i => exact absurd ha id
  | process i =>
    obtain ⟨⟨phase, hphase⟩, calls, hcalls⟩ := h
    obtain ⟨hphase', hvmm | ⟨hio, hallowed, hcall⟩⟩ := hphase.step ha hstep
    · exact ⟨hphase', calls, hvmm ▸ hcalls⟩
    · exact ⟨hphase', _, hcalls.concat hallowed hcall⟩

/-- **The guest keeps the rules of the machine.** In every run the hypercalls are a run of the protocol of
    `Hyper.Barrier`, and so is the run with the next hypercall of any process. -/
theorem guest_calls_allowed (hrun : s.Runs as g) (hi : i < s.totalCpus) :
    (∃ calls, s.setup.Runs calls g.vmm) ∧
      (g.pc i = .enter → s.setup.Allowed g.vmm (i, .testEnter s.totalCpus)) ∧
      (g.pc i = .exit → s.setup.Allowed g.vmm (i, .testExit)) := by
  obtain ⟨⟨phase, hphase⟩, hcalls⟩ := InPhase.run hrun
  exact ⟨hcalls, fun hpc => (hphase.allowed_enter hi hpc).2, fun hpc => (hphase.allowed_exit hi hpc).2⟩

/-- Both processes come to their tests. -/
def firstSteps : List Nat := [0, 0, 0, 1, 1, 1, 1, 1, 0, 0, 0, 0, 1]

def bothRunning : State := (twoProcesses.after firstSteps).get rfl

theorem bothRunning_runs : twoProcesses.Runs (firstSteps.map Action.process) bothRunning :=
  runs_of_after (Option.some_get rfl).symm

theorem guest_calls_allowed_bothRunning :
    (∃ calls, twoProcesses.setup.Runs calls bothRunning.vmm) ∧
      (bothRunning.pc 0 = .enter → twoProcesses.setup.Allowed bothRunning.vmm (0, .testEnter 2)) ∧
      (bothRunning.pc 0 = .exit → twoProcesses.setup.Allowed bothRunning.vmm (0, .testExit)) :=
  guest_calls_allowed bothRunning_runs (by decide)

/-- The process has made its enter hypercall and has not returned from its exit hypercall. -/
def Pc.between : Pc → Bool
  | .entered | .test | .wait .softExit _ | .exit | .exited => true
  | _ => false

/-- **The tests overlap.** While a process runs its test, every process is between its two hypercalls, and the machine
    has its CPU in the test. With the soft exit barrier no process even comes to its exit hypercall. -/
theorem guest_tests_overlap (hrun : s.Runs as g) (hcalls : s.hypercalls = true) (hi : i < s.totalCpus)
    (hj : j < s.totalCpus) (htest : g.pc i = .test) :
    (g.pc j).between = true ∧ (g.vmm.stateOf j = .runningTest ∨ g.vmm.stateOf j = .blockedOnExit) ∧
      (s.softExitBarrier = true → g.pc j ≠ .exit ∧ g.pc j ≠ .exited) := by
  obtain ⟨⟨phase, hphase⟩, -⟩ := InPhase.run hrun
  obtain ⟨hadmits, -⟩ := hphase.place_of_outside hi htest nofun nofun
  have hoff := hphase.off_iff
  have hrunning : phase = .running := by cases phase <;> simp [hcalls] at hadmits hoff ⊢
  subst hrunning
  refine ⟨?_, ?_, fun hsoft => ?_⟩
  · rcases hphase.place j hj with ⟨hadmits', -⟩ | ⟨hpc, -⟩
    · unfold Phase.admits at hadmits'
      unfold Pc.between
      split at hadmits' <;> simp_all
    · rw [hpc]
      rfl
  · exact (hphase.place j hj).imp And.right And.right
  · -- a process at its exit hypercall has returned from the second barrier, and process `i` has not come to it
    have hrounds := (Synced.run hrun).returned_le hj hi
    rw [htest] at hrounds
    constructor <;> intro hpc <;> rw [hpc] at hrounds <;> simp [Pc.returned, Pc.arrived, hsoft] at hrounds

theorem guest_tests_overlap_bothRunning :
    (bothRunning.pc 1).between = true ∧
      (bothRunning.vmm.stateOf 1 = .runningTest ∨ bothRunning.vmm.stateOf 1 = .blockedOnExit) ∧
      (twoProcesses.softExitBarrier = true → bothRunning.pc 1 ≠ .exit ∧ bothRunning.pc 1 ≠ .exited) :=
  guest_tests_overlap bothRunning_runs rfl (by decide) (by decide) (show bothRunning.pc 0 = .test from rfl)

/-! ## Every run completes -/

def WaitPc.position : WaitPc → Nat
  | .lock => 0
  | .count => 1
  | .check => 2
  | .asleep => 3
  | .woken => 4
  | .unlock => 5

/-- How far a process is. -/
def Pc.position : Pc → Nat
  | .wait .start pc => pc.position
  | .enter => 6
  | .entered => 7
  | .test => 8
  | .wait .softExit pc => 9 + pc.position
  | .exit => 15
  | .exited => 16
  | .wait .finish pc => 17 + pc.position
  | .done => 23

theorem position_le (pc : Pc) : pc.position ≤ 23 := by
  cases pc with
  | wait round pc => cases round <;> cases pc <;> decide
  | _ => decide

theorem position_awake (pc : Pc) : pc.position ≤ pc.awake.position := by
  unfold Pc.awake
  split
  · next round => cases round <;> decide
  · exact Nat.le_refl _

theorem Moves.position_lt {pc pc' : Pc} {b : BarrierT} {vmm : Hyper.System} (h : Moves s g i pc pc' b vmm) :
    pc.position < pc'.position := by
  cases h with
  | lock round | count round | sleep round | relock round => cases round <;> decide
  | unlock round =>
    cases hcalls : s.hypercalls <;> cases round <;> simp [Settings.afterWait, Settings.leave, hcalls] <;> decide
  | test =>
    cases hcalls : s.hypercalls <;> cases hsoft : s.softExitBarrier <;>
      simp [Settings.skiThreadFinish, Settings.leave, hcalls, hsoft] <;> decide
  | enter | entered | exit | exited => decide

/-- How far all processes are. -/
def State.position (s : Settings) (g : State) : Nat := ∑ i ∈ Finset.range s.totalCpus, (g.pc i).position

theorem position_lt_of_step (hi : i < s.totalCpus) (hstep : step s g (.process i) = .ok g') :
    g.position s < g'.position s := by
  suffices hle : ∀ j, (g.pc j).position ≤ (g'.pc j).position ∧ (j = i → (g.pc j).position < (g'.pc j).position) from
    Finset.sum_lt_sum (fun j _ => (hle j).1) ⟨i, Finset.mem_range.mpr hi, (hle i).2 rfl⟩
  intro j
  obtain ⟨-, ⟨pc, b, vmm, hmoves, rfl⟩ | ⟨round, hpc, -, rfl⟩⟩ := step_cases hstep
  · by_cases hji : j = i
    · subst hji
      simp only [Function.update_self]
      exact ⟨Nat.le_of_lt hmoves.position_lt, fun _ => hmoves.position_lt⟩
    · simp only [Function.update_of_ne hji]
      exact ⟨Nat.le_refl _, fun heq => absurd heq hji⟩
  · by_cases hji : j = i
    · subst hji
      simp only [Function.update_self, hpc]
      have hlt : (Pc.wait round .check).position < (Pc.wait round .unlock).position := by cases round <;> decide
      exact ⟨Nat.le_of_lt hlt, fun _ => hlt⟩
    · simp only [Function.update_of_ne hji]
      exact ⟨position_awake _, fun heq => absurd heq hji⟩

theorem length_le_of_run (hrun : Run (step s) (Possible s) g as g') : g.position s + as.length ≤ g'.position s := by
  induction hrun with
  | nil g => exact Nat.le_refl _
  | @cons g g₁ g' a as ha hstep _ ih =>
    cases a with
    | wakeup i => exact absurd ha id
    | process i =>
      have hlt := position_lt_of_step ha hstep
      rw [List.length_cons]
      omega

/-- The places in which a process can be unable to go on. -/
theorem stuck_cases (hended : g.vmm.ended = false) (hstuck : ∀ g', step s g (.process i) ≠ .ok g') :
    (g.usermodeBarrier.mutex ≠ none ∧ (g.pc i).holds = false) ∨ (∃ round, g.pc i = .wait round .asleep) ∨
      (g.pc i = .entered ∧ g.vmm.stateOf i ≠ .runningTest) ∨ (g.pc i = .exited ∧ g.vmm.stateOf i ≠ .na) ∨
      g.pc i = .done := by
  have hprocess : ∀ g', processStep s g i ≠ .ok g' := by simpa [step, hended] using hstuck
  unfold processStep at hprocess
  cases hpc : g.pc i with
  | wait round pc =>
    simp only [hpc] at hprocess
    cases pc with
    | lock | woken => exact .inl ⟨fun hfree => hprocess _ (if_pos hfree), rfl⟩
    | count | unlock => exact absurd rfl (hprocess _)
    | check =>
      by_cases hall : g.usermodeBarrier.called = g.usermodeBarrier.needed
      · exact absurd (if_pos hall) (hprocess _)
      · exact absurd (if_neg hall) (hprocess _)
    | asleep => exact .inr (.inl ⟨round, rfl⟩)
  | enter | exit => simp [hpc, hypercall, Hyper.step, hended] at hprocess
  | entered =>
    simp only [hpc] at hprocess
    exact .inr (.inr (.inl ⟨rfl, fun hreleased => hprocess _ (if_pos hreleased)⟩))
  | test =>
    simp only [hpc] at hprocess
    exact absurd rfl (hprocess _)
  | exited =>
    simp only [hpc] at hprocess
    exact .inr (.inr (.inr (.inl ⟨rfl, fun hreleased => hprocess _ (if_pos hreleased)⟩)))
  | done => exact .inr (.inr (.inr (.inr rfl)))

/-- Where all processes are unable to go on, the mutex is free. -/
theorem Synced.mutex_free (h : Synced s g) (hended : g.vmm.ended = false)
    (hstuck : ∀ i < s.totalCpus, ∀ g', Guest.step s g (.process i) ≠ .ok g') : g.usermodeBarrier.mutex = none := by
  refine h.guards.eq_none fun i => Bool.eq_false_iff.mpr fun hholds => ?_
  rcases stuck_cases hended (hstuck i (h.owner_lt i hholds)) with ⟨-, hpc⟩ | ⟨round, hpc⟩ | ⟨hpc, -⟩ | ⟨hpc, -⟩ | hpc
  · exact absurd hholds (Bool.eq_false_iff.mp hpc)
  all_goals
    rw [hpc] at hholds
    cases hholds

/-- How many times a process that stays in the phase is counted at the barrier. -/
def Phase.calls (s : Settings) : Phase → Nat
  | .entering => 1
  | .running => 1 + s.softExitBarrier.toNat
  | .off | .finished => 2 + s.softExitBarrier.toNat

theorem arrived_le_calls {round : Round} (h : phase.admits (.wait round .asleep) = true) :
    (Pc.wait round .asleep).arrived s ≤ phase.calls s := by
  cases phase <;> cases round <;> simp only [Pc.arrived, Round.index, Phase.calls] <;> first | omega | cases h

/-- A process that is unable to go on sleeps in the barrier of the guest, waits in the machine, or has finished. -/
theorem InPhase.stuck (h : InPhase s g.pc g.vmm phase) (hi : i < s.totalCpus) (hended : g.vmm.ended = false)
    (hfree : g.usermodeBarrier.mutex = none) (hstuck : ∀ g', Guest.step s g (.process i) ≠ .ok g') :
    (∃ round, g.pc i = .wait round .asleep ∧ phase.admits (.wait round .asleep) = true) ∨
      (g.pc i).arrived s = phase.calls s ∧ (g.pc i).inside = false
        ∧ (phase.waits (g.pc i) (g.vmm.stateOf i) ∨ g.pc i = .done ∧ (phase = .off ∨ phase = .finished)) := by
  have hplace := h.place i hi
  rcases (stuck_cases hended hstuck).resolve_left fun hheld => hheld.1 hfree with
    ⟨round, hpc⟩ | ⟨hpc, hstate⟩ | ⟨hpc, hstate⟩ | hpc
  · exact .inl ⟨round, hpc, (h.place_of_outside hi hpc nofun nofun).1⟩
  all_goals
    rw [hpc] at hplace ⊢
    refine .inr ?_
    cases phase <;> simp_all [Phase.calls, Pc.arrived, Pc.returned, Pc.inside]

/-- **Nothing blocks for good.** -/
theorem done_of_stuck (hsynced : Synced s g) (hphase : InPhase s g.pc g.vmm phase) (hended : g.vmm.ended = false)
    (hstuck : ∀ i < s.totalCpus, ∀ g', step s g (.process i) ≠ .ok g') (hi : i < s.totalCpus) :
    g.pc i = .done := by
  have hfree := hsynced.mutex_free hended hstuck
  have hcases := fun i hi => hphase.stuck hi hended hfree (hstuck i hi)
  obtain ⟨k, hk⟩ := hsynced.calls
  -- not all of them sleep, since nobody has the mutex to wake them
  have hcalls : phase.calls s = k := by
    by_contra hne
    obtain ⟨o, hholds⟩ := hsynced.last fun j hj => by
      rcases hcases j hj with ⟨round, hpc, -⟩ | ⟨harrived, hout, -⟩
      · rw [hpc]
        rfl
      · have hj' := hk j hj
        rw [hout] at hj'
        exact absurd (harrived.symm.trans hj') hne
    cases hfree.symm.trans ((hsynced.guards o).mp hholds)
  -- so nobody sleeps, and one of them does not wait in the machine either
  have hawake : ∀ j < s.totalCpus, phase.waits (g.pc j) (g.vmm.stateOf j) ∨
      g.pc j = .done ∧ (phase = .off ∨ phase = .finished) := fun j hj => by
    rcases hcases j hj with ⟨round, hpc, hadmits⟩ | ⟨-, -, hplace⟩
    · have hj' := hk j hj
      rw [hpc, show (Pc.wait round .asleep).inside.toNat = 1 from rfl] at hj'
      have := arrived_le_calls (s := s) hadmits
      omega
    · exact hplace
  obtain ⟨d, hd, hstate⟩ := hphase.free
  have hphases : phase = .off ∨ phase = .finished := by
    rcases hawake d hd with hwaits | ⟨-, hphases⟩
    · cases phase <;> simp_all
    · exact hphases
  rcases hawake i hi with hwaits | ⟨hdone, -⟩
  · rcases hphases with rfl | rfl <;> exact hwaits.elim
  · exact hdone

/-- **Every test completes**, whatever the order of the processes: a run has no more than 23 steps for each process, and
    it can go on unless the machine has ended or all processes have finished. -/
theorem guest_completes (hrun : s.Runs as g) :
    as.length ≤ 23 * s.totalCpus ∧
      (g.vmm.ended = true ∨ (∀ i < s.totalCpus, g.pc i = .done) ∨
        ∃ i < s.totalCpus, ∃ g', step s g (.process i) = .ok g') := by
  constructor
  · have hlength := length_le_of_run hrun
    have hbound : g.position s ≤ (Finset.range s.totalCpus).card • 23 :=
      Finset.sum_le_card_nsmul _ _ _ fun i _ => position_le (g.pc i)
    rw [Finset.card_range, smul_eq_mul] at hbound
    omega
  · obtain ⟨⟨phase, hphase⟩, -⟩ := InPhase.run hrun
    cases hended : g.vmm.ended with
    | true => exact .inl rfl
    | false =>
      -- if nobody can go on, all are done
      by_cases hstuck : ∃ i < s.totalCpus, ∃ g', step s g (.process i) = .ok g'
      · exact .inr (.inr hstuck)
      · refine .inr (.inl fun i hi => done_of_stuck (Synced.run hrun) hphase hended (fun j hj g' hstep => ?_) hi)
        exact hstuck ⟨j, hj, g', hstep⟩

theorem guest_completes_bothRunning :
    13 ≤ 23 * 2 ∧ (bothRunning.vmm.ended = true ∨ (∀ i < 2, bothRunning.pc i = .done) ∨
      ∃ i < 2, ∃ g', step twoProcesses bothRunning (.process i) = .ok g') :=
  guest_completes bothRunning_runs

end Runs

end SkiVmm.Guest
