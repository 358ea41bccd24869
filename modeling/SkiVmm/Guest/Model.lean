import SkiVmm.Hyper.Barrier

/-!
# `Guest.Model` — the processes of a test inside the machine (`ski-test.c`, `ski-barriers.c`)

One process of the guest runs on each test CPU, and all of them share the barrier `usermode_barrier`. A process waits in
it, makes its enter hypercall, runs its test, waits in the barrier again if there is a soft exit barrier, makes its exit
hypercall, and waits in the barrier once more. The hypercalls are those of `Hyper.Barrier`, so a `State` is both sides
of the protocol: where each process is, and what the machine knows about its CPU.

The processes run in any order. A step is what a process does up to its next call of the thread library or of the
machine. `pthread_cond_wait` may return although nobody has signalled the condition (`Action.wakeup`), and
`barrier_wait` does not look at its counter again when it returns.
-/

namespace SkiVmm.Guest

open Lib
open Function (update)
open Hyper (HypercallIo)

/-! ## The processes -/

/-- Inside `barrier_wait` -/
inductive WaitPc where
  | lock
  /-- before `called++` -/
  | count
  /-- before the comparison with `needed` -/
  | check
  /-- in `pthread_cond_wait`, and on the condition -/
  | asleep
  /-- in `pthread_cond_wait`, and waiting for the mutex -/
  | woken
  | unlock
deriving DecidableEq

/-- The calls of `barrier_wait` in a test -/
inductive Round where
  | start
  | softExit
  | finish
deriving DecidableEq

/-- Where a process is, from `ski_test_start` to the end of `ski_test_finish`. -/
inductive Pc where
  | wait (round : Round) (pc : WaitPc)
  | enter
  /-- in `hypercall(&hio_enter)` -/
  | entered
  | test
  | exit
  /-- in `hypercall(&hio_exit)` -/
  | exited
  | done
deriving DecidableEq

/-- The variables of `ski-params.c`, and the machine. -/
structure Settings where
  hypercalls : Bool
  softExitBarrier : Bool
  totalCpus : Nat
  options : Hyper.Options
  cpusNo : Nat
  total_pos : 0 < totalCpus
  total_le : totalCpus ≤ cpusNo

/-- The test CPUs: the process with the affinity `i` runs on CPU `i`. -/
def Settings.setup (s : Settings) : Hyper.Setup where
  options := s.options
  cpusNo := s.cpusNo
  tests := List.range s.totalCpus
  nodup := List.nodup_range
  tests_lt _ hc := Nat.lt_of_lt_of_le (List.mem_range.mp hc) s.total_le

/-- `barrier_t`; who is on `cond` is in the places of the processes. -/
structure BarrierT where
  needed : Nat
  called : Nat
  mutex : Option Nat

structure State where
  usermodeBarrier : BarrierT
  pc : Nat → Pc
  vmm : Hyper.System

/-- After `ski_tests_init`: `barrier_init` has run. -/
def Settings.start (s : Settings) : State where
  usermodeBarrier := { needed := s.totalCpus, called := 0, mutex := none }
  pc _ := .wait .start .lock
  vmm := s.setup.start

/-! ## The steps -/

/-- Why a step is not taken. -/
inductive Stop where
  | blocked
  | processEnded

/-- The rest of `ski_thread_finish` after its soft exit barrier -/
def Settings.leave (s : Settings) : Pc := if s.hypercalls then .exit else .wait .finish .lock

/-- `ski_thread_finish` -/
def Settings.skiThreadFinish (s : Settings) : Pc := if s.softExitBarrier then .wait .softExit .lock else s.leave

/-- What follows a call of `barrier_wait`. -/
def Settings.afterWait (s : Settings) : Round → Pc
  | .start => if s.hypercalls then .enter else .test
  | .softExit => s.leave
  | .finish => .done

/-- `pthread_cond_broadcast` as seen by one process -/
def Pc.awake : Pc → Pc
  | .wait round .asleep => .wait round .woken
  | pc => pc

/-- A step of `barrier_wait` by process `i` -/
def barrierWait (s : Settings) (g : State) (i : Nat) (round : Round) : WaitPc → Except Stop State
  | .lock =>
    if g.usermodeBarrier.mutex = none then
      .ok { g with
        usermodeBarrier := { g.usermodeBarrier with mutex := some i }
        pc := update g.pc i (.wait round .count) }
    else .error .blocked
  | .count =>
    .ok { g with
      usermodeBarrier := { g.usermodeBarrier with called := g.usermodeBarrier.called + 1 }
      pc := update g.pc i (.wait round .check) }
  | .check =>
    if g.usermodeBarrier.called = g.usermodeBarrier.needed then
      -- the last one keeps the mutex, and those it wakes have to wait for it
      .ok { g with
        usermodeBarrier := { g.usermodeBarrier with called := 0 }
        pc := update (fun j => (g.pc j).awake) i (.wait round .unlock) }
    else
      -- `pthread_cond_wait` gives the mutex back and sleeps in one step
      .ok { g with
        usermodeBarrier := { g.usermodeBarrier with mutex := none }
        pc := update g.pc i (.wait round .asleep) }
  | .asleep => .error .blocked
  | .woken =>
    if g.usermodeBarrier.mutex = none then
      .ok { g with
        usermodeBarrier := { g.usermodeBarrier with mutex := some i }
        pc := update g.pc i (.wait round .unlock) }
    else .error .blocked
  | .unlock =>
    .ok { g with
      usermodeBarrier := { g.usermodeBarrier with mutex := none }
      pc := update g.pc i (s.afterWait round) }

/-- `hypercall` by process `i`, which is then inside the hypercall at `pc`. -/
def hypercall (s : Settings) (g : State) (i : Nat) (hio : HypercallIo) (pc : Pc) : Except Stop State :=
  match Hyper.step s.options g.vmm (i, hio) with
  | .ok vmm => .ok { g with pc := update g.pc i pc, vmm := vmm }
  | .error _ => .error .processEnded

/-- The next step of process `i`. It leaves a hypercall when its CPU is released from the barrier of the machine. -/
def processStep (s : Settings) (g : State) (i : Nat) : Except Stop State :=
  match g.pc i with
  | .wait round pc => barrierWait s g i round pc
  | .enter => hypercall s g i (.testEnter s.totalCpus) .entered
  | .entered =>
    if g.vmm.stateOf i = .runningTest then .ok { g with pc := update g.pc i .test } else .error .blocked
  | .test => .ok { g with pc := update g.pc i s.skiThreadFinish }
  | .exit => hypercall s g i .testExit .exited
  | .exited =>
    if g.vmm.stateOf i = .na then .ok { g with pc := update g.pc i (.wait .finish .lock) } else .error .blocked
  | .done => .error .blocked

inductive Action where
  | process (i : Nat)
  /-- a spurious wakeup of process `i` -/
  | wakeup (i : Nat)
deriving DecidableEq

def step (s : Settings) (g : State) : Action → Except Stop State
  | .process i => if g.vmm.ended then .error .processEnded else processStep s g i
  | .wakeup i => .ok { g with pc := update g.pc i (g.pc i).awake }

/-- The processes of the test run, and no wakeup is spurious. -/
def Possible (s : Settings) (_ : State) : Action → Prop
  | .process i => i < s.totalCpus
  | .wakeup _ => False

/-- Runs of the processes in any order. -/
abbrev Settings.Runs (s : Settings) (as : List Action) (g : State) : Prop := Run (step s) (Possible s) s.start as g

/-! ## What a step can do -/

/-- The step of process `i` from the first place to the second, with the barrier and the machine after it. -/
inductive Moves (s : Settings) (g : State) (i : Nat) : Pc → Pc → BarrierT → Hyper.System → Prop
  | lock (round : Round) (hfree : g.usermodeBarrier.mutex = none) :
    Moves s g i (.wait round .lock) (.wait round .count) { g.usermodeBarrier with mutex := some i } g.vmm
  | count (round : Round) :
    Moves s g i (.wait round .count) (.wait round .check)
      { g.usermodeBarrier with called := g.usermodeBarrier.called + 1 } g.vmm
  | sleep (round : Round) (hmissing : g.usermodeBarrier.called ≠ g.usermodeBarrier.needed) :
    Moves s g i (.wait round .check) (.wait round .asleep) { g.usermodeBarrier with mutex := none } g.vmm
  | relock (round : Round) (hfree : g.usermodeBarrier.mutex = none) :
    Moves s g i (.wait round .woken) (.wait round .unlock) { g.usermodeBarrier with mutex := some i } g.vmm
  | unlock (round : Round) :
    Moves s g i (.wait round .unlock) (s.afterWait round) { g.usermodeBarrier with mutex := none } g.vmm
  | enter {vmm : Hyper.System} (hcall : Hyper.step s.options g.vmm (i, .testEnter s.totalCpus) = .ok vmm) :
    Moves s g i .enter .entered g.usermodeBarrier vmm
  | entered (hreleased : g.vmm.stateOf i = .runningTest) : Moves s g i .entered .test g.usermodeBarrier g.vmm
  | test : Moves s g i .test s.skiThreadFinish g.usermodeBarrier g.vmm
  | exit {vmm : Hyper.System} (hcall : Hyper.step s.options g.vmm (i, .testExit) = .ok vmm) :
    Moves s g i .exit .exited g.usermodeBarrier vmm
  | exited (hreleased : g.vmm.stateOf i = .na) :
    Moves s g i .exited (.wait .finish .lock) g.usermodeBarrier g.vmm

section Step
variable {s : Settings} {g g' : State} {i : Nat}

/-- **What a step can do**: one process moves, or the last one wakes the others. -/
theorem step_cases (hstep : step s g (.process i) = .ok g') :
    g.vmm.ended = false ∧
      ((∃ pc b vmm, Moves s g i (g.pc i) pc b vmm ∧ g' = ⟨b, update g.pc i pc, vmm⟩) ∨
        ∃ round, g.pc i = .wait round .check ∧ g.usermodeBarrier.called = g.usermodeBarrier.needed ∧
          g' = ⟨{ g.usermodeBarrier with called := 0 }, update (fun j => (g.pc j).awake) i (.wait round .unlock),
            g.vmm⟩) := by
  simp only [step] at hstep
  split at hstep
  · cases hstep
  next hended =>
  refine ⟨Bool.eq_false_iff.mpr hended, ?_⟩
  unfold processStep at hstep
  split at hstep
  case h_1 round pc hpc =>
    rw [hpc]
    cases pc with
    | check =>
      simp only [barrierWait] at hstep
      split at hstep
      · next hall =>
        cases hstep
        exact .inr ⟨round, rfl, hall, rfl⟩
      · next hmissing =>
        cases hstep
        exact .inl ⟨_, _, _, .sleep round hmissing, rfl⟩
    | lock =>
      simp only [barrierWait] at hstep
      split at hstep
      · next hfree =>
        cases hstep
        exact .inl ⟨_, _, _, .lock round hfree, rfl⟩
      · cases hstep
    | count =>
      cases hstep
      exact .inl ⟨_, _, _, .count round, rfl⟩
    | asleep => cases hstep
    | woken =>
      simp only [barrierWait] at hstep
      split at hstep
      · next hfree =>
        cases hstep
        exact .inl ⟨_, _, _, .relock round hfree, rfl⟩
      · cases hstep
    | unlock =>
      cases hstep
      exact .inl ⟨_, _, _, .unlock round, rfl⟩
  case h_2 hpc =>
    rw [hpc]
    unfold hypercall at hstep
    split at hstep
    · next hcall =>
      cases hstep
      exact .inl ⟨_, _, _, .enter hcall, rfl⟩
    · cases hstep
  case h_3 hpc =>
    rw [hpc]
    split at hstep
    · next hreleased =>
      cases hstep
      exact .inl ⟨_, _, _, .entered hreleased, rfl⟩
    · cases hstep
  case h_4 hpc =>
    rw [hpc]
    cases hstep
    exact .inl ⟨_, _, _, .test, rfl⟩
  case h_5 hpc =>
    rw [hpc]
    unfold hypercall at hstep
    split at hstep
    · next hcall =>
      cases hstep
      exact .inl ⟨_, _, _, .exit hcall, rfl⟩
    · cases hstep
  case h_6 hpc =>
    rw [hpc]
    split at hstep
    · next hreleased =>
      cases hstep
      exact .inl ⟨_, _, _, .exited hreleased, rfl⟩
    · cases hstep
  case h_7 => cases hstep

end Step

end SkiVmm.Guest
