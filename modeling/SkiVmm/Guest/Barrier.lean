import SkiVmm.Guest.Model
import SkiVmm.Lib.Mutex

/-!
# `Guest.Barrier` — the barrier that the processes share

The barrier is used two or three times in a test. `called` counts the processes that have come to the current use and
have not been woken; the last one starts over with zero, so a fast process may be counted for the next use while a slow
one has not even got the mutex back. `Synced` is the invariant: the processes inside are one use ahead of all others.

## Main results
- `Synced.step`: every step of every process keeps the invariant.
- `barrierWait_rounds`: no process returns from its n-th call before every process has made its n-th call.
-/

namespace SkiVmm.Guest

open Lib
open Function (update)

/-! ## What the place of a process says -/

/-- The process holds the mutex of the barrier. -/
def Pc.holds : Pc → Bool
  | .wait _ .count | .wait _ .check | .wait _ .unlock => true
  | _ => false

/-- The process is counted in `called`. -/
def Pc.inside : Pc → Bool
  | .wait _ .check | .wait _ .asleep => true
  | _ => false

/-- How many calls of `barrier_wait` there are before this one. The soft exit barrier is the second one, if there is
    one. -/
def Round.index (s : Settings) : Round → Nat
  | .start => 0
  | .softExit => s.softExitBarrier.toNat
  | .finish => 1 + s.softExitBarrier.toNat

/-- How many calls of `barrier_wait` have returned. -/
def Pc.returned (s : Settings) : Pc → Nat
  | .wait round _ => round.index s
  | .enter | .entered | .test => 1
  | .exit | .exited => 1 + s.softExitBarrier.toNat
  | .done => 2 + s.softExitBarrier.toNat

/-- How many times the process has been counted. -/
def Pc.arrived (s : Settings) : Pc → Nat
  | .wait round .lock | .wait round .count => round.index s
  | .wait round _ => round.index s + 1
  | pc => pc.returned s

section Pc
variable (s : Settings)

attribute [local simp] Pc.holds Pc.inside Round.index Pc.returned Pc.arrived

/-- A process that is inside has made a call that has not returned. -/
theorem returned_add_inside_le (pc : Pc) : pc.returned s + pc.inside.toNat ≤ pc.arrived s := by
  cases pc with
  | wait round pc => cases pc <;> simp
  | _ => exact Nat.le_refl _

/-- The places to which a process comes with nothing to do for the barrier. -/
theorem afterWait_plain (round : Round) :
    (s.afterWait round).arrived s = round.index s + 1 ∧ (s.afterWait round).inside = false
      ∧ (s.afterWait round).holds = false := by
  have hsum := Nat.add_comm 1 s.softExitBarrier.toNat
  cases hcalls : s.hypercalls <;> cases round <;>
    simp [Settings.afterWait, Settings.leave, hcalls, hsum]
  all_goals omega

theorem skiThreadFinish_plain :
    s.skiThreadFinish.arrived s = 1 ∧ s.skiThreadFinish.inside = false ∧ s.skiThreadFinish.holds = false := by
  cases hcalls : s.hypercalls <;> cases hsoft : s.softExitBarrier <;>
    simp [Settings.skiThreadFinish, Settings.leave, hcalls, hsoft]

theorem arrived_awake (pc : Pc) : pc.awake.arrived s = pc.arrived s := by
  unfold Pc.awake
  split <;> rfl

theorem holds_awake (pc : Pc) : pc.awake.holds = pc.holds := by
  unfold Pc.awake
  split <;> rfl

theorem inside_awake {pc : Pc} (hpc : pc.holds = false) : pc.awake.inside = false := by
  unfold Pc.awake
  split
  · rfl
  · next hasleep =>
    unfold Pc.inside
    split
    · cases hpc
    · next round => exact absurd rfl (hasleep round)
    · rfl

end Pc

/-! ## The invariant -/

/-- **The invariant of the barrier**: those who are inside are one call ahead of the others, and if nobody is missing
    the last one of them has the mutex. -/
structure Synced (s : Settings) (g : State) : Prop where
  guards : Guards (fun i => (g.pc i).holds) g.usermodeBarrier.mutex
  needed_eq : g.usermodeBarrier.needed = s.totalCpus
  called_eq : g.usermodeBarrier.called = (List.range s.totalCpus).countP fun i => (g.pc i).inside
  calls : ∃ k, ∀ i < s.totalCpus, (g.pc i).arrived s = k + (g.pc i).inside.toNat
  last : (∀ i < s.totalCpus, (g.pc i).inside = true) → ∃ i, (g.pc i).holds = true
  owner_lt : ∀ i, (g.pc i).holds = true → i < s.totalCpus

section Synced
variable {s : Settings} {g g' : State} {i : Nat}

theorem synced_start (s : Settings) : Synced s s.start where
  guards _ := iff_of_false nofun nofun
  needed_eq := rfl
  called_eq := ((List.countP_eq_zero (p := fun i => (s.start.pc i).inside)).mpr fun _ _ => nofun).symm
  calls := ⟨0, fun _ _ => rfl⟩
  last hall := absurd (hall 0 s.total_pos) nofun
  owner_lt _ := nofun

/-- The counter has reached the number of processes iff all of them are inside. -/
theorem Synced.called_eq_needed_iff (h : Synced s g) :
    g.usermodeBarrier.called = g.usermodeBarrier.needed ↔ ∀ i < s.totalCpus, (g.pc i).inside = true := by
  rw [h.called_eq, h.needed_eq]
  have hlength := List.countP_eq_length (p := fun i => (g.pc i).inside) (l := List.range s.totalCpus)
  rw [List.length_range] at hlength
  simpa only [List.mem_range] using hlength

/-- One process moves. -/
theorem Synced.move (h : Synced s g) (hi : i < s.totalCpus) {pc : Pc} {b : BarrierT} (vmm : Hyper.System)
    (hguards : Guards (update (fun j => (g.pc j).holds) i pc.holds) b.mutex)
    (hneeded : b.needed = g.usermodeBarrier.needed)
    (hcalled : b.called + (g.pc i).inside.toNat = g.usermodeBarrier.called + pc.inside.toNat)
    (harrived : pc.arrived s + (g.pc i).inside.toNat = (g.pc i).arrived s + pc.inside.toNat)
    (hlast : pc.inside = true → pc.holds = true ∨ ∃ j < s.totalCpus, j ≠ i ∧ (g.pc j).inside = false) :
    Synced s ⟨b, update g.pc i pc, vmm⟩ := by
  have hself : update g.pc i pc i = pc := Function.update_self ..
  obtain ⟨k, hk⟩ := h.calls
  refine ⟨?_, hneeded.trans h.needed_eq, ?_, ⟨k, fun j hj => ?_⟩, fun hall => ?_, fun j hj => ?_⟩
  · have hholds : (fun j => (update g.pc i pc j).holds) = update (fun j => (g.pc j).holds) i pc.holds :=
      Function.comp_update Pc.holds g.pc i pc
    rwa [← hholds] at hguards
  · have hcount := countP_range_update g.pc Pc.inside pc hi
    have hold := h.called_eq
    show b.called = (List.range s.totalCpus).countP fun j => (update g.pc i pc j).inside
    cases hin : pc.inside <;> cases hin' : (g.pc i).inside <;> simp [hin, hin'] at hcalled hcount <;> omega
  · by_cases hji : j = i
    · subst hji
      have harrived' := hk j hj
      simp only [hself]
      omega
    · simp only [Function.update_of_ne hji]
      exact hk j hj
  · rcases hlast (by simpa only [hself] using hall i hi) with hholds | ⟨j, hj, hji, hout⟩
    · exact ⟨i, by simpa only [hself] using hholds⟩
    · have hin := hall j hj
      simp only [Function.update_of_ne hji, hout] at hin
      cases hin
  · by_cases hji : j = i
    · rwa [hji]
    · simp only [Function.update_of_ne hji] at hj
      exact h.owner_lt j hj

/-- The last process wakes the others. -/
theorem Synced.broadcast (h : Synced s g) (hi : i < s.totalCpus) {round : Round}
    (hpc : g.pc i = .wait round .check) (hall : g.usermodeBarrier.called = g.usermodeBarrier.needed) :
    Synced s ⟨{ g.usermodeBarrier with called := 0 }, update (fun j => (g.pc j).awake) i (.wait round .unlock),
      g.vmm⟩ := by
  have hinside := h.called_eq_needed_iff.mp hall
  have hself : update (fun j => (g.pc j).awake) i (.wait round .unlock) i = .wait round .unlock :=
    Function.update_self ..
  have hholds : (g.pc i).holds = true := by rw [hpc]; rfl
  -- the mutex is ours, so the others sleep
  have hothers : ∀ j, j ≠ i → (g.pc j).holds = false := fun j hji =>
    Bool.eq_false_iff.mpr fun hj => hji (h.guards.exclusive hholds hj)
  have hout : ∀ j, (update (fun j => (g.pc j).awake) i (.wait round .unlock) j).inside = false := by
    intro j
    by_cases hji : j = i
    · rw [hji, hself]
      rfl
    · rw [Function.update_of_ne hji]
      exact inside_awake (hothers j hji)
  obtain ⟨k, hk⟩ := h.calls
  refine ⟨fun j => ?_, h.needed_eq, ?_, ⟨k + 1, fun j hj => ?_⟩, fun hin => ?_, fun j hj => ?_⟩
  · refine Iff.trans ?_ (h.guards j)
    by_cases hji : j = i
    · subst hji
      simp only [hself, hholds]
      exact iff_of_true rfl trivial
    · simp only [Function.update_of_ne hji, holds_awake]
  · exact (List.countP_eq_zero.mpr fun j _ => by simp [hout j]).symm
  · have harrived := hk j hj
    rw [hinside j hj] at harrived
    simp only [hout j]
    by_cases hji : j = i
    · subst hji
      rw [hpc] at harrived
      rw [hself]
      exact harrived
    · rw [Function.update_of_ne hji, arrived_awake]
      exact harrived
  · have := hin i hi
    simp only [hself] at this
    cases this
  · by_cases hji : j = i
    · rwa [hji]
    · simp only [Function.update_of_ne hji, holds_awake] at hj
      exact h.owner_lt j hj

/-- One process moves, and the barrier does not count it before or after. -/
theorem Synced.move_outside (h : Synced s g) (hi : i < s.totalCpus) {pc₀ pc : Pc} (hpc : g.pc i = pc₀)
    {mutex : Option Nat} (vmm : Hyper.System)
    (hguards : Guards (update (fun j => (g.pc j).holds) i pc.holds) mutex) (hin : pc₀.inside = false)
    (hin' : pc.inside = false) (harrived : pc.arrived s = pc₀.arrived s) :
    Synced s ⟨{ g.usermodeBarrier with mutex := mutex }, update g.pc i pc, vmm⟩ := by
  refine h.move hi vmm hguards rfl ?_ ?_ ?_
  · rw [hpc, hin, hin']
  · rw [hpc, hin, hin', harrived]
  · rw [hin']
    exact nofun

/-- **Every step keeps the invariant.** -/
theorem Synced.step (h : Synced s g) (hi : i < s.totalCpus) (hstep : Guest.step s g (.process i) = .ok g') :
    Synced s g' := by
  obtain ⟨-, ⟨pc, b, vmm, hmoves, rfl⟩ | ⟨round, hpc, hall, rfl⟩⟩ := step_cases hstep
  · generalize hpc : g.pc i = pc₀ at hmoves
    have hguards := h.guards
    have hholds : (g.pc i).holds = pc₀.holds := congrArg Pc.holds hpc
    cases hmoves with
    | lock round hfree | relock round hfree =>
      rw [hfree] at hguards
      exact h.move_outside hi hpc _ (hguards.acquire i) rfl rfl rfl
    | count round =>
      exact h.move hi _ (hguards.move hholds) rfl (by rw [hpc]; rfl) (by rw [hpc]; rfl) fun _ => .inl rfl
    | sleep round hmissing =>
      refine h.move hi _ (hguards.release hholds) rfl (by rw [hpc]; rfl) (by rw [hpc]; rfl) fun _ => .inr ?_
      have hsome : ∃ j < s.totalCpus, (g.pc j).inside = false := by
        by_contra hnone
        refine hmissing (h.called_eq_needed_iff.mpr fun j hj => Bool.not_eq_false _ ▸ fun hj' => hnone ⟨j, hj, hj'⟩)
      obtain ⟨j, hj, hout⟩ := hsome
      refine ⟨j, hj, fun hji => ?_, hout⟩
      rw [hji, hpc] at hout
      cases hout
    | unlock round =>
      obtain ⟨harrived, hinside, hholds'⟩ := afterWait_plain s round
      exact h.move_outside hi hpc _ (hholds' ▸ hguards.release hholds) rfl hinside harrived
    | test =>
      obtain ⟨harrived, hinside, hholds'⟩ := skiThreadFinish_plain s
      exact h.move_outside hi hpc _ (hholds' ▸ hguards.move hholds) rfl hinside harrived
    | enter | entered | exit | exited => exact h.move_outside hi hpc _ (hguards.move hholds) rfl rfl rfl
  · exact h.broadcast hi hpc hall

theorem Synced.run {as : List Action} (hrun : s.Runs as g) : Synced s g := by
  refine hrun.invariant (fun {g a g'} h ha hstep => ?_) (synced_start s)
  cases a with
  | process i => exact h.step ha hstep
  | wakeup i => exact absurd ha id

end Synced

/-! ## The calls of the barrier -/

section Calls
variable {s : Settings} {g : State} {i j : Nat}

theorem Synced.returned_le (h : Synced s g) (hi : i < s.totalCpus) (hj : j < s.totalCpus) :
    (g.pc i).returned s ≤ (g.pc j).arrived s := by
  obtain ⟨k, hk⟩ := h.calls
  have hreturned := returned_add_inside_le s (g.pc i)
  have hi' := hk i hi
  have hj' := hk j hj
  omega

/-- **The barrier is one**, each time it is used: a process has returned from as many calls at most as every process has
    made. -/
theorem barrierWait_rounds {as : List Action} (hrun : s.Runs as g) (hi : i < s.totalCpus)
    (hj : j < s.totalCpus) : (g.pc i).returned s ≤ (g.pc j).arrived s :=
  (Synced.run hrun).returned_le hi hj

end Calls

/-- Two processes with a soft exit barrier. -/
def twoProcesses : Settings where
  hypercalls := true
  softExitBarrier := true
  totalCpus := 2
  options := { forkallEnabled := false, debugExitAfterHypercallEnabled := false, debugAssertTrapEnabled := false }
  cpusNo := 2
  total_pos := by decide
  total_le := Nat.le_refl 2

instance (s : Settings) (g : State) (a : Action) : Decidable (Possible s g a) :=
  match a with
  | .process i => inferInstanceAs (Decidable (i < s.totalCpus))
  | .wakeup _ => inferInstanceAs (Decidable False)

/-- The state after some steps of the processes. -/
def Settings.after (s : Settings) (is : List Nat) : Option State :=
  exec (step s) (fun g a => decide (Possible s g a)) s.start (is.map Action.process)

theorem runs_of_after {s : Settings} {is : List Nat} {g : State} (h : s.after is = some g) :
    s.Runs (is.map Action.process) g :=
  run_of_exec (fun _ _ => of_decide_eq_true) h

/-- The first process waits for the second one. -/
def oneAsleep : State := (twoProcesses.after [0, 0, 0]).get rfl

theorem barrierWait_rounds_oneAsleep : (oneAsleep.pc 1).returned twoProcesses ≤ (oneAsleep.pc 0).arrived twoProcesses :=
  barrierWait_rounds (runs_of_after (Option.some_get rfl).symm) (by decide) (by decide)

-- After a spurious wakeup the first process makes its hypercall, and the second one has not come to the barrier.
example : (([Action.wakeup 0, .process 0, .process 0].foldlM (step twoProcesses) oneAsleep).toOption.map
    fun g => (g.pc 0, g.pc 1)) = some (.enter, .wait .start .lock) := rfl

end SkiVmm.Guest
