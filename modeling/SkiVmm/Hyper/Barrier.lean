import SkiVmm.Lib.Run
import SkiVmm.Lib.Table
import SkiVmm.Sched.Threads

/-!
# `Hyper.Barrier` — the enter and exit barriers of a test (`ski-hyper.c`, `ski_barrier`)

Each test CPU announces itself with an enter hypercall and signs off with an exit hypercall. Both go through
`ski_barrier`, which counts the CPUs in the state the caller has just put itself in: a caller that is not the last
one leaves the CPU loop inside the hypercall and stays blocked, the last one moves all of them on.

The states of the CPUs change in these hypercalls only, so a run is a list of hypercalls. `step_effect` says what
one of them does to the states of all CPUs: the call waits and only its CPU has moved, or it releases all test
CPUs at once. The safety of the protocol is read off from there.
-/

namespace SkiVmm.Hyper

open Lib
open Sched (CpuTestState)

/-! ## The hypercalls -/

/-- The values of `exception_index` that the hypercalls write; `none` is -1. -/
inductive ExceptionIndex where
  | none
  | skiEnterWaiting
  | skiExitWaiting
  | skiScheduler
deriving DecidableEq, Repr

/-- The fields of `CPUState` and of its `ski_cpu` on which the barriers rest. -/
structure CpuState where
  skiActive : Bool
  exceptionIndex : ExceptionIndex
  state : CpuTestState
  nrCpus : Int
  lastEnterCpu : Bool
deriving DecidableEq

/-- A CPU that takes no part in a test. -/
def CpuState.idle : CpuState :=
  { skiActive := false, exceptionIndex := .none, state := .na, nrCpus := 0, lastEnterCpu := false }

/-- `ski_barrier` called by CPU `env`, with whether it returns: a caller that has to wait leaves by
    `cpu_loop_exit`. -/
def skiBarrier (cpus : List CpuState) (env : Nat) (nrCpusBarrier : Int) (oldState newState : CpuTestState)
    (blockingException : ExceptionIndex) : List CpuState × Bool :=
  let nrCpusMissing :=
    cpus.foldl (fun missing penv => if penv.state = oldState then missing - 1 else missing) nrCpusBarrier
  if nrCpusMissing = 0 then
    (cpus.map fun penv => if penv.state = oldState then { penv with state := newState } else penv, true)
  else (cpus.modify env fun penv => { penv with exceptionIndex := blockingException }, false)

/-- The hypercalls of a test; an enter call carries `gh_nr_cpus`. -/
inductive HypercallIo where
  | testEnter (ghNrCpus : Int)
  | testExit
deriving DecidableEq, Repr

/-- How a hypercall ends. -/
inductive Outcome where
  /-- the barrier did not return -/
  | waits
  /-- the enter barrier returned, and `ski_start_test` went on to the scheduler -/
  | starts
  /-- the exit barrier returned, and SKI is inactive on all CPUs -/
  | finishes
  /-- the exit barrier returned, and the process ended -/
  | ends
  /-- an exit call of a CPU that is in no test -/
  | ignored
deriving DecidableEq, Repr

/-- The barrier returned to its caller. -/
def Outcome.returned : Outcome → Bool
  | .starts | .finishes | .ends => true
  | .waits | .ignored => false

/-- What decides whether the process outlives the exit barrier. -/
structure Options where
  forkallEnabled : Bool
  debugExitAfterHypercallEnabled : Bool
  debugAssertTrapEnabled : Bool

/-- `env->ski_cpu.nr_cpus` -/
def nrCpusOf (cpus : List CpuState) (env : Nat) : Int := (cpus[env]?.map CpuState.nrCpus).getD 0

/-- The barrier state of a CPU. -/
def stateAt (cpus : List CpuState) (c : Nat) : CpuTestState := (cpus[c]?.map CpuState.state).getD .na

/-- `ski_deactivate_all_cpu`: every `ski_cpu` is cleared. -/
def skiDeactivateAllCpu (cpus : List CpuState) : List CpuState :=
  cpus.map fun penv => { penv with skiActive := false, state := .na, nrCpus := 0, lastEnterCpu := false }

/-- The case `HYPERCALL_IO_TYPE_TEST_ENTER`, with the `ski_start_test` at its end. -/
def testEnter (cpus : List CpuState) (env : Nat) (ghNrCpus : Int) : List CpuState × Outcome :=
  let cpus := cpus.modify env fun cpu =>
    { cpu with skiActive := true, exceptionIndex := .none, nrCpus := ghNrCpus, state := .blockedOnEnter,
               lastEnterCpu := false }
  match skiBarrier cpus env (nrCpusOf cpus env) .blockedOnEnter .runningTest .skiEnterWaiting with
  | (cpus, false) => (cpus, .waits)
  | (cpus, true) =>
    (cpus.modify env fun cpu => { cpu with lastEnterCpu := true, exceptionIndex := .skiScheduler }, .starts)

/-- The case `HYPERCALL_IO_TYPE_TEST_EXIT`. The process ends before the CPUs are deactivated when forked tests are
    to stop there, or when the `SKI_ASSERT(0)` of `ski_last_in_test` traps. -/
def testExit (options : Options) (cpus : List CpuState) (env : Nat) : List CpuState × Outcome :=
  if (cpus[env]?.any CpuState.skiActive) = false then (cpus, .ignored)
  else
    let cpus := cpus.modify env fun cpu => { cpu with state := .blockedOnExit }
    match skiBarrier cpus env (nrCpusOf cpus env) .blockedOnExit .na .skiExitWaiting with
    | (cpus, false) => (cpus, .waits)
    | (cpus, true) =>
      if (options.forkallEnabled && options.debugExitAfterHypercallEnabled) || options.debugAssertTrapEnabled then
        (cpus, .ends)
      else (skiDeactivateAllCpu cpus, .finishes)

/-- `ski_process_hypercall` -/
def skiProcessHypercall (options : Options) (cpus : List CpuState) (env : Nat) (hio : HypercallIo) :
    List CpuState × Outcome :=
  let cpus := cpus.modify env fun cpu => { cpu with exceptionIndex := .none }
  match hio with
  | .testEnter ghNrCpus => testEnter cpus env ghNrCpus
  | .testExit => testExit options cpus env

/-! ## Runs -/

/-- A hypercall that was made, and how it ended. -/
structure Call where
  cpu : Nat
  hio : HypercallIo
  outcome : Outcome
deriving DecidableEq, Repr

/-- The CPUs, and the hypercalls made so far. -/
structure System where
  cpus : List CpuState
  calls : List Call
  ended : Bool

inductive Stop where
  | processEnded

def step (options : Options) (s : System) (call : Nat × HypercallIo) : Except Stop System :=
  if s.ended then .error .processEnded
  else
    let (cpus, outcome) := skiProcessHypercall options s.cpus call.1 call.2
    .ok { cpus := cpus
          calls := s.calls ++ [{ cpu := call.1, hio := call.2, outcome := outcome }]
          ended := outcome = .ends }

def System.stateOf (s : System) (c : Nat) : CpuTestState := stateAt s.cpus c

/-- The latest hypercall of CPU `c`. -/
def System.latestCall (s : System) (c : Nat) : Option Call := latest Call.cpu s.calls c

/-- A machine and the CPUs of its test. -/
structure Setup where
  options : Options
  cpusNo : Nat
  tests : List Nat
  nodup : tests.Nodup
  tests_lt : ∀ c ∈ tests, c < cpusNo

def Setup.start (setup : Setup) : System :=
  { cpus := List.replicate setup.cpusNo .idle, calls := [], ended := false }

/-- The state a caller waits in. -/
def HypercallIo.oldState : HypercallIo → CpuTestState
  | .testEnter _ => .blockedOnEnter
  | .testExit => .blockedOnExit

/-- The state it is released to. -/
def HypercallIo.newState : HypercallIo → CpuTestState
  | .testEnter _ => .runningTest
  | .testExit => .na

/-- The hypercalls of the test CPUs: each enter call announces all of them, a CPU that waits in a barrier makes no
    call, and a CPU exits only after it was released from enter. -/
def Setup.Allowed (setup : Setup) (s : System) (call : Nat × HypercallIo) : Prop :=
  call.1 ∈ setup.tests ∧
    match call.2 with
    | .testEnter ghNrCpus =>
      ghNrCpus = setup.tests.length ∧ s.stateOf call.1 ≠ .blockedOnEnter ∧ s.stateOf call.1 ≠ .blockedOnExit
    | .testExit => s.stateOf call.1 = .runningTest

/-- Runs of the test CPUs in any order. -/
abbrev Setup.Runs (setup : Setup) (calls : List (Nat × HypercallIo)) (s : System) : Prop :=
  Run (step setup.options) setup.Allowed setup.start calls s

/-! ## The states of the CPUs -/

section StateAt
variable {cpus : List CpuState} {env c : Nat} {f : CpuState → CpuState}

theorem stateAt_modify_keep (h : ∀ cpu, (f cpu).state = cpu.state) :
    stateAt (cpus.modify env f) c = stateAt cpus c := by
  unfold stateAt
  rw [List.getElem?_modify, Option.map_eq_map, Option.map_map]
  congr 2
  funext cpu
  simp only [Function.comp_apply]
  split
  · exact h cpu
  · rfl

theorem stateAt_modify {st : CpuTestState} (h : ∀ cpu, (f cpu).state = st) (henv : env < cpus.length) :
    stateAt (cpus.modify env f) c = if c = env then st else stateAt cpus c := by
  unfold stateAt
  rw [List.getElem?_modify]
  split
  · next heq =>
    subst heq
    rw [List.getElem?_eq_getElem henv]
    simp [h]
  · next hne =>
    simp [Ne.symm hne]

/-- A change of all CPUs that leaves the ones in no test alone. -/
theorem stateAt_map {g : CpuTestState → CpuTestState} (h : ∀ cpu, (f cpu).state = g cpu.state) (hna : g .na = .na) :
    stateAt (cpus.map f) c = g (stateAt cpus c) := by
  unfold stateAt
  rw [List.getElem?_map]
  cases cpus[c]? with
  | none => exact hna.symm
  | some cpu => exact h cpu

end StateAt

/-! ## The barrier -/

section Barrier
variable {cpus : List CpuState} {env c : Nat} {nr : Int} {old new : CpuTestState} {exc : ExceptionIndex}

/-- The barrier returns iff the number of CPUs in the old state is the one asked for. -/
theorem skiBarrier_returns_iff :
    (skiBarrier cpus env nr old new exc).2 = true ↔ nr = cpus.countP fun penv => penv.state = old := by
  have hcount := foldl_count_down (fun penv : CpuState => decide (penv.state = old)) cpus nr
  simp only [decide_eq_true_eq] at hcount
  unfold skiBarrier
  simp only [hcount]
  split
  · next hzero => simpa using Int.sub_eq_zero.mp hzero
  · next hne => simpa using fun heq => hne (Int.sub_eq_zero.mpr heq)

/-- A barrier that returns moves every CPU in the old state. -/
theorem stateAt_skiBarrier_of_returns (hold : old ≠ .na) (h : (skiBarrier cpus env nr old new exc).2 = true) :
    stateAt (skiBarrier cpus env nr old new exc).1 c = if stateAt cpus c = old then new else stateAt cpus c := by
  unfold skiBarrier at h ⊢
  simp only at h ⊢
  split
  · refine stateAt_map (g := fun st => if st = old then new else st) ?_ (if_neg hold.symm)
    intro penv
    split <;> rfl
  · next hne =>
    rw [if_neg hne] at h
    cases h

/-- A barrier that does not return moves none. -/
theorem stateAt_skiBarrier_of_waits (h : (skiBarrier cpus env nr old new exc).2 = false) :
    stateAt (skiBarrier cpus env nr old new exc).1 c = stateAt cpus c := by
  unfold skiBarrier at h ⊢
  simp only at h ⊢
  split
  · next hzero =>
    rw [if_pos hzero] at h
    cases h
  · exact stateAt_modify_keep fun _ => rfl

theorem length_skiBarrier : (skiBarrier cpus env nr old new exc).1.length = cpus.length := by
  unfold skiBarrier
  simp only
  split
  · exact List.length_map _
  · exact List.length_modify _ _ _

/-- When only test CPUs are in a test, their number is reached iff all of them have arrived. -/
theorem countP_eq_tests_iff (setup : Setup) (hold : old ≠ .na) (hothers : ∀ c, c ∉ setup.tests → stateAt cpus c = .na) :
    (setup.tests.length : Int) = cpus.countP (fun penv => penv.state = old) ↔
      ∀ c ∈ setup.tests, stateAt cpus c = old := by
  have hat : ∀ c, (∃ penv, cpus[c]? = some penv ∧ decide (penv.state = old) = true) ↔ stateAt cpus c = old := by
    intro c
    unfold stateAt
    cases cpus[c]? with
    | none => simpa using hold.symm
    | some penv => simp
  have honly : ∀ c penv, cpus[c]? = some penv → decide (penv.state = old) = true → c ∈ setup.tests := by
    intro c penv hpenv hstate
    by_contra hc
    exact hold (((hat c).mp ⟨penv, hpenv, hstate⟩).symm.trans (hothers c hc))
  rw [Int.natCast_inj, eq_comm, countP_eq_length_iff setup.nodup honly]
  simp only [hat]

/-- A CPU that takes part has SKI active and knows the number of test CPUs. -/
def Enrolled (n : Nat) (cpu : CpuState) : Prop := cpu.state ≠ .na → cpu.skiActive = true ∧ cpu.nrCpus = n

theorem enrolled_modify {n : Nat} {f : CpuState → CpuState} (h : ∀ cpu ∈ cpus, Enrolled n cpu)
    (hf : ∀ cpu, cpus[env]? = some cpu → Enrolled n (f cpu)) : ∀ cpu ∈ cpus.modify env f, Enrolled n cpu := by
  intro cpu hcpu
  obtain ⟨i, hi⟩ := List.mem_iff_getElem?.mp hcpu
  rw [List.getElem?_modify] at hi
  obtain ⟨a, ha, rfl⟩ := Option.map_eq_some_iff.mp hi
  by_cases heq : env = i
  · subst heq
    rw [if_pos rfl]
    exact hf a ha
  · rw [if_neg heq]
    exact h a (List.mem_of_getElem? ha)

theorem enrolled_skiBarrier {n : Nat} (hold : old ≠ .na) (h : ∀ cpu ∈ cpus, Enrolled n cpu) :
    ∀ cpu ∈ (skiBarrier cpus env nr old new exc).1, Enrolled n cpu := by
  unfold skiBarrier
  simp only
  split
  · intro cpu hcpu
    obtain ⟨a, ha, rfl⟩ := List.mem_map.mp hcpu
    split
    · next heq =>
      intro _
      exact h a ha (heq ▸ hold)
    · exact h a ha
  · exact enrolled_modify h fun cpu hcpu => h cpu (List.mem_of_getElem? hcpu)

end Barrier

/-! ## One hypercall -/

/-- What holds of the CPUs between hypercalls. -/
structure Formed (setup : Setup) (cpus : List CpuState) : Prop where
  length_eq : cpus.length = setup.cpusNo
  others : ∀ c, c ∉ setup.tests → stateAt cpus c = .na
  enrolled : ∀ cpu ∈ cpus, Enrolled setup.tests.length cpu

/-- What a hypercall of CPU `c` does to the states: it waits until the others are there, or it is the last one. -/
inductive Effect (setup : Setup) (cpus cpus' : List CpuState) (c : Nat) (old new : CpuTestState) (o : Outcome) : Prop
  | waits (houtcome : o = .waits) (hmissing : ∃ d ∈ setup.tests, d ≠ c ∧ stateAt cpus d ≠ old)
      (hstate : ∀ d, stateAt cpus' d = if d = c then old else stateAt cpus d)
  | releases (hreturned : o.returned = true) (harrived : ∀ d ∈ setup.tests, d ≠ c → stateAt cpus d = old)
      (hstate : ∀ d, stateAt cpus' d = if d ∈ setup.tests then new else .na)

section Hypercall
variable {setup : Setup} {cpus cpus₁ : List CpuState} {c : Nat} {old new : CpuTestState} {exc : ExceptionIndex}

/-- CPU `c` has put itself into the old state and calls the barrier. -/
structure Arrived (setup : Setup) (cpus cpus₁ : List CpuState) (c : Nat) (old : CpuTestState) : Prop where
  formed : Formed setup cpus₁
  caller : c ∈ setup.tests
  old_ne : old ≠ .na
  state : ∀ d, stateAt cpus₁ d = if d = c then old else stateAt cpus d
  nrCpus : nrCpusOf cpus₁ c = setup.tests.length

theorem Arrived.formed_skiBarrier (h : Arrived setup cpus cpus₁ c old) {nr : Int} :
    Formed setup (skiBarrier cpus₁ c nr old new exc).1 := by
  refine ⟨length_skiBarrier.trans h.formed.length_eq, ?_, enrolled_skiBarrier h.old_ne h.formed.enrolled⟩
  intro d hd
  cases hret : (skiBarrier cpus₁ c nr old new exc).2 with
  | false => rw [stateAt_skiBarrier_of_waits hret, h.formed.others d hd]
  | true => rw [stateAt_skiBarrier_of_returns h.old_ne hret, h.formed.others d hd, if_neg h.old_ne.symm]

/-- The barrier does one of two things, and all test CPUs decide which. -/
theorem Arrived.effect (h : Arrived setup cpus cpus₁ c old) {cpus' : List CpuState} {returned : Bool} {o : Outcome}
    (hbarrier : skiBarrier cpus₁ c (nrCpusOf cpus₁ c) old new exc = (cpus', returned))
    (ho : if returned then o.returned = true else o = .waits) :
    Formed setup cpus' ∧ Effect setup cpus cpus' c old new o := by
  obtain rfl : _ = cpus' := congrArg Prod.fst hbarrier
  obtain rfl : _ = returned := congrArg Prod.snd hbarrier
  refine ⟨h.formed_skiBarrier, ?_⟩
  have hiff : (skiBarrier cpus₁ c (nrCpusOf cpus₁ c) old new exc).2 = true ↔
      ∀ d ∈ setup.tests, stateAt cpus₁ d = old := by
    rw [skiBarrier_returns_iff, h.nrCpus]
    exact countP_eq_tests_iff setup h.old_ne h.formed.others
  cases hret : (skiBarrier cpus₁ c (nrCpusOf cpus₁ c) old new exc).2 with
  | true =>
    rw [hret, if_pos rfl] at ho
    have hall := hiff.mp hret
    refine .releases ho ?_ ?_
    · intro d hd hne
      rw [← hall d hd, h.state d, if_neg hne]
    · intro d
      rw [stateAt_skiBarrier_of_returns h.old_ne hret]
      by_cases hd : d ∈ setup.tests
      · rw [hall d hd, if_pos rfl, if_pos hd]
      · rw [h.formed.others d hd, if_neg h.old_ne.symm, if_neg hd]
  | false =>
    rw [hret] at ho
    refine .waits (by simpa using ho) ?_ ?_
    · -- the caller itself has arrived, so it is another CPU that is missing
      have hnot : ¬ ∀ d ∈ setup.tests, stateAt cpus₁ d = old := fun hall => by simp [hiff.mpr hall] at hret
      simp only [not_forall] at hnot
      obtain ⟨d, hd, hne⟩ := hnot
      rw [h.state d] at hne
      split at hne
      · exact absurd rfl hne
      · next hdc => exact ⟨d, hd, hdc, hne⟩
    · intro d
      rw [stateAt_skiBarrier_of_waits hret, h.state d]

theorem arrived_modify (h : Formed setup cpus) (hc : c ∈ setup.tests) (hold : old ≠ .na) {f : CpuState → CpuState}
    (hf : ∀ cpu, (f cpu).state = old)
    (hin : ∀ cpu, cpus[c]? = some cpu → (f cpu).skiActive = true ∧ (f cpu).nrCpus = setup.tests.length) :
    Arrived setup cpus (cpus.modify c f) c old := by
  have hlt : c < cpus.length := h.length_eq ▸ setup.tests_lt c hc
  have hstate : ∀ d, stateAt (cpus.modify c f) d = if d = c then old else stateAt cpus d := fun d =>
    stateAt_modify hf hlt
  refine ⟨⟨?_, ?_, ?_⟩, hc, hold, hstate, ?_⟩
  · rw [List.length_modify, h.length_eq]
  · intro d hd
    have hne : d ≠ c := fun heq => hd (heq ▸ hc)
    rw [hstate, if_neg hne, h.others d hd]
  · exact enrolled_modify h.enrolled fun cpu hcpu _ => hin cpu hcpu
  · simpa [nrCpusOf, List.getElem?_eq_getElem hlt] using (hin _ (List.getElem?_eq_getElem hlt)).2

/-- A change of fields the barriers do not look at. -/
theorem Formed.modify_keep (h : Formed setup cpus) {f : CpuState → CpuState}
    (hf : ∀ cpu, (f cpu).state = cpu.state ∧ (f cpu).skiActive = cpu.skiActive ∧ (f cpu).nrCpus = cpu.nrCpus) :
    Formed setup (cpus.modify c f) := by
  refine ⟨(List.length_modify _ _ _).trans h.length_eq, ?_, ?_⟩
  · intro d hd
    rw [stateAt_modify_keep fun cpu => (hf cpu).1, h.others d hd]
  · refine enrolled_modify h.enrolled ?_
    intro cpu hcpu hne
    rw [(hf cpu).2.1, (hf cpu).2.2]
    exact h.enrolled cpu (List.mem_of_getElem? hcpu) ((hf cpu).1 ▸ hne)

theorem stateAt_skiDeactivateAllCpu (d : Nat) : stateAt (skiDeactivateAllCpu cpus) d = .na :=
  stateAt_map (g := fun _ => .na) (fun _ => rfl) rfl

theorem Formed.deactivate (h : Formed setup cpus) : Formed setup (skiDeactivateAllCpu cpus) := by
  refine ⟨(List.length_map _).trans h.length_eq, fun d _ => stateAt_skiDeactivateAllCpu d, ?_⟩
  intro cpu hcpu hne
  obtain ⟨a, -, rfl⟩ := List.mem_map.mp hcpu
  exact absurd rfl hne

theorem Effect.congr {cpus₀ cpus' cpus'' : List CpuState} {o : Outcome} (h : Effect setup cpus cpus' c old new o)
    (hbefore : ∀ d, stateAt cpus₀ d = stateAt cpus d) (hafter : ∀ d, stateAt cpus'' d = stateAt cpus' d) :
    Effect setup cpus₀ cpus'' c old new o := by
  cases h with
  | waits houtcome hmissing hstate =>
    obtain ⟨d, hd, hdc, hne⟩ := hmissing
    refine .waits houtcome ⟨d, hd, hdc, (hbefore d).symm ▸ hne⟩ ?_
    intro d
    rw [hafter, hstate, hbefore]
  | releases hreturned harrived hstate =>
    refine .releases hreturned ?_ fun d => (hafter d).trans (hstate d)
    intro d hd hdc
    rw [hbefore, harrived d hd hdc]

theorem testEnter_effect (h : Formed setup cpus) (hc : c ∈ setup.tests) :
    Formed setup (testEnter cpus c setup.tests.length).1 ∧
      Effect setup cpus (testEnter cpus c setup.tests.length).1 c .blockedOnEnter .runningTest
        (testEnter cpus c setup.tests.length).2 := by
  have harrived := arrived_modify h hc (by decide : CpuTestState.blockedOnEnter ≠ .na)
    (f := fun cpu =>
      { cpu with skiActive := true, exceptionIndex := .none, nrCpus := setup.tests.length, state := .blockedOnEnter,
                 lastEnterCpu := false })
    (fun _ => rfl) (fun _ _ => ⟨rfl, rfl⟩)
  unfold testEnter
  simp only
  split
  · next hbarrier => exact harrived.effect hbarrier rfl
  · next hbarrier =>
    obtain ⟨hformed, heffect⟩ := harrived.effect (o := .starts) hbarrier rfl
    refine ⟨hformed.modify_keep fun _ => ⟨rfl, rfl, rfl⟩, ?_⟩
    exact heffect.congr (fun _ => rfl) fun _ => stateAt_modify_keep fun _ => rfl

theorem testExit_effect (options : Options) (h : Formed setup cpus) (hc : c ∈ setup.tests)
    (hrunning : stateAt cpus c = .runningTest) :
    Formed setup (testExit options cpus c).1 ∧
      Effect setup cpus (testExit options cpus c).1 c .blockedOnExit .na (testExit options cpus c).2 := by
  have hlt : c < cpus.length := h.length_eq ▸ setup.tests_lt c hc
  have hget := List.getElem?_eq_getElem hlt
  -- a CPU that runs the test is enrolled, so the call is not ignored and knows the number of CPUs
  obtain ⟨hactive, hnr⟩ : cpus[c].skiActive = true ∧ cpus[c].nrCpus = setup.tests.length := by
    refine h.enrolled _ (List.getElem_mem hlt) ?_
    simp only [stateAt, hget, Option.map_some, Option.getD_some] at hrunning
    rw [hrunning]
    decide
  have harrived := arrived_modify h hc (by decide : CpuTestState.blockedOnExit ≠ .na)
    (f := fun cpu => { cpu with state := .blockedOnExit }) (fun _ => rfl) (by
      intro cpu hcpu
      rw [hget, Option.some.injEq] at hcpu
      exact hcpu ▸ ⟨hactive, hnr⟩)
  unfold testExit
  rw [if_neg (by simp [hget, hactive])]
  simp only
  split
  · next hbarrier => exact harrived.effect hbarrier rfl
  · next hbarrier =>
    split
    · exact harrived.effect hbarrier rfl
    · obtain ⟨hformed, heffect⟩ := harrived.effect (o := .finishes) hbarrier rfl
      refine ⟨hformed.deactivate, ?_⟩
      cases heffect with
      | waits houtcome => cases houtcome
      | releases hreturned hall hstate =>
        refine .releases hreturned hall ?_
        intro d
        rw [stateAt_skiDeactivateAllCpu, ite_self]

/-- **What a hypercall does.** -/
theorem skiProcessHypercall_effect (options : Options) {s : System} {hio : HypercallIo} (h : Formed setup s.cpus)
    (hallowed : setup.Allowed s (c, hio)) :
    Formed setup (skiProcessHypercall options s.cpus c hio).1 ∧
      Effect setup s.cpus (skiProcessHypercall options s.cpus c hio).1 c hio.oldState hio.newState
        (skiProcessHypercall options s.cpus c hio).2 := by
  have hkeep : ∀ d, stateAt s.cpus d = stateAt (s.cpus.modify c fun cpu => { cpu with exceptionIndex := .none }) d := by
    intro d
    rw [stateAt_modify_keep]
    exact fun _ => rfl
  have hformed := h.modify_keep (c := c) (f := fun cpu => { cpu with exceptionIndex := .none }) fun _ => ⟨rfl, rfl, rfl⟩
  cases hio with
  | testEnter ghNrCpus =>
    obtain ⟨hc, rfl, -⟩ := hallowed
    obtain ⟨hformed', heffect⟩ := testEnter_effect hformed hc
    exact ⟨hformed', heffect.congr hkeep fun _ => rfl⟩
  | testExit =>
    obtain ⟨hc, hrunning⟩ := hallowed
    obtain ⟨hformed', heffect⟩ := testExit_effect options hformed hc ((hkeep c).symm.trans hrunning)
    exact ⟨hformed', heffect.congr hkeep fun _ => rfl⟩

end Hypercall

/-! ## Whole runs -/

section Runs
variable {setup : Setup} {s t : System} {c : Nat} {hio : HypercallIo}

/-- A CPU that waits is inside its latest hypercall, and one that runs was let in by an enter call. -/
structure Inv (setup : Setup) (s : System) : Prop where
  formed : Formed setup s.cpus
  waiting : ∀ c, s.stateOf c = .blockedOnEnter ∨ s.stateOf c = .blockedOnExit →
    ∃ k, s.latestCall c = some k ∧ k.hio.oldState = s.stateOf c ∧ k.outcome = .waits
  started : ∀ c, s.stateOf c = .runningTest →
    ∃ k ∈ s.calls, k.hio.oldState = .blockedOnEnter ∧ k.outcome.returned = true

theorem inv_start (setup : Setup) : Inv setup setup.start := by
  have hstate : ∀ c, setup.start.stateOf c = .na := by
    intro c
    simp only [System.stateOf, stateAt, Setup.start, List.getElem?_replicate]
    split <;> rfl
  refine ⟨⟨List.length_replicate, fun c _ => hstate c, ?_⟩, ?_, ?_⟩
  · intro cpu hcpu hne
    rw [List.eq_of_mem_replicate hcpu] at hne
    exact absurd rfl hne
  · intro c hc
    rw [hstate c] at hc
    rcases hc with hc | hc <;> cases hc
  · intro c hc
    rw [hstate c] at hc
    cases hc

theorem step_effect (h : Formed setup s.cpus) (hallowed : setup.Allowed s (c, hio))
    (hstep : step setup.options s (c, hio) = .ok t) :
    ∃ o, t.calls = s.calls ++ [{ cpu := c, hio := hio, outcome := o }] ∧ Formed setup t.cpus ∧
      Effect setup s.cpus t.cpus c hio.oldState hio.newState o := by
  unfold step at hstep
  split at hstep
  · cases hstep
  · cases hstep
    exact ⟨_, rfl, skiProcessHypercall_effect setup.options h hallowed⟩

theorem oldState_ne_runningTest (hio : HypercallIo) : hio.oldState ≠ .runningTest := by
  cases hio <;> simp [HypercallIo.oldState]

theorem oldState_of_newState (h : hio.newState = .runningTest) : hio.oldState = .blockedOnEnter := by
  cases hio with
  | testEnter ghNrCpus => rfl
  | testExit => cases h

theorem newState_not_waiting (hio : HypercallIo) :
    ¬ (hio.newState = .blockedOnEnter ∨ hio.newState = .blockedOnExit) := by
  cases hio <;> simp [HypercallIo.newState]

theorem latestCall_of_calls {k : Call} (hcalls : t.calls = s.calls ++ [k]) (d : Nat) :
    t.latestCall d = if k.cpu = d then some k else s.latestCall d := by
  unfold System.latestCall
  rw [hcalls, latest_concat]

/-- Every hypercall keeps the invariant. -/
theorem Inv.step (h : Inv setup s) (hallowed : setup.Allowed s (c, hio))
    (hstep : Hyper.step setup.options s (c, hio) = .ok t) : Inv setup t := by
  obtain ⟨o, hcalls, hformed, heffect⟩ := step_effect h.formed hallowed hstep
  have hlatest := latestCall_of_calls hcalls
  cases heffect with
  | waits houtcome _ hstate =>
    have hself : t.stateOf c = hio.oldState := (hstate c).trans (if_pos rfl)
    have hframe : ∀ d, d ≠ c → t.stateOf d = s.stateOf d := fun d hd => (hstate d).trans (if_neg hd)
    refine ⟨hformed, ?_, ?_⟩
    · intro d hd
      rw [hlatest d]
      by_cases hdc : c = d
      · subst hdc
        rw [if_pos rfl, hself]
        exact ⟨_, rfl, rfl, houtcome⟩
      · rw [hframe d (Ne.symm hdc)] at hd ⊢
        rw [if_neg hdc]
        exact h.waiting d hd
    · intro d hd
      have hdc : d ≠ c := fun heq => oldState_ne_runningTest hio (hself.symm.trans (heq ▸ hd))
      obtain ⟨k, hk, hret⟩ := h.started d ((hframe d hdc).symm.trans hd)
      exact ⟨k, hcalls ▸ List.mem_append_left _ hk, hret⟩
  | releases hreturned _ hstate =>
    have hnew : ∀ d, t.stateOf d = hio.newState ∨ t.stateOf d = .na := fun d => by
      have := hstate d
      split at this
      · exact .inl this
      · exact .inr this
    refine ⟨hformed, ?_, ?_⟩
    · -- nobody is left waiting
      intro d hd
      rcases hnew d with heq | heq
      · exact absurd (heq ▸ hd) (newState_not_waiting hio)
      · rw [heq] at hd
        rcases hd with hd | hd <;> cases hd
    · intro d hd
      rcases hnew d with heq | heq
      · refine ⟨{ cpu := c, hio := hio, outcome := o }, ?_, oldState_of_newState (heq.symm.trans hd), hreturned⟩
        rw [hcalls]
        exact List.mem_append_right _ List.mem_cons_self
      · cases heq.symm.trans hd

theorem inv_of_runs {calls : List (Nat × HypercallIo)} (hrun : setup.Runs calls s) : Inv setup s :=
  hrun.invariant (fun h hallowed hstep => h.step hallowed hstep) (inv_start setup)

/-- The call of CPU `c` that leads from `s` to `t` releases all test CPUs from a barrier: the others were waiting
    there in calls that have not returned, and its own call is the only one that returns. -/
structure Released (setup : Setup) (s t : System) (c : Nat) (old new : CpuTestState) : Prop where
  arrived : ∀ d ∈ setup.tests, d ≠ c → s.stateOf d = old
  moved : ∀ d ∈ setup.tests, t.stateOf d = new
  caller : ∃ k, t.latestCall c = some k ∧ k.hio.oldState = old ∧ k.outcome.returned = true
  others : ∀ d ∈ setup.tests, d ≠ c → ∃ k, t.latestCall d = some k ∧ k.hio.oldState = old ∧ k.outcome = .waits

theorem Inv.released (h : Inv setup s) {o : Outcome}
    (hcalls : t.calls = s.calls ++ [{ cpu := c, hio := hio, outcome := o }]) (hreturned : o.returned = true)
    (harrived : ∀ d ∈ setup.tests, d ≠ c → s.stateOf d = hio.oldState)
    (hmoved : ∀ d ∈ setup.tests, t.stateOf d = hio.newState) :
    Released setup s t c hio.oldState hio.newState := by
  have hlatest := latestCall_of_calls hcalls
  refine ⟨harrived, hmoved, ⟨_, (hlatest c).trans (if_pos rfl), rfl, hreturned⟩, ?_⟩
  intro d hd hdc
  have hstate := harrived d hd hdc
  have hwaits : s.stateOf d = .blockedOnEnter ∨ s.stateOf d = .blockedOnExit := by
    rw [hstate]
    cases hio with
    | testEnter ghNrCpus => exact .inl rfl
    | testExit => exact .inr rfl
  obtain ⟨k, hk, hold, hout⟩ := h.waiting d hwaits
  exact ⟨k, (hlatest d).trans ((if_neg (Ne.symm hdc)).trans hk), hold.trans hstate, hout⟩

/-- A CPU inside the exit barrier makes no call. -/
theorem Setup.Allowed.not_blockedOnExit {setup : Setup} {s : System} {c : Nat} {hio : HypercallIo}
    (h : setup.Allowed s (c, hio)) : s.stateOf c ≠ .blockedOnExit := by
  intro heq
  obtain ⟨-, hstate⟩ := h
  cases hio with
  | testEnter ghNrCpus => exact hstate.2.2 heq
  | testExit => cases heq.symm.trans hstate

/-- **The two barriers.** In every run of the test CPUs, and for every hypercall that comes next:
    a CPU is running the test only after an enter call has returned; CPUs start to run, and stop waiting in the
    exit barrier, only in a call that releases all of them; the call that finds all other test CPUs waiting releases
    them; any other call waits, and leaves every other CPU where it is. A barrier that does not return never moves a
    CPU. -/
theorem barrier_protocol (setup : Setup) {calls : List (Nat × HypercallIo)} {s t : System} {c : Nat}
    {hio : HypercallIo} (hrun : setup.Runs calls s) (hallowed : setup.Allowed s (c, hio))
    (hstep : Hyper.step setup.options s (c, hio) = .ok t) :
    (∀ d, s.stateOf d = .runningTest →
      ∃ k ∈ s.calls, k.hio.oldState = .blockedOnEnter ∧ k.outcome.returned = true) ∧
    (∀ d, s.stateOf d ≠ .runningTest → t.stateOf d = .runningTest →
      Released setup s t c .blockedOnEnter .runningTest) ∧
    (∀ d, s.stateOf d = .blockedOnExit → t.stateOf d ≠ .blockedOnExit →
      Released setup s t c .blockedOnExit .na) ∧
    ((∀ d ∈ setup.tests, d ≠ c → s.stateOf d = hio.oldState) →
      Released setup s t c hio.oldState hio.newState) ∧
    ((∃ d ∈ setup.tests, d ≠ c ∧ s.stateOf d ≠ hio.oldState) →
      t.latestCall c = some { cpu := c, hio := hio, outcome := .waits } ∧ t.stateOf c = hio.oldState ∧
        ∀ d, d ≠ c → t.stateOf d = s.stateOf d) ∧
    ∀ cpus env nrCpusBarrier oldState newState blockingException,
      (skiBarrier cpus env nrCpusBarrier oldState newState blockingException).2 = false →
        ∀ d, stateAt (skiBarrier cpus env nrCpusBarrier oldState newState blockingException).1 d = stateAt cpus d := by
  have hinv := inv_of_runs hrun
  obtain ⟨o, hcalls, -, heffect⟩ := step_effect hinv.formed hallowed hstep
  have hcaller := hallowed.not_blockedOnExit
  cases heffect with
  | waits houtcome hmissing hstate =>
    subst houtcome
    have hself : t.stateOf c = hio.oldState := (hstate c).trans (if_pos rfl)
    have hframe : ∀ d, d ≠ c → t.stateOf d = s.stateOf d := fun d hd => (hstate d).trans (if_neg hd)
    refine ⟨hinv.started, ?_, ?_, ?_, ?_, fun _ _ _ _ _ _ hret _ => stateAt_skiBarrier_of_waits hret⟩
    · intro d hd hd'
      have hdc : d ≠ c := fun heq => oldState_ne_runningTest hio (hself.symm.trans (heq ▸ hd'))
      exact absurd ((hframe d hdc).symm.trans hd') hd
    · intro d hd hd'
      have hdc : d ≠ c := fun heq => hcaller (heq ▸ hd)
      exact absurd ((hframe d hdc).trans hd) hd'
    · intro hall
      obtain ⟨d, hd, hdc, hne⟩ := hmissing
      exact absurd (hall d hd hdc) hne
    · intro _
      exact ⟨(latestCall_of_calls hcalls c).trans (if_pos rfl), hself, hframe⟩
  | releases hreturned harrived hstate =>
    have hmoved : ∀ d ∈ setup.tests, t.stateOf d = hio.newState := fun d hd => (hstate d).trans (if_pos hd)
    have hreleased := hinv.released hcalls hreturned harrived hmoved
    refine ⟨hinv.started, ?_, ?_, fun _ => hreleased, ?_, fun _ _ _ _ _ _ hret _ => stateAt_skiBarrier_of_waits hret⟩
    · intro d _ hd'
      have hd : d ∈ setup.tests := by
        by_contra hd
        cases hd'.symm.trans ((hstate d).trans (if_neg hd))
      have hnew := (hmoved d hd).symm.trans hd'
      rwa [hnew, oldState_of_newState hnew] at hreleased
    · intro d hd _
      -- a CPU waiting at the exit is not one of those an enter call releases
      have hd' : d ∈ setup.tests := by
        by_contra hout
        cases hd.symm.trans (hinv.formed.others d hout)
      have hdc : d ≠ c := fun heq => hcaller (heq ▸ hd)
      cases hio with
      | testEnter ghNrCpus => cases hd.symm.trans (harrived d hd' hdc)
      | testExit => exact hreleased
    · rintro ⟨d, hd, hdc, hne⟩
      exact absurd (harrived d hd hdc) hne

/-- Two of three CPUs run a test. -/
def twoOfThree : Setup where
  options := { forkallEnabled := false, debugExitAfterHypercallEnabled := false, debugAssertTrapEnabled := false }
  cpusNo := 3
  tests := [0, 2]
  nodup := by decide
  tests_lt := by decide

/-- The first of them has made its enter call. -/
def oneWaiting : System where
  cpus := [{ skiActive := true, exceptionIndex := .skiEnterWaiting, state := .blockedOnEnter, nrCpus := 2,
             lastEnterCpu := false }, .idle, .idle]
  calls := [{ cpu := 0, hio := .testEnter 2, outcome := .waits }]
  ended := false

theorem barrier_protocol_twoOfThree :
    ∃ t, twoOfThree.Runs [(0, .testEnter 2)] oneWaiting ∧ twoOfThree.Allowed oneWaiting (2, .testEnter 2) ∧
      Hyper.step twoOfThree.options oneWaiting (2, .testEnter 2) = .ok t ∧
      Released twoOfThree oneWaiting t 2 .blockedOnEnter .runningTest := by
  have hfirst : twoOfThree.Allowed twoOfThree.start (0, .testEnter 2) := ⟨by decide, rfl, by decide, by decide⟩
  have hrun : twoOfThree.Runs [(0, .testEnter 2)] oneWaiting := .cons hfirst rfl (.nil _)
  have hsecond : twoOfThree.Allowed oneWaiting (2, .testEnter 2) := ⟨by decide, rfl, by decide, by decide⟩
  refine ⟨_, hrun, hsecond, rfl, ?_⟩
  exact (barrier_protocol twoOfThree hrun hsecond rfl).2.2.2.1 (by decide)

end Runs

end SkiVmm.Hyper
