import Mathlib.Algebra.Ring.Int.Defs
import SkiVmm.Hyper.Barrier
import SkiVmm.Hyper.Resume

/-!
# `Hyper.Request` — the checks of the `hypercall_io` (`ski_process_hypercall`)

`ski_process_hypercall` copies a `hypercall_io` from guest memory, looks at its two magic numbers and its size, and
goes on by its type. The check of the three fields ends in `assert(-1)`, which holds: a structure that the check finds
corrupted is processed like any other. `skiProcessHypercallIo` models the function for every content of the structure;
the calls that enter and exit a test are those of `Hyper.Barrier`.

`unaffected_of_corrupted_iff` says which of the corrupted structures do no harm.
-/

namespace SkiVmm.Hyper

open Sched (CpuTestState)

/-! ## The structure -/

/-- An `int` of a structure. -/
def loadInt (buf : Bytes) (off : Nat) : BitVec 32 := buf (off + 3) ++ buf (off + 2) ++ buf (off + 1) ++ buf off

/-- `HYPERCALL_IO_MAGIC_START` -/
def hypercallIoMagicStart : BitVec 32 := 0x33556677

/-- `HYPERCALL_IO_MAGIC_END` -/
def hypercallIoMagicEnd : BitVec 32 := 0x12345678

section Fields
variable (hio : Bytes)

/-- `hio.magic_start` -/
def magicStart : BitVec 32 := loadInt hio 0

/-- `hio.size` -/
def ioSize : BitVec 32 := loadInt hio 4

/-- `hio.hypercall_type` -/
def hypercallType : BitVec 32 := loadInt hio 8

/-- `hio.p.hio_test_enter.gh_nr_cpus`: the union begins at offset 12. -/
def ghNrCpus : BitVec 32 := loadInt hio 16

/-- `hio.magic_end` -/
def magicEnd : BitVec 32 := loadInt hio 140

/-- The condition under which the structure is called corrupted. -/
def Corrupted : Prop :=
  magicStart hio ≠ hypercallIoMagicStart ∨ magicEnd hio ≠ hypercallIoMagicEnd ∨
    ioSize hio ≠ BitVec.ofNat 32 sizeofHypercallIo

instance : Decidable (Corrupted hio) := by
  unfold Corrupted
  infer_instance

/-- `strcmp(s, literal) == 0` for the string at `off`. -/
def strcmpEq (off : Nat) : List (BitVec 8) → Bool
  | [] => hio off = 0
  | c :: cs => hio off = c && strcmpEq (off + 1) cs

end Fields

/-- `SKI_HYPERCALL_QUIT_MESSAGE` -/
def skiHypercallQuitMessage : List (BitVec 8) := "END INFO".toList.map fun c : Char => BitVec.ofNat 8 c.toNat

/-- The message of a debug hypercall is the quit message; `gh_msg` begins at offset 12. -/
def isQuitMessage (hio : Bytes) : Bool := strcmpEq hio 12 skiHypercallQuitMessage

/-! ## The hypercall -/

/-- The CPUs, and `ski_quit_hypercall_counter`. -/
structure HyperState where
  cpus : List CpuState
  quitHypercallCounter : Int
deriving DecidableEq

/-- How the processing of a structure ends. -/
inductive Ending where
  /-- an assertion failed -/
  | aborts
  /-- a call that enters or exits a test -/
  | test (outcome : Outcome)
  /-- any other call -/
  | returns
  /-- the quit message was received often enough -/
  | quits
deriving DecidableEq, Repr

/-- `assert` -/
def assertHolds (x : Int) : Bool := x ≠ 0

/-- The case `HYPERCALL_IO_TYPE_DEBUG`. The messages that only synchronize disks or save a snapshot change none of
    the state. -/
def debugMessage (quitHypercallThreshold : Int) (s : HyperState) (hio : Bytes) : HyperState × Ending :=
  if quitHypercallThreshold ≠ 0 ∧ isQuitMessage hio then
    let s := { s with quitHypercallCounter := (s.quitHypercallCounter + 1).bmod (2 ^ 32) }
    if s.quitHypercallCounter = quitHypercallThreshold then (s, .quits) else (s, .returns)
  else (s, .returns)

/-- The `switch` over the type of a structure. -/
def switchType (options : Options) (quitHypercallThreshold : Int) (s : HyperState) (env : Nat) (hio : Bytes) :
    HyperState × Ending :=
  let entered : HyperState := { s with cpus := s.cpus.modify env fun cpu => { cpu with exceptionIndex := .none } }
  if hypercallType hio = 1 then
    let (cpus, outcome) := skiProcessHypercall options s.cpus env (.testEnter (ghNrCpus hio).toInt)
    ({ s with cpus := cpus }, .test outcome)
  else if hypercallType hio = 2 then
    let (cpus, outcome) := skiProcessHypercall options s.cpus env .testExit
    ({ s with cpus := cpus }, .test outcome)
  else if hypercallType hio = 3 then debugMessage quitHypercallThreshold entered hio
  -- the traces are started and stopped, other types are only reported
  else (entered, .returns)

/-- `ski_process_hypercall` for the structure `hio` that was read from the guest. -/
def skiProcessHypercallIo (options : Options) (quitHypercallThreshold : Int) (s : HyperState) (env : Nat)
    (hio : Bytes) : HyperState × Ending :=
  if Corrupted hio ∧ assertHolds (-1) = false then (s, .aborts)
  else switchType options quitHypercallThreshold s env hio

/-! ## What a structure leaves alone -/

/-- `ski_active` of a CPU. -/
def activeAt (cpus : List CpuState) (c : Nat) : Bool := cpus[c]?.any CpuState.skiActive

/-- The number of CPUs in a state. -/
def countIn (cpus : List CpuState) (st : CpuTestState) : Nat := cpus.countP fun penv : CpuState => penv.state = st

/-- The call leaves SKI as it was: every CPU is as active and in the same state as before, no barrier is released,
    no test started, and the quit counter has not advanced. -/
structure Unaffected (s : HyperState) (result : HyperState × Ending) : Prop where
  active : ∀ c, activeAt result.1.cpus c = activeAt s.cpus c
  state : ∀ c, stateAt result.1.cpus c = stateAt s.cpus c
  no_release : ∀ o, result.2 = .test o → o.returned = false
  no_start : result.2 ≠ .test .starts
  counter : result.1.quitHypercallCounter = s.quitHypercallCounter

/-- A structure that does nothing to `s` when CPU `env` passes it. -/
def Harmless (quitHypercallThreshold : Int) (s : HyperState) (env : Nat) (hio : Bytes) : Prop :=
  if hypercallType hio = 1 then
    activeAt s.cpus env = true ∧ stateAt s.cpus env = .blockedOnEnter ∧
      (ghNrCpus hio).toInt ≠ countIn s.cpus .blockedOnEnter
  else if hypercallType hio = 2 then
    activeAt s.cpus env = false ∨
      (stateAt s.cpus env = .blockedOnExit ∧ nrCpusOf s.cpus env ≠ countIn s.cpus .blockedOnExit)
  else if hypercallType hio = 3 then quitHypercallThreshold = 0 ∨ isQuitMessage hio = false
  else True

instance (quitHypercallThreshold : Int) (s : HyperState) (env : Nat) (hio : Bytes) :
    Decidable (Harmless quitHypercallThreshold s env hio) := by
  unfold Harmless
  infer_instance

section Parts
variable {cpus : List CpuState} {env c : Nat} {f : CpuState → CpuState}

theorem activeAt_modify_keep (h : ∀ cpu, (f cpu).skiActive = cpu.skiActive) :
    activeAt (cpus.modify env f) c = activeAt cpus c := by
  unfold activeAt
  rw [List.getElem?_modify]
  cases cpus[c]? with
  | none => rfl
  | some cpu =>
    by_cases heq : env = c
    · simp [heq, h]
    · simp [heq]

theorem activeAt_modify_true (h : ∀ cpu, (f cpu).skiActive = true) (henv : env < cpus.length) :
    activeAt (cpus.modify env f) c = if c = env then true else activeAt cpus c := by
  unfold activeAt
  rw [List.getElem?_modify]
  split
  · next heq =>
    subst heq
    rw [List.getElem?_eq_getElem henv]
    simp [h]
  · next hne => simp [Ne.symm hne]

theorem nrCpusOf_modify_keep (h : ∀ cpu, (f cpu).nrCpus = cpu.nrCpus) :
    nrCpusOf (cpus.modify env f) c = nrCpusOf cpus c := by
  unfold nrCpusOf
  rw [List.getElem?_modify]
  cases cpus[c]? with
  | none => rfl
  | some cpu =>
    by_cases heq : env = c
    · simp [heq, h]
    · simp [heq]

/-- The count is a matter of the states alone. -/
theorem countIn_congr {cpus' : List CpuState} (hlen : cpus'.length = cpus.length)
    (h : ∀ c, stateAt cpus' c = stateAt cpus c) (st : CpuTestState) : countIn cpus' st = countIn cpus st := by
  have hmap : cpus'.map CpuState.state = cpus.map CpuState.state := by
    refine List.ext_getElem (by simpa using hlen) fun i h₁ h₂ => ?_
    have hi := h i
    rw [List.length_map] at h₁ h₂
    unfold stateAt at hi
    rw [List.getElem?_eq_getElem h₁, List.getElem?_eq_getElem h₂] at hi
    simpa using hi
  unfold countIn
  have hcount := congrArg (List.countP fun s : CpuTestState => decide (s = st)) hmap
  rwa [List.countP_map, List.countP_map] at hcount

/-- A caller that puts itself into the state of a barrier leaves all states alone iff it was in that state, and the
    barrier does not have the number of CPUs it is asked for. -/
theorem skiBarrier_unaffected_iff (nr : Int) {old : CpuTestState} (new : CpuTestState) (exc : ExceptionIndex)
    (hf : ∀ cpu, (f cpu).state = old) (henv : env < cpus.length) :
    ((skiBarrier (cpus.modify env f) env nr old new exc).2 = false ∧
      ∀ c, stateAt (skiBarrier (cpus.modify env f) env nr old new exc).1 c = stateAt cpus c) ↔
      stateAt cpus env = old ∧ nr ≠ countIn cpus old := by
  have hstate : ∀ c, stateAt (cpus.modify env f) c = if c = env then old else stateAt cpus c :=
    fun c => stateAt_modify hf henv
  have hreturns := @skiBarrier_returns_iff (cpus.modify env f) env nr old new exc
  have hsame : stateAt cpus env = old → countIn (cpus.modify env f) old = countIn cpus old := by
    intro hold
    refine countIn_congr (List.length_modify _ _ _) (fun c => ?_) old
    rw [hstate]
    split
    · next heq => rw [heq, hold]
    · rfl
  constructor
  · rintro ⟨hwaits, hkeeps⟩
    have hold : stateAt cpus env = old := by
      rw [← hkeeps env, stateAt_skiBarrier_of_waits hwaits, hstate, if_pos rfl]
    refine ⟨hold, fun hnr => ?_⟩
    rw [hreturns.mpr (hnr.trans (by rw [← hsame hold]; rfl))] at hwaits
    cases hwaits
  · rintro ⟨hold, hnr⟩
    have hwaits : (skiBarrier (cpus.modify env f) env nr old new exc).2 = false := by
      rw [Bool.eq_false_iff, Ne, hreturns]
      exact fun heq => hnr (heq.trans (by rw [← hsame hold]; rfl))
    refine ⟨hwaits, fun c => ?_⟩
    rw [stateAt_skiBarrier_of_waits hwaits, hstate]
    split
    · next heq => rw [heq, hold]
    · rfl

theorem activeAt_skiBarrier {nr : Int} {old new : CpuTestState} {exc : ExceptionIndex} :
    activeAt (skiBarrier cpus env nr old new exc).1 c = activeAt cpus c := by
  unfold skiBarrier
  simp only
  split
  · unfold activeAt
    rw [List.getElem?_map]
    cases cpus[c]? with
    | none => rfl
    | some penv =>
      simp only [Option.map_some, Option.any_some]
      split <;> rfl
  · exact activeAt_modify_keep fun _ => rfl

/-- An enter call that leaves the CPUs alone. -/
theorem testEnter_unaffected_iff (nr : Int) (henv : env < cpus.length) :
    ((testEnter cpus env nr).2.returned = false ∧
      (∀ c, activeAt (testEnter cpus env nr).1 c = activeAt cpus c) ∧
      ∀ c, stateAt (testEnter cpus env nr).1 c = stateAt cpus c) ↔
      activeAt cpus env = true ∧ stateAt cpus env = .blockedOnEnter ∧ nr ≠ countIn cpus .blockedOnEnter := by
  unfold testEnter
  simp only
  generalize hcpus₁ : (cpus.modify env fun cpu : CpuState =>
    { cpu with skiActive := true, exceptionIndex := .none, nrCpus := nr, state := .blockedOnEnter,
               lastEnterCpu := false }) = cpus₁
  have hnr : nrCpusOf cpus₁ env = nr := by
    rw [← hcpus₁]
    simp [nrCpusOf, List.getElem?_eq_getElem henv]
  have hactive : ∀ c, activeAt cpus₁ c = if c = env then true else activeAt cpus c := by
    intro c
    rw [← hcpus₁]
    exact activeAt_modify_true (fun _ => rfl) henv
  have hiff := skiBarrier_unaffected_iff nr .runningTest .skiEnterWaiting (f := fun cpu =>
      { cpu with skiActive := true, exceptionIndex := .none, nrCpus := nr, state := .blockedOnEnter,
                 lastEnterCpu := false }) (fun _ => rfl) henv
  have hkeeps := fun c => @activeAt_skiBarrier cpus₁ env c nr .blockedOnEnter .runningTest .skiEnterWaiting
  rw [hcpus₁] at hiff
  rw [hnr]
  rw [← hiff]
  split
  · next cpus₂ hbarrier =>
    rw [hbarrier] at hiff hkeeps ⊢
    constructor
    · rintro ⟨-, hact, hst⟩
      refine ⟨?_, rfl, hst⟩
      rw [← hact env, hkeeps env, hactive, if_pos rfl]
    · rintro ⟨hact, -, hst⟩
      refine ⟨rfl, fun c => ?_, hst⟩
      rw [hkeeps c, hactive]
      split
      · next heq => rw [heq, hact]
      · rfl
  · next cpus₂ hbarrier =>
    rw [hbarrier]
    simp [Outcome.returned]

/-- An exit call that leaves the CPUs alone. -/
theorem testExit_unaffected_iff (options : Options) (henv : env < cpus.length) :
    ((testExit options cpus env).2.returned = false ∧
      (∀ c, activeAt (testExit options cpus env).1 c = activeAt cpus c) ∧
      ∀ c, stateAt (testExit options cpus env).1 c = stateAt cpus c) ↔
      activeAt cpus env = false ∨
        (stateAt cpus env = .blockedOnExit ∧ nrCpusOf cpus env ≠ countIn cpus .blockedOnExit) := by
  unfold testExit
  by_cases hact : activeAt cpus env = false
  · have hinactive : (cpus[env]?.any CpuState.skiActive) = false := hact
    rw [if_pos hinactive]
    simp [hact, Outcome.returned]
  · have hrunning : ¬ (cpus[env]?.any CpuState.skiActive) = false := hact
    rw [if_neg hrunning, or_iff_right hact]
    dsimp only
    generalize hcpus₁ : (cpus.modify env fun cpu : CpuState => { cpu with state := .blockedOnExit }) = cpus₁
    have hnr : nrCpusOf cpus₁ env = nrCpusOf cpus env := by
      rw [← hcpus₁]
      exact nrCpusOf_modify_keep fun _ => rfl
    have hiff := skiBarrier_unaffected_iff (nrCpusOf cpus env) .na .skiExitWaiting
      (f := fun cpu => { cpu with state := .blockedOnExit }) (fun _ => rfl) henv
    have hkeeps : ∀ c, activeAt (skiBarrier cpus₁ env (nrCpusOf cpus env) .blockedOnExit .na .skiExitWaiting).1 c
        = activeAt cpus c := by
      intro c
      rw [activeAt_skiBarrier, ← hcpus₁]
      exact activeAt_modify_keep fun _ => rfl
    rw [hcpus₁] at hiff
    rw [hnr, ← hiff]
    split
    · next cpus₂ hbarrier =>
      rw [hbarrier] at hkeeps ⊢
      exact ⟨fun h => ⟨rfl, h.2.2⟩, fun h => ⟨rfl, hkeeps, h.2⟩⟩
    · next cpus₂ hbarrier =>
      rw [hbarrier]
      split
      · simp [Outcome.returned]
      · simp [Outcome.returned]

/-- The same before `exception_index` is reset. -/
theorem skiProcessHypercall_unaffected_iff (options : Options) (hio : HypercallIo) (henv : env < cpus.length) :
    ((skiProcessHypercall options cpus env hio).2.returned = false ∧
      (∀ c, activeAt (skiProcessHypercall options cpus env hio).1 c = activeAt cpus c) ∧
      ∀ c, stateAt (skiProcessHypercall options cpus env hio).1 c = stateAt cpus c) ↔
      match hio with
      | .testEnter nr =>
        activeAt cpus env = true ∧ stateAt cpus env = .blockedOnEnter ∧ nr ≠ countIn cpus .blockedOnEnter
      | .testExit =>
        activeAt cpus env = false ∨
          (stateAt cpus env = .blockedOnExit ∧ nrCpusOf cpus env ≠ countIn cpus .blockedOnExit) := by
  unfold skiProcessHypercall
  simp only
  generalize hcpus₀ : (cpus.modify env fun cpu : CpuState => { cpu with exceptionIndex := .none }) = cpus₀
  have hlen : cpus₀.length = cpus.length := by rw [← hcpus₀, List.length_modify]
  have hactive : ∀ c, activeAt cpus₀ c = activeAt cpus c := by
    intro c
    rw [← hcpus₀]
    exact activeAt_modify_keep fun _ => rfl
  have hstate : ∀ c, stateAt cpus₀ c = stateAt cpus c := by
    intro c
    rw [← hcpus₀]
    exact stateAt_modify_keep fun _ => rfl
  have hnr : nrCpusOf cpus₀ env = nrCpusOf cpus env := by
    rw [← hcpus₀]
    exact nrCpusOf_modify_keep fun _ => rfl
  have henv₀ : env < cpus₀.length := hlen ▸ henv
  have henter := fun nr => testEnter_unaffected_iff nr henv₀
  have hexit := testExit_unaffected_iff options henv₀
  simp only [hactive, hstate, hnr, countIn_congr hlen hstate] at henter hexit
  cases hio with
  | testEnter nr => exact henter nr
  | testExit => exact hexit

end Parts

/-! ## The result -/

theorem debugMessage_counter_iff (quitHypercallThreshold : Int) (s : HyperState) (hio : Bytes) :
    (debugMessage quitHypercallThreshold s hio).1.quitHypercallCounter = s.quitHypercallCounter ↔
      quitHypercallThreshold = 0 ∨ isQuitMessage hio = false := by
  unfold debugMessage
  split
  · next hquit =>
    have hne : (s.quitHypercallCounter + 1).bmod (2 ^ 32) ≠ s.quitHypercallCounter := by
      rw [Int.bmod_def]
      omega
    have hneither : ¬ (quitHypercallThreshold = 0 ∨ isQuitMessage hio = false) := by
      rintro (hzero | hother)
      · exact hquit.1 hzero
      · exact Bool.false_ne_true (hother.symm.trans hquit.2)
    refine iff_of_false ?_ hneither
    dsimp only
    split <;> exact hne
  · next hno =>
    simp only [true_iff]
    by_contra hboth
    simp only [not_or, Bool.not_eq_false] at hboth
    exact hno hboth

theorem debugMessage_cpus (quitHypercallThreshold : Int) (s : HyperState) (hio : Bytes) :
    (debugMessage quitHypercallThreshold s hio).1.cpus = s.cpus ∧
      ∀ o, (debugMessage quitHypercallThreshold s hio).2 ≠ .test o := by
  unfold debugMessage
  simp only
  split_ifs <;> simp

/-- A test call leaves SKI alone if it leaves the CPUs alone and its barrier waits. -/
theorem unaffected_test_iff (s : HyperState) (result : List CpuState × Outcome) :
    Unaffected s ({ s with cpus := result.1 }, .test result.2) ↔
      result.2.returned = false ∧ (∀ c, activeAt result.1 c = activeAt s.cpus c) ∧
        ∀ c, stateAt result.1 c = stateAt s.cpus c := by
  constructor
  · intro h
    exact ⟨h.no_release _ rfl, h.active, h.state⟩
  · rintro ⟨hwaits, hactive, hstate⟩
    refine ⟨hactive, hstate, ?_, ?_, rfl⟩
    · rintro o heq
      cases heq
      exact hwaits
    · intro heq
      rw [Ending.test.inj heq] at hwaits
      cases hwaits

theorem switchType_unaffected_iff (options : Options) (quitHypercallThreshold : Int) {s : HyperState} {env : Nat}
    (hio : Bytes) (henv : env < s.cpus.length) :
    Unaffected s (switchType options quitHypercallThreshold s env hio) ↔
      Harmless quitHypercallThreshold s env hio := by
  have hactive : ∀ c, activeAt (s.cpus.modify env fun cpu : CpuState => { cpu with exceptionIndex := .none }) c
      = activeAt s.cpus c := fun c => activeAt_modify_keep fun _ => rfl
  have hstate : ∀ c, stateAt (s.cpus.modify env fun cpu : CpuState => { cpu with exceptionIndex := .none }) c
      = stateAt s.cpus c := fun c => stateAt_modify_keep fun _ => rfl
  unfold switchType Harmless
  simp only
  split_ifs with henter hexit hdebug
  · exact (unaffected_test_iff s _).trans (skiProcessHypercall_unaffected_iff options (.testEnter _) henv)
  · exact (unaffected_test_iff s _).trans (skiProcessHypercall_unaffected_iff options .testExit henv)
  · rw [← debugMessage_counter_iff quitHypercallThreshold
      { s with cpus := s.cpus.modify env fun cpu : CpuState => { cpu with exceptionIndex := .none } } hio]
    obtain ⟨hcpus, hno⟩ := debugMessage_cpus quitHypercallThreshold
      { s with cpus := s.cpus.modify env fun cpu : CpuState => { cpu with exceptionIndex := .none } } hio
    constructor
    · exact fun h => h.counter
    · intro hcounter
      refine ⟨?_, ?_, fun o ho => absurd ho (hno o), hno .starts, hcounter⟩
      · rw [hcpus]
        exact hactive
      · rw [hcpus]
        exact hstate
  · simp only [iff_true]
    refine ⟨hactive, hstate, ?_, ?_, rfl⟩
    · intro o ho
      cases ho
    · intro ho
      cases ho

/-- **When a corrupted structure does no harm.** Passing a structure with a wrong magic number or size leaves SKI as
    it was if and only if it is an enter call of an active CPU that waits in the enter barrier already and asks for
    another number of CPUs than wait there, an exit call of a CPU that is inactive or waits in the exit barrier for
    another number of CPUs than wait there, a debug call that is not counted, or a call of another type. -/
theorem unaffected_of_corrupted_iff (options : Options) (quitHypercallThreshold : Int) {s : HyperState} {env : Nat}
    (henv : env < s.cpus.length) {hio : Bytes} (_hio : Corrupted hio) :
    Unaffected s (skiProcessHypercallIo options quitHypercallThreshold s env hio) ↔
      Harmless quitHypercallThreshold s env hio := by
  have hpasses : ¬ (Corrupted hio ∧ assertHolds (-1) = false) := fun h => absurd h.2 (by decide)
  unfold skiProcessHypercallIo
  rw [if_neg hpasses]
  exact switchType_unaffected_iff options quitHypercallThreshold hio henv

/-- A structure that is zero but for its type and `gh_nr_cpus`. -/
def bareStructure (type nrCpus : BitVec 32) : Bytes := storeInt (storeInt (fun _ => 0) 8 type) 16 nrCpus

/-- A machine of two CPUs that are in no test. -/
def twoIdle : HyperState := { cpus := List.replicate 2 CpuState.idle, quitHypercallCounter := 0 }

def noTraps : Options :=
  { forkallEnabled := false, debugExitAfterHypercallEnabled := false, debugAssertTrapEnabled := false }

/-- A structure of zeros with the type of an exit call, passed by an inactive CPU. -/
theorem unaffected_by_bare_exit :
    Corrupted (bareStructure 2 0) ∧
      Unaffected twoIdle (skiProcessHypercallIo noTraps 3 twoIdle 1 (bareStructure 2 0)) :=
  ⟨by decide, (unaffected_of_corrupted_iff noTraps 3 (by decide) (by decide)).mpr (by decide)⟩

/-- A structure of zeros with the type of an enter call for one CPU starts a test. -/
theorem bare_enter_starts_test :
    Corrupted (bareStructure 1 1) ∧
    (skiProcessHypercallIo noTraps 3 twoIdle 0 (bareStructure 1 1)).2 = .test .starts ∧
    ¬ Unaffected twoIdle (skiProcessHypercallIo noTraps 3 twoIdle 0 (bareStructure 1 1)) := by
  have hstarts : (skiProcessHypercallIo noTraps 3 twoIdle 0 (bareStructure 1 1)).2 = .test .starts := by decide
  exact ⟨by decide, hstarts, fun h => h.no_start hstarts⟩

end SkiVmm.Hyper
