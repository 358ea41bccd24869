import SkiVmm.Forkall.Input

/-!
# `Forkall.Parent` — the parent process of the fork loop

Model of the loop at `forkall_do_fork` in `main` (`vl.c`), of `ski_forkall_parent_wait` and of the functions
of `ski-stats.c` they call. The parent owns `concurrency` statistics slots in shared memory. Every round it
sets up a slot, walks one step through the input space, forks a child that runs in that slot, and, once all
slots are taken, waits for some child, merges and prints its statistics and hands its slot on.

* `Environment` is everything the parent does not decide: the pids `fork` returns, the child each `wait`
  returns, how that child ended and what it left in its slot.
* `Parent` is the parent's own state together with the kernel's view of the running children.
* A step that ends the parent (`exit`, or an assertion that fails) is an error carrying the last state.

Left out are the parts of a slot that only printing reads (seed, times, file names, detectors), and the debug
mode in which the parent runs the test itself.
-/

namespace SkiVmm.Forkall

/-- What a child leaves in its slot for the parent to merge. -/
structure ChildResult where
  communicationInstructions : List Int
  preemptionPointsExecuted : Int

/-- How a child ended, as `wait` reports it. -/
inductive WaitStatus where
  | exited (code : Int)
  | signaled (sig : Int)
  deriving DecidableEq

/-- What the parent does not control. Children are numbered by the round that forks them. -/
structure Environment where
  /-- The pid that `fork` returns in a round. -/
  pid : Nat → Int
  /-- Which of the unreaped children the parent's `w`-th `wait` returns. -/
  pick : Nat → Nat
  status : Nat → WaitStatus
  result : Nat → ChildResult

/-- The options the loop reads. -/
structure Config where
  /-- `ski_init_options_forkall_concurrency` -/
  concurrency : Nat
  /-- `ski_init_options_forkall_rounds` -/
  rounds : Nat
  /-- `ski_init_options_forkall_k_initial` -/
  kInitial : Int
  /-- `ski_ipfilter_hash_values_backup`, the filter file as it was loaded -/
  ipfilterBackup : List Int
  /-- The input space before the first round. -/
  input : InputState

/-- `ski_stats`, one slot. `writer` is ghost: the child whose results the slot holds. -/
structure SkiStats where
  slot : Nat
  pid : Int
  inputNumber : Int × Int
  preemptionListSize : Int
  communicationInstructions : List Int
  preemptionPointsExecuted : Int
  writer : Option Nat
  deriving DecidableEq

/-- A forked child: its round, pid and slot, and the settings it inherits from the parent. -/
structure Child where
  round : Nat
  pid : Int
  slot : Nat
  inputNumber : Int × Int
  ipfilter : List Int
  k : Int
  deriving DecidableEq

/-- The parent's actions on children and slots, in the order it takes them. -/
inductive Event where
  | forked (child : Child)
  | waited (child : Child)
  | merged (stats : SkiStats)
  | printed (stats : SkiStats)
  | reset (slot : Nat)
  deriving DecidableEq

structure Parent where
  input : InputState
  slots : Nat → SkiStats
  /-- `ski_stats_self` -/
  self : Nat
  slotsAvailable : Nat
  nextSlot : Nat
  round : Nat
  /-- `ski_init_options_forkall_k` -/
  k : Int
  /-- The entries of `ski_ipfilter_hash_values`, all of them in `ski_ipfilter_hash`. -/
  ipfilter : List Int
  /-- The children forked and not yet returned by `wait`. -/
  live : List Child
  /-- The number of `wait` calls made. -/
  waits : Nat
  log : List Event

/-- The end of the parent: its exit code (`none` for a failed assertion) and its last state. -/
structure Halt where
  code : Option Int
  final : Parent

/-! ## The ip filter -/

/-- `MAX_IPFILTER_HASH` -/
def maxIpfilterHash : Nat := 256 * 1024

/-- `ski_ipfilter_restore`: clear the filter and enter the backup again. -/
def skiIpfilterRestore (cfg : Config) (p : Parent) : Parent := { p with ipfilter := cfg.ipfilterBackup }

/-- One turn of the loop in `ski_eipfilter_add_stats`. -/
def eipfilterAddEntry (filter : List Int) (eip : Int) : Option (List Int) :=
  if eip ∈ filter then some filter
  else if filter.length < maxIpfilterHash then some (filter ++ [eip])
  else none

/-- `ski_eipfilter_add_stats`: enter the instructions that are not in the filter yet. -/
def skiEipfilterAddStats (filter instructions : List Int) : Option (List Int) :=
  instructions.foldlM eipfilterAddEntry filter

/-- Each instruction adds at most one entry. -/
theorem length_of_skiEipfilterAddStats {filter filter' instructions : List Int}
    (h : skiEipfilterAddStats filter instructions = some filter') :
    filter'.length ≤ filter.length + instructions.length := by
  induction instructions generalizing filter with
  | nil =>
    cases h
    exact Nat.le_refl _
  | cons eip rest ih =>
    simp only [skiEipfilterAddStats, List.foldlM_cons, Option.bind_eq_bind, Option.bind_eq_some_iff] at h
    obtain ⟨mid, hmid, hrest⟩ := h
    have hle := ih hrest
    unfold eipfilterAddEntry at hmid
    split_ifs at hmid
    · cases hmid
      rw [List.length_cons]
      omega
    · cases hmid
      rw [List.length_append, List.length_singleton] at hle
      rw [List.length_cons]
      omega

/-- Instructions are entered while the filter has room for all of them. -/
theorem lt_of_skiEipfilterAddStats_eq_none {filter instructions : List Int}
    (h : skiEipfilterAddStats filter instructions = none) : maxIpfilterHash < filter.length + instructions.length := by
  induction instructions generalizing filter with
  | nil => cases h
  | cons eip rest ih =>
    rw [List.length_cons]
    unfold skiEipfilterAddStats at h
    rw [List.foldlM_cons] at h
    unfold eipfilterAddEntry at h
    split_ifs at h with hin hroom
    · have hlt := ih h
      omega
    · have hlt := ih h
      rw [List.length_append, List.length_singleton] at hlt
      omega
    · omega

/-! ## Statistics slots -/

def Parent.assertFailed (p : Parent) : Halt := ⟨none, p⟩

def Parent.setSlot (p : Parent) (i : Nat) (s : SkiStats) : Parent :=
  { p with slots := Function.update p.slots i s }

/-- A slot as `ski_stats_init_slot` and `ski_stats_reset_slot` leave it. -/
def emptySlot (slot : Nat) : SkiStats where
  slot := slot
  pid := 0
  inputNumber := (0, 0)
  preemptionListSize := 0
  communicationInstructions := []
  preemptionPointsExecuted := 0
  writer := none

/-- `ski_stats_reset_slot` -/
def skiStatsResetSlot (p : Parent) (slot : Nat) : Parent :=
  { p.setSlot slot (emptySlot slot) with log := p.log ++ [.reset slot] }

/-- `ski_stats_set_self_slot`, with its two assertions. -/
def skiStatsSetSelfSlot (cfg : Config) (p : Parent) (slot : Nat) : Except Halt Parent :=
  if slot < cfg.concurrency ∧ (p.slots slot).slot = slot then .ok { p with self := slot }
  else .error p.assertFailed

/-- `ski_stats_get_from_pid`: the first slot with that pid. -/
def skiStatsGetFromPid (cfg : Config) (p : Parent) (pid : Int) : Option SkiStats :=
  ((List.range cfg.concurrency).map p.slots).find? fun s => s.pid = pid

/-- `ski_stats_start` and `ski_stats_add_preemption_list_size` on the own slot. -/
def skiStatsStart (p : Parent) : Parent :=
  p.setSlot p.self
    { p.slots p.self with
      inputNumber := p.input.inputNumber
      preemptionListSize := p.ipfilter.length }

/-! ## Fork and wait -/

/-- The child forked now, with the settings of the parent at the fork. -/
def nextChild (env : Environment) (p : Parent) : Child where
  round := p.round
  pid := env.pid p.round
  slot := p.self
  inputNumber := p.input.inputNumber
  ipfilter := p.ipfilter
  k := p.k

/-- `main` after `ski_input_fork_init` has reported the next point: the reset for a new input, the start of
    the statistics and the fork. -/
def forkNext (cfg : Config) (env : Environment) (p : Parent) (newInput : Bool) : Parent :=
  let p := if newInput then { skiIpfilterRestore cfg p with k := cfg.kInitial } else p
  let p := skiStatsStart p
  { p with live := p.live ++ [nextChild env p], log := p.log ++ [.forked (nextChild env p)] }

/-- `main` from the label `forkall_do_fork` up to and including the fork. -/
def forkallDoFork (cfg : Config) (env : Environment) (p : Parent) : Except Halt Parent := do
  let p ← skiStatsSetSelfSlot cfg p p.nextSlot
  match skiInputForkInit p.input with
  | none => .error p.assertFailed
  | some (input, newInput) => .ok (forkNext cfg env { p with input := input } newInput)

/-- What a finished child has written into its slot. -/
def SkiStats.finished (s : SkiStats) (round : Nat) (res : ChildResult) : SkiStats :=
  { s with
    communicationInstructions := res.communicationInstructions
    preemptionPointsExecuted := res.preemptionPointsExecuted
    writer := some round }

/-- The state after `wait` has returned the child `c`, with its results in its slot. -/
def Parent.reaped (env : Environment) (p : Parent) (c : Child) : Parent :=
  { p.setSlot c.slot ((p.slots c.slot).finished c.round (env.result c.round)) with
    live := p.live.eraseIdx (env.pick p.waits % p.live.length)
    waits := p.waits + 1
    log := p.log ++ [.waited c] }

/-- `wait`: some unreaped child ends. It fails if there is none. -/
def Parent.wait (env : Environment) (p : Parent) : Option (Child × Parent) :=
  (p.live[env.pick p.waits % p.live.length]?).map fun c => (c, p.reaped env c)

/-- What `ski_forkall_parent_wait` does with the statistics of a collected child, during the rounds and in
    the final drain alike: `ski_stats_finish`, `ski_eipfilter_add_stats` and the printing functions. -/
def mergeAndPrint (cfg : Config) (p : Parent) (lastStats : SkiStats) : Except Halt Parent := do
  let p ← skiStatsSetSelfSlot cfg { p with nextSlot := lastStats.slot } lastStats.slot
  match skiEipfilterAddStats p.ipfilter lastStats.communicationInstructions with
  | none => .error p.assertFailed
  | some filter => .ok { p with ipfilter := filter, log := p.log ++ [.merged lastStats, .printed lastStats] }

/-- `k` as learned from a finished child. The product with `1.1` is cut off at the decimal point; for the
    values an `int` counter takes, the rounding of the double product never crosses an integer. -/
def learnK (k preemptionPointsExecuted : Int) : Int :=
  if preemptionPointsExecuted > 0 then preemptionPointsExecuted * 11 / 10 else k

/-- The branch of `ski_forkall_parent_wait` that waits for a child during the rounds. -/
def collectChild (cfg : Config) (env : Environment) (p : Parent) : Except Halt Parent :=
  match p.wait env with
  | none => .error ⟨some 0, p⟩
  | some (c, p) =>
    match env.status c.round with
    | .signaled _ => .error ⟨some 0, p⟩
    | .exited code =>
      match skiStatsGetFromPid cfg p c.pid with
      | none => .error p.assertFailed
      | some lastStats =>
        if code = 0 then .error ⟨some (-1), p⟩
        else do
          let p ← mergeAndPrint cfg p lastStats
          .ok (skiStatsResetSlot { p with k := learnK p.k lastStats.preemptionPointsExecuted } lastStats.slot)

/-- The final `while (concurrency_slots_in_use)` loop, which ignores how the children ended. -/
def drainChildren (cfg : Config) (env : Environment) : Nat → Parent → Except Halt Parent
  | 0, p => .ok p
  | n + 1, p =>
    match p.wait env with
    | none => .error p.assertFailed
    | some (c, p) =>
      match skiStatsGetFromPid cfg p c.pid with
      | none => .error p.assertFailed
      | some lastStats => do
        let p ← mergeAndPrint cfg p lastStats
        drainChildren cfg env n p

/-- The first lines of `ski_forkall_parent_wait`: note the child's pid in its slot and take a free place. -/
def noteChild (p : Parent) (childPid : Int) : Parent :=
  { p.setSlot p.self { p.slots p.self with pid := childPid } with
    slotsAvailable := if p.slotsAvailable > 0 then p.slotsAvailable - 1 else p.slotsAvailable }

/-- Wait for a child if no place is free, otherwise move on to the next slot. -/
def provideSlot (cfg : Config) (env : Environment) (p : Parent) : Except Halt Parent :=
  if p.slotsAvailable = 0 then collectChild cfg env p
  else skiStatsSetSelfSlot cfg { p with nextSlot := p.nextSlot + 1 } (p.nextSlot + 1)

/-- `concurrency_slots_in_use`, the number of children the final drain waits for. -/
def slotsInUse (cfg : Config) (p : Parent) : Int := (cfg.concurrency : Int) - p.slotsAvailable - 1

/-- The end of `ski_forkall_parent_wait`: count the round and, after the last one, drain and exit. -/
def finishRound (cfg : Config) (env : Environment) (p : Parent) : Except Halt Parent :=
  let p := { p with round := p.round + 1 }
  if p.round ≥ cfg.rounds then do
    let p ← drainChildren cfg env (slotsInUse cfg p).toNat p
    .error ⟨some 0, p⟩
  else .ok p

/-- `ski_forkall_parent_wait` -/
def skiForkallParentWait (cfg : Config) (env : Environment) (p : Parent) (childPid : Int) :
    Except Halt Parent := do
  let p ← provideSlot cfg env (noteChild p childPid)
  finishRound cfg env p

/-- One turn of the loop in `main`. -/
def forkallRound (cfg : Config) (env : Environment) (p : Parent) : Except Halt Parent := do
  let p' ← forkallDoFork cfg env p
  skiForkallParentWait cfg env p' (env.pid p'.round)

/-- The parent when it reaches `forkall_do_fork` for the first time. -/
def Parent.initial (cfg : Config) : Parent where
  input := cfg.input
  slots := emptySlot
  self := 0
  slotsAvailable := cfg.concurrency
  nextSlot := 0
  round := 0
  k := cfg.kInitial
  ipfilter := cfg.ipfilterBackup
  live := []
  waits := 0
  log := []

/-- The parent when it reaches `forkall_do_fork` for the `r + 1`-st time, or the way it ended before. -/
def parentAt (cfg : Config) (env : Environment) : Nat → Except Halt Parent
  | 0 => .ok (.initial cfg)
  | r + 1 => parentAt cfg env r >>= forkallRound cfg env

end SkiVmm.Forkall
