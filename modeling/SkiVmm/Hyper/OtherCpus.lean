import Mathlib.Data.List.Forall2
import Mathlib.Logic.Basic

/-!
# `Hyper.OtherCpus` — the CPUs that take no part in a test

When a test starts, `ski_nontesting_cpus_block` stops the CPUs that are not in it, and keeps their `stop` and `stopped`
in `ski_old_stop` and `ski_old_stopped`. When it ends, `ski_nontesting_cpus_unblock` puts these back, and writes -1 to
the two copies, so that an assertion can tell an unblock without a block. But the copies are of type `bool`: -1 is
stored as `true`, and no copy is ever -1.

* `restored_blocked` — a block and an unblock give back what was there before.
* `otherCpus_lawful_iff` — a sequence of calls does what is expected of it exactly if each unblock follows a block.
  The assertion catches none of the others.
-/

namespace SkiVmm.Hyper

/-! ## The two functions -/

/-- The fields of `CPUState` with which a CPU is stopped. -/
structure StopState where
  skiActive : Bool
  stop : BitVec 32
  stopped : BitVec 32
  skiOldStop : Bool
  skiOldStopped : Bool
deriving DecidableEq, Repr

/-- An integer assigned to a `bool`. -/
def toBool (n : Int) : Bool := n ≠ 0

/-- A `bool` in a comparison with an integer. -/
def ofBool (b : Bool) : Int := if b then 1 else 0

/-- The body of the loop of `ski_nontesting_cpus_block`. -/
def StopState.blocked (penv : StopState) : StopState :=
  if penv.skiActive ≠ true then
    { penv with
      skiOldStop := toBool penv.stop.toNat
      skiOldStopped := toBool penv.stopped.toNat
      stop := 1
      stopped := 1 }
  else penv

/-- `ski_nontesting_cpus_block` -/
def skiNontestingCpusBlock (blockOtherCpus : Bool) (cpus : List StopState) : List StopState :=
  if blockOtherCpus then cpus.map StopState.blocked else cpus

/-- The body of the loop of `ski_nontesting_cpus_unblock`; `none` is a failed assertion. -/
def StopState.unblocked (penv : StopState) : Option StopState :=
  if penv.skiActive ≠ true then
    if ofBool penv.skiOldStop ≠ -1 ∧ ofBool penv.skiOldStopped ≠ -1 then
      some { penv with
        stop := BitVec.ofInt 32 (ofBool penv.skiOldStop)
        stopped := BitVec.ofInt 32 (ofBool penv.skiOldStopped)
        skiOldStop := toBool (-1)
        skiOldStopped := toBool (-1) }
    else none
  else some penv

/-- `ski_nontesting_cpus_unblock` -/
def skiNontestingCpusUnblock (blockOtherCpus : Bool) (cpus : List StopState) : Option (List StopState) :=
  if blockOtherCpus then cpus.mapM StopState.unblocked else some cpus

inductive BlockCall where
  | block
  | unblock
deriving DecidableEq, Repr

def blockStep (blockOtherCpus : Bool) (cpus : List StopState) : BlockCall → Option (List StopState)
  | .block => some (skiNontestingCpusBlock blockOtherCpus cpus)
  | .unblock => skiNontestingCpusUnblock blockOtherCpus cpus

/-- A sequence of calls, while the set of the test CPUs stays the same. -/
def blockRun (blockOtherCpus : Bool) (cpus : List StopState) (calls : List BlockCall) : Option (List StopState) :=
  calls.foldlM (blockStep blockOtherCpus) cpus

/-! ## The assertion -/

/-- A CPU after an unblock. -/
def StopState.restored (penv : StopState) : StopState :=
  if penv.skiActive ≠ true then
    { penv with
      stop := BitVec.ofInt 32 (ofBool penv.skiOldStop)
      stopped := BitVec.ofInt 32 (ofBool penv.skiOldStopped)
      skiOldStop := true
      skiOldStopped := true }
  else penv

/-- A `bool` is not -1. -/
theorem ofBool_ne (b : Bool) : ofBool b ≠ -1 := by
  cases b <;> decide

/-- **The assertion does not fail**, whatever the copies hold. -/
theorem unblocked_eq (penv : StopState) : penv.unblocked = some penv.restored := by
  unfold StopState.unblocked StopState.restored
  split
  · rw [if_pos ⟨ofBool_ne _, ofBool_ne _⟩]
    rfl
  · rfl

theorem skiNontestingCpusUnblock_eq (blockOtherCpus : Bool) (cpus : List StopState) :
    skiNontestingCpusUnblock blockOtherCpus cpus
      = some (if blockOtherCpus then cpus.map StopState.restored else cpus) := by
  unfold skiNontestingCpusUnblock
  cases blockOtherCpus with
  | false => rfl
  | true =>
    rw [if_pos rfl, if_pos rfl]
    induction cpus with
    | nil => rfl
    | cons penv cpus ih => simp [List.mapM_cons, unblocked_eq, ih]

/-! ## Sequences of calls -/

/-- `stop` and `stopped` of a CPU outside of the test are 0 or 1. -/
def StopState.Flags (penv : StopState) : Prop :=
  penv.skiActive = false → (penv.stop = 0 ∨ penv.stop = 1) ∧ (penv.stopped = 0 ∨ penv.stopped = 1)

theorem flags_blocked {penv : StopState} (h : penv.Flags) : penv.blocked.Flags := by
  unfold StopState.blocked
  split
  · exact fun _ => ⟨.inr rfl, .inr rfl⟩
  · exact h

theorem ofInt_ofBool (b : Bool) : BitVec.ofInt 32 (ofBool b) = 0 ∨ BitVec.ofInt 32 (ofBool b) = 1 := by
  cases b
  · exact .inl rfl
  · exact .inr rfl

theorem flags_restored {penv : StopState} (h : penv.Flags) : penv.restored.Flags := by
  unfold StopState.restored
  split
  · exact fun _ => ⟨ofInt_ofBool _, ofInt_ofBool _⟩
  · exact h

/-- A copy of a flag. -/
theorem ofInt_ofBool_toBool {n : BitVec 32} (h : n = 0 ∨ n = 1) :
    BitVec.ofInt 32 (ofBool (toBool n.toNat)) = n := by
  rcases h with rfl | rfl <;> rfl

/-- The CPU is as before, but for the two copies, and a test CPU is not touched at all. -/
structure SameStop (before after : StopState) : Prop where
  stop_eq : after.stop = before.stop
  stopped_eq : after.stopped = before.stopped
  test_eq : before.skiActive = true → after = before

/-- **A block and an unblock** give back what was there before. -/
theorem restored_blocked {penv : StopState} (h : penv.Flags) : SameStop penv penv.blocked.restored := by
  unfold StopState.blocked
  split
  · next hidle =>
    have hflags := h (by simpa using hidle)
    unfold StopState.restored
    rw [if_pos hidle]
    exact ⟨ofInt_ofBool_toBool hflags.1, ofInt_ofBool_toBool hflags.2, fun hactive => absurd hactive hidle⟩
  · next htest =>
    unfold StopState.restored
    rw [if_neg htest]
    exact ⟨rfl, rfl, fun _ => rfl⟩

section Runs
variable {blockOtherCpus : Bool} {cpus s : List StopState} {calls : List BlockCall}

/-- A call does not fail, and keeps the flags. -/
theorem blockStep_flags (blockOtherCpus : Bool) (h : ∀ penv ∈ cpus, penv.Flags) (call : BlockCall) :
    ∃ t, blockStep blockOtherCpus cpus call = some t ∧ ∀ penv ∈ t, penv.Flags := by
  have hmap : ∀ f : StopState → StopState, (∀ penv, penv.Flags → (f penv).Flags) →
      ∀ penv ∈ (if blockOtherCpus then cpus.map f else cpus), penv.Flags := by
    intro f hf penv hpenv
    split at hpenv
    · obtain ⟨a, ha, rfl⟩ := List.mem_map.mp hpenv
      exact hf a (h a ha)
    · exact h penv hpenv
  cases call with
  | block => exact ⟨_, rfl, hmap _ fun _ => flags_blocked⟩
  | unblock => exact ⟨_, skiNontestingCpusUnblock_eq _ _, hmap _ fun _ => flags_restored⟩

theorem blockRun_flags (blockOtherCpus : Bool) (h : ∀ penv ∈ cpus, penv.Flags) (calls : List BlockCall) :
    ∃ s, blockRun blockOtherCpus cpus calls = some s ∧ ∀ penv ∈ s, penv.Flags := by
  unfold blockRun
  induction calls generalizing cpus with
  | nil => exact ⟨cpus, rfl, h⟩
  | cons call calls ih =>
    obtain ⟨t, hstep, ht⟩ := blockStep_flags blockOtherCpus h call
    rw [List.foldlM_cons, hstep]
    exact ih ht

/-- A block and the unblock behind it. -/
theorem blockRun_pair (h : ∀ penv ∈ s, penv.Flags) :
    ∃ t, blockRun blockOtherCpus s [.block, .unblock] = some t ∧ List.Forall₂ SameStop s t := by
  have hrun : blockRun blockOtherCpus s [.block, .unblock]
      = skiNontestingCpusUnblock blockOtherCpus (skiNontestingCpusBlock blockOtherCpus s) := by
    unfold blockRun
    rw [List.foldlM_cons, blockStep, Option.bind_eq_bind, Option.bind_some, List.foldlM_cons, blockStep]
    simp
  rw [hrun, skiNontestingCpusUnblock_eq]
  refine ⟨_, rfl, ?_⟩
  unfold skiNontestingCpusBlock
  cases blockOtherCpus with
  | false =>
    refine List.forall₂_same.mpr ?_
    exact fun penv _ => ⟨rfl, rfl, fun _ => rfl⟩
  | true =>
    rw [if_pos rfl, if_pos rfl, List.map_map, List.forall₂_map_right_iff, List.forall₂_same]
    exact fun penv hpenv => restored_blocked (h penv hpenv)

/-- What is expected of a sequence of calls: a block with the unblock behind it restores all CPUs, and an unblock that
    does not follow a block fails. -/
structure Lawful (blockOtherCpus : Bool) (cpus : List StopState) (calls : List BlockCall) : Prop where
  restores : ∀ (pre post : List BlockCall) (s : List StopState), calls = pre ++ .block :: .unblock :: post →
    blockRun blockOtherCpus cpus pre = some s →
    ∃ t, blockRun blockOtherCpus s [.block, .unblock] = some t ∧ List.Forall₂ SameStop s t
  fails : ∀ (pre post : List BlockCall) (s : List StopState), calls = pre ++ .unblock :: post →
    pre.getLast? ≠ some .block → blockRun blockOtherCpus cpus pre = some s →
    skiNontestingCpusUnblock blockOtherCpus s = none

/-- **When the calls do what is expected**: only if no unblock is without its block. -/
theorem otherCpus_lawful_iff (h : ∀ penv ∈ cpus, penv.Flags) :
    Lawful blockOtherCpus cpus calls ↔
      ∀ pre post : List BlockCall, calls = pre ++ .unblock :: post → pre.getLast? = some .block := by
  constructor
  · intro hlawful pre post hsplit
    by_contra hunmatched
    obtain ⟨s, hrun, -⟩ := blockRun_flags blockOtherCpus h pre
    have hfails := hlawful.fails pre post s hsplit hunmatched hrun
    rw [skiNontestingCpusUnblock_eq] at hfails
    cases hfails
  · intro hmatched
    refine ⟨?_, ?_⟩
    · intro pre post s _ hrun
      obtain ⟨s', hrun', hs'⟩ := blockRun_flags blockOtherCpus h pre
      obtain rfl := Option.some.inj (hrun.symm.trans hrun')
      exact blockRun_pair hs'
    · exact fun pre post s hsplit hunmatched _ => absurd (hmatched pre post hsplit) hunmatched

end Runs

/-- A CPU of the test and one outside of it, both running. -/
def testAndOther : List StopState :=
  [{ skiActive := true, stop := 0, stopped := 0, skiOldStop := false, skiOldStopped := false },
    { skiActive := false, stop := 0, stopped := 0, skiOldStop := false, skiOldStopped := false }]

theorem testAndOther_flags : ∀ penv ∈ testAndOther, penv.Flags := by
  intro penv hpenv
  simp only [testAndOther, List.mem_cons, List.not_mem_nil, or_false] at hpenv
  rcases hpenv with rfl | rfl
  · intro hactive
    cases hactive
  · exact fun _ => ⟨.inl rfl, .inl rfl⟩

/-- One test. -/
theorem otherCpus_lawful_oneTest : Lawful true testAndOther [.block, .unblock] := by
  refine (otherCpus_lawful_iff testAndOther_flags).mpr ?_
  intro pre post hsplit
  cases pre with
  | nil => cases hsplit
  | cons call pre =>
    obtain ⟨rfl, hrest⟩ := List.cons.inj hsplit
    cases pre with
    | nil => rfl
    | cons call' pre =>
      obtain ⟨-, hrest⟩ := List.cons.inj hrest
      cases pre <;> cases hrest

/-- A second unblock does not fail. It stops the CPU outside of the test for good. -/
theorem unblock_twice_stops :
    ¬ Lawful true testAndOther [.block, .unblock, .unblock] ∧
      blockRun true testAndOther [.block, .unblock, .unblock]
        = some [{ skiActive := true, stop := 0, stopped := 0, skiOldStop := false, skiOldStopped := false },
            { skiActive := false, stop := 1, stopped := 1, skiOldStop := true, skiOldStopped := true }] := by
  refine ⟨?_, by decide⟩
  intro hlawful
  have hfails := hlawful.fails [.block, .unblock] [] _ rfl (by decide) rfl
  cases hfails

end SkiVmm.Hyper
