import SkiVmm.Forkall.Lookup
import SkiVmm.Forkall.Slots
import SkiVmm.Sched.Preemption

/-!
# `Forkall.PreemptionList` — the preemption points that a child draws

Every child draws its preemption points from `1` to `ski_init_options_forkall_k`. The parent sets `k` to
`SKI_RESCHEDULE_K` whenever a new input begins, which is also before the first fork, and otherwise learns it from the
child that it collected last. A variable that is not set is read as 0, and nothing checks `k`.

* `ForkallVariables.load` — the variables that `ski_input_init` reads for this.
* `KInv` — `k` stays positive and an `int`, if `SKI_RESCHEDULE_K` is positive.
* `skiForkallInitPreemptionlist_startable` — a list that was drawn is one that a test of `Sched` starts with.
* `preemptionlist_safe_iff` — when all children draw points from `1` to `k`.
-/

namespace SkiVmm.Forkall

open Lib

/-! ## The variables -/

/-- `ski_input_env_load_int` -/
def skiInputEnvLoadInt : Option (List Char) → Option Int
  | none => some 0
  | some s => if s = [] then some 0 else sscanfInt s

/-- `SKI_FORKALL_CONCURRENCY`, `SKI_RESCHEDULE_POINTS` and `SKI_RESCHEDULE_K` -/
structure ForkallVariables where
  concurrency : Option (List Char)
  reschedulePoints : Option (List Char)
  rescheduleK : Option (List Char)

/-- The options of the same names. -/
structure ForkallOptions where
  concurrency : Int
  preemptionPoints : Int
  kInitial : Int

/-- The part of `ski_input_init` that loads them. -/
def ForkallVariables.load (v : ForkallVariables) : Option ForkallOptions := do
  let concurrency ← skiInputEnvLoadInt v.concurrency
  if 0 < concurrency ∧ concurrency < 50 then do
    let preemptionPoints ← skiInputEnvLoadInt v.reschedulePoints
    let kInitial ← skiInputEnvLoadInt v.rescheduleK
    return { concurrency := concurrency, preemptionPoints := preemptionPoints, kInitial := kInitial }
  else none

def ForkallOptions.config (o : ForkallOptions) (rounds : Nat) (ipfilterBackup : List Int) (input : InputState) :
    Config where
  concurrency := o.concurrency.toNat
  rounds := rounds
  kInitial := o.kInitial
  ipfilterBackup := ipfilterBackup
  input := input

/-! ## The list -/

/-- `SKI_MAX_PREEMPTION_POINTS` -/
def skiMaxPreemptionPoints : Int := 16

inductive ListFault where
  | assertion
  | divideByZero
  deriving DecidableEq, Repr

/-- Three results of `random`. -/
structure Draws where
  first : Fin (2 ^ 31)
  second : Fin (2 ^ 31)
  third : Fin (2 ^ 31)

/-- `r` -/
def Draws.number (d : Draws) : Nat := ((d.first.val * 1000) ^^^ d.second.val) * 1000 ^^^ d.third.val

/-- `random` may return 0. -/
def Draws.zero : Draws := ⟨⟨0, Nat.two_pow_pos 31⟩, ⟨0, Nat.two_pow_pos 31⟩, ⟨0, Nat.two_pow_pos 31⟩⟩

/-- One turn of the loop in `ski_forkall_init_preemptionlist`. -/
def drawPoint (k : Int) (d : Draws) : Except ListFault Int :=
  if k = 0 then .error .divideByZero
  else
    let point := toCInt ((d.number : Int).tmod k + 1)
    if point > 0 then .ok point else .error .assertion

/-- The loop: the points that are stored, and what has ended it before the last one. -/
def drawPoints (k : Int) : List Draws → List Int × Option ListFault
  | [] => ([], none)
  | d :: draws =>
    match drawPoint k d with
    | .error fault => ([], some fault)
    | .ok point => (point :: (drawPoints k draws).1, (drawPoints k draws).2)

/-- `ski_forkall_init_preemptionlist`, with what `random` returns in each turn. -/
def skiForkallInitPreemptionlist (preemptionPoints k : Int) (random : Nat → Draws) : List Int × Option ListFault :=
  if preemptionPoints < skiMaxPreemptionPoints then drawPoints k ((List.range preemptionPoints.toNat).map random)
  else ([], some .assertion)

/-- No division by zero, and no point that is not one from `1` to `k`. -/
def SafeList (k : Int) (list : List Int × Option ListFault) : Prop :=
  list.2 ≠ some .divideByZero ∧ ∀ point ∈ list.1, 1 ≤ point ∧ point ≤ k

/-- What a child reports is the count of a test, where that ended. -/
def Environment.Counted (env : Environment) : Prop :=
  ∀ r, ∃ setup s, Sched.Reachable setup s ∧
    ((env.result r).preemptionPointsExecuted = s.instructionsTotal ∨
      (env.result r).preemptionPointsExecuted = s.instructionsTotal + 1)

/-- All children, whatever the other ones report and whatever `random` returns. -/
def SafeLists (cfg : Config) (preemptionPoints : Int) : Prop :=
  ∀ env : Environment, env.Counted → ∀ r p p', parentAt cfg env r = .ok p → forkallDoFork cfg env p = .ok p' →
    ∀ random, SafeList p'.k (skiForkallInitPreemptionlist preemptionPoints p'.k random)

/-! ## Drawing -/

section Drawing
variable {k : Int}

/-- A positive `k` gives points from `1` to `k`. -/
theorem drawPoint_of_pos (hpos : 0 < k) (hint : InInt k) (d : Draws) :
    ∃ point, drawPoint k d = .ok point ∧ 1 ≤ point ∧ point ≤ k := by
  have hnonneg : 0 ≤ (d.number : Int).tmod k := Int.tmod_nonneg k (Int.natCast_nonneg _)
  have hlt : (d.number : Int).tmod k < k := Int.tmod_lt_of_pos _ hpos
  obtain ⟨-, hmax⟩ := hint
  have hpoint : toCInt ((d.number : Int).tmod k + 1) = (d.number : Int).tmod k + 1 :=
    toCInt_of_inInt ⟨by omega, by omega⟩
  refine ⟨(d.number : Int).tmod k + 1, ?_, by omega, by omega⟩
  unfold drawPoint
  rw [if_neg (by omega)]
  simp only [hpoint]
  rw [if_pos (by omega)]

theorem drawPoints_of_pos (hpos : 0 < k) (hint : InInt k) (draws : List Draws) :
    (drawPoints k draws).2 = none ∧ ∀ point ∈ (drawPoints k draws).1, 1 ≤ point ∧ point ≤ k := by
  induction draws with
  | nil => exact ⟨rfl, List.forall_mem_nil _⟩
  | cons d draws ih =>
    obtain ⟨point, hdraw, hpoint⟩ := drawPoint_of_pos hpos hint d
    unfold drawPoints
    rw [hdraw]
    exact ⟨ih.1, List.forall_mem_cons.mpr ⟨hpoint, ih.2⟩⟩

theorem safeList_of_pos (hpos : 0 < k) (hint : InInt k) (preemptionPoints : Int) (random : Nat → Draws) :
    SafeList k (skiForkallInitPreemptionlist preemptionPoints k random) := by
  unfold skiForkallInitPreemptionlist
  split
  · obtain ⟨hnone, hpoints⟩ := drawPoints_of_pos hpos hint ((List.range preemptionPoints.toNat).map random)
    refine ⟨?_, hpoints⟩
    rw [hnone]
    rintro ⟨⟩
  · exact ⟨by rintro ⟨⟩, List.forall_mem_nil _⟩

theorem drawPoints_spec (k : Int) (draws : List Draws) :
    (∀ point ∈ (drawPoints k draws).1, 0 < point) ∧ (drawPoints k draws).1.length ≤ draws.length := by
  induction draws with
  | nil => exact ⟨List.forall_mem_nil _, Nat.le_refl _⟩
  | cons d draws ih =>
    unfold drawPoints
    split
    · exact ⟨List.forall_mem_nil _, Nat.zero_le _⟩
    · next point hdraw =>
      have hpoint : 0 < point := by
        unfold drawPoint at hdraw
        split at hdraw
        · cases hdraw
        simp only at hdraw
        split at hdraw
        · next hpos =>
          cases hdraw
          exact hpos
        · cases hdraw
      exact ⟨List.forall_mem_cons.mpr ⟨hpoint, ih.1⟩, Nat.succ_le_succ ih.2⟩

/-- **What was drawn is a list that a test can start with**, for any `k` (`Sched.Setup`). -/
theorem skiForkallInitPreemptionlist_startable (preemptionPoints k : Int) (random : Nat → Draws) :
    (∀ point ∈ (skiForkallInitPreemptionlist preemptionPoints k random).1, 0 < point) ∧
      (skiForkallInitPreemptionlist preemptionPoints k random).1.length < 16 := by
  unfold skiForkallInitPreemptionlist
  split
  · next hmax =>
    obtain ⟨hpos, hlen⟩ := drawPoints_spec k ((List.range preemptionPoints.toNat).map random)
    rw [List.length_map, List.length_range] at hlen
    unfold skiMaxPreemptionPoints at hmax
    exact ⟨hpos, by omega⟩
  · exact ⟨List.forall_mem_nil _, by decide⟩

/-- With no positive `k`, already the first point is wrong for some results of `random`. -/
theorem not_safeList_of_not_pos (hk : k ≤ 0) {preemptionPoints : Int} (hone : 1 ≤ preemptionPoints)
    (hmax : preemptionPoints < skiMaxPreemptionPoints) :
    ¬SafeList k (skiForkallInitPreemptionlist preemptionPoints k fun _ => .zero) := by
  obtain ⟨n, hn⟩ : ∃ n, preemptionPoints.toNat = n + 1 := ⟨preemptionPoints.toNat - 1, by omega⟩
  unfold skiForkallInitPreemptionlist
  rw [if_pos hmax, hn, List.range_succ_eq_map, List.map_cons]
  rintro ⟨hfault, hpoints⟩
  by_cases hzero : k = 0
  · have hdraw : drawPoint k .zero = .error .divideByZero := if_pos hzero
    unfold drawPoints at hfault
    rw [hdraw] at hfault
    exact hfault rfl
  · -- the remainder of 0 is 0, and the point is 1
    have hdraw : drawPoint k .zero = .ok 1 := by
      have hnumber : Draws.zero.number = 0 := by decide
      unfold drawPoint
      rw [if_neg hzero, hnumber, Int.natCast_zero, Int.zero_tmod]
      rfl
    unfold drawPoints at hpoints
    rw [hdraw] at hpoints
    have hle := (hpoints 1 List.mem_cons_self).2
    omega

end Drawing

/-! ## `k` in the parent -/

theorem Environment.Counted.le {env : Environment} (h : env.Counted) (r : Nat) :
    (env.result r).preemptionPointsExecuted ≤ Sched.schedMaxPreemptionInstructions := by
  obtain ⟨setup, s, hs, hcount⟩ := h r
  have hlt := hs.instructionsTotal_lt
  omega

/-- `k` is a positive `int`, and no slot holds a larger count than a test has. -/
structure KInv (p : Parent) : Prop where
  k_pos : 0 < p.k
  k_int : InInt p.k
  counts : ∀ i, (p.slots i).preemptionPointsExecuted ≤ Sched.schedMaxPreemptionInstructions

section Parent
variable {cfg : Config} {env : Environment} {p q : Parent}

theorem KInv.setSlot (h : KInv p) {s : SkiStats}
    (hs : s.preemptionPointsExecuted ≤ Sched.schedMaxPreemptionInstructions) (i : Nat) : KInv (p.setSlot i s) := by
  refine ⟨h.k_pos, h.k_int, fun j => ?_⟩
  unfold Parent.setSlot
  simp only [Function.update_apply]
  split
  · exact hs
  · exact h.counts j

/-- What does not touch `k` and the slots. -/
theorem KInv.of_eq (h : KInv p) (hk : q.k = p.k) (hslots : q.slots = p.slots) : KInv q :=
  ⟨hk ▸ h.k_pos, hk ▸ h.k_int, hslots ▸ h.counts⟩

theorem KInv.setSelfSlot (h : KInv p) {slot : Nat} (hq : skiStatsSetSelfSlot cfg p slot = .ok q) : KInv q := by
  unfold skiStatsSetSelfSlot at hq
  split at hq
  · cases hq
    exact h.of_eq rfl rfl
  · cases hq

/-- A fork takes `k` as it is, or the first one. -/
theorem KInv.fork (h : KInv p) (hpos : 0 < cfg.kInitial) (hint : InInt cfg.kInitial)
    (hq : forkallDoFork cfg env p = .ok q) : KInv q := by
  obtain ⟨p₁, hset, hq⟩ := exists_of_bind_eq_ok hq
  have h₁ := h.setSelfSlot hset
  split at hq
  · cases hq
  next input newInput _ =>
  cases hq
  have hstart {p : Parent} (h : KInv p) : KInv (skiStatsStart p) :=
    h.setSlot
      (s := { p.slots p.self with
        inputNumber := p.input.inputNumber, preemptionListSize := p.ipfilter.length })
      (h.counts p.self) p.self
  -- a new input starts again with the option
  have hreset : KInv (if newInput then
      { skiIpfilterRestore cfg { p₁ with input := input } with k := cfg.kInitial }
    else { p₁ with input := input }) := by
    cases newInput with
    | true => exact ⟨hpos, hint, h₁.counts⟩
    | false => exact h₁.of_eq rfl rfl
  exact (hstart hreset).of_eq rfl rfl

/-- What is learned from a count is positive, and small. -/
theorem learnK_inv {k n : Int} (hpos : 0 < k) (hint : InInt k) (hn : n ≤ Sched.schedMaxPreemptionInstructions) :
    0 < learnK k n ∧ InInt (learnK k n) := by
  unfold Sched.schedMaxPreemptionInstructions at hn
  unfold learnK
  split
  · exact ⟨by omega, by omega, by omega⟩
  · exact ⟨hpos, hint⟩

/-- The result of the child is in its slot. -/
theorem KInv.reaped (h : KInv p) (hcounted : env.Counted) (c : Child) : KInv (p.reaped env c) :=
  (h.setSlot (s := (p.slots c.slot).finished c.round (env.result c.round)) (hcounted.le c.round) c.slot).of_eq rfl rfl

theorem KInv.mergeAndPrint (h : KInv p) {lastStats : SkiStats} (hq : mergeAndPrint cfg p lastStats = .ok q) :
    KInv q := by
  obtain ⟨p₁, hset, hq⟩ := exists_of_bind_eq_ok hq
  have h₁ := (h.of_eq (q := { p with nextSlot := lastStats.slot }) rfl rfl).setSelfSlot hset
  split at hq
  · cases hq
  · cases hq
    exact h₁.of_eq rfl rfl

theorem KInv.getFromPid (h : KInv p) {pid : Int} {stats : SkiStats} (hs : skiStatsGetFromPid cfg p pid = some stats) :
    stats.preemptionPointsExecuted ≤ Sched.schedMaxPreemptionInstructions := by
  obtain ⟨i, -, rfl⟩ := List.mem_map.mp (List.mem_of_find?_eq_some hs)
  exact h.counts i

/-- `k` is learned from the child that was collected. -/
theorem KInv.collectChild (h : KInv p) (hcounted : env.Counted) (hq : collectChild cfg env p = .ok q) : KInv q := by
  unfold Forkall.collectChild at hq
  split at hq
  · cases hq
  next c p₁ hwait =>
  obtain ⟨c', -, hreaped⟩ := Option.map_eq_some_iff.mp hwait
  cases hreaped
  have h₁ := h.reaped hcounted c
  -- the parent goes on only if the child exited, has a slot and did not end with code 0
  split at hq
  · cases hq
  split at hq
  · cases hq
  next stats hstats =>
  split at hq
  · cases hq
  obtain ⟨p₂, hmerge, hq⟩ := exists_of_bind_eq_ok hq
  cases hq
  have h₂ := h₁.mergeAndPrint hmerge
  obtain ⟨hpos, hint⟩ := learnK_inv h₂.k_pos h₂.k_int (h₁.getFromPid hstats)
  have hlearned : KInv { p₂ with k := learnK p₂.k stats.preemptionPointsExecuted } := ⟨hpos, hint, h₂.counts⟩
  exact (hlearned.setSlot (s := emptySlot stats.slot)
    (by decide : (0 : Int) ≤ Sched.schedMaxPreemptionInstructions) stats.slot).of_eq rfl rfl

/-- **Step lemma.** -/
theorem KInv.forkallRound (h : KInv p) (hpos : 0 < cfg.kInitial) (hint : InInt cfg.kInitial) (hcounted : env.Counted)
    (hq : forkallRound cfg env p = .ok q) : KInv q := by
  obtain ⟨p₁, hfork, hq⟩ := exists_of_bind_eq_ok hq
  obtain ⟨p₂, hslot, hq⟩ := exists_of_bind_eq_ok hq
  have h₁ := h.fork hpos hint hfork
  have hnoted : KInv (noteChild p₁ (env.pid p₁.round)) :=
    (h₁.setSlot (s := { p₁.slots p₁.self with pid := env.pid p₁.round }) (h₁.counts p₁.self) p₁.self).of_eq rfl rfl
  have h₂ : KInv p₂ := by
    unfold provideSlot at hslot
    split at hslot
    · exact hnoted.collectChild hcounted hslot
    · refine KInv.setSelfSlot ?_ hslot
      exact hnoted.of_eq rfl rfl
  unfold finishRound at hq
  simp only at hq
  split at hq
  · obtain ⟨p₃, -, hq⟩ := exists_of_bind_eq_ok hq
    cases hq
  · cases hq
    exact h₂.of_eq rfl rfl

/-- **Run lemma.** -/
theorem parentAt_kInv (hpos : 0 < cfg.kInitial) (hint : InInt cfg.kInitial) (hcounted : env.Counted) {r : Nat}
    (hp : parentAt cfg env r = .ok p) : KInv p := by
  induction r generalizing p with
  | zero =>
    cases hp
    exact ⟨hpos, hint, fun _ => (by decide : (0 : Int) ≤ Sched.schedMaxPreemptionInstructions)⟩
  | succ r ih =>
    obtain ⟨p₀, hp₀, hround⟩ := exists_of_bind_eq_ok hp
    exact (ih hp₀).forkallRound hpos hint hcounted hround

end Parent

/-! ## All children -/

section Lists
variable {v : ForkallVariables} {o : ForkallOptions}

theorem skiInputEnvLoadInt_inInt {env : Option (List Char)} {n : Int} (h : skiInputEnvLoadInt env = some n) :
    InInt n := by
  unfold skiInputEnvLoadInt at h
  split at h
  · cases h
    decide
  · split at h
    · cases h
      decide
    · exact sscanfInt_inInt h

theorem ForkallVariables.load_spec (h : v.load = some o) : 0 < o.concurrency ∧ InInt o.kInitial := by
  obtain ⟨concurrency, -, h⟩ := Option.bind_eq_some_iff.mp h
  split at h
  · next hc =>
    obtain ⟨preemptionPoints, -, h⟩ := Option.bind_eq_some_iff.mp h
    obtain ⟨kInitial, hk, h⟩ := Option.bind_eq_some_iff.mp h
    cases h
    exact ⟨hc.1, skiInputEnvLoadInt_inInt hk⟩
  · cases h

/-- A test that has not begun. -/
def idleTest : Sched.Setup where
  cpus := []
  table := []
  preemptions := []
  preemptionMode := .all
  nrCpus := 0
  table_cpus := List.forall_mem_nil _
  table_ints := List.forall_mem_nil _
  table_length := Nat.zero_le _
  preemptions_pos := Sched.noPoints_pos
  preemptions_length := Sched.noPoints_length

theorem quietEnv_counted : quietEnv.Counted := fun _ => ⟨idleTest, idleTest.start, ⟨[], .nil _⟩, .inl rfl⟩

/-- The first child, with the first `k`. -/
theorem exists_first_fork {cfg : Config} (hc : 0 < cfg.concurrency) (hin : cfg.input.Accepted) (env : Environment) :
    ∃ p', forkallDoFork cfg env (.initial cfg) = .ok p' ∧ p'.k = cfg.kInitial := by
  obtain ⟨⟨input, newInput⟩, hcall⟩ := Option.isSome_iff_exists.mp (skiInputForkInit_isSome hin)
  obtain ⟨c, q, hq, hforked⟩ := forkallDoFork_eq (p := .initial cfg) env hc rfl hcall
  have hsettings := congrArg Prod.snd hforked.child_settings
  refine ⟨q, hq, hforked.k_eq.trans (hsettings.trans ?_)⟩
  cases newInput with
  | true => rfl
  | false => rfl

/-- **When every child draws points from `1` to `k`**: if `SKI_RESCHEDULE_K` is positive, or if so many points are asked
    for that there is no list at all. -/
theorem preemptionlist_safe_iff {c : InputConfig} {m : Memory} {s : InputState} (hin : c.AcceptedAs m s)
    (ho : v.load = some o) (hone : 1 ≤ o.preemptionPoints) (rounds : Nat) (ipfilterBackup : List Int) :
    SafeLists (o.config rounds ipfilterBackup s) o.preemptionPoints ↔
      skiMaxPreemptionPoints ≤ o.preemptionPoints ∨ 0 < o.kInitial := by
  obtain ⟨hc, hint⟩ := ForkallVariables.load_spec ho
  obtain ⟨-, total, htotal⟩ := hin
  constructor
  · intro hsafe
    by_contra hcond
    obtain ⟨hmax, hk⟩ := not_or.mp hcond
    have hslots : 0 < (o.config rounds ipfilterBackup s).concurrency := by
      show 0 < o.concurrency.toNat
      omega
    obtain ⟨p', hfork, hp'⟩ := exists_first_fork hslots (skiInputInit_some htotal).1 quietEnv
    have hlist := hsafe quietEnv quietEnv_counted 0 _ p' rfl hfork fun _ => .zero
    rw [hp'] at hlist
    exact not_safeList_of_not_pos (Int.not_lt.mp hk) hone (Int.not_le.mp hmax) hlist
  · rintro (hmax | hpos) env hcounted r p p' hp hfork random
    · unfold skiForkallInitPreemptionlist
      rw [if_neg (Int.not_lt.mpr hmax)]
      exact ⟨by rintro ⟨⟩, List.forall_mem_nil _⟩
    · have hinv := (parentAt_kInv hpos hint hcounted hp).fork hpos hint hfork
      exact safeList_of_pos hinv.k_pos hinv.k_int o.preemptionPoints random

end Lists

/-! ## `SKI_RESCHEDULE_K` is not set -/

/-- One slot and one point, with a given `SKI_RESCHEDULE_K`. -/
def onePointVariables (rescheduleK : Option (List Char)) : ForkallVariables where
  concurrency := some ['1']
  reschedulePoints := some ['1']
  rescheduleK := rescheduleK

theorem preemptionlist_safe_iff_ten :
    ∃ c m s, InputConfig.AcceptedAs c m s ∧ (onePointVariables (some ['1', '0'])).load = some ⟨1, 1, 10⟩ ∧
      SafeLists (ForkallOptions.config ⟨1, 1, 10⟩ 1 [] s) 1 := by
  have hload : (onePointVariables (some ['1', '0'])).load = some ⟨1, 1, 10⟩ := rfl
  refine ⟨_, _, _, firstLine_accepted, hload, ?_⟩
  exact (preemptionlist_safe_iff firstLine_accepted hload (by decide) 1 []).mpr (.inr (by decide))

/-- The first child divides by zero. -/
theorem unset_k_divides :
    ∃ c m s, InputConfig.AcceptedAs c m s ∧ (onePointVariables none).load = some ⟨1, 1, 0⟩ ∧
      ∃ p p' : Parent, parentAt (ForkallOptions.config ⟨1, 1, 0⟩ 1 [] s) quietEnv 0 = .ok p ∧
        forkallDoFork (ForkallOptions.config ⟨1, 1, 0⟩ 1 [] s) quietEnv p = .ok p' ∧
        (skiForkallInitPreemptionlist 1 p'.k fun _ => .zero).2 = some .divideByZero := by
  have hin := firstLine_accepted
  obtain ⟨-, total, htotal⟩ := hin
  have hslots : ∀ input, 0 < (ForkallOptions.config ⟨1, 1, 0⟩ 1 [] input).concurrency := fun _ => Nat.one_pos
  obtain ⟨p', hfork, hk⟩ := exists_first_fork (hslots _) (skiInputInit_some htotal).1 quietEnv
  refine ⟨_, _, _, firstLine_accepted, rfl, _, p', rfl, hfork, ?_⟩
  rw [hk]
  rfl

end SkiVmm.Forkall
