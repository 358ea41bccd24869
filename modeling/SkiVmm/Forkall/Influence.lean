import SkiVmm.Forkall.Drain

/-!
# `Forkall.Influence` — what a child's settings depend on

Every child inherits the parent's ip filter and `k`. The parent resets both when a new input starts, and merges
the results of the children it collects, whichever input they ran. `handedAt` says what child `r` inherits, in
terms of the pool: a fold over the results collected since the last reset. From it follows when the settings
depend on nothing but results of the same input pair.
-/

namespace SkiVmm.Forkall

open Lib

variable {cfg : Config} {env : Environment} {p q : Parent} {r : Nat} {c : Child}

/-- The settings a child inherits: the ip filter and `k`. -/
def Child.settings (c : Child) : List Int × Int := (c.ipfilter, c.k)

/-- The child forked in round `r`, if the parent gets there. -/
def forkedChild (cfg : Config) (env : Environment) (r : Nat) : Option Child :=
  match parentAt cfg env r with
  | .error _ => none
  | .ok p =>
    match forkallDoFork cfg env p with
    | .error _ => none
    | .ok q => q.live.getLast?

/-- The input pair of the child forked in round `r`. -/
def pairOf (cfg : Config) (r : Nat) : Option (Int × Int) :=
  (forkInitCalls cfg.input (r + 1)).map InputState.inputNumber

/-- Whether `ski_input_fork_init` reports a new input in round `r`. -/
def newInputAt (cfg : Config) (r : Nat) : Bool :=
  ((forkInitCalls cfg.input r).bind skiInputForkInit).any Prod.snd

/-- The latest round up to `r` that started a new input. -/
def lastNew (cfg : Config) : Nat → Nat
  | 0 => 0
  | r + 1 => if newInputAt cfg (r + 1) then r + 1 else lastNew cfg r

theorem lastNew_le (cfg : Config) (r : Nat) : lastNew cfg r ≤ r := by
  induction r with
  | zero => exact Nat.le_refl 0
  | succ r ih =>
    unfold lastNew
    split_ifs
    · exact Nat.le_refl _
    · exact Nat.le_succ_of_le ih

/-- The settings that the child of round `r` is handed, or `none` if the filter overflows before. -/
def handedAt (cfg : Config) (env : Environment) : Nat → Option (List Int × Int)
  | 0 => some (cfg.ipfilterBackup, cfg.kInitial)
  | r + 1 =>
    ((handedAt cfg env r).bind (learnFrom env (Pool.collected cfg.concurrency env.pick r))).map fun s =>
      if newInputAt cfg (r + 1) then (cfg.ipfilterBackup, cfg.kInitial) else s

/-! ## The parent hands on what `handedAt` says -/

theorem RoundInv.newInputAt_eq (h : RoundInv cfg env r p) {input : InputState} {newInput : Bool}
    (hf : ForkedFrom cfg env p input newInput c q) : newInputAt cfg r = newInput := by
  simp [newInputAt, h.input_eq, hf.forkInit]

/-- **Run lemma**: the settings of the child forked in round `r`. -/
theorem handedAt_eq (hc : 0 < cfg.concurrency) (hpids : PidsDistinct cfg env)
    (hp : parentAt cfg env r = .ok p) {input : InputState} {newInput : Bool}
    (hf : ForkedFrom cfg env p input newInput c q) : handedAt cfg env r = some c.settings := by
  have hinv : ∀ {r p}, parentAt cfg env r = .ok p → RoundInv cfg env r p := by
    intro r p hp
    exact parentAt_roundInv hc (fun r p hp _ => hpids r p hp) hp
  induction r generalizing p q c input newInput with
  | zero =>
    cases hp
    unfold Child.settings
    rw [hf.child_settings]
    cases newInput <;> rfl
  | succ r ih =>
    obtain ⟨p₀, hp₀, hround⟩ := exists_of_bind_eq_ok hp
    obtain ⟨-, input₀, newInput₀, c₀, q₀, hf₀, hlearn, -⟩ := (hinv hp₀).step (hpids r p₀ hp₀) hround
    have hq₀ : (q₀.ipfilter, q₀.k) = c₀.settings := by
      rw [hf₀.ipfilter_eq, hf₀.k_eq]
      rfl
    rw [handedAt, ih hp₀ hf₀, Option.bind_some, ← hq₀, hlearn, Option.map_some, (hinv hp).newInputAt_eq hf]
    exact congrArg some hf.child_settings.symm

/-- What is known of a forked child. -/
theorem forkedChild_spec (hc : 0 < cfg.concurrency) (hpids : PidsDistinct cfg env)
    (h : forkedChild cfg env r = some c) :
    handedAt cfg env r = some c.settings ∧ pairOf cfg r = some c.inputNumber := by
  unfold forkedChild at h
  cases hp : parentAt cfg env r with
  | error e => simp [hp] at h
  | ok p =>
    cases hq : forkallDoFork cfg env p with
    | error e => simp [hp, hq] at h
    | ok q =>
      simp only [hp, hq] at h
      have hinv : RoundInv cfg env r p := parentAt_roundInv hc (fun r p hp _ => hpids r p hp) hp
      obtain ⟨input, newInput, hin⟩ := forkInit_of_forkallDoFork hq
      obtain ⟨c', q', hok, hf⟩ := forkallDoFork_eq env hinv.next_lt (hinv.owned.slot_self _) hin
      obtain rfl : q' = q := Except.ok.inj (hok.symm.trans hq)
      have hlive : q'.live = p.live ++ [c'] := hf.live_eq
      rw [hlive, List.getLast?_concat] at h
      obtain rfl : c' = c := Option.some.inj h
      refine ⟨handedAt_eq hc hpids hp hf, ?_⟩
      rw [pairOf, hinv.input_of_forked hf, Option.map_some, hf.input_eq, hf.child_input]

/-- Every round forks a child, unless the filter overflows. -/
theorem forkedChild_isSome (hc : 0 < cfg.concurrency) (hin : cfg.input.Accepted)
    (hpids : PidsDistinct cfg env) (hnormal : ∀ r, NormalExit (env.status r)) (hfits : Fits cfg env)
    (hr : r < cfg.rounds) : ∃ c, forkedChild cfg env r = some c := by
  rcases parentAt_cases hc hin hpids hnormal hr with ⟨p, hp, h⟩ | ⟨e, -, -, hover⟩
  · obtain ⟨⟨input, newInput⟩, hcall⟩ :=
      Option.isSome_iff_exists.mp (skiInputForkInit_isSome (hin.forkInitCalls h.input_eq))
    obtain ⟨c, q, hok, hf⟩ := forkallDoFork_eq env h.next_lt (h.owned.slot_self _) hcall
    have hlive : q.live = p.live ++ [c] := hf.live_eq
    refine ⟨c, ?_⟩
    simp only [forkedChild, hp, hok]
    rw [hlive, List.getLast?_concat]
  · exact absurd hfits hover

/-! ## Dependence on results -/

/-- `env` with other results of the children; pids, completion order and exit states stay. -/
def Environment.withResult (env : Environment) (result : Nat → ChildResult) : Environment :=
  { env with result := result }

/-- The settings of child `r` are determined by the results of the children with its input pair. -/
def DependsOnPairOnly (cfg : Config) (env : Environment) (r : Nat) : Prop :=
  ∀ ρ ρ' : Nat → ChildResult, (∀ j, pairOf cfg j = pairOf cfg r → ρ j = ρ' j) →
    ∀ c c', forkedChild cfg (env.withResult ρ) r = some c → forkedChild cfg (env.withResult ρ') r = some c' →
      c.settings = c'.settings

/-- Every child collected since the latest new input, and before the fork of child `r`, ran the input pair of
    child `r`. -/
def CollectedSamePair (cfg : Config) (env : Environment) (r : Nat) : Prop :=
  ∀ u j, lastNew cfg r ≤ u → u < r → Pool.collected cfg.concurrency env.pick u = some j →
    pairOf cfg j = pairOf cfg r

theorem learnFrom_congr {ρ ρ' : Nat → ChildResult} {o : Option Nat} (h : ∀ j, o = some j → ρ j = ρ' j)
    (s : List Int × Int) : learnFrom (env.withResult ρ) o s = learnFrom (env.withResult ρ') o s := by
  cases o with
  | none => rfl
  | some j => simp only [learnFrom, Environment.withResult, h j rfl]

/-- Only the results collected since the latest new input matter. -/
theorem handedAt_congr {ρ ρ' : Nat → ChildResult}
    (hsame : ∀ u j, lastNew cfg r ≤ u → u < r → Pool.collected cfg.concurrency env.pick u = some j → ρ j = ρ' j)
    {s s' : List Int × Int} (hs : handedAt cfg (env.withResult ρ) r = some s)
    (hs' : handedAt cfg (env.withResult ρ') r = some s') : s = s' := by
  induction r generalizing s s' with
  | zero => exact Option.some.inj (hs.symm.trans hs')
  | succ r ih =>
    obtain ⟨t, ht, rfl⟩ := Option.map_eq_some_iff.mp hs
    obtain ⟨t', ht', rfl⟩ := Option.map_eq_some_iff.mp hs'
    obtain ⟨m, hm, hlearn⟩ := Option.bind_eq_some_iff.mp ht
    obtain ⟨m', hm', hlearn'⟩ := Option.bind_eq_some_iff.mp ht'
    by_cases hnew : newInputAt cfg (r + 1) = true
    · rw [if_pos hnew, if_pos hnew]
    · have hlast : lastNew cfg (r + 1) = lastNew cfg r := if_neg hnew
      rw [if_neg hnew, if_neg hnew]
      rw [hlast] at hsame
      obtain rfl := ih (fun u j hle hlt => hsame u j hle (Nat.lt_succ_of_lt hlt)) hm hm'
      refine Option.some.inj (hlearn.symm.trans (Eq.trans ?_ hlearn'))
      exact learnFrom_congr (fun j hcoll => hsame r j (lastNew_le cfg r) (Nat.lt_succ_self r) hcoll) m

/-- A child that reports no instruction and `n` executed preemption points. -/
def reportsOnly (n : Int) : ChildResult := ⟨[], n⟩

theorem learnFrom_quiet {ρ : Nat → ChildResult} {o : Option Nat} (h : ∀ j, o = some j → ρ j = reportsOnly 0)
    (s : List Int × Int) : learnFrom (env.withResult ρ) o s = some s := by
  cases o with
  | none => rfl
  | some j =>
    simp only [learnFrom, Environment.withResult, h j rfl]
    rfl

/-- When no child reports anything, all are handed the initial settings. -/
theorem handedAt_quiet (r : Nat) :
    handedAt cfg (env.withResult fun _ => reportsOnly 0) r = some (cfg.ipfilterBackup, cfg.kInitial) := by
  induction r with
  | zero => rfl
  | succ r ih =>
    rw [handedAt, ih, Option.bind_some, learnFrom_quiet (fun _ _ => rfl), Option.map_some]
    split_ifs <;> rfl

/-- Children that report no instructions fit in every filter. -/
theorem fits_of_reportsOnly (hfile : cfg.ipfilterBackup.length ≤ maxIpfilterHash) {ρ : Nat → ChildResult}
    (h : ∀ j, ∃ n, ρ j = reportsOnly n) : Fits cfg (env.withResult ρ) := by
  have hzero : ∀ j, resultSize (env.withResult ρ) j = 0 := by
    intro j
    obtain ⟨n, hn⟩ := h j
    show (ρ j).communicationInstructions.length = 0
    rw [hn]
    rfl
  have hsum : ((List.range cfg.rounds).map (resultSize (env.withResult ρ))).sum = 0 := by
    rw [List.map_congr_left fun j _ => hzero j]
    simp
  unfold Fits
  omega

/-- Only the child `j` reports something: `n` executed preemption points. -/
def onlyReports (j : Nat) (n : Int) : Nat → ChildResult :=
  Function.update (fun _ => reportsOnly 0) j (reportsOnly n)

section Loud
variable {j : Nat} {n : Int} (hn : 0 < n)
include hn

theorem learnFrom_loud (o : Option Nat) (k : Int) :
    learnFrom (env.withResult (onlyReports j n)) o
      (cfg.ipfilterBackup, k) = some (cfg.ipfilterBackup, if o = some j then n * 11 / 10 else k) := by
  by_cases ho : o = some j
  · subst ho
    rw [if_pos rfl]
    simp only [learnFrom, Environment.withResult, onlyReports, Function.update_self, reportsOnly, learnK, if_pos hn]
    rfl
  · rw [if_neg ho]
    refine learnFrom_quiet (fun i hi => Function.update_of_ne ?_ _ _) _
    rintro rfl
    exact ho hi

/-- The filter stays as it is when nobody reports an instruction. -/
theorem handedAt_loud_filter (r : Nat) :
    ∃ k, handedAt cfg (env.withResult (onlyReports j n)) r
      = some (cfg.ipfilterBackup, k) := by
  induction r with
  | zero => exact ⟨_, rfl⟩
  | succ r ih =>
    obtain ⟨k, ih⟩ := ih
    rw [handedAt, ih, Option.bind_some, learnFrom_loud hn, Option.map_some]
    split_ifs
    · exact ⟨_, rfl⟩
    · exact ⟨_, rfl⟩
    · exact ⟨_, rfl⟩

/-- `k` follows the report of `j` from its collection up to the next new input. -/
theorem handedAt_loud {u : Nat} (hle : lastNew cfg r ≤ u) (hlt : u < r)
    (hcoll : Pool.collected cfg.concurrency env.pick u = some j) :
    handedAt cfg (env.withResult (onlyReports j n)) r
      = some (cfg.ipfilterBackup, n * 11 / 10) := by
  induction r with
  | zero => exact absurd hlt (Nat.not_lt_zero u)
  | succ r ih =>
    have hnew : ¬ newInputAt cfg (r + 1) = true := by
      intro hnew
      have : lastNew cfg (r + 1) = r + 1 := if_pos hnew
      omega
    have hlast : lastNew cfg (r + 1) = lastNew cfg r := if_neg hnew
    rw [hlast] at hle
    obtain ⟨k, hk⟩ : ∃ k, handedAt cfg (env.withResult (onlyReports j n)) r = some (cfg.ipfilterBackup, k) :=
      handedAt_loud_filter hn r
    have hafter : (if Pool.collected cfg.concurrency env.pick r = some j then n * 11 / 10 else k)
        = n * 11 / 10 := by
      split_ifs with hj
      · rfl
      · have hur : u ≠ r := by
          rintro rfl
          exact hj hcoll
        exact congrArg Prod.snd (Option.some.inj (hk.symm.trans (ih hle (by omega))))
    rw [handedAt, hk, Option.bind_some]
    show (learnFrom _ (Pool.collected cfg.concurrency env.pick r) _).map _ = _
    rw [learnFrom_loud hn, Option.map_some, if_neg hnew, hafter]

end Loud

/-! ## The main result -/

/-- **When settings depend on the own input pair only.** All children end normally. The ip filter and `k` that
    child `r` is handed depend on nothing but the filter file, the initial `k` and results of children with the
    input pair of `r`, if and only if every child collected between the latest new input and the fork of `r` ran
    that pair. Children with an old pair that finish after the input has changed are merged all the same. -/
theorem dependsOnPairOnly_iff (hc : 0 < cfg.concurrency) (hin : cfg.input.Accepted)
    (hfile : cfg.ipfilterBackup.length ≤ maxIpfilterHash)
    (hpids : ∀ ρ, PidsDistinct cfg (env.withResult ρ)) (hnormal : ∀ r, NormalExit (env.status r))
    (hr : r < cfg.rounds) : DependsOnPairOnly cfg env r ↔ CollectedSamePair cfg env r := by
  constructor
  · intro hdep u j hle hlt hcoll
    by_contra hpair
    -- the foreign child `j` alone reports, and what it reports moves `k` away from its initial value
    obtain ⟨n, hn, hk⟩ : ∃ n : Int, 0 < n ∧ n * 11 / 10 ≠ cfg.kInitial := by
      by_cases h₁ : cfg.kInitial = 1
      · exact ⟨2, by decide, by rw [h₁]; decide⟩
      · exact ⟨1, by decide, fun h => h₁ h.symm⟩
    have hquiet : ∃ c, forkedChild cfg (env.withResult fun _ => reportsOnly 0) r = some c :=
      forkedChild_isSome hc hin (hpids _) hnormal (fits_of_reportsOnly hfile fun _ => ⟨0, rfl⟩) hr
    have hloud : ∃ c, forkedChild cfg (env.withResult (onlyReports j n)) r = some c := by
      refine forkedChild_isSome hc hin (hpids _) hnormal (fits_of_reportsOnly hfile fun i => ?_) hr
      by_cases hi : i = j
      · subst hi
        exact ⟨n, Function.update_self _ _ _⟩
      · exact ⟨0, Function.update_of_ne hi _ _⟩
    obtain ⟨c, hcq⟩ := hquiet
    obtain ⟨c', hcl⟩ := hloud
    have hsame : ∀ i, pairOf cfg i = pairOf cfg r → reportsOnly 0 = onlyReports j n i := by
      intro i hi
      have hne : i ≠ j := by
        rintro rfl
        exact hpair hi
      rw [onlyReports, Function.update_of_ne hne]
    have heq := hdep _ _ hsame c c' hcq hcl
    have hs := (forkedChild_spec hc (hpids _) hcq).1
    have hs' := (forkedChild_spec hc (hpids _) hcl).1
    rw [handedAt_quiet] at hs
    rw [handedAt_loud hn hle hlt hcoll, ← heq] at hs'
    exact hk (congrArg Prod.snd (Option.some.inj (hs'.trans hs.symm)))
  · intro hcond ρ ρ' hsame c c' hc₁ hc₂
    refine handedAt_congr (fun u j hle hlt hcoll => hsame j (hcond u j hle hlt hcoll))
      (forkedChild_spec hc (hpids ρ) hc₁).1 (forkedChild_spec hc (hpids ρ') hc₂).1

/-- With one slot every child is collected before the next input starts, so old inputs have no influence. -/
theorem dependsOnPairOnly_one_slot : DependsOnPairOnly (quietConfig 1 8) quietEnv 3 := by
  have hpids : ∀ ρ, PidsDistinct (quietConfig 1 8) (quietEnv.withResult ρ) :=
    fun _ => pidsDistinct_of_counting (by decide) fun _ => rfl
  refine (dependsOnPairOnly_iff (by decide) twoByTwo_accepted (by decide) hpids
    (fun _ => ⟨1, rfl, by decide⟩) (by decide)).mpr ?_
  intro u j hle hlt hcoll
  have hu : u = 2 := by
    have hlast : lastNew (quietConfig 1 8) 3 = 2 := by decide
    omega
  subst hu
  obtain rfl : 2 = j := Option.some.inj hcoll
  decide

/-- The second child of an input is collected before the first. -/
def secondFirst : Environment := { quietEnv with pick := fun w => if w = 0 then 1 else 0 }

/-- Two slots, and the first child finishes after the second input has started: its results reach the second
    child of the second input. -/
theorem old_input_reaches_new_one :
    pairOf (quietConfig 2 8) 0 ≠ pairOf (quietConfig 2 8) 3 ∧
    ∃ ρ c c', (∀ j, pairOf (quietConfig 2 8) j = pairOf (quietConfig 2 8) 3 → reportsOnly 0 = ρ j) ∧
      forkedChild (quietConfig 2 8) (secondFirst.withResult fun _ => reportsOnly 0) 3 = some c ∧
      forkedChild (quietConfig 2 8) (secondFirst.withResult ρ) 3 = some c' ∧
      c.settings = ([], 100) ∧ c'.settings = ([49152], 55) := by
  have hpair : pairOf (quietConfig 2 8) 0 ≠ pairOf (quietConfig 2 8) 3 := by decide
  refine ⟨hpair, Function.update (fun _ => reportsOnly 0) 0 ⟨[49152], 50⟩, _, _, ?_, rfl, rfl, rfl, rfl⟩
  intro j hj
  have hne : j ≠ 0 := by
    rintro rfl
    exact hpair hj
  rw [Function.update_of_ne hne]

end SkiVmm.Forkall
