import Mathlib.Algebra.Order.BigOperators.Group.List
import Mathlib.Algebra.Order.Ring.Nat
import SkiVmm.Forkall.Slots

/-!
# `Forkall.Drain` — the end of the rounds

After the last round the parent collects the children still running and exits. How many it waits for is
computed from the number of free places: `concurrency - slotsAvailable - 1`. That is the number of running
children once a child was collected in the rounds, since the place of the collected child is free again; before
that, it is one too few.
-/

namespace SkiVmm.Forkall

open Lib

variable {cfg : Config} {env : Environment} {p q : Parent} {r : Nat}

/-- **The drain** collects children as the pool does, unless the filter overflows. -/
theorem drainChildren_cases (h : Owned cfg p.slots p.live) {n : Nat} (hn : n ≤ p.live.length) :
    (∃ q, drainChildren cfg env n p = .ok q ∧ forkedRounds q.log = forkedRounds p.log ∧
      waitedRounds q.log
        = waitedRounds p.log ++ (Pool.drain env.pick p.waits n (p.live.map Child.round)).1 ∧
      printedRounds q.log
        = printedRounds p.log ++ (Pool.drain env.pick p.waits n (p.live.map Child.round)).1) ∨
    ∃ e, drainChildren cfg env n p = .error e ∧ e.code = none ∧
      maxIpfilterHash < p.ipfilter.length + ((p.live.map Child.round).map (resultSize env)).sum := by
  induction n generalizing p with
  | zero => exact .inl ⟨p, rfl, rfl, by simp [Pool.drain], by simp [Pool.drain]⟩
  | succ n ih =>
    have hlt : env.pick p.waits % p.live.length < p.live.length := Nat.mod_lt _ (by omega)
    obtain ⟨c, hc⟩ : ∃ c, p.live[env.pick p.waits % p.live.length]? = some c :=
      ⟨_, List.getElem?_eq_getElem hlt⟩
    obtain ⟨hok, hfull⟩ := drainChildren_succ h hc n
    -- the weight of `c` and of the children that keep running
    have hsum : resultSize env c.round + (((p.live.eraseIdx (env.pick p.waits % p.live.length)).map
        Child.round).map (resultSize env)).sum = ((p.live.map Child.round).map (resultSize env)).sum := by
      obtain ⟨_, rfl⟩ := List.getElem?_eq_some_iff.mp hc
      exact (((List.getElem_cons_eraseIdx_perm hlt).map Child.round).map (resultSize env)).sum_nat
    have hsize : resultSize env c.round = (env.result c.round).communicationInstructions.length := rfl
    cases hadd : skiEipfilterAddStats p.ipfilter (env.result c.round).communicationInstructions with
    | none =>
      obtain ⟨e, he, hnone⟩ := hfull hadd
      have hlt := lt_of_skiEipfilterAddStats_eq_none hadd
      exact .inr ⟨e, he, hnone, by omega⟩
    | some filter =>
      have hlen := length_of_skiEipfilterAddStats hadd
      have howned : Owned cfg (mergedState env p c filter).slots (mergedState env p c filter).live :=
        (h.finished c.slot c.round (env.result c.round)).sublist (List.eraseIdx_sublist _ _)
      have hlive : (mergedState env p c filter).live
          = p.live.eraseIdx (env.pick p.waits % p.live.length) := rfl
      have hlive_le : n ≤ (mergedState env p c filter).live.length := by
        rw [hlive, List.length_eraseIdx_of_lt hlt]
        omega
      have hdrain : (Pool.drain env.pick p.waits (n + 1) (p.live.map Child.round)).1
          = c.round :: (Pool.drain env.pick (p.waits + 1) n
              ((mergedState env p c filter).live.map Child.round)).1 := by
        simp only [Pool.drain, List.length_map, List.getElem?_map, hc, Option.map_some, hlive,
          List.eraseIdx_map]
      rw [hok filter hadd, hdrain]
      rcases ih howned hlive_le with ⟨q, hq, hfq, hwq, hpq⟩ | ⟨e, he, hnone, hover⟩
      · refine .inl ⟨q, hq, ?_, ?_, ?_⟩
        · rw [hfq, forkedRounds_mergedState]
        · rw [hwq, waitedRounds_mergedState, List.append_assoc]
          rfl
        · rw [hpq, printedRounds_mergedState, List.append_assoc]
          rfl
      · rw [hlive] at hover
        have hfilter : (mergedState env p c filter).ipfilter = filter := rfl
        rw [hfilter] at hover
        exact .inr ⟨e, he, hnone, by omega⟩

/-- The filter file and the reports of all children fit into the filter. -/
def Fits (cfg : Config) (env : Environment) : Prop :=
  cfg.ipfilterBackup.length + ((List.range cfg.rounds).map (resultSize env)).sum ≤ maxIpfilterHash

/-- Reports of the first rounds fit if all do. -/
theorem Fits.upto (h : Fits cfg env) (hr : r ≤ cfg.rounds) :
    cfg.ipfilterBackup.length + ((List.range r).map (resultSize env)).sum ≤ maxIpfilterHash := by
  have hsub : ((List.range r).map (resultSize env)).Sublist ((List.range cfg.rounds).map (resultSize env)) :=
    (List.range_sublist.mpr hr).map _
  have hle := hsub.sum_le_sum (fun _ _ => Nat.zero_le _)
  unfold Fits at h
  omega

section Normal
variable (hc : 0 < cfg.concurrency) (hin : cfg.input.Accepted) (hpids : PidsDistinct cfg env)
  (hnormal : ∀ r, NormalExit (env.status r))
include hin hpids hnormal

/-- One round when all children end normally: it finds a slot for the next child, unless the filter overflows. -/
theorem RoundInv.forkallRound_cases (h : RoundInv cfg env r p) (hp : parentAt cfg env r = .ok p) :
    (∃ q, RoundInv cfg env (r + 1) { q with round := q.round + 1 } ∧
      forkallRound cfg env p = finishRound cfg env q) ∨
    ∃ e, forkallRound cfg env p = .error e ∧ e.code = none ∧ (r < cfg.rounds → ¬ Fits cfg env) := by
  obtain ⟨⟨input, newInput⟩, hcall⟩ :=
    Option.isSome_iff_exists.mp (skiInputForkInit_isSome (hin.forkInitCalls h.input_eq))
  obtain ⟨c, q, hf, hround⟩ := h.forkallRound_eq hcall
  rw [hround]
  rcases h.provideSlot_cases (hpids r p hp) hf with ⟨q', hq', hinv, -⟩ | ⟨e, he, hcode⟩
  · refine .inl ⟨q', hinv, ?_⟩
    rw [hq']
    rfl
  · obtain ⟨hnone, hover⟩ := hcode hnormal
    refine .inr ⟨e, by rw [he]; rfl, hnone, ?_⟩
    intro hr hfits
    exact absurd (hfits.upto hr) (Nat.not_le.mpr hover)

include hc

/-- Before the last round the parent is at the label, unless the filter has overflown. -/
theorem parentAt_cases (hr : r < cfg.rounds) :
    (∃ p, parentAt cfg env r = .ok p ∧ RoundInv cfg env r p) ∨
    ∃ e, parentAt cfg env r = .error e ∧ e.code = none ∧ ¬ Fits cfg env := by
  induction r with
  | zero => exact .inl ⟨_, rfl, roundInv_initial hc⟩
  | succ r ih =>
    rcases ih (by omega) with ⟨p, hp, h⟩ | ⟨e, he, hnone, hfits⟩
    · have hstep : parentAt cfg env (r + 1) = forkallRound cfg env p := by
        rw [parentAt, hp]
        rfl
      rw [hstep]
      rcases h.forkallRound_cases hin hpids hnormal hp with ⟨q, hinv, hround⟩ | ⟨e, he, hnone, hfits⟩
      · refine .inl ⟨_, ?_, hinv⟩
        rw [hround, finishRound]
        exact if_neg (by rw [hinv.round_eq]; omega)
      · exact .inr ⟨e, he, hnone, hfits (by omega)⟩
    · refine .inr ⟨e, ?_, hnone, hfits⟩
      rw [parentAt, he]
      rfl

/-- **The last round** ends the parent. It leaves no child behind exactly when there were at least as many
    rounds as slots. -/
theorem parentAt_rounds (hr : 0 < cfg.rounds) :
    (∃ fin, parentAt cfg env cfg.rounds = .error ⟨some 0, fin⟩ ∧
      forkedRounds fin.log = List.range cfg.rounds ∧
      ∃ rest : List Nat, (rest = [] ↔ cfg.concurrency ≤ cfg.rounds) ∧
        (waitedRounds fin.log ++ rest).Perm (List.range cfg.rounds) ∧
        printedRounds fin.log = waitedRounds fin.log) ∨
    ∃ e, parentAt cfg env cfg.rounds = .error e ∧ e.code = none ∧ ¬ Fits cfg env := by
  obtain ⟨r, hrounds⟩ : ∃ r, cfg.rounds = r + 1 := ⟨cfg.rounds - 1, by omega⟩
  rcases parentAt_cases hc hin hpids hnormal (r := r) (by omega) with ⟨p, hp, h⟩ | ⟨e, he, hnone, hfits⟩
  swap
  · refine .inr ⟨e, ?_, hnone, hfits⟩
    rw [hrounds, parentAt, he]
    rfl
  have hlast : parentAt cfg env cfg.rounds = forkallRound cfg env p := by
    rw [hrounds, parentAt, hp]
    rfl
  rw [hlast]
  rcases h.forkallRound_cases hin hpids hnormal hp with ⟨q, hinv, hround⟩ | ⟨e, he, hnone, hfits⟩
  swap
  · exact .inr ⟨e, he, hnone, hfits (by omega)⟩
  rw [← hrounds] at hinv
  -- the state in which the drain starts, and the number of children it waits for
  obtain ⟨q', hq'⟩ : ∃ q', q' = { q with round := q.round + 1 } := ⟨_, rfl⟩
  rw [← hq'] at hinv
  have hfinish : finishRound cfg env q
      = drainChildren cfg env (slotsInUse cfg q').toNat q' >>= fun p => .error ⟨some 0, p⟩ := by
    rw [finishRound, ← hq']
    exact if_pos (by rw [hinv.round_eq])
  have hlen : q'.live.length = min cfg.rounds (cfg.concurrency - 1) := by
    rw [← List.length_map Child.round, hinv.live_rounds, Pool.length_live hc]
  have hdrain : (slotsInUse cfg q').toNat = min cfg.rounds cfg.concurrency - 1 := by
    unfold slotsInUse
    rw [hinv.available_eq]
    omega
  rw [hround, hfinish, hdrain]
  rcases drainChildren_cases hinv.owned (n := min cfg.rounds cfg.concurrency - 1) (by omega) with
    ⟨fin, hfin, hforked, hwaited, hprinted⟩ | ⟨e, he, hnone, hover⟩
  · rw [hfin]
    refine .inl ⟨fin, rfl, hforked.trans hinv.forked_eq,
      (Pool.drain env.pick q'.waits (min cfg.rounds cfg.concurrency - 1) (q'.live.map Child.round)).2,
      ?_, ?_, ?_⟩
    · rw [← List.length_eq_zero_iff, Pool.length_drain, List.length_map]
      omega
    · rw [hwaited, List.append_assoc, hinv.waited_eq]
      refine ((Pool.drain_perm _ _ _).append_left _).trans ?_
      rw [hinv.live_rounds]
      exact Pool.collected_append_live _ _ _
    · rw [hwaited, hprinted, hinv.waited_eq, hinv.printed_eq]
  · rw [he]
    refine .inr ⟨e, rfl, hnone, ?_⟩
    intro hfits
    have hle := hinv.filter_le
    rw [hinv.live_rounds] at hover
    unfold Fits at hfits
    omega

end Normal

/-- **Every child is collected exactly when there are at least as many rounds as slots.** All children end
    normally. Unless the filter overflows, the parent reaches its `exit(0)` after the last round; when it does,
    it has forked a child in every round, and it has waited for each of them and printed its statistics exactly
    once if and only if `concurrency ≤ rounds`. -/
theorem all_children_collected_iff (hc : 0 < cfg.concurrency) (hr : 0 < cfg.rounds)
    (hin : cfg.input.Accepted) (hpids : PidsDistinct cfg env) (hnormal : ∀ r, NormalExit (env.status r)) :
    (Fits cfg env → ∃ fin, parentAt cfg env cfg.rounds = .error ⟨some 0, fin⟩) ∧
    ∀ fin, parentAt cfg env cfg.rounds = .error ⟨some 0, fin⟩ →
      forkedRounds fin.log = List.range cfg.rounds ∧
      ((∀ r < cfg.rounds, (waitedRounds fin.log).count r = 1 ∧ (printedRounds fin.log).count r = 1) ↔
        cfg.concurrency ≤ cfg.rounds) := by
  rcases parentAt_rounds hc hin hpids hnormal hr with
    ⟨fin, hfin, hforked, rest, hrest, hperm, hprinted⟩ | ⟨e, he, hnone, hfits⟩
  · refine ⟨fun _ => ⟨fin, hfin⟩, ?_⟩
    intro fin' hfin'
    obtain rfl : fin = fin' := by
      rw [hfin] at hfin'
      cases hfin'
      rfl
    refine ⟨hforked, ?_⟩
    rw [hprinted, ← hrest, ← Pool.forall_count_eq_one_iff hperm]
    constructor
    · intro h j hj
      exact (h j hj).1
    · intro h j hj
      exact ⟨h j hj, h j hj⟩
  · refine ⟨fun h => absurd h hfits, ?_⟩
    intro fin hfin
    rw [he] at hfin
    cases hfin
    cases hnone

/-- Two rounds with two slots: both children are collected. -/
theorem all_children_collected_two_rounds :
    ∃ fin, parentAt (quietConfig 2 2) quietEnv 2 = .error ⟨some 0, fin⟩ ∧
      ∀ r < 2, (waitedRounds fin.log).count r = 1 ∧ (printedRounds fin.log).count r = 1 := by
  have hfits : Fits (quietConfig 2 2) quietEnv := Nat.zero_le _
  have hpids : PidsDistinct (quietConfig 2 2) quietEnv := pidsDistinct_of_counting (by decide) fun _ => rfl
  have hnormal : ∀ r, NormalExit (quietEnv.status r) := fun _ => ⟨1, rfl, by decide⟩
  obtain ⟨hreach, hall⟩ :=
    all_children_collected_iff (by decide) (by decide) twoByTwo_accepted hpids hnormal
  obtain ⟨fin, hfin⟩ := hreach hfits
  exact ⟨fin, hfin, (hall fin hfin).2.mpr (Nat.le_refl 2)⟩

/-- One round with two slots: the parent exits and its only child was never waited for. -/
theorem child_left_behind_one_round :
    (∀ r, NormalExit (quietEnv.status r)) ∧ PidsDistinct (quietConfig 2 1) quietEnv ∧
    ∃ fin, parentAt (quietConfig 2 1) quietEnv 1 = .error ⟨some 0, fin⟩ ∧ forkedRounds fin.log = [0] ∧
      (waitedRounds fin.log).count 0 = 0 ∧ (printedRounds fin.log).count 0 = 0 :=
  ⟨fun _ => ⟨1, rfl, by decide⟩, pidsDistinct_of_counting (by decide) fun _ => rfl, _, rfl, rfl, rfl, rfl⟩

end SkiVmm.Forkall
