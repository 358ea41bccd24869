import SkiVmm.Lib.Pool
import SkiVmm.Lib.Run
import SkiVmm.Forkall.Parent

/-!
# `Forkall.Slots` — who owns which statistics slot

The parent as an instance of `Lib.Pool`: the children running before round `r` are the pool's running jobs,
and the child a round collects is the job the pool collects (`RoundInv`, kept by every round). On top of that,
slots are handed out without collisions, and every child is waited for and printed once as long as there are
at least as many rounds as slots.
-/

namespace SkiVmm.Forkall

open Lib

variable {cfg : Config} {env : Environment} {p q : Parent} {r : Nat}

/-- What `fork` guarantees: a positive pid that no child still running has. -/
def FreshPid (env : Environment) (r : Nat) (p : Parent) : Prop :=
  0 < env.pid r ∧ ∀ c ∈ p.live, c.pid ≠ env.pid r

/-! ## Slots and pids -/

/-- Every running child is found through its pid, in the slot it was given. -/
structure Owned (cfg : Config) (slots : Nat → SkiStats) (live : List Child) : Prop where
  slot_self : ∀ i, (slots i).slot = i
  slot_lt : ∀ c ∈ live, c.slot < cfg.concurrency
  pid_pos : ∀ c ∈ live, 0 < c.pid
  pid_iff : ∀ c ∈ live, ∀ i, (slots i).pid = c.pid ↔ i = c.slot
  pids_nodup : (live.map Child.pid).Nodup

section Owned
variable {slots : Nat → SkiStats} {live : List Child}

/-- Running children have distinct slots. -/
theorem Owned.slots_nodup (h : Owned cfg slots live) : (live.map Child.slot).Nodup := by
  refine List.Nodup.of_map (fun i => (slots i).pid) ?_
  have hmap : live.map ((fun i => (slots i).pid) ∘ Child.slot) = live.map Child.pid :=
    List.map_congr_left fun c hc => (h.pid_iff c hc c.slot).mpr rfl
  rw [List.map_map, hmap]
  exact h.pids_nodup

/-- A new child in a free slot, when all free slots have pid 0. -/
theorem Owned.fork (h : Owned cfg slots live)
    (hfree : ∀ i, (∀ c ∈ live, c.slot ≠ i) → (slots i).pid = 0) {c : Child} {s : SkiStats}
    (hlt : c.slot < cfg.concurrency) (hnew : ∀ c' ∈ live, c'.slot ≠ c.slot) (hpos : 0 < c.pid)
    (hpid : ∀ c' ∈ live, c'.pid ≠ c.pid) (hs : s.slot = c.slot) (hsp : s.pid = c.pid) :
    Owned cfg (Function.update slots c.slot s) (live ++ [c]) := by
  have hmem : ∀ {c'}, c' ∈ live ++ [c] → c' ∈ live ∨ c' = c := by
    intro c' hc'
    rcases List.mem_append.mp hc' with h' | h'
    · exact .inl h'
    · exact .inr (List.mem_singleton.mp h')
  refine ⟨fun i => ?_, fun c' hc' => ?_, fun c' hc' => ?_, fun c' hc' i => ?_, ?_⟩
  · by_cases hi : i = c.slot
    · subst hi
      rw [Function.update_self, hs]
    · rw [Function.update_of_ne hi]
      exact h.slot_self i
  · rcases hmem hc' with h' | rfl
    · exact h.slot_lt c' h'
    · exact hlt
  · rcases hmem hc' with h' | rfl
    · exact h.pid_pos c' h'
    · exact hpos
  · by_cases hi : i = c.slot
    · subst hi
      rw [Function.update_self, hsp]
      rcases hmem hc' with h' | rfl
      · exact iff_of_false (hpid c' h').symm (hnew c' h').symm
      · exact iff_of_true rfl rfl
    · rw [Function.update_of_ne hi]
      rcases hmem hc' with h' | rfl
      · exact h.pid_iff c' h' i
      · refine iff_of_false ?_ hi
        -- a slot that is not free carries the pid of its running child
        by_cases hf : ∀ c'' ∈ live, c''.slot ≠ i
        · rw [hfree i hf]
          omega
        · push Not at hf
          obtain ⟨c'', hc'', hi''⟩ := hf
          rw [(h.pid_iff c'' hc'' i).mpr hi''.symm]
          exact hpid c'' hc''
  · rw [List.map_append, List.map_singleton]
    refine List.nodup_append.mpr ⟨h.pids_nodup, List.nodup_singleton _, ?_⟩
    intro a ha b hb
    obtain ⟨c', hc', rfl⟩ := List.mem_map.mp ha
    rw [List.mem_singleton.mp hb]
    exact hpid c' hc'

/-- A child's results leave the ownership as it is. -/
theorem Owned.finished (h : Owned cfg slots live) (i round : Nat) (res : ChildResult) :
    Owned cfg (Function.update slots i ((slots i).finished round res)) live := by
  have hpid : ∀ j, (Function.update slots i ((slots i).finished round res) j).pid = (slots j).pid := by
    intro j
    by_cases hj : j = i
    · subst hj
      rw [Function.update_self]
      rfl
    · rw [Function.update_of_ne hj]
  have hslot : ∀ j, (Function.update slots i ((slots i).finished round res) j).slot = (slots j).slot := by
    intro j
    by_cases hj : j = i
    · subst hj
      rw [Function.update_self]
      rfl
    · rw [Function.update_of_ne hj]
  refine ⟨fun j => (hslot j).trans (h.slot_self j), h.slot_lt, h.pid_pos, fun c hc j => ?_, h.pids_nodup⟩
  rw [hpid]
  exact h.pid_iff c hc j

/-- A child that is no longer running needs no slot. -/
theorem Owned.sublist (h : Owned cfg slots live) {live' : List Child} (hs : live'.Sublist live) :
    Owned cfg slots live' :=
  ⟨h.slot_self, fun c hc => h.slot_lt c (hs.subset hc), fun c hc => h.pid_pos c (hs.subset hc),
    fun c hc => h.pid_iff c (hs.subset hc), (hs.map _).nodup h.pids_nodup⟩

/-- A slot that no running child owns may be reset. -/
theorem Owned.reset (h : Owned cfg slots live) {i : Nat} (hi : ∀ c ∈ live, c.slot ≠ i) :
    Owned cfg (Function.update slots i (emptySlot i)) live := by
  refine ⟨fun j => ?_, h.slot_lt, h.pid_pos, fun c hc j => ?_, h.pids_nodup⟩
  · by_cases hj : j = i
    · subst hj
      rw [Function.update_self]
      rfl
    · rw [Function.update_of_ne hj]
      exact h.slot_self j
  · by_cases hj : j = i
    · subst hj
      rw [Function.update_self]
      refine iff_of_false ?_ (hi c hc).symm
      have := h.pid_pos c hc
      show (0 : Int) ≠ c.pid
      omega
    · rw [Function.update_of_ne hj]
      exact h.pid_iff c hc j

/-- The slots of the children that keep running, when one is taken out of the list. -/
theorem Owned.slot_ne_of_mem_eraseIdx (h : Owned cfg slots live) {n : Nat} {c c' : Child}
    (hc : live[n]? = some c) (hc' : c' ∈ live.eraseIdx n) : c'.slot ≠ c.slot := by
  obtain ⟨hn, rfl⟩ := List.getElem?_eq_some_iff.mp hc
  have hperm : (live[n].slot :: (live.eraseIdx n).map Child.slot).Perm (live.map Child.slot) :=
    (List.getElem_cons_eraseIdx_perm hn).map Child.slot
  have hnodup := hperm.nodup_iff.mpr h.slots_nodup
  intro heq
  exact (List.nodup_cons.mp hnodup).1 (heq ▸ List.mem_map_of_mem hc')

end Owned

/-- The look-up by pid finds the slot of a running child. -/
theorem skiStatsGetFromPid_eq {live : List Child} (h : Owned cfg p.slots live) {c : Child} (hc : c ∈ live) :
    skiStatsGetFromPid cfg p c.pid = some (p.slots c.slot) := by
  unfold skiStatsGetFromPid
  rw [List.find?_map, Option.map_eq_some_iff]
  refine ⟨c.slot, List.find?_range_eq_some.mpr ⟨?_, ?_, ?_⟩, rfl⟩
  · simpa using (h.pid_iff c hc c.slot).mpr rfl
  · exact List.mem_range.mpr (h.slot_lt c hc)
  · intro j hj
    have : (p.slots j).pid ≠ c.pid := fun heq => Nat.ne_of_lt hj ((h.pid_iff c hc j).mp heq)
    simpa using this

/-! ## Collecting a child -/

/-- The statistics the parent reads for the child `c`. -/
def reapedStats (env : Environment) (p : Parent) (c : Child) : SkiStats :=
  (p.slots c.slot).finished c.round (env.result c.round)

/-- The parent after it has merged and printed the statistics of the child `c`. -/
def mergedState (env : Environment) (p : Parent) (c : Child) (filter : List Int) : Parent :=
  { p.reaped env c with
    self := c.slot
    nextSlot := c.slot
    ipfilter := filter
    log := p.log ++ [.waited c, .merged (reapedStats env p c), .printed (reapedStats env p c)] }

/-- The parent after it has collected the child `c` in the rounds: its slot is free again. -/
def collectedState (env : Environment) (p : Parent) (c : Child) (filter : List Int) : Parent :=
  skiStatsResetSlot
    { mergedState env p c filter with k := learnK p.k (env.result c.round).preemptionPointsExecuted } c.slot

/-- The child ended by itself and reported a result, as every finished test does. -/
def NormalExit (s : WaitStatus) : Prop := ∃ code, s = .exited code ∧ code ≠ 0

/-- `wait` returns the child that the environment picks. -/
theorem wait_eq {c : Child} (hc : p.live[env.pick p.waits % p.live.length]? = some c) :
    p.wait env = some (c, p.reaped env c) := by
  unfold Parent.wait
  rw [hc, Option.map_some]

section Collect
variable {c : Child} (h : Owned cfg p.slots p.live)
  (hc : p.live[env.pick p.waits % p.live.length]? = some c)
include h hc

theorem getFromPid_reaped : skiStatsGetFromPid cfg (p.reaped env c) c.pid = some (reapedStats env p c) := by
  have hown : Owned cfg (p.reaped env c).slots p.live := h.finished c.slot c.round (env.result c.round)
  rw [skiStatsGetFromPid_eq hown (List.mem_of_getElem? hc)]
  exact congrArg some (Function.update_self _ _ _)

/-- Merging stops the parent only when the filter is full. -/
theorem mergeAndPrint_reaped :
    (∀ filter, skiEipfilterAddStats p.ipfilter (env.result c.round).communicationInstructions = some filter →
      mergeAndPrint cfg (p.reaped env c) (reapedStats env p c) = .ok (mergedState env p c filter)) ∧
    (skiEipfilterAddStats p.ipfilter (env.result c.round).communicationInstructions = none →
      ∃ e, mergeAndPrint cfg (p.reaped env c) (reapedStats env p c) = .error e ∧ e.code = none) := by
  have hmem : c ∈ p.live := List.mem_of_getElem? hc
  have hself : (reapedStats env p c).slot = c.slot := h.slot_self c.slot
  have hown : ((p.reaped env c).slots c.slot).slot = c.slot :=
    (h.finished c.slot c.round (env.result c.round)).slot_self c.slot
  have hset : skiStatsSetSelfSlot cfg { p.reaped env c with nextSlot := c.slot } c.slot
      = .ok { p.reaped env c with nextSlot := c.slot, self := c.slot } :=
    if_pos ⟨h.slot_lt c hmem, hown⟩
  have hfilter : (p.reaped env c).ipfilter = p.ipfilter := rfl
  have hfound : (reapedStats env p c).communicationInstructions = (env.result c.round).communicationInstructions := rfl
  unfold mergeAndPrint
  rw [hself, hset, ok_bind]
  dsimp only
  rw [hfilter, hfound]
  constructor
  · intro filter hf
    rw [hf]
    simp [mergedState, Parent.reaped]
  · intro hf
    rw [hf]
    exact ⟨_, rfl, rfl⟩

/-- **Collecting a child** succeeds, or stops the parent; after a normal end of the child only a full filter
    does the latter, by a failed assertion. -/
theorem collectChild_cases :
    (∃ filter, skiEipfilterAddStats p.ipfilter (env.result c.round).communicationInstructions = some filter ∧
      collectChild cfg env p = .ok (collectedState env p c filter)) ∨
    ∃ e, collectChild cfg env p = .error e ∧
      (NormalExit (env.status c.round) → e.code = none ∧
        skiEipfilterAddStats p.ipfilter (env.result c.round).communicationInstructions = none) := by
  obtain ⟨hok, hfull⟩ := mergeAndPrint_reaped h hc
  unfold collectChild
  rw [wait_eq hc]
  simp only
  cases hst : env.status c.round with
  | signaled sig =>
    refine .inr ⟨_, rfl, ?_⟩
    rintro ⟨code, heq, -⟩
    cases heq
  | exited code =>
    simp only
    rw [getFromPid_reaped h hc]
    simp only
    by_cases hcode : code = 0
    · rw [if_pos hcode]
      refine .inr ⟨_, rfl, ?_⟩
      rintro ⟨code', heq, hne⟩
      cases heq
      exact absurd hcode hne
    · rw [if_neg hcode]
      cases hf : skiEipfilterAddStats p.ipfilter (env.result c.round).communicationInstructions with
      | none =>
        obtain ⟨e, he, hnone⟩ := hfull hf
        rw [he]
        exact .inr ⟨e, rfl, fun _ => ⟨hnone, rfl⟩⟩
      | some filter =>
        rw [hok filter hf]
        have hself : (reapedStats env p c).slot = c.slot := h.slot_self c.slot
        refine .inl ⟨filter, rfl, ?_⟩
        simp only [bind, Except.bind, hself]
        rfl

/-- One turn of the final loop. -/
theorem drainChildren_succ (n : Nat) :
    (∀ filter, skiEipfilterAddStats p.ipfilter (env.result c.round).communicationInstructions = some filter →
      drainChildren cfg env (n + 1) p = drainChildren cfg env n (mergedState env p c filter)) ∧
    (skiEipfilterAddStats p.ipfilter (env.result c.round).communicationInstructions = none →
      ∃ e, drainChildren cfg env (n + 1) p = .error e ∧ e.code = none) := by
  have hstep : drainChildren cfg env (n + 1) p
      = mergeAndPrint cfg (p.reaped env c) (reapedStats env p c) >>= drainChildren cfg env n := by
    rw [drainChildren, wait_eq hc]
    simp only [getFromPid_reaped h hc]
  obtain ⟨hok, hfull⟩ := mergeAndPrint_reaped h hc
  rw [hstep]
  constructor
  · intro filter hf
    rw [hok filter hf]
    rfl
  · intro hf
    obtain ⟨e, he, hnone⟩ := hfull hf
    rw [he]
    exact ⟨e, rfl, hnone⟩

end Collect

/-! ## The log -/

/-- The children forked, in order. -/
def forkedRounds (log : List Event) : List Nat :=
  log.filterMap fun
    | .forked c => some c.round
    | _ => none

/-- The children `wait` returned, in order. -/
def waitedRounds (log : List Event) : List Nat :=
  log.filterMap fun
    | .waited c => some c.round
    | _ => none

/-- The children whose statistics were printed, in order. -/
def printedRounds (log : List Event) : List Nat :=
  log.filterMap fun
    | .printed s => s.writer
    | _ => none

theorem forkedRounds_forked (log : List Event) (c : Child) :
    forkedRounds (log ++ [Event.forked c]) = forkedRounds log ++ [c.round] := by
  simp [forkedRounds]

theorem waitedRounds_forked (log : List Event) (c : Child) :
    waitedRounds (log ++ [Event.forked c]) = waitedRounds log := by
  simp [waitedRounds]

theorem printedRounds_forked (log : List Event) (c : Child) :
    printedRounds (log ++ [Event.forked c]) = printedRounds log := by
  simp [printedRounds]

theorem forkedRounds_mergedState (env : Environment) (p : Parent) (c : Child) (filter : List Int) :
    forkedRounds (mergedState env p c filter).log = forkedRounds p.log := by
  simp [forkedRounds, mergedState]

theorem waitedRounds_mergedState (env : Environment) (p : Parent) (c : Child)
    (filter : List Int) : waitedRounds (mergedState env p c filter).log = waitedRounds p.log ++ [c.round] := by
  simp [waitedRounds, mergedState]

theorem printedRounds_mergedState (env : Environment) (p : Parent) (c : Child)
    (filter : List Int) : printedRounds (mergedState env p c filter).log = printedRounds p.log ++ [c.round] := by
  simp [printedRounds, mergedState, reapedStats, SkiStats.finished]

theorem forkedRounds_collectedState (c : Child) (filter : List Int) :
    forkedRounds (collectedState env p c filter).log = forkedRounds p.log := by
  rw [← forkedRounds_mergedState env p c filter]
  simp [forkedRounds, collectedState, skiStatsResetSlot]

theorem waitedRounds_collectedState (c : Child) (filter : List Int) :
    waitedRounds (collectedState env p c filter).log = waitedRounds p.log ++ [c.round] := by
  rw [← waitedRounds_mergedState env p c filter]
  simp [waitedRounds, collectedState, skiStatsResetSlot]

theorem printedRounds_collectedState (c : Child) (filter : List Int) :
    printedRounds (collectedState env p c filter).log = printedRounds p.log ++ [c.round] := by
  rw [← printedRounds_mergedState env p c filter]
  simp [printedRounds, collectedState, skiStatsResetSlot]

/-! ## Forking a child -/

/-- What the fork of `c` makes of the parent: `p` at the label, `q` when the child is noted in its slot. -/
structure ForkedFrom (cfg : Config) (env : Environment) (p : Parent) (input : InputState) (newInput : Bool)
    (c : Child) (q : Parent) : Prop where
  forkInit : skiInputForkInit p.input = some (input, newInput)
  child_round : c.round = p.round
  child_pid : c.pid = env.pid p.round
  child_slot : c.slot = p.nextSlot
  child_input : c.inputNumber = input.inputNumber
  child_settings : (c.ipfilter, c.k)
    = if newInput then (cfg.ipfilterBackup, cfg.kInitial) else (p.ipfilter, p.k)
  input_eq : q.input = input
  ipfilter_eq : q.ipfilter = c.ipfilter
  k_eq : q.k = c.k
  live_eq : q.live = p.live ++ [c]
  slots_eq : ∃ s, s.slot = (p.slots c.slot).slot ∧ s.pid = c.pid ∧ q.slots = Function.update p.slots c.slot s
  available_eq : q.slotsAvailable = p.slotsAvailable - 1
  waits_eq : q.waits = p.waits
  next_eq : q.nextSlot = p.nextSlot
  round_eq : q.round = p.round
  log_eq : q.log = p.log ++ [.forked c]

/-- The slot of a new child: what `ski_stats_start` wrote before the fork and the pid noted after it. -/
theorem noteChild_slots (p : Parent) (live : List Child) (log : List Event) (pid : Int) :
    (noteChild { skiStatsStart p with live := live, log := log } pid).slots
      = Function.update p.slots p.self
          { p.slots p.self with
            inputNumber := p.input.inputNumber
            preemptionListSize := p.ipfilter.length
            pid := pid } := by
  simp [noteChild, skiStatsStart, Parent.setSlot]

/-- The fork goes through when the next slot is in range and the input files are loaded. -/
theorem forkallDoFork_eq (env : Environment) (hlt : p.nextSlot < cfg.concurrency)
    (hself : (p.slots p.nextSlot).slot = p.nextSlot) {input : InputState} {newInput : Bool}
    (hin : skiInputForkInit p.input = some (input, newInput)) :
    ∃ c q, forkallDoFork cfg env p = .ok q ∧
      ForkedFrom cfg env p input newInput c (noteChild q (env.pid q.round)) := by
  have hset : skiStatsSetSelfSlot cfg p p.nextSlot = .ok { p with self := p.nextSlot } :=
    if_pos ⟨hlt, hself⟩
  have hfork : forkallDoFork cfg env p
      = .ok (forkNext cfg env { p with self := p.nextSlot, input := input } newInput) := by
    unfold forkallDoFork
    rw [hset]
    simp only [bind, Except.bind, hin]
  have havail : (if p.slotsAvailable > 0 then p.slotsAvailable - 1 else p.slotsAvailable)
      = p.slotsAvailable - 1 := by
    split_ifs <;> omega
  refine ⟨{ round := p.round, pid := env.pid p.round, slot := p.nextSlot, inputNumber := input.inputNumber,
            ipfilter := if newInput then cfg.ipfilterBackup else p.ipfilter
            k := if newInput then cfg.kInitial else p.k }, _, hfork, ?_⟩
  cases newInput with
  | false =>
    constructor
    case forkInit => exact hin
    case slots_eq => refine ⟨_, ?_, ?_, noteChild_slots _ _ _ _⟩ <;> rfl
    case available_eq => exact havail
    all_goals rfl
  | true =>
    constructor
    case forkInit => exact hin
    case slots_eq => refine ⟨_, ?_, ?_, noteChild_slots _ _ _ _⟩ <;> rfl
    case available_eq => exact havail
    all_goals rfl

/-! ## The invariant of the rounds -/

/-- The number of instructions that child `r` reports. -/
def resultSize (env : Environment) (r : Nat) : Nat := (env.result r).communicationInstructions.length

/-- The parent's book-keeping, between the fork of child `n - 1` and the fork of child `n`, when `jobs` are
    the children that run. Slots that no running child owns are empty. -/
structure Books (cfg : Config) (env : Environment) (n : Nat) (jobs : List Nat) (p : Parent) : Prop where
  owned : Owned cfg p.slots p.live
  live_rounds : p.live.map Child.round = jobs
  live_pids : ∀ c ∈ p.live, c.pid = env.pid c.round
  live_forked : ∀ c ∈ p.live, .forked c ∈ p.log
  free_empty : ∀ i, (∀ c ∈ p.live, c.slot ≠ i) → p.slots i = emptySlot i
  available_eq : p.slotsAvailable = cfg.concurrency - n
  filter_le : p.ipfilter.length + (jobs.map (resultSize env)).sum
    ≤ cfg.ipfilterBackup.length + ((List.range n).map (resultSize env)).sum

/-- The log ends with the collection of the child whose slot is next: its results were merged and printed
    before the slot was reset. -/
def JustCollected (p : Parent) : Prop :=
  ∃ c stats earlier, p.log = earlier ++ [.waited c, .merged stats, .printed stats, .reset c.slot] ∧
    stats.slot = c.slot ∧ stats.writer = some c.round ∧ p.nextSlot = c.slot ∧ c ∉ p.live

/-- **The parent at the label before round `r`.** -/
structure RoundInv (cfg : Config) (env : Environment) (r : Nat) (p : Parent) : Prop
    extends Books cfg env r (Pool.live cfg.concurrency env.pick r) p where
  round_eq : p.round = r
  waits_eq : p.waits = r + 1 - cfg.concurrency
  next_lt : p.nextSlot < cfg.concurrency
  next_free : ∀ c ∈ p.live, c.slot ≠ p.nextSlot
  input_eq : forkInitCalls cfg.input r = some p.input
  fresh : r < cfg.concurrency → p.nextSlot = r ∧ ∀ c, .forked c ∈ p.log → c.slot < r
  recycled : cfg.concurrency ≤ r → JustCollected p
  forked_eq : forkedRounds p.log = List.range r
  waited_eq : waitedRounds p.log = (List.range r).filterMap (Pool.collected cfg.concurrency env.pick)
  printed_eq : printedRounds p.log = (List.range r).filterMap (Pool.collected cfg.concurrency env.pick)

theorem roundInv_initial (hc : 0 < cfg.concurrency) : RoundInv cfg env 0 (.initial cfg) where
  owned := ⟨fun _ => rfl, nofun, nofun, nofun, List.nodup_nil⟩
  live_rounds := rfl
  live_pids := nofun
  live_forked := nofun
  free_empty := fun _ _ => rfl
  available_eq := rfl
  filter_le := Nat.le_refl _
  round_eq := rfl
  waits_eq := by
    show 0 = 0 + 1 - cfg.concurrency
    omega
  next_lt := hc
  next_free := nofun
  input_eq := rfl
  fresh := fun _ => ⟨rfl, nofun⟩
  recycled := fun h => absurd hc (Nat.not_lt.mpr h)
  forked_eq := rfl
  waited_eq := rfl
  printed_eq := rfl

/-- The books after the fork of child `r`. -/
theorem RoundInv.books_of_forked (h : RoundInv cfg env r p) (hpid : FreshPid env r p)
    {input : InputState} {newInput : Bool} {c : Child} (hf : ForkedFrom cfg env p input newInput c q) :
    Books cfg env (r + 1) (Pool.live cfg.concurrency env.pick r ++ [r]) q := by
  obtain ⟨s, hslot, hspid, hslots⟩ := hf.slots_eq
  have hround : c.round = r := hf.child_round.trans h.round_eq
  have hcpid : c.pid = env.pid r := by rw [hf.child_pid, h.round_eq]
  have hmem : ∀ c', c' ∈ q.live → c' ∈ p.live ∨ c' = c := by
    intro c' hc'
    rw [hf.live_eq] at hc'
    exact (List.mem_append.mp hc').imp_right List.mem_singleton.mp
  constructor
  case owned =>
    rw [hslots, hf.live_eq]
    refine h.owned.fork (fun i hi => ?_) ?_ ?_ ?_ ?_ ?_ hspid
    · rw [h.free_empty i hi]
      rfl
    · rw [hf.child_slot]
      exact h.next_lt
    · rw [hf.child_slot]
      exact h.next_free
    · rw [hcpid]
      exact hpid.1
    · intro c' hc'
      rw [hcpid]
      exact hpid.2 c' hc'
    · rw [hslot, h.owned.slot_self]
  case live_rounds => rw [hf.live_eq, List.map_append, h.live_rounds, List.map_singleton, hround]
  case live_pids =>
    intro c' hc'
    rcases hmem c' hc' with hold | rfl
    · exact h.live_pids c' hold
    · rw [hcpid, hround]
  case live_forked =>
    intro c' hc'
    rw [hf.log_eq]
    rcases hmem c' hc' with hold | rfl
    · exact List.mem_append_left _ (h.live_forked c' hold)
    · exact List.mem_append_right _ (List.mem_singleton_self _)
  case free_empty =>
    intro i hi
    rw [hf.live_eq] at hi
    have hne : i ≠ c.slot := (hi c (List.mem_append_right _ (List.mem_singleton_self _))).symm
    rw [hslots, Function.update_of_ne hne]
    exact h.free_empty i fun c' hc' => hi c' (List.mem_append_left _ hc')
  case available_eq =>
    rw [hf.available_eq, h.available_eq]
    omega
  case filter_le =>
    -- for a new input the filter starts again, which only makes it smaller
    have hle := h.filter_le
    have hlive := Pool.sum_live_le cfg.concurrency env.pick (resultSize env) r
    have hsettings := hf.child_settings
    rw [hf.ipfilter_eq, List.range_succ, List.map_append, List.map_append, List.sum_append, List.sum_append]
    cases newInput with
    | false =>
      rw [show c.ipfilter = p.ipfilter from congrArg Prod.fst hsettings]
      omega
    | true =>
      rw [show c.ipfilter = cfg.ipfilterBackup from congrArg Prod.fst hsettings]
      omega

section Provide
variable (hc₀ : 0 < cfg.concurrency) (hb : Books cfg env (r + 1) (Pool.live cfg.concurrency env.pick r ++ [r]) q)
include hc₀ hb

theorem Books.length_live : q.live.length = min r (cfg.concurrency - 1) + 1 := by
  rw [← List.length_map Child.round, hb.live_rounds, List.length_append, Pool.length_live hc₀]
  rfl

/-- When no place is free, `wait` returns the child that the pool collects. -/
theorem Books.picked (hw : q.waits = r + 1 - cfg.concurrency) (hfull : cfg.concurrency ≤ r + 1) :
    ∃ c, q.live[env.pick q.waits % q.live.length]? = some c ∧
      Pool.collected cfg.concurrency env.pick r = some c.round ∧
      Pool.live cfg.concurrency env.pick (r + 1)
        = (q.live.eraseIdx (env.pick q.waits % q.live.length)).map Child.round := by
  have hlen := hb.length_live hc₀
  have hlt : env.pick q.waits % q.live.length < q.live.length := Nat.mod_lt _ (by omega)
  have hjobs : (Pool.live cfg.concurrency env.pick r ++ [r]).length = q.live.length := by
    rw [← hb.live_rounds, List.length_map]
  have hnot : ¬ q.live.length < cfg.concurrency := by omega
  refine ⟨_, List.getElem?_eq_getElem hlt, ?_, ?_⟩
  · simp only [Pool.collected, hjobs, ← hw]
    rw [if_neg hnot, ← hb.live_rounds, List.getElem?_map, List.getElem?_eq_getElem hlt, Option.map_some]
  · simp only [Pool.live, hjobs, ← hw]
    rw [if_neg hnot, ← hb.live_rounds, List.eraseIdx_map]

/-- The books after a child was collected. -/
theorem Books.collected (hw : q.waits = r + 1 - cfg.concurrency) (hfull : cfg.concurrency ≤ r + 1) {c : Child}
    (hc : q.live[env.pick q.waits % q.live.length]? = some c) {filter : List Int}
    (hadd : skiEipfilterAddStats q.ipfilter (env.result c.round).communicationInstructions = some filter) :
    Books cfg env (r + 1) (Pool.live cfg.concurrency env.pick (r + 1)) (collectedState env q c filter) := by
  have hsub : (q.live.eraseIdx (env.pick q.waits % q.live.length)).Sublist q.live := List.eraseIdx_sublist _ _
  have hslots : (collectedState env q c filter).slots = Function.update q.slots c.slot (emptySlot c.slot) :=
    Function.update_idem _ _ _
  have hne : ∀ c' ∈ q.live.eraseIdx (env.pick q.waits % q.live.length), c'.slot ≠ c.slot :=
    fun c' hc' => hb.owned.slot_ne_of_mem_eraseIdx hc hc'
  obtain ⟨d, hd, hcoll, hlive⟩ := hb.picked hc₀ hw hfull
  obtain rfl : c = d := Option.some.inj (hc.symm.trans hd)
  constructor
  case owned =>
    rw [hslots]
    exact (hb.owned.sublist hsub).reset hne
  case live_rounds => exact hlive.symm
  case live_pids =>
    intro c' hc'
    exact hb.live_pids c' (hsub.subset hc')
  case live_forked =>
    intro c' hc'
    have hold : Event.forked c' ∈ q.log := hb.live_forked c' (hsub.subset hc')
    exact List.mem_append_left _ (List.mem_append_left _ hold)
  case free_empty =>
    intro i hi
    rw [hslots]
    by_cases hic : i = c.slot
    · subst hic
      exact Function.update_self _ _ _
    · rw [Function.update_of_ne hic]
      refine hb.free_empty i fun c' hc' heq => ?_
      -- a running child in slot `i` other than `c` is still running
      obtain ⟨n, hn⟩ := List.getElem?_of_mem hc'
      have hidx : n ≠ env.pick q.waits % q.live.length := by
        rintro rfl
        rw [hc] at hn
        exact hic (by rw [← heq, Option.some.inj hn])
      exact hi c' (List.mem_eraseIdx_iff_getElem?.mpr ⟨n, hidx, hn⟩) heq
  case available_eq => exact hb.available_eq
  case filter_le =>
    have hle := hb.filter_le
    have hlen := length_of_skiEipfilterAddStats hadd
    have hsum := Pool.sum_live_succ (resultSize env) hcoll
    show filter.length + _ ≤ _
    have hsize : resultSize env c.round = (env.result c.round).communicationInstructions.length := rfl
    omega

end Provide

section Round
variable (h : RoundInv cfg env r p) (hpid : FreshPid env r p) {input : InputState} {newInput : Bool}
  {c : Child} (hf : ForkedFrom cfg env p input newInput c q)
include h hf

theorem RoundInv.waits_of_forked : q.waits = r + 1 - cfg.concurrency := hf.waits_eq.trans h.waits_eq

theorem RoundInv.input_of_forked : forkInitCalls cfg.input (r + 1) = some q.input := by
  rw [forkInitCalls, h.input_eq, Option.bind_some, hf.forkInit, Option.map_some, hf.input_eq]

theorem RoundInv.round_of_forked : q.round + 1 = r + 1 := by
  rw [hf.round_eq, h.round_eq]

/-- The log after the fork: one child more was forked, none was collected. -/
theorem RoundInv.log_of_forked :
    forkedRounds q.log = List.range (r + 1) ∧
      waitedRounds q.log = (List.range r).filterMap (Pool.collected cfg.concurrency env.pick) ∧
      printedRounds q.log = (List.range r).filterMap (Pool.collected cfg.concurrency env.pick) := by
  rw [hf.log_eq]
  refine ⟨?_, ?_, ?_⟩
  · rw [forkedRounds_forked, h.forked_eq, hf.child_round, h.round_eq, List.range_succ]
  · rw [waitedRounds_forked, h.waited_eq]
  · rw [printedRounds_forked, h.printed_eq]

include hpid

/-- The next round when the child `d` was collected: its slot is next. -/
theorem RoundInv.collected (hfull : cfg.concurrency ≤ r + 1) {d : Child}
    (hd : q.live[env.pick q.waits % q.live.length]? = some d)
    (hcoll : Pool.collected cfg.concurrency env.pick r = some d.round) {filter : List Int}
    (hadd : skiEipfilterAddStats q.ipfilter (env.result d.round).communicationInstructions = some filter) :
    RoundInv cfg env (r + 1)
      { collectedState env q d filter with round := (collectedState env q d filter).round + 1 } := by
  have hc₀ : 0 < cfg.concurrency := Nat.zero_lt_of_lt h.next_lt
  have hb := h.books_of_forked hpid hf
  have hw := h.waits_of_forked hf
  have hround := h.round_of_forked hf
  have hinput := h.input_of_forked hf
  obtain ⟨hforked, hwaited, hprinted⟩ := h.log_of_forked hf
  have hb' := hb.collected hc₀ hw hfull hd hadd
  have hgone : ∀ c' ∈ q.live.eraseIdx (env.pick q.waits % q.live.length), c'.slot ≠ d.slot :=
    fun c' hc' => hb.owned.slot_ne_of_mem_eraseIdx hd hc'
  have hrange := Pool.filterMap_collected_succ cfg.concurrency env.pick r
  rw [hcoll, Option.toList_some] at hrange
  refine { hb' with round_eq := hround, next_free := hgone, input_eq := hinput,
                    waits_eq := ?waits, next_lt := ?next, fresh := ?fresh, recycled := ?recycled,
                    forked_eq := ?forked, waited_eq := ?waited, printed_eq := ?printed }
  case waits =>
    show q.waits + 1 = r + 1 + 1 - cfg.concurrency
    omega
  case next => exact hb.owned.slot_lt d (List.mem_of_getElem? hd)
  case fresh =>
    intro hlt
    omega
  case recycled =>
    intro _
    refine ⟨d, reapedStats env q d, q.log, ?_, hb.owned.slot_self d.slot, rfl, rfl, ?_⟩
    · show (q.log ++ _) ++ _ = _
      rw [List.append_assoc]
      rfl
    · intro hmem
      exact hgone d hmem rfl
  case forked => exact (forkedRounds_collectedState d filter).trans hforked
  case waited => rw [hrange, ← hwaited, ← waitedRounds_collectedState d filter]
  case printed => rw [hrange, ← hprinted, ← printedRounds_collectedState d filter]

/-- The next round when a slot is left that was never used. -/
theorem RoundInv.fresh_next (hfull : ¬ cfg.concurrency ≤ r + 1) :
    RoundInv cfg env (r + 1) { q with nextSlot := r + 1, self := r + 1, round := q.round + 1 } := by
  have hc₀ : 0 < cfg.concurrency := Nat.zero_lt_of_lt h.next_lt
  have hb := h.books_of_forked hpid hf
  rw [← Pool.live_succ_eq_append hc₀ hfull] at hb
  have hround := h.round_of_forked hf
  have hinput := h.input_of_forked hf
  obtain ⟨hforked, hwaited, hprinted⟩ := h.log_of_forked hf
  obtain ⟨hnext, hused⟩ := h.fresh (by omega)
  have hslot : c.slot = r := hf.child_slot.trans hnext
  have hbelow : ∀ c', .forked c' ∈ q.log → c'.slot < r + 1 := by
    intro c' hc'
    rw [hf.log_eq] at hc'
    rcases List.mem_append.mp hc' with h' | h'
    · exact Nat.lt_succ_of_lt (hused c' h')
    · cases List.mem_singleton.mp h'
      omega
  have hrange := Pool.filterMap_collected_succ cfg.concurrency env.pick r
  rw [Pool.collected_eq_none hc₀ hfull, Option.toList_none, List.append_nil] at hrange
  refine { hb with round_eq := hround, input_eq := hinput, forked_eq := hforked,
                   waited_eq := hwaited.trans hrange.symm, printed_eq := hprinted.trans hrange.symm,
                   waits_eq := ?waits, next_lt := ?next, next_free := ?free, fresh := ?fresh,
                   recycled := ?recycled }
  case waits =>
    show q.waits = r + 1 + 1 - cfg.concurrency
    rw [h.waits_of_forked hf]
    omega
  case next =>
    show r + 1 < cfg.concurrency
    omega
  case free =>
    intro c' hc'
    exact Nat.ne_of_lt (hbelow c' (hb.live_forked c' hc'))
  case fresh =>
    intro _
    exact ⟨rfl, hbelow⟩
  case recycled =>
    intro hge
    omega

end Round

/-- A fork that went through has found the next point of the input space. -/
theorem forkInit_of_forkallDoFork (hq : forkallDoFork cfg env p = .ok q) :
    ∃ input newInput, skiInputForkInit p.input = some (input, newInput) := by
  obtain ⟨p₁, hset, hrest⟩ := exists_of_bind_eq_ok hq
  have hin : p₁.input = p.input := by
    unfold skiStatsSetSelfSlot at hset
    split_ifs at hset
    cases hset
    rfl
  cases hcall : skiInputForkInit p.input with
  | none =>
    simp only [hin, hcall] at hrest
    cases hrest
  | some next => exact ⟨next.1, next.2, rfl⟩

/-- **A round**: the fork, then the next slot. It fails only where `provideSlot` or the end of the parent
    make it fail. -/
theorem RoundInv.forkallRound_eq (h : RoundInv cfg env r p) {input : InputState} {newInput : Bool}
    (hin : skiInputForkInit p.input = some (input, newInput)) :
    ∃ c q, ForkedFrom cfg env p input newInput c q ∧
      forkallRound cfg env p = provideSlot cfg env q >>= finishRound cfg env := by
  obtain ⟨c, q, hok, hf⟩ := forkallDoFork_eq env h.next_lt (h.owned.slot_self _) hin
  refine ⟨c, _, hf, ?_⟩
  unfold forkallRound skiForkallParentWait
  rw [hok]
  rfl

/-- What the parent learns from the child it collects, if it collects one: the filter and `k` after it. -/
def learnFrom (env : Environment) : Option Nat → List Int × Int → Option (List Int × Int)
  | none, s => some s
  | some j, s =>
    (skiEipfilterAddStats s.1 (env.result j).communicationInstructions).map fun filter =>
      (filter, learnK s.2 (env.result j).preemptionPointsExecuted)

/-- The log after the parent, in state `q` after a fork, has collected a child or none. -/
def LogsCollection (env : Environment) (q : Parent) (log : List Event) : Option Nat → Prop
  | none => log = q.log
  | some j => ∃ d, d.round = j ∧ log = q.log ++
      [.waited d, .merged (reapedStats env q d), .printed (reapedStats env q d), .reset d.slot]

theorem logsCollection_collectedState (env : Environment) (q : Parent) (d : Child) (filter : List Int) :
    LogsCollection env q (collectedState env q d filter).log (some d.round) :=
  ⟨d, rfl, List.append_assoc q.log _ _⟩

/-- **The slot for the next child**: a child is collected, or a slot never used is taken. After normal ends
    of the children only a full filter prevents it. -/
theorem RoundInv.provideSlot_cases (h : RoundInv cfg env r p) (hpid : FreshPid env r p) {input : InputState}
    {newInput : Bool} {c : Child} (hf : ForkedFrom cfg env p input newInput c q) :
    (∃ q', provideSlot cfg env q = .ok q' ∧ RoundInv cfg env (r + 1) { q' with round := q'.round + 1 } ∧
      learnFrom env (Pool.collected cfg.concurrency env.pick r) (q.ipfilter, q.k) = some (q'.ipfilter, q'.k) ∧
      LogsCollection env q q'.log (Pool.collected cfg.concurrency env.pick r)) ∨
    ∃ e, provideSlot cfg env q = .error e ∧ ((∀ r, NormalExit (env.status r)) → e.code = none ∧
      maxIpfilterHash < cfg.ipfilterBackup.length + ((List.range (r + 1)).map (resultSize env)).sum) := by
  have hc₀ : 0 < cfg.concurrency := Nat.zero_lt_of_lt h.next_lt
  have hb := h.books_of_forked hpid hf
  unfold provideSlot
  by_cases hfull : cfg.concurrency ≤ r + 1
  · rw [if_pos (by rw [hb.available_eq]; omega)]
    obtain ⟨d, hd, hcoll, -⟩ := hb.picked hc₀ (h.waits_of_forked hf) hfull
    rcases collectChild_cases hb.owned hd with ⟨filter, hadd, heq⟩ | ⟨e, heq, hnormal⟩
    · refine .inl ⟨_, heq, h.collected hpid hf hfull hd hcoll hadd, ?_, ?_⟩
      · rw [hcoll, learnFrom, hadd]
        rfl
      · rw [hcoll]
        exact logsCollection_collectedState env q d filter
    · refine .inr ⟨e, heq, ?_⟩
      intro hn
      obtain ⟨hnone, hadd⟩ := hnormal (hn d.round)
      have hle := hb.filter_le
      have hsum := Pool.sum_live_succ (resultSize env) hcoll
      have hsize : resultSize env d.round = (env.result d.round).communicationInstructions.length := rfl
      have hlt := lt_of_skiEipfilterAddStats_eq_none hadd
      exact ⟨hnone, by omega⟩
  · rw [if_neg (by rw [hb.available_eq]; omega)]
    obtain ⟨hnext, -⟩ := h.fresh (by omega)
    have hset : skiStatsSetSelfSlot cfg { q with nextSlot := q.nextSlot + 1 } (q.nextSlot + 1)
        = .ok { q with nextSlot := r + 1, self := r + 1 } := by
      rw [hf.next_eq, hnext]
      exact if_pos ⟨by omega, hb.owned.slot_self _⟩
    have hinv := h.fresh_next hpid hf hfull
    refine .inl ⟨_, hset, hinv, ?_⟩
    rw [Pool.collected_eq_none hc₀ hfull]
    exact ⟨rfl, rfl⟩

/-- **Step lemma**: a round that returns to the label forks a child, learns from the child it collects and
    keeps the invariant. -/
theorem RoundInv.step (h : RoundInv cfg env r p) (hpid : FreshPid env r p) {p' : Parent}
    (hok : forkallRound cfg env p = .ok p') :
    RoundInv cfg env (r + 1) p' ∧ ∃ input newInput c q, ForkedFrom cfg env p input newInput c q ∧
      learnFrom env (Pool.collected cfg.concurrency env.pick r) (q.ipfilter, q.k) = some (p'.ipfilter, p'.k) ∧
      LogsCollection env q p'.log (Pool.collected cfg.concurrency env.pick r) := by
  obtain ⟨_, hfork, -⟩ := exists_of_bind_eq_ok hok
  obtain ⟨input, newInput, hin⟩ := forkInit_of_forkallDoFork hfork
  obtain ⟨c, q, hf, hround⟩ := h.forkallRound_eq hin
  rw [hround] at hok
  obtain ⟨q₁, hq₁, hfinish⟩ := exists_of_bind_eq_ok hok
  rcases h.provideSlot_cases hpid hf with ⟨q', hq', hinv, hlearn⟩ | ⟨e, he, -⟩
  · obtain rfl : q' = q₁ := Except.ok.inj (hq'.symm.trans hq₁)
    unfold finishRound at hfinish
    simp only at hfinish
    split_ifs at hfinish
    · -- after the last round the parent exits
      obtain ⟨_, -, hexit⟩ := exists_of_bind_eq_ok hfinish
      cases hexit
    · cases hfinish
      exact ⟨hinv, input, newInput, c, q, hf, hlearn⟩
  · rw [he] at hq₁
    cases hq₁

/-- **Run lemma**: the invariant holds whenever the parent is at the label. -/
theorem parentAt_roundInv (hc : 0 < cfg.concurrency)
    (hpid : ∀ r p, parentAt cfg env r = .ok p → RoundInv cfg env r p → FreshPid env r p)
    (hok : parentAt cfg env r = .ok p) : RoundInv cfg env r p := by
  induction r generalizing p with
  | zero =>
    obtain rfl := Except.ok.inj hok
    exact roundInv_initial hc
  | succ r ih =>
    obtain ⟨p₀, hp₀, hround⟩ := exists_of_bind_eq_ok hok
    exact ((ih hp₀).step (hpid r p₀ hp₀ (ih hp₀)) hround).1

/-- `fork` never returns the pid of a child that still runs. -/
def PidsDistinct (cfg : Config) (env : Environment) : Prop :=
  ∀ r p, parentAt cfg env r = .ok p → FreshPid env r p

/-- Pids that are never used again are such pids. -/
theorem pidsDistinct_of_injective (hc : 0 < cfg.concurrency) (hpos : ∀ r, 0 < env.pid r)
    (hinj : Function.Injective env.pid) : PidsDistinct cfg env := by
  have hfresh : ∀ r p, RoundInv cfg env r p → FreshPid env r p := by
    intro r p h
    refine ⟨hpos r, ?_⟩
    intro c hcl heq
    rw [h.live_pids c hcl] at heq
    have hmem : c.round ∈ Pool.live cfg.concurrency env.pick r := by
      rw [← h.live_rounds]
      exact List.mem_map_of_mem hcl
    exact absurd (hinj heq) (Nat.ne_of_lt (Pool.lt_of_mem_live hmem))
  intro r p hok
  exact hfresh r p (parentAt_roundInv hc (fun r p _ h => hfresh r p h) hok)

/-! ## Slots never collide -/

/-- **Slots at every fork.** The children running with the new child `c` own distinct slots below the
    concurrency, there are at most that many of them, and the slot of `c` was never used before or is that of
    the child just collected, whose results were merged and printed before the slot was reset. -/
theorem forkallDoFork_slots (hc : 0 < cfg.concurrency) (hpids : PidsDistinct cfg env)
    (hp : parentAt cfg env r = .ok p) (hq : forkallDoFork cfg env p = .ok q) :
    ∃ c, c.round = r ∧ q.live = p.live ++ [c] ∧ (q.live.map Child.slot).Nodup ∧
      (∀ c' ∈ q.live, c'.slot < cfg.concurrency) ∧ q.live.length ≤ cfg.concurrency ∧
      ((∀ c', .forked c' ∈ p.log → c'.slot ≠ c.slot) ∨
        (JustCollected p ∧ c.slot = p.nextSlot ∧ p.slots c.slot = emptySlot c.slot)) := by
  have h : RoundInv cfg env r p := parentAt_roundInv hc (fun r p hp _ => hpids r p hp) hp
  have hpid := hpids r p hp
  obtain ⟨input, newInput, hin⟩ := forkInit_of_forkallDoFork hq
  obtain ⟨c, q₀, hok, hf⟩ := forkallDoFork_eq env h.next_lt (h.owned.slot_self _) hin
  obtain rfl : q₀ = q := Except.ok.inj (hok.symm.trans hq)
  have hb := h.books_of_forked hpid hf
  have hlen := hb.length_live hc
  refine ⟨c, hf.child_round.trans h.round_eq, hf.live_eq, hb.owned.slots_nodup, hb.owned.slot_lt, ?_, ?_⟩
  · show (noteChild q₀ (env.pid q₀.round)).live.length ≤ cfg.concurrency
    omega
  · by_cases hr : r < cfg.concurrency
    · refine .inl ?_
      intro c' hc'
      obtain ⟨hnext, hused⟩ := h.fresh hr
      rw [hf.child_slot, hnext]
      exact Nat.ne_of_lt (hused c' hc')
    · refine .inr ⟨h.recycled (Nat.not_lt.mp hr), hf.child_slot, ?_⟩
      rw [hf.child_slot]
      exact h.free_empty _ h.next_free

/-- Pids counted up from 1. -/
theorem pidsDistinct_of_counting (hc : 0 < cfg.concurrency) (hpid : ∀ r, env.pid r = r + 1) :
    PidsDistinct cfg env := by
  apply pidsDistinct_of_injective hc
  · intro r
    rw [hpid]
    omega
  · intro r r' heq
    rw [hpid, hpid] at heq
    omega

/-- A small set-up over `twoByTwo` with an empty filter file. -/
def quietConfig (concurrency rounds : Nat) : Config where
  concurrency := concurrency
  rounds := rounds
  kInitial := 100
  ipfilterBackup := []
  input := twoByTwo

/-- Children that report nothing, end with code 1 and are collected oldest first. -/
def quietEnv : Environment where
  pid := fun r => r + 1
  pick := fun _ => 0
  status := fun _ => .exited 1
  result := fun _ => ⟨[], 0⟩

/-- With two slots, the third child gets the slot of the first one, just collected. -/
theorem forkallDoFork_slots_third :
    ∃ p q, parentAt (quietConfig 2 4) quietEnv 2 = .ok p ∧ forkallDoFork (quietConfig 2 4) quietEnv p = .ok q ∧
      (q.live.map Child.slot).Nodup ∧ q.live.length ≤ 2 ∧ q.live.map Child.slot = [1, 0] := by
  obtain ⟨p, hp⟩ : ∃ p, parentAt (quietConfig 2 4) quietEnv 2 = .ok p := ⟨_, rfl⟩
  obtain ⟨q, hq⟩ : ∃ q, forkallDoFork (quietConfig 2 4) quietEnv p = .ok q := by
    cases hp
    exact ⟨_, rfl⟩
  obtain ⟨c, -, -, hnodup, -, hlen, -⟩ :=
    forkallDoFork_slots (by decide) (pidsDistinct_of_counting (by decide) fun _ => rfl) hp hq
  refine ⟨p, q, hp, hq, hnodup, hlen, ?_⟩
  cases hp
  cases hq
  rfl

end SkiVmm.Forkall
