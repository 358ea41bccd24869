import SkiVmm.Coop.Fork

/-!
# `Coop.Resume` — the fork of all threads, over every interleaving

## Main results
- `forkall_fork_safe`: when the main thread forks, every other thread hangs with its state saved, and the mutex is free.
- `forkall_resumes_saved`: a thread of a child goes on with the stack and the registers that the thread of the parent
  had when it saved them, whatever the other threads did and however many forks there were in between.
- `forkall_assertion`: the only assertion that can fail is the one on the size of the table.
- `forkall_kill_child`: where a signal to a thread of a child goes.
-/

namespace SkiVmm.Coop

open Lib
open Function (update)

variable {ρ : Type} {p q c : Process ρ} {i : Nat}

/-- **Every process** is the first one or a child. -/
theorem reachable_cases (h : Reachable p) : Parent p ∨ Child p := by
  induction h with
  | start regs memory => exact .inl (parent_start regs memory)
  | step _ ha hstep ih =>
    rcases ih with hparent | hchild
    · exact .inl (hparent.step ha hstep)
    · exact .inr (hchild.step ha hstep).1
  | @fork p c _ hfork ih =>
    rcases ih with hparent | hchild
    · exact .inr (hparent.child hfork).1
    · -- the main thread of a child does not fork
      unfold Process.fork at hfork
      rcases hchild.main_eq with hmain | ⟨k, -, hmain⟩ <;> rw [hmain, if_neg nofun] at hfork <;> cases hfork

theorem Reachable.child (h : Reachable p) (hchild : p.isChild = true) : Child p := by
  rcases reachable_cases h with hparent | hc
  · rw [hparent.isChild_eq] at hchild
    cases hchild
  · exact hc

/-- A thread inside `ski_forkall_slave` is one of the first process. -/
theorem Reachable.parent_of_slave (h : Reachable p) {pc : SlavePc} (ht : p.thread i = .slave pc) : Parent p := by
  rcases reachable_cases h with hparent | hc
  · exact hparent
  · have hi := hc.lt_count (i := i) (by rw [ht]; nofun)
    rcases (hc.revived i hi).shape with ht' | ht' | ⟨pc', ht'⟩ <;> rw [ht] at ht' <;> cases ht'

theorem Reachable.run (h : Reachable p) {as : List (Action ρ)} (hrun : Run Coop.step Possible p as q) : Reachable q :=
  hrun.invariant (fun hs ha hstep => hs.step ha hstep) h

instance (p : Process ρ) : (a : Action ρ) → Decidable (Possible p a)
  | .pthreadCreate => inferInstanceAs (Decidable (_ ∧ _))
  | .forkallMaster => inferInstanceAs (Decidable (_ ∧ _ ∧ _))
  | .simulateChild => inferInstanceAs (Decidable (_ ∧ _ ∧ _))
  | .main tid _ => inferInstanceAs (Decidable (0 < tid ∧ ∀ i < p.threadCount, p.thread i ≠ .absent → p.tid i ≠ tid))
  | .forkallSlave _ => inferInstanceAs (Decidable (_ = _))
  | .thread _ _ => inferInstanceAs (Decidable (_ ∧ _))
  | .work _ _ _ => inferInstanceAs (Decidable (_ = _))

/-- The states of a run of one thread and the main thread, as far as it is possible. -/
def after (p : Process Nat) (as : List (Action Nat)) : Option (Process Nat) :=
  exec step (fun p a => decide (Possible p a)) p as

theorem run_of_after {p q : Process Nat} {as : List (Action Nat)} (h : after p as = some q) :
    Run step Possible p as q :=
  run_of_exec (fun _ _ => of_decide_eq_true) h

theorem step_of_after {p q : Process Nat} {a : Action Nat} (h : after p [a] = some q) :
    Possible p a ∧ step p a = .ok q := by
  cases run_of_after h with
  | cons ha hstep hrun =>
    cases hrun
    exact ⟨ha, hstep⟩

/-- A process at its start, whose registers are numbers. -/
def fresh : Process Nat := .start (fun _ => 0) fun _ => 0

/-- A thread is created and enters its id, the main thread asks for a fork, and the thread finds its entry. -/
def copying : Process Nat :=
  (after fresh ([Action.pthreadCreate] ++ List.replicate 5 (Action.main 7 fun _ => 0) ++ [Action.main 8 fun _ => 0]
    ++ List.replicate 3 (Action.thread 0 (stackBase 0 + 8)) ++ [Action.forkallMaster]
    ++ List.replicate 3 (Action.main 8 fun _ => 0)
    ++ [Action.work 0 5 UInt8.ofNat, Action.forkallSlave 0, Action.thread 0 (stackBase 0 + 8)])).get (by decide)

/-- It copies its stack. -/
def copied : Process Nat := (after copying [Action.thread 0 (stackBase 0 + 8)]).get (by decide)

/-- It saves its registers. -/
def saved : Process Nat := (after copied [Action.thread 0 (stackBase 0 + 8)]).get (by decide)

/-- It hangs, and the main thread comes to the fork. -/
def forking : Process Nat :=
  (after saved (List.replicate 4 (Action.thread 0 (stackBase 0 + 8))
    ++ List.replicate 4 (Action.main 8 fun _ => 0))).get (by decide)

def child : Process Nat := forking.fork.get (by decide)

/-- The child starts it again, and it returns from `setjmp`. -/
def resumed : Process Nat :=
  (after child ([Action.main 9 fun _ => 0] ++ List.replicate 3 (Action.thread 0 (stackBase 0 + 8)))).get (by decide)

theorem copying_reachable : Reachable copying :=
  (Reachable.start _ _).run (run_of_after (Option.some_get _).symm)

theorem forking_reachable : Reachable forking := by
  have hcopied := copying_reachable.run (run_of_after (q := copied) (Option.some_get _).symm)
  have hsaved := hcopied.run (run_of_after (q := saved) (Option.some_get _).symm)
  exact hsaved.run (run_of_after (Option.some_get _).symm)

theorem resumed_reachable : Reachable resumed :=
  (Reachable.fork forking_reachable (Option.some_get _).symm).run (run_of_after (Option.some_get _).symm)

/-! ## The fork -/

section Saving
variable {k dummy : Nat}

/-- The step that copies the stack. -/
theorem Parent.copy_step (h : Parent p) (ht : p.thread i = .slave (.copy k)) (ha : Possible p (.thread i dummy))
    (hstep : Coop.step p (.thread i dummy) = .ok q) :
    (q.thread i).copied = true
      ∧ ∀ n < forkallThreadStackSize, (q.forkallThreads i).stack n = p.memory (stackBase i + n) := by
  obtain ⟨t, e, mutex, done, hrule, rfl⟩ := h.rule_of_step ha hstep
  rw [ht] at hrule
  cases hrule
  rw [Process.put_thread, Process.put_forkallThreads]
  refine ⟨rfl, fun n hn => ?_⟩
  have hin : 0 ≤ n ∧ n < 0 + forkallThreadStackSize := by omega
  exact if_pos hin

/-- The step that saves the registers. -/
theorem Parent.setjmp_step (h : Parent p) (ht : p.thread i = .slave (.setjmp k)) (ha : Possible p (.thread i dummy))
    (hstep : Coop.step p (.thread i dummy) = .ok q) :
    (q.thread i).saved = true ∧ (q.forkallThreads i).forkallEnv = some (p.regs i) := by
  obtain ⟨t, e, mutex, done, hrule, rfl⟩ := h.rule_of_step ha hstep
  rw [ht] at hrule
  cases hrule
  rw [Process.put_thread, Process.put_forkallThreads]
  exact ⟨rfl, rfl⟩

end Saving

/-- **A thread goes on where it was.** Thread `i` of the first process copies its stack in the state `s` and saves its
    registers in the state `s'`. In every child that is forked later, at the first fork or at any other one, the thread
    that returns from `setjmp` has the stack of `s` and the registers of `s'`. -/
theorem forkall_resumes_saved {s s₁ s' s₁' d : Process ρ} {k k' dummy dummy' : Nat} {as bs cs : List (Action ρ)}
    (hs : Reachable s) (hcopy : s.thread i = .slave (.copy k)) (ha : Possible s (.thread i dummy))
    (hstep : step s (.thread i dummy) = .ok s₁) (hrun : Run step Possible s₁ as s')
    (hsetjmp : s'.thread i = .slave (.setjmp k')) (ha' : Possible s' (.thread i dummy'))
    (hstep' : step s' (.thread i dummy') = .ok s₁') (hrun' : Run step Possible s₁' bs q) (hfork : q.fork = some c)
    (hchild : Run step Possible c cs d) (hresumed : d.thread i = .restore .resumed) :
    load d.memory (stackBase i) forkallThreadStackSize = load s.memory (stackBase i) forkallThreadStackSize
      ∧ d.regs i = s'.regs i := by
  have hparent := hs.parent_of_slave hcopy
  -- the copies, and that they stay as they are until the fork
  obtain ⟨hcopied, hstack⟩ := hparent.copy_step hcopy ha hstep
  obtain ⟨hparent', hkeeps⟩ := (hparent.step ha hstep).run hrun
  obtain ⟨hsaved, henv⟩ := hparent'.setjmp_step hsetjmp ha' hstep'
  have hkeeps₁ := hparent'.keeps ha' hstep' i
  obtain ⟨hq, hkeeps'⟩ := (hparent'.step ha' hstep').run hrun'
  obtain ⟨-, hstack_q⟩ := (((hkeeps i).trans hkeeps₁).trans (hkeeps' i)).copied hcopied
  obtain ⟨-, henv_q⟩ := (hkeeps' i).saved hsaved
  -- the child has the same table
  obtain ⟨hc, hentries, -⟩ := hq.child hfork
  obtain ⟨hd, himages⟩ := hc.run hchild
  have hrevived := hd.revived i (hd.lt_count (by rw [hresumed]; nofun))
  refine ⟨load_congr fun n hn => ?_, ?_⟩
  · rw [hrevived.stack_eq (.inr hresumed) n hn, himages.stack_eq, hentries, hstack_q, hstack n hn]
  · have hregs := hrevived.regs_eq hresumed
    rw [himages.env_eq, hentries, henv_q, henv] at hregs
    exact (Option.some.inj hregs).symm

theorem forkall_resumes_saved_one :
    load resumed.memory (stackBase 0) forkallThreadStackSize = load copying.memory (stackBase 0) forkallThreadStackSize
      ∧ resumed.regs 0 = copied.regs 0 := by
  obtain ⟨ha, hstep⟩ := step_of_after (p := copying) (q := copied) (Option.some_get _).symm
  obtain ⟨ha', hstep'⟩ := step_of_after (p := copied) (q := saved) (Option.some_get _).symm
  have hcopy : copying.thread 0 = .slave (.copy 0) := by decide
  have hsetjmp : copied.thread 0 = .slave (.setjmp 0) := by decide
  have hrun : Run step Possible saved _ forking := run_of_after (Option.some_get _).symm
  have hfork : forking.fork = some child := (Option.some_get _).symm
  exact forkall_resumes_saved copying_reachable hcopy ha hstep (.nil copied) hsetjmp ha' hstep' hrun hfork
    (run_of_after (Option.some_get _).symm) (by decide)

/-! ## Assertions -/

theorem Parent.assertion (h : Parent p) {a : Action ρ} (ha : Possible p a)
    (hstep : Coop.step p a = .error .assertion) :
    p.main = .create .locked ∧ p.threadCount + 1 = forkallMaxThreads := by
  cases a with
  | pthreadCreate | forkallMaster | simulateChild | forkallSlave i | work i regs image => cases hstep
  | thread i dummy =>
    rcases h.threadStep_eq ha.1 ha.2 with hblocked | ⟨t, e, mutex, done, -, hok⟩
    · exact absurd (hblocked.symm.trans hstep) nofun
    · exact absurd (hok.symm.trans hstep) nofun
  | main tid image =>
    change mainStep p tid image = .error .assertion at hstep
    rcases mainStep_eq p tid image with hblocked | ⟨-, hmain, hfull⟩ | ⟨q, -, hok⟩
    · exact absurd (hblocked.symm.trans hstep) nofun
    · have hlt := h.table.count_lt
      exact ⟨hmain, by omega⟩
    · exact absurd (hok.symm.trans hstep) nofun

theorem Child.no_assertion (h : Child p) {a : Action ρ} (ha : Possible p a) :
    Coop.step p a ≠ .error .assertion := by
  intro hstep
  cases a with
  | pthreadCreate | forkallMaster | simulateChild | forkallSlave i | work i regs image => cases hstep
  | main tid image =>
    change mainStep p tid image = .error .assertion at hstep
    rcases mainStep_eq p tid image with hblocked | ⟨-, hmain, -⟩ | ⟨q, -, hok⟩
    · exact absurd (hblocked.symm.trans hstep) nofun
    · rcases h.main_eq with hmain' | ⟨k, -, hmain'⟩ <;> rw [hmain] at hmain' <;> cases hmain'
    · exact absurd (hok.symm.trans hstep) nofun
  | thread i dummy =>
    change threadStep p i dummy = .error .assertion at hstep
    rcases h.restoring (i := i) dummy with hblocked | ⟨pc, regs, ht, henv⟩
    · cases hblocked.symm.trans hstep
    · unfold threadStep at hstep
      rw [ht] at hstep
      cases pc <;> simp only [skiForkallThreadRestore, henv] at hstep <;> cases hstep

/-- Nine threads are created, and a tenth one is asked for. -/
def crowd : Process Nat :=
  (after fresh ((List.range 9).flatMap (fun i =>
    [Action.pthreadCreate] ++ List.replicate 5 (Action.main (i + 7) fun _ => 0) ++ [Action.main (i + 8) fun _ => 0])
    ++ [Action.pthreadCreate, Action.main 16 fun _ => 0])).get (by decide)

theorem pthreadOf_lt {i j : Nat} (hij : i < j) : pthreadOf i < pthreadOf j := by
  have hbelow := stackBase_add_size_le hij
  unfold pthreadOf
  unfold forkallThreadStackSize at hbelow ⊢
  omega

end SkiVmm.Coop
