import SkiVmm.Sched.Reach
import SkiVmm.Sched.Selection

/-!
# `Sched.Reevaluate` — whether a change of the selection is noticed

A thread keeps its CPU until it leaves `cpu_exec`. `ski_threads_need_reevaluate` makes it leave at the next block, and
each routine that changes the state of the scheduler has to set it when another thread comes first (`Noticed`).

`noticed_iff` says for every routine when that is so. All of them set the flag when they change the selection, up to
two cases:

* `ski_handle_new_irq_set` never sets it, so a request for an interrupt that comes first is not noticed
  (`request_not_noticed`);
* the end of a handler that is not one of a hardware interrupt does not set it, although it lowers the counter that
  `ski_interrupts_is_top_hw_stack` reads behind the end of the stack.
-/

namespace SkiVmm.Sched

open Lib

/-! ## Operations -/

/-- The routines that change the state of the scheduler. -/
inductive SchedOp where
  | newIrqSet (cpuNo : Nat) (vectorNum : Int)
  | interruptBegin (cpuNo : Nat) (intNo : Int) (isIntInstruction isHw : Bool)
  | interruptEnd (cpuNo : Nat)
  | selfWaitRs (cpuNo : Nat) (isPause : Bool)
  | allWakeRs (memAddress : Int)
  | selfWaitHlt (cpuNo : Nat)
  | invertPriority
  | adjustPriorityCurrent
  deriving DecidableEq

def SchedOp.apply (s : State) : SchedOp → Except SkiExit State
  | .newIrqSet cpuNo vectorNum => skiHandleNewIrqSet s cpuNo vectorNum
  | .interruptBegin cpuNo intNo isIntInstruction isHw => skiHandleInterruptBegin s cpuNo intNo isIntInstruction isHw
  | .interruptEnd cpuNo => skiHandleInterruptEnd s cpuNo
  | .selfWaitRs cpuNo isPause => skiThreadsSelfWaitRs s cpuNo isPause
  | .allWakeRs memAddress => skiThreadsAllWakeRs s memAddress
  | .selfWaitHlt cpuNo => skiThreadsSelfWaitHlt s cpuNo
  | .invertPriority => skiThreadsInvertPriority s
  | .adjustPriorityCurrent => (skiThreadsAdjustPriorityCurrent s).map (·.1)

/-- A selection other than the current thread is flagged. -/
def Noticed (s : State) : Prop :=
  ∀ tc, skiThreadsFindNextRunnable s = .ok tc → s.current ≠ some tc.id → s.needReevaluate = true

/-- The selection is the current thread. -/
def Stays (s : State) : Prop := ∀ tc, skiThreadsFindNextRunnable s = .ok tc → s.current = some tc.id

theorem noticed_iff_stays (s : State) : Noticed s ↔ s.needReevaluate = true ∨ Stays s := by
  unfold Noticed Stays
  constructor
  · intro h
    by_cases hflag : s.needReevaluate = true
    · exact .inl hflag
    · refine .inr fun tc htc => ?_
      by_contra hne
      exact hflag (h tc htc hne)
  · rintro (hflag | hstays) tc htc hne
    · exact hflag
    · exact absurd (hstays tc htc) hne

/-- The operation sets the flag in this state. -/
def SchedOp.raises (s : State) : SchedOp → Bool
  | .newIrqSet _ _ => false
  | .interruptEnd cpuNo => (s.cpu cpuNo).interruptsStackNo > 0 && (topEntry (s.cpu cpuNo)).isHw
  | .allWakeRs memAddress => s.threads.any (wokenBy memAddress)
  | .adjustPriorityCurrent => s.instructionsCurrent ≥ 0 && s.instructionsCurrent % schedAdjustModulo = 0
  | _ => true

/-- The thread would be selected if it was spawned. -/
def Overtakes (s : State) (tc : ThreadContext) : Prop :=
  (eligible s tc.spawned = true ∧ ∀ b ∈ s.threads, eligible s b = true → Before s tc.spawned b) ∧
    skiThreadsCalculatePriority s tc.spawned ≤ livenessPriorityNopauseLoop

/-- An operation that does not set the flag leaves the current thread selected. -/
def SchedOp.Keeps (s : State) : SchedOp → Prop
  | .newIrqSet cpuNo vectorNum =>
    match spawnedBy s cpuNo vectorNum with
    | none => Stays s
    | some tc => (Overtakes s tc ∧ s.current = some tc.id) ∨ (¬Overtakes s tc ∧ Stays s)
  | .interruptEnd cpuNo => if (s.cpu cpuNo).interruptsStackNo > 0 then Stays (lowered s cpuNo) else Stays s
  | _ => Stays s

/-! ## Requests -/

section Requests
variable {s t : State} {tc r : ThreadContext}

theorem mem_spawn_iff (hs : Sane s) (hmem : tc ∈ s.threads) :
    r ∈ (s.modifyThread tc.id ThreadContext.spawned).threads ↔
      r = tc.spawned ∨ (r ∈ s.threads ∧ r.id ≠ tc.id) := by
  have hid := hs.handlers_ok.getElem?_id hmem
  have hlt : tc.id < s.threads.length := (List.getElem?_eq_some_iff.mp hid).1
  unfold State.modifyThread
  rw [modify_eq_set hid]
  constructor
  · intro hr
    obtain ⟨i, hi⟩ := List.mem_iff_getElem?.mp hr
    rw [List.getElem?_set] at hi
    split_ifs at hi with heq
    · exact .inl (Option.some.inj hi).symm
    · refine .inr ⟨List.mem_of_getElem? hi, ?_⟩
      rw [hs.handlers_ok.shapes_ok.id_eq i r.shape (shapes_getElem? hi) |> fun h : r.id = i => h]
      exact fun h => heq h.symm
  · rintro (rfl | ⟨hr, hne⟩)
    · exact List.mem_set hlt _
    · have hrid := hs.handlers_ok.getElem?_id hr
      refine List.mem_of_getElem? (i := r.id) ?_
      rw [List.getElem?_set_ne (Ne.symm hne), hrid]

/-- A thread that was not there is spawned, and comes first or does not. -/
theorem findNextRunnable_spawn_iff (hs : Sane s) (hmem : tc ∈ s.threads) (habsent : tc.present = false)
    (ht : Sane (s.modifyThread tc.id ThreadContext.spawned)) :
    skiThreadsFindNextRunnable (s.modifyThread tc.id ThreadContext.spawned) = .ok r ↔
      (Overtakes s tc ∧ r = tc.spawned) ∨ (¬Overtakes s tc ∧ skiThreadsFindNextRunnable s = .ok r) := by
  -- neither the order nor the eligibility of a thread depends on the table
  have helig (b : ThreadContext) : eligible (s.modifyThread tc.id ThreadContext.spawned) b = eligible s b := rfl
  have hbefore (a b : ThreadContext) : Before (s.modifyThread tc.id ThreadContext.spawned) a b ↔ Before s a b := .rfl
  have hprio (b : ThreadContext) : skiThreadsCalculatePriority (s.modifyThread tc.id ThreadContext.spawned) b =
      skiThreadsCalculatePriority s b := rfl
  have hold {b : ThreadContext} (hb : b ∈ s.threads) (hbe : eligible s b = true) : b.id ≠ tc.id := by
    intro heq
    have hbt : b = tc := by
      have h₁ := hs.handlers_ok.getElem?_id hb
      rw [heq, hs.handlers_ok.getElem?_id hmem] at h₁
      exact (Option.some.inj h₁).symm
    rw [hbt] at hbe
    simp [eligible, habsent] at hbe
  rw [ht.findNextRunnable_iff, hs.findNextRunnable_iff]
  simp only [helig, hbefore, hprio, mem_spawn_iff hs hmem, forall_eq_or_imp]
  constructor
  · rintro ⟨⟨hr, hre, hnew, hall⟩, hlimit⟩
    have hbest (b : ThreadContext) (hb : b ∈ s.threads) (hbe : eligible s b = true) : Before s r b :=
      hall b ⟨hb, hold hb hbe⟩ hbe
    rcases hr with rfl | ⟨hr, hne⟩
    · exact .inl ⟨⟨⟨hre, hbest⟩, hlimit⟩, rfl⟩
    · refine .inr ⟨fun hover => hne ?_, ⟨hr, hre, hbest⟩, hlimit⟩
      exact (hnew hover.1.1).pos_eq (hover.1.2 r hr hre)
  · rintro (⟨hover, rfl⟩ | ⟨hover, ⟨hr, hre, hbest⟩, hlimit⟩)
    · exact ⟨⟨.inl rfl, hover.1.1, fun _ => Precedes.refl _, fun b hb hbe => hover.1.2 b hb.1 hbe⟩, hover.2⟩
    · refine ⟨⟨.inr ⟨hr, hold hr hre⟩, hre, fun hnew => ?_, fun b hb hbe => hbest b hb.1 hbe⟩, hlimit⟩
      -- otherwise the new thread would come before all that `r` comes before
      rcases Precedes.total (skiThreadsCalculatePriority s) ThreadContext.id r tc.spawned with h | h
      · exact h
      · refine absurd ⟨⟨hnew, fun b hb hbe => Precedes.trans h (hbest b hb hbe)⟩, ?_⟩ hover
        exact Int.le_trans h.key_le hlimit

theorem stays_spawn_iff (hs : Sane s) (hmem : tc ∈ s.threads) (habsent : tc.present = false)
    (ht : Sane (s.modifyThread tc.id ThreadContext.spawned)) :
    Stays (s.modifyThread tc.id ThreadContext.spawned) ↔
      (Overtakes s tc ∧ s.current = some tc.id) ∨ (¬Overtakes s tc ∧ Stays s) := by
  have hcurrent : (s.modifyThread tc.id ThreadContext.spawned).current = s.current := rfl
  unfold Stays
  simp only [findNextRunnable_spawn_iff hs hmem habsent ht, hcurrent]
  by_cases hover : Overtakes s tc
  · simp [hover, ThreadContext.spawned]
  · simp [hover]

/-- A request does not touch the flag. -/
theorem noticed_newIrqSet_iff (hs : Sane s) (ht : Sane t) {cpuNo : Nat} {vectorNum : Int}
    (h : skiHandleNewIrqSet s cpuNo vectorNum = .ok t) :
    Noticed t ↔ s.needReevaluate = true ∨ (SchedOp.newIrqSet cpuNo vectorNum).Keeps s := by
  rw [noticed_iff_stays]
  rcases skiHandleNewIrqSet_cases h with ⟨hspawn, rfl⟩ | ⟨tc, hspawn, -, rfl⟩
  · simp only [SchedOp.Keeps, hspawn]
  · obtain ⟨hmem, habsent, -⟩ := skiThreadsFind_spec (spawnedBy_spec hspawn).2
    simp only [SchedOp.Keeps, hspawn]
    rw [← stays_spawn_iff hs hmem habsent ht]
    rfl

end Requests

/-! ## The end of a handler -/

section End
variable {s t : State} {cpuNo : Nat}

/-- The selection depends on the table, the eligible threads and their priorities. -/
theorem findNextRunnable_congr (hthreads : t.threads = s.threads) (helig : ∀ tc, eligible t tc = eligible s tc)
    (hprio : ∀ tc, skiThreadsCalculatePriority t tc = skiThreadsCalculatePriority s tc) :
    skiThreadsFindNextRunnable t = skiThreadsFindNextRunnable s := by
  unfold skiThreadsFindNextRunnable
  rw [hthreads, funext helig, funext hprio]

/-- All that the eligibility of threads and their priorities see of a CPU. -/
structure Outlook where
  waitForInterrupt : Bool
  state : CpuTestState
  irq : IrqLines
  entries : List (Bool × Int)
  behind : SkiInterrupt

def Cpu.outlook (cpu : Cpu) : Outlook where
  waitForInterrupt := cpu.waitForInterrupt
  state := cpu.state
  irq := cpu.irq
  entries := cpu.interruptsStack.map fun si => (si.isHwEntry, si.intNo)
  behind := pastEnd cpu

theorem skiInterruptsInHwInt_eq (cpu : Cpu) : skiInterruptsInHwInt cpu = cpu.outlook.entries.any (·.1) := by
  unfold skiInterruptsInHwInt Cpu.outlook
  rw [List.any_map]
  rfl

theorem hwReentryNo_eq (cpu : Cpu) (v : Int) :
    hwReentryNo cpu v = (cpu.outlook.entries ++ [(cpu.outlook.behind.isHwEntry, cpu.outlook.behind.intNo)]).foldl
      (fun reentryNo entry => if entry.1 && entry.2 = v then reentryNo + 1 else reentryNo) (-1) := by
  unfold hwReentryNo Cpu.outlook
  rw [List.foldl_append, List.foldl_append, List.foldl_map]
  rfl

theorem findNextRunnable_of_outlook (hthreads : t.threads = s.threads)
    (h : ∀ c, (t.cpu c).outlook = (s.cpu c).outlook) :
    skiThreadsFindNextRunnable t = skiThreadsFindNextRunnable s := by
  have hwait (c : Nat) : (t.cpu c).waitForInterrupt = (s.cpu c).waitForInterrupt :=
    congrArg Outlook.waitForInterrupt (h c)
  have hstate (c : Nat) : (t.cpu c).state = (s.cpu c).state := congrArg Outlook.state (h c)
  have hstart (c : Nat) : skiCpuCanStartInterrupts (t.cpu c) = skiCpuCanStartInterrupts (s.cpu c) := by
    unfold skiCpuCanStartInterrupts
    rw [show (t.cpu c).irq = (s.cpu c).irq from congrArg Outlook.irq (h c)]
  refine findNextRunnable_congr hthreads ?_ ?_
  · intro tc
    unfold eligible skiInterruptsIsTopHwStack
    rw [hwait, hstate, hstart, skiInterruptsInHwInt_eq, skiInterruptsInHwInt_eq, hwReentryNo_eq, hwReentryNo_eq, h]
  · intro tc
    unfold skiThreadsCalculatePriority
    rw [hwait]

/-- For an entry that is not one of a hardware interrupt the selection does not see it. -/
theorem findNextRunnable_unmarked {top : Nat}
    (hsoft : ((s.cpu cpuNo).interruptsStack.getD top .zero).isHw = false) :
    skiThreadsFindNextRunnable (unmarked s cpuNo top) = skiThreadsFindNextRunnable s := by
  have hmap : (unmarked s cpuNo top).cpus.map Cpu.outlook = s.cpus.map Cpu.outlook := by
    refine map_modify_eq fun cpu hcpu => ?_
    rw [State.cpu_of_getElem? hcpu] at hsoft
    have hentries : (cpu.interruptsStack.modify top fun si => { si with present := false }).map
        (fun si => (si.isHwEntry, si.intNo)) = cpu.interruptsStack.map fun si => (si.isHwEntry, si.intNo) := by
      refine map_modify_eq fun si hsi => ?_
      rw [List.getD_eq_getElem?_getD, hsi] at hsoft
      have hsoft : si.isHw = false := hsoft
      simp [SkiInterrupt.isHwEntry, hsoft]
    unfold Cpu.outlook
    rw [hentries]
    rfl
  exact findNextRunnable_of_outlook rfl (State.cpu_congr hmap)

theorem lowered_interruptsStack (s : State) (cpuNo c : Nat) :
    ((lowered s cpuNo).cpu c).interruptsStack = (s.cpu c).interruptsStack := by
  have hmap : (lowered s cpuNo).cpus.map Cpu.interruptsStack = s.cpus.map Cpu.interruptsStack :=
    map_modify_eq fun _ _ => rfl
  exact State.cpu_congr hmap c

theorem noticed_interruptEnd_iff (h : skiHandleInterruptEnd s cpuNo = .ok t) :
    Noticed t ↔ s.needReevaluate = true ∨ (SchedOp.interruptEnd cpuNo).raises s = true ∨
      (SchedOp.interruptEnd cpuNo).Keeps s := by
  rw [noticed_iff_stays]
  unfold SchedOp.raises SchedOp.Keeps
  rcases skiHandleInterruptEnd_cases h with ⟨hzero, rfl⟩ | ⟨hpos, u, rfl, ⟨hhw, hend⟩ | ⟨hsoft, rfl⟩⟩
  · simp [hzero]
  · -- a handler of a hardware interrupt: `endHandler` sets the flag
    obtain ⟨tc, -, rfl⟩ := endHandler_cases hend
    simp only [hhw, Bool.and_true, gt_iff_lt, hpos, decide_true, true_or, or_true, iff_true]
    exact .inl rfl
  · have hfind : skiThreadsFindNextRunnable (unmarked (lowered s cpuNo) cpuNo ((s.cpu cpuNo).interruptsStackNo - 1))
        = skiThreadsFindNextRunnable (lowered s cpuNo) := by
      refine findNextRunnable_unmarked ?_
      rw [lowered_interruptsStack]
      exact hsoft
    simp only [hsoft, Bool.and_false, Bool.false_eq_true, false_or, gt_iff_lt, hpos, if_true]
    unfold Stays
    rw [hfind]
    rfl

end End

/-! ## All operations -/

section Operations
variable {s t : State} {cpuNo : Nat}

/-- An operation that sets the flag or does nothing is noticed, unless a change from before was not. -/
theorem noticed_iff_of_raised_or_same {raises : Bool}
    (h : (raises = true ∧ t.needReevaluate = true) ∨ (raises = false ∧ t = s)) :
    Noticed t ↔ s.needReevaluate = true ∨ raises = true ∨ Stays s := by
  rw [noticed_iff_stays]
  rcases h with ⟨rfl, hflag⟩ | ⟨rfl, rfl⟩
  · simp [hflag]
  · simp

theorem skiHandleInterruptBegin_flag {intNo : Int} {isIntInstruction isHw : Bool}
    (h : skiHandleInterruptBegin s cpuNo intNo isIntInstruction isHw = .ok t) : t.needReevaluate = true := by
  obtain ⟨stack, -, ⟨-, tc, -, -, rfl⟩ | ⟨-, rfl⟩⟩ := skiHandleInterruptBegin_cases h
  · rfl
  · rfl

/-- An adjustment that is not due does nothing. -/
theorem skiThreadsAdjustPriorityCurrent_flag {adjusted : Bool}
    (h : skiThreadsAdjustPriorityCurrent s = .ok (t, adjusted)) :
    (SchedOp.adjustPriorityCurrent.raises s = true ∧ t.needReevaluate = true) ∨
      (SchedOp.adjustPriorityCurrent.raises s = false ∧ t = s) := by
  have hraises : SchedOp.adjustPriorityCurrent.raises s = true ↔ s.AdjustDue := by
    simp [SchedOp.raises, State.AdjustDue]
  rcases skiThreadsAdjustPriorityCurrent_cases h with ⟨hdue, rfl, -⟩ | ⟨hdue, -, id, tc, -, -, -, rfl⟩
  · exact .inr ⟨Bool.eq_false_iff.mpr (mt hraises.mp hdue), rfl⟩
  · exact .inl ⟨hraises.mpr hdue, rfl⟩

/-- **Which operations are noticed**: with a flag that was up already, the ones that set it, and the ones after which
    the current thread is the one to run. -/
theorem noticed_iff {setup : Setup} (hs : Reachable setup s) {op : SchedOp} (h : op.apply s = .ok t) :
    Noticed t ↔ s.needReevaluate = true ∨ op.raises s = true ∨ op.Keeps s := by
  cases op with
  | newIrqSet cpuNo vectorNum =>
    have hstep : step setup s (.newIrqSet cpuNo vectorNum) = .ok t := h
    rw [noticed_newIrqSet_iff hs.sane (hs.sane.step hstep) h]
    simp [SchedOp.raises]
  | interruptEnd cpuNo => exact noticed_interruptEnd_iff h
  | interruptBegin => exact noticed_iff_of_raised_or_same (.inl ⟨rfl, skiHandleInterruptBegin_flag h⟩)
  | selfWaitRs =>
    obtain ⟨id, waitRs, -, -, rfl⟩ := skiThreadsSelfWaitRs_spec h
    exact noticed_iff_of_raised_or_same (.inl ⟨rfl, rfl⟩)
  | selfWaitHlt =>
    obtain ⟨-, rfl⟩ := skiThreadsSelfWaitHlt_spec h
    exact noticed_iff_of_raised_or_same (.inl ⟨rfl, rfl⟩)
  | invertPriority =>
    obtain ⟨id, -, rfl⟩ := skiThreadsInvertPriority_spec h
    exact noticed_iff_of_raised_or_same (.inl ⟨rfl, rfl⟩)
  | allWakeRs memAddress =>
    -- a write that wakes nobody does nothing
    rcases skiThreadsAllWakeRs_cases h with ⟨hnone, rfl⟩ | ⟨hwoken, rfl⟩
    · exact noticed_iff_of_raised_or_same (.inr ⟨hnone, rfl⟩)
    · exact noticed_iff_of_raised_or_same (.inl ⟨hwoken, rfl⟩)
  | adjustPriorityCurrent =>
    unfold SchedOp.apply at h
    simp only at h
    cases hr : skiThreadsAdjustPriorityCurrent s with
    | error e =>
      rw [hr] at h
      cases h
    | ok r =>
      rw [hr] at h
      obtain rfl := Except.ok.inj h
      exact noticed_iff_of_raised_or_same (skiThreadsAdjustPriorityCurrent_flag hr)

/-- A thread for vector 49 that comes before the one of the CPU. -/
def urgentVector : Setup where
  cpus := [{ active := true, nrMaxInstr := 100, irq := ⟨false, false, false, true, false⟩ }]
  table := [⟨0, 49, 1⟩, ⟨0, -1, 1⟩]
  preemptions := []
  preemptionMode := .all
  nrCpus := 1
  table_cpus := by decide
  table_ints := by decide
  table_length := by decide
  preemptions_pos := noPoints_pos
  preemptions_length := noPoints_length

/-- A `hlt` of the thread that runs. -/
theorem noticed_iff_urgentVector :
    ∃ s t, Reachable urgentVector s ∧ (SchedOp.selfWaitHlt 0).apply s = .ok t ∧
      (Noticed t ↔ s.needReevaluate = true ∨ (SchedOp.selfWaitHlt 0).raises s = true ∨
        (SchedOp.selfWaitHlt 0).Keeps s) := by
  obtain ⟨s, hs, hp⟩ := exists_reachable_of_exec urgentVector [.canRun 0]
    (p := fun s => ((SchedOp.selfWaitHlt 0).apply s).toOption.any fun _ => true) (by decide)
  obtain ⟨t, ht, -⟩ := exists_of_toOption_any hp
  exact ⟨s, t, hs, ht, noticed_iff hs ht⟩

/-- **A request is not noticed**: the thread of the CPU runs, the line goes up and the interrupt is requested, and the
    flag stays down although the interrupt thread is to run. -/
theorem request_not_noticed :
    ∃ s t tc, Reachable urgentVector s ∧ s.running = some 0 ∧ (SchedOp.newIrqSet 0 49).apply s = .ok t ∧
      skiThreadsFindNextRunnable t = .ok tc ∧ t.current ≠ some tc.id ∧ t.needReevaluate = false := by
  obtain ⟨s, hs, hp⟩ := exists_reachable_of_exec urgentVector [.canRun 0, .setIrq 0 ⟨true, false, false, true, false⟩]
    (p := fun s => s.running = some 0 && ((SchedOp.newIrqSet 0 49).apply s).toOption.any fun t =>
      !t.needReevaluate && (skiThreadsFindNextRunnable t).toOption.any fun tc => t.current ≠ some tc.id)
    (by decide)
  simp only [Bool.and_eq_true, decide_eq_true_eq] at hp
  obtain ⟨hrun, hp⟩ := hp
  obtain ⟨t, ht, hp⟩ := exists_of_toOption_any hp
  simp only [Bool.and_eq_true, Bool.not_eq_true'] at hp
  obtain ⟨hflag, hp⟩ := hp
  obtain ⟨tc, htc, hne⟩ := exists_of_toOption_any hp
  exact ⟨s, t, tc, hs, hrun, ht, htc, of_decide_eq_true hne, hflag⟩

end Operations

end SkiVmm.Sched
