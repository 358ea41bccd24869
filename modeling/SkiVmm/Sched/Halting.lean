import SkiVmm.Sched.Tally

/-!
# `Sched.Halting` — the wait for an interrupt

A CPU that executes `hlt` is marked with `wait_for_interrupt`, and its CPU thread is not eligible while the mark is
there. `step_halted` says that only the end of a hardware interrupt on the same CPU takes the mark away, and
`halted_until_end` that the thread is not selected before that; the interrupt threads of the CPU do not notice the
mark.
-/

namespace SkiVmm.Sched

open Lib

/-- Which CPUs wait for an interrupt. -/
def State.halts (s : State) : List Bool := s.cpus.map (·.waitForInterrupt)

/-- The event is the end of a hardware interrupt on the CPU. -/
def endsHwInterrupt (s : State) (c : Nat) : Event → Bool
  | .guest c' .interruptEnd =>
    c' = c && (s.cpu c).active && (0 < (s.cpu c).interruptsStackNo && (topEntry (s.cpu c)).isHw)
  | _ => false

/-! ## Operations -/

section Ops
variable {s t : State} {cpuNo : Nat}

theorem skiHandleInterruptBegin_halts {intNo : Int} {isIntInstruction isHw : Bool}
    (h : skiHandleInterruptBegin s cpuNo intNo isIntInstruction isHw = .ok t) : t.halts = s.halts := by
  obtain ⟨stack, -, ⟨-, tc, -, -, rfl⟩ | ⟨-, rfl⟩⟩ := skiHandleInterruptBegin_cases h
  · exact map_modify_eq fun _ _ => rfl
  · exact map_modify_eq fun _ _ => rfl

/-- The end of a handler takes at most the mark of its own CPU away. -/
theorem skiHandleInterruptEnd_halts (h : skiHandleInterruptEnd s cpuNo = .ok t) :
    t.halts = s.halts ∨
      (0 < (s.cpu cpuNo).interruptsStackNo ∧ (topEntry (s.cpu cpuNo)).isHw = true) ∧
        t.halts = s.halts.modify cpuNo fun _ => false := by
  have hlowered : (lowered s cpuNo).halts = s.halts := map_modify_eq fun _ _ => rfl
  have hunmarked (u : State) (top : Nat) : (unmarked u cpuNo top).halts = u.halts := map_modify_eq fun _ _ => rfl
  rcases skiHandleInterruptEnd_cases h with ⟨-, rfl⟩ | ⟨hpos, u, rfl, ⟨hhw, hend⟩ | ⟨-, rfl⟩⟩
  · exact .inl rfl
  · refine .inr ⟨⟨hpos, hhw⟩, ?_⟩
    obtain ⟨tc, -, rfl⟩ := endHandler_cases hend
    rw [hunmarked, ← hlowered]
    apply map_modify_comm
    exact fun _ => rfl
  · exact .inl ((hunmarked _ _).trans hlowered)

theorem helperSkiLoadAccess_halts {eip address value : Int}
    (h : helperSkiLoadAccess s cpuNo eip address value = .ok t) : t.halts = s.halts := by
  have hrecorded : (s.recorded cpuNo eip address value).halts = s.halts := map_modify_eq fun _ _ => rfl
  rcases helperSkiLoadAccess_cases h with ⟨-, rfl⟩ | ⟨-, id, waitRs, -, -, rfl⟩
  · exact hrecorded
  · exact hrecorded

theorem helperSkiInstrumentPause_halts (h : helperSkiInstrumentPause s cpuNo = .ok t) : t.halts = s.halts := by
  obtain ⟨id, -, ⟨-, waitRs, -, rfl⟩ | ⟨-, cpuRs, -, rfl⟩⟩ := helperSkiInstrumentPause_spec h
  · rfl
  · exact map_modify_eq fun _ _ => rfl

theorem skiThreadsAllWakeRs_halts {address : Int} (h : skiThreadsAllWakeRs s address = .ok t) : t.halts = s.halts := by
  rcases skiThreadsAllWakeRs_cases h with ⟨-, rfl⟩ | ⟨-, rfl⟩ <;> rfl

theorem skiThreadsSelfWaitHlt_halts (h : skiThreadsSelfWaitHlt s cpuNo = .ok t) :
    t.halts = s.halts.modify cpuNo fun _ => true := by
  obtain ⟨-, rfl⟩ := skiThreadsSelfWaitHlt_spec h
  apply map_modify_comm
  exact fun _ => rfl

theorem helperSkiInstrumentAll_halts (h : helperSkiInstrumentAll s = .ok t) : t.halts = s.halts := by
  rcases helperSkiInstrumentAll_cases h with ⟨-, rfl⟩ | ⟨id, tc, -, -, -, rfl⟩ <;> rfl

theorem Cpu.withLimit_waitForInterrupt (next : Int) (cpu : Cpu) :
    (cpu.withLimit next).waitForInterrupt = cpu.waitForInterrupt := by
  unfold Cpu.withLimit
  split <;> rfl

theorem helperSkiInstrumentPossibleInversionPoint_halts {mode : PreemptionMode}
    (h : helperSkiInstrumentPossibleInversionPoint mode s cpuNo = .ok t) : t.halts = s.halts := by
  have hpassed : (s.passed cpuNo).halts = s.halts := map_modify_eq fun _ _ => rfl
  rcases helperSkiInstrumentPossibleInversionPoint_cases h with
    ⟨-, rfl⟩ | ⟨-, ⟨-, rfl⟩ | ⟨-, ⟨-, rfl⟩ | ⟨-, id, -, rfl⟩⟩⟩
  · rfl
  · exact map_modify_eq fun _ _ => rfl
  · exact hpassed
  · refine Eq.trans ?_ hpassed
    unfold State.halts State.preempted
    rw [List.map_map]
    exact List.map_congr_left fun cpu _ => cpu.withLimit_waitForInterrupt _

theorem skiCpuCanRun_halts {u : State} {res : Bool} (h : skiCpuCanRun s cpuNo = .ok (u, res)) : u.halts = s.halts := by
  rcases skiCpuCanRun_cases h with
    ⟨-, rfl, -⟩ | ⟨-, tc, -, ⟨-, rfl, -⟩ | ⟨-, -, rfl, -⟩ | ⟨-, -, -, rfl, -⟩⟩
  · rfl
  · rfl
  · rfl
  · exact map_modify_eq fun _ _ => rfl

end Ops

/-! ## Events -/

section Events
variable {setup : Setup} {s t : State} {ev : Event} {c : Nat}

theorem waitForInterrupt_of_halts (h : t.halts = s.halts) (c : Nat) :
    (t.cpu c).waitForInterrupt = (s.cpu c).waitForInterrupt := State.cpu_congr h c

theorem State.waitForInterrupt_eq (s : State) (c : Nat) : (s.cpu c).waitForInterrupt = s.halts.getD c false :=
  (List.getD_map s.cpus Cpu.idle Cpu.waitForInterrupt).symm

/-- A mark that is set or taken away on one CPU. -/
theorem waitForInterrupt_of_modify {b : Bool} {c' : Nat} (h : t.halts = s.halts.modify c' fun _ => b) (c : Nat) :
    (t.cpu c).waitForInterrupt = (s.cpu c).waitForInterrupt ∨ c = c' ∧ (t.cpu c).waitForInterrupt = b := by
  rw [t.waitForInterrupt_eq, s.waitForInterrupt_eq, h, getD_modify]
  split_ifs with heq
  · exact .inr ⟨heq.1.symm, rfl⟩
  · exact .inl rfl

theorem guestStep_halted {cpuNo : Nat} {op : GuestOp} (hactive : (s.cpu cpuNo).active = true)
    (h : guestStep setup s cpuNo op = .ok t) (hend : endsHwInterrupt s c (.guest cpuNo op) = false)
    (hhalted : (s.cpu c).waitForInterrupt = true) : (t.cpu c).waitForInterrupt = true := by
  have hkeep (h : t.halts = s.halts) : (t.cpu c).waitForInterrupt = true :=
    (waitForInterrupt_of_halts h c).trans hhalted
  cases op with
  | dispatch =>
    obtain ⟨intNo, -, hbegin⟩ := guestStep_dispatch_cases h
    refine hkeep ((skiHandleInterruptBegin_halts hbegin).trans ?_)
    exact map_modify_eq fun _ _ => rfl
  | interruptBegin intNo isIntInstruction => exact hkeep (skiHandleInterruptBegin_halts h)
  | interruptEnd =>
    rcases skiHandleInterruptEnd_halts h with hsame | ⟨⟨hpos, hhw⟩, hcleared⟩
    · exact hkeep hsame
    · rcases waitForInterrupt_of_modify hcleared c with hsame | ⟨rfl, -⟩
      · exact hsame.trans hhalted
      · simp [endsHwInterrupt, hactive, hpos, hhw] at hend
  | loadAccess eip address value => exact hkeep (helperSkiLoadAccess_halts h)
  | storeAccess address => exact hkeep (skiThreadsAllWakeRs_halts h)
  | pause => exact hkeep (helperSkiInstrumentPause_halts h)
  | hlt =>
    rcases waitForInterrupt_of_modify (skiThreadsSelfWaitHlt_halts h) c with hsame | ⟨-, hset⟩
    · exact hsame.trans hhalted
    · exact hset
  | instrumentAll => exact hkeep (helperSkiInstrumentAll_halts h)
  | possibleInversionPoint => exact hkeep (helperSkiInstrumentPossibleInversionPoint_halts h)
  | testExit =>
    obtain rfl := guestStep_testExit_cases h
    exact hkeep (map_modify_eq fun _ _ => rfl)

/-- **Step lemma**: a halted CPU stays halted, unless a hardware interrupt ends on it. -/
theorem step_halted (h : step setup s ev = .ok t) (hend : endsHwInterrupt s c ev = false)
    (hhalted : (s.cpu c).waitForInterrupt = true) : (t.cpu c).waitForInterrupt = true := by
  have hkeep (h : t.halts = s.halts) : (t.cpu c).waitForInterrupt = true :=
    (waitForInterrupt_of_halts h c).trans hhalted
  cases ev with
  | newIrqSet cpuNo vectorNum =>
    rcases skiHandleNewIrqSet_cases h with ⟨-, rfl⟩ | ⟨tc, -, -, rfl⟩
    · exact hhalted
    · exact hhalted
  | setIrq cpuNo irq =>
    obtain rfl := Except.ok.inj h
    exact hkeep (map_modify_eq fun _ _ => rfl)
  | canRun cpuNo =>
    obtain ⟨-, -, u, res, hrun, rfl⟩ := step_canRun_cases h
    have hhalts := skiCpuCanRun_halts hrun
    exact hkeep hhalts
  | leave =>
    obtain rfl := Except.ok.inj h
    exact hhalted
  | guest cpuNo op =>
    obtain ⟨-, ⟨-, rfl⟩ | ⟨hactive, h⟩⟩ := step_guest_cases h
    · exact hhalted
    · exact guestStep_halted hactive h hend hhalted

/-- An active CPU that executes `hlt` is halted. -/
theorem halted_of_hlt (hactive : (s.cpu c).active = true) (h : step setup s (.guest c .hlt) = .ok t) :
    (t.cpu c).waitForInterrupt = true := by
  obtain ⟨-, ⟨hidle, -⟩ | ⟨-, h⟩⟩ := step_guest_cases h
  · rw [hactive] at hidle
    cases hidle
  · have hlt : c < s.halts.length := by simpa [State.halts] using State.lt_of_active hactive
    rw [t.waitForInterrupt_eq, skiThreadsSelfWaitHlt_halts h, getD_modify_of_lt hlt, if_pos rfl]

/-- The state as if the CPU had not halted. -/
def State.unhalted (s : State) (c : Nat) : State := s.modifyCpu c fun cpu => { cpu with waitForInterrupt := false }

theorem unhalted_cpu (s : State) (c c' : Nat) :
    (s.unhalted c).cpu c' = { s.cpu c' with waitForInterrupt := ((s.unhalted c).cpu c').waitForInterrupt } := by
  unfold State.unhalted State.cpu State.modifyCpu
  simp only
  rw [getD_modify]
  split_ifs <;> rfl

/-- Interrupt threads do not notice the mark. -/
theorem eligible_unhalted (s : State) (c : Nat) {tc : ThreadContext} (hint : tc.isInt = true) :
    eligible (s.unhalted c) tc = eligible s tc := by
  have hcpu := unhalted_cpu s c tc.cpuNo
  unfold eligible skiInterruptsIsTopHwStack
  rw [hcpu, hint]
  rfl

end Events

/-- **A halted CPU waits for an interrupt.** After a CPU of the test has executed `hlt`, and until a hardware interrupt
    ends on it, its CPU thread is neither eligible nor selected, whatever the events are. Its interrupt threads are
    eligible, and ordered, as if it had not halted. -/
theorem halted_until_end {setup : Setup} {s t u : State} {c : Nat} {events : List Event} (h : Reachable setup s)
    (hactive : (s.cpu c).active = true) (hhlt : step setup s (.guest c .hlt) = .ok t)
    (hrun : Run (step setup) (fun v ev => endsHwInterrupt v c ev = false) t events u) :
    (∀ tc ∈ u.threads, tc.isInt = false → tc.cpuNo = c →
      eligible u tc = false ∧ skiThreadsFindNextRunnable u ≠ .ok tc) ∧
    ∀ tc ∈ u.threads, tc.isInt = true →
      eligible u tc = eligible (u.unhalted c) tc ∧
        skiThreadsCalculatePriority u tc = skiThreadsCalculatePriority (u.unhalted c) tc := by
  have hhalted : (u.cpu c).waitForInterrupt = true :=
    hrun.invariant (fun hhalted hend hstep => step_halted hstep hend hhalted) (halted_of_hlt hactive hhlt)
  have hsane : Sane u := hrun.invariant (fun hsane _ hstep => hsane.step hstep) (h.sane.step hhlt)
  constructor
  · intro tc htc hcpu hc
    have hnot : eligible u tc = false := by simp [eligible, hcpu, hc, hhalted]
    refine ⟨hnot, ?_⟩
    intro hfind
    obtain ⟨⟨-, heligible, -⟩, -⟩ := hsane.findNextRunnable_iff.mp hfind
    rw [hnot] at heligible
    cases heligible
  · intro tc _ hint
    exact ⟨(eligible_unhalted u c hint).symm, by simp [skiThreadsCalculatePriority, hint]⟩

/-- The CPU thread halts, and the thread of vector 49 is selected instead. -/
theorem halted_until_end_requested :
    ∃ s t u, Reachable twoVectors s ∧ step twoVectors s (.guest 0 .hlt) = .ok t ∧
      Run (step twoVectors) (fun v ev => endsHwInterrupt v 0 ev = false) t (request 49) u ∧
      (∃ tc, skiThreadsFindNextRunnable u = .ok tc ∧ tc.intNo = 49 ∧ tc.cpuNo = 0) ∧
      ∀ tc ∈ u.threads, tc.isInt = false → tc.cpuNo = 0 → skiThreadsFindNextRunnable u ≠ .ok tc := by
  obtain ⟨s, hreach, hs⟩ := exists_reachable_of_exec twoVectors [.canRun 0]
    (p := fun s => (s.cpu 0).active && (step twoVectors s (.guest 0 .hlt)).toOption.any fun t =>
      (exec (step twoVectors) (fun v ev => !endsHwInterrupt v 0 ev) t (request 49)).any fun u =>
        (skiThreadsFindNextRunnable u).toOption.any fun tc => tc.intNo = 49 && tc.cpuNo = 0) (by decide)
  simp only [Bool.and_eq_true] at hs
  obtain ⟨hactive, hs⟩ := hs
  obtain ⟨t, hhlt, hs⟩ := exists_of_toOption_any hs
  have hcheck (v : State) (ev : Event) (h : (!endsHwInterrupt v 0 ev) = true) : endsHwInterrupt v 0 ev = false := by
    simpa using h
  obtain ⟨u, hrun, hs⟩ := exists_run_of_exec hcheck hs
  obtain ⟨tc, hfind, hs⟩ := exists_of_toOption_any hs
  simp only [Bool.and_eq_true, decide_eq_true_eq] at hs
  refine ⟨s, t, u, hreach, hhlt, hrun, ⟨tc, hfind, hs⟩, ?_⟩
  intro tc htc hcpu hc
  exact ((halted_until_end hreach hactive hhlt hrun).1 tc htc hcpu hc).2

end SkiVmm.Sched
