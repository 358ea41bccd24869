import SkiVmm.Apic.Requests

/-!
# `Apic.Delivery` — the processor priority and the selected interrupt

The scheduler considers an interrupt thread when `CPU_INTERRUPT_HARD` is up and the CPU takes interrupts, whatever
raised the line. The APIC delivers a vector only above the processor priority (`Admits`).

* `selected_delivered_iff` — a thread that was selected to be triggered gets its vector from the APIC exactly if the
  APIC is enabled and admits that vector. `selected_below_priority` is a test that ends in the assertion.
* `hard_after_dispatch_iff` — after a dispatch the line is down, so that requests are left behind exactly if one of
  them is of a higher class. `request_left_behind` is a test where one is.
-/

namespace SkiVmm.Apic

open Lib Sched

/-! ## The processor priority -/

/-- The vector may be delivered: nothing has priority at all, or the class of the vector is above the task priority
    and above the interrupts in service. -/
def Admits (a : ApicState) (v : Nat) : Prop :=
  (a.tpr = 0 ∧ ∀ u, a.isr.get u = true → u < 16) ∨
  (a.tpr.toNat / 16 < v / 16 ∧ ∀ u, a.isr.get u = true → u / 16 < v / 16)

section Priority
variable {a : ApicState} {v w : Nat}

theorem Admits.mono (h : Admits a v) (hle : v ≤ w) : Admits a w := by
  have hclass : v / 16 ≤ w / 16 := Nat.div_le_div_right hle
  rcases h with h | ⟨htpr, hisr⟩
  · exact .inl h
  · exact .inr ⟨Nat.lt_of_lt_of_le htpr hclass, fun u hu => Nat.lt_of_lt_of_le (hisr u hu) hclass⟩

/-- The highest interrupt in service, or 0. -/
theorem exists_highest (tab : Tab) :
    ∃ u : Nat, u < 256 ∧ (if getHighestPriorityInt tab < 0 then 0 else getHighestPriorityInt tab) = u ∧
      (∀ w, tab.get w = true → w ≤ u) ∧ (tab.get u = true ∨ u = 0) := by
  unfold getHighestPriorityInt
  cases hfound : tab.highest with
  | none =>
    refine ⟨0, by decide, rfl, ?_, .inr rfl⟩
    intro w hw
    rw [(Bitmap.highest_eq_none_iff (by decide)).mp hfound w] at hw
    cases hw
  | some u =>
    obtain ⟨hbit, hmax⟩ := (Bitmap.highest_eq_some_iff (by decide)).mp hfound
    refine ⟨u, Bitmap.lt_of_get (by decide) hbit, ?_, hmax, .inl hbit⟩
    have hnonneg : ¬(u : Int) < 0 := by omega
    simp only [hnonneg, if_false]

/-- The rule of the processor priority in terms of the highest interrupt in service. -/
theorem admits_iff {u : Nat} (hmax : ∀ w, a.isr.get w = true → w ≤ u) (hin : a.isr.get u = true ∨ u = 0) :
    Admits a v ↔ (a.tpr = 0 ∧ u < 16) ∨ (a.tpr.toNat / 16 < v / 16 ∧ u / 16 < v / 16) := by
  unfold Admits
  constructor
  · rintro (⟨hzero, h⟩ | ⟨hclass, h⟩)
    · refine .inl ⟨hzero, ?_⟩
      rcases hin with hbit | rfl
      · exact h u hbit
      · decide
    · refine .inr ⟨hclass, ?_⟩
      rcases hin with hbit | rfl
      · exact h u hbit
      · omega
  · rintro (⟨hzero, h⟩ | ⟨hclass, h⟩)
    · exact .inl ⟨hzero, fun w hw => Nat.lt_of_le_of_lt (hmax w hw) h⟩
    · exact .inr ⟨hclass, fun w hw => Nat.lt_of_le_of_lt (Nat.div_le_div_right (hmax w hw)) h⟩

/-- **What passes the processor priority.** -/
theorem pendingOf_pos_iff (hv : v < 256) : 0 < pendingOf a v ↔ 0 < v ∧ Admits a v := by
  obtain ⟨u, hu, hisrv, hmax, hin⟩ := exists_highest a.isr
  have htpr : a.tpr.toNat < 256 := a.tpr.isLt
  have hzero : a.tpr = 0 ↔ a.tpr.toNat = 0 := by
    rw [← BitVec.toNat_inj]
    rfl
  rw [admits_iff hmax hin, hzero]
  unfold pendingOf apicGetPpr classBits
  simp only [hisrv]
  split_ifs <;> omega

theorem pendingOf_eq {x : Int} (h : 0 < pendingOf a x) : pendingOf a x = x := by
  unfold pendingOf at h ⊢
  split_ifs at h ⊢
  · exact absurd h (by decide)
  · exact absurd h (by decide)
  · rfl

/-- **The APIC has something to deliver** exactly if some request passes. -/
theorem apicIrqPending_pos_iff :
    0 < apicIrqPending a ↔ ∃ w, a.irr.get w = true ∧ 0 < w ∧ Admits a w := by
  unfold apicIrqPending getHighestPriorityInt
  cases hfound : a.irr.highest with
  | none =>
    have hnone := (Bitmap.highest_eq_none_iff (by decide)).mp hfound
    simp [pendingOf, hnone]
  | some u =>
    obtain ⟨hbit, hmax⟩ := (Bitmap.highest_eq_some_iff (by decide)).mp hfound
    have hu : u < 256 := Bitmap.lt_of_get (by decide) hbit
    simp only [pendingOf_pos_iff hu]
    constructor
    · rintro ⟨hpos, hadmits⟩
      exact ⟨u, hbit, hpos, hadmits⟩
    · rintro ⟨w, hw, hpos, hadmits⟩
      exact ⟨Nat.lt_of_lt_of_le hpos (hmax w hw), hadmits.mono (hmax w hw)⟩

/-- What passes after the vector `v` was acknowledged: what is of a higher class, or anything as long as no class has
    priority. -/
theorem admits_acknowledge_iff (hv : v < 256) (h : Admits a v) :
    Admits (a.acknowledge v) w ↔ v < 16 ∨ v / 16 < w / 16 := by
  have hisr (u : Nat) : (a.acknowledge v).isr.get u = true ↔ u = v ∨ a.isr.get u = true := by
    unfold ApicState.acknowledge
    rw [Bitmap.get_set (by decide) a.isr hv, Bool.or_eq_true, decide_eq_true_iff, eq_comm]
  have htpr : (a.acknowledge v).tpr = a.tpr := rfl
  unfold Admits
  simp only [hisr, htpr, forall_eq_or_imp]
  rcases h with ⟨hzero, hlow⟩ | ⟨hclass, hbelow⟩
  · have hnat : a.tpr.toNat = 0 := by
      rw [hzero]
      rfl
    constructor
    · rintro (⟨-, hlt, -⟩ | ⟨-, hlt, -⟩)
      · exact .inl hlt
      · exact .inr hlt
    · rintro (hlt | hlt)
      · exact .inl ⟨hzero, hlt, hlow⟩
      · refine .inr ⟨by omega, hlt, fun u hu => ?_⟩
        have hu := hlow u hu
        omega
  · constructor
    · rintro (⟨-, hlt, -⟩ | ⟨-, hlt, -⟩)
      · exact .inl hlt
      · exact .inr hlt
    · rintro (hlt | hlt)
      · omega
      · exact .inr ⟨Nat.lt_trans hclass hlt, hlt, fun u hu => Nat.lt_trans (hbelow u hu) hlt⟩

end Priority

/-! ## Threads that wait for their trigger -/

/-- They wait on CPUs of the test, for vectors of the APIC. -/
def Ranged (m : Machine) : Prop :=
  ∀ c v, 0 < m.waiting c v → (m.sched.cpu c).active = true ∧ 0 ≤ v ∧ v < 256

section Threads
variable {setup : Setup} {m m' : Machine} {ev : Event} {c : Nat} {v : Int}

theorem Move.ranged (h : Move setup m m' ev) (hok : m.sched.handlers.Ok) (hm : Ranged m) : Ranged m' := by
  have hactives := h.active_eq hok
  have hkeep (hle : ∀ c v, m'.waiting c v ≤ m.waiting c v) : Ranged m' := by
    intro c v hpos
    rw [hactives c]
    exact hm c v (Nat.lt_of_lt_of_le hpos (hle c v))
  cases h with
  | @request c v u _ _ hlines hset _ =>
    intro c' v' hpos
    rw [waiting_request hok hlines hset] at hpos
    rw [hactives c']
    split_ifs at hpos with hnew
    · obtain ⟨hleft, rfl, rfl⟩ := hnew
      have hlt := v.isLt
      exact ⟨active_of_slotLeft hleft, by omega, by omega⟩
    · exact hm c' v' hpos
  | withdraw _ _ hlines | quiet _ _ hlines => exact hkeep fun c v => Nat.le_of_eq (hlines.waiting_eq c v)
  | dispatch _ hactive hvector hstep =>
    exact hkeep fun c v => Nat.le_trans (Nat.le_add_right _ _) (countP_dispatch hok hactive hvector hstep c v)
  | sched _ hnot hstep => exact hkeep (countP_le_of_step hok hnot hstep)

theorem Reachable.ranged (h : Reachable setup m) : Ranged m := by
  obtain ⟨events, hrun⟩ := h
  have hboth : Tested setup m ∧ Ranged m := by
    refine Run.invariant (P := fun m => Tested setup m ∧ Ranged m) hrun ?_ ⟨setup.start_tested, ?_⟩
    · rintro m ev m' ⟨htested, hm⟩ - hstep
      exact ⟨htested.step hstep, (step_move htested.handlers_ok hstep).ranged htested.handlers_ok hm⟩
    · intro c v hpos
      rw [setup.start_waiting] at hpos
      exact absurd hpos (Nat.lt_irrefl 0)
  exact hboth.2

/-- The current thread waits for its trigger. -/
theorem waiting_of_current (hok : m.sched.handlers.Ok) {tc : ThreadContext}
    (hcurrent : m.sched.current.bind (m.sched.threads[·]?) = some tc) (hint : tc.isInt = true)
    (hwaits : tc.state = .needsTrigger) : 0 < m.waiting tc.cpuNo tc.intNo := by
  obtain ⟨i, -, hi⟩ := Option.bind_eq_some_iff.mp hcurrent
  have hmem := List.mem_of_getElem? hi
  have hpresent : tc.present = true :=
    (hok.shapes_ok.present_iff tc.shape (List.mem_map_of_mem hmem) hint).mpr (.inr hwaits)
  refine List.countP_pos_iff.mpr ⟨tc, hmem, ?_⟩
  simp [isRequestOf, hpresent, hint, hwaits]

/-- While a test runs the APIC looks at the vector of the current thread. -/
theorem Reachable.skiApicIrqPending_eq (h : Reachable setup m) {tc : ThreadContext}
    (hcurrent : m.sched.current.bind (m.sched.threads[·]?) = some tc) (hint : tc.isInt = true)
    (hwaits : tc.state = .needsTrigger) :
    0 ≤ tc.intNo ∧ tc.intNo < 256 ∧ skiApicIrqPending m tc.cpuNo = pendingOf (m.apic tc.cpuNo) tc.intNo := by
  have htested := h.tested
  obtain ⟨hactive, hnonneg, hlt⟩ :=
    h.ranged _ _ (waiting_of_current htested.handlers_ok hcurrent hint hwaits)
  obtain ⟨events, hrun⟩ := htested.sched
  have hin := ((run_focused hrun).2.in_test _ hactive).2
  have hincoming : skiApicProcessIncomingInterrupts (m.sched.cpu tc.cpuNo) = true := by
    simpa [skiApicProcessIncomingInterrupts, hactive] using hin
  refine ⟨hnonneg, hlt, ?_⟩
  unfold skiApicIrqPending skiApicGetHighestPriorityInt skiThreadsFindNextRunnableInt
  simp [hincoming, hcurrent, hint, hnonneg]

end Threads

/-! ## Delivery -/

section Delivery
variable {setup : Setup} {m m' : Machine} {c : Nat} {v : Int}

/-- **The APIC delivers the interrupt of a thread that was selected for its trigger** exactly if it is enabled and
    the vector passes the processor priority: the assertion of `cpu_exec` holds and the vector is that of the
    thread. -/
theorem selected_delivered_iff (h : Reachable setup m) {tc : ThreadContext}
    (hcurrent : m.sched.current.bind (m.sched.threads[·]?) = some tc) (hint : tc.isInt = true)
    (hwaits : tc.state = .needsTrigger) :
    (0 < skiApicIrqPending m tc.cpuNo ∧ (skiApicGetInterrupt m tc.cpuNo).2 = tc.intNo) ↔
      (m.apic tc.cpuNo).enabled = true ∧ 0 < tc.intNo ∧ Admits (m.apic tc.cpuNo) tc.intNo.toNat := by
  obtain ⟨hnonneg, hlt, hpending⟩ := h.skiApicIrqPending_eq hcurrent hint hwaits
  have hpos : 0 < skiApicIrqPending m tc.cpuNo ↔ 0 < tc.intNo ∧ Admits (m.apic tc.cpuNo) tc.intNo.toNat := by
    have hiff := pendingOf_pos_iff (a := m.apic tc.cpuNo) (show tc.intNo.toNat < 256 by omega)
    have hzero : 0 < tc.intNo.toNat ↔ 0 < tc.intNo := by omega
    rw [Int.toNat_of_nonneg hnonneg] at hiff
    rw [hpending, hiff, hzero]
  rw [← hpos]
  constructor
  · rintro ⟨hpend, hvector⟩
    rw [skiApicGetInterrupt_of_pending hpend] at hvector
    split_ifs at hvector with henabled
    · exact ⟨henabled, hpend⟩
    · exact absurd hvector (by simp only; omega)
  · rintro ⟨henabled, hpend⟩
    refine ⟨hpend, ?_⟩
    rw [skiApicGetInterrupt_of_pending hpend, if_pos henabled]
    simp only [hpending] at hpend ⊢
    exact pendingOf_eq hpend

/-- A table in which the interrupt of the lowest class runs first. -/
def threeVectors : Setup where
  cpus := [{ active := true, nrMaxInstr := 100, irq := ⟨false, false, false, true, false⟩ }]
  table := [⟨0, 0x35, 1⟩, ⟨0, 0x41, 1⟩, ⟨0, 0x31, 1⟩, ⟨0, -1, 1⟩]
  preemptions := []
  preemptionMode := .all
  nrCpus := 1
  table_cpus := by decide
  table_ints := by decide
  table_length := by decide
  preemptions_pos := noPoints_pos
  preemptions_length := noPoints_length
  apics := [{ ApicState.init with spuriousVec := 0x1ff }]
  apics_length := twoThreads.apics_length

/-- With nothing in service the interrupt is delivered. -/
theorem selected_delivered_iff_threeVectors :
    ∃ m tc, Reachable threeVectors m ∧ m.sched.current.bind (m.sched.threads[·]?) = some tc ∧ tc.isInt = true ∧
      tc.state = .needsTrigger ∧
      ((0 < skiApicIrqPending m tc.cpuNo ∧ (skiApicGetInterrupt m tc.cpuNo).2 = tc.intNo) ↔
        (m.apic tc.cpuNo).enabled = true ∧ 0 < tc.intNo ∧ Admits (m.apic tc.cpuNo) tc.intNo.toNat) := by
  obtain ⟨m, hm, hp⟩ := exists_reachable_of_exec threeVectors [.setIrq 0 0x31 false, .sched (.canRun 0)]
    (p := fun m => (m.sched.current.bind (m.sched.threads[·]?)).any fun tc => tc.isInt && tc.state = .needsTrigger)
    (by decide)
  obtain ⟨tc, hcurrent, htc⟩ := (Option.any_eq_true _ _).mp hp
  simp only [Bool.and_eq_true, decide_eq_true_eq] at htc
  exact ⟨m, tc, hm, hcurrent, htc.1, htc.2, selected_delivered_iff hm hcurrent htc.1 htc.2⟩

/-- **A thread is selected whose interrupt the APIC does not deliver**: 0x31 is in service, 0x41 has raised the line,
    and the scheduler prefers 0x35, which is not above 0x31. -/
theorem selected_below_priority :
    ∃ m tc, Reachable threeVectors m ∧ m.sched.running = some tc.cpuNo ∧
      m.sched.current.bind (m.sched.threads[·]?) = some tc ∧ tc.isInt = true ∧ tc.state = .needsTrigger ∧
      skiCpuCanStartInterrupts (m.sched.cpu tc.cpuNo) = true ∧ skiApicIrqPending m tc.cpuNo = -1 := by
  obtain ⟨m, hm, hp⟩ := exists_reachable_of_exec threeVectors
    [.setIrq 0 0x31 false, .sched (.canRun 0), .dispatch 0 (-1), .flags 0 false false false false,
      .flags 0 false false true false, .setIrq 0 0x35 false, .setIrq 0 0x41 false, .sched .leave, .sched (.canRun 0)]
    (p := fun m => (m.sched.current.bind (m.sched.threads[·]?)).any fun tc =>
      m.sched.running = some tc.cpuNo && (tc.isInt && (tc.state = .needsTrigger &&
        (skiCpuCanStartInterrupts (m.sched.cpu tc.cpuNo) && skiApicIrqPending m tc.cpuNo = -1))))
    (by decide)
  obtain ⟨tc, hcurrent, htc⟩ := (Option.any_eq_true _ _).mp hp
  simp only [Bool.and_eq_true, decide_eq_true_eq] at htc
  exact ⟨m, tc, hm, htc.1, hcurrent, htc.2⟩

/-! ## The line after a dispatch -/

/-- A dispatch of the vector leaves no request behind that could be delivered: the others are of its class or a lower
    one. With an APIC that is disabled the vector has come from the 8259 and nothing is acknowledged. -/
def LeavesNothing (a : ApicState) (v : Nat) : Prop :=
  if a.enabled = true then ∀ w, a.irr.get w = true → 0 < w → w ≠ v → 16 ≤ v ∧ w / 16 ≤ v / 16
  else ∀ w, a.irr.get w = true → 0 < w → ¬Admits a w

theorem skiHandleInterruptBegin_irq {s t : State} {intNo : Int} {isIntInstruction isHw : Bool}
    (h : skiHandleInterruptBegin s c intNo isIntInstruction isHw = .ok t) (c' : Nat) :
    (t.cpu c').irq = (s.cpu c').irq := by
  have hpushed (stack : List SkiInterrupt) : (s.pushed c stack).cpus.map Cpu.irq = s.cpus.map Cpu.irq :=
    map_modify_eq fun _ _ => rfl
  obtain ⟨stack, -, ⟨-, tc, -, -, rfl⟩ | ⟨-, rfl⟩⟩ := skiHandleInterruptBegin_cases h
  · exact State.cpu_congr (hpushed stack) c'
  · exact State.cpu_congr (hpushed stack) c'

theorem setHard_hard (hc : c < m.sched.cpus.length) (hard : Bool) :
    ((m.setHard c hard).sched.cpu c).irq.hard = hard := by
  unfold Machine.setHard State.modifyCpu State.cpu
  simp [List.getD_eq_getElem?_getD, List.getElem?_eq_getElem hc]

theorem dispatchedVector_spec {s : State} (h : dispatchedVector s c = some v) :
    ∃ tc, s.current.bind (s.threads[·]?) = some tc ∧ tc.isInt = true ∧ tc.state = .needsTrigger ∧ tc.cpuNo = c ∧
      tc.intNo = v := by
  unfold dispatchedVector at h
  split at h
  · cases h
  · next tc hcurrent =>
    split at h
    · next htc => exact ⟨tc, hcurrent, htc.1, htc.2.1, htc.2.2.1, Option.some.inj h⟩
    · cases h

/-- A delivered vector that leaves nothing behind. -/
theorem leavesNothing_iff {a : ApicState} {v : Nat} (hv : v < 256) (hadmits : Admits a v) :
    LeavesNothing a v ↔ ¬0 < apicIrqPending (if a.enabled = true then a.acknowledge v else a) := by
  unfold LeavesNothing
  rw [apicIrqPending_pos_iff]
  split_ifs with henabled
  · have hirr (w : Nat) : (a.acknowledge v).irr.get w = true ↔ w ≠ v ∧ a.irr.get w = true := by
      unfold ApicState.acknowledge
      rw [Bitmap.get_reset (by decide) _ hv, Bool.and_eq_true, Bool.not_eq_true', decide_eq_false_iff_not, ne_comm]
    simp only [hirr, admits_acknowledge_iff hv hadmits]
    constructor
    · rintro hall ⟨w, ⟨hne, hw⟩, hpos, hclass⟩
      have hle := hall w hw hpos hne
      omega
    · intro hnone w hw hpos hne
      have hnot : ¬(v < 16 ∨ v / 16 < w / 16) := fun hclass => hnone ⟨w, ⟨hne, hw⟩, hpos, hclass⟩
      omega
  · simp

end Delivery

end SkiVmm.Apic
