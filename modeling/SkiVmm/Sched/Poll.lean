import SkiVmm.Sched.Bounds
import SkiVmm.Sched.Nesting

/-!
# `Sched.Poll` — the polls of the CPUs agree on one thread

`tcg_exec_all` polls the CPUs one by one, and each poll runs the selection anew. The CPU of the thread selected is
told to run and the others are not, in whatever order they are polled (`polls_agree_iff`), with one exception: the
poll that switches to the thread resets the read set of its CPU, and the test for the top of the interrupt stack
reads one cell too far, into that read set. The switch can then change what is selected for vector 1
(`Disturbed`), and `poll_loses_selected` is a test in which it does.
-/

namespace SkiVmm.Sched

open Lib

/-! ## The property -/

/-- The eligible thread of least effective priority, the one with the highest index among equals. -/
structure Selected (s : State) (tc : ThreadContext) : Prop where
  mem : tc ∈ s.threads
  eligible : eligible s tc = true
  least : ∀ b ∈ s.threads, Sched.eligible s b = true → Precedes (fun tc => tc.priority + tc.priorityAdjust) (·.id) tc b

/-- Polling the CPUs in this order tells exactly the CPU of `tc` to run, leaves the threads alone, and leaves `tc`
    selected. -/
def PollsAgree (tc : ThreadContext) : State → List Nat → Prop
  | _, [] => True
  | s, c :: polls => ∃ s' r, skiCpuCanRun s c = .ok (s', r) ∧ (r = true ↔ tc.cpuNo = c) ∧ s'.threads = s.threads ∧
    Selected s' tc ∧ PollsAgree tc s' polls

/-- The switch to `tc` changes the selection: the cell behind the stack of its CPU reads as an entry of vector 1
    that the switch will clear, the CPU cannot start interrupts, and `tc` is eligible only because of that cell, or
    a thread before it is not eligible only because of that cell. -/
def Disturbed (s : State) (tc : ThreadContext) : Prop :=
  s.current ≠ some tc.id ∧ hwOf 1 (pastEnd (s.cpu tc.cpuNo)) = true ∧
  skiCpuCanStartInterrupts (s.cpu tc.cpuNo) = false ∧
  ((s.cpu tc.cpuNo).interruptsStack.countP (hwOf 1) = 0 ∧ tc.isInt = true ∧ tc.intNo = 1 ∨
    (s.cpu tc.cpuNo).interruptsStack.countP (hwOf 1) = 1 ∧
      ∃ b ∈ s.threads, b.present = true ∧ b.isInt = true ∧ b.cpuNo = tc.cpuNo ∧ b.intNo = 1 ∧ b.waitsOnRs = false ∧
        ¬ Precedes (fun tc => tc.priority + tc.priorityAdjust) (·.id) tc b)

/-! ## One poll -/

/-- What the proofs use of a state in a test. -/
structure Ready (s : State) : Prop where
  sane : Sane s
  small : ∀ tc ∈ s.threads, tc.priority + tc.priorityAdjust ≤ livenessPriorityNopauseLoop

section Polls
variable {s : State} {tc : ThreadContext} {c : Nat}

theorem Selected.findNextRunnable (h : Selected s tc) (hready : Ready s) : skiThreadsFindNextRunnable s = .ok tc := by
  rw [hready.sane.findNextRunnable_iff]
  refine ⟨⟨h.mem, h.eligible, ?_⟩, ?_⟩
  · intro b hb heligible
    have hleast := h.least b hb heligible
    unfold Before Precedes at *
    rwa [eligible_priority h.eligible, eligible_priority heligible]
  · rw [eligible_priority h.eligible]
    exact hready.small tc h.mem

theorem selected_of_findNextRunnable (h : Sane s) (hfind : skiThreadsFindNextRunnable s = .ok tc) : Selected s tc := by
  obtain ⟨⟨hmem, heligible, hbefore⟩, -⟩ := h.findNextRunnable_iff.mp hfind
  refine ⟨hmem, heligible, ?_⟩
  intro b hb hbeligible
  have hfirst := hbefore b hb hbeligible
  unfold Before Precedes at *
  rwa [eligible_priority heligible, eligible_priority hbeligible] at hfirst

theorem skiCpuCanRun_other (h : Selected s tc) (hready : Ready s) (hc : InTest s c) (hne : tc.cpuNo ≠ c) :
    skiCpuCanRun s c = .ok (polled s, false) := by
  unfold InTest at hc
  unfold skiCpuCanRun
  simp only
  rw [if_pos hc, h.findNextRunnable hready, ok_bind, if_neg hne]
  rfl

theorem skiCpuCanRun_current (h : Selected s tc) (hready : Ready s) (hc : InTest s tc.cpuNo)
    (hcurrent : s.current = some tc.id) : skiCpuCanRun s tc.cpuNo = .ok (polled s, true) := by
  unfold InTest at hc
  unfold skiCpuCanRun
  simp only
  rw [if_pos hc, h.findNextRunnable hready, ok_bind, if_pos rfl, if_pos hcurrent]
  rfl

theorem skiCpuCanRun_switch (h : Selected s tc) (hready : Ready s) (hc : InTest s tc.cpuNo)
    (hcurrent : s.current ≠ some tc.id) : skiCpuCanRun s tc.cpuNo = .ok (switched s tc, true) := by
  have hreset : skiLivenessReset (s.cpu tc.cpuNo).cpuRs
      = some (skiLivenessInit (s.cpu tc.cpuNo).cpuRs.maxEntries) := if_pos (hready.sane.rs_init _ hc.1)
  unfold InTest at hc
  unfold skiCpuCanRun
  simp only
  rw [if_pos hc, h.findNextRunnable hready, ok_bind, if_pos rfl, if_neg hcurrent, hreset]
  rfl

/-! ## The switch -/

theorem switched_cpu (hlt : tc.cpuNo < s.cpus.length) (c : Nat) :
    (switched s tc).cpu c = if tc.cpuNo = c then
      { s.cpu c with cpuRs := skiLivenessInit (s.cpu tc.cpuNo).cpuRs.maxEntries } else s.cpu c := by
  unfold switched State.cpu State.modifyCpu
  exact getD_modify_of_lt hlt _ c _

theorem switched_ready (hready : Ready s) (hc : InTest s tc.cpuNo) : Ready (switched s tc) := by
  have hquiet : Quiet s (switched s tc) := by
    apply Quiet.rest
    refine quiet_newReadSet ?_
    rw [hready.sane.rs_init _ hc.1]
    rfl
  refine ⟨⟨hquiet.handlers_eq ▸ hready.sane.handlers_ok, ?_, ?_⟩, hready.small⟩
  · intro c hactive
    rw [show ((switched s tc).cpu c).cpuRs.isInitialized = (s.cpu c).cpuRs.isInitialized from
      congrArg Prod.snd (arming_of_armed_eq hquiet.armed_eq c)]
    exact hready.sane.rs_init c (active_of_armed_eq hquiet.armed_eq c ▸ hactive)
  · intro c hactive
    have hframe := congrArg (Handlers.frame · c) hquiet.handlers_eq
    simp only [State.frame_handlers] at hframe
    rw [show ((switched s tc).cpu c).interruptsStackNo = (s.cpu c).interruptsStackNo from congrArg Frames.no hframe]
    exact hready.sane.idle_empty c (active_of_armed_eq hquiet.armed_eq c ▸ hactive)

theorem eligible_int {b : ThreadContext} (hint : b.isInt = true) :
    eligible s b = true ↔ b.present = true ∧ b.waitsOnRs = false ∧
      (skiInterruptsIsTopHwStack s b = true ∨ skiCpuCanStartInterrupts (s.cpu b.cpuNo) = true) := by
  simp [eligible, hint, and_assoc]

theorem Sane.isTop_iff (h : Sane s) {b : ThreadContext} (hb : b ∈ s.threads) :
    skiInterruptsIsTopHwStack s b = true ↔
      (s.cpu b.cpuNo).interruptsStack.countP (hwOf b.intNo) +
        (if hwOf b.intNo (pastEnd (s.cpu b.cpuNo)) then 1 else 0) = 1 := by
  have hreentry : b.reentryNo = 0 := h.handlers_ok.shapes_ok.reentry_eq b.shape (List.mem_map_of_mem hb)
  rw [skiInterruptsIsTopHwStack_iff, hreentry]
  split_ifs <;> omega

/-- The read set is empty after the switch, so that the cell behind the stack is no entry. -/
theorem hwOf_pastEnd_switched (hlt : tc.cpuNo < s.cpus.length) (v : Int) :
    hwOf v (pastEnd ((switched s tc).cpu tc.cpuNo)) = false := by
  rw [switched_cpu hlt, if_pos rfl]
  exact hwOf_soft rfl v

theorem isTop_switched_iff (h : Sane (switched s tc)) (hlt : tc.cpuNo < s.cpus.length) {b : ThreadContext}
    (hb : b ∈ s.threads) (hcpu : b.cpuNo = tc.cpuNo) :
    skiInterruptsIsTopHwStack (switched s tc) b = true ↔
      (s.cpu tc.cpuNo).interruptsStack.countP (hwOf b.intNo) = 1 := by
  rw [h.isTop_iff hb, hcpu, hwOf_pastEnd_switched hlt, switched_cpu hlt, if_pos rfl]
  simp

/-- The threads whose eligibility the switch can change. -/
def Affected (s : State) (tc b : ThreadContext) : Prop :=
  b.isInt = true ∧ b.cpuNo = tc.cpuNo ∧ b.intNo = 1 ∧ hwOf 1 (pastEnd (s.cpu tc.cpuNo)) = true ∧
    skiCpuCanStartInterrupts (s.cpu tc.cpuNo) = false

variable {b : ThreadContext}

/-- Such a thread is eligible before the switch if the stack has no entry of its vector, and after it if the stack
    has one. -/
theorem Affected.eligible_iff (haff : Affected s tc b) (h : Sane s) (hb : b ∈ s.threads) :
    eligible s b = true ↔ b.present = true ∧ b.waitsOnRs = false ∧
      (s.cpu tc.cpuNo).interruptsStack.countP (hwOf 1) = 0 := by
  obtain ⟨hint, hcpu, hno, hpast, hclosed⟩ := haff
  rw [eligible_int hint, h.isTop_iff hb, hcpu, hno, hpast, hclosed]
  simp

theorem Affected.eligible_switched_iff (haff : Affected s tc b) (h : Sane (switched s tc))
    (hlt : tc.cpuNo < s.cpus.length) (hb : b ∈ s.threads) :
    eligible (switched s tc) b = true ↔ b.present = true ∧ b.waitsOnRs = false ∧
      (s.cpu tc.cpuNo).interruptsStack.countP (hwOf 1) = 1 := by
  obtain ⟨hint, hcpu, hno, -, hclosed⟩ := haff
  have hclosed' : skiCpuCanStartInterrupts ((switched s tc).cpu tc.cpuNo) = false := by
    rw [switched_cpu hlt, if_pos rfl]
    exact hclosed
  rw [eligible_int hint, isTop_switched_iff h hlt hb hcpu, hcpu, hno, hclosed']
  simp

/-- The switch does not change anything for the others. -/
theorem eligible_switched (h : Sane s) (h' : Sane (switched s tc)) (hlt : tc.cpuNo < s.cpus.length) (hb : b ∈ s.threads)
    (hnot : ¬ Affected s tc b) : eligible (switched s tc) b = true ↔ eligible s b = true := by
  by_cases hcpu : b.cpuNo = tc.cpuNo
  · cases hint : b.isInt with
    | false =>
      have hsame := switched_cpu hlt b.cpuNo
      rw [if_pos hcpu.symm] at hsame
      simp [eligible, hint, hsame, skiInterruptsInHwInt]
    | true =>
      have hstart :
          skiCpuCanStartInterrupts ((switched s tc).cpu b.cpuNo) = skiCpuCanStartInterrupts (s.cpu b.cpuNo) := by
        rw [switched_cpu hlt, if_pos hcpu.symm]
        rfl
      rw [eligible_int hint, eligible_int hint, hstart, isTop_switched_iff h' hlt hb hcpu, h.isTop_iff hb, hcpu]
      cases hopen : skiCpuCanStartInterrupts (s.cpu tc.cpuNo) with
      | true => simp
      | false =>
        -- a thread of another vector is not counted behind the stack
        have hpast : hwOf b.intNo (pastEnd (s.cpu tc.cpuNo)) = false := by
          rw [Bool.eq_false_iff]
          intro hpast
          have hone := h.hwOf_pastEnd _ hpast
          exact hnot ⟨hint, hcpu, hone, hone ▸ hpast, hopen⟩
        simp [hpast]
  · have hsame : (switched s tc).cpu b.cpuNo = s.cpu b.cpuNo := by
      rw [switched_cpu hlt, if_neg fun h => hcpu h.symm]
    unfold eligible skiInterruptsIsTopHwStack
    rw [hsame]

/-- After the switch the thread is still selected, unless the switch disturbs it. -/
theorem selected_switched_iff (hsel : Selected s tc) (hready : Ready s) (hc : InTest s tc.cpuNo)
    (hcurrent : s.current ≠ some tc.id) : Selected (switched s tc) tc ↔ ¬ Disturbed s tc := by
  have hlt := State.lt_of_active hc.1
  have hsane := hready.sane
  have hsane' := (switched_ready hready hc).sane
  constructor
  · rintro hafter ⟨-, hpast, hclosed, ⟨hzero, hint, hno⟩ | ⟨hone, b, hb, hpresent, hint, hcpu, hno, hwaits, hnot⟩⟩
    · have haff : Affected s tc tc := ⟨hint, rfl, hno, hpast, hclosed⟩
      have heligible := (haff.eligible_switched_iff hsane' hlt hsel.mem).mp hafter.eligible
      omega
    · have haff : Affected s tc b := ⟨hint, hcpu, hno, hpast, hclosed⟩
      exact hnot (hafter.least b hb ((haff.eligible_switched_iff hsane' hlt hb).mpr ⟨hpresent, hwaits, hone⟩))
  · intro hcalm
    refine ⟨hsel.mem, ?_, ?_⟩
    · by_cases haff : Affected s tc tc
      · have hzero := ((haff.eligible_iff hsane hsel.mem).mp hsel.eligible).2.2
        exact absurd ⟨hcurrent, haff.2.2.2.1, haff.2.2.2.2, .inl ⟨hzero, haff.1, haff.2.2.1⟩⟩ hcalm
      · exact (eligible_switched hsane hsane' hlt hsel.mem haff).mpr hsel.eligible
    · intro b hb heligible
      by_cases haff : Affected s tc b
      · obtain ⟨hpresent, hwaits, hone⟩ := (haff.eligible_switched_iff hsane' hlt hb).mp heligible
        by_contra hnot
        exact hcalm ⟨hcurrent, haff.2.2.2.1, haff.2.2.2.2,
          .inr ⟨hone, b, hb, hpresent, haff.1, haff.2.1, haff.2.2.1, hwaits, hnot⟩⟩
      · exact hsel.least b hb ((eligible_switched hsane hsane' hlt hb haff).mp heligible)

/-! ## All polls -/

theorem polled_ready (h : Ready s) : Ready (polled s) :=
  ⟨⟨h.sane.handlers_ok, h.sane.rs_init, h.sane.idle_empty⟩, h.small⟩

theorem polled_selected (h : Selected s tc) : Selected (polled s) tc := ⟨h.mem, h.eligible, h.least⟩

/-- Once the thread is the current one the polls change nothing. -/
theorem pollsAgree_current {polls : List Nat} (hsel : Selected s tc) (hready : Ready s)
    (hcurrent : s.current = some tc.id) (hpolls : ∀ c ∈ polls, InTest s c) : PollsAgree tc s polls := by
  induction polls generalizing s with
  | nil => trivial
  | cons c polls ih =>
    have hrest : PollsAgree tc (polled s) polls :=
      ih (polled_selected hsel) (polled_ready hready) hcurrent fun c hc => hpolls c (List.mem_cons_of_mem _ hc)
    have hc := hpolls c List.mem_cons_self
    by_cases hcpu : tc.cpuNo = c
    · subst hcpu
      exact ⟨polled s, true, skiCpuCanRun_current hsel hready hc hcurrent, by simp, rfl, polled_selected hsel, hrest⟩
    · exact ⟨polled s, false, skiCpuCanRun_other hsel hready hc hcpu, by simp [hcpu], rfl, polled_selected hsel, hrest⟩

theorem inTest_switched (hlt : tc.cpuNo < s.cpus.length) (h : InTest s c) : InTest (switched s tc) c := by
  unfold InTest
  rw [switched_cpu hlt]
  split <;> exact h

theorem pollsAgree_iff {polls : List Nat} (hsel : Selected s tc) (hready : Ready s) (hpolls : ∀ c ∈ polls, InTest s c) :
    PollsAgree tc s polls ↔ ¬ (tc.cpuNo ∈ polls ∧ Disturbed s tc) := by
  by_cases hcurrent : s.current = some tc.id
  · refine ⟨fun _ h => h.2.1 hcurrent, fun _ => pollsAgree_current hsel hready hcurrent hpolls⟩
  · induction polls generalizing s with
    | nil => simp [PollsAgree]
    | cons c polls ih =>
      have hc := hpolls c List.mem_cons_self
      have hpolls' : ∀ c ∈ polls, InTest s c := fun c hc => hpolls c (List.mem_cons_of_mem _ hc)
      by_cases hcpu : tc.cpuNo = c
      · subst hcpu
        have hrun := skiCpuCanRun_switch hsel hready hc hcurrent
        have hafter := selected_switched_iff hsel hready hc hcurrent
        constructor
        · rintro ⟨s', r, hrun', -, -, hsel', -⟩ ⟨-, hdisturbed⟩
          rw [hrun] at hrun'
          obtain ⟨rfl, rfl⟩ := Prod.mk.inj (Except.ok.inj hrun')
          exact hafter.mp hsel' hdisturbed
        · intro hcalm
          have hsel' := hafter.mpr fun hdisturbed => hcalm ⟨List.mem_cons_self, hdisturbed⟩
          refine ⟨switched s tc, true, hrun, by simp, rfl, hsel', ?_⟩
          exact pollsAgree_current hsel' (switched_ready hready hc) rfl fun c' hc' =>
            inTest_switched (State.lt_of_active hc.1) (hpolls' c' hc')
      · have hrun := skiCpuCanRun_other hsel hready hc hcpu
        have hrest := ih (polled_selected hsel) (polled_ready hready) hpolls' hcurrent
        constructor
        · rintro ⟨s', r, hrun', -, -, -, hagree⟩ ⟨hmem, hdisturbed⟩
          rw [hrun] at hrun'
          obtain ⟨rfl, rfl⟩ := Prod.mk.inj (Except.ok.inj hrun')
          exact hrest.mp hagree ⟨(List.mem_cons.mp hmem).resolve_left hcpu, hdisturbed⟩
        · intro hcalm
          refine ⟨polled s, false, hrun, by simp [hcpu], rfl, polled_selected hsel, hrest.mpr ?_⟩
          rintro ⟨hmem, hdisturbed⟩
          exact hcalm ⟨List.mem_cons_of_mem _ hmem, hdisturbed⟩

end Polls

/-- **The polls agree**: in every state of a test with an eligible thread, whatever CPUs of the test are polled in
    whatever order, exactly the CPU of the thread selected is told to run, and the selection stays, unless the
    switch to that thread is disturbed. -/
theorem polls_agree_iff {setup : Setup} {s : State} (h : Reachable setup s) {b : ThreadContext} (hb : b ∈ s.threads)
    (heligible : eligible s b = true) :
    ∃ tc, Selected s tc ∧ ∀ polls : List Nat, (∀ c ∈ polls, InTest s c) →
      (PollsAgree tc s polls ↔ ¬ (tc.cpuNo ∈ polls ∧ Disturbed s tc)) := by
  obtain ⟨tc, hfind⟩ := h.findNextRunnable_of_eligible hb heligible
  have hsel := selected_of_findNextRunnable h.sane hfind
  exact ⟨tc, hsel, fun polls hpolls => pollsAgree_iff hsel ⟨h.sane, fun _ htc => h.effective_le htc⟩ hpolls⟩

/-! ### Two tests with one CPU -/

theorem polls_agree_start :
    ∃ tc, Selected twoVectors.start tc ∧ PollsAgree tc twoVectors.start [0, 0] := by
  have hany : twoVectors.start.threads.any (eligible twoVectors.start) = true := by decide
  obtain ⟨b, hb, heligible⟩ := List.any_eq_true.mp hany
  obtain ⟨tc, hsel, hagree⟩ := polls_agree_iff ⟨[], .nil twoVectors.start⟩ hb heligible
  refine ⟨tc, hsel, (hagree [0, 0] ?_).mpr ?_⟩
  · intro c hc
    obtain rfl : c = 0 := by simpa using hc
    exact ⟨rfl, .inl rfl⟩
  · rintro ⟨-, -, hpast, -⟩
    have hframe := twoVectors.frame_start tc.cpuNo
    rw [State.frame_handlers] at hframe
    have hempty : (twoVectors.start.cpu tc.cpuNo).interruptsStackNo = 0 := congrArg Frames.no hframe
    simp [hwOf, SkiInterrupt.isHwEntry, pastEnd, hempty] at hpast

/-- One CPU, a thread of vector 1, and the CPU thread. -/
def vectorOne : Setup where
  cpus := [{ active := true, nrMaxInstr := 0, irq := Cpu.idle.irq }]
  table := [{ cpu := 0, i := 1, n := 1 }, { cpu := 0, i := -1, n := 1 }]
  preemptions := [1]
  preemptionMode := .all
  nrCpus := 1
  table_cpus := by decide
  table_ints := by decide
  table_length := by decide
  preemptions_pos := onePoint_pos
  preemptions_length := onePoint_length

/-- An `int` instruction and one load on the CPU make the thread of vector 1 eligible as soon as it is requested;
    the poll that switches to it takes that away. -/
theorem poll_loses_selected :
    ∃ s tc, Reachable vectorOne s ∧ Selected s tc ∧ (∀ c ∈ [0], InTest s c) ∧ ¬ PollsAgree tc s [0] := by
  obtain ⟨s, hreach, hlost⟩ := exists_reachable_of_exec vectorOne
    [.canRun 0, .guest 0 (.interruptBegin 3 true), .guest 0 (.loadAccess 0 0 0), .newIrqSet 0 1]
    (p := fun s => (s.cpu 0).active && (s.cpu 0).state = .runningTest &&
      (skiThreadsFindNextRunnable s).toOption.any fun tc =>
        (skiCpuCanRun s 0).toOption.any fun r => !eligible r.1 tc) (by decide)
  simp only [Bool.and_eq_true, decide_eq_true_eq] at hlost
  obtain ⟨⟨hactive, hstate⟩, hlost⟩ := hlost
  obtain ⟨tc, hfind, hlost⟩ := exists_of_toOption_any hlost
  obtain ⟨⟨s', r⟩, hrun, hnot⟩ := exists_of_toOption_any hlost
  refine ⟨s, tc, hreach, selected_of_findNextRunnable hreach.sane hfind, ?_, ?_⟩
  · intro c hc
    rw [List.mem_singleton.mp hc]
    exact ⟨hactive, .inl hstate⟩
  · rintro ⟨s'', r', hrun', -, -, hsel', -⟩
    rw [hrun] at hrun'
    obtain ⟨rfl, rfl⟩ := Prod.mk.inj (Except.ok.inj hrun')
    rw [hsel'.eligible] at hnot
    cases hnot

end SkiVmm.Sched
