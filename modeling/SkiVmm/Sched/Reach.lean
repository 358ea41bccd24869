import SkiVmm.Sched.Effect

/-!
# `Sched.Reach` — what holds in every state of a test

`Sane` is the invariant of a test: interrupt handling is as in `Sched.Handlers`, the CPUs in the test have read
sets that are initialised, and the others have no interrupts on their stacks. It holds in the start state and is
kept by every event (`run_sane`).
-/

namespace SkiVmm.Sched

open Lib

/-- **The invariant of a test.** -/
structure Sane (s : State) : Prop where
  handlers_ok : s.handlers.Ok
  rs_init : ∀ c, (s.cpu c).active = true → (s.cpu c).cpuRs.isInitialized = true
  idle_empty : ∀ c, (s.cpu c).active = false → (s.cpu c).interruptsStackNo = 0

/-! ## The start -/

section Start
variable (setup : Setup)

theorem Setup.getElem?_threads (i : Nat) :
    setup.threads[i]? = setup.table[i]?.map fun e => { skiTcInitialize i i e.cpu e.i 0 with count := e.n } := by
  unfold Setup.threads
  rw [List.getElem?_map, List.getElem?_zipIdx, Option.map_map, Nat.zero_add]
  rfl

/-- A thread of the start. -/
theorem Setup.shape_start {i : Nat} {sh : Shape} (h : setup.start.handlers.shapes[i]? = some sh) :
    ∃ e ∈ setup.table, sh = (skiTcInitialize i i e.cpu e.i 0).shape := by
  unfold State.handlers Setup.start at h
  simp only [List.getElem?_map, setup.getElem?_threads, Option.map_map] at h
  obtain ⟨e, he, rfl⟩ := Option.map_eq_some_iff.mp h
  exact ⟨e, List.mem_of_getElem? he, rfl⟩

theorem Setup.startCpu_frames (c : CpuSetup) : (setup.startCpu c).frames = Cpu.idle.frames := by
  unfold Setup.startCpu
  split <;> rfl

theorem Setup.cpu_start (c : Nat) :
    setup.start.cpu c = .idle ∨ ∃ cpu ∈ setup.cpus, setup.start.cpu c = setup.startCpu cpu := by
  unfold State.cpu Setup.start
  simp only [List.getD_eq_getElem?_getD, List.getElem?_map]
  cases hc : setup.cpus[c]? with
  | none => exact .inl rfl
  | some cpu => exact .inr ⟨cpu, List.mem_of_getElem? hc, rfl⟩

/-- A CPU of the test, at its start. -/
theorem Setup.cpu_start_of_active {c : Nat} (h : (setup.start.cpu c).active = true) :
    (setup.start.cpu c).state = .runningTest ∧ (setup.start.cpu c).cpuRs = skiLivenessInit maEntriesMax := by
  rcases setup.cpu_start c with hidle | ⟨cpu, -, hcpu⟩
  · rw [hidle] at h
    cases h
  · rw [hcpu] at h ⊢
    unfold Setup.startCpu at h ⊢
    split at h
    · next hcpuActive =>
      rw [if_pos hcpuActive]
      exact ⟨rfl, rfl⟩
    · cases h

theorem Setup.frame_start (c : Nat) : setup.start.handlers.frame c = Cpu.idle.frames := by
  rw [State.frame_handlers]
  rcases setup.cpu_start c with hidle | ⟨cpu, -, hcpu⟩
  · rw [hidle]
  · rw [hcpu, setup.startCpu_frames]

theorem Setup.start_shapes_ok : ShapesOk setup.start.handlers.shapes setup.start.handlers.frames.length := by
  refine ⟨?_, ?_, ?_, ?_⟩
  · intro i sh h
    obtain ⟨e, -, rfl⟩ := setup.shape_start h
    rfl
  all_goals
    intro sh hsh
    obtain ⟨i, hi⟩ := List.mem_iff_getElem?.mp hsh
    obtain ⟨e, he, rfl⟩ := setup.shape_start hi
  · simpa [State.handlers, Setup.start, ThreadContext.shape, skiTcInitialize] using setup.table_cpus e he
  · by_cases hint : 0 ≤ e.i <;> simp [ThreadContext.shape, skiTcInitialize, hint]
  · rfl

/-- No interrupt thread exists at the start. -/
theorem Setup.countP_start {p : Shape → Bool} (hp : ∀ sh, p sh = true → sh.isInt = true ∧ sh.present = true) :
    setup.start.handlers.shapes.countP p = 0 := by
  rw [List.countP_eq_zero]
  intro sh hsh hpsh
  obtain ⟨i, hi⟩ := List.mem_iff_getElem?.mp hsh
  obtain ⟨e, -, rfl⟩ := setup.shape_start hi
  obtain ⟨hint, hpresent⟩ := hp _ hpsh
  have hint : decide (0 ≤ e.i) = true := hint
  have hpresent : (!decide (0 ≤ e.i)) = true := hpresent
  rw [hint] at hpresent
  cases hpresent

theorem inHandler_exists {c : Nat} {v : Int} {sh : Shape} (h : inHandler c v sh = true) :
    sh.isInt = true ∧ sh.present = true := by
  simp only [inHandler, Bool.and_eq_true] at h
  exact h.1.1.1

theorem awaitsTrigger_exists {c : Nat} {v : Int} {sh : Shape} (h : awaitsTrigger c v sh = true) :
    sh.isInt = true ∧ sh.present = true := by
  simp only [awaitsTrigger, Bool.and_eq_true] at h
  exact h.1.1.1

theorem Setup.start_handlers_ok : setup.start.handlers.Ok := by
  refine ⟨setup.start_shapes_ok, ?_, ?_⟩
  · intro c
    rw [setup.frame_start c]
    exact ⟨[], isStack_nil (by simp [Cpu.idle, Cpu.frames, SkiInterrupt.zero]), rfl, by simp⟩
  · intro c v
    rw [setup.frame_start c, setup.countP_start fun _ => inHandler_exists, List.countP_eq_zero]
    intro si hsi
    obtain rfl := List.eq_of_mem_replicate hsi
    simp [hwOf, SkiInterrupt.isHwEntry, SkiInterrupt.zero]

theorem Setup.start_sane : Sane setup.start := by
  refine ⟨setup.start_handlers_ok, ?_, ?_⟩
  · intro c hactive
    rw [(setup.cpu_start_of_active hactive).2]
    rfl
  · intro c _
    have hframe := setup.frame_start c
    rw [State.frame_handlers] at hframe
    exact congrArg Frames.no hframe

end Start

/-! ## Events -/

section Steps
variable {setup : Setup} {guard : State → Event → Prop} {s t : State} {ev : Event} {events : List Event}

/-- **Events keep the invariant.** -/
theorem Sane.step (h : Sane s) (hstep : step setup s ev = .ok t) : Sane t := by
  have heffect := step_effect h.handlers_ok hstep
  have hactive (c : Nat) : (t.cpu c).active = (s.cpu c).active := active_of_armed_eq heffect.armed_eq c
  obtain ⟨l, hhandlers, -, -⟩ := heffect.handlers
  refine ⟨hhandlers.ok h.handlers_ok, ?_, ?_⟩
  · intro c hc
    rw [show (t.cpu c).cpuRs.isInitialized = (s.cpu c).cpuRs.isInitialized from
      congrArg Prod.snd (arming_of_armed_eq heffect.armed_eq c)]
    exact h.rs_init c (hactive c ▸ hc)
  · intro c hc
    have hframe := heffect.idle c (hactive c ▸ hc)
    rw [State.frame_handlers, State.frame_handlers] at hframe
    rw [show (t.cpu c).interruptsStackNo = (s.cpu c).interruptsStackNo from congrArg Frames.no hframe]
    exact h.idle_empty c (hactive c ▸ hc)

theorem run_sane (h : Run (step setup) guard setup.start events s) : Sane s :=
  h.invariant (fun hsane _ hstep => hsane.step hstep) setup.start_sane

/-- **The rule for whole tests**: what the effects of guarded events keep holds in every state. -/
theorem run_invariant {P : State → Prop} (h : Run (step setup) guard setup.start events s) (hstart : P setup.start)
    (hkeep : ∀ {s ev t}, Sane s → P s → guard s ev → Effect s t ev → P t) : P s := by
  have hboth : Sane s ∧ P s := by
    refine Run.invariant (P := fun s => Sane s ∧ P s) h ?_ ⟨setup.start_sane, hstart⟩
    rintro s ev t ⟨hsane, hP⟩ hguard hstep
    exact ⟨hsane.step hstep, hkeep hsane hP hguard (step_effect hsane.handlers_ok hstep)⟩
  exact hboth.2

theorem reachable_of_run (h : Run (step setup) guard setup.start events s) : Reachable setup s :=
  ⟨events, h.mono fun _ _ _ => trivial⟩

theorem Reachable.sane (h : Reachable setup s) : Sane s := by
  obtain ⟨events, hrun⟩ := h
  exact run_sane hrun

/-- Behind the end of a stack there is never a hardware entry of a vector other than 1. -/
theorem Sane.hwOf_pastEnd (h : Sane s) (c : Nat) {v : Int} (hv : hwOf v (pastEnd (s.cpu c)) = true) : v = 1 := by
  simp only [hwOf, SkiInterrupt.isHwEntry, Bool.and_eq_true] at hv
  obtain ⟨⟨⟨hpresent, -⟩, -⟩, hno⟩ := hv
  have hno : (pastEnd (s.cpu c)).intNo = v := of_decide_eq_true hno
  cases hactive : (s.cpu c).active with
  | false => exact absurd (h.idle_empty c hactive) (of_decide_eq_true hpresent)
  | true =>
    rw [← hno]
    unfold pastEnd
    rw [if_pos (h.rs_init c hactive)]

end Steps

end SkiVmm.Sched
