import SkiVmm.Sched.Frame

/-!
# `Sched.Effect` — what each event does

`step_effect` says, once and for all events, what one step does to the parts of the state: it is a step of the
abstract machine of `Sched.Handlers`, of the one of `Sched.Points`, and of the priorities (`WeightStep`). All that
is proved about whole tests follows from it.
-/

namespace SkiVmm.Sched

open Lib

/-! ## Interrupts -/

/-- A step of the abstract machine that leaves the other parts alone, and the stacks of inactive CPUs. -/
structure HandlerEffect (s t : State) (l : Label) : Prop where
  step : HandlerStep s.handlers l t.handlers
  weights_eq : t.weights = s.weights
  budget_eq : t.budget = s.budget
  armed_eq : t.armed = s.armed
  idle : ∀ c, (s.cpu c).active = false → t.handlers.frame c = s.handlers.frame c

section Interrupts
variable {s t u : State} {cpuNo : Nat} {l : Label}

theorem Quiet.effect (h : Quiet s t) : HandlerEffect s t .other where
  step := by
    rw [h.handlers_eq]
    exact .same
  weights_eq := h.weights_eq
  budget_eq := h.budget_eq
  armed_eq := h.armed_eq
  idle := by
    intro c _
    rw [h.handlers_eq]

theorem arming_of_armed_eq (h : t.armed = s.armed) (c : Nat) : (t.cpu c).arming = (s.cpu c).arming :=
  State.cpu_congr h c

theorem active_of_armed_eq (h : t.armed = s.armed) (c : Nat) : (t.cpu c).active = (s.cpu c).active :=
  congrArg Prod.fst (arming_of_armed_eq h c)

theorem Quiet.trans_effect (h : Quiet s t) (h' : HandlerEffect t u l) : HandlerEffect s u l where
  step := h.handlers_eq ▸ h'.step
  weights_eq := h'.weights_eq.trans h.weights_eq
  budget_eq := h'.budget_eq.trans h.budget_eq
  armed_eq := h'.armed_eq.trans h.armed_eq
  idle := by
    intro c hc
    rw [← h.handlers_eq]
    exact h'.idle c ((active_of_armed_eq h.armed_eq c).trans hc)

theorem Handlers.Ok.getElem?_id (hok : s.handlers.Ok) {tc : ThreadContext} (h : tc ∈ s.threads) :
    s.threads[tc.id]? = some tc := by
  obtain ⟨i, hi⟩ := List.mem_iff_getElem?.mp h
  have hid : tc.shape.id = i := by
    refine hok.shapes_ok.id_eq i tc.shape ?_
    unfold State.handlers
    rw [List.getElem?_map, hi]
    rfl
  show s.threads[tc.shape.id]? = some tc
  rw [hid, hi]

theorem shapes_getElem? {i : Nat} {tc : ThreadContext} (h : s.threads[i]? = some tc) :
    s.handlers.shapes[i]? = some tc.shape := by
  unfold State.handlers
  rw [List.getElem?_map, h]
  rfl

theorem handlers_modifyThread {i : Nat} {tc : ThreadContext} (h : s.threads[i]? = some tc)
    (f : ThreadContext → ThreadContext) :
    (s.modifyThread i f).handlers = { s.handlers with shapes := s.handlers.shapes.set i (f tc).shape } := by
  unfold State.handlers State.modifyThread
  rw [modify_eq_set h, List.map_set]

theorem handlers_modifyCpu {f : Cpu → Cpu} (f' : Frames → Frames) (h : ∀ cpu, (f cpu).frames = f' cpu.frames) :
    (s.modifyCpu cpuNo f).handlers = { s.handlers with frames := s.handlers.frames.modify cpuNo f' } := by
  unfold State.handlers State.modifyCpu
  rw [map_modify_comm h]

theorem skiHandleNewIrqSet_effect {vectorNum : Int} (hok : s.handlers.Ok)
    (h : skiHandleNewIrqSet s cpuNo vectorNum = .ok t) :
    ∃ l, HandlerEffect s t l ∧ (l = .other ∨ l = .spawn cpuNo vectorNum) := by
  rcases skiHandleNewIrqSet_cases h with ⟨-, rfl⟩ | ⟨tc, hspawn, -, rfl⟩
  · exact ⟨.other, (Quiet.refl t).effect, .inl rfl⟩
  · obtain ⟨hmem, habsent, -, hcpu, hint, hno⟩ := skiThreadsFind_spec (spawnedBy_spec hspawn).2
    have hid := hok.getElem?_id hmem
    refine ⟨.spawn tc.shape.cpuNo tc.shape.intNo, ⟨?_, map_modify_eq fun _ _ => rfl, rfl, rfl, ?_⟩, .inr ?_⟩
    · rw [handlers_modifyThread hid]
      exact .spawn (shapes_getElem? hid) hint habsent
    · intro c _
      rw [handlers_modifyThread hid]
      rfl
    · show Label.spawn tc.cpuNo tc.intNo = _
      rw [hcpu, hno]

/-- The table and the stack of one active CPU change. -/
theorem HandlerEffect.of_modify {f : Frames → Frames} (shapes : List Shape) (hactive : (s.cpu cpuNo).active = true)
    (hhandlers : t.handlers = { shapes := shapes, frames := s.handlers.frames.modify cpuNo f })
    (hstep : HandlerStep s.handlers l { shapes := shapes, frames := s.handlers.frames.modify cpuNo f })
    (hweights : t.weights = s.weights) (hbudget : t.budget = s.budget) (harmed : t.armed = s.armed) :
    HandlerEffect s t l := by
  refine ⟨hhandlers ▸ hstep, hweights, hbudget, harmed, ?_⟩
  intro c hc
  have hlt : cpuNo < s.handlers.frames.length := by
    simpa [State.handlers] using State.lt_of_active hactive
  rw [hhandlers, frame_modify hlt, if_neg]
  rintro rfl
  rw [hactive] at hc
  cases hc

theorem handlers_push (s : State) (cpuNo : Nat) (stack : List SkiInterrupt) :
    (s.pushed cpuNo stack).handlers
      = { s.handlers with frames := s.handlers.frames.modify cpuNo fun fr => { stack := stack, no := fr.no + 1 } } :=
  handlers_modifyCpu _ fun _ => rfl

theorem budget_modifyCpu {f : Cpu → Cpu} (h : ∀ cpu, (f cpu).limit = cpu.limit) (cpuNo : Nat) :
    (s.modifyCpu cpuNo f).budget = s.budget := by
  unfold State.budget State.modifyCpu
  rw [map_modify_eq fun cpu _ => h cpu]

theorem budget_push (s : State) (cpuNo : Nat) (stack : List SkiInterrupt) :
    (s.pushed cpuNo stack).budget = s.budget := by
  apply budget_modifyCpu
  exact fun _ => rfl

/-- An exception or an `int` instruction. -/
theorem skiHandleInterruptBegin_soft {intNo : Int} {isIntInstruction : Bool} (hactive : (s.cpu cpuNo).active = true)
    (h : skiHandleInterruptBegin s cpuNo intNo isIntInstruction false = .ok t) : HandlerEffect s t .other := by
  obtain ⟨stack, hfill, ⟨hhw, -⟩ | ⟨-, rfl⟩⟩ := skiHandleInterruptBegin_cases h
  · rw [Bool.and_false] at hhw
    cases hhw
  · have hlt : cpuNo < s.handlers.frames.length := by
      simpa [State.handlers] using State.lt_of_active hactive
    rw [show (s.cpu cpuNo).interruptsStack = (s.handlers.frame cpuNo).stack by rw [State.frame_handlers]; rfl]
      at hfill
    exact .of_modify _ hactive (handlers_push s cpuNo stack) (.enter hlt (by rfl) (by rfl) hfill) rfl
      (budget_push s cpuNo stack) (map_modify_eq fun _ _ => rfl)

/-- The trigger of an interrupt thread. -/
theorem skiHandleInterruptBegin_hw {intNo : Int} (hok : s.handlers.Ok) (hactive : (s.cpu cpuNo).active = true)
    (h : skiHandleInterruptBegin s cpuNo intNo false true = .ok t) : HandlerEffect s t (.dispatch cpuNo intNo) := by
  obtain ⟨stack, hfill, ⟨-, tc, hfind, -, rfl⟩ | ⟨hsoft, -⟩⟩ := skiHandleInterruptBegin_cases h
  · obtain ⟨hmem, hpresent, hstate, rfl, hint, rfl⟩ := skiThreadsFind_spec hfind
    have hid : s.threads[tc.id]? = some tc := hok.getElem?_id hmem
    refine .of_modify (s.handlers.shapes.set tc.id { tc.shape with state := .runnable })
      (f := fun fr => { stack := stack, no := fr.no + 1 }) hactive ?_ (.dispatch (shapes_getElem? hid) ?_ ?_)
      (map_modify_eq fun _ _ => rfl) (budget_push s tc.cpuNo stack) (map_modify_eq fun _ _ => rfl)
    · have hset := handlers_modifyThread (s := s.pushed tc.cpuNo stack) hid fun tc => { tc with state := .runnable }
      rw [handlers_push] at hset
      exact hset
    · simp [awaitsTrigger, ThreadContext.shape, hpresent, hstate, hint]
    · rw [State.frame_handlers]
      exact hfill
  · cases hsoft

/-- The thread of the handler that ends leaves the table. -/
theorem endHandler_spec {intNo : Int} (h : endHandler s cpuNo intNo = .ok t)
    (hids : ∀ tc ∈ s.threads, s.threads[tc.id]? = some tc) :
    ∃ i sh state, s.handlers.shapes[i]? = some sh ∧ inHandler cpuNo intNo sh = true ∧
      (state = .na ∨ state = .countZero) ∧
      t.handlers = { s.handlers with shapes := s.handlers.shapes.set i { sh with present := false, state := state } } ∧
      t.weights = s.weights ∧ t.budget = s.budget ∧ t.armed = s.armed := by
  obtain ⟨tc, hfind, rfl⟩ := endHandler_cases h
  obtain ⟨hmem, hpresent, hstate, hcpu, hint, hno⟩ := skiThreadsFind_spec hfind
  have hid := hids tc hmem
  have hwoken (s : State) : Quiet s
      { s.modifyCpu cpuNo fun cpu => { cpu with waitForInterrupt := false } with needReevaluate := true } := by
    apply Quiet.rest
    apply quiet_modifyCpu <;> intros <;> rfl
  refine ⟨tc.id, tc.shape, if tc.count = 0 then .countZero else .na, shapes_getElem? hid, ?_, ?_, ?_, ?_, ?_, ?_⟩
  · simp [inHandler, ThreadContext.shape, hpresent, hstate, hcpu, hint, hno]
  · split <;> simp
  · refine (hwoken _).handlers_eq.trans ?_
    rw [handlers_modifyThread hid]
    rfl
  · refine (hwoken _).weights_eq.trans ?_
    exact map_modify_eq fun _ _ => rfl
  · exact (hwoken _).budget_eq
  · exact (hwoken _).armed_eq

/-- The stack loses its top: first its height, and in the end the mark of the cell. -/
theorem HandlerEffect.of_pop {top : Nat} (shapes : List Shape) (hactive : (s.cpu cpuNo).active = true)
    (ht : t.handlers =
      { shapes := shapes
        frames := (s.modifyCpu cpuNo fun cpu => { cpu with interruptsStackNo := top }).handlers.frames })
    (hstep : HandlerStep s.handlers l
      { shapes := shapes
        frames := s.handlers.frames.modify cpuNo fun fr =>
          { stack := fr.stack.modify top fun si => { si with present := false }, no := top } })
    (hweights : t.weights = s.weights) (hbudget : t.budget = s.budget) (harmed : t.armed = s.armed) :
    HandlerEffect s
      (t.modifyCpu cpuNo fun cpu =>
        { cpu with interruptsStack := cpu.interruptsStack.modify top fun si => { si with present := false } }) l := by
  refine .of_modify shapes hactive ?_ hstep hweights ?_ ?_
  · rw [handlers_modifyCpu (fun fr =>
      { fr with stack := fr.stack.modify top fun si => { si with present := false } }) fun _ => rfl, ht]
    rw [handlers_modifyCpu (fun fr => { fr with no := top }) fun _ => rfl, List.modify_modify_eq]
    rfl
  · refine Eq.trans ?_ hbudget
    apply budget_modifyCpu
    exact fun _ => rfl
  · refine Eq.trans ?_ harmed
    exact map_modify_eq fun _ _ => rfl

/-- The end of a handler, of an exception or of an `int` instruction. -/
theorem skiHandleInterruptEnd_effect (hok : s.handlers.Ok) (hactive : (s.cpu cpuNo).active = true)
    (h : skiHandleInterruptEnd s cpuNo = .ok t) : HandlerEffect s t .other := by
  rcases skiHandleInterruptEnd_cases h with ⟨-, rfl⟩ | ⟨hpos, u, rfl, hcases⟩
  · exact (Quiet.refl t).effect
  · have hno : (s.handlers.frame cpuNo).no = (s.cpu cpuNo).interruptsStackNo := by
      rw [State.frame_handlers]
      rfl
    have hlt : cpuNo < s.handlers.frames.length := by
      simpa [State.handlers] using State.lt_of_active hactive
    have hbudget : (lowered s cpuNo).budget = s.budget := by
      apply budget_modifyCpu
      exact fun _ => rfl
    have harmed : (lowered s cpuNo).armed = s.armed := map_modify_eq fun _ _ => rfl
    obtain ⟨fs, hfs⟩ := hok.frames_ok cpuNo
    obtain ⟨si, hsi⟩ := hfs.exists_top (by omega)
    have htop : topEntry (s.cpu cpuNo) = si := by
      unfold topEntry
      rw [State.frame_handlers] at hsi
      rw [List.getD_eq_getElem?_getD]
      exact congrArg (·.getD .zero) hsi
    rw [htop] at hcases
    rcases hcases with ⟨hhw, hend⟩ | ⟨hsoft, rfl⟩
    · obtain ⟨i, sh, state, hi, hin, hstate, hhandlers, hweights, hbudget', harmed'⟩ :=
        endHandler_spec hend (fun tc htc => hok.getElem?_id htc)
      refine .of_pop _ hactive hhandlers ?_ hweights (hbudget'.trans hbudget) (harmed'.trans harmed)
      rw [← hno]
      exact .finish hi (by omega) hsi hhw hin hstate
    · refine .of_pop s.handlers.shapes hactive rfl ?_ rfl hbudget harmed
      rw [← hno]
      exact .leave hlt (by omega) hsi hsoft

end Interrupts

/-! ## Priorities -/

/-- What a step does to the priorities of the threads and their adjustments, `n` counting the inversions. -/
inductive WeightStep (w : List (Int × Int)) (n : Nat) : List (Int × Int) → Nat → Prop
  | same : WeightStep w n w n
  /-- A starvation adjustment. -/
  | adjust {i : Nat} {p a : Int} (hi : w[i]? = some (p, a)) (hlt : a + schedAdjustInc < debugMaxAdjust) :
      WeightStep w n (w.set i (p, a + schedAdjustInc)) n
  /-- An inversion puts a thread one behind some of the others. -/
  | demote {i : Nat} {lowest : Int} (hlowest : ∀ bound, 0 ≤ bound → (∀ x ∈ w, x.1 ≤ bound) → lowest ≤ bound) :
      WeightStep w n (w.modify i fun x => (lowest + 1, x.2)) (n + 1)

/-- A step that leaves interrupts alone. -/
structure PriorityEffect (s t : State) : Prop where
  handlers_eq : t.handlers = s.handlers
  budget : BudgetStep s.budget t.budget
  weights : WeightStep s.weights s.inverted.length t.weights t.inverted.length
  armed_eq : t.armed = s.armed

section Priorities
variable {s t : State} {cpuNo : Nat}

theorem BudgetStep.of_eq (h : t.budget = s.budget) : BudgetStep s.budget t.budget := by
  rw [h]
  exact .same

theorem WeightStep.of_eq (hweights : t.weights = s.weights) (hbudget : t.budget = s.budget) :
    WeightStep s.weights s.inverted.length t.weights t.inverted.length := by
  rw [hweights, show t.inverted = s.inverted from congrArg Budget.inverted hbudget]
  exact .same

theorem Quiet.priorityEffect (h : Quiet s t) : PriorityEffect s t where
  handlers_eq := h.handlers_eq
  budget := .of_eq h.budget_eq
  weights := .of_eq h.weights_eq h.budget_eq
  armed_eq := h.armed_eq

theorem weights_modifyThread {i : Nat} {tc : ThreadContext} (h : s.threads[i]? = some tc)
    (f : ThreadContext → ThreadContext) : (s.modifyThread i f).weights = s.weights.set i (f tc).weight := by
  unfold State.weights State.modifyThread
  rw [modify_eq_set h, List.map_set]

theorem helperSkiInstrumentAll_effect (hok : s.handlers.Ok) (h : helperSkiInstrumentAll s = .ok t) :
    PriorityEffect s t := by
  rcases helperSkiInstrumentAll_cases h with ⟨-, rfl⟩ | ⟨id, tc, -, hid, hlt, rfl⟩
  · exact ((Quiet.refl s).rest ..).priorityEffect
  · have htc := hok.getElem?_id (List.mem_of_getElem? hid)
    refine ⟨?_, .same, ?_, rfl⟩
    · apply handlers_modifyThread_eq
      exact fun _ => rfl
    · have hweight : s.weights[tc.id]? = some (tc.priority, tc.priorityAdjust) := by
        unfold State.weights
        rw [List.getElem?_map, htc]
        rfl
      have hset := weights_modifyThread htc fun tc' =>
        { tc' with priorityAdjust := tc.priorityAdjust + schedAdjustInc }
      exact hset ▸ WeightStep.adjust hweight hlt

theorem limit_mem (hactive : (s.cpu cpuNo).active = true) : (true, (s.cpu cpuNo).nrMaxInstr) ∈ s.budget.limits := by
  have hlt := State.lt_of_active hactive
  have hmem : s.cpu cpuNo ∈ s.cpus := by
    unfold State.cpu
    rw [List.getD_eq_getElem _ _ hlt]
    exact List.getElem_mem hlt
  have := List.mem_map_of_mem (f := Cpu.limit) hmem
  rwa [show (s.cpu cpuNo).limit = (true, (s.cpu cpuNo).nrMaxInstr) by unfold Cpu.limit; rw [hactive]] at this

theorem lowestPriority_le {bound : Int} (hbound : 0 ≤ bound) (h : ∀ x ∈ s.weights, x.1 ≤ bound) :
    lowestPriority s ≤ bound := by
  unfold lowestPriority
  rw [foldl_max_le_iff]
  refine ⟨hbound, ?_⟩
  intro tc htc
  exact h tc.weight (List.mem_map_of_mem (List.mem_filter.mp htc).1)

theorem Cpu.withLimit_frames (next : Int) (cpu : Cpu) : (cpu.withLimit next).frames = cpu.frames := by
  unfold Cpu.withLimit
  split <;> rfl

theorem Cpu.withLimit_arming (next : Int) (cpu : Cpu) : (cpu.withLimit next).arming = cpu.arming := by
  unfold Cpu.withLimit
  split <;> rfl

theorem Cpu.withLimit_limit (next : Int) (cpu : Cpu) :
    (cpu.withLimit next).limit = if cpu.limit.1 then (cpu.limit.1, next) else cpu.limit := by
  unfold Cpu.withLimit Cpu.limit
  split <;> rfl

/-- Counting an instruction changes the count only. -/
theorem passed_parts (s : State) (cpuNo : Nat) :
    (s.passed cpuNo).handlers = s.handlers ∧ (s.passed cpuNo).weights = s.weights ∧
      (s.passed cpuNo).budget = { s.budget with total := s.budget.total + 1 } ∧
      (s.passed cpuNo).armed = s.armed := by
  have hquiet : Quiet s (s.modifyCpu cpuNo fun cpu => { cpu with nrInstrExecuted := cpu.nrInstrExecuted + 1 }) := by
    apply quiet_modifyCpu <;> intros <;> rfl
  refine ⟨hquiet.handlers_eq, hquiet.weights_eq, ?_, hquiet.armed_eq⟩
  rw [← hquiet.budget_eq]
  rfl

/-- A preemption changes the priority of one thread, takes a point, and makes the next one the limit. -/
theorem preempted_parts (s : State) (id : Nat) (taken : Int × List Int) :
    (s.preempted id taken).handlers = s.handlers ∧
      (s.preempted id taken).weights = s.weights.modify id (fun x => (lowestPriority s + 1, x.2)) ∧
      (s.preempted id taken).budget =
        { limits := s.budget.limits.map fun c => if c.1 then (c.1, taken.1) else c
          preemptions := taken.2
          total := s.budget.total
          inverted := s.budget.inverted ++ [s.budget.total] } ∧
      (s.preempted id taken).armed = s.armed := by
  refine ⟨?_, ?_, ?_, ?_⟩
  · have hframes : (s.cpus.map (Cpu.withLimit taken.1)).map (·.frames) = s.cpus.map (·.frames) := by
      rw [List.map_map]
      exact List.map_congr_left fun cpu _ => cpu.withLimit_frames taken.1
    have hshapes : (s.preempted id taken).threads.map (·.shape) = s.threads.map (·.shape) :=
      map_modify_eq fun _ _ => rfl
    unfold State.handlers
    rw [hshapes]
    exact congrArg _ hframes
  · apply map_modify_comm
    exact fun _ => rfl
  · have hlimits : (s.cpus.map (Cpu.withLimit taken.1)).map (·.limit)
        = s.budget.limits.map fun c => if c.1 then (c.1, taken.1) else c := by
      unfold State.budget
      rw [List.map_map, List.map_map]
      exact List.map_congr_left fun cpu _ => cpu.withLimit_limit taken.1
    rw [← hlimits]
    rfl
  · show (s.cpus.map (Cpu.withLimit taken.1)).map (·.arming) = _
    rw [List.map_map]
    exact List.map_congr_left fun cpu _ => cpu.withLimit_arming taken.1

theorem helperSkiInstrumentPossibleInversionPoint_effect {mode : PreemptionMode}
    (hactive : (s.cpu cpuNo).active = true)
    (h : helperSkiInstrumentPossibleInversionPoint mode s cpuNo = .ok t) : PriorityEffect s t := by
  obtain ⟨hhandlers, hweights, hbudget, harmed⟩ := passed_parts s cpuNo
  have hlimit := limit_mem ((active_of_armed_eq harmed cpuNo).trans hactive)
  rw [hbudget] at hlimit
  rcases helperSkiInstrumentPossibleInversionPoint_cases h with
    ⟨-, rfl⟩ | ⟨-, ⟨-, rfl⟩ | ⟨-, ⟨hne, rfl⟩ | ⟨heq, id, -, rfl⟩⟩⟩
  · exact (Quiet.refl t).priorityEffect
  · refine Quiet.priorityEffect ?_
    apply quiet_modifyCpu <;> intros <;> rfl
  · -- below the limit
    refine ⟨hhandlers, ?_, ?_, harmed⟩
    · rw [hbudget]
      exact .count hlimit hne
    · rw [hweights]
      exact .same
  · -- at the limit
    rw [← heq] at hlimit ⊢
    generalize htaken : skiPreemptionGetAndClearLowest s.preemptions (s.instructionsTotal + 1) = taken
    obtain ⟨hhandlers', hweights', hbudget', harmed'⟩ := preempted_parts (s.passed cpuNo) id taken
    refine ⟨hhandlers'.trans hhandlers, ?_, ?_, harmed'.trans harmed⟩
    · have hinvert : ((s.passed cpuNo).preempted id taken).budget = s.budget.invert := by
        rw [hbudget', hbudget, ← htaken]
        rfl
      rw [hinvert]
      exact .invert hlimit
    · have hinverted : ((s.passed cpuNo).preempted id taken).inverted.length = s.inverted.length + 1 :=
        List.length_append
      rw [hinverted, hweights', hweights]
      refine .demote ?_
      intro bound hbound hle
      rw [lowestPriority_passed]
      exact lowestPriority_le hbound hle

end Priorities

/-! ## Events -/

/-- What one event does: a step of each of the abstract machines. -/
structure Effect (s t : State) (ev : Event) : Prop where
  handlers : ∃ l, HandlerStep s.handlers l t.handlers ∧
    (∀ c v, l = .spawn c v → ev = .newIrqSet c v) ∧
    ∀ c v, l = .dispatch c v → ev = .guest c .dispatch ∧ dispatchedVector s c = some v
  budget : BudgetStep s.budget t.budget
  weights : WeightStep s.weights s.inverted.length t.weights t.inverted.length
  armed_eq : t.armed = s.armed
  idle : ∀ c, (s.cpu c).active = false → t.handlers.frame c = s.handlers.frame c

section Events
variable {setup : Setup} {s t : State} {ev : Event}

theorem HandlerEffect.toEffect {l : Label} (h : HandlerEffect s t l)
    (hspawn : ∀ c v, l = .spawn c v → ev = .newIrqSet c v)
    (hdispatch : ∀ c v, l = .dispatch c v → ev = .guest c .dispatch ∧ dispatchedVector s c = some v) :
    Effect s t ev where
  handlers := ⟨l, h.step, hspawn, hdispatch⟩
  budget := .of_eq h.budget_eq
  weights := .of_eq h.weights_eq h.budget_eq
  armed_eq := h.armed_eq
  idle := h.idle

theorem HandlerEffect.toEffect_other (h : HandlerEffect s t .other) : Effect s t ev :=
  h.toEffect (fun _ _ h => by cases h) (fun _ _ h => by cases h)

theorem PriorityEffect.toEffect (h : PriorityEffect s t) : Effect s t ev where
  handlers := by
    rw [h.handlers_eq]
    exact ⟨.other, .same, (fun _ _ h => by cases h), (fun _ _ h => by cases h)⟩
  budget := h.budget
  weights := h.weights
  armed_eq := h.armed_eq
  idle := by
    intro c _
    rw [h.handlers_eq]

theorem Quiet.toEffect (h : Quiet s t) : Effect s t ev := h.priorityEffect.toEffect

theorem guestStep_effect {cpuNo : Nat} {op : GuestOp} (hok : s.handlers.Ok) (hactive : (s.cpu cpuNo).active = true)
    (h : guestStep setup s cpuNo op = .ok t) : Effect s t (.guest cpuNo op) := by
  cases op with
  | dispatch =>
    obtain ⟨intNo, hvector, hbegin⟩ := guestStep_dispatch_cases h
    have hacked : Quiet s (s.modifyCpu cpuNo fun cpu => { cpu with irq := { cpu.irq with hard := false } }) := by
      apply quiet_modifyCpu <;> intros <;> rfl
    have heffect := skiHandleInterruptBegin_hw (hacked.handlers_eq ▸ hok)
      ((active_of_armed_eq hacked.armed_eq cpuNo).trans hactive) hbegin
    refine (hacked.trans_effect heffect).toEffect (fun _ _ h => by cases h) ?_
    intro c v heq
    obtain ⟨rfl, rfl⟩ := Label.dispatch.inj heq
    exact ⟨rfl, hvector⟩
  | interruptBegin intNo isIntInstruction => exact (skiHandleInterruptBegin_soft hactive h).toEffect_other
  | interruptEnd => exact (skiHandleInterruptEnd_effect hok hactive h).toEffect_other
  | loadAccess eip address value => exact (helperSkiLoadAccess_quiet h).toEffect
  | storeAccess address => exact (skiThreadsAllWakeRs_quiet h).toEffect
  | pause => exact (helperSkiInstrumentPause_quiet h).toEffect
  | hlt => exact (skiThreadsSelfWaitHlt_quiet h).toEffect
  | instrumentAll => exact (helperSkiInstrumentAll_effect hok h).toEffect
  | possibleInversionPoint => exact (helperSkiInstrumentPossibleInversionPoint_effect hactive h).toEffect
  | testExit =>
    obtain rfl := guestStep_testExit_cases h
    refine Quiet.toEffect ?_
    apply Quiet.rest
    apply quiet_modifyCpu <;> intros <;> rfl

/-- **One event is one step of each abstract machine.** -/
theorem step_effect (hok : s.handlers.Ok) (h : step setup s ev = .ok t) : Effect s t ev := by
  cases ev with
  | newIrqSet cpuNo vectorNum =>
    obtain ⟨l, heffect, rfl | rfl⟩ := skiHandleNewIrqSet_effect hok h
    · exact heffect.toEffect_other
    · refine heffect.toEffect ?_ (fun _ _ h => by cases h)
      intro c v heq
      obtain ⟨rfl, rfl⟩ := Label.spawn.inj heq
      rfl
  | setIrq cpuNo irq =>
    obtain rfl := Except.ok.inj h
    refine Quiet.toEffect ?_
    apply quiet_modifyCpu <;> intros <;> rfl
  | canRun cpuNo =>
    obtain ⟨-, -, u, res, hrun, rfl⟩ := step_canRun_cases h
    exact ((skiCpuCanRun_quiet hrun).rest ..).toEffect
  | leave =>
    obtain rfl := Except.ok.inj h
    exact ((Quiet.refl s).rest ..).toEffect
  | guest cpuNo op =>
    obtain ⟨-, ⟨-, rfl⟩ | ⟨hactive, h⟩⟩ := step_guest_cases h
    · exact (Quiet.refl t).toEffect
    · exact guestStep_effect hok hactive h

end Events

end SkiVmm.Sched
