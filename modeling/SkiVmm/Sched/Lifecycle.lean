import SkiVmm.Sched.Change
import SkiVmm.Sched.Nesting

/-!
# `Sched.Lifecycle` — the life of an interrupt thread

An interrupt thread of the table is spawned by a request, triggered by the dispatch of its interrupt, and ended by
the return from the handler, over and over until its count is used up:

    NA --request--> NEEDS_TRIGGER --dispatch--> RUNNABLE --return--> NA or COUNT_ZERO

* `lifecycle_of_reachable` — the state of a thread says whether it exists and whether it may be spawned again, and
  no entry of the table is spawned more often than its count.
* `stack_matches_threads` — the threads that are RUNNABLE are those whose handlers are on the interrupt stacks.
-/

namespace SkiVmm.Sched

open Lib

/-! ## States and counts -/

/-- What the state of a thread says. -/
structure LifeOk (tc : ThreadContext) : Prop where
  cpu_thread : tc.isInt = false → tc.present = true ∧ tc.state = .runnable
  present_iff : tc.isInt = true → (tc.present = true ↔ tc.state = .needsTrigger ∨ tc.state = .runnable)
  absent : tc.isInt = true → tc.present = false →
    (tc.state = .na ↔ 0 < tc.count) ∧ (tc.state = .countZero ↔ tc.count = 0)
  count_nonneg : tc.isInt = true → 0 ≤ tc.count

/-- The thread with index `i` exists. -/
def State.threadExists (s : State) (i : Nat) : Bool := s.threads[i]?.any (·.present)

/-- How often the thread with index `i` is spawned by the events, up to the first one that ends the process. -/
def spawns (setup : Setup) (i : Nat) : State → List Event → Nat
  | _, [] => 0
  | s, ev :: events =>
    match step setup s ev with
    | .error _ => 0
    | .ok t => (if !s.threadExists i && t.threadExists i then 1 else 0) + spawns setup i t events

section Life
variable {s t : State} {ev : Event} {tc tc' : ThreadContext}

/-- **One event in the life of a thread.** -/
theorem Change.lifeOk (h : Change s t ev tc tc') (hok : LifeOk tc) : LifeOk tc' := by
  obtain ⟨hcpu, hpresent, habsent, hcount⟩ := hok
  cases h with
  -- these leave the fields alone that `LifeOk` reads
  | same | wait | pause | wake | weigh => exact ⟨hcpu, hpresent, habsent, hcount⟩
  | spawn _ hint _ _ hpos =>
    refine ⟨fun hcpu => ?_, by simp, fun _ hab => ?_, fun _ => Int.le_sub_one_of_lt hpos⟩
    · rw [hint] at hcpu
      cases hcpu
    · cases hab
  | trigger _ hint hex _ =>
    refine ⟨fun hcpu => ?_, fun _ => by simp [hex], fun _ hab => ?_, hcount⟩
    · rw [hint] at hcpu
      cases hcpu
    · rw [hex] at hab
      cases hab
  | finish _ hint _ _ =>
    have hnonneg := hcount hint
    refine ⟨fun hcpu => ?_, fun _ => ?_, fun _ _ => ?_, hcount⟩
    · rw [hint] at hcpu
      cases hcpu
    · simp only
      split <;> simp
    · simp only
      split
      · next hzero => simp [hzero]
      · next hne =>
        simp only [reduceCtorEq, true_iff, false_iff]
        exact ⟨by omega, hne⟩

/-- The count goes down when the thread is spawned, and only then. -/
theorem Change.count_eq (h : Change s t ev tc tc') :
    tc'.count + (if !tc.present && tc'.present then 1 else 0) = tc.count := by
  cases h with
  | spawn _ _ habsent => simp [habsent]
  | finish => simp
  | same | trigger | wait | pause | wake | weigh => simp [ThreadContext.waiting, ThreadContext.woken]

theorem Change.isInt_eq (h : Change s t ev tc tc') : tc'.isInt = tc.isInt := by cases h <;> rfl

end Life

section Runs
variable {setup : Setup}

/-- Threads start with the states that `ski_tc_initialize` gives them. -/
theorem Setup.start_lifeOk (hn : ∀ e ∈ setup.table, 0 ≤ e.i → 1 ≤ e.n) :
    ∀ tc ∈ setup.start.threads, LifeOk tc := by
  intro tc htc
  obtain ⟨i, e, he, rfl⟩ := setup.exists_entry htc
  have hpos := hn e he
  by_cases hint : 0 ≤ e.i
  · have hpos := hpos hint
    refine ⟨?_, ?_, ?_, ?_⟩ <;> simp [skiTcInitialize, hint]
    all_goals omega
  · refine ⟨?_, ?_, ?_, ?_⟩ <;> simp [skiTcInitialize, hint]

theorem lifeOk_step {s t : State} {ev : Event} (hsane : Sane s) (hstep : step setup s ev = .ok t)
    (h : ∀ tc ∈ s.threads, LifeOk tc) : ∀ tc ∈ t.threads, LifeOk tc := by
  intro tc' htc'
  obtain ⟨i, hi⟩ := List.mem_iff_getElem?.mp htc'
  obtain ⟨tc, htc, hchange⟩ := (step_changes hsane.handlers_ok hstep).exists_before hi
  exact hchange.lifeOk (h tc (List.mem_of_getElem? htc))

/-- **Run lemma**: a thread is spawned at most as often as its count allows. -/
theorem spawns_le_count {s : State} (hsane : Sane s) (hlife : ∀ tc ∈ s.threads, LifeOk tc) {i : Nat}
    {tc : ThreadContext} (hi : s.threads[i]? = some tc) (hint : tc.isInt = true) (events : List Event) :
    (spawns setup i s events : Int) ≤ tc.count := by
  induction events generalizing s tc with
  | nil => exact (hlife tc (List.mem_of_getElem? hi)).count_nonneg hint
  | cons ev events ih =>
    unfold spawns
    split
    · exact (hlife tc (List.mem_of_getElem? hi)).count_nonneg hint
    · next t hstep =>
      obtain ⟨tc', hi', hchange⟩ := (step_changes hsane.handlers_ok hstep).getElem? hi
      have hrest := ih (hsane.step hstep) (lifeOk_step hsane hstep hlife) hi' (hchange.isInt_eq.trans hint)
      have hcount := hchange.count_eq
      simp only [State.threadExists, hi, hi', Option.any_some]
      split_ifs at hcount ⊢ <;> push_cast <;> omega

end Runs

/-- **The life of threads.** For a table whose interrupt entries have a count of at least one, and after any
    events: CPU threads exist and are RUNNABLE; an interrupt thread exists exactly in the states NEEDS_TRIGGER and
    RUNNABLE; one that does not exist is NA if it may be spawned again and COUNT_ZERO if not. No entry is spawned
    more often than its count. -/
theorem lifecycle_of_reachable (setup : Setup) (hn : ∀ e ∈ setup.table, 0 ≤ e.i → 1 ≤ e.n) :
    (∀ s, Reachable setup s → ∀ tc ∈ s.threads,
      (tc.isInt = false → tc.present = true ∧ tc.state = .runnable) ∧
      (tc.isInt = true →
        (tc.present = true ↔ tc.state = .needsTrigger ∨ tc.state = .runnable) ∧
        (tc.present = false →
          (tc.state = .na ↔ 0 < tc.count) ∧ (tc.state = .countZero ↔ tc.count = 0)))) ∧
    ∀ events i e, setup.table[i]? = some e → 0 ≤ e.i → (spawns setup i setup.start events : Int) ≤ e.n := by
  constructor
  · rintro s ⟨events, hrun⟩ tc htc
    have htc := run_threads hrun (Setup.start_lifeOk hn) (fun _ hchange => hchange.lifeOk) tc htc
    exact ⟨htc.cpu_thread, fun hint => ⟨htc.present_iff hint, htc.absent hint⟩⟩
  · intro events i e he hint
    have hi : setup.start.threads[i]? = some { skiTcInitialize i i e.cpu e.i 0 with count := e.n } := by
      rw [show setup.start.threads = setup.threads from rfl, setup.getElem?_threads, he]
      rfl
    exact spawns_le_count setup.start_sane (Setup.start_lifeOk hn) hi (decide_eq_true hint) events

/-- The handler of vector 49 runs twice over, but the second request finds no thread left. -/
theorem lifecycle_of_reachable_twoVectors :
    (∃ s, Reachable twoVectors s ∧ ∃ tc ∈ s.threads, tc.intNo = 49 ∧ tc.state = .countZero ∧ tc.count = 0) ∧
    (spawns twoVectors 1 twoVectors.start
      (request 49 ++ [.guest 0 .dispatch, .guest 0 .interruptEnd] ++ request 49) : Int) = 1 := by
  obtain ⟨hlife, hspawns⟩ := lifecycle_of_reachable twoVectors (by decide)
  constructor
  · obtain ⟨s, hreach, hs⟩ := exists_reachable_of_exec twoVectors
      (request 49 ++ [.guest 0 .dispatch, .guest 0 .interruptEnd])
      (p := fun s => s.threads.any fun tc => tc.intNo = 49 && tc.isInt && !tc.present && tc.state = .countZero)
      (by decide)
    obtain ⟨tc, htc, hs⟩ := List.any_eq_true.mp hs
    simp only [Bool.and_eq_true, decide_eq_true_eq, Bool.not_eq_true'] at hs
    obtain ⟨⟨⟨hno, hint⟩, habsent⟩, hstate⟩ := hs
    exact ⟨s, hreach, tc, htc, hno, hstate, ((((hlife s hreach tc htc).2 hint).2 habsent).2).mp hstate⟩
  · refine Int.le_antisymm (hspawns _ 1 { cpu := 0, i := 49, n := 1 } rfl (by decide)) ?_
    decide

/-! ## Stacks and threads -/

section Stacks
variable {setup : Setup} {s : State}

/-- The interrupt stacks have `SKI_MAX_INTERRUPTS_STACK` cells. -/
theorem Reachable.interruptsStack_length (h : Reachable setup s) (c : Nat) :
    (s.cpu c).interruptsStack.length = maxInterruptsStack := by
  obtain ⟨events, hrun⟩ := h
  have hlen : ∀ c, (s.handlers.frame c).stack.length = maxInterruptsStack := by
    refine run_invariant (P := fun s => ∀ c, (s.handlers.frame c).stack.length = maxInterruptsStack) hrun ?_ ?_
    · intro c
      rw [setup.frame_start c]
      exact List.length_replicate
    · intro s ev t hsane hlen _ heffect c
      obtain ⟨l, hstep, -⟩ := heffect.handlers
      rw [hstep.stack_length hsane.handlers_ok, hlen]
  have := hlen c
  rwa [State.frame_handlers] at this

theorem Sane.countP_isHandlerOf (h : Sane s) (c : Nat) (v : Int) :
    (s.cpu c).interruptsStack.countP (hwOf v) = s.threads.countP (isHandlerOf c v) := by
  rw [h.countP_hwOf]
  unfold State.handlers
  rw [List.countP_map]
  congr 1
  funext tc
  exact (isHandlerOf_eq c v tc).symm

/-- A thread in the handler of the vector is found, whatever the priorities. -/
theorem exists_skiThreadsFind {c : Nat} {v : Int} (h : 0 < s.threads.countP (isHandlerOf c v)) :
    ∃ tc, skiThreadsFind s true c v .runnable = some tc := by
  obtain ⟨tc, hmem, htc⟩ := List.countP_pos_iff.mp h
  unfold skiThreadsFind
  refine Option.ne_none_iff_exists'.mp fun hnone => ?_
  have hempty := List.filter_eq_nil_iff.mp (lastMin_eq_none.mp hnone) tc hmem
  simp only [isHandlerOf, Bool.and_eq_true, decide_eq_true_eq] at htc
  simp [htc] at hempty

end Stacks

/-- **Stacks and threads are in step.** In every state of a test and on every CPU, the entries of the interrupt
    stack that exist are those below `interrupts_stack_no`, and for every vector there are as many hardware entries
    on the stack as there are threads in its handler. So the thread that `ski_handle_interrupt_end` asserts is
    always found. -/
theorem stack_matches_threads {setup : Setup} {s : State} (h : Reachable setup s) (c : Nat) :
    (s.cpu c).interruptsStack.length = maxInterruptsStack ∧
    (s.cpu c).interruptsStackNo ≤ maxInterruptsStack ∧
    (∀ i, (s.cpu c).interruptsStack[i]?.any (·.present) = true ↔ i < (s.cpu c).interruptsStackNo) ∧
    (∀ v, (s.cpu c).interruptsStack.countP (hwOf v) = s.threads.countP (isHandlerOf c v)) ∧
    ∀ si, 0 < (s.cpu c).interruptsStackNo →
      (s.cpu c).interruptsStack[(s.cpu c).interruptsStackNo - 1]? = some si → si.isHw = true →
      ∃ tc, skiThreadsFind (s.modifyCpu c fun cpu => { cpu with interruptsStackNo := (s.cpu c).interruptsStackNo - 1 })
        true c si.intNo .runnable = some tc := by
  have hsane := h.sane
  have hlen := h.interruptsStack_length c
  obtain ⟨fs, hfs⟩ := hsane.handlers_ok.frames_ok c
  rw [State.frame_handlers] at hfs
  have hused := hfs.isStack.used_iff
  rw [hfs.length_eq] at hused
  refine ⟨hlen, ?_, hused, hsane.countP_isHandlerOf c, ?_⟩
  · obtain ⟨rest, hsplit, -⟩ := hfs.isStack.split
    have hcells : (s.cpu c).interruptsStack.length = fs.length + rest.length := by
      rw [← List.length_append, ← hsplit]
      rfl
    have hno : fs.length = (s.cpu c).interruptsStackNo := hfs.length_eq
    omega
  · intro si hpos hsi hhw
    apply exists_skiThreadsFind
    refine Nat.lt_of_lt_of_eq ?_ (hsane.countP_isHandlerOf c si.intNo)
    refine List.countP_pos_iff.mpr ⟨si, List.mem_of_getElem? hsi, ?_⟩
    -- the top entry is one of the frames, so it exists and is no `int` instruction
    obtain ⟨fs', rfl, -⟩ := hfs.pop (Nat.ne_of_gt hpos) hsi
    have hmem : si ∈ fs' ++ [si] := by simp
    simp [hwOf, SkiInterrupt.isHwEntry, hfs.isStack.used_frames si hmem, hhw, hfs.hw_entry si hmem hhw]

/-- One handler inside of another one. -/
theorem stack_matches_threads_nested :
    ∃ s, Reachable twoVectors s ∧ (s.cpu 0).interruptsStackNo = 2 ∧
      ∃ tc, skiThreadsFind (s.modifyCpu 0 fun cpu => { cpu with interruptsStackNo := 1 }) true 0 50 .runnable
        = some tc := by
  obtain ⟨s, hreach, hs⟩ := exists_reachable_of_exec twoVectors
    (request 49 ++ [Event.guest 0 .dispatch] ++ request 50 ++ [Event.guest 0 .dispatch])
    (p := fun s => (s.cpu 0).interruptsStackNo = 2 && (s.cpu 0).interruptsStack[1]? = some (hwEntry 50))
    (by decide)
  simp only [Bool.and_eq_true, decide_eq_true_eq] at hs
  obtain ⟨hno, htop⟩ := hs
  have hend := (stack_matches_threads hreach 0).2.2.2.2 (hwEntry 50)
  rw [hno] at hend
  exact ⟨s, hreach, hno, hend (by decide) htop rfl⟩

end SkiVmm.Sched
