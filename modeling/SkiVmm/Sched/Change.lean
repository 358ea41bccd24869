import SkiVmm.Sched.Reach

/-!
# `Sched.Change` — what each event does to each thread

`Sched.Effect` follows parts of the whole table. Here one thread is followed through one event (`Change`): it is
spawned, triggered or ended, it starts to wait or is woken, or only its `last_pause` or its priority changes.
`step_changes` says that this is all that ever happens to a thread; the results on the life of interrupt threads
and on waiting are derived from it.
-/

namespace SkiVmm.Sched

open Lib

/-- Why the current thread is put to wait by an operation: it has read one value too often, or it has paused
    twice. -/
inductive WaitCause (s : State) (tc : ThreadContext) : GuestOp → Bool → Prop
  | loop (eip address value : Int) : WaitCause s tc (.loadAccess eip address value) false
  | pause (hclose : tc.lastPause + maxLivenessPauseDistance ≥ s.instructionCounter) : WaitCause s tc .pause true

/-- What the event `ev`, from `s` to `t`, does to the thread `tc`. -/
inductive Change (s t : State) (ev : Event) (tc : ThreadContext) : ThreadContext → Prop
  | same : Change s t ev tc tc
  | spawn (hev : ev = .newIrqSet tc.cpuNo tc.intNo) (hint : tc.isInt = true) (habsent : tc.present = false)
      (hna : tc.state = .na) (hcount : 0 < tc.count) :
      Change s t ev tc { tc with present := true, state := .needsTrigger, count := tc.count - 1 }
  | trigger (hev : ev = .guest tc.cpuNo .dispatch) (hint : tc.isInt = true) (hpresent : tc.present = true)
      (hwaits : tc.state = .needsTrigger) : Change s t ev tc { tc with state := .runnable }
  | finish (hev : ev = .guest tc.cpuNo .interruptEnd) (hint : tc.isInt = true) (hpresent : tc.present = true)
      (hruns : tc.state = .runnable) :
      Change s t ev tc { tc with present := false, state := if tc.count = 0 then .countZero else .na }
  | wait {c : Nat} {op : GuestOp} {isPause : Bool} {waitRs : SkiMa} (hev : ev = .guest c op)
      (hactive : (s.cpu c).active = true) (hcurrent : s.current = some tc.id) (hcause : WaitCause s tc op isPause)
      (hcopy : skiLivenessCopy (t.cpu c).cpuRs = some waitRs) : Change s t ev tc (tc.waiting isPause waitRs)
  | pause {c : Nat} (hev : ev = .guest c .pause) (hcurrent : s.current = some tc.id) :
      Change s t ev tc { tc with lastPause := s.instructionCounter }
  | wake {c : Nat} {address : Int} (hev : ev = .guest c (.storeAccess address)) (hactive : (s.cpu c).active = true)
      (hwoken : wokenBy address tc = true) : Change s t ev tc tc.woken
  | weigh (priority priorityAdjust : Int) :
      Change s t ev tc { tc with priority := priority, priorityAdjust := priorityAdjust }

/-- The whole table, thread by thread. -/
def Changes (s t : State) (ev : Event) : Prop := List.Forall₂ (Change s t ev) s.threads t.threads

/-! ## Changes of a table -/

section Tables
variable {s t : State} {ev : Event}

theorem Changes.of_eq (h : t.threads = s.threads) : Changes s t ev := by
  unfold Changes
  rw [h, List.forall₂_same]
  exact fun tc _ => .same

theorem Changes.of_modify {id : Nat} {f : ThreadContext → ThreadContext} (h : t.threads = s.threads.modify id f)
    (hchange : ∀ tc, s.threads[id]? = some tc → Change s t ev tc (f tc)) : Changes s t ev := by
  unfold Changes
  rw [h]
  exact forall₂_modify (fun tc => .same) hchange

theorem Changes.of_map {f : ThreadContext → ThreadContext} (h : t.threads = s.threads.map f)
    (hchange : ∀ tc ∈ s.threads, Change s t ev tc (f tc)) : Changes s t ev := by
  unfold Changes
  rw [h, List.forall₂_map_right_iff, List.forall₂_same]
  exact hchange

/-- The thread with the same index afterwards. -/
theorem Changes.getElem? (h : Changes s t ev) {i : Nat} {tc : ThreadContext} (hi : s.threads[i]? = some tc) :
    ∃ tc', t.threads[i]? = some tc' ∧ Change s t ev tc tc' := by
  obtain ⟨hlt, rfl⟩ := List.getElem?_eq_some_iff.mp hi
  have hlt' : i < t.threads.length := h.length_eq ▸ hlt
  exact ⟨t.threads[i], List.getElem?_eq_getElem hlt', h.get hlt hlt'⟩

/-- Where a thread comes from. -/
theorem Changes.exists_before (h : Changes s t ev) {i : Nat} {tc' : ThreadContext} (hi : t.threads[i]? = some tc') :
    ∃ tc, s.threads[i]? = some tc ∧ Change s t ev tc tc' := by
  obtain ⟨hlt', rfl⟩ := List.getElem?_eq_some_iff.mp hi
  have hlt : i < s.threads.length := h.length_eq ▸ hlt'
  exact ⟨s.threads[i], List.getElem?_eq_getElem hlt, h.get hlt hlt'⟩

end Tables

/-! ## Operations -/

section Ops
variable {s t : State} {cpuNo : Nat}

/-- An entry of the table that was found by its index has that index as its `id`. -/
theorem Handlers.Ok.id_of_getElem? (hok : s.handlers.Ok) {i : Nat} {tc : ThreadContext}
    (hi : s.threads[i]? = some tc) : tc.id = i :=
  hok.shapes_ok.id_eq i tc.shape (shapes_getElem? hi)

/-- The thread found is the one that is changed. -/
theorem Changes.of_find (hok : s.handlers.Ok) {tc : ThreadContext} (hmem : tc ∈ s.threads)
    {ev : Event} {f : ThreadContext → ThreadContext} (h : t.threads = s.threads.modify tc.id f)
    (hchange : Change s t ev tc (f tc)) : Changes s t ev := by
  refine .of_modify h ?_
  intro tc' htc'
  rw [hok.getElem?_id hmem] at htc'
  obtain rfl := Option.some.inj htc'
  exact hchange

theorem skiHandleNewIrqSet_changes {vectorNum : Int} (hok : s.handlers.Ok)
    (h : skiHandleNewIrqSet s cpuNo vectorNum = .ok t) : Changes s t (.newIrqSet cpuNo vectorNum) := by
  rcases skiHandleNewIrqSet_cases h with ⟨-, rfl⟩ | ⟨tc, hspawn, hcount, rfl⟩
  · exact .of_eq rfl
  · obtain ⟨hmem, habsent, hna, rfl, hint, rfl⟩ := skiThreadsFind_spec (spawnedBy_spec hspawn).2
    exact .of_find hok hmem rfl (.spawn rfl hint habsent hna hcount)

theorem skiHandleInterruptBegin_changes {u : State} {intNo : Int} {isIntInstruction isHw : Bool} (hok : s.handlers.Ok)
    (hu : u.threads = s.threads) {ev : Event} (hev : isHw = true → ev = .guest cpuNo .dispatch)
    (h : skiHandleInterruptBegin u cpuNo intNo isIntInstruction isHw = .ok t) : Changes s t ev := by
  obtain ⟨stack, -, ⟨hhw, tc, hfind, -, rfl⟩ | ⟨-, rfl⟩⟩ := skiHandleInterruptBegin_cases h
  · obtain ⟨hmem, hpresent, hwaits, rfl, hint, rfl⟩ := skiThreadsFind_spec hfind
    have hthreads := congrArg (·.modify tc.id fun tc => { tc with state := .runnable }) hu
    exact .of_find hok (hu ▸ hmem) hthreads (.trigger (hev (Bool.and_eq_true_iff.mp hhw).2) hint hpresent hwaits)
  · exact .of_eq hu

theorem skiHandleInterruptEnd_changes (hok : s.handlers.Ok) (h : skiHandleInterruptEnd s cpuNo = .ok t) :
    Changes s t (.guest cpuNo .interruptEnd) := by
  rcases skiHandleInterruptEnd_cases h with ⟨-, rfl⟩ | ⟨-, u, rfl, ⟨-, hend⟩ | ⟨-, rfl⟩⟩
  · exact .of_eq rfl
  · obtain ⟨tc, hfind, rfl⟩ := endHandler_cases hend
    obtain ⟨hmem, hpresent, hruns, rfl, hint, -⟩ := skiThreadsFind_spec hfind
    exact .of_find hok hmem rfl (.finish rfl hint hpresent hruns)
  · exact .of_eq rfl

theorem helperSkiLoadAccess_changes {eip address value : Int} (hok : s.handlers.Ok)
    (hactive : (s.cpu cpuNo).active = true) (h : helperSkiLoadAccess s cpuNo eip address value = .ok t) :
    Changes s t (.guest cpuNo (.loadAccess eip address value)) := by
  rcases helperSkiLoadAccess_cases h with ⟨-, rfl⟩ | ⟨-, id, waitRs, hcurrent, hcopy, rfl⟩
  · exact .of_eq rfl
  · refine .of_modify rfl ?_
    intro tc htc
    have hid : s.current = some tc.id := by
      rw [hok.id_of_getElem? htc]
      exact hcurrent
    exact .wait rfl hactive hid (.loop eip address value) hcopy

theorem helperSkiInstrumentPause_changes (hok : s.handlers.Ok) (hactive : (s.cpu cpuNo).active = true)
    (h : helperSkiInstrumentPause s cpuNo = .ok t) : Changes s t (.guest cpuNo .pause) := by
  obtain ⟨id, hcurrent, ⟨hclose, waitRs, hcopy, rfl⟩ | ⟨-, cpuRs, -, rfl⟩⟩ := helperSkiInstrumentPause_spec h
  · refine .of_modify rfl ?_
    intro tc htc
    rw [htc] at hclose
    have hid : s.current = some tc.id := by
      rw [hok.id_of_getElem? htc]
      exact hcurrent
    exact .wait rfl hactive hid (.pause hclose) hcopy
  · refine .of_modify rfl ?_
    intro tc htc
    refine .pause rfl ?_
    rw [hok.id_of_getElem? htc]
    exact hcurrent

/-- What `ski_threads_all_wake_rs` does to the table. -/
theorem skiThreadsAllWakeRs_threads {address : Int} (h : skiThreadsAllWakeRs s address = .ok t) :
    t.threads = s.threads.map (·.stored address) := by
  rcases skiThreadsAllWakeRs_cases h with ⟨hnone, rfl⟩ | ⟨-, rfl⟩
  · refine Eq.symm ((List.map_congr_left ?_).trans (List.map_id _))
    intro tc htc
    unfold ThreadContext.stored
    rw [if_neg (List.any_eq_false.mp hnone tc htc)]
    rfl
  · rfl

theorem skiThreadsAllWakeRs_changes {address : Int} (hactive : (s.cpu cpuNo).active = true)
    (h : skiThreadsAllWakeRs s address = .ok t) : Changes s t (.guest cpuNo (.storeAccess address)) := by
  refine .of_map (skiThreadsAllWakeRs_threads h) ?_
  intro tc _
  unfold ThreadContext.stored
  split
  · next hwoken => exact .wake rfl hactive hwoken
  · exact .same

theorem helperSkiInstrumentAll_changes {ev : Event} (h : helperSkiInstrumentAll s = .ok t) : Changes s t ev := by
  rcases helperSkiInstrumentAll_cases h with ⟨-, rfl⟩ | ⟨id, tc, -, -, -, rfl⟩
  · exact .of_eq rfl
  · exact .of_modify rfl fun tc' _ => .weigh tc'.priority (tc.priorityAdjust + schedAdjustInc)

theorem helperSkiInstrumentPossibleInversionPoint_changes {mode : PreemptionMode} {ev : Event}
    (h : helperSkiInstrumentPossibleInversionPoint mode s cpuNo = .ok t) : Changes s t ev := by
  rcases helperSkiInstrumentPossibleInversionPoint_cases h with
    ⟨-, rfl⟩ | ⟨-, ⟨-, rfl⟩ | ⟨-, ⟨-, rfl⟩ | ⟨-, id, -, rfl⟩⟩⟩
  · exact .of_eq rfl
  · exact .of_eq rfl
  · exact .of_eq rfl
  · exact .of_modify rfl fun tc _ => .weigh _ tc.priorityAdjust

theorem skiCpuCanRun_threads {u : State} {res : Bool} (h : skiCpuCanRun s cpuNo = .ok (u, res)) :
    u.threads = s.threads := by
  rcases skiCpuCanRun_cases h with
    ⟨-, rfl, -⟩ | ⟨-, tc, -, ⟨-, rfl, -⟩ | ⟨-, -, rfl, -⟩ | ⟨-, -, -, rfl, -⟩⟩ <;> rfl

end Ops

/-! ## Events -/

section Events
variable {setup : Setup} {s t : State} {ev : Event}

theorem guestStep_changes {cpuNo : Nat} {op : GuestOp} (hok : s.handlers.Ok) (hactive : (s.cpu cpuNo).active = true)
    (h : guestStep setup s cpuNo op = .ok t) : Changes s t (.guest cpuNo op) := by
  cases op with
  | dispatch =>
    obtain ⟨intNo, -, hbegin⟩ := guestStep_dispatch_cases h
    refine skiHandleInterruptBegin_changes hok ?_ (fun _ => rfl) hbegin
    rfl
  | interruptBegin intNo isIntInstruction =>
    refine skiHandleInterruptBegin_changes hok rfl ?_ h
    intro hhw
    cases hhw
  | interruptEnd => exact skiHandleInterruptEnd_changes hok h
  | loadAccess eip address value => exact helperSkiLoadAccess_changes hok hactive h
  | storeAccess address => exact skiThreadsAllWakeRs_changes hactive h
  | pause => exact helperSkiInstrumentPause_changes hok hactive h
  | hlt =>
    obtain ⟨-, rfl⟩ := skiThreadsSelfWaitHlt_spec h
    exact .of_eq rfl
  | instrumentAll => exact helperSkiInstrumentAll_changes h
  | possibleInversionPoint => exact helperSkiInstrumentPossibleInversionPoint_changes h
  | testExit =>
    obtain rfl := guestStep_testExit_cases h
    exact .of_eq rfl

/-- **What one event does to the threads.** -/
theorem step_changes (hok : s.handlers.Ok) (h : step setup s ev = .ok t) : Changes s t ev := by
  cases ev with
  | newIrqSet cpuNo vectorNum => exact skiHandleNewIrqSet_changes hok h
  | setIrq cpuNo irq =>
    obtain rfl := Except.ok.inj h
    exact .of_eq rfl
  | canRun cpuNo =>
    obtain ⟨-, -, u, res, hrun, rfl⟩ := step_canRun_cases h
    have hthreads := skiCpuCanRun_threads hrun
    exact .of_eq hthreads
  | leave =>
    obtain rfl := Except.ok.inj h
    exact .of_eq rfl
  | guest cpuNo op =>
    obtain ⟨-, ⟨-, rfl⟩ | ⟨hactive, h⟩⟩ := step_guest_cases h
    · exact .of_eq rfl
    · exact guestStep_changes hok hactive h

/-- **The rule for threads**: what every change of a thread keeps holds for all threads of a test. -/
theorem run_threads {guard : State → Event → Prop} {events : List Event} {P : ThreadContext → Prop}
    (h : Run (step setup) guard setup.start events s) (hstart : ∀ tc ∈ setup.start.threads, P tc)
    (hkeep : ∀ {s t ev tc tc'}, guard s ev → Change s t ev tc tc' → P tc → P tc') : ∀ tc ∈ s.threads, P tc := by
  have hboth : Sane s ∧ ∀ tc ∈ s.threads, P tc := by
    refine Run.invariant (P := fun s => Sane s ∧ ∀ tc ∈ s.threads, P tc) h ?_ ⟨setup.start_sane, hstart⟩
    rintro s ev t ⟨hsane, hP⟩ hguard hstep
    refine ⟨hsane.step hstep, ?_⟩
    intro tc' htc'
    obtain ⟨i, hi⟩ := List.mem_iff_getElem?.mp htc'
    obtain ⟨tc, htc, hchange⟩ := (step_changes hsane.handlers_ok hstep).exists_before hi
    exact hkeep hguard hchange (hP tc (List.mem_of_getElem? htc))
  exact hboth.2

/-- A thread of the start. -/
theorem Setup.exists_entry {tc : ThreadContext} (h : tc ∈ setup.start.threads) :
    ∃ i, ∃ e ∈ setup.table, tc = { skiTcInitialize i i e.cpu e.i 0 with count := e.n } := by
  obtain ⟨i, hi⟩ := List.mem_iff_getElem?.mp h
  obtain ⟨e, he, rfl⟩ := Option.map_eq_some_iff.mp ((setup.getElem?_threads i).symm.trans hi)
  exact ⟨i, e, List.mem_of_getElem? he, rfl⟩

end Events

end SkiVmm.Sched
