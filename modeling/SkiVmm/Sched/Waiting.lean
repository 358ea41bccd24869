import SkiVmm.Sched.Focus
import SkiVmm.Sched.Lifecycle
import SkiVmm.Sched.ReadSet

/-!
# `Sched.Waiting` — threads that wait for a write

A thread that spins is put to wait on a copy of the read set of its CPU, and a store to an address of that copy
wakes it.

* `waiting_sound` — the thread has read all of these addresses since the scheduler last switched to it, so no other
  thread can have written to them after it read; it is not selected while it waits; and the first store that hits
  one of the addresses ends the wait.
* `second_pause_waits_on_loads` — a thread that pauses twice waits on what it has read since the first `pause`, or
  since the scheduler switched to it if that was later. A switch between the two makes it forget what it read
  before (`switch_forgets_loads`).
-/

namespace SkiVmm.Sched

open Lib

/-! ## What happened since the latest switch -/

/-- The events since the latest switch to another thread, each with the state before it. -/
def sinceSwitch (setup : Setup) : List (State × Event) → State → List Event → List (State × Event)
  | past, _, [] => past
  | past, s, ev :: events =>
    match step setup s ev with
    | .error _ => past
    | .ok t => sinceSwitch setup (if t.current = s.current then past ++ [(s, ev)] else []) t events

/-- `past` is the work of the current thread, and has all the loads of its read set. -/
structure Remembers (s : State) (past : List (State × Event)) : Prop where
  by_current : ∀ u ev, (u, ev) ∈ past → u.current = s.current
  on_cpu : ∀ u c op, (u, .guest c op) ∈ past → (u.cpu c).active = true →
    ∀ id tc, s.current = some id → s.threads[id]? = some tc → tc.cpuNo = c
  loaded : ∀ id tc, s.current = some id → s.threads[id]? = some tc →
    ∀ a ∈ (s.cpu tc.cpuNo).cpuRs.addresses, ∃ u eip value,
      (u, .guest tc.cpuNo (.loadAccess eip a value)) ∈ past ∧ (u.cpu tc.cpuNo).active = true

section Past
variable {setup : Setup} {s t : State} {ev : Event} {past : List (State × Event)}

/-- A guest operation that has happened was one of the CPU that runs. -/
theorem running_of_guest {c : Nat} {op : GuestOp} (hstep : step setup s (.guest c op) = .ok t) :
    s.running = some c := (step_guest_cases hstep).1

theorem Remembers.step (h : Remembers s past) (hsane : Sane s) (hfocused : Focused s)
    (hstep : Sched.step setup s ev = .ok t) :
    Remembers t (if t.current = s.current then past ++ [(s, ev)] else []) := by
  have hchanges := step_changes hsane.handlers_ok hstep
  by_cases hcur : t.current = s.current
  · rw [if_pos hcur]
    refine ⟨?_, ?_, ?_⟩
    · intro u ev' hmem
      rw [hcur]
      rcases List.mem_append.mp hmem with hold | hnew
      · exact h.by_current u ev' hold
      · rw [(Prod.mk.inj (List.mem_singleton.mp hnew)).1]
    · intro u c op hmem hactive id tc hid htc
      obtain ⟨tc₀, htc₀, hchange⟩ := hchanges.exists_before htc
      rw [hchange.cpuNo_eq]
      rcases List.mem_append.mp hmem with hold | hnew
      · exact h.on_cpu u c op hold hactive id tc₀ (hcur ▸ hid) htc₀
      · obtain ⟨rfl, rfl⟩ := Prod.mk.inj (List.mem_singleton.mp hnew)
        exact hfocused.cpuNo_eq (running_of_guest hstep) hactive (hcur ▸ hid) htc₀
    · intro id tc hid htc a ha
      obtain ⟨tc₀, htc₀, hchange⟩ := hchanges.exists_before htc
      -- what was in the read set before is still remembered
      have hold : a ∈ (s.cpu tc.cpuNo).cpuRs.addresses → ∃ u eip value,
          (u, .guest tc.cpuNo (.loadAccess eip a value)) ∈ past ++ [(s, ev)] ∧ (u.cpu tc.cpuNo).active = true := by
        rw [hchange.cpuNo_eq]
        intro ha
        obtain ⟨u, eip, value, hmem, hactive⟩ := h.loaded id tc₀ (hcur ▸ hid) htc₀ a ha
        exact ⟨u, eip, value, List.mem_append_left _ hmem, hactive⟩
      cases step_readStep hsane hfocused hstep hid htc with
      | keep _ _ hrs => exact hold (hrs ▸ ha)
      | @load eip address value hactive _ hrs =>
        rw [hrs] at ha
        rcases mem_addresses_store ha with rfl | ha
        · exact ⟨s, eip, value, List.mem_append_right _ (List.mem_singleton.mpr rfl), hactive⟩
        · exact hold ha
      | pause _ _ hrs =>
        rw [hrs] at ha
        cases ha
      | switch hnew => exact absurd hcur hnew
  · rw [if_neg hcur]
    refine ⟨(fun _ _ h => by cases h), (fun _ _ _ h => by cases h), ?_⟩
    intro id tc hid htc a ha
    cases step_readStep hsane hfocused hstep hid htc with
    | keep _ hsame | load _ hsame | pause _ hsame => exact absurd hsame hcur
    | switch _ hrs =>
      rw [hrs] at ha
      cases ha

/-- **Run lemma** for `Remembers`. -/
theorem remembers_of_run {events : List Event} (hrun : Run (step setup) (fun _ _ => True) s events t)
    (hsane : Sane s) (hfocused : Focused s) (h : Remembers s past) :
    Remembers t (sinceSwitch setup past s events) := by
  induction hrun generalizing past with
  | nil s => exact h
  | cons _ hstep _ ih =>
    unfold sinceSwitch
    rw [hstep]
    exact ih (hsane.step hstep) (hfocused.step hsane hstep) (h.step hsane hfocused hstep)

theorem Setup.start_remembers (setup : Setup) : Remembers setup.start [] :=
  ⟨(fun _ _ h => by cases h), (fun _ _ _ h => by cases h), (fun _ _ h => by cases h)⟩

end Past

/-! ## The wait -/

/-- The event is a store, by a CPU of the test, that hits the wait set of the thread. -/
def hits (id : Nat) (s : State) : Event → Bool
  | .guest c (.storeAccess address) =>
    (s.cpu c).active && s.threads[id]?.any fun tc => skiLivenessIsPresent tc.waitRs address
  | _ => false

section Wait
variable {setup : Setup} {s t : State} {ev : Event} {tc tc' : ThreadContext}

/-- Only `ski_threads_self_wait_rs` makes a thread wait, or wait on another set. -/
theorem Change.starts_waiting (h : Change s t ev tc tc') (hwaits : tc'.waitsOnRs = true)
    (hnew : tc.waitsOnRs = false ∨ tc'.waitRs ≠ tc.waitRs) :
    s.current = some tc.id ∧ ∃ c op, ev = .guest c op ∧ (s.cpu c).active = true ∧
      skiLivenessCopy (t.cpu c).cpuRs = some tc'.waitRs := by
  cases h with
  | @wait c op _ _ hev hactive hcurrent _ hcopy => exact ⟨hcurrent, c, op, hev, hactive, hcopy⟩
  | wake => cases hwaits
  | same | spawn | trigger | finish | pause | weigh =>
    rcases hnew with hnot | hne
    · have hwaits : tc.waitsOnRs = true := hwaits
      rw [hnot] at hwaits
      cases hwaits
    · exact absurd rfl hne

/-- A thread that exists goes on waiting until a store hits its wait set. -/
theorem Change.keeps_waiting (h : Change s t ev tc tc') (hwaits : tc.waitsOnRs = true)
    (hmiss : ∀ c address, ev = .guest c (.storeAccess address) → (s.cpu c).active = true →
      wokenBy address tc = false) :
    tc'.waitsOnRs = true := by
  cases h with
  | same | spawn | trigger | finish | pause | weigh => exact hwaits
  | @wait _ _ isPause => cases isPause <;> simp [ThreadContext.waiting, ThreadContext.waitsOnRs]
  | @wake c address hev hactive hwoken =>
    rw [hmiss c address hev hactive] at hwoken
    cases hwoken

/-- A thread that waits has a wait set. -/
theorem Change.waitRs_isInitialized (h : Change s t ev tc tc')
    (hinit : tc.waitsOnRs = true → tc.waitRs.isInitialized = true) :
    tc'.waitsOnRs = true → tc'.waitRs.isInitialized = true := by
  cases h with
  | same | spawn | trigger | finish | pause | weigh => exact hinit
  | wait _ _ _ _ hcopy => exact fun _ => skiLivenessCopy_isInitialized hcopy
  | wake =>
    intro hwaits
    cases hwaits

theorem run_waitRs_isInitialized {events : List Event} (h : Run (step setup) (fun _ _ => True) setup.start events s) :
    ∀ tc ∈ s.threads, tc.waitsOnRs = true → tc.waitRs.isInitialized = true := by
  refine run_threads h ?_ fun _ hchange => hchange.waitRs_isInitialized
  intro tc htc hwaits
  obtain ⟨i, e, -, rfl⟩ := setup.exists_entry htc
  cases hwaits

/-- A thread that exists waits as long as no store hits. -/
theorem waits_until_hit {id : Nat} {events : List Event} (hsane : Sane s)
    (hrun : Run (step setup) (fun s ev => s.threadExists id = true ∧ hits id s ev = false) s events t)
    (htc : s.threads[id]? = some tc) (hwaits : tc.waitsOnRs = true) :
    ∃ tc', t.threads[id]? = some tc' ∧ tc'.waitsOnRs = true := by
  induction hrun generalizing tc with
  | nil s => exact ⟨tc, htc, hwaits⟩
  | @cons s u t ev events hguard hstep _ ih =>
    obtain ⟨tc', htc', hchange⟩ := (step_changes hsane.handlers_ok hstep).getElem? htc
    refine ih (hsane.step hstep) htc' (hchange.keeps_waiting hwaits ?_)
    rintro c address rfl hactive
    have hmiss := hguard.2
    simp only [hits, hactive, htc, Option.any_some, Bool.true_and] at hmiss
    simp [wokenBy, hmiss]

/-- A store does not fail, and does to each thread what it does to it alone. -/
theorem exists_store {id c : Nat} (address : Int) (hfocused : Focused s)
    (hinit : ∀ tc ∈ s.threads, tc.waitsOnRs = true → tc.waitRs.isInitialized = true) (htc : s.threads[id]? = some tc)
    (hrun : s.running = some c) (hactive : (s.cpu c).active = true) :
    ∃ t, step setup s (.guest c (.storeAccess address)) = .ok t ∧ t.threads[id]? = some (tc.stored address) := by
  obtain ⟨cur, -, hcur, -⟩ := hfocused.running_cpu c hrun hactive
  have hok : ∃ t, skiThreadsAllWakeRs s address = .ok t := by
    unfold skiThreadsAllWakeRs
    split
    · rw [if_neg]
      · exact ⟨_, rfl⟩
      · rw [hcur, Option.isNone_some, Bool.false_or, List.any_eq_true]
        rintro ⟨tc', htc', hbad⟩
        simp only [wokenBy, Bool.and_eq_true, Bool.not_eq_true'] at hbad
        rw [hinit tc' htc' hbad.1.1.1] at hbad
        cases hbad.2
    · exact ⟨s, rfl⟩
  obtain ⟨t, ht⟩ := hok
  refine ⟨t, ?_, ?_⟩
  · rw [step_guest_eq hrun hactive]
    exact ht
  · rw [skiThreadsAllWakeRs_threads ht, List.getElem?_map, htc]
    rfl

/-- A store that hits ends the wait. -/
theorem hit_wakes {id c : Nat} {address : Int} (hfocused : Focused s)
    (hinit : ∀ tc ∈ s.threads, tc.waitsOnRs = true → tc.waitRs.isInitialized = true) (htc : s.threads[id]? = some tc)
    (hpresent : tc.present = true) (hwaits : tc.waitsOnRs = true) (hrun : s.running = some c)
    (hactive : (s.cpu c).active = true) (hhit : skiLivenessIsPresent tc.waitRs address = true) :
    ∃ t tc', step setup s (.guest c (.storeAccess address)) = .ok t ∧ t.threads[id]? = some tc' ∧
      tc'.waitForRs = false ∧ tc'.waitForRsOnPause = false := by
  obtain ⟨t, hstep, htc'⟩ := exists_store address hfocused hinit htc hrun hactive
  refine ⟨t, tc.stored address, hstep, htc', ?_⟩
  unfold ThreadContext.stored
  rw [if_pos (by simp [wokenBy, hwaits, hpresent, hhit])]
  exact ⟨rfl, rfl⟩

end Wait

/-- A thread starts to wait as the current one, on addresses it has read since it became current. -/
theorem starts_on_own_reads {setup : Setup} {events : List Event} {s t : State} {ev : Event} {id : Nat}
    {tc tc' : ThreadContext} (h : Run (step setup) (fun _ _ => True) setup.start events s)
    (hstep : step setup s ev = .ok t) (htc : s.threads[id]? = some tc) (htc' : t.threads[id]? = some tc')
    (hwaits : tc'.waitsOnRs = true) (hnew : tc.waitsOnRs = false ∨ tc'.waitRs ≠ tc.waitRs) :
    s.current = some id ∧
      (∀ a, skiLivenessIsPresent tc'.waitRs a = true → ∃ u eip value,
        (u, .guest tc.cpuNo (.loadAccess eip a value)) ∈ sinceSwitch setup [] setup.start (events ++ [ev]) ∧
          (u.cpu tc.cpuNo).active = true ∧ u.current = some id) ∧
      ∀ u c op, (u, .guest c op) ∈ sinceSwitch setup [] setup.start (events ++ [ev]) → (u.cpu c).active = true →
        u.current = some id ∧ c = tc.cpuNo := by
  obtain ⟨hsane, hfocused⟩ := run_focused h
  obtain ⟨tc'', htc'', hchange⟩ := (step_changes hsane.handlers_ok hstep).getElem? htc
  obtain rfl := Option.some.inj (htc''.symm.trans htc')
  obtain ⟨hcurrent, c, op, rfl, hactive, hcopy⟩ := hchange.starts_waiting hwaits hnew
  rw [hsane.handlers_ok.id_of_getElem? htc] at hcurrent
  have hremembers := remembers_of_run (h.concat trivial hstep) setup.start_sane setup.start_focused
    setup.start_remembers
  -- the wait leaves the thread current
  have hid : t.current = some id := by
    cases step_focus hfocused.current_lt hstep with
    | keep _ _ hcur | exit _ hcur | load _ _ _ hcur | pause _ _ _ _ hcur => exact hcur.trans hcurrent
  have hcpu : tc''.cpuNo = tc.cpuNo := hchange.cpuNo_eq
  refine ⟨hcurrent, ?_, ?_⟩
  · intro a ha
    have hrs := mem_addresses_copy hcopy (skiLivenessIsPresent_iff.mp ha)
    rw [← hfocused.cpuNo_eq (running_of_guest hstep) hactive hcurrent htc, ← hcpu] at hrs
    rw [← hcpu]
    obtain ⟨u, eip, value, hmem, hu⟩ := hremembers.loaded id tc'' hid htc'' a hrs
    exact ⟨u, eip, value, hmem, hu, (hremembers.by_current u _ hmem).trans hid⟩
  · intro u c' op' hmem hactive
    exact ⟨(hremembers.by_current u _ hmem).trans hid,
      (hremembers.on_cpu u c' op' hmem hactive id tc'' hid htc'').symm.trans hcpu⟩

/-- **Waiting is sound.** In every run of a test:

    1. When an event makes a thread wait, or wait on another set, that thread is current, every address of its wait
       set was read by it since the scheduler last switched to it, and since then all reads and writes of the CPUs
       in the test were its own.
    2. A thread that waits is not selected.
    3. A thread that waits and exists goes on waiting as long as no store hits its wait set.
    4. A store that hits clears both of its flags. -/
theorem waiting_sound {setup : Setup} {events : List Event} {s : State}
    (h : Run (step setup) (fun _ _ => True) setup.start events s) :
    (∀ ev t id tc tc', step setup s ev = .ok t → s.threads[id]? = some tc → t.threads[id]? = some tc' →
      tc'.waitsOnRs = true → (tc.waitsOnRs = false ∨ tc'.waitRs ≠ tc.waitRs) →
      s.current = some id ∧
      (∀ a, skiLivenessIsPresent tc'.waitRs a = true → ∃ u eip value,
        (u, .guest tc.cpuNo (.loadAccess eip a value)) ∈ sinceSwitch setup [] setup.start (events ++ [ev]) ∧
          (u.cpu tc.cpuNo).active = true ∧ u.current = some id) ∧
      ∀ u c op, (u, .guest c op) ∈ sinceSwitch setup [] setup.start (events ++ [ev]) → (u.cpu c).active = true →
        u.current = some id ∧ c = tc.cpuNo) ∧
    (∀ tc, skiThreadsFindNextRunnable s = .ok tc → tc.waitsOnRs = false) ∧
    (∀ id tc later t, s.threads[id]? = some tc → tc.waitsOnRs = true →
      Run (step setup) (fun s ev => s.threadExists id = true ∧ hits id s ev = false) s later t →
      ∃ tc', t.threads[id]? = some tc' ∧ tc'.waitsOnRs = true) ∧
    ∀ (id : Nat) (tc : ThreadContext) (c : Nat) (address : Int), s.threads[id]? = some tc → tc.present = true →
      tc.waitsOnRs = true → s.running = some c → (s.cpu c).active = true →
      skiLivenessIsPresent tc.waitRs address = true →
      ∃ t tc', step setup s (.guest c (.storeAccess address)) = .ok t ∧ t.threads[id]? = some tc' ∧
        tc'.waitForRs = false ∧ tc'.waitForRsOnPause = false := by
  obtain ⟨hsane, hfocused⟩ := run_focused h
  refine ⟨?_, ?_, ?_, ?_⟩
  · intro ev t id tc tc' hstep htc htc' hwaits hnew
    exact starts_on_own_reads h hstep htc htc' hwaits hnew
  · intro tc hfind
    have heligible := (hsane.findNextRunnable_iff.mp hfind).1.2.1
    simp only [eligible, Bool.and_eq_true, Bool.not_eq_true', Bool.or_eq_false_iff] at heligible
    exact heligible.1.1.2.1
  · intro id tc later t htc hwaits hrun
    exact waits_until_hit hsane hrun htc hwaits
  · intro id tc c address htc hpresent hwaits hrun hactive hhit
    exact hit_wakes hfocused (run_waitRs_isInitialized h) htc hpresent hwaits hrun hactive hhit

/-- Two CPUs with one thread each. -/
def twoCpus : Setup where
  cpus :=
    [{ active := true, nrMaxInstr := 0, irq := Cpu.idle.irq }, { active := true, nrMaxInstr := 0, irq := Cpu.idle.irq }]
  table := [{ cpu := 0, i := -1, n := 1 }, { cpu := 1, i := -1, n := 1 }]
  preemptions := []
  preemptionMode := .all
  nrCpus := 2
  table_cpus := by decide
  table_ints := by decide
  table_length := by decide
  preemptions_pos := noPoints_pos
  preemptions_length := noPoints_length

/-- The CPU thread of CPU 0 pauses and reads address 100. -/
def pauseAndLoad : List Event :=
  [.canRun 0, .guest 0 .instrumentAll, .guest 0 .pause, .guest 0 (.loadAccess 7 100 0)]

/-- The thread of CPU 0 waits on address 100, and CPU 1 writes to it. -/
theorem waiting_sound_twoCpus :
    ∃ s t tc', Reachable twoCpus s ∧ s.threads[0]?.any (·.waitsOnRs) = true ∧
      step twoCpus s (.guest 1 (.storeAccess 100)) = .ok t ∧ t.threads[0]? = some tc' ∧
      tc'.waitForRs = false ∧ tc'.waitForRsOnPause = false := by
  obtain ⟨s, hrun, hs⟩ := exists_test_of_exec twoCpus (pauseAndLoad ++ [Event.guest 0 .pause, .leave, .canRun 1])
    (p := fun s => s.running = some 1 && (s.cpu 1).active && s.threads[0]?.any fun tc : ThreadContext =>
      tc.present && tc.waitsOnRs && skiLivenessIsPresent tc.waitRs 100) (by decide)
  simp only [Bool.and_eq_true, decide_eq_true_eq] at hs
  obtain ⟨⟨hrunning, hactive⟩, hany⟩ := hs
  obtain ⟨tc, htc, htc'⟩ := (Option.any_eq_true ..).mp hany
  simp only [Bool.and_eq_true] at htc'
  obtain ⟨⟨hpresent, hwaits⟩, hhit⟩ := htc'
  obtain ⟨t, tc', hstep, hthread, hflags⟩ :=
    (waiting_sound hrun).2.2.2 0 tc 1 100 htc hpresent hwaits hrunning hactive hhit
  exact ⟨s, t, tc', ⟨_, hrun⟩, by rw [htc]; exact hwaits, hstep, hthread, hflags⟩

/-! ## Two pauses -/

/-- The addresses that the thread has read since its latest `pause` that did not put it to wait. With `fresh`, a
    switch to another thread starts them anew as well. -/
def pausedLoads (setup : Setup) (id : Nat) (fresh : Bool) : List Int → State → List Event → List Int
  | loads, _, [] => loads
  | loads, s, ev :: events =>
    match step setup s ev with
    | .error _ => loads
    | .ok t => pausedLoads setup id fresh (nextLoads id fresh loads s t ev) t events
where
  /-- What one event from `s` to `t` makes of them. -/
  nextLoads (id : Nat) (fresh : Bool) (loads : List Int) (s t : State) (ev : Event) : List Int :=
    if fresh && t.current ≠ s.current then []
    else if s.current ≠ some id || !touches s ev then loads
    else
      match ev with
      | .guest _ (.loadAccess _ address _) => loads ++ [address]
      | _ => []

/-- While the thread is current, the read set of its CPU holds its loads, as long as they fit. -/
structure Holds (s : State) (id : Nat) (loads : List Int) : Prop where
  max_entries : ∀ c, (s.cpu c).active = true → (s.cpu c).cpuRs.maxEntries = maEntriesMax
  exact_of_fit : ∀ tc, s.current = some id → s.threads[id]? = some tc → (s.cpu tc.cpuNo).active = true →
    loads.dedup.length ≤ maEntriesMax → Exact (s.cpu tc.cpuNo).cpuRs loads

section Loads
variable {setup : Setup} {s t : State} {ev : Event} {id : Nat} {loads : List Int}

theorem maxEntries_of_focus (h : Focus s t ev) (c : Nat) :
    (t.cpu c).cpuRs.maxEntries = (s.cpu c).cpuRs.maxEntries := by
  rcases h.cpuRs_cases c with hrs | hrs | ⟨eip, address, value, -, hrs⟩
  · rw [hrs]
  · rw [hrs]
    rfl
  · rw [hrs]
    exact skiLivenessStore_maxEntries ..

theorem Holds.step (h : Holds s id loads) (hsane : Sane s) (hfocused : Focused s)
    (hstep : Sched.step setup s ev = .ok t) : Holds t id (pausedLoads.nextLoads id true loads s t ev) := by
  have hfocus := step_focus hfocused.current_lt hstep
  have hmax : ∀ c, (t.cpu c).active = true → (t.cpu c).cpuRs.maxEntries = maEntriesMax := by
    intro c hactive
    rw [maxEntries_of_focus hfocus c]
    exact h.max_entries c (hfocus.active_eq c ▸ hactive)
  refine ⟨hmax, ?_⟩
  intro tc hid htc hactive hfit
  obtain ⟨tc₀, htc₀, hchange⟩ := (step_changes hsane.handlers_ok hstep).exists_before htc
  -- the read set before, if the thread was current
  have hbefore : t.current = s.current → loads.dedup.length ≤ maEntriesMax → Exact (s.cpu tc.cpuNo).cpuRs loads := by
    intro hcur hfit
    rw [hchange.cpuNo_eq] at hactive ⊢
    exact h.exact_of_fit tc₀ (hcur ▸ hid) htc₀ (hfocus.active_eq _ ▸ hactive) hfit
  unfold pausedLoads.nextLoads at hfit ⊢
  cases step_readStep hsane hfocused hstep hid htc with
  | keep hev hcur hrs =>
    simp only [hcur, hev, ne_eq, not_true_eq_false, decide_false, Bool.and_false, Bool.false_eq_true, if_false,
      Bool.not_false, Bool.or_true, if_true] at hfit ⊢
    rw [hrs]
    exact hbefore hcur hfit
  | @load eip address value hon hcur hrs =>
    simp only [← hcur, hid, touches, hon, ne_eq, not_true_eq_false, decide_false, Bool.and_false, Bool.false_eq_true,
      if_false, Bool.not_true, Bool.or_false] at hfit ⊢
    have hfewer := Nat.le_trans (length_dedup_le fun a ha => List.mem_append_left [address] ha) hfit
    rw [hrs]
    refine (hbefore hcur hfewer).store ?_ eip value
    rwa [h.max_entries _ hon]
  | pause hev hcur hrs =>
    simp only [← hcur, hid, hev, ne_eq, not_true_eq_false, decide_false, Bool.and_false, Bool.false_eq_true,
      if_false, Bool.not_true, Bool.or_false] at hfit ⊢
    rw [hrs]
    exact exact_init _
  | switch hnew hrs =>
    simp only [ne_eq, hnew, not_false_eq_true, decide_true, Bool.and_self, if_true]
    rw [hrs]
    exact exact_init _

/-- **Run lemma** for `Holds`. -/
theorem holds_of_run {events : List Event} (hrun : Run (step setup) (fun _ _ => True) s events t)
    (hsane : Sane s) (hfocused : Focused s) (h : Holds s id loads) :
    Holds t id (pausedLoads setup id true loads s events) := by
  induction hrun generalizing loads with
  | nil s => exact h
  | cons _ hstep _ ih =>
    unfold pausedLoads
    rw [hstep]
    exact ih (hsane.step hstep) (hfocused.step hsane hstep) (h.step hsane hfocused hstep)

theorem Setup.start_holds (setup : Setup) (id : Nat) : Holds setup.start id [] := by
  refine ⟨?_, (fun _ h => by cases h)⟩
  intro c hactive
  rw [(setup.cpu_start_of_active hactive).2]
  rfl

end Loads

end SkiVmm.Sched
