import SkiVmm.Sched.Tally

/-!
# `Sched.Leftover` — waits that outlive their thread

A thread waits on its read set until a store to one of the addresses wakes it, and only threads that exist are woken.
The end of a handler and the next request leave `wait_for_rs` and `wait_for_rs_on_pause` alone. So a thread that is
put to wait in the middle of a block and leaves its handler in the same block takes the wait to its next activation,
which is then never selected (`leftover_after_loop`). `noLeftover_iff` says which events leave a wait behind.
-/

namespace SkiVmm.Sched

open Lib

/-- An interrupt thread that does not exist does not wait. -/
def ThreadContext.Clean (tc : ThreadContext) : Prop :=
  tc.isInt = true → tc.present = false → tc.waitForRs = false ∧ tc.waitForRsOnPause = false

/-- No thread has a wait of an earlier activation. -/
def NoLeftover (s : State) : Prop := ∀ tc ∈ s.threads, tc.Clean

/-- How often this value has been seen at this address. -/
def SkiMa.seen (ma : SkiMa) (memAddress memValue : Int) : Int :=
  match ma.entries.find? fun e => e.memAddress = memAddress with
  | none => 0
  | some e => if e.memValue = memValue then e.count else 0

/-- The current thread is one that exists, or the thread of a CPU. -/
def currentExists (s : State) : Bool := (s.current.bind (s.threads[·]?)).all fun tc => !tc.isInt || tc.present

/-- The event leaves no wait behind: when the handler of a hardware interrupt ends, one of the threads of its vector
    does not wait; and a thread that is put to wait exists. -/
def releases (s : State) : Event → Bool
  | .guest c .interruptEnd =>
    !(s.cpu c).active || (s.cpu c).interruptsStackNo = 0 || !(topEntry (s.cpu c)).isHw ||
      s.threads.any fun tc => isHandlerOf c (topEntry (s.cpu c)).intNo tc && !tc.waitsOnRs
  | .guest c (.loadAccess _ address value) =>
    !(s.cpu c).active || (s.cpu c).cpuRs.seen address value < maxLivenessMaLoopThreshold || currentExists s
  | .guest c .pause => !(s.cpu c).active || !pausedBefore s || currentExists s
  | _ => true

/-! ## One thread -/

section Clean
variable {s t : State} {ev : Event} {tc tc' : ThreadContext}

theorem clean_iff (hint : tc.isInt = true) (habsent : tc.present = false) : tc.Clean ↔ tc.waitsOnRs = false := by
  unfold ThreadContext.Clean ThreadContext.waitsOnRs
  rw [Bool.or_eq_false_iff]
  exact ⟨fun h => h hint habsent, fun h _ _ => h⟩

theorem clean_of_present (hpresent : tc.present = true) : tc.Clean := by
  intro _ habsent
  rw [hpresent] at habsent
  cases habsent

/-- A thread that is put to wait. -/
theorem clean_waiting_iff (isPause : Bool) (waitRs : SkiMa) :
    (tc.waiting isPause waitRs).Clean ↔ (!tc.isInt || tc.present) = true := by
  unfold ThreadContext.Clean ThreadContext.waiting
  cases tc.isInt <;> cases tc.present <;> cases isPause <;> simp

/-- The other changes leave no wait behind. -/
theorem Change.clean (h : Change s t ev tc tc') (hend : ∀ c, ev ≠ .guest c .interruptEnd)
    (hload : ∀ c eip address value, ev ≠ .guest c (.loadAccess eip address value)) (hpause : ∀ c, ev ≠ .guest c .pause)
    (hclean : tc.Clean) : tc'.Clean := by
  cases h with
  | same | weigh => exact hclean
  | spawn => exact clean_of_present rfl
  | trigger _ _ hpresent => exact clean_of_present hpresent
  | finish hev => exact absurd hev (hend _)
  | wait hev _ _ hcause =>
    cases hcause with
    | loop => exact absurd hev (hload _ _ _ _)
    | pause => exact absurd hev (hpause _)
  | pause hev => exact absurd hev (hpause _)
  | wake => exact fun _ _ => ⟨rfl, rfl⟩

/-- One thread changes. -/
theorem noLeftover_modify {i : Nat} {f : ThreadContext → ThreadContext} (hclean : NoLeftover s)
    (hi : s.threads[i]? = some tc) (ht : t.threads = s.threads.modify i f) : NoLeftover t ↔ (f tc).Clean := by
  have hset : t.threads = s.threads.set i (f tc) := ht.trans (modify_eq_set hi)
  constructor
  · intro h
    refine h (f tc) ?_
    rw [hset]
    exact List.mem_of_getElem? (List.getElem?_set_self (List.getElem?_eq_some_iff.mp hi).1)
  · intro h b hb
    rw [hset] at hb
    rcases List.mem_or_eq_of_mem_set hb with hb | rfl
    · exact hclean b hb
    · exact h

end Clean

/-! ## Read sets -/

/-- **The count that a load returns.** -/
theorem skiLivenessStore_count {ma : SkiMa} (hinit : ma.isInitialized = true) (eip memAddress memValue : Int) :
    (skiLivenessStore ma eip memAddress memValue).2 = ma.seen memAddress memValue + 1 := by
  unfold skiLivenessStore SkiMa.seen
  rw [List.find?_eq_bind_findIdx?_getElem?, hinit]
  simp only [Bool.not_true, Bool.false_eq_true, if_false]
  cases hidx : ma.entries.findIdx? fun e => decide (e.memAddress = memAddress) with
  | none =>
    simp only [Option.bind_none]
    split
    · rfl
    · split <;> rfl
  | some i =>
    obtain ⟨hlt, -, -⟩ := List.findIdx?_eq_some_iff_getElem.mp hidx
    simp only [Option.bind_some, List.getElem?_modify_eq, List.getElem?_eq_getElem hlt]
    split_ifs <;> simp_all

/-! ## Events -/

section Events
variable {setup : Setup} {s t : State} {ev : Event} {c : Nat}

/-- The current thread is put to wait. -/
theorem noLeftover_wait_iff (hfocused : Focused s) (hclean : NoLeftover s) {id : Nat} {isPause : Bool} {waitRs : SkiMa}
    (hid : s.current = some id) (ht : t.threads = s.threads.modify id (·.waiting isPause waitRs)) :
    NoLeftover t ↔ currentExists s = true := by
  obtain ⟨tc, htc⟩ := hfocused.current_lt id hid
  rw [noLeftover_modify hclean htc ht, clean_waiting_iff]
  unfold currentExists
  rw [hid, Option.bind_some, htc]
  rfl

theorem noLeftover_load_iff (hsane : Sane s) (hfocused : Focused s) (hclean : NoLeftover s) {eip address value : Int}
    (hactive : (s.cpu c).active = true) (h : helperSkiLoadAccess s c eip address value = .ok t) :
    NoLeftover t ↔ releases s (.guest c (.loadAccess eip address value)) = true := by
  have hcount := skiLivenessStore_count (hsane.rs_init c hactive) eip address value
  simp only [releases, hactive, Bool.not_true, Bool.false_or, Bool.or_eq_true, decide_eq_true_eq]
  rcases helperSkiLoadAccess_cases h with ⟨hunder, rfl⟩ | ⟨hover, id, waitRs, hid, -, rfl⟩
  · exact ⟨fun _ => .inl (by omega), fun _ => hclean⟩
  · rw [noLeftover_wait_iff hfocused hclean hid rfl]
    exact ⟨.inr, fun h => h.resolve_left (by omega)⟩

theorem noLeftover_pause_iff (hfocused : Focused s) (hclean : NoLeftover s) (hactive : (s.cpu c).active = true)
    (h : helperSkiInstrumentPause s c = .ok t) : NoLeftover t ↔ releases s (.guest c .pause) = true := by
  obtain ⟨id, hid, hpause⟩ := helperSkiInstrumentPause_spec h
  obtain ⟨tc, htc⟩ := hfocused.current_lt id hid
  rw [htc] at hpause
  simp only [releases, hactive, pausedBefore, hid, Option.bind_some, htc, Option.any_some, Bool.not_true,
    Bool.false_or, Bool.or_eq_true, Bool.not_eq_true', decide_eq_false_iff_not]
  rcases hpause with ⟨hclose, waitRs, -, rfl⟩ | ⟨hfar, cpuRs, -, rfl⟩
  · rw [noLeftover_wait_iff hfocused hclean hid rfl]
    exact ⟨.inr, fun h => h.resolve_left (not_not_intro hclose)⟩
  · rw [noLeftover_modify hclean htc rfl]
    exact ⟨fun _ => .inl (Int.not_le.mpr hfar), fun _ => hclean tc (List.mem_of_getElem? htc)⟩

/-- The thread that leaves its handler waits only if all threads of its vector do. -/
theorem Reachable.awake_iff (h : Reachable setup s) {u : State} (hthreads : u.threads = s.threads) {v : Int}
    {tc : ThreadContext} (hfind : skiThreadsFind u true c v .runnable = some tc) :
    tc.waitsOnRs = false ↔ ∃ b ∈ s.threads, isHandlerOf c v b = true ∧ b.waitsOnRs = false := by
  obtain ⟨⟨htc, hsought⟩, hfirst⟩ := (skiThreadsFind_iff (hthreads ▸ h.sane.pairwise_ids)).mp hfind
  rw [hthreads] at htc hfirst
  simp only [sought_runnable] at hsought hfirst
  constructor
  · exact fun hawake => ⟨tc, htc, hsought, hawake⟩
  · rintro ⟨b, hb, hin, hawake⟩
    have hle := (hfirst b hb hin).key_le
    simp only [isHandlerOf, Bool.and_eq_true, decide_eq_true_eq] at hin
    by_contra hwaits
    -- the other thread is below the limit that the waiting one is behind
    have hbehind := h.le_priority_of_waits htc (Bool.not_eq_false _ ▸ hwaits) u
    have hbelow := (h.effective_bounds hb).2
    rw [skiThreadsCalculatePriority_awake hin.1.1.1.2 hawake] at hle
    omega

theorem noLeftover_end_iff (h : Reachable setup s) (hclean : NoLeftover s) (hactive : (s.cpu c).active = true)
    (hend : skiHandleInterruptEnd s c = .ok t) : NoLeftover t ↔ releases s (.guest c .interruptEnd) = true := by
  simp only [releases, hactive, Bool.not_true, Bool.false_or, Bool.or_eq_true, decide_eq_true_eq, Bool.not_eq_true']
  rcases skiHandleInterruptEnd_cases hend with ⟨hzero, rfl⟩ | ⟨hpos, u, rfl, ⟨hhw, hu⟩ | ⟨hsoft, rfl⟩⟩
  · exact ⟨fun _ => .inl (.inl hzero), fun _ => hclean⟩
  · obtain ⟨tc, hfind, rfl⟩ := endHandler_cases hu
    obtain ⟨hmem, -, -, -, hint, -⟩ := skiThreadsFind_spec hfind
    rw [noLeftover_modify hclean (h.sane.handlers_ok.getElem?_id hmem) rfl]
    have hended : tc.ended.Clean ↔ tc.ended.waitsOnRs = false := clean_iff hint rfl
    refine hended.trans ((h.awake_iff (u := lowered s c) rfl hfind).trans ?_)
    simp only [hhw, List.any_eq_true, Bool.and_eq_true, Bool.not_eq_true', Nat.ne_of_gt hpos, Bool.true_eq_false,
      or_self, false_or]
  · exact ⟨fun _ => .inl (.inr hsoft), fun _ => hclean⟩

/-- **One event.** -/
theorem step_noLeftover_iff (h : Reachable setup s) (hclean : NoLeftover s) (hstep : step setup s ev = .ok t) :
    NoLeftover t ↔ releases s ev = true := by
  have hother (hev : releases s ev = true) (hend : ∀ c, ev ≠ .guest c .interruptEnd)
      (hload : ∀ c eip address value, ev ≠ .guest c (.loadAccess eip address value))
      (hpause : ∀ c, ev ≠ .guest c .pause) : NoLeftover t ↔ releases s ev = true := by
    refine ⟨fun _ => hev, fun _ tc' htc' => ?_⟩
    obtain ⟨i, hi⟩ := List.mem_iff_getElem?.mp htc'
    obtain ⟨tc, htc, hchange⟩ := (step_changes h.sane.handlers_ok hstep).exists_before hi
    exact hchange.clean hend hload hpause (hclean tc (List.mem_of_getElem? htc))
  cases ev with
  | guest c op =>
    obtain ⟨-, ⟨hidle, rfl⟩ | ⟨hactive, hguest⟩⟩ := step_guest_cases hstep
    · -- an event of a CPU that takes no part
      have hev : releases t (.guest c op) = true := by cases op <;> simp [releases, hidle]
      exact ⟨fun _ => hev, fun _ => hclean⟩
    · cases op with
      | interruptEnd => exact noLeftover_end_iff h hclean hactive hguest
      | loadAccess eip address value => exact noLeftover_load_iff h.sane h.focused hclean hactive hguest
      | pause => exact noLeftover_pause_iff h.focused hclean hactive hguest
      | _ => exact hother rfl (by simp) (by simp) (by simp)
  | _ => exact hother rfl (by simp) (by simp) (by simp)

end Events

/-- **Waits of earlier activations.** In a run whose events all leave no wait behind, no interrupt thread that does not
    exist waits, and so no thread that a request spawns does; and one more event keeps it that way exactly when it
    leaves no wait behind. -/
theorem noLeftover_iff {setup : Setup} {events : List Event} {s : State}
    (h : Run (step setup) (fun s ev => releases s ev = true) setup.start events s) :
    NoLeftover s ∧ (∀ c v tc, spawnedBy s c v = some tc → tc.spawned.waitsOnRs = false) ∧
      ∀ ev t, step setup s ev = .ok t → (NoLeftover t ↔ releases s ev = true) := by
  have hreach := reachable_of_run h
  have hclean : NoLeftover s := by
    have hboth : Reachable setup s ∧ NoLeftover s := by
      refine Run.invariant (P := fun s => Reachable setup s ∧ NoLeftover s) h ?_ ⟨⟨[], .nil _⟩, ?_⟩
      · rintro s ev t ⟨⟨events, hrun⟩, hclean⟩ hreleases hstep
        exact ⟨⟨_, hrun.concat trivial hstep⟩, (step_noLeftover_iff ⟨events, hrun⟩ hclean hstep).mpr hreleases⟩
      · intro tc htc
        obtain ⟨i, e, -, rfl⟩ := setup.exists_entry htc
        exact fun _ _ => ⟨rfl, rfl⟩
    exact hboth.2
  refine ⟨hclean, ?_, fun ev t hstep => step_noLeftover_iff hreach hclean hstep⟩
  intro c v tc hspawn
  obtain ⟨hmem, habsent, -, -, hint, -⟩ := skiThreadsFind_spec (spawnedBy_spec hspawn).2
  exact (clean_iff hint habsent).mp (hclean tc hmem)

/-! ## A handler that reads one value too often -/

/-- One CPU, a thread of vector 49 that may be spawned twice, and the CPU thread. -/
def twoActivations : Setup where
  cpus := [{ active := true, nrMaxInstr := 0, irq := Cpu.idle.irq }]
  table := [{ cpu := 0, i := 49, n := 2 }, { cpu := 0, i := -1, n := 1 }]
  preemptions := []
  preemptionMode := .cpuAndNontimer
  nrCpus := 1
  table_cpus := by decide
  table_ints := by decide
  table_length := by decide
  preemptions_pos := noPoints_pos
  preemptions_length := noPoints_length

/-- The handler ends without a wait, and its vector is requested again. -/
theorem noLeftover_iff_twoActivations :
    ∃ s, Run (step twoActivations) (fun s ev => releases s ev = true) twoActivations.start
        (request 49 ++ [.guest 0 .dispatch, .guest 0 (.loadAccess 1 100 7), .guest 0 .interruptEnd]) s ∧
      NoLeftover s ∧ ∃ tc, spawnedBy s 0 49 = some tc ∧ tc.spawned.waitsOnRs = false := by
  have hexec : (exec (step twoActivations) releases twoActivations.start
      (request 49 ++ [Event.guest 0 .dispatch, .guest 0 (.loadAccess 1 100 7), .guest 0 .interruptEnd])).any
      (fun s => (spawnedBy s 0 49).isSome) = true := by decide
  obtain ⟨s, hrun, hspawn⟩ := exists_run_of_exec (fun _ _ h => h) hexec
  obtain ⟨tc, htc⟩ := Option.isSome_iff_exists.mp hspawn
  exact ⟨s, hrun, (noLeftover_iff hrun).1, tc, htc, (noLeftover_iff hrun).2.1 0 49 tc htc⟩

/-- The read set after `k` loads of one value, and nothing else. -/
def readOnly (eip address value : Int) (k : Nat) : SkiMa where
  isInitialized := true
  entries := [{ count := k, eip := eip, memAddress := address, memValue := value }]
  maxEntries := maEntriesMax
  order := [0]

/-- The CPU has that read set. -/
def State.looping (s : State) (c : Nat) (eip address value : Int) (k : Nat) : State :=
  s.modifyCpu c fun cpu => { cpu with cpuRs := readOnly eip address value k }

section Loop
variable {s : State} {c : Nat} (eip address value : Int) (k : Nat)

theorem skiLivenessStore_readOnly :
    skiLivenessStore (readOnly eip address value k) eip address value
      = (readOnly eip address value (k + 1), ((k + 1 : Nat) : Int)) := by
  simp [skiLivenessStore, readOnly, List.findIdx?_cons]

theorem looping_cpu (hactive : (s.cpu c).active = true) :
    (s.looping c eip address value k).cpu c = { s.cpu c with cpuRs := readOnly eip address value k } := by
  have hlt := State.lt_of_active hactive
  unfold State.looping State.modifyCpu State.cpu
  simp [List.getD_eq_getElem?_getD, hlt]

/-- One more load of the value, below the threshold. -/
theorem step_looping (setup : Setup) (hrunning : s.running = some c) (hactive : (s.cpu c).active = true)
    (hk : ((k + 1 : Nat) : Int) ≤ maxLivenessMaLoopThreshold) :
    step setup (s.looping c eip address value k) (.guest c (.loadAccess eip address value))
      = .ok (s.looping c eip address value (k + 1)) := by
  have hrunning' : (s.looping c eip address value k).running = some c := hrunning
  have hcpu := looping_cpu eip address value k hactive
  have hactive' : ((s.looping c eip address value k).cpu c).active = true := by
    rw [hcpu]
    exact hactive
  rw [step_guest_eq hrunning' hactive']
  unfold guestStep helperSkiLoadAccess
  simp only
  rw [hcpu]
  simp only [skiLivenessStore_readOnly]
  rw [if_neg (Int.not_lt.mpr hk)]
  unfold State.looping State.modifyCpu
  simp only [List.modify_modify_eq]
  rfl

/-- **Many loads of the value.** -/
theorem run_looping (setup : Setup) (hrunning : s.running = some c) (hactive : (s.cpu c).active = true) (n : Nat)
    (hn : ((k + n : Nat) : Int) ≤ maxLivenessMaLoopThreshold) :
    Run (step setup) (fun _ _ => True) (s.looping c eip address value k)
      (List.replicate n (.guest c (.loadAccess eip address value))) (s.looping c eip address value (k + n)) := by
  induction n generalizing k with
  | zero => exact .nil _
  | succ n ih =>
    rw [List.replicate_succ]
    refine .cons trivial (step_looping eip address value k setup hrunning hactive (by omega)) ?_
    rw [show k + (n + 1) = k + 1 + n by omega]
    exact ih (k + 1) (by omega)

end Loop

/-- A handler reads the same value 10001 times and returns in the block of the last of these loads. Its thread leaves
    with the wait, and the next request spawns a thread that waits already. -/
theorem leftover_after_loop :
    ∃ s, Reachable twoActivations s ∧ ¬ NoLeftover s ∧
      ∃ tc, spawnedBy s 0 49 = some tc ∧ tc.spawned.waitsOnRs = true := by
  obtain ⟨s, ⟨events, hrun⟩, hs⟩ := exists_reachable_of_exec twoActivations
    (request 49 ++ [Event.guest 0 .dispatch, .guest 0 (.loadAccess 1 100 7)])
    (p := fun s => s = s.looping 0 1 100 7 1 && s.running = some 0 && (s.cpu 0).active &&
      (exec (step twoActivations) (fun _ _ => true) (s.looping 0 1 100 7 10000)
        [.guest 0 (.loadAccess 1 100 7), .guest 0 .interruptEnd]).any fun t =>
          t.threads.any (fun tc => tc.isInt && !tc.present && tc.waitForRs) &&
            (spawnedBy t 0 49).any fun tc => tc.spawned.waitsOnRs) (by decide)
  simp only [Bool.and_eq_true, decide_eq_true_eq] at hs
  obtain ⟨⟨⟨hone, hrunning⟩, hactive⟩, hend⟩ := hs
  obtain ⟨t, hrun', ht⟩ := exists_run_of_exec (fun _ _ _ => trivial) hend
  have hloop := run_looping 1 100 7 1 twoActivations hrunning hactive 9999 (by decide)
  rw [← hone] at hloop
  refine ⟨t, ⟨_, (hrun.append hloop).append hrun'⟩, ?_, ?_⟩
  · intro hclean
    simp only [Bool.and_eq_true, List.any_eq_true, Bool.not_eq_true'] at ht
    obtain ⟨⟨tc, htc, ⟨hint, habsent⟩, hwaits⟩, -⟩ := ht
    rw [(hclean tc htc hint habsent).1] at hwaits
    cases hwaits
  · simp only [Bool.and_eq_true] at ht
    obtain ⟨tc, htc, hwaits⟩ := (Option.any_eq_true _ _).mp ht.2
    exact ⟨tc, htc, hwaits⟩

end SkiVmm.Sched
