import SkiVmm.Apic.Model

/-!
# `Apic.Start` — interrupts that are pending when the test starts

A CPU enters the test by a hypercall. `ski_initialize_interrupts` then looks for interrupts that are already set and
hands them to the scheduler, and the last CPU to enter starts the test. But `ski_start_test` makes the thread table
anew, and whatever was spawned before in the old one is gone. `pending_announced_iff`: when a test starts, no vector of
the table may be requested on a CPU of the test, or its interrupt is unknown to the scheduler.
-/

namespace SkiVmm.Apic

open Lib Sched

/-! ## The enter hypercall -/

/-- `ski_apic_check_interrupt_set`, which looks at the interrupts in service. -/
def skiApicCheckInterruptSet (intNo : Nat) (a : ApicState) : Bool := a.isr.get intNo

/-- `ski_initialize_interrupts`. The table of ignored interrupts that it also fills is never read. -/
def skiInitializeInterrupts (m : Machine) (cpuNo : Nat) : Except SkiExit Machine := do
  let s := m.sched.modifyCpu cpuNo fun cpu =>
    { cpu with interruptsStack := List.replicate maxInterruptsStack .zero, interruptsStackNo := 0 }
  -- the last vector is left out
  let s ← (List.range 255).foldlM
    (fun s i => if skiApicCheckInterruptSet i (m.apic cpuNo) then skiHandleNewIrqSet s cpuNo i else .ok s) s
  .ok { m with sched := s }

/-- `ski_threads_initialize` on the entries of the priorities file, with `ski_liveness_initialize`. -/
def skiThreadsInitialize (s : State) (table : List TableEntry) : Except SkiExit State :=
  match table.foldlM skiThreadsInsert [] with
  | none => .error .assertFailed
  | some threads =>
    .ok { s with threads := threads, cpus := s.cpus.map fun cpu => { cpu with waitForInterrupt := false } }

/-- `ski_first_in_test` -/
def skiFirstInTest (s : State) : State :=
  if s.cpus.countP (·.active) = 1 then { s with instructionsCurrent := 0, instructionsTotal := 0 } else s

/-- `hio_test_enter`, as the guest fills it in. -/
structure HioTestEnter where
  ghNrInstr : Int
  ghNrCpus : Int

/-- The case `HYPERCALL_IO_TYPE_TEST_ENTER` of `ski_process_hypercall`, and whether the test has started: `ski_barrier`
    returns to the last CPU only, the others leave the loop inside of it. -/
def testEnter (table : List TableEntry) (hio : HioTestEnter) (m : Machine) (cpuNo : Nat) :
    Except SkiExit (Machine × Bool) := do
  let s := skiFirstInTest (m.sched.modifyCpu cpuNo fun cpu => { cpu with active := true })
  let s := s.modifyCpu cpuNo fun cpu =>
    { cpu with
      nrMaxInstr := hio.ghNrInstr
      nrInstrExecutedOther := 0
      nrInstrExecuted := 0
      state := .blockedOnEnter }
  let m ← skiInitializeInterrupts { m with sched := s } cpuNo
  let s := m.sched.modifyCpu cpuNo fun cpu => { cpu with cpuRs := skiLivenessInit maEntriesMax }
  let s := { s with running := none }
  if hio.ghNrCpus = s.cpus.countP (fun cpu => cpu.state = .blockedOnEnter) then
    let s := { s with
      cpus := s.cpus.map fun cpu => if cpu.state = .blockedOnEnter then { cpu with state := .runningTest } else cpu }
    -- `ski_start_test`
    let s ← skiThreadsInitialize s table
    .ok ({ m with sched := s }, true)
  else .ok ({ m with sched := s }, false)

/-! ## The property -/

/-- The table has an entry for the vector on this CPU, which may be spawned. -/
def Listed (table : List TableEntry) (cpuNo vectorNum : Nat) : Prop :=
  ∃ e ∈ table, e.cpu = cpuNo ∧ e.i = vectorNum ∧ 1 ≤ e.n

/-- Each vector of the table that is requested on a CPU in the test has a thread that waits for its trigger. -/
def Announced (table : List TableEntry) (m : Machine) : Prop :=
  ∀ c v, (m.sched.cpu c).active = true → (m.apic c).irr.get v = true → Listed table c v →
    ∃ tc ∈ m.sched.threads, tc.cpuNo = c ∧ tc.isInt = true ∧ tc.intNo = v ∧ tc.state = .needsTrigger

section Start
variable {table : List TableEntry} {hio : HioTestEnter} {m t : Machine} {s u : State} {cpuNo : Nat}

/-- Which CPUs are in the test. -/
def actives (s : State) : List Bool := s.cpus.map (·.active)

theorem active_eq (s : State) (c : Nat) : (s.cpu c).active = (actives s).getD c false :=
  (List.getD_map s.cpus .idle (·.active)).symm

theorem actives_modifyCpu {f : Cpu → Cpu} (h : ∀ cpu, (f cpu).active = cpu.active) (s : State) (c : Nat) :
    actives (s.modifyCpu c f) = actives s :=
  map_modify_eq fun cpu _ => h cpu

theorem actives_map {f : Cpu → Cpu} (h : ∀ cpu, (f cpu).active = cpu.active) (s : State) :
    actives { s with cpus := s.cpus.map f } = actives s := by
  unfold actives
  rw [List.map_map]
  exact List.map_congr_left fun cpu _ => h cpu

/-- A CPU enters. -/
theorem actives_enter (s : State) (c : Nat) :
    actives (skiFirstInTest (s.modifyCpu c fun cpu => { cpu with active := true }))
      = (actives s).modify c fun _ => true := by
  have hmodify : actives (s.modifyCpu c fun cpu => { cpu with active := true })
      = (actives s).modify c fun _ => true := by
    refine map_modify_comm ?_ s.cpus c
    intro cpu
    rfl
  unfold skiFirstInTest
  split <;> exact hmodify

theorem skiHandleNewIrqSet_actives {v : Int} (h : skiHandleNewIrqSet s cpuNo v = .ok u) : actives u = actives s := by
  rcases skiHandleNewIrqSet_cases h with ⟨-, rfl⟩ | ⟨tc, -, -, rfl⟩
  · rfl
  · rfl

theorem skiInitializeInterrupts_spec (h : skiInitializeInterrupts m cpuNo = .ok t) :
    t.apics = m.apics ∧ actives t.sched = actives m.sched := by
  unfold skiInitializeInterrupts at h
  obtain ⟨u, hscan, h⟩ := exists_of_bind_eq_ok h
  cases h
  refine ⟨rfl, ?_⟩
  refine foldlM_invariant (P := fun u => actives u = actives m.sched) ?_ ?_ hscan
  · intro s v s' hs hstep
    split at hstep
    · exact (skiHandleNewIrqSet_actives hstep).trans hs
    · cases hstep
      exact hs
  · refine actives_modifyCpu ?_ m.sched cpuNo
    intro cpu
    rfl

/-- The last CPU to enter: the requests are as before, the threads are those of a new table. -/
theorem testEnter_spec (h : testEnter table hio m cpuNo = .ok (t, true)) :
    t.apics = m.apics ∧ table.foldlM skiThreadsInsert [] = some t.sched.threads ∧
      actives t.sched = (actives m.sched).modify cpuNo fun _ => true := by
  unfold testEnter at h
  obtain ⟨m₁, hinit, h⟩ := exists_of_bind_eq_ok h
  obtain ⟨hapics, hactives⟩ := skiInitializeInterrupts_spec hinit
  simp only at h
  split at h
  · obtain ⟨u, hthreads, h⟩ := exists_of_bind_eq_ok h
    cases h
    unfold skiThreadsInitialize at hthreads
    split at hthreads
    · cases hthreads
    · next threads hinsert =>
      cases hthreads
      refine ⟨hapics, hinsert, ?_⟩
      rw [← actives_enter]
      refine (actives_map ?_ _).trans ((actives_map ?_ _).trans ((actives_modifyCpu ?_ _ _).trans
        (hactives.trans (actives_modifyCpu ?_ _ _))))
      all_goals
        intro cpu
        first | rfl | (split <;> rfl)
  · cases h

/-- No interrupt thread waits when the test starts. -/
theorem state_of_insert {old threads : List ThreadContext} (h : table.foldlM skiThreadsInsert old = some threads)
    (hold : ∀ tc ∈ old, tc.state ≠ .needsTrigger) : ∀ tc ∈ threads, tc.state ≠ .needsTrigger := by
  induction table generalizing old with
  | nil =>
    cases h
    exact hold
  | cons e table ih =>
    rw [List.foldlM_cons, skiThreadsInsert] at h
    split at h
    · refine ih h ?_
      rw [List.forall_mem_append, List.forall_mem_singleton]
      refine ⟨hold, ?_⟩
      show (if 0 ≤ e.i then TcState.na else TcState.runnable) ≠ .needsTrigger
      split <;> decide
    · cases h

/-- **Interrupts that are pending at the start are lost.** When the last CPU has entered, the requests are known to the
    scheduler if and only if there is none for a vector of the table. -/
theorem pending_announced_iff (h : testEnter table hio m cpuNo = .ok (t, true)) :
    Announced table t ↔ ∀ c v, (c = cpuNo ∧ c < m.sched.cpus.length ∨ (m.sched.cpu c).active = true) →
      (m.apic c).irr.get v = true → ¬ Listed table c v := by
  obtain ⟨hapics, hthreads, hactives⟩ := testEnter_spec h
  have hactive (c : Nat) : (t.sched.cpu c).active = true ↔
      (c = cpuNo ∧ c < m.sched.cpus.length ∨ (m.sched.cpu c).active = true) := by
    have hlen : (actives m.sched).length = m.sched.cpus.length := List.length_map _
    rw [active_eq, active_eq, hactives, getD_modify, hlen, @eq_comm _ c cpuNo]
    split_ifs with hc
    · exact iff_of_true rfl (.inl hc)
    · exact (or_iff_right hc).symm
  have happic (c : Nat) : t.apic c = m.apic c := by
    unfold Machine.apic
    rw [hapics]
  constructor
  · intro hannounced c v hc hirr hlisted
    obtain ⟨tc, htc, -, -, -, hwaits⟩ := hannounced c v ((hactive c).mpr hc) ((happic c).symm ▸ hirr) hlisted
    exact state_of_insert hthreads (fun tc htc => absurd htc List.not_mem_nil) tc htc hwaits
  · intro hnone c v hc hirr hlisted
    exact absurd hlisted (hnone c v ((hactive c).mp hc) (happic c ▸ hirr))

end Start

/-! ## Two CPUs that enter -/

/-- Two CPUs before their first test. -/
def booted : Machine where
  sched :=
    { threads := [], current := none, needReevaluate := false, cpus := [.idle, .idle], preemptions := [],
      instructionsTotal := 0, instructionsCurrent := 0, instructionCounter := 0, running := none, inverted := [] }
  apics := [.init, .init]

/-- The threads of both CPUs, and one interrupt of CPU 0. -/
def oneInterrupt : List TableEntry := [⟨0, 49, 1⟩, ⟨0, -1, 1⟩, ⟨1, -1, 1⟩]

def enterBoth : HioTestEnter := { ghNrInstr := 1000, ghNrCpus := 2 }

/-- CPU 0 has entered. -/
def oneEntered : Except SkiExit (Machine × Bool) := testEnter oneInterrupt enterBoth booted 0

/-- Nothing is requested before CPU 1 enters as well, and the scheduler misses nothing. -/
theorem pending_announced_iff_enterBoth :
    ∃ m t, oneEntered = .ok (m, false) ∧ testEnter oneInterrupt enterBoth m 1 = .ok (t, true) ∧
      Announced oneInterrupt t := by
  obtain ⟨⟨m, waits⟩, hfirst, hm⟩ := exists_of_toOption_any (x := oneEntered)
    (p := fun r => !r.2 && !(r.1.apic 0).irr.get 49 && (testEnter oneInterrupt enterBoth r.1 1).toOption.any (·.2))
    (by decide +kernel)
  simp only [Bool.and_eq_true, Bool.not_eq_true'] at hm
  obtain ⟨⟨rfl, hirr⟩, hlast⟩ := hm
  obtain ⟨⟨t, started⟩, henter, rfl⟩ := exists_of_toOption_any hlast
  refine ⟨m, t, hfirst, henter, (pending_announced_iff henter).mpr ?_⟩
  rintro c v - hrequested ⟨e, he, rfl, hv, -⟩
  -- the only vector of the table is 49
  simp only [oneInterrupt, List.mem_cons, List.not_mem_nil, or_false] at he
  rcases he with rfl | rfl | rfl
  · obtain rfl : v = 49 := by
      simp only at hv
      omega
    rw [hirr] at hrequested
    cases hrequested
  · simp only at hv
    omega
  · simp only at hv
    omega

/-- Vector 49 is requested while CPU 0 waits for CPU 1: its thread does not exist when the test starts. -/
theorem pending_lost :
    ∃ m m' t, oneEntered = .ok (m, false) ∧ apicSetIrq m 0 49 false = .ok m' ∧
      testEnter oneInterrupt enterBoth m' 1 = .ok (t, true) ∧ (t.sched.cpu 0).active = true ∧
      (t.apic 0).irr.get 49 = true ∧ Listed oneInterrupt 0 49 ∧ ∀ tc ∈ t.sched.threads, tc.state ≠ .needsTrigger := by
  obtain ⟨⟨m, waits⟩, hfirst, hm⟩ := exists_of_toOption_any (x := oneEntered)
    (p := fun r => !r.2 && (apicSetIrq r.1 0 49 false).toOption.any fun m =>
      (testEnter oneInterrupt enterBoth m 1).toOption.any fun r =>
        r.2 && (r.1.sched.cpu 0).active && (r.1.apic 0).irr.get 49 &&
          r.1.sched.threads.all fun tc => tc.state ≠ .needsTrigger) (by decide +kernel)
  simp only [Bool.and_eq_true, Bool.not_eq_true'] at hm
  obtain ⟨rfl, hrequest⟩ := hm
  obtain ⟨m', hset, hlast⟩ := exists_of_toOption_any hrequest
  obtain ⟨⟨t, started⟩, henter, ht⟩ := exists_of_toOption_any hlast
  simp only [Bool.and_eq_true, List.all_eq_true, decide_eq_true_eq] at ht
  obtain ⟨⟨⟨rfl, hactive⟩, hirr⟩, hthreads⟩ := ht
  exact ⟨m, m', t, hfirst, hset, henter, hactive, hirr, ⟨_, List.mem_cons_self, rfl, rfl, by decide⟩, hthreads⟩

end SkiVmm.Apic
