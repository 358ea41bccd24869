import SkiVmm.Apic.Moves

/-!
# `Apic.Requests` — the bits of `irr` and the threads that wait for their trigger

The APIC keeps one bit for a vector, however often it is requested, but the scheduler spawns a thread on every
request for which the table has one left. The two agree (`Coherent`) as long as no vector is requested again while
a thread waits for it; this is also necessary (`requests_coherent_iff`). `requested_twice` is a test in which they
come apart.
-/

namespace SkiVmm.Apic

open Lib Sched

/-! ## Agreement -/

/-- The number of threads of the CPU and vector that are `NEEDS_TRIGGER`. -/
def Machine.waiting (m : Machine) (c : Nat) (v : Int) : Nat := m.sched.threads.countP (isRequestOf c v)

/-- The bit of the vector in `irr`. -/
def Machine.requested (m : Machine) (c : Nat) (v : Int) : Bool := 0 ≤ v && (m.apic c).irr.get v.toNat

/-- **At most one thread waits for a vector of a CPU in the test, and only for one that is requested.** -/
def Coherent (m : Machine) : Prop :=
  ∀ c v, (m.sched.cpu c).active = true → m.waiting c v ≤ 1 ∧ (0 < m.waiting c v → m.requested c v = true)

/-- A request of the vector would spawn a thread. -/
def slotLeft (s : State) (c : Nat) (v : Int) : Bool :=
  (s.cpu c).active && s.threads.any fun tc =>
    tc.present = false && tc.state = .na && (tc.cpuNo = c && tc.isInt && tc.intNo = v)

/-- A vector is requested only when no thread waits for it, or when the table has no thread left for it; and no
    request is taken back that a thread waits for. -/
def separate (m : Machine) (ev : Event) : Bool :=
  ((requestOf m ev).all fun (c, v) => !slotLeft m.sched c v || m.waiting c v = 0) &&
  (withdrawnBy m ev).all fun (c, v) => !(m.sched.cpu c).active || m.waiting c v = 0

/-! ## The bits -/

section Bits
variable {m m' : Machine} {c : Nat}

theorem Machine.irr_eq (m : Machine) (c : Nat) : (m.apic c).irr = m.irrs.getD c (.zero 32 8) := by
  unfold Machine.apic Machine.irrs
  exact (List.getD_map _ _ ApicState.irr).symm

theorem requested_congr (h : m'.irrs = m.irrs) (c : Nat) (v : Int) : m'.requested c v = m.requested c v := by
  unfold Machine.requested
  rw [m.irr_eq, m'.irr_eq, h]

theorem irr_of_modify {f : Tab → Tab} (h : m'.irrs = m.irrs.modify c f) {c' : Nat} (hc' : c' < m.apics.length) :
    (m'.apic c').irr = if c = c' then f (m.apic c').irr else (m.apic c').irr := by
  have hlt : c' < m.irrs.length := by simpa [Machine.irrs] using hc'
  rw [m.irr_eq, m'.irr_eq, h, getD_modify]
  simp only [hlt, and_true]

theorem requested_set {v : Fin 256} (h : m'.irrs = m.irrs.modify c (·.set v)) {c' : Nat} (hc' : c' < m.apics.length)
    (v' : Int) : m'.requested c' v' = (decide (c' = c ∧ v' = v) || m.requested c' v') := by
  have hlt : (v : Nat) < 32 * 8 := v.isLt
  unfold Machine.requested
  rw [irr_of_modify h hc']
  split_ifs with hcc
  · subst hcc
    rw [Bitmap.get_set (by decide) _ hlt]
    by_cases hv : 0 ≤ v'
    · have heq : ((v : Nat) = v'.toNat) ↔ v' = ((v : Nat) : Int) := by omega
      simp [hv, heq]
    · have hne : v' ≠ ((v : Nat) : Int) := by omega
      simp [hv, hne]
  · simp [Ne.symm hcc]

theorem requested_reset {v : Nat} (hv : v < 256) (h : m'.irrs = m.irrs.modify c (·.reset v)) {c' : Nat}
    (hc' : c' < m.apics.length) (v' : Int) :
    m'.requested c' v' = (!decide (c' = c ∧ v' = v) && m.requested c' v') := by
  unfold Machine.requested
  rw [irr_of_modify h hc']
  split_ifs with hcc
  · subst hcc
    rw [Bitmap.get_reset (by decide) _ hv]
    by_cases hv' : 0 ≤ v'
    · have heq : (v = v'.toNat) ↔ v' = (v : Int) := by omega
      simp [hv', heq]
    · simp [hv']
  · simp [Ne.symm hcc]

/-- Requested vectors have a bit. -/
theorem lt_of_requested {v : Int} (h : m.requested c v = true) : 0 ≤ v ∧ v.toNat < 256 := by
  unfold Machine.requested at h
  obtain ⟨hv, hbit⟩ := Bool.and_eq_true_iff.mp h
  exact ⟨of_decide_eq_true hv, Bitmap.lt_of_get (by decide) hbit⟩

end Bits

/-! ## The threads -/

section Threads
variable {s t : State} {c : Nat} {v : Int}

theorem slotLeft_eq (s : State) (c : Nat) (v : Int) : slotLeft s c v = (spawnedBy s c v).isSome := by
  unfold slotLeft spawnedBy
  cases (s.cpu c).active with
  | false => rfl
  | true =>
    rw [Bool.true_and, if_pos rfl, Bool.eq_iff_iff, List.any_eq_true, Option.isSome_iff_ne_none, ne_eq]
    unfold skiThreadsFind
    rw [lastMin_eq_none, List.filter_eq_nil_iff]
    simp only [not_forall, not_not, exists_prop]

theorem active_of_slotLeft (h : slotLeft s c v = true) : (s.cpu c).active = true := by
  unfold slotLeft at h
  exact (Bool.and_eq_true_iff.mp h).1

/-- A request makes one more thread wait, if there is one left. -/
theorem countP_newIrqSet (hok : s.handlers.Ok) (h : skiHandleNewIrqSet s c v = .ok t) (c' : Nat) (v' : Int) :
    t.threads.countP (isRequestOf c' v') =
      s.threads.countP (isRequestOf c' v') + if slotLeft s c v = true ∧ c' = c ∧ v' = v then 1 else 0 := by
  rw [slotLeft_eq]
  rcases skiHandleNewIrqSet_cases h with ⟨hspawn, rfl⟩ | ⟨tc, hspawn, -, rfl⟩
  · simp [hspawn]
  · obtain ⟨hmem, habsent, -, hcpu, hint, hno⟩ := skiThreadsFind_spec (spawnedBy_spec hspawn).2
    have hid := hok.getElem?_id hmem
    have hcount := countP_set_add (p := isRequestOf c' v') hid tc.spawned
    have hbefore : isRequestOf c' v' tc = false := by simp [isRequestOf, habsent]
    have hafter : isRequestOf c' v' tc.spawned = decide (c' = c ∧ v' = v) := by
      simp [isRequestOf, ThreadContext.spawned, hint, hcpu, hno, eq_comm, Bool.decide_and]
    rw [hbefore, hafter] at hcount
    simp only [hspawn, Option.isSome_some, true_and]
    unfold State.modifyThread
    rw [modify_eq_set hid]
    simpa using hcount

/-- Only requests make more threads wait. -/
theorem countP_le_of_step {setup : Sched.Setup} {ev : Sched.Event} (hok : s.handlers.Ok)
    (hnot : throughApic ev = false) (h : Sched.step setup s ev = .ok t) (c : Nat) (v : Int) :
    t.threads.countP (isRequestOf c v) ≤ s.threads.countP (isRequestOf c v) := by
  obtain ⟨l, hstep, hspawn, -⟩ := (step_effect hok h).handlers
  have hle := hstep.countP_awaitsTrigger_le c v
  rw [countP_awaitsTrigger, countP_awaitsTrigger] at hle
  have hl : l ≠ .spawn c v := by
    intro hl
    rw [hspawn c v hl] at hnot
    cases hnot
  rw [if_neg hl] at hle
  omega

/-- A dispatch takes one thread away from those that wait. -/
theorem countP_dispatch {setup : Sched.Setup} (hok : s.handlers.Ok) (hactive : (s.cpu c).active = true)
    (hvector : dispatchedVector s c = some v) (h : Sched.step setup s (.guest c .dispatch) = .ok t) (c' : Nat)
    (v' : Int) :
    t.threads.countP (isRequestOf c' v') + (if c' = c ∧ v' = v then 1 else 0)
      ≤ s.threads.countP (isRequestOf c' v') := by
  obtain ⟨-, ⟨hidle, -⟩ | ⟨-, hguest⟩⟩ := step_guest_cases h
  · rw [hactive] at hidle
    cases hidle
  · obtain ⟨v'', hvector', hbegin⟩ := guestStep_dispatch_cases hguest
    obtain rfl : v'' = v := Option.some.inj (hvector'.symm.trans hvector)
    have hacked : Quiet s (s.modifyCpu c fun cpu => { cpu with irq := { cpu.irq with hard := false } }) := by
      apply quiet_modifyCpu <;> intros <;> rfl
    have heffect := hacked.trans_effect (skiHandleInterruptBegin_hw (hacked.handlers_eq ▸ hok)
      ((active_of_armed_eq hacked.armed_eq c).trans hactive) hbegin)
    have hle := heffect.step.countP_awaitsTrigger_le c' v'
    rw [countP_awaitsTrigger, countP_awaitsTrigger] at hle
    simpa [eq_comm] using hle

end Threads

/-! ## Events -/

section Events
variable {setup : Setup} {m m' : Machine} {ev : Event}

/-- Agreement is kept when no more threads wait and their bits stay. -/
theorem Coherent.mono (hm : Coherent m) (hactive : ∀ c, (m'.sched.cpu c).active = (m.sched.cpu c).active)
    (hwaiting : ∀ c v, m'.waiting c v ≤ m.waiting c v)
    (hrequested : ∀ c v, (m.sched.cpu c).active = true → 0 < m'.waiting c v → m.requested c v = true →
      m'.requested c v = true) : Coherent m' := by
  intro c v hc
  rw [hactive c] at hc
  obtain ⟨hone, hbit⟩ := hm c v hc
  have hle := hwaiting c v
  refine ⟨Nat.le_trans hle hone, fun hpos => ?_⟩
  exact hrequested c v hc hpos (hbit (Nat.lt_of_lt_of_le hpos hle))

theorem Lines.waiting_eq (h : Lines m.sched m'.sched) (c : Nat) (v : Int) : m'.waiting c v = m.waiting c v := by
  unfold Machine.waiting
  rw [h.threads_eq]

theorem waiting_request {c : Nat} {v : Fin 256} {u : State} (hok : m.sched.handlers.Ok) (hlines : Lines m.sched u)
    (hset : skiHandleNewIrqSet u c v = .ok m'.sched) (c' : Nat) (v' : Int) :
    m'.waiting c' v' = m.waiting c' v' + if slotLeft m.sched c v = true ∧ c' = c ∧ v' = v then 1 else 0 := by
  have hslot : slotLeft u c v = slotLeft m.sched c v := by
    unfold slotLeft
    rw [hlines.active_eq, hlines.threads_eq]
  unfold Machine.waiting
  rw [countP_newIrqSet (hlines.quiet.handlers_eq ▸ hok) hset, hslot, hlines.threads_eq]

/-- A request: the threads of its vector are the only ones that can get too many. -/
theorem coherent_request_iff {c : Nat} {v : Fin 256} {u : State} (hm : Coherent m) (hok : m.sched.handlers.Ok)
    (hlength : ∀ c, (m.sched.cpu c).active = true → c < m.apics.length)
    (hactive : ∀ c, (m'.sched.cpu c).active = (m.sched.cpu c).active) (hlines : Lines m.sched u)
    (hset : skiHandleNewIrqSet u c v = .ok m'.sched) (hirrs : m'.irrs = m.irrs.modify c (·.set v)) :
    Coherent m' ↔ (slotLeft m.sched c v = true → m.waiting c v = 0) := by
  have hcount := waiting_request hok hlines hset
  constructor
  · intro hm' hleft
    have hone := (hm' c v (hactive c ▸ active_of_slotLeft hleft)).1
    rw [hcount c v, if_pos ⟨hleft, rfl, rfl⟩] at hone
    omega
  · intro hfree c' v' hc'
    rw [hactive c'] at hc'
    obtain ⟨hone, hbit⟩ := hm c' v' hc'
    rw [hcount c' v']
    split_ifs with hnew
    · obtain ⟨hleft, rfl, rfl⟩ := hnew
      rw [hfree hleft, requested_set hirrs (hlength _ hc')]
      simp
    · refine ⟨hone, fun hpos => ?_⟩
      rw [requested_set hirrs (hlength _ hc'), hbit hpos, Bool.or_true]

/-- A request that is taken back: no thread may wait for it. -/
theorem coherent_withdraw_iff {c : Nat} {v : Fin 256} (hm : Coherent m)
    (hlength : ∀ c, (m.sched.cpu c).active = true → c < m.apics.length) (hlines : Lines m.sched m'.sched)
    (hirrs : m'.irrs = m.irrs.modify c (·.reset v)) :
    Coherent m' ↔ ((m.sched.cpu c).active = true → m.waiting c v = 0) := by
  have hrequested {c' : Nat} (hc' : (m.sched.cpu c').active = true) (v' : Int) :
      m'.requested c' v' = (!decide (c' = c ∧ v' = v) && m.requested c' v') :=
    requested_reset v.isLt hirrs (hlength c' hc') v'
  constructor
  · intro hm' hc
    have hbit := (hm' c v (hlines.active_eq c ▸ hc)).2
    rw [hlines.waiting_eq, hrequested hc] at hbit
    simp only [and_self, decide_true, Bool.not_true, Bool.false_and, Bool.false_eq_true, imp_false] at hbit
    omega
  · intro hfree
    refine hm.mono hlines.active_eq (fun c' v' => Nat.le_of_eq (hlines.waiting_eq c' v')) ?_
    intro c' v' hc' hpos hbit
    rw [hrequested hc', hbit, Bool.and_true, Bool.not_eq_true', decide_eq_false_iff_not]
    rintro ⟨rfl, rfl⟩
    rw [hlines.waiting_eq, hfree hc'] at hpos
    exact Nat.lt_irrefl 0 hpos

/-- A dispatch: the thread that waited for the vector does not wait any more. -/
theorem coherent_dispatch {c : Nat} {v : Int} (hm : Coherent m) (hok : m.sched.handlers.Ok)
    (hlength : ∀ c, (m.sched.cpu c).active = true → c < m.apics.length)
    (hactives : ∀ c, (m'.sched.cpu c).active = (m.sched.cpu c).active) (hactive : (m.sched.cpu c).active = true)
    (hvector : dispatchedVector m.sched c = some v)
    (hstep : Sched.step setup.toSetup m.sched (.guest c .dispatch) = .ok m'.sched)
    (hirrs : m'.irrs = m.irrs ∨ m'.irrs = m.irrs.modify c (·.reset v.toNat)) : Coherent m' := by
  have hcount (c' : Nat) (v' : Int) :
      m'.waiting c' v' + (if c' = c ∧ v' = v then 1 else 0) ≤ m.waiting c' v' :=
    countP_dispatch hok hactive hvector hstep c' v'
  obtain ⟨hone, hbit⟩ := hm c v hactive
  have hdown := hcount c v
  rw [if_pos ⟨rfl, rfl⟩] at hdown
  have hv := lt_of_requested (hbit (by omega))
  refine hm.mono hactives ?_ ?_
  · intro c' v'
    exact Nat.le_trans (Nat.le_add_right _ _) (hcount c' v')
  · intro c' v' hc' hpos hbit'
    rcases hirrs with hirrs | hirrs
    · rwa [requested_congr hirrs]
    · rw [requested_reset hv.2 hirrs (hlength c' hc'), hbit', Bool.and_true, Bool.not_eq_true',
        decide_eq_false_iff_not, Int.toNat_of_nonneg hv.1]
      rintro ⟨rfl, rfl⟩
      omega

/-- **One event keeps the agreement exactly if it is separate.** -/
theorem Move.coherent_iff (h : Move setup m m' ev) (hok : m.sched.handlers.Ok)
    (hlength : ∀ c, (m.sched.cpu c).active = true → c < m.apics.length) (hm : Coherent m) :
    Coherent m' ↔ separate m ev = true := by
  have hactives := h.active_eq hok
  cases h with
  | request hrequest hwithdrawn hlines hset hirrs =>
    rw [coherent_request_iff hm hok hlength hactives hlines hset hirrs]
    simp [separate, hrequest, hwithdrawn, imp_iff_not_or]
  | withdraw hrequest hwithdrawn hlines hirrs =>
    rw [coherent_withdraw_iff hm hlength hlines hirrs]
    simp [separate, hrequest, hwithdrawn, imp_iff_not_or]
  | quiet hrequest hwithdrawn hlines hirrs =>
    have hkeep : Coherent m' := by
      refine hm.mono hlines.active_eq (fun c v => Nat.le_of_eq (hlines.waiting_eq c v)) ?_
      intro c v _ _ hbit
      rwa [requested_congr hirrs]
    simp [separate, hrequest, hwithdrawn, hkeep]
  | dispatch hev hactive hvector hstep hirrs =>
    subst hev
    have hkeep := coherent_dispatch hm hok hlength hactives hactive hvector hstep hirrs
    simp [separate, requestOf, withdrawnBy, hkeep]
  | sched hev hnot hstep hapics =>
    subst hev
    have hirrs : m'.irrs = m.irrs := congrArg (List.map ApicState.irr) hapics
    have hkeep : Coherent m' := by
      refine hm.mono hactives (countP_le_of_step hok hnot hstep) ?_
      intro c v _ _ hbit
      rwa [requested_congr hirrs]
    simp [separate, requestOf, withdrawnBy, hkeep]

/-! ## Tests -/

theorem Setup.start_waiting (setup : Setup) (c : Nat) (v : Int) : setup.start.waiting c v = 0 := by
  unfold Machine.waiting
  rw [← countP_awaitsTrigger]
  exact setup.toSetup.countP_start fun _ => awaitsTrigger_exists

theorem Setup.start_coherent (setup : Setup) : Coherent setup.start := by
  intro c v _
  rw [setup.start_waiting]
  exact ⟨Nat.zero_le 1, fun hpos => absurd hpos (Nat.lt_irrefl 0)⟩

/-- **Requests and threads agree in every test whose events are separate, and each other event breaks it.** -/
theorem requests_coherent_iff {events : List Event}
    (hrun : Run (step setup) (fun m ev => separate m ev = true) setup.start events m) :
    Coherent m ∧ ∀ ev m', step setup m ev = .ok m' → (Coherent m' ↔ separate m ev = true) := by
  have hiff {n n' : Machine} {ev : Event} (hn : Tested setup n ∧ Coherent n) (hstep : step setup n ev = .ok n') :
      Coherent n' ↔ separate n ev = true :=
    (step_move hn.1.handlers_ok hstep).coherent_iff hn.1.handlers_ok (fun c => hn.1.lt_of_active) hn.2
  have hboth : Tested setup m ∧ Coherent m := by
    refine Run.invariant (P := fun m => Tested setup m ∧ Coherent m) hrun ?_
      ⟨setup.start_tested, setup.start_coherent⟩
    intro n ev n' hn hseparate hstep
    exact ⟨hn.1.step hstep, (hiff hn hstep).mpr hseparate⟩
  exact ⟨hboth.2, fun ev m' => hiff hboth⟩

/-- A table with two threads for vector 49. -/
def twoThreads : Setup where
  cpus := [{ active := true, nrMaxInstr := 100, irq := ⟨false, false, false, true, false⟩ }]
  table := [⟨0, 49, 1⟩, ⟨0, 49, 1⟩, ⟨0, -1, 1⟩]
  preemptions := []
  preemptionMode := .all
  nrCpus := 1
  table_cpus := by decide
  table_ints := twoOfOneVector.table_ints
  table_length := twoOfOneVector.table_length
  preemptions_pos := noPoints_pos
  preemptions_length := noPoints_length
  apics := [{ ApicState.init with spuriousVec := 0x1ff }]
  apics_length := rfl

/-- A request, its dispatch and the end of interrupt keep the condition. -/
theorem requests_coherent_iff_twoThreads :
    ∃ m, Run (step twoThreads) (fun m ev => separate m ev = true) twoThreads.start
        [.setIrq 0 49 false, .sched (.canRun 0), .dispatch 0 (-1), .eoi 0] m ∧
      Coherent m ∧ ∀ ev m', step twoThreads m ev = .ok m' → (Coherent m' ↔ separate m ev = true) := by
  obtain ⟨m, hrun, -⟩ := exists_run_of_exec (p := fun _ => true) (fun _ _ h => h)
    (show (exec (step twoThreads) separate twoThreads.start
      [.setIrq 0 49 false, .sched (.canRun 0), .dispatch 0 (-1), .eoi 0]).any (fun _ => true) = true by decide)
  exact ⟨m, hrun, requests_coherent_iff hrun⟩

/-- **A vector requested twice before it is delivered**: two threads wait for it, and after the dispatch of one of
    them the other one waits without a request. -/
theorem requested_twice :
    (∃ m, Reachable twoThreads m ∧ (m.sched.cpu 0).active = true ∧ m.waiting 0 49 = 2) ∧
    ∃ m, Reachable twoThreads m ∧ (m.sched.cpu 0).active = true ∧ m.waiting 0 49 = 1 ∧
      m.requested 0 49 = false := by
  constructor
  · obtain ⟨m, hm, hp⟩ := exists_reachable_of_exec twoThreads [.setIrq 0 49 false, .setIrq 0 49 false]
      (p := fun m => (m.sched.cpu 0).active && m.waiting 0 49 = 2) (by decide)
    exact ⟨m, hm, by simpa using hp⟩
  · obtain ⟨m, hm, hp⟩ := exists_reachable_of_exec twoThreads
      [.setIrq 0 49 false, .setIrq 0 49 false, .sched (.canRun 0), .dispatch 0 (-1)]
      (p := fun m => (m.sched.cpu 0).active && (m.waiting 0 49 = 1 && !m.requested 0 49)) (by decide)
    exact ⟨m, hm, by simpa using hp⟩

end Events

end SkiVmm.Apic
