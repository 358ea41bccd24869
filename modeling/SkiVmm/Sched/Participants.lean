import SkiVmm.Sched.Focus
import SkiVmm.Sched.Poll
import Mathlib.Data.Finset.Card
import Mathlib.Data.Finset.Filter
import Mathlib.Data.Finset.Range

/-!
# `Sched.Participants` — threads of CPUs that take no part in the test

The table of a test may name CPUs that have not entered it. Their interrupt threads are never spawned, but the
threads of the CPUs themselves exist from the start, and nothing keeps them from being selected.

* `Reachable.takesPart_of_selected` — if the table has no such thread, the thread selected is always one of a CPU
  that takes part, and the poll of that CPU lets it run.
* `exists_selected_idle` — if it has one, a test in which the CPUs that run go to `hlt` one after the other gets to
  select it.
-/

namespace SkiVmm.Sched

open Lib

/-- The CPU has entered the test. -/
def Setup.takesPart (setup : Setup) (c : Nat) : Bool := setup.cpus[c]?.any (·.active)

theorem Setup.lt_of_takesPart (setup : Setup) {c : Nat} (h : setup.takesPart c = true) : c < setup.cpus.length := by
  obtain ⟨cpu, hcpu, -⟩ := (Option.any_eq_true _ _).mp h
  exact (List.getElem?_eq_some_iff.mp hcpu).1

/-! ## The threads of a table -/

/-- The thread is still the one of this entry: a thread of a CPU itself never goes away, and an interrupt thread is
    there only on a CPU that takes part. -/
structure Belongs (setup : Setup) (e : TableEntry) (tc : ThreadContext) : Prop where
  cpuNo_eq : tc.cpuNo = e.cpu
  isInt_eq : tc.isInt = decide (0 ≤ e.i)
  stays : tc.isInt = false → tc.present = true
  spawned : tc.isInt = true → tc.present = true → setup.takesPart tc.cpuNo = true

/-- What a test never changes: which CPUs take part, and which thread is made from which entry. -/
structure Assigned (setup : Setup) (s : State) : Prop where
  active_eq : ∀ c, (s.cpu c).active = setup.takesPart c
  rows : List.Forall₂ (Belongs setup) setup.table s.threads

section Assigned
variable {setup : Setup} {s t : State} {ev : Event} {e : TableEntry} {tc tc' : ThreadContext}

theorem Belongs.change (h : Belongs setup e tc) (hchange : Change s t ev tc tc')
    (hspawn : ∀ c v, ev = .newIrqSet c v → setup.takesPart c = true) : Belongs setup e tc' := by
  cases hchange with
  | same | wait | pause | wake | weigh => exact ⟨h.cpuNo_eq, h.isInt_eq, h.stays, h.spawned⟩
  | spawn hev => exact ⟨h.cpuNo_eq, h.isInt_eq, fun _ => rfl, fun _ _ => hspawn _ _ hev⟩
  | trigger _ hint hpresent => exact ⟨h.cpuNo_eq, h.isInt_eq, h.stays, fun _ _ => h.spawned hint hpresent⟩
  | finish _ hint =>
    refine ⟨h.cpuNo_eq, h.isInt_eq, fun hcpu => ?_, fun _ hpresent => by cases hpresent⟩
    rw [show tc.isInt = true from hint] at hcpu
    cases hcpu

theorem skiHandleNewIrqSet_idle {c : Nat} {v : Int} (h : skiHandleNewIrqSet s c v = .ok t)
    (hidle : (s.cpu c).active = false) : t = s := by
  rcases skiHandleNewIrqSet_cases h with ⟨-, rfl⟩ | ⟨tc, hspawn, -, -⟩
  · rfl
  · rw [(spawnedBy_spec hspawn).1] at hidle
    cases hidle

theorem Assigned.step (h : Assigned setup s) (hsane : Sane s) (hstep : step setup s ev = .ok t) :
    Assigned setup t := by
  have hactive (c : Nat) : (t.cpu c).active = setup.takesPart c :=
    (active_of_armed_eq (step_effect hsane.handlers_ok hstep).armed_eq c).trans (h.active_eq c)
  refine ⟨hactive, ?_⟩
  by_cases hidle : ∃ c v, ev = .newIrqSet c v ∧ setup.takesPart c = false
  · -- a request on a CPU outside of the test is dropped
    obtain ⟨c, v, rfl, hc⟩ := hidle
    rw [skiHandleNewIrqSet_idle hstep ((h.active_eq c).trans hc)]
    exact h.rows
  · have hspawn (c : Nat) (v : Int) (hev : ev = .newIrqSet c v) : setup.takesPart c = true := by
      rw [← Bool.not_eq_false]
      intro hc
      exact hidle ⟨c, v, hev, hc⟩
    obtain ⟨hlen, hrows⟩ := List.forall₂_iff_get.mp h.rows
    obtain ⟨hlen', hchanges⟩ := List.forall₂_iff_get.mp (step_changes hsane.handlers_ok hstep)
    refine List.forall₂_iff_get.mpr ⟨hlen.trans hlen', ?_⟩
    intro i h₁ h₂
    exact (hrows i h₁ (hlen ▸ h₁)).change (hchanges i (hlen ▸ h₁) h₂) hspawn

theorem Setup.start_active (setup : Setup) (c : Nat) : (setup.start.cpu c).active = setup.takesPart c := by
  unfold State.cpu Setup.start Setup.takesPart
  simp only [List.getD_eq_getElem?_getD, List.getElem?_map]
  cases setup.cpus[c]? with
  | none => rfl
  | some cpu =>
    unfold Setup.startCpu
    cases hactive : cpu.active <;> simp [Cpu.idle, hactive]

theorem Setup.start_assigned (setup : Setup) : Assigned setup setup.start := by
  refine ⟨setup.start_active, ?_⟩
  have hlen : setup.table.length = setup.start.threads.length := by simp [Setup.start, Setup.threads]
  refine List.forall₂_iff_get.mpr ⟨hlen, ?_⟩
  intro i h₁ h₂
  have hthread := setup.getElem?_threads i
  rw [List.getElem?_eq_getElem h₁, List.getElem?_eq_getElem (show i < setup.threads.length from h₂)] at hthread
  simp only [List.get_eq_getElem]
  rw [show setup.start.threads[i] = _ from Option.some.inj hthread]
  refine ⟨rfl, rfl, ?_, ?_⟩
  · intro hcpu
    exact (congrArg not hcpu).trans rfl
  · intro hint hpresent
    have hpresent : (!decide (0 ≤ setup.table[i].i)) = true := hpresent
    rw [show decide (0 ≤ setup.table[i].i) = true from hint] at hpresent
    cases hpresent

theorem Reachable.assigned (h : Reachable setup s) : Assigned setup s := by
  obtain ⟨events, hrun⟩ := h
  have hboth : Sane s ∧ Assigned setup s := by
    refine Run.invariant (P := fun s => Sane s ∧ Assigned setup s) hrun ?_ ⟨setup.start_sane, setup.start_assigned⟩
    rintro s ev t ⟨hsane, hassigned⟩ - hstep
    exact ⟨hsane.step hstep, hassigned.step hsane hstep⟩
  exact hboth.2

theorem Reachable.ready (h : Reachable setup s) : Ready s := ⟨h.sane, fun _ htc => h.effective_le htc⟩

theorem Reachable.inTest (h : Reachable setup s) {c : Nat} (hc : setup.takesPart c = true) : InTest s c :=
  h.focused.in_test c ((h.assigned.active_eq c).trans hc)

theorem Assigned.entry_of_mem (h : Assigned setup s) (htc : tc ∈ s.threads) :
    ∃ e ∈ setup.table, Belongs setup e tc := by
  obtain ⟨i, hi, rfl⟩ := List.mem_iff_getElem.mp htc
  obtain ⟨hlen, hrows⟩ := List.forall₂_iff_get.mp h.rows
  exact ⟨setup.table[i], List.getElem_mem _, hrows i (hlen ▸ hi) hi⟩

theorem Assigned.thread_of_mem (h : Assigned setup s) (he : e ∈ setup.table) :
    ∃ tc ∈ s.threads, Belongs setup e tc := by
  obtain ⟨i, hi, rfl⟩ := List.mem_iff_getElem.mp he
  obtain ⟨hlen, hrows⟩ := List.forall₂_iff_get.mp h.rows
  exact ⟨s.threads[i], List.getElem_mem _, hrows i hi (hlen ▸ hi)⟩

theorem Belongs.eq_neg_one (h : Belongs setup e tc) (he : e ∈ setup.table) (hcpu : tc.isInt = false) : e.i = -1 := by
  have hneg : decide (0 ≤ e.i) = false := h.isInt_eq ▸ hcpu
  exact (setup.table_ints e he).resolve_right (of_decide_eq_false hneg)

/-! ## Tables of the CPUs that take part -/

/-- A thread that exists and is not the thread of a CPU outside of the test is one of a CPU in it. -/
theorem Assigned.takesPart_of_present (h : Assigned setup s)
    (htable : ∀ e ∈ setup.table, e.i = -1 → setup.takesPart e.cpu = true) (htc : tc ∈ s.threads)
    (hpresent : tc.present = true) : setup.takesPart tc.cpuNo = true := by
  obtain ⟨e, he, hbelongs⟩ := h.entry_of_mem htc
  cases hint : tc.isInt with
  | true => exact hbelongs.spawned hint hpresent
  | false =>
    rw [hbelongs.cpuNo_eq]
    exact htable e he (hbelongs.eq_neg_one he hint)

/-- The poll of the CPU of the selected thread. -/
theorem Reachable.poll_selected (h : Reachable setup s) (hfind : skiThreadsFindNextRunnable s = .ok tc)
    (hc : setup.takesPart tc.cpuNo = true) :
    ∃ u, skiCpuCanRun s tc.cpuNo = .ok (u, true) ∧ u.threads = s.threads ∧ u.current = some tc.id ∧
      ∀ c, u.cpu c = if tc.cpuNo = c then { s.cpu c with cpuRs := (u.cpu c).cpuRs } else s.cpu c := by
  have hselected := selected_of_findNextRunnable h.sane hfind
  by_cases hcurrent : s.current = some tc.id
  · refine ⟨polled s, skiCpuCanRun_current hselected h.ready (h.inTest hc) hcurrent, rfl, hcurrent, ?_⟩
    intro c
    split <;> rfl
  · refine ⟨switched s tc, skiCpuCanRun_switch hselected h.ready (h.inTest hc) hcurrent, rfl, rfl, ?_⟩
    intro c
    have hlt : tc.cpuNo < s.handlers.frames.length :=
      h.sane.handlers_ok.shapes_ok.cpu_lt tc.shape (List.mem_map_of_mem hselected.mem)
    rw [switched_cpu (by simpa [State.handlers] using hlt)]
    split <;> rfl

/-- **Without threads of idle CPUs the selected thread can run.** -/
theorem Reachable.takesPart_of_selected (h : Reachable setup s)
    (htable : ∀ e ∈ setup.table, e.i = -1 → setup.takesPart e.cpu = true)
    (hfind : skiThreadsFindNextRunnable s = .ok tc) :
    (s.cpu tc.cpuNo).active = true ∧ ∃ u, skiCpuCanRun s tc.cpuNo = .ok (u, true) := by
  have hselected := selected_of_findNextRunnable h.sane hfind
  have hpresent : tc.present = true := by
    have := hselected.eligible
    simp only [eligible, Bool.and_eq_true] at this
    exact this.1.1.1
  have hc := h.assigned.takesPart_of_present htable hselected.mem hpresent
  obtain ⟨u, hrun, -⟩ := h.poll_selected hfind hc
  exact ⟨(h.assigned.active_eq _).trans hc, u, hrun⟩

end Assigned

/-! ## Tables with a thread of another CPU -/

/-- A test in which the CPUs have done nothing but `hlt`. -/
structure Resting (setup : Setup) (s : State) : Prop where
  reachable : Reachable setup s
  running : s.running = none
  threads : s.threads = setup.threads
  idle : ∀ c, setup.takesPart c = false → s.cpu c = setup.start.cpu c

/-- The CPUs of the test that are not in `hlt`. -/
def awake (setup : Setup) (s : State) : Finset Nat :=
  (Finset.range setup.cpus.length).filter fun c => setup.takesPart c = true ∧ (s.cpu c).waitForInterrupt = false

section Resting
variable {setup : Setup} {s : State} {e : TableEntry} {tc : ThreadContext}

theorem Resting.start (setup : Setup) : Resting setup setup.start := ⟨⟨[], .nil _⟩, rfl, rfl, fun _ _ => rfl⟩

theorem start_cpu_idle {c : Nat} (hidle : setup.takesPart c = false) :
    (setup.start.cpu c).state = .na ∧ (setup.start.cpu c).waitForInterrupt = false ∧
      (setup.start.cpu c).interruptsStack = Cpu.idle.interruptsStack := by
  rcases setup.cpu_start c with hcpu | ⟨cpu, -, hcpu⟩
  · rw [hcpu]
    exact ⟨rfl, rfl, rfl⟩
  · have hactive := setup.start_active c
    rw [hidle, hcpu] at hactive
    rw [hcpu]
    unfold Setup.startCpu at hactive ⊢
    split at hactive
    · cases hactive
    · next h =>
      rw [if_neg h]
      exact ⟨rfl, rfl, rfl⟩

/-- A thread of the start, which waits for nothing and exists unless it is one of an interrupt. -/
theorem Resting.thread (h : Resting setup s) (htc : tc ∈ s.threads) :
    tc.present = !tc.isInt ∧ tc.waitsOnRs = false := by
  rw [h.threads] at htc
  obtain ⟨i, hi⟩ := List.mem_iff_getElem?.mp htc
  rw [setup.getElem?_threads] at hi
  obtain ⟨e, -, rfl⟩ := Option.map_eq_some_iff.mp hi
  exact ⟨rfl, rfl⟩

/-- The thread of an idle CPU is eligible. -/
theorem Resting.eligible_idle (h : Resting setup s) (he : e ∈ setup.table) (hi : e.i = -1)
    (hidle : setup.takesPart e.cpu = false) : ∃ tc ∈ s.threads, eligible s tc = true := by
  obtain ⟨tc, htc, hbelongs⟩ := h.reachable.assigned.thread_of_mem he
  have hint : tc.isInt = false := by
    rw [hbelongs.isInt_eq, hi]
    rfl
  obtain ⟨hpresent, hwaits⟩ := h.thread htc
  obtain ⟨hstate, hwait, hstack⟩ := start_cpu_idle hidle
  refine ⟨tc, htc, ?_⟩
  unfold eligible skiInterruptsInHwInt
  rw [hbelongs.cpuNo_eq, h.idle _ hidle, hpresent, hwaits, hint, hstate, hwait, hstack]
  rfl

/-- The next thread is the one of a CPU that is not in `hlt`. -/
theorem Resting.selected_cpu (h : Resting setup s) (hfind : skiThreadsFindNextRunnable s = .ok tc) :
    (s.cpu tc.cpuNo).waitForInterrupt = false := by
  obtain ⟨htc, heligible, -⟩ := selected_of_findNextRunnable h.reachable.sane hfind
  simp only [eligible, Bool.and_eq_true, Bool.not_eq_true', Bool.or_eq_false_iff] at heligible
  obtain ⟨⟨⟨hpresent, -, hwait⟩, -⟩, -⟩ := heligible
  rw [(h.thread htc).1, Bool.not_eq_true'] at hpresent
  rwa [hpresent] at hwait

/-- The state after `hlt` on the CPU `c`. -/
def halted (u : State) (c : Nat) : State :=
  { u.modifyCpu c fun cpu => { cpu with waitForInterrupt := true } with
    needReevaluate := true
    running := none }

theorem halted_cpu {u : State} {c : Nat} (hlt : c < u.cpus.length) (c' : Nat) :
    (halted u c).cpu c' = if c = c' then { u.cpu c' with waitForInterrupt := true } else u.cpu c' := by
  unfold halted State.cpu State.modifyCpu
  exact getD_modify_of_lt hlt _ c' _

/-- A poll, `hlt`, and back in the loop. -/
theorem Reachable.halt (h : Reachable setup s) {u : State} {c id : Nat} (hrunning : s.running = none)
    (hlt : c < s.cpus.length) (hpoll : skiCpuCanRun s c = .ok (u, true)) (hcurrent : u.current = some id)
    (hactive : (u.cpu c).active = true) : Reachable setup (halted u c) := by
  obtain ⟨events, hrun⟩ := h
  have hcanRun : step setup s (.canRun c) = .ok { u with running := some c } := by
    unfold step
    simp only
    rw [if_pos ⟨hrunning, hlt⟩, hpoll]
    rfl
  have hhlt : step setup { u with running := some c } (.guest c .hlt)
      = .ok { halted u c with running := some c } := by
    unfold step
    simp only
    rw [if_neg (by simp), show State.cpu { u with running := some c } c = u.cpu c from rfl, hactive, if_neg (by simp)]
    unfold guestStep skiThreadsSelfWaitHlt
    simp only
    rw [if_neg (by simp [hcurrent])]
    rfl
  exact ⟨_, ((hrun.concat trivial hcanRun).concat trivial hhlt).concat (i := .leave) trivial rfl⟩

/-- The CPU that is let run executes `hlt`. -/
theorem Resting.halt (h : Resting setup s) (hfind : skiThreadsFindNextRunnable s = .ok tc)
    (hc : setup.takesPart tc.cpuNo = true) :
    ∃ t, Resting setup t ∧ (awake setup t).card < (awake setup s).card := by
  obtain ⟨u, hpoll, hthreads, hcurrent, hcpus⟩ := h.reachable.poll_selected hfind hc
  have hactive (c : Nat) : (u.cpu c).active = setup.takesPart c := by
    rw [hcpus, ← h.reachable.assigned.active_eq]
    split <;> rfl
  have hlt : tc.cpuNo < s.cpus.length := State.lt_of_active ((h.reachable.assigned.active_eq _).trans hc)
  have hlt' : tc.cpuNo < u.cpus.length := State.lt_of_active ((hactive _).trans hc)
  have hcpu (c : Nat) (hne : tc.cpuNo ≠ c) : (halted u tc.cpuNo).cpu c = s.cpu c := by
    rw [halted_cpu hlt', if_neg hne, hcpus, if_neg hne]
  refine ⟨halted u tc.cpuNo, ⟨?_, rfl, hthreads.trans h.threads, ?_⟩, Finset.card_lt_card ?_⟩
  · exact h.reachable.halt h.running hlt hpoll hcurrent ((hactive _).trans hc)
  · intro c hidle
    rw [hcpu c (by rintro rfl; rw [hc] at hidle; cases hidle)]
    exact h.idle c hidle
  · -- this CPU was awake and is not any more, and nothing has changed for the others
    have hrange := Finset.mem_range.mpr (setup.lt_of_takesPart hc)
    have hmem : tc.cpuNo ∈ awake setup s := Finset.mem_filter.mpr ⟨hrange, hc, h.selected_cpu hfind⟩
    have hsubset : awake setup (halted u tc.cpuNo) ⊆ awake setup s := by
      intro c hawake
      obtain ⟨hrange, hin, hwait⟩ := Finset.mem_filter.mp hawake
      by_cases heq : tc.cpuNo = c
      · exact heq ▸ hmem
      · exact Finset.mem_filter.mpr ⟨hrange, hin, (hcpu c heq) ▸ hwait⟩
    refine (Finset.ssubset_iff_of_subset hsubset).mpr ⟨tc.cpuNo, hmem, ?_⟩
    intro hawake
    have hwait := (Finset.mem_filter.mp hawake).2.2
    rw [halted_cpu hlt', if_pos rfl] at hwait
    cases hwait

/-- **A thread of an idle CPU gets selected.** -/
theorem exists_selected_idle (he : e ∈ setup.table) (hi : e.i = -1) (hidle : setup.takesPart e.cpu = false) :
    ∃ s tc, Reachable setup s ∧ skiThreadsFindNextRunnable s = .ok tc ∧ (s.cpu tc.cpuNo).active = false := by
  have hgoal := exists_of_measure (I := Resting setup)
    (G := fun s => ∃ tc, skiThreadsFindNextRunnable s = .ok tc ∧ (s.cpu tc.cpuNo).active = false)
    (fun s => (awake setup s).card) ?_ (Resting.start setup)
  · obtain ⟨s, hs, tc, hfind, hactive⟩ := hgoal
    exact ⟨s, tc, hs.reachable, hfind, hactive⟩
  · intro s hs
    obtain ⟨b, hb, heligible⟩ := hs.eligible_idle he hi hidle
    obtain ⟨tc, hfind⟩ := hs.reachable.findNextRunnable_of_eligible hb heligible
    cases hc : setup.takesPart tc.cpuNo with
    | false => exact .inl ⟨tc, hfind, (hs.reachable.assigned.active_eq _).trans hc⟩
    | true => exact .inr (hs.halt hfind hc)

end Resting

end SkiVmm.Sched
