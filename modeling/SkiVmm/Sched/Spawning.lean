import SkiVmm.Sched.Lifecycle
import SkiVmm.Sched.Participants

/-!
# `Sched.Spawning` — requests that find a thread without a count

`ski_handle_new_irq_set` looks for a thread that is NA and takes it for granted that it may be spawned. This is so for
a thread that has come back from its handler: it is NA only if something is left of its count. A thread of the start is
NA whatever its count is.

* `Spawnable` — what the state NA of a thread should mean, kept by every event (`Change.spawnable`).
* `Barren` — a thread of the start that can never be spawned; it stays as it is (`Change.barren`), and requests for its
  vector come to it when all others are spawned (`Setup.exists_request_fails`).
* `Setup.requestsServed_iff` — no request fails if and only if there is no such thread on a CPU of the test.
-/

namespace SkiVmm.Sched

open Lib

/-- The APIC requests vectors from 0 to 255. -/
def Event.OfVector : Event → Prop
  | .newIrqSet _ vectorNum => 0 ≤ vectorNum ∧ vectorNum < 256
  | _ => True

/-- No request comes to the assertion that the source takes for unreachable, whatever happened in the test before. -/
def Setup.RequestsServed (setup : Setup) : Prop :=
  ∀ events s, Run (step setup) (fun _ ev => ev.OfVector) setup.start events s →
    ∀ (c : Nat) (v : Int), 0 ≤ v → v < 256 → skiHandleNewIrqSet s c v ≠ .error .assertFailed

/-! ## Threads that can be spawned -/

/-- A thread that is NA has something left of its count. -/
structure Spawnable (tc : ThreadContext) : Prop where
  count_nonneg : 0 ≤ tc.count
  count_pos : tc.state = .na → 0 < tc.count

/-- A thread that is NA without a count. -/
structure Barren (c : Nat) (v : Int) (tc : ThreadContext) : Prop where
  cpuNo_eq : tc.cpuNo = c
  isInt_eq : tc.isInt = true
  intNo_eq : tc.intNo = v
  absent : tc.present = false
  state_eq : tc.state = .na
  count_le : tc.count ≤ 0

section Threads
variable {s t : State} {ev : Event} {tc tc' : ThreadContext} {c : Nat} {v : Int}

theorem Change.spawnable (h : Change s t ev tc tc') (hok : Spawnable tc) : Spawnable tc' := by
  obtain ⟨hnonneg, hpos⟩ := hok
  cases h with
  | same | wait | pause | wake | weigh => exact ⟨hnonneg, hpos⟩
  | trigger => exact ⟨hnonneg, nofun⟩
  | spawn _ _ _ _ hcount => exact ⟨Int.le_sub_one_of_lt hcount, nofun⟩
  | finish =>
    refine ⟨hnonneg, ?_⟩
    simp only
    split
    · nofun
    · intro _
      omega

theorem Change.barren (h : Change s t ev tc tc') (hbarren : Barren c v tc) : Barren c v tc' := by
  obtain ⟨hcpu, hint, hno, habsent, hna, hle⟩ := hbarren
  cases h with
  | same | wait | pause | wake | weigh => exact ⟨hcpu, hint, hno, habsent, hna, hle⟩
  | spawn _ _ _ _ hcount => exact absurd hcount (Int.not_lt.mpr hle)
  | trigger _ _ hpresent | finish _ _ hpresent =>
    rw [habsent] at hpresent
    cases hpresent

/-- When a request fails: the thread that it finds has no count. -/
theorem skiHandleNewIrqSet_fails_iff :
    skiHandleNewIrqSet s c v = .error .assertFailed ↔ ∃ tc, spawnedBy s c v = some tc ∧ tc.count ≤ 0 := by
  unfold skiHandleNewIrqSet spawnedBy
  cases (s.cpu c).active with
  | false => simp
  | true =>
    simp only [Bool.not_true, Bool.false_eq_true, if_false, if_true]
    cases skiThreadsFind s false c v .na with
    | none => simp
    | some tc =>
      simp only [Option.some.injEq, exists_eq_left']
      split_ifs with hcount
      · simp [hcount]
      · simp [hcount]

/-- How many threads a request could still spawn. -/
def waitingFor (c : Nat) (v : Int) (tc : ThreadContext) : Bool :=
  tc.present = false && tc.state = .na && (tc.cpuNo = c && tc.isInt && tc.intNo = v)

theorem skiThreadsFind_of_barren (htc : tc ∈ s.threads) (hbarren : Barren c v tc) :
    ∃ tc', skiThreadsFind s false c v .na = some tc' := by
  refine Option.ne_none_iff_exists'.mp fun hnone => ?_
  have hempty := List.filter_eq_nil_iff.mp (lastMin_eq_none.mp hnone) tc htc
  obtain ⟨hcpu, hint, hno, habsent, hna, -⟩ := hbarren
  simp [hcpu, hint, hno, habsent, hna] at hempty

/-- A request that spawns a thread leaves one less. -/
theorem countP_waitingFor_spawn (hok : s.handlers.Ok) (hspawn : spawnedBy s c v = some tc) :
    (s.modifyThread tc.id ThreadContext.spawned).threads.countP (waitingFor c v)
      < s.threads.countP (waitingFor c v) := by
  obtain ⟨hmem, habsent, hna, hcpu, hint, hno⟩ := skiThreadsFind_spec (spawnedBy_spec hspawn).2
  have hid := hok.getElem?_id hmem
  have hadd := countP_set_add (p := waitingFor c v) hid tc.spawned
  have hbefore : waitingFor c v tc = true := by simp [waitingFor, habsent, hna, hcpu, hint, hno]
  have hafter : waitingFor c v tc.spawned = false := by simp [waitingFor, ThreadContext.spawned]
  rw [hbefore, hafter] at hadd
  unfold State.modifyThread
  simp only [modify_eq_set hid]
  simp only [if_true, Bool.false_eq_true, if_false] at hadd
  omega

end Threads

/-! ## Tests -/

section Tests
variable {setup : Setup} {e : TableEntry}

/-- **The requests of a test come to a thread without a count**, if there is one for a vector of the APIC. -/
theorem Setup.exists_request_fails (he : e ∈ setup.table) (hi : 0 ≤ e.i) (hlt : e.i < 256)
    (hcpu : setup.takesPart e.cpu = true) (hn : e.n ≤ 0) :
    ∃ events s, Run (step setup) (fun _ ev => ev.OfVector) setup.start events s ∧
      skiHandleNewIrqSet s e.cpu e.i = .error .assertFailed := by
  have hstart : ∃ tc ∈ setup.start.threads, Barren e.cpu e.i tc := by
    obtain ⟨i, hget⟩ := List.mem_iff_getElem?.mp he
    refine ⟨{ skiTcInitialize i i e.cpu e.i 0 with count := e.n }, List.mem_of_getElem? (i := i) ?_, ?_⟩
    · exact (setup.getElem?_threads i).trans (congrArg _ hget)
    · exact ⟨rfl, decide_eq_true hi, rfl, by simp [skiTcInitialize, hi], if_pos hi, hn⟩
  have hvector : (Event.newIrqSet e.cpu e.i).OfVector := ⟨hi, hlt⟩
  -- there are only so many threads that requests can spawn before they come to the one without a count
  have hgoal := exists_of_measure
    (I := fun s => (∃ events, Run (step setup) (fun _ ev => ev.OfVector) setup.start events s) ∧
      ∃ tc ∈ s.threads, Barren e.cpu e.i tc)
    (G := fun s => skiHandleNewIrqSet s e.cpu e.i = .error .assertFailed)
    (fun s => s.threads.countP (waitingFor e.cpu e.i)) ?_ ⟨⟨[], .nil _⟩, hstart⟩
  · obtain ⟨s, ⟨⟨events, hrun⟩, -⟩, hfails⟩ := hgoal
    exact ⟨events, s, hrun, hfails⟩
  · -- one more request, which fails or spawns another thread
    rintro s ⟨⟨events, hrun⟩, tc, htc, hbarren⟩
    have hreach := reachable_of_run hrun
    have hok := hreach.sane.handlers_ok
    have hactive : (s.cpu e.cpu).active = true := (hreach.assigned.active_eq _).trans hcpu
    obtain ⟨found, hfind⟩ := skiThreadsFind_of_barren htc hbarren
    have hspawn : spawnedBy s e.cpu e.i = some found := (if_pos hactive).trans hfind
    by_cases hcount : found.count ≤ 0
    · exact .inl (skiHandleNewIrqSet_fails_iff.mpr ⟨found, hspawn, hcount⟩)
    · have hstep : step setup s (.newIrqSet e.cpu e.i) = .ok (s.modifyThread found.id ThreadContext.spawned) := by
        unfold step skiHandleNewIrqSet
        simp only [hactive, hfind, if_neg hcount]
        rfl
      refine .inr ⟨_, ⟨⟨_, hrun.concat hvector hstep⟩, ?_⟩, countP_waitingFor_spawn hok hspawn⟩
      obtain ⟨i, hget⟩ := List.mem_iff_getElem?.mp htc
      obtain ⟨tc', htc', hchange⟩ := (step_changes hok hstep).getElem? hget
      exact ⟨tc', List.mem_of_getElem? htc', hchange.barren hbarren⟩

/-- **When all requests are served**: the threads for the vectors of the APIC, on the CPUs of the test, start with a
    count. -/
theorem Setup.requestsServed_iff :
    setup.RequestsServed ↔
      ∀ e ∈ setup.table, 0 ≤ e.i → e.i < 256 → setup.takesPart e.cpu = true → 0 < e.n := by
  constructor
  · intro h e he hi hlt hcpu
    by_contra hn
    obtain ⟨events, s, hrun, hfails⟩ := Setup.exists_request_fails he hi hlt hcpu (Int.not_lt.mp hn)
    exact h events s hrun e.cpu e.i hi hlt hfails
  · intro h events s hrun c v hv hlt hfails
    obtain ⟨tc, hspawn, hcount⟩ := skiHandleNewIrqSet_fails_iff.mp hfails
    obtain ⟨hactive, hfind⟩ := spawnedBy_spec hspawn
    obtain ⟨hmem, -, hna, rfl, hint, rfl⟩ := skiThreadsFind_spec hfind
    have hin : setup.takesPart tc.cpuNo = true := ((reachable_of_run hrun).assigned.active_eq _).symm.trans hactive
    have hthread := run_threads (P := fun tc => tc.isInt = true → tc.intNo < 256 → setup.takesPart tc.cpuNo = true →
      Spawnable tc) hrun ?_ ?_ tc hmem hint hlt hin
    · exact absurd (hthread.count_pos hna) (Int.not_lt.mpr hcount)
    · intro tc htc hint hlt hin
      obtain ⟨i, e, he, rfl⟩ := setup.exists_entry htc
      have hn := h e he (of_decide_eq_true hint) hlt hin
      exact ⟨Int.le_of_lt hn, fun _ => hn⟩
    · intro s t ev tc tc' _ hchange hok hint hlt hin
      refine hchange.spawnable ?_
      cases hchange <;> exact hok hint hlt hin

end Tests

end SkiVmm.Sched
