import SkiVmm.Sched.Reach

/-!
# `Sched.Selection` — the thread that runs next

`ski_threads_find_next_runnable` returns the thread that precedes all others that are eligible: the least value of
`ski_threads_calculate_priority`, and the larger index among equal ones.
-/

namespace SkiVmm.Sched

open Lib

/-- The order of selection. -/
def Before (s : State) (a b : ThreadContext) : Prop := Precedes (skiThreadsCalculatePriority s) (·.id) a b

section Selection
variable {s : State}

theorem Sane.pairwise_ids (h : Sane s) : s.threads.Pairwise fun a b => a.id < b.id := by
  rw [List.pairwise_iff_getElem]
  intro i j hi hj hlt
  have hid (k : Nat) (hk : k < s.threads.length) : s.threads[k].id = k :=
    h.handlers_ok.shapes_ok.id_eq k _ (shapes_getElem? (List.getElem?_eq_getElem hk))
  rw [hid i hi, hid j hj]
  exact hlt

/-- **The selection**: an eligible thread before all eligible ones, if its priority is not beyond all limits. -/
theorem Sane.findNextRunnable_iff (h : Sane s) {tc : ThreadContext} :
    skiThreadsFindNextRunnable s = .ok tc ↔
      (tc ∈ s.threads ∧ eligible s tc = true ∧ ∀ b ∈ s.threads, eligible s b = true → Before s tc b) ∧
        skiThreadsCalculatePriority s tc ≤ livenessPriorityNopauseLoop := by
  have hbest : lastMin (skiThreadsCalculatePriority s) (s.threads.filter (eligible s)) = some tc ↔
      tc ∈ s.threads ∧ eligible s tc = true ∧ ∀ b ∈ s.threads, eligible s b = true → Before s tc b := by
    rw [lastMin_eq_some_iff (h.pairwise_ids.filter (eligible s)), List.mem_filter, and_assoc]
    simp only [List.mem_filter, and_imp]
    rfl
  rw [← hbest]
  unfold skiThreadsFindNextRunnable
  cases lastMin (skiThreadsCalculatePriority s) (s.threads.filter (eligible s)) with
  | none => simp
  | some r =>
    simp only
    split_ifs with hlimit
    · constructor
      · intro heq
        cases heq
      · rintro ⟨heq, hle⟩
        obtain rfl := Option.some.inj heq
        exact absurd hlimit (Int.not_lt.mpr hle)
    · constructor
      · intro heq
        obtain rfl := Except.ok.inj heq
        exact ⟨rfl, Int.not_lt.mp hlimit⟩
      · rintro ⟨heq, -⟩
        rw [Option.some.inj heq]

/-- The priority of an interrupt thread does not depend on the CPUs. -/
theorem skiThreadsCalculatePriority_int {tc : ThreadContext} (hint : tc.isInt = true) (s u : State) :
    skiThreadsCalculatePriority u tc = skiThreadsCalculatePriority s tc := by
  simp [skiThreadsCalculatePriority, hint]

theorem before_int_iff {a b : ThreadContext} (ha : a.isInt = true) (hb : b.isInt = true) (s u : State) :
    Before u a b ↔ Before s a b := by
  unfold Before Precedes
  rw [skiThreadsCalculatePriority_int ha s u, skiThreadsCalculatePriority_int hb s u]

theorem skiThreadsCalculatePriority_awake {tc : ThreadContext} (hint : tc.isInt = true)
    (hawake : tc.waitsOnRs = false) : skiThreadsCalculatePriority s tc = tc.priority + tc.priorityAdjust := by
  unfold ThreadContext.waitsOnRs at hawake
  obtain ⟨hrs, hpause⟩ := Bool.or_eq_false_iff.mp hawake
  simp [skiThreadsCalculatePriority, hint, hrs, hpause]

/-- What `ski_threads_find` looks for. -/
def sought (present : Bool) (cpuNo : Nat) (intNo : Int) (state : TcState) (tc : ThreadContext) : Bool :=
  tc.present = present && tc.state = state && (tc.cpuNo = cpuNo && tc.isInt && tc.intNo = intNo)

/-- **The search for an interrupt thread**: one that comes before all others of its kind. -/
theorem skiThreadsFind_iff (hids : s.threads.Pairwise fun a b => a.id < b.id) {present : Bool} {cpuNo : Nat}
    {intNo : Int} {state : TcState} {tc : ThreadContext} :
    skiThreadsFind s present cpuNo intNo state = some tc ↔
      (tc ∈ s.threads ∧ sought present cpuNo intNo state tc = true) ∧
        ∀ b ∈ s.threads, sought present cpuNo intNo state b = true → Before s tc b := by
  have hfind : skiThreadsFind s present cpuNo intNo state
      = lastMin (skiThreadsCalculatePriority s) (s.threads.filter (sought present cpuNo intNo state)) := rfl
  rw [hfind, lastMin_eq_some_iff (hids.filter _), List.mem_filter]
  simp only [List.mem_filter, and_imp]
  rfl

end Selection

end SkiVmm.Sched
