import SkiVmm.Sched.Waiting

/-!
# `Sched.Overlap` — accesses of different sizes

`helper_ski_load_access` and `helper_ski_store_access` are called with the size of the access, but read sets keep the
start of a load only, and a store is looked up by its start. So a store that writes some of the bytes that a thread
waits for wakes it only if it starts where one of the loads has started (`store_wakes_iff`), and a store into the
middle of a load does not (`store_inside_load`).
-/

namespace SkiVmm.Sched

open Lib

/-! ## Sizes -/

/-- `n_bits` of the loads and stores that `translate.c` instruments. -/
inductive AccessBits where
  | bits8
  | bits16
  | bits32
  deriving DecidableEq

/-- The number of bytes. -/
def AccessBits.bytes : AccessBits → Int
  | .bits8 => 1
  | .bits16 => 2
  | .bits32 => 4

theorem AccessBits.bytes_pos (n : AccessBits) : 0 < n.bytes := by cases n <;> decide

structure Access where
  address : Int
  nBits : AccessBits
  deriving DecidableEq

/-- The byte is one of the access. -/
def Access.covers (a : Access) (x : Int) : Prop := a.address ≤ x ∧ x < a.address + a.nBits.bytes

/-- The accesses have a byte in common. -/
def Access.Overlaps (a b : Access) : Prop := ∃ x, a.covers x ∧ b.covers x

/-- An event of a test, with the size of the access if it is one. -/
abbrev SizedEvent := Event × AccessBits

/-- The size does not matter to the scheduler. -/
def sizedStep (setup : Setup) (s : State) (ev : SizedEvent) : Except SkiExit State := step setup s ev.1

/-- The CPU has made this load. -/
def Loaded (events : List SizedEvent) (c : Nat) (load : Access) : Prop :=
  ∃ eip value, (.guest c (.loadAccess eip load.address value), load.nBits) ∈ events

/-- The load is one of the CPU of the thread, and in the wait set of the thread. -/
def Recorded (events : List SizedEvent) (tc : ThreadContext) (load : Access) : Prop :=
  load.address ∈ tc.waitRs.addresses ∧ Loaded events tc.cpuNo load

/-! ## Where the addresses come from -/

/-- The addresses in read sets and wait sets are those of loads. -/
structure Sourced (s : State) (events : List SizedEvent) : Prop where
  read : ∀ c, ∀ a ∈ (s.cpu c).cpuRs.addresses, ∃ load, Loaded events c load ∧ load.address = a
  waited : ∀ tc ∈ s.threads, ∀ a ∈ tc.waitRs.addresses, ∃ load, Loaded events tc.cpuNo load ∧ load.address = a

section Sourced
variable {setup : Setup} {s t : State} {ev : SizedEvent} {past events : List SizedEvent} {c : Nat}

theorem Loaded.mono {load : Access} (h : Loaded past c load) (ev : SizedEvent) : Loaded (past ++ [ev]) c load := by
  obtain ⟨eip, value, hmem⟩ := h
  exact ⟨eip, value, List.mem_append_left _ hmem⟩

theorem Sourced.read_step (h : Sourced s past) (hfocused : Focused s) (hstep : step setup s ev.1 = .ok t) (c : Nat) :
    ∀ a ∈ (t.cpu c).cpuRs.addresses, ∃ load, Loaded (past ++ [ev]) c load ∧ load.address = a := by
  -- what was there before
  have hold : ∀ a ∈ (s.cpu c).cpuRs.addresses, ∃ load, Loaded (past ++ [ev]) c load ∧ load.address = a := by
    intro a ha
    obtain ⟨load, hload, rfl⟩ := h.read c a ha
    exact ⟨load, hload.mono ev, rfl⟩
  intro a ha
  rcases (step_focus hfocused.current_lt hstep).cpuRs_cases c with hrs | hrs | ⟨eip, address, value, hev, hrs⟩
  · exact hold a (hrs ▸ ha)
  · rw [hrs] at ha
    cases ha
  · rw [hrs] at ha
    rcases mem_addresses_store ha with rfl | ha
    · refine ⟨⟨a, ev.2⟩, ⟨eip, value, List.mem_append_right _ (List.mem_singleton.mpr ?_)⟩, rfl⟩
      rw [← hev]
    · exact hold a ha

/-- **Every event keeps it.** -/
theorem Sourced.step (h : Sourced s past) (hsane : Sane s) (hfocused : Focused s)
    (hstep : step setup s ev.1 = .ok t) : Sourced t (past ++ [ev]) := by
  have hread := h.read_step hfocused hstep
  refine ⟨hread, ?_⟩
  intro tc' htc' a ha
  obtain ⟨i, hi⟩ := List.mem_iff_getElem?.mp htc'
  obtain ⟨tc, htc, hchange⟩ := (step_changes hsane.handlers_ok hstep).exists_before hi
  have hcpu := hchange.cpuNo_eq
  have hold (ha : a ∈ tc.waitRs.addresses) :
      ∃ load, Loaded (past ++ [ev]) tc'.cpuNo load ∧ load.address = a := by
    obtain ⟨load, hload, rfl⟩ := h.waited tc (List.mem_of_getElem? htc) a ha
    rw [hcpu]
    exact ⟨load, hload.mono ev, rfl⟩
  cases hchange with
  | same | spawn | trigger | finish | pause | weigh => exact hold ha
  | @wait c op isPause waitRs hev hactive hcurrent hcause hcopy =>
    -- the set is a copy of the read set of the CPU of the thread
    rw [hev] at hstep
    rw [hsane.handlers_ok.id_of_getElem? htc] at hcurrent
    have hc : tc.cpuNo = c := hfocused.cpuNo_eq (running_of_guest hstep) hactive hcurrent htc
    rw [hcpu, hc]
    exact hread c a (mem_addresses_copy hcopy ha)
  | wake => cases ha

theorem sourced_of_run (hrun : Run (sizedStep setup) (fun _ _ => True) s events t) (hsane : Sane s)
    (hfocused : Focused s) (h : Sourced s past) : Sourced t (past ++ events) := by
  induction hrun generalizing past with
  | nil s => simpa using h
  | @cons s u t ev events _ hstep _ ih =>
    have := ih (hsane.step hstep) (hfocused.step hsane hstep) (h.step hsane hfocused hstep)
    rwa [List.append_assoc] at this

theorem Setup.start_sourced (setup : Setup) : Sourced setup.start [] := by
  constructor
  · intro c a ha
    rcases setup.cpu_start c with hidle | ⟨cpu, -, hcpu⟩
    · rw [hidle] at ha
      cases ha
    · rw [hcpu] at ha
      unfold Setup.startCpu at ha
      split at ha <;> cases ha
  · intro tc htc a ha
    obtain ⟨i, e, -, rfl⟩ := setup.exists_entry htc
    cases ha

end Sourced

/-! ## Stores that overlap -/

theorem Access.overlaps_of_address_eq {load store : Access} (h : load.address = store.address) :
    load.Overlaps store := by
  refine ⟨store.address, ⟨Int.le_of_eq h, ?_⟩, ⟨Int.le_refl _, ?_⟩⟩
  · rw [h]
    exact Int.lt_add_of_pos_right _ load.nBits.bytes_pos
  · exact Int.lt_add_of_pos_right _ store.nBits.bytes_pos

/-- **When a store wakes a thread.** A thread that exists waits, and a CPU of the test writes to memory. The store wakes
    the thread exactly when it starts where a load in the wait set of the thread has started. So a store that wakes it
    has written to bytes that the thread waits for, but not every store to such bytes wakes it. -/
theorem store_wakes_iff {setup : Setup} {events : List SizedEvent} {s : State} {i c : Nat} {tc : ThreadContext}
    (store : Access) (h : Run (sizedStep setup) (fun _ _ => True) setup.start events s)
    (htc : s.threads[i]? = some tc) (hpresent : tc.present = true) (hwaits : tc.waitsOnRs = true)
    (hrunning : s.running = some c) (hactive : (s.cpu c).active = true) :
    ∃ t tc', sizedStep setup s (.guest c (.storeAccess store.address), store.nBits) = .ok t ∧
      t.threads[i]? = some tc' ∧
      (tc'.waitsOnRs = false ↔ ∃ load, Recorded events tc load ∧ load.address = store.address) ∧
      (tc'.waitsOnRs = false → ∃ load, Recorded events tc load ∧ load.Overlaps store) := by
  have hrun : Run (step setup) (fun _ _ => True) setup.start (events.map Prod.fst) s :=
    h.map id Prod.fst fun _ hstep => ⟨trivial, hstep⟩
  obtain ⟨-, hfocused⟩ := run_focused hrun
  have hsourced := sourced_of_run h setup.start_sane setup.start_focused setup.start_sourced
  obtain ⟨t, hstep, htc'⟩ :=
    exists_store store.address hfocused (run_waitRs_isInitialized hrun) htc hrunning hactive
  have hwoken : (tc.stored store.address).waitsOnRs = false ↔ store.address ∈ tc.waitRs.addresses := by
    rw [← skiLivenessIsPresent_iff]
    unfold ThreadContext.stored wokenBy
    rw [hwaits, hpresent, Bool.true_and, Bool.true_and]
    split_ifs with hhit
    · exact iff_of_true rfl hhit
    · exact iff_of_false (by simp [hwaits]) hhit
  have hiff : (tc.stored store.address).waitsOnRs = false ↔
      ∃ load, Recorded events tc load ∧ load.address = store.address := by
    rw [hwoken]
    constructor
    · intro hmem
      obtain ⟨load, hload, heq⟩ := hsourced.waited tc (List.mem_of_getElem? htc) _ hmem
      exact ⟨load, ⟨heq ▸ hmem, hload⟩, heq⟩
    · rintro ⟨load, ⟨hmem, -⟩, heq⟩
      exact heq ▸ hmem
  refine ⟨t, tc.stored store.address, hstep, htc', hiff, ?_⟩
  intro hawake
  obtain ⟨load, hload, heq⟩ := hiff.mp hawake
  exact ⟨load, hload, load.overlaps_of_address_eq heq⟩

/-- The thread of CPU 0 pauses, reads four bytes at 100, and pauses again. Then CPU 1 runs. -/
def waitForLong : List SizedEvent :=
  pauseAndLoad.map (·, AccessBits.bits32) ++
    [(Event.guest 0 .pause, AccessBits.bits32), (.leave, .bits32), (.canRun 1, .bits32)]

/-- Those four bytes. -/
def longAt100 : Access := { address := 100, nBits := .bits32 }

/-- What a store by CPU 1 does to the thread of CPU 0, which waits for these bytes. -/
theorem exists_waitForLong (store : Access) (waits : Bool)
    (h : (exec (sizedStep twoCpus) (fun _ _ => true) twoCpus.start waitForLong).any (fun s =>
      s.running = some 1 && (s.cpu 1).active && (s.threads[0]?.any fun tc : ThreadContext =>
        tc.present && tc.waitsOnRs && tc.cpuNo = 0 && tc.waitRs.addresses.contains 100) &&
      (sizedStep twoCpus s (.guest 1 (.storeAccess store.address), store.nBits)).toOption.any fun t =>
        t.threads[0]?.any fun tc : ThreadContext => tc.waitsOnRs = waits) = true) :
    ∃ (s : State) (tc : ThreadContext) (t : State),
      Run (sizedStep twoCpus) (fun _ _ => True) twoCpus.start waitForLong s ∧ s.threads[0]? = some tc ∧
      (tc.present = true ∧ tc.waitsOnRs = true) ∧ (s.running = some 1 ∧ (s.cpu 1).active = true) ∧
      Recorded waitForLong tc longAt100 ∧
      sizedStep twoCpus s (.guest 1 (.storeAccess store.address), store.nBits) = .ok t ∧
      ∃ tc' : ThreadContext, t.threads[0]? = some tc' ∧ tc'.waitsOnRs = waits := by
  obtain ⟨s, hrun, hs⟩ := exists_run_of_exec (fun _ _ _ => trivial) h
  simp only [Bool.and_eq_true, decide_eq_true_eq] at hs
  obtain ⟨⟨⟨hrunning, hactive⟩, htc⟩, hstore⟩ := hs
  obtain ⟨tc, htc, hwaits⟩ := (Option.any_eq_true ..).mp htc
  obtain ⟨t, hstep, ht⟩ := exists_of_toOption_any hstore
  obtain ⟨tc', htc', hafter⟩ := (Option.any_eq_true ..).mp ht
  simp only [Bool.and_eq_true, decide_eq_true_eq] at hwaits
  obtain ⟨⟨⟨hpresent, hwaits⟩, hcpu⟩, hmem⟩ := hwaits
  refine ⟨s, tc, t, hrun, htc, ⟨hpresent, hwaits⟩, ⟨hrunning, hactive⟩, ⟨List.contains_iff_mem.mp hmem, 7, 0, ?_⟩,
    hstep, tc', htc', of_decide_eq_true hafter⟩
  rw [hcpu]
  decide

/-- CPU 1 writes one byte at 100, and the thread is woken. -/
theorem store_wakes_iff_twoCpus :
    ∃ s tc t tc', Run (sizedStep twoCpus) (fun _ _ => True) twoCpus.start waitForLong s ∧
      s.threads[0]? = some tc ∧ tc.waitsOnRs = true ∧
      sizedStep twoCpus s (.guest 1 (.storeAccess 100), .bits8) = .ok t ∧ t.threads[0]? = some tc' ∧
      tc'.waitsOnRs = false := by
  obtain ⟨s, tc, -, hrun, htc, ⟨hpresent, hwaits⟩, ⟨hrunning, hactive⟩, hload, -⟩ :=
    exists_waitForLong ⟨100, .bits8⟩ false (by decide)
  obtain ⟨t, tc', hstep, htc', hiff, -⟩ :=
    store_wakes_iff ⟨100, .bits8⟩ hrun htc hpresent hwaits hrunning hactive
  exact ⟨s, tc, t, tc', hrun, htc, hwaits, hstep, htc', hiff.mpr ⟨longAt100, hload, rfl⟩⟩

/-- CPU 1 writes the second of the four bytes, and the thread goes on waiting. -/
theorem store_inside_load :
    ∃ s tc t tc', Run (sizedStep twoCpus) (fun _ _ => True) twoCpus.start waitForLong s ∧
      s.threads[0]? = some tc ∧ (tc.present = true ∧ tc.waitsOnRs = true) ∧
      (s.running = some 1 ∧ (s.cpu 1).active = true) ∧ Recorded waitForLong tc longAt100 ∧
      longAt100.Overlaps { address := 101, nBits := .bits8 } ∧
      sizedStep twoCpus s (.guest 1 (.storeAccess 101), .bits8) = .ok t ∧ t.threads[0]? = some tc' ∧
      tc'.waitsOnRs = true := by
  obtain ⟨s, tc, t, hrun, htc, hwaits, hrunning, hload, hstep, tc', htc', hafter⟩ :=
    exists_waitForLong ⟨101, .bits8⟩ true (by decide)
  refine ⟨s, tc, t, tc', hrun, htc, hwaits, hrunning, hload, ⟨101, ?_, ?_⟩, hstep, htc', hafter⟩
  · exact ⟨by decide, by decide⟩
  · exact ⟨by decide, by decide⟩

end SkiVmm.Sched
