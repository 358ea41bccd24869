import SkiVmm.Sched.Change
import SkiVmm.Sched.Poll

/-!
# `Sched.Focus` — the current thread and the read sets

What each event does to the current thread, to the CPU that runs, and to the read sets of the CPUs (`Focus`). A read
set changes when its CPU reads, when a `pause` resets it, and when the scheduler switches to a thread of its CPU.

`Focused` holds in every state of a test: the CPUs of the test take part in the selection, and the CPU that runs is
the one of the current thread.
-/

namespace SkiVmm.Sched

open Lib

/-- Whether the CPU is in the test, where it is in it, and its read set. -/
structure Station where
  active : Bool
  state : CpuTestState
  cpuRs : SkiMa

def Cpu.station (cpu : Cpu) : Station := { active := cpu.active, state := cpu.state, cpuRs := cpu.cpuRs }

def State.stations (s : State) : List Station := s.cpus.map (·.station)

/-- The current thread has paused shortly before, so that a `pause` would put it to wait. -/
def pausedBefore (s : State) : Bool :=
  (s.current.bind (s.threads[·]?)).any fun tc => tc.lastPause + maxLivenessPauseDistance ≥ s.instructionCounter

/-- The event changes the read set of the CPU that runs: it reads, or it pauses and does not wait. -/
def touches (s : State) : Event → Bool
  | .guest c (.loadAccess _ _ _) => (s.cpu c).active
  | .guest c .pause => (s.cpu c).active && !pausedBefore s
  | _ => false

/-- What an event does to the current thread and to the stations of the CPUs. -/
inductive Focus (s t : State) : Event → Prop
  | keep {ev : Event} (hev : touches s ev = false) (hstations : t.stations = s.stations)
      (hcurrent : t.current = s.current) (hrunning : t.running = s.running ∨ t.running = none) : Focus s t ev
  | exit {c : Nat} (hstations : t.stations = s.stations.modify c fun st => { st with state := .blockedOnExit })
      (hcurrent : t.current = s.current) (hrunning : t.running = none) : Focus s t (.guest c .testExit)
  | load {c : Nat} {eip address value : Int} (hactive : (s.cpu c).active = true) (hrunning : s.running = some c)
      (hstations : t.stations
        = s.stations.modify c fun st => { st with cpuRs := (skiLivenessStore st.cpuRs eip address value).1 })
      (hcurrent : t.current = s.current) (hsame : t.running = s.running) :
      Focus s t (.guest c (.loadAccess eip address value))
  | pause {c : Nat} (hactive : (s.cpu c).active = true) (hrunning : s.running = some c)
      (hfar : pausedBefore s = false)
      (hstations : t.stations
        = s.stations.modify c fun st => { st with cpuRs := skiLivenessInit st.cpuRs.maxEntries })
      (hcurrent : t.current = s.current) (hsame : t.running = s.running) : Focus s t (.guest c .pause)
  /-- A poll of a CPU that takes no part in the selection. -/
  | outside {c : Nat} (hout : ¬ InTest s c) (hstations : t.stations = s.stations) (hcurrent : t.current = s.current)
      (hrunning : t.running = some c ∨ t.running = none) : Focus s t (.canRun c)
  /-- The current thread is selected again. -/
  | resume {tc : ThreadContext} (hfind : skiThreadsFindNextRunnable s = .ok tc) (hcurrent : s.current = some tc.id)
      (hstations : t.stations = s.stations) (hsame : t.current = s.current) (hrunning : t.running = some tc.cpuNo) :
      Focus s t (.canRun tc.cpuNo)
  /-- The switch to another thread. -/
  | switch {tc : ThreadContext} (hfind : skiThreadsFindNextRunnable s = .ok tc) (hnew : s.current ≠ some tc.id)
      (hstations : t.stations
        = s.stations.modify tc.cpuNo fun st => { st with cpuRs := skiLivenessInit st.cpuRs.maxEntries })
      (hcurrent : t.current = some tc.id) (hrunning : t.running = some tc.cpuNo) : Focus s t (.canRun tc.cpuNo)

/-! ## Stations -/

section Stations
variable {s t : State}

theorem State.station_eq (s : State) (c : Nat) : (s.cpu c).station = s.stations.getD c Cpu.idle.station := by
  unfold State.cpu State.stations
  rw [List.getD_map]

theorem station_of_stations_eq (h : t.stations = s.stations) (c : Nat) : (t.cpu c).station = (s.cpu c).station := by
  rw [t.station_eq, s.station_eq, h]

/-- The station of the CPU that changes. -/
theorem station_of_modify {f : Station → Station} {c : Nat} (hc : c < s.cpus.length)
    (h : t.stations = s.stations.modify c f) : (t.cpu c).station = f (s.cpu c).station := by
  rw [t.station_eq, s.station_eq, h, getD_modify_of_lt (by simpa [State.stations] using hc), if_pos rfl]

/-- The other stations stay. -/
theorem station_of_modify_or {f : Station → Station} {c : Nat} (h : t.stations = s.stations.modify c f) (c' : Nat) :
    (t.cpu c').station = f (s.cpu c').station ∨ (t.cpu c').station = (s.cpu c').station := by
  rw [t.station_eq, s.station_eq, h, getD_modify]
  split_ifs
  · exact .inl rfl
  · exact .inr rfl

theorem station_of_modify_ne {f : Station → Station} {c c' : Nat} (h : t.stations = s.stations.modify c f)
    (hne : c ≠ c') : (t.cpu c').station = (s.cpu c').station := by
  rw [t.station_eq, s.station_eq, h, getD_modify, if_neg fun heq => hne heq.1]

theorem stations_modifyCpu {f : Cpu → Cpu} (f' : Station → Station) (h : ∀ cpu, (f cpu).station = f' cpu.station)
    (c : Nat) : (s.modifyCpu c f).stations = s.stations.modify c f' := by
  unfold State.stations State.modifyCpu
  exact map_modify_comm h ..

/-- A new read set for a CPU, given by the old one. -/
theorem stations_newReadSet {c : Nat} (f : SkiMa → SkiMa) :
    (s.modifyCpu c fun cpu => { cpu with cpuRs := f (s.cpu c).cpuRs }).stations
      = s.stations.modify c fun st => { st with cpuRs := f st.cpuRs } := by
  unfold State.stations State.modifyCpu
  refine List.ext_getElem? ?_
  intro c'
  simp only [List.getElem?_map, List.getElem?_modify]
  split_ifs with heq
  · subst heq
    cases hcpu : s.cpus[c]? with
    | none => rfl
    | some cpu =>
      rw [State.cpu_of_getElem? hcpu]
      rfl
  · simp

end Stations

/-! ## Operations -/

section Ops
variable {setup : Setup} {s t : State} {cpuNo : Nat}

theorem skiHandleInterruptBegin_keep {intNo : Int} {isIntInstruction isHw : Bool}
    (h : skiHandleInterruptBegin s cpuNo intNo isIntInstruction isHw = .ok t) :
    t.stations = s.stations ∧ t.current = s.current ∧ t.running = s.running := by
  obtain ⟨stack, -, ⟨-, tc, -, -, rfl⟩ | ⟨-, rfl⟩⟩ := skiHandleInterruptBegin_cases h
  · exact ⟨map_modify_eq (fun _ _ => rfl), rfl, rfl⟩
  · exact ⟨map_modify_eq (fun _ _ => rfl), rfl, rfl⟩

theorem skiHandleInterruptEnd_keep (h : skiHandleInterruptEnd s cpuNo = .ok t) :
    t.stations = s.stations ∧ t.current = s.current ∧ t.running = s.running := by
  have hlowered : (lowered s cpuNo).stations = s.stations := map_modify_eq fun _ _ => rfl
  have hunmarked (u : State) (top : Nat) : (unmarked u cpuNo top).stations = u.stations :=
    map_modify_eq fun _ _ => rfl
  rcases skiHandleInterruptEnd_cases h with ⟨-, rfl⟩ | ⟨-, u, rfl, ⟨-, hend⟩ | ⟨-, rfl⟩⟩
  · exact ⟨rfl, rfl, rfl⟩
  · obtain ⟨tc, -, rfl⟩ := endHandler_cases hend
    refine ⟨(hunmarked _ _).trans (Eq.trans ?_ hlowered), rfl, rfl⟩
    exact map_modify_eq fun _ _ => rfl
  · exact ⟨(hunmarked _ _).trans hlowered, rfl, rfl⟩

theorem helperSkiLoadAccess_focus {eip address value : Int} (hactive : (s.cpu cpuNo).active = true)
    (hrunning : s.running = some cpuNo) (h : helperSkiLoadAccess s cpuNo eip address value = .ok t) :
    Focus s t (.guest cpuNo (.loadAccess eip address value)) := by
  have hstations := stations_newReadSet (s := s) (c := cpuNo) fun ma => (skiLivenessStore ma eip address value).1
  rcases helperSkiLoadAccess_cases h with ⟨-, rfl⟩ | ⟨-, id, waitRs, -, -, rfl⟩
  · exact .load hactive hrunning hstations rfl rfl
  · exact .load hactive hrunning hstations rfl rfl

theorem helperSkiInstrumentPause_focus (hactive : (s.cpu cpuNo).active = true) (hrunning : s.running = some cpuNo)
    (hcurrent : ∀ id, s.current = some id → ∃ tc, s.threads[id]? = some tc)
    (h : helperSkiInstrumentPause s cpuNo = .ok t) : Focus s t (.guest cpuNo .pause) := by
  obtain ⟨id, hid, hpause⟩ := helperSkiInstrumentPause_spec h
  obtain ⟨tc, htc⟩ := hcurrent id hid
  have hbefore : pausedBefore s = decide (tc.lastPause + maxLivenessPauseDistance ≥ s.instructionCounter) := by
    unfold pausedBefore
    rw [hid, Option.bind_some, htc]
    rfl
  rw [htc] at hpause
  rcases hpause with ⟨hclose, waitRs, -, rfl⟩ | ⟨hfar, cpuRs, hreset, rfl⟩
  · refine .keep ?_ rfl rfl (.inl rfl)
    have hclose : pausedBefore s = true := hbefore.trans (decide_eq_true hclose)
    simp [touches, hclose]
  · obtain ⟨-, rfl⟩ := skiLivenessReset_spec hreset
    exact .pause hactive hrunning (hbefore.trans (decide_eq_false (Int.not_le.mpr hfar)))
      (stations_newReadSet (s := s) (c := cpuNo) fun ma => skiLivenessInit ma.maxEntries) rfl rfl

theorem helperSkiInstrumentAll_keep (h : helperSkiInstrumentAll s = .ok t) :
    t.stations = s.stations ∧ t.current = s.current ∧ (t.running = s.running ∨ t.running = none) := by
  rcases helperSkiInstrumentAll_cases h with ⟨-, rfl⟩ | ⟨id, tc, -, -, -, rfl⟩
  · exact ⟨rfl, rfl, .inl rfl⟩
  · exact ⟨rfl, rfl, .inr rfl⟩

theorem Cpu.withLimit_station (next : Int) (cpu : Cpu) : (cpu.withLimit next).station = cpu.station := by
  unfold Cpu.withLimit
  split <;> rfl

theorem helperSkiInstrumentPossibleInversionPoint_keep {mode : PreemptionMode}
    (h : helperSkiInstrumentPossibleInversionPoint mode s cpuNo = .ok t) :
    t.stations = s.stations ∧ t.current = s.current ∧ (t.running = s.running ∨ t.running = none) := by
  have hpassed : (s.passed cpuNo).stations = s.stations := map_modify_eq fun _ _ => rfl
  rcases helperSkiInstrumentPossibleInversionPoint_cases h with
    ⟨-, rfl⟩ | ⟨-, ⟨-, rfl⟩ | ⟨-, ⟨-, rfl⟩ | ⟨-, id, -, rfl⟩⟩⟩
  · exact ⟨rfl, rfl, .inl rfl⟩
  · exact ⟨map_modify_eq (fun _ _ => rfl), rfl, .inl rfl⟩
  · exact ⟨hpassed, rfl, .inl rfl⟩
  · refine ⟨Eq.trans ?_ hpassed, rfl, .inr rfl⟩
    unfold State.stations State.preempted
    rw [List.map_map]
    exact List.map_congr_left fun cpu _ => cpu.withLimit_station _

theorem skiThreadsAllWakeRs_keep {address : Int} (h : skiThreadsAllWakeRs s address = .ok t) :
    t.stations = s.stations ∧ t.current = s.current ∧ t.running = s.running := by
  rcases skiThreadsAllWakeRs_cases h with ⟨-, rfl⟩ | ⟨-, rfl⟩
  · exact ⟨rfl, rfl, rfl⟩
  · exact ⟨rfl, rfl, rfl⟩

/-- A poll. -/
theorem skiCpuCanRun_focus {u : State} {res : Bool} (h : skiCpuCanRun s cpuNo = .ok (u, res)) :
    Focus s { u with running := if res then some cpuNo else none } (.canRun cpuNo) := by
  rcases skiCpuCanRun_cases h with
    ⟨hout, rfl, -⟩ | ⟨-, tc, hfind, ⟨-, rfl, rfl⟩ | ⟨rfl, hsame, rfl, rfl⟩ | ⟨rfl, hnew, -, rfl, rfl⟩⟩
  · refine .outside hout rfl rfl ?_
    cases res with
    | false => exact .inr rfl
    | true => exact .inl rfl
  · exact .keep rfl rfl rfl (.inr rfl)
  · exact .resume hfind hsame rfl rfl rfl
  · have hstations := stations_newReadSet (s := s) (c := tc.cpuNo) fun ma => skiLivenessInit ma.maxEntries
    exact .switch hfind hnew hstations rfl rfl

end Ops

/-! ## Events -/

/-- The CPUs of the test take part in the selection, and the one that runs is the one of the current thread. -/
structure Focused (s : State) : Prop where
  in_test : ∀ c, (s.cpu c).active = true → InTest s c
  current_lt : ∀ id, s.current = some id → ∃ tc, s.threads[id]? = some tc
  running_cpu : ∀ c, s.running = some c → (s.cpu c).active = true →
    ∃ id tc, s.current = some id ∧ s.threads[id]? = some tc ∧ tc.cpuNo = c

/-- The CPU that runs, when it is in the test, is the one of the current thread. -/
theorem Focused.cpuNo_eq {s : State} (h : Focused s) {c id : Nat} {tc : ThreadContext} (hrun : s.running = some c)
    (hactive : (s.cpu c).active = true) (hid : s.current = some id) (htc : s.threads[id]? = some tc) :
    tc.cpuNo = c := by
  obtain ⟨id', tc', hid', htc', hcpu⟩ := h.running_cpu c hrun hactive
  obtain rfl : id' = id := Option.some.inj (hid'.symm.trans hid)
  rwa [Option.some.inj (htc'.symm.trans htc)] at hcpu

section Events
variable {setup : Setup} {s t : State} {ev : Event}

theorem guestStep_focus {cpuNo : Nat} {op : GuestOp} (hactive : (s.cpu cpuNo).active = true)
    (hrunning : s.running = some cpuNo) (hcurrent : ∀ id, s.current = some id → ∃ tc, s.threads[id]? = some tc)
    (h : guestStep setup s cpuNo op = .ok t) : Focus s t (.guest cpuNo op) := by
  cases op with
  | dispatch =>
    obtain ⟨intNo, -, hbegin⟩ := guestStep_dispatch_cases h
    obtain ⟨hstations, hcur, hrun⟩ := skiHandleInterruptBegin_keep hbegin
    refine .keep rfl (hstations.trans ?_) hcur (.inl hrun)
    exact map_modify_eq fun _ _ => rfl
  | interruptBegin intNo isIntInstruction =>
    obtain ⟨hstations, hcur, hrun⟩ := skiHandleInterruptBegin_keep h
    exact .keep rfl hstations hcur (.inl hrun)
  | interruptEnd =>
    obtain ⟨hstations, hcur, hrun⟩ := skiHandleInterruptEnd_keep h
    exact .keep rfl hstations hcur (.inl hrun)
  | loadAccess eip address value => exact helperSkiLoadAccess_focus hactive hrunning h
  | storeAccess address =>
    obtain ⟨hstations, hcur, hrun⟩ := skiThreadsAllWakeRs_keep h
    exact .keep rfl hstations hcur (.inl hrun)
  | pause => exact helperSkiInstrumentPause_focus hactive hrunning hcurrent h
  | hlt =>
    obtain ⟨-, rfl⟩ := skiThreadsSelfWaitHlt_spec h
    exact .keep rfl (map_modify_eq fun _ _ => rfl) rfl (.inl rfl)
  | instrumentAll =>
    obtain ⟨hstations, hcur, hrun⟩ := helperSkiInstrumentAll_keep h
    exact .keep rfl hstations hcur hrun
  | possibleInversionPoint =>
    obtain ⟨hstations, hcur, hrun⟩ := helperSkiInstrumentPossibleInversionPoint_keep h
    exact .keep rfl hstations hcur hrun
  | testExit =>
    obtain rfl := guestStep_testExit_cases h
    refine .exit ?_ rfl rfl
    exact stations_modifyCpu (fun st => { st with state := .blockedOnExit }) (fun _ => rfl) _

/-- **What one event does to the current thread and the read sets.** -/
theorem step_focus (hcurrent : ∀ id, s.current = some id → ∃ tc, s.threads[id]? = some tc)
    (h : step setup s ev = .ok t) : Focus s t ev := by
  cases ev with
  | newIrqSet cpuNo vectorNum =>
    have hkeep : t.stations = s.stations ∧ t.current = s.current ∧ t.running = s.running := by
      rcases skiHandleNewIrqSet_cases h with ⟨-, rfl⟩ | ⟨tc, -, -, rfl⟩
      · exact ⟨rfl, rfl, rfl⟩
      · exact ⟨rfl, rfl, rfl⟩
    exact .keep rfl hkeep.1 hkeep.2.1 (.inl hkeep.2.2)
  | setIrq cpuNo irq =>
    obtain rfl := Except.ok.inj h
    exact .keep rfl (map_modify_eq fun _ _ => rfl) rfl (.inl rfl)
  | canRun cpuNo =>
    obtain ⟨-, -, u, res, hrun, rfl⟩ := step_canRun_cases h
    exact skiCpuCanRun_focus hrun
  | leave =>
    obtain rfl := Except.ok.inj h
    exact .keep rfl rfl rfl (.inr rfl)
  | guest cpuNo op =>
    obtain ⟨hrunning, ⟨hidle, rfl⟩ | ⟨hactive, h⟩⟩ := step_guest_cases h
    · refine .keep ?_ rfl rfl (.inl rfl)
      cases op <;> simp [touches, hidle]
    · exact guestStep_focus hactive hrunning hcurrent h

end Events

/-! ## The invariant -/

section Invariant
variable {setup : Setup} {s t : State} {ev : Event}

theorem Change.cpuNo_eq {tc tc' : ThreadContext} (h : Change s t ev tc tc') : tc'.cpuNo = tc.cpuNo := by
  cases h <;> rfl

theorem Sane.getElem?_of_findNextRunnable (h : Sane s) {tc : ThreadContext}
    (hfind : skiThreadsFindNextRunnable s = .ok tc) : s.threads[tc.id]? = some tc :=
  h.handlers_ok.getElem?_id (h.findNextRunnable_iff.mp hfind).1.1

theorem Setup.start_focused (setup : Setup) : Focused setup.start := by
  refine ⟨?_, (fun id h => by cases h), (fun c h => by cases h)⟩
  intro c hactive
  exact ⟨hactive, .inl (setup.cpu_start_of_active hactive).1⟩

/-- A CPU of the test stays in it. -/
theorem Focus.in_test (h : Focus s t ev) (hin : ∀ c, (s.cpu c).active = true → InTest s c) {c : Nat}
    (hactive : (t.cpu c).active = true) : InTest t c := by
  -- what the new station must look like
  have hkeep : ∀ st : Station, (t.cpu c).station = st → st.active = (s.cpu c).active →
      (st.state = (s.cpu c).state ∨ st.state = .blockedOnExit) → InTest t c := by
    rintro st rfl hact hstate
    refine ⟨hactive, ?_⟩
    rcases hstate with hsame | hexit
    · have hin := (hin c (hact ▸ hactive)).2
      rwa [← show (t.cpu c).state = (s.cpu c).state from hsame] at hin
    · exact .inr hexit
  cases h with
  | keep _ hstations | outside _ hstations | resume _ _ hstations =>
    exact hkeep _ (station_of_stations_eq hstations c) rfl (.inl rfl)
  | exit hstations =>
    rcases station_of_modify_or hstations c with hst | hst
    · exact hkeep _ hst rfl (.inr rfl)
    · exact hkeep _ hst rfl (.inl rfl)
  | load _ _ hstations | pause _ _ _ hstations | switch _ _ hstations =>
    rcases station_of_modify_or hstations c with hst | hst
    · exact hkeep _ hst rfl (.inl rfl)
    · exact hkeep _ hst rfl (.inl rfl)

/-- **What an event does to the read set of a CPU.** -/
theorem Focus.cpuRs_cases (h : Focus s t ev) (c : Nat) :
    (t.cpu c).cpuRs = (s.cpu c).cpuRs ∨ (t.cpu c).cpuRs = skiLivenessInit (s.cpu c).cpuRs.maxEntries ∨
      ∃ eip address value, ev = .guest c (.loadAccess eip address value) ∧
        (t.cpu c).cpuRs = (skiLivenessStore (s.cpu c).cpuRs eip address value).1 := by
  cases h with
  | keep _ hstations | outside _ hstations | resume _ _ hstations =>
    exact .inl (congrArg Station.cpuRs (station_of_stations_eq hstations c))
  | exit hstations =>
    left
    rcases station_of_modify_or hstations c with hst | hst
    · exact congrArg Station.cpuRs hst
    · exact congrArg Station.cpuRs hst
  | @load c' eip address value hactive _ hstations =>
    by_cases heq : c' = c
    · subst heq
      exact .inr (.inr ⟨eip, address, value, rfl,
        congrArg Station.cpuRs (station_of_modify (State.lt_of_active hactive) hstations)⟩)
    · exact .inl (congrArg Station.cpuRs (station_of_modify_ne hstations heq))
  | pause _ _ _ hstations | switch _ _ hstations =>
    rcases station_of_modify_or hstations c with hst | hst
    · exact .inr (.inl (congrArg Station.cpuRs hst))
    · exact .inl (congrArg Station.cpuRs hst)

theorem Focus.active_eq (h : Focus s t ev) (c : Nat) : (t.cpu c).active = (s.cpu c).active := by
  cases h with
  | keep _ hstations | outside _ hstations | resume _ _ hstations =>
    exact congrArg Station.active (station_of_stations_eq hstations c)
  | exit hstations | load _ _ hstations | pause _ _ _ hstations | switch _ _ hstations =>
    rcases station_of_modify_or hstations c with hst | hst
    · exact congrArg Station.active hst
    · exact congrArg Station.active hst

/-- **Events keep the invariant.** -/
theorem Focused.step (h : Focused s) (hsane : Sane s) (hstep : step setup s ev = .ok t) : Focused t := by
  have hfocus := step_focus h.current_lt hstep
  have hchanges := step_changes hsane.handlers_ok hstep
  -- the thread at an index keeps its CPU
  have hthread : ∀ {i : Nat} {tc : ThreadContext}, s.threads[i]? = some tc →
      ∃ tc', t.threads[i]? = some tc' ∧ tc'.cpuNo = tc.cpuNo := by
    intro i tc hi
    obtain ⟨tc', hi', hchange⟩ := hchanges.getElem? hi
    exact ⟨tc', hi', hchange.cpuNo_eq⟩
  have hcurrent : ∀ {id : Nat} {tc : ThreadContext}, s.threads[id]? = some tc → t.current = some id →
      t.running = some tc.cpuNo → ∀ c, t.running = some c →
        ∃ id tc, t.current = some id ∧ t.threads[id]? = some tc ∧ tc.cpuNo = c := by
    intro id tc hi hid hrun c hc
    obtain ⟨tc', hi', hcpu⟩ := hthread hi
    exact ⟨id, tc', hid, hi', hcpu.trans (Option.some.inj (hrun.symm.trans hc))⟩
  have hold : t.current = s.current → (t.running = s.running ∨ t.running = none) →
      ∀ c, t.running = some c → (t.cpu c).active = true →
      ∃ id tc, t.current = some id ∧ t.threads[id]? = some tc ∧ tc.cpuNo = c := by
    intro hcur hrun c hc hactive
    have hrun : s.running = some c := by
      rcases hrun with hrun | hrun
      · exact hrun.symm.trans hc
      · rw [hrun] at hc
        cases hc
    obtain ⟨id, tc, hid, htc, hcpu⟩ := h.running_cpu c hrun (hfocus.active_eq c ▸ hactive)
    obtain ⟨tc', htc', hcpu'⟩ := hthread htc
    exact ⟨id, tc', hcur.trans hid, htc', hcpu'.trans hcpu⟩
  refine ⟨fun c => hfocus.in_test h.in_test, ?_, ?_⟩
  · intro id hid
    have hbefore : ∃ tc, s.threads[id]? = some tc := by
      cases hfocus with
      | keep _ _ hcur | exit _ hcur | load _ _ _ hcur | pause _ _ _ _ hcur | outside _ _ hcur | resume _ _ _ hcur =>
        exact h.current_lt id (hcur ▸ hid)
      | switch hfind _ _ hcur =>
        obtain rfl := Option.some.inj (hcur.symm.trans hid)
        exact ⟨_, hsane.getElem?_of_findNextRunnable hfind⟩
    obtain ⟨tc, htc⟩ := hbefore
    obtain ⟨tc', htc', -⟩ := hthread htc
    exact ⟨tc', htc'⟩
  · intro c hc hactive
    cases hfocus with
    | keep _ _ hcur hrun => exact hold hcur hrun c hc hactive
    | exit _ hcur hrun => exact hold hcur (.inr hrun) c hc hactive
    | load _ _ _ hcur hrun => exact hold hcur (.inl hrun) c hc hactive
    | pause _ _ _ _ hcur hrun => exact hold hcur (.inl hrun) c hc hactive
    | @outside c' hout hstations hcur hrun =>
      -- a CPU of the test takes part in the selection
      refine absurd (h.in_test c' ?_) hout
      rcases hrun with hrun | hrun
      · obtain rfl := Option.some.inj (hrun.symm.trans hc)
        exact (congrArg Station.active (station_of_stations_eq hstations _)).symm.trans hactive
      · rw [hrun] at hc
        cases hc
    | resume hfind hid _ hcur hrun =>
      exact hcurrent (hsane.getElem?_of_findNextRunnable hfind) (hcur.trans hid) hrun c hc
    | switch hfind _ _ hcur hrun => exact hcurrent (hsane.getElem?_of_findNextRunnable hfind) hcur hrun c hc

theorem run_focused {guard : State → Event → Prop} {events : List Event}
    (h : Run (Sched.step setup) guard setup.start events s) : Sane s ∧ Focused s := by
  refine Run.invariant (P := fun s => Sane s ∧ Focused s) h ?_ ⟨setup.start_sane, setup.start_focused⟩
  rintro s ev t ⟨hsane, hfocused⟩ - hstep
  exact ⟨hsane.step hstep, hfocused.step hsane hstep⟩

theorem Reachable.focused (h : Reachable setup s) : Focused s := by
  obtain ⟨events, hrun⟩ := h
  exact (run_focused hrun).2

/-! ## The read set of the current thread -/

/-- What an event does to the read set of the CPU `c` of the thread that is current after it. -/
inductive ReadStep (s t : State) (c : Nat) : Event → Prop
  | keep {ev : Event} (hev : touches s ev = false) (hcurrent : t.current = s.current)
      (hrs : (t.cpu c).cpuRs = (s.cpu c).cpuRs) : ReadStep s t c ev
  | load {eip address value : Int} (hactive : (s.cpu c).active = true) (hcurrent : t.current = s.current)
      (hrs : (t.cpu c).cpuRs = (skiLivenessStore (s.cpu c).cpuRs eip address value).1) :
      ReadStep s t c (.guest c (.loadAccess eip address value))
  | pause (hev : touches s (.guest c .pause) = true) (hcurrent : t.current = s.current)
      (hrs : (t.cpu c).cpuRs = skiLivenessInit (s.cpu c).cpuRs.maxEntries) : ReadStep s t c (.guest c .pause)
  | switch {ev : Event} (hnew : t.current ≠ s.current)
      (hrs : (t.cpu c).cpuRs = skiLivenessInit (s.cpu c).cpuRs.maxEntries) : ReadStep s t c ev

/-- **The current thread reads through its own CPU**: that read set holds what the thread has read since it was
    switched to. -/
theorem step_readStep (hsane : Sane s) (hfocused : Focused s) (hstep : Sched.step setup s ev = .ok t) {id : Nat}
    {tc : ThreadContext} (hid : t.current = some id) (htc : t.threads[id]? = some tc) : ReadStep s t tc.cpuNo ev := by
  obtain ⟨tc₀, htc₀, hchange⟩ := (step_changes hsane.handlers_ok hstep).exists_before htc
  -- an active CPU that runs is the one of the current thread
  have hcpu : ∀ {c}, s.running = some c → (s.cpu c).active = true → t.current = s.current → tc.cpuNo = c := by
    intro c hrun hactive hcur
    rw [hchange.cpuNo_eq]
    exact hfocused.cpuNo_eq hrun hactive (hcur ▸ hid) htc₀
  cases step_focus hfocused.current_lt hstep with
  | keep hev hstations hcur =>
    exact .keep hev hcur (congrArg Station.cpuRs (station_of_stations_eq hstations _))
  | outside _ hstations hcur | resume _ _ hstations hcur =>
    exact .keep rfl hcur (congrArg Station.cpuRs (station_of_stations_eq hstations _))
  | exit hstations hcur =>
    refine .keep rfl hcur ?_
    rcases station_of_modify_or hstations tc.cpuNo with hst | hst
    · exact congrArg Station.cpuRs hst
    · exact congrArg Station.cpuRs hst
  | load hactive hrun hstations hcur =>
    obtain rfl := hcpu hrun hactive hcur
    exact .load hactive hcur (congrArg Station.cpuRs (station_of_modify (State.lt_of_active hactive) hstations))
  | pause hactive hrun hfar hstations hcur =>
    obtain rfl := hcpu hrun hactive hcur
    refine .pause ?_ hcur (congrArg Station.cpuRs (station_of_modify (State.lt_of_active hactive) hstations))
    simp [touches, hactive, hfar]
  | @switch tc' hfind hnew hstations hcur =>
    obtain rfl : tc'.id = id := Option.some.inj (hcur.symm.trans hid)
    have htc' := hsane.getElem?_of_findNextRunnable hfind
    obtain rfl := Option.some.inj (htc₀.symm.trans htc')
    have hlt : tc₀.cpuNo < s.cpus.length := by
      have := hsane.handlers_ok.shapes_ok.cpu_lt tc₀.shape (List.mem_map_of_mem (List.mem_of_getElem? htc₀))
      simpa [State.handlers, ThreadContext.shape] using this
    rw [hchange.cpuNo_eq]
    refine .switch ?_ (congrArg Station.cpuRs (station_of_modify hlt hstations))
    rw [hcur]
    exact fun h => hnew h.symm

end Invariant

end SkiVmm.Sched
