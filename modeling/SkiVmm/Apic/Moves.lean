import SkiVmm.Apic.Model
import SkiVmm.Sched.Focus

/-!
# `Apic.Moves` — what each event does to the requests and to the scheduler

`step_move` says once what one event does: it makes or takes back a request, dispatches an interrupt, is an event
of the scheduler alone, or only changes lines and registers that neither the requests nor the threads see.

`Reachable.tested`: the scheduler of a test with APICs is in a state of a test of `Sched.Machine`, so all that is
known of those holds here as well, and each CPU has its APIC.
-/

namespace SkiVmm.Apic

open Lib Sched

/-! ## Lines -/

/-- The x86 state of at most one CPU has changed. -/
def Lines (s t : State) : Prop := t = s ∨ ∃ c irq, t = s.modifyCpu c fun cpu => { cpu with irq := irq }

section Lines
variable {s t : State} {m : Machine} {c : Nat}

theorem Lines.threads_eq (h : Lines s t) : t.threads = s.threads := by
  rcases h with rfl | ⟨c, irq, rfl⟩
  · rfl
  · rfl

theorem Lines.quiet (h : Lines s t) : Quiet s t := by
  rcases h with rfl | ⟨c, irq, rfl⟩
  · exact .refl _
  · apply quiet_modifyCpu <;> intros <;> rfl

theorem Lines.active_eq (h : Lines s t) (c : Nat) : (t.cpu c).active = (s.cpu c).active :=
  active_of_armed_eq h.quiet.armed_eq c

theorem Lines.reachable {setup : Sched.Setup} (h : Lines s t) (hs : Sched.Reachable setup s) :
    Sched.Reachable setup t := by
  rcases h with rfl | ⟨c, irq, rfl⟩
  · exact hs
  · obtain ⟨events, hrun⟩ := hs
    exact ⟨_, hrun.concat (i := .setIrq c irq) trivial rfl⟩

/-- A change that looks at the lines themselves. -/
theorem lines_modify (s : State) (c : Nat) (f : IrqLines → IrqLines) :
    Lines s (s.modifyCpu c fun cpu => { cpu with irq := f cpu.irq }) := by
  refine .inr ⟨c, f (s.cpu c).irq, ?_⟩
  unfold State.modifyCpu
  congr 1
  refine List.ext_getElem? fun i => ?_
  simp only [List.getElem?_modify]
  by_cases hi : c = i
  · subst hi
    unfold State.cpu
    cases hcpu : s.cpus[c]? with
    | none => rfl
    | some cpu => simp [hcpu]
  · simp [hi]

theorem lines_setHard (m : Machine) (c : Nat) (hard : Bool) : Lines m.sched (m.setHard c hard).sched :=
  lines_modify m.sched c fun irq => { irq with hard := hard }

/-- `apic_update_irq` raises the line or does nothing. -/
theorem apicUpdateIrq_eq (m : Machine) (c : Nat) : apicUpdateIrq m c = m ∨ apicUpdateIrq m c = m.setHard c true := by
  unfold apicUpdateIrq
  split
  · exact .inr rfl
  · exact .inl rfl

theorem lines_apicUpdateIrq (m : Machine) (c : Nat) : Lines m.sched (apicUpdateIrq m c).sched := by
  rcases apicUpdateIrq_eq m c with h | h
  · rw [h]
    exact .inl rfl
  · rw [h]
    exact lines_setHard m c true

@[simp] theorem apicUpdateIrq_apics (m : Machine) (c : Nat) : (apicUpdateIrq m c).apics = m.apics := by
  rcases apicUpdateIrq_eq m c with h | h
  · rw [h]
  · rw [h]
    rfl

/-- A line that is lowered at the end does not tell whether it was raised before. -/
theorem setHard_apicUpdateIrq (m : Machine) (c : Nat) (hard : Bool) :
    (apicUpdateIrq m c).setHard c hard = m.setHard c hard := by
  rcases apicUpdateIrq_eq m c with h | h
  · rw [h]
  · rw [h]
    unfold Machine.setHard State.modifyCpu
    simp only [List.modify_modify_eq]
    rfl

end Lines

/-! ## Requests -/

/-- The `irr` of every APIC. -/
def Machine.irrs (m : Machine) : List Tab := m.apics.map (·.irr)

/-- The request that an event makes. -/
def requestOf (m : Machine) : Event → Option (Nat × Fin 256)
  | .setIrq c v _ => some (c, v)
  | .picIntr c true =>
    if !(m.apic c).lint0Masked ∧ (m.apic c).lint0Mode = dmFixed then some (c, (m.apic c).lint0Vector) else none
  | _ => none

/-- The request that an event takes back: a level-triggered `LINT0` goes down. -/
def withdrawnBy (m : Machine) : Event → Option (Nat × Fin 256)
  | .picIntr c false =>
    if (m.apic c).lint0Mode = dmFixed ∧ (m.apic c).lint0Level then some (c, (m.apic c).lint0Vector) else none
  | _ => none

/-- What the event `ev` does, from `m` to `m'`. -/
inductive Move (setup : Setup) (m m' : Machine) (ev : Event) : Prop
  | request {c : Nat} {v : Fin 256} {u : State} (hrequest : requestOf m ev = some (c, v))
      (hwithdrawn : withdrawnBy m ev = none) (hlines : Lines m.sched u)
      (hset : skiHandleNewIrqSet u c v = .ok m'.sched) (hirrs : m'.irrs = m.irrs.modify c (·.set v))
  | withdraw {c : Nat} {v : Fin 256} (hrequest : requestOf m ev = none) (hwithdrawn : withdrawnBy m ev = some (c, v))
      (hlines : Lines m.sched m'.sched) (hirrs : m'.irrs = m.irrs.modify c (·.reset v))
  | quiet (hrequest : requestOf m ev = none) (hwithdrawn : withdrawnBy m ev = none)
      (hlines : Lines m.sched m'.sched) (hirrs : m'.irrs = m.irrs)
  | dispatch {c : Nat} {v : Int} {picIrq : Int} (hev : ev = .dispatch c picIrq)
      (hactive : (m.sched.cpu c).active = true) (hvector : dispatchedVector m.sched c = some v)
      (hstep : Sched.step setup.toSetup m.sched (.guest c .dispatch) = .ok m'.sched)
      (hirrs : m'.irrs = m.irrs ∨ m'.irrs = m.irrs.modify c (·.reset v.toNat))
  | sched {ev' : Sched.Event} (hev : ev = .sched ev') (hnot : throughApic ev' = false)
      (hstep : Sched.step setup.toSetup m.sched ev' = .ok m'.sched) (hapics : m'.apics = m.apics)

section Moves
variable {setup : Setup} {m m' : Machine} {ev : Event} {c : Nat}

/-- A change of a register other than `irr`. -/
theorem irrs_modifyApic {f : ApicState → ApicState} (h : ∀ a, (f a).irr = a.irr) (m : Machine) (c : Nat) :
    (m.modifyApic c f).irrs = m.irrs := map_modify_eq fun a _ => h a

theorem irrs_apicUpdateIrq (m : Machine) (c : Nat) : (apicUpdateIrq m c).irrs = m.irrs := by
  unfold Machine.irrs
  rw [apicUpdateIrq_apics]

theorem apicSetIrq_move {v : Fin 256} {triggerMode : Bool} (hrequest : requestOf m ev = some (c, v))
    (hwithdrawn : withdrawnBy m ev = none) (h : apicSetIrq m c v triggerMode = .ok m') : Move setup m m' ev := by
  unfold apicSetIrq at h
  obtain ⟨s, hset, h⟩ := exists_of_bind_eq_ok h
  obtain rfl := Except.ok.inj h
  refine .request hrequest hwithdrawn (lines_apicUpdateIrq (m.modifyApic c _) c) hset ?_
  refine Eq.trans (irrs_apicUpdateIrq _ _) ?_
  refine map_modify_comm ?_ m.apics c
  intro a
  rfl

theorem eq_of_guestWrite {after : Machine} (h : guestWrite m c after = .ok m') : m' = after := by
  unfold guestWrite at h
  split at h
  · exact (Except.ok.inj h).symm
  · cases h

/-- A register is written, and the APIC looks whether to raise the line. -/
theorem apicUpdateIrq_move {f : ApicState → ApicState} (hf : ∀ a, (f a).irr = a.irr) (hrequest : requestOf m ev = none)
    (hwithdrawn : withdrawnBy m ev = none) : Move setup m (apicUpdateIrq (m.modifyApic c f) c) ev := by
  refine .quiet hrequest hwithdrawn (lines_apicUpdateIrq (m.modifyApic c f) c) ?_
  rw [irrs_apicUpdateIrq, irrs_modifyApic hf]

theorem apicDeliverPicIntr_move {level : Bool} (h : apicDeliverPicIntr m c level = .ok m') :
    Move setup m m' (.picIntr c level) := by
  unfold apicDeliverPicIntr at h
  simp only at h
  cases level with
  | true =>
    simp only [if_true] at h
    split at h
    · next hmasked =>
      obtain rfl := Except.ok.inj h
      exact .quiet (by simp [requestOf, hmasked]) rfl (.inl rfl) rfl
    · next hmasked =>
      split at h
      · next hmode =>
        obtain rfl := Except.ok.inj h
        exact .quiet (by simp [requestOf, hmode, dmExtint, dmFixed]) rfl (lines_setHard m c true) rfl
      · split at h
        · next hmode => exact apicSetIrq_move (by simp [requestOf, hmasked, hmode]) rfl h
        · next hmode =>
          obtain rfl := Except.ok.inj h
          exact .quiet (by simp [requestOf, hmode]) rfl (.inl rfl) rfl
  | false =>
    simp only [Bool.false_eq_true, if_false] at h
    split at h
    · next hlevel =>
      obtain rfl := Except.ok.inj h
      refine .withdraw rfl (if_pos hlevel) (lines_setHard (m.modifyApic c _) c false) ?_
      -- the vector is the one that `LINT0` of this CPU names
      refine List.ext_getElem? fun i => ?_
      unfold Machine.irrs Machine.setHard Machine.modifyApic Machine.apic
      simp only [List.getElem?_map, List.getElem?_modify]
      by_cases hi : c = i
      · subst hi
        cases ha : m.apics[c]? with
        | none => rfl
        | some a => simp [ha]
      · simp [hi]
    · next hlevel =>
      have hwithdrawn : withdrawnBy m (.picIntr c false) = none := if_neg hlevel
      split at h
      · obtain rfl := Except.ok.inj h
        exact .quiet rfl hwithdrawn (lines_setHard m c false) rfl
      · obtain rfl := Except.ok.inj h
        exact .quiet rfl hwithdrawn (.inl rfl) rfl

/-- An interrupt that may be delivered is acknowledged, if the APIC is enabled. -/
theorem skiApicGetInterrupt_of_pending (hpending : 0 < skiApicIrqPending m c) :
    skiApicGetInterrupt m c =
      if (m.apic c).enabled = true then
        (apicUpdateIrq (m.modifyApic c (·.acknowledge (skiApicIrqPending m c).toNat)) c, skiApicIrqPending m c)
      else (m, -1) := by
  have hzero : skiApicIrqPending m c ≠ 0 := by omega
  have hneg : ¬skiApicIrqPending m c < 0 := by omega
  unfold skiApicGetInterrupt
  by_cases henabled : (m.apic c).enabled = true
  · simp [henabled, hzero, hneg]
  · simp [henabled]

theorem cpuGetPicInterrupt_of_pending {picIrq : Int} (hpending : 0 < skiApicIrqPending m c) :
    cpuGetPicInterrupt m c picIrq =
      if (m.apic c).enabled = true then
        (apicUpdateIrq (m.modifyApic c (·.acknowledge (skiApicIrqPending m c).toNat)) c, skiApicIrqPending m c)
      else (m, picIrq) := by
  unfold cpuGetPicInterrupt
  rw [skiApicGetInterrupt_of_pending hpending]
  by_cases henabled : (m.apic c).enabled = true
  · simp [henabled, Int.le_of_lt hpending]
  · simp [henabled]

/-- The handler that begins is the one of the current thread. -/
theorem eq_of_skiHandleInterruptBegin {s t : State} {v intno : Int} (hok : s.handlers.Ok)
    (hvector : dispatchedVector s c = some v)
    (h : skiHandleInterruptBegin (s.modifyCpu c fun cpu => { cpu with irq := { cpu.irq with hard := false } })
      c intno false true = .ok t) : intno = v := by
  obtain ⟨stack, -, ⟨-, tc, hfind, hcurrent, -⟩ | ⟨hsoft, -⟩⟩ := skiHandleInterruptBegin_cases h
  · obtain ⟨hmem, -, -, -, -, hno⟩ := skiThreadsFind_spec hfind
    have hcurrent : s.current = some tc.id := hcurrent
    unfold dispatchedVector at hvector
    rw [hcurrent, Option.bind_some, hok.getElem?_id hmem] at hvector
    simp only at hvector
    split at hvector
    · rw [← hno, Option.some.inj hvector]
    · cases hvector
  · cases hsoft

/-- **The dispatch**: the vector of the current thread is acknowledged by the APIC, if that is enabled, and its
    handler begins with the line down. -/
theorem cpuExecDispatch_spec {picIrq : Int} (hok : m.sched.handlers.Ok) (h : cpuExecDispatch m c picIrq = .ok m') :
    ∃ v, dispatchedVector m.sched c = some v ∧ 0 < skiApicIrqPending m c ∧
      skiHandleInterruptBegin (m.setHard c false).sched c v false true = .ok m'.sched ∧
      m'.apics = if (m.apic c).enabled = true then m.apics.modify c (·.acknowledge v.toNat) else m.apics := by
  unfold cpuExecDispatch at h
  split at h
  · cases h
  · next hsome =>
    have hsome : dispatchedVector m.sched c ≠ none := by simpa using hsome
    obtain ⟨v, hvector⟩ := Option.ne_none_iff_exists'.mp hsome
    split at h
    · cases h
    · next hpending =>
      have hpending : 0 < skiApicIrqPending m c := not_not.mp hpending
      rw [cpuGetPicInterrupt_of_pending hpending] at h
      refine ⟨v, hvector, hpending, ?_⟩
      split_ifs at h ⊢ with henabled
      · simp only [setHard_apicUpdateIrq] at h
        obtain ⟨s, hbegin, h⟩ := exists_of_bind_eq_ok h
        obtain rfl := Except.ok.inj h
        have hv := eq_of_skiHandleInterruptBegin hok hvector hbegin
        rw [hv] at hbegin ⊢
        exact ⟨hbegin, rfl⟩
      · obtain ⟨s, hbegin, h⟩ := exists_of_bind_eq_ok h
        obtain rfl := Except.ok.inj h
        obtain rfl := eq_of_skiHandleInterruptBegin hok hvector hbegin
        exact ⟨hbegin, rfl⟩

theorem cpuExecDispatch_move {picIrq : Int} (hok : m.sched.handlers.Ok) (hrunning : m.sched.running = some c)
    (hactive : (m.sched.cpu c).active = true) (h : cpuExecDispatch m c picIrq = .ok m') :
    Move setup m m' (.dispatch c picIrq) := by
  obtain ⟨v, hvector, -, hbegin, hapics⟩ := cpuExecDispatch_spec hok h
  refine .dispatch rfl hactive hvector ?_ ?_
  · rw [step_guest_eq hrunning hactive]
    unfold guestStep
    simp only [hvector]
    exact hbegin
  · unfold Machine.irrs
    rw [hapics]
    split_ifs
    · refine .inr (map_modify_comm ?_ m.apics c)
      intro a
      rfl
    · exact .inl rfl

/-- An interrupt is taken by the CPU that runs, when it is in the test. -/
theorem step_dispatch_spec {picIrq : Int} (h : step setup m (.dispatch c picIrq) = .ok m') :
    m.sched.running = some c ∧ (m.sched.cpu c).active = true ∧ cpuExecDispatch m c picIrq = .ok m' := by
  unfold step at h
  simp only at h
  split at h
  · next hrun => exact ⟨hrun.1, hrun.2, h⟩
  · cases h

/-- **What one event does.** -/
theorem step_move (hok : m.sched.handlers.Ok) (h : step setup m ev = .ok m') : Move setup m m' ev := by
  cases ev with
  | setIrq c v triggerMode => exact apicSetIrq_move rfl rfl h
  | picIntr c level => exact apicDeliverPicIntr_move h
  | eoi c =>
    have h : guestWrite m c (apicEoi m c) = .ok m' := h
    rw [eq_of_guestWrite h]
    unfold apicEoi
    simp only
    split
    · exact .quiet rfl rfl (.inl rfl) rfl
    · refine apicUpdateIrq_move ?_ rfl rfl
      exact fun _ => rfl
  | writeTpr c val =>
    have h : guestWrite m c _ = .ok m' := h
    rw [eq_of_guestWrite h]
    refine apicUpdateIrq_move ?_ rfl rfl
    exact fun _ => rfl
  | writeSpurious c val =>
    have h : guestWrite m c _ = .ok m' := h
    rw [eq_of_guestWrite h]
    refine apicUpdateIrq_move ?_ rfl rfl
    exact fun _ => rfl
  | writeLint0 c val =>
    have h : guestWrite m c _ = .ok m' := h
    rw [eq_of_guestWrite h]
    refine .quiet rfl rfl (.inl rfl) ?_
    refine irrs_modifyApic ?_ m c
    exact fun _ => rfl
  | flags c vintr hif interruptFlag inhibitIrq =>
    obtain rfl := Except.ok.inj h
    refine .quiet rfl rfl ?_ rfl
    exact lines_modify m.sched c fun irq => ⟨irq.hard, vintr, hif, interruptFlag, inhibitIrq⟩
  | dispatch c picIrq =>
    obtain ⟨hrunning, hactive, hdispatch⟩ := step_dispatch_spec h
    exact cpuExecDispatch_move hok hrunning hactive hdispatch
  | sched ev =>
    unfold step at h
    simp only at h
    split at h
    · cases h
    · next hnot =>
      obtain ⟨s, hs, h⟩ := exists_of_bind_eq_ok h
      obtain rfl := Except.ok.inj h
      exact .sched rfl (by simpa using hnot) hs rfl

/-! ## Tests -/

theorem Move.reachable (h : Move setup m m' ev) (hm : Sched.Reachable setup.toSetup m.sched) :
    Sched.Reachable setup.toSetup m'.sched := by
  cases h with
  | @request c v u _ _ hlines hset _ =>
    obtain ⟨events, hrun⟩ := hlines.reachable hm
    have hstep : Sched.step setup.toSetup u (.newIrqSet c v) = .ok m'.sched := hset
    exact ⟨_, hrun.concat trivial hstep⟩
  | withdraw _ _ hlines | quiet _ _ hlines => exact hlines.reachable hm
  | dispatch _ _ _ hstep =>
    obtain ⟨events, hrun⟩ := hm
    exact ⟨_, hrun.concat trivial hstep⟩
  | sched _ _ hstep =>
    obtain ⟨events, hrun⟩ := hm
    exact ⟨_, hrun.concat trivial hstep⟩

/-- Taking part in the test does not change. -/
theorem Move.active_eq (h : Move setup m m' ev) (hok : m.sched.handlers.Ok) (c : Nat) :
    (m'.sched.cpu c).active = (m.sched.cpu c).active := by
  cases h with
  | request _ _ hlines hset _ =>
    obtain ⟨l, heffect, -⟩ := skiHandleNewIrqSet_effect (hlines.quiet.handlers_eq ▸ hok) hset
    rw [active_of_armed_eq heffect.armed_eq, hlines.active_eq]
  | withdraw _ _ hlines | quiet _ _ hlines => exact hlines.active_eq c
  | dispatch _ _ _ hstep => exact active_of_armed_eq (step_effect hok hstep).armed_eq c
  | sched _ _ hstep => exact active_of_armed_eq (step_effect hok hstep).armed_eq c

theorem Move.length_apics (h : Move setup m m' ev) : m'.apics.length = m.apics.length := by
  have hirrs : m'.irrs.length = m.irrs.length := by
    cases h with
    | request _ _ _ _ hirrs | withdraw _ _ _ hirrs => rw [hirrs, List.length_modify]
    | quiet _ _ _ hirrs => rw [hirrs]
    | dispatch _ _ _ _ hirrs =>
      rcases hirrs with hirrs | hirrs
      · rw [hirrs]
      · rw [hirrs, List.length_modify]
    | sched _ _ _ hapics =>
      unfold Machine.irrs
      rw [hapics]
  simpa [Machine.irrs] using hirrs

/-- The number of CPUs stays. -/
theorem length_cpus_of_reachable {setup : Sched.Setup} {s : State} (h : Sched.Reachable setup s) :
    s.cpus.length = setup.cpus.length := by
  obtain ⟨events, hrun⟩ := h
  refine run_invariant (P := fun s => s.cpus.length = setup.cpus.length) hrun (by simp [Sched.Setup.start]) ?_
  intro s ev t _ hlength _ heffect
  have harmed := congrArg List.length heffect.armed_eq
  simp only [State.armed, List.length_map] at harmed
  exact harmed.trans hlength

/-- **The invariant of a test with APICs**: without them it is a test of the scheduler, and each CPU has one. -/
structure Tested (setup : Setup) (m : Machine) : Prop where
  sched : Sched.Reachable setup.toSetup m.sched
  length_apics : m.apics.length = setup.apics.length

theorem Setup.start_tested (setup : Setup) : Tested setup setup.start := ⟨⟨[], .nil _⟩, rfl⟩

theorem Tested.handlers_ok (h : Tested setup m) : m.sched.handlers.Ok := h.sched.sane.handlers_ok

theorem Tested.step (h : Tested setup m) (hstep : step setup m ev = .ok m') : Tested setup m' := by
  have hmove := step_move h.handlers_ok hstep
  exact ⟨hmove.reachable h.sched, hmove.length_apics.trans h.length_apics⟩

theorem Tested.lt_of_active (h : Tested setup m) (hactive : (m.sched.cpu c).active = true) : c < m.apics.length := by
  rw [h.length_apics, setup.apics_length, ← length_cpus_of_reachable h.sched]
  exact State.lt_of_active hactive

theorem Reachable.tested (h : Reachable setup m) : Tested setup m := by
  obtain ⟨events, hrun⟩ := h
  exact hrun.invariant (fun hm _ hstep => hm.step hstep) setup.start_tested

end Moves

end SkiVmm.Apic
