import SkiVmm.Lib.Bitmap
import SkiVmm.Sched.Nesting

/-!
# `Apic.Model` — the local APICs under the scheduler

Model of `hw/apic.c` as far as it takes part in a test: which interrupts are requested and in service on a CPU
(`irr`, `isr`), the processor priority, and the points where the APIC and the scheduler meet.

* A request sets its bit, may raise `CPU_INTERRUPT_HARD`, and is then passed on to the scheduler (`apicSetIrq`).
* While a test runs the APIC does not deliver the most urgent request but the one whose thread the scheduler has
  selected (`skiApicGetHighestPriorityInt`); the rule of the processor priority still applies to it
  (`skiApicIrqPending`).
* `cpu_exec` dispatches an interrupt when the current thread waits for its trigger (`cpuExecDispatch`).

The machine of `Sched.Machine` is the part of this one without the APICs: each step of this machine is a run there
(`Move.reachable`, `Reachable.tested`).

* What the 8259 does is left to the environment: its line to `LINT0` (`Event.picIntr`), and the vector that is read
  from it when the APIC gives none.
* `INIT`, `SIPI`, `SMI`, `NMI` and machine checks are left out, and so is the answer of the I/O APIC to an
  end of interrupt, which is another request.
* The APICs of CPUs outside of the test only take requests.
-/

namespace SkiVmm.Apic

open Lib Sched

/-! ## The registers -/

/-- The eight words of `isr`, `tmr` and `irr`. -/
abbrev Tab := Bitmap 32 8

/-- The part of `APICState` that takes part. -/
structure ApicState where
  tpr : BitVec 8
  spuriousVec : BitVec 32
  isr : Tab
  tmr : Tab
  irr : Tab
  /-- `lvt[APIC_LVT_LINT0]` -/
  lint0 : BitVec 32
  deriving DecidableEq

/-- An APIC after a reset. -/
def ApicState.init : ApicState where
  tpr := 0
  spuriousVec := 0xff
  isr := .zero 32 8
  tmr := .zero 32 8
  irr := .zero 32 8
  lint0 := 0x10000

/-- `APIC_SV_ENABLE` -/
def ApicState.enabled (a : ApicState) : Bool := a.spuriousVec &&& 0x100 ≠ 0

/-- `APIC_LVT_MASKED` -/
def ApicState.lint0Masked (a : ApicState) : Bool := a.lint0 &&& 0x10000 ≠ 0

/-- `APIC_LVT_LEVEL_TRIGGER` -/
def ApicState.lint0Level (a : ApicState) : Bool := a.lint0 &&& 0x8000 ≠ 0

/-- The delivery mode of `LINT0`, `(lvt >> 8) & 7`. -/
def ApicState.lint0Mode (a : ApicState) : Nat := a.lint0.toNat / 256 % 8

/-- The vector of `LINT0`, `lvt & 0xff`. -/
def ApicState.lint0Vector (a : ApicState) : Fin 256 := Fin.ofNat 256 a.lint0.toNat

/-- `APIC_DM_FIXED` -/
def dmFixed : Nat := 0

/-- `APIC_DM_EXTINT` -/
def dmExtint : Nat := 7

/-! ## Priorities -/

/-- `get_highest_priority_int` -/
def getHighestPriorityInt (tab : Tab) : Int :=
  match tab.highest with
  | some i => i
  | none => -1

/-- `apic_get_ppr` -/
def apicGetPpr (a : ApicState) : Int :=
  let tpr : Int := a.tpr.toNat / 16
  let isrv := getHighestPriorityInt a.isr
  let isrv := (if isrv < 0 then 0 else isrv) / 16
  if tpr ≥ isrv then a.tpr.toNat else isrv * 16

/-- `x & 0xf0` -/
def classBits (x : Int) : Int := x / 16 % 16 * 16

/-- What `apic_irq_pending` and `ski_apic_irq_pending` make of the vector that they look at: itself, -1 if the
    processor priority is not below it, and 0 if there is none. -/
def pendingOf (a : ApicState) (irrv : Int) : Int :=
  if irrv < 0 then 0
  else if apicGetPpr a ≠ 0 ∧ classBits irrv ≤ classBits (apicGetPpr a) then -1
  else irrv

/-- `apic_irq_pending` -/
def apicIrqPending (a : ApicState) : Int := pendingOf a (getHighestPriorityInt a.irr)

/-! ## The machine -/

structure Machine where
  sched : State
  /-- `apic_state` of each CPU. -/
  apics : List ApicState
  deriving DecidableEq

def Machine.apic (m : Machine) (cpuNo : Nat) : ApicState := m.apics.getD cpuNo .init

def Machine.modifyApic (m : Machine) (cpuNo : Nat) (f : ApicState → ApicState) : Machine :=
  { m with apics := m.apics.modify cpuNo f }

/-- `cpu_interrupt` and `cpu_reset_interrupt` with `CPU_INTERRUPT_HARD`. -/
def Machine.setHard (m : Machine) (cpuNo : Nat) (hard : Bool) : Machine :=
  { m with sched := m.sched.modifyCpu cpuNo fun cpu => { cpu with irq := { cpu.irq with hard := hard } } }

/-- `apic_update_irq` without the 8259. -/
def apicUpdateIrq (m : Machine) (cpuNo : Nat) : Machine :=
  if (m.apic cpuNo).enabled ∧ apicIrqPending (m.apic cpuNo) > 0 then m.setHard cpuNo true else m

/-- `apic_set_irq` -/
def apicSetIrq (m : Machine) (cpuNo : Nat) (vectorNum : Fin 256) (triggerMode : Bool) : Except SkiExit Machine := do
  let m := m.modifyApic cpuNo fun a =>
    { a with
      irr := a.irr.set vectorNum
      tmr := if triggerMode then a.tmr.set vectorNum else a.tmr.reset vectorNum }
  let m := apicUpdateIrq m cpuNo
  let sched ← skiHandleNewIrqSet m.sched cpuNo vectorNum
  .ok { m with sched := sched }

/-- `apic_deliver_pic_intr`: the line of the 8259 goes up or down. -/
def apicDeliverPicIntr (m : Machine) (cpuNo : Nat) (level : Bool) : Except SkiExit Machine :=
  let a := m.apic cpuNo
  if level then
    -- `apic_local_deliver`
    if a.lint0Masked then .ok m
    else if a.lint0Mode = dmExtint then .ok (m.setHard cpuNo true)
    else if a.lint0Mode = dmFixed then apicSetIrq m cpuNo a.lint0Vector a.lint0Level
    else .ok m
  else if a.lint0Mode = dmFixed ∧ a.lint0Level then
    .ok ((m.modifyApic cpuNo fun a => { a with irr := a.irr.reset a.lint0Vector }).setHard cpuNo false)
  else if a.lint0Mode = dmExtint then .ok (m.setHard cpuNo false)
  else .ok m

/-! ## The hooks of the scheduler -/

/-- `ski_threads_find_next_runnable_int` -/
def skiThreadsFindNextRunnableInt (s : State) (cpuNo : Nat) : Int :=
  match s.current.bind (s.threads[·]?) with
  | none => -1
  | some tc => if tc.isInt ∧ tc.cpuNo = cpuNo then tc.intNo else -1

/-- `ski_apic_process_incoming_interrupts` -/
def skiApicProcessIncomingInterrupts (cpu : Cpu) : Bool :=
  cpu.active && (cpu.state = .runningTest || cpu.state = .blockedOnExit)

/-- `ski_apic_get_highest_priority_int`. The assertion on the bit of the vector does nothing. -/
def skiApicGetHighestPriorityInt (m : Machine) (cpuNo : Nat) (tab : Tab) : Int :=
  if skiApicProcessIncomingInterrupts (m.sched.cpu cpuNo) then
    let highestInt := skiThreadsFindNextRunnableInt m.sched cpuNo
    if highestInt ≥ 0 then highestInt else -1
  else getHighestPriorityInt tab

/-- `ski_apic_irq_pending` -/
def skiApicIrqPending (m : Machine) (cpuNo : Nat) : Int :=
  pendingOf (m.apic cpuNo) (skiApicGetHighestPriorityInt m cpuNo (m.apic cpuNo).irr)

/-- `apic_eoi` -/
def apicEoi (m : Machine) (cpuNo : Nat) : Machine :=
  let isrv := skiApicGetHighestPriorityInt m cpuNo (m.apic cpuNo).isr
  if isrv < 0 then m
  else apicUpdateIrq (m.modifyApic cpuNo fun a => { a with isr := a.isr.reset isrv.toNat }) cpuNo

/-- The acknowledged vector goes from `irr` to `isr`. -/
def ApicState.acknowledge (a : ApicState) (intno : Nat) : ApicState :=
  { a with irr := a.irr.reset intno, isr := a.isr.set intno }

/-- `ski_apic_get_interrupt`: the machine afterwards and the vector, or -1. -/
def skiApicGetInterrupt (m : Machine) (cpuNo : Nat) : Machine × Int :=
  if !(m.apic cpuNo).enabled then (m, -1)
  else
    let intno := skiApicIrqPending m cpuNo
    if intno = 0 then (m, -1)
    else if intno < 0 then (m, ((m.apic cpuNo).spuriousVec &&& 0xff).toNat)
    else (apicUpdateIrq (m.modifyApic cpuNo (·.acknowledge intno.toNat)) cpuNo, intno)

/-- `cpu_get_pic_interrupt`. `picIrq` is -1, or the vector of the 8259 if the APIC accepts its interrupts. -/
def cpuGetPicInterrupt (m : Machine) (cpuNo : Nat) (picIrq : Int) : Machine × Int :=
  let (m, intno) := skiApicGetInterrupt m cpuNo
  if intno ≥ 0 then (m, intno) else (m, picIrq)

/-- The dispatch of an interrupt by `cpu_exec` on an active CPU. -/
def cpuExecDispatch (m : Machine) (cpuNo : Nat) (picIrq : Int) : Except SkiExit Machine :=
  if (dispatchedVector m.sched cpuNo).isNone then .error .impossible
  -- `assert((!env->ski_active) || ski_apic_irq_pending(env->apic_state)>0)`
  else if ¬skiApicIrqPending m cpuNo > 0 then .error .assertFailed
  else do
    let (m, intno) := cpuGetPicInterrupt m cpuNo picIrq
    let m := m.setHard cpuNo false
    let sched ← skiHandleInterruptBegin m.sched cpuNo intno false true
    .ok { m with sched := sched }

/-! ## Events -/

/-- What a test starts from. -/
structure Setup extends Sched.Setup where
  apics : List ApicState
  apics_length : apics.length = cpus.length

def Setup.start (setup : Setup) : Machine := { sched := setup.toSetup.start, apics := setup.apics }

/-- Events of the scheduler that come through the APIC. -/
def throughApic : Sched.Event → Bool
  | .newIrqSet _ _ | .setIrq _ _ | .guest _ .dispatch => true
  | _ => false

inductive Event where
  /-- A request by a device, the timer or another CPU. -/
  | setIrq (cpuNo : Nat) (vectorNum : Fin 256) (triggerMode : Bool)
  | picIntr (cpuNo : Nat) (level : Bool)
  /-- Writes to registers by guest code (`apic_mem_writel`). -/
  | eoi (cpuNo : Nat)
  | writeTpr (cpuNo : Nat) (val : BitVec 8)
  | writeSpurious (cpuNo : Nat) (val : BitVec 32)
  | writeLint0 (cpuNo : Nat) (val : BitVec 32)
  /-- The x86 flags of a CPU change. -/
  | flags (cpuNo : Nat) (vintr hif interruptFlag inhibitIrq : Bool)
  | dispatch (cpuNo : Nat) (picIrq : Int)
  | sched (ev : Sched.Event)
  deriving DecidableEq

/-- Guest code on the CPU writes to its APIC. -/
def guestWrite (m : Machine) (cpuNo : Nat) (after : Machine) : Except SkiExit Machine :=
  if m.sched.running = some cpuNo then .ok after else .error .impossible

def step (setup : Setup) (m : Machine) : Event → Except SkiExit Machine
  | .setIrq cpuNo vectorNum triggerMode => apicSetIrq m cpuNo vectorNum triggerMode
  | .picIntr cpuNo level => apicDeliverPicIntr m cpuNo level
  | .eoi cpuNo => guestWrite m cpuNo (apicEoi m cpuNo)
  | .writeTpr cpuNo val =>
    guestWrite m cpuNo (apicUpdateIrq (m.modifyApic cpuNo fun a => { a with tpr := val }) cpuNo)
  | .writeSpurious cpuNo val =>
    guestWrite m cpuNo (apicUpdateIrq (m.modifyApic cpuNo fun a => { a with spuriousVec := val &&& 0x1ff }) cpuNo)
  | .writeLint0 cpuNo val => guestWrite m cpuNo (m.modifyApic cpuNo fun a => { a with lint0 := val })
  | .flags cpuNo vintr hif interruptFlag inhibitIrq =>
    .ok { m with
      sched := m.sched.modifyCpu cpuNo fun cpu =>
        { cpu with irq := ⟨cpu.irq.hard, vintr, hif, interruptFlag, inhibitIrq⟩ } }
  | .dispatch cpuNo picIrq =>
    if m.sched.running = some cpuNo ∧ (m.sched.cpu cpuNo).active then cpuExecDispatch m cpuNo picIrq
    else .error .impossible
  | .sched ev =>
    if throughApic ev then .error .impossible
    else do
      let sched ← Sched.step setup.toSetup m.sched ev
      .ok { m with sched := sched }

/-- `m` is a state of a test that was set up as `setup`. -/
def Reachable (setup : Setup) (m : Machine) : Prop :=
  ∃ events, Run (step setup) (fun _ _ => True) setup.start events m

/-- A state found by evaluation. -/
theorem exists_reachable_of_exec (setup : Setup) (events : List Event) {p : Machine → Bool}
    (h : (exec (step setup) (fun _ _ => true) setup.start events).any p = true) :
    ∃ m, Reachable setup m ∧ p m = true := by
  have hguard (m : Machine) (ev : Event) (_ : true = true) : (fun _ _ => True : Machine → Event → Prop) m ev := trivial
  obtain ⟨m, hrun, hp⟩ := exists_run_of_exec hguard h
  exact ⟨m, ⟨events, hrun⟩, hp⟩

end SkiVmm.Apic
