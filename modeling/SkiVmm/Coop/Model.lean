import SkiVmm.Lib.Flat
import SkiVmm.Lib.Run
import Mathlib.Logic.Function.Basic

/-!
# `Coop.Model` — forking a process with its threads (`forkall-coop.c`)

`fork` gives the child the calling thread only. With `forkall-coop.c` the other threads cooperate: each of them copies
its stack and its registers to a table when the main thread asks for it, and hangs; the main thread forks when all
threads have done so, and the child starts every thread again, on the same stack and with the registers of the copy.

A `Process` is the memory of one process together with the place of each of its threads. What runs between two accesses
to shared data is one step, so a run is any interleaving of the threads: the main thread is inside
`ski_forkall_pthread_create` or `ski_forkall_master`, another thread inside `ski_forkall_thread_add_self_tid`,
`ski_forkall_slave` or, in a child, `ski_forkall_thread_restore`. An assertion that fails stops the process.

Not all of it is in the source: each action also carries what the kernel and the C library choose, such as the id of a
new thread, and `Possible` says what they and the callers in `vl.c` and `cpus.c` guarantee.
-/

namespace SkiVmm.Coop

open Lib
open Function (update)

/-! ## The table of threads -/

/-- `FORKALL_THREAD_STACK_BEGIN` -/
def forkallThreadStackBegin : Nat := 0x5f06a0000000

/-- `FORKALL_THREAD_STACK_SIZE` -/
def forkallThreadStackSize : Nat := 0x20000

/-- `FORKALL_THREAD_STACK_DISTANCE` -/
def forkallThreadStackDistance : Nat := 0x20000 + 0x1000

/-- `FORKALL_MAX_THREADS` -/
def forkallMaxThreads : Nat := 10

/-- The stack of the thread `threadSeq`. -/
def stackBase (threadSeq : Nat) : Nat := forkallThreadStackBegin + threadSeq * forkallThreadStackDistance

/-- The C library keeps the descriptor of a thread at the end of its stack, and its address is the `pthread_t`. -/
def pthreadOf (threadSeq : Nat) : Nat := stackBase threadSeq + forkallThreadStackSize - 0x900

/-- `forkall_thread`, where `ρ` are the registers that a `jmp_buf` holds -/
structure ForkallThread (ρ : Type) where
  tidOriginal : Int
  tidRestore : Int
  threadOriginal : Nat
  forkallEnv : Option ρ
  stack : Nat → UInt8
  threadSeq : Nat
  stackMin : Nat
  stackMax : Nat

/-- An entry that is all zero. -/
def ForkallThread.zero {ρ : Type} : ForkallThread ρ := ⟨0, 0, 0, none, fun _ => 0, 0, 0, 0⟩

/-- The entry that `ski_forkall_thread_new` makes. -/
def ForkallThread.new {ρ : Type} (threadSeq : Nat) : ForkallThread ρ :=
  { ForkallThread.zero with
    threadSeq := threadSeq
    stackMin := stackBase threadSeq
    stackMax := stackBase threadSeq + forkallThreadStackSize
    tidOriginal := -1
    tidRestore := -1 }

/-! ## Where the threads are -/

/-- Inside `ski_forkall_pthread_create` -/
inductive CreatePc where
  | lock
  | locked
  | counted (threadSeq : Nat)
  | unlocked (threadSeq : Nat)
  | initialized (threadSeq : Nat)
  | created (threadSeq : Nat)
deriving DecidableEq

/-- Inside `ski_forkall_master` -/
inductive MasterPc where
  | lock
  | locked
  | requested
  | poll
  | pollLocked
  | pollRead (threadsDone nthreads : Nat)
  | polled (threadsDone nthreads : Nat)
  | fork
  /-- the loop of the child -/
  | restore (i : Nat)
deriving DecidableEq

/-- Where the main thread is. -/
inductive Main where
  | outside
  | create (pc : CreatePc)
  | master (pc : MasterPc)
deriving DecidableEq

/-- Inside `ski_forkall_thread_add_self_tid` -/
inductive AddPc where
  | lock
  | locked
  | found
deriving DecidableEq

/-- Inside `ski_forkall_slave` -/
inductive SlavePc where
  | find
  | copy (t : Nat)
  | setjmp (t : Nat)
  | test
  | lock
  | locked
  | counted
  | hang
deriving DecidableEq

/-- Inside `ski_forkall_thread_restore` -/
inductive RestorePc where
  | tid
  | stack
  | registers
  /-- `setjmp` has returned again -/
  | resumed
deriving DecidableEq

/-- Where one of the other threads is. -/
inductive Thread where
  | absent
  | add (pc : AddPc)
  | outside
  | slave (pc : SlavePc)
  | restore (pc : RestorePc)
  /-- `ski_forkall_slave` has returned with `did_fork` and `is_child` -/
  | forked
deriving DecidableEq

/-- Who can hold `forkall_mutex`: the main thread, or the thread of an entry. -/
inductive Owner where
  | main
  | slot (i : Nat)
deriving DecidableEq

/-- A process. Entry `i` of the table belongs to the thread `i`. -/
structure Process (ρ : Type) where
  forkallThreads : Nat → ForkallThread ρ
  threadCount : Nat
  forkallMutex : Option Owner
  forkallForking : Bool
  forkallThreadsDone : Nat
  isChild : Bool
  parentSimulateChild : Bool
  main : Main
  thread : Nat → Thread
  /-- `gettid` of the thread -/
  tid : Nat → Int
  regs : Nat → ρ
  /-- the memory with the stacks -/
  memory : Nat → UInt8

/-- A process at its start. -/
def Process.start {ρ : Type} (regs : Nat → ρ) (memory : Nat → UInt8) : Process ρ where
  forkallThreads _ := ForkallThread.zero
  threadCount := 0
  forkallMutex := none
  forkallForking := false
  forkallThreadsDone := 0
  isChild := false
  parentSimulateChild := false
  main := .outside
  thread _ := .absent
  tid _ := 0
  regs := regs
  memory := memory

/-- Why a step is not taken. -/
inductive Stop where
  /-- the thread waits, or is not there -/
  | blocked
  | assertion
deriving DecidableEq

variable {ρ : Type}

/-! ## The functions -/

/-- `pthread_mutex_lock(&forkall_mutex)` -/
def Process.lock (p : Process ρ) (owner : Owner) : Except Stop (Process ρ) :=
  if p.forkallMutex = none then .ok { p with forkallMutex := some owner } else .error .blocked

/-- `pthread_mutex_unlock(&forkall_mutex)` -/
def Process.unlock (p : Process ρ) : Process ρ := { p with forkallMutex := none }

/-- `ski_thread_find` -/
def skiThreadFind (p : Process ρ) (tid : Int) : Option Nat :=
  (List.range p.threadCount).find? fun i => (p.forkallThreads i).tidOriginal = tid

/-- The entry whose stack has the address `dummy` -/
def skiFindStack (p : Process ρ) (dummy : Nat) : Option Nat :=
  (List.range p.threadCount).find? fun i =>
    (p.forkallThreads i).stackMin < dummy ∧ dummy < (p.forkallThreads i).stackMax

/-- `ski_create_thread_custom_stack` for entry `i`: the stack is mapped again, and a thread starts on it. The new stack
    holds `image`, which is zero but for what `pthread_create` puts there. -/
def skiCreateThreadCustomStack (p : Process ρ) (i : Nat) (startRoutine : Thread) (tid : Int) (image : Nat → UInt8) :
    Process ρ :=
  { p with
    memory := fill p.memory (stackBase (p.forkallThreads i).threadSeq) forkallThreadStackSize image
    thread := update p.thread i startRoutine
    tid := update p.tid i tid }

/-- A step of `ski_forkall_pthread_create`, with `ski_forkall_thread_new` -/
def skiForkallPthreadCreate (p : Process ρ) (tid : Int) (image : Nat → UInt8) : CreatePc → Except Stop (Process ρ)
  | .lock => do
    let p ← p.lock .main
    pure { p with main := .create .locked }
  | .locked =>
    let threadSeq := p.threadCount
    if p.threadCount + 1 < forkallMaxThreads then
      .ok { p with threadCount := p.threadCount + 1, main := .create (.counted threadSeq) }
    else .error .assertion
  | .counted threadSeq => .ok { p.unlock with main := .create (.unlocked threadSeq) }
  | .unlocked threadSeq =>
    .ok { p with
      forkallThreads := update p.forkallThreads threadSeq (.new threadSeq)
      main := .create (.initialized threadSeq) }
  | .initialized threadSeq =>
    .ok { skiCreateThreadCustomStack p threadSeq (.add .lock) tid image with main := .create (.created threadSeq) }
  | .created threadSeq =>
    let t := p.forkallThreads threadSeq
    .ok { p with
      forkallThreads := update p.forkallThreads threadSeq { t with threadOriginal := pthreadOf threadSeq }
      main := .outside }

/-- A step of `ski_forkall_master`. At `fork` it is the one of the parent. -/
def skiForkallMaster (p : Process ρ) (tid : Int) (image : Nat → UInt8) : MasterPc → Except Stop (Process ρ)
  | .lock => do
    let p ← p.lock .main
    pure { p with main := .master .locked }
  | .locked => .ok { p with forkallForking := true, main := .master .requested }
  | .requested => .ok { p.unlock with main := .master .poll }
  | .poll => do
    let p ← p.lock .main
    pure { p with main := .master .pollLocked }
  | .pollLocked => .ok { p with main := .master (.pollRead p.forkallThreadsDone p.threadCount) }
  | .pollRead threadsDone nthreads => .ok { p.unlock with main := .master (.polled threadsDone nthreads) }
  | .polled threadsDone nthreads =>
    if threadsDone = nthreads then .ok { p with main := .master .fork } else .ok { p with main := .master .poll }
  | .fork => .ok { p with main := .outside }
  | .restore i =>
    if i < p.threadCount then
      .ok { skiCreateThreadCustomStack p i (.restore .tid) tid image with main := .master (.restore (i + 1)) }
    else .ok { p with main := .outside }

/-- The child of a `fork`, up to the loop that starts the threads again -/
def Process.fork (p : Process ρ) : Option (Process ρ) :=
  if p.main = .master .fork then
    some { p with forkallForking := false, isChild := true, main := .master (.restore 0), thread := fun _ => .absent }
  else none

/-- A step of `ski_forkall_thread_add_self_tid` by thread `i` -/
def skiForkallThreadAddSelfTid (p : Process ρ) (i dummy : Nat) : AddPc → Except Stop (Process ρ)
  | .lock => do
    let p ← p.lock (.slot i)
    pure { p with thread := update p.thread i (.add .locked) }
  | .locked =>
    match skiFindStack p dummy with
    | some t =>
      .ok { p with
        forkallThreads := update p.forkallThreads t { p.forkallThreads t with tidOriginal := p.tid i }
        thread := update p.thread i (.add .found) }
    | none => .error .assertion
  | .found => .ok { p.unlock with thread := update p.thread i .outside }

/-- A call of `ski_forkall_slave` by thread `i`. Unless there is a request, it returns with `did_fork` zero. -/
def skiForkallSlaveEnter (p : Process ρ) (i : Nat) : Process ρ :=
  if p.forkallForking = false ∨ p.parentSimulateChild = true then p
  else { p with thread := update p.thread i (.slave .find) }

/-- A step of `ski_forkall_slave` by thread `i` -/
def skiForkallSlave (p : Process ρ) (i : Nat) : SlavePc → Except Stop (Process ρ)
  | .find =>
    match skiThreadFind p (p.tid i) with
    | some t => .ok { p with thread := update p.thread i (.slave (.copy t)) }
    | none => .error .assertion
  | .copy t =>
    let e := p.forkallThreads t
    .ok { p with
      forkallThreads := update p.forkallThreads t
        { e with stack := fill e.stack 0 forkallThreadStackSize fun n => p.memory (e.stackMin + n) }
      thread := update p.thread i (.slave (.setjmp t)) }
  | .setjmp t =>
    .ok { p with
      forkallThreads := update p.forkallThreads t { p.forkallThreads t with forkallEnv := some (p.regs i) }
      thread := update p.thread i (.slave .test) }
  | .test =>
    if p.forkallForking = false then .ok { p with thread := update p.thread i .forked }
    else .ok { p with thread := update p.thread i (.slave .lock) }
  | .lock => do
    let p ← p.lock (.slot i)
    pure { p with thread := update p.thread i (.slave .locked) }
  | .locked =>
    .ok { p with
      forkallThreadsDone := p.forkallThreadsDone + 1
      thread := update p.thread i (.slave .counted) }
  | .counted => .ok { p.unlock with thread := update p.thread i (.slave .hang) }
  | .hang =>
    if p.parentSimulateChild = true then .ok { p with thread := update p.thread i .forked } else .error .blocked

/-- A step of `ski_forkall_thread_restore` by the thread of entry `i`. There are no registers to return to unless the
    entry was saved. -/
def skiForkallThreadRestore (p : Process ρ) (i : Nat) : RestorePc → Except Stop (Process ρ)
  | .tid =>
    .ok { p with
      forkallThreads := update p.forkallThreads i { p.forkallThreads i with tidRestore := p.tid i }
      thread := update p.thread i (.restore .stack) }
  | .stack =>
    let t := p.forkallThreads i
    .ok { p with
      memory := fill p.memory t.stackMin forkallThreadStackSize t.stack
      thread := update p.thread i (.restore .registers) }
  | .registers =>
    match (p.forkallThreads i).forkallEnv with
    | some regs => .ok { p with regs := update p.regs i regs, thread := update p.thread i (.restore .resumed) }
    | none => .error .assertion
  | .resumed => .ok { p with thread := update p.thread i .forked }

/-! ## Signals -/

/-- How a signal is sent. -/
inductive Signal where
  | pthreadKill (thread : Nat)
  | tkill (tid : Int)
deriving DecidableEq

/-- `ski_forkall_pthread_kill` -/
def skiForkallPthreadKill (p : Process ρ) (thread : Nat) : Except Stop Signal :=
  if p.isChild = false then .ok (.pthreadKill thread)
  else
    match (List.range p.threadCount).find? fun i => (p.forkallThreads i).threadOriginal = thread with
    | some i =>
      if (p.forkallThreads i).tidRestore ≠ 0 then .ok (.tkill (p.forkallThreads i).tidRestore) else .error .assertion
    | none => .error .assertion

/-! ## The system -/

inductive Action (ρ : Type) where
  /-- the main thread calls `ski_forkall_pthread_create` -/
  | pthreadCreate
  /-- the main thread calls `ski_forkall_master` -/
  | forkallMaster
  /-- the main thread lets the threads of the parent go on, to debug a test there -/
  | simulateChild
  /-- the main thread goes on; a thread that it starts gets the id `tid` and the stack `image` -/
  | main (tid : Int) (image : Nat → UInt8)
  /-- thread `i` calls `ski_forkall_slave` -/
  | forkallSlave (i : Nat)
  /-- thread `i` goes on; its local variables are at `dummy` -/
  | thread (i : Nat) (dummy : Nat)
  /-- thread `i` has used its registers and its stack -/
  | work (i : Nat) (regs : ρ) (image : Nat → UInt8)

/-- The next step of the main thread -/
def mainStep (p : Process ρ) (tid : Int) (image : Nat → UInt8) : Except Stop (Process ρ) :=
  match p.main with
  | .outside => .error .blocked
  | .create pc => skiForkallPthreadCreate p tid image pc
  | .master pc => skiForkallMaster p tid image pc

/-- The next step of thread `i` -/
def threadStep (p : Process ρ) (i dummy : Nat) : Except Stop (Process ρ) :=
  match p.thread i with
  | .absent | .outside | .forked => .error .blocked
  | .add pc => skiForkallThreadAddSelfTid p i dummy pc
  | .slave pc => skiForkallSlave p i pc
  | .restore pc => skiForkallThreadRestore p i pc

def step (p : Process ρ) : Action ρ → Except Stop (Process ρ)
  | .pthreadCreate => .ok { p with main := .create .lock }
  | .forkallMaster => .ok { p with main := .master .lock }
  | .simulateChild => .ok { p with parentSimulateChild := true }
  | .main tid image => mainStep p tid image
  | .forkallSlave i => .ok (skiForkallSlaveEnter p i)
  | .thread i dummy => threadStep p i dummy
  | .work i regs image =>
    .ok { p with
      regs := update p.regs i regs
      memory := fill p.memory (stackBase i) forkallThreadStackSize image }

/-- Between the copy of its stack and its return from `setjmp`, a thread does not run on its own stack. -/
def Thread.works : Thread → Bool
  | .absent | .restore .registers | .restore .resumed => false
  | _ => true

/-- What the callers and the kernel guarantee. Threads are created and forked by the main thread of the first process,
    which does not go on to fork once it has let its own threads go on. A thread that starts has a new id. -/
def Possible (p : Process ρ) : Action ρ → Prop
  | .pthreadCreate => p.main = .outside ∧ p.isChild = false
  | .forkallMaster => p.main = .outside ∧ p.isChild = false ∧ p.parentSimulateChild = false
  | .simulateChild => p.main = .outside ∧ p.isChild = false ∧ p.forkallForking = true
  | .main tid _ => 0 < tid ∧ ∀ i < p.threadCount, p.thread i ≠ .absent → p.tid i ≠ tid
  | .forkallSlave i => p.thread i = .outside
  | .thread i dummy => stackBase i < dummy ∧ dummy < stackBase i + forkallThreadStackSize
  | .work i _ _ => (p.thread i).works = true

/-- The processes that there can be: the first one, what it becomes and its children. -/
inductive Reachable : Process ρ → Prop
  | start (regs : Nat → ρ) (memory : Nat → UInt8) : Reachable (.start regs memory)
  | step {p q : Process ρ} {a : Action ρ} (hp : Reachable p) (ha : Possible p a) (hstep : step p a = .ok q) :
    Reachable q
  | fork {p c : Process ρ} (hp : Reachable p) (hfork : p.fork = some c) : Reachable c

end SkiVmm.Coop
