import SkiVmm.Coop.Model
import SkiVmm.Lib.Mutex
import SkiVmm.Lib.Table
import Mathlib.Data.List.Basic

/-!
# `Coop.Invariant` — what holds in the first process

The invariant has four parts: who holds the mutex, what the entry of each thread says about it (`Slot`), how far the
table is filled (`Table`), and what the main thread may conclude from the counter (`Counted`). The step of a thread
changes the thread, its own entry, the mutex and the counter and nothing else (`Process.put`), and `ThreadRule` says
how.

## Main results
- `Parent.threadStep_eq`: the rules are all that a thread does. In particular it finds its own entry, by its stack and
  by its id, and no assertion fails.
- `Parent.put`: every rule keeps the invariant.
-/

namespace SkiVmm.Coop

open Lib
open Function (update)

variable {ρ : Type}

/-! ## The parts of the invariant -/

def Main.holding : Main → Bool
  | .create .locked | .create (.counted _) => true
  | .master .locked | .master .requested | .master .pollLocked | .master (.pollRead _ _) => true
  | _ => false

def Thread.holding : Thread → Bool
  | .add .locked | .add .found | .slave .locked | .slave .counted => true
  | _ => false

/-- Who is in a critical section. -/
def holding (main : Main) (thread : Nat → Thread) : Owner → Bool
  | .main => main.holding
  | .slot i => (thread i).holding

/-- The thread has entered its id. -/
def Thread.registered : Thread → Bool
  | .absent | .add .lock | .add .locked => false
  | _ => true

/-- The thread has saved its stack and its registers. -/
def Thread.saved : Thread → Bool
  | .slave .test | .slave .lock | .slave .locked | .slave .counted | .slave .hang | .forked => true
  | _ => false

/-- The thread is in `forkall_threads_done`. -/
def Thread.done : Thread → Bool
  | .slave .counted | .slave .hang | .forked => true
  | _ => false

/-- The thread has not called `ski_forkall_slave` with a request. -/
def Thread.plain : Thread → Bool
  | .absent | .add _ | .outside => true
  | _ => false

/-- The entry that the thread has found. -/
def Thread.target : Thread → Option Nat
  | .slave (.copy t) | .slave (.setjmp t) => some t
  | _ => none

/-- What the first process knows of one thread. -/
structure Slot (forking simulate : Bool) (i : Nat) (e : ForkallThread ρ) (tid : Int) (t : Thread) : Prop where
  tid_pos : t ≠ .absent → 0 < tid
  original_eq : t.registered = true → e.tidOriginal = tid
  original_le : t.registered = false → e.tidOriginal ≤ 0
  target_eq : ∀ k, t.target = some k → k = i
  env_some : t.saved = true → e.forkallEnv.isSome = true
  forking_eq : ∀ pc, t = .slave pc → forking = true
  simulate_eq : t = .forked → simulate = true
  not_restore : ∀ pc, t ≠ .restore pc

/-- An entry that belongs to the thread `i`. -/
structure Entry (i : Nat) (e : ForkallThread ρ) : Prop where
  threadSeq_eq : e.threadSeq = i
  stackMin_eq : e.stackMin = stackBase i
  stackMax_eq : e.stackMax = stackBase i + forkallThreadStackSize

/-- How many entries are initialized, when `count` are counted. -/
def Main.initialized (count : Nat) : Main → Nat
  | .create (.counted _) | .create (.unlocked _) => count - 1
  | _ => count

/-- How many threads have been started. -/
def Main.created (count : Nat) : Main → Nat
  | .create (.counted _) | .create (.unlocked _) | .create (.initialized _) => count - 1
  | _ => count

/-- How many entries have the `pthread_t` of their thread. -/
def Main.named (count : Nat) : Main → Nat
  | .create (.counted _) | .create (.unlocked _) | .create (.initialized _) | .create (.created _) => count - 1
  | _ => count

/-- The entry that the main thread is working on. -/
def Main.seq : Main → Option Nat
  | .create (.counted seq) | .create (.unlocked seq) | .create (.initialized seq) | .create (.created seq) => some seq
  | _ => none

/-- How far the table is filled. -/
structure Table (main : Main) (count : Nat) (entries : Nat → ForkallThread ρ) (thread : Nat → Thread)
    (tid : Nat → Int) : Prop where
  count_lt : count < forkallMaxThreads
  seq_eq : ∀ seq, main.seq = some seq → count = seq + 1
  entry : ∀ i < main.initialized count, Entry i (entries i) ∧ (entries i).tidRestore = -1
  blank : ∀ i, main.initialized count ≤ i → entries i = .zero
  named : ∀ i < main.named count, (entries i).threadOriginal = pthreadOf i
  present : ∀ i, thread i ≠ .absent ↔ i < main.created count
  tid_inj : ∀ i j, thread i ≠ .absent → thread j ≠ .absent → tid i = tid j → i = j

/-- What the main thread may conclude from the counter. -/
structure Counted (main : Main) (count done : Nat) (forking simulate : Bool) (thread : Nat → Thread) : Prop where
  done_eq : done = (List.range count).countP fun i => (thread i).done
  forking_eq : ∀ pc, main = .master pc → pc = .lock ∨ pc = .locked ∨ forking = true
  simulate_eq : ∀ pc, main = .master pc → simulate = false
  pollRead : ∀ d n, main = .master (.pollRead d n) → n = count ∧ (d = n → ∀ i < n, thread i = .slave .hang)
  polled : ∀ d n, main = .master (.polled d n) → n = count ∧ (d = n → ∀ i < n, thread i = .slave .hang)
  fork : main = .master .fork → ∀ i < count, thread i = .slave .hang
  not_restore : ∀ i, main ≠ .master (.restore i)

/-- **The invariant of the first process.** -/
structure Parent (p : Process ρ) : Prop where
  isChild_eq : p.isChild = false
  guards : Guards (holding p.main p.thread) p.forkallMutex
  slot : ∀ i, Slot p.forkallForking p.parentSimulateChild i (p.forkallThreads i) (p.tid i) (p.thread i)
  table : Table p.main p.threadCount p.forkallThreads p.thread p.tid
  counted : Counted p.main p.threadCount p.forkallThreadsDone p.forkallForking p.parentSimulateChild p.thread

theorem holding_main (main main' : Main) (thread : Nat → Thread) :
    holding main' thread = update (holding main thread) .main main'.holding := by
  funext o
  cases o with
  | main => rw [Function.update_self]; rfl
  | slot i => rw [Function.update_of_ne (show Owner.slot i ≠ .main from nofun)]; rfl

theorem holding_thread (main : Main) (thread : Nat → Thread) (i : Nat) (t : Thread) :
    holding main (update thread i t) = update (holding main thread) (.slot i) t.holding := by
  funext o
  cases o with
  | main => rw [Function.update_of_ne (show Owner.main ≠ .slot i from nofun)]; rfl
  | slot j =>
    by_cases hj : j = i
    · subst hj
      simp only [holding, Function.update_self]
    · rw [Function.update_of_ne fun heq => hj (Owner.slot.inj heq)]
      simp only [holding, Function.update_of_ne hj]

/-- A fact about every thread, when one of them and its entry have changed. -/
theorem forall_update {α β : Type} {P : Nat → α → β → Prop} {f : Nat → α} {g : Nat → β} (h : ∀ j, P j (f j) (g j))
    {i : Nat} {x : α} {y : β} (hi : P i x y) (j : Nat) : P j (update f i x j) (update g i y j) := by
  by_cases hj : j = i
  · subst hj
    rwa [Function.update_self, Function.update_self]
  · rw [Function.update_of_ne hj, Function.update_of_ne hj]
    exact h j

/-! ## The steps of a thread -/

/-- What the step of a thread changes. -/
def Process.put (p : Process ρ) (i : Nat) (t : Thread) (e : ForkallThread ρ) (mutex : Option Owner) (done : Nat) :
    Process ρ :=
  { p with
    thread := update p.thread i t
    forkallThreads := update p.forkallThreads i e
    forkallMutex := mutex
    forkallThreadsDone := done }

section Put
variable (p : Process ρ) (i : Nat) (t : Thread) (e : ForkallThread ρ) (mutex : Option Owner) (done : Nat)

@[simp] theorem Process.put_thread : (p.put i t e mutex done).thread i = t := Function.update_self ..

@[simp] theorem Process.put_forkallThreads : (p.put i t e mutex done).forkallThreads i = e :=
  Function.update_self ..

end Put

/-- **The rules for a thread**, from one place to the next one, with its entry, the mutex and the counter. -/
inductive ThreadRule (p : Process ρ) (i : Nat) : Thread → Thread → ForkallThread ρ → Option Owner → Nat → Prop where
  | addLock (hfree : p.forkallMutex = none) :
    ThreadRule p i (.add .lock) (.add .locked) (p.forkallThreads i) (some (.slot i)) p.forkallThreadsDone
  | addFind :
    ThreadRule p i (.add .locked) (.add .found) { p.forkallThreads i with tidOriginal := p.tid i } p.forkallMutex
      p.forkallThreadsDone
  | addUnlock : ThreadRule p i (.add .found) .outside (p.forkallThreads i) none p.forkallThreadsDone
  | enter (hforking : p.forkallForking = true) :
    ThreadRule p i .outside (.slave .find) (p.forkallThreads i) p.forkallMutex p.forkallThreadsDone
  | find : ThreadRule p i (.slave .find) (.slave (.copy i)) (p.forkallThreads i) p.forkallMutex p.forkallThreadsDone
  | copy :
    ThreadRule p i (.slave (.copy i)) (.slave (.setjmp i))
      { p.forkallThreads i with
        stack := fill (p.forkallThreads i).stack 0 forkallThreadStackSize fun n => p.memory (stackBase i + n) }
      p.forkallMutex p.forkallThreadsDone
  | setjmp :
    ThreadRule p i (.slave (.setjmp i)) (.slave .test) { p.forkallThreads i with forkallEnv := some (p.regs i) }
      p.forkallMutex p.forkallThreadsDone
  | test : ThreadRule p i (.slave .test) (.slave .lock) (p.forkallThreads i) p.forkallMutex p.forkallThreadsDone
  | lock (hfree : p.forkallMutex = none) :
    ThreadRule p i (.slave .lock) (.slave .locked) (p.forkallThreads i) (some (.slot i)) p.forkallThreadsDone
  | count :
    ThreadRule p i (.slave .locked) (.slave .counted) (p.forkallThreads i) p.forkallMutex (p.forkallThreadsDone + 1)
  | unlock : ThreadRule p i (.slave .counted) (.slave .hang) (p.forkallThreads i) none p.forkallThreadsDone
  | release (hsimulate : p.parentSimulateChild = true) :
    ThreadRule p i (.slave .hang) .forked (p.forkallThreads i) p.forkallMutex p.forkallThreadsDone

/-! ### The entry of a thread -/

theorem Main.created_le_initialized (main : Main) (count : Nat) : main.created count ≤ main.initialized count := by
  cases main with
  | outside => exact Nat.le_refl count
  | master pc => exact Nat.le_refl count
  | create pc => cases pc <;> first | exact Nat.le_refl _ | exact Nat.sub_le count 1

theorem Main.initialized_le (main : Main) (count : Nat) : main.initialized count ≤ count := by
  unfold Main.initialized
  split <;> omega

/-- Stacks do not overlap. -/
theorem stackBase_add_size_le {i j : Nat} (hij : i < j) : stackBase i + forkallThreadStackSize ≤ stackBase j := by
  have hmul := Nat.mul_le_mul_right forkallThreadStackDistance (Nat.succ_le_of_lt hij)
  unfold stackBase forkallThreadStackSize
  unfold forkallThreadStackDistance at hmul ⊢
  omega

section Thread
variable {p : Process ρ} {i : Nat}

theorem Parent.lt_initialized (h : Parent p) (hi : p.thread i ≠ .absent) : i < p.main.initialized p.threadCount :=
  Nat.lt_of_lt_of_le ((h.table.present i).mp hi) (p.main.created_le_initialized p.threadCount)

theorem Parent.lt_count (h : Parent p) (hi : p.thread i ≠ .absent) : i < p.threadCount :=
  Nat.lt_of_lt_of_le (h.lt_initialized hi) (p.main.initialized_le p.threadCount)

/-- A thread finds its entry by the address of a local variable. -/
theorem Parent.findStack_eq (h : Parent p) (hi : p.thread i ≠ .absent) {dummy : Nat} (hlo : stackBase i < dummy)
    (hhi : dummy < stackBase i + forkallThreadStackSize) : skiFindStack p dummy = some i := by
  have hlt := h.lt_initialized hi
  unfold skiFindStack
  rw [List.find?_range_eq_some]
  refine ⟨?_, List.mem_range.mpr (h.lt_count hi), fun j hj => ?_⟩
  · have hentry := (h.table.entry i hlt).1
    rw [decide_eq_true_eq, hentry.stackMin_eq, hentry.stackMax_eq]
    exact ⟨hlo, hhi⟩
  · have hentry := (h.table.entry j (Nat.lt_trans hj hlt)).1
    have hbelow := stackBase_add_size_le hj
    rw [Bool.not_eq_true', decide_eq_false_iff_not, hentry.stackMax_eq]
    omega

/-- A thread finds its entry by its id: ids are unique, and entries without a thread have none. -/
theorem Parent.threadFind_eq (h : Parent p) (hi : p.thread i ≠ .absent) (hreg : (p.thread i).registered = true) :
    skiThreadFind p (p.tid i) = some i := by
  unfold skiThreadFind
  rw [List.find?_range_eq_some]
  refine ⟨decide_eq_true ((h.slot i).original_eq hreg), List.mem_range.mpr (h.lt_count hi), fun j hj => ?_⟩
  rw [Bool.not_eq_true', decide_eq_false_iff_not]
  intro hsame
  have hpos := (h.slot i).tid_pos hi
  cases hj' : (p.thread j).registered with
  | false =>
    have := (h.slot j).original_le hj'
    omega
  | true =>
    have hpresent : p.thread j ≠ .absent := fun habs => by
      rw [habs] at hj'
      cases hj'
    have heq := h.table.tid_inj j i hpresent hi (((h.slot j).original_eq hj').symm.trans hsame)
    omega

/-! ### The rules -/

theorem Process.lock_eq (p : Process ρ) (owner : Owner) :
    p.lock owner = .error .blocked
      ∨ p.forkallMutex = none ∧ p.lock owner = .ok { p with forkallMutex := some owner } := by
  unfold Process.lock
  by_cases hfree : p.forkallMutex = none
  · exact Or.inr ⟨hfree, if_pos hfree⟩
  · exact Or.inl (if_neg hfree)

/-- **The rules are all that a thread does.** -/
theorem Parent.threadStep_eq (h : Parent p) {dummy : Nat} (hlo : stackBase i < dummy)
    (hhi : dummy < stackBase i + forkallThreadStackSize) :
    threadStep p i dummy = .error .blocked
      ∨ ∃ t e mutex done, ThreadRule p i (p.thread i) t e mutex done
          ∧ threadStep p i dummy = .ok (p.put i t e mutex done) := by
  have hself : update p.forkallThreads i (p.forkallThreads i) = p.forkallThreads := Function.update_eq_self _ _
  have hslot := h.slot i
  unfold threadStep
  cases ht : p.thread i with
  | absent => exact Or.inl rfl
  | outside => exact Or.inl rfl
  | forked => exact Or.inl rfl
  | restore pc => exact absurd ht (hslot.not_restore pc)
  | add pc =>
    have hpresent : p.thread i ≠ .absent := by
      rw [ht]
      nofun
    cases pc with
    | lock =>
      rcases p.lock_eq (.slot i) with hblocked | ⟨hfree, hok⟩
      · left
        simp only [skiForkallThreadAddSelfTid, hblocked, error_bind]
      · refine Or.inr ⟨_, _, _, _, .addLock hfree, ?_⟩
        simp only [skiForkallThreadAddSelfTid, hok, ok_bind, Process.put, hself]
        rfl
    | locked =>
      refine Or.inr ⟨_, _, _, _, .addFind, ?_⟩
      simp only [skiForkallThreadAddSelfTid, h.findStack_eq hpresent hlo hhi]
      rfl
    | found =>
      refine Or.inr ⟨_, _, _, _, .addUnlock, ?_⟩
      simp only [skiForkallThreadAddSelfTid, Process.put, Process.unlock, hself]
  | slave pc =>
    have hpresent : p.thread i ≠ .absent := by
      rw [ht]
      nofun
    cases pc with
    | find =>
      refine Or.inr ⟨_, _, _, _, .find, ?_⟩
      simp only [skiForkallSlave, h.threadFind_eq hpresent (by rw [ht]; rfl), Process.put, hself]
    | copy k =>
      obtain rfl := hslot.target_eq k (by rw [ht]; rfl)
      refine Or.inr ⟨_, _, _, _, .copy, ?_⟩
      simp only [skiForkallSlave, Process.put, (h.table.entry k (h.lt_initialized hpresent)).1.stackMin_eq]
    | setjmp k =>
      obtain rfl := hslot.target_eq k (by rw [ht]; rfl)
      exact Or.inr ⟨_, _, _, _, .setjmp, rfl⟩
    | test =>
      refine Or.inr ⟨_, _, _, _, .test, ?_⟩
      have hforking := hslot.forking_eq _ ht
      simp only [skiForkallSlave, hforking, Process.put, hself]
      rfl
    | lock =>
      rcases p.lock_eq (.slot i) with hblocked | ⟨hfree, hok⟩
      · left
        simp only [skiForkallSlave, hblocked, error_bind]
      · refine Or.inr ⟨_, _, _, _, .lock hfree, ?_⟩
        simp only [skiForkallSlave, hok, ok_bind, Process.put, hself]
        rfl
    | locked =>
      refine Or.inr ⟨_, _, _, _, .count, ?_⟩
      simp only [skiForkallSlave, Process.put, hself]
    | counted =>
      refine Or.inr ⟨_, _, _, _, .unlock, ?_⟩
      simp only [skiForkallSlave, Process.put, Process.unlock, hself]
    | hang =>
      by_cases hsimulate : p.parentSimulateChild = true
      · refine Or.inr ⟨_, _, _, _, .release hsimulate, ?_⟩
        simp only [skiForkallSlave, if_pos hsimulate, Process.put, hself]
      · left
        simp only [skiForkallSlave, if_neg hsimulate]

theorem Parent.rule_of_step (h : Parent p) {q : Process ρ} {dummy : Nat} (ha : Possible p (.thread i dummy))
    (hstep : step p (.thread i dummy) = .ok q) :
    ∃ t e mutex done, ThreadRule p i (p.thread i) t e mutex done ∧ q = p.put i t e mutex done := by
  rcases h.threadStep_eq ha.1 ha.2 with hblocked | ⟨t, e, mutex, done, hrule, hok⟩
  · cases hblocked.symm.trans hstep
  · cases hok.symm.trans hstep
    exact ⟨t, e, mutex, done, hrule, rfl⟩

/-! ### Every rule keeps the invariant -/

section Rule
variable {t₀ t : Thread} {e : ForkallThread ρ} {mutex : Option Owner} {done : Nat}

theorem ThreadRule.guards (hrule : ThreadRule p i t₀ t e mutex done) (ht : p.thread i = t₀)
    (h : Guards (holding p.main p.thread) p.forkallMutex) : Guards (holding p.main (update p.thread i t)) mutex := by
  have hholding : holding p.main p.thread (.slot i) = t₀.holding := congrArg Thread.holding ht
  rw [holding_thread]
  cases hrule with
  | addLock hfree | lock hfree =>
    rw [hfree] at h
    exact h.acquire _
  | addFind | enter | find | copy | setjmp | test | count | release => exact h.move hholding
  | addUnlock | unlock => exact h.release hholding

/-- A thread that has nothing to do with a fork yet. -/
theorem slot_of_plain {forking simulate : Bool} {e : ForkallThread ρ} {tid : Int} {t : Thread} (ht : t.plain = true)
    (hpos : t ≠ .absent → 0 < tid) (heq : t.registered = true → e.tidOriginal = tid)
    (hle : t.registered = false → e.tidOriginal ≤ 0) : Slot forking simulate i e tid t := by
  refine ⟨hpos, heq, hle, fun k hk => ?_, fun hsaved => ?_, fun pc hpc => ?_, fun hforked => ?_, fun pc hpc => ?_⟩
  · unfold Thread.target at hk
    split at hk <;> cases hk <;> cases ht
  · unfold Thread.saved at hsaved
    split at hsaved <;> cases hsaved <;> cases ht
  · rw [hpc] at ht
    cases ht
  · rw [hforked] at ht
    cases ht
  · rw [hpc] at ht
    cases ht

/-- A thread that goes on in `ski_forkall_slave`. -/
theorem Slot.slave {forking simulate : Bool} {e e' : ForkallThread ρ} {tid : Int} {pc pc' : SlavePc}
    (h : Slot forking simulate i e tid (.slave pc)) (horiginal : e'.tidOriginal = e.tidOriginal)
    (htarget : ∀ k, (Thread.slave pc').target = some k → k = i)
    (henv : (Thread.slave pc').saved = true → e'.forkallEnv.isSome = true) :
    Slot forking simulate i e' tid (.slave pc') where
  tid_pos _ := h.tid_pos nofun
  original_eq _ := horiginal.trans (h.original_eq rfl)
  original_le := nofun
  target_eq := htarget
  env_some := henv
  forking_eq _ _ := h.forking_eq pc rfl
  simulate_eq := nofun
  not_restore := nofun

theorem ThreadRule.slot (hrule : ThreadRule p i t₀ t e mutex done)
    (h : Slot p.forkallForking p.parentSimulateChild i (p.forkallThreads i) (p.tid i) t₀) :
    Slot p.forkallForking p.parentSimulateChild i e (p.tid i) t := by
  cases hrule with
  | addLock hfree => exact slot_of_plain rfl (fun _ => h.tid_pos nofun) nofun fun _ => h.original_le rfl
  | addFind => exact slot_of_plain rfl (fun _ => h.tid_pos nofun) (fun _ => rfl) nofun
  | addUnlock => exact slot_of_plain rfl (fun _ => h.tid_pos nofun) (fun _ => h.original_eq rfl) nofun
  | enter hforking =>
    exact ⟨fun _ => h.tid_pos nofun, fun _ => h.original_eq rfl, nofun, nofun, nofun, fun _ _ => hforking, nofun, nofun⟩
  | find | copy => exact h.slave rfl (fun k hk => (Option.some.inj hk).symm) nofun
  | setjmp => exact h.slave rfl nofun fun _ => rfl
  | test | lock hfree | count | unlock => exact h.slave rfl nofun fun _ => h.env_some rfl
  | release hsimulate =>
    exact ⟨fun _ => h.tid_pos nofun, fun _ => h.original_eq rfl, nofun, nofun, fun _ => h.env_some rfl, nofun,
      fun _ => hsimulate, nofun⟩

/-- A rule is about a thread that is there and stays there, and keeps what identifies its entry. -/
theorem ThreadRule.entry (hrule : ThreadRule p i t₀ t e mutex done) :
    t₀ ≠ .absent ∧ t ≠ .absent ∧ e.tidRestore = (p.forkallThreads i).tidRestore
      ∧ e.threadOriginal = (p.forkallThreads i).threadOriginal
      ∧ (Entry i (p.forkallThreads i) → Entry i e) := by
  cases hrule <;> exact ⟨nofun, nofun, rfl, rfl, fun h => ⟨h.threadSeq_eq, h.stackMin_eq, h.stackMax_eq⟩⟩

theorem ThreadRule.table (hrule : ThreadRule p i (p.thread i) t e mutex done) (h : Parent p) :
    Table p.main p.threadCount (update p.forkallThreads i e) (update p.thread i t) p.tid := by
  obtain ⟨hold, hnew, hrestore, hname, hentry⟩ := hrule.entry
  have hlt := h.lt_initialized hold
  have hpresent : ∀ j, update p.thread i t j ≠ .absent ↔ p.thread j ≠ .absent := by
    intro j
    by_cases hj : j = i
    · subst hj
      rw [Function.update_self]
      exact iff_of_true hnew hold
    · rw [Function.update_of_ne hj]
  have htable := h.table
  refine ⟨htable.count_lt, htable.seq_eq, fun j hj => ?_, fun j hj => ?_, fun j hj => ?_, fun j => ?_,
    fun j k hj hk => ?_⟩
  · by_cases hji : j = i
    · subst hji
      rw [Function.update_self, hrestore]
      exact (htable.entry j hj).imp_left hentry
    · rw [Function.update_of_ne hji]
      exact htable.entry j hj
  · rw [Function.update_of_ne (by omega)]
    exact htable.blank j hj
  · by_cases hji : j = i
    · subst hji
      rw [Function.update_self, hname]
      exact htable.named j hj
    · rw [Function.update_of_ne hji]
      exact htable.named j hj
  · exact (hpresent j).trans (htable.present j)
  · exact htable.tid_inj j k ((hpresent j).mp hj) ((hpresent k).mp hk)

/-- A thread that hangs goes on when the parent simulates the child. -/
theorem ThreadRule.simulate (hrule : ThreadRule p i t₀ t e mutex done) (ht : t₀ = .slave .hang) :
    p.parentSimulateChild = true := by
  cases hrule <;> first | assumption | cases ht

theorem ThreadRule.done_eq (hrule : ThreadRule p i t₀ t e mutex done) :
    done + (if t₀.done then 1 else 0) = p.forkallThreadsDone + (if t.done then 1 else 0) := by
  cases hrule <;> rfl

theorem ThreadRule.counted (hrule : ThreadRule p i (p.thread i) t e mutex done) (h : Parent p) :
    Counted p.main p.threadCount done p.forkallForking p.parentSimulateChild (update p.thread i t) := by
  have hcounted := h.counted
  -- all threads hang only as long as nobody lets them go on
  have hhang : ∀ pc, p.main = .master pc → (∀ j < p.threadCount, p.thread j = .slave .hang) →
      ∀ j < p.threadCount, update p.thread i t j = .slave .hang := by
    intro pc hpc hall
    have hsimulate := hrule.simulate (hall i (h.lt_count hrule.entry.1))
    rw [hcounted.simulate_eq pc hpc] at hsimulate
    cases hsimulate
  refine ⟨?_, hcounted.forking_eq, hcounted.simulate_eq, fun d n hpc => ?_, fun d n hpc => ?_, fun hpc => ?_,
    hcounted.not_restore⟩
  · have hsum := countP_range_update p.thread Thread.done t (h.lt_count hrule.entry.1)
    have hrule_done := hrule.done_eq
    have hdone := hcounted.done_eq
    omega
  · obtain ⟨rfl, hall⟩ := hcounted.pollRead d n hpc
    exact ⟨rfl, fun hd => hhang _ hpc (hall hd)⟩
  · obtain ⟨rfl, hall⟩ := hcounted.polled d n hpc
    exact ⟨rfl, fun hd => hhang _ hpc (hall hd)⟩
  · exact hhang _ hpc (hcounted.fork hpc)

/-- **The step of a thread keeps the invariant.** -/
theorem Parent.put (h : Parent p) (hrule : ThreadRule p i (p.thread i) t e mutex done) :
    Parent (p.put i t e mutex done) where
  isChild_eq := h.isChild_eq
  guards := hrule.guards rfl h.guards
  slot := forall_update (P := fun j e t => Slot p.forkallForking p.parentSimulateChild j e (p.tid j) t) h.slot
    (hrule.slot (h.slot i))
  table := hrule.table h
  counted := hrule.counted h

end Rule

end Thread

end SkiVmm.Coop
