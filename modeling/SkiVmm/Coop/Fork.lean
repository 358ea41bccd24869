import SkiVmm.Coop.Parent

/-!
# `Coop.Fork` — what a child is

A child starts with the table of its parent and no threads. Its main thread starts them again one after the other, and
each of them copies back its stack and jumps to where it was (`Child`).

## Main results
- `Parent.keeps`, `Parent.run`: what a thread has saved stays as it is until the fork, over every step and run.
- `Parent.fork_safe`: when the main thread forks, every other thread hangs and the mutex is free.
- `Parent.child`: the child of a fork has the invariant `Child`, with the table of its parent.
- `Child.step`, `Child.run`: every step and run of a child keeps its invariant and the saved threads.
-/

namespace SkiVmm.Coop

open Lib
open Function (update)

variable {ρ : Type} {p q c : Process ρ} {i : Nat}

/-! ## Saved threads of the parent -/

/-- The copy of the stack is complete. -/
def Thread.copied : Thread → Bool
  | .slave (.setjmp _) => true
  | t => t.saved

theorem Thread.copied_of_saved {t : Thread} (ht : t.saved = true) : t.copied = true := by
  unfold Thread.copied
  split
  · rfl
  · exact ht

/-- What is saved of thread `i`. -/
structure Keeps (p q : Process ρ) (i : Nat) : Prop where
  copied : (p.thread i).copied = true →
    (q.thread i).copied = true ∧ (q.forkallThreads i).stack = (p.forkallThreads i).stack
  saved : (p.thread i).saved = true →
    (q.thread i).saved = true ∧ (q.forkallThreads i).forkallEnv = (p.forkallThreads i).forkallEnv

/-- A step that does not touch thread `i` and its copies. -/
theorem keeps_of_eq (ht : q.thread i = p.thread i)
    (hstack : (q.forkallThreads i).stack = (p.forkallThreads i).stack)
    (henv : (q.forkallThreads i).forkallEnv = (p.forkallThreads i).forkallEnv) : Keeps p q i :=
  ⟨fun h => ⟨ht ▸ h, hstack⟩, fun h => ⟨ht ▸ h, henv⟩⟩

theorem keeps_refl (p : Process ρ) (i : Nat) : Keeps p p i := keeps_of_eq rfl rfl rfl

/-- Nothing is saved yet. -/
theorem keeps_of_not_copied (ht : (p.thread i).copied = false) : Keeps p q i := by
  refine ⟨fun hcopied => ?_, fun hsaved => ?_⟩
  · exact absurd hcopied (Bool.eq_false_iff.mp ht)
  · exact absurd (Thread.copied_of_saved hsaved) (Bool.eq_false_iff.mp ht)

theorem ThreadRule.keeps {t : Thread} {e : ForkallThread ρ} {mutex : Option Owner} {done : Nat}
    (hrule : ThreadRule p i (p.thread i) t e mutex done) (j : Nat) : Keeps p (p.put i t e mutex done) j := by
  by_cases hj : j = i
  · subst hj
    generalize ht : p.thread j = t₀ at hrule
    constructor <;> rw [ht, Process.put_thread, Process.put_forkallThreads] <;> intro hold
    · cases hrule <;> first | exact ⟨rfl, rfl⟩ | cases hold
    · cases hrule <;> first | exact ⟨rfl, rfl⟩ | cases hold
  · have hthread : (p.put i t e mutex done).thread j = p.thread j := Function.update_of_ne hj ..
    have hentry : (p.put i t e mutex done).forkallThreads j = p.forkallThreads j := Function.update_of_ne hj ..
    exact keeps_of_eq hthread (by rw [hentry]) (by rw [hentry])

theorem MainRule.keeps {tid : Int} {image : Nat → UInt8} (hrule : MainRule p tid image p.main q) (h : Parent p)
    (j : Nat) : Keeps p q j := by
  generalize hmain : p.main = main at hrule
  have htable := h.table
  rw [hmain] at htable
  cases hrule with
  | fillIn seq =>
    have hcount := htable.seq_eq seq rfl
    by_cases hj : j = seq
    · have habsent := h.absent_of_created_le (i := j) (by rw [hmain, hcount, hj]; exact Nat.le_refl _)
      exact keeps_of_not_copied (congrArg Thread.copied habsent)
    · refine keeps_of_eq rfl ?_ ?_ <;> simp only [Function.update_of_ne hj]
  | start seq =>
    have hcount := htable.seq_eq seq rfl
    by_cases hj : j = seq
    · have habsent := h.absent_of_created_le (i := j) (by rw [hmain, hcount, hj]; exact Nat.le_refl _)
      exact keeps_of_not_copied (congrArg Thread.copied habsent)
    · exact keeps_of_eq (Function.update_of_ne hj ..) rfl rfl
  | name seq =>
    by_cases hj : j = seq
    · subst hj
      refine keeps_of_eq rfl ?_ ?_ <;> simp only [Function.update_self]
    · refine keeps_of_eq rfl ?_ ?_ <;> simp only [Function.update_of_ne hj]
  | restore i hlt => exact absurd hmain (h.counted.not_restore i)
  | createLock | count | createUnlock | requestLock | request | requestUnlock | pollLock | pollRead | pollUnlock | ready
  | again | forked | restored => exact keeps_of_eq rfl rfl rfl

/-- **What is saved stays as it is.** -/
theorem Parent.keeps (h : Parent p) {a : Action ρ} (ha : Possible p a) (hstep : Coop.step p a = .ok q) (j : Nat) :
    Keeps p q j := by
  cases a with
  | pthreadCreate | forkallMaster | simulateChild | work i regs image =>
    cases hstep
    exact keeps_of_eq rfl rfl rfl
  | main tid image => exact (mainRule_of_step hstep).keeps h j
  | forkallSlave i =>
    have houtside : p.thread i = .outside := ha
    cases hstep
    unfold skiForkallSlaveEnter
    split
    · exact keeps_refl p j
    · by_cases hj : j = i
      · subst hj
        exact keeps_of_not_copied (congrArg Thread.copied houtside)
      · exact keeps_of_eq (Function.update_of_ne hj ..) rfl rfl
  | thread i dummy =>
    obtain ⟨t, e, mutex, done, hrule, rfl⟩ := h.rule_of_step ha hstep
    exact hrule.keeps j

theorem Keeps.trans {r : Process ρ} (h : Keeps p q i) (h' : Keeps q r i) : Keeps p r i where
  copied hcopied := by
    obtain ⟨hcopied', hstack⟩ := h.copied hcopied
    obtain ⟨hcopied'', hstack'⟩ := h'.copied hcopied'
    exact ⟨hcopied'', hstack'.trans hstack⟩
  saved hsaved := by
    obtain ⟨hsaved', henv⟩ := h.saved hsaved
    obtain ⟨hsaved'', henv'⟩ := h'.saved hsaved'
    exact ⟨hsaved'', henv'.trans henv⟩

/-- **A run of the first process.** -/
theorem Parent.run (h : Parent p) {as : List (Action ρ)} (hrun : Run Coop.step Possible p as q) :
    Parent q ∧ ∀ i, Keeps p q i := by
  refine hrun.invariant (P := fun q => Parent q ∧ ∀ i, Keeps p q i) ?_ ⟨h, keeps_refl p⟩
  rintro s a t ⟨hs, hkeeps⟩ ha hstep
  exact ⟨hs.step ha hstep, fun i => (hkeeps i).trans (hs.keeps ha hstep i)⟩

/-! ## The fork -/

/-- What a fork finds. -/
theorem Parent.fork_safe (h : Parent p) (hmain : p.main = .master .fork) :
    p.forkallMutex = none ∧ ∀ i < p.threadCount, p.thread i = .slave .hang := by
  have hhang := h.counted.fork hmain
  refine ⟨h.guards.eq_none fun o => ?_, hhang⟩
  cases o with
  | main =>
    show p.main.holding = false
    rw [hmain]
    rfl
  | slot i =>
    show (p.thread i).holding = false
    by_cases hi : i < p.threadCount
    · rw [hhang i hi]
      rfl
    · have hcreated : p.main.created p.threadCount = p.threadCount := by
        rw [hmain]
        rfl
      rw [h.absent_of_created_le (by omega)]
      rfl

/-! ## The child -/

/-- How many threads the child has started again. -/
def Main.restarted (count : Nat) : Main → Nat
  | .master (.restore i) => i
  | _ => count

/-- A thread of a child, which is started again or goes on. -/
structure Revived (memory : Nat → UInt8) (i : Nat) (e : ForkallThread ρ) (tid : Int) (regs : ρ) (t : Thread) :
    Prop where
  entry : Entry i e
  named : e.threadOriginal = pthreadOf i
  env_some : e.forkallEnv.isSome = true
  shape : t = .absent ∨ t = .forked ∨ ∃ pc, t = .restore pc
  tid_pos : t ≠ .absent → 0 < tid
  restore_eq : e.tidRestore = if t = .absent ∨ t = .restore .tid then -1 else tid
  stack_eq : t = .restore .registers ∨ t = .restore .resumed →
    ∀ n < forkallThreadStackSize, memory (stackBase i + n) = e.stack n
  regs_eq : t = .restore .resumed → e.forkallEnv = some regs

/-- **The invariant of a child.** -/
structure Child (p : Process ρ) : Prop where
  isChild_eq : p.isChild = true
  mutex_eq : p.forkallMutex = none
  main_eq : p.main = .outside ∨ ∃ k ≤ p.threadCount, p.main = .master (.restore k)
  present : ∀ i, p.thread i ≠ .absent ↔ i < p.main.restarted p.threadCount
  revived : ∀ i < p.threadCount, Revived p.memory i (p.forkallThreads i) (p.tid i) (p.regs i) (p.thread i)

/-- **The child of a fork**, with the table of its parent. -/
theorem Parent.child (h : Parent p) (hfork : p.fork = some c) :
    Child c ∧ c.forkallThreads = p.forkallThreads ∧ c.threadCount = p.threadCount := by
  unfold Process.fork at hfork
  split at hfork
  · next hmain =>
    obtain ⟨hmutex, hhang⟩ := h.fork_safe hmain
    have htable := h.table
    rw [hmain] at htable
    cases hfork
    refine ⟨⟨rfl, hmutex, .inr ⟨0, Nat.zero_le _, rfl⟩,
      fun i => iff_of_false (fun hne => hne rfl) (Nat.not_lt_zero i), fun i hi => ?_⟩, rfl, rfl⟩
    obtain ⟨hentry, hrestore⟩ := htable.entry i hi
    refine ⟨hentry, htable.named i hi, (h.slot i).env_some ?_, .inl rfl, fun hne => absurd rfl hne,
      hrestore.trans (if_pos (.inl rfl)).symm, fun heq => ?_, nofun⟩
    · rw [hhang i hi]
      rfl
    · rcases heq with heq | heq <;> cases heq
  · cases hfork

/-! ### Stacks -/

theorem fill_stack_self (memory image : Nat → UInt8) (i : Nat) {n : Nat} (hn : n < forkallThreadStackSize) :
    fill memory (stackBase i) forkallThreadStackSize image (stackBase i + n) = image n := by
  unfold fill
  rw [if_pos (by omega), Nat.add_sub_cancel_left]

/-- The stack of another thread. -/
theorem fill_stack_of_ne (memory image : Nat → UInt8) {i j : Nat} (hij : i ≠ j) {n : Nat}
    (hn : n < forkallThreadStackSize) :
    fill memory (stackBase j) forkallThreadStackSize image (stackBase i + n) = memory (stackBase i + n) := by
  unfold fill
  refine if_neg fun hmem => ?_
  rcases Nat.lt_or_gt_of_ne hij with hlt | hgt
  · have := stackBase_add_size_le hlt
    omega
  · have := stackBase_add_size_le hgt
    omega

/-- A thread whose own stack nobody has written. -/
theorem Revived.congr_memory {memory memory' : Nat → UInt8} {e : ForkallThread ρ} {tid : Int} {regs : ρ} {t : Thread}
    (h : Revived memory i e tid regs t)
    (hmemory : ∀ n < forkallThreadStackSize, memory' (stackBase i + n) = memory (stackBase i + n)) :
    Revived memory' i e tid regs t :=
  ⟨h.entry, h.named, h.env_some, h.shape, h.tid_pos, h.restore_eq,
    fun ht n hn => (hmemory n hn).trans (h.stack_eq ht n hn), h.regs_eq⟩

/-! ### Every step of a child -/

/-- What a child does not change. -/
structure SameImages (p q : Process ρ) : Prop where
  count_eq : q.threadCount = p.threadCount
  stack_eq : ∀ i, (q.forkallThreads i).stack = (p.forkallThreads i).stack
  env_eq : ∀ i, (q.forkallThreads i).forkallEnv = (p.forkallThreads i).forkallEnv

theorem sameImages_refl (p : Process ρ) : SameImages p p := ⟨rfl, fun _ => rfl, fun _ => rfl⟩

theorem SameImages.trans {r : Process ρ} (h : SameImages p q) (h' : SameImages q r) : SameImages p r :=
  ⟨h'.count_eq.trans h.count_eq, fun i => (h'.stack_eq i).trans (h.stack_eq i),
    fun i => (h'.env_eq i).trans (h.env_eq i)⟩

theorem Child.lt_count (h : Child p) (hi : p.thread i ≠ .absent) : i < p.threadCount := by
  have hlt := (h.present i).mp hi
  rcases h.main_eq with hmain | ⟨k, hk, hmain⟩
  · rw [hmain] at hlt
    exact hlt
  · rw [hmain] at hlt
    exact Nat.lt_of_lt_of_le hlt hk

/-- The main thread starts the next thread, or is through. -/
theorem Child.main (h : Child p) {tid : Int} {image : Nat → UInt8} (htid : 0 < tid)
    (hrule : MainRule p tid image p.main q) : Child q ∧ SameImages p q := by
  rcases h.main_eq with hmain | ⟨k, hk, hmain⟩
  · rw [hmain] at hrule
    cases hrule
  · have hpresent := h.present
    rw [hmain] at hrule hpresent
    cases hrule with
    | restore _ hlt =>
      have habsent : p.thread k = .absent := by
        by_contra hne
        exact Nat.lt_irrefl k ((hpresent k).mp hne)
      refine ⟨⟨h.isChild_eq, h.mutex_eq, .inr ⟨k + 1, hlt, rfl⟩, fun i => ?_, fun i hi => ?_⟩, rfl, fun _ => rfl,
        fun _ => rfl⟩
      · show update p.thread k (.restore .tid) i ≠ .absent ↔ i < k + 1
        by_cases hik : i = k
        · rw [hik, Function.update_self]
          refine iff_of_true (fun habs => ?_) (Nat.lt_succ_self k)
          cases habs
        · rw [Function.update_of_ne hik, hpresent]
          show i < k ↔ i < k + 1
          omega
      · have hrevived := h.revived i hi
        simp only [skiCreateThreadCustomStack, (h.revived k hlt).entry.threadSeq_eq]
        by_cases hik : i = k
        · subst hik
          rw [habsent] at hrevived
          rw [Function.update_self, Function.update_self]
          refine ⟨hrevived.entry, hrevived.named, hrevived.env_some, .inr (.inr ⟨_, rfl⟩), fun _ => htid,
            hrevived.restore_eq, fun ht => ?_, fun ht => ?_⟩
          · rcases ht with ht | ht <;> cases ht
          · cases ht
        · rw [Function.update_of_ne hik, Function.update_of_ne hik]
          exact hrevived.congr_memory fun n hn => fill_stack_of_ne p.memory image hik hn
    | restored _ hge =>
      have hall : k = p.threadCount := Nat.le_antisymm hk hge
      refine ⟨⟨h.isChild_eq, h.mutex_eq, .inl rfl, fun i => ?_, h.revived⟩, rfl, fun _ => rfl, fun _ => rfl⟩
      rw [hpresent]
      show i < k ↔ i < p.threadCount
      rw [hall]

/-- Thread `i` goes on, on its own stack. -/
theorem Child.revive (h : Child p) (hi : p.thread i ≠ .absent) (e : ForkallThread ρ) (memory : Nat → UInt8) (regs : ρ)
    {t : Thread} (ht : t ≠ .absent) (hstack : e.stack = (p.forkallThreads i).stack)
    (henv : e.forkallEnv = (p.forkallThreads i).forkallEnv) (hrevived : Revived memory i e (p.tid i) regs t)
    (hmemory : ∀ j ≠ i, ∀ n < forkallThreadStackSize, memory (stackBase j + n) = p.memory (stackBase j + n))
    (hq : q = { p with
      forkallThreads := update p.forkallThreads i e, memory := memory, regs := update p.regs i regs
      thread := update p.thread i t }) :
    Child q ∧ SameImages p q := by
  subst hq
  refine ⟨⟨h.isChild_eq, h.mutex_eq, h.main_eq, fun j => ?_, fun j hj => ?_⟩, rfl, fun j => ?_, fun j => ?_⟩
  · refine Iff.trans ?_ (h.present j)
    by_cases hji : j = i
    · simp only [hji, Function.update_self]
      exact iff_of_true ht hi
    · simp only [Function.update_of_ne hji]
  · by_cases hji : j = i
    · subst hji
      simpa only [Function.update_self] using hrevived
    · simp only [Function.update_of_ne hji]
      exact (h.revived j hj).congr_memory (hmemory j hji)
  all_goals
    by_cases hji : j = i
    · subst hji
      simpa only [Function.update_self]
    · simp only [Function.update_of_ne hji]

/-- The threads of a child that can go on are the ones it starts again, and their registers are in the table. -/
theorem Child.restoring (h : Child p) (dummy : Nat) :
    threadStep p i dummy = .error .blocked ∨
      ∃ pc regs, p.thread i = .restore pc ∧ (p.forkallThreads i).forkallEnv = some regs := by
  unfold threadStep
  by_cases hpresent : p.thread i = .absent
  · rw [hpresent]
    exact .inl rfl
  have hrevived := h.revived i (h.lt_count hpresent)
  rcases hrevived.shape with ht | ht | ⟨pc, ht⟩
  · exact absurd ht hpresent
  · rw [ht]
    exact .inl rfl
  · obtain ⟨regs, henv⟩ := Option.isSome_iff_exists.mp hrevived.env_some
    exact .inr ⟨pc, regs, ht, henv⟩

/-- A thread that is started again goes on. -/
theorem Child.thread (h : Child p) {dummy : Nat} (hstep : threadStep p i dummy = .ok q) : Child q ∧ SameImages p q := by
  have hself : update p.forkallThreads i (p.forkallThreads i) = p.forkallThreads := Function.update_eq_self _ _
  have hregs : update p.regs i (p.regs i) = p.regs := Function.update_eq_self _ _
  rcases h.restoring (i := i) dummy with hblocked | ⟨pc, regs, ht, henv⟩
  · cases hblocked.symm.trans hstep
  · have hpresent : p.thread i ≠ .absent := by
      rw [ht]
      nofun
    have hrevived := h.revived i (h.lt_count hpresent)
    unfold threadStep at hstep
    rw [ht] at hstep hrevived
    have hpos := hrevived.tid_pos nofun
    cases pc with
    | tid =>
      cases hstep
      refine h.revive hpresent { p.forkallThreads i with tidRestore := p.tid i } p.memory (p.regs i)
        (t := .restore .stack) nofun rfl rfl
        ⟨⟨hrevived.entry.threadSeq_eq, hrevived.entry.stackMin_eq, hrevived.entry.stackMax_eq⟩, hrevived.named,
          hrevived.env_some, .inr (.inr ⟨_, rfl⟩), fun _ => hpos, rfl, fun heq => ?_, nofun⟩ (fun _ _ _ _ => rfl)
        (by rw [hregs])
      rcases heq with heq | heq <;> cases heq
    | stack =>
      cases hstep
      refine h.revive hpresent (p.forkallThreads i)
        (fill p.memory (stackBase i) forkallThreadStackSize (p.forkallThreads i).stack) (p.regs i)
        (t := .restore .registers) nofun rfl rfl
        ⟨hrevived.entry, hrevived.named, hrevived.env_some, .inr (.inr ⟨_, rfl⟩), fun _ => hpos, hrevived.restore_eq,
          fun _ n hn => fill_stack_self p.memory _ i hn, nofun⟩
        (fun j hj n hn => fill_stack_of_ne p.memory _ hj hn) ?_
      rw [hself, hregs, hrevived.entry.stackMin_eq]
    | registers =>
      simp only [skiForkallThreadRestore, henv] at hstep
      cases hstep
      exact h.revive hpresent (p.forkallThreads i) p.memory regs (t := .restore .resumed) nofun rfl rfl
        ⟨hrevived.entry, hrevived.named, hrevived.env_some, .inr (.inr ⟨_, rfl⟩), fun _ => hpos, hrevived.restore_eq,
          fun _ => hrevived.stack_eq (.inl rfl), fun _ => henv⟩ (fun _ _ _ _ => rfl) (by rw [hself])
    | resumed =>
      cases hstep
      refine h.revive hpresent (p.forkallThreads i) p.memory (p.regs i) (t := .forked) nofun rfl rfl
        ⟨hrevived.entry, hrevived.named, hrevived.env_some, .inr (.inl rfl), fun _ => hpos, hrevived.restore_eq,
          fun heq => ?_, nofun⟩ (fun _ _ _ _ => rfl) (by rw [hself, hregs])
      rcases heq with heq | heq <;> cases heq

/-- **Every step keeps the invariant of a child**, and the saved threads. -/
theorem Child.step (h : Child p) {a : Action ρ} (ha : Possible p a) (hstep : Coop.step p a = .ok q) :
    Child q ∧ SameImages p q := by
  have hchild := h.isChild_eq
  cases a with
  | pthreadCreate | forkallMaster | simulateChild =>
    exfalso
    simp only [Possible, hchild] at ha
    simp at ha
  | main tid image => exact h.main ha.1 (mainRule_of_step hstep)
  | forkallSlave i =>
    have houtside : p.thread i = .outside := ha
    have hi := h.lt_count (i := i) (by rw [houtside]; nofun)
    rcases (h.revived i hi).shape with ht | ht | ⟨pc, ht⟩ <;> rw [houtside] at ht <;> cases ht
  | thread i dummy => exact h.thread hstep
  | work i regs image =>
    have hworks : (p.thread i).works = true := ha
    cases hstep
    refine ⟨⟨h.isChild_eq, h.mutex_eq, h.main_eq, h.present, fun j hj => ?_⟩, rfl, fun _ => rfl, fun _ => rfl⟩
    have hrevived := h.revived j hj
    by_cases hji : j = i
    · subst hji
      refine ⟨hrevived.entry, hrevived.named, hrevived.env_some, hrevived.shape, hrevived.tid_pos, hrevived.restore_eq,
        fun ht => ?_, fun ht => ?_⟩
      · exfalso
        rcases ht with ht | ht <;> rw [ht] at hworks <;> cases hworks
      · rw [ht] at hworks
        cases hworks
    · simp only [Function.update_of_ne hji]
      exact hrevived.congr_memory fun n hn => fill_stack_of_ne p.memory image hji hn

/-- **A run of a child.** -/
theorem Child.run (h : Child p) {as : List (Action ρ)} (hrun : Run Coop.step Possible p as q) :
    Child q ∧ SameImages p q := by
  refine hrun.invariant (P := fun q => Child q ∧ SameImages p q) ?_ ⟨h, sameImages_refl p⟩
  rintro s a t ⟨hs, himages⟩ ha hstep
  obtain ⟨ht, himages'⟩ := hs.step ha hstep
  exact ⟨ht, himages.trans himages'⟩

end SkiVmm.Coop
