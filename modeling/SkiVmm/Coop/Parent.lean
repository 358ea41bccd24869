import SkiVmm.Coop.Invariant

/-!
# `Coop.Parent` — the main thread of the first process

The steps of `ski_forkall_pthread_create` and of `ski_forkall_master` keep the invariant, and with them every step of
the first process does (`Parent.step`). The one place where the main thread draws a conclusion is `Parent.hang_of_done`:
when it holds the mutex and reads that all threads are done, all of them hang.
-/

namespace SkiVmm.Coop

open Lib
open Function (update)

variable {ρ : Type}

/-! ## The rules -/

/-- **The rules for the main thread**, from the place where it is to the process after the step. -/
inductive MainRule (p : Process ρ) (tid : Int) (image : Nat → UInt8) : Main → Process ρ → Prop where
  | createLock (hfree : p.forkallMutex = none) :
    MainRule p tid image (.create .lock) { p with forkallMutex := some .main, main := .create .locked }
  | count (hlt : p.threadCount + 1 < forkallMaxThreads) :
    MainRule p tid image (.create .locked)
      { p with threadCount := p.threadCount + 1, main := .create (.counted p.threadCount) }
  | createUnlock (seq : Nat) :
    MainRule p tid image (.create (.counted seq)) { p with forkallMutex := none, main := .create (.unlocked seq) }
  | fillIn (seq : Nat) :
    MainRule p tid image (.create (.unlocked seq))
      { p with forkallThreads := update p.forkallThreads seq (.new seq), main := .create (.initialized seq) }
  | start (seq : Nat) :
    MainRule p tid image (.create (.initialized seq))
      { skiCreateThreadCustomStack p seq (.add .lock) tid image with main := .create (.created seq) }
  | name (seq : Nat) :
    MainRule p tid image (.create (.created seq))
      { p with
        forkallThreads :=
          update p.forkallThreads seq { p.forkallThreads seq with threadOriginal := pthreadOf seq }
        main := .outside }
  | requestLock (hfree : p.forkallMutex = none) :
    MainRule p tid image (.master .lock) { p with forkallMutex := some .main, main := .master .locked }
  | request : MainRule p tid image (.master .locked) { p with forkallForking := true, main := .master .requested }
  | requestUnlock : MainRule p tid image (.master .requested) { p with forkallMutex := none, main := .master .poll }
  | pollLock (hfree : p.forkallMutex = none) :
    MainRule p tid image (.master .poll) { p with forkallMutex := some .main, main := .master .pollLocked }
  | pollRead :
    MainRule p tid image (.master .pollLocked)
      { p with main := .master (.pollRead p.forkallThreadsDone p.threadCount) }
  | pollUnlock (d n : Nat) :
    MainRule p tid image (.master (.pollRead d n)) { p with forkallMutex := none, main := .master (.polled d n) }
  | ready (n : Nat) : MainRule p tid image (.master (.polled n n)) { p with main := .master .fork }
  | again (d n : Nat) (hne : d ≠ n) : MainRule p tid image (.master (.polled d n)) { p with main := .master .poll }
  | forked : MainRule p tid image (.master .fork) { p with main := .outside }
  | restore (i : Nat) (hlt : i < p.threadCount) :
    MainRule p tid image (.master (.restore i))
      { skiCreateThreadCustomStack p i (.restore .tid) tid image with main := .master (.restore (i + 1)) }
  | restored (i : Nat) (hge : p.threadCount ≤ i) :
    MainRule p tid image (.master (.restore i)) { p with main := .outside }

/-- **The rules are all that the main thread does**, unless the table is full. -/
theorem mainStep_eq (p : Process ρ) (tid : Int) (image : Nat → UInt8) :
    mainStep p tid image = .error .blocked
      ∨ mainStep p tid image = .error .assertion ∧ p.main = .create .locked ∧ forkallMaxThreads ≤ p.threadCount + 1
      ∨ ∃ q, MainRule p tid image p.main q ∧ mainStep p tid image = .ok q := by
  unfold mainStep
  cases p.main with
  | outside => exact .inl rfl
  | create pc =>
    cases pc with
    | lock =>
      rcases p.lock_eq .main with hblocked | ⟨hfree, hok⟩
      · simp only [skiForkallPthreadCreate, hblocked, error_bind, true_or]
      · refine .inr (.inr ⟨_, .createLock hfree, ?_⟩)
        simp only [skiForkallPthreadCreate, hok, ok_bind]
        rfl
    | locked =>
      by_cases hlt : p.threadCount + 1 < forkallMaxThreads
      · exact .inr (.inr ⟨_, .count hlt, if_pos hlt⟩)
      · exact .inr (.inl ⟨if_neg hlt, rfl, Nat.le_of_not_lt hlt⟩)
    | counted seq => exact .inr (.inr ⟨_, .createUnlock seq, rfl⟩)
    | unlocked seq => exact .inr (.inr ⟨_, .fillIn seq, rfl⟩)
    | initialized seq => exact .inr (.inr ⟨_, .start seq, rfl⟩)
    | created seq => exact .inr (.inr ⟨_, .name seq, rfl⟩)
  | master pc =>
    cases pc with
    | lock =>
      rcases p.lock_eq .main with hblocked | ⟨hfree, hok⟩
      · simp only [skiForkallMaster, hblocked, error_bind, true_or]
      · refine .inr (.inr ⟨_, .requestLock hfree, ?_⟩)
        simp only [skiForkallMaster, hok, ok_bind]
        rfl
    | locked => exact .inr (.inr ⟨_, .request, rfl⟩)
    | requested => exact .inr (.inr ⟨_, .requestUnlock, rfl⟩)
    | poll =>
      rcases p.lock_eq .main with hblocked | ⟨hfree, hok⟩
      · simp only [skiForkallMaster, hblocked, error_bind, true_or]
      · refine .inr (.inr ⟨_, .pollLock hfree, ?_⟩)
        simp only [skiForkallMaster, hok, ok_bind]
        rfl
    | pollLocked => exact .inr (.inr ⟨_, .pollRead, rfl⟩)
    | pollRead d n => exact .inr (.inr ⟨_, .pollUnlock d n, rfl⟩)
    | polled d n =>
      by_cases hd : d = n
      · subst hd
        exact .inr (.inr ⟨_, .ready d, if_pos rfl⟩)
      · exact .inr (.inr ⟨_, .again d n hd, if_neg hd⟩)
    | fork => exact .inr (.inr ⟨_, .forked, rfl⟩)
    | restore i =>
      by_cases hlt : i < p.threadCount
      · exact .inr (.inr ⟨_, .restore i hlt, if_pos hlt⟩)
      · exact .inr (.inr ⟨_, .restored i (Nat.le_of_not_lt hlt), if_neg hlt⟩)

theorem mainRule_of_step {p q : Process ρ} {tid : Int} {image : Nat → UInt8}
    (hstep : step p (.main tid image) = .ok q) : MainRule p tid image p.main q := by
  rcases mainStep_eq p tid image with hblocked | ⟨hfull, -⟩ | ⟨q', hrule, hok⟩
  · cases hblocked.symm.trans hstep
  · cases hfull.symm.trans hstep
  · cases hok.symm.trans hstep
    exact hrule

/-! ## The table -/

/-- The main thread has moved on, and the table is as full as before. -/
theorem Table.move {main main' : Main} {count : Nat} {entries : Nat → ForkallThread ρ} {thread : Nat → Thread}
    {tid : Nat → Int} (h : Table main count entries thread tid)
    (hinitialized : main'.initialized count = main.initialized count)
    (hcreated : main'.created count = main.created count) (hnamed : main'.named count = main.named count)
    (hseq : ∀ seq, main'.seq = some seq → count = seq + 1) : Table main' count entries thread tid where
  count_lt := h.count_lt
  seq_eq := hseq
  entry := by
    rw [hinitialized]
    exact h.entry
  blank := by
    rw [hinitialized]
    exact h.blank
  named := by
    rw [hnamed]
    exact h.named
  present := by
    rw [hcreated]
    exact h.present
  tid_inj := h.tid_inj

section Fill
variable {seq count : Nat} {entries : Nat → ForkallThread ρ} {thread : Nat → Thread} {tid : Nat → Int}

/-- The new entry is initialized. -/
theorem Table.fillIn (h : Table (.create (.unlocked seq)) count entries thread tid) :
    Table (.create (.initialized seq)) count (update entries seq (.new seq)) thread tid := by
  have hcount := h.seq_eq seq rfl
  refine ⟨h.count_lt, h.seq_eq, fun i hi => ?_, fun i hi => ?_, fun i hi => ?_, h.present, h.tid_inj⟩
  · change i < count at hi
    by_cases heq : i = seq
    · subst heq
      rw [Function.update_self]
      exact ⟨⟨rfl, rfl, rfl⟩, rfl⟩
    · rw [Function.update_of_ne heq]
      exact h.entry i (show i < count - 1 by omega)
  · change count ≤ i at hi
    rw [Function.update_of_ne (by omega)]
    exact h.blank i (show count - 1 ≤ i by omega)
  · change i < count - 1 at hi
    rw [Function.update_of_ne (by omega)]
    exact h.named i hi

/-- Its thread is started, with an id that no other thread has. -/
theorem Table.started (h : Table (.create (.initialized seq)) count entries thread tid) {t : Thread}
    (ht : t ≠ .absent) {new : Int} (hnew : ∀ i < count, thread i ≠ .absent → tid i ≠ new) :
    Table (.create (.created seq)) count entries (update thread seq t) (update tid seq new) := by
  have hcount := h.seq_eq seq rfl
  refine ⟨h.count_lt, h.seq_eq, h.entry, h.blank, h.named, fun i => ?_, fun i j hi hj hij => ?_⟩
  · show _ ↔ i < count
    by_cases heq : i = seq
    · subst heq
      rw [Function.update_self]
      exact iff_of_true ht (by omega)
    · rw [Function.update_of_ne heq, h.present]
      show i < count - 1 ↔ i < count
      omega
  · have hold : ∀ {k}, k ≠ seq → update thread seq t k ≠ .absent → tid k ≠ new := by
      intro k hk hpresent
      rw [Function.update_of_ne hk] at hpresent
      have hlt : k < count - 1 := (h.present k).mp hpresent
      exact hnew k (by omega) hpresent
    by_cases hi' : i = seq <;> by_cases hj' : j = seq
    · rw [hi', hj']
    · rw [hi', Function.update_self, Function.update_of_ne hj'] at hij
      exact absurd hij.symm (hold hj' hj)
    · rw [hj', Function.update_self, Function.update_of_ne hi'] at hij
      exact absurd hij (hold hi' hi)
    · rw [Function.update_of_ne hi', Function.update_of_ne hj'] at hij
      rw [Function.update_of_ne hi'] at hi
      rw [Function.update_of_ne hj'] at hj
      exact h.tid_inj i j hi hj hij

/-- Its entry gets the `pthread_t`. -/
theorem Table.nameIt (h : Table (.create (.created seq)) count entries thread tid) :
    Table .outside count (update entries seq { entries seq with threadOriginal := pthreadOf seq }) thread tid := by
  have hcount := h.seq_eq seq rfl
  refine ⟨h.count_lt, nofun, fun i hi => ?_, fun i hi => ?_, fun i hi => ?_, h.present, h.tid_inj⟩
  · have hentry := h.entry i hi
    by_cases heq : i = seq
    · subst heq
      rw [Function.update_self]
      exact ⟨⟨hentry.1.threadSeq_eq, hentry.1.stackMin_eq, hentry.1.stackMax_eq⟩, hentry.2⟩
    · rwa [Function.update_of_ne heq]
  · change count ≤ i at hi
    rw [Function.update_of_ne (by omega)]
    exact h.blank i hi
  · change i < count at hi
    by_cases heq : i = seq
    · subst heq
      rw [Function.update_self]
    · rw [Function.update_of_ne heq]
      exact h.named i (show i < count - 1 by omega)

end Fill

/-- Other fields of the entry have changed. -/
theorem Slot.congr {forking simulate : Bool} {i : Nat} {e e' : ForkallThread ρ} {tid : Int} {t : Thread}
    (h : Slot forking simulate i e tid t) (horiginal : e'.tidOriginal = e.tidOriginal)
    (henv : e'.forkallEnv = e.forkallEnv) : Slot forking simulate i e' tid t where
  tid_pos := h.tid_pos
  original_eq := horiginal ▸ h.original_eq
  original_le := horiginal ▸ h.original_le
  target_eq := h.target_eq
  env_some := henv ▸ h.env_some
  forking_eq := h.forking_eq
  simulate_eq := h.simulate_eq
  not_restore := h.not_restore

/-- An entry that has no thread. -/
theorem slot_absent {forking simulate : Bool} {i : Nat} {e : ForkallThread ρ} {tid : Int} (h : e.tidOriginal ≤ 0) :
    Slot forking simulate i e tid .absent :=
  slot_of_plain rfl (fun hpresent => absurd rfl hpresent) nofun fun _ => h

/-- The main thread is not in `ski_forkall_master`. -/
theorem counted_of_not_master {main : Main} {count done : Nat} {forking simulate : Bool} {thread : Nat → Thread}
    (hmain : ∀ pc, main ≠ .master pc) (hdone : done = (List.range count).countP fun i => (thread i).done) :
    Counted main count done forking simulate thread :=
  ⟨hdone, fun pc hpc => absurd hpc (hmain pc), fun pc hpc => absurd hpc (hmain pc), fun _ _ hpc => absurd hpc (hmain _),
    fun _ _ hpc => absurd hpc (hmain _), fun hpc => absurd hpc (hmain _), fun _ => hmain _⟩

/-- The main thread waits in `ski_forkall_master`. -/
theorem counted_of_waiting {pc : MasterPc} {count done : Nat} {forking simulate : Bool} {thread : Nat → Thread}
    (hpc : pc = .lock ∨ pc = .locked ∨ (pc = .requested ∨ pc = .poll ∨ pc = .pollLocked) ∧ forking = true)
    (hsimulate : simulate = false) (hdone : done = (List.range count).countP fun i => (thread i).done) :
    Counted (.master pc) count done forking simulate thread := by
  refine ⟨hdone, fun pc' heq => ?_, fun _ _ => hsimulate, fun d n heq => ?_, fun d n heq => ?_, fun heq => ?_,
    fun i heq => ?_⟩
  · rw [← Main.master.inj heq]
    exact hpc.imp id (Or.imp id And.right)
  all_goals
    rw [Main.master.inj heq] at hpc
    simp at hpc

/-! ## The steps of the main thread -/

section Main
variable {p q : Process ρ} {tid : Int} {image : Nat → UInt8}

theorem Parent.lockMain (h : Parent p) {main : Main} (hmain : main.holding = true) (hfree : p.forkallMutex = none) :
    Guards (holding main p.thread) (some .main) := by
  have hguards := h.guards
  rw [hfree] at hguards
  rw [holding_main p.main, hmain]
  exact hguards.acquire .main

theorem Parent.unlockMain (h : Parent p) {main : Main} (hold : p.main.holding = true) (hmain : main.holding = false) :
    Guards (holding main p.thread) none := by
  rw [holding_main p.main, hmain]
  exact h.guards.release hold

theorem Parent.moveMain (h : Parent p) {main : Main} (hmain : main.holding = p.main.holding) :
    Guards (holding main p.thread) p.forkallMutex := by
  rw [holding_main p.main, hmain]
  exact h.guards.move rfl

/-- The entry that the main thread is filling has no thread yet. -/
theorem Parent.absent_of_created_le (h : Parent p) {i : Nat} (hi : p.main.created p.threadCount ≤ i) :
    p.thread i = .absent := by
  by_contra hpresent
  have := (h.table.present i).mp hpresent
  omega

/-- **All threads are done**: none of them is still in the critical section, which the main thread holds, and none has
    been let go on. -/
theorem Parent.hang_of_done (h : Parent p) (hmain : p.main.holding = true) (hsimulate : p.parentSimulateChild = false)
    (hall : p.forkallThreadsDone = p.threadCount) {i : Nat} (hi : i < p.threadCount) : p.thread i = .slave .hang := by
  have hcount := h.counted.done_eq.symm.trans (hall.trans List.length_range.symm)
  have hdone := List.countP_eq_length.mp hcount i (List.mem_range.mpr hi)
  unfold Thread.done at hdone
  split at hdone
  · next hcounted =>
    have hholding : holding p.main p.thread (.slot i) = true := by
      show (p.thread i).holding = true
      rw [hcounted]
      rfl
    exact absurd (h.guards.exclusive (show holding p.main p.thread .main = true from hmain) hholding) nofun
  · next hhang => exact hhang
  · next hforked =>
    have := (h.slot i).simulate_eq hforked
    rw [hsimulate] at this
    cases this
  · cases hdone

theorem Parent.done_of_hang (h : Parent p) (hhang : ∀ i < p.threadCount, p.thread i = .slave .hang) :
    p.forkallThreadsDone = p.threadCount := by
  have hall : ∀ i ∈ List.range p.threadCount, (p.thread i).done = true := fun i hi => by
    rw [hhang i (List.mem_range.mp hi)]
    rfl
  rw [h.counted.done_eq, List.countP_eq_length.mpr hall, List.length_range]

/-- **The step of the main thread keeps the invariant.** -/
theorem Parent.main (h : Parent p) (htid : 0 < tid) (hnew : ∀ i < p.threadCount, p.thread i ≠ .absent → p.tid i ≠ tid)
    (hrule : MainRule p tid image p.main q) : Parent q := by
  generalize hmain : p.main = main at hrule
  have htable := h.table
  have hdone := h.counted.done_eq
  rw [hmain] at htable
  -- who is in `ski_forkall_master` does not simulate a child, and has asked for the fork once it polls
  have hsimulate := fun pc hpc => h.counted.simulate_eq pc (hmain.trans hpc)
  have hforking := fun pc hpc => h.counted.forking_eq pc (hmain.trans hpc)
  have hholding : p.main.holding = main.holding := congrArg Main.holding hmain
  cases hrule with
  | createLock hfree =>
    exact ⟨h.isChild_eq, h.lockMain rfl hfree, h.slot, htable.move rfl rfl rfl nofun, counted_of_not_master nofun hdone⟩
  | count hlt =>
    have habsent := h.absent_of_created_le (i := p.threadCount) (by rw [hmain]; exact Nat.le_refl _)
    refine ⟨h.isChild_eq, h.moveMain hholding.symm, h.slot, ⟨hlt, fun seq hseq => ?_, htable.entry, htable.blank,
      htable.named, htable.present, htable.tid_inj⟩, counted_of_not_master nofun ?_⟩
    · rw [Option.some.inj hseq]
    · show p.forkallThreadsDone = (List.range (p.threadCount + 1)).countP fun i => (p.thread i).done
      rw [List.range_succ, List.countP_append, ← hdone, List.countP_singleton, habsent]
      rfl
  | createUnlock seq =>
    exact ⟨h.isChild_eq, h.unlockMain hholding rfl, h.slot, htable.move rfl rfl rfl htable.seq_eq,
      counted_of_not_master nofun hdone⟩
  | fillIn seq =>
    have hcount := htable.seq_eq seq rfl
    have habsent := h.absent_of_created_le (i := seq) (by rw [hmain, hcount]; exact Nat.le_refl _)
    refine ⟨h.isChild_eq, h.moveMain hholding.symm, fun i => ?_, htable.fillIn, counted_of_not_master nofun hdone⟩
    by_cases hi : i = seq
    · subst hi
      simp only [Function.update_self, habsent]
      exact slot_absent (show (-1 : Int) ≤ 0 by decide)
    · simp only [Function.update_of_ne hi]
      exact h.slot i
  | start seq =>
    have hcount := htable.seq_eq seq rfl
    have habsent := h.absent_of_created_le (i := seq) (by rw [hmain, hcount]; exact Nat.le_refl _)
    refine ⟨h.isChild_eq, ?_, fun i => ?_, htable.started (show Thread.add .lock ≠ .absent from nofun) hnew,
      counted_of_not_master nofun ?_⟩
    · show Guards (holding _ (update p.thread seq (.add .lock))) p.forkallMutex
      rw [holding_thread]
      refine (h.moveMain hholding.symm).move ?_
      show (p.thread seq).holding = _
      rw [habsent]
      rfl
    · have hslot := h.slot i
      by_cases hi : i = seq
      · subst hi
        rw [habsent] at hslot
        simp only [skiCreateThreadCustomStack, Function.update_self]
        exact slot_of_plain rfl (fun _ => htid) nofun fun _ => hslot.original_le rfl
      · simpa only [skiCreateThreadCustomStack, Function.update_of_ne hi] using hslot
    · have hsum := countP_range_update p.thread Thread.done (.add .lock) (show seq < p.threadCount by omega)
      rw [habsent] at hsum
      exact hdone.trans hsum.symm
  | name seq =>
    refine ⟨h.isChild_eq, h.moveMain hholding.symm, fun i => ?_, htable.nameIt, counted_of_not_master nofun hdone⟩
    have hslot := h.slot i
    by_cases hi : i = seq
    · subst hi
      simp only [Function.update_self]
      exact hslot.congr rfl rfl
    · simpa only [Function.update_of_ne hi] using hslot
  | requestLock hfree =>
    exact ⟨h.isChild_eq, h.lockMain rfl hfree, h.slot, htable.move rfl rfl rfl nofun,
      counted_of_waiting (.inr (.inl rfl)) (hsimulate _ rfl) hdone⟩
  | request =>
    refine ⟨h.isChild_eq, h.moveMain hholding.symm, fun i => ?_, htable.move rfl rfl rfl nofun,
      counted_of_waiting (.inr (.inr ⟨.inl rfl, rfl⟩)) (hsimulate _ rfl) hdone⟩
    have hslot := h.slot i
    exact { hslot with forking_eq := fun _ _ => rfl }
  | requestUnlock =>
    have hasked := ((hforking _ rfl).resolve_left nofun).resolve_left nofun
    exact ⟨h.isChild_eq, h.unlockMain hholding rfl, h.slot, htable.move rfl rfl rfl nofun,
      counted_of_waiting (.inr (.inr ⟨.inr (.inl rfl), hasked⟩)) (hsimulate _ rfl) hdone⟩
  | pollLock hfree =>
    have hasked := ((hforking _ rfl).resolve_left nofun).resolve_left nofun
    exact ⟨h.isChild_eq, h.lockMain rfl hfree, h.slot, htable.move rfl rfl rfl nofun,
      counted_of_waiting (.inr (.inr ⟨.inr (.inr rfl), hasked⟩)) (hsimulate _ rfl) hdone⟩
  | pollRead =>
    have hasked := ((hforking _ rfl).resolve_left nofun).resolve_left nofun
    refine ⟨h.isChild_eq, h.moveMain hholding.symm, h.slot, htable.move rfl rfl rfl nofun, hdone,
      fun _ _ => .inr (.inr hasked), fun _ _ => hsimulate _ rfl, fun d n heq => ?_, nofun, nofun, nofun⟩
    cases heq
    exact ⟨rfl, fun hall i hi => h.hang_of_done hholding (hsimulate _ rfl) hall hi⟩
  | pollUnlock d n =>
    have hasked := ((hforking _ rfl).resolve_left nofun).resolve_left nofun
    refine ⟨h.isChild_eq, h.unlockMain hholding rfl, h.slot, htable.move rfl rfl rfl nofun, hdone,
      fun _ _ => .inr (.inr hasked), fun _ _ => hsimulate _ rfl, nofun, fun d' n' heq => ?_, nofun, nofun⟩
    cases heq
    exact h.counted.pollRead d n hmain
  | ready n =>
    have hasked := ((hforking _ rfl).resolve_left nofun).resolve_left nofun
    obtain ⟨rfl, hall⟩ := h.counted.polled n n hmain
    exact ⟨h.isChild_eq, h.moveMain hholding.symm, h.slot, htable.move rfl rfl rfl nofun, hdone,
      fun _ _ => .inr (.inr hasked), fun _ _ => hsimulate _ rfl, nofun, nofun, fun _ => hall rfl, nofun⟩
  | again d n hne =>
    have hasked := ((hforking _ rfl).resolve_left nofun).resolve_left nofun
    exact ⟨h.isChild_eq, h.moveMain hholding.symm, h.slot, htable.move rfl rfl rfl nofun,
      counted_of_waiting (.inr (.inr ⟨.inr (.inl rfl), hasked⟩)) (hsimulate _ rfl) hdone⟩
  | forked =>
    exact ⟨h.isChild_eq, h.moveMain hholding.symm, h.slot, htable.move rfl rfl rfl nofun,
      counted_of_not_master nofun hdone⟩
  | restore i hlt => exact absurd hmain (h.counted.not_restore i)
  | restored i hge => exact absurd hmain (h.counted.not_restore i)

end Main

/-! ## Every step -/

section Step
variable {p q : Process ρ}

theorem parent_start (regs : Nat → ρ) (memory : Nat → UInt8) : Parent (Process.start regs memory) where
  isChild_eq := rfl
  guards o := by cases o <;> exact iff_of_false nofun nofun
  slot _ := slot_absent (Int.le_refl 0)
  table := ⟨show 0 < forkallMaxThreads by decide, nofun, nofun, fun _ _ => rfl, nofun,
    fun _ => iff_of_false (fun h => h rfl) (Nat.not_lt_zero _),
    fun _ _ hi _ _ => absurd rfl hi⟩
  counted := counted_of_not_master nofun rfl

/-- **Every step keeps the invariant.** -/
theorem Parent.step (h : Parent p) {a : Action ρ} (ha : Possible p a) (hstep : Coop.step p a = .ok q) : Parent q := by
  have htable := h.table
  have hdone := h.counted.done_eq
  cases a with
  | pthreadCreate =>
    cases hstep
    rw [ha.1] at htable
    exact ⟨h.isChild_eq, h.moveMain (by rw [ha.1]; rfl), h.slot, htable.move rfl rfl rfl nofun,
      counted_of_not_master nofun hdone⟩
  | forkallMaster =>
    cases hstep
    rw [ha.1] at htable
    exact ⟨h.isChild_eq, h.moveMain (by rw [ha.1]; rfl), h.slot, htable.move rfl rfl rfl nofun,
      counted_of_waiting (.inl rfl) ha.2.2 hdone⟩
  | simulateChild =>
    cases hstep
    refine ⟨h.isChild_eq, h.guards, fun i => ?_, h.table, counted_of_not_master (fun pc => ?_) hdone⟩
    · have hslot := h.slot i
      exact { hslot with simulate_eq := fun _ => rfl }
    · show p.main ≠ _
      rw [ha.1]
      nofun
  | main tid image => exact h.main ha.1 ha.2 (mainRule_of_step hstep)
  | forkallSlave i =>
    cases hstep
    unfold skiForkallSlaveEnter
    split
    · exact h
    · next hcall =>
      rw [not_or, Bool.not_eq_false] at hcall
      have hrule := ThreadRule.enter (i := i) hcall.1
      rw [← show p.thread i = Thread.outside from ha] at hrule
      have hput := h.put hrule
      simpa only [Process.put, Function.update_eq_self] using hput
  | thread i dummy =>
    obtain ⟨t, e, mutex, done, hrule, rfl⟩ := h.rule_of_step ha hstep
    exact h.put hrule
  | work i regs image =>
    cases hstep
    exact ⟨h.isChild_eq, h.guards, h.slot, h.table, h.counted⟩

end Step

end SkiVmm.Coop
