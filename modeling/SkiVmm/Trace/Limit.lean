import SkiVmm.Trace.LoopRun

/-!
# `Trace.Limit` — the end of a trace that is full

A trace has room for `SKI_EXEC_TRACE_MAX_ENTRIES` entries. `helper_ski_instrument_all` compares the counter with
the limit at one place: an instruction that it prints while the counter is one below the limit flushes the loop
log and leaves a comment in the trace. But the loop log raises the same counter for every entry of a loop that it
prints, in `ski_loop_print_entry`, and does not compare it with anything.

* What an instruction makes the log print is read off the log before it (`heldEntries`, `loopEntries`,
  `isHeld`); `Holds.addInstruction_entries` shows that `ski_loop_add_instruction` does just that.
* The comment is written by the events that `Marks` describes and by no others (`Logged.step_limit`), and by at
  most one of them in a run (`Logged.run_limit`).
* So the comment ends a full trace if and only if the entry that fills it is that of an instruction, and not one
  of a loop (`limit_marked_iff`).
-/

namespace SkiVmm.Trace

open Lib

variable {cfg : TraceConfig} {s t : TraceState}

/-! ## The comment at the limit -/

def limitText : String := "Max entries in trace reached"

/-- The number of times that the trace says that its limit is reached. -/
def limitMarks (s : TraceState) : Nat := s.output.count (.comment (.other limitText))

theorem limitMarks_comment {c : TraceComment} (hc : c ≠ .other limitText) (cfg : TraceConfig) (s : TraceState) :
    limitMarks (skiExecTracePrintComment cfg c s) = limitMarks s := by
  unfold skiExecTracePrintComment limitMarks
  split_ifs
  · rw [List.count_append, List.count_singleton, if_neg (by simpa using hc)]
    rfl
  · rfl

theorem limitMarks_entry (cfg : TraceConfig) (eip : Int) (regs : Registers) (s : TraceState) :
    limitMarks (skiExecTracePrintEntry cfg eip regs s) = limitMarks s := by
  unfold skiExecTracePrintEntry limitMarks
  split_ifs
  · simp
  · rfl

theorem limitMarks_loopEntry (e : LoopEntry) (s : TraceState) :
    limitMarks (skiLoopPrintEntry e s) = limitMarks s := by
  unfold skiLoopPrintEntry limitMarks
  split_ifs
  · simp
  · rfl

theorem limitMarks_printRing (p : LoopEntry → Bool) (pos : Nat) (s : TraceState) :
    limitMarks (printRing p pos s) = limitMarks s := by
  unfold printRing
  induction List.range loopMaxLogEntries generalizing s with
  | nil => rfl
  | cons i is ih =>
    rw [List.foldl_cons, ih]
    simp only
    split_ifs
    · exact limitMarks_loopEntry _ s
    · rfl

/-- Printing the log does not write the comment. -/
theorem limitMarks_printResetAll (h : skiLoopPrintResetAll cfg s = some t) : limitMarks t = limitMarks s := by
  have hloop : ∀ scan, limitMarks (printLoop cfg scan s) = limitMarks s := by
    intro scan
    unfold printLoop
    simp only
    split_ifs
    · rw [limitMarks_comment (by simp), limitMarks_printRing, limitMarks_comment (by simp)]
    · rfl
  have htail : ∀ scan pos u, limitMarks (printTail cfg scan pos u) = limitMarks u := by
    intro scan pos u
    unfold printTail
    simp only
    split_ifs
    · rw [limitMarks_comment (by simp), limitMarks_printRing]
    · exact limitMarks_printRing _ _ _
    · rfl
  unfold skiLoopPrintResetAll at h
  simp only at h
  split_ifs at h
  · cases h
    rfl
  · cases h
    exact (htail _ _ _).trans (hloop _)

theorem nrEntries_comment (cfg : TraceConfig) (c : TraceComment) (s : TraceState) :
    (skiExecTracePrintComment cfg c s).nrEntries = s.nrEntries := (prints_comment cfg c s).nrEntries_eq

theorem commentProgress_limit (cfg : TraceConfig) (count : Int) (s : TraceState) :
    (commentProgress cfg count s).nrEntries = s.nrEntries ∧
      limitMarks (commentProgress cfg count s) = limitMarks s := by
  unfold commentProgress
  split_ifs
  · exact ⟨nrEntries_comment cfg _ s, limitMarks_comment (by simp) cfg s⟩
  · exact ⟨rfl, rfl⟩

/-! ## What an instruction makes the log print -/

/-- The number of entries that `ski_loop_print_reset_all` prints: the body of the loop, if whole iterations of it
    were suppressed, and the part of an iteration that was begun. -/
def heldEntries (s : TraceState) : Nat :=
  match ((used (ring s)).map LoopEntry.count).min? with
  | none => 0
  | some iterations =>
    if iterations < loopIterationsActivate then 0
    else
      (if loopIterationsActivate < iterations then (used (ring s)).length else 0) +
        (used (ring s)).countP fun e => iterations < e.count

/-- Where the log has the instruction at `eip`. -/
def knownAt (cfg : TraceConfig) (eip : Int) (s : TraceState) : Option Nat :=
  (skiLoopFindEntry s.loopLog eip).filter fun pos => (s.loopLog pos).vcpu = cfg.cpuIndex

/-- Whether the instruction at `eip` makes the log print itself. -/
def leavesLoop (cfg : TraceConfig) (eip : Int) (s : TraceState) : Bool :=
  match s.loopLogHead with
  | none => false
  | some head =>
    match knownAt cfg eip s with
    | none => 1 < (s.loopLog head).count
    | some pos =>
      pos ≠ (head + 1) % loopMaxLogEntries &&
        rangeHasLoop s.loopLog ((pos + loopMaxLogEntries - 1) % loopMaxLogEntries) loopMaxLogEntries
          ((head + 1) % loopMaxLogEntries)

/-- The entries of a loop that the instruction at `eip` brings into the trace before its own. -/
def loopEntries (cfg : TraceConfig) (eip : Int) (s : TraceState) : Nat :=
  if leavesLoop cfg eip s then heldEntries s else 0

/-- Whether the instruction at `eip` goes on with a loop that is suppressed. -/
def isHeld (cfg : TraceConfig) (eip : Int) (s : TraceState) : Bool :=
  !leavesLoop cfg eip s && (knownAt cfg eip s).any fun pos => loopIterationsActivate ≤ (s.loopLog pos).count

theorem countP_items (l : List LoopEntry) : (l.map LoopEntry.item).countP TraceItem.isEntry = l.length := by
  rw [List.countP_map, List.countP_eq_length]
  intro e _
  rfl

section Arranged
variable {vcpu c : Int} {older newer : List LoopEntry} (h : Arranged vcpu (ring s) c older newer)
include h

/-- The smallest count is that of the iterations that are complete. -/
theorem Arranged.min_count : ((used (ring s)).map LoopEntry.count).min? = some (fullIterations c older) := by
  have hcount : ∀ e ∈ used (ring s), fullIterations c older ≤ e.count := by
    intro e he
    rw [h.used_eq] at he
    unfold fullIterations
    rcases List.mem_append.mp he with he | he
    · rw [if_neg (List.ne_nil_of_mem he), h.older_count e he]
    · rw [h.newer_count e he]
      split_ifs <;> omega
  rw [List.min?_eq_some_iff]
  refine ⟨?_, ?_⟩
  · obtain ⟨e, he, heq⟩ : ∃ e ∈ used (ring s), e.count = fullIterations c older := by
      rw [h.used_eq]
      unfold fullIterations
      by_cases hold : older = []
      · obtain ⟨e, he⟩ := List.exists_mem_of_ne_nil newer h.newer_ne
        exact ⟨e, List.mem_append_right _ he, by rw [if_pos hold, h.newer_count e he]⟩
      · obtain ⟨e, he⟩ := List.exists_mem_of_ne_nil older hold
        exact ⟨e, List.mem_append_left _ he, by rw [if_neg hold, h.older_count e he]⟩
    exact List.mem_map.mpr ⟨e, he, heq⟩
  · intro n hn
    obtain ⟨e, he, rfl⟩ := List.mem_map.mp hn
    exact hcount e he

/-- The entries of the iteration that was begun. -/
theorem Arranged.countP_begun :
    (used (ring s)).countP (fun e => fullIterations c older < e.count) = if older ≠ [] then newer.length else 0 := by
  rw [h.used_eq, List.countP_append]
  have holder : older.countP (fun e => fullIterations c older < e.count) = 0 := by
    rw [List.countP_eq_zero]
    intro e he
    unfold fullIterations
    simp [h.older_count e he, List.ne_nil_of_mem he]
  rw [holder, Nat.zero_add]
  unfold fullIterations
  by_cases hold : older = []
  · rw [if_pos hold, if_neg fun hne => hne hold, List.countP_eq_zero]
    intro e he
    simp [h.newer_count e he]
  · rw [if_neg hold, if_pos hold, List.countP_eq_length]
    intro e he
    simp [h.newer_count e he]

/-- **`heldEntries` counts what is printed.** -/
theorem Arranged.heldEntries_eq : heldEntries s = (loopItems c older newer).countP TraceItem.isEntry := by
  unfold heldEntries loopItems
  rw [h.min_count]
  simp only [h.countP_begun]
  rw [h.used_eq]
  by_cases hidle : fullIterations c older < loopIterationsActivate
  · rw [if_pos hidle, if_pos (by omega)]
    rfl
  · rw [if_neg hidle, if_neg (show ¬ fullIterations c older - loopIterationsActivate < 0 by omega),
      List.countP_append]
    congr 1
    · by_cases hrep : loopIterationsActivate < fullIterations c older
      · rw [if_pos hrep, if_pos (by omega), List.countP_cons_of_neg (by simp [TraceItem.isEntry]), List.countP_append,
          countP_items, List.length_append, List.length_append, Nat.add_comm]
        rfl
      · rw [if_neg hrep, if_neg (by omega)]
        rfl
    · by_cases hold : older = []
      · rw [if_neg fun hne => hne hold, if_neg fun hne => hne hold]
        rfl
      · rw [if_pos hold, if_pos hold, List.countP_append, countP_items]
        split_ifs <;> rfl

end Arranged

theorem Emptied.used_eq (h : Emptied s) : used (ring s) = [] := by
  refine used_eq_nil.mpr ?_
  intro e he
  obtain ⟨pos, -, rfl⟩ := mem_ring.mp he
  exact Int.le_of_eq (h.count_eq pos)

theorem Emptied.heldEntries_eq (h : Emptied s) : heldEntries s = 0 := by
  unfold heldEntries
  rw [h.used_eq]
  rfl

theorem heldEntries_congr (hlog : t.loopLog = s.loopLog) (hhead : t.loopLogHead = s.loopLogHead) :
    heldEntries t = heldEntries s := by
  unfold heldEntries ring
  rw [hlog, hhead]

/-- **A reset raises the counter by what the log holds.** -/
theorem Holds.printResetAll_entries {c : Int} {pending : List Int} (h : Holds cfg s c pending) :
    ∃ t, skiLoopPrintResetAll cfg s = some t ∧ Emptied t ∧ t.nrEntries = s.nrEntries + heldEntries s ∧
      limitMarks t = limitMarks s := by
  cases h with
  | empty h =>
    refine ⟨resetLog s, skiLoopPrintResetAll_unused cfg h.used_eq, ⟨rfl, fun _ => rfl⟩, ?_, rfl⟩
    rw [h.heldEntries_eq]
    rfl
  | looping hhead hlt hcount harr =>
    obtain ⟨t, hreset, hprints⟩ := skiLoopPrintResetAll_eq harr cfg
    refine ⟨resetLog t, hreset, ⟨rfl, fun _ => rfl⟩, ?_, limitMarks_printResetAll hreset⟩
    rw [harr.heldEntries_eq]
    exact hprints.nrEntries_eq

/-- What an instruction does that is in the log, `i` places behind the next one. -/
theorem jump_entries {head : Nat} {c : Int} {pending : List Int} (h : Holds cfg s c pending)
    (hhead : s.loopLogHead = some head) {i : Nat} (hi : 0 < i) (hlt : i < loopMaxLogEntries) {eip : Int}
    (hknown : knownAt cfg eip s = some ((head + 1 + i) % loopMaxLogEntries)) (regs : Registers) :
    ∃ t, skiLoopAddInstruction cfg eip regs s = some (t, !isHeld cfg eip s) ∧
      t.nrEntries = s.nrEntries + loopEntries cfg eip s ∧ limitMarks t = limitMarks s := by
  have hnext : (head + 1 + i) % loopMaxLogEntries ≠ (head + 1) % loopMaxLogEntries := by
    intro heq
    have : i = 0 := Ring.index_unique (s := head + 1) hlt (by decide) heq
    omega
  have hleaves : leavesLoop cfg eip s = rangeHasLoop s.loopLog
      (((head + 1 + i) % loopMaxLogEntries + loopMaxLogEntries - 1) % loopMaxLogEntries) loopMaxLogEntries
      ((head + 1) % loopMaxLogEntries) := by
    unfold leavesLoop
    simp only [hhead, hknown, hnext, ne_eq, not_false_eq_true, decide_true, Bool.true_and]
  unfold loopEntries isHeld skiLoopAddInstruction
  unfold knownAt at hknown ⊢
  simp only [hhead, hknown, Option.any_some]
  rw [if_neg hnext, hleaves]
  unfold skiLoopPrintResetRange
  by_cases hloop : rangeHasLoop s.loopLog
      (((head + 1 + i) % loopMaxLogEntries + loopMaxLogEntries - 1) % loopMaxLogEntries) loopMaxLogEntries
      ((head + 1) % loopMaxLogEntries) = true
  · -- the log is printed, and the instruction counts from zero again
    obtain ⟨t, hreset, hempty, hnr, hmarks⟩ := h.printResetAll_entries
    have hfew : ¬ (clearRange (((head + 1 + i) % loopMaxLogEntries + loopMaxLogEntries - 1) % loopMaxLogEntries)
        loopMaxLogEntries ((head + 1) % loopMaxLogEntries) t.loopLog
        ((head + 1 + i) % loopMaxLogEntries)).count ≥ loopIterationsActivate := by
      rw [clearRange_count hempty.count_eq]
      decide
    rw [if_pos hloop, hreset]
    simp only [Option.bind_eq_bind, Option.bind_some, Option.pure_def, if_neg hfew, hloop, Bool.not_true,
      Bool.false_and, Bool.not_false]
    exact ⟨_, rfl, hnr, hmarks⟩
  · -- clearing the range does not touch the instruction's own entry
    have hkeep := clearRange_jump head hi hlt s.loopLog
    rw [if_neg hloop]
    simp only [Option.bind_eq_bind, Option.bind_some, Option.pure_def, hkeep, hloop, Bool.not_false,
      Bool.true_and, Bool.false_eq_true, if_false, Nat.add_zero]
    by_cases hlimit : (s.loopLog ((head + 1 + i) % loopMaxLogEntries)).count ≥ loopIterationsActivate
    · rw [if_pos hlimit, decide_eq_true hlimit]
      exact ⟨_, rfl, rfl, rfl⟩
    · rw [if_neg hlimit, decide_eq_false hlimit]
      exact ⟨_, rfl, rfl, rfl⟩

theorem Emptied.knownAt_eq (h : Emptied s) (eip : Int) : knownAt cfg eip s = none := by
  have hfind : skiLoopFindEntry s.loopLog eip = none := by
    refine List.find?_eq_none.mpr ?_
    intro pos _
    simp [h.count_eq pos]
  unfold knownAt
  rw [hfind]
  rfl

/-- **`ski_loop_add_instruction` prints what the log said it would**: the entries of the loop that is left, and
    the instruction is left to the caller unless it is held back. -/
theorem Holds.addInstruction_entries {c : Int} {pending : List Int} (h : Holds cfg s c pending) (eip : Int)
    (regs : Registers) :
    ∃ t, skiLoopAddInstruction cfg eip regs s = some (t, !isHeld cfg eip s) ∧
      t.nrEntries = s.nrEntries + loopEntries cfg eip s ∧ limitMarks t = limitMarks s := by
  cases h with
  | empty h =>
    unfold loopEntries isHeld leavesLoop skiLoopAddInstruction
    simp only [h.head_eq, h.knownAt_eq]
    exact ⟨_, rfl, rfl, rfl⟩
  | @looping head c older newer hhead hlt hcount harr =>
    rcases findEntry_cases harr.vcpu_eq eip with ⟨pos, hpos, hused, heip, hfind⟩ | ⟨hnew, hfind⟩
    · obtain ⟨i, hi, rfl⟩ := Ring.exists_index hpos (head + 1)
      cases i with
      | zero =>
        unfold loopEntries isHeld leavesLoop knownAt skiLoopAddInstruction
        simp only [hhead, hfind, Nat.add_zero, ne_eq, not_true_eq_false, decide_false, Bool.false_and, if_true,
          Bool.not_false, Bool.true_and, Option.any_some, Bool.false_eq_true, if_false]
        by_cases hlimit : (s.loopLog ((head + 1) % loopMaxLogEntries)).count ≥ loopIterationsActivate
        · rw [if_pos hlimit, decide_eq_true hlimit]
          exact ⟨_, rfl, commentProgress_limit cfg _ _⟩
        · rw [if_neg hlimit, decide_eq_false hlimit]
          exact ⟨_, rfl, rfl, rfl⟩
      | succ i => exact jump_entries (.looping hhead hlt hcount harr) hhead (Nat.succ_pos i) hi hfind regs
    · unfold loopEntries isHeld leavesLoop knownAt skiLoopAddInstruction
      simp only [hhead, hfind, Option.any_none, Bool.and_false, Bool.not_false, decide_eq_true_eq]
      by_cases hmany : 1 < (s.loopLog head).count
      · obtain ⟨t, hreset, hempty, hnr, hmarks⟩ := (Holds.looping hhead hlt hcount harr).printResetAll_entries
        rw [if_pos hmany, if_pos hmany, hreset]
        exact ⟨_, rfl, hnr, hmarks⟩
      · rw [if_neg hmany, if_neg hmany]
        exact ⟨_, rfl, rfl, rfl⟩

/-! ## The helper at the limit -/

/-- The log is in one of the states that the run can bring it into. -/
def Logged (cfg : TraceConfig) (s : TraceState) : Prop := ∃ c pending, Holds cfg s c pending

theorem Emptied.logged (h : Emptied s) : Logged cfg s := ⟨0, [], .empty h⟩

/-- Other fields than those of the log do not matter for it. -/
theorem Logged.of_log_eq (h : Logged cfg s) (hlog : t.loopLog = s.loopLog)
    (hhead : t.loopLogHead = s.loopLogHead) : Logged cfg t := by
  obtain ⟨c, pending, hholds⟩ := h
  exact ⟨c, pending, hholds.of_log_eq hlog hhead⟩

theorem Emptied.of_log_eq (h : Emptied s) (hlog : t.loopLog = s.loopLog) (hhead : t.loopLogHead = s.loopLogHead) :
    Emptied t := ⟨hhead.trans h.head_eq, hlog ▸ h.count_eq⟩

theorem Emptied.comment (h : Emptied s) (cfg : TraceConfig) (c : TraceComment) :
    Emptied (skiExecTracePrintComment cfg c s) :=
  h.of_log_eq (prints_comment cfg c s).loopLog_eq (prints_comment cfg c s).head_eq

/-- **A flush** leaves the log empty. -/
theorem Logged.flush_limit (h : Logged cfg s) :
    ∃ t, skiLoopFlush cfg s = some t ∧ Emptied t ∧ t.nrEntries = s.nrEntries + heldEntries s ∧
      limitMarks t = limitMarks s := by
  obtain ⟨c, pending, hholds⟩ := h
  exact hholds.printResetAll_entries

/-- **An instruction that the helper prints.** Nothing is held back any more, so the flush at the limit prints
    nothing, and the comment that follows it is still below the limit. -/
theorem Holds.printInstruction_limit {c : Int} (h : Holds cfg s c []) (hfd : cfg.fdOpen = true) (eip : Int)
    (regs : Registers) :
    ∃ t, printInstruction cfg eip regs s = .ok t ∧
      t.schedInstructionsCurrent = s.schedInstructionsCurrent ∧ t.nrEntries = s.nrEntries + 1 ∧
      (s.nrEntries = execTraceMaxEntries - 1 → Emptied t ∧ limitMarks t = limitMarks s + 1) ∧
      (s.nrEntries ≠ execTraceMaxEntries - 1 →
        t.loopLog = s.loopLog ∧ t.loopLogHead = s.loopLogHead ∧ limitMarks t = limitMarks s) := by
  -- the entry is in the trace before the counter is compared with the limit
  obtain ⟨u, hu⟩ : ∃ u, u = skiExecTracePrintEntry cfg eip regs s := ⟨_, rfl⟩
  have hsame : u.loopLog = s.loopLog ∧ u.loopLogHead = s.loopLogHead ∧ u.nrEntries = s.nrEntries ∧
      u.schedInstructionsCurrent = s.schedInstructionsCurrent := by
    rw [hu]
    unfold skiExecTracePrintEntry
    split_ifs <;> exact ⟨rfl, rfl, rfl, rfl⟩
  obtain ⟨hlog, hhead, hcount, hsched⟩ := hsame
  have hmarks : limitMarks u = limitMarks s := hu ▸ limitMarks_entry cfg eip regs s
  have hholds : Holds cfg u c [] := h.of_log_eq hlog hhead
  unfold printInstruction
  simp only [← hu]
  by_cases hlast : s.nrEntries = execTraceMaxEntries - 1
  · obtain ⟨v, items, hreset, hwrites, hitems, hempty⟩ := hholds.printResetAll
    have hnr : v.nrEntries = s.nrEntries := by
      have hle := hwrites.nrEntries_le hitems
      have hge := hwrites.nrEntries_eq
      rw [List.length_nil] at hle
      omega
    have hbelow : cfg.fdOpen = true ∧ v.nrEntries < execTraceMaxEntries :=
      ⟨hfd, by rw [hnr, hlast]; decide⟩
    have hout := limitMarks_printResetAll hreset
    rw [if_pos (hcount.trans hlast), show skiLoopFlush cfg u = some v from hreset]
    refine ⟨_, rfl, ?_, ?_, ?_, fun hne => absurd hlast hne⟩
    · exact (prints_comment cfg _ v).sched_eq.trans (hwrites.sched_eq.trans hsched)
    · exact congrArg (· + 1) ((nrEntries_comment cfg _ v).trans hnr)
    · intro _
      refine ⟨(hempty.comment cfg _).of_log_eq rfl rfl, ?_⟩
      rw [← hmarks, ← hout]
      unfold skiExecTracePrintComment limitMarks
      rw [if_pos hbelow, List.count_append]
      rfl
  · rw [if_neg fun hn => hlast (hcount.symm.trans hn)]
    exact ⟨_, rfl, hsched, congrArg (· + 1) hcount, fun hl => absurd hl hlast, fun _ => ⟨hlog, hhead, hmarks⟩⟩

/-- Whether the current thread is due for a starvation adjustment at its next instruction. -/
def AdjustmentDue (s : TraceState) : Prop :=
  s.schedInstructionsCurrent + 1 ≥ 0 ∧ (s.schedInstructionsCurrent + 1) % schedAdjustModulo = 0

theorem adjustPriority_due (hdue : AdjustmentDue s) {adjusted : Bool}
    (hrun : skiThreadsAdjustPriorityCurrent cfg
      { s with schedInstructionsCurrent := s.schedInstructionsCurrent + 1 } = .ok (t, adjusted)) :
    adjusted = true ∧ t.loopLog = s.loopLog ∧ t.loopLogHead = s.loopLogHead ∧ t.nrEntries = s.nrEntries ∧
      limitMarks t = limitMarks s := by
  have hcomment := prints_comment cfg (.other "Priority adjustment")
    { s with schedInstructionsCurrent := s.schedInstructionsCurrent + 1 }
  unfold AdjustmentDue at hdue
  unfold skiThreadsAdjustPriorityCurrent at hrun
  simp only at hrun
  rw [if_pos hdue] at hrun
  split_ifs at hrun
  cases hrun
  refine ⟨rfl, hcomment.loopLog_eq, hcomment.head_eq, hcomment.nrEntries_eq, ?_⟩
  exact limitMarks_comment (by decide) cfg _

/-- An instruction that is due for an adjustment only flushes the log. -/
theorem Logged.helper_due (h : Logged cfg s) (hactive : cfg.active = true) (hdue : AdjustmentDue s) {eip : Int}
    {regs : Registers} {executes : Bool} (hrun : helperSkiInstrumentAll cfg eip regs s = .ok (t, executes)) :
    Emptied t ∧ t.nrEntries = s.nrEntries + heldEntries s ∧ limitMarks t = limitMarks s := by
  unfold helperSkiInstrumentAll at hrun
  rw [if_neg (by simp [hactive])] at hrun
  simp only at hrun
  obtain ⟨⟨u, adjusted⟩, hadj, hrun⟩ := exists_of_bind_eq_ok hrun
  obtain ⟨rfl, hlog, hhead, hnr, hmarks⟩ := adjustPriority_due hdue hadj
  obtain ⟨v, hflush, hempty, hnr', hmarks'⟩ := (h.of_log_eq hlog hhead).flush_limit
  simp only [if_true, hflush, orAssert, ok_bind] at hrun
  cases hrun
  refine ⟨hempty.comment cfg _, ?_, ?_⟩
  · rw [nrEntries_comment, hnr', hnr, heldEntries_congr hlog hhead]
  · rw [limitMarks_comment (by decide), hmarks', hmarks]

/-- Instructions go into the trace. -/
def Traces (cfg : TraceConfig) (s : TraceState) : Prop :=
  cfg.active = true ∧ cfg.fdOpen = true ∧ s.nrEntries < execTraceMaxEntries

/-- The instruction at `eip` writes the comment: it is printed, and with the entries of the loop that it leaves
    the counter is one below the limit. -/
def MarksAt (cfg : TraceConfig) (eip : Int) (s : TraceState) : Prop :=
  isHeld cfg eip s = false ∧ s.nrEntries + loopEntries cfg eip s = execTraceMaxEntries - 1

theorem helper_eq (htraces : Traces cfg s) (hdue : ¬ AdjustmentDue s) (eip : Int) (regs : Registers) :
    helperSkiInstrumentAll cfg eip regs s = (do
      let (u, print) ← orAssert (skiLoopAddInstruction cfg eip regs
        { s with schedInstructionsCurrent := s.schedInstructionsCurrent + 1 })
      let u ← if print then printInstruction cfg eip regs u else .ok u
      .ok (u, true)) := by
  obtain ⟨hactive, hfd, hlt⟩ := htraces
  unfold AdjustmentDue at hdue
  unfold helperSkiInstrumentAll skiThreadsAdjustPriorityCurrent
  rw [if_neg (by simp [hactive])]
  simp only
  rw [if_neg hdue]
  simp only [ok_bind, Bool.false_eq_true, if_false]
  rw [if_pos ⟨hfd, hlt⟩]

/-- **An instruction that goes into the trace.** -/
theorem Logged.helper_traced (h : Logged cfg s) (htraces : Traces cfg s) (hdue : ¬ AdjustmentDue s) (eip : Int)
    (regs : Registers) :
    ∃ t, helperSkiInstrumentAll cfg eip regs s = .ok (t, true) ∧ Logged cfg t ∧
      t.schedInstructionsCurrent = s.schedInstructionsCurrent + 1 ∧
      t.nrEntries = s.nrEntries + loopEntries cfg eip s + (if isHeld cfg eip s then 0 else 1) ∧
      (MarksAt cfg eip s → Emptied t ∧ limitMarks t = limitMarks s + 1) ∧
      (¬ MarksAt cfg eip s → limitMarks t = limitMarks s ∧
        ∃ u, skiLoopAddInstruction cfg eip regs
            { s with schedInstructionsCurrent := s.schedInstructionsCurrent + 1 } = some (u, !isHeld cfg eip s) ∧
          t.loopLog = u.loopLog ∧ t.loopLogHead = u.loopLogHead) := by
  obtain ⟨c, pending, hholds⟩ := h
  have hcounted : Holds cfg { s with schedInstructionsCurrent := s.schedInstructionsCurrent + 1 } c pending :=
    hholds.of_log_eq rfl rfl
  -- `spec` says that nothing is held back behind a printed instruction, `entries` what the log has printed
  obtain ⟨u, print, hadd, hadded⟩ := skiLoopAddInstruction_spec hcounted eip regs
  obtain ⟨u', hadd', hnr, hmarks⟩ := hcounted.addInstruction_entries eip regs
  obtain ⟨rfl, rfl⟩ : u = u' ∧ print = !isHeld cfg eip s := by
    rw [hadd] at hadd'
    cases hadd'
    exact ⟨rfl, rfl⟩
  rw [helper_eq htraces hdue, hadd]
  simp only [orAssert, ok_bind]
  cases hheld : isHeld cfg eip s with
  | true =>
    rw [hheld] at hadded hadd
    cases hadded with
    | held hwrites hitems hholds' hle =>
      refine ⟨u, rfl, ⟨_, _, hholds'⟩, hwrites.sched_eq, hnr, ?_, fun _ => ⟨hmarks, u, rfl, rfl, rfl⟩⟩
      intro hm
      exact absurd hm.1 (by simp [hheld])
  | false =>
    rw [hheld] at hadded hadd
    cases hadded with
    | printed hwrites hitems hholds' hle =>
      obtain ⟨t, hprint, hsched, hnr', hlast, hother⟩ := hholds'.printInstruction_limit htraces.2.1 eip regs
      have hcount : u.nrEntries = execTraceMaxEntries - 1 ↔ MarksAt cfg eip s := by
        rw [hnr]
        exact ⟨fun heq => ⟨hheld, heq⟩, fun hm => hm.2⟩
      rw [hcount, hmarks] at hlast
      rw [ne_eq, hcount, hmarks] at hother
      have hlogged : Logged cfg t := by
        by_cases hm : MarksAt cfg eip s
        · exact (hlast hm).1.logged
        · exact Logged.of_log_eq ⟨_, _, hholds'⟩ (hother hm).1 (hother hm).2.1
      refine ⟨t, by simp [hprint], hlogged, hsched.trans hwrites.sched_eq, ?_, hlast, ?_⟩
      · rw [hnr', hnr]
        rfl
      · intro hm
        exact ⟨(hother hm).2.2, u, rfl, (hother hm).1, (hother hm).2.1⟩

/-- **An instruction that does not go into the trace.** -/
theorem helper_untraced (htrace : ¬ Traces cfg s)
    (hdue : cfg.active = true → ¬ AdjustmentDue s) (eip : Int) (regs : Registers) :
    ∃ t, helperSkiInstrumentAll cfg eip regs s = .ok (t, true) ∧ t.loopLog = s.loopLog ∧
      t.loopLogHead = s.loopLogHead ∧ t.nrEntries = s.nrEntries ∧ limitMarks t = limitMarks s := by
  unfold AdjustmentDue at hdue
  unfold helperSkiInstrumentAll skiThreadsAdjustPriorityCurrent
  by_cases hactive : cfg.active = true
  · rw [if_neg (by simp [hactive])]
    simp only
    rw [if_neg (hdue hactive)]
    simp only [ok_bind, Bool.false_eq_true, if_false]
    rw [if_neg fun hfd => htrace ⟨hactive, hfd⟩]
    exact ⟨_, rfl, rfl, rfl, rfl, rfl⟩
  · rw [if_pos (by simp [hactive])]
    exact ⟨s, rfl, rfl, rfl, rfl, rfl⟩

/-! ## Events -/

/-- The events that write the comment. -/
def Marks (cfg : TraceConfig) (s : TraceState) : TraceEvent → Prop
  | .instruction eip _ => Traces cfg s ∧ ¬ AdjustmentDue s ∧ MarksAt cfg eip s
  | _ => False

theorem Marks.traces {ev : TraceEvent} (h : Marks cfg s ev) : Traces cfg s := by
  cases ev with
  | instruction eip regs => exact h.1
  | flush => exact h.elim
  | switch adjust => exact h.elim
  | comment text => exact h.elim

/-- What an event does with the log and the comment. -/
structure StepLimit (cfg : TraceConfig) (s : TraceState) (ev : TraceEvent) (t : TraceState) : Prop where
  logged : Logged cfg t
  marked : Marks cfg s ev → Emptied t ∧ t.nrEntries = execTraceMaxEntries ∧ limitMarks t = limitMarks s + 1
  unmarked : ¬ Marks cfg s ev → limitMarks t = limitMarks s
  idle : ¬ Traces cfg s → Emptied s → Emptied t ∧ t.nrEntries = s.nrEntries

theorem Logged.instruction_limit (h : Logged cfg s) {eip : Int} {regs : Registers} {executes : Bool}
    (hrun : helperSkiInstrumentAll cfg eip regs s = .ok (t, executes)) :
    StepLimit cfg s (.instruction eip regs) t := by
  by_cases hdue : cfg.active = true ∧ AdjustmentDue s
  · obtain ⟨hempty, hnr, hmarks⟩ := h.helper_due hdue.1 hdue.2 hrun
    refine ⟨hempty.logged, fun hm => absurd hdue.2 hm.2.1, fun _ => hmarks, ?_⟩
    intro _ hempty'
    exact ⟨hempty, by rw [hnr, hempty'.heldEntries_eq, Nat.add_zero]⟩
  · have hdue' : cfg.active = true → ¬ AdjustmentDue s := fun hactive hd => hdue ⟨hactive, hd⟩
    by_cases htraces : Traces cfg s
    · obtain ⟨u, hok, hlogged, -, hnr, hmarked, hunmarked⟩ :=
        h.helper_traced htraces (hdue' htraces.1) eip regs
      rw [hok] at hrun
      cases hrun
      refine ⟨hlogged, ?_, ?_, fun hnot => absurd htraces hnot⟩
      · intro hm
        obtain ⟨hempty, hmarks⟩ := hmarked hm.2.2
        refine ⟨hempty, ?_, hmarks⟩
        obtain ⟨hheld, hcount⟩ := hm.2.2
        rw [hnr, hcount, hheld]
        rfl
      · intro hm
        exact (hunmarked fun hat => hm ⟨htraces, hdue' htraces.1, hat⟩).1
    · obtain ⟨u, hok, hlog, hhead, hnr, hmarks⟩ := helper_untraced htraces hdue' eip regs
      rw [hok] at hrun
      cases hrun
      exact ⟨h.of_log_eq hlog hhead, fun hm => absurd hm.1 htraces, fun _ => hmarks,
        fun _ hempty => ⟨hempty.of_log_eq hlog hhead, hnr⟩⟩

/-- **The step lemma.** -/
theorem Logged.step_limit (h : Logged cfg s) {ev : TraceEvent} (hev : ev ≠ .comment limitText) {now : List Int}
    (hstep : traceStep cfg s ev = .ok (t, now)) : StepLimit cfg s ev t := by
  cases ev with
  | instruction eip regs =>
    obtain ⟨r, hrun, hstep⟩ := exists_of_bind_eq_ok hstep
    cases hstep
    exact h.instruction_limit hrun
  | flush =>
    obtain ⟨u, hflush, hempty, hnr, hmarks⟩ := h.flush_limit
    simp only [traceStep, hflush, orAssert, ok_bind] at hstep
    cases hstep
    refine ⟨hempty.logged, fun hm => hm.elim, fun _ => hmarks, ?_⟩
    intro _ hempty'
    exact ⟨hempty, by rw [hnr, hempty'.heldEntries_eq, Nat.add_zero]⟩
  | switch adjust =>
    obtain ⟨u, hflush, hempty, hnr, hmarks⟩ := h.flush_limit
    simp only [traceStep, hflush, orAssert, ok_bind] at hstep
    cases hstep
    have hswitched : Emptied { u with schedInstructionsCurrent := 0, priorityAdjust := adjust } :=
      hempty.of_log_eq rfl rfl
    refine ⟨hswitched.logged, fun hm => hm.elim, fun _ => hmarks, ?_⟩
    intro _ hempty'
    refine ⟨hswitched, hnr.trans ?_⟩
    rw [hempty'.heldEntries_eq, Nat.add_zero]
  | comment text =>
    have hp := prints_comment cfg (.other text) s
    cases hstep
    refine ⟨h.of_log_eq hp.loopLog_eq hp.head_eq, fun hm => hm.elim, fun _ => ?_,
      fun _ hempty => ⟨hempty.comment cfg _, nrEntries_comment cfg _ s⟩⟩
    refine limitMarks_comment ?_ cfg s
    intro heq
    cases heq
    exact hev rfl

/-! ## Runs -/

/-- Some event of the run writes the comment. -/
def RunMarks (cfg : TraceConfig) (s : TraceState) (events : List TraceEvent) : Prop :=
  ∃ before ev after t executed, events = before ++ ev :: after ∧ traceRun cfg s before = .ok (t, executed) ∧
    Marks cfg t ev

/-- A run that goes through its first event. -/
theorem traceRun_cons_ok {ev : TraceEvent} {events : List TraceEvent} {executed : List Int}
    (hrun : traceRun cfg s (ev :: events) = .ok (t, executed)) :
    ∃ u now later, traceStep cfg s ev = .ok (u, now) ∧ traceRun cfg u events = .ok (t, later) := by
  unfold traceRun at hrun
  obtain ⟨⟨u, now⟩, hstep, hrun⟩ := exists_of_bind_eq_ok hrun
  obtain ⟨⟨v, later⟩, hrest, hrun⟩ := exists_of_bind_eq_ok hrun
  cases hrun
  exact ⟨u, now, later, hstep, hrest⟩

theorem runMarks_cons {ev : TraceEvent} {now : List Int} (hstep : traceStep cfg s ev = .ok (t, now))
    (events : List TraceEvent) : RunMarks cfg s (ev :: events) ↔ Marks cfg s ev ∨ RunMarks cfg t events := by
  constructor
  · rintro ⟨before, ev', after, u, executed, hsplit, hrun, hmarks⟩
    cases before with
    | nil =>
      obtain ⟨rfl, rfl⟩ := List.cons.inj hsplit
      cases hrun
      exact .inl hmarks
    | cons first before =>
      obtain ⟨rfl, rfl⟩ := List.cons.inj hsplit
      obtain ⟨t', now', later, hstep', hrest⟩ := traceRun_cons_ok hrun
      rw [hstep] at hstep'
      cases hstep'
      exact .inr ⟨before, ev', after, u, later, rfl, hrest, hmarks⟩
  · rintro (hmarks | ⟨before, ev', after, u, executed, rfl, hrun, hmarks⟩)
    · exact ⟨[], ev, events, s, [], rfl, rfl, hmarks⟩
    · refine ⟨ev :: before, ev', after, u, now ++ executed, rfl, ?_, hmarks⟩
      unfold traceRun
      rw [hstep]
      simp only [ok_bind, hrun]

/-- While nothing goes into the trace, an empty log stays empty and the trace as it is. -/
theorem Emptied.run_idle (h : Emptied s) (hidle : ¬ Traces cfg s) {events : List TraceEvent}
    (hevs : ∀ ev ∈ events, ev ≠ .comment limitText) {executed : List Int}
    (hrun : traceRun cfg s events = .ok (t, executed)) :
    Emptied t ∧ t.nrEntries = s.nrEntries ∧ limitMarks t = limitMarks s := by
  induction events generalizing s executed with
  | nil =>
    cases hrun
    exact ⟨h, rfl, rfl⟩
  | cons ev events ih =>
    obtain ⟨u, now, later, hstep, hrest⟩ := traceRun_cons_ok hrun
    have hlimit := h.logged.step_limit (hevs ev List.mem_cons_self) hstep
    obtain ⟨hempty, hnr⟩ := hlimit.idle hidle h
    have hidle' : ¬ Traces cfg u := fun htraces => hidle ⟨htraces.1, htraces.2.1, hnr ▸ htraces.2.2⟩
    obtain ⟨hempty', hnr', hmarks⟩ :=
      ih hempty hidle' (fun ev' hev' => hevs ev' (List.mem_cons_of_mem _ hev')) hrest
    exact ⟨hempty', hnr'.trans hnr, hmarks.trans (hlimit.unmarked fun hm => hidle hm.traces)⟩

/-- **The run lemma**: the comment is written at most once, and then the log is left empty. -/
theorem Logged.run_limit (h : Logged cfg s) {events : List TraceEvent}
    (hevs : ∀ ev ∈ events, ev ≠ .comment limitText) {executed : List Int}
    (hrun : traceRun cfg s events = .ok (t, executed)) :
    (RunMarks cfg s events → Emptied t ∧ limitMarks t = limitMarks s + 1) ∧
      (¬ RunMarks cfg s events → limitMarks t = limitMarks s) := by
  induction events generalizing s executed with
  | nil =>
    cases hrun
    refine ⟨?_, fun _ => rfl⟩
    rintro ⟨before, ev, after, -, -, hsplit, -⟩
    exact absurd hsplit (by simp)
  | cons ev events ih =>
    obtain ⟨u, now, later, hstep, hrest⟩ := traceRun_cons_ok hrun
    have hlimit := h.step_limit (hevs ev List.mem_cons_self) hstep
    have hlater : ∀ ev' ∈ events, ev' ≠ .comment limitText := fun ev' hev' => hevs ev' (List.mem_cons_of_mem _ hev')
    rw [runMarks_cons hstep]
    by_cases hm : Marks cfg s ev
    · -- the log is empty and the trace full from here on
      obtain ⟨hempty, hfull, hmarks⟩ := hlimit.marked hm
      have hidle : ¬ Traces cfg u := fun htraces => Nat.lt_irrefl _ (hfull ▸ htraces.2.2)
      obtain ⟨hempty', -, hmarks'⟩ := hempty.run_idle hidle hlater hrest
      exact ⟨fun _ => ⟨hempty', hmarks'.trans hmarks⟩, fun hnone => absurd (.inl hm) hnone⟩
    · obtain ⟨hmarked, hunmarked⟩ := ih hlimit.logged hlater hrest
      rw [hlimit.unmarked hm] at hmarked hunmarked
      refine ⟨?_, fun hnone => hunmarked fun hr => hnone (.inr hr)⟩
      rintro (hm' | hr)
      · exact absurd hm' hm
      · exact hmarked hr

theorem emptied_initial (log : Nat → LoopEntry) (adjust : Int) : Emptied (TraceState.initial log adjust) :=
  ⟨rfl, fun _ => rfl⟩

/-! ## A loop at the limit -/

/-- The log has one entry in use, in its first slot: the instruction at `eip`, `n` times. -/
structure SoleEntry (cfg : TraceConfig) (eip : Int) (n : Nat) (s : TraceState) : Prop where
  head_eq : s.loopLogHead = some 0
  count_eq : (s.loopLog 0).count = n
  eip_eq : (s.loopLog 0).eip = eip
  vcpu_eq : (s.loopLog 0).vcpu = cfg.cpuIndex
  rest : ∀ i, 0 < i → i < loopMaxLogEntries → (s.loopLog i).count = 0

theorem SoleEntry.of_log_eq {eip : Int} {n : Nat} (h : SoleEntry cfg eip n s) (hlog : t.loopLog = s.loopLog)
    (hhead : t.loopLogHead = s.loopLogHead) : SoleEntry cfg eip n t :=
  ⟨hhead.trans h.head_eq, hlog ▸ h.count_eq, hlog ▸ h.eip_eq, hlog ▸ h.vcpu_eq, hlog ▸ h.rest⟩

/-- The first instruction in an empty log. -/
theorem Emptied.soleEntry (h : Emptied s) {eip : Int} {regs : Registers} {print : Bool}
    (hadd : skiLoopAddInstruction cfg eip regs s = some (t, print)) : SoleEntry cfg eip 1 t := by
  unfold skiLoopAddInstruction at hadd
  simp only [h.head_eq] at hadd
  cases hadd
  have hstore : skiLoopStoreInstruction cfg eip regs false (s.loopLog 0) = ⟨1, cfg.cpuIndex, eip, regs⟩ :=
    if_pos (.inr (Int.le_of_eq (h.count_eq 0)))
  refine ⟨rfl, ?_, ?_, ?_, ?_⟩
  · exact congrArg LoopEntry.count hstore
  · exact congrArg LoopEntry.eip hstore
  · exact congrArg LoopEntry.vcpu hstore
  · intro i hi _
    show LoopEntry.count (if i = 0 then _ else s.loopLog i) = 0
    rw [if_neg (Nat.ne_of_gt hi)]
    exact h.count_eq i

/-- Another instruction is not in the log. -/
theorem SoleEntry.knownAt_other {eip eip' : Int} {n : Nat} (h : SoleEntry cfg eip n s) (hne : eip' ≠ eip) :
    knownAt cfg eip' s = none := by
  have hfind : skiLoopFindEntry s.loopLog eip' = none := by
    refine List.find?_eq_none.mpr ?_
    intro i hi
    by_cases hzero : i = 0
    · subst hzero
      simp [h.eip_eq, hne.symm]
    · simp [h.rest i (Nat.pos_of_ne_zero hzero) (List.mem_range.mp hi)]
  unfold knownAt
  rw [hfind]
  rfl

section SoleEntry
variable {eip : Int} {n : Nat} (h : SoleEntry cfg eip n s) (hn : 0 < n)
include h

/-- The slots behind the first one hold no loop. -/
theorem SoleEntry.rangeHasLoop_eq :
    rangeHasLoop s.loopLog ((1 + (9 - 1)) % loopMaxLogEntries) loopMaxLogEntries 1 = false := by
  rw [← Bool.not_eq_true, rangeHasLoop_iff s.loopLog (by decide) (by decide) (by decide)]
  rintro ⟨j, hj, hcount⟩
  have hlt : 1 + j < loopMaxLogEntries := by
    unfold loopMaxLogEntries
    omega
  rw [Nat.mod_eq_of_lt hlt, h.rest (1 + j) (by omega) hlt] at hcount
  exact absurd hcount (by decide)

include hn

theorem SoleEntry.used_eq : used (ring s) = [s.loopLog 0] := by
  have hring : ring s = [s.loopLog 1, s.loopLog 2, s.loopLog 3, s.loopLog 4, s.loopLog 5, s.loopLog 6, s.loopLog 7,
      s.loopLog 8, s.loopLog 9, s.loopLog 0] := by
    unfold ring
    rw [h.head_eq]
    rfl
  have hrest := h.rest
  unfold loopMaxLogEntries at hrest
  rw [hring]
  simp [used, hrest, h.count_eq, hn]

/-- Only suppressed iterations are printed. -/
theorem SoleEntry.heldEntries_eq : heldEntries s = if n ≤ 10 then 0 else 1 := by
  unfold heldEntries loopIterationsActivate
  rw [h.used_eq hn]
  simp only [List.map_cons, List.map_nil, List.min?_singleton, h.count_eq, List.length_singleton]
  split_ifs <;> first | omega | simp [h.count_eq]

theorem SoleEntry.knownAt_eq : knownAt cfg eip s = some 0 := by
  have hfind : skiLoopFindEntry s.loopLog eip = some 0 := by
    unfold skiLoopFindEntry
    rw [show List.range loopMaxLogEntries = 0 :: (List.range 9).map Nat.succ from rfl]
    refine List.find?_cons_of_pos ?_
    simp [h.count_eq, h.eip_eq, hn]
  unfold knownAt
  rw [hfind]
  exact Option.filter_some_pos (by simp [h.vcpu_eq])

theorem SoleEntry.leavesLoop_eq : leavesLoop cfg eip s = false := by
  unfold leavesLoop
  simp only [h.head_eq, h.knownAt_eq hn]
  exact h.rangeHasLoop_eq

theorem SoleEntry.isHeld_eq : isHeld cfg eip s = decide (10 ≤ n) := by
  unfold isHeld loopIterationsActivate
  rw [h.leavesLoop_eq hn, h.knownAt_eq hn]
  simp only [Bool.not_false, Bool.true_and, Option.any_some, h.count_eq, decide_eq_decide]
  omega

omit hn in
/-- The other slots are cleared, and they were clear before. -/
theorem SoleEntry.printResetRange_eq : ∃ log, log 0 = s.loopLog 0 ∧
    (∀ i, 0 < i → i < loopMaxLogEntries → (log i).count = 0) ∧
    skiLoopPrintResetRange cfg ((0 + 1) % loopMaxLogEntries) ((0 + loopMaxLogEntries - 1) % loopMaxLogEntries) s
      = some { s with loopLog := log } := by
  -- from the first slot back to the first slot: the jump leaves out the nine other ones
  refine ⟨clearRange ((1 + (9 - 1)) % loopMaxLogEntries) loopMaxLogEntries 1 s.loopLog, ?_, ?_, ?_⟩
  · exact clearRange_jump 0 (show 0 < 9 by decide) (by decide) s.loopLog
  · intro i hi hlt
    have hat := clearRange_at (i := 9) (n := loopMaxLogEntries) (by decide) (by decide) (by decide) 1 s.loopLog
      (j := i - 1) (by unfold loopMaxLogEntries at hlt; omega)
    rw [show 1 + (i - 1) = i by omega, Nat.mod_eq_of_lt hlt] at hat
    rw [hat]
    rfl
  · have hstart : (0 + 1) % loopMaxLogEntries = 1 := rfl
    have hend : (0 + loopMaxLogEntries - 1) % loopMaxLogEntries = (1 + (9 - 1)) % loopMaxLogEntries := rfl
    unfold skiLoopPrintResetRange
    rw [hstart, hend, h.rangeHasLoop_eq]
    rfl

/-- The entry is counted. -/
theorem SoleEntry.store {log : Nat → LoopEntry} (hfirst : log 0 = s.loopLog 0)
    (hrest : ∀ i, 0 < i → i < loopMaxLogEntries → (log i).count = 0) (regs : Registers) (upd : Bool) :
    SoleEntry cfg eip (n + 1) (storeAt cfg 0 eip regs upd { s with loopLog := log }) := by
  have hpos : 0 < (s.loopLog 0).count := by
    rw [h.count_eq]
    omega
  obtain ⟨hcount, heip, hvcpu⟩ := storeInstruction_known hpos h.vcpu_eq regs upd
  rw [h.eip_eq] at hcount heip hvcpu
  rw [h.count_eq] at hcount
  rw [← hfirst] at hcount heip hvcpu
  refine ⟨rfl, hcount, heip, hvcpu, ?_⟩
  intro i hi hlt
  show LoopEntry.count (if i = 0 then _ else _) = 0
  rw [if_neg (Nat.ne_of_gt hi)]
  exact hrest i hi hlt

/-- The instruction once more: the log is searched all around and finds it in the slot it is in. -/
theorem SoleEntry.add {regs : Registers} {print : Bool}
    (hadd : skiLoopAddInstruction cfg eip regs s = some (t, print)) : SoleEntry cfg eip (n + 1) t := by
  obtain ⟨log, hfirst, hrest, hreset⟩ := h.printResetRange_eq
  have hknown := h.knownAt_eq hn
  unfold knownAt at hknown
  unfold skiLoopAddInstruction at hadd
  simp only [h.head_eq, hknown] at hadd
  rw [if_neg (by decide), hreset] at hadd
  simp only [Option.bind_eq_bind, Option.bind_some] at hadd
  split_ifs at hadd
  · cases hadd
    exact h.store hn hfirst hrest regs false
  · cases hadd
    exact h.store hn hfirst hrest regs true

end SoleEntry

/-- The log is empty and `m` entries are in the trace, none of them the comment. -/
structure Fresh (m : Nat) (s : TraceState) : Prop where
  emptied : Emptied s
  nrEntries_eq : s.nrEntries = m
  sched_eq : s.schedInstructionsCurrent = 0
  unmarked : limitMarks s = 0

/-- Since the log was empty the instruction at `eip` was executed `n` times, and nothing else. -/
structure Looping (cfg : TraceConfig) (eip : Int) (n m : Nat) (s : TraceState) : Prop where
  logged : Logged cfg s
  sole : SoleEntry cfg eip n s
  nrEntries_eq : s.nrEntries = m
  sched_eq : s.schedInstructionsCurrent = n
  unmarked : limitMarks s = 0

theorem not_due {k : Nat} (hsched : s.schedInstructionsCurrent = k) (hk : (k : Int) + 1 < schedAdjustModulo) :
    ¬ AdjustmentDue s := by
  rintro ⟨-, hmod⟩
  rw [hsched, Int.emod_eq_of_lt (by omega) hk] at hmod
  omega

section Filling
variable (hactive : cfg.active = true) (hfd : cfg.fdOpen = true) (eip : Int) (regs : Registers)
include hactive hfd

/-- The first instruction after a reset is printed. -/
theorem Fresh.instruction {m : Nat} (h : Fresh m s) (hm : m + 1 < execTraceMaxEntries) :
    ∃ t, traceStep cfg s (.instruction eip regs) = .ok (t, [eip]) ∧ Looping cfg eip 1 (m + 1) t := by
  have hheld : isHeld cfg eip s = false := by
    unfold isHeld
    rw [h.emptied.knownAt_eq]
    simp
  have hentries : loopEntries cfg eip s = 0 := by
    unfold loopEntries
    rw [h.emptied.heldEntries_eq, ite_self]
  have htraces : Traces cfg s := ⟨hactive, hfd, by rw [h.nrEntries_eq]; omega⟩
  obtain ⟨t, hok, hlogged, hsched, hnr, -, hother⟩ :=
    h.emptied.logged.helper_traced htraces (not_due (k := 0) h.sched_eq (by decide)) eip regs
  have hunmarked : ¬ MarksAt cfg eip s := by
    rintro ⟨-, hcount⟩
    rw [hentries, h.nrEntries_eq] at hcount
    omega
  obtain ⟨hmarks, u, hadd, hlog, hhead⟩ := hother hunmarked
  refine ⟨t, by simp [traceStep, hok], hlogged, ?_, ?_, ?_, hmarks.trans h.unmarked⟩
  · have hempty : Emptied { s with schedInstructionsCurrent := s.schedInstructionsCurrent + 1 } :=
      h.emptied.of_log_eq rfl rfl
    exact (hempty.soleEntry hadd).of_log_eq hlog hhead
  · rw [hnr, hentries, hheld, h.nrEntries_eq]
    rfl
  · rw [hsched, h.sched_eq]
    rfl

/-- The same instruction again is printed ten times and then held back. -/
theorem Looping.instruction {n m : Nat} (h : Looping cfg eip n m s) (hn : 0 < n)
    (hsched : (n : Int) + 1 < schedAdjustModulo)
    (hm : m + (if 10 ≤ n then 0 else 1) < execTraceMaxEntries) :
    ∃ t, traceStep cfg s (.instruction eip regs) = .ok (t, [eip]) ∧
      Looping cfg eip (n + 1) (m + if 10 ≤ n then 0 else 1) t := by
  have hheld := h.sole.isHeld_eq hn
  have hentries : loopEntries cfg eip s = 0 := by
    unfold loopEntries
    rw [h.sole.leavesLoop_eq hn]
    rfl
  have htraces : Traces cfg s := ⟨hactive, hfd, by rw [h.nrEntries_eq]; omega⟩
  obtain ⟨t, hok, hlogged, hcounted, hnr, -, hother⟩ :=
    h.logged.helper_traced htraces (not_due h.sched_eq hsched) eip regs
  have hunmarked : ¬ MarksAt cfg eip s := by
    rintro ⟨hprinted, hcount⟩
    rw [hheld, decide_eq_false_iff_not] at hprinted
    rw [hentries, h.nrEntries_eq] at hcount
    rw [if_neg hprinted] at hm
    omega
  obtain ⟨hmarks, u, hadd, hlog, hhead⟩ := hother hunmarked
  refine ⟨t, by simp [traceStep, hok], hlogged, ?_, ?_, ?_, hmarks.trans h.unmarked⟩
  · have hsole : SoleEntry cfg eip n { s with schedInstructionsCurrent := s.schedInstructionsCurrent + 1 } :=
      h.sole.of_log_eq rfl rfl
    exact (hsole.add hn hadd).of_log_eq hlog hhead
  · rw [hnr, hentries, hheld, h.nrEntries_eq, Nat.add_zero]
    simp only [decide_eq_true_eq]
  · rw [hcounted, h.sched_eq]
    rfl

/-- Ten times the same instruction: ten entries. -/
theorem Looping.instructions {n m : Nat} (h : Looping cfg eip n m s) (hn : 0 < n) (k : Nat) (hk : n + k ≤ 10)
    (hm : m + k < execTraceMaxEntries) :
    ∃ t, traceRun cfg s (List.replicate k (.instruction eip regs)) = .ok (t, List.replicate k eip) ∧
      Looping cfg eip (n + k) (m + k) t := by
  induction k generalizing s n m with
  | zero => exact ⟨s, rfl, h⟩
  | succ k ih =>
    have hbelow : ¬ 10 ≤ n := by omega
    have hsched : (n : Int) + 1 < schedAdjustModulo := by
      unfold schedAdjustModulo
      omega
    obtain ⟨t, hstep, ht⟩ := h.instruction hactive hfd eip regs hn hsched (by rw [if_neg hbelow]; omega)
    rw [if_neg hbelow] at ht
    obtain ⟨u, hrun, hu⟩ := ih ht (Nat.succ_pos n) (by omega) (by omega)
    refine ⟨u, ?_, ?_⟩
    · simp [List.replicate_succ, traceRun, hstep, hrun]
    · rwa [show n + (k + 1) = n + 1 + k by omega, show m + (k + 1) = m + 1 + k by omega]

omit hactive hfd in
/-- A thread switch clears the log; nothing was suppressed. -/
theorem Looping.switch {n m : Nat} (h : Looping cfg eip n m s) (hn : 0 < n) (hle : n ≤ 10) (adjust : Int) :
    ∃ t, traceStep cfg s (.switch adjust) = .ok (t, []) ∧ Fresh m t := by
  obtain ⟨u, hflush, hempty, hnr, hmarks⟩ := h.logged.flush_limit
  refine ⟨{ u with schedInstructionsCurrent := 0, priorityAdjust := adjust }, ?_, ?_, ?_, rfl,
    hmarks.trans h.unmarked⟩
  · simp only [traceStep, hflush, orAssert, ok_bind]
  · exact hempty.of_log_eq rfl rfl
  · show u.nrEntries = m
    rw [hnr, h.sole.heldEntries_eq hn, if_pos hle, h.nrEntries_eq]
    rfl

/-- `k` times: one thread executes an instruction, and another one is scheduled. -/
def turns (k : Nat) (eip : Int) (regs : Registers) : List TraceEvent :=
  (List.replicate k [TraceEvent.instruction eip regs, .switch 0]).flatten

/-- **Turns fill the trace, one entry each.** -/
theorem Fresh.turns {m : Nat} (h : Fresh m s) (k : Nat) (hm : m + k < execTraceMaxEntries) :
    ∃ t executed, traceRun cfg s (turns k eip regs) = .ok (t, executed) ∧ Fresh (m + k) t := by
  induction k generalizing s m with
  | zero => exact ⟨s, [], rfl, h⟩
  | succ k ih =>
    obtain ⟨t, hstep, ht⟩ := h.instruction hactive hfd eip regs (by omega)
    obtain ⟨u, hswitch, hu⟩ := ht.switch eip (by decide) (by decide) 0
    obtain ⟨v, executed, hrun, hv⟩ := ih hu (by omega)
    refine ⟨v, eip :: executed, ?_, ?_⟩
    · have hsplit : Trace.turns (k + 1) eip regs = .instruction eip regs :: .switch 0 :: Trace.turns k eip regs := by
        simp [Trace.turns, List.replicate_succ]
      rw [hsplit]
      simp [traceRun, hstep, hswitch, hrun]
    · rwa [show m + (k + 1) = m + 1 + k by omega]

/-- An instruction behind a suppressed loop: the body of the loop is printed, and then the instruction. -/
theorem Looping.leave {n m : Nat} (h : Looping cfg eip n m s) (hn : 10 < n)
    (hsched : (n : Int) + 1 < schedAdjustModulo)
    (hm : m = execTraceMaxEntries - 1) {eip' : Int} (hne : eip' ≠ eip) :
    ∃ t, traceStep cfg s (.instruction eip' regs) = .ok (t, [eip']) ∧ t.nrEntries = execTraceMaxEntries + 1 ∧
      limitMarks t = 0 := by
  have hknown := h.sole.knownAt_other hne
  have hheld : isHeld cfg eip' s = false := by
    unfold isHeld
    rw [hknown]
    simp
  have hentries : loopEntries cfg eip' s = 1 := by
    have hleaves : leavesLoop cfg eip' s = true := by
      unfold leavesLoop
      simp only [h.sole.head_eq, hknown, h.sole.count_eq, decide_eq_true_eq]
      omega
    unfold loopEntries
    rw [hleaves, if_pos rfl, h.sole.heldEntries_eq (by omega), if_neg (by omega)]
  have htraces : Traces cfg s := ⟨hactive, hfd, by rw [h.nrEntries_eq, hm]; decide⟩
  obtain ⟨t, hok, -, -, hnr, -, hother⟩ :=
    h.logged.helper_traced htraces (not_due h.sched_eq hsched) eip' regs
  have hunmarked : ¬ MarksAt cfg eip' s := by
    rintro ⟨-, hcount⟩
    rw [hentries, h.nrEntries_eq, hm] at hcount
    exact absurd hcount (by decide)
  refine ⟨t, by simp [traceStep, hok], ?_, (hother hunmarked).1.trans h.unmarked⟩
  rw [hnr, hentries, hheld, h.nrEntries_eq, hm]
  rfl

end Filling

/-! ## A full trace -/

/-- **A full trace is closed by the comment if and only if an instruction fills it.** In a run that reaches the
    limit of entries, the log ends up flushed and the comment stands in the trace exactly once if and only if
    some instruction was printed when the counter, after the entries of the loop that the instruction left, was
    one below the limit. Otherwise the entries of a loop took the counter past that value, and nothing in the
    trace says that it is full. -/
theorem limit_marked_iff (cfg : TraceConfig) (log : Nat → LoopEntry) (adjust : Int) (events : List TraceEvent)
    (hevs : ∀ ev ∈ events, ev ≠ .comment limitText) {executed : List Int}
    (hrun : traceRun cfg (TraceState.initial log adjust) events = .ok (s, executed))
    (hfull : execTraceMaxEntries ≤ s.nrEntries) :
    Emptied s ∧ s.output.count (.comment (.other limitText)) = 1 ↔
      ∃ before eip regs after t executed', events = before ++ .instruction eip regs :: after ∧
        traceRun cfg (TraceState.initial log adjust) before = .ok (t, executed') ∧ ¬ AdjustmentDue t ∧
        MarksAt cfg eip t := by
  have hstart := emptied_initial log adjust
  have hlogged : Logged cfg (TraceState.initial log adjust) := hstart.logged
  -- without a trace file, or with the CPU outside of the test, the counter stays at zero
  have hon : cfg.active = true ∧ cfg.fdOpen = true := by
    by_contra hoff
    obtain ⟨-, hnr, -⟩ := hstart.run_idle (fun htraces => hoff ⟨htraces.1, htraces.2.1⟩) hevs hrun
    have hzero : s.nrEntries = 0 := hnr
    rw [hzero] at hfull
    exact absurd hfull (by decide)
  obtain ⟨hmarked, hunmarked⟩ := hlogged.run_limit hevs hrun
  constructor
  · rintro ⟨-, hcount⟩
    by_contra hnone
    have hzero : s.output.count (.comment (.other limitText)) = 0 := by
      refine hunmarked ?_
      rintro ⟨before, ev, after, t, executed', hsplit, hbefore, hm⟩
      cases ev with
      | instruction eip regs => exact hnone ⟨before, eip, regs, after, t, executed', hsplit, hbefore, hm.2⟩
      | flush => exact hm
      | switch adjust => exact hm
      | comment text => exact hm
    omega
  · rintro ⟨before, eip, regs, after, t, executed', hsplit, hbefore, hdue, hm⟩
    refine hmarked ⟨before, _, after, t, executed', hsplit, hbefore, ⟨hon.1, hon.2, ?_⟩, hdue, hm⟩
    have hcount := hm.2
    unfold execTraceMaxEntries at hcount ⊢
    omega

/-- No entries, whatever the slots held before. -/
def noEntries : Nat → LoopEntry := fun _ => ⟨0, 0, 0, noRegisters⟩

theorem fresh_initial : Fresh 0 (TraceState.initial noEntries 0) := ⟨emptied_initial _ _, rfl, rfl, rfl⟩

/-- Almost all of the trace is filled; then comes a loop of one instruction, eleven times, and what follows it. -/
def loopAtLimit : List TraceEvent :=
  turns (execTraceMaxEntries - 11) 7 noRegisters ++
    (.instruction 7 noRegisters :: (List.replicate 9 (.instruction 7 noRegisters) ++
      [.instruction 7 noRegisters, .instruction 8 noRegisters]))

theorem mem_turns {k : Nat} {eip : Int} {regs : Registers} {ev : TraceEvent} (h : ev ∈ turns k eip regs) :
    ev ≠ .comment limitText := by
  obtain ⟨l, hl, hev⟩ := List.mem_flatten.mp h
  rw [List.eq_of_mem_replicate hl] at hev
  rintro rfl
  simp at hev

/-- The eleventh iteration of the loop is suppressed when one entry is left. The body of the loop takes it, and
    then the instruction behind the loop is printed past the limit: the trace is full, and the comment is not in
    it. -/
theorem loopAtLimit_unmarked :
    ∃ s executed, traceRun tracedConfig (TraceState.initial noEntries 0) loopAtLimit = .ok (s, executed) ∧
      s.nrEntries = execTraceMaxEntries + 1 ∧ s.output.count (.comment (.other limitText)) = 0 := by
  have hactive : tracedConfig.active = true := rfl
  have hfd : tracedConfig.fdOpen = true := rfl
  obtain ⟨t, now, hturns, ht⟩ :=
    fresh_initial.turns hactive hfd 7 noRegisters (execTraceMaxEntries - 11) (by decide)
  rw [Nat.zero_add] at ht
  obtain ⟨u, hfirst, hu⟩ := ht.instruction hactive hfd 7 noRegisters (by decide)
  obtain ⟨v, hnine, hv⟩ := hu.instructions hactive hfd 7 noRegisters (by decide) 9 (by decide) (by decide)
  obtain ⟨w, hheld, hw⟩ := hv.instruction hactive hfd 7 noRegisters (by decide) (by decide) (by decide)
  obtain ⟨x, hleave, hnr, hmarks⟩ := hw.leave hactive hfd 7 noRegisters (by decide) (by decide) (by decide)
    (show (8 : Int) ≠ 7 by decide)
  refine ⟨x, now ++ (7 :: (List.replicate 9 7 ++ [7, 8])), ?_, hnr, hmarks⟩
  unfold loopAtLimit
  rw [traceRun_append, hturns]
  simp only [ok_bind, traceRun, hfirst, traceRun_append, hnine, hheld, hleave]
  rfl

/-- Without a loop the instruction that fills the trace writes the comment. -/
theorem limit_marked_iff_turns :
    ∃ s executed, traceRun tracedConfig (TraceState.initial noEntries 0)
        (turns (execTraceMaxEntries - 1) 7 noRegisters ++ [.instruction 7 noRegisters]) = .ok (s, executed) ∧
      execTraceMaxEntries ≤ s.nrEntries ∧ Emptied s ∧ s.output.count (.comment (.other limitText)) = 1 := by
  have hactive : tracedConfig.active = true := rfl
  have hfd : tracedConfig.fdOpen = true := rfl
  obtain ⟨t, now, hturns, ht⟩ :=
    fresh_initial.turns hactive hfd 7 noRegisters (execTraceMaxEntries - 1) (by decide)
  rw [Nat.zero_add] at ht
  have hdue : ¬ AdjustmentDue t := not_due (k := 0) ht.sched_eq (by decide)
  have hmarks : MarksAt tracedConfig 7 t := by
    unfold MarksAt isHeld loopEntries
    rw [ht.emptied.knownAt_eq, ht.emptied.heldEntries_eq, ite_self, ht.nrEntries_eq]
    exact ⟨by simp, rfl⟩
  have htraces : Traces tracedConfig t := ⟨hactive, hfd, by rw [ht.nrEntries_eq]; decide⟩
  obtain ⟨s, hok, -, -, hnr, -, -⟩ := ht.emptied.logged.helper_traced htraces hdue 7 noRegisters
  have hfull : execTraceMaxEntries ≤ s.nrEntries := by
    rw [hnr, hmarks.2, hmarks.1]
    decide
  have hrun : traceRun tracedConfig (TraceState.initial noEntries 0)
      (turns (execTraceMaxEntries - 1) 7 noRegisters ++ [.instruction 7 noRegisters]) = .ok (s, now ++ [7]) := by
    rw [traceRun_append, hturns]
    simp [traceRun, traceStep, hok]
  refine ⟨s, _, hrun, hfull, (limit_marked_iff tracedConfig noEntries 0 _ ?_ hrun hfull).mpr ?_⟩
  · intro ev hev
    rcases List.mem_append.mp hev with hev | hev
    · exact mem_turns hev
    · rw [List.mem_singleton.mp hev]
      simp
  · exact ⟨_, 7, noRegisters, [], t, now, rfl, hturns, hdue, hmarks⟩

end SkiVmm.Trace
