import SkiVmm.Lib.Run
import SkiVmm.Trace.LoopStep

/-!
# `Trace.LoopRun` — a whole trace reads back as what was executed

The invariant of a run (`Balanced`): what the trace reads as, followed by what the loop log still holds back, is
what was executed. Every event keeps it (`traceStep_spec`), a flush empties the log, so a trace that ends with a
flush reads back as exactly the addresses executed (`traceRun_expands`).
-/

namespace SkiVmm.Trace

open Lib

variable {cfg : TraceConfig} {s : TraceState} {executed : List Int}

/-! ## The balance -/

/-- The trace, as long as it is complete, reads as the addresses executed up to those still `pending`. -/
def Reads (s : TraceState) (executed pending : List Int) : Prop :=
  s.nrEntries < execTraceMaxEntries → ∃ l, ExpandsTo s.output l ∧ l ++ pending = executed

/-- Printing moves addresses from those pending to the trace. -/
theorem Reads.writes {now pending : List Int} (h : Reads s executed (now ++ pending)) (hfd : cfg.fdOpen = true)
    {items : List TraceItem} {t : TraceState} (hw : Writes cfg s items t) (hitems : ExpandsTo items now) :
    Reads t executed pending := by
  intro hlt
  have hle : s.nrEntries ≤ t.nrEntries := by
    rw [hw.nrEntries_eq]
    exact Nat.le_add_right _ _
  obtain ⟨l, hl, heq⟩ := h (Nat.lt_of_le_of_lt hle hlt)
  refine ⟨l ++ now, ?_, by rw [List.append_assoc, heq]⟩
  rw [hw.output_eq hfd hlt]
  exact hl.append hitems

theorem Reads.comments {pending : List Int} (h : Reads s executed pending) (hfd : cfg.fdOpen = true)
    {items : List TraceItem} {t : TraceState} (hw : Writes cfg s items t) (hitems : ExpandsTo items []) :
    Reads t executed pending := by
  rw [← List.nil_append pending] at h
  exact h.writes hfd hw hitems

/-- An instruction that is executed is pending at first. -/
theorem Reads.execute {pending : List Int} (h : Reads s executed pending) (eip : Int) :
    Reads s (executed ++ [eip]) (pending ++ [eip]) := by
  intro hlt
  obtain ⟨l, hl, heq⟩ := h hlt
  exact ⟨l, hl, by rw [← List.append_assoc, heq]⟩

/-- **The invariant of a run.** The counts of the log stay below the number of instructions after which a thread
    is taken to starve the others, since that flushes the log; and no entry is printed without an instruction
    that it stands for. -/
structure Balanced (cfg : TraceConfig) (s : TraceState) (executed : List Int) (c : Int) (pending : List Int) :
    Prop where
  holds : Holds cfg s c pending
  sched_nonneg : 0 ≤ s.schedInstructionsCurrent
  count_le : c ≤ s.schedInstructionsCurrent % schedAdjustModulo
  entries_le : s.nrEntries + pending.length ≤ executed.length
  reads : Reads s executed pending

/-- An empty log is in balance with a complete trace. -/
theorem Emptied.balanced (h : Emptied s) (hsched : 0 ≤ s.schedInstructionsCurrent)
    (hle : s.nrEntries ≤ executed.length) (hreads : Reads s executed []) : Balanced cfg s executed 0 [] :=
  ⟨.empty h, hsched, Int.emod_nonneg _ (by decide), hle, hreads⟩

theorem Writes.nrEntries_le {items : List TraceItem} {t : TraceState} (h : Writes cfg s items t) {l : List Int}
    (hitems : ExpandsTo items l) : t.nrEntries ≤ s.nrEntries + l.length := by
  rw [h.nrEntries_eq]
  exact Nat.add_le_add_left hitems.entries_le _

/-- **A flush** leaves nothing pending. -/
theorem Holds.flush {c : Int} {pending : List Int} (h : Holds cfg s c pending) (hreads : Reads s executed pending)
    (hfd : cfg.fdOpen = true) :
    ∃ t, skiLoopFlush cfg s = some t ∧ Emptied t ∧ Reads t executed [] ∧
      t.nrEntries ≤ s.nrEntries + pending.length ∧ t.schedInstructionsCurrent = s.schedInstructionsCurrent := by
  obtain ⟨t, items, hreset, hwrites, hitems, hempty⟩ := h.printResetAll
  rw [← List.append_nil pending] at hreads
  exact ⟨t, hreset, hempty, hreads.writes hfd hwrites hitems, hwrites.nrEntries_le hitems, hwrites.sched_eq⟩

/-- A comment keeps the balance. -/
theorem Balanced.comment {c : Int} {pending : List Int} (h : Balanced cfg s executed c pending)
    (hfd : cfg.fdOpen = true) (text : String) :
    Balanced cfg (skiExecTracePrintComment cfg (.other text) s) executed c pending := by
  have hp := prints_comment cfg (.other text) s
  refine ⟨h.holds.of_log_eq hp.loopLog_eq hp.head_eq, ?_, ?_, ?_, ?_⟩
  · rw [hp.sched_eq]
    exact h.sched_nonneg
  · rw [hp.sched_eq]
    exact h.count_le
  · exact Nat.le_trans (Nat.add_le_add_right (hp.nrEntries_le (expandsTo_other text)) _) h.entries_le
  · exact h.reads.comments hfd hp.toWrites (expandsTo_other text)

/-- A larger count of entries keeps the balance. -/
theorem Balanced.with_nrEntries {c : Int} (h : Balanced cfg s executed c []) {n : Nat} (hn : s.nrEntries ≤ n)
    (hle : n ≤ executed.length) : Balanced cfg { s with nrEntries := n } executed c [] :=
  ⟨h.holds.of_log_eq rfl rfl, h.sched_nonneg, h.count_le, hle, fun hlt => h.reads (Nat.lt_of_le_of_lt hn hlt)⟩

/-! ## The helper -/

section Helper
variable {c : Int} {pending : List Int} (hfd : cfg.fdOpen = true)
include hfd

/-- **An instruction enters the log**: it is accounted for at once, or it is left to the caller to print. -/
theorem Balanced.addInstruction (h : Balanced cfg s executed c pending)
    (hroom : c + 1 ≤ s.schedInstructionsCurrent % schedAdjustModulo) (eip : Int) (regs : Registers) :
    (∃ t c', skiLoopAddInstruction cfg eip regs s = some (t, true) ∧ Balanced cfg t executed c' [] ∧
      t.schedInstructionsCurrent = s.schedInstructionsCurrent) ∨
    ∃ t c' pending', skiLoopAddInstruction cfg eip regs s = some (t, false) ∧
      Balanced cfg t (executed ++ [eip]) c' pending' ∧
      t.schedInstructionsCurrent = s.schedInstructionsCurrent := by
  obtain ⟨t, print, hadd, hadded⟩ := skiLoopAddInstruction_spec h.holds eip regs
  cases hadded with
  | @printed items c' hwrites hitems hholds hle =>
    have hreads := h.reads
    rw [← List.append_nil pending] at hreads
    refine .inl ⟨t, c', hadd, ⟨hholds, ?_, ?_, ?_, hreads.writes hfd hwrites hitems⟩, hwrites.sched_eq⟩
    · rw [hwrites.sched_eq]
      exact h.sched_nonneg
    · rw [hwrites.sched_eq]
      exact Int.le_trans hle hroom
    · exact Nat.le_trans (hwrites.nrEntries_le hitems) h.entries_le
  | @held items c' hwrites hitems hholds hle =>
    have hreads := (h.reads.execute eip).comments hfd hwrites hitems
    refine .inr ⟨t, c', pending ++ [eip], hadd, ⟨hholds, ?_, ?_, ?_, hreads⟩, hwrites.sched_eq⟩
    · rw [hwrites.sched_eq]
      exact h.sched_nonneg
    · rw [hwrites.sched_eq]
      exact Int.le_trans hle hroom
    · have hnr := hwrites.nrEntries_le hitems
      have hentries := h.entries_le
      simp only [List.length_append, List.length_singleton, List.length_nil] at hnr ⊢
      omega

/-- The caller prints the instruction. The last entry below the limit flushes the log first. -/
theorem Balanced.print (h : Balanced cfg s executed c []) (htrace : cfg.traceInstructions = true)
    (eip : Int) (regs : Registers) :
    ∃ t c', printInstruction cfg eip regs s = .ok t ∧ Balanced cfg t (executed ++ [eip]) c' [] ∧
      t.schedInstructionsCurrent = s.schedInstructionsCurrent := by
  have hentry : Balanced cfg { s with output := s.output ++ [.entry cfg.cpuIndex eip regs] } (executed ++ [eip]) c
      [] := by
    refine ⟨h.holds.of_log_eq rfl rfl, h.sched_nonneg, h.count_le, ?_, ?_⟩
    · rw [List.length_append]
      exact Nat.le_add_right_of_le h.entries_le
    intro hlt
    obtain ⟨l, hl, heq⟩ := h.reads hlt
    rw [List.append_nil] at heq
    exact ⟨l ++ [eip], hl.append (expandsTo_entry _ _ _), by rw [List.append_nil, heq]⟩
  -- the entry is printed before it is counted
  have hcount : ∀ {n}, n ≤ s.nrEntries → n + 1 ≤ (executed ++ [eip]).length := by
    intro n hn
    rw [List.length_append]
    exact Nat.succ_le_succ (Nat.le_trans hn h.entries_le)
  unfold printInstruction skiExecTracePrintEntry
  rw [if_pos htrace]
  simp only
  by_cases hlast : s.nrEntries = execTraceMaxEntries - 1
  · obtain ⟨t, hflush, hempty, hreads, hnr, hsched⟩ := hentry.holds.flush hentry.reads hfd
    have hbal : Balanced cfg t (executed ++ [eip]) 0 [] :=
      hempty.balanced (hsched ▸ h.sched_nonneg) (Nat.le_of_succ_le (hcount hnr)) hreads
    have hcomment := prints_comment cfg (.other "Max entries in trace reached") t
    rw [if_pos hlast, hflush]
    refine ⟨_, 0, rfl, ?_, ?_⟩
    · apply (hbal.comment hfd "Max entries in trace reached").with_nrEntries (Nat.le_succ _)
      apply hcount
      exact Nat.le_trans (hcomment.nrEntries_le (expandsTo_other _)) hnr
    · exact hcomment.sched_eq.trans hsched
  · rw [if_neg hlast]
    exact ⟨_, c, rfl, hentry.with_nrEntries (Nat.le_succ _) (hcount (Nat.le_refl _)), rfl⟩

/-- **The helper lets the instruction execute**, unless its thread is due for a starvation adjustment. -/
theorem Balanced.helper (h : Balanced cfg s executed c pending) (hactive : cfg.active = true)
    (htrace : cfg.traceInstructions = true)
    (hdue : (s.schedInstructionsCurrent + 1) % schedAdjustModulo ≠ 0) (eip : Int) (regs : Registers) :
    ∃ t c' pending', helperSkiInstrumentAll cfg eip regs s = .ok (t, true) ∧
      Balanced cfg t (executed ++ [eip]) c' pending' ∧
      t.schedInstructionsCurrent = s.schedInstructionsCurrent + 1 := by
  have hroom : c + 1 ≤ (s.schedInstructionsCurrent + 1) % schedAdjustModulo := by
    have hle := h.count_le
    unfold schedAdjustModulo at hle hdue ⊢
    omega
  have hcounted : Balanced cfg { s with schedInstructionsCurrent := s.schedInstructionsCurrent + 1 } executed c
      pending := by
    refine ⟨h.holds.of_log_eq rfl rfl, ?_, ?_, h.entries_le, h.reads⟩
    · exact Int.le_add_one h.sched_nonneg
    · exact Int.le_trans (Int.le_add_one (Int.le_refl c)) hroom
  unfold helperSkiInstrumentAll skiThreadsAdjustPriorityCurrent
  rw [if_neg (by simp [hactive])]
  simp only
  rw [if_neg fun hadj => hdue hadj.2]
  simp only [ok_bind, Bool.false_eq_true, if_false]
  by_cases hlimit : cfg.fdOpen = true ∧ s.nrEntries < execTraceMaxEntries
  · rw [if_pos hlimit]
    rcases hcounted.addInstruction hfd hroom eip regs with
      ⟨t, c', hadd, hbal, hsched⟩ | ⟨t, c', pending', hadd, hbal, hsched⟩
    · obtain ⟨u, c'', hprint, hbal', hsched'⟩ := hbal.print hfd htrace eip regs
      rw [hadd]
      exact ⟨u, c'', [], by simp [orAssert, hprint], hbal', hsched'.trans hsched⟩
    · rw [hadd]
      exact ⟨t, c', pending', by simp [orAssert], hbal, hsched⟩
  · -- the limit of entries is reached: nothing is said of the trace any more
    rw [if_neg hlimit]
    refine ⟨_, c, pending, rfl, ⟨hcounted.holds, hcounted.sched_nonneg, hcounted.count_le, ?_, ?_⟩, rfl⟩
    · rw [List.length_append]
      exact Nat.le_add_right_of_le h.entries_le
    · intro hlt
      exact absurd ⟨hfd, hlt⟩ hlimit

/-- **A thread due for a starvation adjustment** executes nothing: it is adjusted after a flush, or the process
    exits. -/
theorem Balanced.helper_adjusts (h : Balanced cfg s executed c pending) (hactive : cfg.active = true)
    (hdue : (s.schedInstructionsCurrent + 1) % schedAdjustModulo = 0) (eip : Int) (regs : Registers) :
    helperSkiInstrumentAll cfg eip regs s = .error .maxPriorityAdj ∨
    ∃ t, helperSkiInstrumentAll cfg eip regs s = .ok (t, false) ∧ Balanced cfg t executed 0 [] := by
  have hnonneg : 0 ≤ s.schedInstructionsCurrent + 1 := Int.le_add_one h.sched_nonneg
  obtain ⟨t, ht⟩ : ∃ t, t = skiExecTracePrintComment cfg (.other "Priority adjustment")
    { s with schedInstructionsCurrent := s.schedInstructionsCurrent + 1 } := ⟨_, rfl⟩
  have hcomment := prints_comment cfg (.other "Priority adjustment")
    { s with schedInstructionsCurrent := s.schedInstructionsCurrent + 1 }
  rw [← ht] at hcomment
  have hcounted : Reads { s with schedInstructionsCurrent := s.schedInstructionsCurrent + 1 } executed pending :=
    h.reads
  have hreads : Reads t executed pending := hcounted.comments hfd hcomment.toWrites (expandsTo_other _)
  unfold helperSkiInstrumentAll skiThreadsAdjustPriorityCurrent
  rw [if_neg (by simp [hactive])]
  simp only
  rw [if_pos ⟨hnonneg, hdue⟩, ← ht]
  by_cases hmax : s.priorityAdjust + schedAdjustInc < debugMaxAdjust
  · obtain ⟨u, hflush, hempty, hreads', hnr, hsched⟩ :=
      (h.holds.of_log_eq (t := { t with priorityAdjust := s.priorityAdjust + schedAdjustInc })
        hcomment.loopLog_eq hcomment.head_eq).flush hreads hfd
    have hbal : Balanced cfg u executed 0 [] := by
      refine hempty.balanced ?_ ?_ hreads'
      · rw [hsched]
        exact hcomment.sched_eq ▸ hnonneg
      · have hle : t.nrEntries ≤ s.nrEntries := hcomment.nrEntries_le (expandsTo_other _)
        exact Nat.le_trans hnr (Nat.le_trans (Nat.add_le_add_right hle _) h.entries_le)
    rw [if_pos hmax]
    refine .inr ⟨_, ?_, hbal.comment hfd "Adjusted priorities"⟩
    simp only [ok_bind, if_true, hflush, orAssert]
  · rw [if_neg hmax]
    exact .inl rfl

end Helper

/-! ## Events and runs -/

/-- The addresses at which the helper is called during a run. -/
def addresses : List TraceEvent → List Int
  | [] => []
  | .instruction eip _ :: evs => eip :: addresses evs
  | _ :: evs => addresses evs

theorem traceRun_append (cfg : TraceConfig) (s : TraceState) (evs evs' : List TraceEvent) :
    traceRun cfg s (evs ++ evs') = (do
      let (t, now) ← traceRun cfg s evs
      let (u, later) ← traceRun cfg t evs'
      .ok (u, now ++ later)) := by
  induction evs generalizing s with
  | nil =>
    rw [List.nil_append, traceRun]
    simp only [ok_bind]
    cases traceRun cfg s evs' <;> rfl
  | cons ev evs ih =>
    rw [List.cons_append, traceRun, traceRun]
    cases traceStep cfg s ev with
    | error e => rfl
    | ok r =>
      obtain ⟨t, now⟩ := r
      simp only [ok_bind, ih]
      cases traceRun cfg t evs with
      | error e => rfl
      | ok r =>
        obtain ⟨u, later⟩ := r
        simp only [ok_bind]
        cases traceRun cfg u evs' <;> simp

section Run
variable {c : Int} {pending : List Int} (hactive : cfg.active = true) (hfd : cfg.fdOpen = true)
  (htrace : cfg.traceInstructions = true)
include hfd

/-- Events other than instructions do not end the process, and do not raise the count of instructions. -/
theorem traceStep_other (h : Balanced cfg s executed c pending) {ev : TraceEvent}
    (hev : ∀ eip regs, ev ≠ .instruction eip regs) :
    ∃ t c' pending', traceStep cfg s ev = .ok (t, []) ∧ Balanced cfg t executed c' pending' ∧
      t.schedInstructionsCurrent ≤ s.schedInstructionsCurrent := by
  cases ev with
  | instruction eip regs => exact absurd rfl (hev eip regs)
  | flush =>
    obtain ⟨t, hflush, hempty, hreads, hnr, hsched⟩ := h.holds.flush h.reads hfd
    have hle := Nat.le_trans hnr h.entries_le
    refine ⟨t, 0, [], ?_, hempty.balanced (hsched ▸ h.sched_nonneg) hle hreads, Int.le_of_eq hsched⟩
    simp [traceStep, hflush, orAssert]
  | switch adjust =>
    obtain ⟨t, hflush, hempty, hreads, hnr, hsched⟩ := h.holds.flush h.reads hfd
    have hle := Nat.le_trans hnr h.entries_le
    refine ⟨{ t with schedInstructionsCurrent := 0, priorityAdjust := adjust }, 0, [], ?_, ?_, h.sched_nonneg⟩
    · simp [traceStep, hflush, orAssert]
    · exact Emptied.balanced ⟨hempty.head_eq, hempty.count_eq⟩ (Int.le_refl 0) hle hreads
  | comment text =>
    refine ⟨_, c, pending, rfl, h.comment hfd text, ?_⟩
    exact Int.le_of_eq (prints_comment cfg _ s).sched_eq

/-- A last flush completes the trace. -/
theorem Balanced.flush_last (h : Balanced cfg s executed c pending) :
    ∃ t, traceRun cfg s [.flush] = .ok (t, []) ∧ t.nrEntries ≤ executed.length ∧
      (t.nrEntries < execTraceMaxEntries → expand t.output = executed) := by
  obtain ⟨t, hflush, -, hreads, hnr, -⟩ := h.holds.flush h.reads hfd
  refine ⟨t, by simp [traceRun, traceStep, hflush, orAssert], Nat.le_trans hnr h.entries_le, ?_⟩
  intro hlt
  obtain ⟨l, hl, heq⟩ := hreads hlt
  rw [hl.expand_eq, ← heq, List.append_nil]

include hactive htrace

/-- **Every event keeps the balance**, or ends the process because of starvation. -/
theorem traceStep_spec (h : Balanced cfg s executed c pending) (ev : TraceEvent) :
    traceStep cfg s ev = .error .maxPriorityAdj ∨
    ∃ t now c' pending', traceStep cfg s ev = .ok (t, now) ∧ Balanced cfg t (executed ++ now) c' pending' := by
  by_cases hev : ∃ eip regs, ev = .instruction eip regs
  · obtain ⟨eip, regs, rfl⟩ := hev
    by_cases hdue : (s.schedInstructionsCurrent + 1) % schedAdjustModulo = 0
    · rcases h.helper_adjusts hfd hactive hdue eip regs with herr | ⟨t, hok, hbal⟩
      · exact .inl (by simp [traceStep, herr])
      · refine .inr ⟨t, [], 0, [], by simp [traceStep, hok], ?_⟩
        rwa [List.append_nil]
    · obtain ⟨t, c', pending', hok, hbal, -⟩ := h.helper hfd hactive htrace hdue eip regs
      exact .inr ⟨t, [eip], c', pending', by simp [traceStep, hok], hbal⟩
  · obtain ⟨t, c', pending', hok, hbal, -⟩ := traceStep_other hfd h fun eip regs heq => hev ⟨eip, regs, heq⟩
    refine .inr ⟨t, [], c', pending', hok, ?_⟩
    rwa [List.append_nil]

/-- **Every run keeps the balance.** -/
theorem traceRun_spec (h : Balanced cfg s executed c pending) (evs : List TraceEvent) :
    traceRun cfg s evs = .error .maxPriorityAdj ∨
    ∃ t now c' pending', traceRun cfg s evs = .ok (t, now) ∧ Balanced cfg t (executed ++ now) c' pending' := by
  induction evs generalizing s executed c pending with
  | nil => exact .inr ⟨s, [], c, pending, rfl, by rwa [List.append_nil]⟩
  | cons ev evs ih =>
    unfold traceRun
    rcases traceStep_spec hactive hfd htrace h ev with herr | ⟨t, now, c', pending', hok, hbal⟩
    · exact .inl (by simp [herr])
    · rw [hok]
      rcases ih hbal with herr | ⟨u, later, c'', pending'', hok', hbal'⟩
      · exact .inl (by simp [herr])
      · refine .inr ⟨u, now ++ later, c'', pending'', by simp [hok'], ?_⟩
        rwa [← List.append_assoc]

/-- A run that is too short for a starvation adjustment executes every instruction. -/
theorem traceRun_short (h : Balanced cfg s executed c pending) (evs : List TraceEvent)
    (hlen : s.schedInstructionsCurrent + (addresses evs).length < schedAdjustModulo) :
    ∃ t c' pending', traceRun cfg s evs = .ok (t, addresses evs) ∧
      Balanced cfg t (executed ++ addresses evs) c' pending' := by
  induction evs generalizing s executed c pending with
  | nil => exact ⟨s, c, pending, rfl, by rwa [addresses, List.append_nil]⟩
  | cons ev evs ih =>
    by_cases hev : ∃ eip regs, ev = .instruction eip regs
    · obtain ⟨eip, regs, rfl⟩ := hev
      rw [addresses, List.length_cons] at hlen
      have hnonneg := h.sched_nonneg
      have hdue : (s.schedInstructionsCurrent + 1) % schedAdjustModulo ≠ 0 := by
        rw [Int.emod_eq_of_lt (by omega) (by omega)]
        omega
      obtain ⟨t, c', pending', hok, hbal, hsched⟩ := h.helper hfd hactive htrace hdue eip regs
      obtain ⟨u, c'', pending'', hok', hbal'⟩ := ih hbal (by omega)
      refine ⟨u, c'', pending'', ?_, ?_⟩
      · simp [traceRun, traceStep, hok, hok', addresses]
      · rwa [addresses, ← List.singleton_append, ← List.append_assoc]
    · have hother : addresses (ev :: evs) = addresses evs := by
        cases ev with
        | instruction eip regs => exact absurd ⟨eip, regs, rfl⟩ hev
        | flush => rfl
        | switch adjust => rfl
        | comment text => rfl
      rw [hother] at hlen ⊢
      obtain ⟨t, c', pending', hok, hbal, hsched⟩ :=
        traceStep_other hfd h fun eip regs heq => hev ⟨eip, regs, heq⟩
      obtain ⟨u, c'', pending'', hok', hbal'⟩ := ih hbal (by omega)
      exact ⟨u, c'', pending'', by simp [traceRun, hok, hok'], hbal'⟩

end Run

/-- At the start nothing was executed and nothing is held back. -/
theorem balanced_initial (cfg : TraceConfig) (log : Nat → LoopEntry) (adjust : Int) :
    Balanced cfg (TraceState.initial log adjust) [] 0 [] := by
  refine Emptied.balanced ⟨rfl, fun _ => rfl⟩ (Int.le_refl 0) (Nat.le_refl 0) ?_
  intro _
  exact ⟨[], expandsTo_nil, rfl⟩

/-- **A trace that ends with a flush reads back as what was executed.** The run may end early only because a
    thread starved the others for too long, and never for a failed assertion; below the limit of entries, which
    are no more than the instructions executed, the trace expands to exactly their addresses. A run without
    starvation executes every instruction. -/
theorem traceRun_expands (cfg : TraceConfig) (hactive : cfg.active = true) (hfd : cfg.fdOpen = true)
    (htrace : cfg.traceInstructions = true) (log : Nat → LoopEntry) (adjust : Int) (events : List TraceEvent) :
    (traceRun cfg (TraceState.initial log adjust) (events ++ [.flush]) = .error .maxPriorityAdj ∨
      ∃ s executed, traceRun cfg (TraceState.initial log adjust) (events ++ [.flush]) = .ok (s, executed) ∧
        s.nrEntries ≤ executed.length ∧ (s.nrEntries < execTraceMaxEntries → expand s.output = executed)) ∧
    ((addresses events).length < schedAdjustModulo →
      ∃ s, traceRun cfg (TraceState.initial log adjust) (events ++ [.flush]) = .ok (s, addresses events)) := by
  have hstart := balanced_initial cfg log adjust
  rw [traceRun_append]
  constructor
  · rcases traceRun_spec hactive hfd htrace hstart events with herr | ⟨t, now, c, pending, hok, hbal⟩
    · exact .inl (by simp [herr])
    · obtain ⟨u, hflush, hle, hexpand⟩ := hbal.flush_last hfd
      exact .inr ⟨u, now, by simp [hok, hflush], hle, hexpand⟩
  · intro hlen
    obtain ⟨t, c, pending, hok, hbal⟩ := traceRun_short hactive hfd htrace hstart events (by
      show 0 + _ < _
      omega)
    obtain ⟨u, hflush, -⟩ := hbal.flush_last hfd
    exact ⟨u, by simp [hok, hflush]⟩

/-- A test on CPU 0 whose trace shows instructions. -/
def tracedConfig : TraceConfig where
  cpuIndex := 0
  active := true
  fdOpen := true
  traceInstructions := true

def noRegisters : Registers := ⟨0, 0, 0, 0, 0, 0, 0, 0, 0, 0, 0, 0, 0⟩

/-- One instruction thirteen times: the last three are only in the trace as a loop. -/
theorem traceRun_expands_thirteen :
    ∃ s, traceRun tracedConfig (TraceState.initial (fun _ => ⟨0, 0, 0, noRegisters⟩) 0)
        (List.replicate 13 (.instruction 7 noRegisters) ++ [.flush]) = .ok (s, List.replicate 13 7) ∧
      s.nrEntries < execTraceMaxEntries ∧ expand s.output = List.replicate 13 7 := by
  obtain ⟨hrun, hshort⟩ := traceRun_expands tracedConfig rfl rfl rfl
    (fun _ => ⟨0, 0, 0, noRegisters⟩) 0 (List.replicate 13 (.instruction 7 noRegisters))
  obtain ⟨s, hs⟩ := hshort (by decide)
  rw [hs] at hrun
  rcases hrun with herr | ⟨t, executed, hok, hle, hexpand⟩
  · cases herr
  · cases hok
    have hlt : s.nrEntries < execTraceMaxEntries := Nat.lt_of_le_of_lt hle (by decide)
    exact ⟨s, hs, hlt, hexpand hlt⟩

end SkiVmm.Trace
