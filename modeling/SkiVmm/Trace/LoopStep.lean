import SkiVmm.Trace.LoopExpand

/-!
# `Trace.LoopStep` — one instruction enters the loop log

How `ski_loop_add_instruction` turns the ring, and what that does to the arrangement of the counts and to the
instructions it has suppressed. `skiLoopAddInstruction_spec` is the step lemma: what is printed, what is still
held back and the instruction itself stay in balance.
-/

namespace SkiVmm.Trace

open Lib

variable {cfg : TraceConfig} {s : TraceState}

/-- An entry after it was cleared. -/
def LoopEntry.cleared (e : LoopEntry) : LoopEntry := { e with count := 0 }

/-! ## The arrangement when a known instruction is executed -/

section Touch
variable {vcpu c : Int} {older newer before after : List LoopEntry} {x x' : LoopEntry}
  (h : Arranged vcpu (before ++ x :: after) c older newer) (hx : 0 < x.count)
include h hx

theorem Arranged.used_split : used before ++ x :: used after = older ++ newer := by
  rw [← h.used_eq, used_append]
  congr 1
  exact (List.filter_cons_of_pos (by simpa using hx)).symm

/-- The entries left after `x` was seen again, with `x` the newest. -/
theorem Arranged.touch_base (hcount : x'.count = x.count + 1) (heip : x'.eip = x.eip) (hv : x'.vcpu = vcpu)
    {gap : List LoopEntry} (hgap : used gap = []) :
    used (after ++ gap ++ [x']) = used after ++ [x'] ∧
    ((used (after ++ gap ++ [x'])).map LoopEntry.eip).Nodup ∧
    ∀ e ∈ used (after ++ gap ++ [x']), e.vcpu = vcpu := by
  have hused : used (after ++ gap ++ [x']) = used after ++ [x'] := by
    have hx' : used [x'] = [x'] := List.filter_cons_of_pos (by simpa [hcount] using by omega)
    rw [used_append, used_append, hgap, hx', List.append_nil]
  refine ⟨hused, ?_, ?_⟩
  · have hnodup := h.eips_nodup
    rw [h.used_eq, ← h.used_split hx] at hnodup
    have hsub : ((x :: used after).map LoopEntry.eip).Nodup := by
      refine List.Nodup.sublist ?_ hnodup
      exact (List.sublist_append_right _ _).map _
    rw [hused, List.map_append, List.map_singleton, heip]
    rw [List.map_cons] at hsub
    exact (List.perm_append_singleton _ _).nodup_iff.mpr hsub
  · intro e he
    rw [hused] at he
    rcases List.mem_append.mp he with h' | h'
    · refine h.vcpu_eq e ?_
      rw [h.used_eq, ← h.used_split hx]
      exact List.mem_append_right _ (List.mem_cons_of_mem _ h')
    · rw [List.mem_singleton.mp h', hv]

/-- `x` is either still to come in the current iteration or was already seen in it. -/
theorem Arranged.touch_cases :
    (∃ rest, older = used before ++ x :: rest ∧ used after = rest ++ newer) ∨
    ∃ seen, used before = older ++ seen ∧ newer = seen ++ x :: used after := by
  rcases List.append_eq_append_iff.mp (h.used_split hx) with ⟨mid, hold, hnew⟩ | ⟨seen, hbefore, hnew⟩
  · cases mid with
    | nil => exact .inr ⟨[], by simpa using hold.symm, by simpa using hnew.symm⟩
    | cons y rest =>
      obtain ⟨rfl, hafter⟩ := List.cons.inj hnew
      exact .inl ⟨rest, hold, hafter⟩
  · exact .inr ⟨seen, hbefore, hnew⟩

/-- **A known instruction is executed again.** The entries it jumps over, none of them beyond the limit, are
    dropped. What is suppressed grows by the instruction if its entry was at the limit; if not, nothing was
    suppressed. -/
theorem Arranged.touch (hbefore : ∀ e ∈ before, e.count ≤ loopIterationsActivate)
    (hcount : x'.count = x.count + 1) (heip : x'.eip = x.eip) (hv : x'.vcpu = vcpu) {gap : List LoopEntry}
    (hgap : used gap = []) :
    ∃ c' older' newer', Arranged vcpu (after ++ gap ++ [x']) c' older' newer' ∧ x'.count = c' ∧ c' ≤ c + 1 ∧
      (loopIterationsActivate ≤ x.count → suppressed c' older' newer' = suppressed c older newer ++ [x.eip]) ∧
      (x.count < loopIterationsActivate → suppressed c older newer = [] ∧ suppressed c' older' newer' = []) := by
  obtain ⟨hused, hnodup, hvcpu⟩ := h.touch_base hx hcount heip hv hgap
  have hjumped : ∀ e ∈ used before, e.count ≤ loopIterationsActivate := fun e he => hbefore e (mem_used.mp he).1
  rcases h.touch_cases hx with ⟨rest, hold, hafter⟩ | ⟨seen, hseen, hnew⟩
  · -- `x` was still to come: it joins the entries seen in this iteration
    have hxc : x.count = c - 1 := h.older_count x (by simp [hold])
    refine ⟨c, rest, newer ++ [x'], ⟨?_, ?_, ?_, by simp, hnodup, hvcpu⟩, by omega, by omega, ?_, ?_⟩
    · rw [hused, hafter, List.append_assoc]
    · intro e he
      exact h.older_count e (by simp [hold, he])
    · intro e he
      rcases List.mem_append.mp he with he | he
      · exact h.newer_count e he
      · rw [List.mem_singleton.mp he]
        omega
    · intro hlimit
      by_cases hfirst : c = loopIterationsActivate + 1
      · rw [suppressed_first hfirst, suppressed_first hfirst, List.map_append, List.map_singleton, heip]
      · -- nothing was jumped over: those entries would be beyond the limit
        have hnone : used before = [] := by
          refine List.eq_nil_iff_forall_not_mem.mpr ?_
          intro e he
          have hle := hjumped e he
          have hec := h.older_count e (by simp [hold, he])
          omega
        rw [hold, hnone, List.nil_append]
        exact suppressed_shift (by omega) heip rest newer
    · intro hlimit
      exact ⟨suppressed_of_le (by omega) _ _, suppressed_of_le (by omega) _ _⟩
  · -- `x` was already seen: it is the first entry of a new iteration
    have hxc : x.count = c := h.newer_count x (by simp [hnew])
    refine ⟨c + 1, used after, [x'], ⟨hused, ?_, ?_, by simp, hnodup, hvcpu⟩, by omega, by omega, ?_, ?_⟩
    · intro e he
      rw [h.newer_count e (by simp [hnew, he])]
      omega
    · intro e he
      rw [List.mem_singleton.mp he]
      omega
    · intro hlimit
      by_cases hten : c ≤ loopIterationsActivate
      · rw [suppressed_of_le hten, suppressed_first (by omega), List.map_singleton, heip, List.nil_append]
      · have hnone : seen = [] := by
          refine List.eq_nil_iff_forall_not_mem.mpr ?_
          intro e he
          have hle := hjumped e (by simp [hseen, he])
          have hec := h.newer_count e (by simp [hnew, he])
          omega
        rw [suppressed_wrap hten heip]
        congr 1
        rw [hnew, hnone, List.nil_append]
        by_cases hfirst : c = loopIterationsActivate + 1
        · rw [suppressed_first hfirst, suppressed_first hfirst]
        · have hold : older = [] := by
            refine List.eq_nil_iff_forall_not_mem.mpr ?_
            intro e he
            have hle := hjumped e (by simp [hseen, he])
            have hec := h.older_count e he
            omega
          rw [hold]
    · intro hlimit
      exact ⟨suppressed_of_le (by omega) _ _, suppressed_of_le (by omega) _ _⟩

end Touch

/-! ## Ranges -/

/-- A range of several places does not end where it begins. -/
theorem rangeEnd_ne {i : Nat} (hi : 1 < i) (hn : i ≤ loopMaxLogEntries) (pos : Nat) :
    pos % loopMaxLogEntries ≠ (pos + (i - 1)) % loopMaxLogEntries := by
  intro heq
  have h : 0 = i - 1 := Ring.index_unique (s := pos) (by omega) (by omega) heq
  omega

/-- The check of a range of `i` places, beginning at `pos`. -/
theorem rangeHasLoop_iff (log : Nat → LoopEntry) {n i : Nat} (hi : 0 < i) (hin : i ≤ n)
    (hn : i ≤ loopMaxLogEntries) (pos : Nat) :
    rangeHasLoop log ((pos + (i - 1)) % loopMaxLogEntries) n pos = true ↔
      ∃ j < i, (log ((pos + j) % loopMaxLogEntries)).count > loopIterationsActivate := by
  induction n generalizing pos i with
  | zero => omega
  | succ n ih =>
    unfold rangeHasLoop
    by_cases hloop : (log (pos % loopMaxLogEntries)).count > loopIterationsActivate
    · rw [if_pos hloop]
      exact iff_of_true rfl ⟨0, hi, hloop⟩
    · rw [if_neg hloop]
      by_cases hlast : i = 1
      · subst hlast
        rw [if_pos (by simp)]
        refine iff_of_false Bool.false_ne_true ?_
        rintro ⟨j, hj, hcount⟩
        obtain rfl : j = 0 := by omega
        exact hloop hcount
      · rw [if_neg (rangeEnd_ne (by omega) hn pos), show pos + (i - 1) = pos + 1 + (i - 1 - 1) by omega,
          ih (by omega) (by omega) (by omega)]
        constructor
        · rintro ⟨j, hj, hcount⟩
          exact ⟨j + 1, by omega, by rwa [show pos + (j + 1) = pos + 1 + j by omega]⟩
        · rintro ⟨j, hj, hcount⟩
          cases j with
          | zero => exact absurd hcount hloop
          | succ j => exact ⟨j, by omega, by rwa [show pos + 1 + j = pos + (j + 1) by omega]⟩

/-- Clearing a range of `i` places leaves the other slots alone. -/
theorem clearRange_of_ne {n i : Nat} (hi : 0 < i) (hin : i ≤ n) (hn : i ≤ loopMaxLogEntries) (pos : Nat)
    (log : Nat → LoopEntry) {q : Nat} (hq : ∀ j < i, (pos + j) % loopMaxLogEntries ≠ q) :
    clearRange ((pos + (i - 1)) % loopMaxLogEntries) n pos log q = log q := by
  induction n generalizing pos i log with
  | zero => omega
  | succ n ih =>
    have hq₀ : q ≠ pos % loopMaxLogEntries := (hq 0 hi).symm
    unfold clearRange
    by_cases hlast : i = 1
    · subst hlast
      rw [if_pos (by simp)]
      exact if_neg hq₀
    · rw [if_neg (rangeEnd_ne (by omega) hn pos), show pos + (i - 1) = pos + 1 + (i - 1 - 1) by omega,
        ih (by omega) (by omega) (by omega)]
      · exact if_neg hq₀
      · intro j hj
        rw [show pos + 1 + j = pos + (j + 1) by omega]
        exact hq (j + 1) (by omega)

/-- The places of the range are cleared. -/
theorem clearRange_at {n i : Nat} (hi : 0 < i) (hin : i ≤ n) (hn : i ≤ loopMaxLogEntries) (pos : Nat)
    (log : Nat → LoopEntry) {j : Nat} (hj : j < i) :
    clearRange ((pos + (i - 1)) % loopMaxLogEntries) n pos log ((pos + j) % loopMaxLogEntries)
      = (log ((pos + j) % loopMaxLogEntries)).cleared := by
  induction n generalizing pos i j log with
  | zero => omega
  | succ n ih =>
    unfold clearRange
    by_cases hlast : i = 1
    · subst hlast
      obtain rfl : j = 0 := by omega
      rw [if_pos (by simp)]
      exact if_pos rfl
    · rw [if_neg (rangeEnd_ne (by omega) hn pos), show pos + (i - 1) = pos + 1 + (i - 1 - 1) by omega]
      cases j with
      | zero =>
        -- the rest of the range does not come back to its first place
        rw [clearRange_of_ne (by omega) (by omega) (by omega)]
        · exact if_pos rfl
        · intro j hj' heq
          have h : j + 1 = 0 := by
            refine Ring.index_unique (s := pos) (n := loopMaxLogEntries) (by omega) (by omega) ?_
            rw [← heq]
            congr 1
            omega
          omega
      | succ j =>
        rw [show pos + (j + 1) = pos + 1 + j by omega, ih (by omega) (by omega) (by omega) _ _ (by omega)]
        have hne : (pos + 1 + j) % loopMaxLogEntries ≠ pos % loopMaxLogEntries := by
          intro heq
          have h : j + 1 = 0 := by
            refine Ring.index_unique (s := pos) (n := loopMaxLogEntries) (by omega) (by omega) ?_
            rw [show pos + (j + 1) = pos + 1 + j by omega]
            exact heq
          omega
        rw [if_neg hne]

/-- The last of the places that a jump by `i` leaves out. -/
theorem jumpEnd_eq (head : Nat) {i : Nat} (hi : 0 < i) :
    ((head + 1 + i) % loopMaxLogEntries + loopMaxLogEntries - 1) % loopMaxLogEntries
      = ((head + 1) % loopMaxLogEntries + (i - 1)) % loopMaxLogEntries := by
  unfold loopMaxLogEntries
  omega

/-- The place that is jumped to is not cleared. -/
theorem clearRange_jump (head : Nat) {i : Nat} (hi : 0 < i) (hlt : i < loopMaxLogEntries) (log : Nat → LoopEntry) :
    clearRange (((head + 1 + i) % loopMaxLogEntries + loopMaxLogEntries - 1) % loopMaxLogEntries) loopMaxLogEntries
        ((head + 1) % loopMaxLogEntries) log ((head + 1 + i) % loopMaxLogEntries)
      = log ((head + 1 + i) % loopMaxLogEntries) := by
  rw [jumpEnd_eq head hi]
  refine clearRange_of_ne hi (Nat.le_of_lt hlt) (Nat.le_of_lt hlt) _ _ ?_
  intro j hj heq
  rw [Nat.mod_add_mod] at heq
  have : j = i := Ring.index_unique (s := head + 1) (by omega) hlt heq
  omega

/-- A cleared log stays cleared. -/
theorem clearRange_count {log : Nat → LoopEntry} (h : ∀ q, (log q).count = 0) (resetEnd n pos q : Nat) :
    (clearRange resetEnd n pos log q).count = 0 := by
  induction n generalizing pos log with
  | zero => exact h q
  | succ n ih =>
    have hnext : ∀ q', (if q' = pos % loopMaxLogEntries then { log (pos % loopMaxLogEntries) with count := 0 }
        else log q' : LoopEntry).count = 0 := by
      intro q'
      split_ifs
      · rfl
      · exact h q'
    unfold clearRange
    simp only
    split_ifs with hend
    · exact hnext q
    · exact ih hnext (pos + 1)

/-! ## The ring after an instruction is stored -/

/-- Storing at place `i` of the ring `f` turns it; the entries before that place have been cleared. -/
theorem ring_storeAt (cfg : TraceConfig) (f : Nat → LoopEntry) (start : Nat) {i : Nat} (hi : i < loopMaxLogEntries)
    (hbefore : ∀ j < i, s.loopLog ((start + j) % loopMaxLogEntries)
      = (f ((start + j) % loopMaxLogEntries)).cleared)
    (hafter : ∀ j, i ≤ j → j < loopMaxLogEntries → s.loopLog ((start + j) % loopMaxLogEntries)
      = f ((start + j) % loopMaxLogEntries)) (eip : Int) (regs : Registers) (upd : Bool) :
    ring (storeAt cfg ((start + i) % loopMaxLogEntries) eip regs upd s)
      = (Ring.cells f loopMaxLogEntries start).drop (i + 1) ++
        ((Ring.cells f loopMaxLogEntries start).take i).map LoopEntry.cleared ++
        [skiLoopStoreInstruction cfg eip regs upd (f ((start + i) % loopMaxLogEntries))] := by
  have hother : ∀ j < loopMaxLogEntries, j ≠ i →
      (start + j) % loopMaxLogEntries ≠ (start + i) % loopMaxLogEntries :=
    fun j hj hne heq => hne (Ring.index_unique hj hi heq)
  unfold ring storeAt afterHead
  simp only
  rw [Ring.cells_mod_add, Nat.add_assoc]
  apply Ring.cells_turn hi
  · intro j hj
    rw [if_neg (hother j (by omega) (by omega)), hbefore j hj]
  · rw [if_pos rfl, hafter i (Nat.le_refl i) hi]
  · intro j hij hj
    rw [if_neg (hother j hj (by omega)), hafter j (by omega) hj]

theorem used_eq_nil {l : List LoopEntry} : used l = [] ↔ ∀ e ∈ l, e.count ≤ 0 := by
  simp [used]

theorem used_cleared (l : List LoopEntry) : used (l.map LoopEntry.cleared) = [] := by
  refine used_eq_nil.mpr ?_
  intro e he
  obtain ⟨e', -, rfl⟩ := List.mem_map.mp he
  exact Int.le_refl 0

/-! ## What the log holds back -/

/-- The log is in the state in which a reset leaves it. -/
structure Emptied (s : TraceState) : Prop where
  head_eq : s.loopLogHead = none
  count_eq : ∀ i, (s.loopLog i).count = 0

/-- **The invariant of the log**: its largest count is `c`, and the addresses `pending` were executed and not
    printed. -/
inductive Holds (cfg : TraceConfig) (s : TraceState) : Int → List Int → Prop
  | empty (h : Emptied s) : Holds cfg s 0 []
  | looping {head : Nat} {c : Int} {older newer : List LoopEntry} (hhead : s.loopLogHead = some head)
      (hlt : head < loopMaxLogEntries) (hcount : (s.loopLog head).count = c)
      (harr : Arranged cfg.cpuIndex (ring s) c older newer) : Holds cfg s c (suppressed c older newer)

theorem Arranged.printResetAll {c : Int} {older newer : List LoopEntry}
    (h : Arranged cfg.cpuIndex (ring s) c older newer) :
    ∃ t items, skiLoopPrintResetAll cfg s = some t ∧ Writes cfg s items t ∧
      ExpandsTo items (suppressed c older newer) ∧ Emptied t := by
  obtain ⟨t, hreset, hprints⟩ := skiLoopPrintResetAll_eq h cfg
  refine ⟨resetLog t, _, hreset, ?_, loopItems_expandsTo _ _ _, rfl, fun _ => rfl⟩
  exact hprints.toWrites.with_log _ _

/-- **A reset prints what the log holds back.** -/
theorem Holds.printResetAll {c : Int} {pending : List Int} (h : Holds cfg s c pending) :
    ∃ t items, skiLoopPrintResetAll cfg s = some t ∧ Writes cfg s items t ∧ ExpandsTo items pending ∧
      Emptied t := by
  cases h with
  | empty h =>
    have hunused : used (ring s) = [] := by
      refine used_eq_nil.mpr ?_
      intro e he
      obtain ⟨i, -, rfl⟩ := Ring.mem_cells.mp he
      exact Int.le_of_eq (h.count_eq _)
    refine ⟨resetLog s, [], skiLoopPrintResetAll_unused cfg hunused, ?_, expandsTo_nil, rfl, fun _ => rfl⟩
    exact (Writes.refl cfg s).with_log _ _
  | looping hhead hlt hcount harr => exact harr.printResetAll

/-- The first instruction after a reset. -/
theorem Emptied.store_first (h : ∀ i, (s.loopLog i).count = 0) {pos : Nat} (hpos : pos < loopMaxLogEntries)
    (eip : Int) (regs : Registers) (upd : Bool) : Holds cfg (storeAt cfg pos eip regs upd s) 1 [] := by
  have hsame : ∀ i, (s.loopLog i).cleared = s.loopLog i := by
    intro i
    unfold LoopEntry.cleared
    rw [← h i]
  have hnew : skiLoopStoreInstruction cfg eip regs upd (s.loopLog pos)
      = { count := 1, vcpu := cfg.cpuIndex, eip := eip, regs := regs } := by
    unfold skiLoopStoreInstruction
    rw [if_pos (.inr (Int.le_of_eq (h pos)))]
  have hmod : (0 + pos) % loopMaxLogEntries = pos := by
    rw [Nat.zero_add, Nat.mod_eq_of_lt hpos]
  have hring := ring_storeAt cfg s.loopLog 0 hpos (fun j _ => (hsame _).symm)
    (fun _ _ _ => rfl) eip regs upd
  rw [hmod, hnew] at hring
  have hused : used (ring (storeAt cfg pos eip regs upd s))
      = [{ count := 1, vcpu := cfg.cpuIndex, eip := eip, regs := regs }] := by
    have hdrop : used ((Ring.cells s.loopLog loopMaxLogEntries 0).drop (pos + 1)) = [] := by
      refine used_eq_nil.mpr ?_
      intro e he
      obtain ⟨i, -, rfl⟩ := Ring.mem_cells.mp (List.mem_of_mem_drop he)
      exact Int.le_of_eq (h _)
    rw [hring, used_append, used_append, hdrop, used_cleared]
    rfl
  have hsupp := suppressed_of_le (c := 1) (by decide) [] [LoopEntry.mk 1 cfg.cpuIndex eip regs]
  rw [← hsupp]
  refine .looping rfl hpos ?_ ⟨hused, by simp, by simp, by simp, by simp [hused], by simp [hused]⟩
  show (if pos = pos then _ else _ : LoopEntry).count = 1
  rw [if_pos rfl, hnew]

/-! ## A known instruction -/

theorem mem_ring {e : LoopEntry} : e ∈ ring s ↔ ∃ pos < loopMaxLogEntries, s.loopLog pos = e := by
  unfold ring
  rw [Ring.mem_cells]
  constructor
  · rintro ⟨i, -, heq⟩
    exact ⟨_, Nat.mod_lt _ (by decide), heq⟩
  · rintro ⟨pos, hpos, heq⟩
    obtain ⟨i, hi, hmod⟩ := Ring.exists_index hpos (afterHead s.loopLogHead)
    exact ⟨i, hi, by rw [hmod, heq]⟩

/-- The search for an entry, in a log whose entries are all of this CPU. -/
theorem findEntry_cases (hvcpu : ∀ e ∈ used (ring s), e.vcpu = cfg.cpuIndex) (eip : Int) :
    (∃ pos < loopMaxLogEntries, 0 < (s.loopLog pos).count ∧ (s.loopLog pos).eip = eip ∧
      (skiLoopFindEntry s.loopLog eip).filter (fun pos => (s.loopLog pos).vcpu = cfg.cpuIndex) = some pos) ∨
    (∀ e ∈ used (ring s), e.eip ≠ eip) ∧
      (skiLoopFindEntry s.loopLog eip).filter (fun pos => (s.loopLog pos).vcpu = cfg.cpuIndex) = none := by
  cases hfind : skiLoopFindEntry s.loopLog eip with
  | none =>
    refine .inr ⟨?_, rfl⟩
    intro e he heip
    obtain ⟨hmem, hpos⟩ := mem_used.mp he
    obtain ⟨pos, hlt, rfl⟩ := mem_ring.mp hmem
    have := List.find?_eq_none.mp hfind pos (List.mem_range.mpr hlt)
    simp [hpos, heip] at this
  | some pos =>
    have hmem := List.mem_range.mp (List.mem_of_find?_eq_some hfind)
    have hprop := List.find?_some hfind
    simp only [gt_iff_lt, decide_eq_true_eq] at hprop
    have hv := hvcpu _ (mem_used.mpr ⟨mem_ring.mpr ⟨pos, hmem, rfl⟩, hprop.1⟩)
    refine .inl ⟨pos, hmem, hprop.1, hprop.2, ?_⟩
    rw [Option.filter_some_pos]
    simpa using hv

/-- The stored entry of a known instruction. -/
theorem storeInstruction_known {x : LoopEntry} (hx : 0 < x.count) (hv : x.vcpu = cfg.cpuIndex) (regs : Registers)
    (upd : Bool) :
    (skiLoopStoreInstruction cfg x.eip regs upd x).count = x.count + 1 ∧
    (skiLoopStoreInstruction cfg x.eip regs upd x).eip = x.eip ∧
    (skiLoopStoreInstruction cfg x.eip regs upd x).vcpu = cfg.cpuIndex := by
  unfold skiLoopStoreInstruction
  rw [if_neg (by simp; omega)]
  cases upd with
  | false => exact ⟨rfl, rfl, hv⟩
  | true => exact ⟨rfl, rfl, rfl⟩

section Known
variable {head i : Nat} {c : Int} {older newer : List LoopEntry} (hhead : s.loopLogHead = some head)
  (harr : Arranged cfg.cpuIndex (ring s) c older newer) (hi : i < loopMaxLogEntries)
include hhead harr hi

/-- **A known instruction is stored again**, `i` places behind the next one, in a log `t` in which the entries in
    between have been cleared. -/
theorem Arranged.store_known {t : TraceState}
    (hbefore : ∀ j < i, t.loopLog ((head + 1 + j) % loopMaxLogEntries)
      = (s.loopLog ((head + 1 + j) % loopMaxLogEntries)).cleared)
    (hafter : ∀ j, i ≤ j → j < loopMaxLogEntries → t.loopLog ((head + 1 + j) % loopMaxLogEntries)
      = s.loopLog ((head + 1 + j) % loopMaxLogEntries))
    (hrange : ∀ j < i, (s.loopLog ((head + 1 + j) % loopMaxLogEntries)).count ≤ loopIterationsActivate)
    {x : LoopEntry} (hxe : s.loopLog ((head + 1 + i) % loopMaxLogEntries) = x) (hx : 0 < x.count)
    (regs : Registers) (upd : Bool) :
    ∃ c' pending', Holds cfg (storeAt cfg ((head + 1 + i) % loopMaxLogEntries) x.eip regs upd t) c' pending' ∧
      c' ≤ c + 1 ∧
      (loopIterationsActivate ≤ x.count → pending' = suppressed c older newer ++ [x.eip]) ∧
      (x.count < loopIterationsActivate → suppressed c older newer = [] ∧ pending' = []) := by
  have hcells : ring s = Ring.cells s.loopLog loopMaxLogEntries (head + 1) := by
    unfold ring
    rw [hhead]
    rfl
  have hlen : i < (ring s).length := by
    rw [hcells, Ring.length_cells]
    exact hi
  have hget : (ring s)[i] = x := by
    simp only [hcells, Ring.getElem_cells]
    exact hxe
  have hsplit : ring s = (ring s).take i ++ x :: (ring s).drop (i + 1) := by
    rw [← hget, ← List.drop_eq_getElem_cons, List.take_append_drop]
  have hv : x.vcpu = cfg.cpuIndex := by
    refine harr.vcpu_eq x (mem_used.mpr ⟨?_, hx⟩)
    rw [← hget]
    exact List.getElem_mem hlen
  obtain ⟨hcount, heip, hvcpu⟩ := storeInstruction_known hx hv regs upd
  have hjumped : ∀ e ∈ (ring s).take i, e.count ≤ loopIterationsActivate := by
    intro e he
    obtain ⟨j, hj, rfl⟩ := List.mem_iff_getElem.mp he
    simp only [hcells, List.getElem_take, Ring.getElem_cells]
    rw [List.length_take] at hj
    exact hrange j (by omega)
  rw [hsplit] at harr
  obtain ⟨c', older', newer', harr', hc', hle, hlimit, hbelow⟩ :=
    harr.touch hx hjumped hcount heip hvcpu (used_cleared ((ring s).take i))
  refine ⟨c', suppressed c' older' newer', .looping rfl (Nat.mod_lt _ (by decide)) ?_ ?_, hle, hlimit, hbelow⟩
  · show (if _ = _ then _ else _ : LoopEntry).count = c'
    rw [if_pos rfl, hafter i (Nat.le_refl i) hi, hxe, hc']
  · rw [ring_storeAt cfg s.loopLog (head + 1) hi hbefore hafter, ← hcells, hxe]
    exact harr'

end Known

/-! ## A new instruction -/

/-- A new instruction joins a log in which every entry was seen once. -/
theorem Arranged.store_new {head : Nat} {older newer : List LoopEntry} (hhead : s.loopLogHead = some head)
    (harr : Arranged cfg.cpuIndex (ring s) 1 older newer) {eip : Int} (hnew : ∀ e ∈ used (ring s), e.eip ≠ eip)
    (regs : Registers) : Holds cfg (storeAt cfg ((head + 1) % loopMaxLogEntries) eip regs false s) 1 [] := by
  have hold : older = [] := by
    by_contra hne
    exact absurd (harr.one_lt_of_older hne) (by decide)
  have hcells : ring s = Ring.cells s.loopLog loopMaxLogEntries (head + 1) := by
    unfold ring
    rw [hhead]
    rfl
  have hstore : skiLoopStoreInstruction cfg eip regs false (s.loopLog ((head + 1) % loopMaxLogEntries))
      = { count := 1, vcpu := cfg.cpuIndex, eip := eip, regs := regs } := by
    unfold skiLoopStoreInstruction
    refine if_pos ?_
    by_cases hused : 0 < (s.loopLog ((head + 1) % loopMaxLogEntries)).count
    · refine .inl (hnew _ (mem_used.mpr ⟨mem_ring.mpr ?_, hused⟩))
      exact ⟨_, Nat.mod_lt _ (by decide), rfl⟩
    · exact .inr (by omega)
  have hring := ring_storeAt cfg s.loopLog (head + 1) (show 0 < loopMaxLogEntries by decide)
    (fun j hj => absurd hj (Nat.not_lt_zero j)) (fun _ _ _ => rfl) eip regs false
  rw [Nat.add_zero, hstore, ← hcells, List.take_zero, List.map_nil, List.append_nil, Nat.zero_add] at hring
  have hused : used (ring (storeAt cfg ((head + 1) % loopMaxLogEntries) eip regs false s))
      = used ((ring s).drop 1) ++ [{ count := 1, vcpu := cfg.cpuIndex, eip := eip, regs := regs }] := by
    rw [hring, used_append]
    rfl
  have hsub : (used ((ring s).drop 1)).Sublist (used (ring s)) := (List.drop_sublist 1 _).filter _
  rw [← suppressed_of_le (c := 1) (by decide) [] (used _)]
  refine .looping rfl (Nat.mod_lt _ (by decide)) ?_ ⟨(List.nil_append _).symm, by simp, ?_, ?_, ?_, ?_⟩
  · show (if _ = _ then _ else _ : LoopEntry).count = 1
    rw [if_pos rfl, hstore]
  · intro e he
    rw [hused] at he
    rcases List.mem_append.mp he with he | he
    · apply harr.newer_count e
      have := hsub.subset he
      rwa [harr.used_eq, hold, List.nil_append] at this
    · rw [List.mem_singleton.mp he]
  · rw [hused]
    exact List.append_ne_nil_of_right_ne_nil _ (List.cons_ne_nil _ _)
  · rw [hused, List.map_append, List.map_singleton]
    refine (List.perm_append_singleton _ _).nodup_iff.mpr (List.nodup_cons.mpr ⟨?_, ?_⟩)
    · intro hmem
      obtain ⟨e, he, heip⟩ := List.mem_map.mp hmem
      exact hnew e (hsub.subset he) heip
    · exact harr.eips_nodup.sublist (hsub.map _)
  · intro e he
    rw [hused] at he
    rcases List.mem_append.mp he with he | he
    · exact harr.vcpu_eq e (hsub.subset he)
    · rw [List.mem_singleton.mp he]

/-! ## The step -/

/-- **The outcome of `ski_loop_add_instruction`.** What the log held back stays in balance: if the caller is to
    print the instruction, everything held back was printed before; if not, the instruction is held back too. -/
inductive Added (cfg : TraceConfig) (s : TraceState) (c : Int) (pending : List Int) (eip : Int) (t : TraceState) :
    Bool → Prop
  | printed {items : List TraceItem} {c' : Int} (hwrites : Writes cfg s items t)
      (hitems : ExpandsTo items pending) (hholds : Holds cfg t c' []) (hle : c' ≤ c + 1) :
      Added cfg s c pending eip t true
  | held {items : List TraceItem} {c' : Int} (hwrites : Writes cfg s items t) (hitems : ExpandsTo items [])
      (hholds : Holds cfg t c' (pending ++ [eip])) (hle : c' ≤ c + 1) : Added cfg s c pending eip t false

theorem prints_progress (cfg : TraceConfig) (count : Int) (s : TraceState) :
    ∃ items, Prints cfg s items (commentProgress cfg count s) ∧ ExpandsTo items [] := by
  unfold commentProgress
  split_ifs
  · exact ⟨_, prints_comment cfg _ s, expandsTo_inProgress count⟩
  · exact ⟨[], Prints.refl cfg s, expandsTo_nil⟩

/-- What is held back depends on the log only. -/
theorem Holds.of_log_eq {c : Int} {pending : List Int} (h : Holds cfg s c pending) {t : TraceState}
    (hlog : t.loopLog = s.loopLog) (hhead' : t.loopLogHead = s.loopLogHead) : Holds cfg t c pending := by
  have hring : ring t = ring s := by
    unfold ring
    rw [hlog, hhead']
  cases h with
  | empty h => exact .empty ⟨hhead'.trans h.head_eq, hlog ▸ h.count_eq⟩
  | looping hhead hlt hcount harr => exact .looping (hhead'.trans hhead) hlt (hlog ▸ hcount) (hring ▸ harr)

/-- **Clearing the range between the head and a place further on** either leaves a loop, which is printed and
    all of the log cleared, or clears just the range. -/
theorem skiLoopPrintResetRange_cases {c : Int} {older newer : List LoopEntry}
    (harr : Arranged cfg.cpuIndex (ring s) c older newer) (head : Nat) {i : Nat} (hi : 0 < i)
    (hlt : i < loopMaxLogEntries) :
    (∃ t items, skiLoopPrintResetRange cfg ((head + 1) % loopMaxLogEntries)
        (((head + 1 + i) % loopMaxLogEntries + loopMaxLogEntries - 1) % loopMaxLogEntries) s = some t ∧
      Writes cfg s items t ∧ ExpandsTo items (suppressed c older newer) ∧ ∀ q, (t.loopLog q).count = 0) ∨
    ∃ t, skiLoopPrintResetRange cfg ((head + 1) % loopMaxLogEntries)
        (((head + 1 + i) % loopMaxLogEntries + loopMaxLogEntries - 1) % loopMaxLogEntries) s = some t ∧
      Writes cfg s [] t ∧
      (∀ j < i, (s.loopLog ((head + 1 + j) % loopMaxLogEntries)).count ≤ loopIterationsActivate) ∧
      (∀ j < i, t.loopLog ((head + 1 + j) % loopMaxLogEntries)
        = (s.loopLog ((head + 1 + j) % loopMaxLogEntries)).cleared) ∧
      ∀ j, i ≤ j → j < loopMaxLogEntries → t.loopLog ((head + 1 + j) % loopMaxLogEntries)
        = s.loopLog ((head + 1 + j) % loopMaxLogEntries) := by
  have hplace : ∀ j, (head + 1 + j) % loopMaxLogEntries
      = ((head + 1) % loopMaxLogEntries + j) % loopMaxLogEntries := fun j => (Nat.mod_add_mod _ _ _).symm
  have hle := Nat.le_of_lt hlt
  rw [jumpEnd_eq head hi]
  simp only [hplace]
  generalize (head + 1) % loopMaxLogEntries = start
  have hrange := rangeHasLoop_iff s.loopLog hi hle hle start
  unfold skiLoopPrintResetRange
  by_cases hloop : rangeHasLoop s.loopLog ((start + (i - 1)) % loopMaxLogEntries) loopMaxLogEntries start = true
  · obtain ⟨t, items, hreset, hwrites, hitems, hempty⟩ := harr.printResetAll
    rw [if_pos hloop, hreset]
    exact .inl ⟨_, items, rfl, hwrites.with_log _ _, hitems, clearRange_count hempty.count_eq _ _ _⟩
  · rw [if_neg hloop]
    rw [hrange] at hloop
    refine .inr ⟨_, rfl, (Writes.refl cfg s).with_log _ _, ?_, ?_, ?_⟩
    · intro j hj
      by_contra hgt
      exact hloop ⟨j, hj, by omega⟩
    · intro j hj
      exact clearRange_at hi hle hle start s.loopLog hj
    · intro j hij hj
      refine clearRange_of_ne hi hle hle start s.loopLog ?_
      intro k hk heq
      have : k = j := Ring.index_unique (by omega) hj heq
      omega

section Cases
variable {head : Nat} {c : Int} {older newer : List LoopEntry} (hhead : s.loopLogHead = some head)
  (harr : Arranged cfg.cpuIndex (ring s) c older newer)
include hhead harr

/-- The instruction is the next one in the log. -/
theorem skiLoopAddInstruction_next {eip : Int} (hpos : 0 < (s.loopLog ((head + 1) % loopMaxLogEntries)).count)
    (heip : (s.loopLog ((head + 1) % loopMaxLogEntries)).eip = eip) (regs : Registers)
    (hfind : (skiLoopFindEntry s.loopLog eip).filter (fun pos => (s.loopLog pos).vcpu = cfg.cpuIndex)
      = some ((head + 1) % loopMaxLogEntries)) :
    ∃ t print, skiLoopAddInstruction cfg eip regs s = some (t, print) ∧
      Added cfg s c (suppressed c older newer) eip t print := by
  subst heip
  have hstore := fun upd => harr.store_known hhead (i := 0) (by decide) (t := s)
    (fun j hj => absurd hj (Nat.not_lt_zero j)) (fun _ _ _ => rfl) (fun j hj => absurd hj (Nat.not_lt_zero j))
    rfl hpos regs upd
  rw [Nat.add_zero] at hstore
  unfold skiLoopAddInstruction
  simp only [hhead, hfind]
  rw [if_pos trivial]
  by_cases hlimit : (s.loopLog ((head + 1) % loopMaxLogEntries)).count ≥ loopIterationsActivate
  · rw [if_pos hlimit]
    obtain ⟨c', pending', hholds, hle, hheld, -⟩ := hstore false
    obtain rfl := hheld hlimit
    refine ⟨_, _, rfl, ?_⟩
    obtain ⟨items, hprints, hitems⟩ := prints_progress cfg _ (storeAt cfg _ _ regs false s)
    exact .held (((Writes.refl cfg s).with_log _ _).trans hprints.toWrites) hitems
      (hholds.of_log_eq hprints.loopLog_eq hprints.head_eq) hle
  · rw [if_neg hlimit]
    obtain ⟨c', pending', hholds, hle, -, hbelow⟩ := hstore true
    obtain ⟨hnone, rfl⟩ := hbelow (by omega)
    refine ⟨_, _, rfl, .printed ((Writes.refl cfg s).with_log _ _) ?_ hholds hle⟩
    rw [hnone]
    exact expandsTo_nil

/-- The instruction is in the log, `i` places behind the next one. -/
theorem skiLoopAddInstruction_jump {i : Nat} (hi : 0 < i) (hlt : i < loopMaxLogEntries) {eip : Int}
    (hpos : 0 < (s.loopLog ((head + 1 + i) % loopMaxLogEntries)).count)
    (heip : (s.loopLog ((head + 1 + i) % loopMaxLogEntries)).eip = eip) (regs : Registers)
    (hfind : (skiLoopFindEntry s.loopLog eip).filter (fun pos => (s.loopLog pos).vcpu = cfg.cpuIndex)
      = some ((head + 1 + i) % loopMaxLogEntries)) :
    ∃ t print, skiLoopAddInstruction cfg eip regs s = some (t, print) ∧
      Added cfg s c (suppressed c older newer) eip t print := by
  subst heip
  have hnext : (head + 1 + i) % loopMaxLogEntries ≠ (head + 1) % loopMaxLogEntries := by
    intro heq
    have : i = 0 := Ring.index_unique (s := head + 1) hlt (by decide) heq
    omega
  unfold skiLoopAddInstruction
  simp only [hhead, hfind]
  rw [if_neg hnext]
  rcases skiLoopPrintResetRange_cases harr head hi hlt with
    ⟨t, items, hreset, hwrites, hitems, hzero⟩ | ⟨t, hreset, hwrites, hcounts, hbefore, hafter⟩
  · -- a loop was left: its entry counts from zero again
    have hc := harr.count_pos
    have hfew : ¬ (t.loopLog ((head + 1 + i) % loopMaxLogEntries)).count ≥ loopIterationsActivate := by
      rw [hzero]
      decide
    rw [hreset, Option.bind_eq_bind, Option.bind_some, if_neg hfew]
    refine ⟨_, _, rfl, .printed (hwrites.with_log _ _) hitems ?_ (show 1 ≤ c + 1 by omega)⟩
    exact Emptied.store_first hzero (Nat.mod_lt _ (by decide)) _ regs true
  · have hstore := harr.store_known hhead hlt hbefore hafter hcounts rfl hpos regs
    rw [hreset, Option.bind_eq_bind, Option.bind_some, hafter i (Nat.le_refl i) hlt]
    by_cases hlimit : (s.loopLog ((head + 1 + i) % loopMaxLogEntries)).count ≥ loopIterationsActivate
    · rw [if_pos hlimit]
      obtain ⟨c', pending', hholds, hle, hheld, -⟩ := hstore false
      obtain rfl := hheld hlimit
      exact ⟨_, _, rfl, .held (hwrites.with_log _ _) expandsTo_nil hholds hle⟩
    · rw [if_neg hlimit]
      obtain ⟨c', pending', hholds, hle, -, hbelow⟩ := hstore true
      obtain ⟨hnone, rfl⟩ := hbelow (by omega)
      exact ⟨_, _, rfl, .printed (hwrites.with_log _ _) (hnone ▸ expandsTo_nil) hholds hle⟩

/-- The instruction is not in the log. -/
theorem skiLoopAddInstruction_new (hcount : (s.loopLog head).count = c) {eip : Int}
    (hnew : ∀ e ∈ used (ring s), e.eip ≠ eip) (regs : Registers)
    (hfind : (skiLoopFindEntry s.loopLog eip).filter (fun pos => (s.loopLog pos).vcpu = cfg.cpuIndex) = none) :
    ∃ t print, skiLoopAddInstruction cfg eip regs s = some (t, print) ∧
      Added cfg s c (suppressed c older newer) eip t print := by
  have hc := harr.count_pos
  unfold skiLoopAddInstruction
  simp only [hhead, hfind, hcount]
  by_cases hmany : c > 1
  · -- the log repeated something: it is printed and the log starts anew
    obtain ⟨t, items, hreset, hwrites, hitems, hempty⟩ := harr.printResetAll
    rw [if_pos hmany, hreset, Option.bind_eq_bind, Option.bind_some]
    refine ⟨_, _, rfl, .printed (hwrites.with_log _ _) hitems ?_ (show 1 ≤ c + 1 by omega)⟩
    exact Emptied.store_first hempty.count_eq (Nat.mod_lt _ (by decide)) eip regs false
  · obtain rfl : c = 1 := by omega
    rw [if_neg hmany, Option.bind_eq_bind, Option.bind_some, hhead, suppressed_of_le (by decide)]
    refine ⟨_, _, rfl, .printed ((Writes.refl cfg s).with_log _ _) expandsTo_nil ?_ (show (1 : Int) ≤ 1 + 1 by decide)⟩
    exact harr.store_new hhead hnew regs

end Cases

/-- **The step lemma**: `ski_loop_add_instruction` fails no assertion and keeps the balance. -/
theorem skiLoopAddInstruction_spec {c : Int} {pending : List Int} (h : Holds cfg s c pending) (eip : Int)
    (regs : Registers) :
    ∃ t print, skiLoopAddInstruction cfg eip regs s = some (t, print) ∧ Added cfg s c pending eip t print := by
  cases h with
  | empty h =>
    unfold skiLoopAddInstruction
    simp only [h.head_eq]
    refine ⟨_, _, rfl, .printed ((Writes.refl cfg s).with_log _ _) expandsTo_nil ?_ (show (1 : Int) ≤ 0 + 1 by decide)⟩
    exact Emptied.store_first h.count_eq (by decide) eip regs false
  | @looping head c older newer hhead hlt hcount harr =>
    rcases findEntry_cases harr.vcpu_eq eip with ⟨pos, hpos, hused, heip, hfind⟩ | ⟨hnew, hfind⟩
    · obtain ⟨i, hi, rfl⟩ := Ring.exists_index hpos (head + 1)
      cases i with
      | zero => exact skiLoopAddInstruction_next hhead harr hused heip regs hfind
      | succ i => exact skiLoopAddInstruction_jump hhead harr (Nat.succ_pos i) hi hused heip regs hfind
    · exact skiLoopAddInstruction_new hhead harr hcount hnew regs hfind

end SkiVmm.Trace
