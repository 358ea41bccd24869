import SkiVmm.Lib.Ring
import SkiVmm.Trace.LoopLog

/-!
# `Trace.LoopRing` — the loop log as a list

The log read around the ring, oldest entry first and the head last (`ring`). While a loop repeats, the entries
still to come in the current iteration have been seen once less than those already seen in it: around the ring
there is a block of entries with count `c - 1` and then a block with count `c` (`Arranged`). From this
arrangement, `ski_loop_print_reset_all` computes what it prints (`skiLoopPrintResetAll_eq`).
-/

namespace SkiVmm.Trace

open Lib

variable {cfg : TraceConfig} {s : TraceState}

/-- The entries in use. -/
def used (cs : List LoopEntry) : List LoopEntry := cs.filter fun e => 0 < e.count

/-- The log around the ring, beginning behind the head. -/
def ring (s : TraceState) : List LoopEntry :=
  Ring.cells s.loopLog loopMaxLogEntries (afterHead s.loopLogHead)

theorem used_append (l₁ l₂ : List LoopEntry) : used (l₁ ++ l₂) = used l₁ ++ used l₂ := List.filter_append ..

theorem mem_used {cs : List LoopEntry} {e : LoopEntry} : e ∈ used cs ↔ e ∈ cs ∧ 0 < e.count := by
  simp [used]

/-- **The arrangement of counts around the ring**: entries of the current iteration still to come (`older`), then
    those already seen in it (`newer`). -/
structure Arranged (vcpu : Int) (cs : List LoopEntry) (c : Int) (older newer : List LoopEntry) : Prop where
  used_eq : used cs = older ++ newer
  older_count : ∀ e ∈ older, e.count = c - 1
  newer_count : ∀ e ∈ newer, e.count = c
  newer_ne : newer ≠ []
  eips_nodup : ((used cs).map LoopEntry.eip).Nodup
  vcpu_eq : ∀ e ∈ used cs, e.vcpu = vcpu

section Arranged
variable {vcpu c : Int} {cs older newer : List LoopEntry} (h : Arranged vcpu cs c older newer)
include h

theorem Arranged.count_pos : 0 < c := by
  obtain ⟨e, he⟩ := List.exists_mem_of_ne_nil newer h.newer_ne
  have hused : e ∈ used cs := by
    rw [h.used_eq]
    exact List.mem_append_right _ he
  rw [← h.newer_count e he]
  exact (mem_used.mp hused).2

theorem Arranged.one_lt_of_older (hne : older ≠ []) : 1 < c := by
  obtain ⟨e, he⟩ := List.exists_mem_of_ne_nil older hne
  have hused : e ∈ used cs := by
    rw [h.used_eq]
    exact List.mem_append_left _ he
  have hpos := (mem_used.mp hused).2
  rw [h.older_count e he] at hpos
  omega

/-- The ring splits where the current iteration began. -/
theorem Arranged.split : ∃ before y after, cs = before ++ y :: after ∧ used before = older ∧
    used (y :: after) = newer ∧ y.count = c := by
  obtain ⟨l₁, l₂, hcs, h₁, h₂⟩ := List.filter_eq_append_iff.mp h.used_eq
  obtain ⟨y, ys, hnewer⟩ := List.exists_cons_of_ne_nil h.newer_ne
  obtain ⟨k₁, k₂, hl₂, hk₁, hy, hk₂⟩ := List.filter_eq_cons_iff.mp (h₂.trans hnewer)
  have hunused : used k₁ = [] := by
    refine List.filter_eq_nil_iff.mpr ?_
    intro e he
    exact hk₁ e he
  refine ⟨l₁ ++ k₁, y, k₂, ?_, ?_, ?_, ?_⟩
  · rw [hcs, hl₂, List.append_assoc]
  · rw [used_append, hunused, List.append_nil]
    exact h₁
  · rw [← h₂, hl₂]
    show used (y :: k₂) = used (k₁ ++ y :: k₂)
    rw [used_append, hunused, List.nil_append]
  · exact h.newer_count y (by rw [hnewer]; exact List.mem_cons_self)

end Arranged

/-! ## The scan for the least and the largest count -/

/-- The scan as a fold over the ring. -/
theorem scanLog_eq (log : Nat → LoopEntry) (oldPos : Nat) :
    scanLog log oldPos = ((Ring.cells log loopMaxLogEntries oldPos).zipIdx oldPos).foldl
      (fun acc e => scanCount acc e.2 e.1) noCounts := by
  have hzip : (Ring.cells log loopMaxLogEntries oldPos).zipIdx oldPos
      = (List.range loopMaxLogEntries).map
          fun i => (log ((oldPos + i) % loopMaxLogEntries), oldPos + i) := by
    refine List.ext_getElem (by simp) ?_
    intro i h₁ h₂
    simp
  rw [hzip, List.foldl_map]
  rfl

theorem scanCount_unused {e : LoopEntry} (he : ¬ 0 < e.count) (acc : CountScan) (pos : Nat) :
    scanCount acc pos e = acc := if_neg he

/-- An entry with the largest count seen so far does not change the scan. -/
theorem scanCount_max {acc : CountScan} (hmin : 0 < acc.countMin) (hle : acc.countMin ≤ acc.countMax)
    {e : LoopEntry} (he : e.count = acc.countMax) (pos : Nat) : scanCount acc pos e = acc := by
  unfold scanCount
  rw [he, if_pos (by omega), if_neg (by omega), if_neg (by omega), if_neg (by omega), if_neg (by omega),
    if_neg (by omega)]

/-- Entries with the largest count seen so far, and entries not in use, do not change the scan. -/
theorem scan_stable {acc : CountScan} (hmin : 0 < acc.countMin) (hle : acc.countMin ≤ acc.countMax)
    {l : List LoopEntry} (hl : ∀ e ∈ used l, e.count = acc.countMax) (pos : Nat) :
    (l.zipIdx pos).foldl (fun acc e => scanCount acc e.2 e.1) acc = acc := by
  induction l generalizing pos with
  | nil => rfl
  | cons e l ih =>
    have hstep : scanCount acc pos e = acc := by
      by_cases he : 0 < e.count
      · exact scanCount_max hmin hle (hl e (mem_used.mpr ⟨List.mem_cons_self, he⟩)) pos
      · exact scanCount_unused he acc pos
    rw [List.zipIdx_cons, List.foldl_cons, hstep]
    refine ih ?_ (pos + 1)
    intro e' he'
    obtain ⟨hmem, hpos⟩ := mem_used.mp he'
    exact hl e' (mem_used.mpr ⟨List.mem_cons_of_mem _ hmem, hpos⟩)

/-- Entries not in use do not change the scan. -/
theorem scan_unused {l : List LoopEntry} (hl : used l = []) (acc : CountScan) (pos : Nat) :
    (l.zipIdx pos).foldl (fun acc e => scanCount acc e.2 e.1) acc = acc := by
  induction l generalizing pos with
  | nil => rfl
  | cons e l ih =>
    have hunused := List.filter_eq_nil_iff.mp hl
    have he : ¬ 0 < e.count := by simpa using hunused e List.mem_cons_self
    rw [List.zipIdx_cons, List.foldl_cons, scanCount_unused he]
    exact ih (List.filter_eq_nil_iff.mpr fun e' he' => hunused e' (List.mem_cons_of_mem _ he')) (pos + 1)

/-- The first entry in use sets all three results. -/
theorem scanCount_first {e : LoopEntry} (he : 0 < e.count) (pos : Nat) :
    scanCount noCounts pos e = { countMin := e.count, countMax := e.count, firstMaxPos := some pos } := by
  have hmin : noCounts.countMin ≤ 0 := by decide
  have hmax : noCounts.countMax ≤ 0 := by decide
  rw [scanCount, if_pos he, if_pos hmin, if_pos hmax, if_pos (by omega)]

/-- The scan over a block of entries with one count. -/
theorem scan_block {c : Int} {l older : List LoopEntry} (hused : used l = older)
    (hcount : ∀ e ∈ older, e.count = c) (pos : Nat) :
    (older = [] ∧ (l.zipIdx pos).foldl (fun acc e => scanCount acc e.2 e.1) noCounts = noCounts) ∨
    older ≠ [] ∧ ∃ first, (l.zipIdx pos).foldl (fun acc e => scanCount acc e.2 e.1) noCounts
      = { countMin := c, countMax := c, firstMaxPos := some first } := by
  cases older with
  | nil => exact .inl ⟨rfl, scan_unused hused _ _⟩
  | cons a rest =>
    obtain ⟨l₁, l₂, rfl, hl₁, ha, hl₂⟩ := List.filter_eq_cons_iff.mp hused
    have hpos : 0 < a.count := by simpa using ha
    have hac : a.count = c := hcount a List.mem_cons_self
    refine .inr ⟨List.cons_ne_nil _ _, pos + l₁.length, ?_⟩
    rw [List.zipIdx_append, List.foldl_append, scan_unused (List.filter_eq_nil_iff.mpr hl₁),
      List.zipIdx_cons, List.foldl_cons, scanCount_first hpos, hac]
    apply scan_stable
    · show 0 < c
      omega
    · exact Int.le_refl c
    · intro e he
      exact hcount e (List.mem_cons_of_mem _ (hl₂ ▸ he))

/-- **What the scan finds in an arranged ring**: the current iteration begins at the first largest count. -/
theorem Arranged.scan_eq {vcpu c : Int} {older newer before after : List LoopEntry} {y : LoopEntry}
    {log : Nat → LoopEntry} {oldPos : Nat}
    (h : Arranged vcpu (Ring.cells log loopMaxLogEntries oldPos) c older newer)
    (hcs : Ring.cells log loopMaxLogEntries oldPos = before ++ y :: after) (hbefore : used before = older)
    (hafter : used (y :: after) = newer) (hy : y.count = c) :
    scanLog log oldPos
      = { countMin := if older = [] then c else c - 1
          countMax := c
          firstMaxPos := some (oldPos + before.length) } := by
  have hc := h.count_pos
  rw [scanLog_eq, hcs, List.zipIdx_append, List.foldl_append, List.zipIdx_cons, List.foldl_cons]
  have hrest : ∀ e ∈ used after, e.count = c := by
    intro e he
    refine h.newer_count e (hafter ▸ ?_)
    obtain ⟨hmem, hpos⟩ := mem_used.mp he
    exact mem_used.mpr ⟨List.mem_cons_of_mem _ hmem, hpos⟩
  rcases scan_block hbefore h.older_count oldPos with ⟨hnil, hscan⟩ | ⟨hne, first, hscan⟩
  · rw [if_pos hnil]
    rw [hscan]
    simp only
    rw [scanCount_first (by omega), hy]
    apply scan_stable
    · exact hc
    · exact Int.le_refl c
    · exact hrest
  · have hc₁ := h.one_lt_of_older hne
    rw [if_neg hne]
    rw [hscan]
    have hstep : scanCount { countMin := c - 1, countMax := c - 1, firstMaxPos := some first }
        (oldPos + before.length) y
        = { countMin := c - 1, countMax := c, firstMaxPos := some (oldPos + before.length) } := by
      simp only [scanCount, hy, if_pos hc]
      rw [if_neg (by omega), if_neg (by omega), if_neg (by omega), if_pos (by omega), if_pos (by omega)]
    simp only [hstep]
    apply scan_stable
    · show 0 < c - 1
      omega
    · show c - 1 ≤ c
      omega
    · exact hrest

/-! ## What is printed -/

def TraceItem.isEntry : TraceItem → Bool
  | .entry .. => true
  | .comment _ => false

/-- The trace entry of a log entry. -/
def LoopEntry.item (e : LoopEntry) : TraceItem := .entry e.vcpu e.eip e.regs

/-- Between `s` and `t`, `items` went to the trace. Comments are dropped once the limit of entries is reached, so
    the output is only known to be complete below it. -/
structure Writes (cfg : TraceConfig) (s : TraceState) (items : List TraceItem) (t : TraceState) : Prop where
  sched_eq : t.schedInstructionsCurrent = s.schedInstructionsCurrent
  adjust_eq : t.priorityAdjust = s.priorityAdjust
  nrEntries_eq : t.nrEntries = s.nrEntries + items.countP TraceItem.isEntry
  output_eq : cfg.fdOpen = true → t.nrEntries < execTraceMaxEntries → t.output = s.output ++ items

theorem Writes.refl (cfg : TraceConfig) (s : TraceState) : Writes cfg s [] s :=
  ⟨rfl, rfl, rfl, fun _ _ => (List.append_nil _).symm⟩

theorem Writes.trans {items items' : List TraceItem} {t u : TraceState} (h : Writes cfg s items t)
    (h' : Writes cfg t items' u) : Writes cfg s (items ++ items') u := by
  refine ⟨h'.sched_eq.trans h.sched_eq, h'.adjust_eq.trans h.adjust_eq, ?_, ?_⟩
  · rw [h'.nrEntries_eq, h.nrEntries_eq, List.countP_append, Nat.add_assoc]
  · intro hfd hlt
    have hle : t.nrEntries < execTraceMaxEntries := by
      have := h'.nrEntries_eq
      omega
    rw [h'.output_eq hfd hlt, h.output_eq hfd hle, List.append_assoc]

/-- What goes to the trace does not depend on the log. -/
theorem Writes.with_log {items : List TraceItem} {t : TraceState} (h : Writes cfg s items t)
    (log : Nat → LoopEntry) (head : Option Nat) :
    Writes cfg s items { t with loopLog := log, loopLogHead := head } :=
  ⟨h.sched_eq, h.adjust_eq, h.nrEntries_eq, h.output_eq⟩

/-- `t` is `s` after printing `items`; the log is left alone. -/
structure Prints (cfg : TraceConfig) (s : TraceState) (items : List TraceItem) (t : TraceState) : Prop
    extends Writes cfg s items t where
  loopLog_eq : t.loopLog = s.loopLog
  head_eq : t.loopLogHead = s.loopLogHead

theorem Prints.refl (cfg : TraceConfig) (s : TraceState) : Prints cfg s [] s := ⟨Writes.refl cfg s, rfl, rfl⟩

theorem Prints.trans {items items' : List TraceItem} {t u : TraceState} (h : Prints cfg s items t)
    (h' : Prints cfg t items' u) : Prints cfg s (items ++ items') u :=
  ⟨h.toWrites.trans h'.toWrites, h'.loopLog_eq.trans h.loopLog_eq, h'.head_eq.trans h.head_eq⟩

theorem prints_comment (cfg : TraceConfig) (c : TraceComment) (s : TraceState) :
    Prints cfg s [.comment c] (skiExecTracePrintComment cfg c s) := by
  unfold skiExecTracePrintComment
  split_ifs with h
  · exact ⟨⟨rfl, rfl, rfl, fun _ _ => rfl⟩, rfl, rfl⟩
  · refine ⟨⟨rfl, rfl, rfl, ?_⟩, rfl, rfl⟩
    intro hfd hlt
    exact absurd ⟨hfd, hlt⟩ h

theorem prints_entry (cfg : TraceConfig) {e : LoopEntry} (he : 0 < e.count) (s : TraceState) :
    Prints cfg s [e.item] (skiLoopPrintEntry e s) := by
  unfold skiLoopPrintEntry
  rw [if_pos he]
  exact ⟨⟨rfl, rfl, rfl, fun _ _ => rfl⟩, rfl, rfl⟩

/-- A pass around the ring prints the entries in use that satisfy `p`. -/
theorem prints_ring (cfg : TraceConfig) (p : LoopEntry → Bool) (pos : Nat) (s : TraceState) :
    Prints cfg s (((used (Ring.cells s.loopLog loopMaxLogEntries pos)).filter p).map LoopEntry.item)
      (printRing p pos s) := by
  unfold Ring.cells printRing
  generalize List.range loopMaxLogEntries = places
  induction places generalizing s with
  | nil => exact Prints.refl cfg s
  | cons i places ih =>
    rw [List.foldl_cons, List.map_cons]
    obtain ⟨e, he⟩ : ∃ e, e = s.loopLog ((pos + i) % loopMaxLogEntries) := ⟨_, rfl⟩
    simp only [← he]
    have hcons : used (e :: places.map fun i => s.loopLog ((pos + i) % loopMaxLogEntries))
        = used [e] ++ used (places.map fun i => s.loopLog ((pos + i) % loopMaxLogEntries)) :=
      used_append [e] _
    rw [hcons, List.filter_append, List.map_append]
    -- the entry itself, then the rest of the pass on the same log
    have hfirst : Prints cfg s (((used [e]).filter p).map LoopEntry.item)
        (if p e = true then skiLoopPrintEntry e s else s) := by
      by_cases hpos : 0 < e.count
      · by_cases hp : p e = true
        · rw [if_pos hp]
          simpa [used, hpos, hp] using prints_entry cfg hpos s
        · rw [if_neg hp]
          simpa [used, hpos, hp] using Prints.refl cfg s
      · have hsame : (if p e = true then skiLoopPrintEntry e s else s) = s := by
          unfold skiLoopPrintEntry
          rw [if_neg hpos, ite_self]
        rw [hsame]
        simpa [used, hpos] using Prints.refl cfg s
    refine hfirst.trans ?_
    rw [← hfirst.loopLog_eq]
    exact ih _

/-- The number of iterations that all entries have seen. -/
def fullIterations (c : Int) (older : List LoopEntry) : Int := if older = [] then c else c - 1

/-- What `ski_loop_print_reset_all` prints for an arranged log. -/
def loopItems (c : Int) (older newer : List LoopEntry) : List TraceItem :=
  let repeats := fullIterations c older - loopIterationsActivate
  if repeats < 0 then []
  else
    (if repeats ≥ 1 then
      .comment .loopStart :: ((newer ++ older).map LoopEntry.item ++ [.comment (.loopEnd repeats)])
    else []) ++
    (if older ≠ [] then
      newer.map LoopEntry.item ++ (if repeats > 0 then [.comment .loopTailEnd] else [])
    else [])

section Print
variable {vcpu c : Int} {older newer : List LoopEntry} (h : Arranged vcpu (ring s) c older newer)
include h

/-- From the first largest count on, the ring shows the loop in the order in which it runs. -/
theorem Arranged.loop_body {before after : List LoopEntry} {y : LoopEntry} (hcs : ring s = before ++ y :: after)
    (hbefore : used before = older) (hafter : used (y :: after) = newer) :
    (used (Ring.cells s.loopLog loopMaxLogEntries (afterHead s.loopLogHead + before.length))).filter
      (fun e => e.count ≥ fullIterations c older) = newer ++ older := by
  have hrot : Ring.cells s.loopLog loopMaxLogEntries (afterHead s.loopLogHead + before.length)
      = y :: after ++ before := by
    rw [Ring.cells_add]
    show (ring s).rotate before.length = _
    rw [hcs, List.rotate_eq_drop_append_take (by simp), List.drop_left, List.take_left]
  rw [hrot, used_append, hafter, hbefore]
  refine List.filter_eq_self.mpr ?_
  intro e he
  unfold fullIterations
  rcases List.mem_append.mp he with hn | ho
  · have := h.newer_count e hn
    simp
    split_ifs <;> omega
  · have := h.older_count e ho
    rw [if_neg (List.ne_nil_of_mem ho)]
    simp
    omega

/-- The entries with the largest count are those of the current iteration. -/
theorem Arranged.loop_tail :
    (used (Ring.cells s.loopLog loopMaxLogEntries (afterHead s.loopLogHead))).filter (fun e => e.count = c)
      = newer := by
  show (used (ring s)).filter _ = newer
  rw [h.used_eq, List.filter_append]
  have hold : older.filter (fun e => e.count = c) = [] := by
    refine List.filter_eq_nil_iff.mpr ?_
    intro e he
    have := h.older_count e he
    simp
    omega
  have hnew : newer.filter (fun e => e.count = c) = newer := by
    refine List.filter_eq_self.mpr ?_
    intro e he
    simpa using h.newer_count e he
  rw [hold, hnew, List.nil_append]

/-- The scan of an arranged log, and what it makes `printLoop` and `printTail` print. -/
theorem Arranged.scan_spec :
    ∃ scan, scanLog s.loopLog (afterHead s.loopLogHead) = scan ∧ scan.countMin = fullIterations c older ∧
      scan.countMax = c ∧
      (used (Ring.cells s.loopLog loopMaxLogEntries (scan.firstMaxPos.getD 0))).filter
        (fun e => e.count ≥ scan.countMin) = newer ++ older := by
  obtain ⟨before, y, after, hcs, hbefore, hafter, hy⟩ := h.split
  exact ⟨_, Arranged.scan_eq h hcs hbefore hafter hy, rfl, rfl, h.loop_body hcs hbefore hafter⟩

/-- **`ski_loop_print_reset_all` on an arranged log** prints `loopItems` and clears the log; its assertion
    holds. -/
theorem skiLoopPrintResetAll_eq (cfg : TraceConfig) :
    ∃ t, skiLoopPrintResetAll cfg s = some (resetLog t) ∧ Prints cfg s (loopItems c older newer) t := by
  obtain ⟨scan, hscan, hmin, hmax, hbody⟩ := h.scan_spec
  have hgap : ¬ scan.countMax - scan.countMin > 1 := by
    rw [hmin, hmax]
    unfold fullIterations
    split_ifs <;> omega
  have hne : scan.countMin ≠ scan.countMax ↔ older ≠ [] := by
    rw [hmin, hmax]
    unfold fullIterations
    split_ifs with hnil <;> simp [hnil]
  unfold skiLoopPrintResetAll loopItems
  simp only [hscan]
  rw [if_neg hgap, ← hmin]
  by_cases hidle : scan.countMin - loopIterationsActivate < 0
  · rw [if_pos hidle, if_pos hidle]
    exact ⟨s, rfl, Prints.refl cfg s⟩
  · rw [if_neg hidle, if_neg hidle]
    have hloop : Prints cfg s
        (if scan.countMin - loopIterationsActivate ≥ 1 then
          .comment .loopStart :: ((newer ++ older).map LoopEntry.item ++
            [TraceItem.comment (.loopEnd (scan.countMin - loopIterationsActivate))])
        else []) (printLoop cfg scan s) := by
      unfold printLoop
      simp only
      split_ifs
      · have hring := prints_ring cfg (fun e => e.count ≥ scan.countMin) (scan.firstMaxPos.getD 0)
          (skiExecTracePrintComment cfg .loopStart s)
        rw [(prints_comment cfg .loopStart s).loopLog_eq, hbody] at hring
        exact (prints_comment cfg .loopStart s).trans (hring.trans (prints_comment cfg _ _))
      · exact Prints.refl cfg s
    refine ⟨_, rfl, hloop.trans ?_⟩
    unfold printTail
    by_cases hold : older = []
    · rw [if_neg fun hn => hne.mp hn hold, if_neg fun hn => hn hold]
      exact Prints.refl cfg _
    · rw [if_pos (hne.mpr hold), if_pos hold]
      have hring := prints_ring cfg (fun e => e.count = scan.countMax) (afterHead s.loopLogHead)
        (printLoop cfg scan s)
      rw [hloop.loopLog_eq, hmax, h.loop_tail, ← hmax] at hring
      refine hring.trans ?_
      split_ifs
      · exact prints_comment cfg _ _
      · exact Prints.refl cfg _

end Print

/-- On a log without entries, `ski_loop_print_reset_all` prints nothing. -/
theorem skiLoopPrintResetAll_unused (cfg : TraceConfig) (h : used (ring s) = []) :
    skiLoopPrintResetAll cfg s = some (resetLog s) := by
  have hscan : scanLog s.loopLog (afterHead s.loopLogHead) = noCounts := by
    rw [scanLog_eq]
    exact scan_unused h _ _
  unfold skiLoopPrintResetAll
  simp only [hscan]
  rw [if_neg (by decide), if_pos (by decide)]

end SkiVmm.Trace
