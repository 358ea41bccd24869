import SkiVmm.Trace.LoopRing

/-!
# `Trace.LoopExpand` — reading a compressed trace

`expand` is the reader of a trace: an entry stands for one instruction, and the body of a loop for as many copies
as its end says. The instructions that an arranged log has counted but not printed are `suppressed`; what
`ski_loop_print_reset_all` prints for the log reads as exactly these (`loopItems_expandsTo`).
-/

namespace SkiVmm.Trace

/-! ## The reader -/

/-- What was read so far, and the body of the loop being read. -/
structure Expansion where
  done : List Int
  body : Option (List Int)
  deriving DecidableEq

def expandItem (acc : Expansion) : TraceItem → Expansion
  | .entry _ eip _ =>
    match acc.body with
    | none => { acc with done := acc.done ++ [eip] }
    | some body => { acc with body := some (body ++ [eip]) }
  | .comment .loopStart => { acc with body := some [] }
  | .comment (.loopEnd times) =>
    { done := acc.done ++ (List.replicate times.toNat (acc.body.getD [])).flatten, body := none }
  | .comment _ => acc

/-- The addresses that a trace stands for. -/
def expand (items : List TraceItem) : List Int := (items.foldl expandItem { done := [], body := none }).done

/-- `items` is a part of a trace outside of loops that stands for the addresses `l`, each entry for at least one
    of them. -/
structure ExpandsTo (items : List TraceItem) (l : List Int) : Prop where
  reads : ∀ done, items.foldl expandItem { done := done, body := none } = { done := done ++ l, body := none }
  entries_le : items.countP TraceItem.isEntry ≤ l.length

theorem ExpandsTo.expand_eq {items : List TraceItem} {l : List Int} (h : ExpandsTo items l) : expand items = l := by
  unfold expand
  rw [h.reads []]
  rfl

theorem expandsTo_nil : ExpandsTo [] [] := by
  refine ⟨?_, Nat.le_refl 0⟩
  intro done
  rw [List.append_nil]
  rfl

theorem ExpandsTo.append {items items' : List TraceItem} {l l' : List Int} (h : ExpandsTo items l)
    (h' : ExpandsTo items' l') : ExpandsTo (items ++ items') (l ++ l') := by
  refine ⟨?_, ?_⟩
  · intro done
    rw [List.foldl_append, h.reads done, h'.reads (done ++ l), List.append_assoc]
  · rw [List.countP_append, List.length_append]
    exact Nat.add_le_add h.entries_le h'.entries_le

theorem expandsTo_entry (vcpu eip : Int) (regs : Registers) : ExpandsTo [.entry vcpu eip regs] [eip] :=
  ⟨fun _ => rfl, Nat.le_refl 1⟩

theorem expandsTo_entries (es : List LoopEntry) :
    ExpandsTo (es.map LoopEntry.item) (es.map LoopEntry.eip) := by
  induction es with
  | nil => exact expandsTo_nil
  | cons e es ih => exact (expandsTo_entry e.vcpu e.eip e.regs).append ih

/-- Comments other than the ends of a loop stand for nothing. -/
theorem expandsTo_comment {c : TraceComment} (hstart : c ≠ .loopStart) (hend : ∀ times, c ≠ .loopEnd times) :
    ExpandsTo [.comment c] [] := by
  refine ⟨?_, Nat.le_refl 0⟩
  intro done
  rw [List.append_nil]
  cases c with
  | loopStart => exact absurd rfl hstart
  | loopEnd times => exact absurd rfl (hend times)
  | loopTailEnd => rfl
  | loopInProgress iterations => rfl
  | other text => rfl

theorem expandsTo_other (text : String) : ExpandsTo [.comment (.other text)] [] :=
  expandsTo_comment (by simp) (by simp)

theorem expandsTo_inProgress (iterations : Int) : ExpandsTo [.comment (.loopInProgress iterations)] [] :=
  expandsTo_comment (by simp) (by simp)

theorem expandsTo_tailEnd : ExpandsTo [.comment .loopTailEnd] [] := expandsTo_comment (by simp) (by simp)

/-- Inside a loop, entries go to its body. -/
theorem expand_body (es : List LoopEntry) (done body : List Int) :
    (es.map LoopEntry.item).foldl expandItem { done := done, body := some body }
      = { done := done, body := some (body ++ es.map LoopEntry.eip) } := by
  induction es generalizing body with
  | nil => rw [List.map_nil, List.map_nil, List.append_nil]; rfl
  | cons e es ih =>
    rw [List.map_cons, List.foldl_cons, List.map_cons, ← List.singleton_append, ← List.append_assoc]
    exact ih (body ++ [e.eip])

/-- A loop with its start and its end. -/
theorem expandsTo_loop (es : List LoopEntry) {times : Int} (htimes : 1 ≤ times) :
    ExpandsTo (.comment .loopStart :: (es.map LoopEntry.item ++ [TraceItem.comment (.loopEnd times)]))
      (List.replicate times.toNat (es.map LoopEntry.eip)).flatten := by
  refine ⟨?_, ?_⟩
  · intro done
    rw [List.foldl_cons, List.foldl_append]
    show [TraceItem.comment (.loopEnd times)].foldl expandItem
      ((es.map LoopEntry.item).foldl expandItem { done := done, body := some [] }) = _
    rw [expand_body, List.nil_append]
    rfl
  · have hbody := (expandsTo_entries es).entries_le
    obtain ⟨n, hn⟩ : ∃ n, times.toNat = n + 1 := ⟨times.toNat - 1, by omega⟩
    rw [hn, List.replicate_succ, List.flatten_cons, List.length_append]
    simp [TraceItem.isEntry] at hbody ⊢
    omega

/-! ## Suppressed instructions -/

/-- The addresses counted but not printed: whole iterations beyond the tenth and the one just begun. -/
def suppressed (c : Int) (older newer : List LoopEntry) : List Int :=
  if c ≤ loopIterationsActivate then []
  else (List.replicate (c - loopIterationsActivate - 1).toNat ((newer ++ older).map LoopEntry.eip)).flatten ++
    newer.map LoopEntry.eip

theorem suppressed_of_le {c : Int} (hc : c ≤ loopIterationsActivate) (older newer : List LoopEntry) :
    suppressed c older newer = [] := if_pos hc

/-- Just beyond the limit only the iteration just begun is suppressed. -/
theorem suppressed_first {c : Int} (hc : c = loopIterationsActivate + 1) (older newer : List LoopEntry) :
    suppressed c older newer = newer.map LoopEntry.eip := by
  subst hc
  rfl

/-- The next entry of the ring is seen: it ends the current iteration's list of those seen. -/
theorem suppressed_shift {c : Int} (hc : ¬ c ≤ loopIterationsActivate) {x x' : LoopEntry} (heip : x'.eip = x.eip)
    (older newer : List LoopEntry) :
    suppressed c older (newer ++ [x']) = suppressed c (x :: older) newer ++ [x.eip] := by
  simp [suppressed, hc, heip]

/-- A new iteration begins when all entries have been seen in the current one. -/
theorem suppressed_wrap {c : Int} (hc : ¬ c ≤ loopIterationsActivate) {x x' : LoopEntry} (heip : x'.eip = x.eip)
    (rest : List LoopEntry) :
    suppressed (c + 1) rest [x'] = suppressed c [] (x :: rest) ++ [x.eip] := by
  have hsucc : (c + 1 - loopIterationsActivate - 1).toNat = (c - loopIterationsActivate - 1).toNat + 1 := by
    omega
  have hc' : ¬ c + 1 ≤ loopIterationsActivate := by omega
  simp only [suppressed, if_neg hc, if_neg hc', hsucc, List.replicate_succ', List.flatten_append,
    List.append_nil, List.map_append, List.map_cons, List.map_nil, heip, List.flatten_cons, List.flatten_nil]
  simp

/-- **What `ski_loop_print_reset_all` prints for a log reads as what the log has suppressed.** -/
theorem loopItems_expandsTo (c : Int) (older newer : List LoopEntry) :
    ExpandsTo (loopItems c older newer) (suppressed c older newer) := by
  unfold loopItems fullIterations
  simp only
  by_cases hnil : older = []
  · -- every entry has the same count: whole iterations only
    subst hnil
    rw [if_pos rfl]
    by_cases hc : c ≤ loopIterationsActivate
    · rw [suppressed_of_le hc, if_neg (show ¬ c - loopIterationsActivate ≥ 1 by omega)]
      simpa using expandsTo_nil
    · have hsucc : (c - loopIterationsActivate).toNat = (c - loopIterationsActivate - 1).toNat + 1 := by omega
      have hsupp : suppressed c [] newer
          = (List.replicate (c - loopIterationsActivate).toNat ((newer ++ []).map LoopEntry.eip)).flatten := by
        rw [suppressed, if_neg hc, hsucc, List.replicate_succ', List.flatten_append]
        simp
      rw [hsupp, if_neg (show ¬ c - loopIterationsActivate < 0 by omega),
        if_pos (show c - loopIterationsActivate ≥ 1 by omega), if_neg (by simp), List.append_nil]
      exact expandsTo_loop (newer ++ []) (by omega)
  · rw [if_neg hnil]
    by_cases hc : c ≤ loopIterationsActivate
    · rw [suppressed_of_le hc, if_pos (by omega)]
      exact expandsTo_nil
    · rw [if_neg (show ¬ c - 1 - loopIterationsActivate < 0 by omega), if_pos hnil]
      by_cases hfirst : c = loopIterationsActivate + 1
      · rw [suppressed_first hfirst, if_neg (by omega), if_neg (by omega), List.nil_append, List.append_nil]
        exact expandsTo_entries newer
      · rw [if_pos (by omega), if_pos (by omega), suppressed, if_neg hc,
          show c - 1 - loopIterationsActivate = c - loopIterationsActivate - 1 by omega]
        have htail := (expandsTo_entries newer).append expandsTo_tailEnd
        rw [List.append_nil] at htail
        exact (expandsTo_loop (newer ++ older) (by omega)).append htail

end SkiVmm.Trace
