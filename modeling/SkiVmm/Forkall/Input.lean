import SkiVmm.Lib.Odometer

/-!
# `Forkall.Input` — walking the input and interleaving space

Model of `ski-input.c`: three ranges (first input, second input, interleaving), an iterator in each, and
`ski_input_fork_init`, which the parent calls once before every fork. Each call copies the values under the
three iterators into the globals the child reads and then advances the iterators, the interleaving fastest.

An assertion that fails aborts the parent, so the functions here return `none` there. The file arrays are
modelled as memory (`Int → Int`): what a look-up outside the loaded part would read is left open.

The main result is `skiInputForkInit_kth_call`: the calls enumerate the product of the ranges, each
combination once and in order, and are without effect afterwards.
-/

namespace SkiVmm.Forkall

open Lib

/-- Conversion of a `long long` to `int`: the low 32 bits as a two's complement number. -/
def toCInt (v : Int) : Int := v.bmod (2 ^ 32)

/-- The result of an addition or subtraction of type `long long`. -/
def longLong (v : Int) : Int := v.bmod (2 ^ 64)

/-- `ski_input_int_range`. -/
structure SkiInputIntRange where
  range : Nat → Int
  rangeN : Nat
  iterator : Nat
  relative : Bool
  fromFileSingle : Bool
  fromFilePairs : Bool

/-- `range->range[range->iterator]`. -/
def SkiInputIntRange.value (r : SkiInputIntRange) : Int := r.range r.iterator

/-- The globals of `ski-input.c` that the walk reads and writes. -/
structure InputState where
  input1Range : SkiInputIntRange
  input2Range : SkiInputIntRange
  interleavingRange : SkiInputIntRange
  inputFile : Int → Int
  inputFileN : Int
  inputPairsFile : Int → Fin 2 → Int
  inputPairsFileN : Int
  /-- `ski_init_options_input_number[0]` and `[1]`. -/
  inputNumber : Int × Int
  /-- `ski_init_options_seed`. -/
  seed : Int

/-- `ski_input_get_current`. An index past the end of a file reads its last entry. -/
def skiInputGetCurrent (s : InputState) (r : SkiInputIntRange) (inputNo : Fin 2) : Option Int :=
  if r.fromFileSingle then
    if 0 < s.inputFileN then
      some (s.inputFile (if r.value ≥ s.inputFileN then s.inputFileN - 1 else r.value))
    else none
  else if r.fromFilePairs then
    if 0 < s.inputPairsFileN then
      some (s.inputPairsFile
        (if r.value ≥ s.inputPairsFileN then s.inputPairsFileN - 1 else r.value) inputNo)
    else none
  else some r.value

/-- `ski_input_get_current_relative`, with its three cases `@ +`, `@ +@` and `+`. -/
def skiInputGetCurrentRelative (s : InputState) (r₁ r₂ : SkiInputIntRange) : Option Int :=
  if r₂.relative && !r₁.relative then
    if r₁.fromFileSingle then
      if 0 < s.inputFileN then
        if !r₂.fromFileSingle then
          some (longLong (s.inputFile (r₁.value.tmod s.inputFileN) + r₂.value))
        else
          some (s.inputFile ((longLong (r₁.value + r₂.value)).tmod s.inputFileN))
      else none
    else some (longLong (r₁.value + r₂.value))
  else none

/-- The second input number of the next child. In pairs mode it comes from the first range's iterator. -/
def secondInput (s : InputState) : Option Int :=
  if !s.input2Range.relative then
    if s.input1Range.fromFilePairs then skiInputGetCurrent s s.input1Range 1
    else skiInputGetCurrent s s.input2Range 1
  else skiInputGetCurrentRelative s s.input1Range s.input2Range

/-- `s` with its three iterators at the given positions. -/
def InputState.atPositions (s : InputState) (w : Nat × Nat × Nat) : InputState :=
  { s with
    input1Range.iterator := w.1
    input2Range.iterator := w.2.1
    interleavingRange.iterator := w.2.2 }

/-- The end of `ski_input_fork_init`: advance the interleaving, carry into input 2 and then into input 1.
    In pairs mode every carry out of the interleaving goes on into input 1. -/
def nextPositions (s : InputState) : Nat × Nat × Nat :=
  let a := s.input1Range.iterator
  let b := s.input2Range.iterator
  let c := s.interleavingRange.iterator
  if c + 1 ≥ s.interleavingRange.rangeN then
    if b + 1 ≥ s.input2Range.rangeN ∨ s.input1Range.fromFilePairs then
      (a + 1, (b + 1) % s.input2Range.rangeN, (c + 1) % s.interleavingRange.rangeN)
    else (a, b + 1, (c + 1) % s.interleavingRange.rangeN)
  else (a, b, c + 1)

/-- `ski_input_fork_init`: the new globals, and the value of `*out_new_input`. -/
def skiInputForkInit (s : InputState) : Option (InputState × Bool) :=
  -- past the end of the first range there is no point left to explore
  if s.input1Range.iterator ≥ s.input1Range.rangeN then some (s, false)
  else do
    let n₀ ← skiInputGetCurrent s s.input1Range 0
    let n₁ ← secondInput s
    let s' := { s with
      inputNumber := (toCInt n₀, toCInt n₁)
      seed := toCInt s.interleavingRange.value }
    return (s'.atPositions (nextPositions s'), decide (s.interleavingRange.iterator = 0))

/-- The state after `k` calls of `ski_input_fork_init`. -/
def forkInitCalls (s : InputState) : Nat → Option InputState
  | 0 => some s
  | k + 1 => (forkInitCalls s k).bind fun t => (skiInputForkInit t).map Prod.fst

/-! ## What `ski_input_init` accepts -/

/-- The assertions of `ski_input_init` on the ranges and files it has loaded. -/
structure InputState.Accepted (s : InputState) : Prop where
  range1_nonempty : 0 < s.input1Range.rangeN
  range2_nonempty : 0 < s.input2Range.rangeN
  range3_nonempty : 0 < s.interleavingRange.rangeN
  range1_not_relative : s.input1Range.relative = false
  single_of_single : s.input1Range.fromFileSingle = false → s.input2Range.fromFileSingle = false
  pairs_eq : s.input1Range.fromFilePairs = s.input2Range.fromFilePairs
  file_loaded : s.input1Range.fromFileSingle = true → 0 < s.inputFileN
  pairs_loaded : s.input1Range.fromFilePairs = true → 0 < s.inputPairsFileN

/-- The positions the three iterators stand at. -/
def InputState.positions (s : InputState) : Nat × Nat × Nat :=
  (s.input1Range.iterator, s.input2Range.iterator, s.interleavingRange.iterator)

/-- What the child reads: both input numbers and the seed. -/
def InputState.selection (s : InputState) : (Int × Int) × Int := (s.inputNumber, s.seed)

/-- The selection that the values at the given range positions make. -/
def selectionAt (s : InputState) (w : Nat × Nat × Nat) : Option ((Int × Int) × Int) := do
  let n₀ ← skiInputGetCurrent s (s.atPositions w).input1Range 0
  let n₁ ← secondInput (s.atPositions w)
  return ((toCInt n₀, toCInt n₁), toCInt (s.interleavingRange.range w.2.2))

/-- The size of the space that the walk enumerates outside pairs mode. -/
def InputState.combinations (s : InputState) : Nat :=
  s.input1Range.rangeN * s.input2Range.rangeN * s.interleavingRange.rangeN

/-! ## One call -/

/-- A look-up succeeds when the file that its range refers to is loaded. -/
theorem skiInputGetCurrent_isSome {s : InputState} {r : SkiInputIntRange} (i : Fin 2)
    (hf : r.fromFileSingle = true → 0 < s.inputFileN)
    (hp : r.fromFilePairs = true → 0 < s.inputPairsFileN) : (skiInputGetCurrent s r i).isSome := by
  unfold skiInputGetCurrent
  by_cases hs : r.fromFileSingle = true
  · rw [if_pos hs, if_pos (hf hs)]
    rfl
  · rw [if_neg hs]
    by_cases hq : r.fromFilePairs = true
    · rw [if_pos hq, if_pos (hp hq)]
      rfl
    · rw [if_neg hq]
      rfl

theorem skiInputGetCurrentRelative_isSome {s : InputState} {r₁ r₂ : SkiInputIntRange}
    (h₁ : r₁.relative = false) (h₂ : r₂.relative = true)
    (hf : r₁.fromFileSingle = true → 0 < s.inputFileN) : (skiInputGetCurrentRelative s r₁ r₂).isSome := by
  simp only [skiInputGetCurrentRelative, h₁, h₂, Bool.not_false, Bool.and_true, if_true]
  split_ifs with hs hn
  · rfl
  · rfl
  · exact absurd (hf hs) hn
  · rfl

/-- The look-ups of an accepted configuration all succeed, wherever the iterators stand. -/
theorem selectionAt_isSome {s : InputState} (h : s.Accepted) (w : Nat × Nat × Nat) :
    (selectionAt s w).isSome := by
  have h₀ : (skiInputGetCurrent s (s.atPositions w).input1Range 0).isSome :=
    skiInputGetCurrent_isSome 0 h.file_loaded h.pairs_loaded
  have h₁ : (secondInput (s.atPositions w)).isSome := by
    unfold secondInput
    split_ifs with hr hp
    · exact skiInputGetCurrent_isSome 1 h.file_loaded h.pairs_loaded
    · refine skiInputGetCurrent_isSome 1 (fun hs => h.file_loaded ?_) (fun hs => h.pairs_loaded ?_)
      · by_contra hn
        have hs' : s.input2Range.fromFileSingle = true := hs
        simp [h.single_of_single (by simpa using hn)] at hs'
      · exact h.pairs_eq.trans hs
    · exact skiInputGetCurrentRelative_isSome h.range1_not_relative (by simpa using hr) h.file_loaded
  obtain ⟨v₀, h₀⟩ := Option.isSome_iff_exists.mp h₀
  obtain ⟨v₁, h₁⟩ := Option.isSome_iff_exists.mp h₁
  simp [selectionAt, h₀, h₁]

/-- Outside pairs mode the iterators move like the wheels of an odometer. -/
theorem nextPositions_atPositions {s : InputState} (hp : s.input1Range.fromFilePairs = false)
    {w : Nat × Nat × Nat} (hb : w.2.1 < s.input2Range.rangeN) (hc : w.2.2 < s.interleavingRange.rangeN) :
    nextPositions (s.atPositions w) = click s.input2Range.rangeN s.interleavingRange.rangeN w := by
  obtain ⟨a, b, c⟩ := w
  simp only at hb hc
  simp only [nextPositions, InputState.atPositions, click, hp, Bool.false_eq_true, or_false]
  by_cases h₃ : c + 1 < s.interleavingRange.rangeN
  · rw [if_neg (by omega), if_pos h₃]
  · have hc' : c + 1 = s.interleavingRange.rangeN := by omega
    rw [if_pos (by omega), if_neg h₃]
    by_cases h₂ : b + 1 < s.input2Range.rangeN
    · rw [if_neg (by omega), if_pos h₂, hc', Nat.mod_self]
    · have hb' : b + 1 = s.input2Range.rangeN := by omega
      rw [if_pos (by omega), if_neg h₂, hc', hb', Nat.mod_self, Nat.mod_self]

/-- `s` with the globals that the child reads set to `sel`. -/
def InputState.select (s : InputState) (sel : (Int × Int) × Int) : InputState :=
  { s with inputNumber := sel.1, seed := sel.2 }

/-- **One call inside the space** selects the values under the iterators and advances them. -/
theorem skiInputForkInit_inside {s : InputState} (h : s.Accepted) {w : Nat × Nat × Nat} (old : (Int × Int) × Int)
    (ha : w.1 < s.input1Range.rangeN) :
    ∃ sel, selectionAt s w = some sel ∧
      skiInputForkInit ((s.atPositions w).select old)
        = some ((s.atPositions (nextPositions (s.atPositions w))).select sel, decide (w.2.2 = 0)) := by
  obtain ⟨sel, hsel⟩ := Option.isSome_iff_exists.mp (selectionAt_isSome h w)
  refine ⟨sel, hsel, ?_⟩
  simp only [selectionAt, Option.bind_eq_bind, Option.bind_eq_some_iff] at hsel
  obtain ⟨n₀, h₀, n₁, h₁, hsel⟩ := hsel
  obtain rfl := Option.some.inj hsel
  -- the look-ups read the ranges and files only, which `select` leaves alone
  have h₀' : skiInputGetCurrent ((s.atPositions w).select old)
      ((s.atPositions w).select old).input1Range 0 = some n₀ := h₀
  have h₁' : secondInput ((s.atPositions w).select old) = some n₁ := h₁
  have hin : ¬ ((s.atPositions w).select old).input1Range.iterator
      ≥ ((s.atPositions w).select old).input1Range.rangeN := Nat.not_le.mpr ha
  rw [skiInputForkInit, if_neg hin, h₀', h₁']
  rfl

/-- Past the end of the first range a call does nothing. -/
theorem skiInputForkInit_outside {s : InputState} (h : s.input1Range.rangeN ≤ s.input1Range.iterator) :
    skiInputForkInit s = some (s, false) := by
  rw [skiInputForkInit, if_pos h]

/-- An accepted configuration never stops the parent. -/
theorem skiInputForkInit_isSome {s : InputState} (h : s.Accepted) : (skiInputForkInit s).isSome := by
  by_cases hin : s.input1Range.iterator ≥ s.input1Range.rangeN
  · rw [skiInputForkInit_outside hin]
    rfl
  · have hsel := selectionAt_isSome h s.positions
    obtain ⟨sel, hsel⟩ := Option.isSome_iff_exists.mp hsel
    simp only [selectionAt, Option.bind_eq_bind, Option.bind_eq_some_iff] at hsel
    obtain ⟨n₀, h₀, n₁, h₁, -⟩ := hsel
    have h₀' : skiInputGetCurrent s s.input1Range 0 = some n₀ := h₀
    have h₁' : secondInput s = some n₁ := h₁
    rw [skiInputForkInit, if_neg hin, h₀', h₁']
    rfl

/-- Ranges, flags and files stay as they were accepted. -/
theorem InputState.Accepted.forkInit {s s' : InputState} {newInput : Bool} (h : s.Accepted)
    (hcall : skiInputForkInit s = some (s', newInput)) : s'.Accepted := by
  unfold skiInputForkInit at hcall
  split_ifs at hcall with hin
  · cases hcall
    exact h
  · simp only [Option.bind_eq_bind, Option.bind_eq_some_iff] at hcall
    obtain ⟨n₀, -, n₁, -, heq⟩ := hcall
    cases heq
    exact ⟨h.range1_nonempty, h.range2_nonempty, h.range3_nonempty, h.range1_not_relative,
      h.single_of_single, h.pairs_eq, h.file_loaded, h.pairs_loaded⟩

theorem InputState.Accepted.forkInitCalls {s t : InputState} {k : Nat} (h : s.Accepted)
    (hk : forkInitCalls s k = some t) : t.Accepted := by
  induction k generalizing t with
  | zero =>
    cases hk
    exact h
  | succ k ih =>
    obtain ⟨u, hu, hcall⟩ := Option.bind_eq_some_iff.mp hk
    obtain ⟨next, hnext, rfl⟩ := Option.map_eq_some_iff.mp hcall
    exact (ih hu).forkInit hnext

/-! ## All calls -/

/-- The iterators go through the positions `w 0`, ..., `w (n - 1)` and then stand past the end. -/
structure Walk (s : InputState) (n : Nat) (w : Nat → Nat × Nat × Nat) : Prop where
  start : w 0 = (0, 0, 0)
  next : ∀ k, k < n → nextPositions (s.atPositions (w k)) = w (k + 1)
  inside_iff : ∀ k, (w k).1 < s.input1Range.rangeN ↔ k < n

section Walks
variable {s : InputState} {n : Nat} {w : Nat → Nat × Nat × Nat} (hw : Walk s n w) (h : s.Accepted)
include hw h

/-- One call of the walk. -/
theorem Walk.call {k : Nat} (hk : k < n) (old : (Int × Int) × Int) :
    ∃ sel, selectionAt s (w k) = some sel ∧
      skiInputForkInit ((s.atPositions (w k)).select old)
        = some ((s.atPositions (w (k + 1))).select sel, decide ((w k).2.2 = 0)) := by
  obtain ⟨sel, hsel, hcall⟩ := skiInputForkInit_inside h old ((hw.inside_iff k).mpr hk)
  rw [hw.next k hk] at hcall
  exact ⟨sel, hsel, hcall⟩

omit h in
/-- A call past the end. -/
theorem Walk.call_done (old : (Int × Int) × Int) :
    skiInputForkInit ((s.atPositions (w n)).select old) = some ((s.atPositions (w n)).select old, false) := by
  refine skiInputForkInit_outside (Nat.not_lt.mp fun hlt => ?_)
  exact Nat.lt_irrefl n ((hw.inside_iff n).mp hlt)

/-- **Run lemma**: what the first `k` calls make of the iterators. -/
theorem forkInitCalls_walk (h₀ : s.positions = (0, 0, 0)) (k : Nat) :
    ∃ sel, forkInitCalls s k = some ((s.atPositions (w (min k n))).select sel) := by
  induction k with
  | zero =>
    refine ⟨s.selection, congrArg some ?_⟩
    rw [Nat.zero_min, hw.start, ← h₀]
    rfl
  | succ k ih =>
    obtain ⟨old, ih⟩ := ih
    rw [forkInitCalls, ih, Option.bind_some]
    by_cases hk : k < n
    · obtain ⟨sel, -, hcall⟩ := hw.call h hk old
      rw [Nat.min_eq_left (Nat.le_of_lt hk), Nat.min_eq_left (Nat.succ_le_of_lt hk)]
      exact ⟨sel, by rw [hcall, Option.map_some]⟩
    · rw [Nat.min_eq_right (Nat.not_lt.mp hk), Nat.min_eq_right (Nat.le_succ_of_le (Nat.not_lt.mp hk))]
      exact ⟨old, by rw [hw.call_done, Option.map_some]⟩

end Walks

/-- Outside pairs mode the iterators walk like the wheels of an odometer. -/
theorem walk_wheels {s : InputState} (h : s.Accepted) (hp : s.input1Range.fromFilePairs = false) :
    Walk s s.combinations (wheels s.input2Range.rangeN s.interleavingRange.rangeN) where
  start := wheels_zero _ _
  next := by
    intro k _
    rw [wheels_succ h.range2_nonempty h.range3_nonempty]
    exact nextPositions_atPositions hp (Nat.mod_lt _ h.range2_nonempty) (Nat.mod_lt _ h.range3_nonempty)
  inside_iff := fun _ => wheels_fst_lt_iff h.range2_nonempty h.range3_nonempty

/-- The state before call `k`, when the calls so far left the selection `sel`: the wheels have clicked
    once per call until the space was used up. -/
def stateBefore (s : InputState) (k : Nat) (sel : (Int × Int) × Int) : InputState :=
  (s.atPositions (wheels s.input2Range.rangeN s.interleavingRange.rangeN (min k s.combinations))).select sel

section Calls
variable {s : InputState} (h : s.Accepted) (hp : s.input1Range.fromFilePairs = false)
include h hp

/-- A call before the end of the space selects the combination the wheels show. -/
theorem skiInputForkInit_stateBefore_lt {k : Nat} (hk : k < s.combinations) (old : (Int × Int) × Int) :
    ∃ sel, selectionAt s (wheels s.input2Range.rangeN s.interleavingRange.rangeN k) = some sel ∧
      skiInputForkInit (stateBefore s k old)
        = some (stateBefore s (k + 1) sel, decide (k % s.interleavingRange.rangeN = 0)) := by
  unfold stateBefore
  rw [Nat.min_eq_left (Nat.le_of_lt hk), Nat.min_eq_left (Nat.succ_le_of_lt hk)]
  exact (walk_wheels h hp).call h hk old

/-- A call after the end of the space does nothing. -/
theorem skiInputForkInit_stateBefore_ge {k : Nat} (hk : s.combinations ≤ k) (old : (Int × Int) × Int) :
    skiInputForkInit (stateBefore s k old) = some (stateBefore s k old, false) := by
  unfold stateBefore
  rw [Nat.min_eq_right hk]
  exact (walk_wheels h hp).call_done old

theorem forkInitCalls_eq (h₀ : s.positions = (0, 0, 0)) (k : Nat) :
    ∃ sel, forkInitCalls s k = some (stateBefore s k sel) := forkInitCalls_walk (walk_wheels h hp) h h₀ k

theorem positions_before_call (h₀ : s.positions = (0, 0, 0)) {k : Nat} (hk : k < s.combinations) {t : InputState}
    (ht : forkInitCalls s k = some t) :
    t.positions = wheels s.input2Range.rangeN s.interleavingRange.rangeN k := by
  obtain ⟨sel, hs⟩ := forkInitCalls_eq h hp h₀ k
  obtain rfl : stateBefore s k sel = t := Option.some.inj (hs.symm.trans ht)
  rw [stateBefore, Nat.min_eq_left (Nat.le_of_lt hk)]
  rfl

end Calls

/-- **The calls enumerate the product of the ranges.** With sizes `n₁`, `n₂`, `n₃` and outside pairs mode,
    call `k < n₁ * n₂ * n₃` selects the values at positions `(k / (n₂ * n₃), (k / n₃) mod n₂, k mod n₃)` and
    reports a new input exactly when `k mod n₃ = 0`; later calls change nothing and report no new input.
    Every combination of positions is selected by exactly one of the calls, in lexicographic order. -/
theorem skiInputForkInit_kth_call {s : InputState} (h : s.Accepted) (h₀ : s.positions = (0, 0, 0))
    (hp : s.input1Range.fromFilePairs = false) {n₁ n₂ n₃ : Nat} (hn₁ : s.input1Range.rangeN = n₁)
    (hn₂ : s.input2Range.rangeN = n₂) (hn₃ : s.interleavingRange.rangeN = n₃) :
    (∀ k, ∃ before after newInput,
      forkInitCalls s k = some before ∧ skiInputForkInit before = some (after, newInput) ∧
      (k < n₁ * n₂ * n₃ →
        before.positions = (k / (n₂ * n₃), k / n₃ % n₂, k % n₃) ∧
        selectionAt s before.positions = some after.selection ∧
        (newInput = true ↔ k % n₃ = 0)) ∧
      (n₁ * n₂ * n₃ ≤ k → after = before ∧ newInput = false)) ∧
    (∀ a b c, a < n₁ → b < n₂ → c < n₃ →
      ∃! k, k < n₁ * n₂ * n₃ ∧ ∃ before, forkInitCalls s k = some before ∧ before.positions = (a, b, c)) ∧
    (∀ k k' before before', k < k' → k' < n₁ * n₂ * n₃ → forkInitCalls s k = some before →
      forkInitCalls s k' = some before' →
      Prod.Lex (· < ·) (Prod.Lex (· < ·) (· < ·)) before.positions before'.positions) := by
  subst hn₁ hn₂ hn₃
  refine ⟨fun k => ?_, fun a b c ha hb hc => ?_, fun k k' t t' hlt hk' ht ht' => ?_⟩
  · obtain ⟨old, hold⟩ := forkInitCalls_eq h hp h₀ k
    by_cases hk : k < s.combinations
    · obtain ⟨sel, hsel, hcall⟩ := skiInputForkInit_stateBefore_lt h hp hk old
      refine ⟨_, _, _, hold, hcall, fun _ => ?_, fun hge => absurd hk (Nat.not_lt.mpr hge)⟩
      have hpos := positions_before_call h hp h₀ hk hold
      refine ⟨hpos, ?_, decide_eq_true_iff⟩
      rw [hpos, hsel]
      rfl
    · have hcall := skiInputForkInit_stateBefore_ge h hp (Nat.not_lt.mp hk) old
      exact ⟨_, _, _, hold, hcall, fun hlt => absurd hlt hk, fun _ => ⟨rfl, rfl⟩⟩
  · obtain ⟨k, ⟨hk, hw⟩, huniq⟩ := wheels_exists_unique ha hb hc
    refine ⟨k, ⟨hk, ?_⟩, fun k' ⟨hk', t, ht, hpos⟩ => huniq k' ⟨hk', ?_⟩⟩
    · obtain ⟨sel, hsel⟩ := forkInitCalls_eq h hp h₀ k
      exact ⟨_, hsel, (positions_before_call h hp h₀ hk hsel).trans hw⟩
    · exact (positions_before_call h hp h₀ hk' ht).symm.trans hpos
  · rw [positions_before_call h hp h₀ (hlt.trans hk') ht, positions_before_call h hp h₀ hk' ht']
    exact wheels_lt hlt

/-- Two lines of the input file, each with two offsets for the second input and two interleavings. -/
def twoByTwo : InputState where
  input1Range :=
    { range := fun i => i, rangeN := 2, iterator := 0, relative := false, fromFileSingle := true,
      fromFilePairs := false }
  input2Range :=
    { range := fun i => 10 * i, rangeN := 2, iterator := 0, relative := true, fromFileSingle := false,
      fromFilePairs := false }
  interleavingRange :=
    { range := fun i => 100 + i, rangeN := 2, iterator := 0, relative := false, fromFileSingle := false,
      fromFilePairs := false }
  inputFile := fun i => if i = 0 then 7 else 8
  inputFileN := 2
  inputPairsFile := fun _ _ => 0
  inputPairsFileN := 0
  inputNumber := (0, 0)
  seed := 0

theorem twoByTwo_accepted : twoByTwo.Accepted := by
  constructor <;> decide

/-- The sixth call on `twoByTwo`: second line, first offset, second interleaving. -/
theorem skiInputForkInit_twoByTwo_sixth :
    ∃ before after, forkInitCalls twoByTwo 5 = some before ∧
      skiInputForkInit before = some (after, false) ∧ before.positions = (1, 0, 1) ∧
      after.selection = ((8, 8), 101) := by
  obtain ⟨before, after, newInput, hb, hcall, hin, -⟩ :=
    (skiInputForkInit_kth_call twoByTwo_accepted rfl rfl rfl rfl rfl).1 5
  obtain ⟨hpos, hsel, hnew⟩ := hin (by decide)
  refine ⟨before, after, hb, ?_, hpos, ?_⟩
  · cases newInput with
    | false => exact hcall
    | true => exact absurd (hnew.mp rfl) (by decide)
  · rw [hpos] at hsel
    exact (Option.some.inj hsel).symm

end SkiVmm.Forkall
