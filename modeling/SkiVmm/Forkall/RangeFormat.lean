import SkiVmm.Forkall.RangeText

/-!
# `Forkall.RangeFormat` — ranges of the documented form

The strings `[[@]@][+]<int>[-<int>](,<int>[-<int>])*` as a type: `RangeText` carries the flags of the prefix and a
non-empty list of items, each a number or an interval with ordered end points. The scanner of `Forkall.RangeText`
reads its text item by item and stores the concatenation of the expanded intervals.

`loadsAsDocumented_iff` says for which strings the loader does what its comment promises.
-/

namespace SkiVmm.Forkall

open Lib

/-! ## Strings of the documented form -/

/-- `<int>`: digits of a number that a `long long` holds. -/
structure Endpoint where
  digits : List Char
  digits_ne_nil : digits ≠ []
  digits_isDigit : ∀ c ∈ digits, c.isDigit = true
  fits : digitsValue digits ≤ 9223372036854775807

def Endpoint.value (x : Endpoint) : Int := digitsValue x.digits

theorem Endpoint.value_bounds (x : Endpoint) : 0 ≤ x.value ∧ x.value < 2 ^ 63 := by
  have := x.fits
  unfold value
  omega

/-- `<int>` or `<int>-<int>` -/
inductive Item
  | value (x : Endpoint)
  | interval (x y : Endpoint) (h : x.value ≤ y.value)

def Item.text : Item → List Char
  | .value x => x.digits
  | .interval x y _ => x.digits ++ '-' :: y.digits

/-- The expanded interval. -/
def Item.values : Item → List Int
  | .value x => [x.value]
  | .interval x y _ => (List.range (y.value - x.value + 1).toNat).map fun i : Nat => x.value + i

/-- Where the values refer to: they are inputs, lines of the file of inputs, or lines of the file of pairs. -/
inductive FilePrefix
  | plain
  | single
  | pairs
  deriving DecidableEq, Repr

def FilePrefix.text : FilePrefix → List Char
  | .plain => []
  | .single => ['@']
  | .pairs => ['@', '@']

/-- `[[@]@][+]<int>[-<int>](,<int>[-<int>])*` -/
structure RangeText where
  file : FilePrefix
  relative : Bool
  first : Item
  rest : List Item

def itemsText (items : List Item) : List Char := joinWith ',' false (items.map Item.text)

def RangeText.text (t : RangeText) : List Char :=
  t.file.text ++ ((if t.relative then ['+'] else []) ++ itemsText (t.first :: t.rest))

def RangeText.values (t : RangeText) : List Int := (t.first :: t.rest).flatMap Item.values

def RangeText.flags (t : RangeText) : Flags := ⟨t.file = .pairs, t.file = .single, t.relative⟩

/-- The field that an item is read as. -/
def Item.field : Item → Field
  | .value x => .single x.value
  | .interval x y _ => .interval x.value y.value

theorem Item.field_values (i : Item) : i.field.values = i.values := by
  cases i with
  | value x => rfl
  | interval x y h =>
    have hx := x.value_bounds
    have hy := y.value_bounds
    rw [field, Field.values, longLong_of_bounds (by omega) (by omega), values]

theorem Item.field_accepted (i : Item) {n : Int} (hn : 0 ≤ n) (hlt : n + i.values.length < maxSkiInputIntRange) :
    i.field.Accepted n := by
  have hmax : (maxSkiInputIntRange : Int) = 262144 := rfl
  cases i with
  | value x =>
    refine Int.lt_of_le_of_lt (Int.le_add_of_nonneg_right ?_) hlt
    exact Int.natCast_nonneg _
  | interval x y h =>
    have hx := x.value_bounds
    have hy := y.value_bounds
    rw [values, List.length_map, List.length_range] at hlt
    refine ⟨h, ?_⟩
    rw [longLong_of_bounds (v := y.value - x.value) (by omega) (by omega),
      longLong_of_bounds (v := y.value - x.value + 1) (by omega) (by omega), longLong_of_bounds (by omega) (by omega)]
    omega

/-- An item is read up to the comma behind it, or to the end. -/
theorem scanField_item (i : Item) {r : List Char} (hr : ∀ c ∈ r.head?, c = ',') :
    scanField (i.text ++ r) = some (i.field, r) := by
  have hdigit : ∀ c ∈ r.head?, c.isDigit = false := by
    intro c hc
    rw [hr c hc]
    rfl
  cases i with
  | value x =>
    have hd : strtoll (x.digits ++ r) = some (x.value, r) :=
      strtoll_append x.digits_isDigit hdigit x.digits_ne_nil x.fits
    rw [Item.text, scanField, hd]
    cases r with
    | nil => rfl
    | cons c r =>
      obtain rfl := hr c rfl
      rfl
  | interval x y h =>
    have hx : strtoll (x.digits ++ '-' :: (y.digits ++ r)) = some (x.value, '-' :: (y.digits ++ r)) := by
      refine strtoll_append x.digits_isDigit ?_ x.digits_ne_nil x.fits
      rintro c ⟨⟩
      rfl
    have hy : strtoll (y.digits ++ r) = some (y.value, r) :=
      strtoll_append y.digits_isDigit hdigit y.digits_ne_nil y.fits
    rw [Item.text, List.append_assoc, List.cons_append, scanField, hx]
    simp only [if_true, hy, Option.map_some]
    rfl

/-- The items of a text are stored one after the other. -/
theorem loadFields_items {i : Item} {l : List Item} {v : RangeVariable} (hn : 0 ≤ v.rangeN)
    (hlt : v.rangeN + ((i :: l).flatMap Item.values).length < maxSkiInputIntRange) :
    loadFields (itemsText (i :: l)) v = .ok (v.append ((i :: l).flatMap Item.values)) := by
  induction l generalizing i v with
  | nil =>
    simp only [List.flatMap_cons, List.flatMap_nil, List.append_nil] at hlt ⊢
    have hscan : scanField (itemsText [i]) = some (i.field, []) := by
      have := scanField_item i (r := []) (by simp)
      rwa [List.append_nil] at this
    have hacc := i.field_accepted hn hlt
    rw [loadFields_last hscan, Field.store, if_pos hacc, i.field_values]
    exact foldlM_store_ok hn (Int.le_of_lt hlt)
  | cons j l ih =>
    rw [List.flatMap_cons, List.length_append] at hlt
    push_cast at hlt
    have hscan : scanField (itemsText (i :: j :: l)) = some (i.field, ',' :: itemsText (j :: l)) := by
      refine scanField_item i (r := ',' :: itemsText (j :: l)) ?_
      rintro c ⟨⟩
      rfl
    have hacc := i.field_accepted (n := v.rangeN) hn (by omega)
    have hstore : i.field.store v = .ok (v.append i.values) := by
      rw [Field.store, if_pos hacc, i.field_values]
      exact foldlM_store_ok hn (by omega)
    rw [loadFields_comma hscan hstore, List.flatMap_cons, RangeVariable.append_append]
    refine ih ?_ ?_ <;> rw [RangeVariable.append_rangeN] <;> omega

/-- The text of the items starts with a digit. -/
theorem itemsText_head (i : Item) (l : List Item) : ∃ c s, itemsText (i :: l) = c :: s ∧ c.isDigit = true := by
  have hi : ∃ c s, i.text = c :: s ∧ c.isDigit = true := by
    cases i with
    | value x =>
      obtain ⟨c, s, hx⟩ := List.exists_cons_of_ne_nil x.digits_ne_nil
      exact ⟨c, s, hx, x.digits_isDigit c (hx ▸ List.mem_cons_self)⟩
    | interval x y h =>
      obtain ⟨c, s, hx⟩ := List.exists_cons_of_ne_nil x.digits_ne_nil
      exact ⟨c, s ++ '-' :: y.digits, by rw [Item.text, hx]; rfl, x.digits_isDigit c (hx ▸ List.mem_cons_self)⟩
  obtain ⟨c, s, hs, hc⟩ := hi
  rcases joinWith_cons ',' false i.text (l.map Item.text) with ⟨heq, -, -⟩ | heq
  · exact ⟨c, s, by rw [itemsText, List.map_cons, heq, hs], hc⟩
  · exact ⟨c, _, by rw [itemsText, List.map_cons, heq, hs, List.cons_append], hc⟩

theorem scanFile_of_ne {c : Char} {s : List Char} (h : c ≠ '@') : scanFile (c :: s) = ((false, false), c :: s) := by
  unfold scanFile
  split <;> simp_all

theorem scanRelative_of_ne {c : Char} {s : List Char} (h : c ≠ '+') : scanRelative (c :: s) = (false, c :: s) := by
  unfold scanRelative
  split <;> simp_all

/-- The prefix is read as it is meant. -/
theorem RangeText.scanFlags_text (t : RangeText) :
    scanFlags t.text = (t.flags, itemsText (t.first :: t.rest)) := by
  obtain ⟨c, s, hs, hc⟩ := itemsText_head t.first t.rest
  have hat : c ≠ '@' := by
    rintro rfl
    cases hc
  have hplus : c ≠ '+' := by
    rintro rfl
    cases hc
  obtain ⟨file, relative, first, rest⟩ := t
  rw [text, hs]
  have hrel : ∀ file : Bool × Bool, ∀ s', scanFile s' = (file, (if relative then ['+'] else []) ++ c :: s) →
      scanFlags s' = (⟨file.1, file.2, relative⟩, c :: s) := by
    intro file s' hfile
    unfold scanFlags
    simp only [hfile]
    cases relative with
    | true => rfl
    | false =>
      simp only [Bool.false_eq_true, if_false, List.nil_append, scanRelative_of_ne hplus]
  cases file with
  | pairs => exact hrel (true, false) _ rfl
  | single =>
    refine hrel (false, true) _ ?_
    cases relative with
    | true => rfl
    | false =>
      have hne : ¬ c = '@' := hat
      simp only [FilePrefix.text, Bool.false_eq_true, if_false, List.nil_append, List.cons_append]
      unfold scanFile
      split <;> simp_all
  | plain =>
    refine hrel (false, false) _ ?_
    cases relative with
    | true => rfl
    | false => exact scanFile_of_ne hat

/-- **A documented string** with room for its values is loaded as documented. -/
theorem RangeText.load (t : RangeText) (hlt : t.values.length < maxSkiInputIntRange) :
    skiInputEnvLoadIntRange (some t.text) .zeroed
      = .ok ((RangeVariable.zeroed.memset.setFlags t.flags).append t.values) := by
  have hitems : loadFields (itemsText (t.first :: t.rest)) (RangeVariable.zeroed.memset.setFlags t.flags)
      = .ok ((RangeVariable.zeroed.memset.setFlags t.flags).append t.values) := by
    refine loadFields_items (Int.le_refl 0) ?_
    rw [show (RangeVariable.zeroed.memset.setFlags t.flags).rangeN = 0 from rfl, Int.zero_add]
    exact_mod_cast hlt
  have hscan := t.scanFlags_text
  cases htext : t.text with
  | nil =>
    rw [htext] at hscan
    obtain ⟨c, s, hs, -⟩ := itemsText_head t.first t.rest
    have hnil := congrArg Prod.snd hscan
    rw [hs] at hnil
    cases hnil
  | cons c s =>
    rw [htext] at hscan
    rw [skiInputEnvLoadIntRange, hscan]
    exact hitems

/-- What a load into a zeroed variable should do: stay inside the array, and for a documented string with room for
    its values leave these values and the flags of the prefix. -/
def LoadsAsDocumented (env : Option (List Char)) : Prop :=
  (∀ i, skiInputEnvLoadIntRange env .zeroed ≠ .error (.outOfBounds i)) ∧
  ∀ t : RangeText, env = some t.text → t.values.length < maxSkiInputIntRange →
    ∃ v : RangeVariable, skiInputEnvLoadIntRange env .zeroed = .ok v ∧ v.rangeN = t.values.length ∧
      v.values = t.values ∧ v.iterator = 0 ∧ v.relative = (if t.relative then 1 else 0) ∧
      v.fromFileSingle = (if t.file = .single then 1 else 0) ∧ v.fromFilePairs = if t.file = .pairs then 1 else 0

/-- **When a range is loaded as documented**: unless the string reaches an interval of fewer than `2 ^ 63 + 1` values
    that makes, with the values before it, `2 ^ 63` or more. The 64-bit sum of the capacity test is negative there, and
    the loop runs over the end of the array. -/
theorem loadsAsDocumented_iff (env : Option (List Char)) :
    LoadsAsDocumented env ↔ ∀ s, env = some s → ¬ ReachesOverlong 0 (scanFlags s).2 := by
  have hout := skiInputEnvLoadIntRange_outOfBounds_iff env (v := .zeroed) (Int.le_refl 0) (by decide)
  unfold LoadsAsDocumented
  constructor
  · rintro ⟨hin, -⟩ s hs hreach
    obtain ⟨i, hi⟩ := hout.mpr ⟨s, hs, hreach⟩
    exact hin i hi
  · intro hno
    refine ⟨fun i hi => ?_, fun t ht hlt => ?_⟩
    · obtain ⟨s, hs, hreach⟩ := hout.mp ⟨i, hi⟩
      exact hno s hs hreach
    · obtain ⟨hiter, hrel, hsingle, hpairs⟩ :=
        (RangeVariable.zeroed.memset.setFlags t.flags).append_fields t.values
      subst ht
      refine ⟨_, t.load hlt, ?_, RangeVariable.append_values _ (Int.le_refl 0), hiter, hrel, ?_, ?_⟩
      · rw [RangeVariable.append_rangeN]
        exact Int.zero_add _
      · rw [hsingle]
        simp [RangeVariable.setFlags, RangeText.flags, RangeVariable.memset, RangeVariable.zeroed]
      · rw [hpairs]
        simp [RangeVariable.setFlags, RangeText.flags, RangeVariable.memset, RangeVariable.zeroed]

/-- An interval that ends the string and is overlong for an empty variable. -/
theorem skiInputEnvLoadIntRange_overlong {s : List Char} {f : Field} (hne : s ≠ [])
    (hscan : scanField (scanFlags s).2 = some (f, [])) (hover : f.Overlong 0) :
    skiInputEnvLoadIntRange (some s) .zeroed = .error (.outOfBounds maxSkiInputIntRange) := by
  obtain ⟨c, s, rfl⟩ := List.exists_cons_of_ne_nil hne
  rw [skiInputEnvLoadIntRange, loadFields_last hscan]
  generalize hv : RangeVariable.zeroed.memset.setFlags _ = v
  have hn : v.rangeN = 0 := by
    rw [← hv]
    rfl
  rcases Field.store_cases (v := v) (scanField_is64 hscan) (by omega) (by rw [hn]; decide) with
    ⟨-, hno, -⟩ | ⟨-, hs⟩ | ⟨-, hno, -⟩
  · exact absurd (hn ▸ hover) hno
  · exact hs
  · exact absurd (hn ▸ hover) hno

/-- `0-9223372036854775807` passes the capacity test and is written past the end. -/
theorem load_writes_past_end :
    skiInputEnvLoadIntRange (some "0-9223372036854775807".toList) .zeroed = .error (.outOfBounds 262144) ∧
      ¬ LoadsAsDocumented (some "0-9223372036854775807".toList) := by
  have hscan : scanField (scanFlags "0-9223372036854775807".toList).2
      = some (.interval 0 9223372036854775807, []) := by decide
  have hover : (Field.interval 0 9223372036854775807).Overlong 0 := by
    refine ⟨?_, ?_⟩ <;> omega
  have hload := skiInputEnvLoadIntRange_overlong (by decide) hscan hover
  exact ⟨hload, fun h => h.1 _ hload⟩

end SkiVmm.Forkall
