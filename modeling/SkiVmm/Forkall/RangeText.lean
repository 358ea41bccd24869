import SkiVmm.Forkall.Total
import SkiVmm.Lib.Hashed
import SkiVmm.Lib.Text

/-!
# `Forkall.RangeText` — reading a range from the environment

Model of `ski_input_env_load_int_range`, the scanner behind `SKI_INPUT1_RANGE` and its two siblings. The comment over
it gives the format `[[@]@][+]<int>[-<int>](,<int>[-<int>])*`. The values go into an array of `262144` cells inside the
variable; a write outside of it is a fault of its own here (`outOfBounds`), different from a failed assertion (`abort`).

* `skiInputEnvLoadIntRange_outOfBounds_iff` — a load leaves the array exactly if it reaches an interval whose size makes
  the 64-bit sum of the capacity test overflow.
* `load_independent_iff` — what a load leaves behind depends on what the variable held before: the initial `memset`
  has the size of a pointer.
-/

namespace SkiVmm.Forkall

open Lib

/-! ## The variable -/

/-- `ski_input_int_range`, with the `int`s that the loader finds in it. -/
structure RangeVariable where
  range : Nat → Int
  rangeN : Int
  iterator : Int
  relative : Int
  fromFileSingle : Int
  fromFilePairs : Int

/-- A global variable before its first use. -/
def RangeVariable.zeroed : RangeVariable := ⟨fun _ => 0, 0, 0, 0, 0, 0⟩

/-- The values that the variable holds. -/
def RangeVariable.values (v : RangeVariable) : List Int := (List.range v.rangeN.toNat).map v.range

/-- The variable with one more value. -/
def RangeVariable.push (v : RangeVariable) (d : Int) : RangeVariable :=
  { v with range := Function.update v.range v.rangeN.toNat d, rangeN := v.rangeN + 1 }

def RangeVariable.append (v : RangeVariable) (ds : List Int) : RangeVariable := ds.foldl RangeVariable.push v

/-- What stops a load: a failed assertion, or a write that leaves the array. -/
inductive LoadFault
  | abort
  | outOfBounds (index : Int)
  deriving DecidableEq, Repr

/-- `variable->range[variable->range_n] = d; variable->range_n++` -/
def RangeVariable.store (v : RangeVariable) (d : Int) : Except LoadFault RangeVariable :=
  if 0 ≤ v.rangeN ∧ v.rangeN < maxSkiInputIntRange then .ok (v.push d) else .error (.outOfBounds v.rangeN)

/-- `memset(variable, 0, sizeof(variable))`: the size is that of the pointer, which covers the first cell only. -/
def RangeVariable.memset (v : RangeVariable) : RangeVariable := { v with range := Function.update v.range 0 0 }

/-! ## The scanner -/

/-- `<d1>` or `<d1>-<d2>` -/
inductive Field
  | single (d : Int)
  | interval (d₁ d₂ : Int)
  deriving DecidableEq, Repr

/-- The field at the start of the string, and where it ends. A single value ends the string or has a comma behind it. -/
def scanField (s : List Char) : Option (Field × List Char) :=
  match strtoll s with
  | none => none
  | some (d, []) => some (.single d, [])
  | some (d, c :: s) =>
    -- the end of an interval is not looked at here: the loop asserts a comma behind it, or the end of the string
    if c = '-' then (strtoll s).map fun r => (.interval d r.1, r.2)
    else if c = ',' then some (.single d, c :: s)
    else none

/-- The assertions before a field is stored, with `n` values in the variable. -/
def Field.Accepted (n : Int) : Field → Prop
  | .single _ => n < maxSkiInputIntRange
  | .interval d₁ d₂ => d₁ ≤ d₂ ∧ longLong (n + longLong (longLong (d₂ - d₁) + 1)) < maxSkiInputIntRange

instance (n : Int) : (f : Field) → Decidable (f.Accepted n)
  | .single _ => inferInstanceAs (Decidable (_ < _))
  | .interval _ _ => inferInstanceAs (Decidable (_ ∧ _))

/-- The values a field stores: the loop over an interval runs as long as `i <= (d2-d1)`. -/
def Field.values : Field → List Int
  | .single d => [d]
  | .interval d₁ d₂ => (List.range (longLong (d₂ - d₁) + 1).toNat).map fun i : Nat => d₁ + i

def Field.store (f : Field) (v : RangeVariable) : Except LoadFault RangeVariable :=
  if f.Accepted v.rangeN then f.values.foldlM RangeVariable.store v else .error .abort

theorem length_scanField_lt {s r : List Char} {f : Field} (h : scanField s = some (f, r)) : r.length < s.length := by
  unfold scanField at h
  split at h
  · cases h
  · next hd =>
    cases h
    exact length_strtoll_lt hd
  · next hd =>
    have hlt := length_strtoll_lt hd
    split_ifs at h
    · obtain ⟨⟨d₂, r'⟩, hd₂, heq⟩ := Option.map_eq_some_iff.mp h
      cases heq
      have hlt₂ := length_strtoll_lt hd₂
      rw [List.length_cons] at hlt
      exact hlt₂.trans ((Nat.lt_succ_self _).trans hlt)
    · cases h
      exact hlt

/-- The loop over the fields. -/
def loadFields (s : List Char) (v : RangeVariable) : Except LoadFault RangeVariable :=
  match _h : scanField s with
  | none => .error .abort
  | some (f, []) => f.store v
  | some (f, c :: r) =>
    match f.store v with
    | .error fault => .error fault
    | .ok v => if c = ',' then loadFields r v else .error .abort
termination_by s.length
decreasing_by exact (Nat.lt_succ_self _).trans (length_scanField_lt _h)

/-- What the prefix of a range says. -/
structure Flags where
  fromFilePairs : Bool
  fromFileSingle : Bool
  relative : Bool
  deriving DecidableEq, Repr

/-- `@@` or `@`: pairs of inputs, or single ones. -/
def scanFile : List Char → (Bool × Bool) × List Char
  | '@' :: '@' :: s => ((true, false), s)
  | '@' :: s => ((false, true), s)
  | s => ((false, false), s)

def scanRelative : List Char → Bool × List Char
  | '+' :: s => (true, s)
  | s => (false, s)

def scanFlags (s : List Char) : Flags × List Char :=
  let (file, s) := scanFile s
  let (relative, s) := scanRelative s
  (⟨file.1, file.2, relative⟩, s)

/-- A flag is set or left as it is. -/
def RangeVariable.setFlags (v : RangeVariable) (flags : Flags) : RangeVariable :=
  { v with
    fromFilePairs := if flags.fromFilePairs then 1 else v.fromFilePairs
    fromFileSingle := if flags.fromFileSingle then 1 else v.fromFileSingle
    relative := if flags.relative then 1 else v.relative }

/-- `ski_input_env_load_int_range`, with the value of the environment variable. -/
def skiInputEnvLoadIntRange (env : Option (List Char)) (v : RangeVariable) : Except LoadFault RangeVariable :=
  match env with
  | none => .error .abort
  | some [] => .error .abort
  | some (c :: s) => loadFields (scanFlags (c :: s)).2 (v.memset.setFlags (scanFlags (c :: s)).1)

/-! ## Storing values -/

section Append
variable (v : RangeVariable) (ds : List Int)

@[simp] theorem RangeVariable.append_nil : v.append [] = v := rfl

@[simp] theorem RangeVariable.append_cons (d : Int) : v.append (d :: ds) = (v.push d).append ds := rfl

theorem RangeVariable.append_append (es : List Int) : v.append (ds ++ es) = (v.append ds).append es :=
  List.foldl_append

@[simp] theorem RangeVariable.append_rangeN : (v.append ds).rangeN = v.rangeN + ds.length := by
  induction ds generalizing v with
  | nil => simp
  | cons d ds ih =>
    rw [append_cons, ih, push, List.length_cons]
    push_cast
    omega

/-- A load changes nothing but the values and their number. -/
theorem RangeVariable.append_fields :
    (v.append ds).iterator = v.iterator ∧ (v.append ds).relative = v.relative ∧
      (v.append ds).fromFileSingle = v.fromFileSingle ∧ (v.append ds).fromFilePairs = v.fromFilePairs := by
  induction ds generalizing v with
  | nil => exact ⟨rfl, rfl, rfl, rfl⟩
  | cons d ds ih => exact ih (v.push d)

variable {v}

theorem RangeVariable.push_values (h : 0 ≤ v.rangeN) (d : Int) : (v.push d).values = v.values ++ [d] := by
  have hn : (v.rangeN + 1).toNat = v.rangeN.toNat + 1 := by omega
  unfold values push
  dsimp only
  rw [hn]
  exact Filled.map_range_update (fun _ x => x) v.range v.rangeN.toNat d

theorem RangeVariable.append_values (h : 0 ≤ v.rangeN) : (v.append ds).values = v.values ++ ds := by
  induction ds generalizing v with
  | nil => simp
  | cons d ds ih =>
    have hpush : 0 ≤ (v.push d).rangeN := Int.add_nonneg h (by decide)
    rw [append_cons, ih hpush, push_values h, List.append_assoc]
    rfl

variable {ds}

/-- Values that fit are appended. -/
theorem foldlM_store_ok (h : 0 ≤ v.rangeN) (hfit : v.rangeN + ds.length ≤ maxSkiInputIntRange) :
    ds.foldlM RangeVariable.store v = .ok (v.append ds) := by
  induction ds generalizing v with
  | nil => rfl
  | cons d ds ih =>
    rw [List.length_cons] at hfit
    push_cast at hfit
    have hstore : v.store d = .ok (v.push d) := if_pos ⟨h, by omega⟩
    rw [List.foldlM_cons, hstore]
    refine ih (Int.add_nonneg h (by decide)) ?_
    dsimp only [RangeVariable.push]
    omega

/-- Values that do not fit run over the end of the array. -/
theorem foldlM_store_outOfBounds (h : 0 ≤ v.rangeN) (hle : v.rangeN ≤ maxSkiInputIntRange)
    (hover : maxSkiInputIntRange < v.rangeN + ds.length) :
    ds.foldlM RangeVariable.store v = .error (.outOfBounds maxSkiInputIntRange) := by
  induction ds generalizing v with
  | nil =>
    rw [List.length_nil] at hover
    omega
  | cons d ds ih =>
    rw [List.foldlM_cons]
    by_cases hlt : v.rangeN < maxSkiInputIntRange
    · have hstore : v.store d = .ok (v.push d) := if_pos ⟨h, hlt⟩
      rw [hstore]
      refine ih (Int.add_nonneg h (by decide)) (Int.add_one_le_of_lt hlt) ?_
      rw [List.length_cons] at hover
      push_cast at hover
      dsimp only [RangeVariable.push]
      omega
    · have hfull : v.rangeN = maxSkiInputIntRange := by omega
      have hstore : v.store d = .error (.outOfBounds v.rangeN) := if_neg fun hin => hlt hin.2
      rw [hstore, hfull]
      rfl

/-- Whatever is stored without a fault was appended. -/
theorem eq_append_of_foldlM_store {w : RangeVariable} (h : ds.foldlM RangeVariable.store v = .ok w) :
    w = v.append ds := by
  induction ds generalizing v with
  | nil =>
    cases h
    rfl
  | cons d ds ih =>
    rw [List.foldlM_cons] at h
    by_cases hin : 0 ≤ v.rangeN ∧ v.rangeN < maxSkiInputIntRange
    · have hstore : v.store d = .ok (v.push d) := if_pos hin
      rw [hstore] at h
      exact ih h
    · have hstore : v.store d = .error (.outOfBounds v.rangeN) := if_neg hin
      rw [hstore] at h
      cases h

end Append

/-! ## One field -/

/-- An interval that the capacity test cannot see: its size is a `long long`, or just no more, but with the `n` values
    before it the sum is none. -/
def Field.Overlong (n : Int) : Field → Prop
  | .single _ => False
  | .interval d₁ d₂ => d₂ - d₁ < 2 ^ 63 ∧ 2 ^ 63 ≤ n + (d₂ - d₁ + 1)

/-- The end points are 64-bit numbers. -/
def Field.Is64 : Field → Prop
  | .single _ => True
  | .interval d₁ d₂ => (-2 ^ 63 ≤ d₁ ∧ d₁ < 2 ^ 63) ∧ -2 ^ 63 ≤ d₂ ∧ d₂ < 2 ^ 63

theorem scanField_is64 {s r : List Char} {f : Field} (h : scanField s = some (f, r)) : f.Is64 := by
  unfold scanField at h
  split at h
  · cases h
  · cases h
    exact trivial
  · next hd =>
    split_ifs at h
    · obtain ⟨⟨d₂, r'⟩, hd₂, heq⟩ := Option.map_eq_some_iff.mp h
      cases heq
      exact ⟨strtoll_bounds hd, strtoll_bounds hd₂⟩
    · cases h
      exact trivial

theorem longLong_of_bounds {v : Int} (h₁ : -2 ^ 63 ≤ v) (h₂ : v < 2 ^ 63) : longLong v = v :=
  Int.bmod_eq_of_le (by omega) (by omega)

/-- An overflow to the positive side. -/
theorem longLong_of_overflow {v : Int} (h₁ : 2 ^ 63 ≤ v) (h₂ : v < 2 ^ 64) : longLong v = v - 2 ^ 64 := by
  have hsub : v.bmod (2 ^ 64) = (v - 2 ^ 64).bmod (2 ^ 64) := (Int.sub_bmod_right v (2 ^ 64)).symm
  rw [longLong, hsub, Int.bmod_eq_of_le (by omega) (by omega)]

section Field
variable {f : Field} {n : Int} (h : f.Is64) (hn : 0 ≤ n) (hle : n ≤ maxSkiInputIntRange)
include h hle

theorem Field.Overlong.accepted (hover : f.Overlong n) : f.Accepted n := by
  have hmax : (maxSkiInputIntRange : Int) = 262144 := rfl
  cases f with
  | single d => exact hover.elim
  | interval d₁ d₂ =>
    obtain ⟨hlt, hsum⟩ := hover
    refine ⟨by omega, ?_⟩
    rw [longLong_of_bounds (v := d₂ - d₁) (by omega) hlt]
    -- the overflow is in the sum, or one step before it
    by_cases htop : d₂ - d₁ + 1 < 2 ^ 63
    · rw [longLong_of_bounds (by omega) htop, longLong_of_overflow hsum (by omega)]
      omega
    · rw [longLong_of_overflow (v := d₂ - d₁ + 1) (by omega) (by omega), longLong_of_bounds (by omega) (by omega)]
      omega

omit h in
/-- The values of an overlong interval do not fit. -/
theorem Field.Overlong.length (hover : f.Overlong n) : maxSkiInputIntRange < n + f.values.length := by
  have hmax : (maxSkiInputIntRange : Int) = 262144 := rfl
  cases f with
  | single d => exact hover.elim
  | interval d₁ d₂ =>
    obtain ⟨hlt, hsum⟩ := hover
    rw [values, List.length_map, List.length_range, longLong_of_bounds (by omega) hlt]
    omega

include hn in
/-- The values of any other accepted field fit. -/
theorem Field.Accepted.length_le (hacc : f.Accepted n) (hover : ¬ f.Overlong n) :
    n + f.values.length ≤ maxSkiInputIntRange := by
  have hmax : (maxSkiInputIntRange : Int) = 262144 := rfl
  cases f with
  | single d => exact Int.add_one_le_of_lt hacc
  | interval d₁ d₂ =>
    obtain ⟨hle', hcap⟩ := hacc
    obtain ⟨hd₁, hd₂⟩ := h
    rw [values, List.length_map, List.length_range]
    by_cases hlt : d₂ - d₁ < 2 ^ 63
    · have hsum : n + (d₂ - d₁ + 1) < 2 ^ 63 := Int.not_le.mp fun hge => hover ⟨hlt, hge⟩
      rw [longLong_of_bounds (v := d₂ - d₁) (by omega) hlt] at hcap ⊢
      rw [longLong_of_bounds (v := d₂ - d₁ + 1) (by omega) (by omega), longLong_of_bounds (by omega) hsum] at hcap
      omega
    · -- the difference itself overflows: the loop does not run
      rw [longLong_of_overflow (by omega) (by omega)]
      omega

end Field

/-- **One field**: refused, out of the array, or appended. -/
theorem Field.store_cases {f : Field} {v : RangeVariable} (h : f.Is64) (hn : 0 ≤ v.rangeN)
    (hle : v.rangeN ≤ maxSkiInputIntRange) :
    (¬ f.Accepted v.rangeN ∧ ¬ f.Overlong v.rangeN ∧ f.store v = .error .abort) ∨
    (f.Overlong v.rangeN ∧ f.store v = .error (.outOfBounds maxSkiInputIntRange)) ∨
    (f.Accepted v.rangeN ∧ ¬ f.Overlong v.rangeN ∧ f.store v = .ok (v.append f.values) ∧
      v.rangeN + f.values.length ≤ maxSkiInputIntRange) := by
  by_cases hacc : f.Accepted v.rangeN
  · have hstore : f.store v = f.values.foldlM RangeVariable.store v := if_pos hacc
    rw [hstore]
    by_cases hover : f.Overlong v.rangeN
    · exact .inr (.inl ⟨hover, foldlM_store_outOfBounds hn hle (hover.length hle)⟩)
    · have hfit := hacc.length_le h hn hle hover
      exact .inr (.inr ⟨hacc, hover, foldlM_store_ok hn hfit, hfit⟩)
  · exact .inl ⟨hacc, fun hover => hacc (hover.accepted h hle), if_neg hacc⟩

/-! ## All fields -/

section Loop
variable {s r : List Char} {f : Field} {v w : RangeVariable}

theorem loadFields_none (h : scanField s = none) : loadFields s v = .error .abort := by
  rw [loadFields]
  split <;> simp_all

theorem loadFields_last (h : scanField s = some (f, [])) : loadFields s v = f.store v := by
  rw [loadFields]
  split <;> simp_all

/-- A field is stored before the character behind it is looked at. -/
theorem loadFields_cons {c : Char} (h : scanField s = some (f, c :: r)) :
    loadFields s v = (f.store v).bind fun w => if c = ',' then loadFields r w else .error .abort := by
  rw [loadFields]
  split
  · next hnone => cases hnone.symm.trans h
  · next hlast => cases hlast.symm.trans h
  · next hmore =>
    cases hmore.symm.trans h
    split <;> next hstore => rw [hstore]; rfl

theorem loadFields_fault {fault : LoadFault} (h : scanField s = some (f, r)) (hf : f.store v = .error fault) :
    loadFields s v = .error fault := by
  cases r with
  | nil => rw [loadFields_last h, hf]
  | cons c r =>
    rw [loadFields_cons h, hf]
    rfl

theorem loadFields_comma (h : scanField s = some (f, ',' :: r)) (hf : f.store v = .ok w) :
    loadFields s v = loadFields r w := by
  rw [loadFields_cons h, hf, Except.bind, if_pos rfl]

theorem loadFields_garbage {c : Char} (h : scanField s = some (f, c :: r)) (hc : c ≠ ',') (hf : f.store v = .ok w) :
    loadFields s v = .error .abort := by
  rw [loadFields_cons h, hf, Except.bind, if_neg hc]

end Loop

/-- The scanner reaches an overlong interval, with `n` values loaded so far: every field before it is accepted. -/
inductive ReachesOverlong : Int → List Char → Prop
  | here {n : Int} {s r : List Char} {f : Field} (h : scanField s = some (f, r)) (hover : f.Overlong n) :
    ReachesOverlong n s
  | later {n : Int} {s r : List Char} {f : Field} (h : scanField s = some (f, ',' :: r)) (hacc : f.Accepted n)
    (hrest : ReachesOverlong (n + f.values.length) r) : ReachesOverlong n s

/-- Induction along the fields of a string. -/
theorem fields_induction {P : List Char → Prop}
    (step : ∀ s, (∀ f r, scanField s = some (f, ',' :: r) → P r) → P s) (s : List Char) : P s := by
  induction hlen : s.length using Nat.strong_induction_on generalizing s with
  | _ n ih =>
    subst hlen
    refine step s fun f r h => ih r.length ?_ r rfl
    exact (Nat.lt_succ_self _).trans (length_scanField_lt h)

/-- **The loop leaves the array exactly if it reaches an overlong interval.** -/
theorem loadFields_outOfBounds_iff (s : List Char) {v : RangeVariable} (hn : 0 ≤ v.rangeN)
    (hle : v.rangeN ≤ maxSkiInputIntRange) :
    (∃ i, loadFields s v = .error (.outOfBounds i)) ↔ ReachesOverlong v.rangeN s := by
  induction s using fields_induction generalizing v with
  | step s ih =>
    constructor
    · rintro ⟨i, hi⟩
      cases hscan : scanField s with
      | none =>
        rw [loadFields_none hscan] at hi
        cases hi
      | some fr =>
        obtain ⟨f, r⟩ := fr
        rcases Field.store_cases (scanField_is64 hscan) hn hle with ⟨-, -, hs⟩ | ⟨hover, -⟩ | ⟨hacc, -, hs, hfit⟩
        · rw [loadFields_fault hscan hs] at hi
          cases hi
        · exact .here hscan hover
        · cases r with
          | nil =>
            rw [loadFields_last hscan, hs] at hi
            cases hi
          | cons c r =>
            by_cases hc : c = ','
            · subst hc
              rw [loadFields_comma hscan hs] at hi
              have hrest := (ih f r hscan (v := v.append f.values) (by simp; omega) (by simpa using hfit)).mp ⟨i, hi⟩
              rw [RangeVariable.append_rangeN] at hrest
              exact .later hscan hacc hrest
            · rw [loadFields_garbage hscan hc hs] at hi
              cases hi
    · rintro (⟨hscan, hover⟩ | ⟨hscan, hacc, hrest⟩)
      · rcases Field.store_cases (scanField_is64 hscan) hn hle with ⟨-, hno, -⟩ | ⟨-, hs⟩ | ⟨-, hno, -⟩
        · exact absurd hover hno
        · exact ⟨_, loadFields_fault hscan hs⟩
        · exact absurd hover hno
      · rcases Field.store_cases (scanField_is64 hscan) hn hle with ⟨hno, -, -⟩ | ⟨-, hs⟩ | ⟨-, -, hs, hfit⟩
        · exact absurd hacc hno
        · exact ⟨_, loadFields_fault hscan hs⟩
        · rw [loadFields_comma hscan hs]
          refine (ih _ _ hscan (by simp; omega) (by simpa using hfit)).mpr ?_
          rw [RangeVariable.append_rangeN]
          exact hrest

theorem not_reachesOverlong_nil (n : Int) : ¬ ReachesOverlong n [] := by
  rintro (⟨h, -⟩ | ⟨h, -, -⟩) <;> cases h

/-- The same for the whole string, loaded into a variable with room. -/
theorem skiInputEnvLoadIntRange_outOfBounds_iff (env : Option (List Char)) {v : RangeVariable} (hn : 0 ≤ v.rangeN)
    (hle : v.rangeN ≤ maxSkiInputIntRange) :
    (∃ i, skiInputEnvLoadIntRange env v = .error (.outOfBounds i)) ↔
      ∃ s, env = some s ∧ ReachesOverlong v.rangeN (scanFlags s).2 := by
  match env with
  | none => simp [skiInputEnvLoadIntRange]
  | some [] =>
    have hnil : (scanFlags []).2 = [] := rfl
    simp [skiInputEnvLoadIntRange, hnil, not_reachesOverlong_nil]
  | some (c :: s) =>
    have hload := loadFields_outOfBounds_iff (scanFlags (c :: s)).2
      (v := v.memset.setFlags (scanFlags (c :: s)).1) hn hle
    simp only [Option.some.injEq, exists_eq_left']
    exact hload

/-! ## What the variable held before -/

section Again
variable {s : List Char} {f : Field} {u u' v w : RangeVariable}

theorem foldlM_store_congr {ds : List Int} (hn : u.rangeN = v.rangeN) (h : ds.foldlM RangeVariable.store v = .ok w) :
    ds.foldlM RangeVariable.store u = .ok (u.append ds) := by
  induction ds generalizing u v with
  | nil => rfl
  | cons d ds ih =>
    rw [List.foldlM_cons] at h ⊢
    by_cases hin : 0 ≤ v.rangeN ∧ v.rangeN < maxSkiInputIntRange
    · have hv : v.store d = .ok (v.push d) := if_pos hin
      have hu : u.store d = .ok (u.push d) := if_pos (hn ▸ hin)
      rw [hv] at h
      rw [hu]
      exact ih (congrArg (· + 1) hn) h
    · have hv : v.store d = .error (.outOfBounds v.rangeN) := if_neg hin
      rw [hv] at h
      cases h

theorem Field.eq_append_of_store (h : f.store v = .ok w) : w = v.append f.values := by
  unfold store at h
  split_ifs at h
  exact eq_append_of_foldlM_store h

theorem Field.store_congr (hn : u.rangeN = v.rangeN) (h : f.store v = .ok w) : f.store u = .ok (u.append f.values) := by
  unfold store at h ⊢
  split_ifs at h with hacc
  rw [if_pos (hn ▸ hacc)]
  exact foldlM_store_congr hn h

/-- A load that ends well stored the fields one after the other. -/
theorem loadFields_ok (h : loadFields s v = .ok w) : ∃ f r, scanField s = some (f, r) ∧
    (r = [] ∧ f.store v = .ok w ∨
      ∃ r' v', r = ',' :: r' ∧ f.store v = .ok v' ∧ loadFields r' v' = .ok w) := by
  cases hscan : scanField s with
  | none =>
    rw [loadFields_none hscan] at h
    cases h
  | some fr =>
    obtain ⟨f, r⟩ := fr
    refine ⟨f, r, rfl, ?_⟩
    cases r with
    | nil =>
      rw [loadFields_last hscan] at h
      exact .inl ⟨rfl, h⟩
    | cons c r =>
      cases hstore : f.store v with
      | error fault =>
        rw [loadFields_fault hscan hstore] at h
        cases h
      | ok v' =>
        by_cases hc : c = ','
        · subst hc
          rw [loadFields_comma hscan hstore] at h
          exact .inr ⟨r, v', rfl, rfl, h⟩
        · rw [loadFields_garbage hscan hc hstore] at h
          cases h

/-- **The values that a string loads** are its own: what is in the variable decides only whether there is room. -/
theorem loadFields_append (h : loadFields s v = .ok w) : ∃ ds, w = v.append ds ∧
    (∀ u, u.rangeN = v.rangeN → loadFields s u = .ok (u.append ds)) ∧
    ∀ u u', loadFields s u = .ok u' → u' = u.append ds := by
  induction s using fields_induction generalizing v with
  | step s ih =>
    obtain ⟨f, r, hscan, ⟨rfl, hstore⟩ | ⟨r, v', rfl, hstore, hrest⟩⟩ := loadFields_ok h
    · refine ⟨f.values, Field.eq_append_of_store hstore, fun u hu => ?_, fun u u' hu => ?_⟩
      · rw [loadFields_last hscan]
        exact Field.store_congr hu hstore
      · rw [loadFields_last hscan] at hu
        exact Field.eq_append_of_store hu
    · obtain ⟨ds, hw, hcongr, hsame⟩ := ih f r hscan hrest
      obtain rfl := Field.eq_append_of_store hstore
      refine ⟨f.values ++ ds, ?_, fun u hu => ?_, fun u u' hu => ?_⟩
      · rw [hw, RangeVariable.append_append]
      · rw [loadFields_comma hscan (Field.store_congr hu hstore), RangeVariable.append_append]
        refine hcongr _ ?_
        rw [RangeVariable.append_rangeN, RangeVariable.append_rangeN, hu]
      · -- the fields depend on the string only, so `u` went through the same ones
        obtain ⟨g, r', hscan', hor⟩ := loadFields_ok hu
        obtain ⟨rfl, rfl⟩ := Prod.mk.inj (Option.some.inj (hscan.symm.trans hscan'))
        obtain ⟨heq, -⟩ | ⟨r'', u'', heq, hstore', hrest'⟩ := hor
        · cases heq
        · cases heq
          rw [RangeVariable.append_append, ← Field.eq_append_of_store hstore']
          exact hsame _ _ hrest'

end Again

/-- Two variables with the same contents: values, number of values, iterator and flags. -/
def RangeVariable.Same (v w : RangeVariable) : Prop :=
  v.values = w.values ∧ v.rangeN = w.rangeN ∧ v.iterator = w.iterator ∧ v.relative = w.relative ∧
    v.fromFileSingle = w.fromFileSingle ∧ v.fromFilePairs = w.fromFilePairs

/-- Values appended to two variables of which one is empty. -/
theorem RangeVariable.append_same_iff {v z : RangeVariable} (hz : z.rangeN = 0) (ds : List Int) :
    (v.append ds).Same (z.append ds) ↔ v.rangeN = 0 ∧ v.iterator = z.iterator ∧ v.relative = z.relative ∧
      v.fromFileSingle = z.fromFileSingle ∧ v.fromFilePairs = z.fromFilePairs := by
  obtain ⟨hvi, hvr, hvs, hvp⟩ := v.append_fields ds
  obtain ⟨hzi, hzr, hzs, hzp⟩ := z.append_fields ds
  unfold Same
  rw [hvi, hvr, hvs, hvp, hzi, hzr, hzs, hzp, append_rangeN, append_rangeN, hz]
  constructor
  · rintro ⟨-, hn, hrest⟩
    exact ⟨by omega, hrest⟩
  · rintro ⟨hn, hrest⟩
    refine ⟨?_, by omega, hrest⟩
    rw [append_values ds (Int.le_of_eq hn.symm), append_values ds (Int.le_of_eq hz.symm), values, values, hn, hz]
    rfl

/-- A flag that is set or left alone is that of a zeroed variable if it was clear or is set. -/
theorem flag_eq_iff (b : Bool) (x : Int) :
    (if b then 1 else x) = (if b then 1 else (0 : Int)) ↔ x = 0 ∨ b = true := by
  cases b <;> simp

/-- **When a load forgets what the variable held before.** For a string that a zeroed variable takes, the variable
    ends up with the same contents exactly if it had no values, its iterator was at the start, and each of its flags
    was clear or is one that the string sets. -/
theorem load_independent_iff {s : List Char} {z : RangeVariable}
    (hz : skiInputEnvLoadIntRange (some s) .zeroed = .ok z) (v : RangeVariable) :
    (∃ w, skiInputEnvLoadIntRange (some s) v = .ok w ∧ w.Same z) ↔
      v.rangeN = 0 ∧ v.iterator = 0 ∧ (v.relative = 0 ∨ (scanFlags s).1.relative = true) ∧
      (v.fromFileSingle = 0 ∨ (scanFlags s).1.fromFileSingle = true) ∧
      (v.fromFilePairs = 0 ∨ (scanFlags s).1.fromFilePairs = true) := by
  match s with
  | [] => cases hz
  | c :: s =>
    rw [skiInputEnvLoadIntRange] at hz ⊢
    generalize (scanFlags (c :: s)).1 = flags at hz ⊢
    generalize (scanFlags (c :: s)).2 = r at hz ⊢
    -- both loads append the same values, so it is left to compare what they are appended to
    obtain ⟨ds, rfl, hcongr, hsame⟩ := loadFields_append hz
    have hiff := RangeVariable.append_same_iff (v := v.memset.setFlags flags)
      (z := RangeVariable.zeroed.memset.setFlags flags) rfl ds
    have hflags := and_congr (flag_eq_iff flags.relative v.relative)
      (and_congr (flag_eq_iff flags.fromFileSingle v.fromFileSingle) (flag_eq_iff flags.fromFilePairs v.fromFilePairs))
    refine Iff.trans ?_ (hiff.trans (and_congr Iff.rfl (and_congr Iff.rfl hflags)))
    constructor
    · rintro ⟨w, hw, hwz⟩
      rwa [hsame _ _ hw] at hwz
    · intro hwz
      exact ⟨_, hcongr _ (hiff.mp hwz).1, hwz⟩

theorem load_independent_of_flags_set :
    ∃ w, skiInputEnvLoadIntRange (some ['@', '+', '3']) ⟨fun _ => 7, 0, 0, 1, 1, 0⟩ = .ok w ∧
      w.Same ((RangeVariable.zeroed.memset.setFlags ⟨false, true, true⟩).append [3]) := by
  have hscan : scanField ['3'] = some (.single 3, []) := by decide
  have hz : skiInputEnvLoadIntRange (some ['@', '+', '3']) .zeroed
      = .ok ((RangeVariable.zeroed.memset.setFlags ⟨false, true, true⟩).append [3]) := loadFields_last hscan
  exact (load_independent_iff hz _).mpr (by decide)

/-- The same string twice: the values of the first load are still there. -/
theorem load_twice_appends :
    ∃ z w : RangeVariable, skiInputEnvLoadIntRange (some ['1']) .zeroed = .ok z ∧
      skiInputEnvLoadIntRange (some ['1']) z = .ok w ∧ z.rangeN = 1 ∧ w.rangeN = 2 ∧ ¬ w.Same z := by
  have hscan : scanField ['1'] = some (.single 1, []) := by decide
  refine ⟨_, _, loadFields_last hscan, loadFields_last hscan, rfl, rfl, fun hsame => ?_⟩
  have htwo := hsame.2.1
  revert htwo
  decide

end SkiVmm.Forkall
