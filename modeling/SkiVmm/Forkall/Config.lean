import SkiVmm.Forkall.RangeText
import SkiVmm.Priorities.Parse

/-!
# `Forkall.Config` — the configuration that `ski_input_init` loads

The environment gives three ranges and the names of at most two files: a file of inputs, one number a line, and a file
of pairs, two numbers a line. `InputConfig.load` runs the loaders one after the other; `skiInputInit` (`Forkall.Total`)
then checks what they found. What lies in memory outside the loaded entries of a file stays a parameter.

`InputConfig.load_loaded` collects what the later modules need: the iterators stand at the start, no range refers to
both files, and the entries of the file of inputs are `int`s.
-/

namespace SkiVmm.Forkall

open Lib Priorities

/-! ## Files -/

/-- `SKI_INPUT_FILE_MAX` -/
def skiInputFileMax : Nat := 256 * 1024

/-- `SKI_INPUT_PAIRS_FILE_MAX` -/
def skiInputPairsFileMax : Nat := 5 * 1024 * 1024

section Files
variable {α : Type} (scan : List Char → Option α) (max : Nat)

/-- The loop over the lines of a file. The first line that `sscanf` cannot read ends it. -/
def loadEntries (text : List Char) (loaded : List α) : Option (List α) :=
  match _h : fgets (512 - 1) text with
  | none => some loaded
  | some (buffer, text) =>
    match scan (stripNewline buffer) with
    | none => some loaded
    | some entry =>
      if loaded.length + 1 < max then loadEntries text (loaded ++ [entry]) else none
termination_by text.length
decreasing_by exact length_fgets_lt (by decide) _h

variable {scan max} in
theorem loadEntries_line {text buffer rest : List Char} {loaded : List α} {entry : α}
    (hline : fgets (512 - 1) text = some (buffer, rest)) (hentry : scan (stripNewline buffer) = some entry)
    (hmax : loaded.length + 1 < max) :
    loadEntries scan max text loaded = loadEntries scan max rest (loaded ++ [entry]) := by
  rw [loadEntries]
  split <;> simp_all

theorem loadEntries_nil (loaded : List α) : loadEntries scan max [] loaded = some loaded := by
  rw [loadEntries]
  rfl

/-- The text of a file, if one is named: it must have an entry. -/
def loadFile : Option (List Char) → Option (List α)
  | none => some []
  | some text => (loadEntries scan max text []).filter fun loaded => !loaded.isEmpty

variable {scan max} {P : α → Prop} (hscan : ∀ s entry, scan s = some entry → P entry)
include hscan

theorem loadEntries_forall {text : List Char} {before loaded : List α} (hbefore : ∀ x ∈ before, P x)
    (h : loadEntries scan max text before = some loaded) : ∀ x ∈ loaded, P x := by
  fun_induction loadEntries scan max text before with
  | case1 before => exact Option.some.inj h ▸ hbefore
  | case2 before => exact Option.some.inj h ▸ hbefore
  | case3 text before buffer rest _ entry hentry _ ih =>
    refine ih ?_ h
    intro x hx
    rcases List.mem_append.mp hx with hx | hx
    · exact hbefore x hx
    · rw [List.mem_singleton.mp hx]
      exact hscan _ entry hentry
  | case4 => cases h

theorem loadFile_forall {file : Option (List Char)} {loaded : List α} (h : loadFile scan max file = some loaded) :
    ∀ x ∈ loaded, P x := by
  cases file with
  | none =>
    cases h
    exact List.forall_mem_nil P
  | some text =>
    obtain ⟨h, -⟩ := Option.filter_eq_some_iff.mp h
    exact loadEntries_forall hscan (List.forall_mem_nil P) h

end Files

/-- `ski_input_load_input_file` -/
def skiInputLoadInputFile : Option (List Char) → Option (List Int) := loadFile sscanfInt skiInputFileMax

/-- `sscanf` with `%d %d` -/
def sscanfTwoInts (s : List Char) : Option (Int × Int) := do
  let (first, s) ← strtoll s
  let (second, _) ← strtoll s
  return (toCInt first, toCInt second)

/-- `ski_input_load_input_pairs_file` -/
def skiInputLoadInputPairsFile : Option (List Char) → Option (List (Int × Int)) :=
  loadFile sscanfTwoInts skiInputPairsFileMax

/-- An array whose first entries were loaded. -/
def arrayWith {α : Type} (loaded : List α) (memory : Int → α) (i : Int) : α :=
  if 0 ≤ i then (loaded[i.toNat]?).getD (memory i) else memory i

theorem arrayWith_mem {α : Type} {loaded : List α} {i : Int} (h₀ : 0 ≤ i) (h : i < loaded.length) (memory : Int → α) :
    arrayWith loaded memory i ∈ loaded := by
  have hlt : i.toNat < loaded.length := by omega
  rw [arrayWith, if_pos h₀, List.getElem?_eq_getElem hlt]
  exact List.getElem_mem hlt

theorem toCInt_inInt (v : Int) : InInt (toCInt v) := by
  have hlow := Int.le_bmod (x := v) (m := 2 ^ 32) (by decide)
  have hhigh := Int.bmod_lt (x := v) (m := 2 ^ 32) (by decide)
  unfold InInt toCInt
  omega

theorem toCInt_of_inInt {v : Int} (h : InInt v) : toCInt v = v := by
  obtain ⟨hlow, hhigh⟩ := h
  exact Int.bmod_eq_of_le (by omega) (by omega)

theorem sscanfInt_inInt {s : List Char} {n : Int} (h : sscanfInt s = some n) : InInt n := by
  unfold sscanfInt at h
  simp only at h
  split_ifs at h
  cases h
  exact toCInt_inInt _

/-! ## The configuration -/

/-- The values of `SKI_INPUT1_RANGE`, `SKI_INPUT2_RANGE` and `SKI_INTERLEAVING_RANGE`, and the texts of the files that
    `SKI_INPUT_FILENAME` and `SKI_INPUT_PAIRS_FILENAME` name. -/
structure InputConfig where
  input1 : Option (List Char)
  input2 : Option (List Char)
  interleaving : Option (List Char)
  inputFile : Option (List Char)
  inputPairsFile : Option (List Char)

/-- The variable as the rest of the program reads it. -/
def RangeVariable.toRange (v : RangeVariable) : SkiInputIntRange where
  range := v.range
  rangeN := v.rangeN.toNat
  iterator := v.iterator.toNat
  relative := v.relative ≠ 0
  fromFileSingle := v.fromFileSingle ≠ 0
  fromFilePairs := v.fromFilePairs ≠ 0

/-- What the globals hold before, outside the loaded entries. -/
structure Memory where
  inputFile : Int → Int
  inputPairsFile : Int → Int × Int

/-- A range is loaded into a global that was not used before. -/
def loadRange (env : Option (List Char)) : Option SkiInputIntRange :=
  (skiInputEnvLoadIntRange env .zeroed).toOption.map RangeVariable.toRange

/-- The loaders that `ski_input_init` calls. -/
def InputConfig.load (c : InputConfig) (m : Memory) : Option InputState := do
  let r₁ ← loadRange c.input1
  let r₂ ← loadRange c.input2
  let r₃ ← loadRange c.interleaving
  let file ← skiInputLoadInputFile c.inputFile
  let pairs ← skiInputLoadInputPairsFile c.inputPairsFile
  return {
    input1Range := r₁
    input2Range := r₂
    interleavingRange := r₃
    inputFile := arrayWith file m.inputFile
    inputFileN := file.length
    inputPairsFile := fun i inputNo =>
      if inputNo.val = 0 then (arrayWith pairs m.inputPairsFile i).1 else (arrayWith pairs m.inputPairsFile i).2
    inputPairsFileN := pairs.length
    inputNumber := (0, 0)
    seed := 0 }

/-- The configuration passes `ski_input_init` and leaves the globals `s`. -/
def InputConfig.AcceptedAs (c : InputConfig) (m : Memory) (s : InputState) : Prop :=
  c.load m = some s ∧ ∃ total, skiInputInit s = some total

/-- No prefix says both `@@` and `@`. -/
theorem scanFlags_exclusive (s : List Char) :
    ¬ ((scanFlags s).1.fromFilePairs = true ∧ (scanFlags s).1.fromFileSingle = true) := by
  have hfile : ¬ ((scanFile s).1.1 = true ∧ (scanFile s).1.2 = true) := by
    unfold scanFile
    split <;> simp
  exact hfile

theorem loadRange_eq_some {env : Option (List Char)} {r : SkiInputIntRange} (h : loadRange env = some r) :
    r.iterator = 0 ∧ ¬ (r.fromFilePairs = true ∧ r.fromFileSingle = true) := by
  obtain ⟨v, hv, rfl⟩ := Option.map_eq_some_iff.mp h
  match env with
  | none => cases hv
  | some [] => cases hv
  | some (c :: s) =>
    have hload : skiInputEnvLoadIntRange (some (c :: s)) .zeroed = .ok v := by
      cases hres : skiInputEnvLoadIntRange (some (c :: s)) .zeroed with
      | error fault =>
        rw [hres] at hv
        cases hv
      | ok w =>
        rw [hres] at hv
        cases hv
        rfl
    have hexcl := scanFlags_exclusive (c :: s)
    rw [skiInputEnvLoadIntRange] at hload
    generalize (scanFlags (c :: s)).1 = flags at hload hexcl
    obtain ⟨ds, rfl, -, -⟩ := loadFields_append hload
    obtain ⟨hiter, -, hsingle, hpairs⟩ := (RangeVariable.zeroed.memset.setFlags flags).append_fields ds
    unfold RangeVariable.toRange
    dsimp only
    rw [hiter, hsingle, hpairs]
    refine ⟨rfl, ?_⟩
    rintro ⟨h₁, h₂⟩
    refine hexcl ⟨?_, ?_⟩
    · by_contra hne
      simp [RangeVariable.setFlags, RangeVariable.memset, RangeVariable.zeroed, hne] at h₁
    · by_contra hne
      simp [RangeVariable.setFlags, RangeVariable.memset, RangeVariable.zeroed, hne] at h₂

/-- What the loaders leave behind. -/
structure InputState.Loaded (s : InputState) : Prop where
  positions : s.positions = (0, 0, 0)
  exclusive : ¬ (s.input1Range.fromFilePairs = true ∧ s.input1Range.fromFileSingle = true)
  entries : ∀ i, 0 ≤ i → i < s.inputFileN → InInt (s.inputFile i)

theorem InputConfig.load_loaded {c : InputConfig} {m : Memory} {s : InputState} (h : c.load m = some s) :
    s.Loaded := by
  simp only [load, Option.bind_eq_bind, Option.bind_eq_some_iff] at h
  obtain ⟨r₁, h₁, r₂, h₂, r₃, h₃, file, hfile, pairs, hpairs, heq⟩ := h
  cases heq
  obtain ⟨hi₁, hexcl⟩ := loadRange_eq_some h₁
  refine ⟨?_, hexcl, fun i h₀ hlt => ?_⟩
  · unfold InputState.positions
    dsimp only
    rw [hi₁, (loadRange_eq_some h₂).1, (loadRange_eq_some h₃).1]
  · exact loadFile_forall (fun _ _ => sscanfInt_inInt) hfile _ (arrayWith_mem h₀ hlt _)

/-! ## Configurations of one test -/

/-- One value for each range, and a file of inputs. -/
def oneTest (input1 input2 file : List Char) : InputConfig := ⟨some input1, some input2, some ['0'], some file, none⟩

/-- A range with one value. -/
def oneValue (flags : Flags) (d : Int) : SkiInputIntRange :=
  ((RangeVariable.zeroed.memset.setFlags flags).append [d]).toRange

def oneTestState (flags₁ flags₂ : Flags) (d₁ d₂ : Int) (entries : List Int) : InputState where
  input1Range := oneValue flags₁ d₁
  input2Range := oneValue flags₂ d₂
  interleavingRange := oneValue ⟨false, false, false⟩ 0
  inputFile := arrayWith entries fun _ => 0
  inputFileN := entries.length
  inputPairsFile := fun _ _ => 0
  inputPairsFileN := 0
  inputNumber := (0, 0)
  seed := 0

theorem loadRange_single {s : List Char} {d : Int} (hscan : scanField (scanFlags s).2 = some (.single d, [])) :
    loadRange (some s) = some (oneValue (scanFlags s).1 d) := by
  cases s with
  | nil => cases hscan
  | cons c s =>
    have hload : skiInputEnvLoadIntRange (some (c :: s)) .zeroed
        = .ok ((RangeVariable.zeroed.memset.setFlags (scanFlags (c :: s)).1).append [d]) := loadFields_last hscan
    rw [loadRange, hload]
    rfl

theorem oneTest_load {input1 input2 file : List Char} {d₁ d₂ : Int} {entries : List Int}
    (h₁ : scanField (scanFlags input1).2 = some (.single d₁, []))
    (h₂ : scanField (scanFlags input2).2 = some (.single d₂, []))
    (hfile : skiInputLoadInputFile (some file) = some entries) :
    (oneTest input1 input2 file).load ⟨fun _ => 0, fun _ => (0, 0)⟩
      = some (oneTestState (scanFlags input1).1 (scanFlags input2).1 d₁ d₂ entries) := by
  have h₃ : loadRange (some ['0']) = some (oneValue ⟨false, false, false⟩ 0) := loadRange_single (by decide)
  have hpairs : skiInputLoadInputPairsFile none = some [] := rfl
  simp only [InputConfig.load, oneTest, loadRange_single h₁, loadRange_single h₂, h₃, hfile, hpairs,
    Option.bind_eq_bind, Option.bind_some]
  refine congrArg some ?_
  simp [oneTestState, arrayWith]

end SkiVmm.Forkall
