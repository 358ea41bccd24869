import SkiVmm.Lib.Text
import SkiVmm.Sched.Machine

/-!
# `Priorities.Parse` — reading the priorities file (`ski-priorities.c`)

The file says in which order the scheduler prefers the threads of a test. `ski_config_priorities_parse_file` reads it
line by line, `ski_config_priorities_parseline` appends the entries of a line to `plist` and shuffles them when the
line asks for it, and the list becomes the thread table.

A pointer into the line is the rest of the line from there, so `p < q` reads as `q.length < p.length`. `none` is a
failed assertion or an access outside of an array. Lines hold no NUL character.
-/

namespace SkiVmm.Priorities

open Lib
open Sched (ThreadContext TableEntry skiThreadsInsert)

/-- `ski_config_priorities_entry` -/
structure SkiConfigPrioritiesEntry where
  cpu : Int
  i : Int
  n : Int
deriving DecidableEq, Repr

/-- `SKI_MAX_CONFIG_PRIORITIES_PER_LINE`, the size of `plist` -/
def skiMaxConfigPrioritiesPerLine : Nat := 64 * 256

/-- `SKI_MAX_CONFIG_PRIORITIES_LENGHT` -/
def skiMaxConfigPrioritiesLenght : Nat := 1024

/-- `SKI_MAX_CONFIG_PRIORITIES_FIELD_ENTRIES` -/
def skiMaxConfigPrioritiesFieldEntries : Nat := 50

/-! ## Random numbers -/

/-- `ski_config_priorities_random` on `ski_config_priorities_random_next`, an `unsigned long` -/
def skiConfigPrioritiesRandom (next : Nat) : Nat × Nat :=
  let next := (next * 1103515245 + 12345) % 2 ^ 64
  (next / 65536 % 2 ^ 32 % 32768, next)

/-- `ski_config_priorities_random_init`, whose argument is `unsigned` -/
def skiConfigPrioritiesRandomInit (seed : Int) : Nat := (seed % 2 ^ 32).toNat

/-! ## A group -/

/-- The sub-matches of the regular expression: where the two lists start and end, and where `n` starts. -/
structure RegMatch where
  cpus : List Char
  cpusEnd : List Char
  ints : List Char
  intsEnd : List Char
  n : List Char
deriving DecidableEq, Repr

/-- The literal parts of the expression. -/
def cpuOpen : List Char := ['c', 'p', 'u', '\x7b']

def intOpen : List Char := ['\x7d', ';', 'i', 'n', 't', '\x7b']

def intClose : List Char := ['\x7d', ';']

/-- A match at the start of the string. A list ends at the first closing brace, and the bracket expression of the
    third sub-match may match nothing. -/
def matchHere (s : List Char) : Option RegMatch := do
  let cpus ← skipLiteral cpuOpen s
  let cpusEnd := cpus.dropWhile (· ≠ '\x7d')
  let ints ← skipLiteral intOpen cpusEnd
  let intsEnd := ints.dropWhile (· ≠ '\x7d')
  let n ← skipLiteral intClose intsEnd
  return { cpus, cpusEnd, ints, intsEnd, n }

/-- `regexec`: the leftmost match. -/
def regexec : List Char → Option RegMatch
  | [] => none
  | c :: s =>
    match matchHere (c :: s) with
    | some m => some m
    | none => regexec s

/-- The loop over the numbers of a list, up to the end of its sub-match. The search for the next separator does not
    stop at that end, and without another separator `strchr` returns a null pointer. -/
def readMatches (rmEo curEntry : List Char) (found : List Int) : Option (List Int) :=
  if rmEo.length < curEntry.length then
    if found.length < skiMaxConfigPrioritiesFieldEntries then
      match sscanfInt curEntry with
      | none => none
      | some n =>
        match _h : afterChar ',' curEntry with
        | none => some (found ++ [n])
        | some curEntry => readMatches rmEo curEntry (found ++ [n])
    else none
  else some found
termination_by curEntry.length
decreasing_by exact length_afterChar_lt _h

/-- The entries of the group at `curGroup`. Without a number at its place, `n` is the last number that was read. -/
def readGroup (curGroup : List Char) : Option (List SkiConfigPrioritiesEntry) := do
  let m ← regexec curGroup
  let cpusMatches ← readMatches m.cpusEnd m.cpus []
  let intsMatches ← readMatches m.intsEnd m.ints []
  let nMatch := (sscanfInt m.n).getD ((cpusMatches ++ intsMatches).getLastD 0)
  return cpusMatches.flatMap fun cpu => intsMatches.map fun i => { cpu, i, n := nMatch }

/-! ## A line -/

/-- The loop over the groups of a line, which appends to `plist` and finds out `should_randomize`. -/
def readGroups (curGroup : List Char) (plist : List SkiConfigPrioritiesEntry) (shouldRandomize : Bool) :
    Option (List SkiConfigPrioritiesEntry × Bool) :=
  if curGroup = [] then some (plist, shouldRandomize)
  else
    match readGroup curGroup with
    | none => none
    | some entries =>
      if plist.length + entries.length ≤ skiMaxConfigPrioritiesPerLine then
        match _h : afterChar '|' curGroup with
        | none => some (plist ++ entries, shouldRandomize)
        | some nextGroup => readGroups nextGroup (plist ++ entries) true
      else none
termination_by curGroup.length
decreasing_by exact length_afterChar_lt _h

/-- What the parser keeps between lines: `plist` and `ski_config_priorities_random_next`. -/
abbrev Parsed := List SkiConfigPrioritiesEntry × Nat

/-- `ski_config_priorities_parseline` -/
def skiConfigPrioritiesParseline (parsed : Parsed) (argStr : List Char) : Option Parsed := do
  let str := argStr.take (skiMaxConfigPrioritiesLenght - 1)
  let (plist, shouldRandomize) ← readGroups str parsed.1 false
  if shouldRandomize then
    return shuffle skiConfigPrioritiesRandom parsed.1.length (plist.length - parsed.1.length) parsed.2 plist
  else return (plist, parsed.2)

/-! ## The file -/

/-- The line without its newline. -/
def stripNewline (buffer : List Char) : List Char :=
  if buffer.getLast? = some '\n' then buffer.dropLast else buffer

/-- The loop over the lines, read by `fgets(buffer, 512-1, fp)`. -/
def parseLines (text : List Char) (parsed : Parsed) : Option Parsed :=
  match _h : fgets (512 - 1) text with
  | none => some parsed
  | some (buffer, text) =>
    match skiConfigPrioritiesParseline parsed (stripNewline buffer) with
    | none => none
    | some parsed => parseLines text parsed
termination_by text.length
decreasing_by exact length_fgets_lt (by decide) _h

/-- The arguments of `ski_threads_insert`; a CPU number of the file is not negative. -/
def SkiConfigPrioritiesEntry.row (p : SkiConfigPrioritiesEntry) : TableEntry :=
  { cpu := p.cpu.toNat, i := p.i, n := p.n }

/-- `ski_config_priorities_parse_file` on the contents of the file. The seed loses its last decimal digit. -/
def skiConfigPrioritiesParseFile (text : List Char) (seed : Int) : Option (List ThreadContext) := do
  let seedHighGranularity := seed.tdiv 10
  let (plist, _) ← parseLines text ([], skiConfigPrioritiesRandomInit seedHighGranularity)
  (plist.map SkiConfigPrioritiesEntry.row).foldlM skiThreadsInsert []

end SkiVmm.Priorities
