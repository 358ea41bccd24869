import Mathlib.Data.List.Forall2
import SkiVmm.Priorities.Parse
import SkiVmm.Sched.Bounds

/-!
# `Priorities.Format` — the documented format, and the thread table it denotes

A line is a list of groups separated by `|`, a group is a list of CPUs, a list of interrupts and a number. Each type
of the grammar has its text and its entries:

* `readMatches_text`, `readGroup_text`, `readGroups_text` — the loops of the parser read a text back to its entries;
* `parseLines_joinWith` — a file is parsed line by line, also where a line fills the buffer of `fgets`;
* `foldlM_parseline` — over a whole file, `plist` is one block per line, a permutation of the entries of the line.

The thread table is then the blocks one after the other.
-/

namespace SkiVmm.Priorities

open Lib
open Sched (ThreadContext skiThreadsInsert skiTcInitialize skiThreadsCalculatePriority eligible maxSkiThreads)

/-! ## The grammar -/

/-- A decimal number of the range of `int`. -/
structure Numeral where
  negative : Bool
  digits : List Char
  digits_ne_nil : digits ≠ []
  digits_isDigit : ∀ c ∈ digits, c.isDigit = true
  inInt : InInt (signedValue negative digits)

def Numeral.value (x : Numeral) : Int := signedValue x.negative x.digits

def Numeral.text (x : Numeral) : List Char := (if x.negative then ['-'] else []) ++ x.digits

/-- One group: an interrupt is a vector, or -1 for the thread of the CPU itself. -/
structure Group where
  cpus : List Numeral
  ints : List Numeral
  n : Numeral
  cpus_length : cpus.length ≤ skiMaxConfigPrioritiesFieldEntries
  ints_length : ints.length ≤ skiMaxConfigPrioritiesFieldEntries
  cpus_nonneg : ∀ x ∈ cpus, 0 ≤ x.value
  ints_ge : ∀ x ∈ ints, -1 ≤ x.value

def listText (xs : List Numeral) : List Char := joinWith ',' false (xs.map Numeral.text)

def Group.text (g : Group) : List Char :=
  cpuOpen ++ (listText g.cpus ++ (intOpen ++ (listText g.ints ++ (intClose ++ g.n.text))))

/-- The cross product of a group, CPU by CPU. -/
def Group.entries (g : Group) : List SkiConfigPrioritiesEntry :=
  g.cpus.flatMap fun cpu => g.ints.map fun i => { cpu := cpu.value, i := i.value, n := g.n.value }

def groupsText (groups : List Group) (final : Bool) : List Char := joinWith '|' final (groups.map Group.text)

/-- A line, with or without a separator at its end. -/
structure Line where
  groups : List Group
  final : Bool
  length_le : (groupsText groups final).length ≤ 510

def Line.text (line : Line) : List Char := groupsText line.groups line.final

def Line.entries (line : Line) : List SkiConfigPrioritiesEntry := line.groups.flatMap Group.entries

/-- A file, with or without a newline at its end. -/
structure PrioritiesFile where
  lines : List Line
  finalNewline : Bool
  entries_le : (lines.flatMap Line.entries).length ≤ maxSkiThreads

def PrioritiesFile.text (file : PrioritiesFile) : List Char :=
  joinWith '\n' file.finalNewline (file.lines.map Line.text)

/-! ## Characters -/

theorem Numeral.mem_text {x : Numeral} {c : Char} (h : c ∈ x.text) : c.isDigit = true ∨ c = '-' := by
  unfold Numeral.text at h
  rcases List.mem_append.mp h with hc | hc
  · split at hc
    · exact .inr (List.mem_singleton.mp hc)
    · cases hc
  · exact .inl (x.digits_isDigit c hc)

theorem mem_listText {xs : List Numeral} {c : Char} (h : c ∈ listText xs) :
    c.isDigit = true ∨ c ∈ ['-', ','] := by
  rcases mem_joinWith h with rfl | ⟨a, ha, hc⟩
  · exact .inr (by decide)
  · obtain ⟨x, -, rfl⟩ := List.mem_map.mp ha
    refine (Numeral.mem_text hc).imp_right ?_
    rintro rfl
    exact List.mem_cons_self

/-- The characters of two lists and a number. -/
theorem mem_groupText {cpus ints : List Numeral} {n : Numeral} {c : Char}
    (h : c ∈ cpuOpen ++ (listText cpus ++ (intOpen ++ (listText ints ++ (intClose ++ n.text))))) :
    c.isDigit = true ∨ c ∈ ['-', ','] ++ cpuOpen ++ intOpen ++ intClose := by
  simp only [List.mem_append] at h ⊢
  rcases h with hc | hc | hc | hc | hc | hc
  · exact .inr (.inl (.inl (.inr hc)))
  · exact (mem_listText hc).imp_right fun hc => .inl (.inl (.inl hc))
  · exact .inr (.inl (.inr hc))
  · exact (mem_listText hc).imp_right fun hc => .inl (.inl (.inl hc))
  · exact .inr (.inr hc)
  · refine (Numeral.mem_text hc).imp_right ?_
    rintro rfl
    exact .inl (.inl (.inl List.mem_cons_self))

theorem bar_not_mem_groupText {cpus ints : List Numeral} {n : Numeral} :
    '|' ∉ cpuOpen ++ (listText cpus ++ (intOpen ++ (listText ints ++ (intClose ++ n.text)))) := by
  intro h
  rcases mem_groupText h with hc | hc
  · cases hc
  · exact absurd hc (by decide)

theorem Group.bar_not_mem (g : Group) : '|' ∉ g.text := bar_not_mem_groupText

theorem Line.newline_not_mem (line : Line) : '\n' ∉ line.text := by
  intro h
  rcases mem_joinWith h with heq | ⟨a, ha, hc⟩
  · cases heq
  · obtain ⟨g, -, rfl⟩ := List.mem_map.mp ha
    rcases mem_groupText hc with hc | hc
    · cases hc
    · exact absurd hc (by decide)

theorem not_mem_listText {xs : List Numeral} : '\x7d' ∉ listText xs := by
  intro h
  rcases mem_listText h with hc | hc
  · cases hc
  · exact absurd hc (by decide)

/-! ## A list of numbers -/

theorem Numeral.sscanfInt_text (x : Numeral) {s : List Char} (hs : ∀ c ∈ s.head?, c.isDigit = false) :
    sscanfInt (x.text ++ s) = some x.value := by
  unfold Numeral.text
  rw [List.append_assoc]
  exact sscanfInt_append x.digits_isDigit hs x.digits_ne_nil x.inInt

theorem Numeral.length_text_pos (x : Numeral) : 0 < x.text.length := by
  have := List.length_pos_iff.mpr x.digits_ne_nil
  unfold Numeral.text
  rw [List.length_append]
  omega

theorem Numeral.comma_not_mem (x : Numeral) : ',' ∉ x.text := by
  intro h
  rcases Numeral.mem_text h with hc | hc <;> cases hc

/-- Behind the end of the list there is nothing to read. -/
theorem readMatches_end {rmEo curEntry : List Char} (h : curEntry.length ≤ rmEo.length) (found : List Int) :
    readMatches rmEo curEntry found = some found := by
  unfold readMatches
  rw [if_neg (Nat.not_lt.mpr h)]

/-- One number: the loop goes on behind the next separator, wherever that is. -/
theorem readMatches_numeral (x : Numeral) {rmEo s : List Char} (hs : ∀ c ∈ s.head?, c.isDigit = false)
    (hlen : rmEo.length ≤ s.length) {found : List Int} (hfound : found.length < skiMaxConfigPrioritiesFieldEntries) :
    readMatches rmEo (x.text ++ s) found =
      match afterChar ',' s with
      | none => some (found ++ [x.value])
      | some curEntry => readMatches rmEo curEntry (found ++ [x.value]) := by
  have hlt : rmEo.length < (x.text ++ s).length := by
    have := x.length_text_pos
    rw [List.length_append]
    omega
  rw [readMatches, if_pos hlt, if_pos hfound, x.sscanfInt_text hs]
  simp only
  have hafter := afterChar_append x.comma_not_mem s
  split
  · next hnone =>
    rw [hafter] at hnone
    rw [hnone]
  · next rest hsome =>
    rw [hafter] at hsome
    rw [hsome]

/-- **The loop over a list reads it back.** -/
theorem readMatches_text (xs : List Numeral) (r : List Char) (found : List Int)
    (hfound : found.length + xs.length ≤ skiMaxConfigPrioritiesFieldEntries) :
    readMatches ('\x7d' :: r) (listText xs ++ '\x7d' :: r) found = some (found ++ xs.map Numeral.value) := by
  induction xs generalizing found with
  | nil =>
    rw [List.map_nil, List.append_nil]
    exact readMatches_end (Nat.le_refl _) found
  | cons x xs ih =>
    rw [List.length_cons] at hfound
    have hroom : found.length < skiMaxConfigPrioritiesFieldEntries := by omega
    rcases joinWith_cons ',' false x.text (xs.map Numeral.text) with ⟨heq, hnil, -⟩ | heq
    · -- the last number: a separator that is found belongs to a later list
      obtain rfl := List.map_eq_nil_iff.mp hnil
      rw [listText, List.map_cons, heq, readMatches_numeral x (by simp) (Nat.le_refl _) hroom]
      split
      · rfl
      · next curEntry hnext => exact readMatches_end (Nat.le_of_lt (length_afterChar_lt hnext)) _
    · rw [listText, List.map_cons, heq, List.append_assoc, List.cons_append,
        readMatches_numeral x (by simp) (by simp; omega) hroom, afterChar, if_pos rfl]
      simp only
      have hih := ih (found ++ [x.value]) (by rw [List.length_append, List.length_singleton]; omega)
      rw [listText] at hih
      rw [hih, List.map_cons, List.append_assoc, List.singleton_append]

/-! ## A group -/

theorem dropWhile_listText (xs : List Numeral) (r : List Char) :
    (listText xs ++ '\x7d' :: r).dropWhile (· ≠ '\x7d') = '\x7d' :: r := by
  rw [List.dropWhile_append_of_pos]
  · rw [List.dropWhile_cons_of_neg (by decide)]
  · intro c hc
    refine decide_eq_true ?_
    rintro rfl
    exact not_mem_listText hc

/-- The match of two lists and what follows. -/
def regMatchOf (cpus ints : List Numeral) (n : List Char) : RegMatch where
  cpus := listText cpus ++ (intOpen ++ (listText ints ++ (intClose ++ n)))
  cpusEnd := intOpen ++ (listText ints ++ (intClose ++ n))
  ints := listText ints ++ (intClose ++ n)
  intsEnd := intClose ++ n
  n := n

theorem matchHere_lists (cpus ints : List Numeral) (n : List Char) :
    matchHere (cpuOpen ++ (regMatchOf cpus ints n).cpus) = some (regMatchOf cpus ints n) := by
  have hcpus : (regMatchOf cpus ints n).cpus.dropWhile (· ≠ '\x7d') = (regMatchOf cpus ints n).cpusEnd :=
    dropWhile_listText cpus _
  have hints : (regMatchOf cpus ints n).ints.dropWhile (· ≠ '\x7d') = (regMatchOf cpus ints n).intsEnd :=
    dropWhile_listText ints _
  have hcpusEnd : skipLiteral intOpen (regMatchOf cpus ints n).cpusEnd = some (regMatchOf cpus ints n).ints :=
    skipLiteral_append _ _
  have hintsEnd : skipLiteral intClose (regMatchOf cpus ints n).intsEnd = some (regMatchOf cpus ints n).n :=
    skipLiteral_append _ _
  unfold matchHere
  rw [skipLiteral_append]
  simp only [Option.bind_eq_bind, Option.bind_some, hcpus, hcpusEnd, hints, hintsEnd]
  rfl

/-- The match of a group. -/
def Group.regMatch (g : Group) (s : List Char) : RegMatch where
  cpus := listText g.cpus ++ (intOpen ++ (listText g.ints ++ (intClose ++ (g.n.text ++ s))))
  cpusEnd := intOpen ++ (listText g.ints ++ (intClose ++ (g.n.text ++ s)))
  ints := listText g.ints ++ (intClose ++ (g.n.text ++ s))
  intsEnd := intClose ++ (g.n.text ++ s)
  n := g.n.text ++ s

theorem Group.matchHere_text (g : Group) (s : List Char) : matchHere (g.text ++ s) = some (g.regMatch s) := by
  have htext : g.text ++ s = cpuOpen ++ (g.regMatch s).cpus := by
    simp only [Group.text, Group.regMatch, List.append_assoc]
  rw [htext]
  exact matchHere_lists g.cpus g.ints (g.n.text ++ s)

theorem Group.regexec_text (g : Group) (s : List Char) : regexec (g.text ++ s) = some (g.regMatch s) := by
  have hmatch := g.matchHere_text s
  cases htext : g.text ++ s with
  | nil => cases htext
  | cons c t =>
    rw [htext] at hmatch
    rw [regexec, hmatch]

/-- **A group is read as its cross product.** -/
theorem readGroup_text (g : Group) {s : List Char} (hs : ∀ c ∈ s.head?, c.isDigit = false) :
    readGroup (g.text ++ s) = some g.entries := by
  have hcpus : readMatches (g.regMatch s).cpusEnd (g.regMatch s).cpus [] = some (g.cpus.map Numeral.value) :=
    readMatches_text g.cpus _ [] (by simpa using g.cpus_length)
  have hints : readMatches (g.regMatch s).intsEnd (g.regMatch s).ints [] = some (g.ints.map Numeral.value) :=
    readMatches_text g.ints _ [] (by simpa using g.ints_length)
  have hn : sscanfInt (g.regMatch s).n = some g.n.value := g.n.sscanfInt_text hs
  unfold readGroup
  rw [g.regexec_text s]
  simp only [Option.bind_eq_bind, Option.bind_some, hcpus, hints, hn, Option.getD_some, Group.entries,
    List.flatMap_map, List.map_map]
  rfl

/-! ## A line -/

theorem readGroups_nil (plist : List SkiConfigPrioritiesEntry) (shouldRandomize : Bool) :
    readGroups [] plist shouldRandomize = some (plist, shouldRandomize) := by
  rw [readGroups, if_pos rfl]

/-- One group: the loop goes on behind the next separator. -/
theorem readGroups_group (g : Group) {s : List Char} (hs : ∀ c ∈ s.head?, c.isDigit = false)
    {plist : List SkiConfigPrioritiesEntry} (shouldRandomize : Bool)
    (hroom : plist.length + g.entries.length ≤ skiMaxConfigPrioritiesPerLine) :
    readGroups (g.text ++ s) plist shouldRandomize =
      match afterChar '|' s with
      | none => some (plist ++ g.entries, shouldRandomize)
      | some nextGroup => readGroups nextGroup (plist ++ g.entries) true := by
  have hne : g.text ++ s ≠ [] := List.cons_ne_nil _ _
  rw [readGroups, if_neg hne, readGroup_text g hs]
  simp only [if_pos hroom]
  have hafter := afterChar_append g.bar_not_mem s
  split
  · next hnone =>
    rw [hafter] at hnone
    rw [hnone]
  · next rest hsome =>
    rw [hafter] at hsome
    rw [hsome]

/-- **The loop over the groups reads a line back**, and finds out whether there is a separator. -/
theorem readGroups_text (groups : List Group) (final : Bool) (plist : List SkiConfigPrioritiesEntry)
    (shouldRandomize : Bool)
    (hroom : plist.length + (groups.flatMap Group.entries).length ≤ skiMaxConfigPrioritiesPerLine) :
    readGroups (groupsText groups final) plist shouldRandomize =
      some (plist ++ groups.flatMap Group.entries, shouldRandomize || decide ('|' ∈ groupsText groups final)) := by
  induction groups generalizing plist shouldRandomize with
  | nil =>
    rw [groupsText, List.map_nil, joinWith, readGroups_nil]
    simp
  | cons g groups ih =>
    rw [List.flatMap_cons, List.length_append] at hroom
    have hfits : plist.length + g.entries.length ≤ skiMaxConfigPrioritiesPerLine := by omega
    rcases joinWith_cons '|' final g.text (groups.map Group.text) with ⟨heq, hnil, -⟩ | heq
    · obtain rfl := List.map_eq_nil_iff.mp hnil
      have hgroup := readGroups_group g (s := []) (by simp) shouldRandomize hfits
      rw [List.append_nil] at hgroup
      rw [groupsText, List.map_cons, heq, hgroup]
      simp [afterChar, g.bar_not_mem]
    · have hih := ih (plist ++ g.entries) true (by rw [List.length_append]; omega)
      rw [groupsText] at hih
      rw [groupsText, List.map_cons, heq, readGroups_group g (by simp) shouldRandomize hfits, afterChar, if_pos rfl]
      simp only [hih]
      simp

/-- What a line leaves in `plist`. -/
def BlockOf (line : Line) (block : List SkiConfigPrioritiesEntry) : Prop :=
  block.Perm line.entries ∧ ('|' ∉ line.text → block = line.entries)

/-- **A line appends a block.** -/
theorem parseline_text (line : Line) (plist : List SkiConfigPrioritiesEntry) (next : Nat)
    (hroom : plist.length + line.entries.length ≤ skiMaxConfigPrioritiesPerLine) :
    ∃ block next', skiConfigPrioritiesParseline (plist, next) line.text = some (plist ++ block, next') ∧
      BlockOf line block := by
  have htake : line.text.take (skiMaxConfigPrioritiesLenght - 1) = line.text := by
    apply List.take_of_length_le
    exact Nat.le_trans line.length_le (by decide)
  have hread := readGroups_text line.groups line.final plist false hroom
  rw [← Line.text, ← Line.entries] at hread
  unfold skiConfigPrioritiesParseline
  simp only [htake, hread, Option.bind_eq_bind, Option.bind_some, Bool.false_or, decide_eq_true_eq]
  by_cases hbar : '|' ∈ line.text
  · obtain ⟨block, hshuffle, hperm⟩ :=
      shuffle_append skiConfigPrioritiesRandom plist next (Nat.le_refl line.entries.length)
    refine ⟨block, (shuffle skiConfigPrioritiesRandom plist.length line.entries.length next (plist ++ line.entries)).2,
      ?_, hperm, fun hno => absurd hbar hno⟩
    rw [if_pos hbar, List.length_append, Nat.add_sub_cancel_left, ← hshuffle]
    rfl
  · refine ⟨line.entries, next, ?_, List.Perm.refl _, fun _ => rfl⟩
    rw [if_neg hbar]
    rfl

/-! ## The file -/

theorem parseline_nil (parsed : Parsed) : skiConfigPrioritiesParseline parsed [] = some parsed := by
  simp [skiConfigPrioritiesParseline, readGroups_nil]

theorem stripNewline_of_not_mem {line : List Char} (h : '\n' ∉ line) : stripNewline line = line := by
  unfold stripNewline
  rw [if_neg]
  intro hlast
  exact h (List.mem_of_getLast? hlast)

theorem stripNewline_append (line : List Char) : stripNewline (line ++ ['\n']) = line := by
  unfold stripNewline
  rw [if_pos (by simp), List.dropLast_concat]

/-- The file at its end. -/
theorem parseLines_nil (parsed : Parsed) : parseLines [] parsed = some parsed := by
  unfold parseLines
  rfl

/-- One line of the file, as `fgets` hands it over. -/
theorem parseLines_cons {text buffer rest : List Char} (hne : text ≠ []) (h : takeLine 510 text = (buffer, rest))
    (parsed : Parsed) :
    parseLines text parsed =
      (skiConfigPrioritiesParseline parsed (stripNewline buffer)).bind (parseLines rest) := by
  have hfgets : fgets (512 - 1) text = some (buffer, rest) := by
    unfold fgets
    rw [if_neg hne, ← h]
  rw [parseLines]
  split
  · next hnone => rw [hnone] at hfgets; cases hfgets
  · next buffer' rest' hsome =>
    rw [hsome] at hfgets
    cases hfgets
    cases skiConfigPrioritiesParseline parsed (stripNewline buffer) <;> rfl

section Text
variable {line : List Char} (hline : '\n' ∉ line) (hlen : line.length ≤ 510)
include hline hlen

/-- The last line of a file without a newline at its end. -/
theorem parseLines_last (parsed : Parsed) : parseLines line parsed = skiConfigPrioritiesParseline parsed line := by
  by_cases hne : line = []
  · rw [hne, parseLines_nil, parseline_nil]
  · have htake := takeLine_full hline hlen (.inr (Eq.refl []))
    rw [List.append_nil] at htake
    rw [parseLines_cons hne htake, stripNewline_of_not_mem hline]
    cases skiConfigPrioritiesParseline parsed line with
    | none => rfl
    | some parsed => exact parseLines_nil parsed

/-- A line with its newline. Where the line fills the buffer, the newline is left for the next call of `fgets`,
    which reads it as an empty line. -/
theorem parseLines_newline (rest : List Char) (parsed : Parsed) :
    parseLines (line ++ '\n' :: rest) parsed = (skiConfigPrioritiesParseline parsed line).bind (parseLines rest) := by
  have hne : line ++ '\n' :: rest ≠ [] := by simp
  rcases Nat.lt_or_eq_of_le hlen with hlt | hfull
  · rw [parseLines_cons hne (takeLine_newline hline hlt rest), stripNewline_append]
  · have hempty : ∀ parsed, parseLines ('\n' :: rest) parsed = parseLines rest parsed := by
      intro parsed
      rw [parseLines_cons (List.cons_ne_nil _ _) (takeLine_newline List.not_mem_nil (by decide) rest),
        stripNewline_append, parseline_nil, Option.bind_some]
    rw [parseLines_cons hne (takeLine_full hline hlen (.inl hfull)), stripNewline_of_not_mem hline, funext hempty]

end Text

/-- **A file is parsed line by line.** -/
theorem parseLines_joinWith (finalNewline : Bool) {lines : List (List Char)} (hlines : ∀ line ∈ lines, '\n' ∉ line)
    (hlen : ∀ line ∈ lines, line.length ≤ 510) (parsed : Parsed) :
    parseLines (joinWith '\n' finalNewline lines) parsed = lines.foldlM skiConfigPrioritiesParseline parsed := by
  induction lines generalizing parsed with
  | nil => exact parseLines_nil parsed
  | cons line lines ih =>
    have hline := hlines line List.mem_cons_self
    have hfits := hlen line List.mem_cons_self
    rw [List.foldlM_cons]
    rcases joinWith_cons '\n' finalNewline line lines with ⟨heq, rfl, -⟩ | heq
    · rw [heq, parseLines_last hline hfits]
      cases skiConfigPrioritiesParseline parsed line <;> rfl
    · rw [heq, parseLines_newline hline hfits]
      refine congrArg _ (funext fun parsed => ?_)
      exact ih (fun l hl => hlines l (List.mem_cons_of_mem line hl)) (fun l hl => hlen l (List.mem_cons_of_mem line hl))
        parsed

theorem PrioritiesFile.parseLines_text (file : PrioritiesFile) (parsed : Parsed) :
    parseLines file.text parsed = (file.lines.map Line.text).foldlM skiConfigPrioritiesParseline parsed := by
  apply parseLines_joinWith
  · intro text htext
    obtain ⟨line, -, rfl⟩ := List.mem_map.mp htext
    exact line.newline_not_mem
  · intro text htext
    obtain ⟨line, -, rfl⟩ := List.mem_map.mp htext
    exact line.length_le

/-- **Over a file, `plist` is one block per line.** -/
theorem foldlM_parseline (lines : List Line) (plist : List SkiConfigPrioritiesEntry) (next : Nat)
    (hroom : plist.length + (lines.flatMap Line.entries).length ≤ skiMaxConfigPrioritiesPerLine) :
    ∃ blocks next', (lines.map Line.text).foldlM skiConfigPrioritiesParseline (plist, next)
        = some (plist ++ blocks.flatten, next') ∧
      List.Forall₂ BlockOf lines blocks := by
  induction lines generalizing plist next with
  | nil => exact ⟨[], next, by simp, .nil⟩
  | cons line lines ih =>
    rw [List.flatMap_cons, List.length_append] at hroom
    obtain ⟨block, next₁, hparse, hblock⟩ := parseline_text line plist next (by omega)
    obtain ⟨blocks, next', hrest, hblocks⟩ := ih (plist ++ block) next₁ (by
      rw [List.length_append, hblock.1.length_eq]
      omega)
    refine ⟨block :: blocks, next', ?_, .cons hblock hblocks⟩
    rw [List.map_cons, List.foldlM_cons, hparse, Option.bind_eq_bind, Option.bind_some, hrest, List.flatten_cons,
      List.append_assoc]

/-! ## The thread table -/

/-- What the file says about a thread. -/
def configured (tc : ThreadContext) : SkiConfigPrioritiesEntry := { cpu := tc.cpuNo, i := tc.intNo, n := tc.count }

/-- The thread with a smaller priority comes first, also for the scheduler when both could run. -/
def Outranks (t u : ThreadContext) : Prop :=
  t.priority < u.priority ∧
    ∀ s, eligible s t = true → eligible s u = true → skiThreadsCalculatePriority s t < skiThreadsCalculatePriority s u

theorem Group.mem_entries {g : Group} {e : SkiConfigPrioritiesEntry} (h : e ∈ g.entries) :
    0 ≤ e.cpu ∧ (e.i = -1 ∨ 0 ≤ e.i) := by
  obtain ⟨cpu, hcpu, he⟩ := List.mem_flatMap.mp h
  obtain ⟨i, hi, rfl⟩ := List.mem_map.mp he
  have hge := g.ints_ge i hi
  exact ⟨g.cpus_nonneg cpu hcpu, by simp only; omega⟩

theorem PrioritiesFile.mem_entries (file : PrioritiesFile) {e : SkiConfigPrioritiesEntry}
    (h : e ∈ file.lines.flatMap Line.entries) : 0 ≤ e.cpu ∧ (e.i = -1 ∨ 0 ≤ e.i) := by
  obtain ⟨line, -, he⟩ := List.mem_flatMap.mp h
  obtain ⟨g, -, he⟩ := List.mem_flatMap.mp he
  exact Group.mem_entries he

theorem perm_flatten_of_blocks {lines : List Line} {blocks : List (List SkiConfigPrioritiesEntry)}
    (h : List.Forall₂ BlockOf lines blocks) : blocks.flatten.Perm (lines.flatMap Line.entries) := by
  induction h with
  | nil => exact .refl _
  | cons hblock _ ih =>
    rw [List.flatten_cons, List.flatMap_cons]
    exact hblock.1.append ih

/-- A table whose threads are configured block by block is itself made of blocks. -/
theorem exists_blocks_of_map {threads : List ThreadContext} {blocks : List (List SkiConfigPrioritiesEntry)}
    (h : threads.map configured = blocks.flatten) :
    ∃ tables : List (List ThreadContext), threads = tables.flatten ∧ tables.map (List.map configured) = blocks := by
  induction blocks generalizing threads with
  | nil => exact ⟨[], List.map_eq_nil_iff.mp h, rfl⟩
  | cons block blocks ih =>
    obtain ⟨table, rest, rfl, hblock, hrest⟩ := List.map_eq_append_iff.mp h
    obtain ⟨tables, rfl, hblocks⟩ := ih hrest
    exact ⟨table :: tables, rfl, by rw [List.map_cons, hblock, hblocks]⟩

/-- A row of the table as `ski_threads_insert` makes it. -/
def freshRow (e : SkiConfigPrioritiesEntry) (idx : Nat) : ThreadContext :=
  { skiTcInitialize idx idx e.row.cpu e.row.i 0 with count := e.row.n }

theorem configured_freshRow {e : SkiConfigPrioritiesEntry} (h : 0 ≤ e.cpu) (idx : Nat) :
    configured (freshRow e idx) = e := by
  have hcpu : ((e.cpu.toNat : Nat) : Int) = e.cpu := Int.toNat_of_nonneg h
  simp only [configured, freshRow, skiTcInitialize, SkiConfigPrioritiesEntry.row, hcpu]

theorem outranks_freshRow (e e' : SkiConfigPrioritiesEntry) {idx idx' : Nat} (h : idx < idx') :
    Outranks (freshRow e idx) (freshRow e' idx') := by
  have hlt : (idx : Int) < idx' := Int.ofNat_lt.mpr h
  refine ⟨hlt, ?_⟩
  intro s ht hu
  rw [Sched.eligible_priority ht, Sched.eligible_priority hu]
  simpa [freshRow, skiTcInitialize] using hlt

/-- The table of a list of entries. -/
def rows (plist : List SkiConfigPrioritiesEntry) : List ThreadContext := plist.zipIdx.map fun e => freshRow e.1 e.2

theorem foldlM_insert_rows {plist : List SkiConfigPrioritiesEntry} (hints : ∀ e ∈ plist, e.i = -1 ∨ 0 ≤ e.i)
    (hlen : plist.length ≤ maxSkiThreads) :
    (plist.map SkiConfigPrioritiesEntry.row).foldlM skiThreadsInsert [] = some (rows plist) := by
  rw [Sched.foldlM_skiThreadsInsert]
  · rw [List.zipIdx_map, List.map_map, List.nil_append]
    rfl
  · intro row hrow
    obtain ⟨e, he, rfl⟩ := List.mem_map.mp hrow
    exact hints e he
  · simpa using hlen

theorem rows_getElem? {plist : List SkiConfigPrioritiesEntry} {idx : Nat} {tc : ThreadContext}
    (h : (rows plist)[idx]? = some tc) : ∃ e ∈ plist, tc = freshRow e idx := by
  rw [rows, List.getElem?_map, List.getElem?_zipIdx, Option.map_map] at h
  obtain ⟨e, he, rfl⟩ := Option.map_eq_some_iff.mp h
  refine ⟨e, List.mem_of_getElem? he, ?_⟩
  simp only [Function.comp_apply, Nat.zero_add]

theorem map_configured_rows {plist : List SkiConfigPrioritiesEntry} (hcpus : ∀ e ∈ plist, 0 ≤ e.cpu) :
    (rows plist).map configured = plist := by
  rw [rows, List.map_map]
  calc plist.zipIdx.map (configured ∘ fun e => freshRow e.1 e.2)
      = plist.zipIdx.map Prod.fst := by
        apply List.map_congr_left
        intro e he
        exact configured_freshRow (hcpus e.1 (List.fst_mem_of_mem_zipIdx he)) e.2
    _ = plist := List.zipIdx_map_fst 0 plist

theorem pairwise_rows (plist : List SkiConfigPrioritiesEntry) : (rows plist).Pairwise Outranks := by
  rw [List.pairwise_iff_getElem]
  intro idx idx' hidx hidx' hlt
  obtain ⟨e, -, he⟩ := rows_getElem? (List.getElem?_eq_getElem hidx)
  obtain ⟨e', -, he'⟩ := rows_getElem? (List.getElem?_eq_getElem hidx')
  rw [he, he']
  exact outranks_freshRow e e' hlt

/-- The rows of the table are made of one block of entries per line. -/
theorem PrioritiesFile.parseFile_rows (file : PrioritiesFile) (seed : Int) :
    ∃ entries, List.Forall₂ BlockOf file.lines entries ∧
      (∀ e ∈ entries.flatten, 0 ≤ e.cpu ∧ (e.i = -1 ∨ 0 ≤ e.i)) ∧
      skiConfigPrioritiesParseFile file.text seed = some (rows entries.flatten) := by
  have hfile := file.entries_le
  obtain ⟨entries, next', hparse, hentries⟩ := foldlM_parseline file.lines []
    (skiConfigPrioritiesRandomInit (seed.tdiv 10)) (Nat.le_trans (by simpa using hfile) (by decide))
  have hperm := perm_flatten_of_blocks hentries
  have hmem : ∀ e ∈ entries.flatten, 0 ≤ e.cpu ∧ (e.i = -1 ∨ 0 ≤ e.i) :=
    fun e he => file.mem_entries (hperm.mem_iff.mp he)
  refine ⟨entries, hentries, hmem, ?_⟩
  unfold skiConfigPrioritiesParseFile
  simp only [file.parseLines_text, hparse, Option.bind_eq_bind, Option.bind_some, List.nil_append]
  exact foldlM_insert_rows (fun e he => (hmem e he).2) (hperm.length_eq ▸ hfile)

/-- A file in the documented format is accepted. -/
theorem PrioritiesFile.accepted (file : PrioritiesFile) (seed : Int) :
    (skiConfigPrioritiesParseFile file.text seed).isSome = true := by
  obtain ⟨entries, -, -, hresult⟩ := file.parseFile_rows seed
  rw [hresult]
  rfl

/-- **The thread table of a priorities file.** For every file in the documented format and every seed, the parser
    succeeds, and the table is one block per line in the order of the file. The block of a line is a permutation of
    the cross products of its groups, the identity where the line has no separator. A thread's place in the table is
    its id and its priority, so the threads of a line come before those of every later line. -/
theorem parseFile_blocks (file : PrioritiesFile) (seed : Int) :
    ∃ blocks : List (List ThreadContext),
      skiConfigPrioritiesParseFile file.text seed = some blocks.flatten ∧
      List.Forall₂ (fun line block => BlockOf line (block.map configured)) file.lines blocks ∧
      (∀ (idx : Nat) tc, blocks.flatten[idx]? = some tc →
        tc.id = idx ∧ tc.priority = (idx : Int) ∧ tc = freshRow (configured tc) idx) ∧
      blocks.Pairwise fun earlier later => ∀ t ∈ earlier, ∀ u ∈ later, Outranks t u := by
  obtain ⟨entries, hentries, hmem, hresult⟩ := file.parseFile_rows seed
  -- cut the table where the entries of the lines end
  obtain ⟨blocks, hblocks, rfl⟩ := exists_blocks_of_map (map_configured_rows fun e he => (hmem e he).1)
  refine ⟨blocks, hblocks ▸ hresult, List.forall₂_map_right_iff.mp hentries, ?_, ?_⟩
  · intro idx tc htc
    rw [← hblocks] at htc
    obtain ⟨e, he, rfl⟩ := rows_getElem? htc
    exact ⟨rfl, rfl, by rw [configured_freshRow (hmem e he).1]⟩
  · have hpairwise := pairwise_rows (blocks.map (List.map configured)).flatten
    rw [hblocks] at hpairwise
    exact (List.pairwise_flatten.mp hpairwise).2

/-- A number of one digit. -/
def Numeral.digit (negative : Bool) (d : Fin 10) : Numeral where
  negative := negative
  digits := [Char.ofNat (48 + d)]
  digits_ne_nil := List.cons_ne_nil _ _
  digits_isDigit := List.forall_mem_singleton.mpr (by revert d; decide)
  inInt := by revert negative d; decide

def Numeral.zero : Numeral := .digit false 0

def Numeral.one : Numeral := .digit false 1

def Numeral.three : Numeral := .digit false 3

def Numeral.minusOne : Numeral := .digit true 1

/-- A plain line, and one that is shuffled. -/
def plainAndShuffled : PrioritiesFile where
  lines :=
    [{ groups := [{ cpus := [.digit false 0, .digit false 1], ints := [.digit true 1], n := .digit false 1,
                    cpus_length := by decide, ints_length := by decide, cpus_nonneg := by decide,
                    ints_ge := by decide }],
       final := false, length_le := by decide },
     { groups := [{ cpus := [.digit false 0], ints := [.digit false 1, .digit false 3], n := .digit false 3,
                    cpus_length := by decide, ints_length := by decide, cpus_nonneg := by decide,
                    ints_ge := by decide }],
       final := true, length_le := by decide }]
  finalNewline := true
  entries_le := by decide

theorem parseFile_blocks_plainAndShuffled :
    plainAndShuffled.text = "cpu\x7b0,1\x7d;int\x7b-1\x7d;1\ncpu\x7b0\x7d;int\x7b1,3\x7d;3|\n".toList ∧
      ∃ first second, skiConfigPrioritiesParseFile plainAndShuffled.text 70 = some (first ++ second) ∧
        first.map configured = [⟨0, -1, 1⟩, ⟨1, -1, 1⟩] ∧ (second.map configured).Perm [⟨0, 1, 3⟩, ⟨0, 3, 3⟩] := by
  refine ⟨by decide, ?_⟩
  obtain ⟨blocks, hparse, hblocks, -⟩ := parseFile_blocks plainAndShuffled 70
  rcases hblocks with _ | ⟨⟨-, hplain⟩, _ | ⟨⟨hshuffled, -⟩, ⟨⟩⟩⟩
  refine ⟨_, _, ?_, hplain (by decide), hshuffled⟩
  rw [hparse, List.flatten_cons, List.flatten_cons, List.flatten_nil, List.append_nil]

end SkiVmm.Priorities
