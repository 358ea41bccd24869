import SkiVmm.Priorities.Segments

/-!
# `Priorities.Bounds` — files that overrun the arrays of the parser

Neither the two lists of a group, of 50 numbers each, nor `plist`, of 16384 entries for the whole file, are checked
while they grow; the number of threads is, but after the file was read. Only the length of a line limits a list, and
nothing limits the file.

* `Checked.skiConfigPrioritiesParseFile` is the parser of a file with the two kinds of fault kept apart.
* `Overruns`, `FileOverruns` — the lines and files for which an entry is stored behind the end of an array.
* `parseFile_inBounds_iff` — these are all.
-/

namespace SkiVmm.Priorities

open Lib
open Sched (ThreadContext skiThreadsInsert)

/-! ## The file -/

namespace Checked

/-- The loop over the lines of the file. -/
def parseLines (text : List Char) (parsed : Parsed) : Except ParseFault Parsed :=
  match _h : fgets (512 - 1) text with
  | none => .ok parsed
  | some (buffer, text) =>
    match parseline parsed (stripNewline buffer) with
    | .error fault => .error fault
    | .ok parsed => parseLines text parsed
termination_by text.length
decreasing_by exact length_fgets_lt (by decide) _h

/-- `ski_config_priorities_parse_file`; `ski_threads_insert` fails by an assertion. -/
def skiConfigPrioritiesParseFile (text : List Char) (seed : Int) : Except ParseFault (List ThreadContext) := do
  let seedHighGranularity := seed.tdiv 10
  let (plist, _) ← parseLines text ([], skiConfigPrioritiesRandomInit seedHighGranularity)
  match (plist.map SkiConfigPrioritiesEntry.row).foldlM skiThreadsInsert [] with
  | none => .error .abort
  | some threads => .ok threads

theorem parseLines_toOption (text : List Char) (parsed : Parsed) :
    (parseLines text parsed).toOption = Priorities.parseLines text parsed := by
  fun_induction parseLines text parsed with
  | case1 text parsed hend =>
    rw [Priorities.parseLines]
    split <;> simp_all [Except.toOption]
  | case2 text parsed buffer rest hline fault hfault =>
    rw [Priorities.parseLines.eq_def text]
    split <;> simp_all [← parseline_toOption, Except.toOption]
  | case3 text parsed buffer rest hline parsed' hparsed ih =>
    rw [ih, Priorities.parseLines.eq_def text]
    split <;> simp_all [← parseline_toOption, Except.toOption]

/-- **The same parser** of a file, but for the kind of fault. -/
theorem parseFile_toOption (text : List Char) (seed : Int) :
    (skiConfigPrioritiesParseFile text seed).toOption = Priorities.skiConfigPrioritiesParseFile text seed := by
  unfold skiConfigPrioritiesParseFile Priorities.skiConfigPrioritiesParseFile
  simp only [← parseLines_toOption]
  cases parseLines text ([], skiConfigPrioritiesRandomInit (seed.tdiv 10)) with
  | error fault => rfl
  | ok parsed =>
    simp only [Except.toOption, Option.bind_some, bind, Except.bind]
    cases (parsed.1.map SkiConfigPrioritiesEntry.row).foldlM skiThreadsInsert [] <;> rfl

end Checked

/-! ## Lines -/

/-- The first numbers fill the array, and there is one more entry. -/
def Overlong (ps : List (List Char)) : Prop :=
  skiMaxConfigPrioritiesFieldEntries < ps.length ∧
    ∀ p ∈ ps.take skiMaxConfigPrioritiesFieldEntries, (sscanfInt p).isSome

def RegMatch.Overlong (m : RegMatch) : Prop :=
  Priorities.Overlong m.cpuPieces ∨ Priorities.Readable m.cpuPieces ∧ Priorities.Overlong m.intPieces

/-- The parser stores an entry of the line outside of an array, with `k` entries in `plist` before the line: one of a
    list of the first group that it finds, one of the cross product of that group, or one behind the next bar. -/
inductive Overruns : Nat → List Char → Prop
  | list {k : Nat} {s : List Char} {m : RegMatch} (h : regexec s = some m) (hlong : m.Overlong) : Overruns k s
  | plist {k : Nat} {s : List Char} {m : RegMatch} (h : regexec s = some m) (hread : m.Readable)
    (hfull : skiMaxConfigPrioritiesPerLine < k + m.count) : Overruns k s
  | later {k : Nat} {s r : List Char} {m : RegMatch} (h : regexec s = some m) (hread : m.Readable)
    (hroom : k + m.count ≤ skiMaxConfigPrioritiesPerLine) (hnext : afterChar '|' s = some r)
    (hover : Overruns (k + m.count) r) : Overruns k s

/-- The line is read, and `plist` has `n` entries instead of `k`. -/
inductive Takes : Nat → List Char → Nat → Prop
  | empty {k : Nat} : Takes k [] k
  | last {k : Nat} {s : List Char} {m : RegMatch} (h : regexec s = some m) (hread : m.Readable)
    (hroom : k + m.count ≤ skiMaxConfigPrioritiesPerLine) (hnext : afterChar '|' s = none) : Takes k s (k + m.count)
  | later {k n : Nat} {s r : List Char} {m : RegMatch} (h : regexec s = some m) (hread : m.Readable)
    (hroom : k + m.count ≤ skiMaxConfigPrioritiesPerLine) (hnext : afterChar '|' s = some r)
    (htakes : Takes (k + m.count) r n) : Takes k s n

theorem overlong_iff (ps : List (List Char)) : Overlong ps ↔ ¬ Readable ps ∧ ¬ Unreadable ps := by
  have hnumbers : (∀ p ∈ ps.take skiMaxConfigPrioritiesFieldEntries, (sscanfInt p).isSome) ↔ ¬ Unreadable ps := by
    unfold Unreadable
    simp [Option.isSome_iff_ne_none]
  unfold Overlong
  rw [hnumbers]
  refine and_congr_left fun hu => ?_
  constructor
  · rintro hlen ⟨hle, -⟩
    omega
  · intro hr
    by_contra hle
    refine hr ⟨Nat.not_lt.mp hle, ?_⟩
    rw [← hnumbers, List.take_of_length_le (Nat.not_lt.mp hle)] at hu
    exact hu

theorem RegMatch.overlong_iff (m : RegMatch) : m.Overlong ↔ ¬ m.Readable ∧ ¬ m.Unreadable := by
  unfold RegMatch.Overlong RegMatch.Readable RegMatch.Unreadable
  rw [Priorities.overlong_iff, Priorities.overlong_iff]
  have hcpu := readPieces_cases m.cpuPieces
  have hint := readPieces_cases m.intPieces
  tauto

section Lines
variable {k : Nat} {s : List Char} {m : RegMatch}

theorem Overruns.ne_nil (h : Overruns k s) : s ≠ [] := by
  rintro rfl
  cases h with
  | list h => cases h
  | plist h => cases h
  | later h => cases h

/-- Where there is a match, its lists overrun their arrays, its entries do not fit, or it goes on behind the bar. -/
theorem overruns_iff (h : regexec s = some m) :
    Overruns k s ↔ m.Overlong ∨ m.Readable ∧ (skiMaxConfigPrioritiesPerLine < k + m.count ∨
      k + m.count ≤ skiMaxConfigPrioritiesPerLine ∧ ∃ r, afterChar '|' s = some r ∧ Overruns (k + m.count) r) := by
  constructor
  · intro hover
    cases hover with
    | list hm hlong =>
      cases h.symm.trans hm
      exact .inl hlong
    | plist hm hread hfull =>
      cases h.symm.trans hm
      exact .inr ⟨hread, .inl hfull⟩
    | later hm hread hroom hnext hover =>
      cases h.symm.trans hm
      exact .inr ⟨hread, .inr ⟨hroom, _, hnext, hover⟩⟩
  · rintro (hlong | ⟨hread, hfull | ⟨hroom, r, hnext, hover⟩⟩)
    · exact .list h hlong
    · exact .plist h hread hfull
    · exact .later h hread hroom hnext hover

theorem takes_unique {n n' : Nat} (h : Takes k s n) (h' : Takes k s n') : n = n' := by
  induction h with
  | empty =>
    cases h' with
    | empty => rfl
    | last hm => cases hm
    | later hm => cases hm
  | last hm hread hroom hnext =>
    cases h' with
    | empty => cases hm
    | last hm' => cases hm.symm.trans hm'; rfl
    | later hm' _ _ hnext' => cases hnext.symm.trans hnext'
  | later hm hread hroom hnext htakes ih =>
    cases h' with
    | empty => cases hm
    | last hm' _ _ hnext' => cases hnext.symm.trans hnext'
    | later hm' _ _ hnext' htakes' =>
      cases hm.symm.trans hm'
      cases hnext.symm.trans hnext'
      exact ih htakes'

end Lines

namespace Checked
variable {plist : List SkiConfigPrioritiesEntry} {next : Nat} {argStr : List Char}

/-- **The loop over the groups leaves an array exactly there.** -/
theorem readGroups_overrun_iff (s : List Char) (plist : List SkiConfigPrioritiesEntry) (shouldRandomize : Bool) :
    readGroups s plist shouldRandomize = .error .outOfBounds ↔ Overruns plist.length s := by
  fun_induction readGroups s plist shouldRandomize with
  | case1 plist shouldRandomize =>
    constructor
    · intro hok
      cases hok
    · exact fun hover => absurd rfl hover.ne_nil
  | case2 s plist shouldRandomize hne fault hfault =>
    cases hm : regexec s with
    | none =>
      rw [readGroup, hm] at hfault
      cases hfault
      refine iff_of_false (by simp) fun hover => ?_
      cases hover with
      | list hm' => cases hm.symm.trans hm'
      | plist hm' => cases hm.symm.trans hm'
      | later hm' => cases hm.symm.trans hm'
    | some m =>
      rw [overruns_iff hm, m.overlong_iff]
      rcases readGroup_cases hm with ⟨-, -, entries, hread, -⟩ | ⟨hr, hu, hread⟩ | ⟨hr, hu, hread⟩
      · cases hfault.symm.trans hread
      · cases hfault.symm.trans hread
        exact iff_of_false (by simp) fun hover => hover.elim (fun hlong => hlong.2 hu) fun hlater => hr hlater.1
      · cases hfault.symm.trans hread
        exact iff_of_true rfl (.inl ⟨hr, hu⟩)
  | case3 s plist shouldRandomize hne entries hentries hroom hafter =>
    obtain ⟨m, hm, hr, hu, hlen⟩ := readGroup_ok hentries
    rw [hlen] at hroom
    rw [overruns_iff hm, m.overlong_iff]
    simp [hr, hafter, hroom]
  | case4 s plist shouldRandomize hne entries hentries hroom rest hafter ih =>
    obtain ⟨m, hm, hr, hu, hlen⟩ := readGroup_ok hentries
    rw [hlen] at hroom
    rw [ih, overruns_iff hm, m.overlong_iff, List.length_append, hlen]
    simp [hr, hroom, Nat.not_lt.mpr hroom, hafter]
  | case5 s plist shouldRandomize hne entries hentries hfull =>
    obtain ⟨m, hm, hr, hu, hlen⟩ := readGroup_ok hentries
    rw [hlen] at hfull
    exact iff_of_true rfl (.plist hm hr (Nat.lt_of_not_le hfull))

/-- What the loop has appended to `plist`. -/
theorem readGroups_takes (s : List Char) (plist : List SkiConfigPrioritiesEntry) (shouldRandomize : Bool)
    {result : List SkiConfigPrioritiesEntry × Bool} (h : readGroups s plist shouldRandomize = .ok result) :
    Takes plist.length s result.1.length ∧ ∃ entries, result.1 = plist ++ entries := by
  fun_induction readGroups s plist shouldRandomize with
  | case1 plist shouldRandomize =>
    cases h
    exact ⟨.empty, [], (List.append_nil plist).symm⟩
  | case2 s plist shouldRandomize hne fault hfault => cases h
  | case3 s plist shouldRandomize hne entries hentries hroom hafter =>
    cases h
    obtain ⟨m, hm, hr, -, hlen⟩ := readGroup_ok hentries
    refine ⟨?_, entries, rfl⟩
    rw [List.length_append, hlen]
    exact .last hm hr (hlen ▸ hroom) hafter
  | case4 s plist shouldRandomize hne entries hentries hroom rest hafter ih =>
    obtain ⟨htakes, more, hresult⟩ := ih h
    obtain ⟨m, hm, hr, -, hlen⟩ := readGroup_ok hentries
    rw [List.length_append, hlen] at htakes
    exact ⟨.later hm hr (hlen ▸ hroom) hafter htakes, entries ++ more, by rw [hresult, List.append_assoc]⟩
  | case5 s plist shouldRandomize hne entries hentries hfull => cases h

/-- Conversely, a line that can be read is read. -/
theorem readGroups_of_takes {k n : Nat} {s : List Char} (h : Takes k s n) (hk : plist.length = k)
    (shouldRandomize : Bool) : ∃ result, readGroups s plist shouldRandomize = .ok result := by
  have hturn {k : Nat} {s : List Char} {m : RegMatch} {plist : List SkiConfigPrioritiesEntry} (hk : plist.length = k)
      (hm : regexec s = some m) (hread : m.Readable) (hroom : k + m.count ≤ skiMaxConfigPrioritiesPerLine) :
      s ≠ [] ∧ ∃ entries, readGroup s = .ok entries ∧ entries.length = m.count ∧
        plist.length + entries.length ≤ skiMaxConfigPrioritiesPerLine := by
    refine ⟨fun hnil => ?_, ?_⟩
    · rw [hnil] at hm
      cases hm
    · rcases readGroup_cases hm with ⟨-, -, entries, hentries, hlen⟩ | ⟨hr, -⟩ | ⟨hr, -⟩
      · exact ⟨entries, hentries, hlen, by rw [hk, hlen]; exact hroom⟩
      · exact absurd hread hr
      · exact absurd hread hr
  induction h generalizing plist shouldRandomize with
  | empty => exact ⟨(plist, shouldRandomize), by rw [readGroups, if_pos rfl]⟩
  | last hm hread hroom hnext =>
    obtain ⟨hne, entries, hentries, hlen, hfits⟩ := hturn hk hm hread hroom
    refine ⟨(plist ++ entries, shouldRandomize), ?_⟩
    rw [readGroups, if_neg hne, hentries]
    dsimp only
    rw [if_pos hfits]
    split
    · rfl
    · next hsome => cases hnext.symm.trans hsome
  | later hm hread hroom hnext htakes ih =>
    obtain ⟨hne, entries, hentries, hlen, hfits⟩ := hturn hk hm hread hroom
    obtain ⟨result, hrest⟩ := ih (List.length_append.trans (congrArg₂ _ hk hlen)) true
    refine ⟨result, ?_⟩
    rw [readGroups, if_neg hne, hentries]
    dsimp only
    rw [if_pos hfits]
    split
    · next hnone => cases hnext.symm.trans hnone
    · next hsome =>
      cases hnext.symm.trans hsome
      exact hrest

theorem parseline_overrun_iff :
    parseline (plist, next) argStr = .error .outOfBounds ↔ Overruns plist.length (lineCopy argStr) :=
  parseline_error_iff.trans (readGroups_overrun_iff (lineCopy argStr) plist false)

/-- The shuffle does not change how many entries there are. -/
theorem parseline_takes {parsed : Parsed} (h : parseline (plist, next) argStr = .ok parsed) :
    Takes plist.length (lineCopy argStr) parsed.1.length := by
  obtain ⟨⟨plist', shouldRandomize⟩, hread⟩ := readGroups_of_parseline h
  obtain ⟨htakes, entries, rfl⟩ := readGroups_takes _ _ _ hread
  obtain ⟨block, next', hparse, hperm, -⟩ := parseline_ok next hread
  cases h.symm.trans hparse
  rw [List.length_append] at htakes ⊢
  rwa [hperm.length_eq]

theorem parseline_of_takes {n : Nat} (h : Takes plist.length (lineCopy argStr) n) :
    ∃ parsed, parseline (plist, next) argStr = .ok parsed := by
  obtain ⟨⟨plist', shouldRandomize⟩, hread⟩ := readGroups_of_takes h rfl false
  obtain ⟨-, entries, rfl⟩ := readGroups_takes _ _ _ hread
  obtain ⟨block, next', hparse, -⟩ := parseline_ok next hread
  exact ⟨(plist ++ block, next'), hparse⟩

end Checked

/-! ## Files -/

/-- The parser stores an entry of the file outside of an array, with `k` entries in `plist` before. -/
inductive FileOverruns : Nat → List Char → Prop
  | here {k : Nat} {text buffer rest : List Char} (h : fgets (512 - 1) text = some (buffer, rest))
    (hover : Overruns k (stripNewline buffer)) : FileOverruns k text
  | later {k n : Nat} {text buffer rest : List Char} (h : fgets (512 - 1) text = some (buffer, rest))
    (htakes : Takes k (stripNewline buffer) n) (hover : FileOverruns n rest) : FileOverruns k text

theorem length_takeLine_fst_le (k : Nat) (s : List Char) : (takeLine k s).1.length ≤ k := by
  fun_induction takeLine k s with
  | case1 s => exact Nat.le_refl _
  | case2 k => exact Nat.zero_le _
  | case3 k s => simp
  | case4 k c s hc line rest hline ih =>
    rw [hline] at ih
    exact Nat.succ_le_succ ih

/-- A line of the file fits into the copy that the parser makes of it. -/
theorem lineCopy_stripNewline {text buffer rest : List Char} (h : fgets (512 - 1) text = some (buffer, rest)) :
    lineCopy (stripNewline buffer) = stripNewline buffer := by
  have hbuffer : buffer.length ≤ 510 := by
    unfold fgets at h
    split at h
    · cases h
    · have hfst := congrArg Prod.fst (Option.some.inj h)
      rw [← show _ = buffer from hfst]
      exact length_takeLine_fst_le _ _
  have hstrip : (stripNewline buffer).length ≤ buffer.length := by
    unfold stripNewline
    split_ifs
    · exact (List.length_dropLast ..).trans_le (Nat.sub_le _ _)
    · exact Nat.le_refl _
  exact List.take_of_length_le (hstrip.trans (hbuffer.trans (by decide)))

theorem Checked.parseLines_overrun_iff (text : List Char) (parsed : Parsed) :
    parseLines text parsed = .error .outOfBounds ↔ FileOverruns parsed.1.length text := by
  fun_induction parseLines text parsed with
  | case1 text parsed hend =>
    refine iff_of_false (by simp) fun hover => ?_
    cases hover with
    | here h => cases hend.symm.trans h
    | later h => cases hend.symm.trans h
  | case2 text parsed buffer rest hline fault hfault =>
    have hover : parseline parsed (stripNewline buffer) = .error .outOfBounds ↔ _ := parseline_overrun_iff
    rw [lineCopy_stripNewline hline, hfault] at hover
    constructor
    · intro heq
      exact .here hline (hover.mp heq)
    · intro hfile
      cases hfile with
      | here h hline' =>
        cases hline.symm.trans h
        exact hover.mpr hline'
      | later h htakes _ =>
        cases hline.symm.trans h
        rw [← lineCopy_stripNewline hline] at htakes
        obtain ⟨parsed', hparsed⟩ : ∃ parsed', parseline parsed (stripNewline buffer) = .ok parsed' :=
          parseline_of_takes htakes
        cases hfault.symm.trans hparsed
  | case3 text parsed buffer rest hline parsed' hparsed ih =>
    have hover : parseline parsed (stripNewline buffer) = .error .outOfBounds ↔ _ := parseline_overrun_iff
    have htakes := parseline_takes hparsed
    rw [lineCopy_stripNewline hline] at hover htakes
    rw [ih]
    constructor
    · exact .later hline htakes
    · intro hfile
      cases hfile with
      | here h hline' =>
        cases hline.symm.trans h
        cases (hover.mpr hline').symm.trans hparsed
      | later h htakes' hrest =>
        cases hline.symm.trans h
        rwa [takes_unique htakes htakes']

theorem Checked.parseFile_overrun_iff (text : List Char) (seed : Int) :
    skiConfigPrioritiesParseFile text seed = .error .outOfBounds ↔ FileOverruns 0 text := by
  rw [← List.length_nil (α := SkiConfigPrioritiesEntry),
    ← parseLines_overrun_iff text ([], skiConfigPrioritiesRandomInit (seed.tdiv 10))]
  unfold skiConfigPrioritiesParseFile
  simp only [bind, Except.bind]
  cases parseLines text ([], skiConfigPrioritiesRandomInit (seed.tdiv 10)) with
  | error fault => simp
  | ok parsed =>
    dsimp only
    -- the threads are inserted when all stores are done
    cases (parsed.1.map SkiConfigPrioritiesEntry.row).foldlM skiThreadsInsert [] <;> simp

/-- **When the parser stays within its arrays**, or aborts before it leaves them. -/
theorem parseFile_inBounds_iff (text : List Char) (seed : Int) :
    Checked.skiConfigPrioritiesParseFile text seed ≠ .error .outOfBounds ↔ ¬ FileOverruns 0 text :=
  not_congr (Checked.parseFile_overrun_iff text seed)

/-- A group with too many CPUs, as the only line of the file. -/
theorem GroupText.fileOverruns {g : GroupText} (hlen : g.text.length ≤ 510)
    (hcpus : skiMaxConfigPrioritiesFieldEntries < g.cpus.length) : FileOverruns 0 g.text := by
  have hline : '\n' ∉ g.text := by
    intro hmem
    rcases mem_groupText hmem with hdigit | hother
    · cases hdigit
    · revert hother
      decide
  have hfgets : fgets (512 - 1) g.text = some (g.text, []) := by
    have htake := takeLine_full hline hlen (.inr (Eq.refl []))
    rw [List.append_nil] at htake
    rw [fgets, if_neg g.text_ne_nil]
    exact congrArg some htake
  have hmatch := g.regexec_text []
  rw [List.append_nil] at hmatch
  refine .here hfgets ?_
  rw [stripNewline_of_not_mem hline]
  refine .list hmatch (.inl ⟨?_, ?_⟩)
  · rw [(pieces_regMatchOf ..).1, List.length_map]
    exact hcpus
  · intro p hp
    rw [(pieces_regMatchOf ..).1] at hp
    obtain ⟨x, -, rfl⟩ := List.mem_map.mp (List.mem_of_mem_take hp)
    rw [sscanfInt_text]
    rfl

def fiftyOneCpus : GroupText := ⟨List.replicate 51 .zero, [.minusOne], .one⟩

/-- The line has 116 characters, and its last CPU is stored behind the end of the list. -/
theorem fiftyOneCpus_outOfBounds :
    fiftyOneCpus.text.length = 116 ∧
      Checked.skiConfigPrioritiesParseFile fiftyOneCpus.text 0 = .error .outOfBounds := by
  have hlen : fiftyOneCpus.text.length = 116 := by decide
  have hover : FileOverruns 0 fiftyOneCpus.text := GroupText.fileOverruns (by omega) (by decide)
  exact ⟨hlen, (Checked.parseFile_overrun_iff _ 0).mpr hover⟩

end SkiVmm.Priorities
