import SkiVmm.Priorities.Checked

/-!
# `Priorities.Segments` — a line, segment by segment

The bars of a line cut it into segments, and each segment that is not empty should be a group of its own. The loop of
`ski_config_priorities_parseline` starts once at each segment, but what it reads there is the first group in the whole
rest of the line (`regexec_segments`). On a line whose segments are groups or empty, an empty segment therefore reads
the next group, which is read again in its place (`taken`).

`segments_exact_iff` says which lines the parser refuses, or takes with exactly the cross products of its segments.
-/

namespace SkiVmm.Priorities

open Lib

/-! ## Groups -/

/-- A group as it is written: two lists of numbers and a number. -/
structure GroupText where
  cpus : List Numeral
  ints : List Numeral
  n : Numeral

def GroupText.text (g : GroupText) : List Char :=
  cpuOpen ++ (listText g.cpus ++ (intOpen ++ (listText g.ints ++ (intClose ++ g.n.text))))

/-- Its cross product. -/
def GroupText.entries (g : GroupText) : List SkiConfigPrioritiesEntry :=
  g.cpus.flatMap fun cpu => g.ints.map fun i => { cpu := cpu.value, i := i.value, n := g.n.value }

/-- The arrays of the parser hold its lists. -/
def GroupText.Fits (g : GroupText) : Prop :=
  g.cpus.length ≤ skiMaxConfigPrioritiesFieldEntries ∧ g.ints.length ≤ skiMaxConfigPrioritiesFieldEntries

theorem GroupText.text_ne_nil (g : GroupText) : g.text ≠ [] := List.cons_ne_nil _ _

theorem GroupText.bar_not_mem (g : GroupText) : '|' ∉ g.text := bar_not_mem_groupText

theorem pieces_listText (xs : List Numeral) : pieces (listText xs) = xs.map Numeral.text := by
  induction xs with
  | nil => exact pieces_nil
  | cons x xs ih =>
    rcases joinWith_cons ',' false x.text (xs.map Numeral.text) with ⟨heq, hnil, -⟩ | heq
    · rw [listText, List.map_cons, heq, hnil]
      exact pieces_last (List.length_pos_iff.mp x.length_text_pos) x.comma_not_mem
    · rw [listText, List.map_cons, heq, pieces_comma x.comma_not_mem, ← listText, ih]

theorem takeWhile_listText (xs : List Numeral) (r : List Char) :
    (listText xs ++ '\x7d' :: r).takeWhile (· ≠ '\x7d') = listText xs := by
  rw [List.takeWhile_append_of_pos, List.takeWhile_cons_of_neg (by decide), List.append_nil]
  intro c hc
  refine decide_eq_true ?_
  rintro rfl
  exact not_mem_listText hc

theorem sscanfInt_text (x : Numeral) : sscanfInt x.text = some x.value := by
  have := x.sscanfInt_text (s := []) (by simp)
  rwa [List.append_nil] at this

theorem readPieces_text {xs : List Numeral} (hlen : xs.length ≤ skiMaxConfigPrioritiesFieldEntries) :
    readPieces (xs.map Numeral.text) [] = .ok (xs.map Numeral.value) := by
  refine (readPieces_ok_iff (Nat.zero_le _)).mpr ⟨⟨by simpa using hlen, ?_⟩, ?_⟩
  · intro p hp
    obtain ⟨x, -, rfl⟩ := List.mem_map.mp hp
    rw [sscanfInt_text]
    rfl
  · rw [List.nil_append, List.filterMap_map]
    have hcomp : sscanfInt ∘ Numeral.text = some ∘ Numeral.value := funext sscanfInt_text
    rw [hcomp, List.filterMap_eq_map]

theorem pieces_regMatchOf (cpus ints : List Numeral) (n : List Char) :
    (regMatchOf cpus ints n).cpuPieces = cpus.map Numeral.text ∧
      (regMatchOf cpus ints n).intPieces = ints.map Numeral.text := by
  constructor
  · rw [RegMatch.cpuPieces, ← pieces_listText]
    exact congrArg pieces (takeWhile_listText cpus _)
  · rw [RegMatch.intPieces, ← pieces_listText]
    exact congrArg pieces (takeWhile_listText ints _)

section Group
variable {g : GroupText} {s tail : List Char} (htail : ∀ c ∈ tail.head?, c.isDigit = false)
  (h : regexec s = some (regMatchOf g.cpus g.ints (g.n.text ++ tail)))
include h

include htail in
/-- Where the first match is a group, its cross product is read. -/
theorem Checked.readGroup_groupText (hfits : g.Fits) : readGroup s = .ok g.entries := by
  obtain ⟨hcpus, hints⟩ := pieces_regMatchOf g.cpus g.ints (g.n.text ++ tail)
  have hn : sscanfInt (g.n.text ++ tail) = some g.n.value := g.n.sscanfInt_text htail
  rw [readGroup_eq h, hcpus, hints, readPieces_text hfits.1, readPieces_text hfits.2]
  simp only [Except.bind, regMatchOf, hn, Option.getD_some, GroupText.entries, List.flatMap_map, List.map_map]
  rfl

theorem Checked.fits_of_readGroup {entries : List SkiConfigPrioritiesEntry} (hread : readGroup s = .ok entries) :
    g.Fits := by
  obtain ⟨m, hm, ⟨hr₁, hr₂⟩, -⟩ := readGroup_ok hread
  cases h.symm.trans hm
  obtain ⟨hcpus, hints⟩ := pieces_regMatchOf g.cpus g.ints (g.n.text ++ tail)
  rw [hcpus] at hr₁
  rw [hints] at hr₂
  exact ⟨by simpa using hr₁.1, by simpa using hr₂.1⟩

end Group

/-! ## Segments -/

/-- A segment is empty or a group. -/
def segText : Option GroupText → List Char
  | none => []
  | some g => g.text

/-- The first group of a list of segments. -/
def firstGroup (gs : List (Option GroupText)) : Option GroupText := gs.findSome? id

/-- The segments of a text: there is one, or a bar behind the first. -/
theorem splitOn_cases {s : List Char} {gs : List (Option GroupText)} (h : s.splitOn '|' = gs.map segText) :
    (∃ x, gs = [x] ∧ s = segText x ∧ afterChar '|' s = none) ∨
    ∃ x l r, gs = x :: l ∧ s = segText x ++ '|' :: r ∧ afterChar '|' s = some r ∧ r.splitOn '|' = l.map segText := by
  cases hafter : afterChar '|' s with
  | none =>
    rw [List.splitOn_eq_singleton (afterChar_eq_none_iff.mp hafter)] at h
    obtain ⟨x, rfl, rfl⟩ := List.map_eq_singleton_iff.mp h.symm
    exact .inl ⟨x, rfl, rfl, rfl⟩
  | some r =>
    obtain ⟨a, ha, rfl⟩ := exists_append_of_afterChar hafter
    rw [List.splitOn_append_cons_self_of_not_mem ha] at h
    obtain ⟨x, l, rfl, rfl, hl⟩ := List.map_eq_cons_iff.mp h.symm
    exact .inr ⟨x, l, r, rfl, rfl, rfl, hl.symm⟩

theorem regexec_cons_of_ne {c : Char} (hc : c ≠ 'c') (s : List Char) : regexec (c :: s) = regexec s := by
  have hnone : matchHere (c :: s) = none := by
    have hskip : skipLiteral cpuOpen (c :: s) = none := by
      rw [cpuOpen, skipLiteral, if_neg (Ne.symm hc)]
    rw [matchHere, hskip]
    rfl
  rw [regexec, hnone]

theorem GroupText.regexec_text (g : GroupText) (tail : List Char) :
    regexec (g.text ++ tail) = some (regMatchOf g.cpus g.ints (g.n.text ++ tail)) := by
  have htext : g.text ++ tail = cpuOpen ++ (regMatchOf g.cpus g.ints (g.n.text ++ tail)).cpus := by
    simp only [GroupText.text, regMatchOf, List.append_assoc]
  have hmatch := matchHere_lists g.cpus g.ints (g.n.text ++ tail)
  rw [← htext] at hmatch
  obtain ⟨c, t, hct⟩ := List.exists_cons_of_ne_nil (List.append_ne_nil_of_left_ne_nil g.text_ne_nil tail)
  rw [hct] at hmatch ⊢
  rw [regexec, hmatch]

/-- **The match is that of the first group**, wherever in the rest of the line it is. -/
theorem regexec_segments {s : List Char} {gs : List (Option GroupText)} (h : s.splitOn '|' = gs.map segText) :
    (firstGroup gs = none → regexec s = none) ∧
    ∀ g, firstGroup gs = some g → ∃ tail, (∀ c ∈ tail.head?, c.isDigit = false) ∧
      regexec s = some (regMatchOf g.cpus g.ints (g.n.text ++ tail)) := by
  induction gs generalizing s with
  | nil => exact absurd h (List.splitOn_ne_nil '|' s)
  | cons x l ih =>
    rcases splitOn_cases h with ⟨x', hx, rfl, -⟩ | ⟨x', l', r, hx, rfl, -, hr⟩
    · cases hx
      cases x with
      | none => exact ⟨fun _ => rfl, nofun⟩
      | some g =>
        refine ⟨nofun, fun g' hg => ?_⟩
        cases hg
        have := g.regexec_text []
        rw [List.append_nil] at this
        exact ⟨[], by simp, this⟩
    · cases hx
      cases x with
      | none =>
        -- an empty segment is only its bar, where no match starts
        rw [segText, List.nil_append, regexec_cons_of_ne (by decide)]
        exact ih hr
      | some g =>
        refine ⟨nofun, fun g' hg => ?_⟩
        cases hg
        refine ⟨'|' :: r, ?_, g.regexec_text _⟩
        rintro c ⟨⟩
        rfl

/-- The groups that the loop reads, one for each segment but an empty one at the end: the first group from there on.
    `none` where there is no such group. -/
def taken : List (Option GroupText) → Option (List GroupText)
  | [] => some []
  | x :: l =>
    if x.isNone && l.isEmpty then some []
    else (firstGroup (x :: l)).bind fun g => (taken l).map (g :: ·)

theorem taken_cons {x : Option GroupText} {l : List (Option GroupText)} (h : x ≠ none ∨ l ≠ []) :
    taken (x :: l) = (firstGroup (x :: l)).bind fun g => (taken l).map (g :: ·) := by
  rw [taken, if_neg]
  rcases h with hx | hl
  · simp [Option.isNone_iff_eq_none, hx]
  · simp [hl]

namespace Checked

/-- One turn of the loop over the groups, where the first group in the rest of the line is `g`. -/
theorem readGroups_turn {g : GroupText} {s tail : List Char} (htail : ∀ c ∈ tail.head?, c.isDigit = false)
    (h : regexec s = some (regMatchOf g.cpus g.ints (g.n.text ++ tail))) (plist : List SkiConfigPrioritiesEntry)
    (shouldRandomize : Bool) (result : List SkiConfigPrioritiesEntry × Bool) :
    readGroups s plist shouldRandomize = .ok result ↔
      g.Fits ∧ (plist ++ g.entries).length ≤ skiMaxConfigPrioritiesPerLine ∧
        (match afterChar '|' s with
          | none => Except.ok (plist ++ g.entries, shouldRandomize)
          | some r => readGroups r (plist ++ g.entries) true) = .ok result := by
  have hne : s ≠ [] := by
    rintro rfl
    cases h
  rw [List.length_append]
  by_cases hfits : g.Fits
  · rw [readGroups, if_neg hne, readGroup_groupText htail h hfits]
    dsimp only
    by_cases hroom : plist.length + g.entries.length ≤ skiMaxConfigPrioritiesPerLine
    · rw [if_pos hroom]
      split <;> simp_all
    · rw [if_neg hroom]
      simp [hroom]
  · refine iff_of_false (fun hok => ?_) fun hok => hfits hok.1
    rw [readGroups, if_neg hne] at hok
    cases hread : readGroup s with
    | error fault =>
      rw [hread] at hok
      cases hok
    | ok entries => exact hfits (fits_of_readGroup h hread)

/-- **The loop over the groups of a line** whose segments are groups or empty. -/
theorem readGroups_segments {s : List Char} {gs : List (Option GroupText)} (h : s.splitOn '|' = gs.map segText)
    {plist : List SkiConfigPrioritiesEntry} (hplist : plist.length ≤ skiMaxConfigPrioritiesPerLine)
    (shouldRandomize : Bool) (result : List SkiConfigPrioritiesEntry × Bool) :
    readGroups s plist shouldRandomize = .ok result ↔
      ∃ groups, taken gs = some groups ∧ (∀ g ∈ groups, g.Fits) ∧
        (plist ++ groups.flatMap GroupText.entries).length ≤ skiMaxConfigPrioritiesPerLine ∧
        result = (plist ++ groups.flatMap GroupText.entries, shouldRandomize || decide ('|' ∈ s)) := by
  induction gs generalizing s plist shouldRandomize with
  | nil => exact absurd h (List.splitOn_ne_nil '|' s)
  | cons x l ih =>
    obtain ⟨hnone, hsome⟩ := regexec_segments h
    rcases splitOn_cases h with ⟨x', hx, hs, hafter⟩ | ⟨x', l', r, hx, hs, hafter, hr⟩
    · -- the last segment: the loop ends, without a turn of its own if the segment is empty
      cases hx
      have hbar := afterChar_eq_none_iff.mp hafter
      cases x with
      | none =>
        subst hs
        have htaken : taken [none] = some [] := rfl
        rw [htaken, segText, readGroups, if_pos rfl]
        simp [hplist, eq_comm]
      | some g =>
        obtain ⟨tail, htail, hmatch⟩ := hsome g rfl
        have htaken : taken [some g] = some [g] := rfl
        rw [readGroups_turn htail hmatch, hafter, htaken]
        simp [hbar, eq_comm]
    · -- a bar follows: one turn, whether the segment is empty or not
      cases hx
      have hl : l ≠ [] := by
        rintro rfl
        exact absurd hr (List.splitOn_ne_nil '|' r)
      have hbar : '|' ∈ s := by simp [hs]
      rw [taken_cons (.inr hl)]
      cases hfirst : firstGroup (x :: l) with
      | none =>
        have hread : readGroup s = .error .abort := by rw [readGroup, hnone hfirst]
        rw [readGroups, if_neg (by simp [hs]), hread]
        simp
      | some g =>
        obtain ⟨tail, htail, hmatch⟩ := hsome g hfirst
        rw [readGroups_turn htail hmatch, hafter]
        dsimp only [Option.bind_some]
        constructor
        · rintro ⟨hfits, hroom, hrest⟩
          obtain ⟨groups, htaken, hall, hlen, rfl⟩ := (ih hr hroom true).mp hrest
          refine ⟨g :: groups, by rw [htaken, Option.map_some], List.forall_mem_cons.mpr ⟨hfits, hall⟩, ?_, ?_⟩
          · rwa [List.flatMap_cons, ← List.append_assoc]
          · simp [hbar]
        · rintro ⟨groups', htaken', hall, hlen, rfl⟩
          obtain ⟨groups, htaken, rfl⟩ := Option.map_eq_some_iff.mp htaken'
          obtain ⟨hfits, hall⟩ := List.forall_mem_cons.mp hall
          rw [List.flatMap_cons, ← List.append_assoc] at hlen
          have hroom : (plist ++ g.entries).length ≤ skiMaxConfigPrioritiesPerLine := by
            rw [List.length_append] at hlen
            omega
          refine ⟨hfits, hroom, (ih hr hroom true).mpr ⟨groups, htaken, hall, hlen, ?_⟩⟩
          simp [hbar]

end Checked

/-! ## Empty segments -/

/-- Behind an empty segment, unless it is the last one, the next group has an empty list. -/
def EmptiesHarmless : List (Option GroupText) → Prop
  | [] => True
  | some _ :: l => EmptiesHarmless l
  | none :: l => (l = [] ∨ ∃ g, firstGroup l = some g ∧ (g.cpus = [] ∨ g.ints = [])) ∧ EmptiesHarmless l

/-- The groups of a line. -/
def ownGroups (gs : List (Option GroupText)) : List GroupText := gs.filterMap id

theorem GroupText.entries_eq_nil_iff (g : GroupText) : g.entries = [] ↔ g.cpus = [] ∨ g.ints = [] := by
  unfold entries
  rw [List.flatMap_eq_nil_iff]
  constructor
  · intro h
    cases hcpus : g.cpus with
    | nil => exact .inl rfl
    | cons cpu cpus => exact .inr (List.map_eq_nil_iff.mp (h cpu (hcpus ▸ List.mem_cons_self)))
  · rintro (hcpus | hints)
    · simp [hcpus]
    · simp [hints]

theorem firstGroup_some {l : List (Option GroupText)} {g : GroupText} (h : firstGroup l = some g) : some g ∈ l := by
  obtain ⟨x, hx, heq⟩ := List.exists_of_findSome?_eq_some h
  exact heq ▸ hx

section Taken
variable {gs : List (Option GroupText)} {groups : List GroupText}

theorem mem_taken_iff (h : taken gs = some groups) (g : GroupText) : g ∈ groups ↔ some g ∈ gs := by
  induction gs generalizing groups with
  | nil =>
    cases h
    simp
  | cons x l ih =>
    by_cases hend : x = none ∧ l = []
    · obtain ⟨rfl, rfl⟩ := hend
      cases h
      simp
    · rw [taken_cons (not_and_or.mp hend)] at h
      obtain ⟨g', hfirst, hmap⟩ := Option.bind_eq_some_iff.mp h
      obtain ⟨rest, hrest, rfl⟩ := Option.map_eq_some_iff.mp hmap
      have hmem := firstGroup_some hfirst
      rw [List.mem_cons, ih hrest, List.mem_cons]
      cases x with
      | none =>
        have hl : some g' ∈ l := by simpa using hmem
        constructor
        · rintro (rfl | hg)
          · exact .inr hl
          · exact .inr hg
        · exact fun hg => .inr (hg.resolve_left nofun)
      | some g₀ =>
        obtain rfl : g₀ = g' := by simpa [firstGroup] using hfirst
        simp

/-- **What empty segments add.** The cross products that are read are those of the groups if nothing more is read, that
    is if empty segments are harmless. -/
theorem taken_entries (h : taken gs = some groups) :
    ((ownGroups gs).flatMap GroupText.entries).length ≤ (groups.flatMap GroupText.entries).length ∧
    ((groups.flatMap GroupText.entries).length = ((ownGroups gs).flatMap GroupText.entries).length →
      EmptiesHarmless gs) ∧
    (EmptiesHarmless gs → groups.flatMap GroupText.entries = (ownGroups gs).flatMap GroupText.entries) := by
  induction gs generalizing groups with
  | nil =>
    cases h
    exact ⟨Nat.le_refl _, fun _ => trivial, fun _ => rfl⟩
  | cons x l ih =>
    by_cases hend : x = none ∧ l = []
    · obtain ⟨rfl, rfl⟩ := hend
      cases h
      exact ⟨Nat.le_refl _, fun _ => ⟨.inl rfl, trivial⟩, fun _ => rfl⟩
    · rw [taken_cons (not_and_or.mp hend)] at h
      obtain ⟨g, hfirst, hmap⟩ := Option.bind_eq_some_iff.mp h
      obtain ⟨rest, hrest, rfl⟩ := Option.map_eq_some_iff.mp hmap
      obtain ⟨hle, hlen, heq⟩ := ih hrest
      cases x with
      | none =>
        -- the next group is read here, and again at its own segment
        have hl : l ≠ [] := fun hl => hend ⟨rfl, hl⟩
        have hown : ownGroups (none :: l) = ownGroups l := rfl
        have hfirst' : firstGroup l = some g := hfirst
        rw [hown, List.flatMap_cons, List.length_append]
        refine ⟨by omega, fun hsum => ⟨.inr ⟨g, hfirst', ?_⟩, hlen (by omega)⟩, ?_⟩
        · rw [← g.entries_eq_nil_iff]
          exact List.length_eq_zero_iff.mp (by omega)
        · rintro ⟨hnext, hharm⟩
          obtain ⟨g', hg', hempty⟩ := hnext.resolve_left hl
          cases hfirst'.symm.trans hg'
          rw [g.entries_eq_nil_iff.mpr hempty, List.nil_append, heq hharm]
      | some g₀ =>
        obtain rfl : g₀ = g := by simpa [firstGroup] using hfirst
        have hown : ownGroups (some g₀ :: l) = g₀ :: ownGroups l := rfl
        rw [hown, List.flatMap_cons, List.flatMap_cons, List.length_append, List.length_append]
        refine ⟨by omega, fun hsum => hlen (by omega), fun hharm => ?_⟩
        rw [heq hharm]

theorem EmptiesHarmless.taken (h : EmptiesHarmless gs) : ∃ groups, taken gs = some groups := by
  induction gs with
  | nil => exact ⟨[], rfl⟩
  | cons x l ih =>
    cases x with
    | none =>
      obtain ⟨hnext, hl⟩ := h
      obtain ⟨groups, hgroups⟩ := ih hl
      rcases hnext with rfl | ⟨g, hg, -⟩
      · exact ⟨[], rfl⟩
      · have hne : l ≠ [] := by
          rintro rfl
          cases hg
        have hfirst : firstGroup (none :: l) = some g := hg
        exact ⟨g :: groups, by rw [taken_cons (.inr hne), hfirst, Option.bind_some, hgroups, Option.map_some]⟩
    | some g =>
      obtain ⟨groups, hgroups⟩ := ih h
      have hfirst : firstGroup (some g :: l) = some g := rfl
      have hcons := taken_cons (l := l) (.inl (Option.some_ne_none g))
      exact ⟨g :: groups, by rw [hcons, hfirst, Option.bind_some, hgroups, Option.map_some]⟩

end Taken

/-! ## A line -/

/-- The copy that the parser works on. A line of the file is never longer than that. -/
def lineCopy (argStr : List Char) : List Char := argStr.take (skiMaxConfigPrioritiesLenght - 1)

namespace Checked
variable {plist : List SkiConfigPrioritiesEntry} {next : Nat} {argStr : List Char}

/-- The groups of the copy are read, and what was read is shuffled where the line has a bar. -/
theorem parseline_eq : parseline (plist, next) argStr =
    match readGroups (lineCopy argStr) plist false with
    | .error fault => .error fault
    | .ok (plist', shouldRandomize) =>
      if shouldRandomize then
        .ok (shuffle skiConfigPrioritiesRandom plist.length (plist'.length - plist.length) next plist')
      else .ok (plist', next) := by
  unfold parseline
  change (readGroups (lineCopy argStr) plist false).bind _ = _
  cases readGroups (lineCopy argStr) plist false <;> rfl

/-- The shuffle does not fail. -/
theorem parseline_error_iff {fault : ParseFault} :
    parseline (plist, next) argStr = .error fault ↔ readGroups (lineCopy argStr) plist false = .error fault := by
  rw [parseline_eq]
  cases readGroups (lineCopy argStr) plist false with
  | error fault' => simp
  | ok result =>
    obtain ⟨plist', shouldRandomize⟩ := result
    cases shouldRandomize <;> simp

theorem parseline_abort_iff :
    parseline (plist, next) argStr = .error .abort ↔ Stops plist.length (lineCopy argStr) :=
  parseline_error_iff.trans (readGroups_abort_iff (lineCopy argStr) plist false)

theorem parseline_ok (next : Nat) {entries : List SkiConfigPrioritiesEntry} {shouldRandomize : Bool}
    (h : readGroups (lineCopy argStr) plist false = .ok (plist ++ entries, shouldRandomize)) :
    ∃ block next', parseline (plist, next) argStr = .ok (plist ++ block, next') ∧ block.Perm entries ∧
      (shouldRandomize = false → block = entries) := by
  rw [parseline_eq, h]
  cases shouldRandomize with
  | false => exact ⟨entries, next, rfl, .refl _, fun _ => rfl⟩
  | true =>
    obtain ⟨block, hshuffle, hperm⟩ :=
      shuffle_append skiConfigPrioritiesRandom plist next (Nat.le_refl entries.length)
    refine ⟨block, (shuffle skiConfigPrioritiesRandom plist.length entries.length next (plist ++ entries)).2, ?_,
      hperm, nofun⟩
    dsimp only
    rw [if_pos rfl, List.length_append, Nat.add_sub_cancel_left, ← hshuffle]

theorem readGroups_of_parseline {parsed : Parsed} (h : parseline (plist, next) argStr = .ok parsed) :
    ∃ result, readGroups (lineCopy argStr) plist false = .ok result := by
  rw [parseline_eq] at h
  cases hread : readGroups (lineCopy argStr) plist false with
  | error fault =>
    rw [hread] at h
    cases h
  | ok result => exact ⟨result, rfl⟩

end Checked

/-- The segments that are not empty are groups, if and only if each segment is a group or empty. -/
theorem filter_segments_iff {l : List (List Char)} {groups : List GroupText} :
    l.filter (· ≠ []) = groups.map GroupText.text ↔ ∃ gs, l = gs.map segText ∧ ownGroups gs = groups := by
  constructor
  · intro h
    induction l generalizing groups with
    | nil =>
      obtain rfl := List.map_eq_nil_iff.mp h.symm
      exact ⟨[], rfl, rfl⟩
    | cons a l ih =>
      by_cases ha : a = []
      · rw [List.filter_cons_of_neg (by simp [ha])] at h
        obtain ⟨gs, rfl, hown⟩ := ih h
        exact ⟨none :: gs, by rw [ha]; rfl, hown⟩
      · rw [List.filter_cons_of_pos (by simp [ha])] at h
        obtain ⟨g, rest, rfl, rfl, hrest⟩ := List.map_eq_cons_iff.mp h.symm
        obtain ⟨gs, rfl, rfl⟩ := ih hrest.symm
        exact ⟨some g :: gs, rfl, rfl⟩
  · rintro ⟨gs, rfl, rfl⟩
    induction gs with
    | nil => rfl
    | cons x gs ih =>
      cases x with
      | none => exact ih
      | some g =>
        rw [List.map_cons, List.filter_cons_of_pos (by simp [segText, g.text_ne_nil]), ih]
        rfl

/-- What the parser should do with a line: abort, or find a group in every segment that is not empty and append the
    cross products of these groups, each once and with its own number. -/
def SegmentsExact (parsed : Parsed) (argStr : List Char) : Prop :=
  Checked.parseline parsed argStr = .error .abort ∨
  ∃ groups : List GroupText, ((lineCopy argStr).splitOn '|').filter (· ≠ []) = groups.map GroupText.text ∧
    ∃ block next, Checked.parseline parsed argStr = .ok (parsed.1 ++ block, next) ∧
      block.Perm (groups.flatMap GroupText.entries) ∧
      ('|' ∉ lineCopy argStr → block = groups.flatMap GroupText.entries)

/-- Every segment of the line is a group or empty, `plist` with its `k` entries and the arrays for the lists have room,
    and empty segments are harmless. -/
def WellFormedLine (k : Nat) (line : List Char) : Prop :=
  ∃ gs : List (Option GroupText), line.splitOn '|' = gs.map segText ∧ (∀ g, some g ∈ gs → g.Fits) ∧
    k + ((ownGroups gs).flatMap GroupText.entries).length ≤ skiMaxConfigPrioritiesPerLine ∧ EmptiesHarmless gs

/-- **Which lines are refused or taken segment by segment**: those that stop the parser, and those whose segments are
    groups with room for their entries, or empty ones that are last or have a group with an empty list next. -/
theorem segments_exact_iff {parsed : Parsed} (hplist : parsed.1.length ≤ skiMaxConfigPrioritiesPerLine)
    (argStr : List Char) :
    SegmentsExact parsed argStr ↔
      Stops parsed.1.length (lineCopy argStr) ∨ WellFormedLine parsed.1.length (lineCopy argStr) := by
  obtain ⟨plist, next⟩ := parsed
  unfold SegmentsExact
  rw [Checked.parseline_abort_iff]
  constructor
  · rintro (hstop | ⟨groups, hfilter, block, next', hparse, hperm, -⟩)
    · exact .inl hstop
    · right
      obtain ⟨gs, hsegs, rfl⟩ := filter_segments_iff.mp hfilter
      obtain ⟨result, hread⟩ := Checked.readGroups_of_parseline hparse
      obtain ⟨taken, htaken, hfits, hroom, rfl⟩ := (Checked.readGroups_segments hsegs hplist false result).mp hread
      obtain ⟨block', next'', hparse', hperm', -⟩ := Checked.parseline_ok next hread
      obtain ⟨hblock, -⟩ := Prod.mk.inj (Except.ok.inj (hparse.symm.trans hparse'))
      obtain rfl := List.append_cancel_left hblock
      -- no more entries than those of the groups: nothing was read twice
      have hlen := hperm'.length_eq.symm.trans hperm.length_eq
      obtain ⟨-, hharm, -⟩ := taken_entries htaken
      refine ⟨gs, hsegs, fun g hg => hfits g ((mem_taken_iff htaken g).mpr hg), ?_, hharm hlen⟩
      rwa [List.length_append, hlen] at hroom
  · rintro (hstop | ⟨gs, hsegs, hfits, hroom, hharm⟩)
    · exact .inl hstop
    · right
      obtain ⟨taken, htaken⟩ := hharm.taken
      obtain ⟨-, -, heq⟩ := taken_entries htaken
      have hread := (Checked.readGroups_segments hsegs hplist false _).mpr
        ⟨taken, htaken, fun g hg => hfits g ((mem_taken_iff htaken g).mp hg), by
          rw [List.length_append, heq hharm]; exact hroom, rfl⟩
      rw [heq hharm] at hread
      obtain ⟨block, next', hparse, hperm, hsame⟩ := Checked.parseline_ok next hread
      refine ⟨ownGroups gs, filter_segments_iff.mpr ⟨gs, hsegs, rfl⟩, block, next', hparse, hperm, fun hbar => ?_⟩
      exact hsame (by simp [hbar])

/-- `cpu\x7b0\x7d;int\x7b1\x7d;3` -/
def zeroOneThree : GroupText := ⟨[.zero], [.one], .three⟩

theorem segments_exact_zeroOneThree : SegmentsExact ([], 0) (zeroOneThree.text ++ ['|']) :=
  (segments_exact_iff (Nat.zero_le _) _).mpr
    (.inr ⟨[some zeroOneThree, none], by decide, by simp [GroupText.Fits, zeroOneThree]; decide, by decide,
      .inl rfl, trivial⟩)

/-- A group ends with a digit. -/
theorem GroupText.getLast?_text (g : GroupText) : ∃ c, g.text.getLast? = some c ∧ c.isDigit = true := by
  have htext : ∃ front, g.text = front ++ g.n.digits := by
    refine ⟨cpuOpen ++ (listText g.cpus ++ (intOpen ++ (listText g.ints ++ (intClose ++
      if g.n.negative then ['-'] else [])))), ?_⟩
    simp only [text, Numeral.text, List.append_assoc]
  obtain ⟨front, htext⟩ := htext
  have hlast := List.getLast?_eq_some_getLast g.n.digits_ne_nil
  refine ⟨_, ?_, g.n.digits_isDigit _ (List.mem_of_getLast? hlast)⟩
  rw [htext, List.getLast?_append, hlast, Option.some_or]

/-- A line that is taken although a segment does not end with a digit. -/
theorem not_segmentsExact {parsed parsed' : Parsed} {argStr a : List Char}
    (hparse : Checked.parseline parsed argStr = .ok parsed') (ha : a ∈ (lineCopy argStr).splitOn '|') {c : Char}
    (hlast : a.getLast? = some c) (hc : c.isDigit = false) : ¬ SegmentsExact parsed argStr := by
  rintro (habort | ⟨groups, hfilter, -⟩)
  · cases hparse.symm.trans habort
  · have hne : a ≠ [] := by
      rintro rfl
      cases hlast
    have hmem : a ∈ groups.map GroupText.text := hfilter ▸ List.mem_filter.mpr ⟨ha, by simpa using hne⟩
    obtain ⟨g, -, rfl⟩ := List.mem_map.mp hmem
    obtain ⟨d, hd, hdigit⟩ := g.getLast?_text
    cases hlast.symm.trans hd
    rw [hdigit] at hc
    cases hc

/-- `x|cpu\x7b0\x7d;int\x7b1\x7d;3`: the segment `x` reads the group behind it. -/
theorem readGroups_junk_segment :
    Checked.readGroups (lineCopy (['x', '|'] ++ zeroOneThree.text)) [] false
      = .ok ([] ++ List.replicate 2 ⟨0, 1, 3⟩, true) := by
  have hcopy : lineCopy (['x', '|'] ++ zeroOneThree.text) = ['x', '|'] ++ zeroOneThree.text := by decide
  have hfits : zeroOneThree.Fits := by
    constructor <;> decide
  have hmatch := zeroOneThree.regexec_text []
  rw [List.append_nil] at hmatch
  have hmatch₂ : regexec (['x', '|'] ++ zeroOneThree.text) = regexec zeroOneThree.text := by
    rw [List.cons_append, List.cons_append, List.nil_append, regexec_cons_of_ne (by decide),
      regexec_cons_of_ne (by decide)]
  have hnone : afterChar '|' zeroOneThree.text = none := afterChar_eq_none_iff.mpr zeroOneThree.bar_not_mem
  rw [hcopy]
  refine (Checked.readGroups_turn (by simp) (hmatch₂.trans hmatch) [] false _).mpr ⟨hfits, by decide, ?_⟩
  refine (Checked.readGroups_turn (by simp) hmatch _ true _).mpr ⟨hfits, by decide, ?_⟩
  rw [hnone]
  rfl

/-- `cpu\x7b0\x7d;int\x7b1\x7d;`: the number is the last one that was read before. -/
theorem readGroups_missing_number :
    Checked.readGroups (lineCopy "cpu\x7b0\x7d;int\x7b1\x7d;".toList) [] false = .ok ([] ++ [⟨0, 1, 1⟩], false) := by
  have hcopy : lineCopy "cpu\x7b0\x7d;int\x7b1\x7d;".toList = "cpu\x7b0\x7d;int\x7b1\x7d;".toList := by decide
  have hmatch : regexec "cpu\x7b0\x7d;int\x7b1\x7d;".toList
      = some (regMatchOf [.zero] [.one] []) := by decide
  have hread : Checked.readGroup "cpu\x7b0\x7d;int\x7b1\x7d;".toList = .ok [⟨0, 1, 1⟩] := by
    obtain ⟨hcpus, hints⟩ := pieces_regMatchOf [.zero] [.one] []
    rw [Checked.readGroup_eq hmatch, hcpus, hints, readPieces_text (by decide), readPieces_text (by decide)]
    rfl
  have hnone : afterChar '|' "cpu\x7b0\x7d;int\x7b1\x7d;".toList = none := by decide
  rw [hcopy, Checked.readGroups, if_neg (by decide), hread]
  dsimp only
  rw [if_pos (by decide)]
  split
  · rfl
  · next hsome => cases hsome.symm.trans hnone

/-- Both lines are taken: the first with the entry of its group twice, the second with the interrupt as its number. -/
theorem malformed_segments_taken :
    ((∃ next, skiConfigPrioritiesParseline ([], 0) (['x', '|'] ++ zeroOneThree.text)
        = some ([⟨0, 1, 3⟩, ⟨0, 1, 3⟩], next)) ∧ ¬ SegmentsExact ([], 0) (['x', '|'] ++ zeroOneThree.text)) ∧
    skiConfigPrioritiesParseline ([], 0) "cpu\x7b0\x7d;int\x7b1\x7d;".toList = some ([⟨0, 1, 1⟩], 0) ∧
      ¬ SegmentsExact ([], 0) "cpu\x7b0\x7d;int\x7b1\x7d;".toList := by
  constructor
  · obtain ⟨block, next, hparse, hperm, -⟩ := Checked.parseline_ok 0 readGroups_junk_segment
    rw [List.perm_replicate.mp hperm] at hparse
    refine ⟨⟨next, ?_⟩, not_segmentsExact hparse (a := ['x']) (by decide) rfl (by decide)⟩
    rw [← Checked.parseline_toOption, hparse]
    rfl
  · have hparse : Checked.parseline ([], 0) "cpu\x7b0\x7d;int\x7b1\x7d;".toList = .ok ([⟨0, 1, 1⟩], 0) := by
      rw [Checked.parseline_eq, readGroups_missing_number]
      rfl
    refine ⟨?_, not_segmentsExact hparse (c := ';') List.mem_cons_self (by decide) (by decide)⟩
    rw [← Checked.parseline_toOption, hparse]
    rfl

end SkiVmm.Priorities
