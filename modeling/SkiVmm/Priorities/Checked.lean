import SkiVmm.Priorities.Format

/-!
# `Priorities.Checked` — any line, and the lines that stop the parser

What `ski_config_priorities_parseline` does with any line, also one that is not in the documented format. The regular
expression is searched for in the whole rest of the line, not in one segment; list entries are read by `sscanf`, which
stops at the first character that it cannot use; and the result of the `sscanf` for `n` is not looked at.

* `Checked` repeats the parser and tells a failed assertion (`abort`) from a write outside of an array
  (`outOfBounds`); `Checked.parseline_toOption` says that it is the parser of `Priorities.Parse`.
* `pieces`, `Readable`, `Unreadable` — which lists the loops over the entries accept.
* `Stops` — the lines on which the parser aborts (`Checked.readGroups_abort_iff`).
-/

namespace SkiVmm.Priorities

open Lib

/-! ## Faults -/

inductive ParseFault
  | abort
  | outOfBounds
deriving DecidableEq, Repr

namespace Checked

/-- The loop over the numbers of a list, which stores a number before it checks the result of `sscanf`. -/
def readMatches (rmEo curEntry : List Char) (found : List Int) : Except ParseFault (List Int) :=
  if rmEo.length < curEntry.length then
    if found.length < skiMaxConfigPrioritiesFieldEntries then
      match sscanfInt curEntry with
      | none => .error .abort
      | some n =>
        match _h : afterChar ',' curEntry with
        | none => .ok (found ++ [n])
        | some curEntry => readMatches rmEo curEntry (found ++ [n])
    else .error .outOfBounds
  else .ok found
termination_by curEntry.length
decreasing_by exact length_afterChar_lt _h

def readGroup (curGroup : List Char) : Except ParseFault (List SkiConfigPrioritiesEntry) :=
  match regexec curGroup with
  | none => .error .abort
  | some m => do
    let cpusMatches ← readMatches m.cpusEnd m.cpus []
    let intsMatches ← readMatches m.intsEnd m.ints []
    let nMatch := (sscanfInt m.n).getD ((cpusMatches ++ intsMatches).getLastD 0)
    return cpusMatches.flatMap fun cpu => intsMatches.map fun i => { cpu, i, n := nMatch }

def readGroups (curGroup : List Char) (plist : List SkiConfigPrioritiesEntry) (shouldRandomize : Bool) :
    Except ParseFault (List SkiConfigPrioritiesEntry × Bool) :=
  if curGroup = [] then .ok (plist, shouldRandomize)
  else
    match readGroup curGroup with
    | .error fault => .error fault
    | .ok entries =>
      if plist.length + entries.length ≤ skiMaxConfigPrioritiesPerLine then
        match _h : afterChar '|' curGroup with
        | none => .ok (plist ++ entries, shouldRandomize)
        | some nextGroup => readGroups nextGroup (plist ++ entries) true
      else .error .outOfBounds
termination_by curGroup.length
decreasing_by exact length_afterChar_lt _h

def parseline (parsed : Parsed) (argStr : List Char) : Except ParseFault Parsed := do
  let str := argStr.take (skiMaxConfigPrioritiesLenght - 1)
  let (plist, shouldRandomize) ← readGroups str parsed.1 false
  if shouldRandomize then
    return shuffle skiConfigPrioritiesRandom parsed.1.length (plist.length - parsed.1.length) parsed.2 plist
  else return (plist, parsed.2)

theorem readMatches_toOption (rmEo curEntry : List Char) (found : List Int) :
    (readMatches rmEo curEntry found).toOption = Priorities.readMatches rmEo curEntry found := by
  fun_induction readMatches rmEo curEntry found with
  | case1 curEntry found hin hroom hn =>
    rw [Priorities.readMatches, if_pos hin, if_pos hroom, hn]
    rfl
  | case2 curEntry found hin hroom n hn hafter =>
    rw [Priorities.readMatches, if_pos hin, if_pos hroom, hn]
    dsimp only
    split <;> simp_all [Except.toOption]
  | case3 curEntry found hin hroom n hn next hafter ih =>
    rw [ih, Priorities.readMatches.eq_def rmEo curEntry, if_pos hin, if_pos hroom, hn]
    dsimp only
    split <;> simp_all
  | case4 curEntry found hin hroom =>
    rw [Priorities.readMatches, if_pos hin, if_neg hroom]
    rfl
  | case5 curEntry found hin =>
    rw [Priorities.readMatches, if_neg hin]
    rfl

theorem readGroup_toOption (curGroup : List Char) : (readGroup curGroup).toOption = Priorities.readGroup curGroup := by
  unfold readGroup Priorities.readGroup
  cases regexec curGroup with
  | none => rfl
  | some m =>
    simp only [← readMatches_toOption, Option.bind_eq_bind, Option.bind_some]
    cases readMatches m.cpusEnd m.cpus [] with
    | error fault => rfl
    | ok cpus =>
      cases readMatches m.intsEnd m.ints [] <;> rfl

theorem readGroups_toOption (curGroup : List Char) (plist : List SkiConfigPrioritiesEntry) (shouldRandomize : Bool) :
    (readGroups curGroup plist shouldRandomize).toOption = Priorities.readGroups curGroup plist shouldRandomize := by
  fun_induction readGroups curGroup plist shouldRandomize with
  | case1 plist shouldRandomize => rw [Priorities.readGroups, if_pos rfl]; rfl
  | case2 curGroup plist shouldRandomize hne fault hfault =>
    rw [Priorities.readGroups, if_neg hne, ← readGroup_toOption, hfault]
    rfl
  | case3 curGroup plist shouldRandomize hne entries hentries hroom hafter =>
    rw [Priorities.readGroups, if_neg hne, ← readGroup_toOption, hentries]
    simp only [Except.toOption, if_pos hroom]
    split <;> simp_all
  | case4 curGroup plist shouldRandomize hne entries hentries hroom next hafter ih =>
    rw [ih, Priorities.readGroups.eq_def curGroup, if_neg hne, ← readGroup_toOption, hentries]
    simp only [Except.toOption, if_pos hroom]
    split <;> simp_all
  | case5 curGroup plist shouldRandomize hne entries hentries hroom =>
    rw [Priorities.readGroups, if_neg hne, ← readGroup_toOption, hentries]
    simp only [Except.toOption, if_neg hroom]

/-- **The same parser**, but for the kind of fault. -/
theorem parseline_toOption (parsed : Parsed) (argStr : List Char) :
    (parseline parsed argStr).toOption = skiConfigPrioritiesParseline parsed argStr := by
  unfold parseline skiConfigPrioritiesParseline
  simp only [← readGroups_toOption]
  cases readGroups (argStr.take (skiMaxConfigPrioritiesLenght - 1)) parsed.1 false with
  | error fault => rfl
  | ok result =>
    obtain ⟨plist, shouldRandomize⟩ := result
    cases shouldRandomize <;> rfl

end Checked

/-! ## The entries of a list -/

/-- The texts between the commas. Behind a comma at the end there is no further one. -/
def pieces (t : List Char) : List (List Char) :=
  if t = [] then []
  else
    match _h : afterChar ',' t with
    | none => [t]
    | some rest => t.takeWhile (· ≠ ',') :: pieces rest
termination_by t.length
decreasing_by exact length_afterChar_lt _h

theorem pieces_nil : pieces [] = [] := by
  rw [pieces, if_pos rfl]

theorem pieces_last {t : List Char} (hne : t ≠ []) (ht : ',' ∉ t) : pieces t = [t] := by
  have hafter := afterChar_eq_none_iff.mpr ht
  rw [pieces, if_neg hne]
  split <;> simp_all

theorem pieces_comma {a : List Char} (ha : ',' ∉ a) (t : List Char) : pieces (a ++ ',' :: t) = a :: pieces t := by
  have hafter : afterChar ',' (a ++ ',' :: t) = some t := by
    rw [afterChar_append ha, afterChar, if_pos rfl]
  have htake : (a ++ ',' :: t).takeWhile (· ≠ ',') = a := by
    rw [List.takeWhile_append_of_pos, List.takeWhile_cons_of_neg (by decide), List.append_nil]
    intro c hc
    exact decide_eq_true fun heq => ha (heq ▸ hc)
  rw [pieces, if_neg (by simp)]
  split <;> simp_all

/-- The loop over the numbers of a list, on its pieces. -/
def readPieces : List (List Char) → List Int → Except ParseFault (List Int)
  | [], found => .ok found
  | p :: ps, found =>
    if found.length < skiMaxConfigPrioritiesFieldEntries then
      match sscanfInt p with
      | none => .error .abort
      | some n => readPieces ps (found ++ [n])
    else .error .outOfBounds

section Entries
variable (r : List Char)

theorem sscanfInt_piece (p : List Char) {c : Char} (hc : c = ',' ∨ c = '\x7d') :
    sscanfInt (p ++ c :: r) = sscanfInt p := by
  rcases hc with rfl | rfl <;> exact sscanfInt_append_cons p (by decide) (by decide) (by decide) r

/-- **The loop reads the pieces**: a number never reaches into the next one. -/
theorem Checked.readMatches_eq {t : List Char} (ht : '\x7d' ∉ t) (found : List Int) :
    readMatches ('\x7d' :: r) (t ++ '\x7d' :: r) found = readPieces (pieces t) found := by
  induction hlen : t.length using Nat.strong_induction_on generalizing t found with
  | _ k ih =>
    subst hlen
    by_cases hne : t = []
    · subst hne
      rw [pieces_nil, readMatches, if_neg (by simp), readPieces]
    · have hin : ('\x7d' :: r).length < (t ++ '\x7d' :: r).length := by
        have := List.length_pos_iff.mpr hne
        rw [List.length_append]
        omega
      rw [readMatches, if_pos hin]
      cases hafter : afterChar ',' t with
      | none =>
        -- a comma that is found lies behind the end of the list
        have hcomma := afterChar_eq_none_iff.mp hafter
        rw [pieces_last hne hcomma, readPieces, sscanfInt_piece r t (.inr rfl)]
        refine ite_congr rfl (fun _ => ?_) fun _ => rfl
        cases sscanfInt t with
        | none => rfl
        | some n =>
          dsimp only
          rw [readPieces]
          split
          · rfl
          · next rest hrest =>
            rw [afterChar_append hcomma] at hrest
            rw [readMatches, if_neg (Nat.not_lt.mpr (Nat.le_of_lt (length_afterChar_lt hrest)))]
      | some rest =>
        obtain ⟨a, ha, rfl⟩ := exists_append_of_afterChar hafter
        have hrest : '\x7d' ∉ rest := fun hmem => ht (by simp [hmem])
        rw [pieces_comma ha, readPieces, List.append_assoc, List.cons_append, sscanfInt_piece _ a (.inl rfl)]
        refine ite_congr rfl (fun _ => ?_) fun _ => rfl
        cases sscanfInt a with
        | none => rfl
        | some n =>
          dsimp only
          have hnext : afterChar ',' (a ++ ',' :: (rest ++ '\x7d' :: r)) = some (rest ++ '\x7d' :: r) := by
            rw [afterChar_append ha, afterChar, if_pos rfl]
          rw [← ih rest.length (by simp; omega) hrest (found ++ [n]) rfl]
          split
          · next hnone => cases hnone.symm.trans hnext
          · next rest' hsome => cases hsome.symm.trans hnext; rfl

end Entries

/-- All pieces are numbers, and the array holds them. -/
def Readable (ps : List (List Char)) : Prop :=
  ps.length ≤ skiMaxConfigPrioritiesFieldEntries ∧ ∀ p ∈ ps, (sscanfInt p).isSome

/-- A piece is no number, and the array is not full before it. -/
def Unreadable (ps : List (List Char)) : Prop :=
  ∃ p ∈ ps.take skiMaxConfigPrioritiesFieldEntries, sscanfInt p = none

theorem readPieces_ok_iff {ps : List (List Char)} {found ns : List Int}
    (hfound : found.length ≤ skiMaxConfigPrioritiesFieldEntries) :
    readPieces ps found = .ok ns ↔
      (found.length + ps.length ≤ skiMaxConfigPrioritiesFieldEntries ∧ ∀ p ∈ ps, (sscanfInt p).isSome) ∧
        ns = found ++ ps.filterMap sscanfInt := by
  induction ps generalizing found with
  | nil =>
    rw [readPieces, List.filterMap_nil, List.append_nil]
    constructor
    · intro h
      cases h
      exact ⟨⟨hfound, List.forall_mem_nil _⟩, rfl⟩
    · rintro ⟨-, rfl⟩
      rfl
  | cons p ps ih =>
    rw [readPieces]
    split_ifs with hroom
    · cases hp : sscanfInt p with
      | none => simp [hp]
      | some n =>
        dsimp only
        rw [ih (by rw [List.length_append]; exact hroom), List.filterMap_cons_some hp]
        simp only [List.length_append, List.length_cons, List.length_nil, List.forall_mem_cons, hp, Option.isSome_some,
          true_and, List.append_assoc, List.singleton_append]
        rw [Nat.add_assoc, Nat.zero_add, Nat.add_comm 1]
    · simp only [List.length_cons]
      constructor
      · nofun
      · rintro ⟨⟨hlen, -⟩, -⟩
        omega

theorem readPieces_abort_iff {ps : List (List Char)} {found : List Int} :
    readPieces ps found = .error .abort ↔
      ∃ p ∈ ps.take (skiMaxConfigPrioritiesFieldEntries - found.length), sscanfInt p = none := by
  induction ps generalizing found with
  | nil => simp [readPieces]
  | cons p ps ih =>
    rw [readPieces]
    split_ifs with hroom
    · obtain ⟨k, hk⟩ : ∃ k, skiMaxConfigPrioritiesFieldEntries - found.length = k + 1 :=
        ⟨_, (Nat.succ_pred_eq_of_pos (Nat.sub_pos_of_lt hroom)).symm⟩
      rw [hk, List.take_succ_cons]
      cases hp : sscanfInt p with
      | none => simp [hp]
      | some n =>
        dsimp only
        have hk' : skiMaxConfigPrioritiesFieldEntries - (found ++ [n]).length = k := by
          rw [List.length_append, List.length_singleton]
          omega
        rw [ih, hk']
        simp [hp]
    · rw [Nat.sub_eq_zero_of_le (Nat.not_lt.mp hroom), List.take_zero]
      simp

/-- **A list**: its numbers, a failed assertion, or too many numbers. -/
theorem readPieces_cases (ps : List (List Char)) :
    (Readable ps ∧ ¬ Unreadable ps ∧ readPieces ps [] = .ok (ps.filterMap sscanfInt)) ∨
    (¬ Readable ps ∧ Unreadable ps ∧ readPieces ps [] = .error .abort) ∨
    (¬ Readable ps ∧ ¬ Unreadable ps ∧ readPieces ps [] = .error .outOfBounds) := by
  have hok : ∀ ns, readPieces ps [] = .ok ns ↔ Readable ps ∧ ns = ps.filterMap sscanfInt := by
    intro ns
    rw [readPieces_ok_iff (Nat.zero_le _), List.length_nil, Nat.zero_add, List.nil_append]
    rfl
  have habort : readPieces ps [] = .error .abort ↔ Unreadable ps := readPieces_abort_iff
  cases hread : readPieces ps [] with
  | ok ns =>
    obtain ⟨hr, rfl⟩ := (hok ns).mp hread
    refine .inl ⟨hr, fun hu => ?_, rfl⟩
    cases hread.symm.trans (habort.mpr hu)
  | error fault =>
    have hr : ¬ Readable ps := fun hr => by cases hread.symm.trans ((hok _).mpr ⟨hr, rfl⟩)
    cases fault with
    | abort => exact .inr (.inl ⟨hr, habort.mp hread, rfl⟩)
    | outOfBounds =>
      refine .inr (.inr ⟨hr, fun hu => ?_, rfl⟩)
      cases hread.symm.trans (habort.mpr hu)

/-! ## A match -/

def RegMatch.cpuPieces (m : RegMatch) : List (List Char) := pieces (m.cpus.takeWhile (· ≠ '\x7d'))

def RegMatch.intPieces (m : RegMatch) : List (List Char) := pieces (m.ints.takeWhile (· ≠ '\x7d'))

def RegMatch.Readable (m : RegMatch) : Prop := Priorities.Readable m.cpuPieces ∧ Priorities.Readable m.intPieces

def RegMatch.Unreadable (m : RegMatch) : Prop :=
  Priorities.Unreadable m.cpuPieces ∨ Priorities.Readable m.cpuPieces ∧ Priorities.Unreadable m.intPieces

/-- The size of the cross product. -/
def RegMatch.count (m : RegMatch) : Nat := m.cpuPieces.length * m.intPieces.length

/-- A list of a match ends at its closing brace. -/
theorem matchHere_pieces {s : List Char} {m : RegMatch} (h : matchHere s = some m) :
    (∃ r, m.cpusEnd = '\x7d' :: r ∧ m.cpus = m.cpus.takeWhile (· ≠ '\x7d') ++ '\x7d' :: r) ∧
    ∃ r, m.intsEnd = '\x7d' :: r ∧ m.ints = m.ints.takeWhile (· ≠ '\x7d') ++ '\x7d' :: r := by
  simp only [matchHere, Option.bind_eq_bind, Option.bind_eq_some_iff] at h
  obtain ⟨cpus, -, ints, hints, n, hn, heq⟩ := h
  cases heq
  have hcpusEnd := eq_append_of_skipLiteral hints
  have hintsEnd := eq_append_of_skipLiteral hn
  refine ⟨⟨_, hcpusEnd, ?_⟩, ⟨_, hintsEnd, ?_⟩⟩
  · exact (List.takeWhile_append_dropWhile.symm.trans (congrArg _ hcpusEnd))
  · exact (List.takeWhile_append_dropWhile.symm.trans (congrArg _ hintsEnd))

theorem regexec_matchHere {s : List Char} {m : RegMatch} (h : regexec s = some m) : ∃ t, matchHere t = some m := by
  induction s with
  | nil => cases h
  | cons c s ih =>
    unfold regexec at h
    split at h
    · next m' hm =>
      cases h
      exact ⟨_, hm⟩
    · exact ih h

theorem takeWhile_not_mem (s : List Char) : '\x7d' ∉ s.takeWhile (· ≠ '\x7d') := by
  intro hmem
  have hall := List.all_eq_true.mp (List.all_takeWhile (p := (· ≠ '\x7d')) (l := s)) _ hmem
  simp at hall

section Match
variable {s : List Char} {m : RegMatch} (h : regexec s = some m)
include h

/-- The entries of a group, from the pieces of its lists. -/
theorem Checked.readGroup_eq : readGroup s = (readPieces m.cpuPieces []).bind fun cpusMatches =>
    (readPieces m.intPieces []).bind fun intsMatches =>
      .ok (cpusMatches.flatMap fun cpu => intsMatches.map fun i =>
        { cpu, i, n := (sscanfInt m.n).getD ((cpusMatches ++ intsMatches).getLastD 0) }) := by
  obtain ⟨t, ht⟩ := regexec_matchHere h
  obtain ⟨⟨r₁, hcpusEnd, hcpus⟩, ⟨r₂, hintsEnd, hints⟩⟩ := matchHere_pieces ht
  have hread₁ : readMatches m.cpusEnd m.cpus [] = readPieces m.cpuPieces [] := by
    rw [hcpusEnd, hcpus]
    exact readMatches_eq r₁ (takeWhile_not_mem m.cpus) []
  have hread₂ : readMatches m.intsEnd m.ints [] = readPieces m.intPieces [] := by
    rw [hintsEnd, hints]
    exact readMatches_eq r₂ (takeWhile_not_mem m.ints) []
  rw [readGroup, h]
  dsimp only
  rw [hread₁, hread₂]
  rfl

/-- **A group**: as many entries as its lists say, a failed assertion, or too many numbers. -/
theorem Checked.readGroup_cases :
    (m.Readable ∧ ¬ m.Unreadable ∧ ∃ entries, readGroup s = .ok entries ∧ entries.length = m.count) ∨
    (¬ m.Readable ∧ m.Unreadable ∧ readGroup s = .error .abort) ∨
    (¬ m.Readable ∧ ¬ m.Unreadable ∧ readGroup s = .error .outOfBounds) := by
  rw [readGroup_eq h]
  unfold RegMatch.Readable RegMatch.Unreadable
  rcases readPieces_cases m.cpuPieces with ⟨hr, hu, hread⟩ | ⟨hr, hu, hread⟩ | ⟨hr, hu, hread⟩
  · rcases readPieces_cases m.intPieces with ⟨hr₂, hu₂, hread₂⟩ | ⟨hr₂, hu₂, hread₂⟩ | ⟨hr₂, hu₂, hread₂⟩
    · refine .inl ⟨⟨hr, hr₂⟩, by simp [hu, hu₂], ?_⟩
      rw [hread, hread₂]
      refine ⟨_, rfl, ?_⟩
      have hlen := List.filterMap_length_eq_length.mpr hr.2
      have hlen₂ := List.filterMap_length_eq_length.mpr hr₂.2
      simp [List.length_flatMap, RegMatch.count, hlen, hlen₂]
    · exact .inr (.inl ⟨fun hm => hr₂ hm.2, .inr ⟨hr, hu₂⟩, by rw [hread, hread₂]; rfl⟩)
    · exact .inr (.inr ⟨fun hm => hr₂ hm.2, by simp [hu, hu₂], by rw [hread, hread₂]; rfl⟩)
  · exact .inr (.inl ⟨fun hm => hr hm.1, .inl hu, by rw [hread]; rfl⟩)
  · exact .inr (.inr ⟨fun hm => hr hm.1, by simp [hu, hr], by rw [hread]; rfl⟩)

end Match

theorem Checked.readGroup_ok {s : List Char} {entries : List SkiConfigPrioritiesEntry}
    (h : readGroup s = .ok entries) :
    ∃ m, regexec s = some m ∧ m.Readable ∧ ¬ m.Unreadable ∧ entries.length = m.count := by
  cases hm : regexec s with
  | none =>
    rw [readGroup, hm] at h
    cases h
  | some m =>
    refine ⟨m, rfl, ?_⟩
    rcases readGroup_cases hm with ⟨hr, hu, entries', hread, hlen⟩ | ⟨-, -, hread⟩ | ⟨-, -, hread⟩
    · cases h.symm.trans hread
      exact ⟨hr, hu, hlen⟩
    · cases h.symm.trans hread
    · cases h.symm.trans hread

/-! ## Lines on which the parser aborts -/

/-- The parser reads a group at the start of the line and behind every bar. It stops where it finds none in the rest of
    the line, or where the lists of the first one it finds have an entry that is no number; up to there all entries,
    `k` before this one, must fit into the arrays. -/
inductive Stops : Nat → List Char → Prop
  | noMatch {k : Nat} {s : List Char} (hne : s ≠ []) (h : regexec s = none) : Stops k s
  | unreadable {k : Nat} {s : List Char} {m : RegMatch} (h : regexec s = some m) (hbad : m.Unreadable) : Stops k s
  | later {k : Nat} {s r : List Char} {m : RegMatch} (h : regexec s = some m) (hread : m.Readable)
    (hroom : k + m.count ≤ skiMaxConfigPrioritiesPerLine) (hnext : afterChar '|' s = some r)
    (hstop : Stops (k + m.count) r) : Stops k s

theorem Stops.ne_nil {k : Nat} {s : List Char} (h : Stops k s) : s ≠ [] := by
  rintro rfl
  cases h with
  | noMatch hne => exact hne rfl
  | unreadable h => cases h
  | later h => cases h

/-- Where there is a match, its lists are bad, or the parser stops behind the next bar. -/
theorem stops_iff {k : Nat} {s : List Char} {m : RegMatch} (h : regexec s = some m) :
    Stops k s ↔ m.Unreadable ∨ m.Readable ∧ k + m.count ≤ skiMaxConfigPrioritiesPerLine ∧
      ∃ r, afterChar '|' s = some r ∧ Stops (k + m.count) r := by
  constructor
  · intro hstop
    cases hstop with
    | noMatch _ hnone => cases h.symm.trans hnone
    | unreadable hm hbad =>
      cases h.symm.trans hm
      exact .inl hbad
    | later hm hread hroom hnext hstop =>
      cases h.symm.trans hm
      exact .inr ⟨hread, hroom, _, hnext, hstop⟩
  · rintro (hbad | ⟨hread, hroom, r, hnext, hstop⟩)
    · exact .unreadable h hbad
    · exact .later h hread hroom hnext hstop

/-- **The loop over the groups aborts exactly there.** -/
theorem Checked.readGroups_abort_iff (s : List Char) (plist : List SkiConfigPrioritiesEntry) (shouldRandomize : Bool) :
    readGroups s plist shouldRandomize = .error .abort ↔ Stops plist.length s := by
  fun_induction readGroups s plist shouldRandomize with
  | case1 plist shouldRandomize =>
    constructor
    · nofun
    · exact fun hstop => absurd rfl hstop.ne_nil
  | case2 s plist shouldRandomize hne fault hfault =>
    cases hm : regexec s with
    | none =>
      rw [readGroup, hm] at hfault
      cases hfault
      exact iff_of_true rfl (.noMatch hne hm)
    | some m =>
      rw [stops_iff hm]
      rcases readGroup_cases hm with ⟨-, -, entries, hread, -⟩ | ⟨-, hu, hread⟩ | ⟨hr, hu, hread⟩
      · cases hfault.symm.trans hread
      · cases hfault.symm.trans hread
        exact iff_of_true rfl (.inl hu)
      · cases hfault.symm.trans hread
        exact iff_of_false nofun fun hstop => hstop.elim hu fun hlater => hr hlater.1
  | case3 s plist shouldRandomize hne entries hentries hroom hafter =>
    obtain ⟨m, hm, hr, hu, hlen⟩ := readGroup_ok hentries
    rw [stops_iff hm]
    simp [hu, hafter]
  | case4 s plist shouldRandomize hne entries hentries hroom next hafter ih =>
    obtain ⟨m, hm, hr, hu, hlen⟩ := readGroup_ok hentries
    rw [ih, stops_iff hm, List.length_append, hlen]
    rw [hlen] at hroom
    simp [hu, hr, hroom, hafter]
  | case5 s plist shouldRandomize hne entries hentries hroom =>
    obtain ⟨m, hm, hr, hu, hlen⟩ := readGroup_ok hentries
    rw [hlen] at hroom
    rw [stops_iff hm]
    simp [hu, hroom]

end SkiVmm.Priorities
