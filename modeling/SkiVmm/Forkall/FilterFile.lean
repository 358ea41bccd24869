import SkiVmm.Forkall.Ipfilter
import SkiVmm.Lib.Text

/-!
# `Forkall.FilterFile` — the text of a filter file

`Forkall.Ipfilter` starts from what `sscanf` reads from each line. Here is the loop of `ski_ipfilter_loadfile_hash` over
the text, and the files that one would write: lines with an address, a comment, both or none.

The loop has no case for a line without an address: it ends in `assert(0)`. And a line of 126 characters fills the
buffer, so that its newline is read as a line of its own.

* `loadText_reads` — what the loop reads from such a file, line by line.
* `filterFile_loads_iff` — which of these files are loaded.
-/

namespace SkiVmm.Forkall

open Lib

/-! ## The loop over the text -/

/-- The line up to its comment, and the address in it. -/
def scanFilterLine (buffer : List Char) : Option Int := sscanfHex (buffer.takeWhile fun c => c ≠ '#')

/-- The loop in `ski_ipfilter_loadfile_hash`. -/
def Ipfilter.loadText (text : List Char) (f : Ipfilter) : Option Ipfilter :=
  match _h : fgets (128 - 1) text with
  | none => some f
  | some (buffer, text) => (f.loadLine (scanFilterLine buffer)).bind fun f => Ipfilter.loadText text f
termination_by text.length
decreasing_by exact length_fgets_lt (by decide) _h

theorem Ipfilter.loadText_nil (f : Ipfilter) : f.loadText [] = some f := by
  rw [Ipfilter.loadText]
  rfl

theorem Ipfilter.loadText_line {text buffer rest : List Char} (h : fgets (128 - 1) text = some (buffer, rest))
    (f : Ipfilter) : f.loadText text = (f.loadLine (scanFilterLine buffer)).bind (Ipfilter.loadText rest) := by
  rw [Ipfilter.loadText]
  split <;> simp_all

/-! ## Files -/

/-- A hexadecimal address of the guest. -/
structure FilterAddress where
  zeroX : Bool
  digits : List Char
  digits_ne_nil : digits ≠ []
  digits_hex : ∀ c ∈ digits, isHexDigit c = true
  fits : hexValue digits < 2 ^ 32

def FilterAddress.text (a : FilterAddress) : List Char := (if a.zeroX then ['0', 'x'] else []) ++ a.digits

/-- The address in an `int`. -/
def FilterAddress.eip (a : FilterAddress) : Int := (hexValue a.digits : Int).bmod (2 ^ 32)

/-- A blank within a line. -/
def IsBlank (c : Char) : Prop := isSpace c = true ∧ c ≠ '\n'

/-- A line: an address, a comment, both or none of them, with blanks around the address. -/
structure FilterLine where
  before : List Char
  address : Option FilterAddress
  after : List Char
  comment : Option (List Char)
  before_blank : ∀ c ∈ before, IsBlank c
  after_blank : ∀ c ∈ after, IsBlank c
  comment_line : ∀ text ∈ comment, '\n' ∉ text

namespace FilterLine

def addressText (line : FilterLine) : List Char := (line.address.map FilterAddress.text).getD []

def commentText (line : FilterLine) : List Char := (line.comment.map fun text => '#' :: text).getD []

def text (line : FilterLine) : List Char := line.before ++ (line.addressText ++ (line.after ++ line.commentText))

/-- What the line adds to the filter. -/
def eip (line : FilterLine) : Option Int := line.address.map FilterAddress.eip

end FilterLine

/-- A file: lines that end with a newline, and possibly a last one without. -/
structure FilterFile where
  lines : List FilterLine
  last : Option FilterLine
  lines_short : ∀ line ∈ lines, line.text.length ≤ 126
  last_short : ∀ line ∈ last, line.text.length ≤ 126
  last_ne_nil : ∀ line ∈ last, line.text ≠ []

namespace FilterFile

def all (file : FilterFile) : List FilterLine := file.lines ++ file.last.toList

def text (file : FilterFile) : List Char :=
  file.lines.flatMap (fun line => line.text ++ ['\n']) ++ (file.last.map FilterLine.text).getD []

/-- The addresses in the file. -/
def eips (file : FilterFile) : List Int := file.all.filterMap FilterLine.eip

end FilterFile

/-! ## One line -/

section Line
variable {line : FilterLine} {c : Char}

theorem FilterAddress.mem_text {a : FilterAddress} (h : c ∈ a.text) : isHexDigit c = true ∨ c = 'x' := by
  rcases List.mem_append.mp h with hc | hc
  · cases hzero : a.zeroX <;> rw [hzero] at hc
    · cases hc
    · rcases List.mem_cons.mp hc with rfl | hc
      · exact .inl rfl
      · exact .inr (List.mem_singleton.mp hc)
  · exact .inl (a.digits_hex c hc)

theorem FilterLine.mem_addressText (h : c ∈ line.addressText) : isHexDigit c = true ∨ c = 'x' := by
  unfold FilterLine.addressText at h
  cases haddress : line.address <;> rw [haddress] at h
  · cases h
  · exact FilterAddress.mem_text h

theorem FilterLine.newline_not_mem (line : FilterLine) : '\n' ∉ line.text := by
  intro h
  unfold FilterLine.text at h
  rcases List.mem_append.mp h with h | h
  · exact (line.before_blank _ h).2 rfl
  rcases List.mem_append.mp h with h | h
  · rcases FilterLine.mem_addressText h with h | h <;> cases h
  rcases List.mem_append.mp h with h | h
  · exact (line.after_blank _ h).2 rfl
  · unfold FilterLine.commentText at h
    cases hcomment : line.comment with
    | none =>
      rw [hcomment] at h
      cases h
    | some text =>
      rw [hcomment] at h
      rcases List.mem_cons.mp h with h | h
      · cases h
      · exact line.comment_line text hcomment h

/-- The line without its comment: behind the address there are only blanks, the newline among them. -/
theorem FilterLine.takeWhile_comment (line : FilterLine) {newline : List Char} (hnewline : ∀ c ∈ newline, c = '\n') :
    ∃ after, (∀ c ∈ after, isSpace c = true) ∧
      (line.text ++ newline).takeWhile (fun c => c ≠ '#') = line.before ++ (line.addressText ++ after) := by
  have hspace {c : Char} (h : isSpace c = true) : decide (c ≠ '#') = true := by
    rw [decide_eq_true_eq]
    rintro rfl
    cases h
  have hbefore : ∀ c ∈ line.before, decide (c ≠ '#') = true := fun c hc => hspace (line.before_blank c hc).1
  have hafter : ∀ c ∈ line.after, decide (c ≠ '#') = true := fun c hc => hspace (line.after_blank c hc).1
  have haddress : ∀ c ∈ line.addressText, decide (c ≠ '#') = true := by
    intro c hc
    rw [decide_eq_true_eq]
    rintro rfl
    rcases FilterLine.mem_addressText hc with h | h <;> cases h
  have htake : (line.text ++ newline).takeWhile (fun c => c ≠ '#')
      = line.before ++ (line.addressText ++ (line.after ++
          (line.commentText ++ newline).takeWhile fun c => c ≠ '#')) := by
    unfold FilterLine.text
    simp only [List.append_assoc]
    rw [List.takeWhile_append_of_pos hbefore, List.takeWhile_append_of_pos haddress,
      List.takeWhile_append_of_pos hafter]
  -- behind the blanks comes a `#`, where the line is cut, or the newline, which is a blank too
  refine ⟨line.after ++ (line.commentText ++ newline).takeWhile fun c => c ≠ '#', ?_, htake⟩
  intro c hc
  rcases List.mem_append.mp hc with hc | hc
  · exact (line.after_blank c hc).1
  · unfold FilterLine.commentText at hc
    cases hcomment : line.comment with
    | none =>
      rw [hcomment] at hc
      rw [hnewline c ((List.takeWhile_prefix _).subset hc)]
      rfl
    | some text =>
      rw [hcomment] at hc
      cases hc

/-- **A line is read as its address.** -/
theorem FilterLine.scan (line : FilterLine) {newline : List Char} (hnewline : ∀ c ∈ newline, c = '\n') :
    scanFilterLine (line.text ++ newline) = line.eip := by
  obtain ⟨after, hafter, hcut⟩ := line.takeWhile_comment hnewline
  have hbefore : ∀ c ∈ line.before, isSpace c = true := fun c hc => (line.before_blank c hc).1
  unfold scanFilterLine
  rw [hcut]
  unfold FilterLine.addressText FilterLine.eip
  cases line.address with
  | none =>
    refine sscanfHex_blank fun c hc => ?_
    rcases List.mem_append.mp hc with hc | hc
    · exact hbefore c hc
    · exact hafter c hc
  | some a =>
    have hfits : hexValue a.digits < 2 ^ 64 := Nat.lt_trans a.fits (by decide)
    show sscanfHex (line.before ++ (a.text ++ after)) = some a.eip
    unfold FilterAddress.text
    rw [List.append_assoc]
    exact sscanfHex_append a.digits_hex hafter hbefore a.zeroX a.digits_ne_nil hfits

/-- A line that `fgets` returns without its newline. -/
theorem FilterLine.scan_end (line : FilterLine) : scanFilterLine line.text = line.eip := by
  have hnone : ∀ c ∈ ([] : List Char), c = '\n' := fun c hc => absurd hc List.not_mem_nil
  have hscan := line.scan hnone
  rwa [List.append_nil] at hscan

end Line

/-! ## Whole files -/

/-- What the loop reads from a line that ends with a newline. -/
def FilterLine.reads (line : FilterLine) : List (Option Int) :=
  if line.text.length < 126 then [line.eip] else [line.eip, none]

/-- What the loop reads from the file. -/
def FilterFile.reads (file : FilterFile) : List (Option Int) :=
  file.lines.flatMap FilterLine.reads ++ file.last.toList.map FilterLine.eip

section Files
variable {line : FilterLine} {file : FilterFile} {f g : Ipfilter}

theorem fgets_eq {text : List Char} (h : text ≠ []) : fgets (128 - 1) text = some (takeLine 126 text) := if_neg h

theorem Ipfilter.loadLine_none (f : Ipfilter) : f.loadLine none = none := by
  unfold loadLine
  split
  · rfl
  · rfl

/-- **Step lemma.** A line with its newline. -/
theorem Ipfilter.loadText_terminated (hshort : line.text.length ≤ 126) (rest : List Char) (f : Ipfilter) :
    f.loadText (line.text ++ '\n' :: rest) = (line.reads.foldlM loadLine f).bind (loadText rest) := by
  have hne : line.text ++ '\n' :: rest ≠ [] := List.append_ne_nil_of_right_ne_nil _ (List.cons_ne_nil _ _)
  unfold FilterLine.reads
  split
  · next hlt =>
    have hread := (fgets_eq hne).trans (congrArg some (takeLine_newline line.newline_not_mem hlt rest))
    rw [Ipfilter.loadText_line hread, line.scan fun c => List.mem_singleton.mp, List.foldlM_cons]
    simp
  · next hlong =>
    -- the newline stays behind, and there is no address in it
    have hfull : line.text.length = 126 := by omega
    have hread := (fgets_eq hne).trans (congrArg some (takeLine_full line.newline_not_mem hshort (.inl hfull)))
    have hscan := line.scan_end
    have hnewline : fgets (128 - 1) ('\n' :: rest) = some (['\n'], rest) := rfl
    rw [Ipfilter.loadText_line hread, hscan, List.foldlM_cons]
    cases f.loadLine line.eip with
    | none => rfl
    | some f' =>
      show f'.loadText ('\n' :: rest) = ([none].foldlM loadLine f').bind _
      rw [Ipfilter.loadText_line hnewline, show scanFilterLine ['\n'] = none from rfl, List.foldlM_cons,
        Ipfilter.loadLine_none]
      rfl

/-- **The file is read line by line.** -/
theorem loadText_reads (file : FilterFile) (f : Ipfilter) :
    f.loadText file.text = file.reads.foldlM Ipfilter.loadLine f := by
  obtain ⟨lines, last, hlines, hlast, hne⟩ := file
  unfold FilterFile.text FilterFile.reads
  simp only
  induction lines generalizing f with
  | nil =>
    rw [List.flatMap_nil, List.flatMap_nil, List.nil_append, List.nil_append]
    cases last with
    | none => exact f.loadText_nil
    | some line =>
      have htake := takeLine_full (s := []) line.newline_not_mem (hlast line rfl) (.inr rfl)
      rw [List.append_nil] at htake
      have hread := (fgets_eq (hne line rfl)).trans (congrArg some htake)
      have hscan := line.scan_end
      show f.loadText line.text = _
      rw [Ipfilter.loadText_line hread, hscan]
      simp [Ipfilter.loadText_nil]
  | cons line lines ih =>
    rw [List.flatMap_cons, List.flatMap_cons, List.append_assoc, List.append_assoc, List.append_assoc,
      List.foldlM_append, List.singleton_append,
      Ipfilter.loadText_terminated (hlines line List.mem_cons_self)]
    cases line.reads.foldlM Ipfilter.loadLine f with
    | none => rfl
    | some f' => exact ih f' fun l hl => hlines l (List.mem_cons_of_mem _ hl)

/-- Which lines are loaded. -/
theorem Ipfilter.foldlM_loadLine_isSome_iff (reads : List (Option Int)) (hroom : f.values.used ≤ maxIpfilterHash) :
    (reads.foldlM loadLine f).isSome = true ↔
      (∀ r ∈ reads, r.isSome = true) ∧ f.values.used + reads.length ≤ maxIpfilterHash := by
  induction reads generalizing f with
  | nil => simp [hroom]
  | cons r reads ih =>
    rw [List.foldlM_cons]
    cases r with
    | none =>
      rw [Ipfilter.loadLine_none]
      refine iff_of_false Bool.false_ne_true fun h => ?_
      cases h.1 none List.mem_cons_self
    | some eip =>
      by_cases hlt : f.values.used < maxIpfilterHash
      · have hload : f.loadLine (some eip)
            = some { values := enter f.values eip, backup := f.backup.push fun _ => eip } := if_pos hlt
        have hused : (enter f.values eip).used = f.values.used + 1 := rfl
        have hrest := ih (f := { values := enter f.values eip, backup := f.backup.push fun _ => eip }) hlt
        rw [hload]
        refine hrest.trans (and_congr ?_ ?_)
        · simp
        · rw [hused, List.length_cons]
          omega
      · have hload : f.loadLine (some eip) = none := if_neg hlt
        rw [hload]
        refine iff_of_false Bool.false_ne_true fun h => ?_
        have := h.2
        rw [List.length_cons] at this
        omega

/-- Lines that leave room for their newline are read once each. -/
theorem FilterFile.reads_eq (hshort : ∀ line ∈ file.lines, line.text.length < 126) :
    file.reads = file.all.map FilterLine.eip := by
  have hlines : ∀ line ∈ file.lines, line.reads = [line.eip] := fun line hline => if_pos (hshort line hline)
  unfold FilterFile.reads FilterFile.all
  rw [List.map_append, List.flatMap_congr hlines, ← List.map_eq_flatMap]

theorem FilterFile.reads_isSome_iff (file : FilterFile) :
    (∀ r ∈ file.reads, r.isSome = true) ↔
      (∀ line ∈ file.all, line.address.isSome = true) ∧ ∀ line ∈ file.lines, line.text.length < 126 := by
  have haddress (line : FilterLine) : line.eip.isSome = line.address.isSome := Option.isSome_map
  constructor
  · intro h
    have hshort : ∀ line ∈ file.lines, line.text.length < 126 := by
      intro line hline
      by_contra hlong
      have hnone : none ∈ line.reads := by
        rw [show line.reads = [line.eip, none] from if_neg hlong]
        exact List.mem_cons_of_mem _ List.mem_cons_self
      cases h none (List.mem_append_left _ (List.mem_flatMap.mpr ⟨line, hline, hnone⟩))
    rw [FilterFile.reads_eq hshort] at h
    exact ⟨fun line hline => haddress line ▸ h _ (List.mem_map_of_mem hline), hshort⟩
  · rintro ⟨hall, hshort⟩ r hr
    rw [FilterFile.reads_eq hshort] at hr
    obtain ⟨line, hline, rfl⟩ := List.mem_map.mp hr
    rw [haddress]
    exact hall line hline

/-- **Which files are loaded.** There must be an address in every line, no line of 126 characters before a newline, and
    not more lines than the table has entries. -/
theorem filterFile_loads_iff (file : FilterFile) :
    (∃ f, Ipfilter.initial.loadText file.text = some f ∧ f.values.entries = file.eips ∧
        f.backup.entries = file.eips) ↔
      ((∀ line ∈ file.all, line.address.isSome = true) ∧ ∀ line ∈ file.lines, line.text.length < 126) ∧
        file.all.length ≤ maxIpfilterHash := by
  have hused : Ipfilter.initial.values.used = 0 := rfl
  have hiff := Ipfilter.foldlM_loadLine_isSome_iff file.reads (f := .initial) (Nat.zero_le _)
  rw [hused, Nat.zero_add, FilterFile.reads_isSome_iff] at hiff
  rw [loadText_reads]
  constructor
  · rintro ⟨f, hload, -⟩
    obtain ⟨hlines, hlen⟩ := hiff.mp (Option.isSome_iff_exists.mpr ⟨f, hload⟩)
    rw [FilterFile.reads_eq hlines.2, List.length_map] at hlen
    exact ⟨hlines, hlen⟩
  · rintro ⟨hlines, hlen⟩
    have hreads := FilterFile.reads_eq hlines.2
    obtain ⟨f, hload⟩ := Option.isSome_iff_exists.mp (hiff.mpr ⟨hlines, by rwa [hreads, List.length_map]⟩)
    obtain ⟨hok, hsame⟩ := Ipfilter.load_ok hload
    have hbackup : f.backup.entries = file.eips := by
      have hentries := congrArg (List.filterMap id) (hok.backup_eq.trans hreads)
      rw [List.filterMap_map, List.filterMap_map] at hentries
      exact (List.filterMap_some (l := f.backup.entries)).symm.trans hentries
    exact ⟨f, hload, hsame.trans hbackup, hbackup⟩

end Files

/-! ## A file with a comment -/

/-- `# a` -/
def commentLine : FilterLine where
  before := []
  address := none
  after := []
  comment := some [' ', 'a']
  before_blank := List.forall_mem_nil _
  after_blank := List.forall_mem_nil _
  comment_line := by
    rintro text ⟨⟩
    decide

/-- A file with one comment, and no address. -/
def commentFile : FilterFile where
  lines := [commentLine]
  last := none
  lines_short := by
    intro line hline
    rw [List.mem_singleton.mp hline]
    decide
  last_short := by rintro line ⟨⟩
  last_ne_nil := by rintro line ⟨⟩

/-- The program ends on `# a`. -/
theorem commentFile_not_loaded :
    commentFile.text = "# a\n".toList ∧ Ipfilter.initial.loadText commentFile.text = none := by
  refine ⟨rfl, ?_⟩
  rw [loadText_reads]
  rfl

end SkiVmm.Forkall
