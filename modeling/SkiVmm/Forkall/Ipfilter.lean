import SkiVmm.Forkall.Influence
import SkiVmm.Lib.Hashed
import SkiVmm.Lib.Refine

/-!
# `Forkall.Ipfilter` — the ip filter as the parent stores it

`Forkall.Parent` keeps the ip filter as a list. In `vl.c` it is an array with a counter
(`ski_ipfilter_hash_values`), a hash table over it (`ski_ipfilter_hash`) and a backup of what the filter file
held. The functions that load, restore and extend it are modelled here on those data, and shown to do what the
list model says (`Ipfilter.restore_entries`, `Ipfilter.addStats_refines`).

The log of the parent says which of these functions were called (`filterCalls`) and which children were
collected since the latest new input (`collectedSince`); `filter_at_fork` puts the two together.
-/

namespace SkiVmm.Forkall

open Lib

/-! ## The functions of `vl.c` -/

/-- `ski_ipfilter_hash_values` with its counter and `ski_ipfilter_hash`, and the backup with its counter. -/
structure Ipfilter where
  values : Hashed Int Int
  backup : Filled Int

namespace Ipfilter

/-- The filter when the program starts. -/
def initial : Ipfilter := ⟨.empty 0, .empty 0⟩

/-- Enter `eip` in the next cell of the array and in the hash. -/
def enter (values : Hashed Int Int) (eip : Int) : Hashed Int Int := values.insert id fun _ => eip

/-- One turn of the loop in `ski_ipfilter_loadfile_hash`. A line is the number that `sscanf` reads from it, if
    it reads one. What the file repeats is entered again. -/
def loadLine (f : Ipfilter) (line : Option Int) : Option Ipfilter :=
  if f.values.used < maxIpfilterHash then
    line.map fun eip => { values := enter f.values eip, backup := f.backup.push fun _ => eip }
  else none

/-- `ski_ipfilter_loadfile_hash` -/
def skiIpfilterLoadfileHash (lines : List (Option Int)) : Option Ipfilter := lines.foldlM loadLine initial

/-- `ski_ipfilter_restore`. The loop writes cell `i` in turn `i`, which is the next one after the clearing. -/
def skiIpfilterRestore (f : Ipfilter) : Ipfilter :=
  { f with values := (List.range f.backup.used).foldl (fun values i => enter values (f.backup.cells i)) f.values.clear }

/-- One turn of the loop in `ski_eipfilter_add_stats`. -/
def addEntry (f : Ipfilter) (eip : Int) : Option Ipfilter :=
  (f.values.findOrInsert id eip maxIpfilterHash fun _ => eip).map fun r => { f with values := r.1 }

/-- `ski_eipfilter_add_stats` -/
def skiEipfilterAddStats (f : Ipfilter) (instructions : List Int) : Option Ipfilter := instructions.foldlM addEntry f

/-! ## What they do to the entries -/

/-- The hash and the array hold the same entries, and the backup holds the lines of the file. -/
structure Ok (lines : List (Option Int)) (f : Ipfilter) : Prop where
  values_ok : f.values.Ok id
  backup_eq : f.backup.entries.map some = lines

variable {lines : List (Option Int)} {f f' : Ipfilter}

theorem enter_entries (values : Hashed Int Int) (eip : Int) :
    (enter values eip).entries = values.entries ++ [eip] :=
  Filled.entries_push _ _

/-- Entering values one after the other appends them. -/
theorem foldl_enter {values : Hashed Int Int} (hok : values.Ok id) (eips : List Int) :
    (eips.foldl enter values).Ok id ∧ (eips.foldl enter values).entries = values.entries ++ eips := by
  induction eips generalizing values with
  | nil => exact ⟨hok, (List.append_nil _).symm⟩
  | cons eip rest ih =>
    obtain ⟨hok', hentries⟩ := ih (hok.insert fun _ => eip)
    refine ⟨hok', hentries.trans ?_⟩
    show (enter values eip).entries ++ rest = _
    rw [enter_entries, List.append_assoc, List.singleton_append]

theorem restore_values (f : Ipfilter) :
    f.skiIpfilterRestore.values = f.backup.entries.foldl enter f.values.clear := by
  unfold Filled.entries
  rw [List.foldl_map]
  rfl

/-- **Restoring** brings back the entries of the backup, whatever the filter held. -/
theorem restore_entries (f : Ipfilter) :
    f.skiIpfilterRestore.values.Ok id ∧ f.skiIpfilterRestore.values.entries = f.backup.entries := by
  rw [restore_values]
  exact foldl_enter (Hashed.ok_clear _) _

/-- One line of the file. -/
theorem loadLine_spec {line : Option Int} (h : f.loadLine line = some f') (hok : f.Ok lines)
    (hsame : f.values.entries = f.backup.entries) :
    f'.Ok (lines ++ [line]) ∧ f'.values.entries = f'.backup.entries := by
  unfold loadLine at h
  split_ifs at h
  obtain ⟨eip, rfl, rfl⟩ := Option.map_eq_some_iff.mp h
  have hbackup : (f.backup.push fun _ => eip).entries = f.backup.entries ++ [eip] := Filled.entries_push _ _
  refine ⟨⟨hok.values_ok.insert _, ?_⟩, ?_⟩
  · rw [hbackup, List.map_append, hok.backup_eq]
    rfl
  · rw [enter_entries, hbackup, hsame]

/-- **Loading**: every line of the file is entered, in the filter and in the backup. -/
theorem load_ok (h : skiIpfilterLoadfileHash lines = some f) :
    f.Ok lines ∧ f.values.entries = f.backup.entries := by
  have hfold : ∀ {g : Ipfilter} {done : List (Option Int)} (rest : List (Option Int)),
      g.Ok done → g.values.entries = g.backup.entries → rest.foldlM loadLine g = some f →
      f.Ok (done ++ rest) ∧ f.values.entries = f.backup.entries := by
    intro g done rest
    induction rest generalizing g done with
    | nil =>
      rintro hok hsame ⟨⟩
      rw [List.append_nil]
      exact ⟨hok, hsame⟩
    | cons line rest ih =>
      intro hok hsame hrun
      rw [List.foldlM_cons] at hrun
      obtain ⟨mid, hmid, hrest⟩ := Option.bind_eq_some_iff.mp hrun
      obtain ⟨hok', hsame'⟩ := loadLine_spec hmid hok hsame
      have h' := ih hok' hsame' hrest
      rwa [List.append_assoc] at h'
  exact hfold lines ⟨Hashed.ok_empty 0, rfl⟩ rfl h

/-- Entering one instruction, if it is not there yet: the list model. -/
theorem addEntry_refines (lines : List (Option Int)) :
    Refines (Ok lines) (fun f => f.values.entries) addEntry eipfilterAddEntry := by
  constructor
  · intro f eip f' hok h
    obtain ⟨⟨values, i⟩, hvalues, rfl⟩ := Option.map_eq_some_iff.mp h
    exact ⟨(hok.values_ok.findOrInsert_ok hvalues).1, hok.backup_eq⟩
  · intro f eip hok
    unfold addEntry eipfilterAddEntry
    rw [← hok.values_ok.map_findOrInsert_id eip maxIpfilterHash, Option.map_map]
    rfl

/-- **Adding** does to the array and the hash what the list model does to the list. -/
theorem addStats_refines (lines : List (Option Int)) :
    Refines (Ok lines) (fun f => f.values.entries) skiEipfilterAddStats Forkall.skiEipfilterAddStats :=
  (addEntry_refines lines).foldlM

/-! ## Sequences of calls -/

/-- A call that changes the filter after it was loaded. -/
inductive Call where
  | restore
  | addStats (instructions : List Int)

def call (f : Ipfilter) : Call → Option Ipfilter
  | .restore => some f.skiIpfilterRestore
  | .addStats instructions => f.skiEipfilterAddStats instructions

/-- **Step lemma**: every call keeps the hash and the array together, and the backup as it was loaded. -/
theorem call_ok {c : Call} (hok : f.Ok lines) (h : f.call c = some f') : f'.Ok lines := by
  cases c with
  | restore =>
    obtain rfl := Option.some.inj h
    exact ⟨(restore_entries f).1, hok.backup_eq⟩
  | addStats instructions => exact (addStats_refines lines).keeps hok h

/-- Two filters with the same entries have the same hash table. -/
theorem table_eq_of_entries {values values' : Hashed Int Int} (hok : values.Ok id) (hok' : values'.Ok id)
    (h : values.entries = values'.entries) : values.table = values'.table := by
  have hused : values.used = values'.used := by
    rw [← Filled.length_entries, h, Filled.length_entries]
  rw [hok, hok', hused]
  refine List.map_congr_left fun i hi => ?_
  have hlt := List.mem_range.mp hi
  have hcell : values.entries[i]? = values'.entries[i]? := by rw [h]
  rw [Filled.getElem?_entries (hused ▸ hlt), Filled.getElem?_entries hlt] at hcell
  rw [Option.some.inj hcell]

end Ipfilter

/-! ## The filter along the log of the parent -/

variable {cfg : Config} {env : Environment} {p q : Parent} {r : Nat} {lines : List (Option Int)}
  {f f₀ : Ipfilter}

/-- The calls that the parent makes for an event: it restores the filter before it forks the first child of an
    input, and adds what a collected child reports. -/
def filterCall (cfg : Config) : Event → Option Ipfilter.Call
  | .forked c => if newInputAt cfg c.round then some .restore else none
  | .merged stats => some (.addStats stats.communicationInstructions)
  | _ => none

/-- The calls so far. -/
def filterCalls (cfg : Config) (log : List Event) : List Ipfilter.Call := log.filterMap (filterCall cfg)

/-- The children that `wait` returned since the latest fork that started a new input. -/
def collectedSince (cfg : Config) (log : List Event) : List Nat :=
  log.foldl (fun collected event =>
    match event with
    | .forked c => if newInputAt cfg c.round then [] else collected
    | .waited c => collected ++ [c.round]
    | _ => collected) []

/-- The addresses of the file, and those reported by the children collected since the latest new input. -/
def Expected (cfg : Config) (env : Environment) (lines : List (Option Int)) (log : List Event) (eip : Int) : Prop :=
  some eip ∈ lines ∨ ∃ j ∈ collectedSince cfg log, eip ∈ (env.result j).communicationInstructions

/-- The stored filter after the calls in the log, and what it holds. -/
structure Stored (cfg : Config) (env : Environment) (lines : List (Option Int)) (f₀ : Ipfilter)
    (log : List Event) (ipfilter : List Int) (f : Ipfilter) : Prop where
  ok : f.Ok lines
  calls_eq : (filterCalls cfg log).foldlM Ipfilter.call f₀ = some f
  entries_eq : f.values.entries = ipfilter
  mem_iff : ∀ eip, eip ∈ ipfilter ↔ Expected cfg env lines log eip

/-- Adding instructions adds exactly them. -/
theorem mem_of_skiEipfilterAddStats {filter filter' instructions : List Int}
    (h : skiEipfilterAddStats filter instructions = some filter') (eip : Int) :
    eip ∈ filter' ↔ eip ∈ filter ∨ eip ∈ instructions := by
  induction instructions generalizing filter with
  | nil =>
    obtain rfl := Option.some.inj h
    simp
  | cons head rest ih =>
    unfold skiEipfilterAddStats at h
    rw [List.foldlM_cons] at h
    obtain ⟨mid, hmid, hrest⟩ := Option.bind_eq_some_iff.mp h
    rw [ih hrest, List.mem_cons]
    unfold eipfilterAddEntry at hmid
    split_ifs at hmid with hin
    · obtain rfl := Option.some.inj hmid
      constructor
      · rintro (hf | hr)
        · exact .inl hf
        · exact .inr (.inr hr)
      · rintro (hf | rfl | hr)
        · exact .inl hf
        · exact .inl hin
        · exact .inr hr
    · obtain rfl := Option.some.inj hmid
      rw [List.mem_append, List.mem_singleton, or_assoc]

/-- The fork of a child. -/
theorem Stored.forked {log : List Event} {ipfilter : List Int} (h : Stored cfg env lines f₀ log ipfilter f)
    (hfile : cfg.ipfilterBackup.map some = lines) (c : Child) :
    ∃ f', Stored cfg env lines f₀ (log ++ [Event.forked c])
      (if newInputAt cfg c.round then cfg.ipfilterBackup else ipfilter) f' := by
  have hcalls : filterCalls cfg (log ++ [Event.forked c])
      = filterCalls cfg log ++ if newInputAt cfg c.round then [Ipfilter.Call.restore] else [] := by
    unfold filterCalls
    rw [List.filterMap_append]
    by_cases hnew : newInputAt cfg c.round = true
    · simp [filterCall, hnew]
    · simp [filterCall, hnew]
  have hsince : collectedSince cfg (log ++ [Event.forked c])
      = if newInputAt cfg c.round then [] else collectedSince cfg log := by
    unfold collectedSince
    rw [List.foldl_append]
    rfl
  by_cases hnew : newInputAt cfg c.round = true
  · -- the filter starts again from the backup
    rw [if_pos hnew]
    rw [if_pos hnew] at hcalls hsince
    obtain ⟨hvalues, hentries⟩ := f.restore_entries
    have hbackup : f.backup.entries = cfg.ipfilterBackup := by
      refine List.map_injective_iff.mpr (Option.some_injective Int) ?_
      rw [h.ok.backup_eq, hfile]
    refine ⟨f.skiIpfilterRestore, ⟨hvalues, h.ok.backup_eq⟩, ?_, hentries.trans hbackup, fun eip => ?_⟩
    · rw [hcalls, List.foldlM_append, h.calls_eq]
      rfl
    · unfold Expected
      rw [hsince, ← hfile]
      simp
  · rw [if_neg hnew]
    rw [if_neg hnew] at hcalls hsince
    rw [List.append_nil] at hcalls
    refine ⟨f, h.ok, hcalls ▸ h.calls_eq, h.entries_eq, fun eip => ?_⟩
    unfold Expected
    rw [hsince]
    exact h.mem_iff eip

/-- The collection of a child. -/
theorem Stored.collected {log : List Event} {ipfilter filter : List Int}
    (h : Stored cfg env lines f₀ log ipfilter f) {d : Child} {stats : SkiStats}
    (hstats : stats.communicationInstructions = (env.result d.round).communicationInstructions)
    (hadd : skiEipfilterAddStats ipfilter (env.result d.round).communicationInstructions = some filter) :
    ∃ f', Stored cfg env lines f₀ (log ++ [Event.waited d, .merged stats, .printed stats, .reset d.slot])
      filter f' := by
  have hsince : collectedSince cfg (log ++ [Event.waited d, .merged stats, .printed stats, .reset d.slot])
      = collectedSince cfg log ++ [d.round] := by
    unfold collectedSince
    rw [List.foldl_append]
    rfl
  have hcalls : filterCalls cfg (log ++ [Event.waited d, .merged stats, .printed stats, .reset d.slot])
      = filterCalls cfg log ++ [Ipfilter.Call.addStats (env.result d.round).communicationInstructions] := by
    unfold filterCalls
    rw [List.filterMap_append, ← hstats]
    rfl
  have hrefines := (Ipfilter.addStats_refines lines).view_eq (env.result d.round).communicationInstructions h.ok
  rw [h.entries_eq, hadd] at hrefines
  obtain ⟨f', hf', hentries⟩ := Option.map_eq_some_iff.mp hrefines
  refine ⟨f', (Ipfilter.addStats_refines lines).keeps h.ok hf', ?_, hentries, fun eip => ?_⟩
  · rw [hcalls, List.foldlM_append, h.calls_eq]
    show ([Ipfilter.Call.addStats _].foldlM Ipfilter.call f) = _
    rw [List.foldlM_cons]
    show (f.skiEipfilterAddStats _ >>= _) = _
    rw [hf']
    rfl
  · rw [mem_of_skiEipfilterAddStats hadd, h.mem_iff]
    unfold Expected
    rw [hsince]
    simp only [List.mem_append, List.mem_singleton, or_assoc]
    refine or_congr_right ?_
    constructor
    · rintro (⟨j, hj, hmem⟩ | hmem)
      · exact ⟨j, .inl hj, hmem⟩
      · exact ⟨d.round, .inr rfl, hmem⟩
    · rintro ⟨j, hj | rfl, hmem⟩
      · exact .inl ⟨j, hj, hmem⟩
      · exact .inr hmem

/-- The filter after the fork that `ForkedFrom` describes. -/
theorem ForkedFrom.stored (h : RoundInv cfg env r p) {input : InputState} {newInput : Bool} {c : Child}
    (hf : ForkedFrom cfg env p input newInput c q) (hfile : cfg.ipfilterBackup.map some = lines)
    (hs : Stored cfg env lines f₀ p.log p.ipfilter f) :
    ∃ f', Stored cfg env lines f₀ q.log q.ipfilter f' := by
  have hnew : newInputAt cfg c.round = newInput := by
    rw [hf.child_round, h.round_eq]
    exact h.newInputAt_eq hf
  have hfilter : q.ipfilter = if newInputAt cfg c.round then cfg.ipfilterBackup else p.ipfilter := by
    have hsettings := congrArg Prod.fst hf.child_settings
    rw [hf.ipfilter_eq, hnew]
    refine hsettings.trans ?_
    cases newInput <;> rfl
  rw [hf.log_eq, hfilter]
  exact hs.forked hfile c

section Run
variable (hc : 0 < cfg.concurrency) (hpids : PidsDistinct cfg env)
  (hload : Ipfilter.skiIpfilterLoadfileHash lines = some f₀) (hfile : cfg.ipfilterBackup.map some = lines)
include hc hpids hload hfile

/-- **Run lemma**: the stored filter whenever the parent is at the label. -/
theorem parentAt_stored (hp : parentAt cfg env r = .ok p) : ∃ f, Stored cfg env lines f₀ p.log p.ipfilter f := by
  induction r generalizing p with
  | zero =>
    obtain rfl := Except.ok.inj hp
    obtain ⟨hok, hsame⟩ := Ipfilter.load_ok hload
    refine ⟨f₀, hok, rfl, ?_, fun eip => ?_⟩
    · refine List.map_injective_iff.mpr (Option.some_injective Int) ?_
      rw [hsame, hok.backup_eq]
      exact hfile.symm
    · show eip ∈ cfg.ipfilterBackup ↔ _
      unfold Expected
      rw [← hfile]
      simp [Parent.initial, collectedSince]
  | succ r ih =>
    obtain ⟨p₀, hp₀, hround⟩ := exists_of_bind_eq_ok hp
    obtain ⟨f₁, hs₁⟩ := ih hp₀
    have hinv : RoundInv cfg env r p₀ := parentAt_roundInv hc (fun r p hp _ => hpids r p hp) hp₀
    obtain ⟨-, input, newInput, c, q, hf, hlearn, hlog⟩ := hinv.step (hpids r p₀ hp₀) hround
    obtain ⟨f₂, hs₂⟩ := ForkedFrom.stored hinv hf hfile hs₁
    cases hcoll : Pool.collected cfg.concurrency env.pick r with
    | none =>
      rw [hcoll] at hlearn hlog
      have hfilter : q.ipfilter = p.ipfilter := congrArg Prod.fst (Option.some.inj hlearn)
      rw [hlog, ← hfilter]
      exact ⟨f₂, hs₂⟩
    | some j =>
      rw [hcoll] at hlearn hlog
      obtain ⟨d, rfl, hlog⟩ := hlog
      obtain ⟨filter, hadd, heq⟩ := Option.map_eq_some_iff.mp hlearn
      have hfilter : filter = p.ipfilter := congrArg Prod.fst heq
      rw [hlog, ← hfilter]
      exact hs₂.collected rfl hadd

end Run

/-- A parent without slots forks no child. -/
theorem concurrency_pos_of_forkallDoFork (hq : forkallDoFork cfg env p = .ok q) : 0 < cfg.concurrency := by
  obtain ⟨p₁, hset, -⟩ := exists_of_bind_eq_ok hq
  unfold skiStatsSetSelfSlot at hset
  split_ifs at hset with hslot
  exact Nat.zero_lt_of_lt hslot.1

/-- **The ip filter at a fork.** Whatever the number of slots and the order in which the children end: the
    stored filter after the calls made so far is handed to the child, and an address is in it if and only if the
    file has it or a child collected since the latest new input reported it. After every sequence of calls the
    hash and the array hold the same entries, and restoring brings back the hash and the array as they were
    loaded. -/
theorem filter_at_fork (hpids : PidsDistinct cfg env)
    (hload : Ipfilter.skiIpfilterLoadfileHash lines = some f₀) (hfile : cfg.ipfilterBackup.map some = lines)
    (hp : parentAt cfg env r = .ok p) (hq : forkallDoFork cfg env p = .ok q) :
    (∃ f c, (filterCalls cfg q.log).foldlM Ipfilter.call f₀ = some f ∧
      q.live.getLast? = some c ∧ c.round = r ∧ c.ipfilter = f.values.entries ∧
      ∀ eip, (f.values.find? id eip).isSome = true ↔ Expected cfg env lines q.log eip) ∧
    ∀ (calls : List Ipfilter.Call) f, calls.foldlM Ipfilter.call f₀ = some f →
      f.values.Ok id ∧ f.skiIpfilterRestore.values.table = f₀.values.table ∧
      f.skiIpfilterRestore.values.entries = f₀.values.entries := by
  have hc := concurrency_pos_of_forkallDoFork hq
  constructor
  · have hinv : RoundInv cfg env r p := parentAt_roundInv hc (fun r p hp _ => hpids r p hp) hp
    obtain ⟨f₁, hs₁⟩ := parentAt_stored hc hpids hload hfile hp
    obtain ⟨input, newInput, hin⟩ := forkInit_of_forkallDoFork hq
    obtain ⟨c, q', hok, hf⟩ := forkallDoFork_eq env hinv.next_lt (hinv.owned.slot_self _) hin
    obtain rfl : q' = q := Except.ok.inj (hok.symm.trans hq)
    obtain ⟨f, hs⟩ := ForkedFrom.stored hinv hf hfile hs₁
    have hlive : q'.live = p.live ++ [c] := hf.live_eq
    refine ⟨f, c, hs.calls_eq, ?_, hf.child_round.trans hinv.round_eq, ?_, fun eip => ?_⟩
    · rw [hlive, List.getLast?_concat]
    · rw [hs.entries_eq, hf.ipfilter_eq]
    · rw [hs.ok.values_ok.isSome_find?_iff]
      refine Iff.trans ?_ (hs.mem_iff eip)
      rw [hs.entries_eq]
      simp
  · intro calls f hcalls
    obtain ⟨hok₀, hsame⟩ := Ipfilter.load_ok hload
    have hok : f.Ok lines := foldlM_keeps Ipfilter.call_ok hok₀ hcalls
    obtain ⟨hvalues, hentries⟩ := f.restore_entries
    have hbackup : f.backup.entries = f₀.values.entries := by
      refine List.map_injective_iff.mpr (Option.some_injective Int) ?_
      rw [hok.backup_eq, hsame, hok₀.backup_eq]
    exact ⟨hok.values_ok, Ipfilter.table_eq_of_entries hvalues hok₀.values_ok (hentries.trans hbackup),
      hentries.trans hbackup⟩

/-- Two slots, a file with one address, and a first child that reports another one. -/
def filteredConfig : Config := { quietConfig 2 8 with ipfilterBackup := [4096] }

def reportingEnv : Environment :=
  { secondFirst with result := fun j => if j = 0 then ⟨[49152, 4096], 50⟩ else ⟨[], 0⟩ }

/-- The fourth child has the address of the file and the one that the first child reported. -/
theorem filter_at_fork_fourth :
    ∃ p q f₀ f, parentAt filteredConfig reportingEnv 3 = .ok p ∧ forkallDoFork filteredConfig reportingEnv p = .ok q ∧
      (filterCalls filteredConfig q.log).foldlM Ipfilter.call f₀ = some f ∧
      f₀.values.entries = [4096] ∧ f.values.entries = [4096, 49152] ∧ f.skiIpfilterRestore.values.entries = [4096] ∧
      (f.values.find? id 49152).isSome = true ∧ Expected filteredConfig reportingEnv [some 4096] q.log 49152 := by
  obtain ⟨p, hp⟩ : ∃ p, parentAt filteredConfig reportingEnv 3 = .ok p := ⟨_, rfl⟩
  obtain ⟨q, hq⟩ : ∃ q, forkallDoFork filteredConfig reportingEnv p = .ok q := by
    cases hp
    exact ⟨_, rfl⟩
  obtain ⟨f₀, hload⟩ : ∃ f₀, Ipfilter.skiIpfilterLoadfileHash [some 4096] = some f₀ := ⟨_, rfl⟩
  obtain ⟨⟨f, c, hcalls, hlast, -, hchild, hmem⟩, hall⟩ :=
    filter_at_fork (pidsDistinct_of_counting (by decide) fun _ => rfl) hload rfl hp hq
  obtain ⟨-, -, hrestore⟩ := hall _ f hcalls
  have hloaded : f₀.values.entries = [4096] := by
    cases hload
    rfl
  have hc : c.ipfilter = [4096, 49152] := by
    cases hp
    cases hq
    cases hlast
    rfl
  have hexp : Expected filteredConfig reportingEnv [some 4096] q.log 49152 := by
    cases hp
    cases hq
    exact .inr ⟨0, by decide, by decide⟩
  exact ⟨p, q, f₀, f, hp, hq, hcalls, hloaded, hchild.symm.trans hc, hrestore.trans hloaded, (hmem 49152).mpr hexp,
    hexp⟩

end SkiVmm.Forkall
