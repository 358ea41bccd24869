import SkiVmm.Priorities.Format
import SkiVmm.Sched.Spawning

/-!
# `Priorities.Participants` — the priorities file and the CPUs of the test

The file is the same for every test, whichever CPUs enter it, and the parser does not look at them. A group with
`int{-1}` makes a thread for each CPU that it lists. `selected_takes_part_iff` says what this means for the
selection: it always finds a CPU that can run if and only if all these CPUs take part in the test.

The VM may also lack a CPU of the file. `find_cpu` then fails as soon as the selection comes to its thread.

Nor does the parser look at `n`, how often a thread may be spawned. `requests_served_iff`: a request for an interrupt
fails in some test if and only if the file has an entry for it, on a CPU of the test, without a positive `n`.
-/

namespace SkiVmm.Priorities

open Lib
open Sched

/-- A test on a file that the parser accepts. -/
structure FileTest where
  text : List Char
  seed : Int
  /-- The entries, in the order in which `ski_threads_insert` is called. -/
  plist : List SkiConfigPrioritiesEntry
  parsed : (parseLines text ([], skiConfigPrioritiesRandomInit (seed.tdiv 10))).map Prod.fst = some plist
  accepted : (skiConfigPrioritiesParseFile text seed).isSome = true
  /-- The CPUs of the VM. -/
  cpus : List CpuSetup
  preemptions : List Int
  preemptionMode : PreemptionMode
  preemptions_pos : ∀ p ∈ preemptions, 0 < p
  preemptions_length : preemptions.length < 16

namespace FileTest
variable (test : FileTest)

/-- The CPU of this number exists and has entered the test. -/
def takesPart (cpu : Int) : Bool := 0 ≤ cpu && test.cpus[cpu.toNat]?.any (·.active)

/-- The index of a CPU. One more index stands for the numbers that `find_cpu` does not find. -/
def cpuNo (cpu : Int) : Nat := if 0 ≤ cpu ∧ cpu < test.cpus.length then cpu.toNat else test.cpus.length

def entry (p : SkiConfigPrioritiesEntry) : TableEntry := { cpu := test.cpuNo p.cpu, i := p.i, n := p.n }

/-! ## The scheduler of the test -/

theorem insert_isSome {table : List TableEntry} {threads : List ThreadContext}
    (h : (table.foldlM skiThreadsInsert threads).isSome = true) (hlen : threads.length ≤ maxSkiThreads) :
    (∀ e ∈ table, e.i = -1 ∨ 0 ≤ e.i) ∧ threads.length + table.length ≤ maxSkiThreads := by
  induction table generalizing threads with
  | nil => exact ⟨fun e he => absurd he List.not_mem_nil, hlen⟩
  | cons e table ih =>
    rw [List.foldlM_cons, skiThreadsInsert] at h
    split at h
    · next hok =>
      rw [Option.bind_eq_bind, Option.bind_some] at h
      obtain ⟨hints, hroom⟩ := ih h (by rw [List.length_append]; exact hok.2)
      refine ⟨List.forall_mem_cons.mpr ⟨hok.1, hints⟩, ?_⟩
      rw [List.length_append] at hroom
      rw [List.length_cons]
      simp only [List.length_cons, List.length_nil] at hroom
      omega
    · cases h

/-- What acceptance says about the entries. -/
theorem plist_ok : (∀ p ∈ test.plist, p.i = -1 ∨ 0 ≤ p.i) ∧ test.plist.length ≤ maxSkiThreads := by
  obtain ⟨⟨plist, next⟩, hparse, hplist⟩ := Option.map_eq_some_iff.mp test.parsed
  have haccepted := test.accepted
  unfold skiConfigPrioritiesParseFile at haccepted
  simp only [hparse, Option.bind_eq_bind, Option.bind_some] at haccepted
  obtain ⟨hints, hlen⟩ := insert_isSome haccepted (Nat.zero_le _)
  rw [List.length_nil, List.length_map, Nat.zero_add] at hlen
  rw [← hplist]
  exact ⟨fun p hp => hints p.row (List.mem_map_of_mem hp), hlen⟩

theorem cpuNo_le (cpu : Int) : test.cpuNo cpu ≤ test.cpus.length := by
  unfold cpuNo
  split <;> omega

/-- The setup of the scheduler; the CPU behind those of the VM takes no part. -/
def setup : Setup where
  cpus := test.cpus ++ [{ active := false, nrMaxInstr := 0, irq := Cpu.idle.irq }]
  table := test.plist.map test.entry
  preemptions := test.preemptions
  preemptionMode := test.preemptionMode
  nrCpus := test.cpus.countP (·.active)
  table_cpus := by
    intro e he
    obtain ⟨p, -, rfl⟩ := List.mem_map.mp he
    rw [List.length_append]
    exact Nat.lt_succ_of_le (test.cpuNo_le p.cpu)
  table_ints := by
    intro e he
    obtain ⟨p, hp, rfl⟩ := List.mem_map.mp he
    exact test.plist_ok.1 p hp
  table_length := by
    rw [List.length_map]
    exact test.plist_ok.2
  preemptions_pos := test.preemptions_pos
  preemptions_length := test.preemptions_length

/-- `ski_threads_find_next_runnable`. A thread that exists and does not wait for its read set is looked at with
    `find_cpu`, which asserts that it finds the CPU. -/
def findNextRunnable (s : State) : Except SkiExit ThreadContext :=
  if s.threads.any fun tc => tc.present && !tc.waitsOnRs && tc.cpuNo = test.cpus.length then .error .assertFailed
  else skiThreadsFindNextRunnable s

theorem takesPart_last : test.setup.takesPart test.cpus.length = false := by
  unfold Setup.takesPart setup
  simp

theorem setup_takesPart (cpu : Int) : test.setup.takesPart (test.cpuNo cpu) = test.takesPart cpu := by
  unfold cpuNo
  split
  · next h =>
    unfold Setup.takesPart takesPart setup
    simp only
    rw [List.getElem?_append_left (by omega), decide_eq_true h.1, Bool.true_and]
  · next h =>
    rw [takesPart_last]
    symm
    unfold takesPart
    by_cases hcpu : 0 ≤ cpu
    · rw [List.getElem?_eq_none (by omega), Option.any_none, Bool.and_false]
    · rw [decide_eq_false hcpu, Bool.false_and]

/-- The thread table is the one that the parser makes, where the VM has all the CPUs. -/
theorem setup_threads (hcpus : ∀ p ∈ test.plist, 0 ≤ p.cpu ∧ p.cpu < test.cpus.length) :
    skiConfigPrioritiesParseFile test.text test.seed = some test.setup.threads := by
  have hrows : test.plist.map SkiConfigPrioritiesEntry.row = test.setup.table := by
    refine List.map_congr_left ?_
    intro p hp
    unfold entry cpuNo
    rw [if_pos (hcpus p hp)]
    rfl
  obtain ⟨⟨plist, next⟩, hparse, hplist⟩ := Option.map_eq_some_iff.mp test.parsed
  unfold skiConfigPrioritiesParseFile
  simp only [hparse, Option.bind_eq_bind, Option.bind_some]
  rw [show plist = test.plist from hplist, hrows]
  exact test.setup.threads_eq

/-! ## The property -/

/-- The selection fails for nothing but the lack of a runnable thread, and the thread that it returns is one of a
    CPU in the test, whose poll lets it run. -/
structure Served (s : State) : Prop where
  cpu_found : test.findNextRunnable s ≠ .error .assertFailed
  can_run : ∀ tc, test.findNextRunnable s = .ok tc →
    (s.cpu tc.cpuNo).active = true ∧ ∃ u, skiCpuCanRun s tc.cpuNo = .ok (u, true)

variable {test} {s : State} {tc : ThreadContext}

theorem findNextRunnable_of_takesPart (h : Reachable test.setup s)
    (htable : ∀ e ∈ test.setup.table, e.i = -1 → test.setup.takesPart e.cpu = true) :
    test.findNextRunnable s = skiThreadsFindNextRunnable s := by
  unfold findNextRunnable
  rw [if_neg]
  intro hany
  obtain ⟨tc, htc, hlost⟩ := List.any_eq_true.mp hany
  simp only [Bool.and_eq_true, decide_eq_true_eq] at hlost
  have hin := h.assigned.takesPart_of_present htable htc hlost.1.1
  rw [hlost.2, takesPart_last] at hin
  cases hin

theorem findNextRunnable_ne_assertFailed : skiThreadsFindNextRunnable s ≠ .error .assertFailed := by
  unfold skiThreadsFindNextRunnable
  split
  · nofun
  · split <;> nofun

theorem served_of_takesPart (h : Reachable test.setup s)
    (htable : ∀ e ∈ test.setup.table, e.i = -1 → test.setup.takesPart e.cpu = true) : test.Served s := by
  have hfind := findNextRunnable_of_takesPart h htable
  refine ⟨hfind ▸ findNextRunnable_ne_assertFailed, ?_⟩
  intro tc htc
  exact h.takesPart_of_selected htable (hfind ▸ htc)

/-- A thread of an idle CPU that is selected. -/
theorem not_served (hfind : skiThreadsFindNextRunnable s = .ok tc) (hidle : (s.cpu tc.cpuNo).active = false) :
    ¬ test.Served s := by
  intro h
  have hcpu := h.can_run tc
  have hfound := h.cpu_found
  unfold findNextRunnable at hcpu hfound
  split at hfound
  · exact hfound rfl
  · next hall =>
    rw [if_neg hall] at hcpu
    rw [(hcpu hfind).1] at hidle
    cases hidle

end FileTest

/-- **Which files keep the selection inside of the test**: those in which every CPU with a thread of its own takes
    part. -/
theorem selected_takes_part_iff (test : FileTest) :
    (∀ s, Reachable test.setup s → test.Served s) ↔ ∀ p ∈ test.plist, p.i = -1 → test.takesPart p.cpu = true := by
  constructor
  · intro h p hp hi
    rw [← Bool.not_eq_false]
    intro hidle
    rw [← test.setup_takesPart] at hidle
    have he : test.entry p ∈ test.setup.table := List.mem_map_of_mem hp
    obtain ⟨s, tc, hs, hfind, hactive⟩ := exists_selected_idle he hi hidle
    exact FileTest.not_served hfind hactive (h s hs)
  · intro h s hs
    refine FileTest.served_of_takesPart hs ?_
    intro e he hi
    obtain ⟨p, hp, rfl⟩ := List.mem_map.mp he
    exact (test.setup_takesPart p.cpu).trans (h p hp hi)

/-! ## A file for two CPUs, and a test on one -/

/-- `cpu{1,0};int{-1};1`, the threads of two CPUs. -/
def bothCpus : PrioritiesFile where
  lines :=
    [{ groups := [{ cpus := [.one, .zero], ints := [.minusOne], n := .one,
                    cpus_length := by decide, ints_length := by decide, cpus_nonneg := by decide,
                    ints_ge := by decide }],
       final := false, length_le := by decide }]
  finalNewline := true
  entries_le := by decide

theorem parseLines_bothCpus (next : Nat) :
    (parseLines bothCpus.text ([], next)).map Prod.fst = some [⟨1, -1, 1⟩, ⟨0, -1, 1⟩] := by
  obtain ⟨blocks, next', hparse, hblocks⟩ := foldlM_parseline bothCpus.lines [] next (by decide)
  rcases hblocks with _ | ⟨⟨-, hplain⟩, ⟨⟩⟩
  rw [bothCpus.parseLines_text, hparse, hplain (by decide)]
  rfl

/-- Only CPU 0 enters the test. -/
def oneOfTwo : FileTest where
  text := bothCpus.text
  seed := 70
  plist := [⟨1, -1, 1⟩, ⟨0, -1, 1⟩]
  parsed := parseLines_bothCpus _
  accepted := bothCpus.accepted 70
  cpus := [{ active := true, nrMaxInstr := 0, irq := Cpu.idle.irq },
    { active := false, nrMaxInstr := 0, irq := Cpu.idle.irq }]
  preemptions := []
  preemptionMode := .all
  preemptions_pos := noPoints_pos
  preemptions_length := noPoints_length

/-- The first selection of the test: the thread is the one of CPU 1, which is stopped, and the poll of CPU 0 is
    refused. -/
theorem idle_cpu_selected :
    oneOfTwo.text = "cpu\x7b1,0\x7d;int\x7b-1\x7d;1\n".toList ∧
      ∃ s tc u, Reachable oneOfTwo.setup s ∧ oneOfTwo.findNextRunnable s = .ok tc ∧
        (s.cpu tc.cpuNo).active = false ∧ (s.cpu 0).active = true ∧ skiCpuCanRun s 0 = .ok (u, false) := by
  obtain ⟨tc, hfind, htc⟩ := exists_of_toOption_any (x := oneOfTwo.findNextRunnable oneOfTwo.setup.start)
    (p := fun tc => !(oneOfTwo.setup.start.cpu tc.cpuNo).active) (by decide)
  obtain ⟨⟨u, res⟩, hpoll, hres⟩ := exists_of_toOption_any (x := skiCpuCanRun oneOfTwo.setup.start 0)
    (p := fun r => !r.2) (by decide)
  refine ⟨by decide, oneOfTwo.setup.start, tc, u, ⟨[], .nil _⟩, hfind, ?_, by decide, ?_⟩
  · exact (Bool.not_eq_true' _).mp htc
  · rw [hpoll, show res = false from (Bool.not_eq_true' _).mp hres]

/-! ## Counts -/

/-- **Which files keep requests from failing**: those in which every interrupt of a CPU in the test has a count. -/
theorem requests_served_iff (test : FileTest) :
    test.setup.RequestsServed ↔
      ∀ p ∈ test.plist, 0 ≤ p.i → p.i < 256 → test.takesPart p.cpu = true → 0 < p.n := by
  rw [Setup.requestsServed_iff]
  constructor
  · intro h p hp hi hlt hcpu
    exact h (test.entry p) (List.mem_map_of_mem hp) hi hlt ((test.setup_takesPart p.cpu).trans hcpu)
  · intro h e he hi hlt hcpu
    obtain ⟨p, hp, rfl⟩ := List.mem_map.mp he
    exact h p hp hi hlt ((test.setup_takesPart p.cpu).symm.trans hcpu)

/-- `cpu{0};int{-1,3};0`, an interrupt that may never be spawned. -/
def neverSpawned : PrioritiesFile where
  lines :=
    [{ groups := [{ cpus := [.zero], ints := [.minusOne, .three], n := .zero,
                    cpus_length := by decide, ints_length := by decide, cpus_nonneg := by decide,
                    ints_ge := by decide }],
       final := false, length_le := by decide }]
  finalNewline := true
  entries_le := by decide

theorem parseLines_neverSpawned (next : Nat) :
    (parseLines neverSpawned.text ([], next)).map Prod.fst = some [⟨0, -1, 0⟩, ⟨0, 3, 0⟩] := by
  obtain ⟨blocks, next', hparse, hblocks⟩ := foldlM_parseline neverSpawned.lines [] next (by decide)
  rcases hblocks with _ | ⟨⟨-, hplain⟩, ⟨⟩⟩
  rw [neverSpawned.parseLines_text, hparse, hplain (by decide)]
  rfl

def neverSpawnedTest : FileTest where
  text := neverSpawned.text
  seed := 70
  plist := [⟨0, -1, 0⟩, ⟨0, 3, 0⟩]
  parsed := parseLines_neverSpawned _
  accepted := neverSpawned.accepted 70
  cpus := [{ active := true, nrMaxInstr := 0, irq := Cpu.idle.irq }]
  preemptions := []
  preemptionMode := .all
  preemptions_pos := noPoints_pos
  preemptions_length := noPoints_length

/-- The first request for the vector ends the process. -/
theorem first_request_fails :
    neverSpawnedTest.text = "cpu\x7b0\x7d;int\x7b-1,3\x7d;0\n".toList ∧
      skiHandleNewIrqSet neverSpawnedTest.setup.start 0 3 = .error .assertFailed ∧
      ¬ neverSpawnedTest.setup.RequestsServed := by
  have hfails : skiHandleNewIrqSet neverSpawnedTest.setup.start 0 3 = .error .assertFailed := by rfl
  refine ⟨by decide, hfails, ?_⟩
  intro h
  exact h [] _ (.nil _) 0 3 (by decide) (by decide) hfails

end SkiVmm.Priorities
