import SkiVmm.Lib.Stack
import SkiVmm.Lib.Table
import SkiVmm.Sched.Threads

/-!
# `Sched.Handlers` — interrupt threads and interrupt stacks

An abstract machine for the handling of interrupts. Its state says which threads exist and in which state, and
what is on the interrupt stack of each CPU; priorities, waiting and everything else is left out. A step spawns a
thread for a request, dispatches a thread that waits for its trigger, enters or leaves a handler, or does nothing
(`HandlerStep`).

The invariant `Handlers.Ok` holds after any steps: the stacks are stacks, and on each CPU and for each vector
there are as many threads in a handler as hardware entries on the stack.
-/

namespace SkiVmm.Sched

open Lib

/-! ## States -/

/-- What a thread is, and whether and how it takes part. -/
structure Shape where
  id : Nat
  cpuNo : Nat
  isInt : Bool
  intNo : Int
  reentryNo : Int
  present : Bool
  state : TcState

/-- The interrupt stack of a CPU. -/
structure Frames where
  stack : List SkiInterrupt
  no : Nat

structure Handlers where
  shapes : List Shape
  frames : List Frames

/-- The stack of a CPU that does not exist is empty. -/
def Handlers.frame (h : Handlers) (c : Nat) : Frames :=
  h.frames.getD c { stack := List.replicate maxInterruptsStack .zero, no := 0 }

/-- A hardware entry of the vector. -/
def hwOf (v : Int) (si : SkiInterrupt) : Bool := si.isHwEntry && si.intNo = v

/-- The entry that a dispatched interrupt makes. -/
def hwEntry (v : Int) : SkiInterrupt := { present := true, intNo := v, isIntInstruction := false, isHw := true }

/-- A thread inside of the handler of the vector on the CPU. -/
def inHandler (c : Nat) (v : Int) (sh : Shape) : Bool :=
  sh.isInt && sh.present && sh.state = .runnable && sh.cpuNo = c && sh.intNo = v

/-- A thread that was requested on the CPU for the vector and waits for its trigger. -/
def awaitsTrigger (c : Nat) (v : Int) (sh : Shape) : Bool :=
  sh.isInt && sh.present && sh.state = .needsTrigger && sh.cpuNo = c && sh.intNo = v

/-! ## Steps -/

/-- The steps that the results on nesting distinguish. -/
inductive Label where
  | spawn (c : Nat) (v : Int)
  | dispatch (c : Nat) (v : Int)
  | other
  deriving DecidableEq

inductive HandlerStep (h : Handlers) : Label → Handlers → Prop
  | same : HandlerStep h .other h
  /-- A request finds a thread that is free. -/
  | spawn {i : Nat} {sh : Shape} (hi : h.shapes[i]? = some sh) (hint : sh.isInt = true)
      (habsent : sh.present = false) :
      HandlerStep h (.spawn sh.cpuNo sh.intNo)
        { h with shapes := h.shapes.set i { sh with present := true, state := .needsTrigger } }
  /-- An exception or an `int` instruction. -/
  | enter {c : Nat} {si : SkiInterrupt} {stack : List SkiInterrupt} (hc : c < h.frames.length)
      (hsi : si.present = true) (hsoft : si.isHw = false)
      (hfill : fillFirst SkiInterrupt.present si (h.frame c).stack = some stack) :
      HandlerStep h .other
        { h with frames := h.frames.modify c fun fr => { stack := stack, no := fr.no + 1 } }
  /-- The trigger of a thread. -/
  | dispatch {i : Nat} {sh : Shape} {stack : List SkiInterrupt} (hi : h.shapes[i]? = some sh)
      (hwaits : awaitsTrigger sh.cpuNo sh.intNo sh = true)
      (hfill : fillFirst SkiInterrupt.present (hwEntry sh.intNo) (h.frame sh.cpuNo).stack = some stack) :
      HandlerStep h (.dispatch sh.cpuNo sh.intNo)
        { shapes := h.shapes.set i { sh with state := .runnable }
          frames := h.frames.modify sh.cpuNo fun fr => { stack := stack, no := fr.no + 1 } }
  /-- The end of an exception or an `int` instruction. -/
  | leave {c : Nat} {si : SkiInterrupt} (hc : c < h.frames.length) (hno : (h.frame c).no ≠ 0)
      (hsi : (h.frame c).stack[(h.frame c).no - 1]? = some si) (hsoft : si.isHw = false) :
      HandlerStep h .other
        { h with frames := h.frames.modify c fun fr =>
            { stack := fr.stack.modify ((h.frame c).no - 1) fun si => { si with present := false }
              no := (h.frame c).no - 1 } }
  /-- The end of an interrupt handler: some thread of its vector leaves. -/
  | finish {i c : Nat} {sh : Shape} {si : SkiInterrupt} {state : TcState} (hi : h.shapes[i]? = some sh)
      (hno : (h.frame c).no ≠ 0) (hsi : (h.frame c).stack[(h.frame c).no - 1]? = some si) (hhw : si.isHw = true)
      (hin : inHandler c si.intNo sh = true) (hstate : state = .na ∨ state = .countZero) :
      HandlerStep h .other
        { shapes := h.shapes.set i { sh with present := false, state := state }
          frames := h.frames.modify c fun fr =>
            { stack := fr.stack.modify ((h.frame c).no - 1) fun si => { si with present := false }
              no := (h.frame c).no - 1 } }

/-! ## The invariant -/

/-- The table of threads on `n` CPUs. -/
structure ShapesOk (shapes : List Shape) (n : Nat) : Prop where
  id_eq : ∀ (i : Nat) (sh : Shape), shapes[i]? = some sh → sh.id = i
  cpu_lt : ∀ sh ∈ shapes, sh.cpuNo < n
  /-- An interrupt thread exists while it waits for its trigger or is in its handler. -/
  present_iff : ∀ sh ∈ shapes, sh.isInt = true →
    (sh.present = true ↔ sh.state = .runnable ∨ sh.state = .needsTrigger)
  reentry_eq : ∀ sh ∈ shapes, sh.reentryNo = 0

/-- The cells of an interrupt stack hold the entries `fs`, bottom first. -/
structure FramesOk (fr : Frames) (fs : List SkiInterrupt) : Prop where
  isStack : IsStack SkiInterrupt.present fr.stack fs
  length_eq : fs.length = fr.no
  hw_entry : ∀ si ∈ fs, si.isHw = true → si.isIntInstruction = false

/-- **The invariant of interrupt handling.** -/
structure Handlers.Ok (h : Handlers) : Prop where
  shapes_ok : ShapesOk h.shapes h.frames.length
  frames_ok : ∀ c, ∃ fs, FramesOk (h.frame c) fs
  matched : ∀ c v, (h.frame c).stack.countP (hwOf v) = h.shapes.countP (inHandler c v)

/-! ### The table -/

theorem ShapesOk.set {shapes : List Shape} {n i : Nat} {sh sh' : Shape} (h : ShapesOk shapes n)
    (hi : shapes[i]? = some sh) (hid : sh'.id = sh.id) (hcpu : sh'.cpuNo = sh.cpuNo)
    (hreentry : sh'.reentryNo = sh.reentryNo)
    (hpresent : sh'.present = true ↔ sh'.state = .runnable ∨ sh'.state = .needsTrigger) :
    ShapesOk (shapes.set i sh') n := by
  have hmem : sh ∈ shapes := List.mem_of_getElem? hi
  refine ⟨?_, ?_, ?_, ?_⟩
  · intro j x hj
    rw [List.getElem?_set] at hj
    split_ifs at hj with heq hlt
    · obtain rfl := Option.some.inj hj
      rw [hid, h.id_eq i sh hi, heq]
    · exact h.id_eq j x hj
  all_goals
    intro x hx
    rcases List.mem_or_eq_of_mem_set hx with hx | rfl
  · exact h.cpu_lt x hx
  · rw [hcpu]
    exact h.cpu_lt sh hmem
  · exact h.present_iff x hx
  · exact fun _ => hpresent
  · exact h.reentry_eq x hx
  · rw [hreentry]
    exact h.reentry_eq sh hmem

/-! ### The stacks -/

theorem FramesOk.countP_eq {fr : Frames} {fs : List SkiInterrupt} (h : FramesOk fr fs) (v : Int) :
    fr.stack.countP (hwOf v) = fs.countP (hwOf v) := by
  refine h.isStack.countP_eq ?_
  intro si hsi
  unfold hwOf SkiInterrupt.isHwEntry at hsi
  simp only [Bool.and_eq_true] at hsi
  exact hsi.1.1.1

theorem FramesOk.push {fr : Frames} {fs stack : List SkiInterrupt} {si : SkiInterrupt} (h : FramesOk fr fs)
    (hsi : si.present = true) (hhw : si.isHw = true → si.isIntInstruction = false)
    (hfill : fillFirst SkiInterrupt.present si fr.stack = some stack) :
    FramesOk { stack := stack, no := fr.no + 1 } (fs ++ [si]) := by
  refine ⟨h.isStack.fillFirst hsi hfill, by simp [h.length_eq], ?_⟩
  intro si' hsi'
  rcases List.mem_append.mp hsi' with hmem | hmem
  · exact h.hw_entry si' hmem
  · rw [List.mem_singleton.mp hmem]
    exact hhw

theorem FramesOk.exists_top {fr : Frames} {fs : List SkiInterrupt} (h : FramesOk fr fs) (hno : fr.no ≠ 0) :
    ∃ si, fr.stack[fr.no - 1]? = some si := by
  obtain ⟨rest, hsplit, -⟩ := h.isStack.split
  have hlt : fr.no - 1 < fr.stack.length := by
    rw [hsplit, List.length_append, h.length_eq]
    omega
  exact ⟨_, List.getElem?_eq_getElem hlt⟩

theorem FramesOk.pop {fr : Frames} {fs : List SkiInterrupt} {si : SkiInterrupt} (h : FramesOk fr fs)
    (hno : fr.no ≠ 0) (hsi : fr.stack[fr.no - 1]? = some si) :
    ∃ fs', fs = fs' ++ [si] ∧
      FramesOk { stack := fr.stack.modify (fr.no - 1) fun si => { si with present := false }, no := fr.no - 1 }
        fs' := by
  obtain ⟨hstack, hlen, hentry⟩ := h
  have hne : fs ≠ [] := by
    rintro rfl
    exact hno hlen.symm
  obtain ⟨fs', x, rfl⟩ := (List.eq_nil_or_concat' fs).resolve_left hne
  have hno' : fr.no - 1 = fs'.length := by
    rw [← hlen]
    simp
  rw [hno', hstack.getElem?_top] at hsi
  obtain rfl := Option.some.inj hsi
  refine ⟨fs', rfl, ?_, hno'.symm, fun si' h => hentry si' (List.mem_append_left _ h)⟩
  rw [hno']
  exact hstack.pop rfl

theorem hwOf_hwEntry (v w : Int) : hwOf w (hwEntry v) = decide (v = w) := rfl

theorem hwOf_soft {si : SkiInterrupt} (h : si.isHw = false) (v : Int) : hwOf v si = false := by
  simp [hwOf, SkiInterrupt.isHwEntry, h]

theorem frame_modify {h : Handlers} {c : Nat} (hc : c < h.frames.length) (f : Frames → Frames)
    (shapes : List Shape) (c' : Nat) :
    Handlers.frame { shapes := shapes, frames := h.frames.modify c f } c'
      = if c = c' then f (h.frame c') else h.frame c' := by
  unfold Handlers.frame
  exact getD_modify_of_lt hc f c' _

/-! ### Steps keep it -/

/-- The table and one stack change: what is left to show. -/
theorem Handlers.Ok.update {h : Handlers} (hok : h.Ok) {c : Nat} (hc : c < h.frames.length)
    {f : Frames → Frames} {shapes : List Shape} {fs : List SkiInterrupt} (hshapes : ShapesOk shapes h.frames.length)
    (hframes : FramesOk (f (h.frame c)) fs)
    (hmatched : ∀ v, fs.countP (hwOf v) = shapes.countP (inHandler c v))
    (hothers : ∀ c' v, c ≠ c' → shapes.countP (inHandler c' v) = h.shapes.countP (inHandler c' v)) :
    Handlers.Ok { shapes := shapes, frames := h.frames.modify c f } := by
  refine ⟨by simpa using hshapes, ?_, ?_⟩
  · intro c'
    rw [frame_modify hc]
    split_ifs with heq
    · subst heq
      exact ⟨fs, hframes⟩
    · exact hok.frames_ok c'
  · intro c' v
    rw [frame_modify hc]
    split_ifs with heq
    · subst heq
      rw [hframes.countP_eq, hmatched]
    · rw [hok.matched, hothers c' v heq]

/-- The threads in handlers of the other CPUs. -/
theorem countP_inHandler_set {shapes : List Shape} {i c : Nat} {sh : Shape} (hi : shapes[i]? = some sh)
    (sh' : Shape) (hcpu : sh'.cpuNo = sh.cpuNo) (hne : sh.cpuNo ≠ c) (v : Int) :
    (shapes.set i sh').countP (inHandler c v) = shapes.countP (inHandler c v) := by
  have hcount := countP_set_add (p := inHandler c v) hi sh'
  simpa [inHandler, hcpu, hne] using hcount

/-- A stack that loses or gets an entry that is not of the hardware stays matched. -/
theorem Handlers.Ok.update_soft {h : Handlers} (hok : h.Ok) {c : Nat} (hc : c < h.frames.length)
    {f : Frames → Frames} {fs fs' : List SkiInterrupt} (hfs : FramesOk (h.frame c) fs)
    (hfs' : FramesOk (f (h.frame c)) fs') (hsame : ∀ v, fs'.countP (hwOf v) = fs.countP (hwOf v)) :
    Handlers.Ok { h with frames := h.frames.modify c f } := by
  refine hok.update hc hok.shapes_ok hfs' ?_ (fun _ _ _ => rfl)
  intro v
  rw [hsame, ← hfs.countP_eq, hok.matched]

/-- **Steps keep the invariant.** -/
theorem HandlerStep.ok {h h' : Handlers} {l : Label} (hstep : HandlerStep h l h') (hok : h.Ok) : h'.Ok := by
  cases hstep with
  | same => exact hok
  | @spawn i sh hi hint habsent =>
    refine ⟨hok.shapes_ok.set hi rfl rfl rfl (by simp), hok.frames_ok, ?_⟩
    intro c v
    have hcount := countP_set_add (p := inHandler c v) hi { sh with present := true, state := .needsTrigger }
    refine (hok.matched c v).trans ?_
    simpa [inHandler, habsent] using hcount.symm
  | @enter c si stack hc hsi hsoft hfill =>
    obtain ⟨fs, hfs⟩ := hok.frames_ok c
    refine hok.update_soft hc hfs (hfs.push hsi (by simp [hsoft]) hfill) ?_
    intro v
    simp [List.countP_append, hwOf_soft hsoft]
  | @leave c si hc hno hsi hsoft =>
    obtain ⟨fs, hfs⟩ := hok.frames_ok c
    obtain ⟨fs', rfl, hfs'⟩ := hfs.pop hno hsi
    refine hok.update_soft hc hfs hfs' ?_
    intro v
    simp [List.countP_append, hwOf_soft hsoft]
  | @dispatch i sh stack hi hwaits hfill =>
    obtain ⟨fs, hfs⟩ := hok.frames_ok sh.cpuNo
    have hmem : sh ∈ h.shapes := List.mem_of_getElem? hi
    simp only [awaitsTrigger, Bool.and_eq_true, decide_eq_true_eq] at hwaits
    refine hok.update (hok.shapes_ok.cpu_lt sh hmem) (hok.shapes_ok.set hi rfl rfl rfl (by simp [hwaits]))
      (hfs.push rfl (fun _ => rfl) hfill) ?_ ?_
    · intro v
      have hcount := countP_set_add (p := inHandler sh.cpuNo v) hi { sh with state := .runnable }
      have hmatched := hok.matched sh.cpuNo v
      rw [hfs.countP_eq] at hmatched
      simp only [List.countP_append, List.countP_cons, List.countP_nil, hwOf_hwEntry, hmatched]
      simpa [inHandler, hwaits] using hcount.symm
    · intro c v hne
      apply countP_inHandler_set hi
      · rfl
      · exact hne
  | @finish i c sh si state hi hno hsi hhw hin hstate =>
    obtain ⟨fs, hfs⟩ := hok.frames_ok c
    obtain ⟨fs', rfl, hfs'⟩ := hfs.pop hno hsi
    have hentry : si.isIntInstruction = false := hfs.hw_entry si (by simp) hhw
    have hpresent : si.present = true := hfs.isStack.used_frames si (by simp)
    have hmem : sh ∈ h.shapes := List.mem_of_getElem? hi
    simp only [inHandler, Bool.and_eq_true, decide_eq_true_eq] at hin
    obtain ⟨⟨hrunning, hcpu⟩, hint⟩ := hin
    have hc : c < h.frames.length := hcpu ▸ hok.shapes_ok.cpu_lt sh hmem
    refine hok.update hc (hok.shapes_ok.set hi rfl rfl rfl ?_) hfs' ?_ ?_
    · rcases hstate with rfl | rfl <;> simp
    · intro v
      have hcount := countP_set_add (p := inHandler c v) hi { sh with present := false, state := state }
      have hmatched := hok.matched c v
      rw [hfs.countP_eq, List.countP_append, List.countP_singleton] at hmatched
      have hbefore : inHandler c v sh = hwOf v si := by
        simp [inHandler, hwOf, SkiInterrupt.isHwEntry, hrunning, hcpu, hint, hpresent, hhw, hentry]
      rw [← hmatched, hbefore] at hcount
      simpa [inHandler] using hcount.symm
    · intro c' v hne
      apply countP_inHandler_set hi
      · rfl
      · exact hcpu ▸ hne

/-- The stacks keep the number of their cells. -/
theorem HandlerStep.stack_length {h h' : Handlers} {l : Label} (hstep : HandlerStep h l h') (hok : h.Ok) (c : Nat) :
    (h'.frame c).stack.length = (h.frame c).stack.length := by
  cases hstep with
  | same | spawn => rfl
  | enter hc _ _ hfill =>
    rw [frame_modify hc]
    split_ifs with heq
    · subst heq
      exact length_fillFirst hfill
    · rfl
  | dispatch hi _ hfill =>
    rw [frame_modify (hok.shapes_ok.cpu_lt _ (List.mem_of_getElem? hi))]
    split_ifs with heq
    · subst heq
      exact length_fillFirst hfill
    · rfl
  | leave hc _ _ _ =>
    rw [frame_modify hc]
    split_ifs
    · exact List.length_modify ..
    · rfl
  | @finish i c' sh si state hi hno hsi hhw hin hstate =>
    have hcpu : sh.cpuNo = c' := by
      simp only [inHandler, Bool.and_eq_true, decide_eq_true_eq] at hin
      exact hin.1.2
    rw [frame_modify (hcpu ▸ hok.shapes_ok.cpu_lt sh (List.mem_of_getElem? hi))]
    split_ifs
    · exact List.length_modify ..
    · rfl

/-! ## Counts

How many threads a step may add, to a handler or to those that wait for it. -/

section Counts
variable {h h' : Handlers} {l : Label}

/-- Only a dispatch brings a thread into a handler. -/
theorem HandlerStep.countP_inHandler_le (hstep : HandlerStep h l h') (c : Nat) (v : Int) :
    h'.shapes.countP (inHandler c v)
      ≤ h.shapes.countP (inHandler c v) + (if l = .dispatch c v then 1 else 0) := by
  cases hstep with
  | same | enter | leave => exact Nat.le_add_right _ _
  | @spawn i sh hi hint habsent =>
    have hcount := countP_set_add (p := inHandler c v) hi { sh with present := true, state := .needsTrigger }
    have hafter : inHandler c v { sh with present := true, state := .needsTrigger } = false := by simp [inHandler]
    rw [hafter] at hcount
    exact Nat.le_trans (Nat.le.intro hcount) (Nat.le_add_right _ _)
  | @dispatch i sh stack hi hwaits hfill =>
    have hcount := countP_set_add (p := inHandler c v) hi { sh with state := .runnable }
    refine Nat.le_trans (Nat.le.intro hcount) (Nat.add_le_add_left ?_ _)
    split_ifs with hin hlabel
    · exact Nat.le_refl 1
    · simp only [inHandler, Bool.and_eq_true, decide_eq_true_eq] at hin
      exact absurd (by rw [hin.1.2, hin.2]) hlabel
    · exact Nat.zero_le _
    · exact Nat.zero_le _
  | @finish i c' sh si state hi hno hsi hhw hin hstate =>
    have hcount := countP_set_add (p := inHandler c v) hi { sh with present := false, state := state }
    have hafter : inHandler c v { sh with present := false, state := state } = false := by simp [inHandler]
    rw [hafter] at hcount
    exact Nat.le_trans (Nat.le.intro hcount) (Nat.le_add_right _ _)

/-- Only a request makes one more thread wait for its trigger, and a dispatch takes one of them away. -/
theorem HandlerStep.countP_awaitsTrigger_le (hstep : HandlerStep h l h') (c : Nat) (v : Int) :
    h'.shapes.countP (awaitsTrigger c v) + (if l = .dispatch c v then 1 else 0)
      ≤ h.shapes.countP (awaitsTrigger c v) + (if l = .spawn c v then 1 else 0) := by
  cases hstep with
  | same | enter | leave => exact Nat.le_refl _
  | @spawn i sh hi hint habsent =>
    have hcount := countP_set_add (p := awaitsTrigger c v) hi { sh with present := true, state := .needsTrigger }
    refine Nat.le_trans (Nat.le.intro hcount) (Nat.add_le_add_left ?_ _)
    split_ifs with hin hlabel
    · exact Nat.le_refl 1
    · simp only [awaitsTrigger, Bool.and_eq_true, decide_eq_true_eq] at hin
      exact absurd (by rw [hin.1.2, hin.2]) hlabel
    · exact Nat.zero_le _
    · exact Nat.zero_le _
  | @dispatch i sh stack hi hwaits hfill =>
    have hcount := countP_set_add (p := awaitsTrigger c v) hi { sh with state := .runnable }
    have hafter : awaitsTrigger c v { sh with state := .runnable } = false := by simp [awaitsTrigger]
    have hbefore : (if Label.dispatch sh.cpuNo sh.intNo = .dispatch c v then 1 else 0)
        ≤ (if awaitsTrigger c v sh then 1 else 0) := by
      split_ifs with hlabel hin
      · exact Nat.le_refl 1
      · obtain ⟨rfl, rfl⟩ := Label.dispatch.inj hlabel
        exact absurd hwaits hin
      · exact Nat.zero_le _
      · exact Nat.zero_le _
    rw [hafter] at hcount
    exact Nat.le_trans (Nat.add_le_add_left hbefore _) (Nat.le_of_eq hcount)
  | @finish i c' sh si state hi hno hsi hhw hin hstate =>
    have hcount := countP_set_add (p := awaitsTrigger c v) hi { sh with present := false, state := state }
    have hafter : awaitsTrigger c v { sh with present := false, state := state } = false := by simp [awaitsTrigger]
    rw [hafter] at hcount
    exact Nat.le.intro hcount

end Counts

end SkiVmm.Sched
