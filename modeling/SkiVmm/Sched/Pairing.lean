import SkiVmm.Sched.Lifecycle
import SkiVmm.Sched.Selection

/-!
# `Sched.Pairing` — which thread leaves when a handler ends

An entry of the interrupt stack does not say for which thread it was pushed. `ski_handle_interrupt_end` searches the
table again, by the priorities of that moment, among the threads that are in a handler of the vector. Here each entry
has an owner, the thread that became RUNNABLE when it was pushed; the owners are read off the states before and after
an event (`track`).

* `retired_is_owner_iff` — the thread that leaves is the owner of the entry that is popped exactly when it comes before
  the owners of all other entries of that vector on the stack, so always when vectors are not nested.
* `retired_other_activation` — two preemptions of nested handlers of one vector make the outer one leave first.
-/

namespace SkiVmm.Sched

open Lib

/-! ## Owners -/

/-- The thread that has become RUNNABLE. -/
def startedThread (h h' : Handlers) : Option Nat :=
  changedAt (fun a b => a.state = .needsTrigger && b.state = .runnable) h.shapes h'.shapes

/-- The thread that has left. -/
def retiredThread (h h' : Handlers) : Option Nat := changedAt (fun a b => a.present && !b.present) h.shapes h'.shapes

/-- The owners of the entries on the interrupt stack of each CPU, the top first. An entry that was not pushed by a
    hardware interrupt has none. -/
abbrev Owners := Nat → List (Option Nat)

/-- The owners after a step: a new entry belongs to the thread that became RUNNABLE with it. -/
def track (h h' : Handlers) (owners : Owners) : Owners := fun c =>
  if (h.frame c).no < (h'.frame c).no then startedThread h h' :: owners c
  else if (h'.frame c).no < (h.frame c).no then (owners c).tail
  else owners c

/-- The owner of an entry on the CPU is in a handler of its vector. -/
inductive Owns (shapes : List Shape) (c : Nat) (si : SkiInterrupt) : Option Nat → Prop
  | none (hsoft : si.isHw = false) : Owns shapes c si none
  | some {i : Nat} {sh : Shape} (hhw : si.isHw = true) (hi : shapes[i]? = some sh)
      (hin : inHandler c si.intNo sh = true) : Owns shapes c si (some i)

/-- The threads in handlers on the CPU are the owners of the entries `fs` of its stack, each of one. -/
structure PairedAt (h : Handlers) (c : Nat) (fs : List SkiInterrupt) (os : List (Option Nat)) : Prop where
  frames_ok : FramesOk (h.frame c) fs
  owned : List.Forall₂ (Owns h.shapes c) fs.reverse os
  distinct : ∀ i, os.count (some i) ≤ 1
  complete : ∀ i sh v, h.shapes[i]? = some sh → inHandler c v sh = true → some i ∈ os

def Paired (h : Handlers) (owners : Owners) : Prop := ∀ c, ∃ fs, PairedAt h c fs (owners c)

section Steps
variable {h h' : Handlers} {l : Label} {owners : Owners} {c i : Nat} {si : SkiInterrupt} {sh sh' : Shape}
  {fs : List SkiInterrupt} {os : List (Option Nat)}

/-- An owner is in a handler on its CPU. -/
theorem PairedAt.inHandler_of_mem (hp : PairedAt h c fs os) (hi : some i ∈ os) :
    ∃ sh v, h.shapes[i]? = some sh ∧ inHandler c v sh = true := by
  obtain ⟨si, -, howns⟩ := exists_of_forall₂ hp.owned hi
  cases howns with
  | some _ hi hin => exact ⟨_, _, hi, hin⟩

theorem PairedAt.not_mem (hp : PairedAt h c fs os) (hi : h.shapes[i]? = some sh)
    (hout : ∀ v, inHandler c v sh = false) : some i ∉ os := by
  intro hmem
  obtain ⟨sh', v, hi', hin⟩ := hp.inHandler_of_mem hmem
  obtain rfl := Option.some.inj (hi.symm.trans hi')
  rw [hout v] at hin
  cases hin

/-- A thread that owns nothing changes. -/
theorem owned_set {shapes : List Shape} {fs : List SkiInterrupt} (h : List.Forall₂ (Owns shapes c) fs os)
    (hi : some i ∉ os) (sh' : Shape) : List.Forall₂ (Owns (shapes.set i sh') c) fs os := by
  induction h with
  | nil => exact .nil
  | @cons si o fs os howns _ ih =>
    rw [List.mem_cons, not_or] at hi
    obtain ⟨hne, hrest⟩ := hi
    refine .cons ?_ (ih hrest)
    cases howns with
    | none hsoft => exact .none hsoft
    | @some j sh hhw hj hin =>
      refine .some hhw ?_ hin
      rw [List.getElem?_set_ne]
      · exact hj
      · rintro rfl
        exact hne rfl

/-- The threads in handlers after a thread has changed. -/
theorem inHandler_set {shapes : List Shape} {j : Nat} {v : Int} {x : Shape} (hj : (shapes.set i sh')[j]? = some x)
    (hin : inHandler c v x = true) : (j = i ∧ x = sh') ∨ (j ≠ i ∧ shapes[j]? = some x) := by
  by_cases heq : j = i
  · subst heq
    rw [List.getElem?_set_self'] at hj
    obtain ⟨y, -, rfl⟩ := Option.map_eq_some_iff.mp hj
    exact .inl ⟨rfl, rfl⟩
  · rw [List.getElem?_set_ne (Ne.symm heq)] at hj
    exact .inr ⟨heq, hj⟩

/-- **A thread changes that is in no handler on the CPU, before and after.** -/
theorem PairedAt.set (hp : PairedAt h c fs os) (hi : h.shapes[i]? = some sh) (hout : ∀ v, inHandler c v sh = false)
    (hout' : ∀ v, inHandler c v sh' = false) (hshapes : h'.shapes = h.shapes.set i sh')
    (hframe : h'.frame c = h.frame c) : PairedAt h' c fs os := by
  refine ⟨hframe ▸ hp.frames_ok, ?_, hp.distinct, ?_⟩
  · rw [hshapes]
    exact owned_set hp.owned (hp.not_mem hi hout) sh'
  · intro j x v hj hin
    rw [hshapes] at hj
    rcases inHandler_set hj hin with ⟨-, rfl⟩ | ⟨-, hj⟩
    · rw [hout' v] at hin
      cases hin
    · exact hp.complete j x v hj hin

/-- **An entry without a thread is pushed.** -/
theorem PairedAt.enter (hp : PairedAt h c fs os) (hsoft : si.isHw = false) (hshapes : h'.shapes = h.shapes)
    (hframes : FramesOk (h'.frame c) (fs ++ [si])) : PairedAt h' c (fs ++ [si]) (none :: os) := by
  refine ⟨hframes, ?_, ?_, ?_⟩
  · rw [hshapes, List.reverse_append]
    exact .cons (.none hsoft) hp.owned
  · intro i
    rw [List.count_cons_of_ne (by simp)]
    exact hp.distinct i
  · intro i sh v hi hin
    exact List.mem_cons_of_mem _ (hp.complete i sh v (hshapes ▸ hi) hin)

/-- **An entry is pushed with its thread.** -/
theorem PairedAt.dispatch (hp : PairedAt h c fs os) (hi : h.shapes[i]? = some sh) (hout : ∀ v, inHandler c v sh = false)
    (hhw : si.isHw = true) (hin : inHandler c si.intNo sh' = true) (hshapes : h'.shapes = h.shapes.set i sh')
    (hframes : FramesOk (h'.frame c) (fs ++ [si])) : PairedAt h' c (fs ++ [si]) (some i :: os) := by
  have hnew : some i ∉ os := hp.not_mem hi hout
  refine ⟨hframes, ?_, ?_, ?_⟩
  · rw [hshapes, List.reverse_append]
    refine .cons (.some hhw ?_ hin) (owned_set hp.owned hnew sh')
    exact List.getElem?_set_self (List.getElem?_eq_some_iff.mp hi).1
  · intro j
    rw [List.count_cons]
    split_ifs with heq
    · have hzero : os.count (some j) = 0 := List.count_eq_zero_of_not_mem (beq_iff_eq.mp heq ▸ hnew)
      omega
    · exact hp.distinct j
  · intro j x v hj hin
    rw [hshapes] at hj
    rcases inHandler_set hj hin with ⟨rfl, -⟩ | ⟨-, hj⟩
    · exact List.mem_cons_self
    · exact List.mem_cons_of_mem _ (hp.complete j x v hj hin)

/-- The top entry and its owner. -/
theorem PairedAt.exists_top (hp : PairedAt h c (fs ++ [si]) os) :
    ∃ o os', os = o :: os' ∧ Owns h.shapes c si o ∧ List.Forall₂ (Owns h.shapes c) fs.reverse os' := by
  have howned := hp.owned
  rw [List.reverse_append] at howned
  obtain ⟨o, os', howns, hrest, rfl⟩ := List.forall₂_cons_left_iff.mp howned
  exact ⟨o, os', rfl, howns, hrest⟩

/-- **An entry without a thread is popped.** -/
theorem PairedAt.leave (hp : PairedAt h c (fs ++ [si]) os) (hsoft : si.isHw = false) (hshapes : h'.shapes = h.shapes)
    (hframes : FramesOk (h'.frame c) fs) : PairedAt h' c fs os.tail := by
  obtain ⟨o, os', rfl, howns, hrest⟩ := hp.exists_top
  cases howns with
  | some hhw => exact absurd (hhw.symm.trans hsoft) (by decide)
  | none =>
    refine ⟨hframes, hshapes ▸ hrest, ?_, ?_⟩
    · intro i
      have hle := hp.distinct i
      rwa [List.count_cons_of_ne (by simp)] at hle
    · intro i sh v hi hin
      exact (List.mem_cons.mp (hp.complete i sh v (hshapes ▸ hi) hin)).resolve_left (by simp)

/-- **An entry is popped, and its owner leaves.** -/
theorem PairedAt.finish (hp : PairedAt h c (fs ++ [si]) (some i :: os)) (hout' : ∀ v, inHandler c v sh' = false)
    (hshapes : h'.shapes = h.shapes.set i sh') (hframes : FramesOk (h'.frame c) fs) : PairedAt h' c fs os := by
  obtain ⟨o, os', heq, -, hrest⟩ := hp.exists_top
  obtain ⟨rfl, rfl⟩ := List.cons.inj heq
  have hgone : some i ∉ os := by
    intro hmem
    have hle := hp.distinct i
    have hpos := List.count_pos_iff.mpr hmem
    rw [List.count_cons_self] at hle
    omega
  refine ⟨hframes, ?_, ?_, ?_⟩
  · rw [hshapes]
    exact owned_set hrest hgone sh'
  · intro j
    exact Nat.le_trans (List.count_le_count_cons ..) (hp.distinct j)
  · intro j x v hj hin
    rw [hshapes] at hj
    rcases inHandler_set hj hin with ⟨-, rfl⟩ | ⟨hne, hj⟩
    · rw [hout' v] at hin
      cases hin
    · refine (List.mem_cons.mp (hp.complete j x v hj hin)).resolve_left ?_
      intro heq
      exact hne (Option.some.inj heq)

/-! ## The invariant -/

theorem startedThread_set (hi : h.shapes[i]? = some sh) (sh' : Shape) (frames : List Frames) :
    startedThread h { shapes := h.shapes.set i sh', frames := frames }
      = if sh.state = .needsTrigger && sh'.state = .runnable then some i else none := by
  refine changedAt_set ?_ hi sh'
  intro a
  cases a.state <;> rfl

theorem startedThread_self (h : Handlers) (frames : List Frames) :
    startedThread h { h with frames := frames } = none := by
  refine changedAt_self ?_ h.shapes
  intro a
  cases a.state <;> rfl

theorem retiredThread_set (hi : h.shapes[i]? = some sh) (sh' : Shape) (frames : List Frames) :
    retiredThread h { shapes := h.shapes.set i sh', frames := frames }
      = if sh.present && !sh'.present then some i else none := by
  refine changedAt_set ?_ hi sh'
  intro a
  cases a.present <;> rfl

theorem track_push (hno : (h'.frame c).no = (h.frame c).no + 1) :
    track h h' owners c = startedThread h h' :: owners c := by
  unfold track
  rw [if_pos (by omega)]

theorem track_pop (hno : (h'.frame c).no < (h.frame c).no) : track h h' owners c = (owners c).tail := by
  unfold track
  rw [if_neg (by omega), if_pos hno]

theorem track_same (hno : (h'.frame c).no = (h.frame c).no) : track h h' owners c = owners c := by
  unfold track
  rw [if_neg (by omega), if_neg (by omega)]

/-- One stack changes, and a thread with it: what is left to show. -/
theorem Paired.update {f : Frames → Frames} {shapes : List Shape} (hp : Paired h owners) (hc : c < h.frames.length)
    (hat : ∀ fs, PairedAt h c fs (owners c) → ∃ fs',
      Handlers.frame { shapes := shapes, frames := h.frames.modify c f } c = f (h.frame c) →
      PairedAt { shapes := shapes, frames := h.frames.modify c f } c fs'
        (track h { shapes := shapes, frames := h.frames.modify c f } owners c))
    (hother : ∀ c' fs, c ≠ c' → PairedAt h c' fs (owners c') →
      Handlers.frame { shapes := shapes, frames := h.frames.modify c f } c' = h.frame c' →
      PairedAt { shapes := shapes, frames := h.frames.modify c f } c' fs (owners c')) :
    Paired { shapes := shapes, frames := h.frames.modify c f }
      (track h { shapes := shapes, frames := h.frames.modify c f } owners) := by
  intro c'
  obtain ⟨fs, hc'⟩ := hp c'
  have hframe := frame_modify hc f shapes c'
  by_cases heq : c = c'
  · subst heq
    obtain ⟨fs', hfs'⟩ := hat fs hc'
    exact ⟨fs', hfs' (hframe.trans (if_pos rfl))⟩
  · have hsame := hframe.trans (if_neg heq)
    refine ⟨fs, ?_⟩
    rw [track_same]
    · exact hother c' fs heq hc' hsame
    · rw [hsame]

/-- The trigger of a thread: the new entry is its own. -/
theorem Paired.dispatch {stack : List SkiInterrupt} (hp : Paired h owners) (hok : h.Ok) (hi : h.shapes[i]? = some sh)
    (hwaits : awaitsTrigger sh.cpuNo sh.intNo sh = true)
    (hfill : fillFirst SkiInterrupt.present (hwEntry sh.intNo) (h.frame sh.cpuNo).stack = some stack) {h' : Handlers}
    (hh' : h' = { shapes := h.shapes.set i { sh with state := .runnable }
                  frames := h.frames.modify sh.cpuNo fun fr => { stack := stack, no := fr.no + 1 } }) :
    Paired h' (track h h' owners) := by
  subst hh'
  have hout (c : Nat) (v : Int) : inHandler c v sh = false := by
    simp only [awaitsTrigger, Bool.and_eq_true, decide_eq_true_eq] at hwaits
    simp [inHandler, hwaits]
  refine hp.update (hok.shapes_ok.cpu_lt sh (List.mem_of_getElem? hi)) ?_ ?_
  · intro fs hat
    refine ⟨fs ++ [hwEntry sh.intNo], fun hframe => ?_⟩
    simp only [awaitsTrigger, Bool.and_eq_true, decide_eq_true_eq] at hwaits
    rw [track_push, startedThread_set hi, if_pos (by simp [hwaits])]
    · refine hat.dispatch hi (hout _) rfl ?_ rfl ?_
      · simp [inHandler, hwaits, hwEntry]
      · rw [hframe]
        exact hat.frames_ok.push rfl (fun _ => rfl) hfill
    · rw [hframe]
  · intro c' fs hne hat hframe
    exact hat.set hi (hout c') (fun v => by simp [inHandler, hne]) rfl hframe

/-- The end of a handler, if it is the owner of the entry that leaves. -/
theorem Paired.finish {state : TcState} (hp : Paired h owners) (hok : h.Ok) (hi : h.shapes[i]? = some sh)
    (hno : (h.frame c).no ≠ 0) (hsi : (h.frame c).stack[(h.frame c).no - 1]? = some si)
    (hin : inHandler c si.intNo sh = true) {h' : Handlers}
    (hh' : h' = { shapes := h.shapes.set i { sh with present := false, state := state }
                  frames := h.frames.modify c fun fr =>
                    { stack := fr.stack.modify ((h.frame c).no - 1) fun si => { si with present := false }
                      no := (h.frame c).no - 1 } })
    (hown : ∀ i sh, retiredThread h h' = some i → h.shapes[i]? = some sh → (owners sh.cpuNo).head? = some (some i)) :
    Paired h' (track h h' owners) := by
  subst hh'
  simp only [inHandler, Bool.and_eq_true, decide_eq_true_eq] at hin
  obtain ⟨⟨hrunning, hcpu⟩, hint⟩ := hin
  have hc : c < h.frames.length := hcpu ▸ hok.shapes_ok.cpu_lt sh (List.mem_of_getElem? hi)
  refine hp.update hc ?_ ?_
  · intro fs hat
    obtain ⟨fs', rfl, hpop⟩ := hat.frames_ok.pop hno hsi
    refine ⟨fs', fun hframe => ?_⟩
    have hlower := Nat.sub_lt (Nat.pos_of_ne_zero hno) Nat.one_pos
    have howner := hown i sh ((retiredThread_set hi _ _).trans (if_pos (by simp [hrunning]))) hi
    rw [hcpu] at howner
    obtain ⟨os, hos⟩ := List.head?_eq_some_iff.mp howner
    rw [track_pop, hos]
    · rw [hos] at hat
      refine hat.finish (fun v => by simp [inHandler]) rfl ?_
      rw [hframe]
      exact hpop
    · rw [hframe]
      exact hlower
  · intro c' fs hne hat hframe
    refine hat.set hi ?_ (fun v => by simp [inHandler]) rfl hframe
    intro v
    simp [inHandler, hcpu, hne]

/-- **Steps keep the pairing**, if the thread that leaves is the owner of the entry that is popped. -/
theorem Paired.step (hp : Paired h owners) (hok : h.Ok) (hstep : HandlerStep h l h')
    (hown : ∀ i sh, retiredThread h h' = some i → h.shapes[i]? = some sh → (owners sh.cpuNo).head? = some (some i)) :
    Paired h' (track h h' owners) := by
  cases hstep with
  | same =>
    intro c
    rw [track_same rfl]
    exact hp c
  | @spawn i sh hi hint habsent =>
    intro c
    obtain ⟨fs, hat⟩ := hp c
    refine ⟨fs, ?_⟩
    rw [track_same]
    · exact hat.set hi (fun v => by simp [inHandler, habsent]) (fun v => by simp [inHandler]) rfl rfl
    · rfl
  | @enter c si stack hc hsi hsoft hfill =>
    refine hp.update hc ?_ ?_
    · intro fs hat
      refine ⟨fs ++ [si], fun hframe => ?_⟩
      rw [track_push, startedThread_self]
      · refine hat.enter hsoft rfl ?_
        rw [hframe]
        exact hat.frames_ok.push hsi (by simp [hsoft]) hfill
      · rw [hframe]
    · intro c' fs _ hat hframe
      exact ⟨hframe ▸ hat.frames_ok, hat.owned, hat.distinct, hat.complete⟩
  | @dispatch i sh stack hi hwaits hfill => exact hp.dispatch hok hi hwaits hfill rfl
  | @leave c si hc hno hsi hsoft =>
    refine hp.update hc ?_ ?_
    · intro fs hat
      obtain ⟨fs', rfl, hpop⟩ := hat.frames_ok.pop hno hsi
      refine ⟨fs', fun hframe => ?_⟩
      rw [track_pop]
      · refine hat.leave hsoft rfl ?_
        rw [hframe]
        exact hpop
      · rw [hframe]
        exact Nat.sub_lt (Nat.pos_of_ne_zero hno) Nat.one_pos
    · intro c' fs _ hat hframe
      exact ⟨hframe ▸ hat.frames_ok, hat.owned, hat.distinct, hat.complete⟩
  | @finish i c sh si state hi hno hsi hhw hin hstate => exact hp.finish hok hi hno hsi hin rfl hown

end Steps

/-! ## Tests with owners -/

/-- A state of a test, and who owns the entries of its interrupt stacks. -/
structure Tracked where
  state : State
  owners : Owners

def Tracked.start (setup : Setup) : Tracked := { state := setup.start, owners := fun _ => [] }

def Tracked.step (setup : Setup) (tr : Tracked) (ev : Event) : Except SkiExit Tracked := do
  let t ← Sched.step setup tr.state ev
  .ok { state := t, owners := track tr.state.handlers t.handlers tr.owners }

/-- The thread that owns the top entry. -/
def Tracked.topOwner (tr : Tracked) (c : Nat) : Option ThreadContext :=
  (tr.owners c).head?.join.bind (tr.state.threads[·]?)

/-- The threads that own the entries, the top first. -/
def Tracked.ownerThreads (tr : Tracked) (c : Nat) : List ThreadContext :=
  (tr.owners c).filterMap (·.bind (tr.state.threads[·]?))

/-- The owner of the top entry comes before the owners of all entries of its vector. -/
def Tracked.OwnerFirst (tr : Tracked) (c : Nat) : Prop :=
  ∀ a, tr.topOwner c = some a → ∀ b ∈ tr.ownerThreads c, b.intNo = a.intNo → Before tr.state a b

/-- A handler ends only while the owner of its entry comes first. -/
def Tracked.Pairs (tr : Tracked) : Event → Prop
  | .guest c .interruptEnd => tr.OwnerFirst c
  | _ => True

section Machine
variable {setup : Setup} {s t : State} {ev : Event} {tr tr' : Tracked} {c i : Nat} {tc : ThreadContext}

/-- Owners are added to the events of a test, and change nothing of it. -/
theorem Tracked.step_eq_ok_iff :
    Tracked.step setup tr ev = .ok tr' ↔
      Sched.step setup tr.state ev = .ok tr'.state ∧
        tr'.owners = track tr.state.handlers tr'.state.handlers tr.owners := by
  obtain ⟨t, owners⟩ := tr'
  unfold Tracked.step
  cases hstep : Sched.step setup tr.state ev with
  | error e => simp
  | ok u =>
    simp only [ok_bind, Except.ok.injEq, Tracked.mk.injEq]
    constructor
    · rintro ⟨rfl, rfl⟩
      exact ⟨rfl, rfl⟩
    · rintro ⟨rfl, rfl⟩
      exact ⟨rfl, rfl⟩

theorem Setup.start_paired (setup : Setup) : Paired setup.start.handlers fun _ => [] := by
  intro c
  have hframe := setup.frame_start c
  refine ⟨[], ?_, .nil, fun _ => Nat.zero_le 1, ?_⟩
  · rw [hframe]
    exact ⟨isStack_nil (by simp [Cpu.idle, Cpu.frames, SkiInterrupt.zero]), rfl, by simp⟩
  · intro i sh v hi hin
    have hcount := setup.countP_start fun _ => inHandler_exists (c := c) (v := v)
    rw [List.countP_eq_zero] at hcount
    exact absurd hin (hcount sh (List.mem_of_getElem? hi))

/-- Only the end of a handler makes a thread leave. -/
theorem Change.exists_end {tc' : ThreadContext} (h : Change s t ev tc tc') (hpresent : tc.present = true)
    (habsent : tc'.present = false) : ev = .guest tc.cpuNo .interruptEnd := by
  cases h with
  | finish hev => exact hev
  | spawn => cases habsent
  | _ => exact absurd (hpresent.symm.trans habsent) (by decide)

/-- The thread that was found is the one that leaves. -/
theorem retiredThread_ended (hok : s.handlers.Ok) (htc : tc ∈ s.threads) (hpresent : tc.present = true)
    (ht : t.threads = s.threads.modify tc.id ThreadContext.ended) :
    retiredThread s.handlers t.handlers = some tc.id := by
  have hid := hok.getElem?_id htc
  have hshapes : t.handlers.shapes = s.handlers.shapes.set tc.id tc.ended.shape := by
    unfold State.handlers
    rw [ht, modify_eq_set hid, List.map_set]
  have hset := retiredThread_set (shapes_getElem? hid) tc.ended.shape t.handlers.frames
  rw [← hshapes, if_pos (by simp [ThreadContext.shape, ThreadContext.ended, hpresent])] at hset
  exact hset

/-- A thread leaves when the handler of a hardware interrupt ends, and only then. -/
theorem step_interruptEnd_cases (hsane : Sane s) (hstep : step setup s (.guest c .interruptEnd) = .ok t) :
    (¬ (0 < (s.cpu c).interruptsStackNo ∧ (topEntry (s.cpu c)).isHw = true) ∧ t.threads = s.threads) ∨
      ((0 < (s.cpu c).interruptsStackNo ∧ (topEntry (s.cpu c)).isHw = true) ∧ ∃ tc,
        skiThreadsFind (lowered s c) true c (topEntry (s.cpu c)).intNo .runnable = some tc ∧
          t.threads = s.threads.modify tc.id ThreadContext.ended) := by
  obtain ⟨-, ⟨hidle, rfl⟩ | ⟨-, hend⟩⟩ := step_guest_cases hstep
  · refine .inl ⟨?_, rfl⟩
    rw [hsane.idle_empty c hidle]
    exact fun h => absurd h.1 (Nat.lt_irrefl 0)
  · rcases skiHandleInterruptEnd_cases hend with ⟨hzero, rfl⟩ | ⟨hpos, u, rfl, ⟨hhw, hu⟩ | ⟨hsoft, rfl⟩⟩
    · refine .inl ⟨?_, rfl⟩
      rw [hzero]
      exact fun h => absurd h.1 (Nat.lt_irrefl 0)
    · obtain ⟨tc, hfind, rfl⟩ := endHandler_cases hu
      exact .inr ⟨⟨hpos, hhw⟩, tc, hfind, rfl⟩
    · refine .inl ⟨?_, rfl⟩
      rw [hsoft]
      exact fun h => absurd h.2 (by decide)

/-- **The thread that leaves** is the one that the search of `ski_handle_interrupt_end` finds. -/
theorem retiredThread_cases (hsane : Sane s) (hstep : step setup s ev = .ok t)
    (h : retiredThread s.handlers t.handlers = some i) :
    ∃ c tc, ev = .guest c .interruptEnd ∧ 0 < (s.cpu c).interruptsStackNo ∧ (topEntry (s.cpu c)).isHw = true ∧
      skiThreadsFind (lowered s c) true c (topEntry (s.cpu c)).intNo .runnable = some tc ∧ tc.id = i := by
  obtain ⟨a, b, ha, hb, hleft⟩ := exists_of_changedAt h
  have hev : ∃ c, ev = .guest c .interruptEnd := by
    unfold State.handlers at ha hb
    simp only [List.getElem?_map, Option.map_eq_some_iff] at ha hb
    obtain ⟨tc, htc, rfl⟩ := ha
    obtain ⟨tc', htc', rfl⟩ := hb
    obtain ⟨tc'', htc'', hchange⟩ := (step_changes hsane.handlers_ok hstep).getElem? htc
    obtain rfl := Option.some.inj (htc'.symm.trans htc'')
    simp only [Bool.and_eq_true, Bool.not_eq_true'] at hleft
    exact ⟨_, hchange.exists_end hleft.1 hleft.2⟩
  obtain ⟨c, rfl⟩ := hev
  rcases step_interruptEnd_cases hsane hstep with ⟨-, hsame⟩ | ⟨⟨hpos, hhw⟩, tc, hfind, ht⟩
  · rw [show t.handlers.shapes = s.handlers.shapes from congrArg (List.map ThreadContext.shape) hsame] at hb
    obtain rfl := Option.some.inj (ha.symm.trans hb)
    cases hp : a.present <;> rw [hp] at hleft <;> cases hleft
  · obtain ⟨hmem, hpresent, -⟩ := skiThreadsFind_spec hfind
    have hretired := retiredThread_ended hsane.handlers_ok hmem hpresent ht
    exact ⟨c, tc, rfl, hpos, hhw, hfind, Option.some.inj (hretired.symm.trans h)⟩

theorem mem_ownerThreads {b : ThreadContext} :
    b ∈ tr.ownerThreads c ↔ ∃ j, some j ∈ tr.owners c ∧ tr.state.threads[j]? = some b := by
  unfold Tracked.ownerThreads
  rw [List.mem_filterMap]
  constructor
  · rintro ⟨o, ho, hb⟩
    obtain ⟨j, rfl, hj⟩ := Option.bind_eq_some_iff.mp hb
    exact ⟨j, ho, hj⟩
  · rintro ⟨j, hj, hb⟩
    exact ⟨some j, hj, hb⟩

theorem intNo_of_isHandlerOf {v : Int} (h : isHandlerOf c v tc = true) : tc.intNo = v := by
  simp only [isHandlerOf, Bool.and_eq_true, decide_eq_true_eq] at h
  exact h.2

/-- An owner is in the handler of its vector. -/
theorem isHandlerOf_of_mem {fs : List SkiInterrupt} {os : List (Option Nat)} (hat : PairedAt s.handlers c fs os)
    (hi : some i ∈ os) (htc : s.threads[i]? = some tc) : isHandlerOf c tc.intNo tc = true := by
  obtain ⟨sh, v, hsh, hin⟩ := hat.inHandler_of_mem hi
  obtain rfl := Option.some.inj ((shapes_getElem? htc).symm.trans hsh)
  have hhandler : isHandlerOf c v tc = true := (isHandlerOf_eq ..).trans hin
  rw [intNo_of_isHandlerOf hhandler]
  exact hhandler

/-- The owner of the top entry, when a hardware interrupt pushed it. -/
theorem Paired.exists_owner (hpaired : Paired s.handlers tr.owners) (hpos : 0 < (s.cpu c).interruptsStackNo)
    (hhw : (topEntry (s.cpu c)).isHw = true) :
    ∃ i a, (tr.owners c).head? = some (some i) ∧ s.threads[i]? = some a ∧
      isHandlerOf c (topEntry (s.cpu c)).intNo a = true := by
  obtain ⟨fs, hat⟩ := hpaired c
  have hno : (s.handlers.frame c).no ≠ 0 := by
    rw [State.frame_handlers]
    exact Nat.ne_of_gt hpos
  obtain ⟨si, hsi⟩ := hat.frames_ok.exists_top hno
  obtain ⟨fs', rfl, -⟩ := hat.frames_ok.pop hno hsi
  have htop : topEntry (s.cpu c) = si := by
    rw [State.frame_handlers] at hsi
    unfold topEntry
    rw [List.getD_eq_getElem?_getD]
    exact congrArg (Option.getD · .zero) hsi
  rw [htop] at hhw ⊢
  obtain ⟨o, os, hos, howns, -⟩ := hat.exists_top
  cases howns with
  | none hsoft => exact absurd (hhw.symm.trans hsoft) (by decide)
  | @some i sh _ hi hin =>
    obtain ⟨a, ha, rfl⟩ := Option.map_eq_some_iff.mp ((List.getElem?_map ..).symm.trans hi)
    refine ⟨i, a, ?_, ha, (isHandlerOf_eq ..).trans hin⟩
    rw [hos]
    rfl

/-- **The search finds the owner of the top entry iff it comes first.** -/
theorem Paired.found_iff (hsane : Sane tr.state) (hpaired : Paired tr.state.handlers tr.owners) {v : Int}
    (hfind : skiThreadsFind (lowered tr.state c) true c v .runnable = some tc) {a : ThreadContext}
    (hhead : (tr.owners c).head? = some (some i)) (ha : tr.state.threads[i]? = some a)
    (hin : isHandlerOf c v a = true) : tc.id = i ↔ tr.OwnerFirst c := by
  obtain ⟨⟨htc, hsought⟩, hfirst⟩ := (skiThreadsFind_iff (s := lowered tr.state c) hsane.pairwise_ids).mp hfind
  simp only [sought_runnable] at hsought hfirst
  obtain ⟨fs, hat⟩ := hpaired c
  have htop : tr.topOwner c = some a := by
    unfold Tracked.topOwner
    rw [hhead]
    exact ha
  have hid : a.id = i := hsane.handlers_ok.id_of_getElem? ha
  have hbefore {x y : ThreadContext} (hx : isHandlerOf c v x = true) (hy : isHandlerOf c v y = true) :
      Before (lowered tr.state c) x y ↔ Before tr.state x y := by
    simp only [isHandlerOf, Bool.and_eq_true] at hx hy
    exact before_int_iff hx.1.1.1.2 hy.1.1.1.2 ..
  constructor
  · intro heq a' ha' b hb hno
    obtain rfl := Option.some.inj (htop.symm.trans ha')
    obtain rfl : tc = a := by
      have hsame := hsane.handlers_ok.getElem?_id htc
      rw [heq] at hsame
      exact Option.some.inj (hsame.symm.trans ha)
    -- the owner of another entry of the vector is among the threads that were searched
    obtain ⟨j, hj, hjb⟩ := mem_ownerThreads.mp hb
    have hinb := isHandlerOf_of_mem hat hj hjb
    rw [hno, intNo_of_isHandlerOf hin] at hinb
    exact (hbefore hsought hinb).mp (hfirst b (List.mem_of_getElem? hjb) hinb)
  · intro hown
    have hmem : some tc.id ∈ tr.owners c :=
      hat.complete tc.id tc.shape v (shapes_getElem? (hsane.handlers_ok.getElem?_id htc))
        ((isHandlerOf_eq ..).symm.trans hsought)
    have hle : Before tr.state a tc := by
      refine hown a htop tc (mem_ownerThreads.mpr ⟨tc.id, hmem, hsane.handlers_ok.getElem?_id htc⟩) ?_
      rw [intNo_of_isHandlerOf hsought, intNo_of_isHandlerOf hin]
    have hle' : Before tr.state tc a := (hbefore hsought hin).mp (hfirst a (List.mem_of_getElem? ha) hin)
    rw [← hid]
    exact hle'.pos_eq hle

/-- **The pairing of entries and threads** holds in a test whose handlers end while their owner comes first. -/
theorem paired_of_run {events : List Event}
    (h : Run (Tracked.step setup) Tracked.Pairs (Tracked.start setup) events tr) :
    Reachable setup tr.state ∧ Paired tr.state.handlers tr.owners := by
  refine Run.invariant (P := fun tr => Reachable setup tr.state ∧ Paired tr.state.handlers tr.owners) h ?_
    ⟨⟨[], .nil _⟩, setup.start_paired⟩
  rintro tr ev tr' ⟨⟨events, hrun⟩, hpaired⟩ hpairs hstep
  obtain ⟨hstep, howners⟩ := Tracked.step_eq_ok_iff.mp hstep
  have hsane : Sane tr.state := run_sane hrun
  obtain ⟨l, hhandlers, -⟩ := (step_effect hsane.handlers_ok hstep).handlers
  refine ⟨⟨_, hrun.concat trivial hstep⟩, ?_⟩
  rw [howners]
  refine hpaired.step hsane.handlers_ok hhandlers ?_
  intro i sh hretired hi
  obtain ⟨c, tc, rfl, hpos, hhw, hfind, hid⟩ := retiredThread_cases hsane hstep hretired
  obtain ⟨j, a, hhead, ha, hin⟩ := hpaired.exists_owner hpos hhw
  have heq : tc.id = j := (hpaired.found_iff hsane hfind hhead ha hin).mpr hpairs
  obtain ⟨hmem, -, -, hcpu, -⟩ := skiThreadsFind_spec hfind
  have hsh : sh.cpuNo = c := by
    have := shapes_getElem? (hsane.handlers_ok.getElem?_id hmem)
    rw [hid] at this
    obtain rfl := Option.some.inj (hi.symm.trans this)
    exact hcpu
  rw [hsh, hhead, ← heq, hid]

end Machine

/-- **The thread that leaves is the owner of the entry.** In a test whose handlers have ended while the owner of their
    entry came first, each entry that a hardware interrupt pushed has an owner. When the handler of the top entry ends,
    the thread that leaves is its owner exactly when it comes before the owners of all entries of its vector; so also
    when no other entry of the stack is of that vector. -/
theorem retired_is_owner_iff {setup : Setup} {events : List Event} {tr : Tracked} {c : Nat} {t : State}
    (h : Run (Tracked.step setup) Tracked.Pairs (Tracked.start setup) events tr)
    (hpos : 0 < (tr.state.cpu c).interruptsStackNo) (hhw : (topEntry (tr.state.cpu c)).isHw = true)
    (hend : step setup tr.state (.guest c .interruptEnd) = .ok t) :
    ∃ i a, (tr.owners c).head? = some (some i) ∧ tr.state.threads[i]? = some a ∧
      a.intNo = (topEntry (tr.state.cpu c)).intNo ∧
      (retiredThread tr.state.handlers t.handlers = some i ↔ tr.OwnerFirst c) ∧
      ((∀ b ∈ tr.ownerThreads c, b.intNo = a.intNo → b = a) →
        retiredThread tr.state.handlers t.handlers = some i) := by
  obtain ⟨hreach, hpaired⟩ := paired_of_run h
  obtain ⟨i, a, hhead, ha, hin⟩ := hpaired.exists_owner hpos hhw
  obtain ⟨-, tc, hfind, ht⟩ :=
    (step_interruptEnd_cases hreach.sane hend).resolve_left fun h => h.1 ⟨hpos, hhw⟩
  obtain ⟨hmem, hpresent, -⟩ := skiThreadsFind_spec hfind
  have hretired := retiredThread_ended hreach.sane.handlers_ok hmem hpresent ht
  have hiff : retiredThread tr.state.handlers t.handlers = some i ↔ tr.OwnerFirst c := by
    rw [hretired, Option.some.injEq]
    exact hpaired.found_iff hreach.sane hfind hhead ha hin
  refine ⟨i, a, hhead, ha, intNo_of_isHandlerOf hin, hiff, ?_⟩
  intro halone
  refine hiff.mpr ?_
  intro a' ha' b hb hno
  obtain rfl : a' = a := by
    unfold Tracked.topOwner at ha'
    rw [hhead] at ha'
    exact Option.some.inj (ha'.symm.trans ha)
  rw [halone b hb hno]
  exact Precedes.refl _

/-! ## Nested handlers -/

/-- One CPU, two threads of vector 49, the CPU thread, and two preemption points. -/
def nestedHandlers : Setup :=
  { twoOfOneVector with
    preemptions := [1, 2]
    preemptionMode := .all
    preemptions_pos := by decide
    preemptions_length := by decide }

/-- The vector is requested and dispatched, requested again, and the thread of the first handler is preempted by the
    second one. -/
def nest : List Event :=
  request 49 ++ [Event.guest 0 .dispatch] ++ request 49 ++
    [Event.guest 0 .possibleInversionPoint, .canRun 0, .guest 0 .dispatch]

def endsHandler : Event → Bool
  | .guest _ .interruptEnd => true
  | _ => false

theorem Tracked.pairs_of_not_endsHandler (tr : Tracked) (ev : Event) (h : (!endsHandler ev) = true) : tr.Pairs ev := by
  cases ev with
  | guest c op =>
    cases op with
    | interruptEnd => cases h
    | _ => trivial
  | _ => trivial

/-- The handler on CPU 0 ends: what is then checked of the owner of its entry and of the thread that leaves. -/
def endsWith (owner retired : Nat) (tr : Tracked) : Bool :=
  0 < (tr.state.cpu 0).interruptsStackNo && (topEntry (tr.state.cpu 0)).isHw &&
  (tr.owners 0).head? = some (some owner) &&
  (step nestedHandlers tr.state (.guest 0 .interruptEnd)).toOption.any fun t =>
    retiredThread tr.state.handlers t.handlers = some retired

theorem endsWith_spec {owner retired : Nat} {tr : Tracked} (h : endsWith owner retired tr = true) :
    0 < (tr.state.cpu 0).interruptsStackNo ∧ (topEntry (tr.state.cpu 0)).isHw = true ∧
      (tr.owners 0).head? = some (some owner) ∧ ∃ t, step nestedHandlers tr.state (.guest 0 .interruptEnd) = .ok t ∧
        retiredThread tr.state.handlers t.handlers = some retired := by
  simp only [endsWith, Bool.and_eq_true, decide_eq_true_eq] at h
  obtain ⟨⟨⟨hpos, hhw⟩, hhead⟩, hend⟩ := h
  obtain ⟨t, hstep, hretired⟩ := exists_of_toOption_any hend
  exact ⟨hpos, hhw, hhead, t, hstep, of_decide_eq_true hretired⟩

/-- The inner handler ends before it is preempted, and the thread that leaves is its own. -/
theorem retired_is_owner_iff_nested :
    ∃ tr t, Run (Tracked.step nestedHandlers) Tracked.Pairs (Tracked.start nestedHandlers) nest tr ∧
      step nestedHandlers tr.state (.guest 0 .interruptEnd) = .ok t ∧ (tr.owners 0).head? = some (some 1) ∧
      retiredThread tr.state.handlers t.handlers = some 1 ∧ tr.OwnerFirst 0 := by
  have hexec : (exec (Tracked.step nestedHandlers) (fun _ ev => !endsHandler ev) (Tracked.start nestedHandlers)
      nest).any (endsWith 1 1) = true := by decide
  obtain ⟨tr, hrun, htr⟩ := exists_run_of_exec (fun tr ev => tr.pairs_of_not_endsHandler ev) hexec
  obtain ⟨hpos, hhw, hhead, t, hend, hretired⟩ := endsWith_spec htr
  obtain ⟨i, a, hhead', -, -, hiff, -⟩ := retired_is_owner_iff hrun hpos hhw hend
  obtain rfl : i = 1 := Option.some.inj (Option.some.inj (hhead'.symm.trans hhead))
  exact ⟨tr, t, hrun, hend, hhead, hretired, hiff.mp hretired⟩

/-- The inner handler is preempted as well, so the thread of the outer one comes first again. It leaves when the inner
    handler ends. -/
theorem retired_other_activation :
    ∃ tr t, Run (Tracked.step nestedHandlers) (fun _ _ => True) (Tracked.start nestedHandlers)
        (nest ++ [.guest 0 .possibleInversionPoint, .setIrq 0 openIrq, .canRun 0]) tr ∧
      step nestedHandlers tr.state (.guest 0 .interruptEnd) = .ok t ∧
      (topEntry (tr.state.cpu 0)).isHw = true ∧ (tr.owners 0).head? = some (some 1) ∧
      retiredThread tr.state.handlers t.handlers = some 0 := by
  have hexec : (exec (Tracked.step nestedHandlers) (fun _ _ => true) (Tracked.start nestedHandlers)
      (nest ++ [.guest 0 .possibleInversionPoint, .setIrq 0 openIrq, .canRun 0])).any (endsWith 1 0) = true := by
    decide
  obtain ⟨tr, hrun, htr⟩ := exists_run_of_exec (fun _ _ _ => trivial) hexec
  obtain ⟨-, hhw, hhead, t, hend, hretired⟩ := endsWith_spec htr
  exact ⟨tr, t, hrun, hend, hhw, hhead, hretired⟩

end SkiVmm.Sched
