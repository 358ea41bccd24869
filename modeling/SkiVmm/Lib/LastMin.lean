import Mathlib.Data.List.Induction
import Mathlib.Data.List.Nodup

/-!
# `Lib.LastMin` — the last least element of a list, and the largest key

`lastMin key l` scans `l` from the left and keeps an element with the least key, the last one among equals. Where
the elements carry positions that grow along the list, it is the element that no other one beats
(`lastMin_eq_some_iff`): smaller keys first, and the larger position among equal keys. `foldl_max_le_iff` is about
the scan for the largest key.
-/

namespace SkiVmm.Lib

variable {α : Type} {key : α → Int} {pos : α → Nat} {l : List α}

/-- One turn of the scan. -/
def keepMin (key : α → Int) (res : Option α) (a : α) : Option α :=
  match res with
  | none => some a
  | some r => if key r < key a then some r else some a

/-- The last among the elements with the least key. -/
def lastMin (key : α → Int) (l : List α) : Option α := l.foldl (keepMin key) none

theorem lastMin_concat (l : List α) (a : α) : lastMin key (l ++ [a]) = keepMin key (lastMin key l) a := by
  simp [lastMin]

theorem lastMin_eq_none : lastMin key l = none ↔ l = [] := by
  induction l using List.reverseRecOn with
  | nil => simp [lastMin]
  | append_singleton l a ih =>
    rw [lastMin_concat]
    unfold keepMin
    cases lastMin key l with
    | none => simp
    | some r =>
      simp only
      split_ifs <;> simp

theorem mem_of_lastMin {a : α} (h : lastMin key l = some a) : a ∈ l := by
  induction l using List.reverseRecOn generalizing a with
  | nil => simp [lastMin] at h
  | append_singleton l x ih =>
    rw [lastMin_concat] at h
    unfold keepMin at h
    split at h
    · obtain rfl := Option.some.inj h
      exact List.mem_append_right _ (List.mem_singleton.mpr rfl)
    · next r hmin =>
      split_ifs at h
      · obtain rfl := Option.some.inj h
        exact List.mem_append_left _ (ih hmin)
      · obtain rfl := Option.some.inj h
        exact List.mem_append_right _ (List.mem_singleton.mpr rfl)

/-- `a` comes before `b` in the order of selection, or is at the same place. -/
def Precedes (key : α → Int) (pos : α → Nat) (a b : α) : Prop :=
  key a < key b ∨ key a = key b ∧ pos b ≤ pos a

theorem Precedes.refl (a : α) : Precedes key pos a a := .inr ⟨rfl, Nat.le_refl _⟩

theorem Precedes.trans {a b c : α} (h : Precedes key pos a b) (h' : Precedes key pos b c) :
    Precedes key pos a c := by
  unfold Precedes at *
  omega

theorem Precedes.key_le {a b : α} (h : Precedes key pos a b) : key a ≤ key b := by
  unfold Precedes at h
  omega

theorem Precedes.total (key : α → Int) (pos : α → Nat) (a b : α) : Precedes key pos a b ∨ Precedes key pos b a := by
  unfold Precedes
  omega

theorem Precedes.pos_eq {a b : α} (h : Precedes key pos a b) (h' : Precedes key pos b a) : pos a = pos b := by
  unfold Precedes at *
  omega

theorem precedes_of_lastMin (hpos : l.Pairwise fun a b => pos a < pos b) {a : α} (h : lastMin key l = some a) :
    a ∈ l ∧ ∀ b ∈ l, Precedes key pos a b := by
  induction l using List.reverseRecOn generalizing a with
  | nil => simp [lastMin] at h
  | append_singleton l x ih =>
    obtain ⟨hl, -, hx⟩ := List.pairwise_append.mp hpos
    rw [lastMin_concat] at h
    unfold keepMin at h
    cases hmin : lastMin key l with
    | none =>
      obtain rfl := lastMin_eq_none.mp hmin
      rw [hmin] at h
      obtain rfl := Option.some.inj h
      simp [Precedes.refl]
    | some r =>
      obtain ⟨hr, hbest⟩ := ih hl hmin
      rw [hmin] at h
      simp only at h
      split_ifs at h with hlt
      · obtain rfl := Option.some.inj h
        refine ⟨List.mem_append_left _ hr, ?_⟩
        intro b hb
        rcases List.mem_append.mp hb with hb | hb
        · exact hbest b hb
        · rw [List.mem_singleton.mp hb]
          exact .inl hlt
      · obtain rfl := Option.some.inj h
        refine ⟨List.mem_append_right _ (List.mem_singleton.mpr rfl), ?_⟩
        intro b hb
        rcases List.mem_append.mp hb with hb | hb
        · -- the new element overtakes the old best one, and so all it preceded
          have hover : Precedes key pos x r := by
            have := hx r hr x (List.mem_singleton.mpr rfl)
            unfold Precedes
            omega
          exact hover.trans (hbest b hb)
        · rw [List.mem_singleton.mp hb]
          exact Precedes.refl _

/-- **The last least element is the one that precedes all.** -/
theorem lastMin_eq_some_iff (hpos : l.Pairwise fun a b => pos a < pos b) {a : α} :
    lastMin key l = some a ↔ a ∈ l ∧ ∀ b ∈ l, Precedes key pos a b := by
  refine ⟨precedes_of_lastMin hpos, ?_⟩
  rintro ⟨ha, hbest⟩
  cases hmin : lastMin key l with
  | none =>
    obtain rfl := lastMin_eq_none.mp hmin
    simp at ha
  | some r =>
    obtain ⟨hr, hbest'⟩ := precedes_of_lastMin hpos hmin
    have heq : pos r = pos a := (hbest' a ha).pos_eq (hbest r hr)
    -- positions tell the elements apart
    have hnodup : (l.map pos).Nodup := (List.pairwise_map.mpr hpos).imp Nat.ne_of_lt
    rw [List.inj_on_of_nodup_map hnodup hr ha heq]

theorem foldl_max_le_iff {m bound : Int} :
    l.foldl (fun m a => max m (key a)) m ≤ bound ↔ m ≤ bound ∧ ∀ a ∈ l, key a ≤ bound := by
  induction l generalizing m with
  | nil => simp
  | cons a l ih =>
    rw [List.foldl_cons, ih, Int.max_le, List.forall_mem_cons, and_assoc]

end SkiVmm.Lib
