import Mathlib.Data.List.Basic
import ApiSurface.Project.Resolve

/-!
# Stable sorting

The lists of a project are sorted by file and span, files by their paths and groups by their keys.
Sorting a list with one more element in front puts that element before the first that is not less
(`IsSortable.mergeSort_cons`). So sorting commutes with keeping the elements of some kind
(`IsSortable.filter_mergeSort`), and tied elements stay in their order
(`IsSortable.isStableSort_mergeSort`).
-/

namespace ApiSurface.Project

variable {α β : Type} {le : α → α → Bool} {l l' : List α}

/-- A test that a stable sort can take: it compares any two elements, and is transitive. -/
structure IsSortable (le : α → α → Bool) : Prop where
  trans : ∀ a b c, le a b → le b c → le a c
  total : ∀ a b, le a b || le b a

/-- Whether neither of two elements has to stand before the other. -/
def isTied (le : α → α → Bool) (a b : α) : Bool := le a b && le b a

/-- The list `sorted` has the elements of `l` in the order of `le`, and tied elements in the order
in which `l` has them. -/
structure IsStableSort (le : α → α → Bool) (l sorted : List α) : Prop where
  perm : sorted.Perm l
  pairwise : sorted.Pairwise fun a b => le a b
  ties : ∀ a, sorted.filter (isTied le a) = l.filter (isTied le a)

private theorem filter_comm (p q : α → Bool) (l : List α) :
    (l.filter p).filter q = (l.filter q).filter p := by
  simp only [List.filter_filter, Bool.and_comm]

namespace IsSortable

theorem refl (h : IsSortable le) (a : α) : le a a := by simpa using h.total a a

/-- Elements are sorted by something that they have. -/
theorem comp (h : IsSortable le) (f : β → α) : IsSortable fun a b => le (f a) (f b) where
  trans a b c := h.trans (f a) (f b) (f c)
  total a b := h.total (f a) (f b)

theorem of_compare (cmp : α → α → Ordering) [Std.TransCmp cmp] :
    IsSortable fun a b => cmp a b != .gt where
  trans a b c hab hbc := by
    simp only [bne, ← Ordering.isLE_eq_not_beq_gt] at hab hbc ⊢
    exact Std.TransCmp.isLE_trans hab hbc
  total a b := by
    cases hab : cmp a b with
    | lt | eq => rfl
    | gt => simp [Std.OrientedCmp.lt_of_gt hab]

/-! ### Sorting element by element -/

theorem pairwise_mergeSort (h : IsSortable le) (l : List α) :
    (l.mergeSort le).Pairwise fun a b => le a b := List.pairwise_mergeSort h.trans h.total l

/-- The first element goes before the first of the others that is not less. -/
theorem mergeSort_cons (h : IsSortable le) (a : α) (l : List α) :
    (a :: l).mergeSort le =
      (l.mergeSort le).filter (fun b => !le a b) ++ a :: (l.mergeSort le).filter (le a) := by
  obtain ⟨before, after, hcons, hl, hbefore⟩ := List.mergeSort_cons h.trans h.total a l
  have hafter : ∀ b ∈ after, le a b :=
    (List.pairwise_cons.mp (List.pairwise_append.mp (hcons ▸ h.pairwise_mergeSort _)).2.1).1
  have hnone : before.filter (le a) = [] :=
    List.filter_eq_nil_iff.mpr fun b hb => by simpa using hbefore b hb
  have hnot : after.filter (fun b => !le a b) = [] :=
    List.filter_eq_nil_iff.mpr fun b hb => by simpa using hafter b hb
  rw [hcons, hl, List.filter_append, List.filter_append, List.filter_eq_self.mpr hbefore,
    List.filter_eq_self.mpr hafter, hnone, hnot, List.append_nil, List.nil_append]

/-- In a sorted list the elements that are less than `a` stand before the others. -/
theorem filter_append_filter (h : IsSortable le) (a : α) (hl : l.Pairwise fun a b => le a b) :
    l.filter (fun b => !le a b) ++ l.filter (le a) = l := by
  induction hl with
  | nil => rfl
  | cons hb _ ih =>
    rename_i b r _
    by_cases hab : le a b
    · have hr : ∀ c ∈ r, le a c := fun c hc => h.trans a b c hab (hb c hc)
      have hnone : r.filter (fun c => !le a c) = [] :=
        List.filter_eq_nil_iff.mpr fun c hc => by simpa using hr c hc
      simp [hab, hnone, List.filter_eq_self.mpr hr]
    · simp [hab, ih]

/-- The elements of some kind come in the same order with the others and without them. -/
theorem filter_mergeSort (h : IsSortable le) (p : α → Bool) (l : List α) :
    (l.mergeSort le).filter p = (l.filter p).mergeSort le := by
  induction l with
  | nil => simp
  | cons a r ih =>
    rw [h.mergeSort_cons, List.filter_append]
    by_cases ha : p a
    · rw [List.filter_cons_of_pos ha, List.filter_cons_of_pos ha, h.mergeSort_cons,
        filter_comm _ p, filter_comm _ p, ih]
    · rw [List.filter_cons_of_neg ha, List.filter_cons_of_neg ha, filter_comm _ p,
        filter_comm _ p, ih, h.filter_append_filter a (h.pairwise_mergeSort _)]

/-- Sorting is stable. -/
theorem isStableSort_mergeSort (h : IsSortable le) (l : List α) :
    IsStableSort le l (l.mergeSort le) where
  perm := List.mergeSort_perm l le
  pairwise := h.pairwise_mergeSort l
  ties a := by
    rw [h.filter_mergeSort]
    refine List.mergeSort_of_pairwise (List.pairwise_of_forall_mem_list fun b hb c hc => ?_)
    have hba := (Bool.and_eq_true_iff.mp (List.mem_filter.mp hb).2).2
    have hac := (Bool.and_eq_true_iff.mp (List.mem_filter.mp hc).2).1
    exact h.trans b a c hba hac

/-- Where only equal elements are tied, the order of the input does not matter. -/
theorem mergeSort_eq_of_perm (h : IsSortable le) (hl : l.Perm l')
    (hanti : ∀ a ∈ l, ∀ b ∈ l, le a b → le b a → a = b) : l.mergeSort le = l'.mergeSort le := by
  have hperm : (l.mergeSort le).Perm (l'.mergeSort le) :=
    ((List.mergeSort_perm l le).trans hl).trans (List.mergeSort_perm l' le).symm
  refine hperm.eq_of_pairwise ?_ (h.pairwise_mergeSort l) (h.pairwise_mergeSort l')
  intro a b ha hb
  exact hanti a (List.mem_mergeSort.mp ha) b (hl.mem_iff.mpr (List.mem_mergeSort.mp hb))

end IsSortable

/-! ### Parts of elements -/

/-- Where all parts of an element are kept or none, parts of the kept elements are what is kept. -/
theorem filter_flatMap {part : α → List β} {p : β → Bool} {q : α → Bool}
    (hpq : ∀ a ∈ l, ∀ b ∈ part a, p b = q a) :
    (l.flatMap part).filter p = (l.filter q).flatMap part := by
  induction l with
  | nil => rfl
  | cons a r ih =>
    have ha := hpq a List.mem_cons_self
    rw [List.flatMap_cons, List.filter_append, ih fun b hb => hpq b (List.mem_cons_of_mem a hb)]
    by_cases hq : q a
    · rw [List.filter_cons_of_pos hq, List.flatMap_cons,
        List.filter_eq_self.mpr fun b hb => (ha b hb).trans hq]
    · have hnone : (part a).filter p = [] :=
        List.filter_eq_nil_iff.mpr fun b hb h => hq ((ha b hb).symm.trans h)
      rw [List.filter_cons_of_neg hq, hnone, List.nil_append]

/-! ### Sorting twice -/

/-- The order of `le`, and of `next` among what is tied. -/
def thenLE (le next : α → α → Bool) (a b : α) : Bool := le a b && (!le b a || next a b)

theorem isTied_thenLE (next : α → α → Bool) (a b : α) :
    isTied (thenLE le next) a b = (isTied le a b && isTied next a b) := by
  simp only [isTied, thenLE]
  cases le a b <;> cases le b a <;> simp

namespace IsStableSort

variable {next : α → α → Bool} {sorted : List α}

/-- What was sorted may be listed differently, as long as tied elements keep their order. -/
theorem congr_input (h : IsStableSort le l sorted) (hperm : l.Perm l')
    (hties : ∀ a, l.filter (isTied le a) = l'.filter (isTied le a)) :
    IsStableSort le l' sorted :=
  ⟨h.perm.trans hperm, h.pairwise, fun a => (h.ties a).trans (hties a)⟩

/-- A list that was sorted before keeps the earlier order among what is tied. -/
theorem thenLE (hle : IsSortable le) (h : IsStableSort next l l') (h' : IsStableSort le l' sorted) :
    IsStableSort (thenLE le next) l sorted where
  perm := h'.perm.trans h.perm
  pairwise := by
    rw [List.pairwise_iff_forall_sublist]
    intro a b hab
    have hle' : le a b := List.pairwise_iff_forall_sublist.mp h'.pairwise hab
    simp only [Project.thenLE, hle', Bool.true_and, Bool.or_eq_true, Bool.not_eq_true']
    -- a tied pair stands in the list of what is tied with its first element, as it was before
    refine or_iff_not_imp_left.mpr fun hba => ?_
    rw [Bool.not_eq_false] at hba
    have htied := hab.filter (isTied le a)
    simp only [isTied, hle.refl a, hle', hba, Bool.and_self, List.filter_cons_of_pos,
      List.filter_nil] at htied
    exact List.pairwise_iff_forall_sublist.mp (h.pairwise.sublist List.filter_sublist)
      ((h'.ties a) ▸ htied)
  ties a := by
    have hsplit : ∀ l : List α, l.filter (isTied (Project.thenLE le next) a)
        = (l.filter (isTied le a)).filter (isTied next a) := by
      intro l
      rw [List.filter_filter]
      exact List.filter_congr fun b _ => by rw [isTied_thenLE, Bool.and_comm]
    rw [hsplit, hsplit, h'.ties, filter_comm, h.ties, filter_comm]

end IsStableSort

/-! ### The orders of a project -/

instance : Std.TransOrd Span :=
  inferInstanceAs <| Std.TransCmp <|
    compareLex (compareOn Span.startByte) <| compareLex (compareOn Span.endByte) <|
    compareLex (compareOn Span.startLine) <| compareLex (compareOn Span.startCol) <|
    compareLex (compareOn Span.endLine) (compareOn Span.endCol)

instance : Std.LawfulEqOrd Span where
  eq_of_compare {a b} h := by
    change Span.compare a b = .eq at h
    simp only [Span.compare, Ordering.then_eq_eq, Std.compare_eq_iff_eq] at h
    cases a
    cases b
    simpa using h

instance : Std.TransCmp compareLocation :=
  inferInstanceAs <| Std.TransCmp <| compareLex (compareOn Prod.fst) (compareOn Prod.snd)

instance : Std.LawfulEqCmp compareLocation where
  eq_of_compare {a b} h := by
    simp only [compareLocation, Ordering.then_eq_eq, Std.compare_eq_iff_eq] at h
    exact Prod.ext h.1 h.2

instance : Std.TransCmp GroupKey.compare :=
  inferInstanceAs <| Std.TransCmp <|
    compareLex (compareOn GroupKey.file) <| compareLex (compareOn GroupKey.name)
      (compareOn GroupKey.offset)

instance : Std.LawfulEqCmp GroupKey.compare where
  eq_of_compare {a b} h := by
    simp only [GroupKey.compare, Ordering.then_eq_eq, Std.compare_eq_iff_eq] at h
    cases a
    cases b
    simpa using h

theorem isSortable_location (location : α → String × Span) :
    IsSortable fun a b => locationLE (location a) (location b) :=
  (IsSortable.of_compare compareLocation).comp location

theorem isSortable_key (key : α → GroupKey) : IsSortable fun a b => GroupKey.le (key a) (key b) :=
  (IsSortable.of_compare GroupKey.compare).comp key

theorem isSortable_path : IsSortable fun a b : FileFacts => compare a.path b.path != .gt :=
  (IsSortable.of_compare (compare : String → String → Ordering)).comp FileFacts.path

/-- Only what compares as equal is tied. -/
theorem eq_of_le_of_le (cmp : α → α → Ordering) [Std.OrientedCmp cmp] [Std.LawfulEqCmp cmp] {a b : α}
    (hab : cmp a b != .gt) (hba : cmp b a != .gt) : a = b := by
  cases h : cmp a b with
  | eq => exact Std.LawfulEqCmp.eq_of_compare h
  | gt => simp [h] at hab
  | lt => simp [Std.OrientedCmp.gt_of_lt h] at hba

theorem isTied_location_iff {location : α → String × Span} {a b : α} :
    isTied (fun a b => locationLE (location a) (location b)) a b ↔ location a = location b := by
  rw [isTied, Bool.and_eq_true]
  constructor
  · exact fun h => eq_of_le_of_le compareLocation h.1 h.2
  · intro h
    have hrefl := (isSortable_location location).refl
    simp only [h] at hrefl ⊢
    exact ⟨hrefl b, hrefl b⟩

end ApiSurface.Project
