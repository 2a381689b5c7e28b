import Mathlib.Data.List.Basic
import ApiSurface.KeyedList

/-!
# Lists with keys

Putting entries with distinct keys into an empty list one after another gives one and the same list,
in whatever order they come (`foldl_insert_eq`).
-/

namespace ApiSurface.KeyedList

variable {α β : Type} {k : α} {v : β} {l es : List (α × β)}

theorem modify_eq_self [DecidableEq α] (f : β → β) (hfresh : k ∉ l.map Prod.fst) :
    modify k f l = l :=
  (List.map_congr_left fun p hp => if_neg fun h : p.1 = k =>
    hfresh (h ▸ List.mem_map_of_mem hp)).trans (List.map_id _)

/-- Where no key stands twice, an entry is found by its key. -/
theorem find?_fst_eq_some [BEq α] [LawfulBEq α] {e : α × β} (hl : (l.map Prod.fst).Nodup)
    (he : e ∈ l) : (l.find? fun d => d.1 == e.1) = some e := by
  induction l with
  | nil => exact absurd he List.not_mem_nil
  | cons d l ih =>
    obtain ⟨hd, hl⟩ := List.nodup_cons.mp hl
    obtain rfl | he := List.mem_cons.mp he
    · exact List.find?_cons_of_pos BEq.rfl
    · have hne : d.1 ≠ e.1 := fun heq => hd (heq ▸ List.mem_map_of_mem he)
      rw [List.find?_cons_of_neg (by simpa using hne), ih hl he]

variable [Ord α]

/-- The keys increase strictly. -/
def IsSorted (l : List (α × β)) : Prop := l.Pairwise fun p q => compare p.1 q.1 = .lt

instance (l : List (α × β)) : Decidable (IsSorted l) :=
  inferInstanceAs (Decidable (l.Pairwise fun p q => compare p.1 q.1 = .lt))

variable [Std.LawfulEqOrd α]

theorem nodup_keys (h : IsSorted l) : (l.map Prod.fst).Nodup := by
  refine List.pairwise_map.mpr (h.imp fun {p q} hlt heq => ?_)
  rw [heq, Std.ReflOrd.compare_self] at hlt
  cases hlt

theorem insert_perm (hfresh : k ∉ l.map Prod.fst) : (insert k v l).Perm ((k, v) :: l) := by
  induction l with
  | nil => rfl
  | cons p l ih =>
    obtain ⟨k', v'⟩ := p
    rw [List.map_cons, List.mem_cons, not_or] at hfresh
    rw [insert]
    split
    · rfl
    · next h => exact absurd (Std.LawfulEqOrd.compare_eq_iff_eq.mp h) hfresh.1
    · exact ((ih hfresh.2).cons _).trans (List.Perm.swap _ _ _)

theorem insert_append_perm {e : α × β} (hfresh : e.1 ∉ l.map Prod.fst) :
    (insert e.1 e.2 l ++ es).Perm (l ++ e :: es) :=
  ((insert_perm hfresh).append_right es).trans List.perm_middle.symm

omit [Ord α] [Std.LawfulEqOrd α] in
theorem notMem_keys {e : α × β} (hkeys : ((l ++ e :: es).map Prod.fst).Nodup) :
    e.1 ∉ l.map Prod.fst := fun he => by
  have hnodup := (List.perm_middle.map Prod.fst).nodup_iff.mp hkeys
  exact (List.nodup_cons.mp hnodup).1 (List.map_subset Prod.fst (List.subset_append_left l es) he)

theorem nodup_keys_insert {e : α × β} (hkeys : ((l ++ e :: es).map Prod.fst).Nodup) :
    ((insert e.1 e.2 l ++ es).map Prod.fst).Nodup :=
  ((insert_append_perm (notMem_keys hkeys)).map Prod.fst).nodup_iff.mpr hkeys

/-- Setting a value and changing it sets the changed value. -/
theorem modify_insert [DecidableEq α] (f : β → β) (hfresh : k ∉ l.map Prod.fst) :
    modify k f (insert k v l) = insert k (f v) l := by
  induction l with
  | nil => exact congrArg (· :: []) (if_pos rfl)
  | cons p l ih =>
    obtain ⟨k', v'⟩ := p
    have hself := modify_eq_self f hfresh
    rw [List.map_cons, List.mem_cons, not_or] at hfresh
    rw [insert, insert]
    split
    · rw [modify, List.map_cons, ← modify, hself]
      exact congrArg (· :: _) (if_pos rfl)
    · next h => exact absurd (Std.LawfulEqOrd.compare_eq_iff_eq.mp h) hfresh.1
    · rw [modify, List.map_cons, ← modify, ih hfresh.2]
      exact congrArg (· :: _) (if_neg (Ne.symm hfresh.1))

variable [Std.TransOrd α]

theorem isSorted_insert (h : IsSorted l) (hfresh : k ∉ l.map Prod.fst) :
    IsSorted (insert k v l) := by
  induction l with
  | nil => exact List.pairwise_singleton _ _
  | cons p l ih =>
    obtain ⟨k', v'⟩ := p
    have hnot := hfresh
    rw [List.map_cons, List.mem_cons, not_or] at hnot
    obtain ⟨hhead, htail⟩ := List.pairwise_cons.mp h
    rw [insert]
    split
    · next hlt =>
      refine List.pairwise_cons.mpr ⟨fun q hq => ?_, h⟩
      rcases List.mem_cons.mp hq with rfl | hq
      · exact hlt
      · exact Std.TransCmp.lt_trans hlt (hhead q hq)
    · next heq => exact absurd (Std.LawfulEqOrd.compare_eq_iff_eq.mp heq) hnot.1
    · next hgt =>
      refine List.pairwise_cons.mpr ⟨fun q hq => ?_, ih htail hnot.2⟩
      rcases List.mem_cons.mp ((insert_perm hnot.2).mem_iff.mp hq) with rfl | hq
      · exact Std.OrientedCmp.gt_iff_lt.mp hgt
      · exact hhead q hq

/-- Entries with new keys come to what is there, in order. -/
theorem foldl_insert_perm (hl : IsSorted l) (hkeys : ((l ++ es).map Prod.fst).Nodup) :
    IsSorted (es.foldl (fun l e => insert e.1 e.2 l) l) ∧
      (es.foldl (fun l e => insert e.1 e.2 l) l).Perm (l ++ es) := by
  induction es generalizing l with
  | nil => exact ⟨hl, (List.append_nil l).symm ▸ .refl _⟩
  | cons e es ih =>
    have hfresh := notMem_keys hkeys
    obtain ⟨hsorted, hfold⟩ := ih (isSorted_insert hl hfresh) (nodup_keys_insert hkeys)
    exact ⟨hsorted, hfold.trans (insert_append_perm hfresh)⟩

/-- **One list for each content.** -/
theorem foldl_insert_eq (hl : IsSorted l) (hperm : es.Perm l) :
    es.foldl (fun l e => insert e.1 e.2 l) [] = l := by
  have hkeys : (([] ++ es).map Prod.fst).Nodup :=
    (hperm.map Prod.fst).nodup_iff.mpr (nodup_keys hl)
  obtain ⟨hsorted, hfold⟩ := foldl_insert_perm List.Pairwise.nil hkeys
  -- two strictly sorted lists with the same entries are equal
  refine List.Perm.eq_of_pairwise (fun p q _ _ hpq hqp => ?_) hsorted hl (hfold.trans hperm)
  exact absurd (hpq.symm.trans (Std.OrientedCmp.gt_iff_lt.mpr hqp)) (by decide)

end ApiSurface.KeyedList
