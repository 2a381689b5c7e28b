import Mathlib.Order.Monotone.Basic
import Mathlib.Data.List.Nodup
import ApiSurface.Project.Classes

/-!
# Lists with further elements

Groups and classes are known by their indices, and further elements in a list shift them. Where the
elements that are kept stand in the whole list is told by `keptIndex`, which is strictly monotone. A
search that only a kept element can satisfy finds the same element with and without the others, at
indices that `keptIndex` connects.
-/

namespace ApiSurface.Project

variable {α β : Type} {keep p q : α → Bool} {l : List α}

/-- The index in the whole list of the kept element with an index among the kept ones. -/
def keptIndex (keep : α → Bool) : List α → Nat → Nat
  | [], i => i
  | a :: r, i =>
    if keep a then
      match i with
      | 0 => 0
      | i + 1 => keptIndex keep r i + 1
    else keptIndex keep r i + 1

theorem strictMono_keptIndex (keep : α → Bool) (l : List α) : StrictMono (keptIndex keep l) := by
  induction l with
  | nil => exact strictMono_id
  | cons a r ih =>
    intro i j hij
    by_cases ha : keep a
    · cases i with
      | zero => cases j with
        | zero => omega
        | succ j => simp [keptIndex, ha]
      | succ i => cases j with
        | zero => omega
        | succ j =>
          simp only [keptIndex, ha, if_true]
          exact Nat.succ_lt_succ (ih (Nat.lt_of_succ_lt_succ hij))
    · simp only [keptIndex, ha]
      exact Nat.succ_lt_succ (ih hij)

theorem injective_keptIndex (keep : α → Bool) (l : List α) :
    Function.Injective (keptIndex keep l) := (strictMono_keptIndex keep l).injective

theorem getElem?_keptIndex (keep : α → Bool) (l : List α) (i : Nat) :
    l[keptIndex keep l i]? = (l.filter keep)[i]? := by
  induction l generalizing i with
  | nil => rfl
  | cons a r ih =>
    by_cases ha : keep a
    · cases i with
      | zero => simp [keptIndex, ha]
      | succ i => simp [keptIndex, ha, ih]
    · simp [keptIndex, ha, ih]

/-- Every kept element has an index among the kept ones. -/
theorem exists_keptIndex {j : Nat} {a : α} (hj : l[j]? = some a) (ha : keep a) :
    ∃ i, keptIndex keep l i = j := by
  induction l generalizing j with
  | nil => cases hj
  | cons b r ih =>
    cases j with
    | zero =>
      obtain rfl : b = a := by simpa using hj
      exact ⟨0, by simp [keptIndex, ha]⟩
    | succ j =>
      obtain ⟨i, rfl⟩ := ih (by simpa using hj)
      by_cases hb : keep b
      · exact ⟨i + 1, by simp [keptIndex, hb]⟩
      · exact ⟨i, by simp [keptIndex, hb]⟩

/-! ### Searching -/

theorem lastIndex?_keptIndex (hp : ∀ a ∈ l, p a → keep a) :
    lastIndex? p l = (lastIndex? p (l.filter keep)).map (keptIndex keep l) := by
  induction l with
  | nil => rfl
  | cons a r ih =>
    rw [lastIndex?, ih fun b hb => hp b (List.mem_cons_of_mem a hb)]
    by_cases ha : keep a
    · rw [List.filter_cons_of_pos ha, lastIndex?]
      cases lastIndex? p (r.filter keep) with
      | none => by_cases hpa : p a <;> simp [hpa, keptIndex, ha]
      | some i => simp [keptIndex, ha]
    · have hpa : p a = false := Bool.eq_false_iff.mpr fun h => ha (hp a List.mem_cons_self h)
      rw [List.filter_cons_of_neg ha]
      cases lastIndex? p (r.filter keep) with
      | none => simp [hpa]
      | some i => simp [keptIndex, ha]

theorem lastIndex?_congr (hpq : ∀ a ∈ l, p a = q a) : lastIndex? p l = lastIndex? q l := by
  induction l with
  | nil => rfl
  | cons a r ih =>
    rw [lastIndex?, lastIndex?, ih fun b hb => hpq b (List.mem_cons_of_mem a hb),
      hpq a List.mem_cons_self]

/-- The element at the last index is the first one from behind. -/
theorem getElem?_lastIndex? (p : α → Bool) (l : List α) :
    ((lastIndex? p l).bind fun i => l[i]?) = l.reverse.find? p := by
  induction l with
  | nil => rfl
  | cons a r ih =>
    rw [lastIndex?, List.reverse_cons, List.find?_append, ← ih]
    cases h : lastIndex? p r with
    | none => by_cases ha : p a <;> simp [ha]
    | some i => simp [List.getElem?_eq_getElem (lastIndex?_lt h)]

theorem mem_indices_iff {i : Nat} : i ∈ indices p l ↔ ∃ a, l[i]? = some a ∧ p a := by
  rw [indices, List.mem_filter, List.mem_range, Option.any_eq_true]
  refine ⟨fun h => h.2, fun ⟨a, hi, ha⟩ => ⟨(List.getElem?_eq_some_iff.mp hi).1, a, hi, ha⟩⟩

theorem pairwise_indices (p : α → Bool) (l : List α) : (indices p l).Pairwise (· < ·) :=
  List.pairwise_lt_range.filter _

theorem indices_keptIndex (hp : ∀ a ∈ l, p a → keep a) :
    indices p l = (indices p (l.filter keep)).map (keptIndex keep l) := by
  have hsorted : ((indices p (l.filter keep)).map (keptIndex keep l)).Pairwise (· < ·) :=
    (pairwise_indices p _).map _ fun _ _ hij => strictMono_keptIndex keep l hij
  have hperm : (indices p l).Perm ((indices p (l.filter keep)).map (keptIndex keep l)) := by
    refine (List.perm_ext_iff_of_nodup ((pairwise_indices p l).imp Nat.ne_of_lt)
      (hsorted.imp Nat.ne_of_lt)).mpr fun j => ?_
    simp only [List.mem_map, mem_indices_iff, ← getElem?_keptIndex keep l]
    constructor
    · rintro ⟨a, hj, ha⟩
      obtain ⟨i, rfl⟩ := exists_keptIndex hj (hp a (List.mem_of_getElem? hj) ha)
      exact ⟨i, ⟨a, hj, ha⟩, rfl⟩
    · rintro ⟨i, h, rfl⟩
      exact h
  exact hperm.eq_of_pairwise (fun _ _ _ _ hab hba => absurd hab (Nat.lt_asymm hba))
    (pairwise_indices p l) hsorted

/-! ### Mapping with indices -/

/-- What the kept elements become, each by its index in the whole list. -/
theorem filter_filterMap_mapIdx {kept : β → Bool} (l : List α) (f : Nat → α → Option β)
    (hf : ∀ i a b, f i a = some b → kept b = keep a) :
    ((l.mapIdx f).filterMap id).filter kept
      = ((l.filter keep).mapIdx fun i => f (keptIndex keep l i)).filterMap id := by
  induction l generalizing f with
  | nil => rfl
  | cons a r ih =>
    have hr := ih (fun i => f (i + 1)) fun i => hf (i + 1)
    rw [List.mapIdx_cons, List.filterMap_cons]
    by_cases ha : keep a
    · rw [List.filter_cons_of_pos ha, List.mapIdx_cons, List.filterMap_cons]
      simp only [keptIndex, ha, if_true]
      cases h0 : f 0 a with
      | none => simpa [h0] using hr
      | some b => simpa [h0, hf 0 a b h0, ha] using hr
    · rw [List.filter_cons_of_neg ha]
      simp only [keptIndex, ha]
      cases h0 : f 0 a with
      | none => simpa [h0] using hr
      | some b => simpa [h0, hf 0 a b h0, ha] using hr

private theorem filterMap_mapIdx_some (l : List α) (f : Nat → α → β) :
    (l.mapIdx fun i a => some (f i a)).filterMap id = l.mapIdx f := by
  induction l generalizing f with
  | nil => rfl
  | cons a r ih => simpa using ih fun i => f (i + 1)

theorem filter_mapIdx {kept : β → Bool} (l : List α) (f : Nat → α → β)
    (hf : ∀ i a, kept (f i a) = keep a) :
    (l.mapIdx f).filter kept = (l.filter keep).mapIdx fun i => f (keptIndex keep l i) := by
  rw [← filterMap_mapIdx_some l, ← filterMap_mapIdx_some (l.filter keep)]
  refine filter_filterMap_mapIdx l (fun i a => some (f i a)) fun i a b h => ?_
  obtain rfl := Option.some.inj h
  exact hf i a

end ApiSurface.Project
