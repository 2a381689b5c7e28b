import ApiSurface.Text.Split

/-!
# Cutting text

Text is cut at the first or the last occurrence of a separator. What is cut off on the far side of
the separator says nothing about where the cut is, so a cut goes through text that is put there
(`splitFirst_append`).

Pieces without separators that are put together with separators between them are found again by
splitting at the separators (`splitOn_join`).
-/

namespace ApiSurface.Text

variable {sep : Char} {l a b : List Char}

theorem splitFirst_eq_none (h : sep ∉ l) : splitFirst sep l = none := by
  induction l with
  | nil => rfl
  | cons c l ih =>
    rw [List.mem_cons, not_or] at h
    rw [splitFirst, if_neg (Ne.symm h.1), ih h.2]
    rfl

/-- Text is cut at a separator in front of which there is no other. -/
theorem splitFirst_append_cons (h : sep ∉ a) : splitFirst sep (a ++ sep :: b) = some (a, b) := by
  induction a with
  | nil => exact if_pos rfl
  | cons c a ih =>
    rw [List.mem_cons, not_or] at h
    rw [List.cons_append, splitFirst, if_neg (Ne.symm h.1), ih h.2]
    rfl

/-- Text with a separator in it is cut at the first one. -/
theorem exists_splitFirst_eq (h : sep ∈ l) :
    ∃ a b, sep ∉ a ∧ l = a ++ sep :: b ∧ splitFirst sep l = some (a, b) := by
  obtain ⟨a, b, rfl, ha⟩ := List.eq_append_cons_of_mem h
  exact ⟨a, b, ha, rfl, splitFirst_append_cons ha⟩

/-- More text behind a text with a separator stays behind the cut. -/
theorem splitFirst_append (h : sep ∈ l) (more : List Char) :
    splitFirst sep (l ++ more) = (splitFirst sep l).map fun (a, b) => (a, b ++ more) := by
  obtain ⟨a, b, ha, rfl, hl⟩ := exists_splitFirst_eq h
  rw [hl, List.append_assoc, List.cons_append, splitFirst_append_cons ha]
  rfl

theorem splitLast_eq_none (h : sep ∉ b) : splitLast sep b = none := by
  induction b with
  | nil => rfl
  | cons c b ih =>
    rw [List.mem_cons, not_or] at h
    rw [splitLast, ih h.2]
    exact if_neg (Ne.symm h.1)

/-- Text is cut at a separator behind which there is no other. -/
theorem splitLast_append (h : sep ∉ b) : splitLast sep (a ++ sep :: b) = some (a, b) := by
  induction a with
  | nil =>
    rw [List.nil_append, splitLast, splitLast_eq_none h]
    exact if_pos rfl
  | cons c a ih => rw [List.cons_append, splitLast, ih]

/-- Text with a separator in it is cut at the last one. -/
theorem exists_splitLast_eq (h : sep ∈ l) :
    ∃ a b, sep ∉ b ∧ l = a ++ sep :: b ∧ splitLast sep l = some (a, b) := by
  obtain ⟨b, a, hl, hb⟩ := List.eq_append_cons_of_mem (List.mem_reverse.mpr h)
  have heq : l = a.reverse ++ sep :: b.reverse := by
    rw [← List.reverse_reverse l, hl]
    simp
  have hb' : sep ∉ b.reverse := mt List.mem_reverse.mp hb
  exact ⟨a.reverse, b.reverse, hb', heq, heq ▸ splitLast_append hb'⟩

/-! ### Pieces between separators -/

theorem splitOn_eq_singleton (h : sep ∉ l) : splitOn sep l = [l] := by
  induction l with
  | nil => rfl
  | cons c l ih =>
    rw [List.mem_cons, not_or] at h
    rw [splitOn, ih h.2]
    exact if_neg (Ne.symm h.1)

/-- The first separator ends the first piece. -/
theorem splitOn_append_cons (h : sep ∉ a) : splitOn sep (a ++ sep :: b) = a :: splitOn sep b := by
  induction a with
  | nil =>
    rw [List.nil_append, splitOn]
    split
    · next hnil => exact absurd hnil (splitOn_ne_nil sep b)
    · next hcons => rw [if_pos rfl, hcons]
  | cons c a ih =>
    rw [List.mem_cons, not_or] at h
    rw [List.cons_append, splitOn, ih h.2]
    exact if_neg (Ne.symm h.1)

/-- Each separator ends a piece. -/
theorem splitOn_append_sep (sep : Char) (a b : List Char) :
    splitOn sep (a ++ sep :: b) = splitOn sep a ++ splitOn sep b := by
  induction a with
  | nil => exact splitOn_append_cons List.not_mem_nil
  | cons c a ih =>
    obtain ⟨p, ps, hps⟩ := List.exists_cons_of_ne_nil (splitOn_ne_nil sep a)
    rw [List.cons_append, splitOn, splitOn, ih, hps]
    dsimp only [List.cons_append]
    split <;> rfl

/-- Splitting a text that is read from its end gives the same pieces, read from theirs. -/
theorem splitOn_reverse (sep : Char) (l : List Char) :
    splitOn sep l.reverse = ((splitOn sep l).map List.reverse).reverse := by
  by_cases h : sep ∈ l
  · obtain ⟨a, b, rfl, ha⟩ := List.eq_append_cons_of_mem h
    rw [List.reverse_append, List.reverse_cons, List.append_assoc, List.singleton_append,
      splitOn_append_sep, splitOn_reverse sep b, splitOn_append_cons ha,
      splitOn_eq_singleton (mt List.mem_reverse.mp ha)]
    simp
  · rw [splitOn_eq_singleton h, splitOn_eq_singleton (mt List.mem_reverse.mp h)]
    rfl
termination_by l.length

theorem notMem_of_mem_splitOn {p : List Char} (h : p ∈ splitOn sep l) : sep ∉ p := by
  induction l generalizing p with
  | nil =>
    rw [splitOn, List.mem_singleton] at h
    exact h ▸ List.not_mem_nil
  | cons c l ih =>
    obtain ⟨q, qs, hq⟩ := List.exists_cons_of_ne_nil (splitOn_ne_nil sep l)
    rw [hq] at ih
    rw [splitOn, hq] at h
    dsimp only at h
    split at h
    · obtain rfl | h := List.mem_cons.mp h
      · exact List.not_mem_nil
      · exact ih h
    · next hc =>
      obtain rfl | h := List.mem_cons.mp h
      · rw [List.mem_cons, not_or]
        exact ⟨Ne.symm hc, ih List.mem_cons_self⟩
      · exact ih (List.mem_cons_of_mem q h)

/-- Pieces that were joined are found again. -/
theorem splitOn_join {pieces : List (List Char)} (hne : pieces ≠ []) (h : ∀ p ∈ pieces, sep ∉ p) :
    splitOn sep (join [sep] pieces) = pieces := by
  induction pieces with
  | nil => exact absurd rfl hne
  | cons p pieces ih =>
    cases pieces with
    | nil => exact splitOn_eq_singleton (h p List.mem_cons_self)
    | cons q pieces =>
      rw [join, List.append_assoc, List.singleton_append,
        splitOn_append_cons (h p List.mem_cons_self),
        ih (List.cons_ne_nil _ _) fun r hr => h r (List.mem_cons_of_mem p hr)]

/-- Every piece but the first one stands behind a separator. -/
theorem join_cons_eq (sep p : List Char) (ps : List (List Char)) :
    join sep (p :: ps) = p ++ ps.flatMap (sep ++ ·) := by
  induction ps generalizing p with
  | nil => exact (List.append_nil p).symm
  | cons q ps ih => rw [join, ih, List.flatMap_cons, List.append_assoc, List.append_assoc]

/-- Joining pieces in two steps joins them all. -/
theorem join_append_singleton_join (sep : List Char) (a : List (List Char)) {b : List (List Char)}
    (hb : b ≠ []) : join sep (a ++ [join sep b]) = join sep (a ++ b) := by
  induction a with
  | nil => rfl
  | cons p a ih =>
    obtain ⟨q, r, hqr⟩ := List.exists_cons_of_ne_nil (List.append_ne_nil_of_right_ne_nil a hb)
    rw [List.cons_append, List.cons_append, hqr, join, ← hqr, ← ih]
    cases a <;> rfl

theorem toList_intercalate (sep : String) (l : List String) :
    (sep.intercalate l).toList = join sep.toList (l.map String.toList) := by
  rw [String.toList_intercalate]
  induction l with
  | nil => rfl
  | cons s l ih =>
    cases l with
    | nil => simp [List.intercalate, join]
    | cons t l =>
      rw [List.map_cons, List.map_cons, join, ← List.map_cons, ← ih]
      simp [List.intercalate]

/-- The pieces that a string was put together from. -/
theorem splitOn_intercalate {l : List String} (hne : l ≠ []) (h : ∀ s ∈ l, sep ∉ s.toList) :
    splitOn sep ((String.singleton sep).intercalate l).toList = l.map String.toList := by
  rw [toList_intercalate, String.toList_singleton]
  exact splitOn_join (mt List.map_eq_nil_iff.mp hne) (List.forall_mem_map.mpr h)

theorem splitString_intercalate {l : List String} (hne : l ≠ []) (h : ∀ s ∈ l, sep ∉ s.toList) :
    splitString sep ((String.singleton sep).intercalate l) = l := by
  rw [splitString, splitOn_intercalate hne h, List.map_map]
  exact List.map_id'' (fun _ => String.ofList_toList) l

end ApiSurface.Text
