import ApiSurface.Routing.Path

/-!
# Joining joined paths

A path that was joined before is a fragment like any other: joining it with more fragments gives
the path of all fragments at once (`joinPaths_cons_joinPaths`). So the fragments of a chain of
prefixes may be joined level by level or in one list.

Behind it stands the law of runs, `collapse_append`: slashes that were collapsed once collapse to
the same text behind whatever follows.
-/

namespace ApiSurface.Routing

/-! ### Runs of slashes -/

@[simp] theorem collapse_nil : collapse [] = [] := rfl

theorem collapse_slash_slash (r : List Char) :
    collapse ('/' :: '/' :: r) = collapse ('/' :: r) := by
  simp [collapse]

/-- Collapsing keeps the first character. -/
theorem exists_collapse_cons (c : Char) (r : List Char) : ∃ t, collapse (c :: r) = c :: t := by
  induction r generalizing c with
  | nil => exact ⟨[], rfl⟩
  | cons d r ih =>
    by_cases h : c = '/' ∧ d = '/'
    · obtain ⟨rfl, rfl⟩ := h
      rw [collapse_slash_slash]
      exact ih '/'
    · exact ⟨collapse (d :: r), by rw [collapse, if_neg h]⟩

/-- **Law of runs.** A text may be collapsed before more text is put behind it. -/
theorem collapse_append (a b : List Char) : collapse (collapse a ++ b) = collapse (a ++ b) := by
  fun_induction collapse a with
  | case1 => rfl
  | case2 c => rfl
  | case3 c d r h ih =>
    obtain ⟨rfl, rfl⟩ := h
    rw [ih]
    exact (collapse_slash_slash (r ++ b)).symm
  | case4 c d r h ih =>
    -- the collapsed rest still begins with `d`, so no new run arises behind `c`
    obtain ⟨t, ht⟩ := exists_collapse_cons d r
    rw [ht] at ih ⊢
    simp only [List.cons_append, collapse, if_neg h] at ih ⊢
    rw [ih]

/-! ### Fragments -/

theorem rooted_append (xs ys : List (List Char)) : rooted (xs ++ ys) = rooted xs ++ rooted ys :=
  List.flatMap_append

/-- Rooted fragments begin with a slash, unless there is no text. -/
theorem rooted_eq_nil_or_cons (xs : List (List Char)) :
    rooted xs = [] ∨ ∃ r, rooted xs = '/' :: r := by
  induction xs with
  | nil => exact .inl rfl
  | cons p xs ih =>
    cases p with
    | nil => exact ih
    | cons c p => exact .inr ⟨c :: p ++ rooted xs, rfl⟩

/-- One more slash in front does not count, so that the path without any text is no special
case. -/
theorem joinChars_eq_collapse (xs : List (List Char)) :
    joinChars xs = collapse ('/' :: rooted xs) := by
  rcases rooted_eq_nil_or_cons xs with h | ⟨r, h⟩
  · simp [joinChars, h, collapse]
  · obtain ⟨t, ht⟩ := exists_collapse_cons '/' r
    rw [joinChars, h, collapse_slash_slash, ht]

/-- A joined path begins with a slash. -/
theorem exists_joinChars_eq_cons (xs : List (List Char)) : ∃ t, joinChars xs = '/' :: t := by
  rw [joinChars_eq_collapse]
  exact exists_collapse_cons '/' (rooted xs)

/-- A joined path is a fragment like any other. -/
theorem joinChars_cons_joinChars (xs ys : List (List Char)) :
    joinChars (joinChars xs :: ys) = joinChars (xs ++ ys) := by
  obtain ⟨t, ht⟩ := exists_joinChars_eq_cons xs
  calc joinChars (joinChars xs :: ys)
      = collapse ('/' :: '/' :: '/' :: (t ++ rooted ys)) := by
        rw [joinChars_eq_collapse, ht]
        rfl
    _ = collapse (joinChars xs ++ rooted ys) := by
        rw [collapse_slash_slash, collapse_slash_slash, ht, List.cons_append]
    _ = collapse ('/' :: rooted (xs ++ ys)) := by
        rw [joinChars_eq_collapse, collapse_append, rooted_append, List.cons_append]
    _ = joinChars (xs ++ ys) := (joinChars_eq_collapse _).symm

/-- **Joining is flat.** A path that was joined before may be joined with more fragments, or all
fragments at once. -/
theorem joinPaths_cons_joinPaths (xs ys : List String) :
    joinPaths (joinPaths xs :: ys) = joinPaths (xs ++ ys) := by
  simp only [joinPaths, List.map_cons, String.toList_ofList, joinChars_cons_joinChars,
    List.map_append]

example : joinPaths [joinPaths ["/api/", ""], "v1", "/"] = "/api/v1/" := by decide

end ApiSurface.Routing
