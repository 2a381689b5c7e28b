import Mathlib.Data.List.Basic
import ApiSurface.Proofs.Routing.Join
import ApiSurface.Proofs.Text.Cutting

/-!
# Segments of joined paths

A joined path begins with a slash, has no two slashes in a row, keeps the segments of its fragments
and ends as they do (`IsJoined`). These conditions leave no choice: a text without two slashes in a
row is its segments, each behind a slash, with one more slash if it ends with one
(`eq_rooted_segmentsOf`). So the joined path is the only text that meets them
(`isJoined_iff_eq_joinPaths`).
-/

namespace ApiSurface.Routing

open ApiSurface.Text (endsWith splitOn splitOn_append_cons splitOn_append_sep
  splitOn_eq_singleton splitOn_ne_nil splitString startsWith)

variable {a b l t : List Char} {xs : List (List Char)}

/-- The non-empty pieces of a text between its slashes. -/
def segmentsOf (l : List Char) : List (List Char) := (splitOn '/' l).filter (· ≠ [])

/-- The non-empty pieces of a path between its slashes. -/
def segments (path : String) : List String := (splitString '/' path).filter (· ≠ "")

/-- The last fragment with any text in it. -/
def lastFragment? (parts : List String) : Option String := (parts.filter (· ≠ "")).getLast?

/-- What is asked of the path that fragments are joined to. -/
structure IsJoined (parts : List String) (path : String) : Prop where
  rooted : startsWith path "/"
  single : ¬ ['/', '/'] <:+: path.toList
  segments_eq : segments path = parts.flatMap segments
  ending : segments path ≠ [] →
    ∃ part, lastFragment? parts = some part ∧ endsWith path "/" = endsWith part "/"

/-! ### Segments -/

theorem segmentsOf_append_slash (a b : List Char) :
    segmentsOf (a ++ '/' :: b) = segmentsOf a ++ segmentsOf b := by
  rw [segmentsOf, splitOn_append_sep, List.filter_append]
  rfl

theorem segmentsOf_slash (l : List Char) : segmentsOf ('/' :: l) = segmentsOf l :=
  segmentsOf_append_slash [] l

theorem segmentsOf_of_notMem (h : '/' ∉ l) (hne : l ≠ []) : segmentsOf l = [l] := by
  rw [segmentsOf, splitOn_eq_singleton h]
  simp [hne]

theorem segments_ofList (l : List Char) :
    segments (String.ofList l) = (segmentsOf l).map String.ofList := by
  rw [segments, segmentsOf, splitString, String.toList_ofList, List.filter_map]
  exact congrArg _ (List.filter_congr fun p _ => by simp [String.ofList_eq_empty_iff])

theorem map_toList_segments (path : String) :
    (segments path).map String.toList = segmentsOf path.toList := by
  rw [← String.ofList_toList (s := path), segments_ofList, List.map_map, String.toList_ofList]
  exact List.map_id'' (fun _ => String.toList_ofList) _

/-! ### Collapsed slashes -/

/-- Collapsing leaves the first piece as it is, so that a character in front of the text goes into
the same segment. -/
theorem splitOn_collapse (l : List Char) :
    ∃ p ps qs, splitOn '/' (collapse l) = p :: ps ∧ splitOn '/' l = p :: qs ∧
      ps.filter (· ≠ []) = qs.filter (· ≠ []) := by
  fun_induction collapse l with
  | case1 => exact ⟨[], [], [], rfl, rfl, rfl⟩
  | case2 c =>
    obtain ⟨p, ps, h⟩ := List.exists_cons_of_ne_nil (splitOn_ne_nil '/' [c])
    exact ⟨p, ps, ps, h, h, rfl⟩
  | case3 c d r h ih =>
    obtain ⟨rfl, rfl⟩ := h
    obtain ⟨p, ps, qs, hps, hqs, heq⟩ := ih
    have hnil : splitOn '/' ('/' :: '/' :: r) = [] :: p :: qs := by
      rw [← hqs]
      exact splitOn_append_cons (a := []) List.not_mem_nil
    have hp : p = [] := by
      rw [← List.nil_append ('/' :: r), splitOn_append_cons List.not_mem_nil] at hqs
      exact (List.cons.inj hqs).1.symm
    subst hp
    exact ⟨[], ps, [] :: qs, hps, hnil, heq⟩
  | case4 c d r h ih =>
    obtain ⟨p, ps, qs, hps, hqs, heq⟩ := ih
    rw [splitOn, splitOn, hps, hqs]
    by_cases hc : c = '/'
    · refine ⟨[], p :: ps, p :: qs, if_pos hc, if_pos hc, ?_⟩
      rw [List.filter_cons, List.filter_cons, heq]
    · exact ⟨c :: p, ps, qs, if_neg hc, if_neg hc, heq⟩

theorem segmentsOf_collapse (l : List Char) : segmentsOf (collapse l) = segmentsOf l := by
  obtain ⟨p, ps, qs, hps, hqs, heq⟩ := splitOn_collapse l
  rw [segmentsOf, segmentsOf, hps, hqs, List.filter_cons, List.filter_cons, heq]

theorem not_isInfix_collapse (l : List Char) : ¬ ['/', '/'] <:+: collapse l := by
  fun_induction collapse l with
  | case1 => simp
  | case2 c => simp [List.infix_cons_iff]
  | case3 c d r h ih => exact ih
  | case4 c d r h ih =>
    obtain ⟨t, ht⟩ := exists_collapse_cons d r
    rw [List.infix_cons_iff, not_or]
    refine ⟨fun hpre => h ?_, ih⟩
    rw [ht, List.cons_prefix_cons, List.cons_prefix_cons] at hpre
    exact ⟨hpre.1.symm, hpre.2.1.symm⟩

theorem getLast?_collapse (l : List Char) : (collapse l).getLast? = l.getLast? := by
  fun_induction collapse l with
  | case1 => rfl
  | case2 c => rfl
  | case3 c d r h ih => rw [ih, List.getLast?_cons_cons]
  | case4 c d r h ih =>
    obtain ⟨t, ht⟩ := exists_collapse_cons d r
    rw [ht] at ih ⊢
    rw [List.getLast?_cons_cons, ih, List.getLast?_cons_cons]

/-! ### Rooted fragments -/

theorem rooted_cons (hne : a ≠ []) (xs : List (List Char)) :
    rooted (a :: xs) = '/' :: a ++ rooted xs := by
  rw [rooted, List.flatMap_cons, List.isEmpty_eq_false_iff.mpr hne]
  rfl

theorem segmentsOf_rooted (xs : List (List Char)) :
    segmentsOf (rooted xs) = xs.flatMap segmentsOf := by
  induction xs with
  | nil => rfl
  | cons p xs ih =>
    rw [List.flatMap_cons, ← ih]
    by_cases hp : p = []
    · subst hp
      rfl
    · rw [rooted_cons hp]
      rcases rooted_eq_nil_or_cons xs with h | ⟨r, h⟩
      · rw [h, List.append_nil, segmentsOf_slash]
        exact (List.append_nil _).symm
      · rw [h, segmentsOf_append_slash, segmentsOf_slash, segmentsOf_slash]

/-- Fragments without text do not count. -/
theorem rooted_filter (xs : List (List Char)) : rooted (xs.filter (· ≠ [])) = rooted xs := by
  induction xs with
  | nil => rfl
  | cons p xs ih =>
    by_cases hp : p = []
    · subst hp
      exact ih
    · rw [List.filter_cons_of_pos (by simpa using hp), rooted_cons hp, rooted_cons hp, ih]

/-- Rooted fragments end as the last one with any text does. -/
theorem getLast?_rooted (hlast : (xs.filter (· ≠ [])).getLast? = some l) :
    (rooted xs).getLast? = l.getLast? := by
  obtain ⟨before, hbefore⟩ := List.getLast?_eq_some_iff.mp hlast
  have hne : l ≠ [] := by
    have hmem : l ∈ xs.filter (· ≠ []) := List.mem_of_getLast? hlast
    simpa using (List.mem_filter.mp hmem).2
  have hrooted : rooted xs = rooted before ++ '/' :: l := by
    rw [← rooted_filter, hbefore, rooted_append, rooted_cons hne]
    simp [rooted]
  rw [hrooted, List.getLast?_append_of_ne_nil _ (List.cons_ne_nil '/' l)]
  obtain ⟨c, r, rfl⟩ := List.exists_cons_of_ne_nil hne
  exact List.getLast?_cons_cons

/-! ### The only text with the segments -/

/-- The slash at the end of a text, if there is one. -/
def lastSlash (l : List Char) : List Char := if l.getLast? = some '/' then ['/'] else []

theorem eq_slash_of_lastSlash {c : Char} (h : lastSlash (c :: l) = c :: t) :
    lastSlash (c :: l) = ['/'] := by
  unfold lastSlash at h ⊢
  split
  · rfl
  · next hlast => simp [hlast] at h

theorem lastSlash_congr (h : l.getLast? = some '/' ↔ t.getLast? = some '/') :
    lastSlash l = lastSlash t := by
  simp only [lastSlash, h]

/-- **Segments spell the text.** A text that begins with a slash and has no two in a row is its
segments, each behind a slash, up to a slash at the end. -/
theorem eq_rooted_segmentsOf (t : List Char) (h : ¬ ['/', '/'] <:+: '/' :: t) :
    '/' :: t = rooted (segmentsOf t) ++ lastSlash ('/' :: t) := by
  -- from one slash to the next, each time one segment
  induction hn : t.length using Nat.strongRecOn generalizing t with
  | ind n ih =>
    by_cases hslash : '/' ∈ t
    · obtain ⟨a, b, rfl, ha⟩ := List.eq_append_cons_of_mem hslash
      have hne : a ≠ [] := by
        rintro rfl
        exact h ⟨[], b, rfl⟩
      have htail : ¬ ['/', '/'] <:+: '/' :: b := fun hin =>
        h (hin.trans (List.suffix_append ('/' :: a) ('/' :: b)).isInfix)
      have hrest := ih b.length (by simp [← hn]; omega) b htail rfl
      have hlast : lastSlash ('/' :: (a ++ '/' :: b)) = lastSlash ('/' :: b) := by
        rw [lastSlash, lastSlash, ← List.cons_append,
          List.getLast?_append_of_ne_nil _ (List.cons_ne_nil '/' b)]
      rw [hlast, segmentsOf_append_slash, segmentsOf_of_notMem ha hne, List.singleton_append,
        rooted_cons hne, List.append_assoc, ← hrest, List.cons_append]
    · by_cases hne : t = []
      · subst hne
        rfl
      · obtain ⟨c, r, rfl⟩ := List.exists_cons_of_ne_nil hne
        have hend : (c :: r).getLast? ≠ some '/' := fun hlast => hslash (List.mem_of_getLast? hlast)
        rw [segmentsOf_of_notMem hslash hne, rooted_cons hne, lastSlash, List.getLast?_cons_cons,
          if_neg hend]
        simp [rooted]

/-! ### Paths -/

theorem startsWith_slash_iff (s : String) : startsWith s "/" ↔ ∃ t, s.toList = '/' :: t := by
  rw [startsWith, List.isPrefixOf_iff_prefix]
  constructor
  · rintro ⟨t, ht⟩
    exact ⟨t, ht.symm⟩
  · rintro ⟨t, ht⟩
    exact ⟨t, ht.symm⟩

theorem endsWith_slash (s : String) :
    endsWith s "/" = decide (s.toList.getLast? = some '/') := by
  rw [Bool.eq_iff_iff, endsWith, List.isSuffixOf_iff_suffix, decide_eq_true_iff,
    List.getLast?_eq_some_iff]
  constructor
  · rintro ⟨t, ht⟩
    exact ⟨t, ht.symm⟩
  · rintro ⟨t, ht⟩
    exact ⟨t, ht.symm⟩

theorem getLast?_joinPaths {parts : List String} {part : String}
    (h : lastFragment? parts = some part) :
    (joinPaths parts).toList.getLast? = part.toList.getLast? := by
  have hne : part ≠ "" := by simpa using (List.mem_filter.mp (List.mem_of_getLast? h)).2
  have hfilter : (parts.map String.toList).filter (· ≠ [])
      = (parts.filter (· ≠ "")).map String.toList := by
    rw [List.filter_map]
    exact congrArg _ (List.filter_congr fun p _ => by simp)
  have hlast : ((parts.map String.toList).filter (· ≠ [])).getLast? = some part.toList := by
    rw [hfilter, List.getLast?_map, ← lastFragment?, h, Option.map_some]
  obtain ⟨c, r, hcr⟩ := List.exists_cons_of_ne_nil (mt String.toList_eq_nil_iff.mp hne)
  have hrooted := getLast?_rooted hlast
  rw [joinPaths, String.toList_ofList, joinChars_eq_collapse, getLast?_collapse,
    List.getLast?_cons, hrooted, hcr]
  rfl

theorem segments_joinPaths (parts : List String) :
    segments (joinPaths parts) = parts.flatMap segments := by
  rw [joinPaths, segments_ofList, joinChars_eq_collapse, segmentsOf_collapse, segmentsOf_slash,
    segmentsOf_rooted, List.flatMap_map, List.map_flatMap]
  congr 1
  funext part
  rw [← segments_ofList, String.ofList_toList]

/-- Where there is a segment, there is a fragment with text. -/
theorem exists_lastFragment? {parts : List String} (h : parts.flatMap segments ≠ []) :
    ∃ part, lastFragment? parts = some part := by
  rw [← Option.ne_none_iff_exists', lastFragment?, Ne, List.getLast?_eq_none_iff]
  intro hnil
  refine h (List.flatMap_eq_nil_iff.mpr fun part hpart => ?_)
  have hempty : part = "" := by simpa using List.filter_eq_nil_iff.mp hnil part hpart
  subst hempty
  decide

theorem isJoined_joinPaths (parts : List String) : IsJoined parts (joinPaths parts) where
  rooted := by
    obtain ⟨t, ht⟩ := exists_joinChars_eq_cons (parts.map String.toList)
    rw [startsWith_slash_iff, joinPaths, String.toList_ofList]
    exact ⟨t, ht⟩
  single := by
    rw [joinPaths, String.toList_ofList, joinChars_eq_collapse]
    exact not_isInfix_collapse _
  segments_eq := segments_joinPaths parts
  ending h := by
    rw [segments_joinPaths] at h
    obtain ⟨part, hpart⟩ := exists_lastFragment? h
    refine ⟨part, hpart, ?_⟩
    rw [endsWith_slash, endsWith_slash, getLast?_joinPaths hpart]

/-- The conditions leave no choice. -/
theorem IsJoined.unique {parts : List String} {path path' : String} (h : IsJoined parts path)
    (h' : IsJoined parts path') : path = path' := by
  obtain ⟨t, ht⟩ := (startsWith_slash_iff path).mp h.rooted
  obtain ⟨t', ht'⟩ := (startsWith_slash_iff path').mp h'.rooted
  have hsegments : segmentsOf t = segmentsOf t' := by
    rw [← segmentsOf_slash, ← segmentsOf_slash t', ← ht, ← ht', ← map_toList_segments,
      ← map_toList_segments, h.segments_eq, h'.segments_eq]
  have hspell := eq_rooted_segmentsOf t (ht ▸ h.single)
  have hspell' := eq_rooted_segmentsOf t' (ht' ▸ h'.single)
  have hslash : lastSlash ('/' :: t) = lastSlash ('/' :: t') := by
    by_cases hnil : segmentsOf t = []
    · -- without a segment there is nothing but the slash at the end
      rw [hnil] at hspell
      rw [← hsegments, hnil] at hspell'
      rw [eq_slash_of_lastSlash hspell.symm, eq_slash_of_lastSlash hspell'.symm]
    · have hne : segments path ≠ [] ∧ segments path' ≠ [] := by
        rw [h'.segments_eq, ← h.segments_eq, and_self]
        intro hpath
        rw [← segmentsOf_slash, ← ht, ← map_toList_segments, hpath] at hnil
        exact hnil rfl
      obtain ⟨part, hpart, hends⟩ := h.ending hne.1
      obtain ⟨part', hpart', hends'⟩ := h'.ending hne.2
      rw [Option.some.inj (hpart'.symm.trans hpart), ← hends, endsWith_slash, endsWith_slash, ht,
        ht', decide_eq_decide] at hends'
      exact lastSlash_congr hends'.symm
  rw [← String.toList_inj, ht, ht', hspell, hspell', hsegments, hslash]

/-- **Joining fragments.** The joined path is the one text that begins with a slash, has no two
slashes in a row, has the segments of the fragments in order, and, if it has one, ends with a slash
as the last fragment with text does. So a path that was joined before can be joined with more
fragments, and joining it alone changes nothing. -/
theorem isJoined_iff_eq_joinPaths (parts : List String) :
    (∀ path, IsJoined parts path ↔ path = joinPaths parts) ∧
    (∀ more, joinPaths (joinPaths parts :: more) = joinPaths (parts ++ more)) ∧
    joinPaths [joinPaths parts] = joinPaths parts := by
  refine ⟨fun path => ⟨fun h => h.unique (isJoined_joinPaths parts), ?_⟩,
    joinPaths_cons_joinPaths parts, ?_⟩
  · rintro rfl
    exact isJoined_joinPaths parts
  · rw [joinPaths_cons_joinPaths, List.append_nil]

example : segments (joinPaths ["//api", "", "v1//items", "/"]) = ["api", "v1", "items"] := by decide

end ApiSurface.Routing
